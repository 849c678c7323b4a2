import Mathlib.Data.List.Induction
import Kpded2.DatagramSize
import Kpded2.MessageLinks

/-!
# How many messages a client may have pending

A message is queued in the node behind the last pending one, so a node that is freed is
used again only after all messages behind it have gone. A list that never becomes empty
climbs through `messageListData` and overflows with few messages in it. The count of the
messages queued since the list was last empty is no part of the server.
-/
namespace MessageSlots
open ClientDatagram DatagramSize MessageList NetChan NodeLinks Outcome Protocol SizeBuf StepRuns

/-- The last node that may be used. -/
def lastNode : Nat := maxMessagesPerList - 2

structure Placed (m : Messages) : Prop where
  sorted : (0 :: m.list).Pairwise (· < ·)
  bounded : ∀ i ∈ m.list, i ≤ lastNode

def pending (client : Client) : Nat := client.messages.list.length

/-- The node of the last pending message, `msgListEnd`. -/
def listEnd (client : Client) : Nat := client.messages.list.getLastD 0

/-- A message that gets as far as the search for its node. -/
def accepts (forceReconnect : Bool) (client : Client) (msg : Msgbuff) (reliable : Bool) : Bool :=
  !refusesMessage forceReconnect client reliable &&
    (checkLayout client.control msg reliable).isSome

/-- `Index overflow` is reported. -/
def reportsOverflow (forceReconnect : Bool) (client : Client) (msg : Msgbuff) (reliable : Bool) :
    Bool :=
  accepts forceReconnect client msg reliable &&
    decide (nextIndex client.messages ≥ maxMessagesPerList - 1)

/-- The arguments of `SV_AddMessageSingle`. -/
structure Addition where
  forceReconnect : Bool
  msg : Msgbuff
  reliable : Bool

/-- The message that a call adds: a datagram adds the sound that its frame registers. -/
def adds (client : Client) : Op → Option Addition
  | .add forceReconnect msg reliable => some ⟨forceReconnect, msg, reliable⟩
  | .datagram env _ _ _ _ =>
    let silent := (env.curtime + 2 ^ 32 - client.control.netchan.lastReceived) % 2 ^ 32 > 5000
    if client.control.state = .spawned ∧ ¬(silent ∧ !env.demofile) ∧ !client.control.nodata then
      env.registered.map fun index => ⟨env.forceReconnect, soundMessage index, true⟩
    else none
  | _ => none

/-- The report comes with so many messages pending as the comment on
`MAX_MESSAGES_PER_LIST` says. -/
def OverflowsFull (s : Except Stop Client) (op : Op) : Prop :=
  match s with
  | .ok client => ∀ a ∈ adds client op,
    reportsOverflow a.forceReconnect client a.msg a.reliable = true →
      maxMessagesPerList - 2 ≤ pending client
  | .error _ => True

/-! ## What has been queued since the list was empty -/

/-- The messages queued since the list was last empty, less those that have been deleted
from its end: `after` is the list behind a call. -/
def count (before after : Messages) (queued : Nat) : Nat :=
  match after.list.getLast? with
  | none => 0
  | some last =>
    if last ∈ before.list then queued - (before.list.filter (last < ·)).length else queued + 1

/-- A call, and the count behind it. -/
def countedStep (c : Except Stop Client × Nat) (op : Op) : Except Stop Client × Nat :=
  (step c.1 op,
    match c.1, step c.1 op with
    | .ok before, .ok after => count before.messages after.messages c.2
    | _, _ => c.2)

/-- When a message is added, either few have been queued since the list was last empty, or all
of them are still pending but for those deleted from its end. -/
def KeepsUp (c : Except Stop Client × Nat) (op : Op) : Prop :=
  match c.1 with
  | .ok client => ∀ a ∈ adds client op,
    accepts a.forceReconnect client a.msg a.reliable = true →
      c.2 < maxMessagesPerList - 2 ∨ pending client = c.2
  | .error _ => True

/-! ## The nodes in use -/

theorem exists_links {l : List Nat} (sorted : (0 :: l).Pairwise (· < ·)) :
    ∃ links : Links Nat, Represents MessageLinks.msgListStart links l := by
  induction l using List.reverseRecOn with
  | nil => exact ⟨⟨fun _ => none, 0⟩, rfl, rfl, List.nodup_singleton _⟩
  | append_singleton l b ih =>
    rw [← List.cons_append, List.pairwise_append] at sorted
    obtain ⟨hsorted, _, hlast⟩ := sorted
    obtain ⟨links, hlinks⟩ := ih hsorted
    refine ⟨links.append b, hlinks.append fun hmem => ?_⟩
    exact Nat.lt_irrefl b (hlast b hmem b (List.mem_singleton_self b))

theorem Placed.refines {m : Messages} (h : Placed m) : ∃ l, MessageLinks.Refines l m := by
  obtain ⟨links, hlinks⟩ := exists_links h.sorted
  refine ⟨⟨m.allocated, m.nodes, m.heap, links⟩, rfl, hlinks, h.sorted, fun i hi => ?_⟩
  exact Nat.lt_of_le_of_lt (h.bounded i hi) (by decide)

theorem placed_of_refines {l : MessageLinks.Linked} {m : Messages}
    (h : MessageLinks.Refines l m) : Placed m where
  sorted := h.sorted
  bounded := fun i hi => Nat.le_of_lt_succ (h.bounded i hi)

def PlacedClient (client : Client) : Prop := Placed client.messages

/-- What a step over the links agrees with keeps the places. -/
theorem placed_of_agrees {α β : Type} {f : α → Client} {g : β → MessageLinks.LinkedClient}
    {client : Client} {x : MessageLinks.LinkedClient → Except Stop β} {y : Except Stop α}
    (h : PlacedClient client)
    (agrees : ∀ l, MessageLinks.RefinesClient l client →
      Agrees (fun b a => MessageLinks.RefinesClient (g b) (f a)) (x l) y) :
    Returns (fun a => PlacedClient (f a)) y := by
  obtain ⟨l, hl⟩ := Placed.refines h
  have hclient : MessageLinks.RefinesClient ⟨client.control, l⟩ client := ⟨rfl, hl⟩
  exact (agrees _ hclient).returns_right fun _ _ hrefines => placed_of_refines hrefines.2

theorem placed_add {client : Client} (h : PlacedClient client) (forceReconnect : Bool)
    (msg : Msgbuff) (reliable : Bool) :
    Returns PlacedClient (svAddMessageSingle forceReconnect client msg reliable) :=
  placed_of_agrees (f := id) (g := id) h fun _ hl =>
    MessageLinks.svAddMessageSingle_agrees hl forceReconnect msg reliable

theorem placed_drop {client : Client} (h : PlacedClient client) (state : ClientState) :
    Returns PlacedClient (dropMessages client state) :=
  placed_of_agrees (f := id) (g := id) h fun _ hl => MessageLinks.dropMessages_agrees hl state

theorem placed_connect {client : Client} (h : PlacedClient client) (control : Control) :
    Returns PlacedClient (MessageList.connect client control) :=
  placed_of_agrees (f := id) (g := id) h fun _ hl => MessageLinks.connect_agrees hl control

theorem placed_writeReliable {client : Client} (h : PlacedClient client) (buffSize : Nat) :
    Returns PlacedClient (svWriteReliableMessages client buffSize) :=
  placed_of_agrees (f := id) (g := id) h fun _ hl =>
    MessageLinks.svWriteReliableMessages_agrees hl buffSize

theorem placed_clear {client : Client} (h : PlacedClient client) :
    Returns Placed (svClearMessageList client.messages) := by
  obtain ⟨l, hl⟩ := Placed.refines h
  exact (MessageLinks.svClearMessageList_agrees hl).returns_right fun _ _ => placed_of_refines

theorem placed_send {client : Client} (h : PlacedClient client) (env : Env)
    (frames : Nat → Nat → Option (Frame Nat)) (fuel : Nat) :
    Returns (fun r => PlacedClient r.2.1) (svSendClientDatagram env frames fuel 0 client) :=
  placed_of_agrees (f := fun r : Nat × Client × Option (List UInt8) => r.2.1)
    (g := fun r : Nat × MessageLinks.LinkedClient × Option (List UInt8) => r.2.1) h fun _ hl =>
    MessageLinks.svSendClientDatagram_agrees hl env frames fuel 0

theorem transmit_messages (curtime netSends : Nat) (client : Client) (data : List UInt8) :
    Returns (fun r => r.messages = client.messages) (transmit curtime netSends client data) := by
  simp only [transmit]
  split
  · exact returns_error _
  · split
    · exact returns_error _
    · exact returns_ok rfl

theorem placed_transmit {client : Client} (h : PlacedClient client) (curtime netSends : Nat)
    (data : List UInt8) : Returns PlacedClient (transmit curtime netSends client data) :=
  (transmit_messages curtime netSends client data).mono fun r hr => by
    rw [PlacedClient, hr]
    exact h

/-- Every call leaves the messages in increasing nodes. -/
theorem placed_step (s : Except Stop Client) (op : Op) (h : Returns PlacedClient s) :
    Returns PlacedClient (step s op) := by
  refine h.bind fun client hclient => ?_
  cases op with
  | connect control curtime protocol qport msglen =>
    simp only [perform]
    split
    · exact returns_error _
    · exact placed_connect hclient _
  | drop cleaned => exact placed_drop hclient _
  | reconnect =>
    simp only [perform]
    split
    · exact (placed_writeReliable hclient _).bind fun c hc => placed_drop hc .zombie
    · exact placed_drop hclient .zombie
  | changeMap =>
    simp only [perform]
    split
    · exact (placed_clear hclient).bind fun m hm => returns_ok hm
    · exact returns_ok hclient
  | update control => exact returns_ok hclient
  | add forceReconnect msg reliable => exact placed_add hclient forceReconnect msg reliable
  | receive curtime msg => exact returns_ok hclient
  | flush curtime netSends always data =>
    refine (placed_writeReliable hclient _).bind fun c hc => ?_
    split
    · exact placed_transmit hc curtime netSends data
    · exact returns_ok hc
  | datagram env frames fuel packetdup netSends =>
    simp only [perform]
    split
    · refine (placed_send hclient env frames fuel).bind ?_
      rintro ⟨_, c, datagram⟩ hc
      cases datagram with
      | none => exact returns_ok hc
      | some datagram =>
        have hset : PlacedClient (setPacketdup c packetdup) := hc
        exact (placed_transmit hset env.curtime netSends datagram).bind fun _ hsent =>
          returns_ok hsent
    · exact returns_ok hclient

/-! ## Where a message is queued -/

/-- Nothing is queued but behind the last message. -/
def Grows (before after : Messages) : Prop :=
  ∀ i ∈ after.list, i ∈ before.list ∨ i = nextIndex before

theorem Grows.of_sub {before after : Messages} (h : ∀ i ∈ after.list, i ∈ before.list) :
    Grows before after := fun i hi => .inl (h i hi)

theorem Grows.sub {before built after : Messages} (h : Grows before built)
    (k : ∀ i ∈ after.list, i ∈ built.list) : Grows before after := fun i hi => h i (k i hi)

theorem putCompressed_sub (zlib : Zlib) (frame : List UInt8) (d : Draft) :
    Returns (fun r => ∀ i ∈ r.1.messages.list, i ∈ d.messages.list) (putCompressed zlib frame d) := by
  simp only [putCompressed]
  refine (returns_any _).bind ?_
  rintro ⟨whole, stopAt⟩ -
  refine (returns_any _).bind fun packed _ => ?_
  cases packed with
  | some msg => exact (MessageLinks.sweep_sub _ _ _ _).bind fun r hr => returns_ok hr
  | none =>
    refine (returns_any _).bind fun packed _ => ?_
    cases packed with
    | some msg => exact returns_ok fun _ hi => hi
    | none => exact (MessageLinks.putPlain_order frame d).mono fun r hr i hi => hr ▸ hi

theorem putAttempt_sub (env : Env) (rmessage : Option Nat) (d : Draft) (bytes : Option (List UInt8)) :
    Returns (fun r => ∀ i ∈ r.1.messages.list, i ∈ d.messages.list)
      (putAttempt env rmessage d bytes) := by
  have plain (frame : List UInt8) (d : Draft) :
      Returns (fun r => ∀ i ∈ r.1.messages.list, i ∈ d.messages.list) (putPlain frame d) :=
    (MessageLinks.putPlain_order frame d).mono fun r hr i hi => hr ▸ hi
  cases bytes with
  | none => exact returns_ok fun _ hi => hi
  | some frame =>
    simp only [putAttempt, putFrame]
    split
    · refine (returns_any _).bind fun size _ => ?_
      split
      · refine (MessageLinks.compressReliable_order env.zlib rmessage d).bind fun r hr => ?_
        cases r with
        | none => exact putCompressed_sub env.zlib frame d
        | some d' =>
          have order := hr d' rfl
          simp only
          split
          · exact (putCompressed_sub env.zlib frame d').mono fun r hr i hi => order ▸ hr i hi
          · exact (plain frame d').mono fun r hr i hi => order ▸ hr i hi
      · exact plain frame d
    · exact plain frame d

theorem retryframe_sub {σ : Type} (env : Env) (write : σ → Nat → Option (Frame σ))
    (rmessage : Option Nat) (fuel : Nat) (memory : σ) (newEntities : Nat) (reduced : Bool) (d : Draft) :
    Returns (fun r => ∀ i ∈ r.2.messages.list, i ∈ d.messages.list)
      (retryframe env write rmessage fuel memory newEntities reduced d) := by
  induction fuel generalizing memory newEntities reduced d with
  | zero => exact returns_error _
  | succ fuel ih =>
    simp only [retryframe]
    refine (returns_any _).bind fun frame _ => ?_
    refine (putAttempt_sub env rmessage d frame.bytes).bind ?_
    rintro ⟨d', done⟩ hd
    simp only
    split
    · exact returns_ok hd
    · split
      · exact (ih _ _ _ d').mono fun r hr i hi => hd i (hr i hi)
      · exact returns_ok hd

theorem svAddMessageSingle_grows (forceReconnect : Bool) (client : Client) (msg : Msgbuff)
    (reliable : Bool) :
    Returns (fun c => Grows client.messages c.messages)
      (svAddMessageSingle forceReconnect client msg reliable) := by
  refine (MessageLinks.svAddMessageSingle_takes forceReconnect client msg reliable).mono
    fun c hc i hi => ?_
  by_cases queued : i ∈ client.messages.list
  · exact .inl queued
  · exact .inr (hc.queued i hi queued).1

/-- A frame queues at most the message of a new sound. -/
theorem frameDatagram_grows {σ : Type} (env : Env) (write : σ → Nat → Option (Frame σ)) (fuel : Nat)
    (memory : σ) (client : Client) :
    Returns (fun r => Grows client.messages r.2.messages)
      (frameDatagram env write fuel memory client) := by
  simp only [frameDatagram]
  refine (returns_any _).bind ?_
  rintro ⟨msg, rmessage⟩ -
  simp only
  split
  · exact returns_ok (.of_sub fun _ hi => hi)
  · have building : Returns (fun c => Grows client.messages c.messages)
        (svBuildClientFrame env client) := by
      simp only [svBuildClientFrame]
      split
      · exact returns_ok (.of_sub fun _ hi => hi)
      · exact svAddMessageSingle_grows _ _ _ _
    refine building.bind fun built hbuilt => ?_
    refine (retryframe_sub _ _ _ _ _ _ _ _).bind ?_
    rintro ⟨memory', d⟩ hd
    refine returns_ok ?_
    simp only
    split
    · exact hbuilt.sub hd
    · exact hbuilt.sub hd

theorem fillUnreliable_sub (env : Env) (d : Draft) :
    Returns (fun r => ∀ i ∈ r.messages.list, i ∈ d.messages.list) (fillUnreliable env d) := by
  have pass (chosen : Messages → Nat → Bool) (note : Messages → Nat → Control → Control) (d : Draft) :
      Returns (fun r => ∀ i ∈ r.messages.list, i ∈ d.messages.list) (fillPass chosen note d) :=
    (MessageLinks.sweep_sub _ _ _ _).bind fun r hr => returns_ok hr
  simp only [fillUnreliable]
  split
  · refine (pass _ _ d).bind fun d' hd => ?_
    split
    · exact (pass _ _ d').mono fun r hr i hi => hd i (hr i hi)
    · exact returns_ok hd
  · exact returns_ok fun _ hi => hi

theorem svSendClientDatagram_grows {σ : Type} (env : Env) (write : σ → Nat → Option (Frame σ))
    (fuel : Nat) (memory : σ) (client : Client) :
    Returns (fun r => Grows client.messages r.2.1.messages)
      (svSendClientDatagram env write fuel memory client) := by
  simp only [svSendClientDatagram]
  split
  · exact (MessageLinks.sweep_sub _ _ _ _).bind fun r hr => returns_ok (.of_sub hr)
  · refine (frameDatagram_grows env write fuel memory client).bind ?_
    rintro ⟨memory', framed⟩ hframed
    refine (fillUnreliable_sub env framed).bind fun d hd => ?_
    split
    · exact returns_error _
    · refine (MessageLinks.sweep_sub _ _ _ _).bind ?_
      rintro ⟨control, messages⟩ hswept
      refine (MessageLinks.svWriteReliableMessages_sub _ _).bind fun c hc => returns_ok ?_
      exact hframed.sub fun i hi => hd i (hswept i (hc i hi))

/-- Every call deletes messages, and queues at most one behind the last. -/
theorem perform_grows (client : Client) (op : Op) :
    Returns (fun c => Grows client.messages c.messages) (perform client op) := by
  have still {c : Client} (same : c.messages = client.messages) :
      Grows client.messages c.messages := .of_sub fun i hi => same ▸ hi
  cases op with
  | connect control curtime protocol qport msglen =>
    simp only [perform]
    split
    · exact returns_error _
    · refine (MessageLinks.dropMessages_sub client .free).bind fun c _ => returns_ok (.of_sub fun i hi => ?_)
      cases hi
  | drop cleaned => exact (MessageLinks.dropMessages_sub client _).mono fun _ h => .of_sub h
  | reconnect =>
    simp only [perform]
    split
    · refine (MessageLinks.svWriteReliableMessages_sub client _).bind fun c hc => ?_
      exact (MessageLinks.dropMessages_sub c _).mono fun d hd => .of_sub fun i hi => hc i (hd i hi)
    · exact (MessageLinks.dropMessages_sub client _).mono fun _ h => .of_sub h
  | changeMap =>
    simp only [perform]
    split
    · exact (MessageLinks.svClearMessageList_sub _).bind fun m hm => returns_ok (.of_sub hm)
    · exact returns_ok (still rfl)
  | update control => exact returns_ok (still rfl)
  | add forceReconnect msg reliable => exact svAddMessageSingle_grows _ _ _ _
  | receive curtime msg => exact returns_ok (still rfl)
  | flush curtime netSends always data =>
    refine (MessageLinks.svWriteReliableMessages_sub client _).bind fun c hc => ?_
    split
    · exact (transmit_messages _ _ c _).mono fun d hd => .of_sub fun i hi => hc i (hd ▸ hi)
    · exact returns_ok (.of_sub hc)
  | datagram env frames fuel packetdup netSends =>
    simp only [perform]
    split
    · refine (svSendClientDatagram_grows env frames fuel 0 client).bind ?_
      rintro ⟨_, c, datagram⟩ hc
      cases datagram with
      | none => exact returns_ok hc
      | some datagram =>
        refine (transmit_messages _ _ (setPacketdup c packetdup) _).bind fun d hd => returns_ok ?_
        exact hc.sub fun i hi => hd ▸ hi
    · exact returns_ok (still rfl)

/-! ## A command that is queued -/

/-- A command of 698 characters, half a packet. -/
def longCommand : Msgbuff where
  data := svcStufftext :: (List.replicate 698 97 ++ [0])
  written := List.cons_ne_nil _ _

theorem length_longCommand : longCommand.data.length = 700 := by
  simp only [longCommand, List.length_cons, List.length_append, List.length_replicate,
    List.length_nil]

/-- What the list is after a command is queued. -/
def queueCommand (m : Messages) : Messages :=
  { m with
    list := m.list ++ [nextIndex m]
    heap := m.heap.alloc longCommand.data
    nodes := Function.update m.nodes (nextIndex m)
      { m.nodes (nextIndex m) with
        data := .malloced m.heap.next, cursize := 700, reliable := true } }

theorem checkLayout_longCommand (control : Control) :
    checkLayout control longCommand true = some (control, longCommand) := rfl

theorem accepts_longCommand {client : Client} (state : client.control.state = .connected)
    (overflowed : client.control.overflowed = false) (nodata : client.control.nodata = false)
    (allocated : client.messages.allocated = true) :
    accepts false client longCommand true = true := by
  simp [accepts, refusesMessage, state, overflowed, nodata, allocated, checkLayout_longCommand]

theorem byteAt_queueCommand (m : Messages) :
    (queueCommand m).byteAt (nextIndex m) 0 = svcStufftext := by
  simp only [Messages.byteAt, Messages.storage, queueCommand, Function.update_self,
    OwnedHeap.Heap.blocks_alloc_next]
  rfl

theorem queueMessage_longCommand {client : Client}
    (buffsize : client.control.netchan.message.buffsize = 1390)
    (room : nextIndex client.messages < maxMessagesPerList - 1) :
    queueMessage client longCommand.data true =
      .ok { client with messages := queueCommand client.messages } := by
  have hcursize : int16 (longCommand.data.length : Nat) = 700 := by
    rw [length_longCommand]
    rfl
  have hwrite : (msgEndWrite { client.messages with
        list := client.messages.list ++ [nextIndex client.messages] }
        (nextIndex client.messages) longCommand.data).setReliable (nextIndex client.messages) true =
      queueCommand client.messages := by
    rw [msgEndWrite, if_pos (by rw [length_longCommand]; decide)]
    simp only [Messages.setReliable, queueCommand, Function.update_self, Function.update_idem,
      hcursize]
  have hdrop : dropOtherLayouts (queueCommand client.messages) (nextIndex client.messages) =
      .ok (queueCommand client.messages) := by
    rw [dropOtherLayouts, byteAt_queueCommand, if_neg (by decide)]
  have hpad : padModelskin client.control.state (queueCommand client.messages)
      (nextIndex client.messages) = .ok (queueCommand client.messages) := by
    rw [padModelskin, modelskinIndex, byteAt_queueCommand]
    simp [svcStufftext, svcConfigstring]
  have hnode : ((msgEndWrite { client.messages with
        list := client.messages.list ++ [nextIndex client.messages] }
        (nextIndex client.messages) longCommand.data).nodes
          (nextIndex client.messages)).cursize = 700 := by
    rw [msgEndWrite, if_pos (by rw [length_longCommand]; decide)]
    simp only [Function.update_self, hcursize]
  simp only [queueMessage, if_neg (Nat.not_le.mpr room), hnode, buffsize, hwrite, hdrop]
  rw [if_neg (by decide)]
  simp only [bind, Except.bind, hpad]

theorem svAddMessageSingle_longCommand (client : Client)
    (state : client.control.state = .connected)
    (overflowed : client.control.overflowed = false) (nodata : client.control.nodata = false)
    (allocated : client.messages.allocated = true)
    (buffsize : client.control.netchan.message.buffsize = 1390)
    (room : nextIndex client.messages < maxMessagesPerList - 1) :
    svAddMessageSingle false client longCommand true =
      .ok { client with messages := queueCommand client.messages } := by
  have haccepts := accepts_longCommand state overflowed nodata allocated
  have hrefuses : refusesMessage false client true = false := by
    simpa [accepts, checkLayout_longCommand] using haccepts
  simp only [svAddMessageSingle, hrefuses, Bool.false_eq_true, if_false, checkLayout_longCommand]
  exact queueMessage_longCommand buffsize room

private def newClient : Control where
  state := .connected
  netchan := { sock := .server, lastReceived := 0, lastSent := 0, qport := 7, protocol := 34
               message := szInit 1390 }

/-! ## When the list overflows -/

/-- The nodes behind `last` are so many. -/
theorem length_behind {l : List Nat} (sorted : (0 :: l).Pairwise (· < ·)) {last : Nat}
    (queued : last ∈ l) : last + (l.filter (last < ·)).length ≤ l.getLastD 0 := by
  have below : ∀ i ∈ l, i ≤ l.getLastD 0 := fun i hi => le_getLastD sorted (List.mem_cons_of_mem 0 hi)
  have once : (l.filter (last < ·)).Nodup :=
    ((List.pairwise_cons.mp sorted).2.imp Nat.ne_of_lt).filter _
  have within : l.filter (last < ·) ⊆ List.range' (last + 1) (l.getLastD 0 - last) := by
    intro i hi
    obtain ⟨listed, behind⟩ := List.mem_filter.mp hi
    have bound := below i listed
    have behind : last < i := of_decide_eq_true behind
    exact List.mem_range'_1.mpr ⟨behind, by omega⟩
  have few := (List.subperm_of_subset once within).length_le
  have own := below last queued
  rw [List.length_range'] at few
  omega

/-- The last message is in none of the nodes behind as many as have been counted. -/
theorem getLastD_le_count {before after : Messages} (placed : Placed before)
    (grows : Grows before after) {queued : Nat} (h : before.list.getLastD 0 ≤ queued) :
    after.list.getLastD 0 ≤ count before after queued := by
  unfold count
  rw [List.getLastD_eq_getLast?]
  cases last_of : after.list.getLast? with
  | none => exact Nat.le_refl 0
  | some last =>
    have listed := List.mem_of_getLast? last_of
    simp only [Option.getD_some]
    split
    · rename_i queued_before
      have behind := length_behind placed.sorted queued_before
      omega
    · rename_i fresh
      have next := (grows last listed).resolve_left fresh
      rw [next, nextIndex]
      omega

/-- The node of the last message is not behind as many as have been counted. -/
def Counted (c : Except Stop Client × Nat) : Prop :=
  Returns (fun client => PlacedClient client ∧ listEnd client ≤ c.2) c.1

/-- A step is counted with what it queues. -/
theorem counted_step (c : Except Stop Client × Nat) (op : Op) (h : Counted c) :
    Counted (countedStep c op) := by
  obtain ⟨s, queued⟩ := c
  cases s with
  | error stop => exact trivial
  | ok client =>
    obtain ⟨placed, counted⟩ := h
    have places := placed_step (.ok client) op placed
    have grows := perform_grows client op
    simp only [Counted, countedStep, step, bind, Except.bind] at places ⊢
    cases performed : perform client op with
    | error stop => exact trivial
    | ok after =>
      rw [performed] at places grows
      exact ⟨places, getLastD_le_count placed grows counted⟩

theorem overflowsFull_of_keepsUp (c : Except Stop Client × Nat) (op : Op) (h : Counted c)
    (keeps : KeepsUp c op) : OverflowsFull c.1 op := by
  obtain ⟨s, queued⟩ := c
  cases s with
  | error stop => exact trivial
  | ok client =>
    intro a ha reports
    obtain ⟨accepted, full⟩ := Bool.and_eq_true_iff.mp reports
    have full : nextIndex client.messages ≥ maxMessagesPerList - 1 := of_decide_eq_true full
    obtain ⟨-, counted⟩ := h
    simp only [listEnd, nextIndex] at counted full
    rcases keeps a ha accepted with few | all
    · simp only at few counted
      omega
    · simp only at all counted
      omega

/-- In a run that never queues so many messages on top of those deleted, only full lists are
reported to overflow. -/
theorem run_overflowsFull (control : Control) (ops : List Op)
    (h : AllSteps countedStep KeepsUp (.ok { control }, 0) ops) :
    AllSteps step OverflowsFull (.ok { control }) ops := by
  have start : Counted (.ok { control }, 0) :=
    ⟨⟨List.pairwise_singleton _ _, fun _ hi => (List.not_mem_nil hi).elim⟩, Nat.le_refl 0⟩
  have full := allSteps_of_invariant counted_step overflowsFull_of_keepsUp start h
  exact (allSteps_project Prod.fst (fun _ _ => rfl) _ ops).mp full

/-- A client to whom `k` commands have been queued, of which none has been sent. -/
structure Filled (k : Nat) (client : Client) : Prop where
  state : client.control.state = .connected
  overflowed : client.control.overflowed = false
  nodata : client.control.nodata = false
  allocated : client.messages.allocated = true
  buffsize : client.control.netchan.message.buffsize = 1390
  list : client.messages.list = List.range' 1 k

theorem Filled.nextIndex_eq {k : Nat} {client : Client} (h : Filled k client) :
    nextIndex client.messages = k + 1 := by
  rw [nextIndex, h.list]
  cases k with
  | zero => rfl
  | succ k =>
    rw [List.range'_concat, List.getLastD_concat]
    omega

theorem Filled.keepsUp {k : Nat} {client : Client} (h : Filled k client) :
    KeepsUp (.ok client, k) (.add false longCommand true) := by
  intro a _ _
  right
  rw [pending, h.list]
  exact List.length_range'

theorem Filled.add {k : Nat} {client : Client} (h : Filled k client) (room : k < 2046) :
    ∃ c, countedStep (.ok client, k) (.add false longCommand true) = (.ok c, k + 1) ∧
      Filled (k + 1) c := by
  have next := h.nextIndex_eq
  have list : (queueCommand client.messages).list = List.range' 1 (k + 1) := by
    rw [queueCommand, next, h.list, List.range'_concat, Nat.one_mul, Nat.add_comm 1 k]
  have added := svAddMessageSingle_longCommand client h.state h.overflowed h.nodata h.allocated
    h.buffsize (show nextIndex client.messages < 2047 by omega)
  have counts : count client.messages (queueCommand client.messages) k = k + 1 := by
    have fresh : 1 + 1 * k ∉ client.messages.list := by
      rw [h.list, List.mem_range'_1]
      omega
    rw [count, list, List.range'_concat, List.getLast?_concat]
    exact if_neg fresh
  refine ⟨{ client with messages := queueCommand client.messages }, ?_, h.state, h.overflowed,
    h.nodata, h.allocated, h.buffsize, list⟩
  have step : step (.ok client) (.add false longCommand true) =
      .ok { client with messages := queueCommand client.messages } := added
  simp only [countedStep, step, counts]

theorem keepsUp_commands {n k : Nat} {client : Client} (h : Filled k client) (room : k + n ≤ 2047) :
    AllSteps countedStep KeepsUp (.ok client, k) (List.replicate n (.add false longCommand true)) := by
  induction n generalizing k client with
  | zero => exact trivial
  | succ n ih =>
    refine ⟨h.keepsUp, ?_⟩
    cases n with
    | zero => exact trivial
    | succ n =>
      obtain ⟨c, run, filled⟩ := h.add (by omega)
      rw [run]
      exact ih filled (by omega)

private def connection : Op := .connect newClient 0 34 7 0

/-- A client that never answers overflows with 2046 commands pending. -/
theorem run_overflowsFull_silent :
    AllSteps countedStep KeepsUp (.ok { control := newClient }, 0)
        (connection :: List.replicate 2047 (.add false longCommand true)) ∧
      AllSteps step OverflowsFull (.ok { control := newClient })
        (connection :: List.replicate 2047 (.add false longCommand true)) := by
  have keeps : AllSteps countedStep KeepsUp (.ok { control := newClient }, 0)
      (connection :: List.replicate 2047 (.add false longCommand true)) := by
    have adds_nothing : KeepsUp (.ok { control := newClient }, 0) connection := by
      intro a ha
      cases ha
    refine ⟨adds_nothing, ?_⟩
    let connected : Client :=
      { control := { newClient with
          netchan := { newClient.netchan with message := { szInit 1390 with allowoverflow := true } } }
        messages := { allocated := true } }
    have connects : countedStep (.ok { control := newClient }, 0) connection = (.ok connected, 0) := rfl
    rw [connects]
    exact keepsUp_commands (k := 0) ⟨rfl, rfl, rfl, rfl, rfl, rfl⟩ (Nat.le_refl _)
  exact ⟨keeps, run_overflowsFull newClient _ keeps⟩

/-! ## A list that never becomes empty -/

/-- The command is in this node, in this block. -/
structure HoldsCommand (m : Messages) (i block : Nat) : Prop where
  data : (m.nodes i).data = .malloced block
  cursize : (m.nodes i).cursize = 700
  reliable : (m.nodes i).reliable = true
  stored : m.heap.blocks block = some longCommand.data

/-- The client has acknowledged everything so far, `k` times, and one command is pending. -/
structure Behind (k : Nat) (client : Client) : Prop where
  state : client.control.state = .connected
  overflowed : client.control.overflowed = false
  nodata : client.control.nodata = false
  server : client.control.netchan.sock = .server
  reliable : client.control.netchan.reliable = []
  message : client.control.netchan.message = { szInit 1390 with allowoverflow := true }
  incoming : client.control.netchan.incomingSequence = k
  sequence : client.control.netchan.reliableSequence = decide (k % 2 = 1)
  allocated : client.messages.allocated = true
  list : client.messages.list = [k + 1]
  holds : ∃ block, HoldsCommand client.messages (k + 1) block

theorem HoldsCommand.bytes {m : Messages} {i block : Nat} (h : HoldsCommand m i block) :
    m.bytes i = .ok longCommand.data := by
  have hstorage : m.storage i = some longCommand.data := by
    rw [Messages.storage, h.data]
    exact h.stored
  have htake : longCommand.data.take 700 = longCommand.data :=
    List.take_of_length_le (Nat.le_of_eq length_longCommand)
  simp only [Messages.bytes, hstorage, h.cursize, length_longCommand]
  rw [if_pos (by decide)]
  exact congrArg Except.ok htake

theorem HoldsCommand.queueCommand {m : Messages} {i block : Nat} (h : HoldsCommand m i block)
    (other : i ≠ nextIndex m) : HoldsCommand (queueCommand m) i block where
  data := by
    simp only [MessageSlots.queueCommand, Function.update_of_ne other]
    exact h.data
  cursize := by
    simp only [MessageSlots.queueCommand, Function.update_of_ne other]
    exact h.cursize
  reliable := by
    simp only [MessageSlots.queueCommand, Function.update_of_ne other]
    exact h.reliable
  stored := by
    rw [MessageSlots.queueCommand, m.heap.blocks_alloc_of_isSome (by rw [h.stored]; rfl)]
    exact h.stored

theorem holdsCommand_queueCommand (m : Messages) :
    HoldsCommand (queueCommand m) (nextIndex m) m.heap.next where
  data := by simp only [queueCommand, Function.update_self]
  cursize := by simp only [queueCommand, Function.update_self]
  reliable := by simp only [queueCommand, Function.update_self]
  stored := m.heap.blocks_alloc_next longCommand.data

def emptyMessage : Sizebuf := { szInit 1390 with allowoverflow := true }

/-- Of two commands the first is moved to the channel, and then there is no room. -/
theorem sweep_writeReliable_two {m : Messages} {i j first second : Nat} (hlist : m.list = [i, j])
    (hi : HoldsCommand m i first) (hj : HoldsCommand m j second) (apart : second ≠ first) :
    ∃ m', sweep writeReliable m.list { message := emptyMessage } m =
        .ok ({ message := { emptyMessage with data := longCommand.data }, lastmsg := some 0 }, m') ∧
      m'.allocated = m.allocated ∧ m'.list = [j] ∧ HoldsCommand m' j second := by
  obtain ⟨heap, hfree⟩ := OwnedHeap.Heap.exists_free
    (show (m.heap.blocks first).isSome from by rw [hi.stored]; rfl)
  have hdelete : svDeleteMessage m i = .ok { m with heap, list := [j] } := by
    rw [svDeleteMessage, hi.cursize, if_pos (by decide), hi.data]
    simp only [hfree, hlist, List.erase_cons_head]
  have hkept : HoldsCommand { m with heap, list := [j] } j second := by
    refine ⟨hj.data, hj.cursize, hj.reliable, ?_⟩
    rw [OwnedHeap.Heap.free_eq_some hfree, Function.update_of_ne apart]
    exact hj.stored
  have hfirst : writeReliable m { message := emptyMessage } i =
      .ok ({ message := { emptyMessage with data := longCommand.data }, lastmsg := some 0 },
        .delete) := by
    have hwrite : writeOrStop emptyMessage longCommand.data =
        .ok { emptyMessage with data := longCommand.data } := by
      refine MessageStorage.writeOrStop_fits ?_
      rw [length_longCommand]
      decide
    simp only [writeReliable, hi.reliable, if_true, hi.bytes, bind, Except.bind, continuesPrint,
      Bool.false_eq_true, if_false, hwrite]
    rw [if_neg (by rw [length_longCommand]; decide)]
    rfl
  have hsecond : writeReliable { m with heap, list := [j] }
      { message := { emptyMessage with data := longCommand.data }, lastmsg := some 0 } j =
      .ok ({ message := { emptyMessage with data := longCommand.data }, lastmsg := some 0 },
        .stop) := by
    simp only [writeReliable, hj.reliable, if_true, hkept.bytes, bind, Except.bind,
      Sizebuf.cursize, length_longCommand]
    rw [if_pos (by decide)]
    rfl
  refine ⟨{ m with heap, list := [j] }, ?_, rfl, rfl, hkept⟩
  rw [hlist]
  simp only [sweep, hfirst, hdelete, hsecond, bind, Except.bind]

/-- The packet in which the client acknowledges for the `k`th time. -/
def ack (k : Nat) : List UInt8 :=
  longBytes (headerWord (k + 1) false) ++ (longBytes (headerWord 0 (decide (k % 2 = 0))) ++ [])

/-- A command is queued, the oldest is sent and acknowledged. -/
def round (k : Nat) : List Op :=
  [.add false longCommand true, .flush 0 1 false [], .receive 0 (ack k)]

theorem Behind.add {k : Nat} {client : Client} (h : Behind k client) (room : k + 2 < 2047) :
    perform client (.add false longCommand true) =
      .ok { client with messages := queueCommand client.messages } := by
  have hnext : nextIndex client.messages = k + 2 := by simp [nextIndex, h.list]
  refine svAddMessageSingle_longCommand client h.state h.overflowed h.nodata h.allocated ?_ ?_
  · rw [h.message]
    rfl
  · rw [hnext]
    exact room

/-- The channel after the pending command has been sent. -/
structure Sent (k : Nat) (chan : Chan) : Prop where
  server : chan.sock = .server
  message : chan.message = emptyMessage
  incoming : chan.incomingSequence = k
  sequence : chan.reliableSequence = decide (k % 2 = 0)

theorem transmit_command {k : Nat} (client : Client) (server : client.control.netchan.sock = .server)
    (reliable : client.control.netchan.reliable = [])
    (message : client.control.netchan.message = { emptyMessage with data := longCommand.data })
    (incoming : client.control.netchan.incomingSequence = k)
    (sequence : client.control.netchan.reliableSequence = decide (k % 2 = 1)) :
    ∃ netchan, transmit 0 1 client [] =
        .ok { client with control := { client.control with netchan } } ∧ Sent k netchan := by
  have hstage : stageReliable client.control.netchan =
      { client.control.netchan with
        reliable := longCommand.data
        message := emptyMessage
        reliableSequence := !client.control.netchan.reliableSequence } := by
    simp only [stageReliable, reliable, message]
    rfl
  have hincluded : (reliableIncluded client.control.netchan).length ≤ 700 := by
    simp only [reliableIncluded, hstage]
    split
    · exact Nat.le_of_eq length_longCommand
    · exact Nat.zero_le _
  have hfits : 8 + (reliableIncluded client.control.netchan).length +
      ([] : List UInt8).length ≤ 1400 := by
    simp only [List.length_nil]
    omega
  obtain ⟨out, hout, hresult⟩ := netchanTransmit_fits 0 1 server hfits
  have hsent : Sent k out.chan := by
    rcases netchanTransmit_sequel hout with ⟨_, hover⟩ | ⟨copies, size, hchan⟩
    · rw [message] at hover
      cases hover
    · have hflip : (!client.control.netchan.reliableSequence) = decide (k % 2 = 0) := by
        rw [sequence, ← decide_not]
        exact decide_eq_decide.mpr (by omega)
      rw [hchan, afterSend, hstage, noteReliable]
      split
      · exact ⟨server, rfl, incoming, hflip⟩
      · exact ⟨server, rfl, incoming, hflip⟩
  refine ⟨out.chan, ?_, hsent⟩
  simp only [transmit, hout]
  rw [if_neg hresult]

/-- The channel after the acknowledgement. -/
structure Acked (k : Nat) (chan : Chan) : Prop where
  server : chan.sock = .server
  reliable : chan.reliable = []
  message : chan.message = emptyMessage
  incoming : chan.incomingSequence = k + 1
  sequence : chan.reliableSequence = decide ((k + 1) % 2 = 1)

theorem receive_ack {k : Nat} {chan : Chan} (h : Sent k chan) (small : k + 1 < 2 ^ 31) :
    ∃ chan', (netchanProcess .kingpin 0 chan (ack k)).chan = chan' ∧ Acked k chan' := by
  have hheader : readHeader (ack k) = (⟨k + 1, false, 0, decide (k % 2 = 0)⟩, []) := by
    rw [ack, readHeader_bytes, Nat.mod_eq_of_lt small]
    rfl
  have hnew : ¬ k + 1 ≤ k := by omega
  have hflip : decide (k % 2 = 0) = decide ((k + 1) % 2 = 1) := decide_eq_decide.mpr (by omega)
  refine ⟨_, rfl, ?_, ?_, ?_, ?_, ?_⟩
  · simp only [netchanProcess, hheader, h.incoming, if_neg hnew, h.server]
  · simp only [netchanProcess, hheader, h.incoming, if_neg hnew, h.sequence, if_true]
  · simp only [netchanProcess, hheader, h.incoming, if_neg hnew, h.message]
  · simp only [netchanProcess, hheader, h.incoming, if_neg hnew]
  · simp only [netchanProcess, hheader, h.incoming, if_neg hnew, h.sequence, hflip]

/-- The flush after a command has been queued behind another. -/
theorem Behind.flush {k : Nat} {client : Client} (h : Behind k client) :
    ∃ m netchan, perform { client with messages := queueCommand client.messages }
        (.flush 0 1 false []) =
        .ok { messages := m, control := { client.control with netchan } } ∧
      Sent k netchan ∧ m.allocated = true ∧ m.list = [k + 2] ∧
        ∃ block, HoldsCommand m (k + 2) block := by
  have hnext : nextIndex client.messages = k + 2 := by simp [nextIndex, h.list]
  obtain ⟨first, hfirst⟩ := h.holds
  have hlive : (client.messages.heap.blocks first).isSome := by
    rw [hfirst.stored]
    rfl
  have hlist : (queueCommand client.messages).list = [k + 1, k + 2] := by
    simp [queueCommand, h.list, hnext]
  have hsecond := holdsCommand_queueCommand client.messages
  rw [hnext] at hsecond
  obtain ⟨m, hsweep, hallocated, hrest, hholds⟩ := sweep_writeReliable_two hlist
    (hfirst.queueCommand (by omega)) hsecond (Nat.ne_of_gt (OwnedHeap.Heap.lt_next hlive))
  obtain ⟨netchan, htransmit, hsent⟩ := transmit_command (k := k)
    ⟨setChannelMessage client.control { emptyMessage with data := longCommand.data }, m⟩
    h.server h.reliable rfl h.incoming h.sequence
  have hwritten : svWriteReliableMessages
      { client with messages := queueCommand client.messages } 1390 =
      .ok ⟨setChannelMessage client.control { emptyMessage with data := longCommand.data }, m⟩ := by
    have hqueued : (queueCommand client.messages).allocated = true := h.allocated
    have hstart : ({ client.control.netchan.message with maxsize := 1390 } : Sizebuf) =
        emptyMessage := by
      rw [h.message]
      rfl
    simp only [svWriteReliableMessages, h.state, hqueued, h.reliable, hstart, hsweep, reduceCtorEq,
      Bool.not_true, Bool.false_eq_true, or_self, if_false, List.isEmpty_nil, bind, Except.bind]
    rfl
  refine ⟨m, netchan, ?_, hsent, hallocated.trans h.allocated, hrest, _, hholds⟩
  have hbuffsize : client.control.netchan.message.buffsize = 1390 := by
    rw [h.message]
    rfl
  simp only [perform, hbuffsize, hwritten, bind, Except.bind]
  exact htransmit

theorem step_ok (client : Client) (op : Op) : step (.ok client) op = perform client op := rfl

theorem Behind.round {k : Nat} {client : Client} (h : Behind k client) (room : k + 2 < 2047) :
    AllSteps step (fun s _ => Returns (fun c => pending c ≤ 2) s) (.ok client) (round k) ∧
      ∃ client', run step (.ok client) (round k) = .ok client' ∧ Behind (k + 1) client' := by
  obtain ⟨m, netchan, hflush, hsent, hallocated, hlist, hholds⟩ := h.flush
  have hadd : step (.ok client) (.add false longCommand true) =
      .ok { client with messages := queueCommand client.messages } :=
    (step_ok _ _).trans (h.add room)
  have hflushed : step (.ok { client with messages := queueCommand client.messages })
      (.flush 0 1 false []) =
        .ok { messages := m, control := { client.control with netchan } } :=
    (step_ok _ _).trans hflush
  obtain ⟨chan, hreceived, hacked⟩ := receive_ack hsent (by omega)
  constructor
  · refine ⟨?_, ?_, ?_, trivial⟩
    · simp [Returns, pending, h.list]
    · rw [hadd]
      simp [Returns, pending, queueCommand, h.list]
    · rw [hadd, hflushed]
      simp [Returns, pending, hlist]
  · refine ⟨{ messages := m, control := { client.control with netchan := chan } }, ?_, ?_⟩
    · simp only [MessageSlots.round, run_cons, hadd, hflushed, run_nil, step_ok, perform, hreceived]
    · exact ⟨h.state, h.overflowed, h.nodata, hacked.server, hacked.reliable, hacked.message,
        hacked.incoming, hacked.sequence, hallocated, hlist, hholds⟩

/-- As many rounds as there are nodes. -/
theorem behind_rounds {n k : Nat} {client : Client} (h : Behind k client)
    (room : k + n + 1 < 2047) :
    AllSteps step (fun s _ => Returns (fun c => pending c ≤ 2) s) (.ok client)
        ((List.range' k n).flatMap round) ∧
      ∃ client', run step (.ok client) ((List.range' k n).flatMap round) = .ok client' ∧
        Behind (k + n) client' := by
  induction n generalizing k client with
  | zero => exact ⟨trivial, client, rfl, h⟩
  | succ n ih =>
    obtain ⟨hsteps, client', hrun, hbehind⟩ := h.round (by omega)
    obtain ⟨hrest, last, hlast, hend⟩ := ih hbehind (by omega)
    simp only [List.range'_succ, List.flatMap_cons]
    constructor
    · rw [allSteps_append, hrun]
      exact ⟨hsteps, hrest⟩
    · refine ⟨last, ?_, ?_⟩
      · rw [run_append, hrun, hlast]
      · have heq : k + (n + 1) = k + 1 + n := by omega
        rw [heq]
        exact hend

/-- The client connects, and a command is queued. -/
def firstCommand : List Op := [connection, .add false longCommand true]

theorem behind_firstCommand :
    ∃ client, run step (.ok { control := newClient }) firstCommand = .ok client ∧
      Behind 0 client := by
  let connected : Client :=
    { control := { newClient with
        netchan := { newClient.netchan with message := emptyMessage } }
      messages := { allocated := true } }
  have hconnect : step (.ok { control := newClient }) connection =
      .ok connected := rfl
  have hadd : step (.ok connected) (.add false longCommand true) =
      .ok { connected with messages := queueCommand connected.messages } :=
    (step_ok _ _).trans (svAddMessageSingle_longCommand connected rfl rfl rfl rfl rfl
      (by decide))
  refine ⟨{ connected with messages := queueCommand connected.messages }, ?_, ?_⟩
  · simp only [firstCommand, run_cons, hconnect, hadd, run_nil]
  · exact ⟨rfl, rfl, rfl, rfl, rfl, rfl, rfl, rfl, rfl, rfl, _, holdsCommand_queueCommand _⟩

/-- A client that is always one command behind never has more than two messages pending
and is dropped when it has gone through all nodes. -/
theorem overflows_when_behind :
    AllSteps step (fun s _ => Returns (fun c => pending c ≤ 2) s) (.ok { control := newClient })
        (firstCommand ++ ((List.range' 0 2045).flatMap round ++ [.add false longCommand true])) ∧
      ¬ AllSteps step OverflowsFull (.ok { control := newClient })
        (firstCommand ++ ((List.range' 0 2045).flatMap round ++ [.add false longCommand true])) := by
  obtain ⟨client, hfirst, hbehind⟩ := behind_firstCommand
  obtain ⟨hsteps, last, hlast, hend⟩ := behind_rounds (n := 2045) hbehind (by decide)
  have hpending : pending last = 1 := by simp [pending, hend.list]
  constructor
  · rw [allSteps_append, hfirst, allSteps_append, hlast]
    refine ⟨⟨?_, ?_, trivial⟩, hsteps, ?_, trivial⟩
    · exact Nat.zero_le 2
    · exact Nat.zero_le 2
    · exact hpending.trans_le (by decide)
  · rw [allSteps_append, hfirst, allSteps_append, hlast]
    rintro ⟨_, _, hfull, _⟩
    have hreports : reportsOverflow false last longCommand true = true := by
      rw [reportsOverflow, accepts_longCommand hend.state hend.overflowed hend.nodata hend.allocated]
      simp [nextIndex, hend.list, maxMessagesPerList]
    have hle := hfull ⟨false, longCommand, true⟩ rfl hreports
    rw [hpending] at hle
    exact absurd hle (by decide)

end MessageSlots
