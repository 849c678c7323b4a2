import Kpded2.MessageStorage
import Kpded2.NodeLinks

/-!
# The links of a client's messages

The list of `MessageList` as the program keeps it: nodes of `messageListData` linked by
`next`, from `msgListStart` (node 0) to `msgListEnd`. The loops walk along the links
with `message` and `last`, and what they do to one message is what `MessageList` and
`ClientDatagram` say. Every run of these calls agrees with the run over lists.
-/
namespace MessageLinks
open ClientDatagram MessageList NetChan NodeLinks Outcome OwnedHeap SizeBuf StepRuns

/-- The tail of the links is `msgListEnd`. -/
structure Linked where
  allocated : Bool := false
  nodes : Nat → Messagelist := fun _ => {}
  heap : Heap (List UInt8) := Heap.empty
  links : Links Nat := { next := fun _ => none, tail := 0 }

def msgListStart : Nat := 0

/-- What the nodes hold, in no order. -/
def Linked.contents (l : Linked) : Messages where
  allocated := l.allocated
  nodes := l.nodes
  heap := l.heap

def Linked.store (l : Linked) (m : Messages) : Linked :=
  { l with allocated := m.allocated, nodes := m.nodes, heap := m.heap }

def Linked.link (l : Linked) (node : Nat) : Linked := { l with links := l.links.append node }

/-- The messages as a loop that deletes nothing finds them. -/
def Linked.read (l : Linked) : Messages :=
  { l.contents with list := nodesFrom l.links.next maxMessagesPerList msgListStart }

def svDeleteMessage (l : Linked) (message last : Nat) : Except Stop Linked := do
  let m ← MessageList.svDeleteMessage l.contents message
  .ok { l.store m with links := l.links.unlink last message }

/-- `last = message; message = message->next`, until there is no message. -/
def walk {α : Type} (visit : Messages → α → Nat → Except Stop (α × Visit)) :
    Nat → Nat → α → Linked → Except Stop (α × Linked)
  | 0, _, _, _ => .error .unfinished
  | fuel + 1, last, acc, l =>
    match l.links.next last with
    | none => .ok (acc, l)
    | some message => do
      let (acc, verdict) ← visit l.contents acc message
      match verdict with
      | .keep => walk visit fuel message acc l
      | .delete => do
        let l ← svDeleteMessage l message last
        walk visit fuel last acc l
      | .stop => .ok (acc, l)

def loop {α : Type} (visit : Messages → α → Nat → Except Stop (α × Visit)) (acc : α)
    (l : Linked) : Except Stop (α × Linked) :=
  walk visit maxMessagesPerList msgListStart acc l

def svClearMessageList (l : Linked) : Except Stop Linked := do
  let (_, l) ← loop (fun _ acc _ => .ok (acc, .delete)) () l
  .ok l

structure LinkedClient where
  control : Control
  messages : Linked := {}

def LinkedClient.read (client : LinkedClient) : Client := ⟨client.control, client.messages.read⟩

/-! ## Adding -/

def dropOtherLayouts (l : Linked) (next : Nat) : Except Stop Linked :=
  if l.contents.byteAt next 0 = svcLayout then do
    let (reliable, l) ← loop (visitLayout next) (l.nodes next).reliable l
    .ok (l.store (l.contents.setReliable next reliable))
  else .ok l

def overflow (client : LinkedClient) : Except Stop LinkedClient := do
  let l ← svClearMessageList client.messages
  .ok { client with messages := l, control := { client.control with overflowed := true } }

/-- `(cl->msgListEnd - cl->msgListStart) + 1`. -/
def slot (l : Linked) : Nat := l.links.tail - msgListStart + 1

def queueMessage (client : LinkedClient) (data : List UInt8) (reliable : Bool) :
    Except Stop LinkedClient :=
  let l := client.messages
  let index := slot l
  if index ≥ maxMessagesPerList - 1 then overflow client
  else
    let l := l.link index
    let l := l.store (msgEndWrite l.contents index data)
    if (l.nodes index).cursize ≥ (client.control.netchan.message.buffsize : Int) then
      overflow { client with messages := l }
    else do
      let l := l.store (l.contents.setReliable index reliable)
      let l ← dropOtherLayouts l index
      let m ← padModelskin client.control.state l.contents index
      .ok { client with messages := l.store m }

def svAddMessageSingle (forceReconnect : Bool) (client : LinkedClient) (msg : Msgbuff)
    (reliable : Bool) : Except Stop LinkedClient :=
  if refusesMessage forceReconnect client.read reliable then .ok client
  else
    match checkLayout client.control msg reliable with
    | none => .ok client
    | some (control, msg) => queueMessage { client with control } msg.data reliable

/-! ## Leaving -/

def dropMessages (client : LinkedClient) (state : ClientState) : Except Stop LinkedClient := do
  let l ← if client.messages.allocated then svClearMessageList client.messages
    else .ok client.messages
  .ok { client with
    messages := { l with allocated := false }
    control := { client.control with state } }

def connect (client : LinkedClient) (control : Control) : Except Stop LinkedClient := do
  let client ← dropMessages client .free
  .ok { control, messages := { allocated := true, heap := client.messages.heap } }

/-! ## Sending -/

def svWriteReliableMessages (client : LinkedClient) (buffSize : Nat) : Except Stop LinkedClient :=
  let chan := client.control.netchan
  if client.control.state = .free ∨ !client.messages.allocated then .ok client
  else if !chan.reliable.isEmpty then .ok client
  else do
    let start : Written := { message := { chan.message with maxsize := buffSize } }
    let (w, l) ← loop writeReliable start client.messages
    let client := { control := setChannelMessage client.control w.message, messages := l }
    if w.tooBig then dropMessages client .zombie
    else if w.message.overflowed then .error .comError
    else .ok client

structure LinkedDraft where
  messages : Linked
  control : Control
  msg : Sizebuf

def LinkedDraft.read (d : LinkedDraft) : Draft := ⟨d.messages.read, d.control, d.msg⟩

/-- The draft after a step that does not delete messages. -/
def LinkedDraft.store (d : LinkedDraft) (d' : Draft) : LinkedDraft :=
  ⟨d.messages.store d'.messages, d'.control, d'.msg⟩

def putPlain (frame : List UInt8) (d : LinkedDraft) : Except Stop (LinkedDraft × Bool) := do
  let (d', done) ← ClientDatagram.putPlain frame d.read
  .ok (d.store d', done)

def putCompressed (zlib : Zlib) (frame : List UInt8) (d : LinkedDraft) :
    Except Stop (LinkedDraft × Bool) := do
  let (whole, stopAt) ← appendUnreliable d.messages.read frame d.messages.read.list
  match ← compressBuffer zlib whole d.msg with
  | some msg => do
    let (control, messages) ← loop (deleteUntil stopAt) d.control d.messages
    .ok (⟨messages, control, msg⟩, true)
  | none =>
    match ← compressBuffer zlib frame d.msg with
    | some msg => .ok ({ d with msg }, true)
    | none => putPlain frame d

def putFrame (env : Env) (rmessage : Option Nat) (frame : List UInt8) (d : LinkedDraft) :
    Except Stop (LinkedDraft × Bool) :=
  if env.compress then do
    let rest ← unreliableSize d.messages.read d.messages.read.list
    let size := frame.length + rest
    if overBudget env.rate size d.msg then
      match ← compressReliable env.zlib rmessage d.read with
      | none => putCompressed env.zlib frame d
      | some d' =>
        if overBudget env.rate size d'.msg then putCompressed env.zlib frame (d.store d')
        else putPlain frame (d.store d')
    else putPlain frame d
  else putPlain frame d

def putAttempt (env : Env) (rmessage : Option Nat) (d : LinkedDraft) :
    Option (List UInt8) → Except Stop (LinkedDraft × Bool)
  | none => .ok (d, false)
  | some frame => putFrame env rmessage frame d

def retryframe {σ : Type} (env : Env) (write : σ → Nat → Option (Frame σ))
    (rmessage : Option Nat) : Nat → σ → Nat → Bool → LinkedDraft → Except Stop (σ × LinkedDraft)
  | 0, _, _, _, _ => .error .unfinished
  | fuel + 1, memory, newEntities, reduced, d => do
    let frame ← (write memory newEntities).elim (.error .comError) .ok
    let (d, done) ← putAttempt env rmessage d frame.bytes
    if done then .ok (frame.memory, d)
    else if frame.newEntities ≠ 0 then
      retryframe env write rmessage fuel frame.memory
        (if reduced then 0 else frame.newEntities / 2) true d
    else .ok (frame.memory, d)

def svBuildClientFrame (env : Env) (client : LinkedClient) : Except Stop LinkedClient :=
  match env.registered with
  | none => .ok client
  | some index => svAddMessageSingle env.forceReconnect client (soundMessage index) true

def frameDatagram {σ : Type} (env : Env) (write : σ → Nat → Option (Frame σ)) (fuel : Nat)
    (memory : σ) (client : LinkedClient) : Except Stop (σ × LinkedDraft) := do
  let (msg, rmessage) ← reserve client.read
  if client.control.nodata then .ok (memory, ⟨client.messages, client.control, msg⟩)
  else do
    let client ← svBuildClientFrame env client
    let (memory, d) ← retryframe env write rmessage fuel memory noLimit false
      ⟨client.messages, client.control, msg⟩
    .ok (memory, if d.msg.overflowed then { d with msg := szClear d.msg } else d)

def fillPass (chosen : Messages → Nat → Bool) (note : Messages → Nat → Control → Control)
    (d : LinkedDraft) : Except Stop LinkedDraft := do
  let ((msg, control), messages) ← loop (fill chosen note) (d.msg, d.control) d.messages
  .ok ⟨messages, control, msg⟩

def fillUnreliable (env : Env) (d : LinkedDraft) : Except Stop LinkedDraft :=
  if hasRoom d.msg then do
    let d ← fillPass (goesFirst env.random) (fun _ _ control => control) d
    if hasRoom d.msg then fillPass (fun _ _ => true) noteLayout d else .ok d
  else .ok d

def svSendClientDatagram {σ : Type} (env : Env) (write : σ → Nat → Option (Frame σ))
    (fuel : Nat) (memory : σ) (client : LinkedClient) :
    Except Stop (σ × LinkedClient × Option (List UInt8)) := do
  let chan := client.control.netchan
  if (env.curtime + 2 ^ 32 - chan.lastReceived) % 2 ^ 32 > 5000 ∧ !env.demofile then
    let (control, messages) ← loop (nukeUnreliable fun _ => false) client.control client.messages
    .ok (memory, { control, messages }, none)
  else
    let (memory, d) ← frameDatagram env write fuel memory client
    let d ← fillUnreliable env d
    if d.msg.overflowed then .error .comError
    else
      let (control, messages) ←
        loop (nukeUnreliable (· == svcStufftext)) d.control d.messages
      let client ← svWriteReliableMessages { control, messages }
        (control.netchan.message.buffsize - d.msg.cursize)
      .ok (memory, client, some d.msg.data)

/-! ## The list that is represented -/

structure Refines (l : Linked) (m : Messages) : Prop where
  contents : l.contents = { m with list := [] }
  represents : Represents msgListStart l.links m.list
  sorted : (msgListStart :: m.list).Pairwise (· < ·)
  bounded : ∀ i ∈ m.list, i < maxMessagesPerList - 1

theorem length_lt_of_refines {l : Linked} {m : Messages} (h : Refines l m) :
    m.list.length < maxMessagesPerList := by
  have hnodup : m.list.Nodup := (List.nodup_cons.mp h.represents.nodup).2
  have hsub : m.list ⊆ List.range (maxMessagesPerList - 1) := fun i hi =>
    List.mem_range.mpr (h.bounded i hi)
  have hle := (List.subperm_of_subset hnodup hsub).length_le
  rw [List.length_range] at hle
  exact Nat.lt_of_le_of_lt hle (by decide)

theorem read_of_refines {l : Linked} {m : Messages} (h : Refines l m) : l.read = m := by
  have hlist := h.represents.nodesFrom_eq (length_lt_of_refines h)
  simp only [Linked.read, hlist, h.contents]

/-- A change of the nodes that has nothing to do with their order. -/
theorem Refines.store {l : Linked} {m c m' : Messages} (h : Refines l m)
    (contents : c = { m' with list := [] }) (order : m'.list = m.list) :
    Refines (l.store c) m' where
  contents := by
    rw [contents]
    rfl
  represents := by
    rw [order]
    exact h.represents
  sorted := by
    rw [order]
    exact h.sorted
  bounded := by
    rw [order]
    exact h.bounded

theorem Refines.change {l : Linked} {m : Messages} {f : Messages → Messages} (h : Refines l m)
    (unordered : ∀ m list, f { m with list } = { f m with list }) :
    Refines (l.store (f l.contents)) (f m) := by
  have hlist : (f m).list = m.list := by
    have heq : f m = { f m with list := m.list } := unordered m m.list
    rw [heq]
  refine h.store ?_ hlist
  rw [h.contents, unordered m []]

/-- What a step reads does not depend on the order of the messages. -/
def Unordered {α : Type} (visit : Messages → α → Nat → Except Stop (α × Visit)) : Prop :=
  ∀ m list acc i, visit { m with list } acc i = visit m acc i

/-- A node is taken out of the chain where it stands in the list. -/
theorem svDeleteMessage_agrees {l : Linked} {m : Messages} (h : Refines l m)
    {before after : List Nat} {i : Nat} (hlist : m.list = before ++ i :: after) :
    Agrees (fun l' m' => Refines l' m' ∧ m'.list = before ++ after)
      (svDeleteMessage l i (before.getLastD msgListStart)) (MessageList.svDeleteMessage m i) := by
  have hnot : i ∉ before := by
    have hnodup := (List.nodup_cons.mp h.represents.nodup).2
    rw [hlist] at hnodup
    intro hmem
    exact (List.disjoint_of_nodup_append hnodup) hmem List.mem_cons_self
  have herase : m.list.erase i = before ++ after := by
    rw [hlist, List.erase_append_right _ hnot, List.erase_cons_head]
  have hsub : (before ++ after).Sublist m.list := by
    rw [hlist]
    exact List.Sublist.append (List.Sublist.refl before) (List.sublist_cons_self i after)
  have hrefines : ∀ heap, Refines
      { l.store { m with heap, list := [] } with
        links := l.links.unlink (before.getLastD msgListStart) i }
      { m with heap, list := before ++ after } := by
    intro heap
    refine ⟨rfl, ?_, ?_, ?_⟩
    · have hrep := h.represents
      rw [hlist] at hrep
      exact hrep.unlink
    · exact h.sorted.sublist (List.Sublist.cons_cons _ hsub)
    · exact fun j hj => h.bounded j (hsub.subset hj)
  simp only [svDeleteMessage, MessageList.svDeleteMessage, h.contents, herase]
  split
  · cases (m.nodes i).data with
    | localbuff => exact agrees_error _
    | malloced block =>
      cases hfree : m.heap.free block with
      | none =>
        simp only [hfree]
        exact agrees_error _
      | some heap =>
        simp only [hfree]
        exact agrees_ok ⟨hrefines heap, rfl⟩
  · exact agrees_ok ⟨hrefines m.heap, rfl⟩

/-- The induction is on the messages still to be visited; `last` is the one before. -/
theorem walk_agrees {α : Type} {visit : Messages → α → Nat → Except Stop (α × Visit)}
    (unordered : Unordered visit) {l : Linked} {m : Messages} (h : Refines l m)
    {before rest : List Nat} (hlist : m.list = before ++ rest) {fuel : Nat}
    (enough : rest.length < fuel) (acc : α) :
    Agrees (fun r r' => r.1 = r'.1 ∧ Refines r.2 r'.2)
      (walk visit fuel (before.getLastD msgListStart) acc l) (sweep visit rest acc m) := by
  induction rest generalizing before fuel l m acc with
  | nil =>
    cases fuel with
    | zero => simp at enough
    | succ fuel =>
      have hleads := h.represents.leads
      rw [hlist] at hleads
      have hend : l.links.next (before.getLastD msgListStart) = none := leads_behind before hleads
      simp only [walk, hend]
      exact agrees_ok ⟨rfl, h⟩
  | cons i rest ih =>
    cases fuel with
    | zero => simp at enough
    | succ fuel =>
      have hleads := h.represents.leads
      rw [hlist] at hleads
      have hnext : l.links.next (before.getLastD msgListStart) = some i := (leads_behind before hleads).1
      have hfuel : rest.length < fuel := by simpa using enough
      have hvisit : visit l.contents acc i = visit m acc i := by
        rw [h.contents]
        exact unordered m [] acc i
      simp only [walk, hnext, sweep, hvisit]
      refine (agrees_self (visit m acc i)).bind ?_
      rintro ⟨acc, verdict⟩ _ rfl
      cases verdict with
      | keep =>
        have hlast : i = (before ++ [i]).getLastD msgListStart := by simp
        simp only
        nth_rewrite 1 [hlast]
        exact ih h (by simpa using hlist) hfuel acc
      | delete =>
        refine (svDeleteMessage_agrees h hlist).bind ?_
        rintro l' m' ⟨hrefines, hrest⟩
        exact ih hrefines hrest hfuel acc
      | stop => exact agrees_ok ⟨rfl, h⟩

theorem loop_agrees {α : Type} {visit : Messages → α → Nat → Except Stop (α × Visit)}
    (unordered : Unordered visit) {l : Linked} {m : Messages} (h : Refines l m) (acc : α) :
    Agrees (fun r r' => r.1 = r'.1 ∧ Refines r.2 r'.2) (loop visit acc l)
      (sweep visit m.list acc m) :=
  walk_agrees unordered h (List.nil_append _).symm (length_lt_of_refines h) acc

theorem svClearMessageList_agrees {l : Linked} {m : Messages} (h : Refines l m) :
    Agrees Refines (svClearMessageList l) (MessageList.svClearMessageList m) := by
  refine (loop_agrees (fun _ _ _ _ => rfl) h ()).bind ?_
  rintro ⟨_, l'⟩ ⟨_, m'⟩ ⟨_, hrefines⟩
  exact agrees_ok hrefines

/-! ## Adding -/

def RefinesClient (c : LinkedClient) (c' : Client) : Prop :=
  c.control = c'.control ∧ Refines c.messages c'.messages

theorem RefinesClient.read_eq {c : LinkedClient} {c' : Client} (h : RefinesClient c c') :
    c.read = c' := by
  simp only [LinkedClient.read, h.1, read_of_refines h.2]

theorem contents_node {l : Linked} {m : Messages} (h : Refines l m) : l.nodes = m.nodes := by
  have hcontents := h.contents
  simp only [Linked.contents, Messages.mk.injEq] at hcontents
  exact hcontents.2.1

theorem slot_of_refines {l : Linked} {m : Messages} (h : Refines l m) : slot l = nextIndex m := by
  simp only [slot, nextIndex, h.represents.tail, msgListStart, Nat.sub_zero]

theorem lt_slot {l : Linked} {m : Messages} (h : Refines l m) :
    ∀ i ∈ msgListStart :: m.list, i < slot l := by
  intro i hi
  rw [slot_of_refines h]
  exact Nat.lt_succ_of_le (le_getLastD h.sorted hi)

theorem dropOtherLayouts_agrees {l : Linked} {m : Messages} (h : Refines l m) (next : Nat) :
    Agrees Refines (dropOtherLayouts l next) (MessageList.dropOtherLayouts m next) := by
  have hbyte : l.contents.byteAt next 0 = m.byteAt next 0 := by
    rw [h.contents]
    rfl
  simp only [dropOtherLayouts, MessageList.dropOtherLayouts, hbyte, contents_node h]
  split
  · refine (loop_agrees (fun _ _ _ _ => rfl) h _).bind ?_
    rintro ⟨reliable, l'⟩ ⟨reliable', m'⟩ ⟨hreliable, hrefines⟩
    cases (show reliable = reliable' from hreliable)
    have hset := Refines.change (f := fun m => m.setReliable next reliable) hrefines
      fun _ _ => rfl
    exact agrees_ok hset
  · exact agrees_ok h

theorem overflow_agrees {c : LinkedClient} {c' : Client} (h : RefinesClient c c') :
    Agrees RefinesClient (overflow c) (MessageList.overflow c') := by
  refine (svClearMessageList_agrees h.2).bind fun l m hrefines => ?_
  exact agrees_ok ⟨by rw [h.1], hrefines⟩

theorem msgEndWrite_unordered (m : Messages) (i : Nat) (data : List UInt8) (list : List Nat) :
    msgEndWrite { m with list } i data = { msgEndWrite m i data with list } := by
  simp only [msgEndWrite]
  split <;> rfl

/-- The new node is behind all others, and below the limit. -/
theorem refines_link {l : Linked} {m : Messages} (h : Refines l m)
    (room : slot l < maxMessagesPerList - 1) :
    Refines (l.link (slot l)) { m with list := m.list ++ [slot l] } := by
  have hlt := lt_slot h
  refine ⟨h.contents, ?_, ?_, ?_⟩
  · exact h.represents.append fun hmem => Nat.lt_irrefl _ (hlt _ hmem)
  · change (msgListStart :: m.list ++ [slot l]).Pairwise (· < ·)
    rw [List.pairwise_append]
    refine ⟨h.sorted, List.pairwise_singleton _ _, ?_⟩
    intro i hi j hj
    rw [List.mem_singleton.mp hj]
    exact hlt i hi
  · intro i hi
    rcases List.mem_append.mp hi with hi | hi
    · exact h.bounded i hi
    · rw [List.mem_singleton.mp hi]
      exact room

theorem write_unordered (m : Messages) (i offset : Nat) (new : List UInt8) :
    Agrees (fun c m' => c = { m' with list := [] } ∧ m'.list = m.list)
      (Messages.write { m with list := [] } i offset new) (m.write i offset new) := by
  simp only [Messages.write, Messages.storage]
  cases (m.nodes i).data with
  | localbuff =>
    simp only
    split
    · exact agrees_ok ⟨rfl, rfl⟩
    · exact agrees_error _
  | malloced block =>
    simp only
    cases m.heap.blocks block with
    | none => exact agrees_error _
    | some storage =>
      simp only
      split
      · cases m.heap.store block _ with
        | none => exact agrees_error _
        | some heap => exact agrees_ok ⟨rfl, rfl⟩
      · exact agrees_error _

theorem padModelskin_agrees {l : Linked} {m : Messages} (h : Refines l m) (state : ClientState)
    (i : Nat) :
    Agrees (fun c m' => Refines (l.store c) m') (padModelskin state l.contents i)
      (padModelskin state m i) := by
  have hsame : Refines (l.store l.contents) m := h.store h.contents rfl
  have hindex : modelskinIndex state l.contents i = modelskinIndex state m i := by
    rw [h.contents]
    rfl
  have hbyte : ∀ k, l.contents.byteAt i k = m.byteAt i k := by
    intro k
    rw [h.contents]
    rfl
  have hnodes : l.contents.nodes = m.nodes := contents_node h
  simp only [padModelskin, hindex, hbyte, hnodes]
  split
  · split
    · exact agrees_error _
    · split
      · rw [h.contents]
        refine (write_unordered m i _ _).bind ?_
        rintro c m' ⟨rfl, horder⟩
        exact agrees_ok (h.store rfl horder)
      · exact agrees_ok hsame
  · exact agrees_ok hsame

theorem queueMessage_agrees {c : LinkedClient} {c' : Client} (h : RefinesClient c c')
    (data : List UInt8) (reliable : Bool) :
    Agrees RefinesClient (queueMessage c data reliable)
      (MessageList.queueMessage c' data reliable) := by
  obtain ⟨hcontrol, hrefines⟩ := h
  simp only [queueMessage, MessageList.queueMessage, ← slot_of_refines hrefines]
  split
  · exact overflow_agrees ⟨hcontrol, hrefines⟩
  · rename_i hroom
    have hlink := refines_link hrefines (by omega)
    have hwrite := Refines.change (f := fun m => msgEndWrite m (slot c.messages) data) hlink
      fun m list => msgEndWrite_unordered m _ data list
    rw [contents_node hwrite, hcontrol]
    split
    · exact overflow_agrees ⟨rfl, hwrite⟩
    · have hset := Refines.change (f := fun m => m.setReliable (slot c.messages) reliable) hwrite
        fun _ _ => rfl
      refine (dropOtherLayouts_agrees hset (slot c.messages)).bind fun l m hdropped => ?_
      refine (padModelskin_agrees hdropped c'.control.state (slot c.messages)).bind ?_
      intro m' m'' hpadded
      exact agrees_ok ⟨rfl, hpadded⟩

theorem svAddMessageSingle_agrees {c : LinkedClient} {c' : Client} (h : RefinesClient c c')
    (forceReconnect : Bool) (msg : Msgbuff) (reliable : Bool) :
    Agrees RefinesClient (svAddMessageSingle forceReconnect c msg reliable)
      (MessageList.svAddMessageSingle forceReconnect c' msg reliable) := by
  simp only [svAddMessageSingle, MessageList.svAddMessageSingle, h.read_eq, h.1]
  split
  · exact agrees_ok h
  · cases checkLayout c'.control msg reliable with
    | none => exact agrees_ok h
    | some r =>
      have hclient : RefinesClient ⟨r.1, c.messages⟩ ⟨r.1, c'.messages⟩ := ⟨rfl, h.2⟩
      exact queueMessage_agrees hclient r.2.data reliable

/-! ## Leaving and sending -/

theorem contents_allocated {l : Linked} {m : Messages} (h : Refines l m) :
    l.allocated = m.allocated := by
  have hcontents := h.contents
  simp only [Linked.contents, Messages.mk.injEq] at hcontents
  exact hcontents.1

theorem contents_heap {l : Linked} {m : Messages} (h : Refines l m) : l.heap = m.heap := by
  have hcontents := h.contents
  simp only [Linked.contents, Messages.mk.injEq] at hcontents
  exact hcontents.2.2.2

theorem dropMessages_agrees {c : LinkedClient} {c' : Client} (h : RefinesClient c c')
    (state : ClientState) :
    Agrees RefinesClient (dropMessages c state) (MessageList.dropMessages c' state) := by
  have hfreed : ∀ {l m}, Refines l m → Agrees RefinesClient
      (.ok { messages := { l with allocated := false }, control := { c.control with state } })
      (.ok { messages := { m with allocated := false }, control := { c'.control with state } } :
        Except Stop Client) := fun hrefines =>
    agrees_ok ⟨by rw [h.1], Refines.change (f := fun m => { m with allocated := false })
      hrefines fun _ _ => rfl⟩
  simp only [dropMessages, MessageList.dropMessages, contents_allocated h.2]
  split
  · exact (svClearMessageList_agrees h.2).bind fun l m hrefines => hfreed hrefines
  · exact hfreed h.2

theorem refines_new (heap : Heap (List UInt8)) (allocated : Bool) :
    Refines { allocated, heap } { allocated, heap } where
  contents := rfl
  represents := ⟨rfl, rfl, List.nodup_singleton _⟩
  sorted := List.pairwise_singleton _ _
  bounded := fun _ hi => (List.not_mem_nil hi).elim

theorem connect_agrees {c : LinkedClient} {c' : Client} (h : RefinesClient c c')
    (control : Control) :
    Agrees RefinesClient (connect c control) (MessageList.connect c' control) := by
  refine (dropMessages_agrees h .free).bind fun c c' hdropped => ?_
  rw [contents_heap hdropped.2]
  exact agrees_ok ⟨rfl, refines_new _ true⟩

theorem svWriteReliableMessages_agrees {c : LinkedClient} {c' : Client} (h : RefinesClient c c')
    (buffSize : Nat) :
    Agrees RefinesClient (svWriteReliableMessages c buffSize)
      (MessageList.svWriteReliableMessages c' buffSize) := by
  simp only [svWriteReliableMessages, MessageList.svWriteReliableMessages, h.1,
    contents_allocated h.2]
  split
  · exact agrees_ok h
  · split
    · exact agrees_ok h
    · refine (loop_agrees (fun _ _ _ _ => rfl) h.2 _).bind ?_
      rintro ⟨w, l⟩ ⟨w', m⟩ ⟨hwritten, hrefines⟩
      cases (show w = w' from hwritten)
      have hclient : RefinesClient ⟨setChannelMessage c'.control w.message, l⟩
        ⟨setChannelMessage c'.control w.message, m⟩ := ⟨rfl, hrefines⟩
      simp only
      split
      · exact dropMessages_agrees hclient .zombie
      · split
        · exact agrees_error _
        · exact agrees_ok hclient

structure RefinesDraft (d : LinkedDraft) (d' : Draft) : Prop where
  messages : Refines d.messages d'.messages
  control : d.control = d'.control
  msg : d.msg = d'.msg

theorem RefinesDraft.read_eq {d : LinkedDraft} {d' : Draft} (h : RefinesDraft d d') :
    d.read = d' := by
  simp only [LinkedDraft.read, read_of_refines h.messages, h.control, h.msg]

/-- A step that leaves the list as it is. -/
theorem RefinesDraft.store {d : LinkedDraft} {d' d'' : Draft} (h : RefinesDraft d d')
    (order : d''.messages.list = d'.messages.list) : RefinesDraft (d.store d'') d'' where
  messages := by
    have hstored := h.messages.store (c := { d''.messages with list := [] }) rfl order
    exact hstored
  control := rfl
  msg := rfl

theorem putPlain_order (frame : List UInt8) (d : Draft) :
    Returns (fun r => r.1.messages = d.messages) (ClientDatagram.putPlain frame d) := by
  simp only [ClientDatagram.putPlain]
  split
  · exact (returns_any _).bind fun msg _ => returns_ok rfl
  · exact returns_ok rfl

theorem putPlain_agrees {d : LinkedDraft} {d' : Draft} (h : RefinesDraft d d')
    (frame : List UInt8) :
    Agrees (fun r r' => RefinesDraft r.1 r'.1 ∧ r.2 = r'.2) (putPlain frame d)
      (ClientDatagram.putPlain frame d') := by
  have horder := putPlain_order frame d'
  simp only [putPlain, h.read_eq]
  cases hplain : ClientDatagram.putPlain frame d' with
  | error e => exact agrees_error e
  | ok r =>
    rw [hplain] at horder
    have hmessages : r.1.messages = d'.messages := horder
    exact agrees_ok ⟨h.store (by rw [hmessages]), rfl⟩

theorem write_order {m : Messages} (i offset : Nat) (new : List UInt8) :
    Returns (fun m' => m'.list = m.list) (m.write i offset new) := by
  have hagrees := write_unordered m i offset new
  cases hwrite : m.write i offset new with
  | error e => exact returns_error e
  | ok m' =>
    rw [hwrite] at hagrees
    cases hplain : Messages.write { m with list := [] } i offset new with
    | error e =>
      rw [hplain] at hagrees
      exact hagrees.elim
    | ok c =>
      rw [hplain] at hagrees
      exact hagrees.2

theorem compressReliable_order (zlib : Zlib) (rmessage : Option Nat) (d : Draft) :
    Returns (fun r => ∀ d', r = some d' → d'.messages.list = d.messages.list)
      (compressReliable zlib rmessage d) := by
  simp only [compressReliable]
  cases rmessage with
  | some i =>
    simp only
    split
    · exact returns_ok fun _ hsome => by cases hsome
    · refine (returns_any _).bind fun bytes _ => (returns_any _).bind fun r _ => ?_
      cases r with
      | none => exact returns_ok fun _ hsome => by cases hsome
      | some out =>
        refine (write_order i 0 out.data).bind fun m hm => returns_ok ?_
        rintro d' ⟨⟩
        exact hm
  | none =>
    simp only
    split
    · refine (returns_any _).bind fun r _ => ?_
      cases r with
      | none => exact returns_ok fun _ hsome => by cases hsome
      | some out =>
        refine returns_ok ?_
        rintro d' ⟨⟩
        rfl
    · exact returns_ok fun _ hsome => by cases hsome

theorem putCompressed_agrees {d : LinkedDraft} {d' : Draft} (h : RefinesDraft d d') (zlib : Zlib)
    (frame : List UInt8) :
    Agrees (fun r r' => RefinesDraft r.1 r'.1 ∧ r.2 = r'.2) (putCompressed zlib frame d)
      (ClientDatagram.putCompressed zlib frame d') := by
  simp only [putCompressed, ClientDatagram.putCompressed, read_of_refines h.messages, h.msg,
    h.control]
  refine (agrees_self _).bind ?_
  rintro ⟨whole, stopAt⟩ _ rfl
  refine (agrees_self _).bind ?_
  rintro r _ rfl
  cases r with
  | some msg =>
    refine (loop_agrees (fun _ _ _ _ => rfl) h.messages _).bind ?_
    rintro ⟨control, l⟩ ⟨control', m⟩ ⟨hcontrol, hrefines⟩
    exact agrees_ok ⟨⟨hrefines, hcontrol, rfl⟩, rfl⟩
  | none =>
    refine (agrees_self _).bind ?_
    rintro r _ rfl
    cases r with
    | some msg => exact agrees_ok ⟨⟨h.messages, rfl, rfl⟩, rfl⟩
    | none => exact putPlain_agrees h frame

/-- Putting a frame on the nodes does what it does on the list. -/
theorem putFrame_agrees {d : LinkedDraft} {d' : Draft} (h : RefinesDraft d d') (env : Env)
    (rmessage : Option Nat) (frame : List UInt8) :
    Agrees (fun r r' => RefinesDraft r.1 r'.1 ∧ r.2 = r'.2) (putFrame env rmessage frame d)
      (ClientDatagram.putFrame env rmessage frame d') := by
  simp only [putFrame, ClientDatagram.putFrame, h.read_eq, read_of_refines h.messages, h.msg]
  split
  · refine (agrees_self _).bind ?_
    rintro rest _ rfl
    split
    · have horder := compressReliable_order env.zlib rmessage d'
      cases hcompress : compressReliable env.zlib rmessage d' with
      | error e => exact agrees_error e
      | ok r =>
        rw [hcompress] at horder
        cases r with
        | none => exact putCompressed_agrees h env.zlib frame
        | some d'' =>
          have hstored := h.store (horder d'' rfl)
          simp only [bind, Except.bind]
          split
          · exact putCompressed_agrees hstored env.zlib frame
          · exact putPlain_agrees hstored frame
    · exact putPlain_agrees h frame
  · exact putPlain_agrees h frame

/-- All attempts at a frame on the nodes do what they do on the list. -/
theorem retryframe_agrees {σ : Type} {d : LinkedDraft} {d' : Draft} (h : RefinesDraft d d')
    (env : Env) (write : σ → Nat → Option (Frame σ)) (rmessage : Option Nat) (fuel : Nat)
    (memory : σ) (newEntities : Nat) (reduced : Bool) :
    Agrees (fun r r' => r.1 = r'.1 ∧ RefinesDraft r.2 r'.2)
      (retryframe env write rmessage fuel memory newEntities reduced d)
      (ClientDatagram.retryframe env write rmessage fuel memory newEntities reduced d') := by
  induction fuel generalizing d d' memory newEntities reduced with
  | zero => exact agrees_error _
  | succ fuel ih =>
    simp only [retryframe, ClientDatagram.retryframe]
    refine (agrees_self _).bind ?_
    rintro frame _ rfl
    have hattempt : Agrees (fun r r' => RefinesDraft r.1 r'.1 ∧ r.2 = r'.2)
        (putAttempt env rmessage d frame.bytes)
        (ClientDatagram.putAttempt env rmessage d' frame.bytes) := by
      cases frame.bytes with
      | none => exact agrees_ok ⟨h, rfl⟩
      | some bytes => exact putFrame_agrees h env rmessage bytes
    refine hattempt.bind ?_
    rintro ⟨d, done⟩ ⟨d', done'⟩ ⟨hdraft, hdone⟩
    cases (show done = done' from hdone)
    simp only
    split
    · exact agrees_ok ⟨rfl, hdraft⟩
    · split
      · exact ih hdraft _ _ _
      · exact agrees_ok ⟨rfl, hdraft⟩

theorem svBuildClientFrame_agrees {c : LinkedClient} {c' : Client} (h : RefinesClient c c')
    (env : Env) :
    Agrees RefinesClient (svBuildClientFrame env c) (ClientDatagram.svBuildClientFrame env c') := by
  cases hsound : env.registered with
  | none =>
    simp only [svBuildClientFrame, ClientDatagram.svBuildClientFrame, hsound]
    exact agrees_ok h
  | some index =>
    simp only [svBuildClientFrame, ClientDatagram.svBuildClientFrame, hsound]
    exact svAddMessageSingle_agrees h _ _ _

theorem frameDatagram_agrees {σ : Type} {c : LinkedClient} {c' : Client} (h : RefinesClient c c')
    (env : Env) (write : σ → Nat → Option (Frame σ)) (fuel : Nat) (memory : σ) :
    Agrees (fun r r' => r.1 = r'.1 ∧ RefinesDraft r.2 r'.2)
      (frameDatagram env write fuel memory c)
      (ClientDatagram.frameDatagram env write fuel memory c') := by
  simp only [frameDatagram, ClientDatagram.frameDatagram, h.read_eq, h.1]
  refine (agrees_self _).bind ?_
  rintro ⟨msg, rmessage⟩ _ rfl
  simp only
  split
  · exact agrees_ok ⟨rfl, h.2, rfl, rfl⟩
  · refine (svBuildClientFrame_agrees h env).bind fun built built' hbuilt => ?_
    have hdraft : RefinesDraft ⟨built.messages, built.control, msg⟩
        ⟨built'.messages, built'.control, msg⟩ := ⟨hbuilt.2, hbuilt.1, rfl⟩
    refine (retryframe_agrees hdraft env write rmessage fuel memory noLimit false).bind ?_
    rintro ⟨memory, d⟩ ⟨memory', d'⟩ ⟨hmemory, hretried⟩
    refine agrees_ok ⟨hmemory, ?_⟩
    simp only [show d.msg = d'.msg from hretried.msg]
    split
    · exact ⟨hretried.messages, hretried.control, rfl⟩
    · exact hretried

theorem fillPass_agrees {chosen : Messages → Nat → Bool}
    {note : Messages → Nat → Control → Control} (unordered : Unordered (fill chosen note))
    {d : LinkedDraft} {d' : Draft} (h : RefinesDraft d d') :
    Agrees RefinesDraft (fillPass chosen note d) (ClientDatagram.fillPass chosen note d') := by
  simp only [fillPass, ClientDatagram.fillPass, h.msg, h.control]
  refine (loop_agrees unordered h.messages _).bind ?_
  rintro ⟨⟨msg, control⟩, l⟩ ⟨⟨msg', control'⟩, m⟩ ⟨hfilled, hrefines⟩
  obtain ⟨hmsg, hcontrol⟩ := Prod.mk.inj (show (msg, control) = (msg', control') from hfilled)
  exact agrees_ok ⟨hrefines, hcontrol, hmsg⟩

theorem fillUnreliable_agrees {d : LinkedDraft} {d' : Draft} (h : RefinesDraft d d') (env : Env) :
    Agrees RefinesDraft (fillUnreliable env d) (ClientDatagram.fillUnreliable env d') := by
  simp only [fillUnreliable, ClientDatagram.fillUnreliable, h.msg]
  split
  · refine (fillPass_agrees (fun _ _ _ _ => rfl) h).bind fun d d' hfilled => ?_
    rw [hfilled.msg]
    split
    · exact fillPass_agrees (fun _ _ _ _ => rfl) hfilled
    · exact agrees_ok hfilled
  · exact agrees_ok h

theorem svSendClientDatagram_agrees {σ : Type} {c : LinkedClient} {c' : Client}
    (h : RefinesClient c c') (env : Env) (write : σ → Nat → Option (Frame σ)) (fuel : Nat)
    (memory : σ) :
    Agrees (fun r r' => RefinesClient r.2.1 r'.2.1)
      (svSendClientDatagram env write fuel memory c)
      (ClientDatagram.svSendClientDatagram env write fuel memory c') := by
  simp only [svSendClientDatagram, ClientDatagram.svSendClientDatagram, h.1]
  split
  · refine (loop_agrees (fun _ _ _ _ => rfl) h.2 _).bind ?_
    rintro ⟨control, l⟩ ⟨control', m⟩ ⟨hcontrol, hrefines⟩
    exact agrees_ok ⟨hcontrol, hrefines⟩
  · refine (frameDatagram_agrees h env write fuel memory).bind ?_
    rintro ⟨memory, d⟩ ⟨memory', d'⟩ ⟨_, hframe⟩
    refine (fillUnreliable_agrees hframe env).bind fun d d' hfilled => ?_
    rw [hfilled.msg, hfilled.control]
    split
    · exact agrees_error _
    · refine (loop_agrees (fun _ _ _ _ => rfl) hfilled.messages _).bind ?_
      rintro ⟨control, l⟩ ⟨control', m⟩ ⟨hcontrol, hrefines⟩
      cases (show control = control' from hcontrol)
      have hclient : RefinesClient ⟨control, l⟩ ⟨control, m⟩ := ⟨rfl, hrefines⟩
      refine (svWriteReliableMessages_agrees hclient _).bind fun c c' hsent => ?_
      exact agrees_ok hsent

/-! ## What an addition writes -/

/-- Nothing but node `i` is written or newly queued. -/
structure WritesOnly (i : Nat) (m m' : Messages) : Prop where
  nodes : ∀ j, j ≠ i → m'.nodes j = m.nodes j
  list : ∀ j ∈ m'.list, j ∈ m.list ∨ j = i

theorem WritesOnly.refl (i : Nat) (m : Messages) : WritesOnly i m m :=
  ⟨fun _ _ => rfl, fun _ hj => Or.inl hj⟩

theorem WritesOnly.trans {i : Nat} {a b c : Messages} (h : WritesOnly i a b)
    (k : WritesOnly i b c) : WritesOnly i a c where
  nodes := fun j hj => (k.nodes j hj).trans (h.nodes j hj)
  list := fun j hj => (k.list j hj).elim (h.list j) Or.inr

theorem writesOnly_update {i : Nat} (m : Messages) (node : Messagelist)
    (heap : Heap (List UInt8)) :
    WritesOnly i m { m with nodes := Function.update m.nodes i node, heap } :=
  ⟨fun _ hj => Function.update_of_ne hj _ _, fun _ hj => Or.inl hj⟩

/-- Deleting writes no node. -/
structure Trims (m m' : Messages) : Prop where
  nodes : m'.nodes = m.nodes
  list : ∀ j ∈ m'.list, j ∈ m.list

theorem Trims.refl (m : Messages) : Trims m m := ⟨rfl, fun _ hj => hj⟩

theorem Trims.trans {a b c : Messages} (h : Trims a b) (k : Trims b c) : Trims a c :=
  ⟨k.nodes.trans h.nodes, fun j hj => h.list j (k.list j hj)⟩

theorem Trims.writesOnly {m m' : Messages} (h : Trims m m') (i : Nat) : WritesOnly i m m' :=
  ⟨fun _ _ => by rw [h.nodes], fun j hj => Or.inl (h.list j hj)⟩

theorem svDeleteMessage_trims (m : Messages) (i : Nat) :
    Returns (Trims m) (MessageList.svDeleteMessage m i) := by
  have herase : ∀ heap, Trims m { m with heap, list := m.list.erase i } := fun _ =>
    ⟨rfl, fun _ hj => List.mem_of_mem_erase hj⟩
  simp only [MessageList.svDeleteMessage]
  split
  · split
    · exact returns_error _
    · split
      · exact returns_ok (herase _)
      · exact returns_error _
  · exact returns_ok (herase m.heap)

theorem sweep_trims {α : Type} (visit : Messages → α → Nat → Except Stop (α × Visit))
    (l : List Nat) (acc : α) (m : Messages) :
    Returns (fun r => Trims m r.2) (sweep visit l acc m) := by
  induction l generalizing acc m with
  | nil => exact returns_ok (Trims.refl m)
  | cons i rest ih =>
    refine (returns_any _).bind ?_
    rintro ⟨acc', verdict⟩ _
    cases verdict with
    | keep => exact ih acc' m
    | delete =>
      refine (svDeleteMessage_trims m i).bind fun m' hdelete => ?_
      exact (ih acc' m').mono fun _ hrest => hdelete.trans hrest
    | stop => exact returns_ok (Trims.refl m)

theorem sweep_sub {α : Type} (visit : Messages → α → Nat → Except Stop (α × Visit)) (l : List Nat)
    (acc : α) (m : Messages) : Returns (fun r => ∀ i ∈ r.2.list, i ∈ m.list) (sweep visit l acc m) :=
  (sweep_trims visit l acc m).mono fun _ h => h.list

theorem svClearMessageList_sub (m : Messages) :
    Returns (fun m' => ∀ i ∈ m'.list, i ∈ m.list) (MessageList.svClearMessageList m) :=
  (sweep_sub _ _ _ _).bind fun _ hr => returns_ok hr

theorem dropMessages_sub (client : Client) (state : ClientState) :
    Returns (fun c => ∀ i ∈ c.messages.list, i ∈ client.messages.list)
      (MessageList.dropMessages client state) := by
  simp only [MessageList.dropMessages]
  split
  · exact (svClearMessageList_sub _).bind fun m hm => returns_ok hm
  · exact returns_ok fun _ hi => hi

/-- Writing the reliable messages leaves no message that was not there. -/
theorem svWriteReliableMessages_sub (client : Client) (buffSize : Nat) :
    Returns (fun c => ∀ i ∈ c.messages.list, i ∈ client.messages.list)
      (MessageList.svWriteReliableMessages client buffSize) := by
  simp only [MessageList.svWriteReliableMessages]
  split
  · exact returns_ok fun _ hi => hi
  split
  · exact returns_ok fun _ hi => hi
  refine (sweep_sub _ _ _ _).bind ?_
  rintro ⟨w, m⟩ hm
  simp only
  split
  · exact (dropMessages_sub _ _).mono fun c hc i hi => hm i (hc i hi)
  · split
    · exact returns_error _
    · exact returns_ok hm

theorem overflow_trims (client : Client) :
    Returns (fun c => Trims client.messages c.messages) (MessageList.overflow client) := by
  have hclear : Returns (Trims client.messages) (MessageList.svClearMessageList client.messages) :=
    (sweep_trims _ _ _ _).bind fun r hcleared => returns_ok hcleared
  exact hclear.bind fun m hcleared => returns_ok hcleared

theorem msgEndWrite_writesOnly (m : Messages) (i : Nat) (data : List UInt8) :
    WritesOnly i m (msgEndWrite m i data) := by
  simp only [msgEndWrite]
  split
  · exact writesOnly_update m _ _
  · exact writesOnly_update m _ m.heap

theorem setReliable_writesOnly (m : Messages) (i : Nat) (reliable : Bool) :
    WritesOnly i m (m.setReliable i reliable) :=
  writesOnly_update m _ m.heap

theorem dropOtherLayouts_writesOnly (m : Messages) (i : Nat) :
    Returns (WritesOnly i m) (MessageList.dropOtherLayouts m i) := by
  simp only [MessageList.dropOtherLayouts]
  split
  · refine (sweep_trims _ _ _ m).bind ?_
    rintro ⟨reliable, m'⟩ hswept
    exact returns_ok ((hswept.writesOnly i).trans (setReliable_writesOnly m' i reliable))
  · exact returns_ok (WritesOnly.refl i m)

theorem write_writesOnly (m : Messages) (i offset : Nat) (new : List UInt8) :
    Returns (WritesOnly i m) (m.write i offset new) := by
  simp only [Messages.write]
  split
  · split
    · split
      · exact returns_ok (writesOnly_update m _ m.heap)
      · split
        · exact returns_ok ⟨fun _ _ => rfl, fun _ hj => Or.inl hj⟩
        · exact returns_error _
    · exact returns_error _
  · exact returns_error _

theorem padModelskin_writesOnly (state : ClientState) (m : Messages) (i : Nat) :
    Returns (WritesOnly i m) (padModelskin state m i) := by
  simp only [padModelskin]
  split
  · split
    · exact returns_error _
    · split
      · refine (write_writesOnly m i _ _).bind fun m' hwrite => returns_ok ?_
        exact hwrite.trans (writesOnly_update m' _ m'.heap)
      · exact returns_ok (WritesOnly.refl i m)
  · exact returns_ok (WritesOnly.refl i m)

/-- A message that is added takes the node behind the last, below the limit. -/
structure Takes (m m' : Messages) : Prop where
  written : ∀ i, m'.nodes i ≠ m.nodes i → i = nextIndex m ∧ i < maxMessagesPerList
  queued : ∀ i ∈ m'.list, i ∉ m.list → i = nextIndex m ∧ i < maxMessagesPerList

theorem WritesOnly.takes {m m' : Messages} (h : WritesOnly (nextIndex m) m m')
    (room : nextIndex m < maxMessagesPerList) : Takes m m' where
  written := by
    intro i hi
    by_cases heq : i = nextIndex m
    · exact ⟨heq, heq ▸ room⟩
    · exact absurd (h.nodes i heq) hi
  queued := by
    intro i hi hnot
    have heq := (h.list i hi).resolve_left hnot
    exact ⟨heq, heq ▸ room⟩

theorem Trims.takes {m m' : Messages} (h : Trims m m') : Takes m m' where
  written := fun i hi => absurd (by rw [h.nodes]) hi
  queued := fun i hi hnot => absurd (h.list i hi) hnot

theorem queueMessage_takes (client : Client) (data : List UInt8) (reliable : Bool) :
    Returns (fun c => Takes client.messages c.messages)
      (MessageList.queueMessage client data reliable) := by
  simp only [MessageList.queueMessage]
  split
  · exact (overflow_trims client).mono fun _ htrims => htrims.takes
  · rename_i hroom
    have hlimit : nextIndex client.messages < maxMessagesPerList := by omega
    have hlink : WritesOnly (nextIndex client.messages) client.messages
        { client.messages with list := client.messages.list ++ [nextIndex client.messages] } :=
      ⟨fun _ _ => rfl, fun j hj => (List.mem_append.mp hj).imp_right List.mem_singleton.mp⟩
    have hwrite := hlink.trans (msgEndWrite_writesOnly _ (nextIndex client.messages) data)
    split
    · exact (overflow_trims _).mono fun _ htrims => (hwrite.trans (htrims.writesOnly _)).takes hlimit
    · have hset := hwrite.trans (setReliable_writesOnly _ (nextIndex client.messages) reliable)
      refine (dropOtherLayouts_writesOnly _ _).bind fun m hdropped => ?_
      refine (padModelskin_writesOnly _ m _).bind fun m' hpadded => returns_ok ?_
      exact ((hset.trans hdropped).trans hpadded).takes hlimit

theorem svAddMessageSingle_takes (forceReconnect : Bool) (client : Client) (msg : Msgbuff)
    (reliable : Bool) :
    Returns (fun c => Takes client.messages c.messages)
      (MessageList.svAddMessageSingle forceReconnect client msg reliable) := by
  have hsame : Takes client.messages client.messages := (Trims.refl client.messages).takes
  simp only [MessageList.svAddMessageSingle]
  split
  · exact returns_ok hsame
  · cases checkLayout client.control msg reliable with
    | none => exact returns_ok hsame
    | some r => exact queueMessage_takes ⟨r.1, client.messages⟩ r.2.data reliable

/-! ## Runs -/

open MessageStorage (Op)

/-- `SV_DeleteMessage` of one message, as its callers come to it. -/
def visitOne (i : Nat) (_ : Messages) (_ : Unit) (j : Nat) : Except Stop (Unit × Visit) :=
  .ok ((), if j = i then .delete else .keep)

def perform (client : LinkedClient) : Op → Except Stop LinkedClient
  | .connect control _ => connect client control
  | .drop state => dropMessages client state
  | .update control _ => .ok { client with control }
  | .add forceReconnect msg reliable => svAddMessageSingle forceReconnect client msg reliable
  | .delete i => do
    let (_, messages) ← loop (visitOne i) () client.messages
    .ok { client with messages }
  | .clear => do
    let messages ← svClearMessageList client.messages
    .ok { client with messages }
  | .writeReliable buffSize => svWriteReliableMessages client buffSize
  | .datagram env frames fuel => do
    let (_, client, _) ← svSendClientDatagram env frames fuel 0 client
    .ok client

def step (s : Except Stop LinkedClient) (op : Op) : Except Stop LinkedClient :=
  s >>= fun client => perform client op

theorem sweep_visitOne {i : Nat} {l : List Nat} (nodup : l.Nodup) (m : Messages) :
    sweep (visitOne i) l () m =
      if i ∈ l then (MessageList.svDeleteMessage m i).map fun m' => ((), m') else .ok ((), m) := by
  induction l generalizing m with
  | nil => rfl
  | cons j rest ih =>
    obtain ⟨hj, hnodup⟩ := List.nodup_cons.mp nodup
    by_cases heq : j = i
    · subst heq
      have hrest : ∀ m, sweep (visitOne j) rest () m = .ok ((), m) := fun m => by
        rw [ih hnodup m, if_neg hj]
      simp only [sweep, visitOne, if_true, List.mem_cons_self]
      cases MessageList.svDeleteMessage m j with
      | error e => rfl
      | ok m' => exact hrest m'
    · have hmem : i ∈ j :: rest ↔ i ∈ rest := by simp [Ne.symm heq]
      simp only [sweep, visitOne, heq, if_false, hmem]
      exact ih hnodup m

/-- Every operation on the nodes does what it does on the list. -/
theorem perform_agrees {c : LinkedClient} {c' : Client} (h : RefinesClient c c') (op : Op) :
    Agrees RefinesClient (perform c op) (MessageStorage.perform c' op) := by
  cases op with
  | connect control setup => exact connect_agrees h control
  | drop state => exact dropMessages_agrees h state
  | update control setup => exact agrees_ok ⟨rfl, h.2⟩
  | add forceReconnect msg reliable => exact svAddMessageSingle_agrees h forceReconnect msg reliable
  | delete i =>
    have hnodup := (List.nodup_cons.mp h.2.represents.nodup).2
    have hunordered : Unordered (visitOne i) := fun _ _ _ _ => rfl
    have hloop := loop_agrees hunordered h.2 ()
    have hright : MessageStorage.perform c' (.delete i) =
        (sweep (visitOne i) c'.messages.list () c'.messages >>= fun r =>
          .ok { c' with messages := r.2 }) := by
      rw [sweep_visitOne hnodup]
      simp only [MessageStorage.perform]
      split
      · cases MessageList.svDeleteMessage c'.messages i <;> rfl
      · rfl
    rw [hright]
    exact hloop.bind fun _ _ hdeleted => agrees_ok ⟨h.1, hdeleted.2⟩
  | clear => exact (svClearMessageList_agrees h.2).bind fun l m hcleared => agrees_ok ⟨h.1, hcleared⟩
  | writeReliable buffSize => exact svWriteReliableMessages_agrees h buffSize
  | datagram env frames fuel =>
    refine (svSendClientDatagram_agrees h env frames fuel 0).bind ?_
    rintro ⟨_, c, _⟩ ⟨_, c', _⟩ hsent
    exact agrees_ok hsent

/-- A run over links and the run over lists stop alike, or end in states that agree. -/
theorem run_agrees {s : Except Stop LinkedClient} {s' : Except Stop Client}
    (h : Agrees RefinesClient s s') (ops : List Op) :
    Agrees RefinesClient (run step s ops) (run MessageStorage.step s' ops) := by
  induction ops generalizing s s' with
  | nil => exact h
  | cons op ops ih => exact ih (h.bind fun _ _ hclient => perform_agrees hclient op)

/-- The shape of the links. -/
structure Listed (l : Linked) : Prop where
  acyclic : ∀ i, Reached msgListStart l.links i →
    ¬ Relation.TransGen (Follows l.links.next) i i
  increasing : ∀ i j, Reached msgListStart l.links i → l.links.next i = some j → i < j
  bounded : ∀ i, Reached msgListStart l.links i → i < maxMessagesPerList
  end_reached : Reached msgListStart l.links l.links.tail
  end_last : l.links.next l.links.tail = none

/-- A message is added in a node that is not reachable, below the limit; no other node
is written. -/
structure TakesFreeNode (l l' : Linked) : Prop where
  free : ¬ Reached msgListStart l.links (slot l)
  written : ∀ i, l'.nodes i ≠ l.nodes i → i = slot l ∧ i < maxMessagesPerList
  queued : ∀ i, Reached msgListStart l'.links i → ¬ Reached msgListStart l.links i →
    i = slot l ∧ i < maxMessagesPerList

theorem listed_of_refines {l : Linked} {m : Messages} (h : Refines l m) : Listed l where
  acyclic := fun _ hi => h.represents.acyclic h.sorted hi
  increasing := fun _ _ hi hnext =>
    follows_lt h.represents.leads h.sorted (h.represents.reached_iff.mp hi) hnext
  bounded := by
    intro i hi
    rcases List.mem_cons.mp (h.represents.reached_iff.mp hi) with rfl | hmem
    · decide
    · have hlt := h.bounded i hmem
      omega
  end_reached := h.represents.tail_reached
  end_last := h.represents.tail_ends

theorem svAddMessageSingle_takesFreeNode {c : LinkedClient} {c' : Client} (h : RefinesClient c c')
    (forceReconnect : Bool) (msg : Msgbuff) (reliable : Bool) :
    Returns (fun d => TakesFreeNode c.messages d.messages)
      (svAddMessageSingle forceReconnect c msg reliable) := by
  have hagrees := svAddMessageSingle_agrees h forceReconnect msg reliable
  have htakes := svAddMessageSingle_takes forceReconnect c' msg reliable
  have hfree : ¬ Reached msgListStart c.messages.links (slot c.messages) := fun hreached =>
    Nat.lt_irrefl _ (lt_slot h.2 _ (h.2.represents.reached_iff.mp hreached))
  refine hagrees.returns htakes ?_
  rintro d d' hrefines htaken
  refine ⟨hfree, ?_, ?_⟩
  · intro i hi
    rw [contents_node h.2, contents_node hrefines.2] at hi
    rw [slot_of_refines h.2]
    exact htaken.written i hi
  · intro i hi hnot
    rw [h.2.represents.reached_iff, List.mem_cons, not_or] at hnot
    rw [slot_of_refines h.2]
    have hmem := List.mem_cons.mp (hrefines.2.represents.reached_iff.mp hi)
    exact htaken.queued i (hmem.resolve_left hnot.1) hnot.2

/-- Every run of calls on a client stops as the run over lists does, or ends with the
same messages in the same order: linked by increasing nodes up to `msgListEnd`. A
message that is added then takes a free node. -/
theorem run_listed (control : Control) (ops : List Op) :
    Agrees (fun client client' => client.read = client' ∧ Listed client.messages ∧
        ∀ forceReconnect msg reliable, Returns (fun added =>
          TakesFreeNode client.messages added.messages)
          (svAddMessageSingle forceReconnect client msg reliable))
      (run step (.ok { control }) ops) (run MessageStorage.step (.ok { control }) ops) := by
  have hnew : Agrees RefinesClient (.ok { control }) (.ok { control } : Except Stop Client) :=
    agrees_ok ⟨rfl, refines_new Heap.empty false⟩
  refine (run_agrees hnew ops).mono fun c c' hrefines => ?_
  exact ⟨hrefines.read_eq, listed_of_refines hrefines.2, fun forceReconnect msg reliable =>
    svAddMessageSingle_takesFreeNode hrefines forceReconnect msg reliable⟩

end MessageLinks
