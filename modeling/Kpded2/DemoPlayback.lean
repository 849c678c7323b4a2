import Kpded2.DatagramSize
import Kpded2.DemoRecording
import Kpded2.FinalMessage

/-!
# Playing a demo

In a demo `SV_SendClientMessages` reads one message of the file in each frame and gives it to every
client behind the reliable messages that wait. The clients of a frame are in any state.
-/
namespace DemoPlayback
open DatagramSize DemoRecording MessageList NetChan Outcome Protocol SizeBuf StepRuns

inductive Stop
  /-- `SV_SendClientMessages` refuses the length. -/
  | tooLong
  /-- `fread` writes behind `msgbuf`. -/
  | overrun
  /-- `Netchan_Transmit` raises `ERR_DROP`. -/
  | drop
  /-- The fatal error of the packet buffer. -/
  | fatal
  | list (e : MessageList.Stop)
  deriving DecidableEq

/-- `netSends` is how many packets the socket takes. -/
structure Player where
  client : Client
  netSends : Nat
  server : client.control.netchan.sock = .server

structure Frame where
  curtime : Nat
  paused : Bool
  players : List Player

/-- An `int` of the file. -/
def signed (word : Nat) : Int := (word : Int).bmod (2 ^ 32)

/-- `none` ends the demo; otherwise the message and the rest of the file. -/
def readMessage (file : List UInt8) : Except Stop (Option (List UInt8 × List UInt8)) :=
  if file.length < 4 then .ok none
  else
    let (word, rest) := msgReadLong file
    let msglen := signed word
    if msglen = -1 then .ok none
    else if msglen > maxMsglen .kingpin then .error .tooLong
    else if msglen = 0 then .ok (some ([], rest))
    else
      let wanted := (msglen % 2 ^ 64).toNat
      if min wanted rest.length > maxMsglen .kingpin then .error .overrun
      else if rest.length < wanted then .ok none
      else .ok (some (rest.take wanted, rest.drop wanted))

/-- What the frame sends, with the file behind it. `demofile` is `none` once the file is closed. -/
def nextMessage (paused : Bool) (demofile : Option (List UInt8)) :
    Except Stop (Option (List UInt8 × Option (List UInt8))) :=
  match demofile with
  | none => .ok (some ([], none))
  | some file =>
    if paused then .ok (some ([], some file))
    else do
      let read ← readMessage file
      .ok (read.map fun read => (read.1, some read.2))

def writeReliableMessages (client : Client) : Except Stop Client :=
  match svWriteReliableMessages client client.control.netchan.message.buffsize with
  | .ok client => .ok client
  | .error e => .error (.list e)

/-- The packets of one client. -/
def sendMessage (curtime : Nat) (data : List UInt8) (p : Player) :
    Except Stop (Client × List (List UInt8)) :=
  if p.client.control.state = .free then .ok (p.client, [])
  else do
    let client ← writeReliableMessages p.client
    match netchanTransmit .kingpin curtime p.netSends client.control.netchan data with
    | none => .error .fatal
    | some out =>
      if out.result = .dropped then .error .drop
      else .ok ({ client with control := { client.control with netchan := out.chan } }, out.packets)

def sendMessages (curtime : Nat) (data : List UInt8) :
    List Player → Except Stop (List (Client × List (List UInt8)))
  | [] => .ok []
  | p :: rest => do
    let first ← sendMessage curtime data p
    let others ← sendMessages curtime data rest
    .ok (first :: others)

structure Played where
  demofile : Option (List UInt8)
  clients : List (Client × List (List UInt8))

def svSendClientMessages (f : Frame) (demofile : Option (List UInt8)) : Except Stop Played := do
  match ← nextMessage f.paused demofile with
  | none => .ok ⟨none, []⟩
  | some (data, demofile) => do
    let clients ← sendMessages f.curtime data f.players
    .ok ⟨demofile, clients⟩

/-! ## The reliable part of a packet -/

/-- A print that is put behind the last one. -/
def joinsPrint (data : List UInt8) (last : Option Nat) (bytes : List UInt8) : Bool :=
  match last with
  | none => false
  | some last =>
    decide (2 ≤ bytes.length) && bytes.getD 0 0 == svcPrint &&
    decide (bytes.getD 1 0 &&& 3 < printChat) && data.getD last 0 == bytes.getD 0 0 &&
    data.getD (last + 1) 0 == bytes.getD 1 0 &&
    decide ((data.length : Int) - last + bytes.length < 2048)

/-- The messages from the front of the queue that fit behind `data`. -/
def fill (size : Nat) : List (List UInt8) → List UInt8 → Option Nat → List UInt8
  | [], data, _ => data
  | bytes :: rest, data, last =>
    if bytes.length + data.length > size then data
    else if joinsPrint data last bytes then fill size rest (data.dropLast ++ bytes.drop 2) last
    else fill size rest (data ++ bytes) (some data.length)

/-- The reliable messages of a client, in their order. -/
def queue (m : Messages) (nodes : List Nat) : List (List UInt8) :=
  (nodes.filter fun i => (m.nodes i).reliable).map fun i => (m.bytes i).toOption.getD []

/-- A message that waits for its acknowledgement, when it has to be sent again; or, when none waits,
what the channel and the queue have for the next one. -/
def reliablePart (client : Client) : List UInt8 :=
  let chan := client.control.netchan
  if chan.reliable ≠ [] then
    if chan.incomingAcknowledged > chan.lastReliableSequence ∧
        chan.incomingReliableAcknowledged ≠ chan.reliableSequence then chan.reliable
    else []
  else if client.messages.allocated then
    fill chan.message.buffsize (queue client.messages client.messages.list) chan.message.data none
  else chan.message.data

/-- Messages that can still be read are as they were. -/
def Since (m m' : Messages) : Prop :=
  m'.nodes = m.nodes ∧ ∀ i storage, m'.storage i = some storage → m.storage i = some storage

variable {m m' : Messages}

theorem since_refl (m : Messages) : Since m m := ⟨rfl, fun _ _ h => h⟩

theorem svDeleteMessage_since {i : Nat} {left : Messages} (since : Since m m')
    (h : svDeleteMessage m' i = .ok left) : Since m left := by
  simp only [svDeleteMessage] at h
  split at h
  · split at h
    · cases h
    · split at h
      · rename_i block _ _ heap hfree
        rw [← Except.ok.inj h]
        refine ⟨since.1, fun j storage hj => since.2 j storage ?_⟩
        simp only [Messages.storage] at hj ⊢
        simp only [OwnedHeap.Heap.free] at hfree
        split at hfree
        · rw [← Option.some.inj hfree] at hj
          cases hdata : (m'.nodes j).data with
          | localbuff =>
            rw [hdata] at hj
            exact hj
          | malloced other =>
            rw [hdata] at hj
            simp only at hj ⊢
            by_cases same : other = block
            · rw [same, Function.update_self] at hj
              cases hj
            · rwa [Function.update_of_ne same] at hj
        · cases hfree
      · cases h
  · rw [← Except.ok.inj h]
    exact ⟨since.1, since.2⟩

theorem bytes_since {i : Nat} {bytes : List UInt8} (since : Since m m') (h : m'.bytes i = .ok bytes) :
    m.bytes i = .ok bytes := by
  simp only [Messages.bytes] at h ⊢
  split at h
  · rename_i storage hstorage
    rw [since.2 i storage hstorage, ← since.1]
    exact h
  · cases h

theorem continuesPrint_eq {w : Written} {i : Nat} {bytes : List UInt8} (h : m.bytes i = .ok bytes)
    (long : 2 ≤ bytes.length) :
    continuesPrint m i bytes.length w = joinsPrint w.message.data w.lastmsg bytes := by
  simp only [continuesPrint, joinsPrint, byteAt_of_bytes h (k := 0) (by omega),
    byteAt_of_bytes h (k := 1) (by omega), Sizebuf.cursize, long, decide_true, Bool.true_and]
  rfl

theorem joinsPrint_short {data bytes : List UInt8} {last : Option Nat} (short : bytes.length < 2) :
    joinsPrint data last bytes = false := by
  cases last with
  | none => rfl
  | some last => simp only [joinsPrint, Nat.not_le.mpr short, decide_false, Bool.false_and]

/-- The loop over the list fills the message. -/
theorem sweep_fill {size : Nat} {nodes : List Nat} {w w' : Written} {left : Messages}
    (since : Since m m') (limit : w.message.maxsize = size)
    (h : sweep writeReliable nodes w m' = .ok (w', left)) :
    w'.message.data = fill size (queue m nodes) w.message.data w.lastmsg ∧
      w'.message.overflowed = w.message.overflowed := by
  induction nodes generalizing w m' with
  | nil =>
    obtain ⟨rfl, -⟩ := Prod.mk.inj (Except.ok.inj h)
    exact ⟨rfl, rfl⟩
  | cons i rest ih =>
    simp only [sweep] at h
    obtain ⟨⟨next, verdict⟩, hvisit, h⟩ := exists_of_bind_eq_ok h
    simp only [writeReliable] at hvisit
    cases wanted : (m'.nodes i).reliable with
    | false =>
      simp only [wanted, Bool.false_eq_true, if_false] at hvisit
      obtain ⟨rfl, rfl⟩ := Prod.mk.inj (Except.ok.inj hvisit)
      have skipped : queue m (i :: rest) = queue m rest := by
        rw [since.1] at wanted
        simp only [queue, List.filter_cons, wanted, Bool.false_eq_true, if_false]
      rw [skipped]
      exact ih since limit h
    | true =>
      simp only [wanted, if_true] at hvisit
      obtain ⟨bytes, hbytes, hvisit⟩ := exists_of_bind_eq_ok hvisit
      have taken : queue m (i :: rest) = bytes :: queue m rest := by
        rw [since.1] at wanted
        simp only [queue, List.filter_cons, wanted, if_true, List.map_cons,
          bytes_since since hbytes]
        rfl
      rw [taken, fill]
      split at hvisit
      · rename_i full
        obtain ⟨rfl, rfl⟩ := Prod.mk.inj (Except.ok.inj hvisit)
        obtain ⟨rfl, -⟩ := Prod.mk.inj (Except.ok.inj h)
        rw [if_pos (by rw [← limit]; exact full)]
        exact ⟨rfl, rfl⟩
      rename_i room
      have room : bytes.length + w.message.data.length ≤ w.message.maxsize := Nat.le_of_not_lt room
      rw [if_neg (by omega)]
      split at hvisit
      · rename_i joined
        split at hvisit
        · cases hvisit
        rename_i long
        have long : 2 ≤ bytes.length := Nat.le_of_not_lt long
        rw [continuesPrint_eq hbytes long] at joined
        rw [if_pos joined]
        have fits : ({ w.message with data := w.message.data.dropLast } : Sizebuf).cursize +
            (bytes.drop 2).length ≤ w.message.maxsize := by
          simp only [Sizebuf.cursize, List.length_dropLast, List.length_drop]
          omega
        rw [MessageStorage.writeOrStop_fits fits] at hvisit
        obtain ⟨rfl, rfl⟩ := Prod.mk.inj (Except.ok.inj hvisit)
        obtain ⟨deleted, hdelete, h⟩ := exists_of_bind_eq_ok h
        refine ih (svDeleteMessage_since since hdelete) ?_ h
        exact limit
      · rename_i apart
        have apart : joinsPrint w.message.data w.lastmsg bytes = false := by
          by_cases long : 2 ≤ bytes.length
          · rw [← continuesPrint_eq hbytes long]
            exact Bool.eq_false_iff.mpr apart
          · exact joinsPrint_short (by omega)
        rw [apart, if_neg Bool.false_ne_true]
        have fits : w.message.cursize + bytes.length ≤ w.message.maxsize := by
          rw [Sizebuf.cursize]
          omega
        rw [MessageStorage.writeOrStop_fits fits] at hvisit
        obtain ⟨rfl, rfl⟩ := Prod.mk.inj (Except.ok.inj hvisit)
        obtain ⟨deleted, hdelete, h⟩ := exists_of_bind_eq_ok h
        refine ih (svDeleteMessage_since since hdelete) ?_ h
        exact limit

/-! ## The packet -/

theorem reliableIncluded_of_free {chan : Chan} (free : chan.reliable = []) :
    reliableIncluded chan = chan.message.data := by
  cases hdata : chan.message.data with
  | nil =>
    simp only [reliableIncluded, stageReliable, free, hdata, List.isEmpty_nil, Bool.not_true,
      Bool.and_false, Bool.false_eq_true, if_false, ite_self]
  | cons b rest =>
    simp only [reliableIncluded, sendReliable, stageReliable, free, hdata, List.isEmpty_nil,
      List.isEmpty_cons, Bool.not_false, Bool.and_self, Bool.or_true, if_true]

theorem reliableIncluded_of_waiting {chan : Chan} (waiting : chan.reliable ≠ []) :
    reliableIncluded chan =
      if chan.incomingAcknowledged > chan.lastReliableSequence ∧
          chan.incomingReliableAcknowledged ≠ chan.reliableSequence then chan.reliable
      else [] := by
  have busy : chan.reliable.isEmpty = false := by simpa using waiting
  simp [reliableIncluded, sendReliable, stageReliable, busy]

/-- The reliable bytes of the packet, told of the state before the frame. -/
theorem writeReliableMessages_part {client r : Client} (used : client.control.state ≠ .free)
    (h : writeReliableMessages client = .ok r) :
    reliableIncluded r.control.netchan = reliablePart client ∧
      r.control.netchan.sock = client.control.netchan.sock ∧
      r.control.netchan.message.overflowed = client.control.netchan.message.overflowed := by
  simp only [writeReliableMessages] at h
  split at h
  · rename_i written hwrite
    obtain rfl := Except.ok.inj h
    simp only [svWriteReliableMessages] at hwrite
    simp only [reliablePart]
    by_cases free : client.control.netchan.reliable = []
    · rw [if_neg (not_not.mpr free)]
      split at hwrite
      · rename_i none
        obtain rfl := Except.ok.inj hwrite
        have none : client.messages.allocated = false := by
          simpa using none.resolve_left used
        rw [none, if_neg Bool.false_ne_true]
        exact ⟨reliableIncluded_of_free free, rfl, rfl⟩
      rename_i some
      have allocated : client.messages.allocated = true := by
        simpa using (not_or.mp some).2
      rw [if_pos allocated]
      simp only [free, List.isEmpty_nil, Bool.not_true, Bool.false_eq_true, if_false] at hwrite
      obtain ⟨⟨w, m⟩, hsweep, hwrite⟩ := exists_of_bind_eq_ok hwrite
      obtain ⟨filled, overflowed⟩ := sweep_fill (since_refl client.messages) rfl hsweep
      simp only at filled overflowed hwrite
      have same : written.control.netchan =
          { client.control.netchan with message := w.message } := by
        split at hwrite
        · simp only [dropMessages] at hwrite
          split at hwrite
          · obtain ⟨left, -, hwrite⟩ := exists_of_bind_eq_ok hwrite
            rw [← Except.ok.inj hwrite]
            rfl
          · rw [← Except.ok.inj hwrite]
            rfl
        · split at hwrite
          · cases hwrite
          · rw [← Except.ok.inj hwrite]
            rfl
      rw [same]
      refine ⟨(reliableIncluded_of_free ?_).trans filled, rfl, overflowed⟩
      exact free
    · rw [if_pos free]
      have unchanged : written = client := by
        split at hwrite
        · exact (Except.ok.inj hwrite).symm
        · have busy : client.control.netchan.reliable.isEmpty = false := by simpa using free
          simp only [busy, Bool.not_false, if_true] at hwrite
          exact (Except.ok.inj hwrite).symm
      rw [unchanged]
      exact ⟨reliableIncluded_of_waiting free, rfl, rfl⟩
  · cases h

theorem writeIf_inside {needed : Bool} {buf out : Sizebuf} {data : List UInt8}
    (strict : buf.allowoverflow = false) (inside : buf.cursize ≤ buf.maxsize)
    (h : NetChan.writeIf needed buf data = some out) :
    out.allowoverflow = false ∧ out.cursize ≤ out.maxsize := by
  cases needed with
  | false =>
    obtain rfl := Option.some.inj h
    exact ⟨strict, inside⟩
  | true =>
    refine ⟨(szWrite_strict strict h).1, ?_⟩
    change szWrite buf data = some out at h
    simp only [szWrite, strict, Bool.false_eq_true, if_false] at h
    split at h
    · cases h
    · rename_i room
      obtain rfl := Option.some.inj h
      simp only [Sizebuf.cursize, List.length_append] at room ⊢
      omega

/-- An empty message always finds its place. -/
theorem netchanTransmit_empty {build : Build} {curtime netSends : Nat} {chan : Chan}
    {out : Transmitted} (h : netchanTransmit build curtime netSends chan [] = some out) :
    out.result ≠ .dropped := by
  simp only [netchanTransmit] at h
  split at h
  · obtain rfl := Option.some.inj h
    rintro ⟨⟩
  · obtain ⟨s1, h1, h⟩ := Option.bind_eq_some_iff.mp h
    obtain ⟨s2, h2, h⟩ := Option.bind_eq_some_iff.mp h
    obtain ⟨s3, h3, h⟩ := Option.bind_eq_some_iff.mp h
    obtain ⟨s4, h4, h⟩ := Option.bind_eq_some_iff.mp h
    have i1 := @writeIf_inside true _ _ _ rfl (Nat.zero_le _) h1
    have i2 := @writeIf_inside true _ _ _ i1.1 i1.2 h2
    have i3 := writeIf_inside i2.1 i2.2 h3
    have i4 := writeIf_inside i3.1 i3.2 h4
    split at h
    · obtain ⟨s5, -, h⟩ := Option.bind_eq_some_iff.mp h
      obtain rfl := Option.some.inj h
      simp only
      split
      · rintro ⟨⟩
      · rintro ⟨⟩
    · rename_i full
      exact absurd i4.2 full

theorem netchanTransmit_packets {build : Build} {curtime netSends : Nat} {chan : Chan}
    {data : List UInt8} {out : Transmitted} (clean : chan.message.overflowed = false)
    (takes : 0 < netSends) (h : netchanTransmit build curtime netSends chan data = some out)
    (sent : out.result ≠ .dropped) : out.packets ≠ [] := by
  simp only [netchanTransmit, clean, Bool.false_eq_true, if_false] at h
  obtain ⟨s1, -, h⟩ := Option.bind_eq_some_iff.mp h
  obtain ⟨s2, -, h⟩ := Option.bind_eq_some_iff.mp h
  obtain ⟨s3, -, h⟩ := Option.bind_eq_some_iff.mp h
  obtain ⟨s4, -, h⟩ := Option.bind_eq_some_iff.mp h
  split at h
  · obtain ⟨s5, -, h⟩ := Option.bind_eq_some_iff.mp h
    obtain rfl := Option.some.inj h
    simp only [ne_eq, List.replicate_eq_nil_iff, copiesWanted]
    split <;> omega
  · obtain rfl := Option.some.inj h
    exact absurd rfl sent

theorem packetBytes_front {chan : Chan} {data : List UInt8} (server : chan.sock = .server) :
    ∃ front, front.length = 8 + (reliableIncluded chan).length ∧
      packetBytes chan data = front ++ data := by
  refine ⟨longBytes (headerWord chan.outgoingSequence (sendReliable chan)) ++
    (longBytes (headerWord chan.incomingSequence chan.incomingReliableSequence) ++
      reliableIncluded chan), ?_, ?_⟩
  · simp only [longBytes, List.length_append, List.length_cons, List.length_nil]
    omega
  · have port : qportBytes chan = [] := by
      simp only [qportBytes, server]
    simp only [packetBytes, port, List.nil_append, reliableIncluded, List.append_assoc]

/-! ## Frames -/

def blockLength (file : List UInt8) : Int := signed (msgReadLong file).1

/-- The length that the file gives is not too long; a negative one, which makes `fread` read all that
is left, finds little; and the message goes into every packet. -/
structure Room (file : List UInt8) (players : List Player) : Prop where
  short : blockLength file ≤ maxMsglen .kingpin
  negative : blockLength file < -1 → file.length ≤ 4 + maxMsglen .kingpin
  packets : 4 + (blockLength file).toNat ≤ file.length → ∀ p ∈ players,
    p.client.control.state ≠ .free →
      8 + (reliablePart p.client).length + (blockLength file).toNat ≤ 1400

/-- The packets of a client end with the message, and there is one if the socket takes it. -/
structure Sent (data : List UInt8) (p : Player) (packets : List (List UInt8)) : Prop where
  carries : ∀ packet ∈ packets, ∃ front,
    front.length = 8 + (reliablePart p.client).length ∧ packet = front ++ data
  reaches : p.client.control.netchan.message.overflowed = false → 0 < p.netSends → packets ≠ []

/-- A message with room is sent without an error. -/
theorem sendMessage_room {curtime : Nat} {data : List UInt8} {p : Player}
    (room : data = [] ∨ (p.client.control.state ≠ .free →
      8 + (reliablePart p.client).length + data.length ≤ 1400)) :
    (∀ e, sendMessage curtime data p = .error e → e ≠ .drop ∧ e ≠ .overrun ∧ e ≠ .tooLong) ∧
    ∀ r, sendMessage curtime data p = .ok r → p.client.control.state ≠ .free →
      Sent data p r.2 := by
  simp only [sendMessage]
  by_cases free : p.client.control.state = .free
  · rw [if_pos free]
    exact ⟨fun e h => (by cases h), fun r _ used => absurd free used⟩
  rw [if_neg free]
  cases hwrite : writeReliableMessages p.client with
  | error e =>
    refine ⟨fun e' h => ?_, fun r h => by cases h⟩
    obtain rfl := Except.error.inj h
    simp only [writeReliableMessages] at hwrite
    split at hwrite
    · cases hwrite
    · obtain rfl := Except.error.inj hwrite
      exact ⟨by rintro ⟨⟩, by rintro ⟨⟩, by rintro ⟨⟩⟩
  | ok client =>
    obtain ⟨part, server, overflowed⟩ := writeReliableMessages_part free hwrite
    simp only [bind, Except.bind]
    cases hsend : netchanTransmit .kingpin curtime p.netSends client.control.netchan data with
    | none =>
      refine ⟨fun e h => ?_, fun r h => by cases h⟩
      obtain rfl := Except.error.inj h
      exact ⟨by rintro ⟨⟩, by rintro ⟨⟩, by rintro ⟨⟩⟩
    | some out =>
      have kept : out.result ≠ .dropped := by
        rcases room with rfl | room
        · exact netchanTransmit_empty hsend
        · obtain ⟨out', hout, kept⟩ := @netchanTransmit_fits curtime p.netSends _ data
            (server.trans p.server) (by rw [part]; exact room free)
          rw [hsend] at hout
          obtain rfl := Option.some.inj hout
          exact kept
      simp only [if_neg kept]
      refine ⟨fun e h => (by cases h), fun r h _ => ?_⟩
      obtain rfl := Except.ok.inj h
      constructor
      · intro packet hpacket
        simp only at hpacket
        rcases netchanTransmit_cases hsend with ⟨-, rfl⟩ | ⟨-, -, copies, size, -, hpackets⟩
        · cases hpacket
        · rw [hpackets] at hpacket
          obtain rfl := List.eq_of_mem_replicate hpacket
          obtain ⟨front, size, whole⟩ := @packetBytes_front client.control.netchan data
            (server.trans p.server)
          exact ⟨front, by rw [size, part], whole⟩
      · intro clean takes
        exact netchanTransmit_packets (overflowed.trans clean) takes hsend kept

/-- A message that does not fit behind a reliable part that does. -/
theorem netchanTransmit_drops {curtime netSends : Nat} {chan : Chan} {data : List UInt8}
    (server : chan.sock = .server) (clean : chan.message.overflowed = false)
    (holds : 8 + (reliableIncluded chan).length ≤ 1400)
    (long : 1400 < 8 + (reliableIncluded chan).length + data.length) :
    ∃ out, netchanTransmit .kingpin curtime netSends chan data = some out ∧
      out.result = .dropped := by
  obtain ⟨empty, h, -⟩ := @netchanTransmit_fits curtime netSends _ [] server holds
  have completes : ∃ out, netchanTransmit .kingpin curtime netSends chan data = some out := by
    simp only [netchanTransmit, clean, Bool.false_eq_true, if_false] at h ⊢
    obtain ⟨s1, h1, h⟩ := Option.bind_eq_some_iff.mp h
    obtain ⟨s2, h2, h⟩ := Option.bind_eq_some_iff.mp h
    obtain ⟨s3, h3, h⟩ := Option.bind_eq_some_iff.mp h
    obtain ⟨s4, h4, -⟩ := Option.bind_eq_some_iff.mp h
    simp only [h1, h2, h3, h4, Option.bind_eq_bind, Option.bind_some]
    split
    · rename_i fits
      cases data with
      | nil => exact ⟨_, rfl⟩
      | cons b rest =>
        simp only [NetChan.writeIf, List.isEmpty_cons, Bool.not_false, if_true, szWrite_of_fits fits,
          Option.bind_some]
        exact ⟨_, rfl⟩
    · exact ⟨_, rfl⟩
  obtain ⟨out, hout⟩ := completes
  refine ⟨out, hout, ?_⟩
  by_contra kept
  have := FinalMessage.fits_of_netchanTransmit server clean hout kept
  omega

theorem sendMessage_drops {curtime : Nat} {data : List UInt8} {p : Player} {client : Client}
    (used : p.client.control.state ≠ .free) (written : writeReliableMessages p.client = .ok client)
    (clean : p.client.control.netchan.message.overflowed = false)
    (holds : 8 + (reliablePart p.client).length ≤ 1400)
    (long : 1400 < 8 + (reliablePart p.client).length + data.length) :
    sendMessage curtime data p = .error .drop := by
  obtain ⟨part, server, overflowed⟩ := writeReliableMessages_part used written
  rw [← part] at holds long
  obtain ⟨out, hout, dropped⟩ := @netchanTransmit_drops curtime p.netSends _ data
    (server.trans p.server) (overflowed.trans clean) holds long
  simp only [sendMessage, if_neg used, written, bind, Except.bind, hout, if_pos dropped]

/-- A message with room is sent to every client. -/
theorem sendMessages_room {curtime : Nat} {data : List UInt8} {players : List Player}
    (room : data = [] ∨ ∀ p ∈ players, p.client.control.state ≠ .free →
      8 + (reliablePart p.client).length + data.length ≤ 1400) :
    (∀ e, sendMessages curtime data players = .error e →
      e ≠ .drop ∧ e ≠ .overrun ∧ e ≠ .tooLong) ∧
    ∀ r, sendMessages curtime data players = .ok r →
      List.Forall₂ (fun p sent => p.client.control.state ≠ .free → Sent data p sent.2) players r := by
  induction players with
  | nil =>
    refine ⟨fun e h => (by cases h), fun r h => ?_⟩
    obtain rfl := Except.ok.inj h
    exact .nil
  | cons p rest ih =>
    obtain ⟨safe, sends⟩ := @sendMessage_room curtime data p
      (room.imp_right fun room => room p List.mem_cons_self)
    obtain ⟨safely, others⟩ := ih (room.imp_right fun room q hq =>
      room q (List.mem_cons_of_mem p hq))
    simp only [sendMessages]
    cases hfirst : sendMessage curtime data p with
    | error e =>
      refine ⟨fun e' h => ?_, fun r h => (by cases h)⟩
      obtain rfl := Except.error.inj h
      exact safe e hfirst
    | ok first =>
      cases hrest : sendMessages curtime data rest with
      | error e =>
        refine ⟨fun e' h => ?_, fun r h => (by cases h)⟩
        obtain rfl := Except.error.inj h
        exact safely e hrest
      | ok sent =>
        refine ⟨fun e h => (by cases h), fun r h => ?_⟩
        obtain rfl := Except.ok.inj h
        exact .cons (sends first hfirst) (others sent hrest)

theorem signed_of_lt {n : Nat} (h : n < 2 ^ 31) : signed n = n :=
  Int.bmod_eq_of_le (by omega) (by omega)

theorem msgReadLong_length {file : List UInt8} (h : 4 ≤ file.length) :
    (msgReadLong file).2.length + 4 = file.length := by
  rcases file with _ | ⟨a, _ | ⟨b, _ | ⟨c, _ | ⟨d, rest⟩⟩⟩⟩
  · cases h
  · simp at h
  · simp at h
  · simp at h
  · rfl

/-- A message that is read fits behind the reliable part of every client. -/
theorem readMessage_room {file : List UInt8} {players : List Player} (room : Room file players) :
    readMessage file = .ok none ∨
    ∃ data rest, readMessage file = .ok (some (data, rest)) ∧
      ∀ p ∈ players, p.client.control.state ≠ .free →
        8 + (reliablePart p.client).length + data.length ≤ 1400 := by
  obtain ⟨short, negative, packets⟩ := room
  have limit : (maxMsglen .kingpin : Int) = 1400 := rfl
  simp only [readMessage]
  by_cases small : file.length < 4
  · rw [if_pos small]
    exact .inl rfl
  rw [if_neg small]
  have rest := msgReadLong_length (Nat.le_of_not_lt small)
  simp only [blockLength] at short negative packets
  by_cases last : signed (msgReadLong file).1 = -1
  · rw [if_pos last]
    exact .inl rfl
  rw [if_neg last, if_neg (by omega)]
  by_cases empty : signed (msgReadLong file).1 = 0
  · rw [if_pos empty]
    rw [empty] at packets
    exact .inr ⟨[], _, rfl, packets (by simp only [Int.toNat_zero]; omega)⟩
  rw [if_neg empty]
  have natLimit : maxMsglen .kingpin = 1400 := rfl
  by_cases low : signed (msgReadLong file).1 < 0
  · -- the length is taken for one of more than 2 ^ 63 bytes
    have huge : (signed (msgReadLong file).1 % 2 ^ 64).toNat ≥ 2 ^ 63 := by
      have range : -(2 ^ 31 : Int) ≤ signed (msgReadLong file).1 :=
        Int.le_bmod (by decide)
      omega
    have left := negative (by omega)
    rw [if_neg (by omega), if_pos (by omega)]
    exact .inl rfl
  · have exact_length : (signed (msgReadLong file).1 % 2 ^ 64).toNat =
        (signed (msgReadLong file).1).toNat := by omega
    rw [exact_length, if_neg (by omega)]
    by_cases cut : (msgReadLong file).2.length < (signed (msgReadLong file).1).toNat
    · rw [if_pos cut]
      exact .inl rfl
    · rw [if_neg cut]
      refine .inr ⟨_, _, rfl, ?_⟩
      rw [List.length_take, Nat.min_eq_left (by omega)]
      exact packets (by omega)

theorem readMessage_block {data rest : List UInt8} (h : data.length ≤ maxMsglen .kingpin) :
    readMessage (block data ++ rest) = .ok (some (data, rest)) := by
  have natLimit : maxMsglen .kingpin = 1400 := rfl
  have read : msgReadLong (block data ++ rest) = (data.length, data ++ rest) := by
    rw [block, List.append_assoc]
    exact msgReadLong_longBytes (by omega) _
  have size : 4 ≤ (block data ++ rest).length := by
    simp only [block, longBytes, List.length_append, List.length_cons, List.length_nil]
    omega
  simp only [readMessage, if_neg (Nat.not_lt.mpr size), read, signed_of_lt (n := data.length) (by omega)]
  rw [if_neg (by omega), if_neg (by omega)]
  by_cases empty : (data.length : Int) = 0
  · have none : data = [] := List.eq_nil_of_length_eq_zero (by omega)
    rw [if_pos empty, none]
    rfl
  · have wanted : ((data.length : Int) % 2 ^ 64).toNat = data.length := by omega
    rw [if_neg empty, wanted, List.length_append, if_neg (by omega), if_neg (by omega),
      List.take_left, List.drop_left]

theorem blockLength_block {data rest : List UInt8} (h : data.length < 2 ^ 31) :
    blockLength (block data ++ rest) = data.length := by
  rw [blockLength, block, List.append_assoc, msgReadLong_longBytes (by omega)]
  exact signed_of_lt h

/-- A block of a recorded file. -/
theorem room_block {data rest : List UInt8} {players : List Player}
    (short : data.length ≤ maxMsglen .kingpin)
    (packets : ∀ p ∈ players, p.client.control.state ≠ .free →
      8 + (reliablePart p.client).length + data.length ≤ 1400) :
    Room (block data ++ rest) players := by
  have natLimit : maxMsglen .kingpin = 1400 := rfl
  have length := @blockLength_block data rest (by omega)
  constructor
  · rw [length]
    omega
  · rw [length]
    omega
  · rw [length, Int.toNat_natCast]
    exact fun _ => packets

/-! ## Runs -/

/-- `demofile` are the bytes that have not been read. -/
structure Playback where
  demofile : Option (List UInt8)

/-- A frame that does not complete ends the run. -/
def advance (s : Option Playback) (f : Frame) : Option Playback :=
  s.bind fun p => (svSendClientMessages f p.demofile).toOption.map fun played => ⟨played.demofile⟩

/-- A recorded file; the recording of a client ends with the length `-1`. -/
def demoFile (blocks : List (List UInt8)) (terminated : Bool) : List UInt8 :=
  blocks.flatMap block ++ if terminated then longBytes (2 ^ 32 - 1) else []

/-- Nothing is read behind `msgbuf`, no packet is refused, a block goes to every client as it is, and
the end of the file ends the demo. -/
structure Faithful (f : Frame) (p : Playback) : Prop where
  safe : ∀ e, svSendClientMessages f p.demofile = .error e →
    e ≠ .drop ∧ e ≠ .overrun ∧ e ≠ .tooLong
  plays : ∀ data rest played, f.paused = false → p.demofile = some (block data ++ rest) →
    data.length < 2 ^ 31 → svSendClientMessages f p.demofile = .ok played →
    played.demofile = some rest ∧
      List.Forall₂ (fun player sent => player.client.control.state ≠ .free →
        Sent data player sent.2) f.players played.clients
  ends : ∀ terminated, f.paused = false → p.demofile = some (demoFile [] terminated) →
    svSendClientMessages f p.demofile = .ok ⟨none, []⟩

def Sound (s : Option Playback) (f : Frame) : Prop := ∀ p, s = some p → Faithful f p

def Fits (s : Option Playback) (f : Frame) : Prop :=
  ∀ p file, s = some p → p.demofile = some file → f.paused = false → Room file f.players

theorem svSendClientMessages_of_message {f : Frame} {demofile rest : Option (List UInt8)}
    {data : List UInt8} (h : nextMessage f.paused demofile = .ok (some (data, rest))) :
    svSendClientMessages f demofile =
      (sendMessages f.curtime data f.players).map fun clients => ⟨rest, clients⟩ := by
  simp only [svSendClientMessages, h, bind, Except.bind]
  cases sendMessages f.curtime data f.players <;> rfl

theorem svSendClientMessages_of_end {f : Frame} {demofile : Option (List UInt8)}
    (h : nextMessage f.paused demofile = .ok none) :
    svSendClientMessages f demofile = .ok ⟨none, []⟩ := by
  simp only [svSendClientMessages, h, bind, Except.bind]

/-- The frames that read nothing, and those that do. -/
theorem nextMessage_room {f : Frame} {p : Playback}
    (fits : ∀ file, p.demofile = some file → f.paused = false → Room file f.players) :
    nextMessage f.paused p.demofile = .ok none ∨
    ∃ data rest, nextMessage f.paused p.demofile = .ok (some (data, rest)) ∧
      (data = [] ∨ ∀ player ∈ f.players, player.client.control.state ≠ .free →
        8 + (reliablePart player.client).length + data.length ≤ 1400) := by
  cases hfile : p.demofile with
  | none => exact .inr ⟨[], none, rfl, .inl rfl⟩
  | some file =>
    cases hpaused : f.paused with
    | true => exact .inr ⟨[], some file, rfl, .inl rfl⟩
    | false =>
      simp only [nextMessage, Bool.false_eq_true, if_false]
      rcases readMessage_room (fits file hfile hpaused) with ended | ⟨data, rest, read, room⟩
      · rw [ended]
        exact .inl rfl
      · rw [read]
        exact .inr ⟨data, some rest, rfl, .inr room⟩

theorem except_map_error {α β : Type} {x : Except Stop α} {g : α → β} {e : Stop}
    (h : x.map g = .error e) : x = .error e := by
  cases x with
  | error e' => exact congrArg Except.error (Except.error.inj h)
  | ok a => cases h

/-- A frame with room for its message is played as it was recorded. -/
theorem faithful_of_fits {f : Frame} {p : Playback}
    (fits : ∀ file, p.demofile = some file → f.paused = false → Room file f.players) :
    Faithful f p where
  safe e h := by
    rcases nextMessage_room fits with ended | ⟨data, rest, message, room⟩
    · rw [svSendClientMessages_of_end ended] at h
      cases h
    · rw [svSendClientMessages_of_message message] at h
      exact (sendMessages_room room).1 e (except_map_error h)
  plays data rest played hpaused hfile small h := by
    have room := fits _ hfile hpaused
    have length := @blockLength_block data rest small
    have short : data.length ≤ maxMsglen .kingpin := by
      have := room.short
      omega
    have message : nextMessage f.paused p.demofile = .ok (some (data, some rest)) := by
      rw [hfile, hpaused]
      simp only [nextMessage, Bool.false_eq_true, if_false, readMessage_block short]
      rfl
    have whole : 4 + data.length ≤ (block data ++ rest).length := by
      simp only [block, longBytes, List.length_append, List.length_cons, List.length_nil]
      omega
    have packets := room.packets
    rw [length, Int.toNat_natCast] at packets
    rw [svSendClientMessages_of_message message] at h
    cases hsent : sendMessages f.curtime data f.players with
    | error e =>
      rw [hsent] at h
      cases h
    | ok sent =>
      rw [hsent] at h
      obtain rfl := Except.ok.inj h
      exact ⟨rfl, (sendMessages_room (.inr (packets whole))).2 sent hsent⟩
  ends terminated hpaused hfile := by
    refine svSendClientMessages_of_end ?_
    rw [hfile, hpaused]
    cases terminated with
    | false => rfl
    | true =>
      have word : msgReadLong (longBytes (2 ^ 32 - 1) ++ []) = (2 ^ 32 - 1, []) :=
        msgReadLong_longBytes (by omega) []
      have minus : signed (2 ^ 32 - 1) = -1 := by decide
      have read : readMessage (demoFile [] true) = .ok none := by
        rw [List.append_nil] at word
        simp only [readMessage, demoFile, List.flatMap_nil, List.nil_append, if_true, word, minus]
        rfl
      simp only [nextMessage, Bool.false_eq_true, if_false, read]
      rfl

/-- A demo that has ended shows no more frames. -/
theorem run_stopped (frames : List Frame) : run advance none frames = none := by
  induction frames with
  | nil => rfl
  | cons f rest ih => exact ih

theorem advance_of_ok {f : Frame} {p : Playback} {played : Played}
    (h : svSendClientMessages f p.demofile = .ok played) :
    advance (some p) f = some ⟨played.demofile⟩ := by
  simp only [advance, Option.bind_some, h]
  rfl

/-- The first frame of a run that goes on. -/
theorem exists_of_run {f : Frame} {rest : List Frame} {p t : Playback}
    (h : run advance (some p) (f :: rest) = some t) :
    ∃ played, svSendClientMessages f p.demofile = .ok played ∧
      run advance (some ⟨played.demofile⟩) rest = some t := by
  rw [run_cons] at h
  cases hplayed : svSendClientMessages f p.demofile with
  | error e =>
    simp only [advance, Option.bind_some, hplayed] at h
    exact absurd (h.symm.trans (run_stopped rest)) (by rintro ⟨⟩)
  | ok played =>
    rw [advance_of_ok hplayed] at h
    exact ⟨played, rfl, h⟩

theorem demofile_of_message {f : Frame} {demofile rest : Option (List UInt8)} {data : List UInt8}
    {played : Played} (message : nextMessage f.paused demofile = .ok (some (data, rest)))
    (h : svSendClientMessages f demofile = .ok played) : played.demofile = rest := by
  rw [svSendClientMessages_of_message message] at h
  cases hsent : sendMessages f.curtime data f.players with
  | error e =>
    rw [hsent] at h
    cases h
  | ok sent =>
    rw [hsent] at h
    obtain rfl := Except.ok.inj h
    rfl

/-- A closed file stays closed. -/
theorem run_closed {frames : List Frame} {p t : Playback} (closed : p.demofile = none)
    (h : run advance (some p) frames = some t) : t.demofile = none := by
  induction frames generalizing p with
  | nil =>
    obtain rfl := Option.some.inj h
    exact closed
  | cons f rest ih =>
    obtain ⟨played, hplayed, h⟩ := exists_of_run h
    refine ih ?_ h
    rw [closed] at hplayed
    exact demofile_of_message rfl hplayed

/-- With more frames than blocks a recorded file plays to its end. -/
theorem run_ends {frames : List Frame} {blocks : List (List UInt8)} {terminated : Bool}
    {p t : Playback} (hfile : p.demofile = some (demoFile blocks terminated))
    (small : ∀ data ∈ blocks, data.length < 2 ^ 31)
    (sound : AllSteps advance Sound (some p) frames)
    (enough : blocks.length < (frames.filter fun f => !f.paused).length)
    (h : run advance (some p) frames = some t) : t.demofile = none := by
  induction frames generalizing blocks p with
  | nil => cases enough
  | cons f rest ih =>
    obtain ⟨now, later⟩ := sound
    obtain ⟨played, hplayed, h⟩ := exists_of_run h
    rw [advance_of_ok hplayed] at later
    cases hpaused : f.paused with
    | true =>
      have message : nextMessage f.paused p.demofile =
          .ok (some ([], some (demoFile blocks terminated))) := by
        rw [hfile, hpaused]
        rfl
      simp only [List.filter_cons, hpaused, Bool.not_true, Bool.false_eq_true, if_false] at enough
      exact ih (demofile_of_message message hplayed) small later enough h
    | false =>
      simp only [List.filter_cons, hpaused, Bool.not_false, if_true, List.length_cons] at enough
      cases blocks with
      | nil =>
        rw [(now p rfl).ends terminated hpaused hfile] at hplayed
        obtain rfl := Except.ok.inj hplayed
        exact run_closed rfl h
      | cons data blocks =>
        have first : p.demofile = some (block data ++ demoFile blocks terminated) := by
          rw [hfile, demoFile, List.flatMap_cons, List.append_assoc]
          rfl
        have left := ((now p rfl).plays data _ played hpaused first
          (small data List.mem_cons_self) hplayed).1
        exact ih left (fun other hmem => small other (List.mem_cons_of_mem data hmem)) later
          (Nat.lt_of_succ_lt_succ enough) h

/-- If in every frame the message fits in `msgbuf` and behind the reliable part of every client, then
each frame is faithful, and a recorded file is closed once there were more frames than blocks. -/
theorem playback_run {p : Playback} {frames : List Frame}
    (fits : AllSteps advance Fits (some p) frames) :
    AllSteps advance Sound (some p) frames ∧
      ∀ blocks terminated t, p.demofile = some (demoFile blocks terminated) →
        (∀ data ∈ blocks, data.length < 2 ^ 31) →
        blocks.length < (frames.filter fun f => !f.paused).length →
        run advance (some p) frames = some t → t.demofile = none := by
  have sound : AllSteps advance Sound (some p) frames := by
    have step : ∀ s f, True → Fits s f → Sound s f := by
      intro s f _ room q hq
      exact faithful_of_fits fun file hfile => room q file hq hfile
    exact allSteps_of_invariant (fun _ _ _ => trivial) step trivial fits
  exact ⟨sound, fun blocks terminated t hfile small enough h => run_ends hfile small sound enough h⟩

private def spectator : Player where
  client :=
    { control :=
        { state := .spawned
          netchan :=
            { sock := .server, lastReceived := 0, lastSent := 0, qport := 0, protocol := 32
              incomingAcknowledged := 8, lastReliableSequence := 7, reliableSequence := true
              message := szInit 1390, reliable := [12, 2, 65, 0] } } }
  netSends := 1
  server := rfl

private def spectated : Frame := ⟨0, false, [spectator]⟩

private def oneBlock : Playback := ⟨some (block [22, 1, 0, 0, 0, 20, 0, 0] ++ [])⟩

/-- A block for a client that has to be sent its reliable message again. -/
theorem playback_run_block : AllSteps advance Sound (some oneBlock) [spectated] := by
  have fits : AllSteps advance Fits (some oneBlock) [spectated] := by
    refine ⟨?_, trivial⟩
    intro p file hp hfile _
    obtain rfl := Option.some.inj hp
    obtain rfl := Option.some.inj hfile
    refine room_block (by decide) ?_
    intro p hp _
    obtain rfl := List.mem_singleton.mp hp
    decide
  exact (playback_run fits).1

private def blockDropped : Playback := ⟨some (block (List.replicate 1390 22) ++ [])⟩

/-- A block of 1390 bytes, for a client that has to be sent four reliable bytes again. -/
theorem long_block_dropped : ¬AllSteps advance Sound (some blockDropped) [spectated] := by
  rintro ⟨sound, -⟩
  have data : (List.replicate 1390 (22 : UInt8)).length = 1390 := List.length_replicate
  have message : nextMessage spectated.paused blockDropped.demofile =
      .ok (some (List.replicate 1390 22, some [])) := by
    have read := @readMessage_block (List.replicate 1390 22) [] (data.le.trans (by decide))
    simp only [nextMessage, spectated, blockDropped, Bool.false_eq_true, if_false, read]
    rfl
  have refused : sendMessage 0 (List.replicate 1390 22) spectator = .error .drop :=
    @sendMessage_drops _ _ _ spectator.client (by decide) rfl rfl (by decide)
      (by rw [data]; decide)
  have dropped : svSendClientMessages spectated blockDropped.demofile = .error .drop := by
    rw [svSendClientMessages_of_message message]
    simp only [spectated, sendMessages, refused, bind, Except.bind]
    rfl
  exact ((sound _ rfl).safe _ dropped).1 rfl

end DemoPlayback
