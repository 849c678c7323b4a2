import Mathlib.Data.List.Induction
import Mathlib.Logic.Function.Basic
import Kpded2.AckedStream
import Kpded2.NetChan
import Kpded2.StepRuns

/-!
# Reliable delivery between two channels

Two endpoints exchange packets over a network that may lose, duplicate and
reorder them. Every packet that was sent stays available for delivery. Next to
the channels the state records which payloads each side has moved into its
holding area and which it has accepted, what `Netchan_Process` has left to be read of
the packets it accepted with a payload, and each packet which payload it carries; the
endpoints never read these records.
-/
namespace NetChanStream
open NetChan SizeBuf Protocol AckedStream StepRuns

inductive Side where
  | client
  | server
  deriving DecidableEq

def Side.peer : Side → Side
  | .client => .server
  | .server => .client

@[simp] theorem Side.peer_peer (side : Side) : side.peer.peer = side := by
  cases side <;> rfl

@[simp] theorem Side.peer_ne (side : Side) : side.peer ≠ side := by
  cases side <;> decide

@[simp] theorem Side.ne_peer (side : Side) : side ≠ side.peer := by
  cases side <;> decide

theorem Side.eq_or_eq_peer (a b : Side) : a = b ∨ a = b.peer := by
  cases a <;> cases b <;> decide

structure Datagram where
  bytes : List UInt8
  payload : Option (List UInt8)

def Datagram.header (d : Datagram) : Header := (readHeader d.bytes).1

structure Net where
  chan : Side → Chan
  flight : Side → List Datagram
  moved : Side → List (List UInt8)
  accepted : Side → List (List UInt8)
  handed : Side → List (List UInt8)

inductive Op where
  | append (side : Side) (data : List UInt8)
  | transmit (side : Side) (curtime netSends : Nat) (data : List UInt8)
  | deliver (side : Side) (curtime index : Nat)

/-- The payload that the packet written by `Netchan_Transmit` carries. -/
def carried (chan : Chan) : Option (List UInt8) :=
  if sendReliable chan && !(stageReliable chan).reliable.isEmpty then
    some (stageReliable chan).reliable
  else none

/-- A fatal error ends the program, so nothing happens after it. -/
def step (build : Build) (net : Net) : Op → Net
  | .append side data =>
    match szWrite (net.chan side).message data with
    | none => net
    | some message =>
      { net with chan := Function.update net.chan side { net.chan side with message } }
  | .transmit side curtime netSends data =>
    match netchanTransmit build curtime netSends (net.chan side) data with
    | none => net
    | some out =>
      { net with
        chan := Function.update net.chan side out.chan
        flight := Function.update net.flight side
          (net.flight side ++ out.packets.map fun bytes => ⟨bytes, carried (net.chan side)⟩)
        moved := Function.update net.moved side
          (net.moved side ++
            if out.result = .overflow then [] else (movedPayload (net.chan side)).toList) }
  | .deliver side curtime index =>
    match (net.flight side.peer)[index]? with
    | none => net
    | some d =>
      let out := netchanProcess build curtime (net.chan side) d.bytes
      { net with
        chan := Function.update net.chan side out.chan
        accepted := Function.update net.accepted side
          (net.accepted side ++
            if out.accepted && out.chan.gotReliable then d.payload.toList else [])
        handed := Function.update net.handed side
          (net.handed side ++
            if out.accepted && out.chan.gotReliable then [out.body] else []) }

def start (chan : Side → Chan) : Net where
  chan := chan
  flight := fun _ => []
  moved := fun _ => []
  accepted := fun _ => []
  handed := fun _ => []

/-! ## One direction is an acknowledged stream -/

def parity (n : Nat) : Bool := n % 2 == 1

theorem parity_succ (n : Nat) : parity (n + 1) = !parity n := by
  unfold parity
  rcases Nat.mod_two_eq_zero_or_one n with h | h
  · have : (n + 1) % 2 = 1 := by omega
    simp [h, this]
  · have : (n + 1) % 2 = 0 := by omega
    simp [h, this]

/-- One direction of a conversation: the sender's and the receiver's variables,
and the packets of both directions, follow an abstract stream. -/
structure Tracks (sender receiver : Sequencing) (moved taken : List (List UInt8))
    (out back : List Datagram) (str : Stream (List UInt8)) : Prop where
  reachable : Reachable str
  moved_eq : str.moved = moved
  taken_eq : str.taken = taken
  nextSeq : str.nextSeq = sender.outgoingSequence
  lastSend : str.lastSend = sender.lastReliableSequence
  ackSeq : str.ackSeq = sender.incomingAcknowledged
  ackRecv : str.ackRecv = sender.incomingSequence
  recvSeq : str.recvSeq = receiver.incomingSequence
  ackNext : str.ackNext = receiver.outgoingSequence
  sentBit : sender.reliableSequence = parity moved.length
  ackBit : sender.incomingReliableAcknowledged = parity str.acked
  takenBit : receiver.incomingReliableSequence = parity taken.length
  held : sender.reliable = if str.acked = moved.length then [] else moved.getLast?.getD []
  nonempty : ∀ p ∈ moved, p ≠ []
  data : ∀ d ∈ out, ∃ e ∈ str.data, e.seq = d.header.sequence ∧ e.payload = d.payload ∧
    d.header.reliableMessage = d.payload.isSome
  acks : ∀ d ∈ back, ∃ a ∈ str.acks, a.seq = d.header.sequence ∧
    a.received = d.header.sequenceAck ∧ d.header.reliableAck = parity a.taken

theorem tracks_init : Tracks ⟨0, 0, false, false, 1, false, 0, []⟩
    ⟨0, 0, false, false, 1, false, 0, []⟩ [] [] [] [] {} where
  reachable := Relation.ReflTransGen.refl
  moved_eq := rfl
  taken_eq := rfl
  nextSeq := rfl
  lastSend := rfl
  ackSeq := rfl
  ackRecv := rfl
  recvSeq := rfl
  ackNext := rfl
  sentBit := rfl
  ackBit := rfl
  takenBit := rfl
  held := rfl
  nonempty := by simp
  data := by simp
  acks := by simp

section Directions
variable {sender receiver : Sequencing} {moved taken : List (List UInt8)}
  {out back : List Datagram} {str : Stream (List UInt8)}

/-- The holding area is empty exactly between two payloads. -/
theorem Tracks.reliable_eq_nil_iff
    (h : Tracks sender receiver moved taken out back str) :
    sender.reliable = [] ↔ str.acked = moved.length := by
  rw [h.held]
  constructor
  · intro hnil
    by_contra hne
    rw [if_neg hne] at hnil
    cases hlast : moved.getLast? with
    | none =>
      have hempty : moved = [] := by simpa using hlast
      have hle := (inv_reachable h.reachable).acked_le
      have hpre := (inv_reachable h.reachable).delivered.1.length_le
      rw [h.moved_eq, hempty] at hpre
      rw [hempty] at hne
      simp only [List.length_nil] at hpre hne
      omega
    | some p =>
      rw [hlast] at hnil
      exact h.nonempty p (List.mem_of_getLast? hlast) hnil
  · intro heq
    rw [if_pos heq]

theorem Tracks.held_of_waiting (h : Tracks sender receiver moved taken out back str)
    (hne : sender.reliable ≠ []) : moved.getLast? = some sender.reliable := by
  have hwait : str.acked ≠ moved.length := fun heq => hne (h.reliable_eq_nil_iff.mpr heq)
  have hheld := h.held
  rw [if_neg hwait] at hheld
  cases hlast : moved.getLast? with
  | none =>
    rw [hlast] at hheld
    exact absurd hheld hne
  | some p =>
    rw [hlast] at hheld
    rw [hheld]
    rfl

theorem Tracks.acked_lt (h : Tracks sender receiver moved taken out back str)
    (hne : sender.reliable ≠ []) : str.acked + 1 = moved.length := by
  have hwait : str.acked ≠ moved.length := fun heq => hne (h.reliable_eq_nil_iff.mpr heq)
  have hinv := inv_reachable h.reachable
  have hle := hinv.acked_le
  have hpre := hinv.delivered.1.length_le
  have hmoved := hinv.moved_le
  rw [h.moved_eq] at hpre hmoved
  omega

theorem header_packetBytes (chan : Chan) (data : List UInt8) (payload : Option (List UInt8)) :
    Datagram.header ⟨packetBytes chan data, payload⟩ =
      ⟨chan.outgoingSequence % 2 ^ 31, sendReliable chan, chan.incomingSequence % 2 ^ 31,
        chan.incomingReliableSequence⟩ := by
  rw [Datagram.header, packetBytes, readHeader_bytes]

/-- A copy of a packet that the stream has just sent. -/
theorem data_append {data : List (Datum (List UInt8))} {seq : Nat} {d : Datagram}
    (hout : ∀ d ∈ out, ∃ e ∈ data, e.seq = d.header.sequence ∧ e.payload = d.payload ∧
      d.header.reliableMessage = d.payload.isSome)
    (hseq : d.header.sequence = seq) (hbit : d.header.reliableMessage = d.payload.isSome)
    (copies : Nat) :
    ∀ d' ∈ out ++ List.replicate copies d, ∃ e ∈ ⟨seq, d.payload⟩ :: data,
      e.seq = d'.header.sequence ∧ e.payload = d'.payload ∧
        d'.header.reliableMessage = d'.payload.isSome := by
  intro d' hd'
  rcases List.mem_append.mp hd' with hold | hnew
  · obtain ⟨e, he, hrest⟩ := hout d' hold
    exact ⟨e, List.mem_cons_of_mem _ he, hrest⟩
  · obtain rfl := List.eq_of_mem_replicate hnew
    exact ⟨_, List.mem_cons_self, hseq.symm, rfl, hbit⟩

theorem carried_of_reliable {chan : Chan} {p : List UInt8} (hsend : sendReliable chan = true)
    (hstage : (stageReliable chan).reliable = p) (hp : p ≠ []) : carried chan = some p := by
  have hne : p.isEmpty = false := by simpa using hp
  simp [carried, hsend, hstage, hne]

theorem carried_of_plain {chan : Chan} (hsend : sendReliable chan = false) :
    carried chan = none := by
  simp [carried, hsend]

/-- `Netchan_Transmit` of the sender. -/
theorem Tracks.send {chan : Chan}
    (h : Tracks chan.sequencing receiver moved taken out back str)
    (hbound : chan.outgoingSequence < 2 ^ 31) (curtime copies size count : Nat)
    (data : List UInt8) :
    ∃ str', Tracks (countSent copies size (afterSend curtime chan)).sequencing receiver
      (moved ++ (movedPayload chan).toList) taken
      (out ++ List.replicate count ⟨packetBytes chan data, carried chan⟩) back str' := by
  have hheader := header_packetBytes chan data (carried chan)
  have hseq : (Datagram.header ⟨packetBytes chan data, carried chan⟩).sequence = str.nextSeq := by
    rw [hheader, h.nextSeq]
    exact Nat.mod_eq_of_lt hbound
  rcases afterSend_cases curtime copies size chan with
    ⟨p, hp, hmoved, hfree, hsend, hstage, hq⟩ | ⟨hmoved, hover, hbit, hsend, hstage, hq⟩ |
      ⟨hmoved, hsend, hq⟩
  · have hidle : str.acked = str.moved.length := by
      rw [h.moved_eq]
      exact h.reliable_eq_nil_iff.mp hfree
    have hcar := carried_of_reliable hsend hstage hp
    rw [hq, hmoved]
    refine ⟨_, { h with
      reachable := Relation.ReflTransGen.tail h.reachable (Step.sendFresh str p hidle)
      moved_eq := by rw [h.moved_eq]; rfl
      nextSeq := by simp only [h.nextSeq]; rfl
      lastSend := h.nextSeq
      sentBit := ?_, held := ?_, nonempty := ?_, data := ?_ }⟩
    · simp only [Option.toList_some, List.length_append, List.length_singleton, parity_succ]
      rw [← h.sentBit]
      rfl
    · have hne : str.acked ≠ (moved ++ [p]).length := by
        rw [hidle, h.moved_eq]
        simp
      rw [Option.toList_some, if_neg hne, List.getLast?_concat]
      rfl
    · intro q hq
      rcases List.mem_append.mp hq with hold | hnew
      · exact h.nonempty q hold
      · rw [List.mem_singleton.mp hnew]
        exact hp
    · have happ := data_append h.data hseq (by rw [hheader, hcar]; exact hsend) count
      rw [hcar] at happ
      rwa [hcar]
  · have hne : chan.reliable ≠ [] := by
      intro hnil
      have hidle := h.reliable_eq_nil_iff.mp hnil
      apply hbit
      have hack := h.ackBit
      rw [hidle] at hack
      exact hack.trans h.sentBit.symm
    have hlast := h.held_of_waiting hne
    have hlt := h.acked_lt hne
    have hcar := carried_of_reliable hsend hstage hne
    rw [hq, hmoved]
    refine ⟨_, { h with
      reachable := Relation.ReflTransGen.tail h.reachable
        (Step.resend str chan.reliable (by rw [h.moved_eq]; exact hlast)
          (by rw [h.moved_eq]; omega) (by rw [h.lastSend, h.ackSeq]; exact hover))
      moved_eq := by rw [h.moved_eq]; simp
      nextSeq := by simp only [h.nextSeq]; rfl
      lastSend := h.nextSeq
      sentBit := by simpa using h.sentBit
      held := by simpa using h.held
      nonempty := by simpa using h.nonempty
      data := ?_ }⟩
    have happ := data_append h.data hseq (by rw [hheader, hcar]; exact hsend) count
    rw [hcar] at happ
    rwa [hcar]
  · have hcar := carried_of_plain hsend
    rw [hq, hmoved]
    refine ⟨_, { h with
      reachable := Relation.ReflTransGen.tail h.reachable (Step.sendPlain str)
      moved_eq := by rw [h.moved_eq]; simp
      nextSeq := by simp only [h.nextSeq]; rfl
      sentBit := by simpa using h.sentBit
      held := by simpa using h.held
      nonempty := by simpa using h.nonempty
      data := ?_ }⟩
    have happ := data_append h.data hseq (by rw [hheader, hcar]; exact hsend) count
    rw [hcar] at happ
    rwa [hcar]

/-- `Netchan_Transmit` of the receiver. -/
theorem Tracks.sendAck {chan : Chan}
    (h : Tracks sender chan.sequencing moved taken out back str)
    (hbound : chan.outgoingSequence < 2 ^ 31) (hpeer : sender.outgoingSequence ≤ 2 ^ 31)
    (curtime copies size count : Nat) (data : List UInt8) (payload : Option (List UInt8)) :
    ∃ str', Tracks sender (countSent copies size (afterSend curtime chan)).sequencing moved taken
      out (back ++ List.replicate count ⟨packetBytes chan data, payload⟩) str' := by
  have hheader := header_packetBytes chan data payload
  have hin : chan.incomingSequence < 2 ^ 31 := by
    have hlt := (inv_reachable h.reachable).recvSeq_lt
    rw [h.recvSeq, h.nextSeq] at hlt
    exact Nat.lt_of_lt_of_le hlt hpeer
  have hframe : (countSent copies size (afterSend curtime chan)).sequencing.incomingSequence =
        chan.sequencing.incomingSequence ∧
      (countSent copies size (afterSend curtime chan)).sequencing.incomingReliableSequence =
        chan.sequencing.incomingReliableSequence ∧
      (countSent copies size (afterSend curtime chan)).sequencing.outgoingSequence =
        chan.sequencing.outgoingSequence + 1 := by
    rcases afterSend_cases curtime copies size chan with
      ⟨_, _, _, _, _, _, hq⟩ | ⟨_, _, _, _, _, hq⟩ | ⟨_, _, hq⟩
    all_goals
      rw [hq]
      exact ⟨rfl, rfl, rfl⟩
  obtain ⟨hseqf, hbitf, houtf⟩ := hframe
  refine ⟨_, { h with
    reachable := Relation.ReflTransGen.tail h.reachable (Step.sendAck str)
    recvSeq := h.recvSeq.trans hseqf.symm
    ackNext := by simp only [h.ackNext, houtf]
    takenBit := hbitf.trans h.takenBit
    acks := ?_ }⟩
  intro d hd
  rcases List.mem_append.mp hd with hold | hnew
  · obtain ⟨a, ha, hrest⟩ := h.acks d hold
    exact ⟨a, List.mem_cons_of_mem _ ha, hrest⟩
  · obtain rfl := List.eq_of_mem_replicate hnew
    refine ⟨_, List.mem_cons_self, ?_⟩
    rw [hheader]
    refine ⟨?_, ?_, ?_⟩
    · exact h.ackNext.trans (Nat.mod_eq_of_lt hbound).symm
    · exact h.recvSeq.trans (Nat.mod_eq_of_lt hin).symm
    · rw [h.taken_eq]
      exact h.takenBit

/-- `Netchan_Process` of the receiver. -/
theorem Tracks.receive {chan : Chan} {d : Datagram}
    (h : Tracks sender chan.sequencing moved taken out back str) (hd : d ∈ out)
    (build : Build) (curtime : Nat) :
    ∃ str', Tracks sender (netchanProcess build curtime chan d.bytes).chan.sequencing moved
      (taken ++
        if (netchanProcess build curtime chan d.bytes).accepted &&
          (netchanProcess build curtime chan d.bytes).chan.gotReliable then d.payload.toList
        else []) out back str' := by
  obtain ⟨e, he, hseq, hpayload, hbit⟩ := h.data d hd
  by_cases hnew : chan.incomingSequence < d.header.sequence
  · obtain ⟨hacc, hgot, hq⟩ := netchanProcess_newer build curtime hnew
    have htaken : (if true && d.header.reliableMessage then d.payload.toList else []) =
        e.payload.toList := by
      rw [hbit, hpayload]
      cases d.payload <;> rfl
    rw [hq, hacc, hgot]
    change ∃ str', Tracks sender _ moved
      (taken ++ if true && d.header.reliableMessage then d.payload.toList else []) out back str'
    rw [htaken]
    refine ⟨_, { h with
      reachable := Relation.ReflTransGen.tail h.reachable
        (Step.receive str e he (by rw [h.recvSeq, hseq]; exact hnew))
      taken_eq := by rw [h.taken_eq]
      recvSeq := hseq
      takenBit := ?_ }⟩
    change (d.header.reliableMessage ^^ chan.incomingReliableSequence) = _
    rw [hbit, ← hpayload]
    have hold : chan.incomingReliableSequence = parity taken.length := h.takenBit
    cases e.payload with
    | none => simpa using hold
    | some p => simp [parity_succ, hold]
  · have hstale : d.header.sequence ≤ chan.incomingSequence := by omega
    obtain ⟨hacc, hq⟩ := netchanProcess_stale build curtime hstale
    rw [hq, hacc]
    simp only [Bool.false_and, Bool.false_eq_true, if_false, List.append_nil]
    exact ⟨str, h⟩

/-- Within one payload of each other, two counts with the same parity are equal. -/
theorem parity_eq_iff {a n : Nat} (hle : a ≤ n) (hclose : n ≤ a + 1) :
    parity a = parity n ↔ a = n := by
  constructor
  · intro hpar
    by_contra hne
    have hn : n = a + 1 := by omega
    rw [hn, parity_succ] at hpar
    cases hp : parity a <;> simp [hp] at hpar
  · intro heq
    rw [heq]

/-- `Netchan_Process` of the sender. The holding area is cleared only when the
receiver has taken what is in it. -/
theorem Tracks.receiveAck {chan : Chan} {d : Datagram}
    (h : Tracks chan.sequencing receiver moved taken out back str) (hd : d ∈ back)
    (build : Build) (curtime : Nat) :
    (∃ str', Tracks (netchanProcess build curtime chan d.bytes).chan.sequencing receiver moved
      taken out back str') ∧
    (chan.reliable ≠ [] →
      (netchanProcess build curtime chan d.bytes).chan.sequencing.reliable = [] →
      taken = moved ∧ moved.getLast? = some chan.reliable) := by
  obtain ⟨a, ha, hseq, hreceived, hbit⟩ := h.acks d hd
  by_cases hnew : chan.incomingSequence < d.header.sequence
  · have hinv := inv_reachable h.reachable
    have hnewer : str.ackRecv < a.seq := by
      rw [h.ackRecv, hseq]
      exact hnew
    have hge := (hinv.ack_newer a ha hnewer).2
    have hle := (hinv.ack_le a ha).2
    have hpre := hinv.delivered.1.length_le
    have hclose := hinv.moved_le
    rw [h.moved_eq] at hpre hclose
    have hiff : parity a.taken = parity moved.length ↔ a.taken = moved.length :=
      parity_eq_iff (by omega) (by omega)
    have hsent : chan.reliableSequence = parity moved.length := h.sentBit
    obtain ⟨_, _, hq⟩ := netchanProcess_newer build curtime hnew
    have hcleared : (if d.header.reliableAck = chan.reliableSequence then [] else chan.reliable) =
        if a.taken = moved.length then [] else chan.reliable := by
      rw [hbit, hsent]
      by_cases heq : a.taken = moved.length
      · rw [if_pos heq, if_pos (hiff.mpr heq)]
      · rw [if_neg heq, if_neg (fun hpar => heq (hiff.mp hpar))]
    rw [hq]
    constructor
    · refine ⟨_, { h with
        reachable := Relation.ReflTransGen.tail h.reachable (Step.receiveAck str a ha hnewer)
        ackSeq := hreceived
        ackRecv := hseq
        ackBit := hbit
        held := ?_ }⟩
      change (if d.header.reliableAck = chan.reliableSequence then [] else chan.reliable) = _
      rw [hcleared]
      by_cases heq : a.taken = moved.length
      · rw [if_pos heq, if_pos heq]
      · rw [if_neg heq, if_neg heq]
        have hheld : chan.reliable = _ := h.held
        rw [hheld, if_neg (by omega)]
    · intro hne hnil
      change (if d.header.reliableAck = chan.reliableSequence then [] else chan.reliable) = [] at hnil
      rw [hcleared] at hnil
      by_cases heq : a.taken = moved.length
      · have htaken := hinv.taken_of_ack ha (by rw [h.moved_eq]; exact heq)
        rw [h.moved_eq, h.taken_eq] at htaken
        exact ⟨htaken, h.held_of_waiting hne⟩
      · rw [if_neg heq] at hnil
        exact absurd hnil hne
  · have hstale : d.header.sequence ≤ chan.incomingSequence := by omega
    obtain ⟨_, hq⟩ := netchanProcess_stale build curtime hstale
    rw [hq]
    exact ⟨⟨str, h⟩, fun hne hnil => absurd hnil hne⟩

end Directions

/-! ## Whole runs -/

/-- Both directions follow an acknowledged stream. -/
def Inv (net : Net) : Prop :=
  ∀ side, ∃ str, Tracks (net.chan side).sequencing (net.chan side.peer).sequencing
    (net.moved side) (net.accepted side.peer) (net.flight side) (net.flight side.peer) str

/-- Fewer than 2^31 packets have been numbered in each direction. -/
def FewPackets (net : Net) : Prop := ∀ side, (net.chan side).outgoingSequence ≤ 2 ^ 31

/-- Appending changes the message of one end. -/
theorem step_append (build : Build) (net : Net) (side : Side) (data : List UInt8) :
    ∃ message, step build net (.append side data) =
      { net with chan := Function.update net.chan side { net.chan side with message } } := by
  cases hw : szWrite (net.chan side).message data with
  | none => exact ⟨(net.chan side).message, by simp [step, hw]⟩
  | some message => exact ⟨message, by simp [step, hw]⟩

theorem sequencing_update_message (net : Net) (side a : Side) (message : Sizebuf) :
    (Function.update net.chan side { net.chan side with message } a).sequencing =
      (net.chan a).sequencing := by
  by_cases h : a = side
  · subst h
    rw [Function.update_self]
    rfl
  · rw [Function.update_of_ne h]

/-- A transmission sends nothing at all, or copies of one numbered packet. -/
theorem step_transmit (build : Build) (net : Net) (side : Side) (curtime netSends : Nat)
    (data : List UInt8) :
    step build net (.transmit side curtime netSends data) = net ∨
    ∃ copies size count, step build net (.transmit side curtime netSends data) =
      { net with
        chan := Function.update net.chan side
          (countSent copies size (afterSend curtime (net.chan side)))
        flight := Function.update net.flight side (net.flight side ++
          List.replicate count ⟨packetBytes (net.chan side) data, carried (net.chan side)⟩)
        moved := Function.update net.moved side
          (net.moved side ++ (movedPayload (net.chan side)).toList) } := by
  cases ht : netchanTransmit build curtime netSends (net.chan side) data with
  | none => exact Or.inl (by simp only [step, ht])
  | some out =>
    rcases netchanTransmit_cases ht with ⟨_, rfl⟩ | ⟨_, hresult, copies, size, hchan, hpackets⟩
    · refine Or.inl ?_
      simp only [step, ht]
      simp
    · refine Or.inr ⟨copies, size, copies, ?_⟩
      simp only [step, ht]
      rw [hchan, hpackets, if_neg hresult, List.map_replicate]

/-- A delivery does nothing, or hands one packet of the peer to the channel. -/
theorem step_deliver (build : Build) (net : Net) (side : Side) (curtime index : Nat) :
    step build net (.deliver side curtime index) = net ∨
    ∃ d ∈ net.flight side.peer, step build net (.deliver side curtime index) =
      { net with
        chan := Function.update net.chan side
          (netchanProcess build curtime (net.chan side) d.bytes).chan
        accepted := Function.update net.accepted side (net.accepted side ++
          if (netchanProcess build curtime (net.chan side) d.bytes).accepted &&
            (netchanProcess build curtime (net.chan side) d.bytes).chan.gotReliable then
            d.payload.toList else [])
        handed := Function.update net.handed side (net.handed side ++
          if (netchanProcess build curtime (net.chan side) d.bytes).accepted &&
            (netchanProcess build curtime (net.chan side) d.bytes).chan.gotReliable then
            [(netchanProcess build curtime (net.chan side) d.bytes).body] else []) } := by
  cases hd : (net.flight side.peer)[index]? with
  | none => exact Or.inl (by simp only [step, hd])
  | some d => exact Or.inr ⟨d, List.mem_of_getElem? hd, by simp only [step, hd]⟩

theorem outgoingSequence_afterSend (curtime copies size : Nat) (chan : Chan) :
    (countSent copies size (afterSend curtime chan)).outgoingSequence =
      chan.outgoingSequence + 1 := by
  rcases afterSend_cases curtime copies size chan with
    ⟨_, _, _, _, _, _, hq⟩ | ⟨_, _, _, _, _, hq⟩ | ⟨_, _, hq⟩
  all_goals exact congrArg Sequencing.outgoingSequence hq

theorem outgoingSequence_process (build : Build) (curtime : Nat) (chan : Chan)
    (msg : List UInt8) :
    (netchanProcess build curtime chan msg).chan.outgoingSequence = chan.outgoingSequence := by
  by_cases hnew : chan.incomingSequence < (readHeader msg).1.sequence
  · exact congrArg Sequencing.outgoingSequence (netchanProcess_newer build curtime hnew).2.2
  · exact congrArg Sequencing.outgoingSequence (netchanProcess_stale build curtime (by omega)).2

/-- The numbers of the packets only grow. -/
theorem outgoingSequence_le_step (build : Build) (net : Net) (op : Op) (a : Side) :
    (net.chan a).outgoingSequence ≤ ((step build net op).chan a).outgoingSequence := by
  cases op with
  | append side data =>
    obtain ⟨message, heq⟩ := step_append build net side data
    rw [heq]
    exact Nat.le_of_eq
      (congrArg Sequencing.outgoingSequence (sequencing_update_message net side a message)).symm
  | transmit side curtime netSends data =>
    rcases step_transmit build net side curtime netSends data with heq | ⟨_, _, _, heq⟩
    · exact Nat.le_of_eq (by rw [heq])
    · rw [heq]
      by_cases ha : a = side
      · subst ha
        simp only [Function.update_self, outgoingSequence_afterSend]
        exact Nat.le_succ _
      · simp only [Function.update_of_ne ha]
        exact Nat.le_refl _
  | deliver side curtime index =>
    rcases step_deliver build net side curtime index with heq | ⟨d, _, heq⟩
    · exact Nat.le_of_eq (by rw [heq])
    · rw [heq]
      by_cases ha : a = side
      · subst ha
        simp only [Function.update_self, outgoingSequence_process]
        exact Nat.le_refl _
      · simp only [Function.update_of_ne ha]
        exact Nat.le_refl _

/-- There were no more packets before. -/
theorem fewPackets_of_step {build : Build} {net : Net} {op : Op}
    (h : FewPackets (step build net op)) : FewPackets net :=
  fun side => Nat.le_trans (outgoingSequence_le_step build net op side) (h side)

/-- Every operation keeps the two streams in order. -/
theorem inv_step {build : Build} {net : Net} {op : Op} (h : Inv net)
    (hfew : FewPackets (step build net op)) : Inv (step build net op) := by
  cases op with
  | append side data =>
    obtain ⟨message, heq⟩ := step_append build net side data
    rw [heq]
    intro a
    obtain ⟨str, htr⟩ := h a
    refine ⟨str, ?_⟩
    dsimp only
    rw [sequencing_update_message, sequencing_update_message]
    exact htr
  | transmit side curtime netSends data =>
    rcases step_transmit build net side curtime netSends data with heq | ⟨copies, size, count, heq⟩
    · rwa [heq]
    · rw [heq] at hfew ⊢
      have hbound : (net.chan side).outgoingSequence < 2 ^ 31 := by
        have hside := hfew side
        simp only [Function.update_self, outgoingSequence_afterSend] at hside
        omega
      intro a
      obtain ⟨str, htr⟩ := h a
      rcases Side.eq_or_eq_peer side a with rfl | rfl
      · simp only [Function.update_self, Function.update_of_ne (Side.peer_ne _)]
        exact htr.send hbound curtime copies size count data
      · have hpeer := hfew a
        simp only [Function.update_self, Function.update_of_ne (Side.ne_peer _)] at hpeer ⊢
        exact htr.sendAck hbound hpeer curtime copies size count data _
  | deliver side curtime index =>
    rcases step_deliver build net side curtime index with heq | ⟨d, hd, heq⟩
    · rwa [heq]
    · rw [heq]
      intro a
      obtain ⟨str, htr⟩ := h a
      rcases Side.eq_or_eq_peer side a with rfl | rfl
      · simp only [Function.update_self, Function.update_of_ne (Side.peer_ne _)]
        exact (htr.receiveAck hd build curtime).1
      · rw [Side.peer_peer] at hd
        simp only [Function.update_self, Function.update_of_ne (Side.ne_peer _)]
        exact htr.receive hd build curtime

/-- The streams are in order after every run. -/
theorem inv_run {build : Build} {chan : Side → Chan} {ops : List Op}
    (hstart : Inv (start chan)) (hfew : FewPackets (run (step build) (start chan) ops)) :
    Inv (run (step build) (start chan) ops) := by
  induction ops using List.reverseRecOn with
  | nil => exact hstart
  | append_singleton ops op ih =>
    rw [run_concat] at hfew ⊢
    exact inv_step (ih (fewPackets_of_step hfew)) hfew

/-- Two new channels have sent nothing. -/
theorem inv_start {chan : Side → Chan}
    (h : ∀ side, (chan side).sequencing = ⟨0, 0, false, false, 1, false, 0, []⟩) :
    Inv (start chan) := by
  intro side
  refine ⟨{}, ?_⟩
  simp only [start]
  rw [h side, h side.peer]
  exact tracks_init

/-- What the receivers have accepted, against what the senders have moved. -/
structure Delivery (net : Net) : Prop where
  accepted_prefix : ∀ side, net.accepted (Side.peer side) <+: net.moved side
  last_missing : ∀ side, (net.moved side).length ≤ (net.accepted (Side.peer side)).length + 1

/-- What one step may do: the holding area is emptied only after its payload has
been accepted, and a packet with the reliable bit carries what is in it. -/
structure StepDelivery (before after : Net) : Prop where
  cleared : ∀ side, (before.chan side).reliable ≠ [] → (after.chan side).reliable = [] →
    before.accepted (Side.peer side) = before.moved side ∧
      (before.moved side).getLast? = some (before.chan side).reliable
  reliableBit : ∀ side, ∃ sent, after.flight side = before.flight side ++ sent ∧
    ∀ d ∈ sent, d.header.reliableMessage = true →
      (after.chan side).reliable ≠ [] ∧ d.payload = some (after.chan side).reliable ∧
        (after.chan side).reliable <:+: d.bytes

/-- What the invariant says of the payloads that were taken. -/
theorem delivery_of_inv {net : Net} (h : Inv net) : Delivery net where
  accepted_prefix := by
    intro side
    obtain ⟨str, htr⟩ := h side
    have hpre := (inv_reachable htr.reachable).delivered.1
    rwa [htr.moved_eq, htr.taken_eq] at hpre
  last_missing := by
    intro side
    obtain ⟨str, htr⟩ := h side
    have hle := (inv_reachable htr.reachable).delivered.2
    rwa [htr.moved_eq, htr.taken_eq] at hle

/-- A packet is only marked reliable when there is something to deliver. -/
theorem Tracks.sendReliable_ne_nil {chan : Chan} {receiver : Sequencing}
    {moved taken : List (List UInt8)} {out back : List Datagram} {str : Stream (List UInt8)}
    (h : Tracks chan.sequencing receiver moved taken out back str)
    (hsend : sendReliable chan = true) : (stageReliable chan).reliable ≠ [] := by
  rcases afterSend_cases 0 0 0 chan with
    ⟨p, hp, _, _, _, hstage, _⟩ | ⟨_, _, hbit, _, hstage, _⟩ | ⟨_, hplain, _⟩
  · rwa [hstage]
  · rw [hstage]
    intro hnil
    apply hbit
    have hack := h.ackBit
    rw [h.reliable_eq_nil_iff.mp hnil] at hack
    exact hack.trans h.sentBit.symm
  · rw [hplain] at hsend
    cases hsend

theorem reliable_afterSend (curtime copies size : Nat) (chan : Chan) :
    (countSent copies size (afterSend curtime chan)).reliable = (stageReliable chan).reliable := by
  rw [afterSend, noteReliable]
  split <;> rfl

theorem reliable_infix_packetBytes {chan : Chan} (data : List UInt8)
    (hsend : sendReliable chan = true) :
    (stageReliable chan).reliable <:+: packetBytes chan data := by
  refine ⟨longBytes (headerWord chan.outgoingSequence (sendReliable chan)) ++
    (longBytes (headerWord chan.incomingSequence chan.incomingReliableSequence) ++
      qportBytes chan), data, ?_⟩
  simp [packetBytes, hsend]

theorem stepDelivery_refl (net : Net) : StepDelivery net net where
  cleared := fun _ hne hnil => absurd hnil hne
  reliableBit := fun _ => ⟨[], by simp, by simp⟩

theorem stepDelivery_transmit {net : Net} (h : Inv net) (side : Side)
    (moved : Side → List (List UInt8)) (data : List UInt8)
    (curtime copies size count : Nat) :
    StepDelivery net { net with
      chan := Function.update net.chan side
        (countSent copies size (afterSend curtime (net.chan side)))
      flight := Function.update net.flight side (net.flight side ++
        List.replicate count ⟨packetBytes (net.chan side) data, carried (net.chan side)⟩)
      moved := moved } where
  cleared := by
    intro a hne hnil
    by_cases ha : a = side
    · subst ha
      simp only [Function.update_self, reliable_afterSend] at hnil
      rcases stageReliable_cases (net.chan a) with ⟨hr, _⟩ | ⟨_, hstage⟩
      · exact absurd (List.isEmpty_iff.mp hr) hne
      · rw [hstage] at hnil
        exact absurd hnil hne
    · simp only [Function.update_of_ne ha] at hnil
      exact absurd hnil hne
  reliableBit := by
    intro a
    by_cases ha : a = side
    · subst ha
      simp only [Function.update_self, reliable_afterSend]
      refine ⟨_, rfl, ?_⟩
      intro d hd hbit
      obtain rfl := List.eq_of_mem_replicate hd
      rw [header_packetBytes] at hbit
      obtain ⟨str, htr⟩ := h a
      have hne := htr.sendReliable_ne_nil hbit
      exact ⟨hne, carried_of_reliable hbit rfl hne, reliable_infix_packetBytes data hbit⟩
    · simp only [Function.update_of_ne ha]
      exact ⟨[], by simp, by simp⟩

/-- What one step may deliver. -/
theorem stepDelivery_step {build : Build} {net : Net} (h : Inv net) (op : Op) :
    StepDelivery net (step build net op) := by
  cases op with
  | append side data =>
    obtain ⟨message, heq⟩ := step_append build net side data
    rw [heq]
    refine ⟨?_, fun _ => ⟨[], by simp, by simp⟩⟩
    intro a hne hnil
    exact absurd ((congrArg Sequencing.reliable
      (sequencing_update_message net side a message)).symm.trans hnil) hne
  | transmit side curtime netSends data =>
    rcases step_transmit build net side curtime netSends data with heq | ⟨copies, size, count, heq⟩
    · rw [heq]
      exact stepDelivery_refl net
    · rw [heq]
      exact stepDelivery_transmit h side _ data curtime copies size count
  | deliver side curtime index =>
    rcases step_deliver build net side curtime index with heq | ⟨d, hd, heq⟩
    · rw [heq]
      exact stepDelivery_refl net
    · rw [heq]
      refine ⟨?_, fun _ => ⟨[], by simp, by simp⟩⟩
      intro a hne hnil
      by_cases ha : a = side
      · subst ha
        obtain ⟨str, htr⟩ := h a
        simp only [Function.update_self] at hnil
        exact (htr.receiveAck hd build curtime).2 hne hnil
      · simp only [Function.update_of_ne ha] at hnil
        exact absurd hnil hne

/-! ## What the receivers read -/

/-- The receiver skips what the sender writes between the header and the payload. -/
def Agree (build : Build) (sender receiver : Chan) : Prop :=
  qportLength build receiver = (qportBytes sender).length

/-- A client and a server with the same protocol and the same qport. -/
theorem agree_of_same {build : Build} {client server : Chan} (client_sock : client.sock = .client)
    (server_sock : server.sock = .server) (protocol : client.protocol = server.protocol)
    (qport : client.qport = server.qport)
    (short : client.protocol = protocolR1Q2 → build = .quake2 ∧ client.qport ≤ 255) :
    Agree build client server ∧ Agree build server client := by
  have two : (shortBytes client.qport).length = 2 := rfl
  refine ⟨?_, by simp only [Agree, qportLength, qportBytes, client_sock, server_sock, List.length_nil]⟩
  by_cases r1q2 : client.protocol = protocolR1Q2
  · obtain ⟨rfl, small⟩ := short r1q2
    have kept : ¬(server.protocol ≠ protocolR1Q2 ∨ server.qport > 255) := by
      rw [← protocol, ← qport]
      exact fun h => h.elim (· r1q2) (by omega)
    have skipped : qportLength .quake2 server = if server.qport ≠ 0 then 1 else 0 := by
      simp only [qportLength, server_sock]
      exact if_neg kept
    simp only [Agree, skipped, qportBytes, client_sock, r1q2, ← qport, ne_eq, not_true_eq_false,
      if_false]
    split <;> rfl
  · cases build with
    | kingpin => simp only [Agree, qportLength, qportBytes, client_sock, server_sock, ne_eq, r1q2,
        not_false_eq_true, if_true, two]
    | quake2 => simp only [Agree, qportLength, qportBytes, client_sock, server_sock, ne_eq, ← protocol,
        r1q2, not_false_eq_true, true_or, if_true, two]

/-- What `Agree` reads of a channel. -/
def port (chan : Chan) : NetSrc × Nat × Nat := (chan.sock, chan.protocol, chan.qport)

theorem qportBytes_congr {chan chan' : Chan} (h : port chan' = port chan) :
    qportBytes chan' = qportBytes chan := by
  obtain ⟨sock, rest⟩ := Prod.mk.inj (show (chan'.sock, _) = (chan.sock, _) from h)
  obtain ⟨protocol, qport⟩ := Prod.mk.inj rest
  simp only [qportBytes, sock, protocol, qport]

theorem qportLength_congr (build : Build) {chan chan' : Chan} (h : port chan' = port chan) :
    qportLength build chan' = qportLength build chan := by
  obtain ⟨sock, rest⟩ := Prod.mk.inj (show (chan'.sock, _) = (chan.sock, _) from h)
  obtain ⟨protocol, qport⟩ := Prod.mk.inj rest
  simp only [qportLength, sock, protocol, qport]

theorem port_afterSend (curtime copies size : Nat) (chan : Chan) :
    port (countSent copies size (afterSend curtime chan)) = port chan := by
  have staged : port (stageReliable chan) = port chan := by
    unfold stageReliable
    split <;> rfl
  rw [afterSend, noteReliable]
  split
  · exact staged
  · exact staged

theorem port_process (build : Build) (curtime : Nat) (chan : Chan) (msg : List UInt8) :
    port (netchanProcess build curtime chan msg).chan = port chan := by
  simp only [netchanProcess]
  split <;> rfl

theorem gotReliable_process (build : Build) (curtime : Nat) (chan : Chan) (msg : List UInt8) :
    (netchanProcess build curtime chan msg).chan.gotReliable = (readHeader msg).1.reliableMessage := by
  simp only [netchanProcess]
  split <;> rfl

/-- A packet with a payload has it behind the bytes that the sender adds. -/
def Payloads (chan : Chan) (d : Datagram) : Prop :=
  ∀ p ∈ d.payload, ∃ more, (readHeader d.bytes).2 = qportBytes chan ++ (p ++ more)

theorem payloads_packetBytes (chan : Chan) (data : List UInt8) :
    Payloads chan ⟨packetBytes chan data, carried chan⟩ := by
  intro p hp
  unfold carried at hp
  split at hp
  · rename_i both
    obtain ⟨sends, -⟩ := Bool.and_eq_true_iff.mp both
    cases hp
    exact ⟨data, by rw [packetBytes, readHeader_bytes, if_pos sends]⟩
  · cases hp

/-- Every accepted payload was at the front of what its receiver was handed. -/
def Present (net : Net) : Prop := ∀ side, List.Forall₂ (· <+: ·) (net.accepted side) (net.handed side)

/-- Both sides skip what the other adds. -/
structure Read (build : Build) (net : Net) : Prop where
  agree : ∀ side, Agree build (net.chan side) (net.chan side.peer)
  packets : ∀ side, ∀ d ∈ net.flight side, Payloads (net.chan side) d
  present : Present net

theorem Read.of_ports {build : Build} {net : Net} (h : Read build net) {chan : Side → Chan}
    (same : ∀ side, port (chan side) = port (net.chan side)) {flight : Side → List Datagram}
    (packets : ∀ side, ∀ d ∈ flight side, Payloads (net.chan side) d)
    (moved : Side → List (List UInt8)) : Read build { net with chan, flight, moved } where
  agree := fun side => by
    change qportLength build (chan side.peer) = (qportBytes (chan side)).length
    rw [qportLength_congr build (same side.peer), qportBytes_congr (same side)]
    exact h.agree side
  packets := fun side d hd p hp => by
    obtain ⟨more, rest⟩ := packets side d hd p hp
    exact ⟨more, rest.trans (by rw [qportBytes_congr (same side)])⟩
  present := h.present

/-- The body of a packet begins with its payload. -/
theorem payload_prefix_body {build : Build} {sender receiver : Chan} {d : Datagram}
    (agree : Agree build sender receiver) (payloads : Payloads sender d) (curtime : Nat) :
    ∀ p ∈ d.payload, p <+: (netchanProcess build curtime receiver d.bytes).body := by
  intro p hp
  obtain ⟨more, rest⟩ := payloads p hp
  have body : (netchanProcess build curtime receiver d.bytes).body =
      (readHeader d.bytes).2.drop (qportLength build receiver) := by
    simp only [netchanProcess]
    split <;> rfl
  rw [body, rest, agree, List.drop_left]
  exact List.prefix_append p more

/-- What an end is handed goes on to be what its peer has put into the packets. -/
theorem read_step {build : Build} {net : Net} (h : Inv net) (read : Read build net) (op : Op) :
    Read build (step build net op) := by
  cases op with
  | append side data =>
    obtain ⟨message, heq⟩ := step_append build net side data
    rw [heq]
    refine read.of_ports (fun a => ?_) read.packets net.moved
    by_cases ha : a = side
    · rw [ha, Function.update_self]
      rfl
    · rw [Function.update_of_ne ha]
  | transmit side curtime netSends data =>
    rcases step_transmit build net side curtime netSends data with heq | ⟨copies, size, count, heq⟩
    · rwa [heq]
    · rw [heq]
      refine read.of_ports (fun a => ?_) (fun a d hd => ?_) _
      · by_cases ha : a = side
        · rw [ha, Function.update_self]
          exact port_afterSend _ _ _ _
        · rw [Function.update_of_ne ha]
      · by_cases ha : a = side
        · subst ha
          rw [Function.update_self] at hd
          rcases List.mem_append.mp hd with old | new
          · exact read.packets a d old
          · rw [List.eq_of_mem_replicate new]
            exact payloads_packetBytes _ _
        · rw [Function.update_of_ne ha] at hd
          exact read.packets a d hd
  | deliver side curtime index =>
    rcases step_deliver build net side curtime index with heq | ⟨d, hd, heq⟩
    · rwa [heq]
    · have same : ∀ a, port (Function.update net.chan side
          (netchanProcess build curtime (net.chan side) d.bytes).chan a) = port (net.chan a) := by
        intro a
        by_cases ha : a = side
        · rw [ha, Function.update_self]
          exact port_process _ _ _ _
        · rw [Function.update_of_ne ha]
      have ports := read.of_ports same read.packets net.moved
      rw [heq]
      refine ⟨ports.agree, ports.packets, fun a => ?_⟩
      by_cases ha : a = side
      · subst ha
        simp only [Function.update_self]
        refine List.rel_append (read.present a) ?_
        split
        · rename_i both
          obtain ⟨-, got⟩ := Bool.and_eq_true_iff.mp both
          obtain ⟨str, tracks⟩ := h a.peer
          obtain ⟨-, -, -, -, bit⟩ := tracks.data d hd
          have got : d.header.reliableMessage = true := (gotReliable_process _ _ _ _).symm.trans got
          obtain ⟨p, hp⟩ := Option.isSome_iff_exists.mp (bit.symm.trans got)
          have agree := read.agree a.peer
          rw [Side.peer_peer] at agree
          rw [hp]
          exact .cons (payload_prefix_body agree (read.packets a.peer d hd) curtime p hp) .nil
        · exact .nil
      · simp only [Function.update_of_ne ha]
        exact read.present a

/-- In every run an end is handed what its peer has put into the packets. -/
theorem read_run {build : Build} {chan : Side → Chan} {ops : List Op} (hstart : Inv (start chan))
    (agree : ∀ side, Agree build (chan side) (chan side.peer))
    (hfew : FewPackets (run (step build) (start chan) ops)) :
    Read build (run (step build) (start chan) ops) := by
  induction ops using List.reverseRecOn with
  | nil => exact ⟨agree, fun _ _ hd => (List.not_mem_nil hd).elim, fun _ => .nil⟩
  | append_singleton ops op ih =>
    rw [run_concat] at hfew ⊢
    have earlier := fewPackets_of_step hfew
    exact read_step (inv_run hstart earlier) (ih earlier) op

def endpoints (client server : Chan) : Side → Chan
  | .client => client
  | .server => server

/-- Between two freshly set up channels, whatever the network does, each side
accepts the other's reliable payloads in order, once each and at most one behind, and reads
them at the front of the packets if it skips what the other adds to them. -/
theorem reliable_delivery (build : Build) (curtime protocol qport msglen : Side → Nat)
    (sock : Side → NetSrc) {client server : Chan}
    (client_setup : netchanSetup build (curtime .client) (sock .client) (protocol .client)
      (qport .client) (msglen .client) = some client)
    (server_setup : netchanSetup build (curtime .server) (sock .server) (protocol .server)
      (qport .server) (msglen .server) = some server)
    (ops : List Op)
    (few_packets : FewPackets (run (step build) (start (endpoints client server)) ops)) :
    Delivery (run (step build) (start (endpoints client server)) ops) ∧
    ((∀ side, Agree build (endpoints client server side) (endpoints client server side.peer)) →
      Present (run (step build) (start (endpoints client server)) ops)) ∧
    ∀ earlier op, ops = earlier ++ [op] →
      StepDelivery (run (step build) (start (endpoints client server)) earlier)
        (run (step build) (start (endpoints client server)) ops) := by
  have hstart : Inv (start (endpoints client server)) := by
    apply inv_start
    intro side
    cases side with
    | client => exact netchanSetup_sequencing client_setup
    | server => exact netchanSetup_sequencing server_setup
  refine ⟨delivery_of_inv (inv_run hstart few_packets),
    fun agree => (read_run hstart agree few_packets).present, ?_⟩
  rintro earlier op rfl
  rw [run_concat] at few_packets ⊢
  exact stepDelivery_step (inv_run hstart (fewPackets_of_step few_packets)) op

private def exampleChan (sock : NetSrc) : Chan where
  sock := sock
  lastReceived := 0
  lastSent := 0
  qport := 7
  protocol := 34
  message := { allowoverflow := true, maxsize := 1390, buffsize := 1390 }

/-- The first transmission of a payload is lost, the second is acknowledged. -/
private def exampleOps : List Op :=
  [.append .client [5, 6], .transmit .client 0 1 [9], .transmit .client 0 1 [],
    .deliver .server 1 1, .transmit .server 1 1 [], .deliver .client 2 0,
    .transmit .client 2 1 [], .deliver .server 3 2, .transmit .server 3 1 [],
    .deliver .client 4 1]

theorem reliable_delivery_example :
    let net := run (step .kingpin)
      (start (endpoints (exampleChan .client) (exampleChan .server))) exampleOps
    Delivery net ∧ Present net ∧
    ∀ earlier op, exampleOps = earlier ++ [op] →
      StepDelivery
        (run (step .kingpin)
          (start (endpoints (exampleChan .client) (exampleChan .server))) earlier) net := by
  have few : FewPackets (run (step .kingpin)
      (start (endpoints (exampleChan .client) (exampleChan .server))) exampleOps) := by
    intro side
    cases side <;> decide
  obtain ⟨delivery, present, steps⟩ := reliable_delivery .kingpin (fun _ => 0) (fun _ => 34)
    (fun _ => 7) (fun _ => 0) (fun side => match side with
      | .client => .client
      | .server => .server) rfl rfl exampleOps few
  obtain ⟨there, back⟩ := @agree_of_same .kingpin (exampleChan .client) (exampleChan .server) rfl rfl
    rfl rfl (by decide)
  refine ⟨delivery, present fun side => ?_, steps⟩
  cases side with
  | client => exact there
  | server => exact back

/-- The body of the retransmission, in which nothing follows the payload. -/
example :
    let net := run (step .kingpin)
      (start (endpoints (exampleChan .client) (exampleChan .server))) exampleOps
    net.accepted .server = [[5, 6]] ∧ net.handed .server = [[5, 6]] := by decide

end NetChanStream
