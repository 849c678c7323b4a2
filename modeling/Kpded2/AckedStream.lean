import Mathlib.Data.List.Basic
import Mathlib.Logic.Relation

/-!
# One outstanding payload over a lossy channel

A sender moves payloads one at a time into a holding area and numbers every
packet it sends; the receiver ignores a packet that is not newer than the last
one it processed. An acknowledgement carries the newest packet number seen and
the count of payloads taken so far. A payload is sent again only after an
acknowledgement newer than its last transmission did not count it. Packets of
both directions stay in flight for ever, so loss, duplication and reordering are
all choices of which one is received.
-/
namespace AckedStream

universe u
variable {α : Type u}

structure Datum (α : Type u) where
  seq : Nat
  payload : Option α

structure Ack where
  seq : Nat
  received : Nat
  taken : Nat

structure Stream (α : Type u) where
  moved : List α := []
  taken : List α := []
  acked : Nat := 0
  lastSend : Nat := 0
  nextSeq : Nat := 1
  ackSeq : Nat := 0
  recvSeq : Nat := 0
  ackNext : Nat := 1
  ackRecv : Nat := 0
  data : List (Datum α) := []
  acks : List Ack := []

inductive Step : Stream α → Stream α → Prop where
  | sendPlain (s : Stream α) :
      Step s { s with nextSeq := s.nextSeq + 1, data := ⟨s.nextSeq, none⟩ :: s.data }
  | sendFresh (s : Stream α) (p : α) (idle : s.acked = s.moved.length) :
      Step s { s with
        moved := s.moved ++ [p], lastSend := s.nextSeq, nextSeq := s.nextSeq + 1,
        data := ⟨s.nextSeq, some p⟩ :: s.data }
  | resend (s : Stream α) (p : α) (held : s.moved.getLast? = some p)
      (waiting : s.acked < s.moved.length) (overtaken : s.lastSend < s.ackSeq) :
      Step s { s with
        lastSend := s.nextSeq, nextSeq := s.nextSeq + 1,
        data := ⟨s.nextSeq, some p⟩ :: s.data }
  | sendAck (s : Stream α) :
      Step s { s with
        ackNext := s.ackNext + 1, acks := ⟨s.ackNext, s.recvSeq, s.taken.length⟩ :: s.acks }
  | receive (s : Stream α) (d : Datum α) (flying : d ∈ s.data) (newer : s.recvSeq < d.seq) :
      Step s { s with recvSeq := d.seq, taken := s.taken ++ d.payload.toList }
  | receiveAck (s : Stream α) (a : Ack) (flying : a ∈ s.acks) (newer : s.ackRecv < a.seq) :
      Step s { s with ackRecv := a.seq, ackSeq := a.received, acked := a.taken }

def Reachable (s : Stream α) : Prop := Relation.ReflTransGen Step ({} : Stream α) s

structure Inv (s : Stream α) : Prop where
  outstanding : s.moved = s.taken ∨ ∃ p, s.moved = s.taken ++ [p]
  acked_le : s.acked ≤ s.taken.length
  moved_le : s.moved.length ≤ s.acked + 1
  lastSend_lt : s.lastSend < s.nextSeq
  recvSeq_lt : s.recvSeq < s.nextSeq
  ackSeq_le : s.ackSeq ≤ s.recvSeq
  ackRecv_lt : s.ackRecv < s.ackNext
  data_lt : ∀ d ∈ s.data, d.seq < s.nextSeq
  payload_le : ∀ d ∈ s.data, d.payload ≠ none → d.seq ≤ s.lastSend
  fresh : ∀ d ∈ s.data, ∀ p, d.payload = some p → s.recvSeq < d.seq →
    d.seq = s.lastSend ∧ s.moved = s.taken ++ [p]
  ack_lt : ∀ a ∈ s.acks, a.seq < s.ackNext
  ack_le : ∀ a ∈ s.acks, a.received ≤ s.recvSeq ∧ a.taken ≤ s.taken.length
  acks_mono : ∀ a ∈ s.acks, ∀ b ∈ s.acks, a.seq < b.seq →
    a.received ≤ b.received ∧ a.taken ≤ b.taken
  ack_newer : ∀ a ∈ s.acks, s.ackRecv < a.seq → s.ackSeq ≤ a.received ∧ s.acked ≤ a.taken
  unacked : s.acked + 1 = s.taken.length →
    s.ackSeq < s.lastSend ∧ ∀ a ∈ s.acks, a.taken = s.acked → a.received < s.lastSend

/-- Nothing has been sent. -/
theorem inv_init : Inv ({} : Stream α) := by
  constructor <;> simp

/-- Between two payloads everything moved has been taken. -/
theorem Inv.taken_of_acked {s : Stream α} (h : Inv s) (hidle : s.acked = s.moved.length) :
    s.moved = s.taken := by
  rcases h.outstanding with heq | ⟨p, heq⟩
  · exact heq
  · have hlen := congrArg List.length heq
    have hle := h.acked_le
    simp only [List.length_append, List.length_singleton] at hlen
    omega

/-- When the sender may send again, the receiver has not taken the payload. -/
theorem Inv.missing_of_overtaken {s : Stream α} (h : Inv s) {p : α}
    (held : s.moved.getLast? = some p) (waiting : s.acked < s.moved.length)
    (overtaken : s.lastSend < s.ackSeq) : s.moved = s.taken ++ [p] := by
  rcases h.outstanding with heq | ⟨q, heq⟩
  · have hlen := congrArg List.length heq
    have hle := h.moved_le
    have := (h.unacked (by omega)).1
    omega
  · rw [heq, List.getLast?_concat] at held
    rw [heq, Option.some.inj held]

/-- A packet without a payload takes a number and nothing else. -/
theorem inv_sendPlain {s : Stream α} (h : Inv s) :
    Inv { s with nextSeq := s.nextSeq + 1, data := ⟨s.nextSeq, none⟩ :: s.data } where
  outstanding := h.outstanding
  acked_le := h.acked_le
  moved_le := h.moved_le
  lastSend_lt := Nat.lt_succ_of_lt h.lastSend_lt
  recvSeq_lt := Nat.lt_succ_of_lt h.recvSeq_lt
  ackSeq_le := h.ackSeq_le
  ackRecv_lt := h.ackRecv_lt
  data_lt := by
    intro d hd
    rcases List.mem_cons.mp hd with rfl | hd
    · exact Nat.lt_succ_self _
    · exact Nat.lt_succ_of_lt (h.data_lt d hd)
  payload_le := by
    intro d hd hp
    rcases List.mem_cons.mp hd with rfl | hd
    · exact absurd rfl hp
    · exact h.payload_le d hd hp
  fresh := by
    intro d hd p hp hnew
    rcases List.mem_cons.mp hd with rfl | hd
    · cases hp
    · exact h.fresh d hd p hp hnew
  ack_lt := h.ack_lt
  ack_le := h.ack_le
  acks_mono := h.acks_mono
  ack_newer := h.ack_newer
  unacked := h.unacked

/-- A packet with the payload that is missing, sent when no older copy of it can
still be accepted. -/
theorem inv_sendPayload {s : Stream α} (h : Inv s) {moved : List α} {p : α}
    (hmoved : moved = s.taken ++ [p]) (hacked : s.acked = s.taken.length)
    (hstale : ∀ d ∈ s.data, d.payload ≠ none → d.seq ≤ s.recvSeq) :
    Inv { s with
      moved := moved, lastSend := s.nextSeq, nextSeq := s.nextSeq + 1,
      data := ⟨s.nextSeq, some p⟩ :: s.data } where
  outstanding := Or.inr ⟨p, hmoved⟩
  acked_le := h.acked_le
  moved_le := by
    simp only [hmoved, List.length_append, List.length_singleton]
    omega
  lastSend_lt := Nat.lt_succ_self _
  recvSeq_lt := Nat.lt_succ_of_lt h.recvSeq_lt
  ackSeq_le := h.ackSeq_le
  ackRecv_lt := h.ackRecv_lt
  data_lt := by
    intro d hd
    rcases List.mem_cons.mp hd with rfl | hd
    · exact Nat.lt_succ_self _
    · exact Nat.lt_succ_of_lt (h.data_lt d hd)
  payload_le := by
    intro d hd _
    rcases List.mem_cons.mp hd with rfl | hd
    · exact Nat.le_refl _
    · exact Nat.le_of_lt (h.data_lt d hd)
  fresh := by
    intro d hd q hq hnew
    rcases List.mem_cons.mp hd with rfl | hd
    · cases hq
      exact ⟨rfl, hmoved⟩
    · have hold := hstale d hd (by simp [hq])
      simp only at hnew
      omega
  ack_lt := h.ack_lt
  ack_le := h.ack_le
  acks_mono := h.acks_mono
  ack_newer := h.ack_newer
  unacked := by
    intro heq
    simp only at heq
    omega

/-- A new payload is sent when the last one has been acknowledged. -/
theorem inv_sendFresh {s : Stream α} (h : Inv s) (p : α) (idle : s.acked = s.moved.length) :
    Inv { s with
      moved := s.moved ++ [p], lastSend := s.nextSeq, nextSeq := s.nextSeq + 1,
      data := ⟨s.nextSeq, some p⟩ :: s.data } := by
  have heq := h.taken_of_acked idle
  apply inv_sendPayload h (by rw [heq]) (by rw [idle, heq])
  intro d hd hp
  by_contra hnew
  obtain ⟨q, hq⟩ := Option.ne_none_iff_exists'.mp hp
  have hmore := congrArg List.length (h.fresh d hd q hq (by omega)).2
  rw [heq] at hmore
  simp at hmore

/-- A payload is sent again once a later packet has been acknowledged without it. -/
theorem inv_resend {s : Stream α} (h : Inv s) {p : α} (held : s.moved.getLast? = some p)
    (waiting : s.acked < s.moved.length) (overtaken : s.lastSend < s.ackSeq) :
    Inv { s with
      lastSend := s.nextSeq, nextSeq := s.nextSeq + 1,
      data := ⟨s.nextSeq, some p⟩ :: s.data } := by
  have heq := h.missing_of_overtaken held waiting overtaken
  have hlen := congrArg List.length heq
  simp only [List.length_append, List.length_singleton] at hlen
  have hle := h.acked_le
  have hmoved := h.moved_le
  apply inv_sendPayload h heq (by omega)
  intro d hd hp
  have := h.payload_le d hd hp
  have := h.ackSeq_le
  omega

/-- An acknowledgement says what has been received so far. -/
theorem inv_sendAck {s : Stream α} (h : Inv s) :
    Inv { s with
      ackNext := s.ackNext + 1,
      acks := ⟨s.ackNext, s.recvSeq, s.taken.length⟩ :: s.acks } where
  outstanding := h.outstanding
  acked_le := h.acked_le
  moved_le := h.moved_le
  lastSend_lt := h.lastSend_lt
  recvSeq_lt := h.recvSeq_lt
  ackSeq_le := h.ackSeq_le
  ackRecv_lt := Nat.lt_succ_of_lt h.ackRecv_lt
  data_lt := h.data_lt
  payload_le := h.payload_le
  fresh := h.fresh
  ack_lt := by
    intro a ha
    rcases List.mem_cons.mp ha with rfl | ha
    · exact Nat.lt_succ_self _
    · exact Nat.lt_succ_of_lt (h.ack_lt a ha)
  ack_le := by
    intro a ha
    rcases List.mem_cons.mp ha with rfl | ha
    · exact ⟨Nat.le_refl _, Nat.le_refl _⟩
    · exact h.ack_le a ha
  acks_mono := by
    intro a ha b hb hlt
    rcases List.mem_cons.mp ha with rfl | ha
    · rcases List.mem_cons.mp hb with rfl | hb
      · exact ⟨Nat.le_refl _, Nat.le_refl _⟩
      · have := h.ack_lt b hb
        simp only at hlt
        omega
    · rcases List.mem_cons.mp hb with rfl | hb
      · exact h.ack_le a ha
      · exact h.acks_mono a ha b hb hlt
  ack_newer := by
    intro a ha hnew
    rcases List.mem_cons.mp ha with rfl | ha
    · exact ⟨h.ackSeq_le, h.acked_le⟩
    · exact h.ack_newer a ha hnew
  unacked := by
    intro heq
    obtain ⟨hseq, hacks⟩ := h.unacked heq
    refine ⟨hseq, ?_⟩
    intro a ha ht
    rcases List.mem_cons.mp ha with rfl | ha
    · simp only at ht heq
      omega
    · exact hacks a ha ht

/-- A packet that is newer than the last one is taken with what it carries. -/
theorem inv_receive {s : Stream α} (h : Inv s) {d : Datum α} (flying : d ∈ s.data)
    (newer : s.recvSeq < d.seq) :
    Inv { s with recvSeq := d.seq, taken := s.taken ++ d.payload.toList } := by
  cases hd : d.payload with
  | none =>
    simp only [Option.toList_none, List.append_nil]
    exact {
      outstanding := h.outstanding
      acked_le := h.acked_le
      moved_le := h.moved_le
      lastSend_lt := h.lastSend_lt
      recvSeq_lt := h.data_lt d flying
      ackSeq_le := Nat.le_trans h.ackSeq_le (Nat.le_of_lt newer)
      ackRecv_lt := h.ackRecv_lt
      data_lt := h.data_lt
      payload_le := h.payload_le
      fresh := fun e he p hp hnew => h.fresh e he p hp (Nat.lt_trans newer hnew)
      ack_lt := h.ack_lt
      ack_le := fun a ha =>
        ⟨Nat.le_trans (h.ack_le a ha).1 (Nat.le_of_lt newer), (h.ack_le a ha).2⟩
      acks_mono := h.acks_mono
      ack_newer := h.ack_newer
      unacked := h.unacked }
  | some p =>
    obtain ⟨hseq, heq⟩ := h.fresh d flying p hd newer
    have hlen := congrArg List.length heq
    simp only [List.length_append, List.length_singleton] at hlen
    have hle := h.acked_le
    have hmoved := h.moved_le
    simp only [Option.toList_some]
    exact {
      outstanding := Or.inl heq
      acked_le := by
        simp only [List.length_append, List.length_singleton]
        omega
      moved_le := h.moved_le
      lastSend_lt := h.lastSend_lt
      recvSeq_lt := h.data_lt d flying
      ackSeq_le := Nat.le_trans h.ackSeq_le (Nat.le_of_lt newer)
      ackRecv_lt := h.ackRecv_lt
      data_lt := h.data_lt
      payload_le := h.payload_le
      fresh := by
        intro e he q hq hnew
        have := h.payload_le e he (by simp [hq])
        simp only at hnew
        omega
      ack_lt := h.ack_lt
      ack_le := by
        intro a ha
        have := h.ack_le a ha
        simp only [List.length_append, List.length_singleton]
        omega
      acks_mono := h.acks_mono
      ack_newer := h.ack_newer
      unacked := by
        intro _
        have hack := h.ackSeq_le
        refine ⟨by simp only; omega, ?_⟩
        intro a ha _
        have := (h.ack_le a ha).1
        simp only
        omega }

/-- A newer acknowledgement replaces what the sender knows. -/
theorem inv_receiveAck {s : Stream α} (h : Inv s) {a : Ack} (flying : a ∈ s.acks)
    (newer : s.ackRecv < a.seq) :
    Inv { s with ackRecv := a.seq, ackSeq := a.received, acked := a.taken } where
  outstanding := h.outstanding
  acked_le := (h.ack_le a flying).2
  moved_le := by
    have := (h.ack_newer a flying newer).2
    have := h.moved_le
    simp only
    omega
  lastSend_lt := h.lastSend_lt
  recvSeq_lt := h.recvSeq_lt
  ackSeq_le := (h.ack_le a flying).1
  ackRecv_lt := h.ack_lt a flying
  data_lt := h.data_lt
  payload_le := h.payload_le
  fresh := h.fresh
  ack_lt := h.ack_lt
  ack_le := h.ack_le
  acks_mono := h.acks_mono
  ack_newer := fun b hb hnew => h.acks_mono a flying b hb hnew
  unacked := by
    intro heq
    have hge := (h.ack_newer a flying newer).2
    have hmoved := h.moved_le
    have htaken : s.taken.length ≤ s.moved.length := by
      rcases h.outstanding with hout | ⟨p, hout⟩
      · exact Nat.le_of_eq (by rw [hout])
      · simp [hout]
    have hsame : a.taken = s.acked := by
      simp only at heq
      omega
    obtain ⟨_, hacks⟩ := h.unacked (by simp only at heq; omega)
    refine ⟨hacks a flying hsame, ?_⟩
    intro b hb ht
    exact hacks b hb (ht.trans hsame)

/-- Every step keeps the invariant. -/
theorem inv_step {s t : Stream α} (h : Inv s) (hstep : Step s t) : Inv t := by
  cases hstep with
  | sendPlain => exact inv_sendPlain h
  | sendFresh p idle => exact inv_sendFresh h p idle
  | resend p held waiting overtaken => exact inv_resend h held waiting overtaken
  | sendAck => exact inv_sendAck h
  | receive d flying newer => exact inv_receive h flying newer
  | receiveAck a flying newer => exact inv_receiveAck h flying newer

/-- The invariant holds in every state of every run. -/
theorem inv_reachable {s : Stream α} (h : Reachable s) : Inv s := by
  induction h with
  | refl => exact inv_init
  | tail _ hstep ih => exact inv_step ih hstep

/-- Delivery is in order, without gaps or repetitions, and at most one behind. -/
theorem Inv.delivered {s : Stream α} (h : Inv s) :
    s.taken <+: s.moved ∧ s.moved.length ≤ s.taken.length + 1 := by
  rcases h.outstanding with heq | ⟨p, heq⟩
  · rw [heq]
    exact ⟨List.prefix_refl _, Nat.le_succ _⟩
  · rw [heq]
    exact ⟨List.prefix_append _ _, by simp⟩

/-- An acknowledgement that counts everything moved finds everything taken. -/
theorem Inv.taken_of_ack {s : Stream α} (h : Inv s) {a : Ack} (flying : a ∈ s.acks)
    (hall : a.taken = s.moved.length) : s.taken = s.moved := by
  obtain ⟨hpre, _⟩ := h.delivered
  have := (h.ack_le a flying).2
  exact hpre.eq_of_length_le (by omega)

end AckedStream
