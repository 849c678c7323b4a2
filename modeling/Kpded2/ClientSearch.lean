import Mathlib.Data.Nat.Find
import Mathlib.Logic.Function.Basic
import Mathlib.Tactic.Common

/-!
# The client that a packet is from

`SV_ReadPackets` goes through the clients with a counter and a pointer. A packet with the qport of
one client and the address of another moves the pointer to the other, and the counter stays.
-/
namespace ClientSearch

def csFree : Nat := 0
def csZombie : Nat := 1

/-- `full` is a message list that a warning to the client would overflow. -/
structure Client where
  state : Nat
  ip : UInt32
  port : UInt16
  qport : UInt16
  overflowed : Bool
  full : Bool

structure Packet where
  ip : UInt32
  port : UInt16
  qport : UInt16

abbrev Clients := Nat → Client

/-- What the search leaves, and the client whose `Netchan_Process` is called. -/
structure Found where
  clients : Clients
  consumer : Option Nat

/-- `NET_CompareAdr` with a client that is in use. -/
def sender (p : Packet) (c : Client) : Bool := c.state > csZombie && c.ip == p.ip && c.port == p.port

/-- The tests at the top of the loop. -/
def matching (p : Packet) (c : Client) : Bool :=
  c.state != csFree && c.ip == p.ip && c.qport == p.qport

def findTest (maxclients : Nat) (p : Packet) (clients : Clients) (cl : Nat) : Option Nat :=
  (List.range maxclients).find? fun test => test != cl && sender p (clients test)

/-- The client once the warning has been queued. -/
def warned (c : Client) : Client := { c with overflowed := c.overflowed || c.full }

/-- The loop with `n` rounds to go; it fails if it reads behind the clients. -/
def readPacket (maxclients : Nat) (p : Packet) : Nat → Nat → Clients → Option Found
  | 0, _, clients => some ⟨clients, none⟩
  | n + 1, cl, clients =>
    if cl ≥ maxclients then none
    else if matching p (clients cl) = false then readPacket maxclients p n (cl + 1) clients
    else if (clients cl).port ≠ p.port then
      match findTest maxclients p clients cl with
      | some test =>
        let clients := Function.update clients test (warned (clients test))
        if (clients test).overflowed then readPacket maxclients p n (test + 1) clients
        else some ⟨clients, some test⟩
      | none =>
        if (clients cl).state = csZombie then
          let cleaned := { clients cl with state := csFree }
          readPacket maxclients p n (cl + 1) (Function.update clients cl cleaned)
        else
          let clients := Function.update clients cl { clients cl with port := p.port }
          if (clients cl).overflowed then readPacket maxclients p n (cl + 1) clients
          else some ⟨clients, some cl⟩
    else if (clients cl).overflowed then readPacket maxclients p n (cl + 1) clients
    else some ⟨clients, some cl⟩

def svReadPackets (maxclients : Nat) (p : Packet) (clients : Clients) : Option Found :=
  readPacket maxclients p maxclients 0 clients

/-! ## Where the search stops -/

variable {maxclients : Nat} {p : Packet} {clients : Clients}

/-- A client that the search does not pass by. -/
def hit (p : Packet) (c : Client) : Bool := matching p c && (c.port != p.port || !c.overflowed)

/-- The first client from `start` on of a kind. -/
structure First (maxclients : Nat) (kind : Client → Bool) (clients : Clients) (start i : Nat) :
    Prop where
  bound : i < maxclients
  behind : start ≤ i
  here : kind (clients i) = true
  before : ∀ j, start ≤ j → j < i → kind (clients j) = false

theorem First.unique {kind : Client → Bool} {start i j : Nat}
    (hi : First maxclients kind clients start i) (hj : First maxclients kind clients start j) :
    i = j := by
  rcases Nat.lt_trichotomy i j with lt | eq | gt
  · exact absurd hi.here (Bool.eq_false_iff.mp (hj.before i hi.behind lt))
  · exact eq
  · exact absurd hj.here (Bool.eq_false_iff.mp (hi.before j hj.behind gt))

theorem first_or_none (maxclients : Nat) (kind : Client → Bool) (clients : Clients) (start : Nat) :
    (∃ i, First maxclients kind clients start i) ∨
      ∀ i, start ≤ i → i < maxclients → kind (clients i) = false := by
  by_cases any : ∃ i, start ≤ i ∧ i < maxclients ∧ kind (clients i) = true
  · obtain ⟨behind, bound, here⟩ := Nat.find_spec any
    refine .inl ⟨Nat.find any, bound, behind, here, fun j from_start below => ?_⟩
    have least := Nat.find_min any below
    exact Bool.eq_false_iff.mpr fun this =>
      least ⟨from_start, Nat.lt_trans below bound, this⟩
  · exact .inr fun i behind bound => Bool.eq_false_iff.mpr fun here => any ⟨i, behind, bound, here⟩

/-- The first client with the address of the packet is the one the warning goes to. -/
theorem findTest_eq {cl e : Nat} (first : First maxclients (sender p) clients 0 e)
    (other : (clients cl).port ≠ p.port) : findTest maxclients p clients cl = some e := by
  have apart : e ≠ cl := by
    rintro rfl
    have here := first.here
    simp only [sender, Bool.and_eq_true, beq_iff_eq] at here
    exact other here.2
  simp only [findTest]
  rw [List.find?_range_eq_some]
  refine ⟨?_, List.mem_range.mpr first.bound, fun j below => ?_⟩
  · rw [first.here, Bool.and_true]
    exact bne_iff_ne.mpr apart
  · rw [first.before j (Nat.zero_le j) below, Bool.and_false]
    rfl

/-- A client that is no hit is passed by. -/
theorem readPacket_skip {n cl : Nat} (bound : cl < maxclients) (miss : hit p (clients cl) = false) :
    readPacket maxclients p (n + 1) cl clients = readPacket maxclients p n (cl + 1) clients := by
  simp only [readPacket, if_neg (Nat.not_le.mpr bound)]
  cases found : matching p (clients cl) with
  | false => exact if_pos rfl
  | true =>
    simp only [hit, found, Bool.true_and, Bool.or_eq_false_iff, bne_eq_false_iff_eq,
      Bool.not_eq_false'] at miss
    rw [if_neg (by simp), if_neg (not_not.mpr miss.1), if_pos miss.2]

theorem readPacket_skips {n m cl : Nat} (bound : cl + m ≤ maxclients)
    (miss : ∀ j, cl ≤ j → j < cl + m → hit p (clients j) = false) :
    readPacket maxclients p (n + m) cl clients = readPacket maxclients p n (cl + m) clients := by
  induction m generalizing cl with
  | zero => rfl
  | succ m ih =>
    rw [show n + (m + 1) = n + m + 1 by omega,
      readPacket_skip (by omega) (miss cl (Nat.le_refl cl) (by omega)),
      ih (by omega) fun j above below => miss j (by omega) (by omega)]
    congr 1
    omega

/-- A hit that has the port of the packet gets it. -/
theorem readPacket_answer {n cl : Nat} (bound : cl < maxclients) (found : hit p (clients cl) = true)
    (port : (clients cl).port = p.port) :
    readPacket maxclients p (n + 1) cl clients = some ⟨clients, some cl⟩ := by
  simp only [hit, Bool.and_eq_true, Bool.or_eq_true, bne_iff_ne, ne_eq, port, not_true_eq_false,
    false_or, Bool.not_eq_true'] at found
  simp only [readPacket, if_neg (Nat.not_le.mpr bound), found.1, found.2, port]
  simp

/-- The warning to the first client with the address of the packet. -/
def warnFirst (clients : Clients) (e : Nat) : Clients :=
  Function.update clients e (warned (clients e))

theorem readPacket_jump {n cl e : Nat} (bound : cl < maxclients) (found : hit p (clients cl) = true)
    (other : (clients cl).port ≠ p.port) (test : findTest maxclients p clients cl = some e) :
    readPacket maxclients p (n + 1) cl clients =
      if (warned (clients e)).overflowed then readPacket maxclients p n (e + 1) (warnFirst clients e)
      else some ⟨warnFirst clients e, some e⟩ := by
  simp only [hit, Bool.and_eq_true] at found
  simp only [readPacket, if_neg (Nat.not_le.mpr bound), found.1, if_pos other, test,
    Function.update_self, warnFirst]
  simp

theorem readPacket_fixUp {n cl : Nat} (bound : cl < maxclients) (found : hit p (clients cl) = true)
    (other : (clients cl).port ≠ p.port) (test : findTest maxclients p clients cl = none) :
    readPacket maxclients p (n + 1) cl clients =
      if (clients cl).state = csZombie then
        readPacket maxclients p n (cl + 1)
          (Function.update clients cl { clients cl with state := csFree })
      else if (clients cl).overflowed then
        readPacket maxclients p n (cl + 1)
          (Function.update clients cl { clients cl with port := p.port })
      else some ⟨Function.update clients cl { clients cl with port := p.port }, some cl⟩ := by
  simp only [hit, Bool.and_eq_true] at found
  simp only [readPacket, if_neg (Nat.not_le.mpr bound), found.1, if_pos other, test,
    Function.update_self]
  simp

theorem findTest_none {cl i : Nat} (test : findTest maxclients p clients cl = none)
    (other : (clients cl).port ≠ p.port) (bound : i < maxclients) :
    sender p (clients i) = false := by
  by_cases here : i = cl
  · subst here
    simp only [sender, beq_false_of_ne other, Bool.and_false]
  · have absent := List.find?_eq_none.mp test i (List.mem_range.mpr bound)
    rw [bne_iff_ne.mpr here, Bool.true_and] at absent
    exact Bool.eq_false_iff.mpr absent

theorem warned_of_overflowed {c : Client} (excess : c.overflowed = true) : warned c = c := by
  cases c
  simp only at excess
  simp only [warned, excess, Bool.true_or]

theorem sender_warned (c : Client) : sender p (warned c) = sender p c := rfl

theorem warnFirst_sender (e i : Nat) :
    sender p (warnFirst clients e i) = sender p (clients i) := by
  by_cases here : i = e
  · rw [here, warnFirst, Function.update_self, sender_warned]
  · rw [warnFirst, Function.update_of_ne here]

theorem warnFirst_of_ne {e i : Nat} (other : i ≠ e) : warnFirst clients e i = clients i :=
  Function.update_of_ne other _ _

theorem warnFirst_port (e i : Nat) : (warnFirst clients e i).port = (clients i).port := by
  by_cases here : i = e
  · rw [here, warnFirst, Function.update_self]
    rfl
  · rw [warnFirst_of_ne here]

/-- Between an overflowed client and one behind it with another port the search goes round until the
counter has run out. -/
theorem readPacket_cycle {e k : Nat} (first : First maxclients (sender p) clients 0 e)
    (excess : (clients e).overflowed = true) (next : First maxclients (hit p) clients (e + 1) k)
    (other : (clients k).port ≠ p.port) (n : Nat) :
    readPacket maxclients p n (e + 1) clients = some ⟨clients, none⟩ := by
  induction n using Nat.strong_induction_on with
  | _ n ih =>
    have behind := next.behind
    by_cases short : n ≤ k - (e + 1)
    · have skips := @readPacket_skips maxclients p clients 0 n (e + 1)
        (Nat.le_trans (by omega) (Nat.le_of_lt next.bound))
        fun j above below => next.before j above (by omega)
      rw [Nat.zero_add] at skips
      rw [skips]
      rfl
    · obtain ⟨m, rfl⟩ := Nat.exists_eq_add_of_lt (Nat.not_le.mp short)
      have skips := @readPacket_skips maxclients p clients (m + 1) (k - (e + 1)) (e + 1)
        (Nat.le_trans (by omega) (Nat.le_of_lt next.bound))
        fun j above below => next.before j above (by omega)
      rw [show k - (e + 1) + m + 1 = m + 1 + (k - (e + 1)) by omega, skips,
        show e + 1 + (k - (e + 1)) = k by omega,
        readPacket_jump next.bound next.here other (findTest_eq first other),
        warned_of_overflowed excess, if_pos excess]
      have same : warnFirst clients e = clients := by
        rw [warnFirst, warned_of_overflowed excess, Function.update_eq_self]
      rw [same]
      exact ih m (by omega)

/-! ## No client with the address -/

/-- What the search keeps of the clients it has seen. -/
def Kept (before now : Clients) : Prop :=
  ∀ i, (now i).ip = (before i).ip ∧ ((now i).state ≠ csFree → (before i).state ≠ csFree)

def Consumed (maxclients : Nat) (p : Packet) (before : Clients) (consumer : Option Nat) : Prop :=
  ∀ c, consumer = some c →
    c < maxclients ∧ (before c).state ≠ csFree ∧ (before c).ip = p.ip

theorem Kept.update {before now : Clients} (h : Kept before now) (i : Nat) {c : Client}
    (ip : c.ip = (now i).ip) (state : c.state ≠ csFree → (now i).state ≠ csFree) :
    Kept before (Function.update now i c) := by
  intro j
  by_cases here : j = i
  · subst here
    rw [Function.update_self]
    exact ⟨ip.trans (h j).1, fun used => (h j).2 (state used)⟩
  · rw [Function.update_of_ne here]
    exact h j

theorem consumed_of_kept {before now : Clients} (h : Kept before now) {cl : Nat}
    (bound : cl < maxclients) (found : hit p (now cl) = true) :
    Consumed maxclients p before (some cl) := by
  intro c consumer
  obtain rfl := Option.some.inj consumer
  simp only [hit, matching, Bool.and_eq_true, bne_iff_ne, beq_iff_eq] at found
  exact ⟨bound, (h cl).2 found.1.1.1, (h cl).1.symm.trans found.1.1.2⟩

/-- At most one client gets the address of the packet during the search, and the pointer never
moves forward to it. -/
theorem readPacket_alone {n cl : Nat} {before now : Clients} (bound : cl + n ≤ maxclients)
    (kept : Kept before now)
    (sole : ∀ i < maxclients, sender p (now i) = true → i < cl ∧
      ∀ j < maxclients, sender p (now j) = true → j = i) :
    ∃ found, readPacket maxclients p n cl now = some found ∧
      Consumed maxclients p before found.consumer := by
  induction n generalizing cl now with
  | zero => exact ⟨_, rfl, fun c consumer => by cases consumer⟩
  | succ n ih =>
    have inside : cl < maxclients := by omega
    have later : ∀ i < maxclients, sender p (now i) = true → i < cl + 1 ∧
        ∀ j < maxclients, sender p (now j) = true → j = i := fun i hi here =>
      ⟨Nat.lt_succ_of_lt (sole i hi here).1, (sole i hi here).2⟩
    cases found : hit p (now cl) with
    | false =>
      rw [readPacket_skip inside found]
      exact ih (by omega) kept later
    | true =>
      by_cases port : (now cl).port = p.port
      · rw [readPacket_answer inside found port]
        exact ⟨_, rfl, consumed_of_kept kept inside found⟩
      cases test : findTest maxclients p now cl with
      | some e =>
        have entry := List.find?_some test
        rw [Bool.and_eq_true] at entry
        have he : e < maxclients := List.mem_range.mp (List.mem_of_find?_eq_some test)
        obtain ⟨below, one⟩ := sole e he entry.2
        rw [readPacket_jump inside found port test]
        split
        · refine ih (by omega) (kept.update e rfl fun used => used) fun i hi here => ?_
          have equal := one i hi ((warnFirst_sender e i).symm.trans here)
          refine ⟨by omega, fun j hj there => ?_⟩
          rw [equal]
          exact one j hj ((warnFirst_sender e j).symm.trans there)
        · refine ⟨_, rfl, fun c consumer => ?_⟩
          obtain rfl := Option.some.inj consumer
          have used := entry.2
          simp only [sender, Bool.and_eq_true, decide_eq_true_eq, beq_iff_eq] at used
          refine ⟨he, (kept e).2 ?_, (kept e).1.symm.trans used.1.2⟩
          intro free
          rw [free] at used
          exact absurd used.1.1 (by decide)
      | none =>
        have absent : ∀ i < maxclients, sender p (now i) = false :=
          fun i hi => findTest_none test port hi
        have changed : ∀ c : Client, ∀ i < maxclients,
            sender p (Function.update now cl c i) = true → i = cl := by
          intro c i hi here
          by_contra other
          rw [Function.update_of_ne other, absent i hi] at here
          exact Bool.false_ne_true here
        have once : ∀ c : Client, ∀ i < maxclients,
            sender p (Function.update now cl c i) = true → i < cl + 1 ∧
              ∀ j < maxclients, sender p (Function.update now cl c j) = true → j = i := by
          intro c i hi here
          have equal := changed c i hi here
          exact ⟨by omega, fun j hj there => (changed c j hj there).trans equal.symm⟩
        rw [readPacket_fixUp inside found port test]
        split
        · exact ih (by omega) (kept.update cl rfl fun used => absurd rfl used) (once _)
        split
        · exact ih (by omega) (kept.update cl rfl fun used => used) (once _)
        · exact ⟨_, rfl, consumed_of_kept kept inside found⟩

/-! ## A client with the address -/

/-- The search reads no other memory, hands the packet to at most one client, which is in use and
has its base address, and does nothing to others if a client has its address. -/
def Sound (maxclients : Nat) (p : Packet) (clients : Clients) : Prop :=
  ∃ found, svReadPackets maxclients p clients = some found ∧
    Consumed maxclients p clients found.consumer ∧
    ∀ x < maxclients, sender p (clients x) = true →
      (∀ c, found.consumer = some c → c = x) ∧
      ∀ y < maxclients, y ≠ x → (found.clients y).port = (clients y).port

/-- The only client that has the address is `i`. -/
def Only (maxclients : Nat) (p : Packet) (clients : Clients) (i : Nat) : Prop :=
  ∀ x < maxclients, sender p (clients x) = true → x = i

/-- Where the search ends well: at a first hit `j` with the port of the packet that is the only
client with its address, or at the only client with its address; or nowhere, because the first client
`e` with the address is overflowed and in front of `j`, or in front of another hit with another
port. -/
def EndsWell (maxclients : Nat) (p : Packet) (clients : Clients) (j : Nat) : Prop :=
  ((clients j).port = p.port ∧ Only maxclients p clients j) ∨
  ((clients j).port ≠ p.port ∧ ∃ e, First maxclients (sender p) clients 0 e ∧
    (((warned (clients e)).overflowed = false ∧ Only maxclients p clients e) ∨
     ((warned (clients e)).overflowed = true ∧
      (e < j ∨ ∃ k, First maxclients (hit p) clients (e + 1) k ∧ (clients k).port ≠ p.port))))

theorem sound_of_nothing {after : Clients}
    (run : svReadPackets maxclients p clients = some ⟨after, none⟩)
    (ports : ∀ y < maxclients, (after y).port = (clients y).port) : Sound maxclients p clients := by
  refine ⟨⟨after, none⟩, run, ?_, fun x _ _ => ⟨?_, fun y bound _ => ports y bound⟩⟩
  · intro c consumer
    cases consumer
  · intro c consumer
    cases consumer

/-- Where the search has ended at a client, it is sound if and only if no other client has the address. -/
theorem sound_of_consumer {after : Clients} {c : Nat}
    (run : svReadPackets maxclients p clients = some ⟨after, some c⟩)
    (consumed : Consumed maxclients p clients (some c))
    (ports : ∀ y < maxclients, (after y).port = (clients y).port) :
    Sound maxclients p clients ↔ Only maxclients p clients c := by
  constructor
  · rintro ⟨found, run', -, right⟩ x bound here
    obtain rfl := Option.some.inj (run.symm.trans run')
    exact ((right x bound here).1 c rfl).symm
  · intro only
    refine ⟨⟨after, some c⟩, run, consumed, fun x bound here => ⟨?_, fun y hy _ => ports y hy⟩⟩
    intro c' consumer
    obtain rfl := Option.some.inj consumer
    exact (only x bound here).symm

theorem svReadPackets_none (absent : ∀ x < maxclients, sender p (clients x) = false) :
    Sound maxclients p clients := by
  obtain ⟨found, run, consumed⟩ := @readPacket_alone maxclients p maxclients 0 clients clients
    (by omega) (fun i => ⟨rfl, id⟩)
    (fun i hi here => absurd (here.symm.trans (absent i hi)) (by decide))
  exact ⟨found, run, consumed, fun x hx here => absurd (here.symm.trans (absent x hx)) (by decide)⟩

theorem svReadPackets_noHit (miss : ∀ i, 0 ≤ i → i < maxclients → hit p (clients i) = false) :
    Sound maxclients p clients := by
  have skips := @readPacket_skips maxclients p clients 0 maxclients 0 (by omega)
    fun j above below => miss j above (by omega)
  rw [Nat.zero_add] at skips
  exact sound_of_nothing skips fun _ _ => rfl

/-- The search up to the first hit. -/
theorem svReadPackets_first {j : Nat} (first : First maxclients (hit p) clients 0 j) :
    svReadPackets maxclients p clients =
      readPacket maxclients p (maxclients - j - 1 + 1) j clients := by
  have bound := first.bound
  have skips := @readPacket_skips maxclients p clients (maxclients - j) j 0 (by omega)
    fun i above below => first.before i above (by omega)
  rw [svReadPackets, show maxclients - j - 1 + 1 = maxclients - j by omega]
  rw [Nat.zero_add, show maxclients - j + j = maxclients by omega] at skips
  exact skips

theorem consumed_of_sender {e : Nat} (bound : e < maxclients)
    (here : sender p (clients e) = true) : Consumed maxclients p clients (some e) := by
  intro c consumer
  obtain rfl := Option.some.inj consumer
  simp only [sender, Bool.and_eq_true, decide_eq_true_eq, beq_iff_eq] at here
  refine ⟨bound, fun free => ?_, here.1.2⟩
  rw [free] at here
  exact absurd here.1.1 (by decide)

theorem warnFirst_hit {e i : Nat} (other : i ≠ e) :
    hit p (warnFirst clients e i) = hit p (clients i) := by
  rw [warnFirst_of_ne other]

theorem First.warned {e start i : Nat} (first : First maxclients (hit p) clients start i)
    (behind : e < start) : First maxclients (hit p) (warnFirst clients e) start i := by
  refine ⟨first.bound, first.behind, ?_, fun j above below => ?_⟩
  · rw [warnFirst_hit (by have := first.behind; omega)]
    exact first.here
  · rw [warnFirst_hit (by omega)]
    exact first.before j above below

theorem First.sender_warned {e i : Nat} (first : First maxclients (sender p) clients 0 i) :
    First maxclients (sender p) (warnFirst clients e) 0 i :=
  ⟨first.bound, first.behind, (warnFirst_sender e i).trans first.here,
    fun j above below => (warnFirst_sender e j).trans (first.before j above below)⟩

/-- What follows a jump to an overflowed client. -/
theorem sound_of_overflowed {j e : Nat} (first : First maxclients (hit p) clients 0 j)
    (other : (clients j).port ≠ p.port) (address : First maxclients (sender p) clients 0 e)
    (excess : (warned (clients e)).overflowed = true) :
    Sound maxclients p clients ↔
      e < j ∨ ∃ k, First maxclients (hit p) clients (e + 1) k ∧ (clients k).port ≠ p.port := by
  have apart : e ≠ j := by
    rintro rfl
    have here := address.here
    simp only [sender, Bool.and_eq_true, beq_iff_eq] at here
    exact other here.2
  have bound := first.bound
  have run : svReadPackets maxclients p clients =
      readPacket maxclients p (maxclients - j - 1) (e + 1) (warnFirst clients e) := by
    rw [svReadPackets_first first,
      readPacket_jump bound first.here other (findTest_eq address other), if_pos excess]
  have excess' : (warnFirst clients e e).overflowed = true := by
    rw [warnFirst, Function.update_self]
    exact excess
  have cycle : ∀ k, First maxclients (hit p) clients (e + 1) k → (clients k).port ≠ p.port →
      Sound maxclients p clients := by
    intro k next port
    have behind := next.behind
    have port' : (warnFirst clients e k).port ≠ p.port := by
      rw [warnFirst_port]
      exact port
    have ends := readPacket_cycle address.sender_warned excess' (next.warned (Nat.lt_succ_self e))
      port' (maxclients - j - 1)
    exact sound_of_nothing (run.trans ends) fun y _ => warnFirst_port e y
  constructor
  · intro sound
    by_contra bad
    rw [not_or] at bad
    have ahead : j < e := by omega
    rcases first_or_none maxclients (hit p) clients (e + 1) with ⟨k, next⟩ | nothing
    · -- the hit behind `e` has the port of the packet and gets it
      have port : (clients k).port = p.port := by
        by_contra port
        exact bad.2 ⟨k, next, port⟩
      have behind := next.behind
      have kBound := next.bound
      have next' := next.warned (Nat.lt_succ_self e)
      have skips := @readPacket_skips maxclients p (warnFirst clients e)
        (maxclients - j - 1 - (k - (e + 1)) - 1 + 1) (k - (e + 1)) (e + 1) (by omega)
        fun i above below => next'.before i above (by omega)
      rw [show maxclients - j - 1 - (k - (e + 1)) - 1 + 1 + (k - (e + 1)) = maxclients - j - 1 by omega,
        show e + 1 + (k - (e + 1)) = k by omega,
        readPacket_answer kBound next'.here ((warnFirst_port e k).trans port)] at skips
      obtain ⟨found, run', -, right⟩ := sound
      obtain rfl := Option.some.inj ((run.trans skips).symm.trans run')
      have equal := (right e address.bound address.here).1 k rfl
      omega
    · have eBound := address.bound
      have skips := @readPacket_skips maxclients p (warnFirst clients e) (e - j - 1 + 1)
        (maxclients - (e + 1)) (e + 1) (by omega) fun i above below => by
          rw [warnFirst_hit (by omega)]
          exact nothing i above (by omega)
      rw [show e - j - 1 + 1 + (maxclients - (e + 1)) = maxclients - j - 1 by omega,
        show e + 1 + (maxclients - (e + 1)) = maxclients by omega] at skips
      obtain ⟨found, run', -, -⟩ := sound
      rw [run, skips, readPacket, if_pos (Nat.le_refl maxclients)] at run'
      cases run'
  · rintro (below | ⟨k, next, port⟩)
    · refine cycle j ⟨first.bound, below, first.here, fun i above before => ?_⟩ other
      exact first.before i (Nat.zero_le i) before
    · exact cycle k next port

/-- The packet is handed on as it should be if and only if no client in use has its address, or no
client is a hit, or the first hit is one where the search ends well. -/
theorem svReadPackets_sound_iff (maxclients : Nat) (p : Packet) (clients : Clients) :
    Sound maxclients p clients ↔
      (∀ x < maxclients, sender p (clients x) = false) ∨
      (∀ i < maxclients, hit p (clients i) = false) ∨
      ∃ j, First maxclients (hit p) clients 0 j ∧ EndsWell maxclients p clients j := by
  rcases first_or_none maxclients (sender p) clients 0 with ⟨e, address⟩ | absent
  swap
  · have absent : ∀ x < maxclients, sender p (clients x) = false :=
      fun x bound => absent x (Nat.zero_le x) bound
    exact iff_of_true (svReadPackets_none absent) (.inl absent)
  rcases first_or_none maxclients (hit p) clients 0 with ⟨j, first⟩ | miss
  swap
  · exact iff_of_true (svReadPackets_noHit miss)
      (.inr (.inl fun i bound => miss i (Nat.zero_le i) bound))
  have present : ¬∀ x < maxclients, sender p (clients x) = false := fun absent =>
    absurd (address.here.symm.trans (absent e address.bound)) (by decide)
  have hits : ¬∀ i < maxclients, hit p (clients i) = false := fun miss =>
    absurd (first.here.symm.trans (miss j first.bound)) (by decide)
  have unique : (∃ j, First maxclients (hit p) clients 0 j ∧ EndsWell maxclients p clients j) ↔
      EndsWell maxclients p clients j := by
    constructor
    · rintro ⟨j', first', ends⟩
      rw [first.unique first']
      exact ends
    · exact fun ends => ⟨j, first, ends⟩
  rw [or_iff_right present, or_iff_right hits, unique]
  by_cases port : (clients j).port = p.port
  · have run : svReadPackets maxclients p clients = some ⟨clients, some j⟩ := by
      rw [svReadPackets_first first, readPacket_answer first.bound first.here port]
    rw [sound_of_consumer run (consumed_of_kept (fun i => ⟨rfl, id⟩) first.bound first.here)
      fun _ _ => rfl]
    constructor
    · exact fun only => .inl ⟨port, only⟩
    · rintro (⟨-, only⟩ | ⟨other, -⟩)
      · exact only
      · exact absurd port other
  have ends : EndsWell maxclients p clients j ↔
      ((warned (clients e)).overflowed = false ∧ Only maxclients p clients e) ∨
      ((warned (clients e)).overflowed = true ∧
        (e < j ∨ ∃ k, First maxclients (hit p) clients (e + 1) k ∧ (clients k).port ≠ p.port)) := by
    constructor
    · rintro (⟨same, -⟩ | ⟨-, e', address', ends⟩)
      · exact absurd same port
      · rw [address.unique address']
        exact ends
    · exact fun ends => .inr ⟨port, e, address, ends⟩
  rw [ends]
  cases excess : (warned (clients e)).overflowed with
  | true =>
    rw [sound_of_overflowed first port address excess]
    simp
  | false =>
    have run : svReadPackets maxclients p clients = some ⟨warnFirst clients e, some e⟩ := by
      rw [svReadPackets_first first,
        readPacket_jump first.bound first.here port (findTest_eq address port), excess]
      rfl
    rw [sound_of_consumer run (consumed_of_sender address.bound address.here)
      fun y _ => warnFirst_port e y]
    simp

private def natPlayer (port : UInt16) (qport : UInt16) (overflowed : Bool) : Client :=
  ⟨4, 10, port, qport, overflowed, false⟩

/-- The second of two clients at one address is overflowed, and its packet has the qport of the
first: the search goes on behind the second. -/
theorem packet_reads_behind :
    svReadPackets 2 ⟨10, 2, 7⟩ (fun i => if i = 0 then natPlayer 1 7 false else natPlayer 2 9 true) =
      none := rfl

end ClientSearch
