import Mathlib.Logic.Function.Basic
import Kpded2.Userinfo

/-!
# The table of challenges

An address asks for a challenge and answers it when it connects. The table has one slot for each
address, and the oldest is given away when there is none left. A client of the program itself needs
no challenge.
-/
namespace ChallengeTable
open Userinfo (atoi)

def maxChallenges : Nat := 1024
def protocolOriginal : Int := 32

/-- `loopback` is the type of the address of a client within the program. -/
structure Netadr where
  ip : UInt32
  port : UInt16
  loopback : Bool

def compareBaseAdr (a b : Netadr) : Bool := a.ip == b.ip

structure Challenge where
  adr : Netadr
  challenge : Int
  time : UInt32

abbrev Table := Nat → Challenge

/-- `clients` are the challenges of the clients in use. -/
def challengeIsInUse (clients : List UInt32) (challenge : UInt32) : Bool :=
  challenge == 0 || clients.contains challenge

/-- The loop over the random numbers, which ends with one that is not in use. -/
def drawChallenge (clients : List UInt32) : List UInt32 → Option UInt32
  | [] => none
  | r :: draws =>
    if challengeIsInUse clients (r &&& 0x7FFFFFFF) then drawChallenge clients draws
    else some (r &&& 0x7FFFFFFF)

/-- The slot of the address if there is one, or else the oldest. -/
def search (table : Table) (adr : Netadr) (curtime : UInt32) :
    List Nat → Nat → UInt32 → Nat × Bool
  | [], oldest, _ => (oldest, false)
  | i :: slots, oldest, oldestTime =>
    if compareBaseAdr adr (table i).adr then (i, true)
    else if curtime - (table i).time > oldestTime then
      search table adr curtime slots i (curtime - (table i).time)
    else search table adr curtime slots oldest oldestTime

/-- The slot that is written, and the table. -/
def svcGetChallenge (adr : Netadr) (curtime : UInt32) (clients : List UInt32) (draws : List UInt32)
    (table : Table) : Option (Nat × Table) :=
  let (i, known) := search table adr curtime (List.range maxChallenges) 0 0
  (drawChallenge clients draws).map fun challenge =>
    (i, Function.update table i
      (if known then { table i with challenge := challenge.toNat, time := curtime }
        else ⟨adr, challenge.toNat, curtime⟩))

/-- Up to the end of the check, and whether it is passed. -/
def svcDirectConnect (adr : Netadr) (argv : Nat → List UInt8) (table : Table) : Bool × Table :=
  if atoi (argv 1) ≠ protocolOriginal then (false, table)
  else if adr.loopback then (true, table)
  else
    match (List.range maxChallenges).find? fun i =>
        (table i).challenge != 0 && compareBaseAdr adr (table i).adr with
    | none => (false, table)
    | some i =>
      if atoi (argv 3) = (table i).challenge then
        (true, Function.update table i { table i with challenge := 0 })
      else (false, table)

/-! ## Runs -/

inductive Packet
  | getchallenge (adr : Netadr) (curtime : UInt32) (clients : List UInt32) (draws : List UInt32)
  | connect (adr : Netadr) (argv : Nat → List UInt8)

inductive Event
  | handed (adr : Netadr) (challenge : Int)
  | admitted (adr : Netadr) (challenge : Int)

/-- `written` are the slots that hold an entry, and `history` has the last event first. -/
structure State where
  table : Table
  written : Nat → Bool
  history : List Event

def start : State where
  table _ := ⟨⟨0, 0, false⟩, 0, 0⟩
  written _ := false
  history := []

def step (s : State) : Packet → Option State
  | .getchallenge adr curtime clients draws =>
    (svcGetChallenge adr curtime clients draws s.table).map fun (i, table) =>
      { table
        written := Function.update s.written i true
        history := .handed adr (table i).challenge :: s.history }
  | .connect adr argv =>
    let (passed, table) := svcDirectConnect adr argv s.table
    some { s with
      table
      history := if passed then .admitted adr (atoi (argv 3)) :: s.history else s.history }

def run (packets : List Packet) : Option State := packets.foldlM step start

/-! ## Who answers what -/

/-- An event of the base address that has to do with the table. -/
def Event.concerns (ip : UInt32) : Event → Bool
  | .handed adr _ => adr.ip == ip
  | .admitted adr _ => !adr.loopback && adr.ip == ip

def latest (ip : UInt32) (history : List Event) : Option Event := history.find? (Event.concerns ip)

def Event.hands (ip : UInt32) (challenge : Int) : Event → Bool
  | .handed adr c => adr.ip == ip && c == challenge
  | .admitted _ _ => false

def Event.admits (ip : UInt32) (challenge : Int) : Event → Bool
  | .handed _ _ => false
  | .admitted adr c => !adr.loopback && adr.ip == ip && c == challenge

/-- The challenge is the last one that was handed to the address, and it is not answered yet. -/
def owed (ip : UInt32) (challenge : Int) (history : List Event) : Bool :=
  ((latest ip history).map (Event.hands ip challenge)).getD false

/-- Every connect answers a challenge that is owed. -/
def Answers : List Event → Prop
  | [] => True
  | .handed _ _ :: older => Answers older
  | .admitted adr challenge :: older =>
    (adr.loopback = false → owed adr.ip challenge older = true) ∧ Answers older

theorem owed_cons_of_concerns {ip : UInt32} {event : Event} (h : event.concerns ip = true)
    (challenge : Int) (history : List Event) :
    owed ip challenge (event :: history) = event.hands ip challenge := by
  simp only [owed, latest, List.find?_cons_of_pos h, Option.map_some, Option.getD_some]

theorem owed_cons_of_not_concerns {ip : UInt32} {event : Event} (h : event.concerns ip = false)
    (challenge : Int) (history : List Event) :
    owed ip challenge (event :: history) = owed ip challenge history := by
  simp only [owed, latest, List.find?_cons_of_neg (Bool.not_eq_true _ ▸ h)]

theorem hands_of_not_concerns {ip : UInt32} {event : Event} (h : event.concerns ip = false)
    (challenge : Int) : event.hands ip challenge = false ∧ event.admits ip challenge = false := by
  cases event with
  | handed adr c =>
    simp only [Event.concerns] at h
    simp only [Event.hands, Event.admits, h, Bool.false_and, and_self]
  | admitted adr c =>
    simp only [Event.concerns] at h
    simp only [Event.hands, Event.admits, h, Bool.false_and, and_self]

/-- No challenge is admitted more often than it was handed out. -/
theorem answers_counted {history : List Event} (h : Answers history) (ip : UInt32)
    (challenge : Int) :
    history.countP (Event.admits ip challenge) + (owed ip challenge history).toNat ≤
      history.countP (Event.hands ip challenge) := by
  induction history with
  | nil => exact Nat.le_refl 0
  | cons event older ih =>
    rw [List.countP_cons, List.countP_cons]
    cases concerns : event.concerns ip with
    | false =>
      have answers : Answers older := by
        cases event with
        | handed adr c => exact h
        | admitted adr c => exact h.2
      obtain ⟨hands, admits⟩ := hands_of_not_concerns concerns challenge
      rw [owed_cons_of_not_concerns concerns, hands, admits]
      exact ih answers
    | true =>
      rw [owed_cons_of_concerns concerns]
      cases event with
      | handed adr c =>
        have before := ih h
        simp only [Event.admits, Bool.false_eq_true, if_false]
        cases Event.hands ip challenge (.handed adr c) with
        | false => exact Nat.le_trans (Nat.le_add_right _ _) before
        | true => exact Nat.add_le_add_right (Nat.le_trans (Nat.le_add_right _ _) before) 1
      | admitted adr c =>
        have before := ih h.2
        simp only [Event.hands, Bool.false_eq_true, if_false]
        cases admits : Event.admits ip challenge (.admitted adr c) with
        | false => exact Nat.le_trans (Nat.le_add_right _ _) before
        | true =>
          simp only [Event.admits, Bool.and_eq_true, Bool.not_eq_true', beq_iff_eq] at admits
          obtain ⟨⟨remote, rfl⟩, rfl⟩ := admits
          rw [h.1 remote] at before
          exact before

/-! ## The loops -/

theorem drawChallenge_spec {clients draws : List UInt32} {challenge : UInt32}
    (h : drawChallenge clients draws = some challenge) : challenge ≠ 0 ∧ challenge ∉ clients := by
  induction draws with
  | nil => cases h
  | cons r draws ih =>
    simp only [drawChallenge] at h
    split at h
    · exact ih h
    · rename_i free
      cases h
      simp only [challengeIsInUse, Bool.or_eq_true, beq_iff_eq, List.contains_iff_mem, not_or] at free
      exact free

/-- What the search has seen of the slots before. -/
theorem search_spec {table : Table} {adr : Netadr} {curtime : UInt32} {slots : List Nat}
    {oldest : Nat} {oldestTime : UInt32} {i : Nat} {known : Bool}
    (h : search table adr curtime slots oldest oldestTime = (i, known)) :
    (known = true → ∃ before after, slots = before ++ i :: after ∧ (table i).adr.ip = adr.ip ∧
      ∀ j ∈ before, (table j).adr.ip ≠ adr.ip) ∧
    (known = false → (∀ j ∈ slots, (table j).adr.ip ≠ adr.ip) ∧
      (i = oldest ∧ (∀ j ∈ slots, curtime - (table j).time ≤ oldestTime) ∨
        i ∈ slots ∧ oldestTime < curtime - (table i).time ∧
          ∀ j ∈ slots, curtime - (table j).time ≤ curtime - (table i).time)) := by
  induction slots generalizing oldest oldestTime with
  | nil =>
    obtain ⟨rfl, rfl⟩ := Prod.mk.inj h
    exact ⟨fun known => absurd known Bool.false_ne_true, fun _ => ⟨fun j hj => absurd hj List.not_mem_nil,
      .inl ⟨rfl, fun j hj => absurd hj List.not_mem_nil⟩⟩⟩
  | cons first slots ih =>
    simp only [search] at h
    split at h
    · rename_i same
      obtain ⟨rfl, rfl⟩ := Prod.mk.inj h
      have same : adr.ip = (table first).adr.ip := beq_iff_eq.mp same
      exact ⟨fun _ => ⟨[], slots, rfl, same.symm, fun j hj => absurd hj List.not_mem_nil⟩,
        fun unknown => absurd unknown.symm Bool.false_ne_true⟩
    rename_i other
    have other : (table first).adr.ip ≠ adr.ip := fun same => other (beq_iff_eq.mpr same.symm)
    have found : ∀ {before after : List Nat}, slots = before ++ i :: after →
        (∀ j ∈ before, (table j).adr.ip ≠ adr.ip) →
        first :: slots = (first :: before) ++ i :: after ∧
          ∀ j ∈ first :: before, (table j).adr.ip ≠ adr.ip := by
      intro before after split others
      refine ⟨congrArg (first :: ·) split, fun j hj => ?_⟩
      rcases List.mem_cons.mp hj with rfl | hj
      · exact other
      · exact others j hj
    split at h
    · rename_i older
      obtain ⟨isKnown, unknown⟩ := ih h
      constructor
      · intro known
        obtain ⟨before, after, split, same, others⟩ := isKnown known
        obtain ⟨split, others⟩ := found split others
        exact ⟨first :: before, after, split, same, others⟩
      · intro new
        obtain ⟨others, age⟩ := unknown new
        refine ⟨List.forall_mem_cons.mpr ⟨other, others⟩, .inr ?_⟩
        rcases age with ⟨rfl, least⟩ | ⟨mem, more, least⟩
        · exact ⟨List.mem_cons_self, older, List.forall_mem_cons.mpr ⟨UInt32.le_refl _, least⟩⟩
        · exact ⟨List.mem_cons_of_mem _ mem, UInt32.lt_trans older more,
            List.forall_mem_cons.mpr ⟨UInt32.le_of_lt more, least⟩⟩
    · rename_i younger
      obtain ⟨isKnown, unknown⟩ := ih h
      constructor
      · intro known
        obtain ⟨before, after, split, same, others⟩ := isKnown known
        obtain ⟨split, others⟩ := found split others
        exact ⟨first :: before, after, split, same, others⟩
      · intro new
        obtain ⟨others, age⟩ := unknown new
        refine ⟨List.forall_mem_cons.mpr ⟨other, others⟩, ?_⟩
        rcases age with ⟨rfl, least⟩ | ⟨mem, more, least⟩
        · exact .inl ⟨rfl, List.forall_mem_cons.mpr ⟨UInt32.not_lt.mp younger, least⟩⟩
        · exact .inr ⟨List.mem_cons_of_mem _ mem, more,
            List.forall_mem_cons.mpr ⟨UInt32.le_trans (UInt32.not_lt.mp younger) (UInt32.le_of_lt more), least⟩⟩

theorem mem_front_of_range {n i j : Nat} {before after : List Nat}
    (split : List.range n = before ++ i :: after) (h : j < i) : j ∈ before := by
  have sorted : (List.range n).Pairwise (· < ·) := List.pairwise_lt_range
  rw [split] at sorted
  have mem : i ∈ List.range n := by
    rw [split]
    exact List.mem_append_right _ List.mem_cons_self
  have smaller : j ∈ List.range n := List.mem_range.mpr (Nat.lt_trans h (List.mem_range.mp mem))
  rw [split] at smaller
  rcases List.mem_append.mp smaller with front | behind
  · exact front
  · rcases List.mem_cons.mp behind with rfl | behind
    · exact absurd h (Nat.lt_irrefl j)
    · have above := (List.pairwise_cons.mp (List.pairwise_append.mp sorted).2.1).1 j behind
      exact absurd (Nat.lt_trans h above) (Nat.lt_irrefl j)

/-- What a request for a challenge does. -/
structure Handed (adr : Netadr) (curtime : UInt32) (clients : List UInt32) (table : Table) (i : Nat)
    (after : Table) : Prop where
  slot : i < maxChallenges
  first : ∀ j < i, (table j).adr.ip ≠ adr.ip
  known : (table i).adr.ip = adr.ip ∨
    (∀ j < maxChallenges, (table j).adr.ip ≠ adr.ip) ∧
      ∀ j < maxChallenges, curtime - (table j).time ≤ curtime - (table i).time
  fresh : ∃ challenge : UInt32, challenge ≠ 0 ∧ challenge ∉ clients ∧
    (after i).challenge = challenge.toNat
  same : (after i).adr.ip = adr.ip
  others : ∀ j, j ≠ i → after j = table j

/-- What `SVC_GetChallenge` does to the table. -/
theorem svcGetChallenge_spec {adr : Netadr} {curtime : UInt32} {clients draws : List UInt32}
    {table after : Table} {i : Nat}
    (h : svcGetChallenge adr curtime clients draws table = some (i, after)) :
    Handed adr curtime clients table i after := by
  simp only [svcGetChallenge] at h
  obtain ⟨challenge, drawn, result⟩ := Option.map_eq_some_iff.mp h
  obtain ⟨nonzero, free⟩ := drawChallenge_spec drawn
  cases hsearch : search table adr curtime (List.range maxChallenges) 0 0 with
  | mk slot known =>
    rw [hsearch] at result
    obtain ⟨rfl, rfl⟩ := Prod.mk.inj result
    obtain ⟨isKnown, unknown⟩ := search_spec hsearch
    have others : ∀ c : Challenge, ∀ j, j ≠ slot → Function.update table slot c j = table j :=
      fun c j other => Function.update_of_ne other c table
    cases known with
    | true =>
      obtain ⟨before, after, split, same, earlier⟩ := isKnown rfl
      have mem : slot ∈ List.range maxChallenges := by
        rw [split]
        exact List.mem_append_right _ List.mem_cons_self
      have first : ∀ j < slot, (table j).adr.ip ≠ adr.ip :=
        fun j below => earlier j (mem_front_of_range split below)
      exact ⟨List.mem_range.mp mem, first, .inl same,
        ⟨challenge, nonzero, free, by simp⟩, by simp [same], others _⟩
    | false =>
      obtain ⟨different, age⟩ := unknown rfl
      have different : ∀ j < maxChallenges, (table j).adr.ip ≠ adr.ip :=
        fun j bound => different j (List.mem_range.mpr bound)
      have oldest : slot < maxChallenges ∧
          ∀ j < maxChallenges, curtime - (table j).time ≤ curtime - (table slot).time := by
        rcases age with ⟨rfl, least⟩ | ⟨mem, -, least⟩
        · refine ⟨by decide, fun j bound => ?_⟩
          exact UInt32.le_trans (least j (List.mem_range.mpr bound)) UInt32.zero_le
        · exact ⟨List.mem_range.mp mem, fun j bound => least j (List.mem_range.mpr bound)⟩
      exact ⟨oldest.1, fun j below => different j (Nat.lt_trans below oldest.1),
        .inr ⟨different, oldest.2⟩, ⟨challenge, nonzero, free, by simp⟩, by simp, others _⟩

/-- A connect that is let in has found the slot of its address, and takes the challenge out. -/
theorem svcDirectConnect_spec {adr : Netadr} {argv : Nat → List UInt8} {table after : Table}
    {passed : Bool} (h : svcDirectConnect adr argv table = (passed, after)) :
    (after = table ∧ (passed = true → adr.loopback = true)) ∨
      passed = true ∧ ∃ i < maxChallenges, (table i).adr.ip = adr.ip ∧ (table i).challenge ≠ 0 ∧
        atoi (argv 3) = (table i).challenge ∧ (after i).challenge = 0 ∧
        (after i).adr = (table i).adr ∧ ∀ j, j ≠ i → after j = table j := by
  simp only [svcDirectConnect] at h
  split at h
  · obtain ⟨rfl, rfl⟩ := Prod.mk.inj h
    exact .inl ⟨rfl, fun passed => absurd passed Bool.false_ne_true⟩
  split at h
  · rename_i loopback
    obtain ⟨rfl, rfl⟩ := Prod.mk.inj h
    exact .inl ⟨rfl, fun _ => loopback⟩
  split at h
  · obtain ⟨rfl, rfl⟩ := Prod.mk.inj h
    exact .inl ⟨rfl, fun passed => absurd passed Bool.false_ne_true⟩
  · rename_i i found
    have entry := List.find?_some found
    rw [Bool.and_eq_true, bne_iff_ne] at entry
    split at h
    · rename_i right
      obtain ⟨rfl, rfl⟩ := Prod.mk.inj h
      exact .inr ⟨rfl, i, List.mem_range.mp (List.mem_of_find?_eq_some found),
        (beq_iff_eq.mp entry.2).symm, entry.1, right, by rw [Function.update_self],
        by rw [Function.update_self], fun j other => Function.update_of_ne other _ table⟩
    · obtain ⟨rfl, rfl⟩ := Prod.mk.inj h
      exact .inl ⟨rfl, fun passed => absurd passed Bool.false_ne_true⟩

/-! ## What every run keeps -/

structure Inv (s : State) : Prop where
  first : ∀ i < maxChallenges, s.written i = true →
    ∀ j < i, (s.table j).adr.ip ≠ (s.table i).adr.ip
  blank : ∀ i < maxChallenges, (s.table i).challenge ≠ 0 → s.written i = true
  owed : ∀ i < maxChallenges, (s.table i).challenge ≠ 0 →
    owed (s.table i).adr.ip (s.table i).challenge s.history = true
  answers : Answers s.history

theorem Inv.unique {s : State} (h : Inv s) {i j : Nat} (hi : i < maxChallenges)
    (hj : j < maxChallenges) (wi : s.written i = true) (wj : s.written j = true)
    (same : (s.table i).adr.ip = (s.table j).adr.ip) : i = j := by
  rcases Nat.lt_trichotomy i j with lt | eq | gt
  · exact absurd same (h.first j hj wj i lt)
  · exact eq
  · exact absurd same.symm (h.first i hi wi j gt)

/-- No challenge has been handed out. -/
theorem inv_start : Inv start where
  first := fun _ _ written => absurd written Bool.false_ne_true
  blank := fun _ _ nonzero => absurd rfl nonzero
  owed := fun _ _ nonzero => absurd rfl nonzero
  answers := trivial

/-- A challenge is handed out, or that of the address again. -/
theorem inv_getchallenge {s t : State} (h : Inv s) {adr : Netadr} {curtime : UInt32}
    {clients draws : List UInt32} (hstep : step s (.getchallenge adr curtime clients draws) = some t) :
    Inv t := by
  simp only [step] at hstep
  obtain ⟨⟨i, table⟩, hget, rfl⟩ := Option.map_eq_some_iff.mp hstep
  have handed := svcGetChallenge_spec hget
  have ips : ∀ j, j ≠ i → (table j).adr.ip = (s.table j).adr.ip := by
    intro j other
    rw [handed.others j other]
  have first : ∀ k < maxChallenges, Function.update s.written i true k = true →
      ∀ j < k, (table j).adr.ip ≠ (table k).adr.ip := by
    intro k bound written j below
    by_cases here : k = i
    · subst here
      rw [ips j (Nat.ne_of_lt below), handed.same]
      exact handed.first j below
    · rw [Function.update_of_ne here] at written
      rw [ips k here]
      by_cases changed : j = i
      · subst changed
        rw [handed.same]
        rcases handed.known with same | ⟨different, -⟩
        · rw [← same]
          exact h.first k bound written j below
        · exact (different k bound).symm
      · rw [ips j changed]
        exact h.first k bound written j below
  have blank : ∀ k < maxChallenges, (table k).challenge ≠ 0 →
      Function.update s.written i true k = true := by
    intro k bound nonzero
    by_cases here : k = i
    · rw [here, Function.update_self]
    · rw [handed.others k here] at nonzero
      rw [Function.update_of_ne here]
      exact h.blank k bound nonzero
  have owes : ∀ k < maxChallenges, (table k).challenge ≠ 0 →
      owed (table k).adr.ip (table k).challenge (.handed adr (table i).challenge :: s.history) =
        true := ?_
  · exact ⟨first, blank, owes, h.answers⟩
  intro k bound nonzero
  by_cases here : k = i
  · subst here
    rw [owed_cons_of_concerns]
    · simp only [Event.hands, handed.same, beq_self_eq_true, Bool.and_self]
    · simp only [Event.concerns, handed.same, beq_self_eq_true]
  · have apart : (table k).adr.ip ≠ (table i).adr.ip := by
      rcases Nat.lt_or_gt_of_ne here with below | above
      · exact first i handed.slot (Function.update_self ..) k below
      · exact (first k bound (blank k bound nonzero) i above).symm
    rw [owed_cons_of_not_concerns]
    · rw [handed.others k here] at nonzero ⊢
      exact h.owed k bound nonzero
    · rw [handed.same] at apart
      exact beq_false_of_ne apart.symm

/-- A connect that is admitted uses up its challenge. -/
theorem inv_connect {s t : State} (h : Inv s) {adr : Netadr} {argv : Nat → List UInt8}
    (hstep : step s (.connect adr argv) = some t) : Inv t := by
  simp only [step] at hstep
  cases hconnect : svcDirectConnect adr argv s.table with
  | mk passed table =>
    rw [hconnect] at hstep
    obtain rfl := Option.some.inj hstep
    rcases svcDirectConnect_spec hconnect with
      ⟨rfl, loopback⟩ | ⟨rfl, i, bound, same, nonzero, right, zero, adr_eq, others⟩
    · cases passed with
      | false => exact ⟨h.first, h.blank, h.owed, h.answers⟩
      | true =>
        have within := loopback rfl
        refine ⟨h.first, h.blank, fun k hk nonzero => ?_, ?_⟩
        · refine (owed_cons_of_not_concerns ?_ _ _).trans (h.owed k hk nonzero)
          simp only [Event.concerns, within, Bool.not_true, Bool.false_and]
        · refine ⟨fun remote => ?_, h.answers⟩
          rw [within] at remote
          cases remote
    · have ips : ∀ j, (table j).adr = (s.table j).adr := by
        intro j
        by_cases here : j = i
        · rw [here, adr_eq]
        · rw [others j here]
      have left : ∀ k, (table k).challenge ≠ 0 → k ≠ i ∧ table k = s.table k := by
        intro k set
        have other : k ≠ i := by
          intro here
          rw [here, zero] at set
          exact set rfl
        exact ⟨other, others k other⟩
      have owes : ∀ k < maxChallenges, (table k).challenge ≠ 0 →
          owed (table k).adr.ip (table k).challenge (.admitted adr (atoi (argv 3)) :: s.history) =
            true := by
        intro k hk nonzero'
        obtain ⟨other, kept⟩ := left k nonzero'
        rw [kept] at nonzero' ⊢
        have apart : (s.table k).adr.ip ≠ (s.table i).adr.ip := fun equal =>
          other (h.unique hk bound (h.blank k hk nonzero') (h.blank i bound nonzero) equal)
        refine (owed_cons_of_not_concerns ?_ _ _).trans (h.owed k hk nonzero')
        rw [same] at apart
        simp only [Event.concerns, beq_false_of_ne apart.symm, Bool.and_false]
      have first : ∀ k < maxChallenges, s.written k = true →
          ∀ j < k, (table j).adr.ip ≠ (table k).adr.ip := by
        intro k hk written j below
        rw [ips, ips]
        exact h.first k hk written j below
      have blank : ∀ k < maxChallenges, (table k).challenge ≠ 0 → s.written k = true := by
        intro k hk nonzero'
        obtain ⟨-, kept⟩ := left k nonzero'
        rw [kept] at nonzero'
        exact h.blank k hk nonzero'
      have answers : owed adr.ip (atoi (argv 3)) s.history = true := by
        rw [right, ← same]
        exact h.owed i bound nonzero
      exact ⟨first, blank, owes, fun _ => answers, h.answers⟩

/-- The invariant holds after every list of packets. -/
theorem inv_run {packets : List Packet} {s t : State} (h : Inv s)
    (hrun : packets.foldlM step s = some t) : Inv t := by
  induction packets generalizing s with
  | nil =>
    obtain rfl := Option.some.inj hrun
    exact h
  | cons packet packets ih =>
    rw [List.foldlM_cons] at hrun
    obtain ⟨next, hstep, hrun⟩ := Option.bind_eq_some_iff.mp hrun
    refine ih ?_ hrun
    cases packet with
    | getchallenge adr curtime clients draws => exact inv_getchallenge h hstep
    | connect adr argv => exact inv_connect h hstep

/-- No two entries are for one address, a challenge is not zero and not in use, the oldest entry
gives way, and of the connects from other machines each answers a challenge of its own. -/
theorem challenges_run {packets : List Packet} {s : State} (h : run packets = some s) :
    (∀ i < maxChallenges, ∀ j < maxChallenges, s.written i = true → s.written j = true →
      compareBaseAdr (s.table i).adr (s.table j).adr = true → i = j) ∧
    (∀ adr curtime clients draws t, step s (.getchallenge adr curtime clients draws) = some t →
      ∃ i < maxChallenges, ∃ challenge : UInt32,
        t.history = .handed adr challenge.toNat :: s.history ∧
        (t.table i).challenge = challenge.toNat ∧
        compareBaseAdr (t.table i).adr adr = true ∧ challenge ≠ 0 ∧ challenge ∉ clients ∧
        (∀ j, j ≠ i → t.table j = s.table j) ∧
        (compareBaseAdr (s.table i).adr adr = true ∨
          ∀ j < maxChallenges, curtime - (s.table j).time ≤ curtime - (s.table i).time)) ∧
    Answers s.history ∧
    ∀ ip challenge, s.history.countP (Event.admits ip challenge) ≤
      s.history.countP (Event.hands ip challenge) := by
  have inv : Inv s := inv_run inv_start h
  refine ⟨?_, ?_, inv.answers, ?_⟩
  · intro i hi j hj wi wj same
    exact inv.unique hi hj wi wj (beq_iff_eq.mp same)
  · intro adr curtime clients draws t hstep
    simp only [step] at hstep
    obtain ⟨⟨i, table⟩, hget, rfl⟩ := Option.map_eq_some_iff.mp hstep
    have handed := svcGetChallenge_spec hget
    obtain ⟨challenge, nonzero, free, value⟩ := handed.fresh
    refine ⟨i, handed.slot, challenge, ?_, value, beq_iff_eq.mpr handed.same, nonzero, free,
      handed.others, ?_⟩
    · exact congrArg (fun c => Event.handed adr c :: s.history) value
    · rcases handed.known with same | ⟨-, oldest⟩
      · exact .inl (beq_iff_eq.mpr same)
      · exact .inr oldest
  · intro ip challenge
    exact Nat.le_trans (Nat.le_add_right _ _) (answers_counted inv.answers ip challenge)

private def remoteA : Netadr := ⟨10, 27910, false⟩
private def remoteB : Netadr := ⟨11, 27910, false⟩
private def inside : Netadr := ⟨127, 31510, true⟩

private def connectWith (adr : Netadr) (challenge : List UInt8) : Packet :=
  .connect adr fun arg => if arg = 1 then [51, 50] else challenge

theorem challenges_run_remote : ∃ s,
    run [.getchallenge remoteA 100 [] [5], connectWith remoteA [53]] = some s ∧
      ∀ ip challenge, s.history.countP (Event.admits ip challenge) ≤
        s.history.countP (Event.hands ip challenge) := by
  have completes : (run [.getchallenge remoteA 100 [] [5], connectWith remoteA [53]]).isSome = true := by
    decide +kernel
  obtain ⟨s, hs⟩ := Option.isSome_iff_exists.mp completes
  exact ⟨s, hs, (challenges_run hs).2.2.2⟩

private def letsIn (challenge : Int) : Event → Bool
  | .handed _ _ => false
  | .admitted _ c => c == challenge

private def sharedValues : List Packet :=
  [.getchallenge remoteA 100 [] [5], .getchallenge remoteB 200 [] [5], connectWith remoteA [53],
    connectWith remoteB [53], connectWith inside [55], connectWith inside [55]]

/-- Two addresses that have got the same number, and a client of the program itself that uses one
twice that nobody has got. -/
theorem challenge_admits_two : ∃ s, run sharedValues = some s ∧
    s.history.countP (letsIn 5) = 2 ∧ s.history.countP (letsIn 7) = 2 := by
  have counts : (run sharedValues).map
      (fun s => (s.history.countP (letsIn 5), s.history.countP (letsIn 7))) = some (2, 2) := by
    decide +kernel
  obtain ⟨s, hs, count⟩ := Option.map_eq_some_iff.mp counts
  exact ⟨s, hs, Prod.mk.inj count⟩

end ChallengeTable
