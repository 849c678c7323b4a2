import Kpded2.EntityRing
import Kpded2.PacketEntities

/-!
# What `SV_BuildClientFrame` leaves in the ring

The entities that are visible go into the next slots of the ring, in the order of their numbers.
Then some of them may be hidden or taken out again, and the others are moved together. Which ones
are visible, and which are behind the player, is left to the caller.
-/
namespace FrameBuilding
open DeltaEntity PacketEntities
open EntityRing (slot)

/-- What becomes of an entity when there are too many of them. -/
inductive Fate where
  | keep
  | hide
  | remove
  deriving DecidableEq

def hidden (s : EntityState) : EntityState := { s with modelindex := 0, numParts := 0 }

def Fate.apply (s : EntityState) : Fate → Option EntityState
  | .keep => some s
  | .hide => some (hidden s)
  | .remove => none

/-- The entities from slot index `first + i` on. -/
def putStates (num first : Nat) : List EntityState → Nat → Entities → Entities
  | [], _, ents => ents
  | s :: rest, i, ents =>
    putStates num first rest (i + 1) (Function.update ents (slot num (first + i)) s)

/-- The loop over the last `left` entities: `i` is the next one and `j` where it goes. What the loop
returns is the new `num_entities`. -/
def squeeze (num first : Nat) (fate : EntityState → Fate) :
    Nat → Nat → Nat → Entities → Nat × Entities
  | 0, _, j, ents => (j, ents)
  | left + 1, i, j, ents =>
    match (fate (ents (slot num (first + i)))).apply (ents (slot num (first + i))) with
    | none => squeeze num first fate left (i + 1) j ents
    | some state =>
      let ents := Function.update ents (slot num (first + i)) state
      let ents := if i ≠ j then Function.update ents (slot num (first + j)) state else ents
      squeeze num first fate left (i + 1) (j + 1) ents

/-- The `count` entities from slot index `first` on. -/
def window (num : Nat) (ents : Entities) (first count : Nat) : List EntityState :=
  (List.range count).map fun i => ents (slot num (first + i))

/-- The `count` slots from slot index `first` on are different ones. -/
def Distinct (num first count : Nat) : Prop :=
  ∀ i < count, ∀ j < count, slot num (first + i) = slot num (first + j) → i = j

/-- The slot is one of the `count` from slot index `first` on. -/
def Within (num first count k : Nat) : Prop := ∃ i < count, k = slot num (first + i)

variable {num first count : Nat} {ents : Entities}

theorem Distinct.mono {count' : Nat} (distinct : Distinct num first count) (le : count' ≤ count) :
    Distinct num first count' :=
  fun i hi j hj => distinct i (Nat.lt_of_lt_of_le hi le) j (Nat.lt_of_lt_of_le hj le)

theorem window_congr {ents' : Entities}
    (same : ∀ i < count, ents' (slot num (first + i)) = ents (slot num (first + i))) :
    window num ents' first count = window num ents first count :=
  List.map_congr_left fun i hi => same i (List.mem_range.mp hi)

/-! ## Putting the entities into the ring -/

theorem putStates_outside {k : Nat} (states : List EntityState) (i : Nat) (ents : Entities)
    (outside : ∀ j, i ≤ j → j < i + states.length → k ≠ slot num (first + j)) :
    putStates num first states i ents k = ents k := by
  induction states generalizing i ents with
  | nil => exact rfl
  | cons s rest ih =>
    rw [List.length_cons] at outside
    rw [putStates, ih (i + 1) _ fun j low high => outside j (by omega) (by omega)]
    exact Function.update_of_ne (outside i (Nat.le_refl i) (by omega)) _ _

theorem putStates_at (states : List EntityState) (i : Nat) (ents : Entities)
    (distinct : Distinct num first (i + states.length)) {k : Nat} (inside : k < states.length) :
    putStates num first states i ents (slot num (first + (i + k))) = states[k] := by
  induction states generalizing i ents k with
  | nil => exact absurd inside (Nat.not_lt_zero k)
  | cons s rest ih =>
    rw [List.length_cons] at distinct inside
    rw [putStates]
    cases k with
    | zero =>
      rw [putStates_outside rest (i + 1) _ fun j low high same => ?_]
      · exact Function.update_self _ _ _
      · have equal := distinct i (by omega) j (by omega) same
        omega
    | succ k =>
      have shift : i + (k + 1) = i + 1 + k := by omega
      rw [shift, List.getElem_cons_succ]
      exact ih (i + 1) _ (distinct.mono (by omega)) (Nat.lt_of_succ_lt_succ inside)

/-! ## Moving them together -/

/-- What is left of the entities. -/
def remaining (fate : EntityState → Fate) (states : List EntityState) : List EntityState :=
  states.filterMap fun s => (fate s).apply s

theorem squeeze_outside (fate : EntityState → Fate) (left i j : Nat) (ents : Entities)
    (behind : j ≤ i) {k : Nat} (outside : ¬Within num first (i + left) k) :
    (squeeze num first fate left i j ents).2 k = ents k := by
  induction left generalizing i j ents with
  | zero => exact rfl
  | succ left ih =>
    have other : ∀ m < i + (left + 1), k ≠ slot num (first + m) :=
      fun m inside same => outside ⟨m, inside, same⟩
    have rest : ¬Within num first (i + 1 + left) k := by
      rwa [Nat.add_right_comm, Nat.add_assoc]
    rw [squeeze]
    split
    · exact ih (i + 1) j ents (Nat.le_succ_of_le behind) rest
    · rw [ih (i + 1) (j + 1) _ (Nat.succ_le_succ behind) rest]
      split
      · rw [Function.update_of_ne (other j (by omega)), Function.update_of_ne (other i (by omega))]
      · exact Function.update_of_ne (other i (by omega)) _ _

/-- With `done` of the kept entities in front and `states` still to come. -/
theorem squeeze_spec (fate : EntityState → Fate) (states done : List EntityState) (i : Nat)
    (ents : Entities) (behind : done.length ≤ i)
    (distinct : Distinct num first (i + states.length))
    (front : window num ents first done.length = done)
    (back : ∀ k, (inside : k < states.length) → ents (slot num (first + (i + k))) = states[k]) :
    let r := squeeze num first fate states.length i done.length ents
    r.1 = done.length + (remaining fate states).length ∧
      window num r.2 first r.1 = done ++ remaining fate states := by
  induction states generalizing done i ents with
  | nil => exact ⟨rfl, by rw [remaining, List.filterMap_nil, List.append_nil]; exact front⟩
  | cons s rest ih =>
    rw [List.length_cons] at distinct
    have total : i + 1 + rest.length = i + (rest.length + 1) := by omega
    have here : ents (slot num (first + i)) = s := back 0 (Nat.zero_lt_succ _)
    have later : ∀ k, (inside : k < rest.length) →
        ents (slot num (first + (i + 1 + k))) = rest[k] := by
      intro k inside
      have shift : i + 1 + k = i + (k + 1) := by omega
      rw [shift]
      exact back (k + 1) (Nat.succ_lt_succ inside)
    rw [List.length_cons, squeeze, here]
    cases kept : (fate s).apply s with
    | none =>
      have left : remaining fate (s :: rest) = remaining fate rest := List.filterMap_cons_none kept
      rw [left]
      exact ih done (i + 1) ents (Nat.le_succ_of_le behind) (total ▸ distinct) front later
    | some state =>
      have left : remaining fate (s :: rest) = state :: remaining fate rest :=
        List.filterMap_cons_some kept
      have different : ∀ m ≤ i + rest.length, m ≠ i → slot num (first + m) ≠ slot num (first + i) :=
        fun m inside other same => other (distinct m (by omega) i (by omega) same)
      generalize hmoved : (if i ≠ done.length then
        Function.update (Function.update ents (slot num (first + i)) state)
          (slot num (first + done.length)) state
        else Function.update ents (slot num (first + i)) state) = moved
      have there : moved (slot num (first + done.length)) = state := by
        rw [← hmoved]
        split
        · exact Function.update_self _ _ _
        · rename_i same
          rw [not_not] at same
          rw [← same]
          exact Function.update_self _ _ _
      have elsewhere : ∀ m < i + (rest.length + 1), m ≠ i → m ≠ done.length →
          moved (slot num (first + m)) = ents (slot num (first + m)) := by
        intro m inside other free
        rw [← hmoved]
        split
        · rw [Function.update_of_ne fun same => free (distinct m inside _ (by omega) same),
            Function.update_of_ne (different m (by omega) other)]
        · exact Function.update_of_ne (different m (by omega) other) _ _
      have grown : (done ++ [state]).length = done.length + 1 := List.length_append
      have result := ih (done ++ [state]) (i + 1) moved (by omega) (total ▸ distinct) ?_ ?_
      · rw [grown] at result
        simp only [hmoved, left, List.length_cons]
        refine ⟨by rw [result.1]; omega, ?_⟩
        rw [result.2, List.append_assoc, List.singleton_append]
      · rw [grown, window, List.range_succ, List.map_append, List.map_singleton, there]
        refine congrArg (· ++ [state]) (Eq.trans ?_ front)
        refine window_congr fun m inside => elsewhere m (by omega) (by omega) (by omega)
      · intro k inside
        rw [elsewhere (i + 1 + k) (by omega) (by omega) (by omega)]
        exact later k inside

/-! ## The frame -/

/-- `num_entities` of the new frame, and the ring. -/
def buildEntities (num first : Nat) (fate : EntityState → Fate) (states : List EntityState)
    (ents : Entities) : Nat × Entities :=
  squeeze num first fate states.length 0 0 (putStates num first states 0 ents)

theorem buildEntities_window (fate : EntityState → Fate) (states : List EntityState)
    (ents : Entities) (distinct : Distinct num first states.length) :
    let r := buildEntities num first fate states ents
    r.1 = (remaining fate states).length ∧ window num r.2 first r.1 = remaining fate states := by
  have result := squeeze_spec fate states [] 0 (putStates num first states 0 ents) (Nat.le_refl 0)
    (by rwa [Nat.zero_add]) rfl fun k inside => by
      rw [putStates_at states 0 ents (by rwa [Nat.zero_add]) inside]
  rwa [List.length_nil, Nat.zero_add, List.nil_append] at result

theorem buildEntities_outside (fate : EntityState → Fate) (states : List EntityState)
    (ents : Entities) {k : Nat} (outside : ¬Within num first states.length k) :
    (buildEntities num first fate states ents).2 k = ents k := by
  rw [buildEntities, squeeze_outside fate states.length 0 0 _ (Nat.le_refl 0)
    (by rwa [Nat.zero_add])]
  exact putStates_outside states 0 ents fun j _ inside same =>
    outside ⟨j, by rwa [Nat.zero_add] at inside, same⟩

theorem number_apply {s t : EntityState} {f : Fate} (applied : f.apply s = some t) :
    t.number = s.number := by
  cases f with
  | keep =>
    cases applied
    exact rfl
  | hide =>
    cases applied
    exact rfl
  | remove => cases applied

theorem remaining_inRange (fate : EntityState → Fate) {states : List EntityState}
    (inRange : ∀ s ∈ states, InRange s) : ∀ s ∈ remaining fate states, InRange s := by
  intro t left
  obtain ⟨s, listed, applied⟩ := List.mem_filterMap.mp left
  rw [InRange, number_apply applied]
  exact inRange s listed

theorem remaining_sorted (fate : EntityState → Fate) {states : List EntityState}
    (sorted : SortedEdits.Sorted EntityState.number states) :
    SortedEdits.Sorted EntityState.number (remaining fate states) := by
  refine List.Pairwise.filterMap _ (fun s s' less t applied t' applied' => ?_) sorted
  rw [number_apply applied, number_apply applied']
  exact less

theorem length_remaining_le (fate : EntityState → Fate) (states : List EntityState) :
    (remaining fate states).length ≤ states.length :=
  List.length_filterMap_le _ states

/-! ## The window of a frame -/

theorem slots_eq (ctx : Context) (frame : ClientFrame) :
    slots ctx frame 0 = (List.range frame.numEntities).map fun i =>
      slot ctx.numClientEntities (frame.firstEntity + i) := by
  rw [slots, Nat.sub_zero, List.range_eq_range']
  exact rfl

theorem mem_slots {ctx : Context} {frame : ClientFrame} {k : Nat} :
    k ∈ slots ctx frame 0 ↔ Within ctx.numClientEntities frame.firstEntity frame.numEntities k := by
  rw [slots_eq, List.mem_map]
  constructor
  · rintro ⟨i, inside, rfl⟩
    exact ⟨i, List.mem_range.mp inside, rfl⟩
  · rintro ⟨i, inside, rfl⟩
    exact ⟨i, List.mem_range.mpr inside, rfl⟩

/-- The entities that were not taken out. -/
def present (states : List EntityState) : List EntityState := states.filter fun s => s.number ≠ 0

theorem live_eq (ctx : Context) (ents : Entities) (frame : ClientFrame) :
    live ctx ents frame 0 =
      present (window ctx.numClientEntities ents frame.firstEntity frame.numEntities) := by
  rw [live, slots_eq, List.map_map]
  exact rfl

theorem present_of_inRange {states : List EntityState} (inRange : ∀ s ∈ states, InRange s) :
    present states = states :=
  List.filter_eq_self.mpr fun s listed => decide_eq_true (Nat.ne_of_gt (inRange s listed).1)

/-- Within one lap of the ring the slots of a frame are different ones. -/
theorem distinct_of_lap {high : Nat} (inside : first + count ≤ high) (lap : high ≤ first + num)
    (wrap : num ∣ 2 ^ 32 ∨ first / 2 ^ 32 = (high - 1) / 2 ^ 32) : Distinct num first count := by
  intro i hi j hj same
  rcases Nat.lt_trichotomy i j with less | equal | more
  · exact absurd same.symm
      (EntityRing.slot_ne lap wrap (Nat.le_add_right _ _) (Nat.add_lt_add_left less _) (by omega))
  · exact equal
  · exact absurd same
      (EntityRing.slot_ne lap wrap (Nat.le_add_right _ _) (Nat.add_lt_add_left more _) (by omega))

end FrameBuilding
