import Kpded2.BrushClips
import Kpded2.HullPasses

/-!
# Searching the tree

The search goes through the leafs that the move comes to and skips those that begin behind the
nearest hit. What it has found is told by the order of the brushes alone: each one that is not barred
by an earlier one is looked at, so the trace is right exactly if these are enough.
-/
namespace BoxTrace
open DeltaEntity (Vec3)

variable {m : Move} {f : Rat}

/-! ## The search as a walk along the leafs -/

section
variable {brushes : Nat → Brush} {clip : Trace → Brush → Trace}

end

theorem boxLeafnumsR_eq (mins maxs : Vec3) (maxcount : Nat) (hull : Hull) (list : List Leaf)
    (room : list.length + (touched mins maxs hull).length ≤ maxcount) :
    boxLeafnumsR mins maxs maxcount hull list = list ++ touched mins maxs hull := by
  induction hull generalizing list with
  | leaf here =>
    simp only [touched, List.length_cons, List.length_nil] at room
    simp only [boxLeafnumsR, touched]
    exact if_neg (by omega)
  | node plane children0 children1 ih0 ih1 =>
    simp only [boxLeafnumsR, touched] at room ⊢
    split
    · rename_i front
      rw [if_pos front] at room
      exact ih0 list room
    · rename_i notFront
      rw [if_neg notFront] at room
      split
      · rename_i back
        rw [if_pos back] at room
        exact ih1 list room
      · rename_i notBack
        rw [if_neg notBack, List.length_append] at room
        have first := ih0 list (by omega)
        rw [first, ih1 _ (by rw [List.length_append]; omega), List.append_assoc]

variable {map : Map} {clip : Trace → Brush → Trace}

theorem Taken.listed {list : List Turn} {turn : Turn} (taken : Taken map m list turn) :
    turn ∈ list := by
  induction list with
  | nil => exact taken.elim
  | cons head earlier ih =>
    rcases taken with before | ⟨same, _⟩
    · exact List.mem_cons_of_mem _ (ih before)
    · exact List.mem_cons.mpr (Or.inl same)

/-- The turn is not taken behind the others. -/
def Barred (map : Map) (m : Move) (earlier : List Turn) (turn : Turn) : Prop :=
  1 ≤ turn.p1f ∨ ∃ before, Taken map m earlier before ∧ before.Bars map m turn

theorem taken_cons {earlier : List Turn} {turn taken : Turn} :
    Taken map m (turn :: earlier) taken ↔
      Taken map m earlier taken ∨ (taken = turn ∧ ¬Barred map m earlier turn) := by
  simp only [Taken, Barred, not_or, not_le, not_exists, not_and]

theorem taken_or_barred {list : List Turn} {turn : Turn} (listed : turn ∈ list) :
    Taken map m list turn ∨ Barred map m list turn := by
  induction list with
  | nil => exact absurd listed List.not_mem_nil
  | cons head earlier ih =>
    have wider : Barred map m earlier turn → Barred map m (head :: earlier) turn :=
      Or.imp_right fun ⟨before, taken, bars⟩ => ⟨before, Or.inl taken, bars⟩
    cases List.mem_cons.mp listed with
    | inl same =>
      subst same
      by_cases barred : Barred map m earlier turn
      · exact Or.inr (wider barred)
      · exact Or.inl (taken_cons.mpr (Or.inr ⟨rfl, barred⟩))
    | inr later => exact (ih later).imp Or.inl wider

/-- What the trace has found is told by the turns that are taken. -/
structure Records (map : Map) (m : Move) (earlier : List Turn) (s : Check) : Prop where
  fraction : ∀ g, 0 ≤ g → (s.trace.fraction ≤ g ↔ 1 ≤ g ∨
    ∃ turn, Taken map m earlier turn ∧ m.Halted (map.brushes turn.brushnum) g)
  positive : 0 ≤ s.trace.fraction
  startsolid : s.trace.startsolid = true ↔
    ∃ turn, Taken map m earlier turn ∧ m.StartsIn (map.brushes turn.brushnum)
  checked : ∀ n ∈ s.checked, map.Solid m n → ∃ turn, Taken map m earlier turn ∧ turn.brushnum = n

/-- A brush that is not solid has no turn. -/
theorem Records.mark {earlier : List Turn} {s : Check} {n : Nat} {trace : Trace}
    (records : Records map m earlier s) (hollow : ¬map.Solid m n) (same : trace = s.trace) :
    Records map m earlier ⟨trace, n :: s.checked⟩ := by
  subst same
  refine ⟨records.fraction, records.positive, records.startsolid, fun k listed solid => ?_⟩
  cases List.mem_cons.mp listed with
  | inl same =>
    subst same
    exact absurd solid hollow
  | inr before => exact records.checked k before solid

/-- A turn that changes nothing: it is barred, or its brush was looked at in another leaf. -/
theorem Records.skip {earlier : List Turn} {s : Check} {turn : Turn}
    (records : Records map m earlier s)
    (known : Barred map m earlier turn ∨
      ∃ before, Taken map m earlier before ∧ before.brushnum = turn.brushnum) :
    Records map m (turn :: earlier) s := by
  have same : ∀ P : Nat → Prop, (∃ taken, Taken map m (turn :: earlier) taken ∧ P taken.brushnum) ↔
      ∃ taken, Taken map m earlier taken ∧ P taken.brushnum := by
    intro P
    constructor
    · rintro ⟨taken, here, holds⟩
      rcases taken_cons.mp here with before | ⟨rfl, free⟩
      · exact ⟨taken, before, holds⟩
      · obtain ⟨before, first, eq⟩ := known.resolve_left free
        exact ⟨before, first, eq ▸ holds⟩
    · rintro ⟨taken, here, holds⟩
      exact ⟨taken, Or.inl here, holds⟩
  refine ⟨fun g inside => ?_, records.positive, ?_, fun n listed solid => ?_⟩
  · rw [records.fraction g inside, same fun n => m.Halted (map.brushes n) g]
  · rw [records.startsolid, same fun n => m.StartsIn (map.brushes n)]
  · exact (same fun k => k = n).mpr (records.checked n listed solid)

theorem Records.skips {earlier : List Turn} {s : Check} (records : Records map m earlier s)
    (list : List Turn) (barred : ∀ turn ∈ list, Barred map m earlier turn) :
    Records map m (list.reverse ++ earlier) s := by
  induction list generalizing earlier with
  | nil => exact records
  | cons turn rest ih =>
    rw [List.reverse_cons, List.append_assoc]
    refine ih (records.skip (Or.inl (barred turn List.mem_cons_self))) fun later listed => ?_
    refine (barred later (List.mem_cons_of_mem _ listed)).imp_right ?_
    exact fun ⟨before, taken, bars⟩ => ⟨before, Or.inl taken, bars⟩

theorem mem_listed {i : Nat} {p1f : Rat} {list : List Nat} {turn : Turn}
    (listed : turn ∈ map.listed m i p1f list) :
    turn.pass = i ∧ turn.p1f = p1f ∧ turn.brushnum ∈ list ∧ map.Solid m turn.brushnum := by
  obtain ⟨n, here, rfl⟩ := List.mem_map.mp listed
  have found := List.mem_filter.mp here
  exact ⟨rfl, rfl, found.1, of_decide_eq_true found.2⟩

/-- A box that is stopped at once leaves the list of the leaf. -/
theorem Records.stopped {earlier : List Turn} {s : Check} (records : Records map m earlier s)
    (stopped : s.trace.fraction ≤ 0) (i : Nat) {p1f : Rat} (inside : 0 ≤ p1f) (list : List Nat) :
    Records map m ((map.listed m i p1f list).reverse ++ earlier) s := by
  obtain ⟨before, taken, halted⟩ :=
    ((records.fraction 0 (le_refl _)).mp stopped).resolve_left (not_le.mpr zero_lt_one)
  refine records.skips _ fun turn listed => Or.inr ⟨before, taken, halted.mono ?_⟩
  obtain ⟨-, same, -⟩ := mem_listed listed
  split
  · exact le_refl _
  · exact le_of_le_of_eq inside same.symm

theorem mem_turns {passes : List Pass} {i : Nat} {turn : Turn}
    (listed : turn ∈ turns map m i passes) : ∃ pass ∈ passes, turn.p1f = pass.p1f ∧
      turn.brushnum ∈ pass.leaf.leafbrushes ∧ map.Solid m turn.brushnum := by
  induction passes generalizing i with
  | nil => exact absurd listed List.not_mem_nil
  | cons pass rest ih =>
    cases List.mem_append.mp listed with
    | inl here => exact ⟨pass, List.mem_cons_self, (mem_listed here).2⟩
    | inr later =>
      obtain ⟨other, below, found⟩ := ih later
      exact ⟨other, List.mem_cons_of_mem _ below, found⟩

theorem exists_turn {passes : List Pass} {pass : Pass} {n : Nat} (visited : pass ∈ passes)
    (listed : n ∈ pass.leaf.leafbrushes) (solid : map.Solid m n) (i : Nat) :
    ∃ turn ∈ turns map m i passes, turn.brushnum = n ∧ turn.p1f = pass.p1f := by
  induction passes generalizing i with
  | nil => exact absurd visited List.not_mem_nil
  | cons head rest ih =>
    cases List.mem_cons.mp visited with
    | inl same =>
      subst same
      have here : (⟨i, pass.p1f, n⟩ : Turn) ∈ map.listed m i pass.p1f pass.leaf.leafbrushes :=
        List.mem_map_of_mem (List.mem_filter.mpr ⟨listed, decide_eq_true solid⟩)
      exact ⟨_, List.mem_append_left _ here, rfl, rfl⟩
    | inr later =>
      obtain ⟨turn, found, eq⟩ := ih later (i + 1)
      exact ⟨turn, List.mem_append_right _ found, eq⟩

theorem stops_of_turn {turn : Turn} (listed : turn ∈ turns map m 0 (map.passes m)) :
    map.Stops m turn.brushnum := by
  obtain ⟨pass, visited, _, here, solid⟩ := mem_turns listed
  exact ⟨⟨pass.leaf, map_passes_below pass visited, here⟩, solid.1⟩

/-- By the time the box is deep in a brush the search has come to it, or to one that stops the box. -/
theorem fair_comes (wellFormed : WellFormed map) (fair : Fair map m) {n : Nat}
    (stops : map.Stops m n) {g : Rat} (inside : 0 ≤ g ∧ g ≤ 1)
    (deep : Deep m (map.brushes n) (m.place g)) :
    map.ComesTo m n ∨ 1 ≤ g ∨
      ∃ k, map.ComesTo m k ∧ map.Stops m k ∧ m.Halted (map.brushes k) g := by
  obtain ⟨e, q, order, region, covers, keeps⟩ := fair.met n stops g inside.1 inside.2 deep
  obtain ⟨leaf, below, listed⟩ := stops.1
  have found := wellFormed.listed leaf below n listed q region
  obtain ⟨pass, visited, same, soon⟩ :=
    map_passes_meet covers ⟨order.1, order.2.trans inside.2⟩ keeps
  obtain ⟨turn, here, rfl, from_⟩ :=
    exists_turn visited (same ▸ found) ⟨stops.2, fair.sides n stops⟩ 0
  have early : turn.p1f ≤ g := (from_ ▸ soon).trans order.2
  rcases taken_or_barred (List.mem_reverse.mpr here) with taken | late | ⟨before, taken, bars⟩
  · exact Or.inl ⟨turn, taken, rfl⟩
  · exact Or.inr (Or.inl (late.trans early))
  · refine Or.inr (Or.inr ⟨before.brushnum, ⟨before, taken, rfl⟩,
      stops_of_turn (List.mem_reverse.mp taken.listed), bars.mono ?_⟩)
    split
    · exact inside.1
    · exact early

theorem Fair.heeded (wellFormed : WellFormed map) (fair : Fair map m) : Heeded map m := by
  intro n stops f low high deep
  rcases lt_or_eq_of_le low with positive | start
  · obtain ⟨g, inside, before, deeper⟩ := deep_before positive deep
    have below := before.trans_le high
    rcases fair_comes wellFormed fair stops ⟨inside, le_of_lt below⟩ deeper with
      comes | late | ⟨k, comes, _, halted⟩
    · exact Or.inl comes
    · exact absurd below (not_lt.mpr late)
    · exact Or.inr ⟨k, comes, Or.inr ⟨g, inside, before, halted⟩⟩
  · subst start
    rcases fair_comes wellFormed fair stops ⟨low, high⟩ deep with
      comes | late | ⟨k, comes, other, ⟨_, starts⟩ | enters⟩
    · exact Or.inl comes
    · exact absurd zero_lt_one (not_lt.mpr late)
    · exact Or.inr ⟨k, comes, Or.inl starts⟩
    · rw [place_start] at deep
      exact absurd enters.touches (fair.alone ⟨n, stops, deep⟩ k other)

/-! ## A fall -/

private def level (z : Rat) : Plane := ⟨⟨0, 0, 1⟩, z, some .z⟩

/-- A floor under an empty room. -/
private def room : Map where
  numnodes := 1
  brushes := fun _ => ⟨1, [⟨level 0, 0⟩]⟩
  headnode := .node (level 8) (.leaf ⟨0, []⟩) (.leaf ⟨1, [0]⟩)

private def fall : Move := ⟨⟨0, 0, 100⟩, ⟨0, 0, -100⟩, ⟨-16, -16, -24⟩, ⟨16, 16, 32⟩, 1⟩

private def cube (mins maxs : Vec3) : Brush where
  contents := 1
  sides := [⟨⟨⟨1, 0, 0⟩, maxs.x, some .x⟩, 0⟩, ⟨⟨⟨-1, 0, 0⟩, -mins.x, some .x⟩, 0⟩,
    ⟨⟨⟨0, 1, 0⟩, maxs.y, some .y⟩, 0⟩, ⟨⟨⟨0, -1, 0⟩, -mins.y, some .y⟩, 0⟩,
    ⟨⟨⟨0, 0, 1⟩, maxs.z, some .z⟩, 0⟩, ⟨⟨⟨0, 0, -1⟩, -mins.z, some .z⟩, 0⟩]

/-- A floor, and a wall that goes down into it. -/
private def corner : Map where
  numnodes := 1
  brushes := fun n =>
    if n = 0 then cube ⟨-64, -64, -64⟩ ⟨64, 64, 0⟩ else cube ⟨-64, -64, -32⟩ ⟨10, 64, 32⟩
  headnode := .node (level 64) (.leaf ⟨0, []⟩) (.leaf ⟨1, [0, 1]⟩)

/-- Inside the wall, half an epsilon above the floor. -/
private def drop : Move := ⟨⟨0, 0, 1 / 64⟩, ⟨0, 0, -1⟩, ⟨0, 0, 0⟩, ⟨0, 0, 0⟩, 1⟩

end BoxTrace
