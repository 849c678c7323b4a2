import Mathlib.Algebra.Order.Ring.Rat
import Mathlib.Data.List.Perm.Basic
import Mathlib.Order.Bounds.Basic
import Mathlib.Order.MinMax
import Mathlib.Tactic.NormNum

/-!
# Traces through the world and its entities

`SV_Trace` clips a move to the world and then to one touched entity after the other, and keeps
one trace, the winner so far. A trace that starts in solid wins whatever its fraction is. The
order of the entities is that in which they were linked.

Fractions are taken from any linear order with a zero.
-/
namespace TraceMerge

variable {F ρ : Type} [LinearOrder F]

/-- A `trace_t` of the box tracer; `hit` is what it says about the place that was hit. -/
structure Trace (F ρ : Type) where
  allsolid : Bool
  startsolid : Bool
  solid : allsolid = true → startsolid = true
  fraction : F
  ent : Nat := 0
  hit : ρ

/-- `startsolid = true`. -/
def Trace.start {F ρ : Type} (trace : Trace F ρ) : Trace F ρ :=
  { trace with startsolid := true, solid := fun _ => rfl }

structure Edict where
  number : Nat
  solidNot : Bool := false
  owner : Option Nat := none
  deadmonster : Bool := false

/-- A move; `clipTo` is `CM_TransformedBoxTrace` against the hull of an entity. -/
structure Moveclip (F ρ : Type) where
  passedict : Option Edict
  clipsDeadmonster : Bool
  clipTo : Edict → Trace F ρ

/-- The entity is `passedict`, belongs to it or owns it. -/
def Moveclip.passes (clip : Moveclip F ρ) (touch : Edict) : Bool :=
  match clip.passedict with
  | none => false
  | some passedict => touch.number = passedict.number || touch.owner = some passedict.number ||
      passedict.owner = some touch.number

/-- The entity is not clipped against. -/
def Moveclip.skips (clip : Moveclip F ρ) (touch : Edict) : Bool :=
  touch.solidNot || clip.passes touch || (!clip.clipsDeadmonster && touch.deadmonster)

/-- What becomes of the winner `clip`. -/
def merge (clip trace : Trace F ρ) : Trace F ρ :=
  if trace.allsolid ∨ trace.startsolid ∨ trace.fraction < clip.fraction then
    if clip.startsolid then trace.start else trace
  else if trace.startsolid then clip.start
  else clip

/-- The loop over the touched entities. -/
def svClipMoveToEntities (move : Moveclip F ρ) : List Edict → Trace F ρ → Trace F ρ
  | [], clip => clip
  | touch :: touchlist, clip =>
    if touch.solidNot then svClipMoveToEntities move touchlist clip
    else if move.passedict.any fun passedict => touch.number = passedict.number then
      svClipMoveToEntities move touchlist clip
    else if clip.allsolid then clip
    else if move.passes touch then svClipMoveToEntities move touchlist clip
    else if !move.clipsDeadmonster && touch.deadmonster then
      svClipMoveToEntities move touchlist clip
    else
      svClipMoveToEntities move touchlist
        (merge clip { move.clipTo touch with ent := touch.number })

/-- `world` is the trace of `CM_BoxTrace`. -/
def svTrace [Zero F] (move : Moveclip F ρ) (world : Trace F ρ) (touchlist : List Edict) :
    Trace F ρ :=
  let world := { world with ent := 0 }
  if world.fraction = 0 then world else svClipMoveToEntities move touchlist world

/-! ## Merging a list of traces -/

/-- The traces of the entities that are clipped against. -/
def entityTraces (move : Moveclip F ρ) (touchlist : List Edict) : List (Trace F ρ) :=
  (touchlist.filter fun touch => !move.skips touch).map fun touch =>
    { move.clipTo touch with ent := touch.number }

def mergeAll (clip : Trace F ρ) : List (Trace F ρ) → Trace F ρ
  | [] => clip
  | trace :: traces => if clip.allsolid then clip else mergeAll (merge clip trace) traces

/-- The traces that are looked at until one is all solid. -/
def examined (clip : Trace F ρ) : List (Trace F ρ) → List (Trace F ρ)
  | [] => []
  | trace :: traces =>
    if clip.allsolid then [] else trace :: examined (merge clip trace) traces

section Zero
variable [Zero F]

def ended (world : Trace F ρ) (traces : List (Trace F ρ)) : Trace F ρ :=
  if world.fraction = 0 then world else mergeAll world traces

def lookedAt (world : Trace F ρ) (traces : List (Trace F ρ)) : List (Trace F ρ) :=
  if world.fraction = 0 then [] else examined world traces

/-- The fraction is the least of those that were examined, and `startsolid` is set if one was. -/
structure Merged (world : Trace F ρ) (traces : List (Trace F ρ)) : Prop where
  fraction : IsLeast { f | f ∈ (world :: lookedAt world traces).map Trace.fraction }
    (ended world traces).fraction
  startsolid : (ended world traces).startsolid =
    (world :: lookedAt world traces).any Trace.startsolid

/-- In whatever order the entities come, the traces are merged and the result is the same. -/
def OrderFree (world : Trace F ρ) (traces : List (Trace F ρ)) : Prop :=
  ∀ order, order.Perm traces → Merged world order ∧
    (ended world order).fraction = (ended world traces).fraction ∧
    (ended world order).startsolid = (ended world traces).startsolid

/-- The trace ends the loop, or it would if it was all solid. -/
def Decides (traces : List (Trace F ρ)) (trace : Trace F ρ) : Prop :=
  trace ∈ traces ∧ (trace.allsolid ∨ (∀ other ∈ traces, ¬other.allsolid) ∧ trace.startsolid)

/-- The world stops the move at once, or encloses it; or no trace is shorter than those of the
entities in which the move starts: of those that enclose it, if there are any. -/
def Shortest (world : Trace F ρ) (traces : List (Trace F ρ)) : Prop :=
  world.fraction = 0 ∨ world.allsolid ∨
    ∀ trace, Decides traces trace → ∀ other ∈ world :: traces, trace.fraction ≤ other.fraction

end Zero

/-! ## One trace -/

theorem merge_startsolid (clip trace : Trace F ρ) :
    (merge clip trace).startsolid = (clip.startsolid || trace.startsolid) := by
  simp only [merge]
  split
  · split
    · next start => rw [start, Bool.true_or, Trace.start]
    · next free => rw [Bool.eq_false_iff.mpr free, Bool.false_or]
  · split
    · next start => rw [start, Bool.or_true, Trace.start]
    · next free => rw [Bool.eq_false_iff.mpr free, Bool.or_false]

/-- A trace that is in solid wins. -/
theorem merge_solid {clip trace : Trace F ρ} (solid : trace.allsolid ∨ trace.startsolid) :
    (merge clip trace).fraction = trace.fraction ∧ (merge clip trace).allsolid = trace.allsolid := by
  have wins : trace.allsolid ∨ trace.startsolid ∨ trace.fraction < clip.fraction :=
    solid.imp_right .inl
  rw [merge, if_pos wins]
  split
  · exact ⟨rfl, rfl⟩
  · exact ⟨rfl, rfl⟩

/-- Of the others the shorter one wins. -/
theorem merge_free {clip trace : Trace F ρ} (free : ¬(trace.allsolid ∨ trace.startsolid)) :
    (merge clip trace).fraction = min clip.fraction trace.fraction := by
  rw [not_or] at free
  by_cases shorter : trace.fraction < clip.fraction
  · rw [merge, if_pos (.inr (.inr shorter)), min_eq_right shorter.le]
    split
    · exact rfl
    · exact rfl
  · have loses : ¬(trace.allsolid ∨ trace.startsolid ∨ trace.fraction < clip.fraction) := by
      rintro (all | start | less)
      · exact free.1 all
      · exact free.2 start
      · exact shorter less
    rw [merge, if_neg loses, if_neg free.2, min_eq_left (not_lt.mp shorter)]

theorem merge_allsolid {clip trace : Trace F ρ} (outside : ¬clip.allsolid) (free : ¬trace.allsolid) :
    ¬(merge clip trace).allsolid := by
  simp only [merge]
  split
  · split
    · exact free
    · exact free
  · split
    · exact outside
    · exact outside

theorem merge_fraction (clip trace : Trace F ρ) :
    (merge clip trace).fraction = clip.fraction ∨ (merge clip trace).fraction = trace.fraction := by
  by_cases solid : trace.allsolid ∨ trace.startsolid
  · exact .inr (merge_solid solid).1
  · rw [merge_free solid]
    exact min_choice clip.fraction trace.fraction

/-! ## A list of traces -/

omit [LinearOrder F] in
theorem passes_of_passedict {move : Moveclip F ρ} {touch : Edict}
    (same : (move.passedict.any fun passedict => touch.number = passedict.number) = true) :
    move.passes touch = true := by
  rw [Moveclip.passes]
  cases h : move.passedict with
  | none =>
    rw [h] at same
    exact absurd same Bool.false_ne_true
  | some passedict =>
    rw [h, Option.any_some] at same
    simp only [same, Bool.true_or]

/-- The loop merges the traces of the entities that it does not skip. -/
theorem svClipMoveToEntities_eq (move : Moveclip F ρ) (touchlist : List Edict) (clip : Trace F ρ) :
    svClipMoveToEntities move touchlist clip = mergeAll clip (entityTraces move touchlist) := by
  induction touchlist generalizing clip with
  | nil => exact rfl
  | cons touch touchlist ih =>
    have hskip : move.skips touch = true →
        entityTraces move (touch :: touchlist) = entityTraces move touchlist := by
      intro skips
      simp [entityTraces, skips]
    simp only [svClipMoveToEntities]
    split
    · next not => rw [ih, hskip (by simp [Moveclip.skips, not])]
    split
    · next same => rw [ih, hskip (by simp [Moveclip.skips, passes_of_passedict same])]
    split
    · next solid =>
      cases entityTraces move (touch :: touchlist) with
      | nil => exact rfl
      | cons trace traces => exact (if_pos solid).symm
    split
    · next passes => rw [ih, hskip (by simp [Moveclip.skips, passes])]
    split
    · next dead =>
      rw [ih, hskip]
      rw [Moveclip.skips, dead, Bool.or_true]
    · next not same outside passes dead =>
      have hclipped : move.skips touch = false := by
        rw [Bool.not_eq_true] at not passes dead
        rw [Moveclip.skips, not, passes, dead]
        exact rfl
      have htrace : entityTraces move (touch :: touchlist) =
          { move.clipTo touch with ent := touch.number } :: entityTraces move touchlist := by
        simp [entityTraces, hclipped]
      rw [htrace, mergeAll, if_neg outside, ih]

theorem mergeAll_solid {clip : Trace F ρ} (solid : clip.allsolid) (traces : List (Trace F ρ)) :
    mergeAll clip traces = clip ∧ examined clip traces = [] := by
  cases traces with
  | nil => exact ⟨rfl, rfl⟩
  | cons trace traces => exact ⟨if_pos solid, if_pos solid⟩

theorem mergeAll_mem (clip : Trace F ρ) (traces : List (Trace F ρ)) :
    (mergeAll clip traces).fraction ∈
      (clip :: examined clip traces).map Trace.fraction := by
  induction traces generalizing clip with
  | nil => exact List.mem_cons_self
  | cons trace traces ih =>
    simp only [mergeAll, examined]
    split
    · exact List.mem_cons_self
    · have hrest := ih (merge clip trace)
      simp only [List.map_cons, List.mem_cons] at hrest ⊢
      rcases merge_fraction clip trace with hclip | htrace
      · rw [hclip] at hrest
        exact hrest.imp_right .inr
      · rw [htrace] at hrest
        exact .inr hrest

theorem mergeAll_startsolid (clip : Trace F ρ) (traces : List (Trace F ρ)) :
    (mergeAll clip traces).startsolid = (clip :: examined clip traces).any Trace.startsolid := by
  induction traces generalizing clip with
  | nil => simp [mergeAll, examined]
  | cons trace traces ih =>
    simp only [mergeAll, examined]
    split
    · simp
    · rw [ih]
      simp only [List.any_cons, merge_startsolid, Bool.or_assoc]

/-- As long as no trace is all solid, all are examined. -/
theorem examined_all {clip : Trace F ρ} {traces : List (Trace F ρ)} (outside : ¬clip.allsolid)
    (free : ∀ trace ∈ traces, ¬trace.allsolid) :
    examined clip traces = traces ∧ ¬(mergeAll clip traces).allsolid := by
  induction traces generalizing clip with
  | nil => exact ⟨rfl, outside⟩
  | cons trace traces ih =>
    have hmerge := merge_allsolid outside (free trace List.mem_cons_self)
    obtain ⟨hexamined, hend⟩ := ih hmerge fun other hother => free other (List.mem_cons_of_mem _ hother)
    rw [examined, if_neg outside, hexamined, mergeAll, if_neg outside]
    exact ⟨rfl, hend⟩

theorem mergeAll_concat {clip : Trace F ρ} {traces : List (Trace F ρ)} (outside : ¬clip.allsolid)
    (free : ∀ trace ∈ traces, ¬trace.allsolid) (last : Trace F ρ) :
    mergeAll clip (traces ++ [last]) = merge (mergeAll clip traces) last := by
  induction traces generalizing clip with
  | nil => exact if_neg outside
  | cons trace traces ih =>
    have hmerge := merge_allsolid outside (free trace List.mem_cons_self)
    rw [List.cons_append, mergeAll, if_neg outside, mergeAll, if_neg outside]
    exact ih hmerge fun other hother => free other (List.mem_cons_of_mem _ hother)

/-- The first trace that is all solid is the last that is merged. -/
theorem mergeAll_enclosed {clip : Trace F ρ} {traces : List (Trace F ρ)} (outside : ¬clip.allsolid)
    (some : ∃ trace ∈ traces, trace.allsolid) :
    ∃ trace ∈ traces, trace.allsolid ∧ (mergeAll clip traces).fraction = trace.fraction ∧
      (mergeAll clip traces).allsolid := by
  induction traces generalizing clip with
  | nil =>
    obtain ⟨trace, hmem, -⟩ := some
    exact absurd hmem List.not_mem_nil
  | cons trace traces ih =>
    rw [mergeAll, if_neg outside]
    by_cases all : trace.allsolid
    · obtain ⟨hfraction, hall⟩ := @merge_solid _ _ _ clip trace (.inl all)
      rw [(mergeAll_solid (hall.trans all) traces).1, hfraction]
      exact ⟨trace, List.mem_cons_self, all, rfl, hall.trans all⟩
    · have hrest : ∃ other ∈ traces, other.allsolid := by
        obtain ⟨other, hmem, hother⟩ := some
        rcases List.mem_cons.mp hmem with rfl | hmem
        · exact absurd hother all
        · exact ⟨other, hmem, hother⟩
      obtain ⟨other, hmem, hother, hfraction⟩ := ih (merge_allsolid outside all) hrest
      exact ⟨other, List.mem_cons_of_mem _ hmem, hother, hfraction⟩

/-- Without a trace in solid the least fraction is kept. -/
theorem mergeAll_free {clip : Trace F ρ} {traces : List (Trace F ρ)} (outside : ¬clip.allsolid)
    (free : ∀ trace ∈ traces, ¬(trace.allsolid ∨ trace.startsolid)) :
    ∀ other ∈ clip :: traces, (mergeAll clip traces).fraction ≤ other.fraction := by
  induction traces generalizing clip with
  | nil =>
    intro other hother
    rw [List.mem_singleton.mp hother, mergeAll]
  | cons trace traces ih =>
    have hfirst := free trace List.mem_cons_self
    have hmerge := merge_allsolid outside fun all => hfirst (.inl all)
    have hrest := ih hmerge fun other hother => free other (List.mem_cons_of_mem _ hother)
    have hmin := hrest (merge clip trace) List.mem_cons_self
    rw [merge_free hfirst, le_min_iff] at hmin
    rw [mergeAll, if_neg outside]
    intro other hother
    rcases List.mem_cons.mp hother with rfl | hother
    · exact hmin.1
    rcases List.mem_cons.mp hother with rfl | hother
    · exact hmin.2
    · exact hrest other (List.mem_cons_of_mem _ hother)

/-- The last trace that starts in solid bounds the result. -/
theorem mergeAll_started {clip : Trace F ρ} {traces : List (Trace F ρ)} (outside : ¬clip.allsolid)
    (free : ∀ trace ∈ traces, ¬trace.allsolid) (some : ∃ trace ∈ traces, trace.startsolid) :
    ∃ trace ∈ traces, trace.startsolid ∧ (mergeAll clip traces).fraction ≤ trace.fraction := by
  induction traces generalizing clip with
  | nil =>
    obtain ⟨trace, hmem, -⟩ := some
    exact absurd hmem List.not_mem_nil
  | cons trace traces ih =>
    have hmerge := merge_allsolid outside (free trace List.mem_cons_self)
    have hfree : ∀ other ∈ traces, ¬other.allsolid :=
      fun other hother => free other (List.mem_cons_of_mem _ hother)
    rw [mergeAll, if_neg outside]
    by_cases later : ∃ other ∈ traces, other.startsolid
    · obtain ⟨other, hmem, hother, hle⟩ := ih hmerge hfree later
      exact ⟨other, List.mem_cons_of_mem _ hmem, hother, hle⟩
    · have hstart : trace.startsolid := by
        obtain ⟨other, hmem, hother⟩ := some
        rcases List.mem_cons.mp hmem with rfl | hmem
        · exact hother
        · exact absurd ⟨other, hmem, hother⟩ later
      have hle := mergeAll_free hmerge (by
        rintro other hother (all | start)
        · exact hfree other hother all
        · exact later ⟨other, hother, start⟩) (merge clip trace) List.mem_cons_self
      rw [(merge_solid (.inr hstart)).1] at hle
      exact ⟨trace, List.mem_cons_self, hstart, hle⟩

/-! ## All orders -/

variable {world : Trace F ρ} {traces order : List (Trace F ρ)}

theorem examined_subset (clip : Trace F ρ) (traces : List (Trace F ρ)) :
    examined clip traces ⊆ traces := by
  induction traces generalizing clip with
  | nil => exact List.Subset.refl []
  | cons trace traces ih =>
    rw [examined]
    split
    · exact List.nil_subset _
    · exact List.cons_subset_cons trace (ih _)

/-- The traces that decide come out, and nothing is shorter. -/
theorem mergeAll_le (outside : ¬world.allsolid)
    (shortest : ∀ trace, Decides traces trace → ∀ other ∈ world :: traces,
      trace.fraction ≤ other.fraction) (perm : order.Perm traces) :
    ∀ other ∈ world :: traces, (mergeAll world order).fraction ≤ other.fraction := by
  by_cases enclosed : ∃ trace ∈ order, trace.allsolid
  · obtain ⟨trace, hmem, hall, hfraction, -⟩ := mergeAll_enclosed outside enclosed
    rw [hfraction]
    exact shortest trace ⟨perm.mem_iff.mp hmem, .inl hall⟩
  have free : ∀ trace ∈ order, ¬trace.allsolid := fun trace hmem hall => enclosed ⟨trace, hmem, hall⟩
  by_cases started : ∃ trace ∈ order, trace.startsolid
  · obtain ⟨trace, hmem, hstart, hle⟩ := mergeAll_started outside free started
    have decides : Decides traces trace :=
      ⟨perm.mem_iff.mp hmem, .inr ⟨fun other hother => free other (perm.mem_iff.mpr hother), hstart⟩⟩
    exact fun other hother => hle.trans (shortest trace decides other hother)
  · intro other hother
    refine mergeAll_free outside ?_ other ((perm.cons world).mem_iff.mpr hother)
    rintro trace hmem (hall | hstart)
    · exact free trace hmem hall
    · exact started ⟨trace, hmem, hstart⟩

theorem startsolid_perm (outside : ¬world.allsolid) (perm : order.Perm traces) :
    (mergeAll world order).startsolid = (mergeAll world traces).startsolid := by
  by_cases enclosed : ∃ trace ∈ traces, trace.allsolid
  · have horder : ∃ trace ∈ order, trace.allsolid := by
      obtain ⟨trace, hmem, hall⟩ := enclosed
      exact ⟨trace, perm.mem_iff.mpr hmem, hall⟩
    obtain ⟨-, -, -, -, hall⟩ := mergeAll_enclosed outside enclosed
    obtain ⟨-, -, -, -, hall'⟩ := mergeAll_enclosed outside horder
    rw [(mergeAll world traces).solid hall, (mergeAll world order).solid hall']
  · have free : ∀ trace ∈ traces, ¬trace.allsolid :=
      fun trace hmem hall => enclosed ⟨trace, hmem, hall⟩
    have horder : ∀ trace ∈ order, ¬trace.allsolid :=
      fun trace hmem => free trace (perm.mem_iff.mp hmem)
    rw [mergeAll_startsolid, mergeAll_startsolid, (examined_all outside free).1,
      (examined_all outside horder).1]
    exact (perm.cons world).any_eq

section Zero
variable [Zero F]

theorem ended_stopped (stopped : world.fraction = 0) (traces : List (Trace F ρ)) :
    ended world traces = world ∧ lookedAt world traces = [] :=
  ⟨if_pos stopped, if_pos stopped⟩

theorem ended_moving (moving : ¬world.fraction = 0) (traces : List (Trace F ρ)) :
    ended world traces = mergeAll world traces ∧ lookedAt world traces = examined world traces :=
  ⟨if_neg moving, if_neg moving⟩

/-- Nothing is left of the claim but that the result is no longer than what was examined. -/
theorem merged_of_le
    (h : ∀ other ∈ world :: lookedAt world traces, (ended world traces).fraction ≤ other.fraction) :
    Merged world traces := by
  refine ⟨⟨?_, ?_⟩, ?_⟩
  · by_cases stopped : world.fraction = 0
    · rw [(ended_stopped stopped traces).1]
      exact List.mem_cons_self
    · rw [(ended_moving stopped traces).1, (ended_moving stopped traces).2]
      exact mergeAll_mem world traces
  · intro f hf
    obtain ⟨other, hother, rfl⟩ := List.mem_map.mp hf
    exact h other hother
  · by_cases stopped : world.fraction = 0
    · rw [(ended_stopped stopped traces).1, (ended_stopped stopped traces).2]
      simp
    · rw [(ended_moving stopped traces).1, (ended_moving stopped traces).2]
      exact mergeAll_startsolid world traces

/-- The order does not matter where one trace is the shortest. -/
theorem orderFree_of_shortest (h : Shortest world traces) : OrderFree world traces := by
  intro order perm
  by_cases stopped : world.fraction = 0
  · obtain ⟨hend, hlooked⟩ := ended_stopped stopped order
    rw [(ended_stopped stopped traces).1, hend]
    refine ⟨merged_of_le ?_, rfl, rfl⟩
    rw [hend, hlooked]
    intro other hother
    rw [List.mem_singleton.mp hother]
  by_cases solid : world.allsolid
  · obtain ⟨hend, hlooked⟩ := ended_moving stopped order
    rw [(mergeAll_solid solid order).1] at hend
    rw [(mergeAll_solid solid order).2] at hlooked
    rw [(ended_moving stopped traces).1, (mergeAll_solid solid traces).1, hend]
    refine ⟨merged_of_le ?_, rfl, rfl⟩
    rw [hend, hlooked]
    intro other hother
    rw [List.mem_singleton.mp hother]
  · have shortest := (h.resolve_left stopped).resolve_left solid
    have hle := mergeAll_le solid shortest perm
    have hle' := mergeAll_le solid shortest (List.Perm.refl traces)
    obtain ⟨hend, hlooked⟩ := ended_moving stopped order
    have hmem : ∀ order : List (Trace F ρ), order.Perm traces →
        ∃ other ∈ world :: traces, (mergeAll world order).fraction = other.fraction := by
      intro order perm
      obtain ⟨other, hother, hfraction⟩ := List.mem_map.mp (mergeAll_mem world order)
      refine ⟨other, ?_, hfraction.symm⟩
      rcases List.mem_cons.mp hother with rfl | hother
      · exact List.mem_cons_self
      · exact List.mem_cons_of_mem _ (perm.mem_iff.mp (examined_subset world order hother))
    rw [(ended_moving stopped traces).1, hend]
    refine ⟨merged_of_le ?_, ?_, startsolid_perm solid perm⟩
    · rw [hend, hlooked]
      intro other hother
      rcases List.mem_cons.mp hother with rfl | hother
      · exact hle _ List.mem_cons_self
      · exact hle other (List.mem_cons_of_mem _
          (perm.mem_iff.mp (examined_subset world order hother)))
    · obtain ⟨a, ha, hafraction⟩ := hmem order perm
      obtain ⟨b, hb, hbfraction⟩ := hmem traces (List.Perm.refl traces)
      refine le_antisymm ?_ ?_
      · rw [hbfraction]
        exact hle b hb
      · rw [hafraction]
        exact hle' a ha

/-- A trace that is all solid wins if it comes first. -/
theorem enclosed_first (moving : ¬world.fraction = 0) (outside : ¬world.allsolid)
    (h : OrderFree world traces) {trace : Trace F ρ} (hmem : trace ∈ traces)
    (hall : trace.allsolid) :
    (ended world traces).fraction = trace.fraction ∧ trace.fraction ≤ world.fraction := by
  obtain ⟨front, back, rfl⟩ := List.append_of_mem hmem
  obtain ⟨hmerged, hsame, -⟩ := h (trace :: (front ++ back)) List.perm_middle.symm
  obtain ⟨hfraction, hsolid⟩ := @merge_solid _ _ _ world trace (.inl hall)
  have hended : (ended world (trace :: (front ++ back))).fraction = trace.fraction := by
    rw [(ended_moving moving _).1, mergeAll, if_neg outside,
      (mergeAll_solid (hsolid.trans hall) _).1, hfraction]
  refine ⟨hsame.symm.trans hended, ?_⟩
  rw [← hended]
  exact hmerged.fraction.2 List.mem_cons_self

/-- A trace in front of one that is all solid is examined. -/
theorem enclosed_second (moving : ¬world.fraction = 0) (outside : ¬world.allsolid)
    (h : OrderFree world traces) {trace other : Trace F ρ} (hmem : trace ∈ traces)
    (hall : trace.allsolid) (hother : other ∈ traces) (hfree : ¬other.allsolid) :
    trace.fraction ≤ other.fraction := by
  have hfirst := (enclosed_first moving outside h hmem hall).1
  obtain ⟨front, back, rfl⟩ := List.append_of_mem hother
  have hrest : trace ∈ front ++ back := by
    rcases List.mem_cons.mp (List.perm_middle.mem_iff.mp hmem) with rfl | hrest
    · exact absurd hall hfree
    · exact hrest
  obtain ⟨hmerged, hsame, -⟩ := h (other :: (front ++ back)) List.perm_middle.symm
  rw [← hfirst, ← hsame]
  refine hmerged.fraction.2 (List.mem_map_of_mem (List.mem_cons_of_mem _ ?_))
  rw [(ended_moving moving _).2, examined, if_neg outside]
  exact List.mem_cons_self

/-- A trace that starts in solid wins if it comes last. -/
theorem started_last (moving : ¬world.fraction = 0) (outside : ¬world.allsolid)
    (h : OrderFree world traces) {trace : Trace F ρ} (hmem : trace ∈ traces)
    (free : ∀ other ∈ traces, ¬other.allsolid) (hstart : trace.startsolid) :
    ∀ other ∈ world :: traces, trace.fraction ≤ other.fraction := by
  obtain ⟨front, back, rfl⟩ := List.append_of_mem hmem
  have perm : ((front ++ back) ++ [trace]).Perm (front ++ trace :: back) :=
    (List.perm_append_singleton trace (front ++ back)).trans List.perm_middle.symm
  have hfree : ∀ other ∈ (front ++ back) ++ [trace], ¬other.allsolid :=
    fun other hother => free other (perm.mem_iff.mp hother)
  obtain ⟨hmerged, -, -⟩ := h _ perm
  have hended : (ended world ((front ++ back) ++ [trace])).fraction = trace.fraction := by
    rw [(ended_moving moving _).1, mergeAll_concat outside
      (fun other hother => hfree other (List.mem_append_left _ hother))]
    exact (merge_solid (.inr hstart)).1
  have hlooked : lookedAt world ((front ++ back) ++ [trace]) = (front ++ back) ++ [trace] := by
    rw [(ended_moving moving _).2, (examined_all outside hfree).1]
  intro other hother
  rw [← hended]
  refine hmerged.fraction.2 (List.mem_map_of_mem ?_)
  rw [hlooked]
  exact (perm.cons world).mem_iff.mpr hother

theorem shortest_of_orderFree (h : OrderFree world traces) : Shortest world traces := by
  by_cases moving : world.fraction = 0
  · exact .inl moving
  by_cases outside : world.allsolid
  · exact .inr (.inl outside)
  refine .inr (.inr ?_)
  rintro trace ⟨hmem, hall | ⟨free, hstart⟩⟩ other hother
  · rcases List.mem_cons.mp hother with rfl | hother
    · exact (enclosed_first moving outside h hmem hall).2
    by_cases hsolid : other.allsolid
    · have htrace := (enclosed_first moving outside h hmem hall).1
      have hother := (enclosed_first moving outside h hother hsolid).1
      exact (htrace.symm.trans hother).le
    · exact enclosed_second moving outside h hmem hall hother hsolid
  · exact started_last moving outside h hmem free hstart other hother

/-- `SV_Trace` merges the traces of the entities that are not skipped; its fraction is the least
that was examined, `startsolid` is set if one was, and both are the same in every order, exactly if
the traces that decide by being in solid are no longer than any other. -/
theorem svTrace_orderFree_iff (world : Trace F ρ) :
    (∀ move touchlist, svTrace move world touchlist =
      ended { world with ent := 0 } (entityTraces move touchlist)) ∧
    ∀ traces, OrderFree world traces ↔ Shortest world traces := by
  refine ⟨fun move touchlist => ?_, fun traces => ⟨shortest_of_orderFree, orderFree_of_shortest⟩⟩
  rw [svTrace, ended]
  split
  · exact rfl
  · exact svClipMoveToEntities_eq move touchlist _

end Zero

/-- The move hits the world half way; it starts in an entity that it leaves, and that trace is
taken with its fraction of 1. -/
theorem started_inside_wins :
    ¬OrderFree (⟨false, false, by decide, 1 / 2, 0, ()⟩ : Trace ℚ Unit)
      [⟨false, true, by decide, 1, 1, ()⟩] := by
  intro free
  rcases shortest_of_orderFree free with stopped | enclosed | shortest
  · norm_num at stopped
  · exact absurd enclosed Bool.false_ne_true
  · have decides : Decides [(⟨false, true, by decide, 1, 1, ()⟩ : Trace ℚ Unit)]
        ⟨false, true, by decide, 1, 1, ()⟩ := by
      refine ⟨List.mem_cons_self, .inr ⟨?_, rfl⟩⟩
      intro other hother
      rw [List.mem_singleton.mp hother]
      exact Bool.false_ne_true
    have := shortest _ decides _ List.mem_cons_self
    norm_num at this

end TraceMerge
