import Kpded2.BoxTrace

/-!
# The leafs that a box comes to

The planes of the tree are passed with an epsilon to spare, but on one side: where a move crosses a
plane from behind, it leaves the back child an epsilon too early. A point that the box has in it by
some fraction, and that no plane cuts off so, is in a leaf that the box comes to by then.
-/
namespace BoxTrace
open DeltaEntity (Vec3)

variable {m : Move} {f e : Rat} {q : Vec3}

/-! ## A point in the box -/

theorem extent_covers {mins maxs d : Rat} (covers : mins ≤ d ∧ d ≤ maxs) :
    |d| ≤ extent mins maxs := by
  obtain ⟨low, high⟩ := covers
  simp only [extent, abs_le]
  split
  · constructor
    · linarith
    · linarith
  · constructor
    · linarith
    · linarith

theorem still_covers {d : Rat} (covers : 0 ≤ d ∧ d ≤ 0) : |d| ≤ 0 :=
  abs_nonpos_iff.mpr (le_antisymm covers.2 covers.1)

theorem axis_covered {p q : Vec3} (covers : m.Covers p q) (axis : Axis) :
    |axis.get q - axis.get p| ≤ axis.get m.extents := by
  have x : m.mins.x ≤ q.x - p.x ∧ q.x - p.x ≤ m.maxs.x :=
    ⟨by linarith [covers.x.1], by linarith [covers.x.2]⟩
  have y : m.mins.y ≤ q.y - p.y ∧ q.y - p.y ≤ m.maxs.y :=
    ⟨by linarith [covers.y.1], by linarith [covers.y.2]⟩
  have z : m.mins.z ≤ q.z - p.z ∧ q.z - p.z ≤ m.maxs.z :=
    ⟨by linarith [covers.z.1], by linarith [covers.z.2]⟩
  rw [Move.extents]
  split
  · rename_i point
    obtain ⟨mins, maxs⟩ := of_decide_eq_true point
    rw [mins, maxs] at x y z
    cases axis with
    | x => exact still_covers x
    | y => exact still_covers y
    | z => exact still_covers z
  · cases axis with
    | x => exact extent_covers x
    | y => exact extent_covers y
    | z => exact extent_covers z

theorem offset_none {plane : Plane} (type : plane.type = none) :
    m.offset plane = |m.extents.x * plane.normal.x| + |m.extents.y * plane.normal.y| +
      |m.extents.z * plane.normal.z| := by
  simp only [Move.offset, type]
  split
  · rename_i point
    simp only [Move.extents, point, if_true, zero_mul, abs_zero, add_zero]
  · rfl

theorem abs_mul_le {d e : Rat} (n : Rat) (bound : |d| ≤ e) : |n * d| ≤ |e * n| := by
  rw [abs_mul, abs_mul, mul_comm |e|]
  exact mul_le_mul_of_nonneg_left (bound.trans (le_abs_self e)) (abs_nonneg n)

/-- A point of the box is no farther from a plane than the offset. -/
theorem ahead_covered {p q : Vec3} (plane : Plane) (covers : m.Covers p q) :
    |plane.ahead q - plane.ahead p| ≤ m.offset plane := by
  cases type : plane.type with
  | some axis =>
    have apart : axis.get q - plane.dist - (axis.get p - plane.dist) = axis.get q - axis.get p := by
      ring
    simp only [Plane.ahead, Move.offset, type, apart]
    exact axis_covered covers axis
  | none =>
    have apart : dotProduct plane.normal q - plane.dist - (dotProduct plane.normal p - plane.dist) =
        plane.normal.x * (q.x - p.x) + plane.normal.y * (q.y - p.y) +
          plane.normal.z * (q.z - p.z) := by
      simp only [dotProduct]
      ring
    simp only [offset_none type, Plane.ahead, type, apart]
    refine (abs_add_three _ _ _).trans ?_
    refine add_le_add (add_le_add ?_ ?_) ?_
    · exact abs_mul_le _ (axis_covered covers .x)
    · exact abs_mul_le _ (axis_covered covers .y)
    · exact abs_mul_le _ (axis_covered covers .z)

theorem clamped_le {frac g : Rat} (low : 0 ≤ g) (before : frac ≤ g) : clamped frac ≤ g := by
  simp only [clamped]
  split
  · exact low
  · split
    · rename_i high
      exact le_trans (le_of_lt high) before
    · exact before

theorem le_clamped {frac g : Rat} (high : g ≤ 1) (before : g ≤ frac) : g ≤ clamped frac := by
  simp only [clamped]
  split
  · rename_i low
    exact le_trans before (le_of_lt low)
  · split
    · exact high
    · exact before

/-- The front child is searched where the box reaches it. -/
theorem crossing_front {t1 t2 offset g : Rat} (inside : 0 ≤ g ∧ g ≤ 1)
    (reaches : -offset ≤ t1 + g * (t2 - t1)) :
    if (crossing t1 t2 offset).side then clamped (crossing t1 t2 offset).frac2 ≤ g
    else g ≤ clamped (crossing t1 t2 offset).frac := by
  have epsilon : distEpsilon = 1 / 32 := rfl
  simp only [crossing, mul_one_div]
  rcases lt_trichotomy t1 t2 with rising | level | falling
  · simp only [if_pos rising, if_true]
    refine clamped_le inside.1 ?_
    rw [div_le_iff_of_neg (sub_neg.mpr rising)]
    linarith
  · simp only [level, lt_irrefl, if_false, Bool.false_eq_true]
    exact le_clamped inside.2 inside.2
  · simp only [if_neg (lt_asymm falling), gt_iff_lt, if_pos falling, Bool.false_eq_true, if_false]
    refine le_clamped inside.2 ?_
    rw [le_div_iff₀ (sub_pos.mpr falling)]
    linarith

/-- The back child is searched where the box reaches it, but for an epsilon if the move comes from
there. -/
theorem crossing_back {t1 t2 offset g : Rat} (inside : 0 ≤ g ∧ g ≤ 1)
    (reaches : t1 + g * (t2 - t1) < offset)
    (rising : t1 < t2 → t1 + g * (t2 - t1) ≤ offset - distEpsilon) :
    if (crossing t1 t2 offset).side then g ≤ clamped (crossing t1 t2 offset).frac
    else clamped (crossing t1 t2 offset).frac2 ≤ g := by
  have epsilon : distEpsilon = 1 / 32 := rfl
  simp only [crossing, mul_one_div]
  rcases lt_trichotomy t1 t2 with up | level | falling
  · have reaches := rising up
    simp only [if_pos up, if_true]
    refine le_clamped inside.2 ?_
    rw [le_div_iff_of_neg (sub_neg.mpr up)]
    linarith
  · simp only [level, lt_irrefl, if_false, Bool.false_eq_true]
    exact clamped_le inside.1 inside.1
  · simp only [if_neg (lt_asymm falling), gt_iff_lt, if_pos falling, Bool.false_eq_true, if_false]
    refine clamped_le inside.1 ?_
    rw [div_le_iff₀ (sub_pos.mpr falling)]
    linarith

/-! ## The parts of a move -/

theorem place_within {p1f p2f : Rat} (low : p1f ≤ f) (high : f ≤ p2f) :
    ∃ g, (0 ≤ g ∧ g ≤ 1) ∧ f = p1f + (p2f - p1f) * g := by
  by_cases still : p1f = p2f
  · subst still
    refine ⟨0, ⟨le_refl _, zero_le_one⟩, ?_⟩
    rw [mul_zero, add_zero]
    exact le_antisymm high low
  · have positive : 0 < p2f - p1f := sub_pos.mpr (lt_of_le_of_ne (low.trans high) still)
    refine ⟨(f - p1f) / (p2f - p1f), ⟨?_, ?_⟩, ?_⟩
    · exact div_nonneg (sub_nonneg.mpr low) (le_of_lt positive)
    · rw [div_le_one positive]
      exact sub_le_sub_right high p1f
    · rw [mul_div_cancel₀ _ (ne_of_gt positive)]
      ring

theorem mid_le_mid {p1f p2f frac frac' : Rat} (forward : p1f ≤ p2f) (before : frac ≤ frac') :
    p1f + (p2f - p1f) * frac ≤ p1f + (p2f - p1f) * frac' :=
  add_le_add_right (mul_le_mul_of_nonneg_left before (sub_nonneg.mpr forward)) p1f

theorem above_between {t1 t2 g c : Rat} (inside : 0 ≤ g ∧ g ≤ 1) (above1 : c ≤ t1)
    (above2 : c ≤ t2) : c ≤ t1 + g * (t2 - t1) := by
  have part1 : 0 ≤ (1 - g) * (t1 - c) :=
    mul_nonneg (sub_nonneg.mpr inside.2) (sub_nonneg.mpr above1)
  have part2 : 0 ≤ g * (t2 - c) := mul_nonneg inside.1 (sub_nonneg.mpr above2)
  linarith

theorem below_between {t1 t2 g c : Rat} (inside : 0 ≤ g ∧ g ≤ 1) (below1 : t1 < c)
    (below2 : t2 < c) : t1 + g * (t2 - t1) < c := by
  rcases lt_or_ge t1 t2 with rising | falling
  · have part : g * (t2 - t1) ≤ 1 * (t2 - t1) :=
      mul_le_mul_of_nonneg_right inside.2 (sub_nonneg.mpr (le_of_lt rising))
    linarith
  · have part : 0 ≤ g * (t1 - t2) := mul_nonneg inside.1 (sub_nonneg.mpr falling)
    linarith

theorem rising_of_lt {plane : Plane} {p1f p2f : Rat} (forward : p1f ≤ p2f)
    (up : plane.ahead (m.place p1f) < plane.ahead (m.place p2f)) : m.Rising plane := by
  simp only [Move.place, ahead_between] at up
  by_contra falls
  have part : 0 ≤ (p2f - p1f) * (plane.ahead m.start - plane.ahead m.stop) :=
    mul_nonneg (sub_nonneg.mpr forward) (sub_nonneg.mpr (not_lt.mp falls))
  linarith

theorem passes_below (hull : Hull) (p1f p2f : Rat) :
    ∀ pass ∈ hull.passes m p1f p2f, pass.leaf ∈ hull.leafs := by
  induction hull generalizing p1f p2f with
  | leaf here =>
    intro pass listed
    rw [List.mem_singleton.mp listed]
    exact List.mem_cons_self
  | node plane children0 children1 ih0 ih1 =>
    have below0 : ∀ p1f p2f, ∀ pass ∈ children0.passes m p1f p2f,
        pass.leaf ∈ (Hull.node plane children0 children1).leafs := fun p1f p2f pass listed =>
      List.mem_append_left _ (ih0 p1f p2f pass listed)
    have below1 : ∀ p1f p2f, ∀ pass ∈ children1.passes m p1f p2f,
        pass.leaf ∈ (Hull.node plane children0 children1).leafs := fun p1f p2f pass listed =>
      List.mem_append_right _ (ih1 p1f p2f pass listed)
    simp only [Hull.passes]
    split
    · exact below0 p1f p2f
    · split
      · exact below1 p1f p2f
      · split
        · intro pass listed
          exact (List.mem_append.mp listed).elim (below1 _ _ pass) (below0 _ _ pass)
        · intro pass listed
          exact (List.mem_append.mp listed).elim (below0 _ _ pass) (below1 _ _ pass)

/-- The box comes to the leaf by the fraction `e`. -/
def Met (e : Rat) (leaf : Leaf) (passes : List Pass) : Prop :=
  ∃ pass ∈ passes, pass.leaf = leaf ∧ pass.p1f ≤ e

theorem Met.left {leaf : Leaf} {passes : List Pass} (met : Met e leaf passes) (rest : List Pass) :
    Met e leaf (passes ++ rest) := by
  obtain ⟨pass, listed, found⟩ := met
  exact ⟨pass, List.mem_append_left _ listed, found⟩

theorem Met.right {leaf : Leaf} {passes : List Pass} (met : Met e leaf passes)
    (before : List Pass) : Met e leaf (before ++ passes) := by
  obtain ⟨pass, listed, found⟩ := met
  exact ⟨pass, List.mem_append_right _ listed, found⟩

/-- The search goes down the front of a plane when a leaf there is touched. -/
theorem node_meets_front {plane : Plane} {children0 children1 : Hull} {leaf : Leaf}
    (covers : m.Covers (m.place e) q) (front : 0 ≤ plane.ahead q)
    (meets : ∀ p1f p2f, p1f ≤ e → e ≤ p2f → Met e leaf (children0.passes m p1f p2f))
    {p1f p2f : Rat} (low : p1f ≤ e) (high : e ≤ p2f) :
    Met e leaf ((Hull.node plane children0 children1).passes m p1f p2f) := by
  obtain ⟨g, inside, e_eq⟩ := place_within low high
  have reaches : -m.offset plane ≤ plane.ahead (m.place e) := by
    have near := abs_le.mp (ahead_covered plane covers)
    linarith
  rw [e_eq, ← place_between, ahead_between] at reaches
  simp only [Hull.passes]
  split
  · exact meets p1f p2f low high
  · split
    · rename_i behind
      exact absurd reaches (not_le.mpr (below_between inside behind.1 behind.2))
    · have covered := crossing_front inside reaches
      split
      · rename_i side
        rw [side, if_pos rfl] at covered
        have before := mid_le_mid (low.trans high) covered
        exact (meets _ p2f (e_eq ▸ before) high).right _
      · rename_i side
        rw [if_neg side] at covered
        have after := mid_le_mid (low.trans high) covered
        exact (meets p1f _ low (e_eq ▸ after)).left _

/-- The search goes down the back of a plane when a leaf there is touched. -/
theorem node_meets_back {plane : Plane} {children0 children1 : Hull} {leaf : Leaf}
    (covers : m.Covers (m.place e) q) (back : plane.ahead q < 0)
    (rising : m.Rising plane → plane.ahead (m.place e) ≤ m.offset plane - distEpsilon)
    (meets : ∀ p1f p2f, p1f ≤ e → e ≤ p2f → Met e leaf (children1.passes m p1f p2f))
    {p1f p2f : Rat} (low : p1f ≤ e) (high : e ≤ p2f) :
    Met e leaf ((Hull.node plane children0 children1).passes m p1f p2f) := by
  obtain ⟨g, inside, e_eq⟩ := place_within low high
  have reaches : plane.ahead (m.place e) < m.offset plane := by
    have near := abs_le.mp (ahead_covered plane covers)
    linarith
  rw [e_eq, ← place_between, ahead_between] at reaches rising
  simp only [Hull.passes]
  split
  · rename_i ahead
    exact absurd reaches (not_lt.mpr (above_between inside ahead.1 ahead.2))
  · split
    · exact meets p1f p2f low high
    · have covered := crossing_back inside reaches fun up =>
        rising (rising_of_lt (low.trans high) up)
      split
      · rename_i side
        rw [side, if_pos rfl] at covered
        have after := mid_le_mid (low.trans high) covered
        exact (meets p1f _ low (e_eq ▸ after)).left _
      · rename_i side
        rw [if_neg side] at covered
        have before := mid_le_mid (low.trans high) covered
        exact (meets _ p2f (e_eq ▸ before) high).right _

/-- The box has a point in it: it has come to the leaf of that point. -/
theorem passes_meet (covers : m.Covers (m.place e) q) (hull : Hull)
    (keeps : hull.Keeps m (m.place e) q) (p1f p2f : Rat) (low : p1f ≤ e) (high : e ≤ p2f) :
    Met e (hull.leafAt q) (hull.passes m p1f p2f) := by
  induction hull generalizing p1f p2f with
  | leaf here => exact ⟨⟨p1f, here⟩, List.mem_cons_self, rfl, low⟩
  | node plane children0 children1 ih0 ih1 =>
    simp only [Hull.Keeps] at keeps
    simp only [Hull.leafAt]
    by_cases front : 0 ≤ plane.ahead q
    · rw [if_pos front] at keeps ⊢
      exact node_meets_front covers front (ih0 keeps) low high
    · rw [if_neg front] at keeps ⊢
      exact node_meets_back covers (not_le.mp front) keeps.1 (ih1 keeps.2) low high

/-! ## The leafs at rest -/

/-- `q` is well inside the box. -/
structure Amid (mins maxs q : Vec3) : Prop where
  x : mins.x < q.x ∧ q.x < maxs.x
  y : mins.y < q.y ∧ q.y < maxs.y
  z : mins.z < q.z ∧ q.z < maxs.z

theorem amid_start {q : Vec3} (covers : m.Covers m.start q) : Amid m.c1 m.c2 q := by
  refine ⟨⟨?_, ?_⟩, ⟨?_, ?_⟩, ⟨?_, ?_⟩⟩
  · exact lt_of_lt_of_le (sub_one_lt _) covers.x.1
  · exact lt_of_le_of_lt covers.x.2 (lt_add_one _)
  · exact lt_of_lt_of_le (sub_one_lt _) covers.y.1
  · exact lt_of_le_of_lt covers.y.2 (lt_add_one _)
  · exact lt_of_lt_of_le (sub_one_lt _) covers.z.1
  · exact lt_of_le_of_lt covers.z.2 (lt_add_one _)

theorem corner_le {mins maxs q : Rat} (n : Rat) (amid : mins < q ∧ q < maxs) :
    n * (if n < 0 then maxs else mins) ≤ n * q := by
  split
  · rename_i negative
    exact mul_le_mul_of_nonpos_left (le_of_lt amid.2) (le_of_lt negative)
  · rename_i positive
    exact mul_le_mul_of_nonneg_left (le_of_lt amid.1) (not_lt.mp positive)

theorem le_corner {mins maxs q : Rat} (n : Rat) (amid : mins < q ∧ q < maxs) :
    n * q ≤ n * (if n < 0 then mins else maxs) := by
  split
  · rename_i negative
    exact mul_le_mul_of_nonpos_left (le_of_lt amid.1) (le_of_lt negative)
  · rename_i positive
    exact mul_le_mul_of_nonneg_left (le_of_lt amid.2) (not_lt.mp positive)

theorem axis_amid {mins maxs q : Vec3} (amid : Amid mins maxs q) (axis : Axis) :
    axis.get mins < axis.get q ∧ axis.get q < axis.get maxs := by
  cases axis with
  | x => exact amid.x
  | y => exact amid.y
  | z => exact amid.z

theorem dotProduct_corner_le {mins maxs q : Vec3} (normal : Vec3) (amid : Amid mins maxs q) :
    dotProduct normal (ofs mins maxs normal) ≤ dotProduct normal q :=
  add_le_add (add_le_add (corner_le normal.x amid.x) (corner_le normal.y amid.y))
    (corner_le normal.z amid.z)

theorem le_dotProduct_corner {mins maxs q : Vec3} (normal : Vec3) (amid : Amid mins maxs q) :
    dotProduct normal q ≤ dotProduct normal (ofs maxs mins normal) :=
  add_le_add (add_le_add (le_corner normal.x amid.x) (le_corner normal.y amid.y))
    (le_corner normal.z amid.z)

theorem boxOnPlaneSide_front {mins maxs q : Vec3} {plane : Plane} (amid : Amid mins maxs q)
    (front : boxOnPlaneSide mins maxs plane = 1) : 0 ≤ plane.ahead q := by
  cases type : plane.type with
  | some axis =>
    simp only [boxOnPlaneSide, type] at front
    simp only [Plane.ahead, type]
    split at front
    · rename_i above
      exact sub_nonneg.mpr (above.trans (le_of_lt (axis_amid amid axis).1))
    · split at front
      · cases front
      · cases front
  | none =>
    simp only [boxOnPlaneSide, type] at front
    simp only [Plane.ahead, type]
    have above : ¬dotProduct plane.normal (ofs mins maxs plane.normal) < plane.dist := by
      intro below
      rw [if_pos below] at front
      omega
    exact sub_nonneg.mpr ((not_lt.mp above).trans (dotProduct_corner_le plane.normal amid))

theorem boxOnPlaneSide_back {mins maxs q : Vec3} {plane : Plane} (amid : Amid mins maxs q)
    (back : boxOnPlaneSide mins maxs plane = 2) : plane.ahead q < 0 := by
  cases type : plane.type with
  | some axis =>
    simp only [boxOnPlaneSide, type] at back
    simp only [Plane.ahead, type]
    split at back
    · cases back
    · split at back
      · rename_i below
        exact sub_neg.mpr (lt_of_lt_of_le (axis_amid amid axis).2 below)
      · cases back
  | none =>
    simp only [boxOnPlaneSide, type] at back
    simp only [Plane.ahead, type]
    have below : ¬dotProduct plane.normal (ofs maxs mins plane.normal) ≥ plane.dist := by
      intro above
      rw [if_pos above] at back
      split at back
      · cases back
      · cases back
    exact sub_neg.mpr (lt_of_le_of_lt (le_dotProduct_corner plane.normal amid) (not_le.mp below))

theorem leafAt_touched {mins maxs q : Vec3} (amid : Amid mins maxs q) (hull : Hull) :
    hull.leafAt q ∈ touched mins maxs hull := by
  induction hull with
  | leaf here => exact List.mem_cons_self
  | node plane children0 children1 ih0 ih1 =>
    simp only [Hull.leafAt, touched]
    by_cases front : boxOnPlaneSide mins maxs plane = 1
    · rw [if_pos front, if_pos (boxOnPlaneSide_front amid front)]
      exact ih0
    · rw [if_neg front]
      by_cases back : boxOnPlaneSide mins maxs plane = 2
      · rw [if_pos back, if_neg (not_le.mpr (boxOnPlaneSide_back amid back))]
        exact ih1
      · rw [if_neg back]
        split
        · exact List.mem_append_left _ ih0
        · exact List.mem_append_right _ ih1

theorem touched_below (mins maxs : Vec3) (hull : Hull) :
    ∀ leaf ∈ touched mins maxs hull, leaf ∈ hull.leafs := by
  induction hull with
  | leaf here => exact fun _ listed => listed
  | node plane children0 children1 ih0 ih1 =>
    simp only [touched]
    split
    · exact fun leaf listed => List.mem_append_left _ (ih0 leaf listed)
    · split
      · exact fun leaf listed => List.mem_append_right _ (ih1 leaf listed)
      · exact fun leaf listed => List.mem_append.mpr
          ((List.mem_append.mp listed).imp (ih0 leaf) (ih1 leaf))

/-! ## Every leaf of a trace -/

variable {map : Map}

theorem map_passes_below : ∀ pass ∈ map.passes m, pass.leaf ∈ map.headnode.leafs := by
  simp only [Map.passes]
  split
  · intro pass listed
    obtain ⟨leaf, here, rfl⟩ := List.mem_map.mp listed
    exact touched_below _ _ map.headnode leaf here
  · exact passes_below map.headnode 0 1

theorem map_passes_meet (covers : m.Covers (m.place e) q) (inside : 0 ≤ e ∧ e ≤ 1)
    (keeps : map.headnode.Keeps m (m.place e) q) :
    Met e (map.headnode.leafAt q) (map.passes m) := by
  simp only [Map.passes]
  split
  · rename_i still
    rw [place_still still] at covers
    have visited := leafAt_touched (amid_start covers) map.headnode
    exact ⟨⟨0, _⟩, List.mem_map_of_mem visited, rfl, inside.1⟩
  · exact passes_meet covers map.headnode keeps 0 1 inside.1 inside.2

end BoxTrace
