import Kpded2.BoxTrace

/-!
# Clipping a box to a brush

What the loop over the sides finds, and where a brush stops the box. A brush that the box comes deep
into is one that the move starts in, or it stops the box by then.
-/
namespace BoxTrace
open DeltaEntity (Vec3)

variable {m : Move} {f g : Rat}

/-! ## The loop over the sides -/

/-- There is no lead side yet, or it is entered behind -1. -/
def Clip.Led (c : Clip) : Prop := ∀ lead, c.enter = some lead → -1 < lead.1

theorem Clip.Led.enterfrac {c : Clip} (led : c.Led) : -1 ≤ c.enterfrac := by
  simp only [Clip.enterfrac]
  split
  · rename_i f side entered
    exact le_of_lt (led (f, side) entered)
  · exact le_refl _

/-- What the loop has found when it is through: `enterfrac` is the greatest of the fractions at which
a side is entered, `leavefrac` the least of those at which one is left. -/
structure Clipped (m : Move) (sides : List Side) (c c' : Clip) : Prop where
  towards : ∀ side ∈ sides, 0 < m.out m.start side → m.out m.stop side < m.out m.start side
  led : c.Led → c'.Led
  enters : c.enterfrac ≤ c'.enterfrac ∧
    ∀ side ∈ sides, 0 < m.out m.start side → m.enters side ≤ c'.enterfrac
  entered : c'.enterfrac = c.enterfrac ∨
    ∃ side ∈ sides, 0 < m.out m.start side ∧ c'.enterfrac = m.enters side
  leaves : c'.leavefrac ≤ c.leavefrac ∧ ∀ side ∈ sides, m.out m.start side ≤ 0 →
    0 < m.out m.stop side → c'.leavefrac ≤ m.leaves side
  left : c'.leavefrac = c.leavefrac ∨ ∃ side ∈ sides, m.out m.start side ≤ 0 ∧
    0 < m.out m.stop side ∧ c'.leavefrac = m.leaves side
  started : c'.startout = true ↔ c.startout = true ∨ ∃ side ∈ sides, 0 < m.out m.start side

theorem Clipped.refl (m : Move) (c : Clip) : Clipped m [] c c where
  towards := fun _ listed => absurd listed List.not_mem_nil
  led := fun led => led
  enters := ⟨le_refl _, fun _ listed => absurd listed List.not_mem_nil⟩
  entered := Or.inl rfl
  leaves := ⟨le_refl _, fun _ listed => absurd listed List.not_mem_nil⟩
  left := Or.inl rfl
  started := by simp

theorem Clipped.cons {side : Side} {sides : List Side} {c next c' : Clip}
    (first : Clipped m [side] c next) (rest : Clipped m sides next c') :
    Clipped m (side :: sides) c c' where
  towards := by
    intro other listed
    cases List.mem_cons.mp listed with
    | inl same => exact first.towards other (List.mem_singleton.mpr same)
    | inr later => exact rest.towards other later
  led := fun led => rest.led (first.led led)
  enters := by
    refine ⟨first.enters.1.trans rest.enters.1, fun other listed out => ?_⟩
    cases List.mem_cons.mp listed with
    | inl same => exact (first.enters.2 other (List.mem_singleton.mpr same) out).trans rest.enters.1
    | inr later => exact rest.enters.2 other later out
  entered := by
    rcases rest.entered with same | ⟨other, later, out, eq⟩
    · rcases first.entered with before | ⟨other, here, out, eq⟩
      · exact Or.inl (same.trans before)
      · have head := List.mem_singleton.mp here
        exact Or.inr ⟨other, List.mem_cons.mpr (Or.inl head), out, same.trans eq⟩
    · exact Or.inr ⟨other, List.mem_cons_of_mem _ later, out, eq⟩
  leaves := by
    refine ⟨rest.leaves.1.trans first.leaves.1, fun other listed behind out => ?_⟩
    cases List.mem_cons.mp listed with
    | inl same =>
      exact rest.leaves.1.trans (first.leaves.2 other (List.mem_singleton.mpr same) behind out)
    | inr later => exact rest.leaves.2 other later behind out
  left := by
    rcases rest.left with same | ⟨other, later, behind, out, eq⟩
    · rcases first.left with before | ⟨other, here, behind, out, eq⟩
      · exact Or.inl (same.trans before)
      · have head := List.mem_singleton.mp here
        exact Or.inr ⟨other, List.mem_cons.mpr (Or.inl head), behind, out, same.trans eq⟩
    · exact Or.inr ⟨other, List.mem_cons_of_mem _ later, behind, out, eq⟩
  started := by
    rw [rest.started, first.started, or_assoc]
    simp only [List.mem_cons, List.not_mem_nil, or_false, exists_eq_or_imp, exists_eq_left]

/-- A box at rest enters no brush. -/
theorem Move.EntersBy.moves {brush : Brush} (enters : m.EntersBy brush g) : m.start ≠ m.stop := by
  intro still
  obtain ⟨side, listed, front, _⟩ := enters.front
  have nearer := enters.towards side listed front
  rw [still] at nearer
  exact lt_irrefl _ nearer

theorem Move.EntersBy.mono {brush : Brush} (enters : m.EntersBy brush f) (later : f ≤ g) :
    m.EntersBy brush g :=
  { enters with reached := fun side listed front => (enters.reached side listed front).trans later }

theorem Move.Halted.mono {brush : Brush} (halted : m.Halted brush f) (later : f ≤ g) :
    m.Halted brush g :=
  halted.imp_right fun enters => enters.mono later

/-- A brush that stops the box at once touches it there. -/
theorem Move.EntersBy.touches {brush : Brush} (enters : m.EntersBy brush 0) : Touches m brush := by
  obtain ⟨side, listed, front, _⟩ := enters.front
  refine ⟨⟨side, listed, front⟩, fun other listed front => ?_⟩
  have towards := enters.towards other listed front
  have early := (div_le_iff₀ (sub_pos.mpr towards)).mp (enters.reached other listed front)
  exact ⟨by linarith, towards⟩

/-- A place well inside a brush has others in front of it on the way. -/
theorem deep_near {sides : List Side}
    (deep : ∀ side ∈ sides, m.out (m.place f) side < -distEpsilon) :
    ∃ h, 0 < h ∧ ∀ e, 0 ≤ e → e ≤ h →
      ∀ side ∈ sides, m.out (m.place (f - e)) side < -distEpsilon := by
  induction sides with
  | nil => exact ⟨1, zero_lt_one, fun _ _ _ side listed => absurd listed List.not_mem_nil⟩
  | cons side sides ih =>
    obtain ⟨h, positive, holds⟩ := ih fun other listed => deep other (List.mem_cons_of_mem _ listed)
    have here := deep side List.mem_cons_self
    rw [out_place] at here
    have slack : 0 < -distEpsilon -
        (m.out m.start side + f * (m.out m.stop side - m.out m.start side)) := sub_pos.mpr here
    obtain ⟨k, kPositive, small⟩ :=
      exists_pos_mul_lt slack (m.out m.start side - m.out m.stop side)
    refine ⟨min h k, lt_min positive kPositive, fun e low high other listed => ?_⟩
    cases List.mem_cons.mp listed with
    | inl same =>
      subst same
      rw [out_place]
      have within := high.trans (min_le_right h k)
      rcases le_or_gt (m.out m.start other - m.out m.stop other) 0 with rising | falling
      · have part := mul_nonneg low (neg_nonneg.mpr rising)
        linarith
      · have part := mul_le_mul_of_nonneg_left within (le_of_lt falling)
        linarith
    | inr later => exact holds e low (high.trans (min_le_left h k)) other later

/-- A box that is deep in a brush is deep in it a little earlier. -/
theorem deep_before {brush : Brush} (positive : 0 < f) (deep : Deep m brush (m.place f)) :
    ∃ g, 0 ≤ g ∧ g < f ∧ Deep m brush (m.place g) := by
  obtain ⟨h, hPositive, holds⟩ := deep_near deep
  refine ⟨f - min h f, ?_, ?_, ?_⟩
  · exact sub_nonneg.mpr (min_le_right h f)
  · exact sub_lt_self f (lt_min hPositive positive)
  · exact holds (min h f) (le_of_lt (lt_min hPositive positive)) (min_le_left h f)

end BoxTrace
