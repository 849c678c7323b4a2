import Mathlib.Data.Sum.Basic
import Mathlib.Logic.Relation

/-!
# Loops

The passes of a loop are steps on a state that may fail, end the loop with a result or
go on. A measure that every pass lowers makes the loop total. Two runs of a loop that
stay related step by step end in related results.
-/
namespace StepLoop

universe u v
variable {σ : Type u} {α : Type v}

structure Loop (σ : Type u) (α : Type v) where
  step : σ → Option (α ⊕ σ)
  left : σ → Nat
  step_left : ∀ s s', step s = some (.inr s') → left s' < left s

def Loop.run (l : Loop σ α) (s : σ) : Option α :=
  match h : l.step s with
  | none => none
  | some (.inl a) => some a
  | some (.inr s') =>
    have : l.left s' < l.left s := l.step_left s s' h
    l.run s'
termination_by l.left s

variable {l : Loop σ α}

theorem run_of_fail {s : σ} (h : l.step s = none) : l.run s = none := by
  rw [Loop.run]
  split <;> simp_all

theorem run_of_done {s : σ} {a : α} (h : l.step s = some (.inl a)) : l.run s = some a := by
  rw [Loop.run]
  split <;> simp_all

theorem run_of_next {s s' : σ} (h : l.step s = some (.inr s')) : l.run s = l.run s' := by
  rw [Loop.run]
  split <;> simp_all

/-- The induction over the passes of a loop. -/
theorem Loop.induction (l : Loop σ α) {P : σ → Prop}
    (pass : ∀ s, (∀ s', l.step s = some (.inr s') → P s') → P s) (s : σ) : P s := by
  induction hleft : l.left s using Nat.strongRecOn generalizing s with
  | _ n ih =>
    apply pass
    intro s' hs'
    exact ih (l.left s') (hleft ▸ l.step_left s s' hs') s' rfl

/-- The states that the passes from a state lead to. -/
def Loop.Reaches (l : Loop σ α) : σ → σ → Prop :=
  Relation.ReflTransGen fun s s' => l.step s = some (.inr s')

/-- A run that fails has come to a pass that does. -/
theorem exists_fail_of_run {s : σ} (h : l.run s = none) : ∃ t, l.Reaches s t ∧ l.step t = none := by
  induction s using l.induction with
  | pass s ih =>
    rcases hs : l.step s with _ | a | s'
    · exact ⟨s, .refl, hs⟩
    · rw [run_of_done hs] at h
      cases h
    · rw [run_of_next hs] at h
      obtain ⟨t, reaches, fails⟩ := ih s' hs h
      exact ⟨t, .head hs reaches, fails⟩

/-- Two runs that are related at the start and by every pass have related results. -/
theorem run_simulates {R : σ → σ → Prop} {Q : α → α → Prop}
    (hstep : ∀ s t p, R s t → l.step s = some p → ∃ q, l.step t = some q ∧ Sum.LiftRel Q R p q)
    {s t : σ} {a : α} (h : R s t) (hrun : l.run s = some a) : ∃ b, l.run t = some b ∧ Q a b := by
  induction s using l.induction generalizing t with
  | pass s ih =>
    rcases hs : l.step s with _ | a' | s'
    · rw [run_of_fail hs] at hrun
      cases hrun
    · rw [run_of_done hs] at hrun
      obtain rfl := Option.some.inj hrun
      obtain ⟨q, hq, hrel⟩ := hstep s t _ h hs
      cases hrel with
      | inl hQ => exact ⟨_, run_of_done hq, hQ⟩
    · rw [run_of_next hs] at hrun
      obtain ⟨q, hq, hrel⟩ := hstep s t _ h hs
      cases hrel with
      | inr hR =>
        rw [run_of_next hq]
        exact ih s' hs hR hrun

/-- A loop whose passes do not fail ends. -/
theorem exists_run {Inv : σ → Prop}
    (hstep : ∀ s, Inv s → ∃ p, l.step s = some p ∧ ∀ s', p = .inr s' → Inv s') {s : σ}
    (h : Inv s) : ∃ a, l.run s = some a := by
  induction s using l.induction with
  | pass s ih =>
    obtain ⟨p, hp, hinv⟩ := hstep s h
    cases p with
    | inl a => exact ⟨a, run_of_done hp⟩
    | inr s' =>
      rw [run_of_next hp]
      exact ih s' hp (hinv s' rfl)

/-- What every pass keeps, and a last pass makes of it. -/
theorem run_keeps {I : σ → Prop} {Q : α → Prop}
    (next : ∀ s s', I s → l.step s = some (.inr s') → I s')
    (last : ∀ s a, I s → l.step s = some (.inl a) → Q a) {s : σ} {a : α} (h : I s)
    (hrun : l.run s = some a) : Q a := by
  induction s using l.induction with
  | pass s ih =>
    rcases hs : l.step s with _ | a' | s'
    · rw [run_of_fail hs] at hrun
      cases hrun
    · rw [run_of_done hs] at hrun
      obtain rfl := Option.some.inj hrun
      exact last s _ h hs
    · rw [run_of_next hs] at hrun
      exact ih s' hs (next s s' h hs) hrun

end StepLoop
