import Mathlib.Data.List.Basic

/-!
# Runs of a step function

A system is a total step function on states and operations; a run is the fold of
a list of operations. `AllSteps ok` says that every step of a run is taken from a
state in which `ok` allows the operation.
-/
namespace StepRuns

universe u v
variable {State : Type u} {Op : Type v}

def run (step : State → Op → State) (s : State) (ops : List Op) : State := ops.foldl step s

@[simp] theorem run_nil (step : State → Op → State) (s : State) : run step s [] = s := rfl

@[simp] theorem run_cons (step : State → Op → State) (s : State) (op : Op) (ops : List Op) :
    run step s (op :: ops) = run step (step s op) ops := rfl

theorem run_append (step : State → Op → State) (s : State) (xs ys : List Op) :
    run step s (xs ++ ys) = run step (run step s xs) ys :=
  List.foldl_append

theorem run_concat (step : State → Op → State) (s : State) (ops : List Op) (op : Op) :
    run step s (ops ++ [op]) = step (run step s ops) op :=
  run_append step s ops [op]

def AllSteps (step : State → Op → State) (ok : State → Op → Prop) : State → List Op → Prop
  | _, [] => True
  | s, op :: ops => ok s op ∧ AllSteps step ok (step s op) ops

instance AllSteps.decidable (step : State → Op → State) (ok : State → Op → Prop)
    [∀ s op, Decidable (ok s op)] : ∀ s ops, Decidable (AllSteps step ok s ops)
  | _, [] => inferInstanceAs (Decidable True)
  | s, op :: ops =>
    have := AllSteps.decidable step ok (step s op) ops
    inferInstanceAs (Decidable (_ ∧ _))

/-- A run in two parts. -/
theorem allSteps_append (step : State → Op → State) (ok : State → Op → Prop) (s : State)
    (xs ys : List Op) :
    AllSteps step ok s (xs ++ ys) ↔
      AllSteps step ok s xs ∧ AllSteps step ok (run step s xs) ys := by
  induction xs generalizing s with
  | nil => simp [AllSteps]
  | cons op xs ih => simp [AllSteps, ih, and_assoc]

theorem allSteps_and {step : State → Op → State} {ok : State → Op → Prop} {P : Op → Prop}
    {s : State} {ops : List Op} (hops : ∀ op ∈ ops, P op) (hok : AllSteps step ok s ops) :
    AllSteps step (fun s op => P op ∧ ok s op) s ops := by
  induction ops generalizing s with
  | nil => exact trivial
  | cons op ops ih =>
    exact ⟨⟨hops op List.mem_cons_self, hok.1⟩,
      ih (fun other hmem => hops other (List.mem_cons_of_mem op hmem)) hok.2⟩

theorem allSteps_both {step : State → Op → State} {ok good : State → Op → Prop} {s : State}
    {ops : List Op} (hok : AllSteps step ok s ops) (hgood : AllSteps step good s ops) :
    AllSteps step (fun s op => ok s op ∧ good s op) s ops := by
  induction ops generalizing s with
  | nil => exact trivial
  | cons op ops ih => exact ⟨⟨hok.1, hgood.1⟩, ih hok.2 hgood.2⟩

/-- What allowed steps preserve holds at the end of every run of allowed steps. -/
theorem invariant_run {step : State → Op → State} {ok : State → Op → Prop}
    {Inv : State → Prop} (keeps : ∀ s op, Inv s → ok s op → Inv (step s op))
    {s : State} {ops : List Op} (hs : Inv s) (hok : AllSteps step ok s ops) :
    Inv (run step s ops) := by
  induction ops generalizing s with
  | nil => exact hs
  | cons op ops ih => exact ih (keeps s op hs hok.1) hok.2

/-- What every step preserves holds at the end of every run. -/
theorem holds_run {step : State → Op → State} {Inv : State → Prop}
    (keeps : ∀ s op, Inv s → Inv (step s op)) {s : State} (hs : Inv s) (ops : List Op) :
    Inv (run step s ops) := by
  induction ops generalizing s with
  | nil => exact hs
  | cons op ops ih => exact ih (keeps s op hs)

/-- Under an invariant, a condition on the single steps carries over to the runs. -/
theorem allSteps_of_invariant {step : State → Op → State} {ok good : State → Op → Prop}
    {Inv : State → Prop} (keeps : ∀ s op, Inv s → Inv (step s op))
    (suffices_good : ∀ s op, Inv s → ok s op → good s op) {s : State} {ops : List Op} (hs : Inv s)
    (hok : AllSteps step ok s ops) : AllSteps step good s ops := by
  induction ops generalizing s with
  | nil => exact trivial
  | cons op ops ih => exact ⟨suffices_good s op hs hok.1, ih (keeps s op hs) hok.2⟩

/-- What an invariant of all steps implies holds at every step of a run. -/
theorem allSteps_invariant {step : State → Op → State} {good : State → Op → Prop}
    {Inv : State → Prop} (keeps : ∀ s op, Inv s → Inv (step s op))
    (implies_good : ∀ s op, Inv s → good s op) {s : State} (hs : Inv s) (ops : List Op) :
    AllSteps step good s ops := by
  induction ops generalizing s with
  | nil => exact trivial
  | cons op ops ih => exact ⟨implies_good s op hs, ih (keeps s op hs)⟩

/-- Where allowed steps keep an invariant and are good, a run of allowed steps is good. -/
theorem allSteps_of_keeps {step : State → Op → State} {ok good : State → Op → Prop}
    {Inv : State → Prop} (keeps : ∀ s op, Inv s → ok s op → Inv (step s op) ∧ good s op)
    {s : State} {ops : List Op} (hs : Inv s) (hok : AllSteps step ok s ops) :
    AllSteps step good s ops := by
  induction ops generalizing s with
  | nil => exact trivial
  | cons op ops ih =>
    obtain ⟨hnext, hgood⟩ := keeps s op hs hok.1
    exact ⟨hgood, ih hnext hok.2⟩

/-- What is counted along with a run does not change it. -/
theorem allSteps_project {Counted : Type*} {counted : Counted → Op → Counted}
    {step : State → Op → State} (state : Counted → State) {good : State → Op → Prop}
    (follows : ∀ c op, state (counted c op) = step (state c) op) (c : Counted) (ops : List Op) :
    AllSteps counted (fun c op => good (state c) op) c ops ↔ AllSteps step good (state c) ops := by
  induction ops generalizing c with
  | nil => exact Iff.rfl
  | cons op ops ih =>
    have next := ih (counted c op)
    rw [follows] at next
    exact and_congr_right fun _ => next

/-- Where an invariant makes two conditions on a step equivalent, and steps that meet
one keep the invariant, the runs that meet them are the same. -/
theorem allSteps_iff {step : State → Op → State} {good ok : State → Op → Prop}
    {Inv : State → Prop} (same : ∀ s op, Inv s → (good s op ↔ ok s op))
    (keeps : ∀ s op, Inv s → good s op → Inv (step s op)) {s : State} (hs : Inv s)
    (ops : List Op) : AllSteps step good s ops ↔ AllSteps step ok s ops := by
  induction ops generalizing s with
  | nil => exact Iff.rfl
  | cons op ops ih =>
    constructor
    · rintro ⟨hgood, hrest⟩
      exact ⟨(same s op hs).mp hgood, (ih (keeps s op hs hgood)).mp hrest⟩
    · rintro ⟨hok, hrest⟩
      have hgood := (same s op hs).mpr hok
      exact ⟨hgood, (ih (keeps s op hs hgood)).mpr hrest⟩

end StepRuns
