import Mathlib.Data.Finset.Card
import Mathlib.Data.Finset.Filter
import Mathlib.Data.Fintype.Card
import Mathlib.Data.Set.Finite.Basic
import Mathlib.Logic.Function.Basic
import Mathlib.Logic.Relation

/-!
# Flooding a graph

A flood puts its label on a node and on what the node leads to, and refuses to meet another label.
In a symmetric graph the floods from node after node give two nodes the same label just when a
path joins them.
-/
namespace GraphFlood
open Relation
universe u v
variable {α : Type u} {κ : Type v} [DecidableEq α] [DecidableEq κ]

def Reaches (next : α → List α) : α → α → Prop := ReflTransGen fun a b => b ∈ next a

section Flood
variable {next : α → List α} {label : κ} {nodes : Finset α} {before between after : α → Option κ}

end Flood

/-! ## Components -/

/-- Labels up to `n`, one for each component that has labels. -/
structure Components (next : α → List α) (nodes : Finset α) (n : Nat) (labels : α → Option Nat) :
    Prop where
  inside : ∀ c k, labels c = some k → c ∈ nodes
  bounded : ∀ c k, labels c = some k → k ≤ n
  closed : ∀ c k, labels c = some k → ∀ d ∈ next c, labels d = some k
  joined : ∀ c d k, labels c = some k → labels d = some k → Reaches next c d

section Components
variable {next : α → List α} {nodes : Finset α} {n : Nat} {labels after : α → Option Nat}

omit [DecidableEq α] in
theorem Components.reaches (h : Components next nodes n labels) {a b : α} {k : Nat}
    (reaches : Reaches next a b) (ha : labels a = some k) : labels b = some k := by
  induction reaches with
  | refl => exact ha
  | tail _ edge ih => exact h.closed _ k ih _ edge

variable (symmetric : ∀ a ∈ nodes, ∀ b ∈ next a, b ∈ nodes ∧ a ∈ next b)
include symmetric

end Components

/-! ## Graphs without cycles -/

/-- What is above only finitely many nodes, none of which is on a cycle, has no endless descent. -/
theorem acc_of_acyclic {β : Type u} {r : β → β → Prop} {a : β}
    (finite : {n | ReflTransGen r n a}.Finite)
    (acyclic : ∀ n, ReflTransGen r n a → ¬TransGen r n n) : Acc r a := by
  let below : {n // ReflTransGen r n a} → {n // ReflTransGen r n a} → Prop :=
    fun m n => TransGen r m n
  have : Finite {n // ReflTransGen r n a} := finite
  have : IsTrans _ below := ⟨fun _ _ _ => TransGen.trans⟩
  have : Std.Irrefl below := ⟨fun n => acyclic n n.property⟩
  have wf : WellFounded below := Finite.wellFounded_of_trans_of_irrefl below
  have descend : ∀ n : {n // ReflTransGen r n a}, Acc r n.val := by
    intro n
    induction wf.apply n with
    | intro n _ ih => exact ⟨n.val, fun m edge => ih ⟨m, .head edge n.property⟩ (.single edge)⟩
  exact descend ⟨a, .refl⟩

end GraphFlood
