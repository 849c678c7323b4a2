import Mathlib.Data.List.GetD
import Mathlib.Data.List.Nodup
import Mathlib.Logic.Function.Basic
import Mathlib.Logic.Relation
import Mathlib.Order.Basic

/-!
# Singly linked nodes

Nodes of a table are linked by `next`; the first is a fixed node and `tail` is the last.
`Represents` says that the links spell out a list of nodes. Linking a node in behind
the tail and unlinking one behind its predecessor are the two operations.
-/
namespace NodeLinks

variable {Node : Type}

structure Links (Node : Type) where
  next : Node → Option Node
  tail : Node

/-- The links lead from `a` through the nodes of the list and end there. -/
def Leads (next : Node → Option Node) : Node → List Node → Prop
  | a, [] => next a = none
  | a, b :: l => next a = some b ∧ Leads next b l

structure Represents (start : Node) (links : Links Node) (l : List Node) : Prop where
  leads : Leads links.next start l
  tail : links.tail = l.getLastD start
  nodup : (start :: l).Nodup

/-- The nodes behind `a`, at most `fuel` of them. -/
def nodesFrom (next : Node → Option Node) : Nat → Node → List Node
  | 0, _ => []
  | fuel + 1, a =>
    match next a with
    | none => []
    | some b => b :: nodesFrom next fuel b

theorem nodesFrom_of_leads {next : Node → Option Node} {a : Node} {l : List Node}
    (h : Leads next a l) {fuel : Nat} (enough : l.length < fuel) : nodesFrom next fuel a = l := by
  induction l generalizing a fuel with
  | nil =>
    cases fuel with
    | zero => simp at enough
    | succ fuel => simp only [nodesFrom, show next a = none from h]
  | cons b l ih =>
    cases fuel with
    | zero => simp at enough
    | succ fuel =>
      simp only [nodesFrom, h.1]
      rw [ih h.2 (by simpa using enough)]

theorem Represents.nodesFrom_eq {start : Node} {links : Links Node} {l : List Node}
    (h : Represents start links l) {fuel : Nat} (enough : l.length < fuel) :
    nodesFrom links.next fuel start = l :=
  nodesFrom_of_leads h.leads enough

theorem getLastD_mem (a : Node) (l : List Node) : l.getLastD a ∈ a :: l := by
  induction l generalizing a with
  | nil => exact List.mem_cons_self
  | cons b l ih =>
    rw [List.getLastD_cons]
    exact List.mem_cons_of_mem _ (ih b)

theorem getLastD_append_cons (a b : Node) (before after : List Node) :
    (before ++ b :: after).getLastD a = after.getLastD b := by
  induction before generalizing a with
  | nil => exact List.getLastD_cons
  | cons c before ih =>
    rw [List.cons_append, List.getLastD_cons]
    exact ih c

/-- What lies behind the nodes before `rest`. -/
theorem leads_behind {next : Node → Option Node} {a : Node} (before : List Node)
    {rest : List Node} (h : Leads next a (before ++ rest)) : Leads next (before.getLastD a) rest := by
  induction before generalizing a with
  | nil => exact h
  | cons b before ih =>
    rw [List.getLastD_cons]
    exact ih h.2

/-! ## The two operations -/

section Operations

variable [DecidableEq Node]

/-- `tail->next = node; tail = node; node->next = NULL`. -/
def Links.append (links : Links Node) (node : Node) : Links Node where
  next := Function.update (Function.update links.next links.tail (some node)) node none
  tail := node

/-- `last->next = node->next`, and the tail goes back if `node` was the tail. -/
def Links.unlink (links : Links Node) (last node : Node) : Links Node where
  next := Function.update links.next last (links.next node)
  tail := if node = links.tail then last else links.tail

theorem leads_update {next : Node → Option Node} {a b : Node} {l : List Node}
    (h : Leads next a l) (outside : b ∉ a :: l) (target : Option Node) :
    Leads (Function.update next b target) a l := by
  induction l generalizing a with
  | nil =>
    have hne : a ≠ b := fun heq => outside (by simp [heq])
    simpa only [Leads, Function.update_of_ne hne] using h
  | cons c l ih =>
    have hne : a ≠ b := fun heq => outside (by simp [heq])
    constructor
    · simpa only [Function.update_of_ne hne] using h.1
    · exact ih h.2 fun hmem => outside (List.mem_cons_of_mem a hmem)

theorem leads_append {next : Node → Option Node} {a b : Node} {l : List Node}
    (h : Leads next a l) (nodup : (a :: l).Nodup) (fresh : b ∉ a :: l) :
    Leads (Function.update (Function.update next (l.getLastD a) (some b)) b none) a
      (l ++ [b]) := by
  induction l generalizing a with
  | nil =>
    have hne : a ≠ b := fun heq => fresh (by simp [heq])
    simp only [List.getLastD_nil, List.nil_append, Leads, Function.update_of_ne hne,
      Function.update_self, and_self]
  | cons c l ih =>
    have hne : a ≠ b := fun heq => fresh (by simp [heq])
    obtain ⟨ha, hnodup⟩ := List.nodup_cons.mp nodup
    have hlast : a ≠ l.getLastD c := fun heq => ha (heq ▸ getLastD_mem c l)
    rw [List.getLastD_cons]
    constructor
    · rw [Function.update_of_ne hne, Function.update_of_ne hlast]
      exact h.1
    · exact ih h.2 hnodup fun hmem => fresh (List.mem_cons_of_mem a hmem)

theorem leads_unlink {next : Node → Option Node} {a node : Node} {before after : List Node}
    (h : Leads next a (before ++ node :: after)) (nodup : (a :: (before ++ node :: after)).Nodup) :
    Leads (Function.update next (before.getLastD a) (next node)) a (before ++ after) := by
  induction before generalizing a with
  | nil =>
    obtain ⟨ha, -⟩ := List.nodup_cons.mp nodup
    have hrest : Leads next node after := h.2
    cases after with
    | nil => simpa only [Leads, List.getLastD_nil, List.nil_append, Function.update_self] using hrest
    | cons c after =>
      constructor
      · simpa only [List.getLastD_nil, Function.update_self] using hrest.1
      · exact leads_update hrest.2 (fun hmem => ha (List.mem_cons_of_mem _ hmem)) _
  | cons b before ih =>
    obtain ⟨ha, hnodup⟩ := List.nodup_cons.mp nodup
    have hlast : a ≠ before.getLastD b := by
      intro heq
      have hmem := getLastD_mem b before
      rw [← heq] at hmem
      exact ha (List.mem_append_left (node :: after) hmem)
    rw [List.getLastD_cons]
    constructor
    · rw [Function.update_of_ne hlast]
      exact h.1
    · exact ih h.2 hnodup

theorem Represents.append {start node : Node} {links : Links Node} {l : List Node}
    (h : Represents start links l) (fresh : node ∉ start :: l) :
    Represents start (links.append node) (l ++ [node]) where
  leads := by
    simp only [Links.append, h.tail]
    exact leads_append h.leads h.nodup fresh
  tail := by simp [Links.append]
  nodup := by
    rw [← List.cons_append]
    exact h.nodup.append (List.nodup_singleton node) (by simpa using fresh)

theorem Represents.unlink {start node : Node} {links : Links Node} {before after : List Node}
    (h : Represents start links (before ++ node :: after)) :
    Represents start (links.unlink (before.getLastD start) node) (before ++ after) where
  leads := leads_unlink h.leads h.nodup
  tail := by
    have htail := h.tail
    rw [getLastD_append_cons] at htail
    cases after with
    | nil => simp [Links.unlink, htail]
    | cons c after =>
      have hnode : node ∉ c :: after := by
        have hnodup := (List.nodup_append.mp (List.nodup_cons.mp h.nodup).2).2.1
        exact (List.nodup_cons.mp hnodup).1
      rw [List.getLastD_cons] at htail
      have hne : node ≠ links.tail := fun heq => hnode (by
        rw [heq, htail]
        exact getLastD_mem c after)
      simp only [Links.unlink, if_neg hne]
      rw [getLastD_append_cons, htail]
  nodup := by
    refine h.nodup.sublist ?_
    exact List.Sublist.cons_cons start
      (List.Sublist.append (List.Sublist.refl before) (List.sublist_cons_self node after))

end Operations

/-! ## Reachable nodes -/

abbrev Follows (next : Node → Option Node) (a b : Node) : Prop := next a = some b

def Reached (start : Node) (links : Links Node) : Node → Prop :=
  Relation.ReflTransGen (Follows links.next) start

theorem reached_of_leads {next : Node → Option Node} {a b : Node} {l : List Node}
    (h : Leads next a l) (hb : b ∈ a :: l) : Relation.ReflTransGen (Follows next) a b := by
  induction l generalizing a with
  | nil =>
    rcases List.mem_singleton.mp hb with rfl
    exact .refl
  | cons c l ih =>
    rcases List.mem_cons.mp hb with rfl | hb
    · exact .refl
    · exact Relation.ReflTransGen.head h.1 (ih h.2 hb)

theorem follows_mem {next : Node → Option Node} {a b c : Node} {l : List Node}
    (h : Leads next a l) (hb : b ∈ a :: l) (hc : Follows next b c) : c ∈ l := by
  induction l generalizing a with
  | nil =>
    rcases List.mem_singleton.mp hb with rfl
    cases hc.symm.trans (show next b = none from h)
  | cons d l ih =>
    rcases List.mem_cons.mp hb with rfl | hb
    · cases hc.symm.trans h.1
      exact List.mem_cons_self
    · exact List.mem_cons_of_mem d (ih h.2 hb)

theorem Represents.reached_iff {start b : Node} {links : Links Node} {l : List Node}
    (h : Represents start links l) : Reached start links b ↔ b ∈ start :: l := by
  constructor
  · intro hreach
    induction hreach with
    | refl => exact List.mem_cons_self
    | tail _ hstep ih => exact List.mem_cons_of_mem start (follows_mem h.leads ih hstep)
  · exact reached_of_leads h.leads

theorem Represents.tail_reached {start : Node} {links : Links Node} {l : List Node}
    (h : Represents start links l) : Reached start links links.tail := by
  rw [h.reached_iff, h.tail]
  exact getLastD_mem start l

theorem Represents.tail_ends {start : Node} {links : Links Node} {l : List Node}
    (h : Represents start links l) : links.next links.tail = none := by
  have hbehind : Leads links.next (l.getLastD start) [] :=
    leads_behind l (by simpa using h.leads)
  rw [h.tail]
  exact hbehind

/-- Along a strictly increasing list the links go up. -/
theorem follows_lt {N : Type} [Preorder N] {next : N → Option N} {a b c : N} {l : List N}
    (h : Leads next a l) (sorted : (a :: l).Pairwise (· < ·)) (hb : b ∈ a :: l)
    (hc : Follows next b c) : b < c := by
  induction l generalizing a with
  | nil =>
    rcases List.mem_singleton.mp hb with rfl
    cases hc.symm.trans (show next b = none from h)
  | cons d l ih =>
    obtain ⟨ha, hsorted⟩ := List.pairwise_cons.mp sorted
    rcases List.mem_cons.mp hb with rfl | hb
    · cases hc.symm.trans h.1
      exact ha _ List.mem_cons_self
    · exact ih h.2 hsorted hb

theorem le_getLastD {N : Type} [Preorder N] {a b : N} {l : List N}
    (sorted : (a :: l).Pairwise (· < ·)) (hb : b ∈ a :: l) : b ≤ l.getLastD a := by
  induction l generalizing a b with
  | nil => exact le_of_eq (List.mem_singleton.mp hb)
  | cons c l ih =>
    obtain ⟨ha, hsorted⟩ := List.pairwise_cons.mp sorted
    rw [List.getLastD_cons]
    rcases List.mem_cons.mp hb with rfl | hb
    · exact (ha c List.mem_cons_self).le.trans (ih hsorted List.mem_cons_self)
    · exact ih hsorted hb

/-- No reachable node leads back to itself. -/
theorem Represents.acyclic {N : Type} [Preorder N] {start b : N} {links : Links N} {l : List N}
    (h : Represents start links l) (sorted : (start :: l).Pairwise (· < ·))
    (hb : Reached start links b) : ¬ Relation.TransGen (Follows links.next) b b := by
  have hup : ∀ c, Relation.TransGen (Follows links.next) b c → Reached start links c ∧ b < c := by
    intro c hpath
    induction hpath with
    | single hstep =>
      exact ⟨hb.tail hstep, follows_lt h.leads sorted (h.reached_iff.mp hb) hstep⟩
    | tail _ hstep ih =>
      refine ⟨ih.1.tail hstep, ih.2.trans ?_⟩
      exact follows_lt h.leads sorted (h.reached_iff.mp ih.1) hstep
  exact fun hcycle => lt_irrefl b (hup b hcycle).2

end NodeLinks
