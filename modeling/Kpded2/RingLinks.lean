import Mathlib.Data.List.GetD
import Mathlib.Data.List.Nodup
import Mathlib.Logic.Function.Basic
import Kpded2.NodeLinks

/-!
# Rings of doubly linked nodes

`next` and `prev` link the nodes of a ring around a head, which is never linked out.
`IsRing` says that the links spell out a list of nodes from the head back to it. A node is
linked in between two neighbours, and out by linking its neighbours.
-/
namespace RingLinks
open NodeLinks (getLastD_mem)

variable {Node : Type}

structure Links (Node : Type) where
  next : Node → Node
  prev : Node → Node

/-- The links lead from `a` through the nodes of the list to `b` and back. -/
def Joins (links : Links Node) : Node → List Node → Node → Prop
  | a, [], b => links.next a = b ∧ links.prev b = a
  | a, c :: l, b => (links.next a = c ∧ links.prev c = a) ∧ Joins links c l b

structure IsRing (links : Links Node) (head : Node) (l : List Node) : Prop where
  joins : Joins links head l head
  nodup : (head :: l).Nodup

variable {links other : Links Node} {a b c head : Node} {l before after : List Node}

theorem joins_congr (next : ∀ x ∈ a :: l, other.next x = links.next x)
    (prev : ∀ x, x ∈ l ∨ x = b → other.prev x = links.prev x) (h : Joins links a l b) :
    Joins other a l b := by
  induction l generalizing a with
  | nil =>
    obtain ⟨forth, back⟩ := h
    exact ⟨(next a List.mem_cons_self).trans forth, (prev b (.inr rfl)).trans back⟩
  | cons c l ih =>
    obtain ⟨⟨forth, back⟩, rest⟩ := h
    refine ⟨⟨(next a List.mem_cons_self).trans forth,
      (prev c (.inl List.mem_cons_self)).trans back⟩, ih ?_ ?_ rest⟩
    · exact fun x hx => next x (List.mem_cons_of_mem a hx)
    · exact fun x hx => prev x (hx.imp_left (List.mem_cons_of_mem c))

theorem joins_append :
    Joins links a (before ++ c :: after) b ↔ Joins links a before c ∧ Joins links c after b := by
  induction before generalizing a with
  | nil => exact Iff.rfl
  | cons d before ih => simp only [List.cons_append, Joins, ih, and_assoc]

/-- The links around the gap at the end. -/
theorem joins_last (h : Joins links a l b) :
    links.next (l.getLastD a) = b ∧ links.prev b = l.getLastD a := by
  induction l generalizing a with
  | nil => exact h
  | cons c l ih =>
    rw [List.getLastD_cons]
    exact ih h.2

theorem joins_first (h : Joins links a l b) : links.next a = l.headD b ∧ links.prev (l.headD b) = a := by
  cases l with
  | nil => exact h
  | cons c l => exact h.1

theorem headD_mem (head : Node) (l : List Node) : l.headD head = head ∨ l.headD head ∈ l := by
  cases l with
  | nil => exact .inl rfl
  | cons c l => exact .inr List.mem_cons_self

/-- A head alone is a ring. -/
theorem isRing_nil (next : links.next head = head) (prev : links.prev head = head) :
    IsRing links head [] :=
  ⟨⟨next, prev⟩, List.nodup_singleton head⟩

/-- The two halves of a ring around one of its nodes. -/
theorem IsRing.split {x : Node} (h : IsRing links head (before ++ x :: after)) :
    Joins links head before x ∧ Joins links x after head ∧
      links.prev x = before.getLastD head ∧ links.next x = after.headD head := by
  obtain ⟨left, right⟩ := joins_append.mp h.joins
  exact ⟨left, right, (joins_last left).2, (joins_first right).1⟩

/-- The neighbours of a node of a ring are in it. -/
theorem IsRing.neighbours {x : Node} (h : IsRing links head (before ++ x :: after)) :
    links.prev x ∈ head :: (before ++ after) ∧ links.next x ∈ head :: (before ++ after) := by
  obtain ⟨-, -, prev, next⟩ := h.split
  rw [prev, next]
  constructor
  · rw [← List.cons_append]
    exact List.mem_append_left after (getLastD_mem head before)
  · rcases headD_mem head after with first | first
    · rw [first]
      exact List.mem_cons_self
    · exact List.mem_cons_of_mem head (List.mem_append_right before first)

/-- Rings around different heads that share no nodes. -/
structure Rings (links : Links Node) (Head : Node → Prop) (members : Node → List Node) : Prop where
  ring : ∀ head, Head head → IsRing links head (members head)
  apart : ∀ head other, Head head → Head other → other ≠ head →
    ∀ x ∈ head :: members head, x ∉ other :: members other

/-- Where there is nothing but heads, they are linked to themselves. -/
theorem rings_nil {Head : Node → Prop}
    (alone : ∀ head, Head head → links.next head = head ∧ links.prev head = head) :
    Rings links Head fun _ => [] := by
  constructor
  · intro head hhead
    exact isRing_nil (alone head hhead).1 (alone head hhead).2
  · intro head other _ _ different x hx hx'
    exact different ((List.mem_singleton.mp hx').symm.trans (List.mem_singleton.mp hx))

/-! ## The operations -/

section Operations

variable [DecidableEq Node]

def Links.setNext (links : Links Node) (a b : Node) : Links Node where
  next := Function.update links.next a b
  prev := links.prev

def Links.setPrev (links : Links Node) (a b : Node) : Links Node where
  next := links.next
  prev := Function.update links.prev a b

/-- Makes `a` and `b` neighbours. -/
def Links.join (links : Links Node) (a b : Node) : Links Node := (links.setNext a b).setPrev b a

/-- The gap behind the last node can be closed with any node. -/
theorem joins_join (h : Joins links a l b) (nodup : (a :: l).Nodup) (outside : c ∉ l) :
    Joins (links.join (l.getLastD a) c) a l c := by
  induction l generalizing a with
  | nil => exact ⟨Function.update_self _ _ _, Function.update_self _ _ _⟩
  | cons d l ih =>
    rw [List.getLastD_cons]
    rw [List.mem_cons, not_or] at outside
    have first : a ≠ l.getLastD d :=
      fun same => (List.nodup_cons.mp nodup).1 (same ▸ getLastD_mem d l)
    refine ⟨⟨?_, ?_⟩, ih h.2 (List.nodup_cons.mp nodup).2 outside.2⟩
    · exact (Function.update_of_ne first _ _).trans h.1.1
    · exact (Function.update_of_ne (Ne.symm outside.1) _ _).trans h.1.2

/-- Joining two nodes does not touch links between others. -/
theorem joins_of_join {x y : Node} (h : Joins links a l b) (left : x ∉ a :: l)
    (right : y ∉ l) (right' : y ≠ b) : Joins (links.join x y) a l b := by
  refine joins_congr ?_ ?_ h
  · rintro z hz
    exact Function.update_of_ne (fun same : z = x => left (same ▸ hz)) _ _
  · rintro z hz
    refine Function.update_of_ne (fun same : z = y => ?_) _ _
    rcases hz with hz | hz
    · exact right (same ▸ hz)
    · exact right' (same ▸ hz)

/-- Out goes what is between the two lists. -/
theorem isRing_unlink {x : Node} (left : Joins links head before x) (right : Joins links x after head)
    (nodup : (head :: (before ++ after)).Nodup) :
    IsRing (links.join (before.getLastD head) (after.headD head)) head (before ++ after) := by
  refine ⟨?_, nodup⟩
  rw [← List.cons_append, List.nodup_append] at nodup
  obtain ⟨hbefore, hafter, apart⟩ := nodup
  have last := getLastD_mem head before
  cases after with
  | nil =>
    rw [List.append_nil]
    exact joins_join left hbefore (List.nodup_cons.mp hbefore).1
  | cons n after =>
    refine joins_append.mpr ⟨joins_join left hbefore fun hn => ?_,
      joins_of_join right.2 (fun hlast => apart _ last _ hlast rfl)
        (List.nodup_cons.mp hafter).1 fun same => ?_⟩
    · exact apart n (List.mem_cons_of_mem head hn) n List.mem_cons_self rfl
    · exact apart head List.mem_cons_self n List.mem_cons_self same.symm

/-- In goes `x` between the two lists, whatever was there. -/
theorem isRing_link {x y y' : Node} (left : Joins links head before y)
    (right : Joins links y' after head) (nodup : (head :: (before ++ x :: after)).Nodup) :
    IsRing ((links.join (before.getLastD head) x).join x (after.headD head)) head
      (before ++ x :: after) := by
  refine ⟨?_, nodup⟩
  rw [← List.cons_append, List.nodup_append] at nodup
  obtain ⟨hbefore, hafter, apart⟩ := nodup
  obtain ⟨hx, hafter⟩ := List.nodup_cons.mp hafter
  have last := getLastD_mem head before
  have xNotBefore : x ∉ head :: before := fun hmem => apart x hmem x List.mem_cons_self rfl
  rw [List.mem_cons, not_or] at xNotBefore
  refine joins_append.mpr ⟨?_, ?_⟩
  · have closed := joins_join left hbefore xNotBefore.2
    refine joins_of_join closed ?_ ?_ ?_
    · exact fun hmem => (List.mem_cons.mp hmem).elim xNotBefore.1 xNotBefore.2
    · intro hmem
      rcases headD_mem head after with first | first
      · rw [first] at hmem
        exact (List.nodup_cons.mp hbefore).1 hmem
      · exact apart _ (List.mem_cons_of_mem head hmem) _ (List.mem_cons_of_mem x first) rfl
    · intro same
      rcases headD_mem head after with first | first
      · exact xNotBefore.1 (same.symm.trans first)
      · exact hx (same ▸ first)
  · cases after with
    | nil => exact ⟨Function.update_self _ _ _, Function.update_self _ _ _⟩
    | cons n after =>
      obtain ⟨hn, -⟩ := List.nodup_cons.mp hafter
      have nNotHead : n ≠ head := fun same =>
        apart head List.mem_cons_self n (List.mem_cons_of_mem x List.mem_cons_self) same.symm
      refine ⟨⟨Function.update_self _ _ _, Function.update_self _ _ _⟩, ?_⟩
      refine joins_of_join (joins_of_join right.2 ?_ ?_ xNotBefore.1) hx hn nNotHead
      · exact fun hmem => apart _ last _ (List.mem_cons_of_mem x hmem) rfl
      · exact fun hmem => hx (List.mem_cons_of_mem n hmem)

theorem IsRing.unlink {x : Node} (h : IsRing links head (before ++ x :: after)) :
    IsRing (links.join (links.prev x) (links.next x)) head (before ++ after) := by
  obtain ⟨left, right, prev, next⟩ := h.split
  rw [prev, next]
  refine isRing_unlink left right ?_
  exact h.nodup.sublist (List.Sublist.cons_cons head (List.Sublist.append_left
    (List.sublist_cons_self x after) before))

theorem IsRing.replace {x y : Node} (h : IsRing links head (before ++ x :: after))
    (fresh : y ∉ head :: (before ++ after)) :
    IsRing ((links.join (links.prev x) y).join y (links.next x)) head (before ++ y :: after) := by
  obtain ⟨left, right, prev, next⟩ := h.split
  rw [prev, next]
  refine isRing_link left right ?_
  rw [← List.cons_append, List.nodup_middle, List.cons_append]
  refine List.nodup_cons.mpr ⟨fresh, h.nodup.sublist ?_⟩
  exact List.Sublist.cons_cons head (List.Sublist.append_left (List.sublist_cons_self x after) before)

theorem IsRing.pushFront {x : Node} (h : IsRing links head l) (fresh : x ∉ head :: l) :
    IsRing ((links.join head x).join x (links.next head)) head (x :: l) := by
  have first := (joins_first h.joins).1
  rw [first]
  refine @isRing_link _ links head [] l _ x (l.headD head) head ?_ h.joins ?_
  · exact joins_first h.joins
  · rw [← List.cons_append, List.nodup_middle]
    exact List.nodup_cons.mpr ⟨fresh, h.nodup⟩

theorem IsRing.pushBack {x : Node} (h : IsRing links head l) (fresh : x ∉ head :: l) :
    IsRing ((links.join (links.prev head) x).join x head) head (l ++ [x]) := by
  have last := joins_last h.joins
  rw [last.2]
  refine @isRing_link _ links head l [] _ x head (l.getLastD head) h.joins ?_ ?_
  · exact last
  · rw [← List.cons_append, List.nodup_middle, List.append_nil]
    exact List.nodup_cons.mpr ⟨fresh, h.nodup⟩

theorem IsRing.setNext_outside {x y : Node} (h : IsRing links head l) (hx : x ∉ head :: l) :
    IsRing (links.setNext x y) head l := by
  refine ⟨?_, h.nodup⟩
  refine joins_congr ?_ (fun _ _ => ?_) h.joins
  · intro z hz
    exact Function.update_of_ne (fun same : z = x => hx (same ▸ hz)) _ _
  · rfl

theorem IsRing.setPrev_outside {x y : Node} (h : IsRing links head l) (hx : x ∉ head :: l) :
    IsRing (links.setPrev x y) head l := by
  refine ⟨?_, h.nodup⟩
  refine joins_congr (fun _ _ => ?_) ?_ h.joins
  · rfl
  · intro z hz
    refine Function.update_of_ne (fun same : z = x => hx (same ▸ ?_)) _ _
    rcases hz with hz | rfl
    · exact List.mem_cons_of_mem head hz
    · exact List.mem_cons_self

/-- Rings through other nodes are left alone. -/
theorem IsRing.join_outside {x y : Node} (h : IsRing links head l) (hx : x ∉ head :: l)
    (hy : y ∉ head :: l) : IsRing (links.join x y) head l := by
  rw [List.mem_cons, not_or] at hy
  exact ⟨joins_of_join h.joins hx hy.2 hy.1, h.nodup⟩

/-! ## Several rings -/

variable {Head : Node → Prop} {members : Node → List Node} {x y : Node}

/-- A node that is in no ring can be linked anywhere. -/
theorem Rings.setNext_outside (h : Rings links Head members)
    (hx : ∀ head, Head head → x ∉ head :: members head) :
    Rings (links.setNext x y) Head members :=
  ⟨fun head hhead => (h.ring head hhead).setNext_outside (hx head hhead), h.apart⟩

theorem Rings.setPrev_outside (h : Rings links Head members)
    (hx : ∀ head, Head head → x ∉ head :: members head) :
    Rings (links.setPrev x y) Head members :=
  ⟨fun head hhead => (h.ring head hhead).setPrev_outside (hx head hhead), h.apart⟩

/-- Unlinking a node of one ring leaves the other rings alone. -/
theorem Rings.unlink (h : Rings links Head members) (hhead : Head head)
    (parts : members head = before ++ x :: after) :
    Rings (links.join (links.prev x) (links.next x)) Head
      (Function.update members head (before ++ after)) := by
  have ring := h.ring head hhead
  rw [parts] at ring
  obtain ⟨prev, next⟩ := ring.neighbours
  have inside : ∀ z ∈ head :: (before ++ after), z ∈ head :: members head := by
    rw [parts]
    exact (List.Sublist.cons_cons head (List.Sublist.append_left
      (List.sublist_cons_self x after) before)).subset
  have shrunk : ∀ other, ∀ z ∈ other :: Function.update members head (before ++ after) other,
      z ∈ other :: members other := by
    intro other z hz
    by_cases same : other = head
    · subst same
      rw [Function.update_self] at hz
      exact inside z hz
    · rwa [Function.update_of_ne same] at hz
  constructor
  · intro other hother
    by_cases same : other = head
    · subst same
      rw [Function.update_self]
      exact ring.unlink
    · rw [Function.update_of_ne same]
      have away := h.apart head other hhead hother same
      exact (h.ring other hother).join_outside (away _ (inside _ prev)) (away _ (inside _ next))
  · intro one other hone hother different z hz hz'
    exact h.apart one other hone hother different z (shrunk one z hz) (shrunk other z hz')

/-- So does linking a node in at the end of one. -/
theorem Rings.pushBack (h : Rings links Head members) (hhead : Head head)
    (fresh : ∀ head, Head head → x ∉ head :: members head) :
    Rings ((links.join (links.prev head) x).join x head) Head
      (Function.update members head (members head ++ [x])) := by
  have ring := h.ring head hhead
  have last : links.prev head ∈ head :: members head := by
    rw [(joins_last ring.joins).2]
    exact getLastD_mem head (members head)
  have grown : ∀ other, ∀ z ∈ other :: Function.update members head (members head ++ [x]) other,
      z ∈ other :: members other ∨ other = head ∧ z = x := by
    intro other z hz
    by_cases same : other = head
    · subst same
      rw [Function.update_self, ← List.cons_append, List.mem_append, List.mem_singleton] at hz
      exact hz.imp_right fun new => ⟨rfl, new⟩
    · rw [Function.update_of_ne same] at hz
      exact .inl hz
  constructor
  · intro other hother
    by_cases same : other = head
    · subst same
      rw [Function.update_self]
      exact ring.pushBack (fresh other hother)
    · rw [Function.update_of_ne same]
      have away := h.apart head other hhead hother same
      exact ((h.ring other hother).join_outside (away _ last) (fresh other hother)).join_outside
        (fresh other hother) (away _ List.mem_cons_self)
  · intro one other hone hother different z hz hz'
    rcases grown one z hz with old | ⟨rfl, rfl⟩
    · rcases grown other z hz' with old' | ⟨rfl, rfl⟩
      · exact h.apart one other hone hother different z old old'
      · exact fresh one hone old
    · rcases grown other z hz' with old' | ⟨rfl, -⟩
      · exact fresh other hother old'
      · exact different rfl

end Operations

end RingLinks
