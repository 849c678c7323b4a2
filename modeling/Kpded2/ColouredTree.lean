import Mathlib.Algebra.Order.Ring.Nat
import Mathlib.Data.List.Nodup
import Mathlib.Data.Nat.Log

/-!
# Red-black trees with a place in them

A place is given by the frames from it up to the root, as for a program that moves with parent
pointers. What is said of one side of a node holds of the other one with left and right exchanged,
so nodes are written with the side that is looked at.
-/
namespace ColouredTree

universe u
variable {α : Type u}

inductive Colour where
  | black
  | red
  deriving DecidableEq

inductive Side where
  | left
  | right
  deriving DecidableEq

def Side.other : Side → Side
  | .left => .right
  | .right => .left

@[simp] theorem Side.other_other (side : Side) : side.other.other = side := by
  cases side <;> rfl

@[simp] theorem Side.other_ne (side : Side) : side.other ≠ side := by
  cases side <;> decide

@[simp] theorem Side.ne_other (side : Side) : side ≠ side.other := side.other_ne.symm

theorem Side.eq_other {side t : Side} (different : t ≠ side) : t = side.other := by
  cases side <;> cases t <;> first | rfl | exact absurd rfl different

inductive Coloured (α : Type u) where
  | nil
  | node (colour : Colour) (left : Coloured α) (value : α) (right : Coloured α)

/-- The node with `near` on this side. -/
def join (side : Side) (colour : Colour) (near : Coloured α) (value : α) (far : Coloured α) :
    Coloured α :=
  match side with
  | .left => .node colour near value far
  | .right => .node colour far value near

namespace Coloured

/-- A leaf is black. -/
def colour : Coloured α → Colour
  | .nil => .black
  | .node colour _ _ _ => colour

def paint (colour : Colour) : Coloured α → Coloured α
  | .nil => .nil
  | .node _ l v r => .node colour l v r

def toList : Coloured α → List α
  | .nil => []
  | .node _ l v r => l.toList ++ v :: r.toList

def height : Coloured α → Nat
  | .nil => 0
  | .node _ l _ r => max l.height r.height + 1

end Coloured

open Coloured

theorem join_other (side : Side) (c : Colour) (near : Coloured α) (v : α) (far : Coloured α) :
    join side.other c near v far = join side c far v near := by
  cases side <;> rfl

@[simp] theorem colour_join (side : Side) (c : Colour) (near : Coloured α) (v : α)
    (far : Coloured α) : (join side c near v far).colour = c := by
  cases side <;> rfl

@[simp] theorem paint_join (side : Side) (c c' : Colour) (near : Coloured α) (v : α)
    (far : Coloured α) : (join side c near v far).paint c' = join side c' near v far := by
  cases side <;> rfl

@[simp] theorem toList_paint (c : Colour) (t : Coloured α) : (t.paint c).toList = t.toList := by
  cases t <;> rfl

theorem mem_join {side : Side} {c : Colour} {near far : Coloured α} {v a : α} :
    a ∈ (join side c near v far).toList ↔ a ∈ near.toList ∨ a = v ∨ a ∈ far.toList := by
  cases side with
  | left => rw [join, toList, List.mem_append, List.mem_cons]
  | right =>
    rw [join, toList, List.mem_append, List.mem_cons]
    exact ⟨fun h => by tauto, fun h => by tauto⟩

theorem height_join (side : Side) (c : Colour) (near : Coloured α) (v : α) (far : Coloured α) :
    (join side c near v far).height = max near.height far.height + 1 := by
  cases side with
  | left => exact rfl
  | right => rw [join, height, Nat.max_comm]

/-- Every node is a join to either side. -/
theorem node_eq_join (c : Colour) (l : Coloured α) (v : α) (r : Coloured α) (side : Side) :
    ∃ near far, Coloured.node c l v r = join side c near v far := by
  cases side with
  | left => exact ⟨l, r, rfl⟩
  | right => exact ⟨r, l, rfl⟩

/-- A rotation to this side: it does not change the ordering. -/
theorem toList_rotate (side : Side) (c₁ c₂ c₃ c₄ : Colour) (a b d : Coloured α) (x y : α) :
    (join side c₁ (join side c₂ a x b) y d).toList =
      (join side c₃ a x (join side c₄ b y d)).toList := by
  cases side with
  | left => simp only [join, toList, List.append_assoc, List.cons_append]
  | right => simp only [join, toList, List.append_assoc, List.cons_append]

theorem toList_repaint (side : Side) (c c' : Colour) (near far : Coloured α) (v : α) :
    (join side c near v far).toList = (join side c' near v far).toList := by
  cases side <;> rfl

theorem toList_join_congr {near near' far far' : Coloured α} (side : Side) (c c' : Colour) (v : α)
    (left : near.toList = near'.toList) (right : far.toList = far'.toList) :
    (join side c near v far).toList = (join side c' near' v far').toList := by
  cases side <;> simp only [join, toList, left, right]

/-! ## Places -/

structure Frame (α : Type u) where
  side : Side
  colour : Colour
  value : α
  sibling : Coloured α

def fill : List (Frame α) → Coloured α → Coloured α
  | [], t => t
  | f :: rest, t => fill rest (join f.side f.colour t f.value f.sibling)

/-- The values in front of the place. -/
def before : List (Frame α) → List α
  | [] => []
  | ⟨.left, _, _, _⟩ :: rest => before rest
  | ⟨.right, _, v, sibling⟩ :: rest => before rest ++ sibling.toList ++ [v]

def after : List (Frame α) → List α
  | [] => []
  | ⟨.left, _, v, sibling⟩ :: rest => v :: (sibling.toList ++ after rest)
  | ⟨.right, _, _, _⟩ :: rest => after rest

/-- Where a value of the tree is. -/
theorem exists_place {t : Coloured α} {v : α} (listed : v ∈ t.toList) (path : List (Frame α)) :
    ∃ path' c l r, fill path' (.node c l v r) = fill path t := by
  induction t generalizing path with
  | nil => cases listed
  | node c l w r left right =>
    rcases List.mem_append.mp listed with low | high
    · exact left low (⟨.left, c, w, r⟩ :: path)
    · cases high with
      | head => exact ⟨path, c, l, r, rfl⟩
      | tail _ high => exact right high (⟨.right, c, w, l⟩ :: path)

theorem toList_fill (path : List (Frame α)) (t : Coloured α) :
    (fill path t).toList = before path ++ t.toList ++ after path := by
  induction path generalizing t with
  | nil => rw [fill, before, after, List.nil_append, List.append_nil]
  | cons f rest ih =>
    obtain ⟨side, c, v, sibling⟩ := f
    rw [fill, ih]
    cases side with
    | left => simp only [join, toList, before, after, List.append_assoc, List.cons_append]
    | right =>
      simp only [join, toList, before, after, List.append_assoc, List.cons_append, List.nil_append]

theorem toList_fill_congr (path : List (Frame α)) {t t' : Coloured α}
    (same : t.toList = t'.toList) : (fill path t).toList = (fill path t').toList := by
  rw [toList_fill, toList_fill, same]

theorem height_fill (path : List (Frame α)) (t : Coloured α) :
    path.length + t.height ≤ (fill path t).height := by
  induction path generalizing t with
  | nil => exact Nat.le_of_eq (Nat.zero_add _)
  | cons f rest ih =>
    have up := ih (join f.side f.colour t f.value f.sibling)
    rw [height_join] at up
    rw [List.length_cons, fill]
    omega

/-- The values around the place, in no order. -/
def around : List (Frame α) → List α
  | [] => []
  | ⟨_, _, v, sibling⟩ :: rest => v :: (sibling.toList ++ around rest)

theorem mem_around {path : List (Frame α)} {a : α} :
    a ∈ around path ↔ a ∈ before path ∨ a ∈ after path := by
  induction path with
  | nil => exact ⟨Or.inl, fun listed => listed.elim id id⟩
  | cons f rest ih =>
    obtain ⟨side, c, v, sibling⟩ := f
    rw [around, List.mem_cons, List.mem_append, ih]
    cases side with
    | left =>
      rw [before, after, List.mem_cons, List.mem_append]
      tauto
    | right =>
      rw [before, after, List.mem_append, List.mem_append, List.mem_singleton]
      tauto

theorem nodup_middle {l r : List α} {v : α} : (l ++ v :: r).Nodup ↔
    l.Nodup ∧ r.Nodup ∧ v ∉ l ∧ v ∉ r ∧ ∀ a ∈ l, a ∉ r := by
  rw [List.nodup_middle, List.nodup_cons, List.mem_append, List.nodup_append', not_or]
  constructor
  · rintro ⟨⟨inl, inr⟩, left, right, apart⟩
    exact ⟨left, right, inl, inr, fun a ha ha' => apart ha ha'⟩
  · rintro ⟨left, right, inl, inr, apart⟩
    exact ⟨⟨inl, inr⟩, left, right, fun a ha ha' => apart a ha ha'⟩

theorem nodup_join {side : Side} {c : Colour} {near far : Coloured α} {v : α} :
    (join side c near v far).toList.Nodup ↔ near.toList.Nodup ∧ far.toList.Nodup ∧
      v ∉ near.toList ∧ v ∉ far.toList ∧ ∀ a ∈ near.toList, a ∉ far.toList := by
  cases side with
  | left => exact nodup_middle
  | right =>
    rw [join, toList, nodup_middle]
    constructor
    · rintro ⟨left, right, inl, inr, apart⟩
      exact ⟨right, left, inr, inl, fun a ha ha' => apart a ha' ha⟩
    · rintro ⟨left, right, inl, inr, apart⟩
      exact ⟨right, left, inr, inl, fun a ha ha' => apart a ha' ha⟩

theorem nodup_fill {path : List (Frame α)} {t : Coloured α} : (fill path t).toList.Nodup ↔
    t.toList.Nodup ∧ (around path).Nodup ∧ ∀ a ∈ t.toList, a ∉ around path := by
  induction path generalizing t with
  | nil => simp only [fill, around, List.nodup_nil, List.not_mem_nil, not_false_eq_true,
      implies_true, and_true]
  | cons f rest ih =>
    obtain ⟨side, c, v, sibling⟩ := f
    simp only [fill, ih, nodup_join, mem_join, around, List.nodup_cons, List.nodup_append',
      List.mem_cons, List.mem_append, not_or]
    constructor
    · rintro ⟨⟨tree, node, outside, lone, apart⟩, up, away⟩
      refine ⟨tree, ⟨⟨lone, away v (Or.inr (Or.inl rfl))⟩, node, up,
        fun a ha => away a (Or.inr (Or.inr ha))⟩, fun a ha => ⟨fun same => outside (same ▸ ha),
          apart a ha, away a (Or.inl ha)⟩⟩
    · rintro ⟨tree, ⟨⟨lone, top⟩, node, up, disjoint⟩, away⟩
      refine ⟨⟨tree, node, fun ha => (away v ha).1 rfl, lone, fun a ha => (away a ha).2.1⟩, up, ?_⟩
      rintro a (ha | rfl | ha)
      · exact (away a ha).2.2
      · exact top
      · exact disjoint ha

/-! ## Balance -/

/-- Red nodes have black children, and `n` black nodes are on every way down. -/
inductive Balanced : Coloured α → Colour → Nat → Prop where
  | nil : Balanced .nil .black 0
  | red {l r : Coloured α} {v : α} {n : Nat} : Balanced l .black n → Balanced r .black n →
    Balanced (.node .red l v r) .red n
  | black {l r : Coloured α} {v : α} {c c' : Colour} {n : Nat} : Balanced l c n → Balanced r c' n →
    Balanced (.node .black l v r) .black (n + 1)

section
variable {t l r : Coloured α} {side : Side} {v : α} {c c' : Colour} {n : Nat}

theorem Balanced.colour (balanced : Balanced t c n) : t.colour = c := by
  cases balanced <;> rfl

theorem Balanced.join_red (near : Balanced l .black n) (far : Balanced r .black n) :
    Balanced (join side .red l v r) .red n := by
  cases side with
  | left => exact .red near far
  | right => exact .red far near

theorem Balanced.join_black (near : Balanced l c n) (far : Balanced r c' n) :
    Balanced (join side .black l v r) .black (n + 1) := by
  cases side with
  | left => exact .black near far
  | right => exact .black far near

theorem Balanced.of_red (balanced : Balanced (join side .red l v r) c n) :
    c = .red ∧ Balanced l .black n ∧ Balanced r .black n := by
  cases side with
  | left =>
    cases balanced with
    | red near far => exact ⟨rfl, near, far⟩
  | right =>
    cases balanced with
    | red far near => exact ⟨rfl, near, far⟩

theorem Balanced.of_black (balanced : Balanced (join side .black l v r) c n) :
    c = .black ∧ ∃ m cl cr, n = m + 1 ∧ Balanced l cl m ∧ Balanced r cr m := by
  cases side with
  | left =>
    cases balanced with
    | black near far => exact ⟨rfl, _, _, _, rfl, near, far⟩
  | right =>
    cases balanced with
    | black far near => exact ⟨rfl, _, _, _, rfl, near, far⟩

theorem Balanced.paint_black (balanced : Balanced t c n) :
    ∃ m, Balanced (t.paint .black) .black m := by
  cases balanced with
  | nil => exact ⟨0, .nil⟩
  | red near far => exact ⟨_, .black near far⟩
  | black near far => exact ⟨_, .black near far⟩

/-- A red tree becomes one higher if its root is made black. -/
theorem Balanced.blacken (balanced : Balanced t .red n) :
    Balanced (t.paint .black) .black (n + 1) := by
  cases balanced with
  | red near far => exact .black near far

theorem Balanced.height_le (balanced : Balanced t c n) :
    t.height ≤ 2 * n + (if c = .red then 1 else 0) := by
  induction balanced with
  | nil => exact Nat.zero_le _
  | red _ _ near far =>
    rw [if_neg (by decide)] at near far
    rw [height, if_pos rfl]
    omega
  | black _ _ near far =>
    rw [height, if_neg (by decide)]
    split at near <;> split at far <;> omega

theorem Balanced.size_le (balanced : Balanced t c n) : 2 ^ n ≤ t.toList.length + 1 := by
  induction balanced with
  | nil => exact Nat.le_refl 1
  | red _ _ near far =>
    rw [toList, List.length_append, List.length_cons]
    omega
  | black _ _ near far =>
    rw [toList, List.length_append, List.length_cons, Nat.pow_succ]
    omega

/-- The longest way down is only twice as long as the shortest one. -/
theorem Balanced.height_log (balanced : Balanced t .black n) :
    t.height ≤ 2 * Nat.log2 (t.toList.length + 1) := by
  have low : n ≤ Nat.log2 (t.toList.length + 1) :=
    (Nat.le_log2 (Nat.succ_ne_zero _)).mpr balanced.size_le
  have high := balanced.height_le
  rw [if_neg (by decide)] at high
  omega

end

/-- A tree of this colour and height can stand at the place. The root is black. -/
inductive Fits : List (Frame α) → Colour → Nat → Prop where
  | top {n : Nat} : Fits [] .black n
  | red {side : Side} {v : α} {sibling : Coloured α} {rest : List (Frame α)} {n : Nat} :
    Balanced sibling .black n → Fits rest .red n → Fits (⟨side, .red, v, sibling⟩ :: rest) .black n
  | black {side : Side} {v : α} {sibling : Coloured α} {rest : List (Frame α)} {c c' : Colour}
    {n : Nat} : Balanced sibling c' n → Fits rest .black (n + 1) →
      Fits (⟨side, .black, v, sibling⟩ :: rest) c n

section
variable {path rest : List (Frame α)} {t : Coloured α} {side : Side} {v : α} {sibling : Coloured α}
  {c : Colour} {n : Nat}

/-- A black tree can stand wherever one of the same height can. -/
theorem Fits.relax (fits : Fits path c n) : Fits path .black n := by
  cases fits with
  | top => exact .top
  | red sibling rest => exact .red sibling rest
  | black sibling rest => exact .black sibling rest

theorem Fits.fill (fits : Fits path c n) (balanced : Balanced t c n) :
    ∃ m, Balanced (fill path t) .black m := by
  induction fits generalizing t with
  | top => exact ⟨_, balanced⟩
  | red sibling _ ih => exact ih (balanced.join_red sibling)
  | black sibling _ ih => exact ih (balanced.join_black sibling)

/-- In a balanced tree with a black root, every subtree is balanced and fits its place. -/
theorem fits_of_fill {m : Nat} (balanced : Balanced (ColouredTree.fill path t) .black m) :
    ∃ c n, Balanced t c n ∧ Fits path c n := by
  induction path generalizing t with
  | nil => exact ⟨_, _, balanced, .top⟩
  | cons f rest ih =>
    obtain ⟨side, c, v, sibling⟩ := f
    obtain ⟨c', n, joined, fits⟩ := ih balanced
    cases c with
    | red =>
      obtain ⟨rfl, near, far⟩ := joined.of_red
      exact ⟨_, _, near, .red far fits⟩
    | black =>
      obtain ⟨rfl, m, cl, cr, rfl, near, far⟩ := joined.of_black
      exact ⟨_, _, near, .black far fits⟩

/-! ## A red node under a red one -/

/-- A red parent is not the root, and its parent is black. -/
theorem Fits.of_red (fits : Fits (⟨side, .red, v, sibling⟩ :: rest) c n) :
    Balanced sibling .black n ∧ ∃ s g uncle rest' c',
      rest = ⟨s, .black, g, uncle⟩ :: rest' ∧ Balanced uncle c' n ∧ Fits rest' .black (n + 1) := by
  cases fits with
  | red near up =>
    cases up with
    | black far up => exact ⟨near, _, _, _, _, _, rfl, far, up⟩

theorem Fits.of_black (fits : Fits (⟨side, .black, v, sibling⟩ :: rest) c n) :
    (∃ c', Balanced sibling c' n) ∧ Fits rest .black (n + 1) := by
  cases fits with
  | black near up => exact ⟨⟨_, near⟩, up⟩

end

end ColouredTree
