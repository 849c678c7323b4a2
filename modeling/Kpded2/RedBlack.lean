import Mathlib.Logic.Function.Basic
import Kpded2.ColouredTree

/-!
# The red-black trees of the engine

`redblack.c` keeps the names of commands, variables, aliases and cached files in trees of nodes with
parent pointers. A node is an address, and `RBNULL` is address 0: its `up` is written when it takes
the place of a deleted node. What `rb_alloc` returns is handed to the search; what is freed may be
overwritten by anyone.

The trees are not walked, and looked up in only by `rbfind`.
-/
namespace RedBlack
open ColouredTree
open ColouredTree.Coloured (toList)

variable {K D : Type}

structure Memory (K D : Type) where
  child : Side → Nat → Nat
  up : Nat → Nat
  colour : Nat → Colour
  key : Nat → K
  data : Nat → Option D
  root : Nat

def rbnull : Nat := 0

namespace Memory

def setChild (m : Memory K D) (side : Side) (x y : Nat) : Memory K D :=
  { m with child := Function.update m.child side (Function.update (m.child side) x y) }

def setUp (m : Memory K D) (x y : Nat) : Memory K D := { m with up := Function.update m.up x y }

def setColour (m : Memory K D) (x : Nat) (c : Colour) : Memory K D :=
  { m with colour := Function.update m.colour x c }

def setData (m : Memory K D) (x : Nat) (d : Option D) : Memory K D :=
  { m with data := Function.update m.data x d }

theorem data_setData (m : Memory K D) (x : Nat) (d : Option D) : (m.setData x d).data x = d :=
  Function.update_self ..

/-- What leads to `x` from above now leads to `y`. -/
def setLink (m : Memory K D) (x y : Nat) : Memory K D :=
  if m.up x = rbnull then { m with root := y }
  else if x = m.child .left (m.up x) then m.setChild .left (m.up x) y
  else m.setChild .right (m.up x) y

end Memory

open Memory

/-! ## Rotations -/

/-- `rb_left_rotate` and `rb_right_rotate`, with the sides exchanged. -/
def rotate (side : Side) (m : Memory K D) (x : Nat) : Memory K D :=
  let y := m.child side.other x
  let m := m.setChild side.other x (m.child side y)
  let m := if m.child side y ≠ rbnull then m.setUp (m.child side y) x else m
  let m := m.setUp y (m.up x)
  let m := m.setLink x y
  let m := m.setChild side y x
  m.setUp x y

def rbLeftRotate (m : Memory K D) (x : Nat) : Memory K D := rotate .left m x

def rbRightRotate (m : Memory K D) (x : Nat) : Memory K D := rotate .right m x

/-! ## Searching -/

/-- `x` walks down the tree, with `y` as its parent. What comes back is `x`, `y` and `found`. -/
def walkDown (cmp : K → K → Ordering) (m : Memory K D) (key : K) :
    Nat → Nat → Nat → Option (Nat × Nat × Bool)
  | 0, _, _ => none
  | fuel + 1, x, y =>
    if x = rbnull then some (x, y, false)
    else
      match cmp key (m.key x) with
      | .lt => walkDown cmp m key fuel (m.child .left x) x
      | .gt => walkDown cmp m key fuel (m.child .right x) x
      | .eq => some (x, x, true)

/-- The colours of a red node whose parent is red as well, on its way up. -/
def insertFix : Nat → Memory K D → Nat → Option (Memory K D)
  | 0, _, _ => none
  | fuel + 1, m, x =>
    if x ≠ m.root ∧ m.colour (m.up x) = .red then
      let side := if m.up x = m.child .left (m.up (m.up x)) then Side.left else Side.right
      let y := m.child side.other (m.up (m.up x))
      if m.colour y = .red then
        let m := (m.setColour (m.up x) .black).setColour y .black
        let m := m.setColour (m.up (m.up x)) .red
        insertFix fuel m (m.up (m.up x))
      else
        let inner := x = m.child side.other (m.up x)
        let m' := if inner then rotate side m (m.up x) else m
        let x := if inner then m.up x else x
        let m := m'.setColour (m'.up x) .black
        let m := m.setColour (m.up (m.up x)) .red
        insertFix fuel (rotate side.other m (m.up (m.up x))) x
    else some m

/-- A new node `z` below `y`. -/
def attach (cmp : K → K → Ordering) (m : Memory K D) (key : K) (y z : Nat) : Memory K D :=
  let m := { m with key := Function.update m.key z key, data := Function.update m.data z none }
  let m := m.setUp z y
  let m :=
    if y = rbnull then { m with root := z }
    else
      match cmp (m.key z) (m.key y) with
      | .lt => m.setChild .left y z
      | _ => m.setChild .right y z
  ((m.setChild .left z rbnull).setChild .right z rbnull).setColour z .red

def rbTraverse (cmp : K → K → Ordering) (fuel : Nat) (insert : Bool) (key : K) (z : Nat)
    (m : Memory K D) : Option (Nat × Memory K D) := do
  let (x, y, found) ← walkDown cmp m key fuel m.root rbnull
  if found || !insert then some (x, m)
  else
    let m ← insertFix fuel (attach cmp m key y z) z
    some (z, m.setColour m.root .black)

/-- The node whose data is pointed to. -/
def rbSearch (cmp : K → K → Ordering) (fuel : Nat) (key : K) (z : Nat) (m : Memory K D) :
    Option (Nat × Memory K D) :=
  rbTraverse cmp fuel true key z m

/-- The node whose data is pointed to, if there is one. -/
def rbFind (cmp : K → K → Ordering) (fuel : Nat) (key : K) (m : Memory K D) :
    Option (Option Nat) :=
  if m.root = rbnull then some none
  else
    (rbTraverse cmp fuel false key rbnull m).map fun (x, _) => if x = rbnull then none else some x

/-! ## The next node -/

/-- As far to the left as it goes. -/
def goLeft (m : Memory K D) : Nat → Nat → Option Nat
  | 0, _ => none
  | fuel + 1, y =>
    if m.child .left y ≠ rbnull then goLeft m fuel (m.child .left y) else some y

def climb (m : Memory K D) : Nat → Nat → Nat → Option Nat
  | 0, _, _ => none
  | fuel + 1, x, y =>
    if y ≠ rbnull ∧ x = m.child .right y then climb m fuel y (m.up y) else some y

def rbSuccessor (fuel : Nat) (m : Memory K D) (x : Nat) : Option Nat :=
  if m.child .right x ≠ rbnull then goLeft m fuel (m.child .right x)
  else climb m fuel x (m.up x)

/-! ## Deleting -/

/-- A red sibling of `x` changes places with their parent. -/
def liftSibling (side : Side) (m : Memory K D) (x : Nat) : Memory K D :=
  let w := m.child side.other (m.up x)
  if m.colour w = .red then
    rotate side ((m.setColour w .black).setColour (m.up x) .red) (m.up x)
  else m

/-- If only the near child of `w` is red, they change places. -/
def straighten (side : Side) (m : Memory K D) (w : Nat) : Memory K D :=
  if m.colour (m.child side.other w) = .black then
    rotate side.other ((m.setColour (m.child side w) .black).setColour w .red) w
  else m

/-- The sibling takes the place and the colour of the parent. -/
def raiseSibling (side : Side) (m : Memory K D) (x : Nat) : Memory K D :=
  let w := m.child side.other (m.up x)
  let m := m.setColour w (m.colour (m.up x))
  let m := m.setColour (m.up x) .black
  let m := m.setColour (m.child side.other w) .black
  rotate side m (m.up x)

/-- `rb_delete_fix`: the ways through `x` are one black node short. -/
def deleteFix : Nat → Memory K D → Nat → Option (Memory K D)
  | 0, _, _ => none
  | fuel + 1, m, x =>
    if x ≠ m.root ∧ m.colour x = .black then
      let side := if x = m.child .left (m.up x) then Side.left else Side.right
      let m := liftSibling side m x
      let w := m.child side.other (m.up x)
      if m.colour (m.child side w) = .black ∧ m.colour (m.child side.other w) = .black then
        deleteFix fuel (m.setColour w .red) (m.up x)
      else
        let m := raiseSibling side (straighten side m w) x
        deleteFix fuel m m.root
    else some (m.setColour x .black)

/-- What a node holds. -/
structure Junk (K D : Type) where
  child : Side → Nat
  up : Nat
  colour : Colour
  key : K
  data : Option D

/-- `rb_free`: whatever is put into the memory afterwards. -/
def rbFree (m : Memory K D) (y : Nat) (junk : Junk K D) : Memory K D :=
  { m with
    child := fun side => Function.update (m.child side) y (junk.child side)
    up := Function.update m.up y junk.up
    colour := Function.update m.colour y junk.colour
    key := Function.update m.key y junk.key
    data := Function.update m.data y junk.data }

/-- What `y` holds is put into `z`. -/
def copyKey (m : Memory K D) (y z : Nat) : Memory K D :=
  if y ≠ z then
    { m with
      key := Function.update m.key z (m.key y)
      data := Function.update m.data z (m.data y) }
  else m

/-- `y` is taken out of the tree. -/
def unlink (m : Memory K D) (y : Nat) : Nat × Memory K D :=
  let x := if m.child .left y ≠ rbnull then m.child .left y else m.child .right y
  let m := m.setUp x (m.up y)
  (x, m.setLink y x)

/-- A node with two children is not taken out itself. -/
def splicedNode (fuel : Nat) (m : Memory K D) (z : Nat) : Option Nat :=
  if m.child .left z = rbnull ∨ m.child .right z = rbnull then some z else rbSuccessor fuel m z

def fixIfBlack (fuel : Nat) (m : Memory K D) (y x : Nat) : Option (Memory K D) :=
  if m.colour y = .black then deleteFix fuel m x else some m

/-- `rb_delete`: the node that is freed, and the memory. -/
def deleteNode (fuel : Nat) (m : Memory K D) (z : Nat) (junk : Junk K D) :
    Option (Nat × Memory K D) := do
  let y ← splicedNode fuel m z
  let (x, m) := unlink m y
  let m ← fixIfBlack fuel (copyKey m y z) y x
  some (y, rbFree m y junk)

/-- The node that is freed, or `RBNULL`. -/
def rbDelete (cmp : K → K → Ordering) (fuel : Nat) (key : K) (junk : Junk K D)
    (m : Memory K D) : Option (Nat × Memory K D) := do
  let (x, m) ← rbTraverse cmp fuel false key rbnull m
  if x = rbnull then some (rbnull, m) else deleteNode fuel m x junk

/-! ## Lists -/

/-- `rblistp->nextp` -/
def rbOpenlist (fuel : Nat) (m : Memory K D) : Option Nat := goLeft m fuel m.root

/-- The key, and the next `nextp`. -/
def rbReadlist (fuel : Nat) (m : Memory K D) (nextp : Nat) : Option (Option K × Nat) :=
  if nextp ≠ rbnull then (rbSuccessor fuel m nextp).map fun next => (some (m.key nextp), next)
  else some (none, nextp)

/-! ## Trees in the memory -/

def rootOf : Coloured Nat → Nat
  | .nil => rbnull
  | .node _ _ x _ => x

@[simp] theorem rootOf_join (side : Side) (c : Colour) (near : Coloured Nat) (x : Nat)
    (far : Coloured Nat) : rootOf (join side c near x far) = x := by
  cases side <;> rfl

/-- The nodes of the tree are as the memory says, and `up` leads to `parent`. -/
def Linked (m : Memory K D) : Nat → Coloured Nat → Prop
  | _, .nil => True
  | parent, .node c l x r => x ≠ rbnull ∧ m.up x = parent ∧ m.colour x = c ∧
    m.child .left x = rootOf l ∧ m.child .right x = rootOf r ∧ Linked m x l ∧ Linked m x r

def parentOf : List (Frame Nat) → Nat
  | [] => rbnull
  | f :: _ => f.value

/-- What stands at the place in the memory. -/
def hole (m : Memory K D) : List (Frame Nat) → Nat
  | [] => m.root
  | f :: _ => m.child f.side f.value

/-- The nodes on the way to the place, and those beside it, are as the memory says. -/
def Around (m : Memory K D) : List (Frame Nat) → Prop
  | [] => True
  | f :: rest => f.value ≠ rbnull ∧ m.up f.value = parentOf rest ∧ m.colour f.value = f.colour ∧
    m.child f.side.other f.value = rootOf f.sibling ∧ Linked m f.value f.sibling ∧
    hole m rest = f.value ∧ Around m rest

/-- The memory holds this tree, and that part of it stands at the end of the path. -/
structure At (m : Memory K D) (path : List (Frame Nat)) (t : Coloured Nat) : Prop where
  tree : Linked m (parentOf path) t
  hole : hole m path = rootOf t
  around : Around m path
  nodup : (fill path t).toList.Nodup

section
variable {m m' : Memory K D} {side : Side} {c c' : Colour} {near far a b d t : Coloured Nat}
  {x y parent : Nat} {path rest : List (Frame Nat)} {f : Frame Nat}

theorem linked_join : Linked m parent (join side c near x far) ↔
    x ≠ rbnull ∧ m.up x = parent ∧ m.colour x = c ∧ m.child side x = rootOf near ∧
      m.child side.other x = rootOf far ∧ Linked m x near ∧ Linked m x far := by
  cases side with
  | left => exact Iff.rfl
  | right =>
    rw [join, Linked, Side.other]
    constructor
    · rintro ⟨real, up, colour, l, r, left, right⟩
      exact ⟨real, up, colour, r, l, right, left⟩
    · rintro ⟨real, up, colour, r, l, right, left⟩
      exact ⟨real, up, colour, l, r, left, right⟩

/-- Moving up and down in the tree. -/
theorem at_cons : At m (f :: rest) t ↔ At m rest (join f.side f.colour t f.value f.sibling) := by
  constructor
  · rintro ⟨tree, hole, ⟨real, up, colour, beside, sibling, link, around⟩, nodup⟩
    exact ⟨linked_join.mpr ⟨real, up, colour, hole, beside, tree, sibling⟩,
      by rw [link, rootOf_join], around, nodup⟩
  · rintro ⟨linked, link, around, nodup⟩
    obtain ⟨real, up, colour, hole, beside, tree, sibling⟩ := linked_join.mp linked
    exact ⟨tree, hole, ⟨real, up, colour, beside, sibling, by rw [link, rootOf_join], around⟩,
      nodup⟩

theorem at_fill : At m path t ↔ At m [] (fill path t) := by
  induction path generalizing t with
  | nil => exact Iff.rfl
  | cons f rest ih => exact at_cons.trans ih

theorem rootOf_mem (real : rootOf t ≠ rbnull) : rootOf t ∈ t.toList := by
  cases t with
  | nil => exact absurd rfl real
  | node c l x r => exact List.mem_append_right _ List.mem_cons_self

theorem Linked.ne_rbnull (linked : Linked m parent t) : ∀ z ∈ t.toList, z ≠ rbnull := by
  induction t generalizing parent with
  | nil => exact List.forall_mem_nil _
  | node c l x r left right =>
    obtain ⟨real, -, -, -, -, nearer, further⟩ := linked
    intro z listed
    rcases List.mem_append.mp listed with inl | inr
    · exact left nearer z inl
    · rcases List.mem_cons.mp inr with rfl | inr
      · exact real
      · exact right further z inr

theorem Linked.rootOf_eq_rbnull (linked : Linked m parent t) : rootOf t = rbnull ↔ t = .nil := by
  cases t with
  | nil => exact ⟨fun _ => rfl, fun _ => rfl⟩
  | node c l x r => exact ⟨fun none => absurd none linked.1, nofun⟩

/-- The node is left as it was. -/
def SameNode (m m' : Memory K D) (x : Nat) : Prop :=
  m'.up x = m.up x ∧ m'.colour x = m.colour x ∧ ∀ side, m'.child side x = m.child side x

theorem Linked.congr (linked : Linked m parent t) (same : ∀ z ∈ t.toList, SameNode m m' z) :
    Linked m' parent t := by
  induction t generalizing parent with
  | nil => trivial
  | node c l x r left right =>
    obtain ⟨real, up, colour, l', r', nearer, further⟩ := linked
    obtain ⟨sameUp, sameColour, sameChild⟩ :=
      same x (List.mem_append_right _ List.mem_cons_self)
    exact ⟨real, sameUp.trans up, sameColour.trans colour, (sameChild .left).trans l',
      (sameChild .right).trans r',
      left nearer fun z listed => same z (List.mem_append_left _ listed),
      right further fun z listed =>
        same z (List.mem_append_right _ (List.mem_cons_of_mem _ listed))⟩

/-- A tree under another parent. -/
theorem Linked.reparent (linked : Linked m parent t) {parent' : Nat}
    (nodup : t.toList.Nodup) (up : rootOf t ≠ rbnull → m'.up (rootOf t) = parent')
    (same : ∀ z ∈ t.toList, z ≠ rootOf t → m'.up z = m.up z)
    (others : ∀ z ∈ t.toList, m'.colour z = m.colour z ∧
      ∀ side, m'.child side z = m.child side z) : Linked m' parent' t := by
  cases t with
  | nil => trivial
  | node c l x r =>
    obtain ⟨real, -, colour, l', r', nearer, further⟩ := linked
    obtain ⟨-, -, outl, outr, -⟩ := nodup_middle.mp nodup
    obtain ⟨sameColour, sameChild⟩ := others x (List.mem_append_right _ List.mem_cons_self)
    refine ⟨real, up real, sameColour.trans colour, (sameChild .left).trans l',
      (sameChild .right).trans r', nearer.congr fun z listed => ?_,
      further.congr fun z listed => ?_⟩
    · have here : z ∈ (Coloured.node c l x r).toList := List.mem_append_left _ listed
      exact ⟨same z here (ne_of_mem_of_not_mem listed outl), others z here⟩
    · have here : z ∈ (Coloured.node c l x r).toList :=
        List.mem_append_right _ (List.mem_cons_of_mem _ listed)
      exact ⟨same z here (ne_of_mem_of_not_mem listed outr), others z here⟩

theorem hole_same (root : m'.root = m.root)
    (same : ∀ z ∈ ColouredTree.around path, SameNode m m' z) :
    RedBlack.hole m' path = RedBlack.hole m path := by
  cases path with
  | nil => exact root
  | cons f rest => exact (same f.value List.mem_cons_self).2.2 f.side

theorem Around.same (around : Around m path) (root : m'.root = m.root)
    (same : ∀ z ∈ ColouredTree.around path, SameNode m m' z) : Around m' path := by
  induction path with
  | nil => trivial
  | cons f rest ih =>
    obtain ⟨real, up, colour, beside, sibling, link, far⟩ := around
    obtain ⟨sameUp, sameColour, sameChild⟩ := same f.value List.mem_cons_self
    have above : ∀ z ∈ ColouredTree.around rest, SameNode m m' z := fun z listed =>
      same z (List.mem_cons_of_mem _ (List.mem_append_right _ listed))
    exact ⟨real, sameUp.trans up, sameColour.trans colour, (sameChild _).trans beside,
      sibling.congr fun z listed =>
        same z (List.mem_cons_of_mem _ (List.mem_append_left _ listed)),
      (hole_same root above).trans link, ih far above⟩

/-- What surrounds a place stays if only the link to the place is changed. -/
theorem Around.relink (around : Around m (f :: rest)) (root : m'.root = m.root)
    (up : m'.up f.value = m.up f.value) (colour : m'.colour f.value = m.colour f.value)
    (beside : m'.child f.side.other f.value = m.child f.side.other f.value)
    (same : ∀ z ∈ f.sibling.toList ++ ColouredTree.around rest, SameNode m m' z) :
    Around m' (f :: rest) := by
  obtain ⟨real, up', colour', beside', sibling, link, far⟩ := around
  have above : ∀ z ∈ ColouredTree.around rest, SameNode m m' z := fun z listed =>
    same z (List.mem_append_right _ listed)
  exact ⟨real, up.trans up', colour.trans colour', beside.trans beside',
    sibling.congr fun z listed => same z (List.mem_append_left _ listed),
    (hole_same root above).trans link, far.same root above⟩

end
/-! ## Writing -/

section
variable {m : Memory K D} {side s : Side} {c c' : Colour} {a b d t : Coloured Nat} {x y z v : Nat}
  {path : List (Frame Nat)}

@[simp] theorem setChild_child : (m.setChild side x v).child s z =
    if s = side ∧ z = x then v else m.child s z := by
  by_cases here : s = side
  · subst here
    simp only [setChild, Function.update_self, Function.update_apply, true_and]
  · simp only [setChild, Function.update_of_ne here, here, false_and, if_false]

@[simp] theorem setUp_up : (m.setUp x v).up z = if z = x then v else m.up z :=
  Function.update_apply ..

@[simp] theorem setColour_colour : (m.setColour x c).colour z = if z = x then c else m.colour z :=
  Function.update_apply ..

@[simp] theorem setChild_up : (m.setChild side x v).up = m.up := rfl
@[simp] theorem setChild_colour : (m.setChild side x v).colour = m.colour := rfl
@[simp] theorem setChild_root : (m.setChild side x v).root = m.root := rfl
@[simp] theorem setChild_key : (m.setChild side x v).key = m.key := rfl
@[simp] theorem setChild_data : (m.setChild side x v).data = m.data := rfl
@[simp] theorem setUp_child : (m.setUp x v).child = m.child := rfl
@[simp] theorem setUp_colour : (m.setUp x v).colour = m.colour := rfl
@[simp] theorem setUp_root : (m.setUp x v).root = m.root := rfl
@[simp] theorem setUp_key : (m.setUp x v).key = m.key := rfl
@[simp] theorem setUp_data : (m.setUp x v).data = m.data := rfl
@[simp] theorem setColour_child : (m.setColour x c).child = m.child := rfl
@[simp] theorem setColour_up : (m.setColour x c).up = m.up := rfl
@[simp] theorem setColour_root : (m.setColour x c).root = m.root := rfl
@[simp] theorem setColour_key : (m.setColour x c).key = m.key := rfl
@[simp] theorem setColour_data : (m.setColour x c).data = m.data := rfl

/-- What is at the place is exchanged. -/
def setHole (m : Memory K D) (y : Nat) : List (Frame Nat) → Memory K D
  | [] => { m with root := y }
  | f :: _ => m.setChild f.side f.value y

@[simp] theorem setHole_up : (setHole m y path).up = m.up := by cases path <;> rfl
@[simp] theorem setHole_colour : (setHole m y path).colour = m.colour := by cases path <;> rfl
@[simp] theorem setHole_key : (setHole m y path).key = m.key := by cases path <;> rfl
@[simp] theorem setHole_data : (setHole m y path).data = m.data := by cases path <;> rfl

@[simp] theorem hole_setHole : RedBlack.hole (setHole m y path) path = y := by
  cases path with
  | nil => exact rfl
  | cons f rest => exact setChild_child.trans (if_pos ⟨rfl, rfl⟩)

theorem setHole_child (outside : z ∉ ColouredTree.around path) :
    (setHole m y path).child s z = m.child s z := by
  cases path with
  | nil => exact rfl
  | cons f rest =>
    refine setChild_child.trans (if_neg fun here => outside ?_)
    rw [here.2]
    exact List.mem_cons_self

theorem around_setHole (around : Around m path) (nodup : (ColouredTree.around path).Nodup) :
    Around (setHole m y path) path := by
  cases path with
  | nil => trivial
  | cons f rest =>
    have outside := (List.nodup_cons.mp nodup).1
    have other : ∀ s z, s ≠ f.side ∨ z ≠ f.value →
        (m.setChild f.side f.value y).child s z = m.child s z := fun s z different =>
      setChild_child.trans (if_neg (not_and_or.mpr different))
    refine around.relink rfl rfl rfl (other _ _ (Or.inl f.side.other_ne)) fun z listed =>
      ⟨rfl, rfl, fun s => other s z (Or.inr fun same => outside (same ▸ listed))⟩

/-- Which link leads to a node of the tree is found out by its parent. -/
theorem setLink_eq (real : x ≠ rbnull) (up : m.up x = parentOf path)
    (link : RedBlack.hole m path = x) (around : Around m path)
    (outside : x ∉ ColouredTree.around path) : m.setLink x y = setHole m y path := by
  unfold setLink
  cases path with
  | nil => exact if_pos up
  | cons f rest =>
    obtain ⟨side, c, v, sibling⟩ := f
    obtain ⟨real', -, -, beside, -⟩ := around
    rw [if_neg (ne_of_eq_of_ne up real'), up]
    cases side with
    | left => exact if_pos link.symm
    | right =>
      refine if_neg fun same => ?_
      have sibling : x = rootOf sibling := same.trans beside
      refine outside (List.mem_cons_of_mem _ (List.mem_append_left _ ?_))
      rw [sibling] at real ⊢
      exact rootOf_mem real

/-! ## Rotating -/

@[simp] theorem setLink_key : (m.setLink x y).key = m.key := by
  unfold setLink
  split
  · exact rfl
  · split <;> rfl

@[simp] theorem setLink_data : (m.setLink x y).data = m.data := by
  unfold setLink
  split
  · exact rfl
  · split <;> rfl

@[simp] theorem setLink_colour : (m.setLink x y).colour = m.colour := by
  unfold setLink
  split
  · exact rfl
  · split <;> rfl

@[simp] theorem setLink_up : (m.setLink x y).up = m.up := by
  unfold setLink
  split
  · exact rfl
  · split <;> rfl

@[simp] theorem rotate_key : (rotate side m x).key = m.key := by
  unfold rotate
  dsimp only
  split <;> simp only [setUp_key, setChild_key, setLink_key]

@[simp] theorem rotate_data : (rotate side m x).data = m.data := by
  unfold rotate
  dsimp only
  split <;> simp only [setUp_data, setChild_data, setLink_data]

@[simp] theorem rotate_colour : (rotate side m x).colour = m.colour := by
  unfold rotate
  dsimp only
  split <;> simp only [setUp_colour, setChild_colour, setLink_colour]

/-- The nodes that a rotation is about are different ones. -/
structure Apart (path : List (Frame Nat)) (a b d : Coloured Nat) (x y : Nat) : Prop where
  outside : (ColouredTree.around path).Nodup
  inner : b.toList.Nodup
  xy : x ≠ y
  away : ∀ z, z ∈ a.toList ∨ z = x ∨ z ∈ b.toList ∨ z = y ∨ z ∈ d.toList →
    z ∉ ColouredTree.around path
  a_x : x ∉ a.toList
  a_y : y ∉ a.toList
  b_x : x ∉ b.toList
  b_y : y ∉ b.toList
  d_x : x ∉ d.toList
  d_y : y ∉ d.toList
  a_b : ∀ z ∈ a.toList, z ∉ b.toList
  d_b : ∀ z ∈ d.toList, z ∉ b.toList

theorem At.apart (here : At m path (join side c a x (join side c' b y d))) :
    Apart path a b d x y := by
  obtain ⟨tree, outside, away⟩ := nodup_fill.mp here.nodup
  obtain ⟨-, right, ax, rx, ar⟩ := nodup_join.mp tree
  obtain ⟨nb, -, yb, yd, bd⟩ := nodup_join.mp right
  simp only [mem_join, not_or] at away ar rx
  exact
    { outside := outside
      inner := nb
      xy := rx.2.1
      away := fun z listed => away z listed
      a_x := ax
      a_y := fun listed => (ar y listed).2.1 rfl
      b_x := rx.1
      b_y := yb
      d_x := rx.2.2
      d_y := yd
      a_b := fun z listed => (ar z listed).1
      d_b := fun z listed inb => bd z inb listed }

theorem Around.ne_rbnull (around : Around m path) : ∀ z ∈ ColouredTree.around path, z ≠ rbnull := by
  induction path with
  | nil => exact List.forall_mem_nil _
  | cons f rest ih =>
    obtain ⟨real, -, -, -, sibling, -, far⟩ := around
    intro z listed
    rcases List.mem_cons.mp listed with rfl | listed
    · exact real
    · rcases List.mem_append.mp listed with beside | above
      · exact sibling.ne_rbnull z beside
      · exact ih far z above

/-- The memory before the link to `x` is changed: `b` is under `x`, and `y` under what was above `x`. -/
def lifted (side : Side) (m : Memory K D) (path : List (Frame Nat)) (b : Coloured Nat) (x y : Nat) :
    Memory K D :=
  let m₁ := m.setChild side.other x (rootOf b)
  (if rootOf b ≠ rbnull then m₁.setUp (rootOf b) x else m₁).setUp y (parentOf path)

theorem lifted_child : (lifted side m path b x y).child s z =
    if s = side.other ∧ z = x then rootOf b else m.child s z := by
  dsimp only [lifted]
  split
  · exact setChild_child
  · exact setChild_child

theorem lifted_up : (lifted side m path b x y).up z =
    if z = y then parentOf path else if rootOf b ≠ rbnull ∧ z = rootOf b then x else m.up z := by
  dsimp only [lifted]
  rw [setUp_up]
  split
  · exact rfl
  · split
    · rename_i real
      simp only [setUp_up, setChild_up, real, ne_eq, not_false_eq_true, true_and]
    · rename_i null
      simp only [setChild_up, not_not.mp null, ne_eq, not_true_eq_false, false_and, if_false]

@[simp] theorem lifted_colour : (lifted side m path b x y).colour = m.colour := by
  dsimp only [lifted]
  split
  · exact rfl
  · exact rfl

@[simp] theorem lifted_root : (lifted side m path b x y).root = m.root := by
  dsimp only [lifted]
  split
  · exact rfl
  · exact rfl

/-- The nodes around are not touched before the link is changed. -/
theorem At.lifted_around (here : At m path (join side c a x (join side c' b y d))) :
    ∀ z ∈ ColouredTree.around path, SameNode m (lifted side m path b x y) z := by
  have apart := here.apart
  intro z listed
  have notX : z ≠ x := by
    rintro rfl
    exact apart.away _ (Or.inr (Or.inl rfl)) listed
  have notY : z ≠ y := by
    rintro rfl
    exact apart.away _ (Or.inr (Or.inr (Or.inr (Or.inl rfl)))) listed
  have notRoot : ¬(rootOf b ≠ rbnull ∧ z = rootOf b) := by
    rintro ⟨real, rfl⟩
    exact apart.away _ (Or.inr (Or.inr (Or.inl (rootOf_mem real)))) listed
  refine ⟨?_, congrFun lifted_colour z, fun s => ?_⟩
  · rw [lifted_up, if_neg notY, if_neg notRoot]
  · rw [lifted_child, if_neg fun same => notX same.2]

/-- A rotation writes what leads to `x`, and then the two links between `x` and `y`. -/
theorem At.rotate_eq (here : At m path (join side c a x (join side c' b y d))) :
    RedBlack.rotate side m x =
      ((setHole (lifted side m path b x y) y path).setChild side y x).setUp x y := by
  have apart := here.apart
  obtain ⟨realX, upX, -, -, childY, -, right⟩ := linked_join.mp here.tree
  obtain ⟨-, -, -, childB, -⟩ := linked_join.mp right
  rw [rootOf_join] at childY
  have link : RedBlack.hole m path = x := here.hole.trans (rootOf_join ..)
  have notRoot : ¬(rootOf b ≠ rbnull ∧ x = rootOf b) := by
    rintro ⟨real, same⟩
    exact apart.b_x (same ▸ rootOf_mem real)
  have up : (lifted side m path b x y).up x = parentOf path := by
    rw [lifted_up, if_neg apart.xy, if_neg notRoot, upX]
  have around := here.lifted_around
  have relinked : (lifted side m path b x y).setLink x y = setHole (lifted side m path b x y) y path :=
    setLink_eq realX up ((hole_same lifted_root around).trans link)
      (here.around.same lifted_root around) (apart.away x (Or.inr (Or.inl rfl)))
  have childSide : (m.setChild side.other x (rootOf b)).child side y = rootOf b := by
    rw [setChild_child, if_neg fun same => side.ne_other same.1, childB]
  have upBefore : (if rootOf b ≠ rbnull then
      (m.setChild side.other x (rootOf b)).setUp (rootOf b) x
        else m.setChild side.other x (rootOf b)).up x = parentOf path := by
    split
    · rename_i real
      rw [setUp_up, if_neg fun same => notRoot ⟨real, same⟩, setChild_up, upX]
    · rw [setChild_up, upX]
  rw [← relinked]
  unfold RedBlack.rotate
  dsimp only
  rw [childY, childB, childSide, upBefore]
  rfl

theorem At.rotate_up (here : At m path (join side c a x (join side c' b y d))) (z : Nat) :
    (RedBlack.rotate side m x).up z = if z = x then y else if z = y then parentOf path
      else if rootOf b ≠ rbnull ∧ z = rootOf b then x else m.up z := by
  rw [here.rotate_eq, setUp_up, setChild_up, setHole_up, lifted_up]

theorem At.rotate_child (here : At m path (join side c a x (join side c' b y d)))
    (outside : z ∉ ColouredTree.around path) : (RedBlack.rotate side m x).child s z =
      if s = side ∧ z = y then x else if s = side.other ∧ z = x then rootOf b else m.child s z := by
  rw [here.rotate_eq, setUp_child, setChild_child, setHole_child outside, lifted_child]

/-- What a rotation leaves as it was. -/
theorem At.rotate_same (here : At m path (join side c a x (join side c' b y d)))
    (outside : z ∉ ColouredTree.around path) (notX : z ≠ x) (notY : z ≠ y)
    (notRoot : ¬(rootOf b ≠ rbnull ∧ z = rootOf b)) : SameNode m (RedBlack.rotate side m x) z := by
  refine ⟨?_, congrFun rotate_colour z, fun s => ?_⟩
  · rw [here.rotate_up, if_neg notX, if_neg notY, if_neg notRoot]
  · rw [here.rotate_child outside, if_neg fun same => notY same.2, if_neg fun same => notX same.2]

/-- The inner tree goes from `y` to `x`. -/
theorem At.rotate_inner (here : At m path (join side c a x (join side c' b y d))) :
    Linked (RedBlack.rotate side m x) x b := by
  have apart := here.apart
  obtain ⟨-, -, -, -, -, -, right⟩ := linked_join.mp here.tree
  obtain ⟨-, -, -, -, -, linked, -⟩ := linked_join.mp right
  have away : ∀ z ∈ b.toList, z ∉ ColouredTree.around path := fun z listed =>
    apart.away z (Or.inr (Or.inr (Or.inl listed)))
  refine linked.reparent apart.inner (fun real => ?_) (fun z listed notRoot => ?_)
    fun z listed => ⟨congrFun rotate_colour z, fun s => ?_⟩
  · have root := rootOf_mem real
    rw [here.rotate_up, if_neg (ne_of_mem_of_not_mem root apart.b_x),
      if_neg (ne_of_mem_of_not_mem root apart.b_y), if_pos ⟨real, rfl⟩]
  · rw [here.rotate_up, if_neg (ne_of_mem_of_not_mem listed apart.b_x),
      if_neg (ne_of_mem_of_not_mem listed apart.b_y), if_neg fun root => notRoot root.2]
  · rw [here.rotate_child (away z listed), if_neg fun same =>
      ne_of_mem_of_not_mem listed apart.b_y same.2, if_neg fun same =>
      ne_of_mem_of_not_mem listed apart.b_x same.2]

/-- A tree that has nothing of the inner one stays where it is. -/
theorem At.rotate_outer (here : At m path (join side c a x (join side c' b y d))) {p : Nat}
    (linked : Linked m p t) (away : ∀ z ∈ t.toList, z ∉ ColouredTree.around path) (outX : x ∉ t.toList)
    (outY : y ∉ t.toList) (outB : ∀ z ∈ t.toList, z ∉ b.toList) :
    Linked (RedBlack.rotate side m x) p t := by
  refine linked.congr fun z listed => here.rotate_same (away z listed)
    (ne_of_mem_of_not_mem listed outX) (ne_of_mem_of_not_mem listed outY) ?_
  rintro ⟨real, rfl⟩
  exact outB _ listed (rootOf_mem real)

/-- `y` stands where `x` stood, and nothing else around has changed. -/
theorem At.rotate_around (here : At m path (join side c a x (join side c' b y d))) :
    RedBlack.hole (RedBlack.rotate side m x) path = y ∧ Around (RedBlack.rotate side m x) path := by
  have apart := here.apart
  have outX := apart.away x (Or.inr (Or.inl rfl))
  have outY := apart.away y (Or.inr (Or.inr (Or.inr (Or.inl rfl))))
  rw [here.rotate_eq]
  constructor
  · have top : RedBlack.hole (setHole (lifted side m path b x y) y path) path = y := hole_setHole
    cases path with
    | nil => exact top
    | cons f rest =>
      refine (setChild_child.trans (if_neg fun same => outY ?_)).trans top
      exact same.2 ▸ List.mem_cons_self
  · have before := here.around.same lifted_root here.lifted_around
    refine (around_setHole (y := y) before apart.outside).same ?_ fun z listed => ⟨?_, ?_, fun s => ?_⟩
    · rw [setUp_root, setChild_root]
    · exact setUp_up.trans (if_neg (ne_of_mem_of_not_mem listed outX))
    · rw [setUp_colour, setChild_colour]
    · exact setChild_child.trans (if_neg fun same => ne_of_mem_of_not_mem listed outY same.2)

/-- A rotation of the memory is one of the tree. -/
theorem At.rotate (here : At m path (join side c a x (join side c' b y d))) :
    At (rotate side m x) path (join side c' (join side c a x b) y d) ∧
      SameNode m (rotate side m x) rbnull := by
  have apart := here.apart
  obtain ⟨realX, upX, colourX, childA, childY, linkedA, right⟩ := linked_join.mp here.tree
  obtain ⟨realY, upY, colourY, childB, childD, linkedB, linkedD⟩ := linked_join.mp right
  have outX := apart.away x (Or.inr (Or.inl rfl))
  have outY := apart.away y (Or.inr (Or.inr (Or.inr (Or.inl rfl))))
  have null : SameNode m (RedBlack.rotate side m x) rbnull :=
    here.rotate_same (fun listed => here.around.ne_rbnull _ listed rfl) realX.symm realY.symm
      fun root => root.1 root.2.symm
  have lower : Linked (RedBlack.rotate side m x) y (join side c a x b) := by
    refine linked_join.mpr ⟨realX, ?_, ?_, ?_, ?_, ?_, here.rotate_inner⟩
    · rw [here.rotate_up, if_pos rfl]
    · rw [rotate_colour, colourX]
    · rw [here.rotate_child outX, if_neg fun same => apart.xy same.2,
        if_neg fun same => side.ne_other same.1, childA]
    · rw [here.rotate_child outX, if_neg fun same => apart.xy same.2, if_pos ⟨rfl, rfl⟩]
    · exact here.rotate_outer linkedA (fun z listed => apart.away z (Or.inl listed)) apart.a_x apart.a_y
        apart.a_b
  have upper : Linked (RedBlack.rotate side m x) (parentOf path)
      (join side c' (join side c a x b) y d) := by
    refine linked_join.mpr ⟨realY, ?_, ?_, ?_, ?_, lower, ?_⟩
    · rw [here.rotate_up, if_neg apart.xy.symm, if_pos rfl]
    · rw [rotate_colour, colourY]
    · rw [here.rotate_child outY, if_pos ⟨rfl, rfl⟩, rootOf_join]
    · rw [here.rotate_child outY, if_neg fun same => side.other_ne same.1,
        if_neg fun same => apart.xy.symm same.2, childD]
    · exact here.rotate_outer linkedD
        (fun z listed => apart.away z (Or.inr (Or.inr (Or.inr (Or.inr listed))))) apart.d_x apart.d_y
        apart.d_b
  obtain ⟨hole, around⟩ := here.rotate_around
  refine ⟨⟨upper, hole.trans (rootOf_join ..).symm, around, ?_⟩, null⟩
  rw [toList_fill_congr path (toList_rotate side c' c c c' a b d x y)]
  exact here.nodup

end
/-! ## Colours -/

theorem SameNode.trans {m m' m'' : Memory K D} {x : Nat} (first : SameNode m m' x)
    (second : SameNode m' m'' x) : SameNode m m'' x :=
  ⟨second.1.trans first.1, second.2.1.trans first.2.1,
    fun side => (second.2.2 side).trans (first.2.2 side)⟩

theorem sameNode_setColour {m : Memory K D} {x z : Nat} (c : Colour) (other : z ≠ x) :
    SameNode m (m.setColour x c) z :=
  ⟨rfl, setColour_colour.trans (if_neg other), fun _ => rfl⟩

section
variable {m : Memory K D} {side s : Side} {c : Colour} {near far a t : Coloured Nat} {x v : Nat}
  {parent : Nat} {path rest : List (Frame Nat)}

theorem Linked.colour (linked : Linked m parent t) (null : m.colour rbnull = .black) :
    m.colour (rootOf t) = t.colour := by
  cases t with
  | nil => exact null
  | node c l x r => exact linked.2.2.1

/-- The other child of the same node. -/
theorem at_turn : At m (⟨s, c, v, a⟩ :: rest) t ↔ At m (⟨s.other, c, v, t⟩ :: rest) a := by
  rw [at_cons, at_cons]
  exact Iff.of_eq (congrArg (At m rest) (join_other s c a v t).symm)

theorem At.away (here : At m path t) : ∀ z ∈ t.toList, z ∉ ColouredTree.around path :=
  (nodup_fill.mp here.nodup).2.2

theorem At.paint (here : At m path t) (c : Colour) :
    At (m.setColour (rootOf t) c) path (t.paint c) := by
  have outside : ∀ z ∈ ColouredTree.around path, z ≠ rootOf t := by
    rintro z listed rfl
    have real := here.around.ne_rbnull _ listed
    exact here.away _ (rootOf_mem real) listed
  have around : Around (m.setColour (rootOf t) c) path :=
    here.around.same rfl fun z listed => sameNode_setColour c (outside z listed)
  have nodup : (fill path (t.paint c)).toList.Nodup := by
    rw [toList_fill_congr path (toList_paint c t)]
    exact here.nodup
  have hole : RedBlack.hole (m.setColour (rootOf t) c) path = RedBlack.hole m path := by
    cases path <;> rfl
  cases t with
  | nil => exact ⟨trivial, hole.trans here.hole, around, nodup⟩
  | node c' l x r =>
    obtain ⟨real, up, -, left, right, nearer, further⟩ := here.tree
    obtain ⟨-, -, outl, outr, -⟩ := nodup_middle.mp (nodup_fill.mp here.nodup).1
    exact ⟨⟨real, up, setColour_colour.trans (if_pos rfl), left, right,
      nearer.congr fun z listed => sameNode_setColour c (ne_of_mem_of_not_mem listed outl),
      further.congr fun z listed => sameNode_setColour c (ne_of_mem_of_not_mem listed outr)⟩,
      hole.trans here.hole, around, nodup⟩

theorem At.paint_sibling (here : At m (⟨s, c, v, a⟩ :: rest) t) (c' : Colour) :
    At (m.setColour (rootOf a) c') (⟨s, c, v, a.paint c'⟩ :: rest) t := by
  have turned := (at_turn.mp here).paint c'
  rw [at_turn, Side.other_other] at turned
  exact turned

theorem At.paint_parent (here : At m (⟨s, c, v, a⟩ :: rest) t) (c' : Colour) :
    At (m.setColour v c') (⟨s, c', v, a⟩ :: rest) t := by
  have up := (at_cons.mp here).paint c'
  rw [rootOf_join, paint_join] at up
  exact at_cons.mpr up

theorem At.root (here : At m path t) : m.root = rootOf (fill path t) := (at_fill.mp here).hole

theorem rootOf_fill_mem (path : List (Frame Nat)) (t : Coloured Nat) (deep : path ≠ []) :
    rootOf (fill path t) ∈ ColouredTree.around path := by
  induction path generalizing t with
  | nil => exact absurd rfl deep
  | cons f rest ih =>
    cases rest with
    | nil =>
      rw [fill, fill, rootOf_join]
      exact List.mem_cons_self
    | cons g rest =>
      exact List.mem_cons_of_mem _ (List.mem_append_right _ (ih _ (List.cons_ne_nil _ _)))

/-- A node below another one is not the root. -/
theorem At.ne_root (here : At m path t) (deep : path ≠ []) : rootOf t ≠ m.root := by
  intro same
  have top := rootOf_fill_mem path t deep
  rw [← here.root, ← same] at top
  exact here.away _ (rootOf_mem (here.around.ne_rbnull _ top)) top

/-- The side of a node is found out by looking at the left child of its parent. -/
theorem At.side_eq (here : At m (⟨s, c, v, a⟩ :: rest) t) (different : rootOf t ≠ rootOf a) :
    (if rootOf t = m.child .left v then Side.left else Side.right) = s := by
  have link := here.hole
  obtain ⟨-, -, -, beside, -⟩ := here.around
  cases s with
  | left => exact if_pos link.symm
  | right => exact if_neg fun same => different (same.trans beside)

theorem At.rootOf_ne (here : At m (⟨s, c, v, a⟩ :: rest) t) (real : rootOf t ≠ rbnull) :
    rootOf t ≠ rootOf a := by
  intro same
  have listed := rootOf_mem real
  refine here.away _ listed (List.mem_cons_of_mem _ (List.mem_append_left _ ?_))
  rw [same] at real ⊢
  exact rootOf_mem real

theorem At.up (here : At m path t) (real : rootOf t ≠ rbnull) :
    m.up (rootOf t) = parentOf path := by
  cases t with
  | nil => exact absurd rfl real
  | node c l x r => exact here.tree.2.1

end
/-! ## Inserting -/

/-- The same nodes in the same order, balanced but for the colour of the root. -/
structure Rebalanced (m m' : Memory K D) (nodes : List Nat) (t : Coloured Nat) : Prop where
  here : At m' [] t
  toList : t.toList = nodes
  balanced : ∃ n, Balanced (t.paint .black) .black n
  key : m'.key = m.key
  data : m'.data = m.data
  null : SameNode m m' rbnull

section
variable {m : Memory K D} {path rest : List (Frame Nat)} {t sibling uncle : Coloured Nat} {n : Nat}
  {side s : Side} {p g : Nat} {c' : Colour}

/-- The parent and the uncle are made black and the grandparent red. -/
theorem recolour (here : At m (⟨s, .red, p, sibling⟩ :: ⟨side, .black, g, uncle⟩ :: rest) t) :
    At (((m.setColour p .black).setColour (rootOf uncle) .black).setColour g .red) rest
      (join side .red (join s .black t p sibling) g (uncle.paint .black)) := by
  have parent := at_cons.mp (here.paint_parent .black)
  have grandparent := (parent.paint_sibling .black).paint_parent .red
  exact at_cons.mp grandparent

/-- The node is on the outer side of its parent. -/
theorem rotate_outer
    (here : At m (⟨side, .red, p, sibling⟩ :: ⟨side, .black, g, uncle⟩ :: rest) t) :
    let m' := rotate side.other ((m.setColour p .black).setColour g .red) g
    At m' (⟨side, .black, p, join side .red sibling g uncle⟩ :: rest) t ∧ SameNode m m' rbnull := by
  have parent := at_cons.mp (here.paint_parent .black)
  have grandparent := at_cons.mp (parent.paint_parent .red)
  have realP := here.around.1
  have realG := here.around.2.2.2.2.2.2.1
  dsimp only at grandparent realP realG ⊢
  rw [← join_other side .red, ← join_other side .black] at grandparent
  obtain ⟨turned, null⟩ := grandparent.rotate
  rw [join_other, join_other] at turned
  exact ⟨at_cons.mpr turned, ((sameNode_setColour _ realP.symm).trans
    (sameNode_setColour _ realG.symm)).trans null⟩

/-- The node is on the inner side of its parent, and changes places with it. -/
theorem rotate_inner {x : Nat} {a b : Coloured Nat}
    (here : At m (⟨side.other, .red, p, sibling⟩ :: rest) (join side .red a x b)) :
    At (rotate side m p) (⟨side, .red, x, b⟩ :: rest) (join side .red sibling p a) ∧
      SameNode m (rotate side m p) rbnull := by
  have parent := at_cons.mp here
  dsimp only at parent
  rw [join_other] at parent
  obtain ⟨turned, null⟩ := parent.rotate
  exact ⟨at_cons.mpr turned, null⟩

theorem Rebalanced.of_same {m m₁ m' : Memory K D} {nodes nodes₁ : List Nat} {t : Coloured Nat}
    (rebalanced : Rebalanced m₁ m' nodes₁ t) (same : nodes₁ = nodes) (key : m₁.key = m.key)
    (data : m₁.data = m.data) (null : SameNode m m₁ rbnull) : Rebalanced m m' nodes t :=
  ⟨rebalanced.here, rebalanced.toList.trans same, rebalanced.balanced, rebalanced.key.trans key,
    rebalanced.data.trans data, null.trans rebalanced.null⟩

/-- A pass of the loop at a node whose parent is red: the two nodes above are those of the path. -/
theorem insertFix_succ (fuel : Nat)
    (here : At m (⟨s, .red, p, sibling⟩ :: ⟨side, .black, g, uncle⟩ :: rest) t)
    (real : rootOf t ≠ rbnull) : insertFix (fuel + 1) m (rootOf t) =
      if m.colour (rootOf uncle) = .red then
        insertFix fuel (((m.setColour p .black).setColour (rootOf uncle) .black).setColour g .red) g
      else
        let m' := if rootOf t = m.child side.other p then rotate side m p else m
        let x := if rootOf t = m.child side.other p then p else rootOf t
        let m := m'.setColour (m'.up x) .black
        let m := m.setColour (m.up (m.up x)) .red
        insertFix fuel (rotate side.other m (m.up (m.up x))) x := by
  have up := here.up real
  have parent := at_cons.mp here
  have grand : m.up p = g := here.around.2.1
  have beside : m.child side.other g = rootOf uncle := parent.around.2.2.2.1
  have realP : p ≠ rbnull := here.around.1
  have sideEq : (if p = m.child .left g then Side.left else Side.right) = side := by
    have found := parent.side_eq (parent.rootOf_ne (by rwa [rootOf_join]))
    rwa [rootOf_join] at found
  have colour : m.colour (m.up (rootOf t)) = .red := by
    rw [up]
    exact here.around.2.2.1
  rw [insertFix, if_pos ⟨here.ne_root (List.cons_ne_nil _ _), colour⟩]
  simp only [setColour_up, up, parentOf, grand, sideEq, beside]

theorem insertFix_outer {fuel : Nat}
    (here : At m (⟨side, .red, p, sibling⟩ :: ⟨side, .black, g, uncle⟩ :: rest) t)
    (real : rootOf t ≠ rbnull) (black : m.colour (rootOf uncle) ≠ .red) :
    insertFix (fuel + 1) m (rootOf t) =
      insertFix fuel (rotate side.other ((m.setColour p .black).setColour g .red) g) (rootOf t) := by
  have notInner : ¬rootOf t = m.child side.other p := by
    rw [here.around.2.2.2.1]
    exact here.rootOf_ne real
  have up : m.up (rootOf t) = p := here.up real
  have grand : m.up p = g := here.around.2.1
  rw [insertFix_succ fuel here real, if_neg black]
  simp only [if_neg notInner, setColour_up, up, grand]

theorem insertFix_inner {fuel x : Nat} {a b : Coloured Nat}
    (here : At m (⟨side.other, .red, p, sibling⟩ :: ⟨side, .black, g, uncle⟩ :: rest)
      (join side .red a x b)) (black : m.colour (rootOf uncle) ≠ .red) :
    insertFix (fuel + 1) m x =
      insertFix fuel (rotate side.other (((rotate side m p).setColour x .black).setColour g .red) g)
        p := by
  obtain ⟨turned, -⟩ := rotate_inner here
  have realX : rootOf (join side .red a x b) ≠ rbnull := by
    rw [rootOf_join]
    exact turned.around.1
  have realP : rootOf (join side .red sibling p a) ≠ rbnull := by
    rw [rootOf_join]
    exact here.around.1
  have inner : rootOf (join side .red a x b) = m.child side.other p := here.hole.symm
  have pass := insertFix_succ fuel here realX
  have upP := turned.up realP
  have upX : (rotate side m p).up x = g := turned.around.2.1
  rw [rootOf_join] at pass upP inner
  rw [pass, if_neg black]
  simp only [if_pos inner, setColour_up, upP, parentOf, upX]

/-- The loop ends, and the tree is balanced but for the colour of its root. -/
theorem insertFix_spec {fuel : Nat} (here : At m path t) (null : m.colour rbnull = .black)
    (balanced : Balanced t .red n) (fits : Fits path .black n) (enough : path.length < fuel) :
    ∃ m' t', insertFix fuel m (rootOf t) = some m' ∧
      Rebalanced m m' (fill path t).toList t' := by
  induction fuel generalizing m path t n with
  | zero => exact absurd enough (Nat.not_lt_zero _)
  | succ fuel ih =>
    have real : rootOf t ≠ rbnull := by
      cases balanced
      exact here.tree.1
    cases path with
    | nil =>
      refine ⟨m, t, ?_, here, rfl, ⟨_, balanced.blacken⟩, rfl, rfl, rfl, rfl, fun _ => rfl⟩
      exact if_neg fun deep => deep.1 here.hole.symm
    | cons f rest =>
      obtain ⟨s, c, p, sibling⟩ := f
      cases c with
      | black =>
        obtain ⟨⟨c', far⟩, top⟩ := fits.of_black
        have fits' : Fits (⟨s, .black, p, sibling⟩ :: rest) .red n := .black far top
        obtain ⟨k, whole⟩ := fits'.fill balanced
        refine ⟨m, _, ?_, at_fill.mp here, rfl, whole.paint_black, rfl, rfl, rfl, rfl, fun _ => rfl⟩
        refine if_neg fun deep => ?_
        rw [here.up real] at deep
        have red : Colour.black = .red := here.around.2.2.1.symm.trans deep.2
        cases red
      | red =>
        obtain ⟨near, side, g, uncle, rest, c', rfl, far, top⟩ := fits.of_red
        have parent := at_cons.mp here
        have realP : p ≠ rbnull := here.around.1
        have realG : g ≠ rbnull := parent.around.1
        have uncleColour : m.colour (rootOf uncle) = c' :=
          (parent.around.2.2.2.2.1.colour null).trans far.colour
        have room : rest.length + 1 < fuel := by
          simp only [List.length_cons] at enough
          omega
        cases c' with
        | red =>
          -- the loop goes on at the grandparent
          rw [insertFix_succ fuel here real, if_pos uncleColour]
          have realU : rbnull ≠ rootOf uncle := fun same => by
            rw [← same, null] at uncleColour
            cases uncleColour
          have same := ((sameNode_setColour (m := m) .black realP.symm).trans
            (sameNode_setColour .black realU)).trans (sameNode_setColour .red realG.symm)
          obtain ⟨m', t', ran, rebalanced⟩ := ih (recolour here) (same.2.1.trans null)
            ((balanced.join_black near).join_red far.blacken) top (Nat.lt_of_succ_lt room)
          rw [rootOf_join] at ran
          refine ⟨m', t', ran, rebalanced.of_same ?_ rfl rfl same⟩
          refine toList_fill_congr rest (toList_join_congr side _ _ g ?_ (toList_paint _ uncle))
          exact toList_repaint s _ _ t sibling p
        | black =>
          -- the next pass ends the loop
          have black : m.colour (rootOf uncle) ≠ .red := by
            rw [uncleColour]
            decide
          by_cases outer : s = side
          · subst outer
            rw [insertFix_outer here real black]
            obtain ⟨turned, same⟩ := rotate_outer here
            obtain ⟨m', t', ran, rebalanced⟩ := ih turned (same.2.1.trans null) balanced
              (.black (near.join_red far) top) room
            refine ⟨m', t', ran, rebalanced.of_same ?_ ?_ ?_ same⟩
            · exact toList_fill_congr rest (toList_rotate s .black .red .black .red _ _ _ _ _).symm
            · rw [rotate_key, setColour_key, setColour_key]
            · rw [rotate_data, setColour_data, setColour_data]
          · have other := Side.eq_other outer
            subst other
            obtain ⟨a, b, x, rfl⟩ : ∃ a b x, t = join side .red a x b := by
              cases balanced with
              | red l r =>
                obtain ⟨a, b, eq⟩ := node_eq_join .red _ _ _ side
                exact ⟨a, b, _, eq⟩
            obtain ⟨-, blackA, blackB⟩ := balanced.of_red
            rw [rootOf_join, insertFix_inner here black]
            obtain ⟨turned₁, same₁⟩ := rotate_inner here
            obtain ⟨turned, same₂⟩ := rotate_outer turned₁
            have same := same₁.trans same₂
            obtain ⟨m', t', ran, rebalanced⟩ := ih turned (same.2.1.trans null)
              (near.join_red blackA) (.black (blackB.join_red far) top) room
            rw [rootOf_join] at ran
            refine ⟨m', t', ran, rebalanced.of_same ?_ ?_ ?_ same⟩
            · refine (toList_fill_congr rest ?_).symm
              rw [join_other]
              refine (toList_join_congr side .black .red g ?_ rfl).trans
                (toList_rotate side .red .red .black .red (join side .red sibling p a) b uncle x g)
              exact (toList_rotate side .red .red .red .red sibling a b p x).symm
            · rw [rotate_key, setColour_key, setColour_key, rotate_key]
            · rw [rotate_data, setColour_data, setColour_data, rotate_data]

end
/-- The keys of the nodes ascend. -/
def Ascending (cmp : K → K → Ordering) (m : Memory K D) (nodes : List Nat) : Prop :=
  nodes.Pairwise fun a b => cmp (m.key a) (m.key b) = .lt

/-- The place for this key. -/
structure Leads (cmp : K → K → Ordering) (m : Memory K D) (key : K) (path : List (Frame Nat)) :
    Prop where
  low : ∀ a ∈ before path, cmp (m.key a) key = .lt
  high : ∀ a ∈ after path, cmp key (m.key a) = .lt

/-- A tree with a searched key in it has a node for the key, or a place for it. -/
inductive Walked (cmp : K → K → Ordering) (m : Memory K D) (key : K) (t : Coloured Nat) :
    Nat × Nat × Bool → Prop where
  | found {path : List (Frame Nat)} {c : Colour} {l r : Coloured Nat} {x : Nat} :
    fill path (.node c l x r) = t → cmp key (m.key x) = .eq → Walked cmp m key t (x, x, true)
  | missed {path : List (Frame Nat)} : fill path .nil = t → Leads cmp m key path →
    Walked cmp m key t (rbnull, parentOf path, false)

section
variable {cmp : K → K → Ordering} [Std.TransCmp cmp] {m m' : Memory K D} {key : K}
  {path rest : List (Frame Nat)} {t : Coloured Nat} {x z : Nat}

theorem mem_fill {a : Nat} : a ∈ (fill path t).toList ↔
    a ∈ t.toList ∨ a ∈ before path ∨ a ∈ after path := by
  rw [toList_fill, List.mem_append, List.mem_append]
  tauto

omit [Std.TransCmp cmp] in
theorem Ascending.inner (ascending : Ascending cmp m (fill path t).toList) :
    Ascending cmp m t.toList := by
  rw [Ascending, toList_fill] at ascending
  exact (List.pairwise_append.mp (List.pairwise_append.mp ascending).1).2.1

/-- The search ends at the key, or at the empty place where it belongs. -/
theorem walkDown_spec {fuel : Nat} (here : At m path t)
    (ascending : Ascending cmp m (fill path t).toList) (leads : Leads cmp m key path)
    (enough : t.height < fuel) :
    ∃ r, walkDown cmp m key fuel (rootOf t) (parentOf path) = some r ∧
      Walked cmp m key (fill path t) r := by
  induction t generalizing path fuel with
  | nil =>
    obtain ⟨fuel, rfl⟩ := Nat.exists_eq_add_of_lt enough
    exact ⟨_, if_pos rfl, .missed rfl leads⟩
  | node c l x r left right =>
    obtain ⟨fuel, rfl⟩ := Nat.exists_eq_add_one_of_ne_zero (Nat.ne_zero_of_lt enough)
    have within : max l.height r.height < fuel := Nat.lt_of_succ_lt_succ enough
    obtain ⟨real, -, -, childL, childR, -, -⟩ := here.tree
    obtain ⟨-, ordered, apart⟩ := List.pairwise_append.mp ascending.inner
    have front : ∀ a ∈ l.toList, cmp (m.key a) (m.key x) = .lt := fun a listed =>
      apart a listed x List.mem_cons_self
    have behind := (List.pairwise_cons.mp ordered).1
    change ∃ found, (if x = rbnull then _ else _) = some found ∧ _
    rw [if_neg real]
    simp only [rootOf]
    cases compared : cmp key (m.key x) with
    | eq => exact ⟨_, rfl, .found rfl compared⟩
    | lt =>
      have moved : At m (⟨.left, c, x, r⟩ :: path) l := at_cons.mpr here
      refine childL ▸ left moved ascending ⟨leads.low, fun a listed => ?_⟩
        (Nat.lt_of_le_of_lt (Nat.le_max_left _ _) within)
      rcases List.mem_cons.mp listed with rfl | listed
      · exact compared
      · rcases List.mem_append.mp listed with near | far
        · exact Std.TransCmp.lt_trans compared (behind a near)
        · exact leads.high a far
    | gt =>
      have turned : cmp (m.key x) key = .lt := Std.OrientedCmp.gt_iff_lt.mp compared
      have moved : At m (⟨.right, c, x, l⟩ :: path) r := at_cons.mpr here
      refine childR ▸ right moved ascending ⟨fun a listed => ?_, leads.high⟩
        (Nat.lt_of_le_of_lt (Nat.le_max_right _ _) within)
      rcases List.mem_append.mp listed with near | last
      · rcases List.mem_append.mp near with far | near
        · exact leads.low a far
        · exact Std.TransCmp.lt_trans (front a near) turned
      · rw [List.mem_singleton.mp last]
        exact turned

end

section
variable {cmp : K → K → Ordering} [Std.TransCmp cmp] {m m' : Memory K D} {key : K}
  {path rest : List (Frame Nat)} {t : Coloured Nat} {x z : Nat}

/-- A new red node at the place. -/
def putNode (m : Memory K D) (key : K) (z : Nat) (path : List (Frame Nat)) : Memory K D :=
  (((setHole ({ m with
    key := Function.update m.key z key
    data := Function.update m.data z none }.setUp z (parentOf path)) z path).setChild
      .left z rbnull).setChild .right z rbnull).setColour z .red

@[simp] theorem putNode_key :
    (putNode m key z path).key = Function.update m.key z key := by
  simp only [putNode, setColour_key, setChild_key, setHole_key, setUp_key]

@[simp] theorem putNode_data : (putNode m key z path).data = Function.update m.data z none := by
  simp only [putNode, setColour_data, setChild_data, setHole_data, setUp_data]

/-- The last comparison on the way down is made once more. -/
theorem attach_eq {y : Nat} (here : At m path .nil) (leads : Leads cmp m key path)
    (outside : z ∉ ColouredTree.around path) (parent : y = parentOf path) :
    attach cmp m key y z = putNode m key z path := by
  unfold attach
  cases path with
  | nil =>
    subst parent
    exact rfl
  | cons f rest =>
    obtain ⟨side, c, v, sibling⟩ := f
    obtain rfl : y = v := parent
    have real : y ≠ rbnull := here.around.1
    have other : y ≠ z := fun same => outside (same ▸ List.mem_cons_self)
    dsimp only
    rw [if_neg real]
    simp only [setUp_key, Function.update_self, Function.update_of_ne other]
    cases side with
    | left =>
      rw [leads.high y List.mem_cons_self]
      exact rfl
    | right =>
      have low := leads.low y (List.mem_append_right _ (List.mem_singleton.mpr rfl))
      rw [Std.OrientedCmp.gt_iff_lt.mpr low]
      exact rfl

omit [Std.TransCmp cmp] in
/-- A new node stands in the memory as a red leaf. -/
theorem putNode_spec (here : At m path .nil) (outside : z ∉ ColouredTree.around path)
    (real : z ≠ rbnull) : At (putNode m key z path) path (.node .red .nil z .nil) ∧
      SameNode m (putNode m key z path) rbnull := by
  have around := (nodup_fill.mp here.nodup).2.1
  let m₁ : Memory K D := { m with
    key := Function.update m.key z key
    data := Function.update m.data z none }.setUp z (parentOf path)
  have same₁ : ∀ a ≠ z, SameNode m m₁ a := fun a other =>
    ⟨setUp_up.trans (if_neg other), rfl, fun _ => rfl⟩
  have child : ∀ a ≠ z, ∀ s, (putNode m key z path).child s a = (setHole m₁ z path).child s a := by
    intro a other s
    refine setChild_child.trans ((if_neg fun same => other same.2).trans ?_)
    exact setChild_child.trans (if_neg fun same => other same.2)
  have same₂ : ∀ a ≠ z, SameNode (setHole m₁ z path) (putNode m key z path) a := fun a other =>
    ⟨rfl, setColour_colour.trans (if_neg other), child a other⟩
  have apart : ∀ a ∈ ColouredTree.around path, a ≠ z := fun a listed =>
    ne_of_mem_of_not_mem listed outside
  have root : (putNode m key z path).root = (setHole m₁ z path).root := rfl
  have null : SameNode m (putNode m key z path) rbnull := by
    refine ((same₁ rbnull real.symm).trans ⟨congrFun setHole_up _, congrFun setHole_colour _,
      fun s => setHole_child fun listed => here.around.ne_rbnull _ listed rfl⟩).trans
        (same₂ rbnull real.symm)
  refine ⟨⟨⟨real, ?_, ?_, ?_, ?_, trivial, trivial⟩, ?_, ?_, ?_⟩, null⟩
  · change (setHole m₁ z path).up z = parentOf path
    rw [setHole_up]
    exact setUp_up.trans (if_pos rfl)
  · exact setColour_colour.trans (if_pos rfl)
  · change (((setHole m₁ z path).setChild .left z rbnull).setChild .right z rbnull).child .left z =
      rbnull
    rw [setChild_child, if_neg fun same => nomatch same.1]
    exact setChild_child.trans (if_pos ⟨rfl, rfl⟩)
  · change (((setHole m₁ z path).setChild .left z rbnull).setChild .right z rbnull).child .right z =
      rbnull
    exact setChild_child.trans (if_pos ⟨rfl, rfl⟩)
  · exact (hole_same root fun a listed => same₂ a (apart a listed)).trans hole_setHole
  · refine (around_setHole ?_ around).same root fun a listed => same₂ a (apart a listed)
    exact here.around.same rfl fun a listed => same₁ a (apart a listed)
  · refine nodup_fill.mpr ⟨List.nodup_singleton z, around, fun a listed => ?_⟩
    rw [List.mem_singleton.mp listed]
    exact outside

end
/-! ## The operations on a tree -/

structure Valid (cmp : K → K → Ordering) (m : Memory K D) (t : Coloured Nat) : Prop where
  here : At m [] t
  null : m.colour rbnull = .black
  nil : m.child .left rbnull = rbnull
  ascending : Ascending cmp m t.toList
  balanced : ∃ n, Balanced t .black n

section
variable {cmp : K → K → Ordering} {m m' : Memory K D} {key : K} {path : List (Frame Nat)}
  {t : Coloured Nat} {nodes : List Nat} {x z : Nat} {fuel : Nat}

theorem Ascending.congr (ascending : Ascending cmp m nodes)
    (same : ∀ a ∈ nodes, m'.key a = m.key a) : Ascending cmp m' nodes := by
  refine List.Pairwise.imp_of_mem (fun {a b} ina inb less => ?_) ascending
  rw [same a ina, same b inb]
  exact less

/-- The root is made black at the end. -/
theorem Rebalanced.valid (rebalanced : Rebalanced m m' nodes t) (null : m.colour rbnull = .black)
    (nil : m.child .left rbnull = rbnull) (ascending : Ascending cmp m nodes) :
    Valid cmp (m'.setColour m'.root .black) (t.paint .black) where
  here := by
    have painted := rebalanced.here.paint .black
    rwa [← rebalanced.here.hole] at painted
  null := by
    rw [setColour_colour]
    split
    · exact rfl
    · exact rebalanced.null.2.1.trans null
  nil := (rebalanced.null.2.2 .left).trans nil
  ascending := by
    rw [toList_paint, rebalanced.toList]
    exact ascending.congr fun a _ => congrFun rebalanced.key a
  balanced := rebalanced.balanced

/-- The new key is between those in front of the place and those behind it. -/
theorem Leads.ascending (leads : Leads cmp m key path)
    (ascending : Ascending cmp m (fill path .nil).toList)
    (outside : z ∉ ColouredTree.around path) (keys : m'.key = Function.update m.key z key) :
    Ascending cmp m' (fill path (.node .red .nil z .nil)).toList := by
  have here : m'.key z = key := by rw [keys, Function.update_self]
  have other : ∀ a ∈ ColouredTree.around path, m'.key a = m.key a := fun a listed => by
    rw [keys, Function.update_of_ne (ne_of_mem_of_not_mem listed outside)]
  have front : ∀ a ∈ before path, m'.key a = m.key a := fun a listed =>
    other a (mem_around.mpr (Or.inl listed))
  have behind : ∀ a ∈ after path, m'.key a = m.key a := fun a listed =>
    other a (mem_around.mpr (Or.inr listed))
  rw [Ascending, toList_fill] at ascending ⊢
  simp only [toList, List.append_nil, List.nil_append] at ascending ⊢
  obtain ⟨low, high, apart⟩ := List.pairwise_append.mp ascending
  refine List.pairwise_append.mpr ⟨List.pairwise_append.mpr ⟨Ascending.congr low front,
    List.pairwise_singleton _ z, fun a ina b isz => ?_⟩, Ascending.congr high behind,
    fun a ina b inb => ?_⟩
  · rw [List.mem_singleton.mp isz, here, front a ina]
    exact leads.low a ina
  · rw [behind b inb]
    rcases List.mem_append.mp ina with ina | isz
    · rw [front a ina]
      exact apart a ina b inb
    · rw [List.mem_singleton.mp isz, here]
      exact leads.high b inb

variable [Std.TransCmp cmp]

theorem Valid.walkDown (valid : Valid cmp m t) (key : K) (enough : t.height < fuel) :
    ∃ r, walkDown cmp m key fuel m.root rbnull = some r ∧ Walked cmp m key t r := by
  have leads : Leads cmp m key [] := ⟨List.forall_mem_nil _, List.forall_mem_nil _⟩
  have found := walkDown_spec valid.here valid.ascending leads enough
  rw [← valid.here.hole] at found
  exact found

theorem Leads.ne (leads : Leads cmp m key path) :
    ∀ a ∈ (fill path .nil).toList, cmp key (m.key a) ≠ .eq := by
  intro a listed same
  rcases mem_fill.mp listed with none | front | behind
  · exact absurd none List.not_mem_nil
  · have less := leads.low a front
    rw [Std.OrientedCmp.eq_symm same] at less
    cases less
  · have less := leads.high a behind
    rw [same] at less
    cases less

/-- A node of the key is found, or the new node is put in its place. -/
theorem rbSearch_spec (valid : Valid cmp m t) (key : K) (fresh : z ∉ t.toList) (real : z ≠ rbnull)
    (enough : t.height < fuel) :
    (∃ x ∈ t.toList, cmp key (m.key x) = .eq ∧ rbSearch cmp fuel key z m = some (x, m)) ∨
    ∃ m' t', rbSearch cmp fuel key z m = some (z, m') ∧ Valid cmp m' t' ∧
      (∀ a ∈ t.toList, cmp key (m.key a) ≠ .eq) ∧
      (∃ l r, t.toList = l ++ r ∧ t'.toList = l ++ z :: r) ∧
      m'.key = Function.update m.key z key ∧ m'.data = Function.update m.data z none := by
  obtain ⟨r, walked, found⟩ := valid.walkDown key enough
  cases found with
  | @found path c l r x filled same =>
    refine Or.inl ⟨x, ?_, same, ?_⟩
    · rw [← filled]
      exact mem_fill.mpr (Or.inl (List.mem_append_right _ List.mem_cons_self))
    · simp only [rbSearch, rbTraverse, walked, Option.bind_eq_bind, Option.bind_some, Bool.true_or,
        if_true]
  | @missed path filled leads =>
    subst filled
    have here := at_fill.mpr valid.here
    have outside : z ∉ ColouredTree.around path := fun listed =>
      fresh (mem_fill.mpr (Or.inr (mem_around.mp listed)))
    obtain ⟨put, null⟩ : At (putNode m key z path) path (.node .red .nil z .nil) ∧
        SameNode m (putNode m key z path) rbnull := putNode_spec here outside real
    obtain ⟨k, whole⟩ := valid.balanced
    obtain ⟨c, n, leaf, fits⟩ := fits_of_fill whole
    cases leaf
    obtain ⟨m', t', ran, rebalanced⟩ := insertFix_spec put (null.2.1.trans valid.null)
      (.red .nil .nil) fits
      (Nat.lt_of_le_of_lt (Nat.le_of_add_right_le (height_fill path .nil)) enough)
    have ascending : Ascending cmp (putNode m key z path)
        (fill path (.node .red .nil z .nil)).toList :=
      leads.ascending valid.ascending outside putNode_key
    refine Or.inr ⟨m'.setColour m'.root .black, t'.paint .black, ?_,
      rebalanced.valid (null.2.1.trans valid.null) ((null.2.2 .left).trans valid.nil) ascending,
      leads.ne, ⟨before path, after path, ?_, ?_⟩, rebalanced.key.trans putNode_key,
      rebalanced.data.trans putNode_data⟩
    · simp only [rbSearch, rbTraverse, walked, Option.bind_eq_bind, Option.bind_some, Bool.not_true,
        Bool.or_false, Bool.false_eq_true, if_false, attach_eq here leads outside rfl]
      rw [rootOf] at ran
      rw [ran, Option.bind_some]
    · rw [toList_fill, toList, List.append_nil]
    · rw [toList_paint, rebalanced.toList, toList_fill]
      simp only [toList, List.nil_append, List.append_assoc, List.singleton_append]

theorem rbFind_spec (valid : Valid cmp m t) (key : K) (enough : t.height < fuel) :
    (∃ x ∈ t.toList, cmp key (m.key x) = .eq ∧ rbFind cmp fuel key m = some (some x)) ∨
    (∀ a ∈ t.toList, cmp key (m.key a) ≠ .eq) ∧ rbFind cmp fuel key m = some none := by
  obtain ⟨r, walked, found⟩ := valid.walkDown key enough
  by_cases empty : m.root = rbnull
  · have none : t = .nil := valid.here.tree.rootOf_eq_rbnull.mp (valid.here.hole.symm.trans empty)
    subst none
    exact Or.inr ⟨List.forall_mem_nil _, if_pos empty⟩
  · have looked : rbFind cmp fuel key m = some (if r.1 = rbnull then none else some r.1) := by
      refine (if_neg empty).trans ?_
      simp only [rbTraverse, walked, Option.bind_eq_bind, Option.bind_some, Bool.not_false,
        Bool.or_true, if_true, Option.map_some]
    rw [looked]
    cases found with
    | @found path c l r x filled same =>
      subst filled
      have listed : x ∈ (fill path (.node c l x r)).toList :=
        mem_fill.mpr (Or.inl (List.mem_append_right _ List.mem_cons_self))
      refine Or.inl ⟨x, listed, same, ?_⟩
      exact congrArg some (if_neg (valid.here.tree.ne_rbnull x listed))
    | missed filled leads =>
      subst filled
      exact Or.inr ⟨leads.ne, rfl⟩

end

end RedBlack
