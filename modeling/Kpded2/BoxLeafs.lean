import Mathlib.Logic.Relation
import Kpded2.BspLoad

/-!
# Walks through the nodes of a map

Where a point lies, which leafs a box touches and whether a part of the tree can be seen. A node
number below zero stands for the leaf `-1 - num`. What side of a plane a point or a box is on is
computed with single precision floats, whose laws are not used; the walks are given it as a function
of the node.
-/
namespace BoxLeafs
open BspLoad

abbrev Vec3 := Fin 3 → Float32

def component (v : Vec3) (axis : Nat) : Float32 := if h : axis < 3 then v ⟨axis, h⟩ else 0

def normal (plane : CPlane) (axis : Nat) : Float32 := Float32.ofBits ((plane.normal[axis]?).getD 0)
def dist (plane : CPlane) : Float32 := Float32.ofBits plane.dist

def dotProduct (plane : CPlane) (v : Vec3) : Float32 :=
  normal plane 0 * v 0 + normal plane 1 * v 1 + normal plane 2 * v 2

/-- The point is behind the plane. -/
def behind (p : Vec3) (plane : CPlane) : Bool :=
  let d := if plane.type < 3 then component p plane.type - dist plane
    else dotProduct plane p - dist plane
  floatLtZero d.toBits

/-- The corner of the box that is far along the normal, or the near one. -/
def corner (emins emaxs : Vec3) (signbits : Nat) (far : Bool) : Vec3 := fun axis =>
  if signbits.testBit axis = far then emins axis else emaxs axis

def boxOnPlaneSideGeneral (emins emaxs : Vec3) (plane : CPlane) : Nat :=
  let dist1 := if plane.signbits < 8 then dotProduct plane (corner emins emaxs plane.signbits true) else 0
  let dist2 := if plane.signbits < 8 then dotProduct plane (corner emins emaxs plane.signbits false) else 0
  (if dist1 ≥ dist plane then 1 else 0) ||| (if dist2 < dist plane then 2 else 0)

/-- The macro `BOX_ON_PLANE_SIDE`. -/
def boxOnPlaneSide (emins emaxs : Vec3) (plane : CPlane) : Nat :=
  if plane.type < 3 then
    if dist plane ≤ component emins plane.type then 1
    else if dist plane ≥ component emaxs plane.type then 2
    else 3
  else boxOnPlaneSideGeneral emins emaxs plane

variable (tree : Int → CNode)

/-- `CM_PointLeafnum_r`, at most `fuel` nodes long. -/
def pointLeafnumR (back : CNode → Bool) : Nat → Int → Option Int
  | 0, _ => none
  | fuel + 1, num =>
    if num < 0 then some (-1 - num)
    else if back (tree num) then pointLeafnumR back fuel (tree num).children.2
    else pointLeafnumR back fuel (tree num).children.1

structure Walk where
  leafList : List Int
  topnode : Int

/-- `maxcount` is `none` for a list without a limit. -/
def addLeaf (maxcount : Option Nat) (leaf : Int) (w : Walk) : Walk :=
  if maxcount.any (· ≤ w.leafList.length) then w else { w with leafList := w.leafList ++ [leaf] }

def markTop (num : Int) (w : Walk) : Walk :=
  { w with topnode := if w.topnode = -1 then num else w.topnode }

def boxLeafnumsR (side : CNode → Nat) (maxcount : Option Nat) : Nat → Int → Walk → Option Walk
  | 0, _, _ => none
  | fuel + 1, num, w =>
    if num < 0 then some (addLeaf maxcount (-1 - num) w)
    else if side (tree num) = 1 then boxLeafnumsR side maxcount fuel (tree num).children.1 w
    else if side (tree num) = 2 then boxLeafnumsR side maxcount fuel (tree num).children.2 w
    else (boxLeafnumsR side maxcount fuel (tree num).children.1 (markTop num w)).bind
      fun w => boxLeafnumsR side maxcount fuel (tree num).children.2 w

/-- `CM_BoxLeafnums_headnode`. -/
def boxLeafnumsHeadnode (side : CNode → Nat) (maxcount : Option Nat) (fuel : Nat) (headnode : Int) :
    Option Walk :=
  boxLeafnumsR tree side maxcount fuel headnode ⟨[], -1⟩

/-- `visible` is what the row says of a cluster. -/
def headnodeVisible (cluster : Int → Int) (visible : Int → Bool) : Nat → Int → Option Bool
  | 0, _ => none
  | fuel + 1, num =>
    if num < 0 then some (cluster (-1 - num) ≠ -1 && visible (cluster (-1 - num)))
    else (headnodeVisible cluster visible fuel (tree num).children.1).bind fun seen =>
      if seen then some true else headnodeVisible cluster visible fuel (tree num).children.2

/-! ## Trees without cycles -/

/-- `m` is a child of the node `n`. -/
def Child (m n : Int) : Prop := 0 ≤ n ∧ (m = (tree n).children.1 ∨ m = (tree n).children.2)

/-- The node `m` is `n` or further down. -/
def Under : Int → Int → Prop := Relation.ReflTransGen (Child tree)

/-- The fuel is enough for everything below the node. -/
def Enough : Nat → Int → Prop
  | 0, _ => False
  | fuel + 1, num =>
    0 ≤ num → Enough fuel (tree num).children.1 ∧ Enough fuel (tree num).children.2

/-- The leaf is somewhere below the node. -/
inductive Below : Int → Int → Prop
  | leaf {num : Int} (h : num < 0) : Below num (-1 - num)
  | front {num leaf : Int} (h : 0 ≤ num) (below : Below (tree num).children.1 leaf) : Below num leaf
  | back {num leaf : Int} (h : 0 ≤ num) (below : Below (tree num).children.2 leaf) : Below num leaf

/-- The leafs that a box touches, in the order of the walk. -/
def touched (side : CNode → Nat) : Nat → Int → Option (List Int)
  | 0, _ => none
  | fuel + 1, num =>
    if num < 0 then some [-1 - num]
    else if side (tree num) = 1 then touched side fuel (tree num).children.1
    else if side (tree num) = 2 then touched side fuel (tree num).children.2
    else (touched side fuel (tree num).children.1).bind fun front =>
      (touched side fuel (tree num).children.2).map fun back => front ++ back

variable {tree} {side : CNode → Nat} {maxcount : Option Nat} {fuel : Nat} {num leaf : Int}

theorem Enough.succ (h : Enough tree fuel num) : Enough tree (fuel + 1) num := by
  induction fuel generalizing num with
  | zero => exact h.elim
  | succ fuel ih => exact fun inside => ⟨ih (h inside).1, ih (h inside).2⟩

theorem Enough.mono (h : Enough tree fuel num) {more : Nat} (le : fuel ≤ more) :
    Enough tree more num := by
  induction le with
  | refl => exact h
  | step _ ih => exact ih.succ

/-- A node with a leaf on either side is the end of a tree. -/
theorem acc_of_leafs (front : (tree num).children.1 < 0) (back : (tree num).children.2 < 0) :
    Acc (Child tree) num := by
  refine ⟨num, fun m child => ⟨m, fun n below => ?_⟩⟩
  have outside : m < 0 := by
    rcases child.2 with rfl | rfl
    · exact front
    · exact back
  exact absurd below.1 (Int.not_le.mpr outside)

/-- A tree without cycles is not deeper than some number. -/
theorem exists_enough (finite : Acc (Child tree) num) : ∃ fuel, Enough tree fuel num := by
  induction finite with
  | intro num _ ih =>
    by_cases outside : num < 0
    · exact ⟨1, fun inside => absurd outside (Int.not_lt.mpr inside)⟩
    have inside : 0 ≤ num := Int.not_lt.mp outside
    obtain ⟨front, hfront⟩ := ih _ ⟨inside, .inl rfl⟩
    obtain ⟨back, hback⟩ := ih _ ⟨inside, .inr rfl⟩
    exact ⟨max front back + 1, fun _ =>
      ⟨hfront.mono (Nat.le_max_left front back), hback.mono (Nat.le_max_right front back)⟩⟩

theorem Enough.under {m : Int} (h : Enough tree fuel num) (under : Under tree m num) :
    Enough tree fuel m := by
  induction under using Relation.ReflTransGen.head_induction_on with
  | refl => exact h
  | head edge _ ih =>
    cases fuel with
    | zero => exact ih.elim
    | succ fuel =>
      rcases edge with ⟨inside, rfl | rfl⟩
      · exact (ih inside).1.succ
      · exact (ih inside).2.succ

theorem exists_touched (side : CNode → Nat) (enough : Enough tree fuel num) :
    ∃ list, touched tree side fuel num = some list := by
  induction fuel generalizing num with
  | zero => exact enough.elim
  | succ fuel ih =>
    simp only [touched]
    split
    · exact ⟨_, rfl⟩
    rename_i inside
    obtain ⟨hfront, hback⟩ := enough (Int.not_lt.mp inside)
    split
    · exact ih hfront
    split
    · exact ih hback
    · obtain ⟨front, hfront⟩ := ih hfront
      obtain ⟨back, hback⟩ := ih hback
      exact ⟨front ++ back, by rw [hfront, hback]; rfl⟩

theorem below_of_touched {list : List Int} (h : touched tree side fuel num = some list)
    (hleaf : leaf ∈ list) : Below tree num leaf := by
  induction fuel generalizing num list with
  | zero => cases h
  | succ fuel ih =>
    simp only [touched] at h
    split at h
    · rename_i outside
      cases h
      rw [List.mem_singleton.mp hleaf]
      exact .leaf outside
    rename_i inside
    have inside : 0 ≤ num := Int.not_lt.mp inside
    split at h
    · exact .front inside (ih h hleaf)
    split at h
    · exact .back inside (ih h hleaf)
    · obtain ⟨front, hfront, rest⟩ := Option.bind_eq_some_iff.mp h
      obtain ⟨back, hback, rfl⟩ := Option.map_eq_some_iff.mp rest
      rcases List.mem_append.mp hleaf with inFront | inBack
      · exact .front inside (ih hfront inFront)
      · exact .back inside (ih hback inBack)

/-- The first leafs of a list, as many as there is room for. -/
def limited (maxcount : Option Nat) (list : List Int) : List Int :=
  match maxcount with
  | none => list
  | some max => list.take max

theorem addLeaf_limited (maxcount : Option Nat) (leaf : Int) (list : List Int) (topnode : Int) :
    addLeaf maxcount leaf ⟨limited maxcount list, topnode⟩ =
      ⟨limited maxcount (list ++ [leaf]), topnode⟩ := by
  cases maxcount with
  | none => rfl
  | some max =>
    simp only [addLeaf, limited, Option.any_some, decide_eq_true_eq, List.length_take]
    split
    · rename_i full
      rw [List.take_append_of_le_length (by omega)]
    · rename_i room
      rw [List.take_of_length_le (by omega), List.take_of_length_le (by simp; omega)]

/-- The walk fills the list with what it touches, and keeps the first node where it splits. -/
theorem boxLeafnumsR_eq {list : List Int} (h : touched tree side fuel num = some list)
    (before : List Int) (topnode : Int) : ∃ topnode',
      boxLeafnumsR tree side maxcount fuel num ⟨limited maxcount before, topnode⟩ =
        some ⟨limited maxcount (before ++ list), topnode'⟩ ∧
      (topnode ≠ -1 → topnode' = topnode) ∧
      (topnode = -1 → topnode' = -1 ∧ list.length = 1 ∨
        topnode' ≠ -1 ∧ Under tree topnode' num ∧
          ∃ more, touched tree side more topnode' = some list) := by
  induction fuel generalizing num list before topnode with
  | zero => cases h
  | succ fuel ih =>
    have whole := h
    simp only [touched] at h
    split at h
    · rename_i outside
      cases h
      refine ⟨topnode, ?_, fun _ => rfl, fun none => .inl ⟨none, rfl⟩⟩
      rw [boxLeafnumsR, if_pos outside, addLeaf_limited]
    rename_i inside
    split at h
    · rename_i front
      obtain ⟨topnode', run, kept, top⟩ := ih h before topnode
      refine ⟨topnode', by rw [boxLeafnumsR, if_neg inside, if_pos front, run], kept, fun none => ?_⟩
      exact (top none).imp_right fun ⟨set, under, rest⟩ =>
        ⟨set, under.tail ⟨Int.not_lt.mp inside, .inl rfl⟩, rest⟩
    rename_i notFront
    split at h
    · rename_i back
      obtain ⟨topnode', run, kept, top⟩ := ih h before topnode
      refine ⟨topnode', by rw [boxLeafnumsR, if_neg inside, if_neg notFront, if_pos back, run], kept,
        fun none => ?_⟩
      exact (top none).imp_right fun ⟨set, under, rest⟩ =>
        ⟨set, under.tail ⟨Int.not_lt.mp inside, .inr rfl⟩, rest⟩
    · rename_i notBack
      obtain ⟨front, hfront, rest⟩ := Option.bind_eq_some_iff.mp h
      obtain ⟨back, hback, rfl⟩ := Option.map_eq_some_iff.mp rest
      let marked := if topnode = -1 then num else topnode
      have set : marked ≠ -1 := by
        by_cases none : topnode = -1
        · simp only [marked, if_pos none]
          omega
        · simp only [marked, if_neg none]
          exact none
      obtain ⟨top₁, run₁, kept₁, -⟩ := ih hfront before marked
      obtain rfl := kept₁ set
      obtain ⟨top₂, run₂, kept₂, -⟩ := ih hback (before ++ front) marked
      obtain rfl := kept₂ set
      refine ⟨marked, ?_, fun some => if_neg some, fun none => .inr ?_⟩
      · rw [boxLeafnumsR, if_neg inside, if_neg notFront, if_neg notBack]
        have first : markTop num ⟨limited maxcount before, topnode⟩ =
            ⟨limited maxcount before, marked⟩ := rfl
        rw [first, run₁, Option.bind_some, run₂, List.append_assoc]
      · have here : marked = num := if_pos none
        rw [here]
        exact ⟨fun same => absurd same (by omega), .refl, fuel + 1, whole⟩

theorem boxLeafnumsHeadnode_eq {list : List Int} (h : touched tree side fuel num = some list)
    (maxcount : Option Nat) : ∃ topnode,
      boxLeafnumsHeadnode tree side maxcount fuel num = some ⟨limited maxcount list, topnode⟩ ∧
        (topnode = -1 ∧ list.length = 1 ∨
          topnode ≠ -1 ∧ Under tree topnode num ∧
            ∃ more, touched tree side more topnode = some list) := by
  have empty : limited maxcount [] = [] := by
    cases maxcount with
    | none => rfl
    | some max => exact List.take_nil
  obtain ⟨topnode, run, -, top⟩ := @boxLeafnumsR_eq _ _ maxcount _ _ _ h [] (-1)
  rw [empty] at run
  exact ⟨topnode, run, top rfl⟩

/-! ## Visible leafs -/

section Visible
variable {cluster : Int → Int} {visible : Int → Bool}

theorem exists_headnodeVisible (cluster : Int → Int) (visible : Int → Bool)
    (enough : Enough tree fuel num) :
    ∃ seen, headnodeVisible tree cluster visible fuel num = some seen := by
  induction fuel generalizing num with
  | zero => exact enough.elim
  | succ fuel ih =>
    simp only [headnodeVisible]
    split
    · exact ⟨_, rfl⟩
    rename_i inside
    obtain ⟨hfront, hback⟩ := enough (Int.not_lt.mp inside)
    obtain ⟨front, hfront⟩ := ih hfront
    rw [hfront, Option.bind_some]
    cases front with
    | true => exact ⟨true, rfl⟩
    | false => exact ih hback

/-- A leaf below the node is in a cluster that can be seen. -/
theorem headnodeVisible_of_below {seen : Bool}
    (h : headnodeVisible tree cluster visible fuel num = some seen) (below : Below tree num leaf)
    (inside : cluster leaf ≠ -1) (sees : visible (cluster leaf) = true) : seen = true := by
  induction fuel generalizing num seen with
  | zero => cases h
  | succ fuel ih =>
    simp only [headnodeVisible] at h
    cases below with
    | leaf outside =>
      rw [if_pos outside] at h
      cases h
      simp [inside, sees]
    | front positive below =>
      rw [if_neg (Int.not_lt.mpr positive)] at h
      obtain ⟨front, hfront, rest⟩ := Option.bind_eq_some_iff.mp h
      obtain rfl := ih hfront below
      cases rest
      rfl
    | back positive below =>
      rw [if_neg (Int.not_lt.mpr positive)] at h
      obtain ⟨front, hfront, rest⟩ := Option.bind_eq_some_iff.mp h
      cases front with
      | true =>
        cases rest
        rfl
      | false => exact ih rest below

end Visible

end BoxLeafs
