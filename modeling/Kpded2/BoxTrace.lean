import Mathlib.Algebra.Order.Field.Basic
import Mathlib.Algebra.Order.Field.Rat
import Mathlib.Tactic.Linarith
import Mathlib.Tactic.Ring
import Kpded2.DeltaEntity

/-!
# Moving a box through the world

`CM_BoxTrace` sends a box from one point to another and finds the first brush that stops it. The
planes of a tree sort out which leafs the box can come to; only the brushes listed there are
looked at, and nothing behind the nearest hit so far.

Coordinates are exact rationals. What hangs below a headnode is written out as a tree, a brush is
named by its number, and the counters for statistics are left out.
-/
namespace BoxTrace
open DeltaEntity (Vec3)

/-! ## The map -/

def distEpsilon : Rat := 1 / 32

inductive Axis where
  | x
  | y
  | z
  deriving DecidableEq

def Axis.get (axis : Axis) (v : Vec3) : Rat :=
  match axis with
  | .x => v.x
  | .y => v.y
  | .z => v.z

def dotProduct (a b : Vec3) : Rat := a.x * b.x + a.y * b.y + a.z * b.z

/-- `cplane_t`. The types below 3 name an axis, the others do not. -/
structure Plane where
  normal : Vec3
  dist : Rat
  type : Option Axis
  deriving DecidableEq

structure Side where
  plane : Plane
  surface : Nat
  deriving DecidableEq

structure Brush where
  contents : BitVec 32
  sides : List Side
  deriving DecidableEq

/-- `leafbrushes` is the leaf's part of `map_leafbrushes`. -/
structure Leaf where
  contents : BitVec 32
  leafbrushes : List Nat
  deriving DecidableEq

inductive Hull where
  | leaf (leaf : Leaf)
  | node (plane : Plane) (children0 children1 : Hull)

structure Map where
  numnodes : Nat
  brushes : Nat → Brush
  headnode : Hull

/-- How far `p` lies in front of a node's plane. -/
def Plane.ahead (plane : Plane) (p : Vec3) : Rat :=
  match plane.type with
  | some axis => axis.get p - plane.dist
  | none => dotProduct plane.normal p - plane.dist

/-! ## One brush -/

/-- `trace_start`, `trace_end`, `trace_mins`, `trace_maxs` and `trace_contents`. -/
structure Move where
  start : Vec3
  stop : Vec3
  mins : Vec3
  maxs : Vec3
  contents : BitVec 32

/-- `trace_ispoint` -/
def Move.ispoint (m : Move) : Bool := decide (m.mins = ⟨0, 0, 0⟩ ∧ m.maxs = ⟨0, 0, 0⟩)

def extent (mins maxs : Rat) : Rat := if -mins > maxs then -mins else maxs

/-- `trace_extents` -/
def Move.extents (m : Move) : Vec3 :=
  if m.ispoint then ⟨0, 0, 0⟩
  else ⟨extent m.mins.x m.maxs.x, extent m.mins.y m.maxs.y, extent m.mins.z m.maxs.z⟩

/-- `surface` is `none` for the null surface. -/
structure Trace where
  allsolid : Bool
  startsolid : Bool
  fraction : Rat
  endpos : Vec3
  plane : Plane
  surface : Option Nat
  contents : BitVec 32
  deriving DecidableEq

def Trace.default : Trace where
  allsolid := false
  startsolid := false
  fraction := 1
  endpos := ⟨0, 0, 0⟩
  plane := ⟨⟨0, 0, 0⟩, 0, some .x⟩
  surface := none
  contents := 0

def ofs (mins maxs normal : Vec3) : Vec3 where
  x := if normal.x < 0 then maxs.x else mins.x
  y := if normal.y < 0 then maxs.y else mins.y
  z := if normal.z < 0 then maxs.z else mins.z

/-- The distance of a plane pushed out for the box. -/
def pushed (mins maxs : Vec3) (plane : Plane) : Rat :=
  plane.dist - dotProduct (ofs mins maxs plane.normal) plane.normal

/-- How far a box at `p` is in front of a side. -/
def Move.out (m : Move) (p : Vec3) (side : Side) : Rat :=
  dotProduct p side.plane.normal - pushed m.mins m.maxs side.plane

/-- The variables of `CM_ClipBoxToBrush`. `enter` is `enterfrac` with the lead side, and `none` as
long as that is -1 and there is no lead side. -/
structure Clip where
  enter : Option (Rat × Side)
  leavefrac : Rat
  getout : Bool
  startout : Bool

def Clip.enterfrac (c : Clip) : Rat :=
  match c.enter with
  | some (f, _) => f
  | none => -1

def Clip.begin : Clip where
  enter := none
  leavefrac := 1
  getout := false
  startout := false

/-- What `CM_ClipBoxToBrush` does after its loop. -/
def Clip.finish (c : Clip) (brush : Brush) (trace : Trace) : Trace :=
  if !c.startout then
    { trace with startsolid := true, allsolid := if c.getout then trace.allsolid else true }
  else
    match c.enter with
    | none => trace
    | some (enterfrac, leadside) =>
      if enterfrac < c.leavefrac ∧ enterfrac < trace.fraction then
        { trace with
          fraction := if enterfrac < 0 then 0 else enterfrac
          plane := leadside.plane
          surface := some leadside.surface
          contents := brush.contents }
      else trace

/-- `checked` has the brushes whose `checkcount` is that of this trace. -/
structure Check where
  trace : Trace
  checked : List Nat

section
variable (brushes : Nat → Brush) (m : Move)

def between (p1 p2 : Vec3) (frac : Rat) : Vec3 where
  x := p1.x + frac * (p2.x - p1.x)
  y := p1.y + frac * (p2.y - p1.y)
  z := p1.z + frac * (p2.z - p1.z)

/-- The offset for the size of the box. -/
def Move.offset (plane : Plane) : Rat :=
  match plane.type with
  | some axis => axis.get m.extents
  | none =>
    if m.ispoint then 0
    else |m.extents.x * plane.normal.x| + |m.extents.y * plane.normal.y| +
      |m.extents.z * plane.normal.z|

/-- `side` is the child that comes first, up to `frac`; the other one comes from `frac2` on. -/
structure Crossing where
  side : Bool
  frac : Rat
  frac2 : Rat

def crossing (t1 t2 offset : Rat) : Crossing :=
  let idist := 1 / (t1 - t2)
  if t1 < t2 then
    ⟨true, (t1 - offset + distEpsilon) * idist, (t1 + offset + distEpsilon) * idist⟩
  else if t1 > t2 then
    ⟨false, (t1 + offset + distEpsilon) * idist, (t1 - offset - distEpsilon) * idist⟩
  else ⟨false, 1, 0⟩

def clamped (frac : Rat) : Rat := if frac < 0 then 0 else if frac > 1 then 1 else frac

end

/-! ## The box at rest -/

def boxOnPlaneSide (emins emaxs : Vec3) (plane : Plane) : Nat :=
  match plane.type with
  | some axis =>
    if plane.dist ≤ axis.get emins then 1
    else if plane.dist ≥ axis.get emaxs then 2
    else 3
  | none =>
    let dist1 := dotProduct plane.normal (ofs emaxs emins plane.normal)
    let dist2 := dotProduct plane.normal (ofs emins emaxs plane.normal)
    (if dist1 ≥ plane.dist then 1 else 0) + (if dist2 < plane.dist then 2 else 0)

/-- `CM_BoxLeafnums_r`; the list that is filled has room for `maxcount`. -/
def boxLeafnumsR (mins maxs : Vec3) (maxcount : Nat) : Hull → List Leaf → List Leaf
  | .leaf leaf, list => if list.length ≥ maxcount then list else list ++ [leaf]
  | .node plane children0 children1, list =>
    let side := boxOnPlaneSide mins maxs plane
    if side = 1 then boxLeafnumsR mins maxs maxcount children0 list
    else if side = 2 then boxLeafnumsR mins maxs maxcount children1 list
    else boxLeafnumsR mins maxs maxcount children1 (boxLeafnumsR mins maxs maxcount children0 list)

/-- The low corner of the box at the start, one unit further out. -/
def Move.c1 (m : Move) : Vec3 :=
  ⟨m.start.x + m.mins.x - 1, m.start.y + m.mins.y - 1, m.start.z + m.mins.z - 1⟩

def Move.c2 (m : Move) : Vec3 :=
  ⟨m.start.x + m.maxs.x + 1, m.start.y + m.maxs.y + 1, m.start.z + m.maxs.z + 1⟩

def Check.begin : Check := ⟨Trace.default, []⟩

/-- The box at a fraction of the move. -/
def Move.place (m : Move) (f : Rat) : Vec3 := between m.start m.stop f

/-- More than the epsilon behind every side. -/
def Deep (m : Move) (brush : Brush) (p : Vec3) : Prop :=
  ∀ side ∈ brush.sides, m.out p side < -distEpsilon

def InRegion (brush : Brush) (q : Vec3) : Prop :=
  ∀ side ∈ brush.sides, dotProduct q side.plane.normal ≤ side.plane.dist

/-- The box at `p` has `q` in it. -/
structure Move.Covers (m : Move) (p q : Vec3) : Prop where
  x : p.x + m.mins.x ≤ q.x ∧ q.x ≤ p.x + m.maxs.x
  y : p.y + m.mins.y ≤ q.y ∧ q.y ≤ p.y + m.maxs.y
  z : p.z + m.mins.z ≤ q.z ∧ q.z ≤ p.z + m.maxs.z

def Hull.leafs : Hull → List Leaf
  | .leaf here => [here]
  | .node _ children0 children1 => children0.leafs ++ children1.leafs

def Hull.leafAt (q : Vec3) : Hull → Leaf
  | .leaf here => here
  | .node plane children0 children1 =>
    if 0 ≤ plane.ahead q then children0.leafAt q else children1.leafAt q

/-- The contents of every leaf are those of its brushes. -/
def Hull.Filled (brushes : Nat → Brush) (hull : Hull) : Prop :=
  ∀ leaf ∈ hull.leafs,
    leaf.contents = (leaf.leafbrushes.map fun n => (brushes n).contents).foldr (· ||| ·) 0

/-- The brush is below the headnode and stops the trace. -/
def Map.Stops (map : Map) (m : Move) (n : Nat) : Prop :=
  (∃ leaf ∈ map.headnode.leafs, n ∈ leaf.leafbrushes) ∧ (map.brushes n).contents &&& m.contents ≠ 0

/-- A map has been loaded; a brush is listed in the leafs that its region touches, and the contents
of a leaf are those of its brushes. -/
structure WellFormed (map : Map) : Prop where
  loaded : map.numnodes ≠ 0
  listed : ∀ leaf ∈ map.headnode.leafs, ∀ n ∈ leaf.leafbrushes, ∀ q,
    InRegion (map.brushes n) q → n ∈ (map.headnode.leafAt q).leafbrushes
  contents : map.headnode.Filled map.brushes

/-- The leafs that a box touches. -/
def touched (mins maxs : Vec3) : Hull → List Leaf
  | .leaf leaf => [leaf]
  | .node plane children0 children1 =>
    let side := boxOnPlaneSide mins maxs plane
    if side = 1 then touched mins maxs children0
    else if side = 2 then touched mins maxs children1
    else touched mins maxs children0 ++ touched mins maxs children1

/-- The box starts behind every side. -/
def Move.StartsIn (m : Move) (brush : Brush) : Prop :=
  ∀ side ∈ brush.sides, m.out m.start side ≤ 0

instance (m : Move) (brush : Brush) : Decidable (m.StartsIn brush) :=
  inferInstanceAs (Decidable (∀ side ∈ brush.sides, m.out m.start side ≤ 0))

/-- Where the box has come within the epsilon of a side that it starts in front of. -/
def Move.enters (m : Move) (side : Side) : Rat :=
  (m.out m.start side - distEpsilon) / (m.out m.start side - m.out m.stop side)

/-- Where the box is about to come out of a side, but for the epsilon. -/
def Move.leaves (m : Move) (side : Side) : Rat :=
  (m.out m.start side + distEpsilon) / (m.out m.start side - m.out m.stop side)

/-- The box starts in front of the brush. By the fraction `g` it has come to all those sides that it
starts in front of, and the last of them it comes to before it leaves another one. -/
structure Move.EntersBy (m : Move) (brush : Brush) (g : Rat) : Prop where
  front : ∃ side ∈ brush.sides, 0 < m.out m.start side ∧ -1 < m.enters side
  towards : ∀ side ∈ brush.sides, 0 < m.out m.start side → m.out m.stop side < m.out m.start side
  reached : ∀ side ∈ brush.sides, 0 < m.out m.start side → m.enters side ≤ g
  ahead : ∀ side ∈ brush.sides, 0 < m.out m.start side → m.enters side < 1
  before : ∀ side ∈ brush.sides, 0 < m.out m.start side → ∀ other ∈ brush.sides,
    m.out m.start other ≤ 0 → 0 < m.out m.stop other → m.enters side < m.leaves other

/-- The brush stops the box by the fraction `g`; a box at rest is stopped where it starts. -/
def Move.Halted (m : Move) (brush : Brush) (g : Rat) : Prop :=
  (m.start = m.stop ∧ m.StartsIn brush) ∨ m.EntersBy brush g

/-- A leaf that the planes bring the box to, and the fraction from which on. -/
structure Pass where
  p1f : Rat
  leaf : Leaf

/-- The leafs that the move comes to between two fractions, in order. -/
def Hull.passes (m : Move) : Hull → Rat → Rat → List Pass
  | .leaf here, p1f, _ => [⟨p1f, here⟩]
  | .node plane children0 children1, p1f, p2f =>
    let t1 := plane.ahead (m.place p1f)
    let t2 := plane.ahead (m.place p2f)
    let offset := m.offset plane
    if t1 ≥ offset ∧ t2 ≥ offset then children0.passes m p1f p2f
    else if t1 < -offset ∧ t2 < -offset then children1.passes m p1f p2f
    else
      let c := crossing t1 t2 offset
      let midf := p1f + (p2f - p1f) * clamped c.frac
      let midf2 := p1f + (p2f - p1f) * clamped c.frac2
      if c.side then children1.passes m p1f midf ++ children0.passes m midf2 p2f
      else children0.passes m p1f midf ++ children1.passes m midf2 p2f

/-- A box at rest comes to the leafs that it touches. -/
def Map.passes (map : Map) (m : Move) : List Pass :=
  if m.start = m.stop then (touched m.c1 m.c2 map.headnode).map (Pass.mk 0)
  else map.headnode.passes m 0 1

/-- A brush that a leaf lists; `pass` counts the leafs, and the leaf is searched from `p1f` on. -/
structure Turn where
  pass : Nat
  p1f : Rat
  brushnum : Nat

/-- The brush has sides, and its contents are looked for. -/
def Map.Solid (map : Map) (m : Move) (n : Nat) : Prop :=
  (map.brushes n).contents &&& m.contents ≠ 0 ∧ (map.brushes n).sides ≠ []

instance (map : Map) (m : Move) (n : Nat) : Decidable (map.Solid m n) :=
  inferInstanceAs (Decidable (_ ∧ _))

/-- The turns of the list of a leaf. -/
def Map.listed (map : Map) (m : Move) (i : Nat) (p1f : Rat) (list : List Nat) : List Turn :=
  (list.filter fun n => map.Solid m n).map (Turn.mk i p1f)

/-- The brushes in the order of the leafs, and of the list of each leaf. -/
def turns (map : Map) (m : Move) : Nat → List Pass → List Turn
  | _, [] => []
  | i, pass :: rest =>
    map.listed m i pass.p1f pass.leaf.leafbrushes ++ turns map m (i + 1) rest

/-- The brush of a turn stands before a later one: in the same leaf if it stops the box at once, and
else if it stops the box by where the later leaf begins. -/
def Turn.Bars (map : Map) (m : Move) (before turn : Turn) : Prop :=
  m.Halted (map.brushes before.brushnum) (if before.pass = turn.pass then 0 else turn.p1f)

/-- What is taken of some turns, of which the latest stands first. A turn is taken if its leaf begins
before the end of the move and no turn that is taken before bars it. -/
def Taken (map : Map) (m : Move) : List Turn → Turn → Prop
  | [], _ => False
  | turn :: earlier, taken => Taken map m earlier taken ∨
    (taken = turn ∧ turn.p1f < 1 ∧ ∀ before, Taken map m earlier before → ¬before.Bars map m turn)

/-- The search comes to the brush. -/
def Map.ComesTo (map : Map) (m : Move) (n : Nat) : Prop :=
  ∃ turn, Taken map m (turns map m 0 (map.passes m)).reverse turn ∧ turn.brushnum = n

/-- The search comes to every brush that the box comes deep into, unless it comes to one that the
move starts in, or to one that stops the box before. -/
def Heeded (map : Map) (m : Move) : Prop :=
  ∀ n, map.Stops m n → ∀ f, 0 ≤ f → f ≤ 1 → Deep m (map.brushes n) (m.place f) →
    map.ComesTo m n ∨ ∃ k, map.ComesTo m k ∧
      (m.StartsIn (map.brushes k) ∨ ∃ g, 0 ≤ g ∧ g < f ∧ m.Halted (map.brushes k) g)

/-! ## Planes that cut nothing off -/

/-- The move crosses the plane from behind. -/
def Move.Rising (m : Move) (plane : Plane) : Prop := plane.ahead m.start < plane.ahead m.stop

/-- Where the planes that the move crosses from behind have `q` behind them, so they have more than
the epsilon of the box at `p`. -/
def Hull.Keeps (m : Move) (p q : Vec3) : Hull → Prop
  | .leaf _ => True
  | .node plane children0 children1 =>
    if 0 ≤ plane.ahead q then children0.Keeps m p q
    else (m.Rising plane → plane.ahead p ≤ m.offset plane - distEpsilon) ∧ children1.Keeps m p q

/-- The box starts in front of the brush, by no more than the epsilon, and moves towards every side
that it is in front of. -/
structure Touches (m : Move) (brush : Brush) : Prop where
  out : ∃ side ∈ brush.sides, 0 < m.out m.start side
  near : ∀ side ∈ brush.sides, 0 < m.out m.start side →
    m.out m.start side ≤ distEpsilon ∧ m.out m.stop side < m.out m.start side

/-- The brushes have sides. A box that is deep in a brush has by then come to a point of it that no
plane cuts off, and a box that starts deep in a brush touches no other one. -/
structure Fair (map : Map) (m : Move) : Prop where
  sides : ∀ n, map.Stops m n → (map.brushes n).sides ≠ []
  met : ∀ n, map.Stops m n → ∀ f, 0 ≤ f → f ≤ 1 → Deep m (map.brushes n) (m.place f) →
    ∃ e q, (0 ≤ e ∧ e ≤ f) ∧ InRegion (map.brushes n) q ∧ m.Covers (m.place e) q ∧
      map.headnode.Keeps m (m.place e) q
  alone : (∃ n, map.Stops m n ∧ Deep m (map.brushes n) m.start) →
    ∀ n, map.Stops m n → ¬Touches m (map.brushes n)

/-! ## Along a line -/

variable {m : Move} {a b : Vec3} {f : Rat}

theorem dotProduct_between (n : Vec3) :
    dotProduct (between a b f) n = dotProduct a n + f * (dotProduct b n - dotProduct a n) := by
  simp only [dotProduct, between]
  ring

theorem ahead_between (plane : Plane) :
    plane.ahead (between a b f) = plane.ahead a + f * (plane.ahead b - plane.ahead a) := by
  simp only [Plane.ahead]
  cases plane.type with
  | none =>
    simp only [dotProduct, between]
    ring
  | some axis =>
    cases axis with
    | x =>
      simp only [Axis.get, between]
      ring
    | y =>
      simp only [Axis.get, between]
      ring
    | z =>
      simp only [Axis.get, between]
      ring

theorem out_place (side : Side) :
    m.out (m.place f) side = m.out m.start side + f * (m.out m.stop side - m.out m.start side) := by
  simp only [Move.out, Move.place, dotProduct_between]
  ring

theorem place_start (m : Move) : m.place 0 = m.start := by
  simp only [Move.place, between, zero_mul, add_zero]

theorem place_still (still : m.start = m.stop) (f : Rat) : m.place f = m.start := by
  simp only [Move.place, between, still, sub_self, mul_zero, add_zero]

theorem place_between (p1f p2f frac : Rat) :
    between (m.place p1f) (m.place p2f) frac = m.place (p1f + (p2f - p1f) * frac) := by
  simp only [between, Move.place, Vec3.mk.injEq]
  refine ⟨?_, ?_, ?_⟩
  · ring
  · ring
  · ring

end BoxTrace
