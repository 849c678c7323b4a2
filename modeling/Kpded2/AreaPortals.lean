import Mathlib.Data.Finset.Card
import Mathlib.Data.Nat.Bitwise
import Kpded2.BspLoad
import Kpded2.GraphFlood
import Kpded2.StepRuns

/-!
# Areas and the portals between them

The flood that finds out which areas of a map are connected through open portals, and the two
functions that are asked for the result.
-/
namespace AreaPortals
open BspLoad GraphFlood

/-- The tables of a map; `numareas` counts the unused area 0. -/
structure AreaMap where
  numareas : Nat
  areas : Int → CArea
  numareaportals : Int
  areaportals : Int → AreaPortal

/-- What a flood leaves in a `carea_t`. -/
structure Flood where
  floodnum : Nat
  floodvalid : Int

structure State where
  floods : Int → Flood
  floodvalid : Int
  portalopen : Int → Bool

/-- The errors of the source, a place in front of `portalopen`, and a model that runs out of fuel. -/
inductive Stop
  | reflooded
  | portal
  | outside
  | areaTooHigh
  | areaNegative
  | unfinished
  deriving DecidableEq

def portalsOf (m : AreaMap) (area : Int) : List AreaPortal :=
  (List.range (m.areas area).numareaportals.toNat).map fun i =>
    m.areaportals ((m.areas area).firstareaportal + i)

def floodAreaR (m : AreaMap) (portalopen : Int → Bool) (valid : Int) (floodnum : Nat) :
    Nat → Int → (Int → Flood) → Except Stop (Int → Flood)
  | 0, _, _ => .error .unfinished
  | fuel + 1, area, floods =>
    if (floods area).floodvalid = valid then
      if (floods area).floodnum = floodnum then .ok floods else .error .reflooded
    else (portalsOf m area).foldlM (fun floods p =>
        if portalopen p.portalnum then floodAreaR m portalopen valid floodnum fuel p.otherarea floods
        else .ok floods)
      (Function.update floods area ⟨floodnum, valid⟩)

/-- The loop of `FloodAreaConnections`. -/
def floodAreas (m : AreaMap) (portalopen : Int → Bool) (valid : Int) :
    List Int → Nat → (Int → Flood) → Except Stop (Int → Flood)
  | [], _, floods => .ok floods
  | area :: rest, floodnum, floods =>
    if (floods area).floodvalid = valid then floodAreas m portalopen valid rest floodnum floods
    else do
      let floods ← floodAreaR m portalopen valid (floodnum + 1) (m.numareas + 1) area floods
      floodAreas m portalopen valid rest (floodnum + 1) floods

/-- Area 0 is not used. -/
def usedAreas (m : AreaMap) : List Int := (List.range' 1 (m.numareas - 1)).map Int.ofNat

/-- `floodvalid` is an `int`. -/
def floodAreaConnections (m : AreaMap) (s : State) : Except Stop State := do
  let floodvalid := (s.floodvalid + 1).bmod (2 ^ 32)
  let floods ← floodAreas m s.portalopen floodvalid (usedAreas m) 0 s.floods
  return { s with floods, floodvalid }

def cmSetAreaPortalState (m : AreaMap) (portalnum : Int) (isOpen : Bool) (s : State) :
    Except Stop State :=
  if portalnum > m.numareaportals then .error .portal
  -- only the upper end is checked
  else if portalnum < 0 then .error .outside
  else floodAreaConnections m { s with portalopen := Function.update s.portalopen portalnum isOpen }

/-- `noareas` is the variable `map_noareas`. -/
def cmAreasConnected (m : AreaMap) (noareas : Bool) (s : State) (area1 area2 : Int) :
    Except Stop Bool :=
  if noareas then .ok true
  else if area1 > m.numareas ∨ area2 > m.numareas then .error .areaTooHigh
  else if area1 < 0 ∨ area2 < 0 then .error .areaNegative
  else .ok ((s.floods area1).floodnum = (s.floods area2).floodnum)

/-- The bits of the areas in front of `i`. -/
def areaBits (s : State) (area : Int) (bytes : Nat) : Nat → List UInt8
  | 0 => List.replicate bytes 0
  | i + 1 =>
    if (s.floods i).floodnum = (s.floods area).floodnum ∨ area = 0 then
      (areaBits s area bytes i).modify (i / 8) (· ||| 1 <<< UInt8.ofNat (i % 8))
    else areaBits s area bytes i

def cmWriteAreaBits (m : AreaMap) (noareas : Bool) (s : State) (area : Int) : List UInt8 :=
  let bytes := (m.numareas + 7) / 8
  if noareas then List.replicate bytes 255 else areaBits s area bytes m.numareas

/-! ## The flood as a flood of a graph -/

variable {m : AreaMap} {portalopen : Int → Bool} {valid : Int} {floods : Int → Flood}
  {s t : State}

/-- A path of open portals. -/
def Joined (m : AreaMap) (portalopen : Int → Bool) : Int → Int → Prop :=
  Relation.ReflTransGen fun a b =>
    ∃ p ∈ portalsOf m a, portalopen p.portalnum = true ∧ p.otherarea = b

abbrev UsedArea (m : AreaMap) := { area : Int // 1 ≤ area ∧ area < m.numareas }

def bitOf (bytes : List UInt8) (i : Nat) : Bool := ((bytes[i / 8]?).getD 0).toNat.testBit (i % 8)

structure AreasRight (m : AreaMap) (noareas : Bool) (s : State) : Prop where
  connected : ∀ a b : UsedArea m, ∃ answer, cmAreasConnected m noareas s a b = .ok answer ∧
    (answer = true ↔ noareas = true ∨ Joined m s.portalopen a b)
  equivalence : Equivalence fun a b : UsedArea m => cmAreasConnected m noareas s a b = .ok true
  bits : ∀ a b : UsedArea m, bitOf (cmWriteAreaBits m noareas s a) b.val.toNat = true ↔
    cmAreasConnected m noareas s a b = .ok true

structure Call where
  portalnum : Int
  isOpen : Bool

/-- A call that is refused changes nothing; `none` stands for every other failure. -/
def step (m : AreaMap) (s : Option State) (call : Call) : Option State :=
  s.bind fun s =>
    match cmSetAreaPortalState m call.portalnum call.isOpen s with
    | .ok t => some t
    | .error .portal => some s
    | .error _ => none

/-- The call does not fail, and what is asked afterwards is answered right. -/
def Answers (m : AreaMap) (s : Option State) (call : Call) : Prop :=
  ∃ t, step m s call = some t ∧
    (call.portalnum ≤ m.numareaportals → ∀ noareas, AreasRight m noareas t)

private def apart : AreaMap where
  numareas := 3
  areas _ := ⟨0, 0⟩
  numareaportals := 0
  areaportals _ := ⟨0, 0⟩

end AreaPortals
