import Mathlib.Tactic.Linarith
import Kpded2.PlayerMotion
import Kpded2.StepRuns

/-!
# The box of a player

`Pmove` of the Kingpin build. It chooses the box first, by the type of the player and by whether
he has ducked, and ends with a position that the network can carry; where none of the eight
around him is free, he goes back to the one he came from. Positions are exact rationals.

`boxOf` says which box belongs to a type and the flag. That a player is not stuck in it is what
all calls keep.
-/
namespace PlayerBox
open ClientMessage (Usercmd)
open DeltaEntity (Vec3 trunc)
open PlayerDelta (Shorts nullVec)
open PlayerMotion StepRuns

variable (w : World)

/-! ## Ducking -/

def setSides (c : Rat) (p : Pmove) : Pmove :=
  { p with mins := ⟨-c, -c, p.mins.z⟩, maxs := ⟨c, c, p.maxs.z⟩ }

def setBottom (z : Rat) (p : Pmove) : Pmove := { p with mins := { p.mins with z } }

def setTop (z viewheight : Rat) (p : Pmove) : Pmove :=
  { p with maxs := { p.maxs with z }, viewheight }

def setDucked (ducked : Bool) (p : Pmove) : Pmove := p.setFlags { p.s.pmFlags with ducked }

/-- A player stands up if there is room. -/
def standUp (p : Pmove) : Pmove :=
  if p.s.pmFlags.ducked then
    let p := setTop 48 p.viewheight p
    if (w.trace p.origin p.mins p.maxs p.origin).allsolid then p else setDucked false p
  else p

def setHeight (p : Pmove) : Pmove :=
  if p.s.pmFlags.ducked then setTop 24 18 p else setTop 48 36 p

def pmCheckDuck (p : Pmove) : Pmove :=
  let p := setSides 16 p
  if p.s.pmType = .gib then setTop 16 8 (setBottom 0 p)
  else
    let p := setBottom (-24) p
    if p.s.pmType.vehicle then setSides 32 (setHeight (setBottom (-2) p))
    else if p.s.pmType = .dead then setTop (-4) (-8) p
    else if p.cmd.upmove < 0 ∧ p.s.pmFlags.onGround then setHeight (setDucked true p)
    else setHeight (standUp w p)

/-! ## The position on the network -/

/-- The position that three coordinates of eighths stand for. -/
def position (o : Shorts) : Vec3 := ⟨o.x / 8, o.y / 8, o.z / 8⟩

def place (o : Shorts) (p : Pmove) : Pmove := { p with s := { p.s with origin := o } }

def pmGoodPosition (p : Pmove) : Bool :=
  decide (p.s.pmType = .spectator) ||
    !(w.trace (position p.s.origin) p.mins p.maxs (position p.s.origin)).allsolid

/-- Eighths, with the fraction cut off. -/
def snapped (v : Vec3) : Shorts :=
  ⟨int16 (trunc (v.x * 8)), int16 (trunc (v.y * 8)), int16 (trunc (v.z * 8))⟩

/-- The side to which the fraction was. -/
def sign (f : Rat) (c : Int) : Int := if (c : Rat) / 8 = f then 0 else if f ≥ 0 then 1 else -1

/-- All single bits come first. -/
def jitterbits : List Nat := [0, 4, 1, 2, 3, 5, 6, 7]

def jitter (base : Shorts) (origin : Vec3) (bits : Nat) : Shorts :=
  ⟨if bits.testBit 0 then int16 (base.x + sign origin.x base.x) else base.x,
    if bits.testBit 1 then int16 (base.y + sign origin.y base.y) else base.y,
    if bits.testBit 2 then int16 (base.z + sign origin.z base.z) else base.z⟩

def pmSnapPosition (p : Pmove) : Pmove :=
  let p := { p with s := { p.s with velocity := snapped p.velocity } }
  let candidate := jitter (snapped p.origin) p.origin
  match jitterbits.find? fun bits => pmGoodPosition w (place (candidate bits) p) with
  | some bits => place (candidate bits) p
  | none => place p.previousOrigin p

/-- The positions around `base`, in the order of the three loops. -/
def around (base : Shorts) : List Shorts :=
  let offset : List Int := [0, -1, 1]
  offset.flatMap fun z => offset.flatMap fun y => offset.map fun x =>
    ⟨int16 (base.x + x), int16 (base.y + y), int16 (base.z + z)⟩

/-- Where none of them is free, the last one stays. -/
def pmInitialSnapPosition (p : Pmove) : Pmove :=
  match (around p.s.origin).find? fun o => pmGoodPosition w (place o p) with
  | some o => { place o p with origin := position o, previousOrigin := o }
  | none =>
    place ⟨int16 (p.s.origin.x + 1), int16 (p.s.origin.y + 1), int16 (p.s.origin.z + 1)⟩ p

/-! ## A call -/

/-- The results and the locals are cleared; the position is the one to go back to. -/
def clear (p : Pmove) : Pmove where
  s := p.s
  cmd := p.cmd
  snapinitial := p.snapinitial
  mins := p.mins
  maxs := p.maxs
  origin := position p.s.origin
  velocity := position p.s.velocity
  previousOrigin := p.s.origin
  frametime := p.cmd.msec.toNat / 1000

/-- In units of eight milliseconds. -/
def ticks (cmd : Usercmd) : Nat := if cmd.msec.toNat / 8 = 0 then 1 else cmd.msec.toNat / 8

def dropTimer (p : Pmove) : Pmove :=
  if p.s.pmTime ≠ 0 then
    if ticks p.cmd ≥ p.s.pmTime then (p.setFlags p.s.pmFlags.timesUp).setTime 0
    else p.setTime (p.s.pmTime - ticks p.cmd)
  else p

/-- A waterjump has no control, but falls. -/
def waterjump (p : Pmove) : Pmove :=
  let p := falling p
  pmStepSlideMove w
    (if p.velocity.z < 0 then (p.setFlags p.s.pmFlags.timesUp).setTime 0 else p)

/-- A player who is not under water moves with a third of his pitch. -/
def level (p : Pmove) : Pmove :=
  let pitch := if p.viewangles.x > 180 then p.viewangles.x - 360 else p.viewangles.x
  let angles := { p.viewangles with x := pitch / 3 }
  { p with forward := (angleVectors w angles).1, right := (angleVectors w angles).2 }

def move (p : Pmove) : Pmove :=
  if p.s.pmFlags.timeTeleport then p
  else if p.s.pmFlags.timeWaterjump then waterjump w p
  else
    let p := pmFriction w (pmCheckJump p)
    if p.waterlevel ≥ 2 then pmWaterMove w p else pmAirMove w (level w p)

def stop (p : Pmove) : Pmove :=
  if p.s.pmType.powerless then
    { p with cmd := { p.cmd with forwardmove := 0, sidemove := 0, upmove := 0 } }
  else p

def snapFirst (p : Pmove) : Pmove := if p.snapinitial then pmInitialSnapPosition w p else p

/-- What follows once the player has his box. -/
def moveBox (p : Pmove) : Pmove :=
  let p := pmCatagorizePosition w p
  let p := if p.s.pmType = .dead then pmDeadMove w p else p
  pmCatagorizePosition w (move w (dropTimer (pmCheckSpecialMovement w p)))

def pmove (p : Pmove) : Pmove :=
  let p := pmClampAngles w (clear p)
  if p.s.pmType = .spectator then pmSnapPosition w (pmFlyMove w p)
  else
    let p := stop p
    if p.s.pmType = .freeze then p
    else pmSnapPosition w (moveBox w (snapFirst w (pmCheckDuck w p)))

/-- A call with the next command. -/
def call (p : Pmove) (cmd : Usercmd) : Pmove := pmove w { p with cmd, snapinitial := false }

/-! ## What the box is for -/

structure Box where
  mins : Vec3
  maxs : Vec3

def above (a b : Vec3) : Prop := a.x ≤ b.x ∧ a.y ≤ b.y ∧ a.z ≤ b.z

def Box.Inside (inner outer : Box) : Prop :=
  above outer.mins inner.mins ∧ above inner.maxs outer.maxs

/-- A box at `o` does not lie in something solid. -/
def Free (o : Vec3) (b : Box) : Prop := (w.trace o b.mins b.maxs o).allsolid = false

/-- Where a box is free, a smaller one is. -/
def BoxMonotone : Prop := ∀ o (inner outer : Box), inner.Inside outer → Free w o outer → Free w o inner

def boxOf (t : PmType) (ducked : Bool) : Box :=
  match t with
  | .gib => ⟨⟨-16, -16, 0⟩, ⟨16, 16, 16⟩⟩
  | .dead => ⟨⟨-16, -16, -24⟩, ⟨16, 16, -4⟩⟩
  | .hovercar | .hovercarGround | .bike =>
    ⟨⟨-32, -32, -2⟩, ⟨32, 32, if ducked then 24 else 48⟩⟩
  | _ => ⟨⟨-16, -16, -24⟩, ⟨16, 16, if ducked then 24 else 48⟩⟩

def Held.box (h : Held) : Box := ⟨h.mins, h.maxs⟩

/-- The box of the player is the one of his type and his flag, and he would not be stuck at `o`. -/
structure Fits (o : Vec3) (p : Pmove) : Prop where
  box : Held.box p.held = boxOf p.s.pmType p.s.pmFlags.ducked
  free : Free w o (Held.box p.held)

theorem ducked_inside (t : PmType) : (boxOf t true).Inside (boxOf t false) := by
  cases t <;> simp [boxOf, Box.Inside, above] <;> norm_num

theorem free_ducked (monotone : BoxMonotone w) {o : Vec3} {t : PmType} {ducked : Bool}
    (free : Free w o (boxOf t ducked)) : Free w o (boxOf t true) := by
  cases ducked with
  | true => exact free
  | false => exact monotone o _ _ (ducked_inside t) free

/-! ## The choice of the box -/

theorem boxOf_upright {t : PmType} (gib : t ≠ .gib) (dead : t ≠ .dead) (vehicle : t.vehicle = false)
    (ducked : Bool) :
    boxOf t ducked = ⟨⟨-16, -16, -24⟩, ⟨16, 16, if ducked then 24 else 48⟩⟩ := by
  cases t with
  | gib => exact absurd rfl gib
  | dead => exact absurd rfl dead
  | hovercar | hovercarGround | bike => cases vehicle
  | normal | normalWithJetpack | car | spectator | freeze => rfl

theorem boxOf_vehicle {t : PmType} (vehicle : t.vehicle = true) (ducked : Bool) :
    boxOf t ducked = ⟨⟨-32, -32, -2⟩, ⟨32, 32, if ducked then 24 else 48⟩⟩ := by
  cases t with
  | hovercar | hovercarGround | bike => rfl
  | gib | dead | normal | normalWithJetpack | car | spectator | freeze => cases vehicle

theorem box_setHeight (p : Pmove) :
    Held.box (setHeight p).held =
      ⟨p.mins, ⟨p.maxs.x, p.maxs.y, if p.s.pmFlags.ducked then 24 else 48⟩⟩ := by
  unfold setHeight
  split <;> rfl

theorem box_vehicle (p : Pmove) :
    Held.box (setSides 32 (setHeight (setBottom (-2) p))).held =
      ⟨⟨-32, -32, -2⟩, ⟨32, 32, if p.s.pmFlags.ducked then 24 else 48⟩⟩ := by
  have box := box_setHeight (setBottom (-2) p)
  have bottom := congrArg (fun b : Box => b.mins.z) box
  have top := congrArg (fun b : Box => b.maxs.z) box
  change (setHeight (setBottom (-2) p)).mins.z = -2 at bottom
  change (setHeight (setBottom (-2) p)).maxs.z = _ at top
  change (⟨⟨-32, -32, _⟩, ⟨32, 32, _⟩⟩ : Box) = _
  rw [bottom, top]
  rfl

@[simp] theorem s_setHeight (p : Pmove) : (setHeight p).s = p.s := by
  unfold setHeight
  split <;> rfl

/-- The player as he is when the top of his box is chosen. -/
def upright (p : Pmove) : Pmove := setBottom (-24) (setSides 16 p)

/-- A player on two legs. -/
structure Legs (t : PmType) : Prop where
  gib : t ≠ .gib
  dead : t ≠ .dead
  vehicle : t.vehicle = false

theorem fits_setHeight {q : Pmove} {o : Vec3} (legs : Legs q.s.pmType)
    (mins : q.mins = ⟨-16, -16, -24⟩) (x : q.maxs.x = 16) (y : q.maxs.y = 16)
    (free : Free w o (boxOf q.s.pmType q.s.pmFlags.ducked)) : Fits w o (setHeight q) := by
  have box : Held.box (setHeight q).held = boxOf q.s.pmType q.s.pmFlags.ducked := by
    rw [box_setHeight, boxOf_upright legs.gib legs.dead legs.vehicle, mins, x, y]
  constructor
  · rw [s_setHeight]
    exact box
  · rw [box]
    exact free

theorem fits_standUp {p : Pmove} (legs : Legs p.s.pmType)
    (free : Free w p.origin (boxOf p.s.pmType p.s.pmFlags.ducked)) :
    Fits w p.origin (setHeight (standUp w (upright p))) := by
  unfold standUp
  simp only
  split
  · split
    · exact fits_setHeight w legs rfl rfl rfl free
    · rename_i room
      have stands : Free w p.origin (boxOf p.s.pmType false) := by
        rw [boxOf_upright legs.gib legs.dead legs.vehicle]
        exact eq_false_of_ne_true room
      exact fits_setHeight w legs rfl rfl rfl stands
  · exact fits_setHeight w legs rfl rfl rfl free

/-- The box that is chosen is free where the player is, if the one he had was. -/
theorem fits_pmCheckDuck (monotone : BoxMonotone w) {p : Pmove}
    (free : Free w p.origin (boxOf p.s.pmType p.s.pmFlags.ducked)) :
    Fits w p.origin (pmCheckDuck w p) := by
  unfold pmCheckDuck
  simp only
  split
  · rename_i gib
    have box : boxOf p.s.pmType p.s.pmFlags.ducked = ⟨⟨-16, -16, 0⟩, ⟨16, 16, 16⟩⟩ := by
      rw [show p.s.pmType = .gib from gib]
      rfl
    rw [box] at free
    exact ⟨box.symm, free⟩
  · rename_i gib
    split
    · rename_i vehicle
      have box := (box_vehicle (upright p)).trans (boxOf_vehicle vehicle p.s.pmFlags.ducked).symm
      have same : (setSides 32 (setHeight (setBottom (-2) (upright p)))).s = p.s := s_setHeight _
      change Fits w p.origin (setSides 32 (setHeight (setBottom (-2) (upright p))))
      constructor
      · rw [same]
        exact box
      · rw [box]
        exact free
    · rename_i vehicle
      split
      · rename_i dead
        have box : boxOf p.s.pmType p.s.pmFlags.ducked = ⟨⟨-16, -16, -24⟩, ⟨16, 16, -4⟩⟩ := by
          rw [show p.s.pmType = .dead from dead]
          rfl
        rw [box] at free
        exact ⟨box.symm, free⟩
      · rename_i dead
        have legs : Legs p.s.pmType := ⟨gib, dead, eq_false_of_ne_true vehicle⟩
        split
        · exact fits_setHeight w legs rfl rfl rfl (free_ducked w monotone free)
        · exact fits_standUp w legs free

/-- What a call looks at again after the box has been chosen. -/
theorem kept_pmCheckDuck (p : Pmove) :
    (pmCheckDuck w p).previousOrigin = p.previousOrigin ∧
      (pmCheckDuck w p).s.pmType = p.s.pmType ∧
      (pmCheckDuck w p).snapinitial = p.snapinitial := by
  unfold pmCheckDuck standUp setHeight
  simp only
  split_ifs <;> exact ⟨rfl, rfl, rfl⟩

/-! ## The choice of the position -/

theorem free_of_good {p : Pmove} (player : p.s.pmType ≠ .spectator)
    (good : pmGoodPosition w p = true) : Free w (position p.s.origin) (Held.box p.held) := by
  simp only [pmGoodPosition, player, decide_false, Bool.false_or, Bool.not_eq_true'] at good
  exact good

theorem fits_pmSnapPosition {p : Pmove} (player : p.s.pmType ≠ .spectator)
    (fits : Fits w (position p.previousOrigin) p) :
    Fits w (position (pmSnapPosition w p).s.origin) (pmSnapPosition w p) := by
  unfold pmSnapPosition
  simp only
  split
  · rename_i bits found
    have good := List.find?_some found
    exact ⟨fits.box, free_of_good w (p := place _ _) player good⟩
  · exact ⟨fits.box, fits.free⟩

theorem pmType_pmSnapPosition (p : Pmove) : (pmSnapPosition w p).s.pmType = p.s.pmType := by
  unfold pmSnapPosition
  simp only
  split <;> rfl

/-! ## Calls -/

@[simp] theorem held_dropTimer (p : Pmove) : (dropTimer p).held = p.held := by
  unfold dropTimer
  split
  · split
    · rw [held_setTime]
      exact held_setFlags p rfl
    · rfl
  · rfl

@[simp] theorem held_waterjump (p : Pmove) : (waterjump w p).held = p.held := by
  unfold waterjump
  simp only [held_pmStepSlideMove]
  split
  · rw [held_setTime]
    exact held_setFlags (falling p) rfl
  · rfl

@[simp] theorem held_level (p : Pmove) : (level w p).held = p.held := rfl

@[simp] theorem held_move (p : Pmove) : (move w p).held = p.held := by
  unfold move
  split
  · rfl
  · split
    · simp
    · simp only
      split
      · simp
      · simp

/-- The player is moved with the box that he has. -/
theorem held_moveBox (p : Pmove) : (moveBox w p).held = p.held := by
  unfold moveBox
  simp only [held_pmCatagorizePosition, held_move, held_dropTimer, held_pmCheckSpecialMovement]
  split
  · simp
  · simp

theorem held_iff {p q : Pmove} (h : p.held = q.held) :
    p.s.pmType = q.s.pmType ∧ p.s.pmFlags.ducked = q.s.pmFlags.ducked ∧
      p.previousOrigin = q.previousOrigin :=
  ⟨congrArg Held.pmType h, congrArg Held.ducked h, congrArg Held.previousOrigin h⟩

theorem Fits.of_held {o : Vec3} {p q : Pmove} (fits : Fits w o p) (h : q.held = p.held) :
    Fits w o q := by
  obtain ⟨type, ducked, -⟩ := held_iff h
  constructor
  · rw [h, type, ducked]
    exact fits.box
  · rw [h]
    exact fits.free

/-- What a player needs to move: his type, and that he is not stuck. -/
structure Loose (p : Pmove) : Prop where
  spectator : p.s.pmType ≠ .spectator
  freeze : p.s.pmType ≠ .freeze
  free : Free w (position p.s.origin) (boxOf p.s.pmType p.s.pmFlags.ducked)

/-- The player when his box is chosen. -/
def prepared (p : Pmove) : Pmove := stop (pmClampAngles w (clear p))

theorem prepared_eq (p : Pmove) :
    (prepared w p).s = p.s ∧ (prepared w p).origin = position p.s.origin ∧
      (prepared w p).previousOrigin = p.s.origin ∧ (prepared w p).snapinitial = p.snapinitial := by
  unfold prepared stop
  split <;> exact ⟨rfl, rfl, rfl, rfl⟩

theorem pmove_eq {p : Pmove} (spectator : p.s.pmType ≠ .spectator) (freeze : p.s.pmType ≠ .freeze)
    (off : p.snapinitial = false) :
    pmove w p = pmSnapPosition w (moveBox w (pmCheckDuck w (prepared w p))) := by
  obtain ⟨same, -, -, snapinitial⟩ := prepared_eq w p
  have quiet : snapFirst w (pmCheckDuck w (prepared w p)) = pmCheckDuck w (prepared w p) := by
    rw [snapFirst, (kept_pmCheckDuck w (prepared w p)).2.2, snapinitial, off,
      if_neg Bool.false_ne_true]
  have cleared : (pmClampAngles w (clear p)).s = p.s := rfl
  rw [pmove, cleared, if_neg spectator]
  change (if (prepared w p).s.pmType = .freeze then _ else
    pmSnapPosition w (moveBox w (snapFirst w (pmCheckDuck w (prepared w p))))) = _
  rw [same, if_neg freeze, quiet]

/-- A player who is not stuck is not stuck after a call, in the box that the call has set. -/
theorem fits_pmove (monotone : BoxMonotone w) {p : Pmove} (loose : Loose w p)
    (off : p.snapinitial = false) :
    Fits w (position (pmove w p).s.origin) (pmove w p) ∧ (pmove w p).s.pmType = p.s.pmType := by
  obtain ⟨same, origin, previous, -⟩ := prepared_eq w p
  have free : Free w (prepared w p).origin
      (boxOf (prepared w p).s.pmType (prepared w p).s.pmFlags.ducked) := by
    rw [same, origin]
    exact loose.free
  obtain ⟨kept, type, -⟩ := kept_pmCheckDuck w (prepared w p)
  have held := held_moveBox w (pmCheckDuck w (prepared w p))
  obtain ⟨movedType, -, movedFrom⟩ := held_iff held
  have moved := (fits_pmCheckDuck w monotone free).of_held w held
  have player : (moveBox w (pmCheckDuck w (prepared w p))).s.pmType = p.s.pmType := by
    rw [movedType, type, same]
  have back : (moveBox w (pmCheckDuck w (prepared w p))).previousOrigin = p.s.origin := by
    rw [movedFrom, kept, previous]
  rw [origin, ← back] at moved
  rw [pmove_eq w loose.spectator loose.freeze off]
  constructor
  · apply fits_pmSnapPosition w _ moved
    rw [player]
    exact loose.spectator
  · rw [pmType_pmSnapPosition, player]

theorem fits_call (monotone : BoxMonotone w) {p : Pmove} (loose : Loose w p) (cmd : Usercmd) :
    Fits w (position (call w p cmd).s.origin) (call w p cmd) ∧
      (call w p cmd).s.pmType = p.s.pmType :=
  @fits_pmove w monotone { p with cmd, snapinitial := false }
    ⟨loose.spectator, loose.freeze, loose.free⟩ rfl

theorem loose_call (monotone : BoxMonotone w) {p : Pmove} (loose : Loose w p) (cmd : Usercmd) :
    Loose w (call w p cmd) := by
  obtain ⟨fits, type⟩ := fits_call w monotone loose cmd
  constructor
  · rw [type]
    exact loose.spectator
  · rw [type]
    exact loose.freeze
  · rw [← fits.box]
    exact fits.free

/-- A player who is not stuck does not become stuck, whatever he does. -/
theorem never_stuck (monotone : BoxMonotone w) {p : Pmove} (loose : Loose w p)
    (cmds : List Usercmd) :
    AllSteps (call w)
      (fun p cmd => Fits w (position (call w p cmd).s.origin) (call w p cmd)) p cmds :=
  @allSteps_invariant _ _ (call w) _ (Loose w) (fun _ cmd h => loose_call w monotone h cmd)
    (fun _ cmd h => (fits_call w monotone h cmd).1) p loose cmds

/-! ## A floor -/

/-- Everything below the height zero is solid. -/
def floorTrace (start mins _maxs stop : Vec3) : Trace :=
  let below (o : Vec3) : Bool := decide (o.z + mins.z < 0)
  let fraction : Rat :=
    if below start then 0
    else if below stop then (start.z + mins.z) / (start.z - stop.z)
    else 1
  { allsolid := below start && below stop
    startsolid := below start
    fraction
    endpos := vectorMA start fraction (vectorMA stop (-1) start)
    normal := ⟨0, 0, 1⟩
    surface := 0
    contents := if fraction < 1 then contentsSolid else 0
    ent := if fraction < 1 then some 0 else none }

/-- The square root in thousandths, and the angles near zero. -/
def floorWorld : World where
  trace := floorTrace
  pointcontents := fun point => if point.z < 0 then contentsSolid else 0
  sqrt := fun c => Nat.sqrt (c * 1000000).floor.toNat / 1000
  sin := fun angle => angle
  cos := fun _ => 1

theorem floorWorld_monotone : BoxMonotone floorWorld := by
  intro o inner outer inside free
  have lower := inside.1.2.2
  simp only [Free, floorWorld, floorTrace, Bool.and_self, decide_eq_false_iff_not, not_lt] at free ⊢
  linarith

private def onFloor : Pmove where
  s :=
    { pmType := .normal, origin := ⟨0, 0, 192⟩, velocity := ⟨0, 0, 0⟩, pmFlags := { onGround := true }
      pmTime := 0, gravity := 800, deltaAngles := ⟨0, 0, 0⟩ }
  cmd := {}

/-- A player on the floor ducks, walks and stands up. -/
theorem never_stuck_floor :
    AllSteps (call floorWorld)
      (fun p cmd =>
        Fits floorWorld (position (call floorWorld p cmd).s.origin) (call floorWorld p cmd))
      onFloor
      [{ msec := 50, upmove := -100 }, { msec := 50, upmove := -100, forwardmove := 100 },
        { msec := 50 }] := by
  have free : Free floorWorld (position onFloor.s.origin) (boxOf .normal false) := by
    simp only [Free, floorWorld, floorTrace, Bool.and_self, decide_eq_false_iff_not, not_lt,
      onFloor, position, boxOf]
    norm_num
  exact never_stuck floorWorld floorWorld_monotone ⟨by decide, by decide, free⟩ _

end PlayerBox
