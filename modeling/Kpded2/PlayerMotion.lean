import Kpded2.ClientMessage
import Kpded2.PlayerDelta

/-!
# The movement of a player

What `Pmove` of the Kingpin build does with the position and the velocity of a player after it
has set his box. Both are exact rationals here; `sqrt`, `sin` and `cos` are those of the world
that the player moves in, as are its two callbacks.

Whatever the player runs into, his box and the position he came from stay as they are
(`Pmove.held`).
-/
namespace PlayerMotion
open ClientMessage (Usercmd)
open DeltaEntity (Vec3)
open PlayerDelta (Shorts nullVec)

/-! ## Vectors -/

def vectorAdd (a b : Vec3) : Vec3 := ⟨a.x + b.x, a.y + b.y, a.z + b.z⟩

def vectorScale (v : Vec3) (scale : Rat) : Vec3 := ⟨v.x * scale, v.y * scale, v.z * scale⟩

def vectorMA (a : Vec3) (scale : Rat) (b : Vec3) : Vec3 :=
  ⟨a.x + scale * b.x, a.y + scale * b.y, a.z + scale * b.z⟩

def dotProduct (a b : Vec3) : Rat := a.x * b.x + a.y * b.y + a.z * b.z

def crossProduct (a b : Vec3) : Vec3 :=
  ⟨a.y * b.z - a.z * b.y, a.z * b.x - a.x * b.z, a.x * b.y - a.y * b.x⟩

/-! ## The state -/

/-- `trace_t`; of the surface the flags, of the plane its normal. -/
structure Trace where
  allsolid : Bool
  startsolid : Bool
  fraction : Rat
  endpos : Vec3
  normal : Vec3
  surface : BitVec 32
  contents : BitVec 32
  ent : Option Nat

/-- What `Pmove` calls. The arguments of `trace` are the start, the box and the end. -/
structure World where
  trace : Vec3 → Vec3 → Vec3 → Vec3 → Trace
  pointcontents : Vec3 → BitVec 32
  sqrt : Rat → Rat
  sin : Rat → Rat
  cos : Rat → Rat

inductive PmType where
  | normal
  | normalWithJetpack
  | hovercar
  | hovercarGround
  | bike
  | car
  | spectator
  | dead
  | gib
  | freeze
  deriving DecidableEq

/-- `pm_type >= PM_DEAD`. -/
def PmType.powerless : PmType → Bool
  | .dead | .gib | .freeze => true
  | _ => false

def PmType.vehicle : PmType → Bool
  | .hovercar | .hovercarGround | .bike => true
  | _ => false

/-- `pm_flags`, less the two that `Pmove` does not look at. -/
structure Flags where
  ducked : Bool := false
  jumpHeld : Bool := false
  onGround : Bool := false
  timeWaterjump : Bool := false
  timeLand : Bool := false
  timeTeleport : Bool := false
  deriving DecidableEq

def Flags.timesUp (f : Flags) : Flags :=
  { f with timeWaterjump := false, timeLand := false, timeTeleport := false }

structure PmoveState where
  pmType : PmType
  origin : Shorts
  velocity : Shorts
  pmFlags : Flags
  pmTime : Nat
  gravity : Int
  deltaAngles : Shorts
  deriving DecidableEq

/-- `pmove_t` and behind it the locals, `pml_t`. A command has its angles in the order pitch, yaw
and roll, as `viewangles` has. -/
structure Pmove where
  s : PmoveState
  cmd : Usercmd
  snapinitial : Bool := false
  touchents : List Nat := []
  viewangles : Vec3 := nullVec
  viewheight : Rat := 0
  mins : Vec3 := nullVec
  maxs : Vec3 := nullVec
  groundentity : Option Nat := none
  watertype : BitVec 32 := 0
  waterlevel : Nat := 0
  footsteptype : Nat := 0
  wallCollision : Bool := false
  origin : Vec3 := nullVec
  velocity : Vec3 := nullVec
  forward : Vec3 := nullVec
  right : Vec3 := nullVec
  frametime : Rat := 0
  groundsurface : Option (BitVec 32) := none
  groundcontents : BitVec 32 := 0
  previousOrigin : Shorts := ⟨0, 0, 0⟩
  ladder : Bool := false

/-- What the movement leaves alone. -/
structure Held where
  mins : Vec3
  maxs : Vec3
  previousOrigin : Shorts
  pmType : PmType
  ducked : Bool

def Pmove.held (p : Pmove) : Held :=
  ⟨p.mins, p.maxs, p.previousOrigin, p.s.pmType, p.s.pmFlags.ducked⟩

def Pmove.setOrigin (p : Pmove) (origin : Vec3) : Pmove := { p with origin }

def Pmove.setVelocity (p : Pmove) (velocity : Vec3) : Pmove := { p with velocity }

/-- `velocity[2]`. -/
def Pmove.setRise (p : Pmove) (z : Rat) : Pmove := p.setVelocity { p.velocity with z }

def Pmove.setGroundentity (p : Pmove) (groundentity : Option Nat) : Pmove :=
  { p with groundentity }

def Pmove.setFlags (p : Pmove) (pmFlags : Flags) : Pmove := { p with s := { p.s with pmFlags } }

def Pmove.setTime (p : Pmove) (pmTime : Nat) : Pmove := { p with s := { p.s with pmTime } }

def has (bits mask : BitVec 32) : Bool := bits &&& mask != 0

def contentsSolid : BitVec 32 := 0x1
def contentsLava : BitVec 32 := 0x8
def contentsSlime : BitVec 32 := 0x10
def contentsWater : BitVec 32 := 0x20
def contentsLadder : BitVec 32 := 0x20000000
def maskWater : BitVec 32 := contentsWater ||| contentsLava ||| contentsSlime
def maskCurrent : BitVec 32 := 0xfc0000

section
variable (w : World)

def vectorLength (v : Vec3) : Rat := w.sqrt (dotProduct v v)

/-- The length and the vector of length one; nothing is done to a null vector. -/
def vectorNormalize (v : Vec3) : Rat × Vec3 :=
  if dotProduct v v ≠ 0 then (vectorLength w v, vectorScale v (1 / vectorLength w v))
  else (0, v)

/-! ## Sliding -/

def pmClipVelocity (v normal : Vec3) (overbounce : Rat) : Vec3 :=
  let backoff := dotProduct v normal * overbounce
  let clip (v normal : Rat) : Rat :=
    let out := v - normal * backoff
    if -(1 / 10) < out ∧ out < 1 / 10 then 0 else out
  ⟨clip v.x normal.x, clip v.y normal.y, clip v.z normal.z⟩

def touch (trace : Trace) (p : Pmove) : Pmove :=
  match trace.ent with
  | some ent => if p.touchents.length < 32 then { p with touchents := p.touchents ++ [ent] } else p
  | none => p

/-- The loop over the planes: the velocity is clipped at one after the other, until it leads into
none of the rest. -/
def clipPlanes (planes : List Vec3) : List (Vec3 × Nat) → Vec3 → Bool × Vec3
  | [], v => (false, v)
  | (plane, i) :: rest, v =>
    let v := pmClipVelocity v plane (101 / 100)
    if planes.zipIdx.all fun other => other.2 == i || !decide (dotProduct v other.1 < 0) then (true, v)
    else clipPlanes planes rest v

/-- Along one plane, or else along the crease of two. -/
def slideAlong (planes : List Vec3) (v : Vec3) : Option Vec3 :=
  let (found, v) := clipPlanes planes planes.zipIdx v
  if found then some v
  else
    match planes with
    | [first, second] =>
      let dir := crossProduct first second
      some (vectorScale dir (dotProduct dir v))
    | _ => none

def maxClipPlanes : Nat := 5

/-- Actually covered some distance. -/
def cover (trace : Trace) (p : Pmove) : Pmove :=
  if trace.fraction > 0 then p.setOrigin trace.endpos else p

/-- The planes that a bump starts from. -/
def planesFrom (trace : Trace) (planes : List Vec3) : List Vec3 :=
  if trace.fraction > 0 then [] else planes

def noteWall (trace : Trace) (p : Pmove) : Pmove :=
  if |trace.normal.z| < 6 / 10 then { p with wallCollision := true } else p

/-- The loop over the bumps, and whether it has returned from `PM_StepSlideMove_`. -/
def bump (primalVelocity : Vec3) : Nat → List Vec3 → Rat → Pmove → Bool × Pmove
  | 0, _, _, p => (false, p)
  | bumps + 1, planes, timeLeft, p =>
    let trace := w.trace p.origin p.mins p.maxs (vectorMA p.origin timeLeft p.velocity)
    if trace.allsolid then (true, p.setRise 0)
    else
      let p := cover trace p
      let planes := planesFrom trace planes
      if trace.fraction = 1 then (false, p)
      else
        let p := touch trace p
        let timeLeft := timeLeft - timeLeft * trace.fraction
        if planes.length ≥ maxClipPlanes then (false, p.setVelocity nullVec)
        else
          let planes := planes ++ [trace.normal]
          let p := noteWall trace p
          match slideAlong planes p.velocity with
          | none => (false, p.setVelocity nullVec)
          | some v =>
            if dotProduct v primalVelocity ≤ 0 then (false, p.setVelocity nullVec)
            else bump primalVelocity bumps planes timeLeft (p.setVelocity v)

/-- Down to the ground that the player stands on. -/
def stayDown (p : Pmove) : Pmove :=
  if p.groundentity.isSome ∧ p.velocity.z ≤ 0 then
    let trace := w.trace p.origin p.mins p.maxs
      { p.origin with z := p.origin.z - p.frametime * 400 }
    if trace.fraction < 1 ∧ !trace.startsolid then p.setOrigin trace.endpos else p
  else p

/-- A bike or a car that has lost speed is thrown back from what is before it. -/
def bounce (primalVelocity : Vec3) (p : Pmove) : Pmove :=
  if p.s.pmType = .bike ∨ p.s.pmType = .car then
    let vl := vectorLength w primalVelocity
    if vl - vectorLength w p.velocity ≤ 10 then p
    else
      let trace := w.trace p.origin p.mins p.maxs (vectorAdd p.origin primalVelocity)
      if trace.fraction < 1 ∧ trace.normal.z > -(8 / 10) ∧ trace.normal.z < 5 / 10 then
        let v := vectorAdd (vectorNormalize w primalVelocity).2 trace.normal
        let v := vectorScale (vectorNormalize w v).2 vl
        let v := if trace.normal.z > -(3 / 10) then { v with z := v.z + 180 } else v
        (p.setVelocity v).setGroundentity none
      else p
  else p

def pmStepSlideMove_ (p : Pmove) : Pmove :=
  let primalVelocity := p.velocity
  let (returned, p) := bump w primalVelocity 4 [] p.frametime p
  if returned then p
  else
    let p := if p.s.pmTime ≠ 0 then p.setVelocity primalVelocity else p
    bounce w primalVelocity (stayDown w p)

def stepsize : Rat := 18

def minStepNormal : Rat := 7 / 10

/-- The push down of the final amount. -/
def pushDown (p : Pmove) : Trace × Pmove :=
  let trace := w.trace p.origin p.mins p.maxs { p.origin with z := p.origin.z - stepsize }
  (trace, if trace.allsolid then p else p.setOrigin trace.endpos)

def pmStepSlideMove (p : Pmove) : Pmove :=
  let start := p
  let low := pmStepSlideMove_ w p
  let up : Vec3 := { start.origin with z := start.origin.z + stepsize }
  if (w.trace up p.mins p.maxs up).allsolid then low
  else
    let high := pmStepSlideMove_ w ((low.setOrigin up).setVelocity start.velocity)
    let (trace, high) := pushDown w high
    let dist (o : Vec3) : Rat :=
      (o.x - start.origin.x) * (o.x - start.origin.x) +
        (o.y - start.origin.y) * (o.y - start.origin.y)
    if dist low.origin > dist high.origin ∨ trace.normal.z < minStepNormal then
      (high.setOrigin low.origin).setVelocity low.velocity
    else high.setRise low.velocity.z

/-! ## Friction and acceleration -/

def pmStopspeed : Rat := 100
def pmMaxspeed : Rat := 300
def pmDuckspeed : Rat := 100
def pmAccelerate_ : Rat := 10
def pmWateraccelerate : Rat := 10
def pmFriction_ : Rat := 6
def pmWaterfriction : Rat := 1
def pmWaterspeed : Rat := 400

def surfSlick : BitVec 32 := 0x2

/-- The speed that friction with the ground takes. -/
def groundDrop (p : Pmove) (speed : Rat) : Rat :=
  let rough := match p.groundsurface with
    | some surface => p.groundentity.isSome && !has surface surfSlick
    | none => false
  if rough || p.ladder then
    let friction :=
      if p.s.pmType.vehicle then
        pmFriction_ * (1 / 10) *
          (if p.s.pmType ≠ .bike ∧ vectorLength w p.velocity > 1000 then 3 / 10 else 1)
      else pmFriction_
    (if speed < pmStopspeed then pmStopspeed else speed) * friction * p.frametime
  else 0

def waterDrop (p : Pmove) (speed : Rat) : Rat :=
  if p.waterlevel ≥ 2 ∧ !p.ladder then speed * pmWaterfriction * p.waterlevel * p.frametime
  else if p.s.pmType = .normalWithJetpack then 2 * speed * pmWaterfriction * p.frametime
  else 0

def pmFriction (p : Pmove) : Pmove :=
  if p.s.pmType = .car then p
  else
    let speed := vectorLength w p.velocity
    if speed < 1 then p.setVelocity { p.velocity with x := 0, y := 0 }
    else
      let newspeed := speed - (groundDrop w p speed + waterDrop p speed)
      let newspeed := if newspeed < 0 then 0 else newspeed
      p.setVelocity (vectorScale p.velocity (newspeed / speed))

/-- The velocity with at most `wishspeed` in the direction that the player wishes. -/
def accelerated (velocity wishdir : Vec3) (wishspeed accelspeed : Rat) : Vec3 :=
  let addspeed := wishspeed - dotProduct velocity wishdir
  if addspeed ≤ 0 then velocity
  else vectorMA velocity (if accelspeed > addspeed then addspeed else accelspeed) wishdir

/-- The part behind `skipaccel`: a vehicle turns its velocity. -/
def steer (wishdir : Vec3) (p : Pmove) : Pmove :=
  let drives := (p.s.pmType = .hovercar ∨ p.s.pmType = .hovercarGround) ∧ p.cmd.forwardmove > 0
  if (drives ∨ p.s.pmType = .bike) ∧ vectorLength w p.velocity > 0 then
    let (len, v) := vectorNormalize w p.velocity
    let t := if p.s.pmType = .bike ∧ p.groundentity.isSome then 1 else 2 * p.frametime
    let dp := dotProduct p.forward v
    let turned : Option Vec3 :=
      if wishdir.x = 0 ∧ wishdir.y = 0 then some (vectorScale p.forward (if dp > 0 then t else -t))
      else if dp > 0 then
        some (vectorScale (if p.cmd.forwardmove < 0 then p.forward else wishdir) t)
      else none
    match turned with
    | some v2 =>
      p.setVelocity (vectorScale (vectorNormalize w (vectorMA v2 (1 - t) v)).2 len)
    | none => p
  else p

def pmAccelerate (wishdir : Vec3) (wishspeed accel : Rat) (p : Pmove) : Pmove :=
  if p.s.pmType = .car then p
  else
    let driven := p.s.pmType = .hovercar ∨ p.s.pmType = .hovercarGround ∨
      (p.s.pmType = .bike ∧ p.cmd.forwardmove ≥ 0)
    let wishspeed := if driven then wishspeed + wishspeed else wishspeed
    let accel :=
      if driven then
        accel * (vectorLength w p.velocity / (2 * pmMaxspeed) * (8 / 100) + 2 / 100) *
          (if p.s.pmType = .bike then 75 / 100 else 1)
      else accel
    let grips := (p.s.pmType ≠ .hovercarGround ∧ p.s.pmType ≠ .bike) ∨ p.groundentity.isSome
    let p :=
      if grips then
        p.setVelocity
          (accelerated p.velocity wishdir wishspeed (accel * p.frametime * wishspeed))
      else p
    steer w wishdir p

def pmAirAccelerate (wishdir : Vec3) (wishspeed accel : Rat) (p : Pmove) : Pmove :=
  let wishspd := if wishspeed > 30 then 30 else wishspeed
  p.setVelocity (accelerated p.velocity wishdir wishspd (accel * wishspeed * p.frametime))

/-- The way that the `CONTENTS_CURRENT` bits point. -/
def current (contents : BitVec 32) : Vec3 :=
  let one (mask : BitVec 32) : Rat := if has contents mask then 1 else 0
  ⟨one 0x40000 - one 0x100000, one 0x80000 - one 0x200000, one 0x400000 - one 0x800000⟩

def limit (bound c : Rat) : Rat := if c < -bound then -bound else if c > bound then bound else c

def pmAddCurrents (p : Pmove) (wishvel : Vec3) : Vec3 :=
  let wishvel : Vec3 :=
    if p.ladder ∧ |p.velocity.z| ≤ 200 then
      let climb : Rat :=
        if p.viewangles.x ≤ -15 ∧ p.cmd.forwardmove > 0 then 200
        else if p.viewangles.x ≥ 15 ∧ p.cmd.forwardmove > 0 then -200
        else if p.cmd.upmove > 0 then 200
        else if p.cmd.upmove < 0 then -200
        else 0
      ⟨limit 25 wishvel.x, limit 25 wishvel.y, climb⟩
    else wishvel
  let wishvel :=
    if has p.watertype maskCurrent then
      let s := if p.waterlevel = 1 ∧ p.groundentity.isSome then pmWaterspeed / 2 else pmWaterspeed
      vectorMA wishvel s (current p.watertype)
    else wishvel
  if p.groundentity.isSome then vectorMA wishvel 100 (current p.groundcontents) else wishvel

/-! ## Moving -/

/-- A speed of at most `maxspeed`. -/
def capped (wishspeed maxspeed : Rat) : Rat := if wishspeed > maxspeed then maxspeed else wishspeed

def pmWaterMove (p : Pmove) : Pmove :=
  let forwardmove := limit 400 p.cmd.forwardmove
  let sidemove := limit 400 p.cmd.sidemove
  let upmove := limit 400 p.cmd.upmove
  let wishvel := vectorMA (vectorScale p.forward forwardmove) sidemove p.right
  let wishvel :=
    if forwardmove = 0 ∧ sidemove = 0 ∧ upmove = 0 then { wishvel with z := wishvel.z - 60 }
    else { wishvel with z := wishvel.z + upmove }
  let (wishspeed, wishdir) := vectorNormalize w (pmAddCurrents p wishvel)
  pmStepSlideMove w
    (pmAccelerate w wishdir (capped wishspeed pmMaxspeed * (1 / 2)) pmWateraccelerate p)

/-- A player who climbs slows down when he does not wish to. -/
def climbing (p : Pmove) (wishvel : Vec3) : Vec3 :=
  let fall : Rat := p.s.gravity * p.frametime
  if wishvel.z = 0 then
    if p.velocity.z > 0 then
      let z := p.velocity.z - fall
      { p.velocity with z := if z < 0 then 0 else z }
    else
      let z := p.velocity.z + fall
      { p.velocity with z := if z > 0 then 0 else z }
  else p.velocity

def falling (p : Pmove) : Pmove :=
  p.setRise (p.velocity.z - p.s.gravity * p.frametime)

/-- A hovercar does not lean. -/
def straighten (p : Pmove) : Pmove :=
  if p.s.pmType = .hovercar then
    { p with
      forward := (vectorNormalize w p.forward).2
      right := (vectorNormalize w { p.right with z := 0 }).2 }
  else p

def airWish (p : Pmove) : Vec3 :=
  let bike := p.s.pmType = .bike
  let fmove : Rat :=
    if bike ∧ p.cmd.forwardmove < 0 then p.cmd.forwardmove * (1 / 10) else p.cmd.forwardmove
  let smove : Rat := if bike then 0 else p.cmd.sidemove
  let wishvel := vectorMA (vectorScale p.forward fmove) smove p.right
  { wishvel with z := if p.s.pmType = .hovercar then wishvel.z + p.cmd.upmove else 0 }

def airMaxspeed (p : Pmove) : Rat :=
  let maxspeed := if p.s.pmFlags.ducked then pmDuckspeed else pmMaxspeed
  if p.s.pmType.vehicle then maxspeed + maxspeed else maxspeed

def hover (wishvel wishdir : Vec3) (wishspeed accel : Rat) (p : Pmove) : Pmove :=
  let p := pmAccelerate w wishdir wishspeed accel p
  if wishvel.x ≠ 0 ∨ wishvel.y ≠ 0 ∨ wishvel.z = 0 then pmStepSlideMove w p else p

def climb (wishvel wishdir : Vec3) (wishspeed : Rat) (p : Pmove) : Pmove :=
  let p := pmAccelerate w wishdir wishspeed pmAccelerate_ p
  pmStepSlideMove w (p.setVelocity (climbing p wishvel))

def walk (wishdir : Vec3) (wishspeed : Rat) (p : Pmove) : Pmove :=
  let p := falling (pmAccelerate w wishdir wishspeed pmAccelerate_ (p.setRise 0))
  if p.s.pmType ≠ .hovercarGround ∧ p.s.pmType ≠ .bike ∧ p.velocity.x = 0 ∧ p.velocity.y = 0 then p
  else pmStepSlideMove w p

def pmAirMove (p : Pmove) : Pmove :=
  let p := straighten w p
  let wishvel := pmAddCurrents p (airWish p)
  let (wishspeed, wishdir) := vectorNormalize w wishvel
  let maxspeed := airMaxspeed p
  let wishvel :=
    if wishspeed > maxspeed then vectorScale wishvel (maxspeed / wishspeed) else wishvel
  let wishspeed := capped wishspeed maxspeed
  if p.s.pmType = .hovercar then hover w wishvel wishdir wishspeed 3 p
  else if p.s.pmType = .normalWithJetpack ∧ p.groundentity.isNone then
    hover w wishvel wishdir wishspeed (10 / 6) p
  else if p.ladder then climb w wishvel wishdir wishspeed p
  else if p.groundentity.isSome then walk w wishdir wishspeed p
  else pmStepSlideMove w (falling (pmAirAccelerate wishdir wishspeed pmAccelerate_ p))

/-! ## Where the player is -/

def footsteps (surface : BitVec 32) : Nat :=
  if has surface 0x100000 then 0
  else if has surface 0x200000 then 1
  else if has surface 0x400000 then 2
  else if has surface 0x800000 then 3
  else if has surface 0x1000000 then 4
  else if has surface 0x2000000 then 5
  else if has surface 0x4000000 then 6
  else if has surface 0x8000000 then 7
  else if has surface 0x80000 then 8
  else 0

/-- The player has just hit the ground. -/
def land (p : Pmove) : Pmove :=
  let flags := { p.s.pmFlags with onGround := true }
  if p.velocity.z < -200 then
    (p.setFlags { flags with timeLand := true }).setTime (if p.velocity.z < -400 then 25 else 18)
  else p.setFlags flags

def leaveGround (p : Pmove) : Pmove :=
  (p.setGroundentity none).setFlags { p.s.pmFlags with onGround := false }

/-- Hitting solid ground will end a waterjump. -/
def endWaterjump (p : Pmove) : Pmove :=
  if p.s.pmFlags.timeWaterjump then (p.setFlags p.s.pmFlags.timesUp).setTime 0 else p

def standOn (ent : Nat) (p : Pmove) : Pmove :=
  let p := endWaterjump (p.setGroundentity (some ent))
  if p.s.pmFlags.onGround then p else land p

def noteGround (trace : Trace) (p : Pmove) : Pmove :=
  { p with
    groundsurface := some trace.surface
    groundcontents := trace.contents
    footsteptype := footsteps trace.surface }

def meetGround (trace : Trace) (p : Pmove) : Pmove :=
  match trace.ent with
  | none => leaveGround p
  | some ent =>
    if trace.normal.z < 7 / 10 ∧ !trace.startsolid then leaveGround p else standOn ent p

/-- From this speed on a player is not on the ground. -/
def risingSpeed : PmType → Rat
  | .hovercarGround | .bike => 360
  | _ => 180

/-- The first half of `PM_CatagorizePosition`. -/
def findGround (p : Pmove) : Pmove :=
  if p.velocity.z > risingSpeed p.s.pmType then leaveGround p
  else
    let trace := w.trace p.origin p.mins p.maxs { p.origin with z := p.origin.z - 1 / 4 }
    touch trace (meetGround trace (noteGround trace p))

/-- The second half; a player is under water with his feet, his weapon or his eyes. -/
def findWater (p : Pmove) : Pmove :=
  let sample2 := p.viewheight - p.mins.z
  let sample1 := sample2 * (6 / 10)
  let contents (sample : Rat) := w.pointcontents { p.origin with z := p.origin.z + p.mins.z + sample }
  let (level, type) :=
    if has (contents 1) maskWater then
      if has (contents sample1) maskWater then
        if has (contents sample2) maskWater then (3, contents 1) else (2, contents 1)
      else (1, contents 1)
    else (0, 0)
  { p with
    waterlevel := level
    watertype := type
    footsteptype := if level = 1 then 8 else p.footsteptype }

def pmCatagorizePosition (p : Pmove) : Pmove := findWater w (findGround w p)

def jetpack (p : Pmove) : Pmove :=
  if p.cmd.upmove = 0 then p
  else
    let z :=
      if p.cmd.upmove > 0 then
        let z := p.velocity.z + 3 * p.cmd.upmove * p.frametime
        if z > 500 then 500 else z
      else if p.velocity.z < 300 then -300 else p.velocity.z
    (p.setRise z).setGroundentity none

def swim (p : Pmove) : Pmove :=
  if p.velocity.z ≤ -300 then p
  else if p.watertype = contentsWater then p.setRise 100
  else if p.watertype = contentsSlime then p.setRise 80
  else p.setRise 50

def jump (p : Pmove) : Pmove :=
  let z := p.velocity.z + 270
  ((p.setFlags { p.s.pmFlags with jumpHeld := true }).setGroundentity none).setRise
    (if z < 270 then 270 else z)

def pmCheckJump (p : Pmove) : Pmove :=
  if p.s.pmType = .normalWithJetpack then jetpack p
  else if p.s.pmType = .bike then p
  else if p.s.pmFlags.timeLand then p
  else if p.cmd.upmove < 10 then p.setFlags { p.s.pmFlags with jumpHeld := false }
  else if p.s.pmFlags.jumpHeld then p
  else if p.s.pmType = .dead then p
  else if p.waterlevel ≥ 2 then swim (p.setGroundentity none)
  else if p.s.pmType = .hovercar ∨ p.s.pmType = .hovercarGround then p
  else if p.groundentity.isNone then p
  else jump p

/-- A player before a bank jumps out of the water. -/
def checkWaterjump (flatforward : Vec3) (p : Pmove) : Pmove :=
  let spot := vectorMA p.origin 30 flatforward
  if p.waterlevel = 2 ∧ has (w.pointcontents { spot with z := spot.z + 10 }) contentsSolid ∧
      w.pointcontents { spot with z := spot.z + 32 } = 0 then
    ((p.setVelocity { vectorScale flatforward 50 with z := 350 }).setFlags
      { p.s.pmFlags with timeWaterjump := true }).setTime 255
  else p

def pmCheckSpecialMovement (p : Pmove) : Pmove :=
  if p.s.pmType.powerless then p
  else if p.s.pmTime ≠ 0 then p
  else
    let flatforward := (vectorNormalize w { p.forward with z := 0 }).2
    let trace := w.trace p.origin p.mins p.maxs (vectorMA p.origin 1 flatforward)
    checkWaterjump w flatforward
      { p with ladder := decide (trace.fraction < 1) && has trace.contents contentsLadder }

def pmDeadMove (p : Pmove) : Pmove :=
  if p.groundentity.isNone then p
  else
    let forward := vectorLength w p.velocity - 20
    p.setVelocity
      (if forward ≤ 0 then nullVec else vectorScale (vectorNormalize w p.velocity).2 forward)

/-! ## Angles and the spectator -/

/-- `M_PI2_DIV_360`. -/
def pi2Div360 : Rat := 1745329251994329576922 / 100000000000000000000000

def short2Angle (x : Int) : Rat := x * (360 / 65536)

/-- Forward and right. -/
def angleVectors (angles : Vec3) : Vec3 × Vec3 :=
  let sp := w.sin (angles.x * pi2Div360)
  let cp := w.cos (angles.x * pi2Div360)
  let sy := w.sin (angles.y * pi2Div360)
  let cy := w.cos (angles.y * pi2Div360)
  let sr := w.sin (angles.z * pi2Div360)
  let cr := w.cos (angles.z * pi2Div360)
  (⟨cp * cy, cp * sy, -sp⟩,
    ⟨-1 * sr * sp * cy + -1 * cr * -sy, -1 * sr * sp * sy + -1 * cr * cy, -1 * sr * cp⟩)

def int16 (c : Int) : Int := c.bmod (2 ^ 16)

/-- The player cannot look up or down more than 90 degrees. -/
def clampPitch (pitch : Rat) : Rat :=
  if pitch > 89 ∧ pitch < 180 then 89 else if pitch < 271 ∧ pitch ≥ 180 then 271 else pitch

def pmClampAngles (p : Pmove) : Pmove :=
  let viewangles : Vec3 :=
    if p.s.pmFlags.timeTeleport then ⟨0, short2Angle (p.cmd.angle2 + p.s.deltaAngles.y), 0⟩
    else
      ⟨clampPitch (short2Angle (int16 (p.cmd.angle1 + p.s.deltaAngles.x))),
        short2Angle (int16 (p.cmd.angle2 + p.s.deltaAngles.y)),
        short2Angle (int16 (p.cmd.angle3 + p.s.deltaAngles.z))⟩
  { p with
    viewangles
    forward := (angleVectors w viewangles).1
    right := (angleVectors w viewangles).2 }

/-- The extra friction of a spectator. -/
def flyFriction (p : Pmove) : Vec3 :=
  let speed := vectorLength w p.velocity
  if speed < 1 then nullVec
  else
    let control := if speed < pmStopspeed then pmStopspeed else speed
    let newspeed := speed - control * (pmFriction_ * (3 / 2)) * p.frametime
    vectorScale p.velocity ((if newspeed < 0 then 0 else newspeed) / speed)

def pmFlyMove (p : Pmove) : Pmove :=
  let spectator := p.s.pmType = .spectator
  let forward := (vectorNormalize w p.forward).2
  let right := (vectorNormalize w p.right).2
  let fmove : Rat := if spectator then p.cmd.forwardmove * 3 else p.cmd.forwardmove
  let maxspeed := if spectator then pmMaxspeed * 3 else pmMaxspeed
  let wish := vectorMA (vectorScale forward fmove) p.cmd.sidemove right
  let (wishspeed, wishdir) := vectorNormalize w { wish with z := wish.z + p.cmd.upmove }
  let wishspeed := capped wishspeed maxspeed
  let velocity := flyFriction w p
  let p := { p with viewheight := 36, velocity, forward, right }
  if wishspeed - dotProduct velocity wishdir ≤ 0 then p
  else
    let velocity :=
      accelerated velocity wishdir wishspeed (pmAccelerate_ * p.frametime * wishspeed)
    { p with velocity, origin := vectorMA p.origin p.frametime velocity }

/-! ## What every movement leaves alone -/

@[simp] theorem held_setOrigin (p : Pmove) (o : Vec3) : (p.setOrigin o).held = p.held := rfl
@[simp] theorem held_setVelocity (p : Pmove) (v : Vec3) : (p.setVelocity v).held = p.held := rfl
@[simp] theorem held_setRise (p : Pmove) (z : Rat) : (p.setRise z).held = p.held := rfl
@[simp] theorem held_setTime (p : Pmove) (t : Nat) : (p.setTime t).held = p.held := rfl

@[simp] theorem held_setGroundentity (p : Pmove) (ent : Option Nat) :
    (p.setGroundentity ent).held = p.held := rfl

theorem held_setFlags (p : Pmove) {f : Flags} (same : f.ducked = p.s.pmFlags.ducked) :
    (p.setFlags f).held = p.held := by
  simp only [Pmove.held, Pmove.setFlags, same]

@[simp] theorem held_touch (trace : Trace) (p : Pmove) : (touch trace p).held = p.held := by
  unfold touch
  split
  · split <;> rfl
  · rfl

@[simp] theorem held_cover (trace : Trace) (p : Pmove) : (cover trace p).held = p.held := by
  unfold cover
  split <;> rfl

@[simp] theorem held_noteWall (trace : Trace) (p : Pmove) : (noteWall trace p).held = p.held := by
  unfold noteWall
  split <;> rfl

theorem held_bump (primalVelocity : Vec3) (bumps : Nat) (planes : List Vec3) (timeLeft : Rat)
    (p : Pmove) : (bump w primalVelocity bumps planes timeLeft p).2.held = p.held := by
  induction bumps generalizing planes timeLeft p with
  | zero => rfl
  | succ bumps ih =>
    unfold bump
    simp only
    split
    · rfl
    · split
      · simp
      · split
        · simp
        · split
          · simp
          · split
            · simp
            · simp [ih]

@[simp] theorem held_stayDown (p : Pmove) : (stayDown w p).held = p.held := by
  unfold stayDown
  split
  · simp only
    split <;> rfl
  · rfl

@[simp] theorem held_bounce (primalVelocity : Vec3) (p : Pmove) :
    (bounce w primalVelocity p).held = p.held := by
  unfold bounce
  split
  · simp only
    split
    · rfl
    · split <;> rfl
  · rfl

@[simp] theorem held_pmStepSlideMove_ (p : Pmove) : (pmStepSlideMove_ w p).held = p.held := by
  have bumped := held_bump w p.velocity 4 [] p.frametime p
  unfold pmStepSlideMove_
  simp only
  split
  · exact bumped
  · rw [held_bounce, held_stayDown]
    split
    · exact bumped
    · exact bumped

@[simp] theorem held_pushDown (p : Pmove) : (pushDown w p).2.held = p.held := by
  unfold pushDown
  simp only
  split <;> rfl

@[simp] theorem held_pmStepSlideMove (p : Pmove) : (pmStepSlideMove w p).held = p.held := by
  unfold pmStepSlideMove
  simp only
  split
  · simp
  · split
    · simp
    · simp

@[simp] theorem held_pmFriction (p : Pmove) : (pmFriction w p).held = p.held := by
  unfold pmFriction
  split
  · rfl
  · simp only
    split <;> rfl

@[simp] theorem held_steer (wishdir : Vec3) (p : Pmove) : (steer w wishdir p).held = p.held := by
  unfold steer
  simp only
  split
  · split <;> rfl
  · rfl

@[simp] theorem held_pmAccelerate (wishdir : Vec3) (wishspeed accel : Rat) (p : Pmove) :
    (pmAccelerate w wishdir wishspeed accel p).held = p.held := by
  unfold pmAccelerate
  split
  · rfl
  · rw [held_steer]
    split <;> rfl

@[simp] theorem held_pmWaterMove (p : Pmove) : (pmWaterMove w p).held = p.held := by
  simp [pmWaterMove]

@[simp] theorem held_falling (p : Pmove) : (falling p).held = p.held := rfl

@[simp] theorem held_pmAirAccelerate (wishdir : Vec3) (wishspeed accel : Rat) (p : Pmove) :
    (pmAirAccelerate wishdir wishspeed accel p).held = p.held := rfl

@[simp] theorem held_straighten (p : Pmove) : (straighten w p).held = p.held := by
  unfold straighten
  split <;> rfl

@[simp] theorem held_hover (wishvel wishdir : Vec3) (wishspeed accel : Rat) (p : Pmove) :
    (hover w wishvel wishdir wishspeed accel p).held = p.held := by
  unfold hover
  simp only
  split
  · simp
  · simp

@[simp] theorem held_climb (wishvel wishdir : Vec3) (wishspeed : Rat) (p : Pmove) :
    (climb w wishvel wishdir wishspeed p).held = p.held := by
  simp [climb]

@[simp] theorem held_walk (wishdir : Vec3) (wishspeed : Rat) (p : Pmove) :
    (walk w wishdir wishspeed p).held = p.held := by
  unfold walk
  simp only
  split
  · simp
  · simp

@[simp] theorem held_pmAirMove (p : Pmove) : (pmAirMove w p).held = p.held := by
  unfold pmAirMove
  simp only
  split
  · simp
  · split
    · simp
    · split
      · simp
      · split
        · simp
        · simp

@[simp] theorem held_land (p : Pmove) : (land p).held = p.held := by
  unfold land
  simp only
  split
  · rw [held_setTime]
    exact held_setFlags p rfl
  · exact held_setFlags p rfl

@[simp] theorem held_leaveGround (p : Pmove) : (leaveGround p).held = p.held :=
  held_setFlags (p.setGroundentity none) rfl

@[simp] theorem held_endWaterjump (p : Pmove) : (endWaterjump p).held = p.held := by
  unfold endWaterjump
  split
  · rw [held_setTime]
    exact held_setFlags p rfl
  · rfl

@[simp] theorem held_standOn (ent : Nat) (p : Pmove) : (standOn ent p).held = p.held := by
  unfold standOn
  simp only
  split
  · simp
  · simp

@[simp] theorem held_noteGround (trace : Trace) (p : Pmove) :
    (noteGround trace p).held = p.held := rfl

@[simp] theorem held_meetGround (trace : Trace) (p : Pmove) :
    (meetGround trace p).held = p.held := by
  unfold meetGround
  split
  · simp
  · split
    · simp
    · simp

@[simp] theorem held_findGround (p : Pmove) : (findGround w p).held = p.held := by
  unfold findGround
  split
  · simp
  · simp

@[simp] theorem held_findWater (p : Pmove) : (findWater w p).held = p.held := rfl

@[simp] theorem held_pmCatagorizePosition (p : Pmove) :
    (pmCatagorizePosition w p).held = p.held := by
  simp [pmCatagorizePosition]

@[simp] theorem held_jetpack (p : Pmove) : (jetpack p).held = p.held := by
  unfold jetpack
  split <;> rfl

@[simp] theorem held_swim (p : Pmove) : (swim p).held = p.held := by
  unfold swim
  split
  · rfl
  · split
    · rfl
    · split <;> rfl

@[simp] theorem held_jump (p : Pmove) : (jump p).held = p.held :=
  held_setFlags p rfl

@[simp] theorem held_pmCheckJump (p : Pmove) : (pmCheckJump p).held = p.held := by
  unfold pmCheckJump
  split_ifs
  · simp
  · rfl
  · rfl
  · exact held_setFlags p rfl
  · rfl
  · rfl
  · simp
  · rfl
  · rfl
  · simp

@[simp] theorem held_checkWaterjump (flatforward : Vec3) (p : Pmove) :
    (checkWaterjump w flatforward p).held = p.held := by
  unfold checkWaterjump
  simp only
  split
  · rw [held_setTime]
    exact held_setFlags (p.setVelocity _) rfl
  · rfl

@[simp] theorem held_pmCheckSpecialMovement (p : Pmove) :
    (pmCheckSpecialMovement w p).held = p.held := by
  unfold pmCheckSpecialMovement
  split
  · rfl
  · split
    · rfl
    · exact held_checkWaterjump _ _ _

@[simp] theorem held_pmDeadMove (p : Pmove) : (pmDeadMove w p).held = p.held := by
  unfold pmDeadMove
  split <;> rfl

@[simp] theorem held_pmClampAngles (p : Pmove) : (pmClampAngles w p).held = p.held := rfl

end

end PlayerMotion
