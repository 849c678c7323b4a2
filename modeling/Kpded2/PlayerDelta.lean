import Kpded2.DeltaCoding

/-!
# `SV_WritePlayerstateToClient`

The player state in a frame, in both builds and for both protocols. The first half of the
function chooses the flags of two words, the second writes the groups of fields under
them. A client with the enhanced protocol gets the second word with the frame; any other
derives it from the first.

A `Group` is what stands under one flag. The decoder reads the groups in the writer's
order, over the values that it holds of the old state.
-/
namespace PlayerDelta
open ByteReader DeltaCoding DeltaEntity PacketParse Protocol

structure Shorts where
  x : Int
  y : Int
  z : Int
  deriving DecidableEq

structure Color where
  r : Rat
  g : Rat
  b : Rat
  a : Rat
  deriving DecidableEq

abbrev maxStats : Nat := 32

/-- `pmove_state_t`, less what is never sent. -/
structure PmoveState where
  pmType : Int
  origin : Shorts
  velocity : Shorts
  pmFlags : Int
  pmTime : Int
  gravity : Int
  deltaAngles : Shorts
  deriving DecidableEq

/-- `player_state_t`, less what is never sent; `modelParts` is a member in the Kingpin
build only. -/
structure PlayerState where
  pmove : PmoveState
  viewangles : Vec3
  viewoffset : Vec3
  kickAngles : Vec3
  gunangles : Vec3
  gunoffset : Vec3
  gunindex : Int
  gunframe : Int
  blend : Color
  fov : Rat
  rdflags : Int
  stats : Vector Int maxStats
  modelParts : Vector ModelPart maxModelParts

def nullVec : Vec3 := ⟨0, 0, 0⟩
def nullShorts : Shorts := ⟨0, 0, 0⟩

def nullPart : ModelPart where
  modelindex := 0
  invisibleObjects := 0
  skinnum := Vector.replicate 8 0
  serverData := []

def nullPlayerstate : PlayerState where
  pmove := ⟨0, nullShorts, nullShorts, 0, 0, 0, nullShorts⟩
  viewangles := nullVec
  viewoffset := nullVec
  kickAngles := nullVec
  gunangles := nullVec
  gunoffset := nullVec
  gunindex := 0
  gunframe := 0
  blend := ⟨0, 0, 0, 0⟩
  fov := 0
  rdflags := 0
  stats := Vector.replicate maxStats 0
  modelParts := Vector.replicate maxModelParts nullPart

/-- The members of `client_t` that the function reads, and `sv_optimize_deltas`. -/
structure Client where
  protocol : Nat
  noblend : Bool
  nogun : Bool
  recording : Bool
  demofile : Bool
  svOptimizeDeltas : Int

def enhanced (build : Build) (client : Client) : Bool :=
  build == .quake2 && client.protocol == protocolR1Q2

def rangeCap (minv maxv x : Rat) : Rat := if x > maxv then maxv else if x < minv then minv else x

def vecRangeCap (v : Vec3) : Vec3 :=
  ⟨rangeCap (-32) (127 / 4) v.x, rangeCap (-32) (127 / 4) v.y, rangeCap (-32) (127 / 4) v.z⟩

def blendCap (x : Rat) : Rat := if x > 1 then 1 else x

/-- The range checks at the top of the function. -/
def capped (build : Build) (ps : PlayerState) : PlayerState :=
  { ps with
    viewoffset := match build with
      | .kingpin => ps.viewoffset
      | .quake2 => vecRangeCap ps.viewoffset
    kickAngles := vecRangeCap ps.kickAngles
    gunoffset := vecRangeCap ps.gunoffset
    gunangles := vecRangeCap ps.gunangles
    blend := ⟨blendCap ps.blend.r, blendCap ps.blend.g, blendCap ps.blend.b, blendCap ps.blend.a⟩ }

/-- `ANGLE2SHORT`; the constant is the float nearest to `65536 / 360`. -/
def angle2short (x : Rat) : Int := trunc (x * (11930465 / 65536)) % 65536

def vecByteCompare (v1 v2 : Vec3) : Bool :=
  trunc (v1.x * 4) == trunc (v2.x * 4) && trunc (v1.y * 4) == trunc (v2.y * 4) &&
    trunc (v1.z * 4) == trunc (v2.z * 4)

def blendBytes (c : Color) : List Int :=
  [trunc (c.r * 255), trunc (c.g * 255), trunc (c.b * 255), trunc (c.a * 255)]

/-! ## The flags -/

structure PFlags where
  mType : Bool
  mOrigin : Bool
  mVelocity : Bool
  mTime : Bool
  mFlags : Bool
  mGravity : Bool
  mDeltaAngles : Bool
  viewoffset : Bool
  viewangles : Bool
  kickangles : Bool
  blend : Bool
  fov : Bool
  weaponindex : Bool
  weaponframe : Bool
  rdflags : Bool
  deriving DecidableEq

structure EFlags where
  gunoffset : Bool
  gunangles : Bool
  pmoveVelocity2 : Bool
  pmoveOrigin2 : Bool
  viewangle2 : Bool
  stats : Bool
  deriving DecidableEq

/-- The order of the bits of `pflags`; bit 7 is free in the Kingpin build. -/
def PFlags.bits (build : Build) (p : PFlags) : List Bool :=
  [p.mType, p.mOrigin, p.mVelocity, p.mTime, p.mFlags, p.mGravity, p.mDeltaAngles] ++
    (match build with
      | .kingpin => [false]
      | .quake2 => []) ++
    [p.viewoffset, p.viewangles, p.kickangles, p.blend, p.fov, p.weaponindex, p.weaponframe,
      p.rdflags] ++
    match build with
      | .kingpin => []
      | .quake2 => [false]

/-- The word whose bits, from the lowest, are these. -/
def wordOf : List Bool → Nat
  | [] => 0
  | b :: bs => b.toNat + 2 * wordOf bs

def pmDead : Int := 2

/-- In the Kingpin build the view angles are always compared. -/
def needViewAngleDeltas (build : Build) (client : Client) (ps : PlayerState) : Bool :=
  match build with
  | .kingpin => true
  | .quake2 => client.recording || client.demofile ||
      (client.svOptimizeDeltas == 1 && client.protocol != protocolR1Q2) ||
      pmDead ≤ ps.pmove.pmType || client.svOptimizeDeltas == 0

/-- Whether the gun, or the blend, is kept from the client by a setting of its own. -/
def suppressed (build : Build) (client : Client) (setting : Bool) : Bool :=
  match build with
  | .kingpin => false
  | .quake2 => setting && !client.recording && !client.demofile

/-- The new state as the function leaves it. -/
def prepared (build : Build) (client : Client) (old new : PlayerState) : PlayerState :=
  if needViewAngleDeltas build client new then capped build new
  else { capped build new with viewangles := old.viewangles }

def statbits (old new : PlayerState) : Fin maxStats → Bool := fun i => new.stats[i] != old.stats[i]

/-- The first half of the function, over the prepared state. -/
def flags (build : Build) (client : Client) (old ps : PlayerState) : PFlags × EFlags :=
  let enhanced := enhanced build client
  let origin := ps.pmove.origin.x != old.pmove.origin.x || ps.pmove.origin.y != old.pmove.origin.y
  let origin2 := ps.pmove.origin.z != old.pmove.origin.z
  let velocity :=
    ps.pmove.velocity.x != old.pmove.velocity.x || ps.pmove.velocity.y != old.pmove.velocity.y
  let velocity2 := ps.pmove.velocity.z != old.pmove.velocity.z
  let need := needViewAngleDeltas build client ps
  let angles := need &&
    (ps.viewangles.x != old.viewangles.x || ps.viewangles.y != old.viewangles.y) &&
    (angle2short ps.viewangles.x != angle2short old.viewangles.x ||
      angle2short ps.viewangles.y != angle2short old.viewangles.y)
  let angle2 := need && !(angles && !enhanced) && ps.viewangles.z != old.viewangles.z &&
    angle2short ps.viewangles.z != angle2short old.viewangles.z
  let gun := !suppressed build client client.nogun
  let frame := ps.gunframe != old.gunframe && gun
  ({  mType := ps.pmove.pmType != old.pmove.pmType
      mOrigin := origin || origin2 && !enhanced
      mVelocity := velocity || velocity2 && !enhanced
      mTime := ps.pmove.pmTime != old.pmove.pmTime
      mFlags := ps.pmove.pmFlags != old.pmove.pmFlags
      mGravity := ps.pmove.gravity != old.pmove.gravity
      mDeltaAngles := ps.pmove.deltaAngles != old.pmove.deltaAngles
      viewoffset := ps.viewoffset != old.viewoffset && match build with
        | .kingpin => true
        | .quake2 => !vecByteCompare ps.viewoffset old.viewoffset
      viewangles := angles || angle2 && !enhanced
      kickangles :=
        ps.kickAngles != old.kickAngles && !vecByteCompare ps.kickAngles old.kickAngles
      blend := ps.blend != old.blend && !suppressed build client client.noblend &&
        blendBytes ps.blend != blendBytes old.blend
      fov := trunc ps.fov != trunc old.fov
      weaponindex := match build with
        | .kingpin => ps.gunindex != old.gunindex || ps.modelParts != old.modelParts
        | .quake2 => ps.gunindex != old.gunindex && gun
      weaponframe := frame
      rdflags := ps.rdflags != old.rdflags },
    { gunoffset := frame && (!enhanced ||
        ps.gunoffset != old.gunoffset && !vecByteCompare ps.gunoffset old.gunoffset)
      gunangles := frame && (!enhanced ||
        ps.gunangles != old.gunangles && !vecByteCompare ps.gunangles old.gunangles)
      pmoveVelocity2 := velocity2 || velocity && !enhanced
      pmoveOrigin2 := origin2 || origin && !enhanced
      viewangle2 := angle2 || angles && !enhanced
      stats := !enhanced || Nat.ofBits (statbits old ps) != 0 })

/-! ## The groups -/

/-- The groups whose fields have sizes of their own. -/
inductive Plain where
  | mType
  | mOrigin
  | pmoveOrigin2
  | mVelocity
  | pmoveVelocity2
  | mTime
  | mFlags
  | mGravity
  | mDeltaAngles
  | viewoffset
  | viewangles
  | viewangle2
  | kickangles
  | weaponframe
  | gunoffset
  | gunangles
  | blend
  | fov
  | rdflags
  deriving DecidableEq

inductive Group where
  | plain (p : Plain)
  | weaponindex
  | stats
  deriving DecidableEq

def order : List Group :=
  [.plain .mType, .plain .mOrigin, .plain .pmoveOrigin2, .plain .mVelocity,
    .plain .pmoveVelocity2, .plain .mTime, .plain .mFlags, .plain .mGravity,
    .plain .mDeltaAngles, .plain .viewoffset, .plain .viewangles, .plain .viewangle2,
    .plain .kickangles, .weaponindex, .plain .weaponframe, .plain .gunoffset,
    .plain .gunangles, .plain .blend, .plain .fov, .plain .rdflags, .stats]

def sent (f : PFlags × EFlags) : Group → Bool
  | .plain .mType => f.1.mType
  | .plain .mOrigin => f.1.mOrigin
  | .plain .pmoveOrigin2 => f.2.pmoveOrigin2
  | .plain .mVelocity => f.1.mVelocity
  | .plain .pmoveVelocity2 => f.2.pmoveVelocity2
  | .plain .mTime => f.1.mTime
  | .plain .mFlags => f.1.mFlags
  | .plain .mGravity => f.1.mGravity
  | .plain .mDeltaAngles => f.1.mDeltaAngles
  | .plain .viewoffset => f.1.viewoffset
  | .plain .viewangles => f.1.viewangles
  | .plain .viewangle2 => f.2.viewangle2
  | .plain .kickangles => f.1.kickangles
  | .weaponindex => f.1.weaponindex
  | .plain .weaponframe => f.1.weaponframe
  | .plain .gunoffset => f.2.gunoffset
  | .plain .gunangles => f.2.gunangles
  | .plain .blend => f.1.blend
  | .plain .fov => f.1.fov
  | .plain .rdflags => f.1.rdflags
  | .stats => f.2.stats

def shorts (s : Shorts) : List Written := [.short s.x, .short s.y, .short s.z]

/-- Three `MSG_WriteChar`s. -/
def chars (v : Vec3) : List Written :=
  [.byte (trunc (v.x * 4)), .byte (trunc (v.y * 4)), .byte (trunc (v.z * 4))]

def msgWriteAngle16 (f : Rat) : Written := .short (angle2short f)

def plainFields (build : Build) (ps : PlayerState) : Plain → List Written
  | .mType => [.byte ps.pmove.pmType]
  | .mOrigin => [.short ps.pmove.origin.x, .short ps.pmove.origin.y]
  | .pmoveOrigin2 => [.short ps.pmove.origin.z]
  | .mVelocity => [.short ps.pmove.velocity.x, .short ps.pmove.velocity.y]
  | .pmoveVelocity2 => [.short ps.pmove.velocity.z]
  | .mTime => [.byte ps.pmove.pmTime]
  | .mFlags => [.byte ps.pmove.pmFlags]
  | .mGravity => [.short ps.pmove.gravity]
  | .mDeltaAngles => shorts ps.pmove.deltaAngles
  | .viewoffset => match build with
    | .kingpin => [.byte (trunc (ps.viewoffset.x * 4)), .byte (trunc (ps.viewoffset.y * 4)),
        msgWriteAngle16 ps.viewoffset.z]
    | .quake2 => chars ps.viewoffset
  | .viewangles => [msgWriteAngle16 ps.viewangles.x, msgWriteAngle16 ps.viewangles.y]
  | .viewangle2 => [msgWriteAngle16 ps.viewangles.z]
  | .kickangles => chars ps.kickAngles
  | .weaponframe => [.byte ps.gunframe]
  | .gunoffset => chars ps.gunoffset
  | .gunangles => chars ps.gunangles
  | .blend => (blendBytes ps.blend).map .byte
  | .fov => [.byte (trunc ps.fov)]
  | .rdflags => [.byte ps.rdflags]

def statsWritten (old ps : PlayerState) : List Written :=
  .long (Nat.ofBits (statbits old ps)) ::
    ((List.finRange maxStats).filter (statbits old ps)).map fun i => .short ps.stats[i]

def groupFields (build : Build) (old ps : PlayerState) : Group → List Written
  | .plain p => plainFields build ps p
  | .weaponindex => .byte ps.gunindex :: match build with
    | .kingpin => modelPartsWritten old.modelParts ps.modelParts
    | .quake2 => []
  | .stats => statsWritten old ps

def svcPlayerinfo : Build → Int
  | .kingpin => 19
  | .quake2 => 17

/-- What one call leaves: the state, the two words and what it has written. -/
structure Result where
  ps : PlayerState
  flags : PFlags × EFlags
  fields : List Written

def svWritePlayerstateToClient (build : Build) (client : Client) (old : Option PlayerState)
    (new : PlayerState) : Result :=
  let ops := old.getD nullPlayerstate
  let ps := prepared build client ops new
  let f := flags build client ops ps
  { ps, flags := f
    fields := (if enhanced build client then [] else [.byte (svcPlayerinfo build)]) ++
      .short (wordOf (f.1.bits build)) ::
        order.flatMap fun g => if sent f g then groupFields build ops ps g else [] }

/-! ## What the wire carries -/

/-- The values of a group, as a reader of the right sizes gets them. -/
def Value : Group → Type
  | .plain _ => List Nat
  | .weaponindex => UInt8 × Vector PartView maxModelParts
  | .stats => Vector Nat maxStats

abbrev View := (g : Group) → Value g

def wireStat (c : Int) : Nat := (Written.short c).value

/-- The wire-quantised values of a state. -/
def wire (build : Build) (ps : PlayerState) : View
  | .plain p => (plainFields build ps p).map Written.value
  | .weaponindex => (wireByte ps.gunindex, match build with
    | .kingpin => partViews ps.modelParts
    | .quake2 => partViews nullPlayerstate.modelParts)
  | .stats => ps.stats.map wireStat

/-! ## The decoder -/

def layout (build : Build) : Plain → List Size
  | .mType => [.byte]
  | .mOrigin => [.short, .short]
  | .pmoveOrigin2 => [.short]
  | .mVelocity => [.short, .short]
  | .pmoveVelocity2 => [.short]
  | .mTime => [.byte]
  | .mFlags => [.byte]
  | .mGravity => [.short]
  | .mDeltaAngles => [.short, .short, .short]
  | .viewoffset => match build with
    | .kingpin => [.byte, .byte, .short]
    | .quake2 => [.byte, .byte, .byte]
  | .viewangles => [.short, .short]
  | .viewangle2 => [.short]
  | .kickangles => [.byte, .byte, .byte]
  | .weaponframe => [.byte]
  | .gunoffset => [.byte, .byte, .byte]
  | .gunangles => [.byte, .byte, .byte]
  | .blend => [.byte, .byte, .byte, .byte]
  | .fov => [.byte]
  | .rdflags => [.byte]

def readValue (size : Size) : ByteReader.Reader Nat := Written.value <$> readWritten size

def readStats (held : Vector Nat maxStats) : ByteReader.Reader (Vector Nat maxStats) := do
  let mask ← readLong
  readOver (fun _ => readValue .short)
    ((List.finRange maxStats).filter fun i : Fin maxStats => mask.testBit i.val) held

def readGroup (build : Build) : (g : Group) → Value g → ByteReader.Reader (Value g)
  | .plain p, _ => readEach readValue (layout build p)
  | .weaponindex, held => do
    let gunindex ← readByte
    let parts ← match build with
      | .kingpin => readPartsOver held.2
      | .quake2 => pure held.2
    pure (gunindex, parts)
  | .stats, held => readStats held

/-- The flags of the first word. -/
def pflagsOf (build : Build) (word : Nat) : PFlags :=
  let shift := match build with
    | .kingpin => 1
    | .quake2 => 0
  { mType := word.testBit 0
    mOrigin := word.testBit 1
    mVelocity := word.testBit 2
    mTime := word.testBit 3
    mFlags := word.testBit 4
    mGravity := word.testBit 5
    mDeltaAngles := word.testBit 6
    viewoffset := word.testBit (7 + shift)
    viewangles := word.testBit (8 + shift)
    kickangles := word.testBit (9 + shift)
    blend := word.testBit (10 + shift)
    fov := word.testBit (11 + shift)
    weaponindex := word.testBit (12 + shift)
    weaponframe := word.testBit (13 + shift)
    rdflags := word.testBit (14 + shift) }

/-- The second word, where it is not sent. -/
def implied (p : PFlags) : EFlags where
  gunoffset := p.weaponframe
  gunangles := p.weaponframe
  pmoveVelocity2 := p.mVelocity
  pmoveOrigin2 := p.mOrigin
  viewangle2 := p.viewangles
  stats := true

/-- `extra` is the second word of a frame with the enhanced protocol. -/
def readPlayerstate (build : Build) (extra : Option EFlags) (held : View) :
    ByteReader.Reader View := do
  if extra.isNone then
    let c ← readByte
    if c.toNat ≠ svcPlayerinfo build then failure
  let word ← readShort
  let p := pflagsOf build word
  let f := (p, extra.getD (implied p))
  readFamily (fun g a => readOr (sent f g) (readGroup build g a) a) order held

/-! ## Reading one group -/

theorem map_size_plainFields (build : Build) (ps : PlayerState) (p : Plain) :
    (plainFields build ps p).map size = layout build p := by
  cases p with
  | viewoffset => cases build <;> rfl
  | _ => rfl

theorem reads_value (w : Written) : Reads (readValue (size w)) w.bytes w.value := by
  rw [← value_normal w]
  exact (reads_written w).map

theorem reads_plain (build : Build) (ps : PlayerState) (p : Plain) :
    Reads (readEach readValue (layout build p)) (allBytes (plainFields build ps p))
      ((plainFields build ps p).map Written.value) := by
  rw [← map_size_plainFields build ps p, readEach_map]
  exact reads_readEach reads_value (plainFields build ps p)

theorem reads_weaponindex (build : Build) (old ps : PlayerState) :
    Reads (readGroup build .weaponindex (wire build old .weaponindex))
      (allBytes (groupFields build old ps .weaponindex)) (wire build ps .weaponindex) := by
  simp only [groupFields, allBytes_cons]
  refine (reads_readByte (wireByte ps.gunindex)).bind ?_
  cases build with
  | kingpin =>
    have hread := reads_partsOver old.modelParts ps.modelParts (partViews old.modelParts)
    rw [mergeParts_known] at hread
    exact hread.last
  | quake2 => exact reads_pure _

theorem mem_filter_finRange {n : Nat} (p : Fin n → Bool) (i : Fin n) :
    i ∈ (List.finRange n).filter p ↔ p i = true := by
  simp

/-- The stats that have changed are read back. -/
theorem reads_stats (old ps : PlayerState) :
    Reads (readStats (old.stats.map wireStat)) (allBytes (statsWritten old ps))
      (ps.stats.map wireStat) := by
  have hlt : Nat.ofBits (statbits old ps) < 2 ^ 32 := Nat.ofBits_lt_two_pow _
  have hmask : Reads readLong (Written.long (Nat.ofBits (statbits old ps))).bytes
      (Nat.ofBits (statbits old ps)) := by
    have hvalue : ((Nat.ofBits (statbits old ps) : Int) % 2 ^ 32).toNat =
        Nat.ofBits (statbits old ps) := by omega
    rw [Written.bytes, hvalue]
    exact reads_longBytes hlt
  have hpositions : ((List.finRange maxStats).filter fun i : Fin maxStats =>
      (Nat.ofBits (statbits old ps)).testBit i.val) =
        (List.finRange maxStats).filter (statbits old ps) :=
    List.filter_congr fun i _ => Nat.testBit_ofBits_lt _ i.val i.isLt
  have hone : ∀ i : Fin maxStats, Reads (readValue .short) (Written.short ps.stats[i]).bytes
      (Written.short ps.stats[i]).value := fun i => reads_value (.short ps.stats[i])
  have hread := reads_readOver (p := fun _ => readValue .short) (v := old.stats.map wireStat)
    ((List.nodup_finRange maxStats).filter (statbits old ps)) fun i _ => hone i
  have hmerge : (Vector.ofFn fun i =>
      if i ∈ (List.finRange maxStats).filter (statbits old ps) then (Written.short ps.stats[i]).value
      else (old.stats.map wireStat)[i]) = ps.stats.map wireStat := by
    ext1 i hi
    simp only [Vector.getElem_ofFn, mem_filter_finRange, Vector.getElem_map, Fin.getElem_fin,
      statbits, bne_iff_ne, ne_eq]
    split
    · rfl
    · rename_i same
      rw [wireStat, not_not.mp same, wireStat]
  rw [hmerge] at hread
  rw [statsWritten, allBytes_cons]
  refine hmask.bind ?_
  rw [hpositions, allBytes, List.flatMap_map]
  exact hread

theorem reads_group (build : Build) (old ps : PlayerState) (g : Group) :
    Reads (readGroup build g (wire build old g)) (allBytes (groupFields build old ps g))
      (wire build ps g) := by
  cases g with
  | plain p => exact reads_plain build ps p
  | weaponindex => exact reads_weaponindex build old ps
  | stats => exact reads_stats old ps

/-! ## The words -/

theorem testBit_wordOf (bs : List Bool) (i : Nat) : (wordOf bs).testBit i = bs.getD i false := by
  induction bs generalizing i with
  | nil => simp [wordOf]
  | cons b bs ih =>
    have hb := b.toNat_lt
    have hhalf : (b.toNat + 2 * wordOf bs) / 2 = wordOf bs := by omega
    cases i with
    | zero =>
      rw [wordOf, Nat.testBit_zero, Nat.add_mul_mod_self_left, List.getD_cons_zero]
      cases b <;> rfl
    | succ i =>
      rw [wordOf, Nat.testBit_succ, hhalf, ih]
      rfl

theorem wordOf_lt (bs : List Bool) : wordOf bs < 2 ^ bs.length := by
  induction bs with
  | nil => simp [wordOf]
  | cons b bs ih =>
    have hb := b.toNat_lt
    rw [wordOf, List.length_cons, Nat.pow_succ]
    omega

theorem pflagsOf_wordOf (build : Build) (p : PFlags) : pflagsOf build (wordOf (p.bits build)) = p := by
  simp only [pflagsOf, testBit_wordOf]
  cases build <;> rfl

theorem reads_word (build : Build) (p : PFlags) :
    Reads readShort (Written.short (wordOf (p.bits build))).bytes (wordOf (p.bits build)) := by
  have hlt : wordOf (p.bits build) < 2 ^ 16 := by
    have h := wordOf_lt (p.bits build)
    cases build <;> exact h
  have hvalue : ((wordOf (p.bits build) : Int) % 2 ^ 16).toNat = wordOf (p.bits build) := by omega
  rw [Written.bytes, hvalue]
  exact reads_shortBytes hlt

theorem implied_flags {build : Build} {client : Client} (old ps : PlayerState)
    (h : enhanced build client = false) :
    implied (flags build client old ps).1 = (flags build client old ps).2 := by
  simp [implied, flags, h, Bool.or_comm]

/-! ## What is left out -/

def gunVector (g : Group) : Bool := g == .plain .gunoffset || g == .plain .gunangles

def gun (g : Group) : Bool := g == .weaponindex || g == .plain .weaponframe || gunVector g

/-- The gun vectors go with the gun frame; a client of the other build may have asked not
to be sent the gun or the blend. -/
def Withheld (build : Build) (client : Client) (old ps : PlayerState) (g : Group) : Prop :=
  (gunVector g ∧ ps.gunframe = old.gunframe) ∨
    (suppressed build client client.nogun ∧ gun g) ∨
    (suppressed build client client.noblend ∧ g = .plain .blend)

theorem chars_of_compare {v w : Vec3} (h : (v != w && !vecByteCompare v w) = false) :
    chars w = chars v := by
  rcases Bool.and_eq_false_iff.mp h with same | bytes
  · rw [show v = w by simpa using same]
  · simp only [vecByteCompare, Bool.not_eq_false', Bool.and_eq_true, beq_iff_eq] at bytes
    simp only [chars, bytes]

theorem need_prepared (build : Build) (client : Client) (old new : PlayerState) :
    needViewAngleDeltas build client (prepared build client old new) =
      needViewAngleDeltas build client new := by
  cases build with
  | kingpin => rfl
  | quake2 =>
    unfold prepared
    split <;> rfl

/-- Without a comparison the angles are the old ones. -/
theorem angles_of_not_need {build : Build} {client : Client} (old : PlayerState)
    {new : PlayerState}
    (h : needViewAngleDeltas build client (prepared build client old new) = false) :
    (prepared build client old new).viewangles = old.viewangles := by
  rw [need_prepared] at h
  simp only [prepared, h, Bool.false_eq_true, if_false]

/-- The first two angles, where no flag is set for them. -/
theorem viewangles_same {build : Build} {client : Client} {old new ps : PlayerState}
    (prepares : prepared build client old new = ps)
    (h : (needViewAngleDeltas build client ps &&
      (ps.viewangles.x != old.viewangles.x || ps.viewangles.y != old.viewangles.y) &&
      (angle2short ps.viewangles.x != angle2short old.viewangles.x ||
        angle2short ps.viewangles.y != angle2short old.viewangles.y)) = false) :
    angle2short old.viewangles.x = angle2short ps.viewangles.x ∧
      angle2short old.viewangles.y = angle2short ps.viewangles.y := by
  rcases Bool.and_eq_false_iff.mp h with h | h
  · rcases Bool.and_eq_false_iff.mp h with need | same
    · subst prepares
      rw [angles_of_not_need old need]
      exact ⟨rfl, rfl⟩
    · simp only [Bool.or_eq_false_iff, bne_eq_false_iff_eq] at same
      rw [same.1, same.2]
      exact ⟨rfl, rfl⟩
  · simp only [Bool.or_eq_false_iff, bne_eq_false_iff_eq] at h
    exact ⟨h.1.symm, h.2.symm⟩

theorem viewangle2_same {build : Build} {client : Client} {old new ps : PlayerState}
    (prepares : prepared build client old new = ps)
    (h : (needViewAngleDeltas build client ps && ps.viewangles.z != old.viewangles.z &&
      angle2short ps.viewangles.z != angle2short old.viewangles.z) = false) :
    angle2short old.viewangles.z = angle2short ps.viewangles.z := by
  rcases Bool.and_eq_false_iff.mp h with h | h
  · rcases Bool.and_eq_false_iff.mp h with need | same
    · subst prepares
      rw [angles_of_not_need old need]
    · rw [bne_eq_false_iff_eq.mp same]
  · exact (bne_eq_false_iff_eq.mp h).symm

theorem stats_same {old ps : PlayerState} (h : Nat.ofBits (statbits old ps) = 0) :
    old.stats = ps.stats := by
  ext1 i hi
  have clear := Nat.testBit_ofBits_lt (statbits old ps) i hi
  rw [h, Nat.zero_testBit] at clear
  have same : ps.stats[i] = old.stats[i] := by simpa [statbits] using clear.symm
  exact same.symm

theorem plainFields_of_not_sent {build : Build} {client : Client} {old new ps : PlayerState}
    (prepares : prepared build client old new = ps) {p : Plain}
    (h : sent (flags build client old ps) (.plain p) = false)
    (due : ¬Withheld build client old ps (.plain p)) :
    plainFields build old p = plainFields build ps p := by
  cases p with
  | mType => simp only [plainFields, bne_eq_false_iff_eq.mp h]
  | mOrigin =>
    simp only [sent, flags, Bool.or_eq_false_iff, bne_eq_false_iff_eq] at h
    simp only [plainFields, h.1.1, h.1.2]
  | pmoveOrigin2 =>
    simp only [sent, flags, Bool.or_eq_false_iff, bne_eq_false_iff_eq] at h
    simp only [plainFields, h.1]
  | mVelocity =>
    simp only [sent, flags, Bool.or_eq_false_iff, bne_eq_false_iff_eq] at h
    simp only [plainFields, h.1.1, h.1.2]
  | pmoveVelocity2 =>
    simp only [sent, flags, Bool.or_eq_false_iff, bne_eq_false_iff_eq] at h
    simp only [plainFields, h.1]
  | mTime => simp only [plainFields, bne_eq_false_iff_eq.mp h]
  | mFlags => simp only [plainFields, bne_eq_false_iff_eq.mp h]
  | mGravity => simp only [plainFields, bne_eq_false_iff_eq.mp h]
  | mDeltaAngles => simp only [plainFields, bne_eq_false_iff_eq.mp h]
  | viewoffset =>
    cases build with
    | kingpin =>
      simp only [sent, flags, Bool.and_true, bne_eq_false_iff_eq] at h
      simp only [plainFields, h]
    | quake2 => exact chars_of_compare h
  | viewangles =>
    simp only [sent, flags, Bool.or_eq_false_iff] at h
    obtain ⟨x, y⟩ := viewangles_same prepares h.1
    simp only [plainFields, msgWriteAngle16, x, y]
  | viewangle2 =>
    simp only [sent, flags, Bool.or_eq_false_iff] at h
    obtain ⟨h, xy⟩ := h
    rw [xy, Bool.not_false, Bool.and_true] at h
    simp only [plainFields, msgWriteAngle16, viewangle2_same prepares h]
  | kickangles => exact chars_of_compare h
  | weaponframe =>
    simp only [sent, flags, Bool.and_eq_false_iff, bne_eq_false_iff_eq, Bool.not_eq_false'] at h
    rcases h with same | nogun
    · simp only [plainFields, same]
    · exact absurd (Or.inr (Or.inl ⟨nogun, rfl⟩)) due
  | gunoffset =>
    simp only [sent, flags, Bool.and_eq_false_iff, bne_eq_false_iff_eq, Bool.not_eq_false',
      Bool.or_eq_false_iff] at h
    rcases h with (same | nogun) | ⟨-, same⟩
    · exact absurd (Or.inl ⟨rfl, same⟩) due
    · exact absurd (Or.inr (Or.inl ⟨nogun, rfl⟩)) due
    · exact chars_of_compare (by simpa [Bool.and_eq_false_iff, Decidable.imp_iff_not_or] using same)
  | gunangles =>
    simp only [sent, flags, Bool.and_eq_false_iff, bne_eq_false_iff_eq, Bool.not_eq_false',
      Bool.or_eq_false_iff] at h
    rcases h with (same | nogun) | ⟨-, same⟩
    · exact absurd (Or.inl ⟨rfl, same⟩) due
    · exact absurd (Or.inr (Or.inl ⟨nogun, rfl⟩)) due
    · exact chars_of_compare (by simpa [Bool.and_eq_false_iff, Decidable.imp_iff_not_or] using same)
  | blend =>
    simp only [sent, flags, Bool.and_eq_false_iff, bne_eq_false_iff_eq, Bool.not_eq_false'] at h
    rcases h with (same | noblend) | same
    · simp only [plainFields, same]
    · exact absurd (Or.inr (Or.inr ⟨noblend, rfl⟩)) due
    · simp only [plainFields, same]
  | fov => simp only [plainFields, bne_eq_false_iff_eq.mp h]
  | rdflags => simp only [plainFields, bne_eq_false_iff_eq.mp h]

theorem wire_of_not_sent {build : Build} {client : Client} {old new ps : PlayerState}
    (prepares : prepared build client old new = ps) {g : Group}
    (h : sent (flags build client old ps) g = false)
    (due : ¬Withheld build client old ps g) : wire build old g = wire build ps g := by
  cases g with
  | plain p => exact congrArg (List.map Written.value) (plainFields_of_not_sent prepares h due)
  | weaponindex =>
    cases build with
    | kingpin =>
      simp only [sent, flags, Bool.or_eq_false_iff, bne_eq_false_iff_eq] at h
      simp only [wire, h.1, h.2]
      rfl
    | quake2 =>
      simp only [sent, flags, Bool.and_eq_false_iff, bne_eq_false_iff_eq, Bool.not_eq_false'] at h
      rcases h with same | nogun
      · simp only [wire, same]
        rfl
      · exact absurd (Or.inr (Or.inl ⟨nogun, rfl⟩)) due
  | stats =>
    simp only [sent, flags, Bool.or_eq_false_iff, bne_eq_false_iff_eq] at h
    exact congrArg (Vector.map wireStat) (stats_same h.2)

/-! ## The whole message -/

theorem mem_order (g : Group) : g ∈ order := by
  cases g with
  | plain p => cases p <;> decide
  | weaponindex => decide
  | stats => decide

theorem reads_groups (build : Build) (f : PFlags × EFlags) (old ps : PlayerState) :
    Reads (readFamily (fun g a => readOr (sent f g) (readGroup build g a) a) order (wire build old))
      (allBytes (order.flatMap fun g => if sent f g then groupFields build old ps g else []))
      (fun g => if sent f g then wire build ps g else wire build old g) := by
  have hread := reads_readFamily (p := fun g a => readOr (sent f g) (readGroup build g a) a)
    (v := wire build old) (show order.Nodup by decide)
    fun g _ => reads_readOr (sent f g) (wire build old g) (reads_group build old ps g)
  simp only [mem_order, if_true] at hread
  rw [allBytes, List.flatMap_assoc]
  exact hread

/-- The frame carries the second word of a client with the enhanced protocol. -/
def extraWord (build : Build) (client : Client) (e : EFlags) : Option EFlags :=
  if enhanced build client then some e else none

/-- What is written of a player state is read back. -/
theorem reads_playerstate (build : Build) (client : Client) (old : Option PlayerState)
    (new : PlayerState) :
    let ops := old.getD nullPlayerstate
    let r := svWritePlayerstateToClient build client old new
    Reads (readPlayerstate build (extraWord build client r.flags.2) (wire build ops))
      (allBytes r.fields)
      (fun g => if sent r.flags g then wire build r.ps g else wire build ops g) := by
  intro ops r
  have word := reads_word build r.flags.1
  have groups := reads_groups build r.flags ops r.ps
  have body : Reads
      (readShort >>= fun word => readFamily (fun g a => readOr (sent (pflagsOf build word,
        (extraWord build client r.flags.2).getD (implied (pflagsOf build word))) g)
          (readGroup build g a) a) order (wire build ops))
      (allBytes (.short (wordOf (r.flags.1.bits build)) ::
        order.flatMap fun g => if sent r.flags g then groupFields build ops r.ps g else []))
      (fun g => if sent r.flags g then wire build r.ps g else wire build ops g) := by
    rw [allBytes_cons]
    refine word.bind ?_
    have known : (pflagsOf build (wordOf (r.flags.1.bits build)),
        (extraWord build client r.flags.2).getD
          (implied (pflagsOf build (wordOf (r.flags.1.bits build))))) = r.flags := by
      rw [pflagsOf_wordOf, extraWord]
      cases henhanced : enhanced build client with
      | true => rfl
      | false => exact Prod.ext rfl (implied_flags ops r.ps henhanced)
    rw [known]
    exact groups
  cases henhanced : enhanced build client with
  | true =>
    have hfields : r.fields = .short (wordOf (r.flags.1.bits build)) ::
        order.flatMap fun g => if sent r.flags g then groupFields build ops r.ps g else [] := by
      simp only [r, svWritePlayerstateToClient, henhanced, if_true, List.nil_append]
      rfl
    rw [hfields]
    simp only [readPlayerstate, extraWord, henhanced, if_true, Option.isNone_some,
      Bool.false_eq_true, if_false] at body ⊢
    exact body
  | false =>
    have hfields : r.fields = .byte (svcPlayerinfo build) ::
        .short (wordOf (r.flags.1.bits build)) ::
          order.flatMap fun g => if sent r.flags g then groupFields build ops r.ps g else [] := by
      simp only [r, svWritePlayerstateToClient, henhanced, Bool.false_eq_true, if_false,
        List.singleton_append]
      rfl
    rw [hfields, allBytes_cons]
    simp only [readPlayerstate, extraWord, henhanced, Bool.false_eq_true, if_false,
      Option.isNone_none, if_true] at body ⊢
    have opening : ((wireByte (svcPlayerinfo build)).toNat : Int) = svcPlayerinfo build := by
      cases build <;> rfl
    refine (reads_readByte (wireByte (svcPlayerinfo build))).bind ?_
    rw [if_neg (not_not.mpr opening)]
    exact body

/-- What a client with the state before holds after the message, and what was left out. -/
theorem playerstate_decoded (build : Build) (client : Client) (old : Option PlayerState)
    (new : PlayerState) :
    let ops := old.getD nullPlayerstate
    let r := svWritePlayerstateToClient build client old new
    (∀ g, sent r.flags g = false → ¬Withheld build client ops r.ps g →
        wire build ops g = wire build r.ps g) ∧
      Reads (readPlayerstate build (extraWord build client r.flags.2) (wire build ops))
        (allBytes r.fields)
        (fun g => if sent r.flags g then wire build r.ps g else wire build ops g) ∧
      (∀ g, gunVector g → sent r.flags g → r.ps.gunframe ≠ ops.gunframe) ∧
      (r.ps = capped build new ∨ build = .quake2 ∧
        needViewAngleDeltas build client new = false ∧
          r.ps = { capped build new with viewangles := ops.viewangles }) := by
  intro ops r
  refine ⟨fun g h due => wire_of_not_sent rfl h due, reads_playerstate build client old new, ?_, ?_⟩
  · intro g vector hsent same
    have unframed : (r.ps.gunframe != ops.gunframe) = false := by rw [same, bne_self_eq_false]
    simp only [gunVector, Bool.or_eq_true, beq_iff_eq] at vector
    rcases vector with rfl | rfl
    · change (((r.ps.gunframe != ops.gunframe && _) && _) = true) at hsent
      rw [unframed] at hsent
      cases hsent
    · change (((r.ps.gunframe != ops.gunframe && _) && _) = true) at hsent
      rw [unframed] at hsent
      cases hsent
  · change prepared build client ops new = _ ∨ _ ∧ _ ∧ prepared build client ops new = _
    cases need : needViewAngleDeltas build client new with
    | true => exact Or.inl (if_pos need)
    | false =>
      cases build with
      | kingpin => cases need
      | quake2 => exact Or.inr ⟨rfl, rfl, if_neg (by simp [need])⟩

private def gunless : Client where
  protocol := protocolR1Q2
  noblend := false
  nogun := true
  recording := false
  demofile := false
  svOptimizeDeltas := 0

/-- A client that has asked not to be sent the gun. -/
theorem nogun_left_out : ¬∀ (build : Build) (client : Client) (old : Option PlayerState)
    (new : PlayerState) (g : Group), gunVector g = false →
      sent (svWritePlayerstateToClient build client old new).flags g = false →
        wire build (old.getD nullPlayerstate) g = wire build (capped build new) g := by
  intro claim
  have same := claim .quake2 gunless none { nullPlayerstate with gunindex := 1 } .weaponindex
    (by decide) (by decide)
  exact absurd (congrArg Prod.fst same) (by decide)

end PlayerDelta
