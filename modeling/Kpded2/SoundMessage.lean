import Kpded2.DeltaCoding

/-!
# `SV_StartSound`

A sound is sent as a flag byte, the index of the sound, optional fields and a short that holds the
entity and the channel. The index is written as a byte. Floating-point numbers are a parameter: nothing
here depends on how they round.
-/
namespace SoundMessage
open Bytes ByteReader DeltaCoding DeltaEntity PacketParse Protocol

/-- The operations on `float` that are used, with the literals of the source. -/
structure Floats where
  Float : Type
  literal : Rat → Float
  ltZero : Float → Bool
  gt : Float → Float → Bool
  ge : Float → Float → Bool
  eq : Float → Float → Bool
  add : Float → Float → Float
  mul : Float → Float → Float
  toInt : Float → Int

def maxSounds : Build → Nat
  | .kingpin => 384
  | .quake2 => 256

def svcSound : Build → Int
  | .kingpin => 11
  | .quake2 => 9

variable {fl : Floats}

structure Vec (F : Type) where
  x : F
  y : F
  z : F

structure Entity (fl : Floats) where
  number : Nat
  noclient : Bool
  solidBsp : Bool
  origin : Vec fl.Float
  mins : Vec fl.Float
  maxs : Vec fl.Float

/-- The arguments, and the build. -/
structure Call (fl : Floats) where
  build : Build
  origin : Option (Vec fl.Float)
  entity : Entity fl
  channel : Int
  soundindex : Int
  volume : fl.Float
  attenuation : fl.Float
  timeofs : fl.Float

/-- What is not an error. -/
def Call.admits (c : Call fl) : Bool :=
  !(fl.ltZero c.volume || fl.gt c.volume (fl.literal 1)) &&
    !(fl.ltZero c.attenuation || fl.gt c.attenuation (fl.literal 4)) &&
    !(fl.ltZero c.timeofs || fl.gt c.timeofs (fl.literal (255 / 1000)))

def bit (c : Int) (k : Nat) : Bool := c / 2 ^ k % 2 = 1

/-! ## The message -/

/-- The channel after the tests of its flags, and whether the distance counts. -/
def Call.sentChannel (c : Call fl) : Int × Bool :=
  let channel := if bit c.channel 3 then c.channel % 8 else c.channel
  if bit channel 5 then (channel - 32, true) else (channel, false)

/-- `(ent<<3) | (channel&7)`. -/
def Call.sendchan (c : Call fl) : Int := c.entity.number * 8 + c.sentChannel.1 % 8

structure Flags where
  volume : Bool
  attenuation : Bool
  pos : Bool
  offset : Bool

/-- `SND_ENT` is always set. -/
def Flags.toInt (f : Flags) : Int :=
  f.volume.toNat + 2 * f.attenuation.toNat + 4 * f.pos.toNat + 8 + 16 * f.offset.toNat

/-- The sound attenuates. -/
def Call.attenuates (c : Call fl) : Bool := !fl.eq c.attenuation (fl.literal 0)

def Call.flags (c : Call fl) : Flags where
  volume := !fl.eq c.volume (fl.literal 1)
  attenuation := !fl.eq c.attenuation (fl.literal 1)
  pos := c.attenuates && (c.entity.noclient || c.entity.solidBsp || c.origin.isSome)
  offset := !fl.eq c.timeofs (fl.literal 0)

def middle (origin mins maxs : fl.Float) : fl.Float :=
  fl.add origin (fl.mul (fl.literal (1 / 2)) (fl.add mins maxs))

def Call.position (c : Call fl) : Vec fl.Float :=
  c.origin.getD (
    if c.entity.solidBsp then
      { x := middle c.entity.origin.x c.entity.mins.x c.entity.maxs.x
        y := middle c.entity.origin.y c.entity.mins.y c.entity.maxs.y
        z := middle c.entity.origin.z c.entity.mins.z c.entity.maxs.z }
    else c.entity.origin)

/-- `(int)(f * k)`. -/
def scaled (f : fl.Float) (k : Rat) : Int := fl.toInt (fl.mul f (fl.literal k))

/-- An illegal attenuation is fixed, and stays so for the clients that follow. -/
def fixedAttenuation (attenuation : fl.Float) : fl.Float :=
  if fl.ge attenuation (fl.literal 4) then fl.literal (3984375 / 1000000) else attenuation

def soundWritten (c : Call fl) (attenuation : fl.Float) : List Written :=
  [.byte (svcSound c.build), .byte c.flags.toInt, .byte c.soundindex] ++
    (writeIf c.flags.volume (.byte (scaled c.volume 255))).toList ++
    (writeIf c.flags.attenuation (.byte (scaled (fixedAttenuation attenuation) 64))).toList ++
    (writeIf c.flags.offset (.byte (scaled c.timeofs 1000))).toList ++
    [.short c.sendchan] ++
    (writeIf c.flags.pos (.short (scaled c.position.x 8))).toList ++
    (writeIf c.flags.pos (.short (scaled c.position.y 8))).toList ++
    (writeIf c.flags.pos (.short (scaled c.position.z 8))).toList

def soundMessage (c : Call fl) (attenuation : fl.Float) : List UInt8 :=
  allBytes (soundWritten c attenuation)

/-! ## The clients -/

structure Client (fl : Floats) where
  spawned : Bool
  noents : Bool
  nocurse : Bool
  origin : Vec fl.Float

/-- The map, the game and the names of the sounds. `distance` is the length of a difference. -/
structure World (fl : Floats) where
  clients : List (Client fl)
  clientNoEnts : Bool
  inPVS : Vec fl.Float → Vec fl.Float → Bool
  inPHS : Vec fl.Float → Vec fl.Float → Bool
  distance : Vec fl.Float → Vec fl.Float → fl.Float
  soundPath : Int → List UInt8

inductive Range
  | all | pvs | phs
  deriving DecidableEq

/-- `use_phs`. -/
def Call.range (c : Call fl) : Range :=
  if !c.attenuates then .all
  else if bit c.channel 3 then .all
  else if bit c.channel 6 then .pvs
  else .phs

/-- Too far away, for the attenuation on the server's side. -/
def inaudible (w : World fl) (c : Call fl) (attenuation : fl.Float) (cl : Client fl) : Bool :=
  let distance := fl.add (w.distance c.position cl.origin) (fl.literal (-80))
  let distance := if fl.ltZero distance then fl.literal 0 else distance
  fl.gt (fl.mul distance (fl.mul attenuation (fl.literal (1 / 1000)))) (fl.literal (3 / 2))

def reaches (w : World fl) (c : Call fl) (attenuation : fl.Float) (cl : Client fl) : Bool :=
  match c.range with
  | .all => true
  | .pvs => near (w.inPVS cl.origin c.position)
  | .phs => near (w.inPHS cl.origin c.position)
where
  near (inSet : Bool) : Bool :=
    !(c.build = .kingpin && w.clientNoEnts && cl.noents) && inSet &&
      !(c.sentChannel.2 && inaudible w c attenuation cl)

def profanity : List UInt8 := ascii "actors/player/male/profanity/"

/-- A sound that a client with the parental lock does not get. -/
def curse (path : List UInt8) : Bool :=
  let rest := if ascii "actors/male/" <+: path then path.drop 12
    else if ascii "actors/female/" <+: path then path.drop 14
    else []
  rest.contains 47 || decide (profanity <+: path)

def wants (w : World fl) (c : Call fl) (cl : Client fl) : Bool :=
  !(c.build = .kingpin && cl.nocurse && curse (w.soundPath c.soundindex))

/-- What is added for each client, and whether it is reliable. -/
def sendSound (w : World fl) (c : Call fl) (attenuation : fl.Float) :
    List (Client fl) → List (Option (List UInt8 × Bool))
  | [] => []
  | cl :: clients =>
    if cl.spawned && reaches w c attenuation cl && wants w c cl then
      some (soundMessage c attenuation, bit c.sentChannel.1 4) ::
        sendSound w c (if c.flags.attenuation then fixedAttenuation attenuation else attenuation) clients
    else none :: sendSound w c attenuation clients

/-- `none` is an error. -/
def svStartSound (w : World fl) (c : Call fl) : Option (List (Option (List UInt8 × Bool))) :=
  if c.admits then some (sendSound w c c.attenuation w.clients) else none

/-! ## `PF_StartSound` -/

/-- The variables, and whether the entity is a client with the parental lock. -/
structure Game (fl : Floats) where
  lockedClient : Bool
  funcPlatHack : Bool
  soundPath : Int → List UInt8

/-- The same rest for both directories. -/
def gameCurse (path : List UInt8) : Bool :=
  ((decide (ascii "actors/male/" <+: path) || decide (ascii "actors/female/" <+: path)) &&
    (path.drop 14).contains 47) || decide (profanity <+: path)

def isPlat (path : List UInt8) : Bool :=
  path = ascii "plats/pt1_strt.wav" || path = ascii "plats/pt1_end.wav"

def isDoor (path : List UInt8) : Bool :=
  path = ascii "doors/dr1_strt.wav" || path = ascii "doors/dr1_end.wav"

def withoutBit (c : Int) (k : Nat) : Int := if bit c k then c - 2 ^ k else c

/-- The top of a plat. -/
def platOrigin (sub : fl.Float → fl.Float → fl.Float) (e : Entity fl) : Vec fl.Float where
  x := middle e.origin.x e.mins.x e.maxs.x
  y := middle e.origin.y e.mins.y e.maxs.y
  z := fl.add (middle e.origin.z e.mins.z e.maxs.z)
    (fl.mul (sub e.maxs.z e.mins.z) (fl.literal (1 / 2)))

/-- A plat or a door of the other build, whose sound is attenuated by the server. -/
def platHack (sub : fl.Float → fl.Float → fl.Float) (g : Game fl) (c : Call fl) : Call fl :=
  if c.build = .quake2 ∧ g.funcPlatHack ∧ c.entity.solidBsp ∧ bit c.channel 3 then
    let hacked := { c with channel := withoutBit (c.channel + 32) 3 }
    if isPlat (g.soundPath c.soundindex) then
      { hacked with origin := some (platOrigin sub c.entity) }
    else if isDoor (g.soundPath c.soundindex) then hacked
    else c
  else c

/-- The call that is made for an entity, if any. -/
def pfStartSound (sub : fl.Float → fl.Float → fl.Float) (g : Game fl) (c : Call fl) : Option (Call fl) :=
  if c.soundindex ≥ maxSounds c.build ∨ c.soundindex < 0 then none
  else
    let c := { c with origin := none, channel := withoutBit c.channel 5 }
    if c.build = .kingpin ∧ g.lockedClient ∧ gameCurse (g.soundPath c.soundindex) then none
    else some (platHack sub g c)

/-! ## A reader -/

structure Heard where
  flags : UInt8
  soundindex : UInt8
  volume : Option Written
  attenuation : Option Written
  timeofs : Option Written
  sendchan : Option Written
  x : Option Written
  y : Option Written
  z : Option Written

def flag (flags : UInt8) (k : Nat) : Bool := flags.toNat / 2 ^ k % 2 = 1

def readSound : Reader Heard := do
  let _ ← readByte
  let flags ← readByte
  let soundindex ← readByte
  let volume ← readIf (flag flags 0) .byte
  let attenuation ← readIf (flag flags 1) .byte
  let timeofs ← readIf (flag flags 4) .byte
  let sendchan ← readIf (flag flags 3) .short
  let x ← readIf (flag flags 2) .short
  let y ← readIf (flag flags 2) .short
  let z ← readIf (flag flags 2) .short
  pure { flags, soundindex, volume, attenuation, timeofs, sendchan, x, y, z }

/-- The length that a flag byte announces. -/
def soundLength (flags : UInt8) : Nat :=
  3 + (flag flags 0).toNat + (flag flags 1).toNat + (flag flags 4).toNat + 2 * (flag flags 3).toNat +
    6 * (flag flags 2).toNat

theorem flag_toInt (f : Flags) :
    flag (wireByte f.toInt) 0 = f.volume ∧ flag (wireByte f.toInt) 1 = f.attenuation ∧
      flag (wireByte f.toInt) 2 = f.pos ∧ flag (wireByte f.toInt) 3 = true ∧
        flag (wireByte f.toInt) 4 = f.offset := by
  obtain ⟨volume, attenuation, pos, offset⟩ := f
  revert volume attenuation pos offset
  decide

/-- What a reader gets of a call. -/
def heard (c : Call fl) (attenuation : fl.Float) : Heard where
  flags := wireByte c.flags.toInt
  soundindex := wireByte c.soundindex
  volume := (writeIf c.flags.volume (.byte (scaled c.volume 255))).map normal
  attenuation := (writeIf c.flags.attenuation
    (.byte (scaled (fixedAttenuation attenuation) 64))).map normal
  timeofs := (writeIf c.flags.offset (.byte (scaled c.timeofs 1000))).map normal
  sendchan := (writeIf true (.short c.sendchan)).map normal
  x := (writeIf c.flags.pos (.short (scaled c.position.x 8))).map normal
  y := (writeIf c.flags.pos (.short (scaled c.position.y 8))).map normal
  z := (writeIf c.flags.pos (.short (scaled c.position.z 8))).map normal

theorem reads_sound (c : Call fl) (attenuation : fl.Float) :
    Reads readSound (soundMessage c attenuation) (heard c attenuation) := by
  obtain ⟨volume, atten, pos, ent, offset⟩ := flag_toInt c.flags
  simp only [soundMessage, soundWritten, allBytes_append, List.append_assoc, allBytes_cons]
  refine (reads_readByte (wireByte (svcSound c.build))).bind ?_
  refine (reads_readByte (wireByte c.flags.toInt)).bind ?_
  refine (reads_readByte (wireByte c.soundindex)).bind ?_
  simp only [volume, atten, pos, ent, offset]
  refine (reads_writeIf c.flags.volume (.byte (scaled c.volume 255))).bind ?_
  refine (reads_writeIf c.flags.attenuation
    (.byte (scaled (fixedAttenuation attenuation) 64))).bind ?_
  refine (reads_writeIf c.flags.offset (.byte (scaled c.timeofs 1000))).bind ?_
  refine (reads_writeIf true (.short c.sendchan)).bind ?_
  refine (reads_writeIf c.flags.pos (.short (scaled c.position.x 8))).bind ?_
  refine (reads_writeIf c.flags.pos (.short (scaled c.position.y 8))).bind ?_
  exact (reads_writeIf c.flags.pos (.short (scaled c.position.z 8))).last

theorem length_writeIf_byte (set : Bool) (c : Int) :
    (allBytes (writeIf set (.byte c)).toList).length = set.toNat := by
  cases set with
  | false => rfl
  | true => rfl

theorem length_writeIf_short (set : Bool) (c : Int) :
    (allBytes (writeIf set (.short c)).toList).length = 2 * set.toNat := by
  cases set with
  | false => rfl
  | true => rfl

theorem length_soundMessage (c : Call fl) (attenuation : fl.Float) :
    (soundMessage c attenuation).length = soundLength (wireByte c.flags.toInt) := by
  obtain ⟨volume, atten, pos, ent, offset⟩ := flag_toInt c.flags
  have three : ∀ a b d : Int, (allBytes [.byte a, .byte b, .byte d]).length = 3 := fun _ _ _ => rfl
  have two : ∀ a : Int, (allBytes [.short a]).length = 2 := fun _ => rfl
  simp only [soundMessage, soundWritten, allBytes_append, List.length_append, three, two,
    length_writeIf_byte, length_writeIf_short, soundLength, volume, atten, pos, ent, offset,
    Bool.toNat_true]
  omega

/-! ## What a message says -/

/-- A call whose index and entity are in their tables. -/
structure Admitted (fl : Floats) extends Call fl where
  admitted : toCall.admits = true
  index : 0 ≤ soundindex ∧ soundindex < maxSounds build
  number : entity.number < maxEdicts build

/-- The messages of a call; the attenuation is fixed after the first. -/
def messages (c : Call fl) : List (List UInt8) :=
  [soundMessage c c.attenuation, soundMessage c (fl.literal (3984375 / 1000000))]

/-- What is sent is one of the messages of the sound. -/
theorem sendSound_mem {w : World fl} {c : Call fl} {clients : List (Client fl)} {attenuation : fl.Float}
    (h : attenuation = c.attenuation ∨ attenuation = fl.literal (3984375 / 1000000))
    {m : List UInt8} {reliable : Bool}
    (sent : some (m, reliable) ∈ sendSound w c attenuation clients) : m ∈ messages c := by
  induction clients generalizing attenuation with
  | nil => cases sent
  | cons cl clients ih =>
    rw [sendSound] at sent
    split at sent
    · rcases List.mem_cons.mp sent with own | later
      · obtain ⟨rfl, -⟩ := Prod.mk.inj (Option.some.inj own)
        rcases h with rfl | rfl
        · exact List.mem_cons_self
        · exact List.mem_cons_of_mem _ List.mem_cons_self
      · refine ih ?_ later
        split
        · rw [fixedAttenuation]
          split
          · exact Or.inr rfl
          · exact h
        · exact h
    · rcases List.mem_cons.mp sent with own | later
      · cases own
      · exact ih h later

/-- Everything that a call adds for a client is one of its messages. -/
theorem svStartSound_mem {w : World fl} {c : Call fl} {sent : List (Option (List UInt8 × Bool))}
    (h : svStartSound w c = some sent) {m : List UInt8} {reliable : Bool}
    (own : some (m, reliable) ∈ sent) : m ∈ messages c := by
  rw [svStartSound] at h
  split at h
  · obtain rfl := Option.some.inj h
    exact sendSound_mem (Or.inl rfl) own
  · cases h

/-- The length is that of the flag byte, and another message that begins alike has the same sound,
entity and channel. -/
structure Determined (c : Admitted fl) : Prop where
  length : ∀ m ∈ messages c.toCall, m.length = soundLength (m.getD 1 0)
  unique : ∀ c' : Admitted fl, c'.build = c.build → ∀ m ∈ messages c.toCall,
    ∀ m' ∈ messages c'.toCall, ∀ rest rest', m ++ rest = m' ++ rest' →
      c'.soundindex = c.soundindex ∧ c'.entity.number = c.entity.number ∧
        c'.channel % 8 = c.channel % 8 ∧ rest' = rest

theorem exists_of_mem_messages {c : Call fl} {m : List UInt8} (h : m ∈ messages c) :
    ∃ attenuation, m = soundMessage c attenuation := by
  rcases List.mem_cons.mp h with rfl | h
  · exact ⟨_, rfl⟩
  · exact ⟨_, List.mem_singleton.mp h⟩

theorem sentChannel_emod (c : Call fl) : c.sentChannel.1 % 8 = c.channel % 8 := by
  simp only [Call.sentChannel]
  split_ifs
  · omega
  · omega
  · omega
  · rfl

/-- The short holds the entity and the channel. -/
theorem normal_sendchan_inj {a b : Call fl} (ha : a.entity.number < 2048) (hb : b.entity.number < 2048)
    (h : normal (.short a.sendchan) = normal (.short b.sendchan)) :
    a.entity.number = b.entity.number ∧ a.channel % 8 = b.channel % 8 := by
  have same : a.sendchan % 2 ^ 16 = b.sendchan % 2 ^ 16 := Written.short.inj h
  simp only [Call.sendchan, sentChannel_emod] at same
  omega

theorem maxEdicts_le (build : Build) : maxEdicts build ≤ 2048 := by
  cases build with
  | kingpin => exact le_rfl
  | quake2 => decide

theorem wireByte_emod {a b : Int} (h : wireByte a = wireByte b) : a % 256 = b % 256 := by
  have same := congrArg UInt8.toNat h
  simp only [wireByte, UInt8.toNat_ofNat'] at same
  omega

/-- Two calls whose messages begin alike. -/
theorem alike (c c' : Admitted fl) {m m' rest rest' : List UInt8} (hm : m ∈ messages c.toCall)
    (hm' : m' ∈ messages c'.toCall) (h : m ++ rest = m' ++ rest') :
    c'.soundindex % 256 = c.soundindex % 256 ∧ c'.entity.number = c.entity.number ∧
      c'.channel % 8 = c.channel % 8 ∧ rest' = rest := by
  obtain ⟨attenuation, rfl⟩ := exists_of_mem_messages hm
  obtain ⟨attenuation', rfl⟩ := exists_of_mem_messages hm'
  obtain ⟨value, rests⟩ := (reads_sound c.toCall attenuation).unique (reads_sound c'.toCall attenuation') h
  have index : wireByte c.soundindex = wireByte c'.soundindex := congrArg Heard.soundindex value
  have sendchan : some (normal (.short c.sendchan)) = some (normal (.short c'.sendchan)) :=
    congrArg Heard.sendchan value
  have size := maxEdicts_le c.build
  have size' := maxEdicts_le c'.build
  have number := c.number
  have number' := c'.number
  obtain ⟨ent, channel⟩ := normal_sendchan_inj (by omega) (by omega) (Option.some.inj sendchan)
  exact ⟨(wireByte_emod index).symm, ent.symm, channel.symm, rests.symm⟩

theorem determined_length (c : Call fl) : ∀ m ∈ messages c, m.length = soundLength (m.getD 1 0) := by
  intro m hm
  obtain ⟨attenuation, rfl⟩ := exists_of_mem_messages hm
  exact length_soundMessage c attenuation

/-- The same call with another index. -/
def Admitted.withIndex (c : Admitted fl) (soundindex : Int)
    (index : 0 ≤ soundindex ∧ soundindex < maxSounds c.build) : Admitted fl where
  toCall := { c.toCall with soundindex }
  admitted := c.admitted
  index := index
  number := c.number

theorem soundMessage_withIndex (c : Admitted fl) {soundindex : Int}
    (index : 0 ≤ soundindex ∧ soundindex < maxSounds c.build)
    (same : wireByte soundindex = wireByte c.soundindex) :
    soundMessage (c.withIndex soundindex index).toCall c.attenuation =
      soundMessage c.toCall c.attenuation := by
  have byte : (Written.byte (c.withIndex soundindex index).soundindex).bytes =
      (Written.byte c.soundindex).bytes := congrArg (fun b => [b]) same
  simp only [soundMessage, soundWritten, allBytes_append, allBytes_cons, byte]
  rfl

/-- Indices that are equal as bytes are not told apart. -/
theorem eq_of_determined {c : Admitted fl} (h : Determined c) {soundindex : Int}
    (index : 0 ≤ soundindex ∧ soundindex < maxSounds c.build)
    (same : soundindex % 256 = c.soundindex % 256) : soundindex = c.soundindex := by
  have byte : wireByte soundindex = wireByte c.soundindex := by
    rw [wireByte, wireByte]
    exact congrArg (fun n : Int => UInt8.ofNat n.toNat) same
  exact (h.unique (c.withIndex soundindex index) rfl _ List.mem_cons_self _ List.mem_cons_self [] []
    (congrArg (· ++ []) (soundMessage_withIndex c index byte).symm)).1

/-- The message says which sound, entity and channel it is about if and only if no other index has the
same byte. -/
theorem determined_iff (c : Admitted fl) :
    Determined c ↔ c.build = .quake2 ∨ (128 ≤ c.soundindex ∧ c.soundindex < 256) := by
  obtain ⟨low, high⟩ := c.index
  constructor
  · intro h
    cases hbuild : c.build with
    | quake2 => exact Or.inl rfl
    | kingpin =>
      right
      rw [hbuild] at high
      by_contra other
      have size : ((maxSounds c.build : Nat) : Int) = 384 := by
        rw [hbuild]
        rfl
      have limit : ((maxSounds .kingpin : Nat) : Int) = 384 := rfl
      by_cases below : c.soundindex < 128
      · have same := eq_of_determined h (show 0 ≤ c.soundindex + 256 ∧ _ by omega) (by omega)
        omega
      · have same := eq_of_determined h (show 0 ≤ c.soundindex - 256 ∧ _ by omega) (by omega)
        omega
  · intro told
    refine ⟨determined_length c.toCall, fun c' build m hm m' hm' rest rest' h => ?_⟩
    obtain ⟨index, others⟩ := alike c c' hm hm' h
    obtain ⟨low', high'⟩ := c'.index
    refine ⟨?_, others⟩
    rw [build] at high'
    rcases told with quake2 | ⟨least, most⟩
    · have size : ((maxSounds c.build : Nat) : Int) = 256 := by
        rw [quake2]
        rfl
      omega
    · have size : maxSounds c.build ≤ 384 := by
        cases c.build with
        | kingpin => exact le_rfl
        | quake2 => decide
      omega

/-- Exact numbers. -/
private def exactFloats : Floats where
  Float := Rat
  literal := id
  ltZero f := f < 0
  gt a b := a > b
  ge a b := a ≥ b
  eq a b := a = b
  add a b := a + b
  mul a b := a * b
  toInt := trunc

private def firstSound : Admitted exactFloats where
  build := .kingpin
  origin := none
  entity := ⟨1, false, false, ⟨(0 : Rat), (0 : Rat), (0 : Rat)⟩, ⟨(0 : Rat), (0 : Rat), (0 : Rat)⟩,
    ⟨(0 : Rat), (0 : Rat), (0 : Rat)⟩⟩
  channel := 0
  soundindex := 1
  volume := (1 : Rat)
  attenuation := (1 : Rat)
  timeofs := (0 : Rat)
  admitted := by decide +kernel
  index := by decide
  number := by decide

/-- Sounds 1 and 257 are sent alike. -/
theorem sounds_alike : ¬∀ (fl : Floats) (c : Admitted fl), Determined c := by
  intro claim
  have same := @eq_of_determined exactFloats firstSound (claim exactFloats firstSound) 257 (by decide)
    (by decide)
  exact absurd same (by decide)

end SoundMessage
