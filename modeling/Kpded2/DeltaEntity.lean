import Mathlib.Algebra.BigOperators.Group.List.Basic
import Mathlib.Algebra.Order.Ring.Int
import Mathlib.Data.Rat.Defs
import Kpded2.Protocol
import Kpded2.SizeBuf
import Kpded2.SortedEdits

/-!
# `SV_WriteDeltaEntity`

One entity update as the Kingpin build writes it: the flag bits are chosen by
comparing the two states, and the fields follow in a fixed order, each under its
flag. Floating point members are rationals, and the conversions `(int)(f*8)` and
`(int)(f*256/360)` truncate towards zero.

What the client can know of an entity is its `View`: every field as the wire
gives it. The model parts and the old origin are not in it, because an update
does not always bring them up to date.
-/
namespace DeltaEntity
open Protocol SizeBuf SortedEdits

structure Vec3 where
  x : Rat
  y : Rat
  z : Rat
  deriving DecidableEq

abbrev maxModelParts : Nat := 8
abbrev maxModelpartObjects : Nat := 8
def maxModelDirLights : Nat := 3

/-- `serverData` stands for the members that only the server reads; they take
part in the `memcmp`. -/
structure ModelPart where
  modelindex : Int
  invisibleObjects : UInt8
  skinnum : Vector UInt8 maxModelpartObjects
  serverData : List Int
  deriving DecidableEq

/-- `vectors` stands for the directions, colors, intensities, styles and origins,
which are compared but not sent. -/
structure ModelLighting where
  lightIndexes : Vector Int maxModelDirLights
  numDirLights : Nat
  vectors : List Rat
  deriving DecidableEq

/-- The members of `entity_state_t` that an update reads. -/
structure EntityState where
  number : Nat
  origin : Vec3
  angles : Vec3
  oldOrigin : Vec3
  modelindex : Int
  frame : Int
  skinnum : Int
  effects : Nat
  renderfx : Int
  renderfx2 : Int
  solid : Int
  sound : Int
  event : Int
  numParts : Int
  modelParts : Vector ModelPart maxModelParts
  modelLighting : ModelLighting
  scale : Rat
  deriving DecidableEq

def EntityState.part3 (s : EntityState) : ModelPart := s.modelParts.get ⟨3, by decide⟩

/-- The conversion to `int`. -/
def trunc (f : Rat) : Int := f.num.tdiv f.den

def floatByteCompare (v1 v2 : Rat) : Bool := trunc (v1 * 8) == trunc (v2 * 8)

def floatAngleCompare (v1 v2 : Rat) : Bool :=
  trunc (v1 * 256 / 360) % 256 == trunc (v2 * 256 / 360) % 256

/-- One `MSG_Write` of an integer. -/
inductive Written where
  | byte (c : Int)
  | short (c : Int)
  | long (c : Int)
  deriving DecidableEq

/-- What a reader of the right size gets. -/
def Written.value : Written → Nat
  | .byte c => (c % 2 ^ 8).toNat
  | .short c => (c % 2 ^ 16).toNat
  | .long c => (c % 2 ^ 32).toNat

def Written.bytes : Written → List UInt8
  | .byte c => [UInt8.ofNat (c % 2 ^ 8).toNat]
  | .short c => shortBytes (c % 2 ^ 16).toNat
  | .long c => longBytes (c % 2 ^ 32).toNat

def msgWriteCoord (f : Rat) : Written := .short (trunc (f * 8))
def msgWriteAngle (f : Rat) : Written := .byte (trunc (f * 256 / 360) % 256)

structure Bits where
  origin1 : Bool
  origin2 : Bool
  origin3 : Bool
  originDelta : Bool
  angle1 : Bool
  angle2 : Bool
  angle3 : Bool
  skin8 : Bool
  skin16 : Bool
  frame8 : Bool
  frame16 : Bool
  effects8 : Bool
  effects16 : Bool
  renderfx8 : Bool
  renderfx16 : Bool
  solid : Bool
  event : Bool
  model : Bool
  numparts : Bool
  modelparts : Bool
  part3model : Bool
  sound : Bool
  sound16 : Bool
  oldorigin : Bool
  modellight : Bool
  scale : Bool
  deriving DecidableEq

def flag (set : Bool) (bit : Nat) : Nat := if set then 2 ^ bit else 0

/-- The flag word before the size flags are added. -/
def Bits.value (b : Bits) : Nat :=
  flag b.origin1 0 + flag b.origin2 1 + flag b.angle2 2 + flag b.angle3 3 + flag b.frame8 4 +
  flag b.originDelta 5 + flag b.origin3 9 + flag b.angle1 10 + flag b.model 11 +
  flag b.renderfx8 12 + flag b.event 13 + flag b.effects8 14 + flag b.skin8 16 +
  flag b.frame16 17 + flag b.renderfx16 18 + flag b.effects16 19 + flag b.sound16 20 +
  flag b.part3model 21 + flag b.oldorigin 24 + flag b.skin16 25 + flag b.sound 26 +
  flag b.solid 27 + flag b.numparts 28 + flag b.modelparts 29 + flag b.modellight 30 +
  flag b.scale 31

def rfBeam (renderfx : Int) : Bool := (renderfx / 128) % 2 == 1

def near (a b : Rat) : Bool := a - b < 32 && b - a < 32

/-- The first half of the function: which fields have to be sent. -/
def deltaBits (protocolVersion : Nat) (newentity deltaorigin : Bool) (old new : EntityState) :
    Bits :=
  let origin1 := !floatByteCompare new.origin.x old.origin.x
  let origin2 := !floatByteCompare new.origin.y old.origin.y
  let origin3 := !floatByteCompare new.origin.z old.origin.z
  let skinnum : Int := new.skinnum % 2 ^ 32
  let renderfxChanged := new.renderfx != old.renderfx || new.renderfx2 != old.renderfx2
  let v := max new.renderfx2 new.renderfx
  let wholeParts := new.modelindex != 255 || protocolVersion < 114
  { origin1, origin2, origin3
    originDelta := deltaorigin && !newentity && (origin1 || origin2 || origin3) &&
      near new.origin.x old.origin.x && near new.origin.y old.origin.y &&
      near new.origin.z old.origin.z
    angle1 := !floatAngleCompare new.angles.x old.angles.x
    angle2 := !floatAngleCompare new.angles.y old.angles.y
    angle3 := !floatAngleCompare new.angles.z old.angles.z
    skin8 := new.skinnum != old.skinnum && (skinnum < 256 || !(skinnum < 0x10000))
    skin16 := new.skinnum != old.skinnum && !(skinnum < 256)
    frame8 := new.frame != old.frame && new.frame < 256
    frame16 := new.frame != old.frame && !(new.frame < 256)
    effects8 := new.effects != old.effects && (new.effects < 256 || !(new.effects < 0x8000))
    effects16 := new.effects != old.effects && !(new.effects < 256)
    renderfx8 := renderfxChanged && (v < 256 || !(v < 0x8000))
    renderfx16 := renderfxChanged && !(v < 256)
    solid := new.solid != old.solid
    event := new.event != 0
    model := new.modelindex != old.modelindex
    numparts := wholeParts && new.numParts != old.numParts
    modelparts := wholeParts && new.modelParts != old.modelParts
    part3model := !wholeParts && new.part3.modelindex != old.part3.modelindex
    sound := new.sound != old.sound && !(new.sound > 255)
    sound16 := new.sound != old.sound && new.sound > 255
    oldorigin := rfBeam new.renderfx || newentity &&
      !(floatByteCompare new.oldOrigin.x old.oldOrigin.x &&
        floatByteCompare new.oldOrigin.y old.oldOrigin.y &&
        floatByteCompare new.oldOrigin.z old.oldOrigin.z)
    modellight := new.modelLighting != old.modelLighting
    scale := new.scale != old.scale }

def bitMask (as : List (Fin 8)) : Int := (as.map fun a : Fin 8 => 2 ^ a.val).sum

def skinsWritten (old new : Vector UInt8 maxModelpartObjects) : List Written :=
  let objects := (List.finRange 8).filter fun a2 => new[a2] != old[a2]
  .byte (bitMask objects) :: objects.map fun a2 => .byte new[a2].toNat

/-- Of a part that differs, the members that do. -/
def modelPartWritten (old new : ModelPart) : List Written :=
  let c2 := flag (new.modelindex != old.modelindex) 0 +
    flag (new.invisibleObjects != old.invisibleObjects) 1 + flag (new.skinnum != old.skinnum) 2
  .byte c2 ::
    ((if new.modelindex != old.modelindex then [.byte new.modelindex] else []) ++
      ((if new.invisibleObjects != old.invisibleObjects then
        [.byte new.invisibleObjects.toNat] else []) ++
      if new.skinnum != old.skinnum then skinsWritten old.skinnum new.skinnum else []))

/-- The parts that differ. -/
def modelPartsWritten (old new : Vector ModelPart maxModelParts) : List Written :=
  let changed := (List.finRange 8).filter fun a => new[a] != old[a]
  .byte (bitMask changed) :: changed.flatMap fun a => modelPartWritten old[a] new[a]

def lightWord (m : ModelLighting) : Int :=
  (((List.finRange maxModelDirLights).filter fun a => a.val < m.numDirLights).map fun a =>
    (m.lightIndexes[a] + 1) * 2 ^ (a.val * 10)).sum

def bySize (bit8 bit16 : Bool) (c : Int) : Option Written :=
  if bit8 && bit16 then some (.long c)
  else if bit8 then some (.byte c)
  else if bit16 then some (.short c)
  else none

def writeIf (set : Bool) (field : Written) : Option Written := if set then some field else none

/-- What one update writes after its flags, in the writer's order. -/
structure Delta where
  bits : Bits
  number : Nat
  modelindex : Option Written
  numParts : Option Written
  modelParts : List Written
  part3model : Option Written
  frame : Option Written
  skinnum : Option Written
  effects : Option Written
  renderfx : Option Written
  renderfx2 : Option Written
  origin1 : Option Written
  origin2 : Option Written
  origin3 : Option Written
  angle1 : Option Written
  angle2 : Option Written
  angle3 : Option Written
  oldOrigin : List Written
  sound : Option Written
  event : Option Written
  solid : Option Written
  scale : Option Written
  modelLighting : Option Written
  deriving DecidableEq

/-- The second half of the function. -/
def writeFields (b : Bits) (old new : EntityState) : Delta :=
  let writeOrigin (set : Bool) (x y : Rat) : Option Written :=
    writeIf set (if b.originDelta then .byte (trunc ((x - y) * 4) + 128)
      else msgWriteCoord x)
  { bits := b
    number := new.number
    modelindex := writeIf b.model (.byte new.modelindex)
    numParts := writeIf b.numparts (.byte new.numParts)
    modelParts := if b.modelparts then modelPartsWritten old.modelParts new.modelParts else []
    part3model := writeIf b.part3model (.byte new.part3.modelindex)
    frame := if b.frame8 then some (.byte new.frame) else writeIf b.frame16 (.short new.frame)
    skinnum := bySize b.skin8 b.skin16 new.skinnum
    effects := bySize b.effects8 b.effects16 new.effects
    renderfx := bySize b.renderfx8 b.renderfx16 new.renderfx
    renderfx2 := bySize b.renderfx8 b.renderfx16 new.renderfx2
    origin1 := writeOrigin b.origin1 new.origin.x old.origin.x
    origin2 := writeOrigin b.origin2 new.origin.y old.origin.y
    origin3 := writeOrigin b.origin3 new.origin.z old.origin.z
    angle1 := writeIf b.angle1 (msgWriteAngle new.angles.x)
    angle2 := writeIf b.angle2 (msgWriteAngle new.angles.y)
    angle3 := writeIf b.angle3 (msgWriteAngle new.angles.z)
    oldOrigin := if b.oldorigin then [msgWriteCoord new.oldOrigin.x, msgWriteCoord new.oldOrigin.y,
      msgWriteCoord new.oldOrigin.z] else []
    sound := if b.sound then some (.byte new.sound) else writeIf b.sound16 (.short new.sound)
    event := writeIf b.event (.byte new.event)
    solid := writeIf b.solid (.short new.solid)
    scale := writeIf b.scale (.byte (trunc ((new.scale + 1) * 127)))
    modelLighting := writeIf b.modellight (.long (lightWord new.modelLighting)) }

/-- The flag word and the number, with the flags that give their sizes. -/
def headerBytes (bits number : Nat) : List UInt8 :=
  let bits := bits + flag (256 ≤ number) 8
  let more3 := 2 ^ 24 ≤ bits
  let more2 := more3 ∨ 2 ^ 16 ≤ bits
  let more1 := more2 ∨ 2 ^ 8 ≤ bits
  let bits := bits + flag more1 7 + flag more2 15 + flag more3 23
  (longBytes bits).take (if more3 then 4 else if more2 then 3 else if more1 then 2 else 1) ++
    if 256 ≤ number then shortBytes number else [UInt8.ofNat number]

def Delta.bytes (d : Delta) : List UInt8 :=
  headerBytes d.bits.value d.number ++
    (d.modelindex.toList ++ d.numParts.toList ++ d.modelParts ++ d.part3model.toList ++
      d.frame.toList ++ d.skinnum.toList ++ d.effects.toList ++ d.renderfx.toList ++
      d.renderfx2.toList ++ d.origin1.toList ++ d.origin2.toList ++ d.origin3.toList ++
      d.angle1.toList ++ d.angle2.toList ++ d.angle3.toList ++ d.oldOrigin ++ d.sound.toList ++
      d.event.toList ++ d.solid.toList ++ d.scale.toList ++ d.modelLighting.toList).flatMap
      Written.bytes

/-- `U_REMOVE` is flag 6. -/
def commandBytes : Command Delta → List UInt8
  | .remove number => headerBytes (2 ^ 6) number
  | .update _ delta => delta.bytes

/-- `none` is the fatal error for a bad entity number; otherwise at most one
command is written. -/
def svWriteDeltaEntity (protocolVersion : Nat) (old : EntityState) (new : Option EntityState)
    (force newentity deltaorigin : Bool) : Option (List (Command Delta)) :=
  match new with
  | none => some [.remove old.number]
  | some new =>
    if old.number ≥ maxEdicts .kingpin then none
    else if new.number ≥ maxEdicts .kingpin ∨ new.number < 1 then none
    else
      let bits := deltaBits protocolVersion newentity deltaorigin old new
      if bits.value = 0 ∧ ¬ force then some []
      else some [.update new.number (writeFields bits old new)]

/-! ## What a client knows of an entity -/

structure View where
  number : Nat
  modelindex : Nat
  frame : Nat
  skinnum : Nat
  effects : Nat
  renderfx : Nat
  renderfx2 : Nat
  origin1 : Nat
  origin2 : Nat
  origin3 : Nat
  angle1 : Nat
  angle2 : Nat
  angle3 : Nat
  sound : Nat
  event : Nat
  solid : Nat
  scale : Nat
  modelLighting : Nat
  deriving DecidableEq

/-- The size in which a value is sent, if it is sent. -/
def sized (size c : Int) (limit : Int) : Written :=
  if size < 256 then .byte c else if size < limit then .short c else .long c

def view (s : EntityState) : View where
  number := s.number
  modelindex := (Written.byte s.modelindex).value
  frame := (if s.frame < 256 then Written.byte s.frame else .short s.frame).value
  skinnum := (sized (s.skinnum % 2 ^ 32) s.skinnum 0x10000).value
  effects := (sized s.effects s.effects 0x8000).value
  renderfx := (sized (max s.renderfx2 s.renderfx) s.renderfx 0x8000).value
  renderfx2 := (sized (max s.renderfx2 s.renderfx) s.renderfx2 0x8000).value
  origin1 := (msgWriteCoord s.origin.x).value
  origin2 := (msgWriteCoord s.origin.y).value
  origin3 := (msgWriteCoord s.origin.z).value
  angle1 := (msgWriteAngle s.angles.x).value
  angle2 := (msgWriteAngle s.angles.y).value
  angle3 := (msgWriteAngle s.angles.z).value
  sound := (if s.sound > 255 then Written.short s.sound else .byte s.sound).value
  event := (Written.byte s.event).value
  solid := (Written.short s.solid).value
  scale := (Written.byte (trunc ((s.scale + 1) * 127))).value
  modelLighting := (Written.long (lightWord s.modelLighting)).value

def received (field : Option Written) (base : Nat) : Nat := (field.map Written.value).getD base

/-- An update over what the client had. The event is never kept. -/
def applyDelta (base : View) (delta : Delta) : View where
  number := delta.number
  modelindex := received delta.modelindex base.modelindex
  frame := received delta.frame base.frame
  skinnum := received delta.skinnum base.skinnum
  effects := received delta.effects base.effects
  renderfx := received delta.renderfx base.renderfx
  renderfx2 := received delta.renderfx2 base.renderfx2
  origin1 := received delta.origin1 base.origin1
  origin2 := received delta.origin2 base.origin2
  origin3 := received delta.origin3 base.origin3
  angle1 := received delta.angle1 base.angle1
  angle2 := received delta.angle2 base.angle2
  angle3 := received delta.angle3 base.angle3
  sound := received delta.sound base.sound
  event := received delta.event 0
  solid := received delta.solid base.solid
  scale := received delta.scale base.scale
  modelLighting := received delta.modelLighting base.modelLighting

def carryView (v : View) : View := { v with event := 0 }

theorem received_writeIf {set : Bool} {field : Written} {base : Nat}
    (h : set = false → base = field.value) : received (writeIf set field) base = field.value := by
  cases set with
  | false => exact h rfl
  | true => rfl

theorem received_bySize {changed : Bool} {size c limit : Int} {base : Nat}
    (h : changed = false → base = (sized size c limit).value) :
    received (bySize (changed && (decide (size < 256) || !decide (size < limit)))
      (changed && !decide (size < 256)) c) base = (sized size c limit).value := by
  cases changed with
  | false => exact h rfl
  | true =>
    unfold sized
    by_cases hsmall : size < 256
    · simp [bySize, received, hsmall]
    · by_cases hmedium : size < limit
      · simp [bySize, received, hsmall, hmedium]
      · simp [bySize, received, hsmall, hmedium]

theorem received_coord (x y : Rat) :
    received (writeIf (!floatByteCompare x y) (msgWriteCoord x)) (msgWriteCoord y).value =
      (msgWriteCoord x).value := by
  apply received_writeIf
  intro h
  have heq : trunc (x * 8) = trunc (y * 8) := by simpa [floatByteCompare] using h
  rw [msgWriteCoord, msgWriteCoord, heq]

theorem received_angle (x y : Rat) :
    received (writeIf (!floatAngleCompare x y) (msgWriteAngle x)) (msgWriteAngle y).value =
      (msgWriteAngle x).value := by
  apply received_writeIf
  intro h
  have heq : trunc (x * 256 / 360) % 256 = trunc (y * 256 / 360) % 256 := by
    simpa [floatAngleCompare] using h
  rw [msgWriteAngle, msgWriteAngle, heq]

theorem received_changed {α : Type} [DecidableEq α] (f : α → Written) (x y : α) :
    received (writeIf (x != y) (f x)) (f y).value = (f x).value := by
  apply received_writeIf
  intro h
  have heq : x = y := by simpa using h
  rw [heq]

/-- Two sizes, told apart by a test of the value. -/
theorem received_either (x y : Int) (test : Int → Bool) (f g : Int → Written) :
    received (if (x != y && test x) = true then some (f x)
      else writeIf (x != y && !test x) (g x)) (if test y = true then f y else g y).value =
      (if test x = true then f x else g x).value := by
  by_cases heq : x = y
  · subst heq
    simp [received, writeIf]
  · cases ht : test x <;> simp [received, writeIf, heq]

/-- An update brings everything in the view up to date, whatever its base. -/
theorem applyDelta_view (protocolVersion : Nat) (newentity : Bool) (old new : EntityState) :
    applyDelta (view old)
      (writeFields (deltaBits protocolVersion newentity false old new) old new) = view new := by
  have hframe := received_either new.frame old.frame (fun v => decide (v < 256)) .byte .short
  have hsound := received_either new.sound old.sound (fun v => !decide (v > 255)) .byte .short
  have hfx : ∀ c d : Int, (new.renderfx = old.renderfx → new.renderfx2 = old.renderfx2 → c = d) →
      received (bySize
          ((new.renderfx != old.renderfx || new.renderfx2 != old.renderfx2) &&
            (decide (max new.renderfx2 new.renderfx < 256) ||
              !decide (max new.renderfx2 new.renderfx < 0x8000)))
          ((new.renderfx != old.renderfx || new.renderfx2 != old.renderfx2) &&
            !decide (max new.renderfx2 new.renderfx < 256)) c)
        (sized (max old.renderfx2 old.renderfx) d 0x8000).value =
      (sized (max new.renderfx2 new.renderfx) c 0x8000).value := by
    intro c d hcd
    apply received_bySize
    intro hsame
    simp only [Bool.or_eq_false_iff, bne_eq_false_iff_eq] at hsame
    rw [hcd hsame.1 hsame.2, hsame.1, hsame.2]
  simp only [applyDelta, view, View.mk.injEq]
  refine ⟨rfl, received_changed .byte _ _, ?_, ?_, ?_, hfx _ _ (fun h _ => h),
    hfx _ _ (fun _ h => h), ?_, ?_, ?_, received_angle _ _, received_angle _ _,
    received_angle _ _, ?_, ?_, received_changed .short _ _, ?_, ?_⟩
  · simpa [writeFields, deltaBits] using hframe
  · apply received_bySize
    intro hsame
    rw [bne_eq_false_iff_eq.mp hsame]
  · have hsmall : decide (new.effects < 256) = decide ((new.effects : Int) < 256) := by
      rw [decide_eq_decide]
      omega
    have hmedium : decide (new.effects < 0x8000) = decide ((new.effects : Int) < 0x8000) := by
      rw [decide_eq_decide]
      omega
    simp only [writeFields, deltaBits, hsmall, hmedium]
    apply received_bySize
    intro hsame
    rw [bne_eq_false_iff_eq.mp hsame]
  · simpa [writeFields, deltaBits] using received_coord new.origin.x old.origin.x
  · simpa [writeFields, deltaBits] using received_coord new.origin.y old.origin.y
  · simpa [writeFields, deltaBits] using received_coord new.origin.z old.origin.z
  · have heither : ∀ v : Int, (if 255 < v then Written.short v else .byte v) =
        if v ≤ 255 then .byte v else .short v := by
      intro v
      by_cases h : v ≤ 255
      · rw [if_neg (by omega), if_pos h]
      · rw [if_pos (by omega), if_neg h]
    simpa [writeFields, deltaBits, heither] using hsound
  · by_cases hevent : new.event = 0
    · simp [writeFields, deltaBits, writeIf, received, Written.value, hevent]
    · simp [writeFields, deltaBits, writeIf, received, hevent]
  · exact received_changed (fun s => .byte (trunc ((s + 1) * 127))) _ _
  · exact received_changed (fun m => .long (lightWord m)) _ _

theorem flag_eq_zero_iff (set : Bool) (bit : Nat) : flag set bit = 0 ↔ set = false := by
  cases set <;> simp [flag]

def noBits : Bits :=
  ⟨false, false, false, false, false, false, false, false, false, false, false, false, false,
    false, false, false, false, false, false, false, false, false, false, false, false, false⟩

theorem eq_noBits_of_value {b : Bits} (h : b.value = 0) : b = noBits := by
  cases b
  simp only [Bits.value, Nat.add_eq_zero_iff, flag_eq_zero_iff] at h
  simp only [noBits, Bits.mk.injEq]
  simp only [h, and_self]

/-- Without flags nothing follows the number. -/
theorem applyDelta_noBits {base : View} (old : EntityState) {new : EntityState}
    (hnumber : base.number = new.number) :
    applyDelta base (writeFields noBits old new) = carryView base := by
  cases base
  obtain rfl := hnumber
  rfl

theorem view_number (s : EntityState) : (view s).number = s.number := rfl

/-- No flag set means that nothing in the view has changed but the event. -/
theorem carryView_of_no_bits {protocolVersion : Nat} {newentity : Bool} {old new : EntityState}
    (hnumber : old.number = new.number)
    (h : (deltaBits protocolVersion newentity false old new).value = 0) :
    carryView (view old) = view new := by
  have happly := applyDelta_view protocolVersion newentity old new
  generalize deltaBits protocolVersion newentity false old new = b at happly h
  obtain rfl := eq_noBits_of_value h
  rw [applyDelta_noBits old ((view_number old).trans hnumber)] at happly
  exact happly

/-! ## One command -/

/-- A client's baselines. -/
structure Baselines where
  state : Nat → EntityState
  inRange : ∀ n, (state n).number < maxEdicts .kingpin

/-- The reference decoder: an update starts from the old entity if there is one,
and from the baseline otherwise. -/
def reader (lastlines : Baselines) : Reader View Delta where
  numberOf := View.number
  apply := applyDelta
  carry := carryView
  baseline n := view (lastlines.state n)

def InRange (s : EntityState) : Prop := 0 < s.number ∧ s.number < maxEdicts .kingpin

instance (s : EntityState) : Decidable (InRange s) := inferInstanceAs (Decidable (_ ∧ _))

theorem svWriteDeltaEntity_change (protocolVersion : Nat) {old new : EntityState}
    (lastlines : Baselines) (hsame : old.number = new.number) (hnew : InRange new) :
    ∃ cmds, svWriteDeltaEntity protocolVersion old (some new) false false false = some cmds ∧
      Encodes (reader lastlines) EntityState.number view (.change old new) cmds [new] := by
  have hold : ¬ old.number ≥ maxEdicts .kingpin := by
    have := hnew.2
    omega
  have hbad : ¬ (new.number ≥ maxEdicts .kingpin ∨ new.number < 1) := by
    have := hnew.1
    have := hnew.2
    omega
  simp only [svWriteDeltaEntity, if_neg hold, if_neg hbad]
  by_cases hbits : (deltaBits protocolVersion false false old new).value = 0
  · refine ⟨[], if_pos ⟨hbits, by decide⟩, ?_⟩
    exact Encodes.unchanged old new (carryView_of_no_bits hsame hbits)
  · refine ⟨_, if_neg (fun h => hbits h.1), ?_⟩
    exact Encodes.change old new _ (applyDelta_view protocolVersion false old new)

theorem svWriteDeltaEntity_add (protocolVersion : Nat) {new : EntityState}
    (lastlines : Baselines) (hnew : InRange new) :
    ∃ delta, svWriteDeltaEntity protocolVersion (lastlines.state new.number) (some new)
        true true false = some [.update new.number delta] ∧
      Encodes (reader lastlines) EntityState.number view (.add new) [.update new.number delta]
        [new] := by
  have hold : ¬ (lastlines.state new.number).number ≥ maxEdicts .kingpin := by
    have := lastlines.inRange new.number
    omega
  have hbad : ¬ (new.number ≥ maxEdicts .kingpin ∨ new.number < 1) := by
    have := hnew.1
    have := hnew.2
    omega
  simp only [svWriteDeltaEntity, if_neg hold, if_neg hbad]
  refine ⟨_, if_neg (fun h => h.2 trivial), ?_⟩
  exact Encodes.add new _ (applyDelta_view protocolVersion true _ new)

end DeltaEntity
