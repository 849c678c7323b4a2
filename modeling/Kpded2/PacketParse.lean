import Mathlib.Data.Nat.Init
import Mathlib.Data.Fin.VecNotation
import Mathlib.Tactic.Ring.Basic
import Kpded2.ByteReader
import Kpded2.PacketEntities

/-!
# Reading `svc_packetentities`

The inverse of `packetBytes`, as a client reads the message: flags, number, and the
fields that the flags announce, up to two zero bytes. What is read of a field is its
value in the size in which it was sent, `normal`.
-/
namespace PacketParse
open Protocol SizeBuf SortedEdits DeltaEntity PacketEntities ByteReader

/-! ## Fields -/

inductive Size where
  | byte
  | short
  | long

def size : Written → Size
  | .byte _ => .byte
  | .short _ => .short
  | .long _ => .long

def normal : Written → Written
  | .byte c => .byte (c % 2 ^ 8)
  | .short c => .short (c % 2 ^ 16)
  | .long c => .long (c % 2 ^ 32)

theorem value_normal (w : Written) : (normal w).value = w.value := by
  cases w <;> simp [normal, Written.value]

def readShort : Reader Nat := do
  let a ← readByte
  let b ← readByte
  pure (a.toNat + b.toNat * 2 ^ 8)

def readLong : Reader Nat := do
  let a ← readShort
  let b ← readShort
  pure (a + b * 2 ^ 16)

def readWritten : Size → Reader Written
  | .byte => (fun b => .byte b.toNat) <$> readByte
  | .short => (fun n => .short n) <$> readShort
  | .long => (fun n => .long n) <$> readLong

theorem reads_shortBytes {n : Nat} (h : n < 2 ^ 16) : Reads readShort (shortBytes n) n := by
  intro rest
  change some ((UInt8.ofNat n).toNat + (UInt8.ofNat (n / 2 ^ 8)).toNat * 2 ^ 8, rest) = _
  simp only [UInt8.toNat_ofNat', Option.some.injEq, Prod.mk.injEq, and_true]
  omega

theorem reads_longBytes {n : Nat} (h : n < 2 ^ 32) : Reads readLong (longBytes n) n := by
  intro rest
  change some ((UInt8.ofNat n).toNat + (UInt8.ofNat (n / 2 ^ 8)).toNat * 2 ^ 8 +
    ((UInt8.ofNat (n / 2 ^ 16)).toNat + (UInt8.ofNat (n / 2 ^ 24)).toNat * 2 ^ 8) * 2 ^ 16,
      rest) = _
  simp only [UInt8.toNat_ofNat', Option.some.injEq, Prod.mk.injEq, and_true]
  omega

theorem reads_written (w : Written) : Reads (readWritten (size w)) w.bytes (normal w) := by
  cases w with
  | byte c =>
    have hread := (reads_readByte (UInt8.ofNat (c % 2 ^ 8).toNat)).map
      (f := fun b : UInt8 => Written.byte b.toNat)
    have hvalue : ((UInt8.ofNat (c % 2 ^ 8).toNat).toNat : Int) = c % 2 ^ 8 := by
      rw [UInt8.toNat_ofNat']
      omega
    rwa [hvalue] at hread
  | short c =>
    have hlt : (c % 2 ^ 16).toNat < 2 ^ 16 := by omega
    have hread := (reads_shortBytes hlt).map (f := fun n : Nat => Written.short n)
    have hvalue : ((c % 2 ^ 16).toNat : Int) = c % 2 ^ 16 := by omega
    rwa [hvalue] at hread
  | long c =>
    have hlt : (c % 2 ^ 32).toNat < 2 ^ 32 := by omega
    have hread := (reads_longBytes hlt).map (f := fun n : Nat => Written.long n)
    have hvalue : ((c % 2 ^ 32).toNat : Int) = c % 2 ^ 32 := by omega
    rwa [hvalue] at hread

/-- The bytes of fields that are written one after the other. -/
def allBytes (fields : List Written) : List UInt8 := fields.flatMap Written.bytes

theorem allBytes_append (xs ys : List Written) : allBytes (xs ++ ys) = allBytes xs ++ allBytes ys :=
  List.flatMap_append

theorem allBytes_cons (w : Written) (ws : List Written) :
    allBytes (w :: ws) = w.bytes ++ allBytes ws :=
  List.flatMap_cons

def readIf (set : Bool) (size : Size) : Reader (Option Written) :=
  if set then some <$> readWritten size else pure none

/-- The size of a field that two flags announce. -/
def readBySize (bit8 bit16 : Bool) : Reader (Option Written) :=
  if bit8 && bit16 then some <$> readWritten .long
  else if bit8 then some <$> readWritten .byte
  else readIf bit16 .short

theorem reads_some (w : Written) :
    Reads (some <$> readWritten (size w)) (allBytes (some w).toList) (some (normal w)) := by
  rw [Option.toList_some, allBytes_cons]
  exact (List.append_nil w.bytes).symm ▸ (reads_written w).map

theorem reads_writeIf (set : Bool) (w : Written) :
    Reads (readIf set (size w)) (allBytes (writeIf set w).toList) ((writeIf set w).map normal) := by
  cases set with
  | false => exact reads_pure none
  | true => exact reads_some w

theorem reads_bySize (bit8 bit16 : Bool) (c : Int) :
    Reads (readBySize bit8 bit16) (allBytes (bySize bit8 bit16 c).toList)
      ((bySize bit8 bit16 c).map normal) := by
  cases bit8 with
  | false =>
    cases bit16 with
    | false => exact reads_pure none
    | true => exact reads_some (.short c)
  | true =>
    cases bit16 with
    | false => exact reads_some (.byte c)
    | true => exact reads_some (.long c)

/-- One byte, or else a short. -/
def readEither (bit8 bit16 : Bool) : Reader (Option Written) :=
  if bit8 then some <$> readWritten .byte else readIf bit16 .short

theorem reads_either (bit8 bit16 : Bool) (c : Int) :
    Reads (readEither bit8 bit16)
      (allBytes (if bit8 then some (.byte c) else writeIf bit16 (.short c)).toList)
      ((if bit8 then some (.byte c) else writeIf bit16 (.short c)).map normal) := by
  cases bit8 with
  | false => exact reads_writeIf bit16 (.short c)
  | true => exact reads_some (.byte c)

/-! ## Model parts -/

/-- The positions of the bits of a byte. -/
def bitPositions (mask : Nat) : List (Fin 8) :=
  (List.finRange 8).filter fun a => mask.testBit a.val

def maskOf (p : Fin 8 → Bool) : List (Fin 8) := (List.finRange 8).filter p

theorem sum_filter_eq (p : Fin 8 → Bool) (as : List (Fin 8)) :
    bitMask (as.filter p) = (as.map fun a => ((p a).toNat : Int) * 2 ^ a.val).sum := by
  unfold bitMask
  induction as with
  | nil => rfl
  | cons a as ih => cases hp : p a <;> simp [hp, ih]

theorem bitMask_maskOf (p : Fin 8 → Bool) : bitMask (maskOf p) = (Nat.ofBits p : Nat) := by
  rw [maskOf, sum_filter_eq]
  simp only [Nat.ofBits_succ, Nat.ofBits_zero, Function.comp_def, List.finRange, List.ofFn_succ]
  simp
  omega

def readMask : Reader (Written × List (Fin 8)) := do
  let mask ← readByte
  pure (.byte mask.toNat, bitPositions mask.toNat)

theorem reads_readMask (p : Fin 8 → Bool) :
    Reads readMask (Written.byte (bitMask (maskOf p))).bytes
      (normal (.byte (bitMask (maskOf p))), maskOf p) := by
  have hlt : Nat.ofBits p < 2 ^ 8 := Nat.ofBits_lt_two_pow p
  rw [bitMask_maskOf]
  have hread := (reads_readByte (UInt8.ofNat ((Nat.ofBits p : Int) % 2 ^ 8).toNat)).map
    (f := fun b : UInt8 => (Written.byte b.toNat, bitPositions b.toNat))
  have hbyte : (UInt8.ofNat ((Nat.ofBits p : Int) % 2 ^ 8).toNat).toNat = Nat.ofBits p := by
    rw [UInt8.toNat_ofNat']
    omega
  have hnormal : normal (.byte (Nat.ofBits p)) = .byte (Nat.ofBits p) := by
    simp only [normal, Written.byte.injEq]
    omega
  have hpositions : bitPositions (Nat.ofBits p) = maskOf p := by
    apply List.filter_congr
    intro a _
    exact Nat.testBit_ofBits_lt p a.val a.isLt
  rw [hbyte, hpositions, ← hnormal] at hread
  exact hread

def readSkins : Reader (List Written) := do
  let (mask, positions) ← readMask
  let skins ← readMany (readWritten .byte) positions.length
  pure (mask :: skins)

theorem reads_skins (old new : Vector UInt8 maxModelpartObjects) :
    Reads readSkins (allBytes (skinsWritten old new)) ((skinsWritten old new).map normal) := by
  have hskins : Reads (readMany (readWritten .byte) (maskOf fun a => new[a] != old[a]).length)
      (allBytes ((maskOf fun a => new[a] != old[a]).map fun a => .byte new[a].toNat))
      (((maskOf fun a => new[a] != old[a]).map fun a => Written.byte new[a].toNat).map normal) := by
    have hone : ∀ a : Fin 8, Reads (readWritten .byte) (Written.byte new[a].toNat).bytes
        (normal (.byte new[a].toNat)) := fun a => reads_written (.byte new[a].toNat)
    rw [List.map_map, allBytes, List.flatMap_map]
    exact reads_readMany hone _
  exact (reads_readMask _).bind (Reads.last hskins)

/-- The flags of a part that has changed. -/
def flags3 (x y z : Bool) : Fin 8 → Bool := ![x, y, z, false, false, false, false, false]

theorem bitMask_flags3 (x y z : Bool) :
    ((flag x 0 + flag y 1 + flag z 2 : Nat) : Int) = bitMask (maskOf (flags3 x y z)) := by
  revert x y z
  decide

def readListIf (set : Bool) (p : Reader (List Written)) : Reader (List Written) :=
  if set then p else pure []

theorem reads_listIf (set : Bool) {p : Reader (List Written)} {fields : List Written}
    (h : Reads p (allBytes fields) (fields.map normal)) :
    Reads (readListIf set p) (allBytes (if set then fields else []))
      ((if set then fields else []).map normal) := by
  cases set with
  | false => exact reads_pure []
  | true => exact h

def readPart : Reader (List Written) := do
  let (mask, positions) ← readMask
  let modelindex ← readIf (positions.contains 0) .byte
  let invisibleObjects ← readIf (positions.contains 1) .byte
  let skins ← readListIf (positions.contains 2) readSkins
  pure (mask :: (modelindex.toList ++ (invisibleObjects.toList ++ skins)))

theorem contains_flags3 (x y z : Bool) :
    (maskOf (flags3 x y z)).contains 0 = x ∧ (maskOf (flags3 x y z)).contains 1 = y ∧
      (maskOf (flags3 x y z)).contains 2 = z := by
  revert x y z
  decide

theorem ite_singleton (set : Bool) (w : Written) :
    (if set then [w] else []) = (writeIf set w).toList := by
  cases set <;> rfl

theorem reads_part (old new : ModelPart) :
    Reads readPart (allBytes (modelPartWritten old new)) ((modelPartWritten old new).map normal) := by
  unfold modelPartWritten
  dsimp only
  generalize (new.modelindex != old.modelindex) = x
  generalize (new.invisibleObjects != old.invisibleObjects) = y
  generalize (new.skinnum != old.skinnum) = z
  rw [bitMask_flags3, allBytes_cons, allBytes_append, allBytes_append, ite_singleton, ite_singleton]
  obtain ⟨hx, hy, hz⟩ := contains_flags3 x y z
  unfold readPart
  apply (reads_readMask _).bind
  simp only [hx, hy, hz]
  apply (reads_writeIf x (.byte new.modelindex)).bind
  apply (reads_writeIf y (.byte new.invisibleObjects.toNat)).bind
  have hread := Reads.last (f := fun skins => normal (.byte (bitMask (maskOf (flags3 x y z)))) ::
    (((writeIf x (.byte new.modelindex)).map normal).toList ++
      (((writeIf y (.byte new.invisibleObjects.toNat)).map normal).toList ++ skins)))
    (reads_listIf z (reads_skins old.skinnum new.skinnum))
  simpa only [List.map_cons, List.map_append, Option.toList_map] using hread

def readModelParts : Reader (List Written) := do
  let (mask, positions) ← readMask
  let parts ← readEach (fun _ => readPart) positions
  pure (mask :: parts.flatten)

theorem reads_modelParts (old new : Vector ModelPart maxModelParts) :
    Reads readModelParts (allBytes (modelPartsWritten old new))
      ((modelPartsWritten old new).map normal) := by
  have hparts := reads_readEach (fun a : Fin 8 => reads_part old[a] new[a])
    (maskOf fun a => new[a] != old[a])
  have hread := (reads_readMask fun a => new[a] != old[a]).bind
    (f := fun r => readEach (fun _ => readPart) r.2 >>= fun parts => pure (r.1 :: parts.flatten))
    (Reads.last hparts)
  unfold modelPartsWritten
  dsimp only
  rw [allBytes_cons, List.map_cons, List.map_flatMap, allBytes, List.flatMap_assoc]
  rw [← List.flatMap_def] at hread
  exact hread

/-! ## One update -/

/-- The whole flag word, with the flags that tell its own size and the number's. -/
def flagSet (b : Bits) (remove more1 number16 more2 more3 : Bool) : Fin 32 → Bool :=
  ![b.origin1, b.origin2, b.angle2, b.angle3, b.frame8, b.originDelta, remove, more1,
    number16, b.origin3, b.angle1, b.model, b.renderfx8, b.event, b.effects8, more2,
    b.skin8, b.frame16, b.renderfx16, b.effects16, b.sound16, b.part3model, false, more3,
    b.oldorigin, b.skin16, b.sound, b.solid, b.numparts, b.modelparts, b.modellight, b.scale]

def bitsOf (flags : Nat) : Bits where
  origin1 := flags.testBit 0
  origin2 := flags.testBit 1
  origin3 := flags.testBit 9
  originDelta := flags.testBit 5
  angle1 := flags.testBit 10
  angle2 := flags.testBit 2
  angle3 := flags.testBit 3
  skin8 := flags.testBit 16
  skin16 := flags.testBit 25
  frame8 := flags.testBit 4
  frame16 := flags.testBit 17
  effects8 := flags.testBit 14
  effects16 := flags.testBit 19
  renderfx8 := flags.testBit 12
  renderfx16 := flags.testBit 18
  solid := flags.testBit 27
  event := flags.testBit 13
  model := flags.testBit 11
  numparts := flags.testBit 28
  modelparts := flags.testBit 29
  part3model := flags.testBit 21
  sound := flags.testBit 26
  sound16 := flags.testBit 20
  oldorigin := flags.testBit 24
  modellight := flags.testBit 30
  scale := flags.testBit 31

theorem flag_eq (set : Bool) (bit : Nat) : flag set bit = set.toNat * 2 ^ bit := by
  cases set <;> simp [flag]

theorem flags_eq_ofBits (b : Bits) (remove more1 number16 more2 more3 : Bool) :
    b.value + flag remove 6 + flag number16 8 + flag more1 7 + flag more2 15 + flag more3 23 =
      Nat.ofBits (flagSet b remove more1 number16 more2 more3) := by
  simp only [Bits.value, flag_eq, Nat.ofBits_succ, Nat.ofBits_zero, flagSet, Function.comp_def]
  simp
  omega

theorem bitsOf_flagSet (b : Bits) (remove more1 number16 more2 more3 : Bool) :
    bitsOf (Nat.ofBits (flagSet b remove more1 number16 more2 more3)) = b := by
  unfold bitsOf
  simp only [Nat.testBit_ofBits_lt, Nat.reduceLT]
  rfl

def normalDelta (d : Delta) : Delta where
  bits := d.bits
  number := d.number
  modelindex := d.modelindex.map normal
  numParts := d.numParts.map normal
  modelParts := d.modelParts.map normal
  part3model := d.part3model.map normal
  frame := d.frame.map normal
  skinnum := d.skinnum.map normal
  effects := d.effects.map normal
  renderfx := d.renderfx.map normal
  renderfx2 := d.renderfx2.map normal
  origin1 := d.origin1.map normal
  origin2 := d.origin2.map normal
  origin3 := d.origin3.map normal
  angle1 := d.angle1.map normal
  angle2 := d.angle2.map normal
  angle3 := d.angle3.map normal
  oldOrigin := d.oldOrigin.map normal
  sound := d.sound.map normal
  event := d.event.map normal
  solid := d.solid.map normal
  scale := d.scale.map normal
  modelLighting := d.modelLighting.map normal

def readDelta (b : Bits) (number : Nat) : Reader Delta := do
  let modelindex ← readIf b.model .byte
  let numParts ← readIf b.numparts .byte
  let modelParts ← readListIf b.modelparts readModelParts
  let part3model ← readIf b.part3model .byte
  let frame ← readEither b.frame8 b.frame16
  let skinnum ← readBySize b.skin8 b.skin16
  let effects ← readBySize b.effects8 b.effects16
  let renderfx ← readBySize b.renderfx8 b.renderfx16
  let renderfx2 ← readBySize b.renderfx8 b.renderfx16
  let originSize := if b.originDelta then Size.byte else Size.short
  let origin1 ← readIf b.origin1 originSize
  let origin2 ← readIf b.origin2 originSize
  let origin3 ← readIf b.origin3 originSize
  let angle1 ← readIf b.angle1 .byte
  let angle2 ← readIf b.angle2 .byte
  let angle3 ← readIf b.angle3 .byte
  let oldOrigin ← readListIf b.oldorigin (readMany (readWritten .short) 3)
  let sound ← readEither b.sound b.sound16
  let event ← readIf b.event .byte
  let solid ← readIf b.solid .short
  let scale ← readIf b.scale .byte
  let modelLighting ← readIf b.modellight .long
  pure { bits := b, number, modelindex, numParts, modelParts, part3model, frame, skinnum, effects
         renderfx, renderfx2, origin1, origin2, origin3, angle1, angle2, angle3, oldOrigin, sound
         event, solid, scale, modelLighting }

def fieldBytes (d : Delta) : List UInt8 :=
  allBytes (d.modelindex.toList ++ d.numParts.toList ++ d.modelParts ++ d.part3model.toList ++
    d.frame.toList ++ d.skinnum.toList ++ d.effects.toList ++ d.renderfx.toList ++
    d.renderfx2.toList ++ d.origin1.toList ++ d.origin2.toList ++ d.origin3.toList ++
    d.angle1.toList ++ d.angle2.toList ++ d.angle3.toList ++ d.oldOrigin ++ d.sound.toList ++
    d.event.toList ++ d.solid.toList ++ d.scale.toList ++ d.modelLighting.toList)

theorem reads_origin (b : Bits) (set : Bool) (x y : Rat) :
    Reads (readIf set (if b.originDelta then .byte else .short))
      (allBytes (writeIf set (if b.originDelta then .byte (trunc ((x - y) * 4) + 128)
        else msgWriteCoord x)).toList)
      ((writeIf set (if b.originDelta then .byte (trunc ((x - y) * 4) + 128)
        else msgWriteCoord x)).map normal) := by
  cases b.originDelta with
  | false => exact reads_writeIf set (msgWriteCoord x)
  | true => exact reads_writeIf set (.byte (trunc ((x - y) * 4) + 128))

theorem reads_oldOrigin (x y z : Rat) :
    Reads (readMany (readWritten .short) 3)
      (allBytes [msgWriteCoord x, msgWriteCoord y, msgWriteCoord z])
      ([msgWriteCoord x, msgWriteCoord y, msgWriteCoord z].map normal) := by
  have hone : ∀ f : Rat, Reads (readWritten .short) (msgWriteCoord f).bytes
      (normal (msgWriteCoord f)) := fun f => reads_written (msgWriteCoord f)
  have hread := reads_readMany hone [x, y, z]
  exact hread

/-- The fields of a delta are read back. -/
theorem reads_delta (b : Bits) (old new : EntityState) :
    Reads (readDelta b new.number) (fieldBytes (writeFields b old new))
      (normalDelta (writeFields b old new)) := by
  unfold readDelta fieldBytes
  simp only [allBytes_append, List.append_assoc]
  unfold writeFields normalDelta
  dsimp only
  apply (reads_writeIf b.model (.byte new.modelindex)).bind
  apply (reads_writeIf b.numparts (.byte new.numParts)).bind
  apply (reads_listIf b.modelparts (reads_modelParts _ _)).bind
  apply (reads_writeIf b.part3model (.byte new.part3.modelindex)).bind
  apply (reads_either b.frame8 b.frame16 new.frame).bind
  apply (reads_bySize b.skin8 b.skin16 new.skinnum).bind
  apply (reads_bySize b.effects8 b.effects16 new.effects).bind
  apply (reads_bySize b.renderfx8 b.renderfx16 new.renderfx).bind
  apply (reads_bySize b.renderfx8 b.renderfx16 new.renderfx2).bind
  apply (reads_origin b b.origin1 new.origin.x old.origin.x).bind
  apply (reads_origin b b.origin2 new.origin.y old.origin.y).bind
  apply (reads_origin b b.origin3 new.origin.z old.origin.z).bind
  apply (reads_writeIf b.angle1 (msgWriteAngle new.angles.x)).bind
  apply (reads_writeIf b.angle2 (msgWriteAngle new.angles.y)).bind
  apply (reads_writeIf b.angle3 (msgWriteAngle new.angles.z)).bind
  apply (reads_listIf b.oldorigin (reads_oldOrigin _ _ _)).bind
  apply (reads_either b.sound b.sound16 new.sound).bind
  apply (reads_writeIf b.event (.byte new.event)).bind
  apply (reads_writeIf b.solid (.short new.solid)).bind
  apply (reads_writeIf b.scale (.byte (trunc ((new.scale + 1) * 127)))).bind
  exact Reads.last (reads_writeIf b.modellight (.long (lightWord new.modelLighting)))

/-! ## Flags and number -/

/-- The top bit of each of the first three bytes announces another one. -/
def readFlags : Reader Nat := do
  let b0 ← readByte
  if b0.toNat.testBit 7 then
    let b1 ← readByte
    if b1.toNat.testBit 7 then
      let b2 ← readByte
      if b2.toNat.testBit 7 then
        let b3 ← readByte
        pure (b0.toNat + b1.toNat * 2 ^ 8 + b2.toNat * 2 ^ 16 + b3.toNat * 2 ^ 24)
      else pure (b0.toNat + b1.toNat * 2 ^ 8 + b2.toNat * 2 ^ 16)
    else pure (b0.toNat + b1.toNat * 2 ^ 8)
  else pure b0.toNat

theorem testBit_byte (v shift : Nat) :
    (UInt8.ofNat (v / 2 ^ shift)).toNat.testBit 7 = v.testBit (shift + 7) := by
  rw [UInt8.toNat_ofNat', Nat.testBit_mod_two_pow, Nat.testBit_div_two_pow, Nat.add_comm 7]
  simp

/-- The flags are read back from as many bytes as they take. -/
theorem reads_flags {v : Nat} {more1 more2 more3 : Bool} (hlt : v < 2 ^ 32)
    (h1 : v.testBit 7 = more1) (h2 : v.testBit 15 = more2) (h3 : v.testBit 23 = more3)
    (hsmall1 : more1 = false → v < 2 ^ 8) (hsmall2 : more2 = false → v < 2 ^ 16)
    (hsmall3 : more3 = false → v < 2 ^ 24) (h32 : more3 = true → more2 = true)
    (h21 : more2 = true → more1 = true) :
    Reads readFlags
      ((longBytes v).take (if more3 then 4 else if more2 then 3 else if more1 then 2 else 1)) v := by
  have hb0 : (UInt8.ofNat v).toNat.testBit 7 = more1 := by
    have := testBit_byte v 0
    simpa [h1] using this
  have hb1 : (UInt8.ofNat (v / 2 ^ 8)).toNat.testBit 7 = more2 := (testBit_byte v 8).trans h2
  have hb2 : (UInt8.ofNat (v / 2 ^ 16)).toNat.testBit 7 = more3 := (testBit_byte v 16).trans h3
  have hv0 : (UInt8.ofNat v).toNat = v % 2 ^ 8 := UInt8.toNat_ofNat'
  have hv1 : (UInt8.ofNat (v / 2 ^ 8)).toNat = v / 2 ^ 8 % 2 ^ 8 := UInt8.toNat_ofNat'
  have hv2 : (UInt8.ofNat (v / 2 ^ 16)).toNat = v / 2 ^ 16 % 2 ^ 8 := UInt8.toNat_ofNat'
  have hv3 : (UInt8.ofNat (v / 2 ^ 24)).toNat = v / 2 ^ 24 % 2 ^ 8 := UInt8.toNat_ofNat'
  cases more1 with
  | false =>
    obtain rfl : more2 = false := by simpa using h21
    obtain rfl : more3 = false := by simpa using h32
    have hv := hsmall1 rfl
    refine Reads.bind (reads_readByte (UInt8.ofNat v)) ?_
    have hvalue : v % 2 ^ 8 = v := by omega
    rw [hb0, if_neg Bool.false_ne_true, hv0, hvalue]
    exact reads_pure v
  | true =>
    cases more2 with
    | false =>
      obtain rfl : more3 = false := by simpa using h32
      have hv := hsmall2 rfl
      refine Reads.bind (reads_readByte (UInt8.ofNat v)) ?_
      rw [hb0, if_pos rfl, hv0]
      refine Reads.bind (reads_readByte (UInt8.ofNat (v / 2 ^ 8))) ?_
      have hvalue : v % 2 ^ 8 + v / 2 ^ 8 % 2 ^ 8 * 2 ^ 8 = v := by omega
      rw [hb1, if_neg Bool.false_ne_true, hv1, hvalue]
      exact reads_pure v
    | true =>
      cases more3 with
      | false =>
        have hv := hsmall3 rfl
        refine Reads.bind (reads_readByte (UInt8.ofNat v)) ?_
        rw [hb0, if_pos rfl, hv0]
        refine Reads.bind (reads_readByte (UInt8.ofNat (v / 2 ^ 8))) ?_
        rw [hb1, if_pos rfl, hv1]
        refine Reads.bind (reads_readByte (UInt8.ofNat (v / 2 ^ 16))) ?_
        have hvalue : v % 2 ^ 8 + v / 2 ^ 8 % 2 ^ 8 * 2 ^ 8 + v / 2 ^ 16 % 2 ^ 8 * 2 ^ 16 = v := by
          omega
        rw [hb2, if_neg Bool.false_ne_true, hv2, hvalue]
        exact reads_pure v
      | true =>
        refine Reads.bind (reads_readByte (UInt8.ofNat v)) ?_
        rw [hb0, if_pos rfl, hv0]
        refine Reads.bind (reads_readByte (UInt8.ofNat (v / 2 ^ 8))) ?_
        rw [hb1, if_pos rfl, hv1]
        refine Reads.bind (reads_readByte (UInt8.ofNat (v / 2 ^ 16))) ?_
        rw [hb2, if_pos rfl, hv2]
        refine Reads.bind (reads_readByte (UInt8.ofNat (v / 2 ^ 24))) ?_
        have hvalue : v % 2 ^ 8 + v / 2 ^ 8 % 2 ^ 8 * 2 ^ 8 + v / 2 ^ 16 % 2 ^ 8 * 2 ^ 16 +
            v / 2 ^ 24 % 2 ^ 8 * 2 ^ 24 = v := by omega
        rw [hv3, hvalue]
        exact reads_pure v

def readNumber (flags : Nat) : Reader Nat :=
  if flags.testBit 8 then readShort else (fun b => b.toNat) <$> readByte

def readHeader : Reader (Nat × Nat) := do
  let flags ← readFlags
  let number ← readNumber flags
  pure (flags, number)

/-- What the flags of a command say, whatever its size flags. -/
structure FlagsOf (b : Bits) (remove : Bool) (flags : Nat) : Prop where
  bits : bitsOf flags = b
  remove : flags.testBit 6 = remove

theorem reads_number (flags number : Nat) (hflags : flags.testBit 8 = decide (256 ≤ number))
    (hlt : number < 2 ^ 16) :
    Reads (readNumber flags)
      (if 256 ≤ number then shortBytes number else [UInt8.ofNat number]) number := by
  rw [readNumber, hflags]
  by_cases hbig : 256 ≤ number
  · rw [if_pos hbig, if_pos (by simpa using hbig)]
    exact reads_shortBytes hlt
  · rw [if_neg hbig, if_neg (by simpa using hbig)]
    have hread := (reads_readByte (UInt8.ofNat number)).map (f := fun b : UInt8 => b.toNat)
    have hvalue : (UInt8.ofNat number).toNat = number := by
      rw [UInt8.toNat_ofNat']
      omega
    rwa [hvalue] at hread

/-- The header of a delta is read back. -/
theorem reads_header (b : Bits) (remove : Bool) {number : Nat} (hlt : number < 2 ^ 16) :
    ∃ flags, FlagsOf b remove flags ∧
      Reads readHeader (headerBytes (b.value + flag remove 6) number) (flags, number) := by
  unfold headerBytes
  dsimp only
  have hplain := flags_eq_ofBits b remove false (decide (256 ≤ number)) false false
  simp only [show flag false 7 = 0 from rfl, show flag false 15 = 0 from rfl,
    show flag false 23 = 0 from rfl, Nat.add_zero] at hplain
  have hall := flags_eq_ofBits b remove
  generalize hbits : b.value + flag remove 6 + flag (decide (256 ≤ number)) 8 = bits at hplain
  have h7 : bits / 2 ^ 7 % 2 = 0 := by
    have hbit : bits.testBit 7 = false := by
      rw [hplain, Nat.testBit_ofBits_lt _ 7 (by decide)]
      rfl
    simpa [Nat.testBit_eq_decide_div_mod_eq] using hbit
  have h15 : bits / 2 ^ 15 % 2 = 0 := by
    have hbit : bits.testBit 15 = false := by
      rw [hplain, Nat.testBit_ofBits_lt _ 15 (by decide)]
      rfl
    simpa [Nat.testBit_eq_decide_div_mod_eq] using hbit
  have h23 : bits / 2 ^ 23 % 2 = 0 := by
    have hbit : bits.testBit 23 = false := by
      rw [hplain, Nat.testBit_ofBits_lt _ 23 (by decide)]
      rfl
    simpa [Nat.testBit_eq_decide_div_mod_eq] using hbit
  generalize hm3 : decide (2 ^ 24 ≤ bits) = more3
  generalize hm2 : decide (2 ^ 24 ≤ bits ∨ 2 ^ 16 ≤ bits) = more2
  generalize hm1 : decide ((2 ^ 24 ≤ bits ∨ 2 ^ 16 ≤ bits) ∨ 2 ^ 8 ≤ bits) = more1
  have hv : bits + flag more1 7 + flag more2 15 + flag more3 23 =
      Nat.ofBits (flagSet b remove more1 (decide (256 ≤ number)) more2 more3) := by
    rw [← hbits]
    exact hall more1 _ more2 more3
  have hbit : ∀ i (hi : i < 32), (bits + flag more1 7 + flag more2 15 + flag more3 23).testBit i =
      flagSet b remove more1 (decide (256 ≤ number)) more2 more3 ⟨i, hi⟩ := by
    intro i hi
    rw [hv, Nat.testBit_ofBits_lt _ i hi]
  have hb6 := (hbit 6 (by decide)).trans (show _ = remove from rfl)
  have hb7 := (hbit 7 (by decide)).trans (show _ = more1 from rfl)
  have hb8 := (hbit 8 (by decide)).trans (show _ = decide (256 ≤ number) from rfl)
  have hb15 := (hbit 15 (by decide)).trans (show _ = more2 from rfl)
  have hb23 := (hbit 23 (by decide)).trans (show _ = more3 from rfl)
  have hlarge : bits + flag more1 7 + flag more2 15 + flag more3 23 < 2 ^ 32 := by
    rw [hv]
    exact Nat.ofBits_lt_two_pow _
  refine ⟨bits + flag more1 7 + flag more2 15 + flag more3 23, ⟨?_, hb6⟩, ?_⟩
  · rw [hv]
    exact bitsOf_flagSet b remove more1 _ more2 more3
  · have h32 : more3 = true → more2 = true := by
      rintro rfl
      rw [← hm2, decide_eq_true_eq]
      exact Or.inl (of_decide_eq_true hm3)
    have h21 : more2 = true → more1 = true := by
      rintro rfl
      rw [← hm1, decide_eq_true_eq]
      exact Or.inl (of_decide_eq_true hm2)
    have hflags := reads_flags hlarge hb7 hb15 hb23 ?_ ?_ ?_ h32 h21
    · unfold readHeader
      subst hm1 hm2 hm3
      simp only [decide_eq_true_eq] at hflags
      exact hflags.bind (Reads.last (reads_number _ number hb8 hlt))
    · rintro rfl
      obtain rfl : more2 = false := by simpa using h21
      obtain rfl : more3 = false := by simpa using h32
      have := of_decide_eq_false hm1
      simp only [flag, Bool.false_eq_true, if_false]
      omega
    · rintro rfl
      obtain rfl : more3 = false := by simpa using h32
      have := of_decide_eq_false hm2
      cases more1 <;> simp only [flag, Bool.false_eq_true, if_false, if_true] <;> omega
    · rintro rfl
      have := of_decide_eq_false hm3
      cases more1 <;> cases more2 <;>
        simp only [flag, Bool.false_eq_true, if_false, if_true] <;> omega

/-! ## The message -/

/-- A command as the server writes it. -/
def Wire : Command Delta → Prop
  | .remove number => 0 < number ∧ number < 2 ^ 16
  | .update number delta => 0 < number ∧ number < 2 ^ 16 ∧
    ∃ b old new, delta = writeFields b old new ∧ new.number = number

def normalCommand : Command Delta → Command Delta
  | .remove number => .remove number
  | .update number delta => .update number (normalDelta delta)

/-- One command; none at the two zero bytes behind the last. -/
def readCommand : Reader (Option (Command Delta)) := do
  let (flags, number) ← readHeader
  if number = 0 then pure none
  else if flags.testBit 6 then pure (some (.remove number))
  else do
    let delta ← readDelta (bitsOf flags) number
    pure (some (.update number delta))

theorem reads_command {c : Command Delta} (h : Wire c) :
    Reads readCommand (commandBytes c) (some (normalCommand c)) := by
  cases c with
  | remove number =>
    obtain ⟨hpos, hlt⟩ := h
    obtain ⟨flags, hflags, hread⟩ := reads_header noBits true hlt
    rw [← List.append_nil (commandBytes (.remove number))]
    unfold readCommand
    refine Reads.bind hread ?_
    dsimp only
    rw [if_neg (Nat.pos_iff_ne_zero.mp hpos), hflags.remove, if_pos rfl]
    exact reads_pure (some (Command.remove number))
  | update number delta =>
    obtain ⟨hpos, hlt, b, old, new, rfl, rfl⟩ := h
    obtain ⟨flags, hflags, hread⟩ := reads_header b false hlt
    unfold readCommand
    refine Reads.bind hread ?_
    dsimp only
    rw [if_neg (Nat.pos_iff_ne_zero.mp hpos), hflags.remove, if_neg Bool.false_ne_true, hflags.bits]
    exact Reads.last (reads_delta b old new)

/-- The commands up to the end of the message, in at most `fuel` steps. -/
def readCommands : Nat → Reader (List (Command Delta))
  | 0 => fun _ => none
  | fuel + 1 => do
    let command ← readCommand
    match command with
    | none => pure []
    | some c => do
      let rest ← readCommands fuel
      pure (c :: rest)

theorem reads_commands {cmds : List (Command Delta)} (h : ∀ c ∈ cmds, Wire c) (fuel : Nat)
    (hfuel : cmds.length < fuel) :
    Reads (readCommands fuel) (cmds.flatMap commandBytes ++ [0, 0]) (cmds.map normalCommand) := by
  induction cmds generalizing fuel with
  | nil =>
    obtain ⟨fuel, rfl⟩ : ∃ k, fuel = k + 1 := ⟨fuel - 1, by simp at hfuel; omega⟩
    intro rest
    rfl
  | cons c cmds ih =>
    obtain ⟨fuel, rfl⟩ : ∃ k, fuel = k + 1 := ⟨fuel - 1, by simp at hfuel; omega⟩
    rw [List.flatMap_cons, List.append_assoc]
    have hrest := ih (fun c hc => h c (List.mem_cons_of_mem _ hc)) fuel
      (by simp at hfuel; omega)
    exact (reads_command (h c List.mem_cons_self)).bind (Reads.last hrest)

/-- A client's reading of a message that starts with `svc_packetentities`, and what
follows it. -/
def readPacket : List UInt8 → Option (List (Command Delta) × List UInt8)
  | [] => none
  | svc :: rest => if svc = svcPacketentities then (readCommands (rest.length + 1)).run rest else none

theorem headerBytes_ne_nil (bits number : Nat) : headerBytes bits number ≠ [] := by
  unfold headerBytes
  dsimp only
  intro h
  have hnumber := List.append_eq_nil_iff.mp h |>.2
  split at hnumber <;> cases hnumber

theorem commandBytes_ne_nil (c : Command Delta) : commandBytes c ≠ [] := by
  cases c with
  | remove number => exact headerBytes_ne_nil _ _
  | update number delta =>
    intro h
    exact headerBytes_ne_nil _ _ (List.append_eq_nil_iff.mp h).1

theorem length_le_commandBytes (cmds : List (Command Delta)) :
    cmds.length ≤ (cmds.flatMap commandBytes).length := by
  induction cmds with
  | nil => exact Nat.le_refl _
  | cons c cmds ih =>
    have hpos := List.length_pos_of_ne_nil (commandBytes_ne_nil c)
    rw [List.flatMap_cons, List.length_append, List.length_cons]
    omega

theorem readPacket_packetBytes {cmds : List (Command Delta)} (h : ∀ c ∈ cmds, Wire c)
    (rest : List UInt8) :
    readPacket (packetBytes cmds ++ rest) = some (cmds.map normalCommand, rest) := by
  have hlen := length_le_commandBytes cmds
  have hread := reads_commands h (((cmds.flatMap commandBytes ++ [0, 0]) ++ rest).length + 1)
    (by simp only [List.length_append]; omega)
  unfold packetBytes
  rw [List.cons_append, readPacket, if_pos rfl]
  exact hread rest

/-! ## What the server writes can be read -/

theorem applyDelta_normal (base : View) (d : Delta) :
    applyDelta base (normalDelta d) = applyDelta base d := by
  have hreceived : ∀ (field : Option Written) (old : Nat),
      received (field.map normal) old = received field old := by
    intro field old
    cases field with
    | none => rfl
    | some w => exact value_normal w
  simp only [applyDelta, normalDelta, hreceived]

theorem number_normal (c : Command Delta) : (normalCommand c).number = c.number := by
  cases c <;> rfl

/-- Reading the values in the sizes they were sent makes no difference to a client. -/
theorem patch_normal (lastlines : Baselines) (cmds : List (Command Delta)) (old : List View) :
    patch (reader lastlines) (cmds.map normalCommand) old = patch (reader lastlines) cmds old := by
  have happly : ∀ base d, (reader lastlines).apply base (normalDelta d) =
      (reader lastlines).apply base d := fun base d => applyDelta_normal base d
  fun_induction patch (reader lastlines) cmds old with
  | case1 old => rw [List.map_nil, patch]
  | case2 number cs ih => rw [List.map_cons, normalCommand, patch, ih]
  | case3 number delta cs ih => rw [List.map_cons, normalCommand, patch, ih, happly]
  | case4 c cs o old hlt ih =>
    rw [List.map_cons] at ih ⊢
    rw [← number_normal] at hlt
    generalize normalCommand c = c' at hlt ih ⊢
    cases c' <;> rw [patch, if_pos hlt, ih]
  | case5 cs o old number hge heq ih =>
    rw [List.map_cons, normalCommand, patch, if_neg hge, if_pos heq]
    exact ih
  | case6 cs o old number delta hge heq ih =>
    have hge' : ¬ (reader lastlines).numberOf o <
        (Command.update number (normalDelta delta)).number := hge
    have heq' : (reader lastlines).numberOf o =
        (Command.update number (normalDelta delta)).number := heq
    rw [List.map_cons, normalCommand, patch, if_neg hge', if_pos heq', ih, happly]
  | case7 cs o old number hge hne ih =>
    rw [List.map_cons, normalCommand, patch, if_neg hge, if_neg hne]
    exact ih
  | case8 cs o old number delta hge hne ih =>
    have hge' : ¬ (reader lastlines).numberOf o <
        (Command.update number (normalDelta delta)).number := hge
    have hne' : ¬ (reader lastlines).numberOf o =
        (Command.update number (normalDelta delta)).number := hne
    rw [List.map_cons, normalCommand, patch, if_neg hge', if_neg hne', ih, happly]

theorem wire_svWriteDeltaEntity {protocolVersion : Nat} {old new : EntityState}
    {force newentity deltaorigin : Bool} {cmds : List (Command Delta)}
    (h : svWriteDeltaEntity protocolVersion old (some new) force newentity deltaorigin =
      some cmds) :
    ∀ c ∈ cmds, Wire c := by
  unfold svWriteDeltaEntity at h
  dsimp only at h
  split at h
  · cases h
  · split at h
    · cases h
    · rename_i hrange
      have hlt : new.number < 2048 := by
        by_contra hge
        exact hrange (Or.inl (Nat.le_of_not_lt hge))
      split at h
      · cases h
        simp
      · cases h
        intro c hc
        rw [List.mem_singleton.mp hc]
        exact ⟨by omega, by omega, _, old, new, rfl, rfl⟩

theorem mem_live_zeroNumber {ctx : Context} {ents : Entities} {frame : ClientFrame}
    {index s : Nat} {e : EntityState} (h : e ∈ live ctx (zeroNumber ents s) frame index) :
    e ∈ live ctx ents frame index := by
  unfold live at h ⊢
  obtain ⟨hmem, hz⟩ := List.mem_filter.mp h
  obtain ⟨i, hi, rfl⟩ := List.mem_map.mp hmem
  by_cases his : i = s
  · subst his
    simp [zeroNumber] at hz
  · have hsame : zeroNumber ents s i = ents i := Function.update_of_ne his _ _
    rw [hsame] at hz ⊢
    exact List.mem_filter.mpr ⟨List.mem_map_of_mem hi, hz⟩

/-- Every live entity of a window is valid. -/
def WindowInRange (ctx : Context) (ents : Entities) (frame : ClientFrame) (index : Nat) : Prop :=
  ∀ s ∈ live ctx ents frame index, InRange s

theorem WindowInRange.next {ctx : Context} {ents : Entities} {frame : ClientFrame} {index : Nat}
    (h : WindowInRange ctx ents frame index) : WindowInRange ctx ents frame (index + 1) := by
  intro s hs
  rcases numberAt_cases ctx ents frame index with ⟨hdone, _, _⟩ | ⟨_, _, _, hlive⟩ | ⟨_, _, _, hlive⟩
  · rw [live, slots_done (Nat.le_succ_of_le hdone)] at hs
    cases hs
  · exact h s (hlive ▸ hs)
  · exact h s (hlive ▸ List.mem_cons_of_mem _ hs)

theorem WindowInRange.zeroNumber {ctx : Context} {ents : Entities} {frame : ClientFrame}
    {index : Nat} (h : WindowInRange ctx ents frame index) (s : Nat) :
    WindowInRange ctx (PacketEntities.zeroNumber ents s) frame index :=
  fun e he => h e (mem_live_zeroNumber he)

/-- A window's number is the sentinel, zero, or that of a valid entity. -/
theorem WindowInRange.numberAt {ctx : Context} {ents : Entities} {frame : ClientFrame}
    {index : Nat} (h : WindowInRange ctx ents frame index)
    (hz : PacketEntities.numberAt ctx ents frame index ≠ 0) :
    PacketEntities.numberAt ctx ents frame index = sentinel ∨
      (PacketEntities.numberAt ctx ents frame index = (ents (slot ctx frame index)).number ∧
        InRange (ents (slot ctx frame index))) := by
  rcases numberAt_cases ctx ents frame index with
    ⟨_, hnum, _⟩ | ⟨_, hnum, _, _⟩ | ⟨_, hnum, _, hlive⟩
  · exact Or.inl hnum
  · exact absurd hnum hz
  · exact Or.inr ⟨hnum, h _ (hlive ▸ List.mem_cons_self)⟩

/-- What is emitted can be written. -/
theorem wire_emitLoop {ctx : Context} {old new : ClientFrame} (passes : Nat)
    {ents ents' : Entities} {newindex oldindex count count' : Nat} {cmds : List (Command Delta)}
    (hold : WindowInRange ctx ents old oldindex) (hnew : WindowInRange ctx ents new newindex)
    (h : emitLoop ctx old new passes ents newindex oldindex count = some (ents', cmds, count')) :
    ∀ c ∈ cmds, Wire c := by
  induction passes generalizing ents ents' newindex oldindex count count' cmds with
  | zero =>
    cases h
    simp
  | succ passes ih =>
    unfold emitLoop at h
    dsimp only at h
    split at h
    · cases h
      simp
    · split at h
      · exact ih hold hnew.next h
      · rename_i hnewz
        split at h
        · exact ih hold.next hnew h
        · rename_i holdz
          split at h
          · obtain ⟨first, hfirst, h⟩ := Option.bind_eq_some_iff.mp h
            obtain ⟨⟨ents1, rest, count1⟩, hrest, h⟩ := Option.bind_eq_some_iff.mp h
            cases h
            intro c hc
            rcases List.mem_append.mp hc with hc | hc
            · exact wire_svWriteDeltaEntity hfirst c hc
            · exact ih hold.next hnew.next hrest c hc
          · generalize (if numberAt ctx ents new newindex > ctx.maxclients then count + 1
              else count) = counted at h
            split at h
            · split at h
              · exact ih (hold.zeroNumber _) (hnew.next.zeroNumber _) h
              · obtain ⟨first, hfirst, h⟩ := Option.bind_eq_some_iff.mp h
                obtain ⟨⟨ents1, rest, count1⟩, hrest, h⟩ := Option.bind_eq_some_iff.mp h
                cases h
                intro c hc
                rcases List.mem_append.mp hc with hc | hc
                · exact wire_svWriteDeltaEntity hfirst c hc
                · exact ih hold hnew.next hrest c hc
            · rename_i hne hge
              obtain ⟨first, hfirst, h⟩ := Option.bind_eq_some_iff.mp h
              obtain ⟨⟨ents1, rest, count1⟩, hrest, h⟩ := Option.bind_eq_some_iff.mp h
              cases h
              cases hfirst
              intro c hc
              rcases List.mem_append.mp hc with hc | hc
              · rw [List.mem_singleton.mp hc]
                have hmax : maxEdicts .kingpin = 2048 := rfl
                have hsentinel : sentinel = 9999 := rfl
                rcases hold.numberAt holdz with hdone | ⟨_, hrange⟩
                · rcases hnew.numberAt hnewz with hnewdone | ⟨hnewnum, hnewrange⟩
                  · omega
                  · have := hnewrange.2
                    omega
                · have := hrange.2
                  exact ⟨hrange.1, by omega⟩
              · exact ih hold.next hnew hrest c hc

/-- The message of a call is read back as its commands. -/
theorem readPacket_svEmitPacketEntities {ctx : Context} {ents : Entities}
    {base : Option ClientFrame} {new : ClientFrame} {out : Emitted}
    (h : svEmitPacketEntities ctx ents base new = some out)
    (hold : WindowInRange ctx ents (oldFrame base) 0) (hnew : WindowInRange ctx ents new 0)
    (rest : List UInt8) :
    readPacket (packetBytes out.commands ++ rest) =
      some (out.commands.map normalCommand, rest) := by
  unfold svEmitPacketEntities at h
  obtain ⟨⟨ents', cmds, count⟩, hloop, h⟩ := Option.bind_eq_some_iff.mp h
  cases h
  exact readPacket_packetBytes (wire_emitLoop _ hold hnew hloop) rest

/-! ## Fields that are sent if they differ -/

theorem ite_bne_eq_iff {α β : Type} [DecidableEq α] {x y : α} {f : α → β} {held : β} :
    (if x != y then f x else held) = f x ↔ (x = y → held = f y) := by
  by_cases heq : x = y
  · simp [heq]
  · simp [heq]

theorem ite_bne_self {α β : Type} [DecidableEq α] (f : α → β) (x y : α) :
    (if x != y then f x else f y) = f x :=
  ite_bne_eq_iff.mpr fun _ => rfl

end PacketParse
