import Kpded2.PacketParse

/-!
# Decoding one update

The reference decoder of `SV_WriteDeltaEntity`: flags, number, and each announced field
in the writer's order, over what is known of the entity. Of the model parts it keeps
the members that are sent.
-/
namespace DeltaCoding
open ByteReader DeltaEntity PacketParse Protocol SizeBuf SortedEdits

/-! ## Model parts -/

/-- The byte that `MSG_WriteByte` sends. -/
def wireByte (c : Int) : UInt8 := UInt8.ofNat (c % 2 ^ 8).toNat

/-- The members of a model part that are sent. -/
structure PartView where
  modelindex : UInt8
  invisibleObjects : UInt8
  skinnum : Vector UInt8 maxModelpartObjects
  deriving DecidableEq

def partView (p : ModelPart) : PartView :=
  ⟨wireByte p.modelindex, p.invisibleObjects, p.skinnum⟩

def partViews (parts : Vector ModelPart maxModelParts) : Vector PartView maxModelParts :=
  parts.map partView

def readSkinsOver (held : Vector UInt8 maxModelpartObjects) :
    ByteReader.Reader (Vector UInt8 maxModelpartObjects) := do
  let (_, positions) ← readMask
  readOver (fun _ => readByte) positions held

def readOr {α : Type} (set : Bool) (p : ByteReader.Reader α) (held : α) : ByteReader.Reader α :=
  if set then p else pure held

/-- Whether the mask announces the member with this number. -/
def announces {n : Nat} (positions : List (Fin n)) (member : Nat) : Bool :=
  positions.any fun i => i.val == member

def readPartOver (held : PartView) : ByteReader.Reader PartView := do
  let (_, positions) ← readMask
  let modelindex ← readOr (announces positions 0) readByte held.modelindex
  let invisibleObjects ← readOr (announces positions 1) readByte held.invisibleObjects
  let skinnum ← readOr (announces positions 2) (readSkinsOver held.skinnum) held.skinnum
  pure { modelindex, invisibleObjects, skinnum }

def readPartsOver (held : Vector PartView maxModelParts) :
    ByteReader.Reader (Vector PartView maxModelParts) := do
  let (_, positions) ← readMask
  readOver readPartOver positions held

/-- What a decoder that holds `held` has after the members that differ have been sent. -/
def mergeSkins (old new held : Vector UInt8 maxModelpartObjects) :
    Vector UInt8 maxModelpartObjects :=
  Vector.ofFn fun a => if new[a] != old[a] then new[a] else held[a]

def mergePart (old new : ModelPart) (held : PartView) : PartView where
  modelindex := if new.modelindex != old.modelindex then wireByte new.modelindex
    else held.modelindex
  invisibleObjects := if new.invisibleObjects != old.invisibleObjects then new.invisibleObjects
    else held.invisibleObjects
  skinnum := mergeSkins old.skinnum new.skinnum held.skinnum

def mergeParts (old new : Vector ModelPart maxModelParts) (held : Vector PartView maxModelParts) :
    Vector PartView maxModelParts :=
  Vector.ofFn fun a => mergePart old[a] new[a] held[a]

theorem bytes_byte (b : UInt8) : (Written.byte b.toNat).bytes = [b] := by
  have hlt := b.toNat_lt
  have hvalue : ((b.toNat : Int) % 2 ^ 8).toNat = b.toNat := by omega
  simp only [Written.bytes, hvalue, UInt8.ofNat_toNat]

theorem mergeSkins_self (s held : Vector UInt8 maxModelpartObjects) :
    mergeSkins s s held = held := by
  ext a ha
  simp [mergeSkins]

theorem mergePart_self (p : ModelPart) (held : PartView) : mergePart p p held = held := by
  simp [mergePart, mergeSkins_self]

theorem nodup_maskOf (p : Fin 8 → Bool) : (maskOf p).Nodup :=
  (List.nodup_finRange 8).filter p

theorem mem_maskOf (p : Fin 8 → Bool) (a : Fin 8) : a ∈ maskOf p ↔ p a = true := by
  simp [maskOf]

theorem reads_skinsOver (old new held : Vector UInt8 maxModelpartObjects) :
    Reads (readSkinsOver held) (allBytes (skinsWritten old new)) (mergeSkins old new held) := by
  have hread := reads_readOver (p := fun _ => readByte) (v := held)
    (nodup_maskOf fun a => new[a] != old[a]) fun a _ => reads_readByte new[a]
  have hbytes : allBytes ((maskOf fun a => new[a] != old[a]).map fun a => .byte new[a].toNat) =
      (maskOf fun a => new[a] != old[a]).flatMap fun a => [new[a]] := by
    rw [allBytes, List.flatMap_map]
    exact List.flatMap_congr fun a _ => bytes_byte new[a]
  have hmerge : (Vector.ofFn fun a =>
      if a ∈ maskOf (fun a => new[a] != old[a]) then new[a] else held[a]) =
        mergeSkins old new held := by
    refine congrArg Vector.ofFn (funext fun a => ?_)
    simp only [mem_maskOf]
  rw [← hbytes, hmerge] at hread
  simp only [skinsWritten, allBytes_cons]
  exact (reads_readMask _).bind hread

theorem reads_readOr {α : Type} (set : Bool) {p : ByteReader.Reader α} {fields : List Written}
    {a : α} (held : α) (h : Reads p (allBytes fields) a) :
    Reads (readOr set p held) (allBytes (if set then fields else [])) (if set then a else held) := by
  cases set with
  | false => exact reads_pure held
  | true => exact h

theorem wireByte_toNat (b : UInt8) : wireByte b.toNat = b := by
  have hlt := b.toNat_lt
  have hvalue : ((b.toNat : Int) % 2 ^ 8).toNat = b.toNat := by omega
  simp only [wireByte, hvalue, UInt8.ofNat_toNat]

theorem reads_wireByte (c : Int) : Reads readByte (allBytes [.byte c]) (wireByte c) :=
  reads_readByte (wireByte c)

theorem announces_flags3 (x y z : Bool) :
    announces (maskOf (flags3 x y z)) 0 = x ∧ announces (maskOf (flags3 x y z)) 1 = y ∧
      announces (maskOf (flags3 x y z)) 2 = z := by
  revert x y z
  decide

theorem reads_partOver (old new : ModelPart) (held : PartView) :
    Reads (readPartOver held) (allBytes (modelPartWritten old new)) (mergePart old new held) := by
  have hskins : mergeSkins old.skinnum new.skinnum held.skinnum =
      if new.skinnum != old.skinnum then mergeSkins old.skinnum new.skinnum held.skinnum
      else held.skinnum := by
    by_cases heq : new.skinnum = old.skinnum
    · simp [heq, mergeSkins_self]
    · simp [heq]
  rw [mergePart, hskins]
  simp only [modelPartWritten, bitMask_flags3, allBytes_cons, allBytes_append]
  generalize (new.modelindex != old.modelindex) = x
  generalize (new.invisibleObjects != old.invisibleObjects) = y
  generalize (new.skinnum != old.skinnum) = z
  obtain ⟨hx, hy, hz⟩ := announces_flags3 x y z
  simp only [readPartOver]
  refine (reads_readMask (flags3 x y z)).bind ?_
  simp only [hx, hy, hz]
  refine (reads_readOr x held.modelindex (reads_wireByte new.modelindex)).bind ?_
  have hinvisible := reads_readOr y held.invisibleObjects
    (reads_wireByte new.invisibleObjects.toNat)
  rw [wireByte_toNat] at hinvisible
  refine hinvisible.bind ?_
  exact Reads.last (reads_readOr z held.skinnum (reads_skinsOver old.skinnum new.skinnum _))

theorem reads_partsOver (old new : Vector ModelPart maxModelParts)
    (held : Vector PartView maxModelParts) :
    Reads (readPartsOver held) (allBytes (modelPartsWritten old new)) (mergeParts old new held) := by
  have hread := reads_readOver (p := readPartOver) (v := held)
    (nodup_maskOf fun a => new[a] != old[a]) fun a _ => reads_partOver old[a] new[a] held[a]
  have hbytes : allBytes ((maskOf fun a => new[a] != old[a]).flatMap fun a =>
        modelPartWritten old[a] new[a]) =
      (maskOf fun a => new[a] != old[a]).flatMap fun a => allBytes (modelPartWritten old[a] new[a]) := by
    rw [allBytes, List.flatMap_assoc]
    rfl
  have hmerge : (Vector.ofFn fun a =>
      if a ∈ maskOf (fun a => new[a] != old[a]) then mergePart old[a] new[a] held[a] else held[a]) =
        mergeParts old new held := by
    refine congrArg Vector.ofFn (funext fun a => ?_)
    simp only [mem_maskOf]
    by_cases heq : new[a] = old[a]
    · simp [heq, mergePart_self]
    · simp only [bne_iff_ne, ne_eq, heq, not_false_eq_true, if_true]
  rw [← hbytes, hmerge] at hread
  simp only [modelPartsWritten, allBytes_cons]
  exact (reads_readMask _).bind hread

/-! ## The decoder -/

/-- What is known of an entity. -/
structure Known where
  view : View
  numParts : Nat
  parts : Vector PartView maxModelParts

theorem three_lt_maxModelParts : 3 < maxModelParts := by decide

def part3Slot : Fin maxModelParts := ⟨3, three_lt_maxModelParts⟩

@[simp] theorem val_part3Slot : part3Slot.val = 3 := rfl

def setPart3 (parts : Vector PartView maxModelParts) (part3model : Option Written) :
    Vector PartView maxModelParts :=
  match part3model with
  | some w =>
    parts.set part3Slot.val { parts[part3Slot] with modelindex := UInt8.ofNat w.value }
      part3Slot.isLt
  | none => parts

/-- The bytes of the parts are read again, over what is held. -/
def applyParts (held : Vector PartView maxModelParts) (delta : Delta) :
    Vector PartView maxModelParts :=
  setPart3
    (if delta.bits.modelparts then
      ((readPartsOver held).run (allBytes delta.modelParts)).elim held Prod.fst
    else held)
    delta.part3model

def apply (held : Known) (delta : Delta) : Known where
  view := applyDelta held.view delta
  numParts := received delta.numParts held.numParts
  parts := applyParts held.parts delta

/-- One update read over what is known of the entity. -/
def decode (held : Known) : ByteReader.Reader Known := do
  match ← readCommand with
  | some (.update _ delta) => pure (apply held delta)
  | _ => failure

theorem allBytes_normal (ws : List Written) : allBytes (ws.map normal) = allBytes ws := by
  have hbytes : ∀ w : Written, (normal w).bytes = w.bytes := by
    intro w
    cases w <;> simp [normal, Written.bytes]
  rw [allBytes, List.flatMap_map]
  exact List.flatMap_congr fun w _ => hbytes w

theorem apply_normal (held : Known) (delta : Delta) :
    apply held (normalDelta delta) = apply held delta := by
  have hreceived : ∀ (field : Option Written) (old : Nat),
      received (field.map normal) old = received field old := by
    intro field old
    cases field with
    | none => rfl
    | some w => exact value_normal w
  have hparts : applyParts held.parts (normalDelta delta) = applyParts held.parts delta := by
    simp only [applyParts, normalDelta, allBytes_normal]
    cases delta.part3model with
    | none => rfl
    | some w => simp only [Option.map_some, setPart3, value_normal]
  simp only [apply, applyDelta_normal, hparts]
  simp only [normalDelta, hreceived]

theorem decode_command {number : Nat} {delta : Delta} (h : Wire (.update number delta))
    (held : Known) :
    Reads (decode held) (commandBytes (.update number delta)) (apply held delta) := by
  rw [← apply_normal, ← List.append_nil (commandBytes (Command.update number delta))]
  exact (reads_command h).bind (reads_pure (apply held (normalDelta delta)))

/-- The parts after an update, whatever the decoder held. -/
theorem applyParts_writeFields (b : Bits) (old new : EntityState)
    (held : Vector PartView maxModelParts) :
    applyParts held (writeFields b old new) =
      setPart3 (if b.modelparts then mergeParts old.modelParts new.modelParts held else held)
        (writeIf b.part3model (.byte new.part3.modelindex)) := by
  have hread := reads_partsOver old.modelParts new.modelParts held []
  rw [List.append_nil] at hread
  refine congrArg (setPart3 · _) ?_
  simp only [writeFields]
  by_cases hset : b.modelparts = true
  · simp only [hset, if_true, hread, Option.elim_some]
  · simp only [hset, Bool.false_eq_true, if_false]

/-! ## The integer fields -/

/-- The parts as far as they are sent: one model index while that of the entity is 255. -/
inductive Parts where
  | whole (numParts : Nat) (parts : Vector PartView maxModelParts)
  | part3 (modelindex : UInt8)
  deriving DecidableEq

structure Integers where
  number : Nat
  modelindex : Nat
  parts : Parts
  frame : Nat
  skinnum : Nat
  effects : Nat
  renderfx : Nat
  renderfx2 : Nat
  sound : Nat
  event : Nat
  solid : Nat
  modelLighting : Nat
  deriving DecidableEq

def Known.sentParts (protocolVersion : Nat) (k : Known) : Parts :=
  if k.view.modelindex ≠ 255 ∨ protocolVersion < 114 then .whole k.numParts k.parts
  else .part3 k.parts[part3Slot].modelindex

def Known.integers (protocolVersion : Nat) (k : Known) : Integers where
  number := k.view.number
  modelindex := k.view.modelindex
  parts := k.sentParts protocolVersion
  frame := k.view.frame
  skinnum := k.view.skinnum
  effects := k.view.effects
  renderfx := k.view.renderfx
  renderfx2 := k.view.renderfx2
  sound := k.view.sound
  event := k.view.event
  solid := k.view.solid
  modelLighting := k.view.modelLighting

/-- The bits of a 32-bit integer. -/
def word (c : Int) : Nat := (c % 2 ^ 32).toNat

/-- The server's own values, not cut to any size. -/
def exactView (s : EntityState) : View :=
  { view s with
    modelindex := s.modelindex.toNat
    frame := s.frame.toNat
    skinnum := word s.skinnum
    effects := s.effects
    renderfx := word s.renderfx
    renderfx2 := word s.renderfx2
    sound := s.sound.toNat
    event := s.event.toNat
    solid := s.solid.toNat }

def known (s : EntityState) : Known where
  view := exactView s
  numParts := s.numParts.toNat
  parts := partViews s.modelParts

structure WireRange (s : EntityState) : Prop where
  number : InRange s
  modelindex : 0 ≤ s.modelindex ∧ s.modelindex ≤ 255
  numParts : 0 ≤ s.numParts ∧ s.numParts ≤ 255
  parts : ∀ a : Fin 8, 0 ≤ s.modelParts[a].modelindex ∧ s.modelParts[a].modelindex ≤ 255
  event : 0 ≤ s.event ∧ s.event ≤ 255
  frame : 0 ≤ s.frame ∧ s.frame ≤ 65535
  sound : 0 ≤ s.sound ∧ s.sound ≤ 65535
  solid : 0 ≤ s.solid ∧ s.solid ≤ 65535
  skinnum : -2 ^ 31 ≤ s.skinnum ∧ s.skinnum < 2 ^ 31
  effects : s.effects < 2 ^ 32
  renderfx : -2 ^ 31 ≤ s.renderfx ∧ s.renderfx < 2 ^ 31
  renderfx2 : -2 ^ 31 ≤ s.renderfx2 ∧ s.renderfx2 < 2 ^ 31

/-- The two fields share a size, and it is chosen by the greater of them as a signed
number. -/
def RenderfxFits (old new : EntityState) : Prop :=
  (new.renderfx = old.renderfx ∧ new.renderfx2 = old.renderfx2) ∨
  (0 ≤ new.renderfx ∧ 0 ≤ new.renderfx2) ∨ 0x8000 ≤ max new.renderfx2 new.renderfx

theorem value_byte {c : Int} (h : 0 ≤ c ∧ c ≤ 255) : (Written.byte c).value = c.toNat := by
  simp only [Written.value]
  omega

theorem value_short {c : Int} (h : 0 ≤ c ∧ c ≤ 65535) : (Written.short c).value = c.toNat := by
  simp only [Written.value]
  omega

theorem received_differs {x y : Int} {field : Written} (h : field.value = x.toNat) :
    received (writeIf (x != y) field) y.toNat = x.toNat := by
  rw [← h]
  refine received_writeIf fun hsame => ?_
  rw [h, bne_eq_false_iff_eq.mp hsame]

theorem received_twoSizes {x y : Int} (test : Int → Bool) (hsmall : test x = true → x ≤ 255)
    (h : 0 ≤ x ∧ x ≤ 65535) :
    received (if (x != y && test x) = true then some (.byte x)
      else writeIf (x != y && !test x) (.short x)) y.toNat = x.toNat := by
  by_cases heq : x = y
  · subst heq
    simp [received, writeIf]
  · cases ht : test x with
    | true => simpa [received, heq, ht] using value_byte ⟨h.1, hsmall ht⟩
    | false => simpa [received, writeIf, heq, ht] using value_short h

theorem received_sized (changed : Bool) (size c limit : Int) (base : Nat) :
    received (bySize (changed && (decide (size < 256) || !decide (size < limit)))
      (changed && !decide (size < 256)) c) base =
      if changed then (sized size c limit).value else base := by
  cases changed with
  | false => rfl
  | true =>
    have hnever : true = false → base = (sized size c limit).value := fun h => nomatch h
    exact received_bySize hnever

theorem sized_word (c : Int) : (sized (c % 2 ^ 32) c 0x10000).value = word c := by
  simp only [sized, word]
  split
  · simp only [Written.value]
    omega
  · split
    · simp only [Written.value]
      omega
    · rfl

theorem sized_effects {e : Nat} (h : e < 2 ^ 32) : (sized e e 0x8000).value = e := by
  simp only [sized]
  split
  · simp only [Written.value]
    omega
  · split
    · simp only [Written.value]
      omega
    · simp only [Written.value]
      omega

/-- A negative value is cut if the other field allows a small size. -/
theorem sized_eq_word_iff {v c : Int} (h : -2 ^ 31 ≤ c ∧ c < 2 ^ 31) (hle : c ≤ v) :
    (sized v c 0x8000).value = word c ↔ 0 ≤ c ∨ 0x8000 ≤ v := by
  simp only [sized, word]
  split
  · simp only [Written.value]
    omega
  · split
    · simp only [Written.value]
      omega
    · rename_i hbig
      exact iff_of_true rfl (Or.inr (Int.not_lt.mp hbig))

theorem received_skinnum (old new : EntityState) :
    received (bySize (new.skinnum != old.skinnum && (decide (new.skinnum % 2 ^ 32 < 256) ||
        !decide (new.skinnum % 2 ^ 32 < 0x10000)))
      (new.skinnum != old.skinnum && !decide (new.skinnum % 2 ^ 32 < 256)) new.skinnum)
      (word old.skinnum) = word new.skinnum := by
  rw [received_sized, sized_word]
  by_cases heq : new.skinnum = old.skinnum
  · simp [heq]
  · simp [heq]

theorem received_effects {old new : EntityState} (h : new.effects < 2 ^ 32) :
    received (bySize (new.effects != old.effects && (decide (new.effects < 256) ||
        !decide (new.effects < 0x8000)))
      (new.effects != old.effects && !decide (new.effects < 256)) new.effects)
      old.effects = new.effects := by
  have hsmall : decide (new.effects < 256) = decide ((new.effects : Int) < 256) := by
    rw [decide_eq_decide]
    omega
  have hmedium : decide (new.effects < 0x8000) = decide ((new.effects : Int) < 0x8000) := by
    rw [decide_eq_decide]
    omega
  rw [hsmall, hmedium, received_sized, sized_effects h]
  by_cases heq : new.effects = old.effects
  · simp [heq]
  · simp [heq]

/-- One of the two fields, after an update. -/
def renderfxReceived (old new : EntityState) (field : EntityState → Int) : Nat :=
  if new.renderfx != old.renderfx || new.renderfx2 != old.renderfx2 then
    (sized (max new.renderfx2 new.renderfx) (field new) 0x8000).value
  else word (field old)

/-- Both words arrive exactly when they fit together. -/
theorem renderfxReceived_iff {old new : EntityState} (range : WireRange new) :
    (renderfxReceived old new (·.renderfx) = word new.renderfx ∧
      renderfxReceived old new (·.renderfx2) = word new.renderfx2) ↔ RenderfxFits old new := by
  simp only [renderfxReceived]
  by_cases hsame : new.renderfx = old.renderfx ∧ new.renderfx2 = old.renderfx2
  · have hunchanged : (new.renderfx != old.renderfx || new.renderfx2 != old.renderfx2) = false := by
      simp [hsame]
    simp only [hunchanged, Bool.false_eq_true, if_false]
    exact iff_of_true ⟨by rw [hsame.1], by rw [hsame.2]⟩ (Or.inl hsame)
  · have hchanged : (new.renderfx != old.renderfx || new.renderfx2 != old.renderfx2) = true := by
      rw [not_and_or] at hsame
      simpa using hsame
    simp only [hchanged, if_true]
    rw [sized_eq_word_iff range.renderfx (le_max_right _ _),
      sized_eq_word_iff range.renderfx2 (le_max_left _ _)]
    constructor
    · rintro ⟨hfirst, hsecond⟩
      refine Or.inr ?_
      rcases hfirst with hfirst | hbig
      · exact hsecond.imp_left fun hsecond => ⟨hfirst, hsecond⟩
      · exact Or.inr hbig
    · rintro (hsame' | ⟨hfirst, hsecond⟩ | hbig)
      · exact absurd hsame' hsame
      · exact ⟨Or.inl hfirst, Or.inl hsecond⟩
      · exact ⟨Or.inr hbig, Or.inr hbig⟩

theorem mergeSkins_known (old new : Vector UInt8 maxModelpartObjects) :
    mergeSkins old new old = new := by
  ext a ha
  by_cases heq : new[a] = old[a]
  · simp [mergeSkins, heq]
  · simp [mergeSkins, heq]

theorem mergePart_known (old new : ModelPart) :
    mergePart old new (partView old) = partView new := by
  simp only [mergePart, partView, mergeSkins_known, PartView.mk.injEq, and_true]
  constructor
  · by_cases heq : new.modelindex = old.modelindex
    · simp [heq]
    · simp [heq]
  · by_cases heq : new.invisibleObjects = old.invisibleObjects
    · simp [heq]
    · simp [heq]

theorem mergeParts_known (old new : Vector ModelPart maxModelParts) :
    mergeParts old new (partViews old) = partViews new := by
  ext1 a ha
  simp only [mergeParts, partViews, Vector.getElem_ofFn, Fin.getElem_fin, Vector.getElem_map]
  exact mergePart_known old[a] new[a]

theorem partViews_part3 (s : EntityState) :
    (partViews s.modelParts)[part3Slot].modelindex = wireByte s.part3.modelindex := by
  simp only [partViews, Fin.getElem_fin, Vector.getElem_map, partView]
  rfl

theorem setPart3_getElem (parts : Vector PartView maxModelParts) (w : Written) :
    (setPart3 parts (some w))[part3Slot].modelindex = UInt8.ofNat w.value := by
  simp [setPart3]

/-- The parts that are sent, over the parts of the old state. -/
theorem sentParts_apply {protocolVersion : Nat} {newentity deltaorigin : Bool}
    {old new : EntityState} (range : WireRange new) :
    (apply (known old) (writeFields (deltaBits protocolVersion newentity deltaorigin old new)
      old new)).sentParts protocolVersion = (known new).sentParts protocolVersion := by
  have hmodelindex : (apply (known old) (writeFields
        (deltaBits protocolVersion newentity deltaorigin old new) old new)).view.modelindex =
      (known new).view.modelindex := received_differs (value_byte range.modelindex)
  simp only [Known.sentParts, hmodelindex]
  have hknown : (known new).view.modelindex = new.modelindex.toNat := rfl
  have hindex := range.modelindex
  split
  · rename_i hwhole
    have hset : (new.modelindex != 255 || decide (protocolVersion < 114)) = true := by
      simp only [Bool.or_eq_true, bne_iff_ne, decide_eq_true_eq]
      omega
    have hnumParts : received (writeIf (new.numParts != old.numParts) (.byte new.numParts))
        old.numParts.toNat = new.numParts.toNat := received_differs (value_byte range.numParts)
    simp only [apply, applyParts_writeFields, Parts.whole.injEq]
    constructor
    · simpa only [writeFields, deltaBits, hset, Bool.true_and, known] using hnumParts
    · simp only [deltaBits, hset, Bool.true_and, Bool.not_true, Bool.false_and, writeIf,
        Bool.false_eq_true, if_false, setPart3, known, mergeParts_known]
      by_cases heq : new.modelParts = old.modelParts
      · simp [heq]
      · simp [heq]
  · rename_i hwhole
    have hset : (new.modelindex != 255 || decide (protocolVersion < 114)) = false := by
      simp only [Bool.or_eq_false_iff, bne_eq_false_iff_eq, decide_eq_false_iff_not]
      omega
    simp only [apply, applyParts_writeFields, Parts.part3.injEq]
    simp only [deltaBits, hset, Bool.false_and, Bool.false_eq_true, if_false, Bool.not_false,
      Bool.true_and]
    by_cases heq : new.part3.modelindex = old.part3.modelindex
    · simp only [heq, bne_self_eq_false, writeIf, Bool.false_eq_true, if_false, setPart3, known,
        partViews_part3]
    · have hdiffers : (new.part3.modelindex != old.part3.modelindex) = true := by simpa using heq
      simp only [hdiffers, writeIf, if_true, setPart3_getElem, known, partViews_part3]
      rfl

/-- An update over the old state gives every integer field but the two that share a size. -/
theorem integers_apply {protocolVersion : Nat} {newentity deltaorigin : Bool}
    {old new : EntityState} (range : WireRange new) :
    (apply (known old) (writeFields (deltaBits protocolVersion newentity deltaorigin old new)
        old new)).integers protocolVersion =
      { (known new).integers protocolVersion with
        renderfx := renderfxReceived old new (·.renderfx)
        renderfx2 := renderfxReceived old new (·.renderfx2) } := by
  have hframe := received_twoSizes (x := new.frame) (y := old.frame)
    (fun v => decide (v < 256)) (fun h => by simpa using Int.le_of_lt_add_one (of_decide_eq_true h))
    range.frame
  have hsound := received_twoSizes (x := new.sound) (y := old.sound)
    (fun v => !decide (v > 255)) (fun h => by simpa using h) range.sound
  have hevent : received (writeIf (new.event != 0) (.byte new.event)) 0 = new.event.toNat :=
    received_differs (y := 0) (value_byte range.event)
  simp only [Known.integers, Integers.mk.injEq]
  refine ⟨rfl, received_differs (value_byte range.modelindex), sentParts_apply range, ?_,
    received_skinnum old new, received_effects range.effects, ?_, ?_, ?_, hevent,
    received_differs (value_short range.solid), ?_⟩
  · simpa [apply, applyDelta, writeFields, deltaBits, known, exactView] using hframe
  · exact received_sized _ _ new.renderfx _ _
  · exact received_sized _ _ new.renderfx2 _ _
  · simpa [apply, applyDelta, writeFields, deltaBits, known, exactView] using hsound
  · exact received_changed (fun m => .long (lightWord m)) _ _

/-! ## Encodings -/

/-- The bytes of one call; none if it stops with a bad entity number. -/
def encoding (protocolVersion : Nat) (old new : EntityState) (force newentity deltaorigin : Bool) :
    Option (List UInt8) :=
  (svWriteDeltaEntity protocolVersion old (some new) force newentity deltaorigin).map fun cmds =>
    cmds.flatMap commandBytes

/-- The decoder has the integer fields and stops where the update ends. -/
def Recovers (protocolVersion : Nat) (old new : EntityState) (force newentity deltaorigin : Bool) :
    Prop :=
  ∀ bytes, encoding protocolVersion old new force newentity deltaorigin = some bytes →
    bytes ≠ [] → ∀ rest, ∃ k, (decode (known old)).run (bytes ++ rest) = some (k, rest) ∧
      k.integers protocolVersion = (known new).integers protocolVersion

/-- What a call leaves the decoder with. -/
def decoded (protocolVersion : Nat) (old new : EntityState) (newentity deltaorigin : Bool) : Known :=
  apply (known old)
    (writeFields (deltaBits protocolVersion newentity deltaorigin old new) old new)

theorem encoding_cases {protocolVersion : Nat} {old new : EntityState}
    {force newentity deltaorigin : Bool} {bytes : List UInt8}
    (h : encoding protocolVersion old new force newentity deltaorigin = some bytes) :
    bytes = [] ∨ Reads (decode (known old)) bytes
      (decoded protocolVersion old new newentity deltaorigin) := by
  obtain ⟨cmds, hcmds, rfl⟩ := Option.map_eq_some_iff.mp h
  have hwire := wire_svWriteDeltaEntity hcmds
  simp only [svWriteDeltaEntity] at hcmds
  split at hcmds
  · cases hcmds
  · split at hcmds
    · cases hcmds
    · split at hcmds
      · cases hcmds
        exact Or.inl rfl
      · cases hcmds
        rw [List.flatMap_singleton]
        exact Or.inr (decode_command (hwire _ List.mem_cons_self) (known old))

theorem encoding_written (protocolVersion : Nat) {old new : EntityState}
    (old_in_range : old.number < maxEdicts .kingpin) (range : WireRange new)
    (force newentity deltaorigin : Bool) :
    (∃ bytes, bytes ≠ [] ∧
      encoding protocolVersion old new force newentity deltaorigin = some bytes) ∨
    (deltaBits protocolVersion newentity deltaorigin old new).value = 0 ∧
      encoding protocolVersion old new force newentity deltaorigin = some [] := by
  obtain ⟨hpos, hlt⟩ := range.number
  have hold : ¬ old.number ≥ maxEdicts .kingpin := Nat.not_le.mpr old_in_range
  have hnew : ¬ (new.number ≥ maxEdicts .kingpin ∨ new.number < 1) := by omega
  simp only [encoding, svWriteDeltaEntity, if_neg hold, if_neg hnew]
  by_cases hbits : (deltaBits protocolVersion newentity deltaorigin old new).value = 0 ∧ ¬ force
  · rw [if_pos hbits]
    exact Or.inr ⟨hbits.1, rfl⟩
  · rw [if_neg hbits]
    refine Or.inl ⟨_, ?_, rfl⟩
    simp only [List.flatMap_singleton]
    exact commandBytes_ne_nil _

theorem renderfxFits_of_no_bits {protocolVersion : Nat} {newentity deltaorigin : Bool}
    {old new : EntityState}
    (h : (deltaBits protocolVersion newentity deltaorigin old new).value = 0) :
    RenderfxFits old new := by
  have hnone := eq_noBits_of_value h
  have hsmall : (deltaBits protocolVersion newentity deltaorigin old new).renderfx8 = false := by
    rw [hnone]
    rfl
  have hlarge : (deltaBits protocolVersion newentity deltaorigin old new).renderfx16 = false := by
    rw [hnone]
    rfl
  simp only [deltaBits] at hsmall hlarge
  cases hchanged : (new.renderfx != old.renderfx || new.renderfx2 != old.renderfx2) with
  | true =>
    rw [hchanged, Bool.true_and] at hsmall hlarge
    simp only [Bool.or_eq_false_iff, decide_eq_false_iff_not, Bool.not_eq_false',
      decide_eq_true_eq] at hsmall hlarge
    exact absurd hlarge hsmall.1
  | false =>
    simp only [Bool.or_eq_false_iff, bne_eq_false_iff_eq] at hchanged
    exact Or.inl hchanged

theorem decoded_integers_iff {protocolVersion : Nat} {old new : EntityState}
    (range : WireRange new) (newentity deltaorigin : Bool) :
    (decoded protocolVersion old new newentity deltaorigin).integers protocolVersion =
      (known new).integers protocolVersion ↔ RenderfxFits old new := by
  rw [decoded, integers_apply range, ← renderfxReceived_iff range]
  constructor
  · intro h
    exact ⟨congrArg Integers.renderfx h, congrArg Integers.renderfx2 h⟩
  · rintro ⟨hfirst, hsecond⟩
    rw [hfirst, hsecond]
    rfl

theorem recovers_iff {protocolVersion : Nat} {old new : EntityState}
    (old_in_range : old.number < maxEdicts .kingpin) (range : WireRange new)
    (force newentity deltaorigin : Bool) :
    Recovers protocolVersion old new force newentity deltaorigin ↔ RenderfxFits old new := by
  constructor
  · intro hrecovers
    rcases encoding_written protocolVersion old_in_range range force newentity
      deltaorigin with ⟨bytes, hbytes, hwritten⟩ | ⟨hbits, _⟩
    · obtain ⟨k, hrun, hintegers⟩ := hrecovers bytes hwritten hbytes []
      have hread := ((encoding_cases hwritten).resolve_left hbytes) []
      rw [hrun] at hread
      cases hread
      exact (decoded_integers_iff range newentity deltaorigin).mp hintegers
    · exact renderfxFits_of_no_bits hbits
  · intro hfits bytes hwritten hbytes rest
    refine ⟨_, ((encoding_cases hwritten).resolve_left hbytes) rest, ?_⟩
    exact (decoded_integers_iff range newentity deltaorigin).mpr hfits

/-- No update begins another one, and the same bytes give the same knowledge. -/
theorem decoded_of_prefix {protocolVersion : Nat} {old new other : EntityState}
    {force newentity deltaorigin : Bool} {bytes bytes' : List UInt8}
    (h : encoding protocolVersion old new force newentity deltaorigin = some bytes)
    (h' : encoding protocolVersion old other force newentity deltaorigin = some bytes')
    (nonempty : bytes ≠ []) (begins : bytes <+: bytes') :
    bytes = bytes' ∧ decoded protocolVersion old new newentity deltaorigin =
      decoded protocolVersion old other newentity deltaorigin := by
  obtain ⟨rest, rfl⟩ := begins
  have hnonempty : bytes ++ rest ≠ [] := fun hnil => nonempty (List.append_eq_nil_iff.mp hnil).1
  have hread := ((encoding_cases h).resolve_left nonempty) rest
  have hread' := ((encoding_cases h').resolve_left hnonempty) []
  rw [List.append_nil, hread, Option.some.injEq, Prod.mk.injEq] at hread'
  obtain ⟨hdecoded, hrest⟩ := hread'
  exact ⟨by rw [hrest, List.append_nil], hdecoded⟩

/-- The decoder recovers an update exactly where the size of the render effects fits
both of them. Updates that it recovers have different bytes where their fields differ,
and none begins another. -/
theorem recovers_exactly {old new : EntityState}
    (old_in_range : old.number < maxEdicts .kingpin) (range : WireRange new)
    (protocolVersion : Nat) (force newentity deltaorigin : Bool) :
    (Recovers protocolVersion old new force newentity deltaorigin ↔ RenderfxFits old new) ∧
    ∀ other, WireRange other → ∀ bytes bytes',
      encoding protocolVersion old new force newentity deltaorigin = some bytes →
      encoding protocolVersion old other force newentity deltaorigin = some bytes' →
      bytes ≠ [] → bytes <+: bytes' →
      bytes = bytes' ∧ (RenderfxFits old new → RenderfxFits old other →
        (known new).integers protocolVersion = (known other).integers protocolVersion) := by
  refine ⟨recovers_iff old_in_range range force newentity deltaorigin, ?_⟩
  intro other hother bytes bytes' h h' nonempty begins
  obtain ⟨hbytes, hdecoded⟩ := decoded_of_prefix h h' nonempty begins
  refine ⟨hbytes, fun hfits hfits' => ?_⟩
  rw [← (decoded_integers_iff range newentity deltaorigin).mpr hfits, hdecoded]
  exact (decoded_integers_iff hother newentity deltaorigin).mpr hfits'

private def plainPart : ModelPart := ⟨0, 0, Vector.replicate 8 0, []⟩

/-- An entity with these render effects and nothing else. -/
private def glowing (renderfx : Int) : EntityState where
  number := 1
  origin := ⟨0, 0, 0⟩
  angles := ⟨0, 0, 0⟩
  oldOrigin := ⟨0, 0, 0⟩
  modelindex := 1
  frame := 0
  skinnum := 0
  effects := 0
  renderfx
  renderfx2 := 0
  solid := 0
  sound := 0
  event := 0
  numParts := 0
  modelParts := Vector.replicate 8 plainPart
  modelLighting := ⟨Vector.replicate 3 0, 0, []⟩
  scale := 0

private theorem wireRange_glowing {renderfx : Int}
    (h : -2 ^ 31 ≤ renderfx ∧ renderfx < 2 ^ 31) : WireRange (glowing renderfx) := by
  have hzero : (0 : Int) ≤ 0 ∧ (0 : Int) ≤ 65535 := by decide
  have hbyte : (0 : Int) ≤ 0 ∧ (0 : Int) ≤ 255 := by decide
  have hword : -2 ^ 31 ≤ (0 : Int) ∧ (0 : Int) < 2 ^ 31 := by decide
  have hone : (0 : Int) ≤ 1 ∧ (1 : Int) ≤ 255 := by decide
  have hnumber : 0 < 1 ∧ 1 < maxEdicts .kingpin := by decide
  refine ⟨hnumber, hone, hbyte, ?_, hbyte, hzero, hzero, hzero, hword, ?_, h, hword⟩
  · simp [glowing, plainPart]
  · simp [glowing]

theorem recovers_exactly_example :
    Recovers 114 (glowing 0) (glowing 70000) false false false ∧
    ¬ Recovers 114 (glowing 0) (glowing (-1)) false false false := by
  constructor
  · refine (recovers_exactly ?_ (wireRange_glowing ?_) 114 false false false).1.mpr ?_
    · decide
    · decide
    · exact Or.inr (Or.inl (by decide))
  · rw [(recovers_exactly (by decide) (wireRange_glowing (by decide)) 114 false false false).1]
    simp [RenderfxFits, glowing]

/-- The top bit of the render effects is lost beside a small second field. -/
theorem top_bit_lost :
    WireRange (glowing 0) ∧ WireRange (glowing (-2 ^ 31)) ∧
    encoding 114 (glowing 1) (glowing 0) false false false =
      encoding 114 (glowing 1) (glowing (-2 ^ 31)) false false false ∧
    encoding 114 (glowing 1) (glowing 0) false false false ≠ some [] ∧
    (known (glowing 0)).integers 114 ≠ (known (glowing (-2 ^ 31))).integers 114 := by
  refine ⟨wireRange_glowing (by decide), wireRange_glowing (by decide), ?_, ?_, ?_⟩
  · decide +kernel
  · decide +kernel
  · decide +kernel

end DeltaCoding
