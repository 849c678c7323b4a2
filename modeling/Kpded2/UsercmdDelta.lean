import Kpded2.ClientMessage
import Kpded2.PacketParse

/-!
# `MSG_WriteDeltaUsercmd`

The commands of a client and how the server reads them, in both builds. Some fields have a
short form, a byte that is scaled; bits of the buttons that are not buttons announce it.
Without `KINGPIN`, from a minor version of the protocol on, the buttons come before the
fields, so that these bits are known in time. With `KINGPIN` they come behind them, and the
reader knows of no short form.
-/
namespace UsercmdDelta
open ClientMessage Protocol
open DeltaEntity (Written)
open SizeBuf (shortBytes)
open PacketParse (allBytes allBytes_append allBytes_cons ite_bne_self)

def minorVersionR1q2UcmdUpdates : Int := 1904

def buttonsFirst (build : Build) (protocol : Int) : Bool :=
  build == .quake2 && decide (minorVersionR1q2UcmdUpdates ≤ protocol)

/-- The fields that have a short form. -/
inductive Field where
  | angle1
  | angle2
  | forwardmove
  | sidemove
  | upmove
  deriving DecidableEq

def Field.get (cmd : Usercmd) : Field → Int
  | .angle1 => cmd.angle1
  | .angle2 => cmd.angle2
  | .forwardmove => cmd.forwardmove
  | .sidemove => cmd.sidemove
  | .upmove => cmd.upmove

/-- `CM_ANGLE1` to `CM_UP`. -/
def Field.bit : Field → Nat
  | .angle1 => 0
  | .angle2 => 1
  | .forwardmove => 3
  | .sidemove => 4
  | .upmove => 5

/-- `BUTTON_UCMD_DBL_ANGLE1` to `BUTTON_UCMD_DBLUP`. -/
def Field.button : Field → Nat
  | .angle1 => 5
  | .angle2 => 6
  | .forwardmove => 2
  | .sidemove => 3
  | .upmove => 4

def Field.scale : Field → Int
  | .angle1 => 64
  | .angle2 => 256
  | .forwardmove | .sidemove | .upmove => 5

def Field.changed (base cmd : Usercmd) (f : Field) : Bool := f.get cmd != f.get base

/-! ## Writing -/

/-- `if (c) bits |= 1<<k`, one after the other. -/
def setBits (bits : Nat) (sets : List (Bool × Nat)) : Nat :=
  sets.foldl (fun bits set => if set.1 then bits ||| 2 ^ set.2 else bits) bits

def changedBits (base cmd : Usercmd) : Nat :=
  setBits 0
    [(Field.angle1.changed base cmd, 0),
     (Field.angle2.changed base cmd, 1),
     (cmd.angle3 != base.angle3, 2),
     (Field.forwardmove.changed base cmd, 3),
     (Field.sidemove.changed base cmd, 4),
     (Field.upmove.changed base cmd, 5),
     (cmd.buttons != base.buttons, 6),
     (cmd.impulse != base.impulse, 7)]

/-- What the writer asks before it announces the short form of a field that has changed. The
range of a move is not asked for. -/
def Field.shortens (cmd : Usercmd) : Field → Bool
  | .angle1 => cmd.angle1.tmod 64 == 0 && decide ((cmd.angle1.tdiv 64).natAbs < 128)
  | .angle2 => cmd.angle2.tmod 256 == 0
  | .forwardmove => cmd.forwardmove.tmod 5 == 0
  | .sidemove => cmd.sidemove.tmod 5 == 0
  | .upmove => cmd.upmove.tmod 5 == 0

/-- `buttons`: zero unless they have changed. -/
def writtenButtons (build : Build) (protocol : Int) (base cmd : Usercmd) : Nat :=
  let announce (f : Field) := (f.changed base cmd && f.shortens cmd, f.button)
  if cmd.buttons != base.buttons then
    if buttonsFirst build protocol then
      setBits cmd.buttons.toNat
        [announce .forwardmove, announce .sidemove, announce .upmove, announce .angle1,
         announce .angle2]
    else cmd.buttons.toNat
  else 0

def writeIf (set : Bool) (w : Written) : List Written := if set then [w] else []

/-- Here the build is not asked for. -/
def writeField (base cmd : Usercmd) (buttons : Nat) (f : Field) : List Written :=
  writeIf (f.changed base cmd)
    (if buttons.testBit f.button then .byte ((f.get cmd).tdiv f.scale) else .short (f.get cmd))

def msgWriteDeltaUsercmd (build : Build) (protocol : Int) (base cmd : Usercmd) : List Written :=
  let first := buttonsFirst build protocol
  let buttons := writtenButtons build protocol base cmd
  .byte (changedBits base cmd) ::
    (writeIf (first && cmd.buttons != base.buttons) (.byte buttons) ++
    (writeField base cmd buttons .angle1 ++
    (writeField base cmd buttons .angle2 ++
    (writeIf (cmd.angle3 != base.angle3) (.short cmd.angle3) ++
    (writeField base cmd buttons .forwardmove ++
    (writeField base cmd buttons .sidemove ++
    (writeField base cmd buttons .upmove ++
    (writeIf (!first && cmd.buttons != base.buttons) (.byte buttons) ++
    (writeIf (cmd.impulse != base.impulse) (.byte cmd.impulse.toNat) ++
    [.byte cmd.msec.toNat, .byte cmd.lightlevel.toNat])))))))))

/-! ## Reading -/

def msgReadChar (data : List UInt8) : Read Int := fun readcount =>
  (match data[readcount]? with
    | some b => int8 b
    | none => -1, readcount + 1)

def readField (bits buttons : Int) (base : Usercmd) (f : Field) (data : List UInt8) : Read Int :=
  readIf (flag bits f.bit)
    (if flag buttons f.button then (· * f.scale) <$> msgReadChar data else msgReadShort data)
    (f.get base)

/-- `BUTTON_ATTACK|BUTTON_USE|BUTTON_ANY`. -/
def realButtons : UInt8 := 131

def msgReadDeltaUsercmd (build : Build) (protocol : Int) (base : Usercmd) (data : List UInt8) :
    Read Usercmd := do
  let bits ← msgReadByte data
  let first := buttonsFirst build protocol
  -- with `KINGPIN` there is no such variable, so no field is taken for a short form
  let buttons ← readIf (first && flag bits 6) (msgReadByte data) 0
  let angle1 ← readField bits buttons base .angle1 data
  let angle2 ← readField bits buttons base .angle2 data
  let angle3 ← readIf (flag bits 2) (msgReadShort data) base.angle3
  let forwardmove ← readField bits buttons base .forwardmove data
  let sidemove ← readField bits buttons base .sidemove data
  let upmove ← readField bits buttons base .upmove data
  let held := if first && flag bits 6 then toByte buttons &&& realButtons else base.buttons
  let pressed ← readByteIf data (!first && flag bits 6) held
  let impulse ← readByteIf data (flag bits 7) base.impulse
  let msec ← msgReadByte data
  let lightlevel ← msgReadByte data
  pure { msec := toByte msec, buttons := pressed, angle1, angle2, angle3, forwardmove, sidemove,
         upmove, impulse, lightlevel := toByte lightlevel }

theorem flag_zero (k : Nat) : flag 0 k = false := by
  simp [flag]

theorem buttonsFirst_kingpin (protocol : Int) : buttonsFirst .kingpin protocol = false := rfl

/-- The Kingpin build reads them as its server does. -/
theorem msgReadDeltaUsercmd_kingpin (protocol : Int) (base : Usercmd) (data : List UInt8) :
    msgReadDeltaUsercmd .kingpin protocol base data =
      ClientMessage.msgReadDeltaUsercmd data base := by
  simp only [msgReadDeltaUsercmd, buttonsFirst_kingpin, readField, readIf, Bool.false_and,
    Bool.false_eq_true, if_false, pure_bind, flag_zero]
  rfl

/-! ## What a reader takes -/

section
variable {α β : Type}

/-- `read` takes exactly `bytes`, wherever they stand in a message. -/
def Takes (read : List UInt8 → Read α) (bytes : List UInt8) (a : α) : Prop :=
  ∀ front rest,
    read (front ++ (bytes ++ rest)) front.length = (a, front.length + bytes.length)

theorem takes_pure (a : α) : Takes (fun _ => pure a) [] a := fun _ _ => rfl

theorem Takes.bind {read : List UInt8 → Read α} {next : α → List UInt8 → Read β}
    {xs ys : List UInt8} {a : α} {b : β} (h : Takes read xs a) (hnext : Takes (next a) ys b) :
    Takes (fun data => read data >>= fun a => next a data) (xs ++ ys) b := by
  intro front rest
  have first := h front (ys ++ rest)
  have second := hnext (front ++ xs) rest
  simp only [List.append_assoc, List.length_append] at first second ⊢
  change next (read _ _).1 _ (read _ _).2 = _
  rw [first, second, Nat.add_assoc]

theorem Takes.last {read : List UInt8 → Read α} {f : α → β} {xs : List UInt8} {a : α}
    (h : Takes read xs a) : Takes (fun data => read data >>= fun a => pure (f a)) xs (f a) := by
  have taken := @Takes.bind α β read (fun a _ => pure (f a)) xs [] a (f a) h (takes_pure (f a))
  rwa [List.append_nil] at taken

theorem Takes.map {read : List UInt8 → Read α} {xs : List UInt8} {a : α} (h : Takes read xs a)
    (f : α → β) : Takes (fun data => f <$> read data) xs (f a) := h.last

theorem takes_readIf {read : List UInt8 → Read α} {w : Written} {a : α} (set : Bool)
    (h : set = true → Takes read w.bytes a) (old : α) :
    Takes (fun data => readIf set (read data) old) (allBytes (writeIf set w))
      (if set then a else old) := by
  cases set with
  | true =>
    have one : allBytes (writeIf true w) = w.bytes := List.append_nil w.bytes
    rw [one]
    exact h rfl
  | false => exact takes_pure old

end

theorem getElem?_front (front rest : List UInt8) (b : UInt8) :
    (front ++ ([b] ++ rest))[front.length]? = some b := by
  rw [List.getElem?_append_right le_rfl, Nat.sub_self]
  rfl

theorem toNat_emod_byte (c : Int) : (((c % 2 ^ 8).toNat % 2 ^ 8 : Nat) : Int) = c % 2 ^ 8 := by
  omega

theorem emod_bmod_pow (c : Int) (n : Nat) : (c % 2 ^ n).bmod (2 ^ n) = c.bmod (2 ^ n) := by
  have wrapped := Int.emod_bmod c (2 ^ n)
  rwa [Nat.cast_pow] at wrapped

theorem takes_msgReadByte (c : Int) : Takes msgReadByte (Written.byte c).bytes (c % 2 ^ 8) := by
  intro front rest
  simp only [msgReadByte, Written.bytes, getElem?_front, UInt8.toNat_ofNat', List.length_singleton]
  rw [toNat_emod_byte]

theorem takes_msgReadChar (c : Int) :
    Takes msgReadChar (Written.byte c).bytes (c.bmod (2 ^ 8)) := by
  intro front rest
  have value : int8 (UInt8.ofNat (c % 2 ^ 8).toNat) = c.bmod (2 ^ 8) := by
    have unsigned := toNat_emod_byte c
    rw [← UInt8.toNat_ofNat'] at unsigned
    unfold int8
    rw [unsigned]
    exact emod_bmod_pow c 8
  simp only [msgReadChar, Written.bytes, getElem?_front, value, List.length_singleton]

theorem littleEndian_shortBytes (n : Nat) : littleEndian (shortBytes n) = n % 2 ^ 16 := by
  simp only [littleEndian, shortBytes, UInt8.toNat_ofNat']
  omega

theorem bytesAt_front (front bytes rest : List UInt8) :
    bytesAt (front ++ (bytes ++ rest)) front.length bytes.length = some bytes := by
  have inside : ¬front.length + bytes.length > (front ++ (bytes ++ rest)).length := by
    simp only [List.length_append]
    omega
  rw [bytesAt, if_neg inside, List.drop_left, List.take_left]

theorem takes_msgReadShort (c : Int) :
    Takes msgReadShort (Written.short c).bytes (c.bmod (2 ^ 16)) := by
  intro front rest
  have here := bytesAt_front front (shortBytes (c % 2 ^ 16).toNat) rest
  have unsigned : (((c % 2 ^ 16).toNat % 2 ^ 16 : Nat) : Int) = c % 2 ^ 16 := by omega
  change bytesAt _ _ 2 = _ at here
  simp only [msgReadShort, Written.bytes, here, littleEndian_shortBytes]
  rw [unsigned, emod_bmod_pow]
  rfl

/-! ## The two bytes of bits -/

theorem testBit_setBits (sets : List (Bool × Nat)) (bits k : Nat) :
    (setBits bits sets).testBit k = (bits.testBit k || sets.any fun set => set.1 && set.2 == k) := by
  induction sets generalizing bits with
  | nil => simp [setBits]
  | cons set sets ih =>
    have step : setBits bits (set :: sets) =
        setBits (if set.1 then bits ||| 2 ^ set.2 else bits) sets := rfl
    rw [step, ih, List.any_cons]
    cases set.1 with
    | true => simp [Nat.testBit_or, Nat.testBit_two_pow, Bool.or_assoc, BEq.beq]
    | false => simp

theorem setBits_lt {sets : List (Bool × Nat)} (low : ∀ set ∈ sets, set.2 < 8) {bits : Nat}
    (small : bits < 2 ^ 8) : setBits bits sets < 2 ^ 8 := by
  induction sets generalizing bits with
  | nil => exact small
  | cons set sets ih =>
    apply ih fun s hs => low s (List.mem_cons_of_mem set hs)
    dsimp only
    split
    · exact Nat.or_lt_two_pow small (Nat.pow_lt_pow_right one_lt_two (low set List.mem_cons_self))
    · exact small

theorem flag_natCast (n k : Nat) : flag n k = n.testBit k := by
  rw [flag, Nat.testBit_eq_decide_div_mod_eq]
  norm_cast

theorem changedBits_lt (base cmd : Usercmd) : changedBits base cmd < 2 ^ 8 := by
  apply setBits_lt
  · simp
  · norm_num

theorem flag_changed (base cmd : Usercmd) (f : Field) :
    flag (changedBits base cmd) f.bit = f.changed base cmd := by
  rw [flag_natCast, changedBits, testBit_setBits]
  cases f <;> simp [Field.bit]

theorem flag_others (base cmd : Usercmd) :
    flag (changedBits base cmd) 2 = (cmd.angle3 != base.angle3) ∧
      flag (changedBits base cmd) 6 = (cmd.buttons != base.buttons) ∧
      flag (changedBits base cmd) 7 = (cmd.impulse != base.impulse) := by
  simp [flag_natCast, changedBits, testBit_setBits]

theorem writtenButtons_lt (build : Build) (protocol : Int) (base cmd : Usercmd) :
    writtenButtons build protocol base cmd < 2 ^ 8 := by
  unfold writtenButtons
  split
  · split
    · apply setBits_lt
      · simp [Field.button]
      · exact cmd.buttons.toNat_lt
    · exact cmd.buttons.toNat_lt
  · norm_num

/-- A short form is taken for a button that is pressed, or because the field can have it. -/
theorem testBit_writtenButtons (build : Build) (protocol : Int) (base cmd : Usercmd) (f : Field) :
    (writtenButtons build protocol base cmd).testBit f.button =
      (cmd.buttons != base.buttons && (cmd.buttons.toNat.testBit f.button ||
        buttonsFirst build protocol && (f.changed base cmd && f.shortens cmd))) := by
  unfold writtenButtons
  cases cmd.buttons != base.buttons with
  | false => simp
  | true =>
    cases buttonsFirst build protocol with
    | false => simp
    | true =>
      simp only [if_true, testBit_setBits]
      cases f <;> simp [Field.button]

/-! ## What is read back -/

def received (base cmd : Usercmd) (buttons : Nat) (f : Field) : Int :=
  if f.changed base cmd then
    if buttons.testBit f.button then ((f.get cmd).tdiv f.scale).bmod (2 ^ 8) * f.scale
    else (f.get cmd).bmod (2 ^ 16)
  else f.get base

theorem takes_readField {base cmd : Usercmd} {bits heard : Int} {buttons : Nat} {f : Field}
    (hbits : flag bits f.bit = f.changed base cmd)
    (same : f.changed base cmd = true → flag heard f.button = buttons.testBit f.button) :
    Takes (readField bits heard base f) (allBytes (writeField base cmd buttons f))
      (received base cmd buttons f) := by
  unfold readField writeField received
  rw [hbits]
  apply takes_readIf
  intro changed
  rw [same changed]
  cases buttons.testBit f.button with
  | true => exact (takes_msgReadChar _).map (· * f.scale)
  | false => exact takes_msgReadShort _

theorem takes_small {n : Nat} (small : n < 2 ^ 8) :
    Takes msgReadByte (Written.byte n).bytes (n : Int) := by
  have taken := takes_msgReadByte n
  have value : (n : Int) % 2 ^ 8 = n := by omega
  rwa [value] at taken

theorem toByte_natCast (n : Nat) : toByte n = UInt8.ofNat n := by
  apply UInt8.toNat_inj.mp
  simp only [toByte, UInt8.toNat_ofNat']
  omega

theorem toByte_toNat (b : UInt8) : toByte b.toNat = b := by
  rw [toByte_natCast, UInt8.ofNat_toNat]

theorem takes_readByteIf (set : Bool) {n : Nat} (small : n < 2 ^ 8) (old : UInt8) :
    Takes (fun data => readByteIf data set old) (allBytes (writeIf set (.byte n)))
      (if set then UInt8.ofNat n else old) := by
  have taken := (takes_small small).map toByte
  rw [toByte_natCast] at taken
  exact takes_readIf set (fun _ => taken) old

/-- What the reader has in `buttons` when it comes to the fields. -/
def heardButtons (build : Build) (protocol : Int) (base cmd : Usercmd) : Int :=
  if buttonsFirst build protocol && cmd.buttons != base.buttons then
    (writtenButtons build protocol base cmd : Int)
  else 0

def readBack (build : Build) (protocol : Int) (base cmd : Usercmd) : Usercmd :=
  let first := buttonsFirst build protocol
  let pressed := cmd.buttons != base.buttons
  let buttons := writtenButtons build protocol base cmd
  { msec := cmd.msec
    buttons :=
      if !first && pressed then UInt8.ofNat buttons
      else if first && pressed then
        toByte (heardButtons build protocol base cmd) &&& realButtons
      else base.buttons
    angle1 := received base cmd buttons .angle1
    angle2 := received base cmd buttons .angle2
    angle3 := if cmd.angle3 != base.angle3 then cmd.angle3.bmod (2 ^ 16) else base.angle3
    forwardmove := received base cmd buttons .forwardmove
    sidemove := received base cmd buttons .sidemove
    upmove := received base cmd buttons .upmove
    impulse := if cmd.impulse != base.impulse then cmd.impulse else base.impulse
    lightlevel := cmd.lightlevel }

/-- A command is read with as many bytes as were written for it. -/
theorem takes_readBack {build : Build} {protocol : Int} {base cmd : Usercmd}
    (same : ∀ f : Field, f.changed base cmd = true →
      flag (heardButtons build protocol base cmd) f.button =
        (writtenButtons build protocol base cmd).testBit f.button) :
    Takes (msgReadDeltaUsercmd build protocol base)
      (allBytes (msgWriteDeltaUsercmd build protocol base cmd))
      (readBack build protocol base cmd) := by
  obtain ⟨hangle3, hbuttons, himpulse⟩ := flag_others base cmd
  have field (f : Field) := takes_readField (flag_changed base cmd f) (same f)
  have buttons := takes_small (writtenButtons_lt build protocol base cmd)
  have byte (b : UInt8) := takes_small b.toNat_lt
  simp only [msgWriteDeltaUsercmd, allBytes_cons, allBytes_append]
  unfold msgReadDeltaUsercmd
  apply (takes_small (changedBits_lt base cmd)).bind
  rw [hangle3, hbuttons, himpulse]
  apply (takes_readIf _ (fun _ => buttons) 0).bind
  apply (field .angle1).bind
  apply (field .angle2).bind
  apply (takes_readIf _ (fun _ => takes_msgReadShort _) _).bind
  apply (field .forwardmove).bind
  apply (field .sidemove).bind
  apply (field .upmove).bind
  apply (takes_readByteIf _ (writtenButtons_lt build protocol base cmd) _).bind
  apply (takes_readByteIf _ cmd.impulse.toNat_lt _).bind
  apply (byte cmd.msec).bind
  apply (byte cmd.lightlevel).bind
  simp only [toByte_toNat, UInt8.ofNat_toNat]
  exact takes_pure _

/-! ## When it is the command that was sent -/

def InRange (c : Int) : Prop := -2 ^ 15 ≤ c ∧ c < 2 ^ 15

instance (c : Int) : Decidable (InRange c) := inferInstanceAs (Decidable (_ ∧ _))

/-- A command whose members are in their types; in a build without `KINGPIN` the bits of its
buttons are buttons. -/
structure Command (build : Build) extends Usercmd where
  range : ∀ f : Field, InRange (f.get toUsercmd)
  roll : InRange angle3
  real : build = .quake2 → buttons &&& realButtons = buttons

theorem bmod_of_inRange {c : Int} (range : InRange c) : c.bmod (2 ^ 16) = c := by
  obtain ⟨low, high⟩ := range
  apply Int.bmod_eq_of_le <;> omega

theorem received_long {base cmd : Usercmd} {buttons : Nat} {f : Field}
    (range : InRange (f.get cmd))
    (long : f.changed base cmd = true → buttons.testBit f.button = false) :
    received base cmd buttons f = f.get cmd := by
  have value : received base cmd buttons f =
      if f.get cmd != f.get base then f.get cmd else f.get base := by
    unfold received Field.changed at *
    split
    · rename_i changed
      rw [long changed, if_neg Bool.false_ne_true, bmod_of_inRange range]
    · rfl
  rw [value]
  exact ite_bne_self id _ _

theorem bmod_byte_iff (q : Int) : q.bmod (2 ^ 8) = q ↔ -128 ≤ q ∧ q < 128 := by
  constructor
  · intro same
    have low := Int.le_bmod (x := q) (m := 2 ^ 8) (by decide)
    have high := Int.bmod_lt (x := q) (m := 2 ^ 8) (by decide)
    omega
  · rintro ⟨low, high⟩
    apply Int.bmod_eq_of_le <;> omega

/-- A short form holds what fits into a signed byte. -/
theorem scaled_iff {c scale : Int} (positive : 0 < scale) (multiple : c.tmod scale = 0) :
    (c.tdiv scale).bmod (2 ^ 8) * scale = c ↔ -128 * scale ≤ c ∧ c < 128 * scale := by
  have whole : c.tdiv scale * scale = c := Int.tdiv_mul_cancel (Int.dvd_of_tmod_eq_zero multiple)
  generalize c.tdiv scale = q at whole
  subst whole
  rw [mul_left_inj' positive.ne', bmod_byte_iff, mul_le_mul_iff_of_pos_right positive,
    mul_lt_mul_iff_of_pos_right positive]

def moves : List Field := [.forwardmove, .sidemove, .upmove]

/-- The writer asks whether a field is a multiple, but only of the pitch whether it fits. -/
theorem short_iff {cmd : Usercmd} {f : Field} (range : InRange (f.get cmd))
    (shortens : f.shortens cmd = true) :
    ((f.get cmd).tdiv f.scale).bmod (2 ^ 8) * f.scale = f.get cmd ↔
      (f ∈ moves → -640 ≤ f.get cmd ∧ f.get cmd < 640) := by
  obtain ⟨low, high⟩ := range
  cases f with
  | angle1 =>
    simp only [Field.shortens, Bool.and_eq_true, beq_iff_eq, decide_eq_true_eq] at shortens
    obtain ⟨multiple, few⟩ := shortens
    have whole := Int.tdiv_mul_cancel (Int.dvd_of_tmod_eq_zero multiple)
    have fits : -128 * 64 ≤ cmd.angle1 ∧ cmd.angle1 < 128 * 64 := by omega
    exact iff_of_true ((scaled_iff (by decide) multiple).mpr fits) fun move => by
      simp [moves] at move
  | angle2 =>
    simp only [Field.shortens, beq_iff_eq] at shortens
    exact iff_of_true ((scaled_iff (by decide) shortens).mpr ⟨low, high⟩) fun move => by
      simp [moves] at move
  | forwardmove | sidemove | upmove =>
    simp only [Field.shortens, beq_iff_eq] at shortens
    refine (scaled_iff (by decide) shortens).trans ?_
    simp [moves, Field.get]

theorem testBit_of_real {buttons : UInt8} (real : buttons &&& realButtons = buttons) (k : Nat) :
    buttons.toNat.testBit k = (buttons.toNat.testBit k && realButtons.toNat.testBit k) := by
  have bits := congrArg (fun b : UInt8 => b.toNat.testBit k) real
  simpa [Nat.testBit_and] using bits.symm

theorem testBit_realButtons (f : Field) : realButtons.toNat.testBit f.button = false := by
  cases f <;> rfl

/-- Without the bits that announce short forms, the buttons are those that are pressed. -/
theorem setBits_real {buttons : UInt8} (real : buttons &&& realButtons = buttons)
    {sets : List (Bool × Nat)} (announced : ∀ set ∈ sets, ∃ f : Field, set.2 = f.button)
    (small : setBits buttons.toNat sets < 2 ^ 8) :
    toByte (setBits buttons.toNat sets) &&& realButtons = buttons := by
  apply UInt8.toNat_inj.mp
  rw [toByte_natCast, UInt8.toNat_and, UInt8.toNat_ofNat', Nat.mod_eq_of_lt small]
  apply Nat.eq_of_testBit_eq
  intro k
  rw [Nat.testBit_and, testBit_setBits, testBit_of_real real]
  cases hreal : realButtons.toNat.testBit k with
  | false => simp
  | true =>
    have none : (sets.any fun set => set.1 && set.2 == k) = false := by
      rw [List.any_eq_false]
      intro set hset held
      obtain ⟨f, hf⟩ := announced set hset
      obtain ⟨-, rfl⟩ : set.1 = true ∧ set.2 = k := by simpa using held
      rw [hf, testBit_realButtons] at hreal
      cases hreal
    simp [none]

theorem pressed_readBack {build : Build} (protocol : Int) (base : Usercmd) (cmd : Command build) :
    (readBack build protocol base cmd.toUsercmd).buttons = cmd.buttons := by
  have small := writtenButtons_lt build protocol base cmd.toUsercmd
  simp only [readBack, heardButtons]
  unfold writtenButtons at small ⊢
  cases pressed : cmd.buttons != base.buttons with
  | false =>
    simpa using (by simpa using pressed : cmd.buttons = base.buttons).symm
  | true =>
    simp only [pressed] at small
    cases first : buttonsFirst build protocol with
    | false => simp
    | true =>
      have quake2 : build = .quake2 := by
        cases build with
        | kingpin => cases first
        | quake2 => rfl
      simp only [first, Bool.not_true, Bool.and_true, Bool.false_eq_true, if_false, if_true] at small ⊢
      apply setBits_real (cmd.real quake2) _ small
      simp

theorem Field.ext_usercmd {a b : Usercmd} (fields : ∀ f : Field, f.get a = f.get b)
    (angle3 : a.angle3 = b.angle3) (msec : a.msec = b.msec) (buttons : a.buttons = b.buttons)
    (impulse : a.impulse = b.impulse) (lightlevel : a.lightlevel = b.lightlevel) : a = b := by
  cases a
  cases b
  simp only [Usercmd.mk.injEq]
  exact ⟨msec, buttons, fields .angle1, fields .angle2, angle3, fields .forwardmove,
    fields .sidemove, fields .upmove, impulse, lightlevel⟩

theorem get_readBack (build : Build) (protocol : Int) (base cmd : Usercmd) (f : Field) :
    f.get (readBack build protocol base cmd) =
      received base cmd (writtenButtons build protocol base cmd) f := by
  cases f <;> rfl

theorem readBack_eq_iff {build : Build} (protocol : Int) (base : Usercmd) (cmd : Command build) :
    readBack build protocol base cmd.toUsercmd = cmd.toUsercmd ↔
      ∀ f : Field, received base cmd.toUsercmd
        (writtenButtons build protocol base cmd.toUsercmd) f = f.get cmd.toUsercmd := by
  constructor
  · intro same f
    rw [← get_readBack, same]
  · intro fields
    apply Field.ext_usercmd
    · intro f
      rw [get_readBack, fields f]
    · simp only [readBack, bmod_of_inRange cmd.roll, ite_bne_self fun c => c]
    · rfl
    · exact pressed_readBack protocol base cmd
    · exact ite_bne_self id _ _
    · rfl

/-! ## The two builds -/

/-- With `KINGPIN` a key that is pressed must not be taken for a short form; without it, a move
that has a short form must fit. -/
def Agrees (build : Build) (protocol : Int) (base cmd : Usercmd) : Prop :=
  match build with
  | .kingpin => cmd.buttons ≠ base.buttons →
      ∀ f : Field, f.get cmd ≠ f.get base → cmd.buttons.toNat.testBit f.button = false
  | .quake2 => minorVersionR1q2UcmdUpdates ≤ protocol → cmd.buttons ≠ base.buttons →
      ∀ f ∈ moves, f.get cmd ≠ f.get base → 5 ∣ f.get cmd →
        -640 ≤ f.get cmd ∧ f.get cmd < 640

theorem testBit_quake2 (protocol : Int) (base : Usercmd) (cmd : Command .quake2) (f : Field) :
    (writtenButtons .quake2 protocol base cmd.toUsercmd).testBit f.button =
      (cmd.buttons != base.buttons && (buttonsFirst .quake2 protocol &&
        (f.changed base cmd.toUsercmd && f.shortens cmd.toUsercmd))) := by
  have pressed := testBit_of_real (cmd.real rfl) f.button
  rw [testBit_realButtons, Bool.and_false] at pressed
  rw [testBit_writtenButtons, pressed, Bool.false_or]

theorem heard_quake2 (protocol : Int) (base : Usercmd) (cmd : Command .quake2) (f : Field) :
    flag (heardButtons .quake2 protocol base cmd.toUsercmd) f.button =
      (writtenButtons .quake2 protocol base cmd.toUsercmd).testBit f.button := by
  unfold heardButtons
  split
  · exact flag_natCast _ _
  · rename_i unheard
    rw [flag_zero, testBit_quake2]
    simp only [Bool.and_eq_true, not_and, Bool.not_eq_true] at unheard
    cases first : buttonsFirst .quake2 protocol with
    | false => simp
    | true => simp [unheard first]

theorem shortens_move {cmd : Usercmd} {f : Field} (move : f ∈ moves) :
    f.shortens cmd = true ↔ 5 ∣ f.get cmd := by
  have multiple (c : Int) : (c.tmod 5 == 0) = true ↔ 5 ∣ c := by
    rw [beq_iff_eq, Int.dvd_iff_tmod_eq_zero]
  cases f with
  | angle1 | angle2 => simp [moves] at move
  | forwardmove | sidemove | upmove => exact multiple _

theorem received_quake2_iff (protocol : Int) (base : Usercmd) (cmd : Command .quake2) (f : Field) :
    received base cmd.toUsercmd (writtenButtons .quake2 protocol base cmd.toUsercmd) f =
        f.get cmd.toUsercmd ↔
      (minorVersionR1q2UcmdUpdates ≤ protocol → cmd.buttons ≠ base.buttons → f ∈ moves →
        f.get cmd.toUsercmd ≠ f.get base → 5 ∣ f.get cmd.toUsercmd →
          -640 ≤ f.get cmd.toUsercmd ∧ f.get cmd.toUsercmd < 640) := by
  cases short : (writtenButtons .quake2 protocol base cmd.toUsercmd).testBit f.button with
  | true =>
    have said := short
    simp only [testBit_quake2, Bool.and_eq_true, bne_iff_ne, ne_eq, Field.changed, buttonsFirst,
      beq_self_eq_true, true_and, decide_eq_true_eq] at said
    obtain ⟨pressed, first, changed, shortens⟩ := said
    have value : received base cmd.toUsercmd
        (writtenButtons .quake2 protocol base cmd.toUsercmd) f =
        ((f.get cmd.toUsercmd).tdiv f.scale).bmod (2 ^ 8) * f.scale := by
      have differs : f.changed base cmd.toUsercmd = true := by simpa [Field.changed] using changed
      rw [received, if_pos differs, if_pos short]
    rw [value, short_iff (cmd.range f) shortens]
    constructor
    · intro fits _ _ move _ _
      exact fits move
    · intro fits move
      exact fits first pressed move changed ((shortens_move move).mp shortens)
  | false =>
    refine iff_of_true (received_long (cmd.range f) fun _ => short) ?_
    intro first pressed move changed multiple
    simp [testBit_quake2, Field.changed, buttonsFirst, first, pressed, changed,
      (shortens_move move).mpr multiple] at short

theorem long_kingpin_iff {protocol : Int} {base cmd : Usercmd} :
    (∀ f : Field, f.changed base cmd = true →
      (writtenButtons .kingpin protocol base cmd).testBit f.button = false) ↔
    Agrees .kingpin protocol base cmd := by
  simp only [testBit_writtenButtons, buttonsFirst_kingpin, Bool.false_and, Bool.or_false,
    Bool.and_eq_false_imp, bne_iff_ne, Field.changed]
  constructor
  · intro long pressed f changed
    exact long f changed pressed
  · intro agrees f changed pressed
    exact agrees pressed f changed

/-! ## How far the Kingpin build reads -/

section
variable {α β : Type}

/-- The reader moves by `n` bytes. -/
def Moves (read : Read α) (n : Nat) : Prop := ∀ readcount, (read readcount).2 = readcount + n

theorem moves_pure (a : α) : Moves (pure a : Read α) 0 := fun _ => rfl

theorem Moves.bind {read : Read α} {next : α → Read β} {n m : Nat} (h : Moves read n)
    (hnext : ∀ a, Moves (next a) m) : Moves (read >>= next) (n + m) := by
  intro readcount
  have first := h readcount
  have second := hnext (read readcount).1 (read readcount).2
  change (next (read readcount).1 (read readcount).2).2 = _
  rw [second, first, Nat.add_assoc]

theorem moves_readIf (set : Bool) {read : Read α} {n : Nat} (h : Moves read n) (old : α) :
    Moves (readIf set read old) (if set then n else 0) := by
  cases set with
  | true => exact h
  | false => exact moves_pure old

theorem moves_after {data : List UInt8} {next : Int → Read β} {readcount n : Nat} {bits : Int}
    (h : msgReadByte data readcount = (bits, readcount + 1)) (hnext : Moves (next bits) n) :
    ((msgReadByte data >>= next) readcount).2 = readcount + (1 + n) := by
  have moved := hnext (readcount + 1)
  change (next (msgReadByte data readcount).1 (msgReadByte data readcount).2).2 = _
  rw [h, moved, Nat.add_assoc]

end

theorem moves_msgReadByte (data : List UInt8) : Moves (msgReadByte data) 1 := fun _ => rfl

theorem moves_msgReadShort (data : List UInt8) : Moves (msgReadShort data) 2 := fun _ => rfl

/-- Every field as a short. -/
def longSize (base cmd : Usercmd) (f : Field) : Nat := if f.changed base cmd then 2 else 0

theorem readcount_kingpin (protocol : Int) (base cmd : Usercmd) {data : List UInt8}
    {readcount : Nat}
    (h : msgReadByte data readcount = ((changedBits base cmd : Int), readcount + 1)) :
    (msgReadDeltaUsercmd .kingpin protocol base data readcount).2 =
      readcount + (1 + (longSize base cmd .angle1 + (longSize base cmd .angle2 +
        ((if cmd.angle3 != base.angle3 then 2 else 0) + (longSize base cmd .forwardmove +
        (longSize base cmd .sidemove + (longSize base cmd .upmove +
        ((if cmd.buttons != base.buttons then 1 else 0) +
        ((if cmd.impulse != base.impulse then 1 else 0) + (1 + (1 + 0))))))))))) := by
  obtain ⟨hangle3, hbuttons, himpulse⟩ := flag_others base cmd
  have short (set : Bool) (old : Int) := moves_readIf set (moves_msgReadShort data) old
  have byte := moves_msgReadByte data
  have byteIf (set : Bool) (old : UInt8) : Moves (readByteIf data set old) (if set then 1 else 0) :=
    moves_readIf set (byte.bind fun _ => moves_pure _) old
  have field (f : Field) (old : Int) :
      Moves (readIf (flag (changedBits base cmd) f.bit) (msgReadShort data) old)
        (longSize base cmd f) := by
    rw [flag_changed]
    exact short _ old
  rw [msgReadDeltaUsercmd_kingpin]
  apply moves_after h
  rw [hangle3, hbuttons, himpulse]
  refine (field .angle1 _).bind fun _ => (field .angle2 _).bind fun _ => ?_
  refine (short _ _).bind fun _ => (field .forwardmove _).bind fun _ => ?_
  refine (field .sidemove _).bind fun _ => (field .upmove _).bind fun _ => ?_
  refine (byteIf _ _).bind fun _ => (byteIf _ _).bind fun _ => ?_
  exact byte.bind fun _ => byte.bind fun _ => moves_pure _

theorem length_writeIf (set : Bool) (w : Written) :
    (allBytes (writeIf set w)).length = if set then w.bytes.length else 0 := by
  cases set with
  | true => exact congrArg List.length (List.append_nil w.bytes)
  | false => rfl

theorem length_byte (c : Int) : (Written.byte c).bytes.length = 1 := rfl

theorem length_short (c : Int) : (Written.short c).bytes.length = 2 := rfl

theorem length_none : (allBytes []).length = 0 := rfl

/-- The short form is one byte shorter. -/
theorem length_writeField (base cmd : Usercmd) (buttons : Nat) (f : Field) :
    (allBytes (writeField base cmd buttons f)).length +
        (if f.changed base cmd && buttons.testBit f.button then 1 else 0) =
      longSize base cmd f := by
  unfold writeField longSize
  rw [length_writeIf]
  cases f.changed base cmd with
  | false => rfl
  | true =>
    cases buttons.testBit f.button with
    | true => rfl
    | false => rfl

theorem short_overruns {base cmd : Usercmd} {buttons : Nat}
    (same : ∀ f : Field, (allBytes (writeField base cmd buttons f)).length = longSize base cmd f) :
    ∀ f : Field, f.changed base cmd = true → buttons.testBit f.button = false := by
  intro f changed
  have size := length_writeField base cmd buttons f
  rw [same f, changed] at size
  cases short : buttons.testBit f.button with
  | true => simp [short] at size
  | false => rfl

/-- The end of a command is found only if none of its fields is short. -/
theorem long_of_read {protocol : Int} {base cmd : Usercmd} {front rest : List UInt8}
    (read : (msgReadDeltaUsercmd .kingpin protocol base
        (front ++ (allBytes (msgWriteDeltaUsercmd .kingpin protocol base cmd) ++ rest))
        front.length).2 =
      front.length + (allBytes (msgWriteDeltaUsercmd .kingpin protocol base cmd)).length) :
    ∀ f : Field, f.changed base cmd = true →
      (writtenButtons .kingpin protocol base cmd).testBit f.button = false := by
  have first := takes_small (changedBits_lt base cmd) front
  rw [readcount_kingpin protocol base cmd] at read
  · simp only [msgWriteDeltaUsercmd, buttonsFirst_kingpin, allBytes_cons, allBytes_append,
      List.length_append, length_writeIf, Bool.false_and, Bool.not_false, Bool.true_and,
      Bool.false_eq_true, if_false, length_byte, length_short, length_none] at read
    have atMost (f : Field) := Nat.le.intro
      (length_writeField base cmd (writtenButtons .kingpin protocol base cmd) f)
    have angle1 := atMost .angle1
    have angle2 := atMost .angle2
    have forwardmove := atMost .forwardmove
    have sidemove := atMost .sidemove
    have upmove := atMost .upmove
    apply short_overruns
    intro f
    cases f <;> omega
  · simp only [msgWriteDeltaUsercmd, allBytes_cons, List.append_assoc]
    exact first _

/-- The command that was sent is read back, and no more than was sent, wherever it stands. -/
theorem usercmd_read_iff {build : Build} (protocol : Int) (base : Usercmd) (cmd : Command build)
    (front rest : List UInt8) :
    msgReadDeltaUsercmd build protocol base
        (front ++ (allBytes (msgWriteDeltaUsercmd build protocol base cmd.toUsercmd) ++ rest))
        front.length =
      (cmd.toUsercmd, front.length +
        (allBytes (msgWriteDeltaUsercmd build protocol base cmd.toUsercmd)).length) ↔
    Agrees build protocol base cmd.toUsercmd := by
  cases build with
  | kingpin =>
    constructor
    · intro read
      exact long_kingpin_iff.mp (long_of_read (congrArg Prod.snd read))
    · intro agrees
      have long := (@long_kingpin_iff protocol base cmd.toUsercmd).mpr agrees
      have taken := @takes_readBack .kingpin protocol base cmd.toUsercmd fun f changed => by
        rw [long f changed]
        exact flag_zero _
      have same := (readBack_eq_iff protocol base cmd).mpr fun f =>
        received_long (cmd.range f) (long f)
      rw [same] at taken
      exact taken front rest
  | quake2 =>
    have taken := takes_readBack fun f _ => heard_quake2 protocol base cmd f
    rw [taken front rest, Prod.mk.injEq, and_iff_left rfl, readBack_eq_iff]
    simp only [received_quake2_iff]
    constructor
    · intro fits first pressed f
      exact fits f first pressed
    · intro fits f first pressed
      exact fits first pressed f

theorem nullUsercmd_range (f : Field) : InRange (f.get nullUsercmd) := by
  cases f <;> decide

private def resting : Command .kingpin where
  toUsercmd := nullUsercmd
  range := nullUsercmd_range
  roll := by decide
  real := by simp

/-- The key of `BUTTON_ACTIVATE` goes down while the player starts to walk. -/
private def walking : Command .kingpin where
  toUsercmd := { nullUsercmd with buttons := buttonActivate, forwardmove := 100 }
  range := by
    intro f
    cases f <;> decide
  roll := by decide
  real := by simp

theorem activate_overruns :
    ¬∀ (build : Build) (protocol : Int) (base cmd : Command build),
      Takes (msgReadDeltaUsercmd build protocol base.toUsercmd)
        (allBytes (msgWriteDeltaUsercmd build protocol base.toUsercmd cmd.toUsercmd))
        cmd.toUsercmd := by
  intro claim
  have read := congrArg Prod.snd (claim .kingpin 34 resting walking [] [])
  revert read
  decide

end UsercmdDelta
