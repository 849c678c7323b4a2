import Mathlib.Data.UInt
import Mathlib.Tactic.Ring
import Kpded2.BlockStream

/-!
# The checksum of a file

`md4.c` takes the data in blocks of 64 bytes; what does not fill a block waits in the buffer. The
roles of the four words go round from step to step, where the source writes them out. The lengths
are those of an `int`, and `digest` is read on a machine that stores the low byte first.

`CollisionMap` and `SequenceCheck` take `Com_BlockChecksum` for a function of the bytes. That it is
one, whatever was in the buffer before, is `comBlockChecksum_eq`.
-/
namespace Md4
open BlockStream

structure Words where
  a : UInt32
  b : UInt32
  c : UInt32
  d : UInt32
  deriving DecidableEq

/-- `MD4_CTX` -/
structure Ctx where
  state : Words
  count0 : UInt32
  count1 : UInt32
  buffer : List UInt8

/-! ## One block -/

def f (x y z : UInt32) : UInt32 := (x &&& y) ||| (~~~x &&& z)
def g (x y z : UInt32) : UInt32 := (x &&& y) ||| (x &&& z) ||| (y &&& z)
def h (x y z : UInt32) : UInt32 := x ^^^ y ^^^ z

def rotateLeft (x n : UInt32) : UInt32 := (x <<< n) ||| (x >>> (32 - n))

/-- One of the macros `FF`, `GG` and `HH`, with the word to add and the shift. The word that is
written is the second one of the next step. -/
def turn (mix : UInt32 → UInt32 → UInt32 → UInt32) (constant : UInt32) (x : Nat → UInt32)
    (w : Words) (step : Nat × UInt32) : Words :=
  ⟨w.d, rotateLeft (w.a + (mix w.b w.c w.d + x step.1 + constant)) step.2, w.b, w.c⟩

def round1 : List (Nat × UInt32) :=
  [(0, 3), (1, 7), (2, 11), (3, 19), (4, 3), (5, 7), (6, 11), (7, 19),
    (8, 3), (9, 7), (10, 11), (11, 19), (12, 3), (13, 7), (14, 11), (15, 19)]

def round2 : List (Nat × UInt32) :=
  [(0, 3), (4, 5), (8, 9), (12, 13), (1, 3), (5, 5), (9, 9), (13, 13),
    (2, 3), (6, 5), (10, 9), (14, 13), (3, 3), (7, 5), (11, 9), (15, 13)]

def round3 : List (Nat × UInt32) :=
  [(0, 3), (8, 9), (4, 11), (12, 15), (2, 3), (10, 9), (6, 11), (14, 15),
    (1, 3), (9, 9), (5, 11), (13, 15), (3, 3), (11, 9), (7, 11), (15, 15)]

def byteOf (bytes : List UInt8) (j : Nat) : UInt32 := (bytes.getD j 0).toUInt32

/-- `Decode`: the word at `i`. -/
def decode (input : List UInt8) (i : Nat) : UInt32 :=
  byteOf input (4 * i) ||| (byteOf input (4 * i + 1) <<< 8) |||
    (byteOf input (4 * i + 2) <<< 16) ||| (byteOf input (4 * i + 3) <<< 24)

def encodeWord (w : UInt32) : List UInt8 :=
  [(w &&& 0xff).toUInt8, ((w >>> 8) &&& 0xff).toUInt8, ((w >>> 16) &&& 0xff).toUInt8,
    ((w >>> 24) &&& 0xff).toUInt8]

def encode (input : List UInt32) : List UInt8 := input.flatMap encodeWord

def md4Transform (state : Words) (block : List UInt8) : Words :=
  let x := decode block
  let w := round1.foldl (turn f 0 x) state
  let w := round2.foldl (turn g 0x5a827999 x) w
  let w := round3.foldl (turn h 0x6ed9eba1 x) w
  ⟨state.a + w.a, state.b + w.b, state.c + w.c, state.d + w.d⟩

/-! ## Data in pieces -/

def magic : Words := ⟨0x67452301, 0xefcdab89, 0x98badcfe, 0x10325476⟩

/-- `MD4_Init`; the buffer holds anything. -/
def md4Init (buffer : List UInt8) : Ctx := ⟨magic, 0, 0, buffer⟩

def memcpyAt (buffer : List UInt8) (index : Nat) (bytes : List UInt8) : List UInt8 :=
  buffer.take index ++ bytes ++ buffer.drop (index + bytes.length)

/-- As many times as possible, with what remains. -/
def transformAll (state : Words) (input : List UInt8) : Words × List UInt8 :=
  if 63 < input.length then transformAll (md4Transform state (input.take 64)) (input.drop 64)
  else (state, input)
termination_by input.length
decreasing_by rw [List.length_drop]; omega

def md4Update (context : Ctx) (input : List UInt8) : Ctx :=
  let inputLen := UInt32.ofNat input.length
  let index := ((context.count0 >>> 3) &&& 0x3F).toNat
  let count0 := context.count0 + (inputLen <<< 3)
  let count1 := if count0 < (inputLen <<< 3) then context.count1 + 1 else context.count1
  let count1 := count1 + (inputLen >>> 29)
  let partLen := 64 - index
  if input.length ≥ partLen then
    let buffer := memcpyAt context.buffer index (input.take partLen)
    let (state, rest) := transformAll (md4Transform context.state buffer) (input.drop partLen)
    ⟨state, count0, count1, memcpyAt buffer 0 rest⟩
  else ⟨context.state, count0, count1, memcpyAt context.buffer index input⟩

/-- `PADDING` -/
def paddingBytes : List UInt8 := 0x80 :: List.replicate 63 0

/-- `MD4_Final`: the digest. -/
def md4Final (context : Ctx) : List UInt8 :=
  let bits := encode [context.count0, context.count1]
  let index := ((context.count0 >>> 3) &&& 0x3F).toNat
  let padLen := if index < 56 then 56 - index else 120 - index
  let context := md4Update context (paddingBytes.take padLen)
  let context := md4Update context bits
  encode [context.state.a, context.state.b, context.state.c, context.state.d]

/-- The words of the digest in one. -/
def comBlockChecksum (uninitialized buffer : List UInt8) : UInt32 :=
  let digest := md4Final (md4Update (md4Init uninitialized) buffer)
  decode digest 0 ^^^ decode digest 1 ^^^ decode digest 2 ^^^ decode digest 3

/-! ## The digest of a message -/

/-- The number in eight bytes, the low one first. -/
def lowFirst (n : Nat) : List UInt8 := (List.range 8).map fun i => UInt8.ofNat (n / 256 ^ i)

/-- What is put behind a message of this length: a bit, zeros up to eight bytes before the end of a
block, and the number of bits. -/
def padding (length : Nat) : List UInt8 :=
  0x80 :: List.replicate ((119 - length % 64) % 64) 0 ++ lowFirst (8 * length)

def md4 (message : List UInt8) : List UInt8 :=
  let w := (blocksOf 64 (message ++ padding message.length)).foldl md4Transform magic
  encode [w.a, w.b, w.c, w.d]

example : md4 [97, 98, 99] =
    [0xa4, 0x48, 0x01, 0x7a, 0xaf, 0x21, 0xd8, 0x52,
      0x5f, 0xc1, 0x0a, 0xe8, 0x7a, 0xa6, 0x72, 0x9d] := by
  decide +kernel

/-! ## The number of bits -/

theorem mod_two_words (k r : Nat) (short : r < 2 ^ 32) :
    (k * 2 ^ 32 + r) % 2 ^ 64 = k % 2 ^ 32 * 2 ^ 32 + r := by
  have pair : 2 ^ 64 = 2 ^ 32 * 2 ^ 32 := by decide
  rw [pair, Nat.mod_mul, Nat.mul_comm k, Nat.mul_add_mod, Nat.mod_eq_of_lt short,
    Nat.mul_add_div (by decide), Nat.div_eq_of_lt short, Nat.add_zero, Nat.add_comm, Nat.mul_comm]

theorem joined (base low high carry x y r : Nat) (carried : carry * base + r = low + x) :
    high * base + low + (y * base + x) = (high + carry + y) * base + r := by
  have sorted : high * base + low + (y * base + x) = high * base + y * base + (low + x) := by ring
  rw [sorted, ← carried]
  ring

theorem two_words (low high bits length carry : Nat)
    (count : high * 2 ^ 32 + low = 8 * bits % 2 ^ 64)
    (carried : carry * 2 ^ 32 + (low + 8 * length % 2 ^ 32) % 2 ^ 32 =
      low + 8 * length % 2 ^ 32) :
    ((high + carry) % 2 ^ 32 + length / 2 ^ 29) % 2 ^ 32 * 2 ^ 32 +
      (low + 8 * length % 2 ^ 32) % 2 ^ 32 = 8 * (bits + length) % 2 ^ 64 := by
  have split : 8 * length = length / 2 ^ 29 * 2 ^ 32 + 8 * length % 2 ^ 32 := by
    clear count carried
    omega
  rw [Nat.mod_add_mod, ← mod_two_words _ _ (Nat.mod_lt _ (by decide)),
    ← joined _ low high carry _ _ _ carried, ← split, count, Nat.mod_add_mod, Nat.mul_add]

theorem toNat_index (count : UInt32) : ((count >>> 3) &&& 0x3F).toNat = count.toNat / 8 % 64 := by
  rw [UInt32.toNat_and, UInt32.toNat_shiftRight]
  change count.toNat >>> 3 &&& 2 ^ 6 - 1 = _
  rw [Nat.and_two_pow_sub_one_eq_mod, Nat.shiftRight_eq_div_pow]

theorem toNat_bits (length : Nat) (short : length < 2 ^ 32) :
    (UInt32.ofNat length <<< 3).toNat = 8 * length % 2 ^ 32 := by
  rw [UInt32.toNat_shiftLeft, UInt32.toNat_ofNat', Nat.mod_eq_of_lt short]
  change length <<< 3 % 2 ^ 32 = _
  rw [Nat.shiftLeft_eq, Nat.mul_comm]

theorem toNat_high (length : Nat) (short : length < 2 ^ 32) :
    (UInt32.ofNat length >>> 29).toNat = length / 2 ^ 29 := by
  rw [UInt32.toNat_shiftRight, UInt32.toNat_ofNat', Nat.mod_eq_of_lt short]
  exact Nat.shiftRight_eq_div_pow length 29

/-- The low word is less than what was added to it if it has overflowed. -/
theorem overflow_iff (low x : Nat) (isLow : low < 2 ^ 32) (small : x < 2 ^ 32) :
    ((low + x) % 2 ^ 32 < x → 1 * 2 ^ 32 + (low + x) % 2 ^ 32 = low + x) ∧
      (¬(low + x) % 2 ^ 32 < x → 0 * 2 ^ 32 + (low + x) % 2 ^ 32 = low + x) := by
  constructor <;> intro <;> omega

/-- The number of bits, in two words. -/
theorem count_update (count0 count1 : UInt32) (length : Nat) (short : length < 2 ^ 32)
    (bits : Nat) (count : count1.toNat * 2 ^ 32 + count0.toNat = 8 * bits % 2 ^ 64) :
    ((if count0 + (UInt32.ofNat length <<< 3) < (UInt32.ofNat length <<< 3) then count1 + 1
      else count1) + (UInt32.ofNat length >>> 29)).toNat * 2 ^ 32 +
        (count0 + (UInt32.ofNat length <<< 3)).toNat = 8 * (bits + length) % 2 ^ 64 := by
  obtain ⟨carries, stays⟩ := overflow_iff count0.toNat (8 * length % 2 ^ 32) count0.toNat_lt
    (Nat.mod_lt _ (by decide))
  have sum : (count0 + (UInt32.ofNat length <<< 3)).toNat =
      (count0.toNat + 8 * length % 2 ^ 32) % 2 ^ 32 := by
    rw [UInt32.toNat_add, toNat_bits length short]
  by_cases carry : count0 + (UInt32.ofNat length <<< 3) < (UInt32.ofNat length <<< 3)
  · rw [if_pos carry, UInt32.toNat_add, UInt32.toNat_add, toNat_high length short, sum]
    rw [UInt32.lt_iff_toNat_lt, sum, toNat_bits length short] at carry
    exact two_words _ _ _ _ 1 count (carries carry)
  · rw [if_neg carry, UInt32.toNat_add, toNat_high length short, sum]
    rw [UInt32.lt_iff_toNat_lt, sum, toNat_bits length short] at carry
    have added := two_words _ _ _ _ 0 count (stays carry)
    rwa [Nat.add_zero, Nat.mod_eq_of_lt count1.toNat_lt] at added

theorem byte_eq (w : UInt32) (n i : Nat) (shift : UInt32) (few : i < 4)
    (isShift : shift.toNat = 8 * i) (same : w.toNat = n % 2 ^ 32) :
    ((w >>> shift) &&& 0xff).toUInt8 = UInt8.ofNat (n / 256 ^ i) := by
  have word : 2 ^ 32 = 256 ^ i * 256 ^ (4 - i) := by
    rw [← Nat.pow_add, Nat.add_sub_cancel' (Nat.le_of_lt few)]
    decide
  have more : 256 ∣ 256 ^ (4 - i) := Dvd.intro_left (256 ^ (3 - i)) (by
    rw [← Nat.pow_succ]
    exact congrArg _ (by omega))
  apply UInt8.toNat_inj.mp
  rw [UInt32.toNat_toUInt8, UInt32.toNat_and, UInt32.toNat_shiftRight, isShift, UInt8.toNat_ofNat',
    Nat.mod_eq_of_lt (show 8 * i < 32 by omega), Nat.shiftRight_eq_div_pow, Nat.pow_mul, same]
  change (n % 2 ^ 32 / 256 ^ i &&& 2 ^ 8 - 1) % 256 = n / 256 ^ i % 256
  rw [Nat.and_two_pow_sub_one_eq_mod, Nat.mod_mod, word, Nat.mod_mul_right_div_self]
  exact Nat.mod_mod_of_dvd _ more

theorem encodeWord_eq {w : UInt32} {n : Nat} (same : w.toNat = n % 2 ^ 32) :
    encodeWord w = (List.range 4).map fun i => UInt8.ofNat (n / 256 ^ i) := by
  have zero : (w >>> 0) = w := by
    apply UInt32.toNat_inj.mp
    rw [UInt32.toNat_shiftRight]
    rfl
  have first := byte_eq w n 0 0 (by decide) rfl same
  rw [zero] at first
  rw [encodeWord, first, byte_eq w n 1 8 (by decide) rfl same,
    byte_eq w n 2 16 (by decide) rfl same, byte_eq w n 3 24 (by decide) rfl same]
  rfl

theorem encode_count {low high : UInt32} {n : Nat}
    (count : high.toNat * 2 ^ 32 + low.toNat = n % 2 ^ 64) :
    encode [low, high] = lowFirst n := by
  have isLow : low.toNat = n % 2 ^ 32 := by
    have halves : 2 ^ 32 ∣ 2 ^ 64 := by decide
    rw [← Nat.mod_mod_of_dvd n halves, ← count, Nat.mul_add_mod_self_right,
      Nat.mod_eq_of_lt low.toNat_lt]
  have isHigh : high.toNat = n / 2 ^ 32 % 2 ^ 32 := by
    have halves : 2 ^ 64 = 2 ^ 32 * 2 ^ 32 := by decide
    rw [← Nat.mod_mul_right_div_self, ← halves, ← count, Nat.mul_comm, Nat.mul_add_div (by decide),
      Nat.div_eq_of_lt low.toNat_lt, Nat.add_zero]
  have later : ∀ i, n / 2 ^ 32 / 256 ^ i = n / 256 ^ (4 + i) := by
    intro i
    rw [Nat.div_div_eq_div_mul, Nat.pow_add]
    rfl
  rw [encode, List.flatMap_cons, List.flatMap_singleton, encodeWord_eq isLow, encodeWord_eq isHigh]
  simp only [later]
  rfl

/-! ## Following a message -/

/-- What the context is after the message, whatever pieces it came in. -/
structure Follows (context : Ctx) (message : List UInt8) : Prop where
  buffer : context.buffer.length = 64
  count : context.count1.toNat * 2 ^ 32 + context.count0.toNat = 8 * message.length % 2 ^ 64
  taken : absorb 64 md4Transform magic message =
    (context.state, context.buffer.take (message.length % 64))

theorem md4Init_follows {buffer : List UInt8} (size : buffer.length = 64) :
    Follows (md4Init buffer) [] where
  buffer := size
  count := show 0 * 2 ^ 32 + 0 = 8 * 0 % 2 ^ 64 by decide
  taken := absorb_short (by decide)

theorem transformAll_eq (state : Words) (input : List UInt8) :
    transformAll state input = absorb 64 md4Transform state input := by
  induction size : input.length using Nat.strongRecOn generalizing state input with
  | ind length ih =>
    rw [transformAll]
    split
    · rename_i enough
      have whole : (input.take 64).length = 64 := List.length_take_of_le enough
      have fewer : (input.drop 64).length < length := by
        rw [List.length_drop]
        omega
      conv_rhs => rw [← List.take_append_drop 64 input]
      rw [ih _ fewer _ _ rfl, absorb_block whole (by decide)]
    · rename_i short
      rw [absorb_short (by omega)]

theorem length_memcpyAt {buffer bytes : List UInt8} {index : Nat}
    (inside : index + bytes.length ≤ buffer.length) :
    (memcpyAt buffer index bytes).length = buffer.length := by
  rw [memcpyAt, List.length_append, List.length_append, List.length_take, List.length_drop]
  omega

theorem take_memcpyAt {buffer : List UInt8} {index : Nat} (inside : index ≤ buffer.length)
    (bytes : List UInt8) :
    (memcpyAt buffer index bytes).take (index + bytes.length) = buffer.take index ++ bytes := by
  have front : (buffer.take index ++ bytes).length = index + bytes.length := by
    rw [List.length_append, List.length_take_of_le inside]
  rw [memcpyAt, List.take_left' front]

/-- The part of the count that is looked at for the place in the buffer. -/
theorem low_count {high low length : Nat} (isLow : low < 2 ^ 32)
    (count : high * 2 ^ 32 + low = 8 * length % 2 ^ 64) : low / 8 % 64 = length % 64 := by
  have halves : 2 ^ 32 ∣ 2 ^ 64 := by decide
  have eight : 2 ^ 32 = 8 * 2 ^ 29 := by decide
  have blocks : 64 ∣ 2 ^ 29 := by decide
  have narrow : low = 8 * length % 2 ^ 32 := by
    rw [← Nat.mod_mod_of_dvd (8 * length) halves, ← count, Nat.mul_add_mod_self_right,
      Nat.mod_eq_of_lt isLow]
  rw [narrow, eight, Nat.mul_mod_mul_left, Nat.mul_div_cancel_left _ (by decide),
    Nat.mod_mod_of_dvd _ blocks]

section
variable {context : Ctx} {message input : List UInt8}

theorem Follows.index (follows : Follows context message) :
    ((context.count0 >>> 3) &&& 0x3F).toNat = message.length % 64 := by
  rw [toNat_index]
  exact low_count context.count0.toNat_lt follows.count

/-- Input that is handed over in pieces is hashed as one message. -/
theorem md4Update_follows (follows : Follows context message) (short : input.length < 2 ^ 32) :
    Follows (md4Update context input) (message ++ input) := by
  have index := follows.index
  have inside : message.length % 64 < 64 := Nat.mod_lt _ (by decide)
  have counted := count_update _ _ _ short _ follows.count
  have size := follows.buffer
  have held : (context.buffer.take (message.length % 64)).length = message.length % 64 :=
    List.length_take_of_le (by omega)
  have joined : absorb 64 md4Transform magic (message ++ input) =
      absorb 64 md4Transform context.state
        (context.buffer.take (message.length % 64) ++ input) := by
    rw [absorb_append (by decide), follows.taken]
  rw [md4Update]
  dsimp only
  rw [index]
  split
  · rename_i enough
    have filled : (input.take (64 - message.length % 64)).length = 64 - message.length % 64 :=
      List.length_take_of_le enough
    have whole : message.length % 64 + (input.take (64 - message.length % 64)).length = 64 := by
      omega
    have block : memcpyAt context.buffer (message.length % 64)
        (input.take (64 - message.length % 64)) =
          context.buffer.take (message.length % 64) ++ input.take (64 - message.length % 64) := by
      rw [memcpyAt, whole, List.drop_of_length_le (Nat.le_of_eq size), List.append_nil]
    have wholeBlock : (context.buffer.take (message.length % 64) ++
        input.take (64 - message.length % 64)).length = 64 := by
      rw [List.length_append, held, whole]
    rw [block, transformAll_eq]
    have result : absorb 64 md4Transform magic (message ++ input) =
        absorb 64 md4Transform (md4Transform context.state
          (context.buffer.take (message.length % 64) ++ input.take (64 - message.length % 64)))
          (input.drop (64 - message.length % 64)) := by
      rw [joined, ← absorb_block wholeBlock (by decide), List.append_assoc, List.take_append_drop]
    have left : (absorb 64 md4Transform magic (message ++ input)).2.length =
        (message ++ input).length % 64 := length_absorb magic (message ++ input)
    rw [result] at left
    have rest : (message ++ input).length % 64 < 64 := Nat.mod_lt _ (by decide)
    refine ⟨?_, ?_, ?_⟩
    · rw [length_memcpyAt (by omega), wholeBlock]
    · rw [List.length_append]
      exact counted
    · rw [result, ← left]
      refine Prod.ext rfl ?_
      have taken : ∀ block rest : List UInt8,
          (memcpyAt block 0 rest).take rest.length = rest := fun block rest => by
        have all := take_memcpyAt (Nat.zero_le block.length) rest
        rwa [Nat.zero_add, List.take_zero, List.nil_append] at all
      exact (taken _ _).symm
  · rename_i few
    refine ⟨?_, ?_, ?_⟩
    · rw [length_memcpyAt (by omega), size]
    · rw [List.length_append]
      exact counted
    · have fits : (message ++ input).length % 64 = message.length % 64 + input.length := by
        rw [List.length_append]
        omega
      rw [joined, absorb_short (by rw [List.length_append, held]; omega), fits,
        take_memcpyAt (by omega)]

theorem padding_eq (length : Nat) :
    paddingBytes.take (if length % 64 < 56 then 56 - length % 64 else 120 - length % 64) ++
      lowFirst (8 * length) = padding length := by
  have inside : length % 64 < 64 := Nat.mod_lt _ (by decide)
  have size : (if length % 64 < 56 then 56 - length % 64 else 120 - length % 64) =
      (119 - length % 64) % 64 + 1 := by
    split <;> omega
  rw [size, paddingBytes, List.take_succ_cons, List.take_replicate, padding,
    Nat.min_eq_left (Nat.le_of_lt_succ (Nat.mod_lt _ (by decide)))]

theorem length_padding (length : Nat) : (length + (padding length).length) % 64 = 0 := by
  have size : (padding length).length = (119 - length % 64) % 64 + 1 + 8 := by
    rw [padding, List.length_append, List.length_cons, List.length_replicate, lowFirst,
      List.length_map, List.length_range]
  rw [size]
  omega

theorem md4Final_eq (follows : Follows context message) : md4Final context = md4 message := by
  have bits := encode_count follows.count
  have few : (paddingBytes.take (if message.length % 64 < 56 then 56 - message.length % 64
      else 120 - message.length % 64)).length < 2 ^ 32 := by
    refine Nat.lt_of_le_of_lt (List.length_take_le' _ _) ?_
    decide
  have eight : (lowFirst (8 * message.length)).length < 2 ^ 32 := by
    rw [lowFirst, List.length_map, List.length_range]
    decide
  have ended := md4Update_follows (md4Update_follows follows few) eight
  rw [List.append_assoc, padding_eq] at ended
  have whole : (message ++ padding message.length).length % 64 = 0 := by
    rw [List.length_append]
    exact length_padding message.length
  have taken := ended.taken
  rw [absorb_whole whole] at taken
  obtain ⟨state, -⟩ := Prod.mk.inj taken
  rw [md4Final, follows.index, bits, md4, state]

theorem foldl_follows {chunks : List (List UInt8)}
    (follows : Follows context message) (short : ∀ chunk ∈ chunks, chunk.length < 2 ^ 31) :
    Follows (chunks.foldl md4Update context) (message ++ chunks.flatten) := by
  induction chunks generalizing context message with
  | nil =>
    rw [List.flatten_nil, List.append_nil]
    exact follows
  | cons chunk chunks ih =>
    have first : chunk.length < 2 ^ 32 :=
      Nat.lt_trans (short chunk List.mem_cons_self) (by decide)
    rw [List.foldl_cons, List.flatten_cons, ← List.append_assoc]
    exact ih (md4Update_follows follows first) fun c listed =>
      short c (List.mem_cons_of_mem _ listed)

end

/-- The digest is that of the whole message, whatever pieces it came in and whatever was in the
buffer. -/
theorem md4_pieces {buffer : List UInt8} (size : buffer.length = 64) {chunks : List (List UInt8)}
    (short : ∀ chunk ∈ chunks, chunk.length < 2 ^ 31) :
    md4Final (chunks.foldl md4Update (md4Init buffer)) = md4 chunks.flatten := by
  have followed := foldl_follows (md4Init_follows size) short
  rw [List.nil_append] at followed
  exact md4Final_eq followed

theorem md4_pieces_three :
    md4Final ([[109], List.replicate 70 100, [52]].foldl md4Update
      (md4Init (List.replicate 64 7))) = md4 [[109], List.replicate 70 100, [52]].flatten :=
  md4_pieces (by decide) (by decide)

/-- `Com_BlockChecksum` does not depend on what was in the buffer. -/
theorem comBlockChecksum_eq {uninitialized buffer : List UInt8} (size : uninitialized.length = 64)
    (short : buffer.length < 2 ^ 31) :
    comBlockChecksum uninitialized buffer = decode (md4 buffer) 0 ^^^ decode (md4 buffer) 1 ^^^
      decode (md4 buffer) 2 ^^^ decode (md4 buffer) 3 := by
  have followed := md4Update_follows (md4Init_follows size) (Nat.lt_trans short (by decide))
  rw [comBlockChecksum, md4Final_eq followed, List.nil_append]

end Md4
