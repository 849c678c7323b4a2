import Mathlib.Data.List.Basic
import Kpded2.MessageList
import Kpded2.SizeBufMemory

/-!
# `CompressBuffer`

The call with the memory of the buffer, and `deflate` as a parameter. The room for its output is
computed as an int and kept in the unsigned `avail_out`.
-/
namespace PacketCompression
open SizeBufMemory
open MessageList (svcCpacket)
open SizeBuf (shortBytes)

/-- The bytes at `in`; their number is an int. -/
structure Input where
  bytes : List UInt8
  length_lt : bytes.length < 2 ^ 31

/-- What one call of `deflate` stores at `next_out`, and whether it returns `Z_STREAM_END`. -/
structure Deflated where
  stream : List UInt8
  ended : Bool

/-- `deflate level input avail` with `Z_FINISH`. It never stores more than `avail` bytes, and at a
level that it knows it stores some if there is something to compress and room for a byte. -/
structure Deflater where
  deflate : Int → List UInt8 → Nat → Deflated
  length_le : ∀ level input avail, (deflate level input avail).stream.length ≤ avail
  starts : ∀ level input avail, -1 ≤ level → level ≤ 9 → input ≠ [] → 0 < avail →
    (deflate level input avail).stream ≠ []

structure Result where
  returned : Nat
  out : Sizebuf
  spans : List Span

def zBestCompression : Int := 9

def szWriteByte (buf : Sizebuf) (c : UInt8) : Option (Sizebuf × Span) :=
  (szGetSpace buf 1).map fun (buf, first) => fill buf first (fun _ => c) 1

def szWriteShort (buf : Sizebuf) (c : Nat) : Option (Sizebuf × Span) :=
  (szGetSpace buf 2).map fun (buf, first) => fill buf first (fun i => (shortBytes c).getD i 0) 2

/-- `avail_out`. -/
def availOut (inlen : Int32) (out : Sizebuf) : Nat :=
  let maxout := out.maxsize - out.cursize
  let maxout := if maxout ≥ inlen then inlen - 1 else maxout
  (maxout - 3).toUInt32.toNat

/-- `none` is `Com_Error (ERR_FATAL)`. -/
def compressBuffer (zs : Deflater) (svCompress : Int) (input : Input) (out : Sizebuf) :
    Option Result :=
  let inlen := Int32.ofNat input.bytes.length
  if inlen < 60 then some ⟨0, out, []⟩
  else
    let deflated := zs.deflate (min svCompress zBestCompression) input.bytes (availOut inlen out)
    let length := deflated.stream.length
    -- three bytes are left for the header
    let (out, body) := fill out (out.cursize.toInt + 3) (fun i => deflated.stream.getD i 0) length
    if !deflated.ended then some ⟨0, out, [body]⟩
    else do
      let (out, command) ← szWriteByte out svcCpacket
      let (out, size) ← szWriteShort out length
      some ⟨length + 3, { out with cursize := out.cursize + Int32.ofNat length },
        [body, command, size]⟩

/-! ## What a call should do -/

def message (stream : List UInt8) : List UInt8 :=
  svcCpacket :: (shortBytes stream.length ++ stream)

/-- A message smaller than the input has been appended, and it fits. -/
structure Appended (input : Input) (out : Sizebuf) (stream : List UInt8) (r : Result) : Prop where
  returned : r.returned = (message stream).length
  smaller : (message stream).length < input.bytes.length
  kept : ∀ i, i < out.cursize.toInt → r.out.data i = out.data i
  bytes : ∀ i, i < (message stream).length →
    r.out.data (out.cursize.toInt + i) = (message stream).getD i 0
  cursize : r.out.cursize.toInt = out.cursize.toInt + (message stream).length
  fits : r.out.cursize.toInt ≤ r.out.maxsize.toInt

/-- What the caller relies on. -/
structure Kept (zs : Deflater) (svCompress : Int) (input : Input) (out : Sizebuf) (r : Result) :
    Prop where
  message : r.returned = 0 ∧ r.out.cursize = out.cursize ∨
    ∃ stream avail, zs.deflate (min svCompress zBestCompression) input.bytes avail = ⟨stream, true⟩ ∧
      Appended input out stream r
  maxsize : r.out.maxsize = out.maxsize
  inside : ∀ span ∈ r.spans, span.Inside out.maxsize.toInt

/-! ## Room for `deflate` -/

theorem toNat_toUInt32 (n : Int32) : (n.toUInt32.toNat : Int) = n.toInt % 2 ^ 32 := by
  have signed : n.toInt = (n.toUInt32.toNat : Int).bmod (2 ^ 32) := BitVec.toInt_eq_toNat_bmod n.toBitVec
  have below : n.toUInt32.toNat < 2 ^ 32 := n.toUInt32.toNat_lt
  rw [signed, Int.bmod_def]
  omega

variable {input : Input} {out : Sizebuf}

theorem toInt_length (input : Input) :
    (Int32.ofNat input.bytes.length).toInt = input.bytes.length :=
  Int32.toInt_ofNat_of_lt input.length_lt

theorem compresses_iff (input : Input) :
    ¬Int32.ofNat input.bytes.length < 60 ↔ 60 ≤ input.bytes.length := by
  have sixty : (60 : Int32).toInt = 60 := rfl
  rw [Int32.lt_iff_toInt_lt, toInt_length, sixty]
  omega

/-- What is left of the buffer behind the header, or of the input when that is smaller. -/
theorem availOut_of_room (long : 60 ≤ input.bytes.length) (start : 0 ≤ out.cursize.toInt)
    (room : 3 ≤ out.maxsize.toInt - out.cursize.toInt) :
    (availOut (Int32.ofNat input.bytes.length) out : Int) =
      min (out.maxsize.toInt - out.cursize.toInt) (input.bytes.length - 1) - 3 := by
  have inlen := toInt_length input
  have bounds := input.length_lt
  have := out.maxsize.toInt_lt
  have three : (3 : Int32).toInt = 3 := rfl
  have one : (1 : Int32).toInt = 1 := rfl
  have exact : (out.maxsize - out.cursize).toInt = out.maxsize.toInt - out.cursize.toInt := by
    rw [Int32.toInt_sub, Int.bmod_def]
    omega
  simp only [availOut, toNat_toUInt32, Int32.toInt_sub, ge_iff_le, Int32.le_iff_toInt_le]
  split <;> simp only [Int32.toInt_sub, Int.bmod_def, three, one] at * <;> omega

/-- Without that room the difference is negative. -/
theorem availOut_pos (long : 60 ≤ input.bytes.length) (limit : 0 ≤ out.maxsize.toInt)
    (tight : out.maxsize.toInt - out.cursize.toInt < 3) :
    0 < availOut (Int32.ofNat input.bytes.length) out := by
  have inlen := toInt_length input
  have bounds := input.length_lt
  have := out.cursize.toInt_lt
  have three : (3 : Int32).toInt = 3 := rfl
  have one : (1 : Int32).toInt = 1 := rfl
  suffices (0 : Int) < availOut (Int32.ofNat input.bytes.length) out by omega
  simp only [availOut, toNat_toUInt32, Int32.toInt_sub, ge_iff_le, Int32.le_iff_toInt_le]
  split <;> simp only [Int32.toInt_sub, Int.bmod_def, three, one] at * <;> omega

/-! ## The call -/

theorem szGetSpace_of_room {length : Int32} (start : 0 ≤ out.cursize.toInt)
    (room : out.cursize.toInt + length.toInt ≤ out.maxsize.toInt) :
    (out.cursize + length).toInt = out.cursize.toInt + length.toInt ∧
      szGetSpace out length =
        some ({ out with cursize := out.cursize + length }, out.cursize.toInt) := by
  have sum : (out.cursize + length).toInt = out.cursize.toInt + length.toInt := by
    have := toInt_add_cases start length
    have := out.maxsize.toInt_lt
    omega
  refine ⟨sum, ?_⟩
  have fits : ¬out.cursize + length > out.maxsize := by
    rw [gt_iff_lt, Int32.lt_iff_toInt_lt]
    omega
  simp only [szGetSpace, if_neg fits]

/-- What the call stores where there is room for it. -/
def stored (out : Sizebuf) (stream : List UInt8) : Int → UInt8 := fun i =>
  let first := out.cursize.toInt
  if first + 1 ≤ i ∧ i < first + 3 then (shortBytes stream.length).getD (i - (first + 1)).toNat 0
  else if first ≤ i ∧ i < first + 1 then svcCpacket
  else if first + 3 ≤ i ∧ i < first + 3 + stream.length then stream.getD (i - (first + 3)).toNat 0
  else out.data i

theorem stored_outside (stream : List UInt8) {i : Int} (below : i < out.cursize.toInt) :
    stored out stream i = out.data i := by
  simp only [stored]
  rw [if_neg (by omega), if_neg (by omega), if_neg (by omega)]

theorem length_message (stream : List UInt8) : (message stream).length = stream.length + 3 := by
  simp only [message, shortBytes, List.length_cons, List.length_append, List.length_nil]
  omega

theorem stored_message (stream : List UInt8) {i : Nat} (inside : i < (message stream).length) :
    stored out stream (out.cursize.toInt + i) = (message stream).getD i 0 := by
  rw [length_message] at inside
  rcases i with _ | _ | _ | i
  · simp only [stored]
    rw [if_neg (by omega), if_pos (by omega)]
    rfl
  · simp only [stored]
    rw [if_pos (by omega), show (out.cursize.toInt + (0 + 1 : Nat) - (out.cursize.toInt + 1)).toNat = 0 by omega]
    rfl
  · simp only [stored]
    rw [if_pos (by omega), show (out.cursize.toInt + (0 + 1 + 1 : Nat) - (out.cursize.toInt + 1)).toNat = 1 by omega]
    rfl
  · simp only [stored]
    rw [if_neg (by omega), if_neg (by omega), if_pos (by omega),
      show (out.cursize.toInt + (i + 1 + 1 + 1 : Nat) - (out.cursize.toInt + 3)).toNat = i by omega]
    rfl

/-- A stream that has ended with room for it is put into the buffer. -/
theorem compressBuffer_ended {zs : Deflater} {svCompress : Int} {stream : List UInt8}
    (long : 60 ≤ input.bytes.length) (start : 0 ≤ out.cursize.toInt)
    (room : out.cursize.toInt + 3 + stream.length ≤ out.maxsize.toInt)
    (h : zs.deflate (min svCompress zBestCompression) input.bytes
      (availOut (Int32.ofNat input.bytes.length) out) = ⟨stream, true⟩) :
    ∃ r, compressBuffer zs svCompress input out = some r ∧ r.returned = stream.length + 3 ∧
      r.out.data = stored out stream ∧ r.out.maxsize = out.maxsize ∧
      r.out.cursize.toInt = out.cursize.toInt + 3 + stream.length ∧
      r.spans = [⟨out.cursize.toInt + 3, stream.length⟩, ⟨out.cursize.toInt, 1⟩,
        ⟨out.cursize.toInt + 1, 2⟩] := by
  have one : (1 : Int32).toInt = 1 := rfl
  have two : (2 : Int32).toInt = 2 := rfl
  have := out.maxsize.toInt_lt
  have length : (Int32.ofNat stream.length).toInt = stream.length :=
    Int32.toInt_ofNat_of_lt (by omega)
  let body := (fill out (out.cursize.toInt + 3) (fun i => stream.getD i 0) stream.length).1
  obtain ⟨first, command⟩ := @szGetSpace_of_room body 1 start (by
    change out.cursize.toInt + 1 ≤ out.maxsize.toInt
    omega)
  change (out.cursize + 1).toInt = out.cursize.toInt + 1 at first
  let headed := (fill { body with cursize := out.cursize + 1 } out.cursize.toInt
    (fun _ => svcCpacket) 1).1
  obtain ⟨second, size⟩ := @szGetSpace_of_room headed 2
    (by
      change 0 ≤ (out.cursize + 1).toInt
      omega)
    (by
      change (out.cursize + 1).toInt + 2 ≤ out.maxsize.toInt
      omega)
  change (out.cursize + 1 + 2).toInt = (out.cursize + 1).toInt + 2 at second
  have sum : (out.cursize + 1 + 2 + Int32.ofNat stream.length).toInt =
      out.cursize.toInt + 3 + stream.length := by
    have := @toInt_add_cases (out.cursize + 1 + 2) (by omega) (Int32.ofNat stream.length)
    omega
  let full := (fill { headed with cursize := out.cursize + 1 + 2 } (out.cursize + 1).toInt
    (fun i => (shortBytes stream.length).getD i 0) 2).1
  have byte : szWriteByte body svcCpacket = some (headed, ⟨out.cursize.toInt, 1⟩) := by
    simp only [szWriteByte]
    rw [command]
    rfl
  have short : szWriteShort headed stream.length = some (full, ⟨out.cursize.toInt + 1, 2⟩) := by
    simp only [szWriteShort]
    rw [size, ← first]
    rfl
  have data : full.data = stored out stream := by
    funext i
    have ends : out.cursize.toInt + 1 + (2 : Nat) = out.cursize.toInt + 3 := by omega
    simp only [full, headed, body, fill, stored, first, ends, Nat.cast_one]
  refine ⟨⟨stream.length + 3, { full with cursize := out.cursize + 1 + 2 + Int32.ofNat stream.length },
    _⟩, ?_, rfl, data, rfl, sum, rfl⟩
  simp only [compressBuffer, if_neg ((compresses_iff input).mpr long), h]
  rw [if_neg (by decide)]
  change (szWriteByte body svcCpacket).bind _ = _
  rw [byte, Option.bind_some]
  change (szWriteShort headed stream.length).bind _ = _
  rw [short]
  rfl

theorem compressBuffer_failed {zs : Deflater} {svCompress : Int} {stream : List UInt8}
    (long : 60 ≤ input.bytes.length)
    (h : zs.deflate (min svCompress zBestCompression) input.bytes
      (availOut (Int32.ofNat input.bytes.length) out) = ⟨stream, false⟩) :
    compressBuffer zs svCompress input out =
      some ⟨0, (fill out (out.cursize.toInt + 3) (fun i => stream.getD i 0) stream.length).1,
        [⟨out.cursize.toInt + 3, stream.length⟩]⟩ := by
  simp only [compressBuffer, if_neg ((compresses_iff input).mpr long), h]
  rfl

/-- Whatever becomes of the header, the output of `deflate` is stored. -/
theorem stream_mem_spans {zs : Deflater} {svCompress : Int} (long : 60 ≤ input.bytes.length)
    {r : Result} (h : compressBuffer zs svCompress input out = some r) :
    (⟨out.cursize.toInt + 3, (zs.deflate (min svCompress zBestCompression) input.bytes
      (availOut (Int32.ofNat input.bytes.length) out)).stream.length⟩ : Span) ∈ r.spans := by
  simp only [compressBuffer, if_neg ((compresses_iff input).mpr long)] at h
  split at h
  · cases h
    exact List.mem_cons_self
  · obtain ⟨headed, -, h⟩ := Option.bind_eq_some_iff.mp h
    obtain ⟨full, -, h⟩ := Option.bind_eq_some_iff.mp h
    cases h
    exact List.mem_cons_self

/-- With room for the header, what is in the buffer is kept. -/
theorem kept_of_room (zs : Deflater) (svCompress : Int) (long : 60 ≤ input.bytes.length)
    (start : 0 ≤ out.cursize.toInt) (room : 3 ≤ out.maxsize.toInt - out.cursize.toInt) :
    ∃ r, compressBuffer zs svCompress input out = some r ∧ Kept zs svCompress input out r := by
  have avail := availOut_of_room long start room
  have fits := zs.length_le (min svCompress zBestCompression) input.bytes
    (availOut (Int32.ofNat input.bytes.length) out)
  cases h : zs.deflate (min svCompress zBestCompression) input.bytes
      (availOut (Int32.ofNat input.bytes.length) out) with
  | mk stream ended =>
    rw [h] at fits
    have inside : (⟨out.cursize.toInt + 3, stream.length⟩ : Span).Inside out.maxsize.toInt := by
      rw [inside_iff]
      change stream.length = 0 ∨ 0 ≤ out.cursize.toInt + 3 ∧
        out.cursize.toInt + 3 + stream.length ≤ out.maxsize.toInt
      simp only at fits
      omega
    cases ended with
    | false =>
      refine ⟨_, compressBuffer_failed long h, .inl ⟨rfl, rfl⟩, rfl, ?_⟩
      intro span hspan
      rw [List.mem_singleton.mp hspan]
      exact inside
    | true =>
      simp only at fits
      obtain ⟨r, run, returned, data, maxsize, cursize, spans⟩ :=
        compressBuffer_ended long start (by omega) h
      have size := length_message stream
      refine ⟨r, run, .inr ⟨stream, _, h, ?_⟩, maxsize, ?_⟩
      · constructor
        · rw [returned, size]
        · omega
        · intro i below
          rw [data, stored_outside stream below]
        · intro i inside
          rw [data, stored_message stream inside]
        · omega
        · rw [maxsize]
          omega
      · have command : (⟨out.cursize.toInt, 1⟩ : Span).Inside out.maxsize.toInt := by
          intro i low high
          simp only [Nat.cast_one] at low high
          omega
        have length : (⟨out.cursize.toInt + 1, 2⟩ : Span).Inside out.maxsize.toInt := by
          intro i low high
          simp only [Nat.cast_ofNat] at low high
          omega
        rw [spans]
        simp only [List.forall_mem_cons]
        exact ⟨inside, command, length, List.forall_mem_nil _⟩

theorem room_of_kept {zs : Deflater} {svCompress : Int} (enabled : 0 < svCompress)
    (long : 60 ≤ input.bytes.length) (limit : 0 ≤ out.maxsize.toInt) {r : Result}
    (run : compressBuffer zs svCompress input out = some r) (kept : Kept zs svCompress input out r) :
    3 ≤ out.maxsize.toInt - out.cursize.toInt := by
  by_contra tight
  have stream := zs.starts (min svCompress zBestCompression) input.bytes _
    (by simp only [zBestCompression]; omega) (Int.min_le_right _ _)
    (List.ne_nil_of_length_pos (by omega)) (availOut_pos long limit (by omega))
  have inside := inside_iff.mp (kept.inside _ (stream_mem_spans long run))
  have some := List.length_pos_iff.mpr stream
  simp only at inside
  omega

/-- The promise of `CompressBuffer` is kept just when there is room for the header. -/
theorem kept_iff_room (zs : Deflater) {svCompress : Int} (enabled : 0 < svCompress) (input : Input)
    {out : Sizebuf} (limit : 0 ≤ out.maxsize.toInt) (start : 0 ≤ out.cursize.toInt) :
    (∃ r, compressBuffer zs svCompress input out = some r ∧ Kept zs svCompress input out r) ↔
      input.bytes.length < 60 ∨ 3 ≤ out.maxsize.toInt - out.cursize.toInt := by
  by_cases long : 60 ≤ input.bytes.length
  · constructor
    · rintro ⟨r, run, kept⟩
      exact .inr (room_of_kept enabled long limit run kept)
    · rintro (short | room)
      · omega
      · exact kept_of_room zs svCompress long start room
  · have less : Int32.ofNat input.bytes.length < 60 := by
      by_contra far
      exact long ((compresses_iff input).mp far)
    constructor
    · intro _
      exact .inl (by omega)
    · intro _
      refine ⟨⟨0, out, []⟩, ?_, .inl ⟨rfl, rfl⟩, rfl, List.forall_mem_nil _⟩
      simp only [compressBuffer, if_pos less]

private def sixtyZeros : Input := ⟨List.replicate 60 0, by decide⟩

/-- The raw stream of sixty zeros; another input is kept as it is, behind one byte. -/
private def zeroStream : Deflater where
  deflate _ input avail :=
    let stream := if input = sixtyZeros.bytes then [99, 96, 32, 31, 0, 0] else 1 :: input
    ⟨stream.take avail, decide (stream.length ≤ avail)⟩
  length_le _ _ avail := List.length_take_le avail _
  starts _ input avail _ _ _ room := by
    refine List.ne_nil_of_length_pos ?_
    rw [List.length_take]
    split <;> simp only [List.length_cons] <;> omega

private def emptyOf (maxsize : Int32) : Sizebuf where
  allowoverflow := true
  overflowed := false
  data := fun _ => 0
  maxsize := maxsize
  cursize := 0
  buffsize := 1390

theorem kept_iff_room_sixtyZeros :
    (∃ r, compressBuffer zeroStream 6 sixtyZeros (emptyOf 20) = some r ∧
      Kept zeroStream 6 sixtyZeros (emptyOf 20) r) ↔
        sixtyZeros.bytes.length < 60 ∨
          3 ≤ (emptyOf 20).maxsize.toInt - (emptyOf 20).cursize.toInt :=
  kept_iff_room zeroStream (by decide) sixtyZeros (by decide) (by decide)

/-- With room for two bytes `deflate` is told that there are almost 4 GiB. -/
theorem two_bytes_left : ¬∀ (zs : Deflater) (svCompress : Int) (input : Input) (out : Sizebuf),
    0 < svCompress → 0 ≤ out.maxsize.toInt → 0 ≤ out.cursize.toInt →
      ∃ r, compressBuffer zs svCompress input out = some r ∧ Kept zs svCompress input out r := by
  intro h
  obtain ⟨r, run, kept⟩ :=
    h zeroStream 6 sixtyZeros (emptyOf 2) (by decide) (by decide) (by decide)
  exact absurd (room_of_kept (by decide) (by decide) (by decide) run kept) (by decide)

end PacketCompression
