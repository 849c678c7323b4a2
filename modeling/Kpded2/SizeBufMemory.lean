import Mathlib.Data.List.Basic
import Kpded2.SizeBuf
import Kpded2.StepRuns

/-!
# Where a `sizebuf_t` is written

The buffer with its memory, by offsets from `data`, which is not NULL. Lengths are ints, whose
sums wrap around; `memcpy` takes them for a `size_t`.
-/
namespace SizeBufMemory

structure Sizebuf where
  allowoverflow : Bool
  overflowed : Bool
  data : Int → UInt8
  maxsize : Int32
  cursize : Int32
  buffsize : Int32

/-- The bytes that a call writes. -/
structure Span where
  first : Int
  count : Nat

def sizeT (n : Int32) : Nat := (n.toInt % 2 ^ 64).toNat

def fill (buf : Sizebuf) (first : Int) (source : Nat → UInt8) (count : Nat) : Sizebuf × Span :=
  ({ buf with data := fun i =>
      if first ≤ i ∧ i < first + count then source (i - first).toNat else buf.data i }, ⟨first, count⟩)

def memcpy (buf : Sizebuf) (first : Int) (source : Nat → UInt8) (length : Int32) : Sizebuf × Span :=
  fill buf first source (sizeT length)

def szClear (buf : Sizebuf) : Sizebuf := { buf with cursize := 0, overflowed := false }

/-- The buffer and the offset of the space; `none` is `Com_Error (ERR_FATAL)`. -/
def szGetSpace (buf : Sizebuf) (length : Int32) : Option (Sizebuf × Int) :=
  if buf.cursize + length > buf.maxsize then
    if ¬buf.allowoverflow then none
    else
      let buf := if buf.cursize + length ≥ buf.buffsize then szClear buf else buf
      some ({ buf with overflowed := true, cursize := buf.cursize + length }, buf.cursize.toInt)
  else some ({ buf with cursize := buf.cursize + length }, buf.cursize.toInt)

def szWrite (buf : Sizebuf) (source : Nat → UInt8) (length : Int32) : Option (Sizebuf × Span) :=
  (szGetSpace buf length).map fun (buf, first) => memcpy buf first source length

/-- `(int)strlen (text) + 1`. -/
def textLength (text : List UInt8) : Int32 := Int32.ofNat text.length + 1

def szPrint (buf : Sizebuf) (text : List UInt8) : Option (Sizebuf × Span) :=
  let len := textLength text
  let source := fun i => text.getD i 0
  if buf.cursize ≠ 0 then
    if buf.data (buf.cursize.toInt - 1) ≠ 0 then
      (szGetSpace buf len).map fun (buf, first) => memcpy buf first source len
    else
      (szGetSpace buf (len - 1)).map fun (buf, first) => memcpy buf (first - 1) source len
  else (szGetSpace buf len).map fun (buf, first) => memcpy buf first source len

/-- `source` and `length` are those of `msgbuff`. -/
def msgEndWriting (out : Sizebuf) (source : Nat → UInt8) (length : Int32) :
    Option (Sizebuf × List Span) :=
  if out.cursize + length > out.maxsize then some ({ szClear out with overflowed := true }, [])
  else (szWrite out source length).map fun (out, span) => (out, [span])

inductive Op where
  /-- The caller fills the space it gets. -/
  | getSpace (source : Nat → UInt8) (length : Int32)
  | write (source : Nat → UInt8) (length : Int32)
  | print (text : List UInt8)
  | clear
  | endWriting (source : Nat → UInt8) (length : Int32)

def call (buf : Sizebuf) : Op → Option (Sizebuf × List Span)
  | .getSpace source length =>
    ((szGetSpace buf length).map fun (buf, first) => fill buf first source length.toInt.toNat).map
      fun (buf, span) => (buf, [span])
  | .write source length => (szWrite buf source length).map fun (buf, span) => (buf, [span])
  | .print text => (szPrint buf text).map fun (buf, span) => (buf, [span])
  | .clear => some (szClear buf, [])
  | .endWriting source length => msgEndWriting buf source length

def step (s : Option Sizebuf) (op : Op) : Option Sizebuf :=
  s.bind fun buf => (call buf op).map Prod.fst

/-! ## What every call should keep -/

def InBounds (buf : Sizebuf) : Prop := 0 ≤ buf.cursize.toInt ∧ buf.cursize.toInt ≤ buf.buffsize.toInt

def Span.Inside (span : Span) (size : Int) : Prop :=
  ∀ i, span.first ≤ i → i < span.first + span.count → 0 ≤ i ∧ i < size

def Safe (buf : Sizebuf) (op : Op) : Prop :=
  ∀ out spans, call buf op = some (out, spans) →
    InBounds out ∧ ∀ span ∈ spans, span.Inside buf.buffsize.toInt

/-- `length` bytes fit into an empty buffer, and the new `cursize` into an int. -/
def Fits (buf : Sizebuf) (length : Int32) : Prop :=
  length.toInt ≤ buf.buffsize.toInt ∧ buf.cursize.toInt + length.toInt < 2 ^ 31

/-- The condition on one call. -/
def Meets (buf : Sizebuf) : Op → Prop
  | .getSpace _ length => 0 ≤ buf.cursize.toInt + length.toInt ∧ Fits buf length
  | .write _ length => 0 ≤ length.toInt ∧ Fits buf length
  | .print text =>
    0 ≤ (textLength text).toInt ∧
      if buf.cursize ≠ 0 ∧ buf.data (buf.cursize.toInt - 1) = 0 then
        buf.cursize.toInt + (textLength text).toInt - 1 < buf.buffsize.toInt ∨
          buf.cursize.toInt + (textLength text).toInt - 1 ≤ buf.maxsize.toInt
      else Fits buf (textLength text)
  | .clear => True
  | .endWriting _ length =>
    buf.cursize + length > buf.maxsize ∨
      0 ≤ length.toInt ∧ buf.cursize.toInt + length.toInt < 2 ^ 31

/-- `P` holds of the buffer that a call starts from, if the program has not stopped. -/
def OnBuffer (P : Sizebuf → Op → Prop) (s : Option Sizebuf) (op : Op) : Prop :=
  ∀ buf, s = some buf → P buf op

structure Good (buf : Sizebuf) : Prop where
  overflow : buf.allowoverflow = true
  limit : buf.maxsize.toInt ≤ buf.buffsize.toInt
  inBounds : InBounds buf

variable {buf : Sizebuf} {length : Int32} {source : Nat → UInt8}

/-- A sum with an int that is not negative is exact or wraps around to a negative one. -/
theorem toInt_add_cases {a : Int32} (nonneg : 0 ≤ a.toInt) (b : Int32) :
    (a + b).toInt = a.toInt + b.toInt ∧ a.toInt + b.toInt < 2 ^ 31 ∨
      (a + b).toInt < 0 ∧ 2 ^ 31 ≤ a.toInt + b.toInt := by
  have := a.toInt_lt
  have := b.toInt_lt
  have := b.le_toInt
  rw [Int32.toInt_add, Int.bmod_def]
  omega

theorem toInt_sub_one_cases (n : Int32) :
    (n - 1).toInt = n.toInt - 1 ∨ n.toInt = -2 ^ 31 ∧ (n - 1).toInt = 2 ^ 31 - 1 := by
  have := n.toInt_lt
  have := n.le_toInt
  have one : (1 : Int32).toInt = 1 := rfl
  rw [Int32.toInt_sub, Int.bmod_def, one]
  omega

theorem sizeT_cases (n : Int32) :
    0 ≤ n.toInt ∧ (sizeT n : Int) = n.toInt ∨ n.toInt < 0 ∧ 2 ^ 63 ≤ (sizeT n : Int) := by
  have := n.toInt_lt
  have := n.le_toInt
  simp only [sizeT]
  omega

theorem inside_iff {span : Span} {size : Int} :
    span.Inside size ↔ span.count = 0 ∨ 0 ≤ span.first ∧ span.first + span.count ≤ size := by
  constructor
  · intro inside
    by_cases none : span.count = 0
    · exact .inl none
    · have := inside span.first (Int.le_refl _) (by omega)
      have := inside (span.first + span.count - 1) (by omega) (by omega)
      omega
  · intro h i low high
    omega

/-! ## `SZ_GetSpace` -/

/-- The buffer is emptied before the space is handed out. -/
def Cleared (buf : Sizebuf) (length : Int32) : Prop :=
  buf.maxsize.toInt < (buf.cursize + length).toInt ∧
    buf.buffsize.toInt ≤ (buf.cursize + length).toInt

structure Handed (buf : Sizebuf) (length : Int32) (out : Sizebuf) (first : Int) : Prop where
  data : out.data = buf.data
  allowoverflow : out.allowoverflow = buf.allowoverflow
  maxsize : out.maxsize = buf.maxsize
  buffsize : out.buffsize = buf.buffsize
  place : Cleared buf length ∧ first = 0 ∧ out.cursize = length ∨
    ¬Cleared buf length ∧ first = buf.cursize.toInt ∧ out.cursize = buf.cursize + length

theorem exists_szGetSpace (overflow : buf.allowoverflow = true) (length : Int32) :
    ∃ out first, szGetSpace buf length = some (out, first) ∧ Handed buf length out first := by
  simp only [szGetSpace, overflow, not_true_eq_false, if_false]
  split
  · rename_i exceeds
    rw [gt_iff_lt, Int32.lt_iff_toInt_lt] at exceeds
    refine ⟨_, _, rfl, ?_⟩
    split
    · rename_i full
      rw [ge_iff_le, Int32.le_iff_toInt_le] at full
      exact ⟨rfl, rfl, rfl, rfl, .inl ⟨⟨exceeds, full⟩, rfl, Int32.zero_add length⟩⟩
    · rename_i room
      rw [ge_iff_le, Int32.le_iff_toInt_le] at room
      exact ⟨rfl, rfl, rfl, rfl, .inr ⟨fun cleared => room cleared.2, rfl, rfl⟩⟩
  · rename_i under
    rw [gt_iff_lt, Int32.lt_iff_toInt_lt] at under
    exact ⟨_, _, rfl, rfl, overflow.symm, rfl, rfl, .inr ⟨fun cleared => under cleared.1, rfl, rfl⟩⟩

/-! ## One call -/

theorem safe_iff {op : Op} {out : Sizebuf} {spans : List Span}
    (h : call buf op = some (out, spans)) :
    Safe buf op ↔ InBounds out ∧ ∀ span ∈ spans, span.Inside buf.buffsize.toInt := by
  constructor
  · exact fun safe => safe out spans h
  · intro holds out' spans' h'
    rw [h] at h'
    cases h'
    exact holds

theorem safe_getSpace_iff (good : Good buf) :
    Safe buf (.getSpace source length) ↔ Meets buf (.getSpace source length) := by
  obtain ⟨out, first, got, handed⟩ := exists_szGetSpace good.overflow length
  rw [safe_iff (by simp only [call, got, Option.map_some, fill]; rfl)]
  have limit := good.limit
  obtain ⟨low, high⟩ := good.inBounds
  have sum := toInt_add_cases low length
  have place := handed.place
  simp only [InBounds, List.mem_singleton, forall_eq, inside_iff, handed.buffsize, Meets, Fits,
    Cleared] at place ⊢
  rcases place with ⟨cleared, rfl, same⟩ | ⟨kept, rfl, same⟩
  · rw [same]
    omega
  · rw [same]
    omega

/-- The bytes are copied to the space. -/
theorem szWrite_spec (good : Good buf) (source : Nat → UInt8) (length : Int32) :
    ∃ out span, szWrite buf source length = some (out, span) ∧
      (InBounds out ∧ span.Inside buf.buffsize.toInt ↔ 0 ≤ length.toInt ∧ Fits buf length) := by
  obtain ⟨out, first, got, handed⟩ := exists_szGetSpace good.overflow length
  refine ⟨_, _, by simp only [szWrite, got, Option.map_some, memcpy, fill]; rfl, ?_⟩
  have limit := good.limit
  obtain ⟨low, high⟩ := good.inBounds
  have sum := toInt_add_cases low length
  have count := sizeT_cases length
  have small := buf.buffsize.toInt_lt
  have place := handed.place
  simp only [InBounds, inside_iff, handed.buffsize, Fits, Cleared] at place ⊢
  rcases place with ⟨cleared, rfl, same⟩ | ⟨kept, rfl, same⟩
  · rw [same]
    omega
  · rw [same]
    omega

theorem safe_write_iff (good : Good buf) :
    Safe buf (.write source length) ↔ Meets buf (.write source length) := by
  obtain ⟨out, span, written, spec⟩ := szWrite_spec good source length
  rw [safe_iff (by simp only [call, written, Option.map_some]; rfl)]
  simpa only [List.mem_singleton, forall_eq, Meets] using spec

/-- A print stays inside the buffer exactly under its condition. -/
theorem safe_print_iff (good : Good buf) {text : List UInt8} :
    Safe buf (.print text) ↔ Meets buf (.print text) := by
  obtain ⟨out, span, written, spec⟩ :=
    szWrite_spec good (fun i => text.getD i 0) (textLength text)
  by_cases behind : buf.cursize ≠ 0 ∧ buf.data (buf.cursize.toInt - 1) = 0
  · obtain ⟨used, zero⟩ := behind
    obtain ⟨out, first, got, handed⟩ := exists_szGetSpace good.overflow (textLength text - 1)
    rw [safe_iff (by simp only [call, szPrint, if_pos used, zero, ne_eq, not_true_eq_false, if_false,
      got, Option.map_some, memcpy, fill]; rfl)]
    have limit := good.limit
    obtain ⟨low, high⟩ := good.inBounds
    have some_used : buf.cursize.toInt ≠ 0 := fun none => used (Int32.toInt_inj.mp none)
    have less := toInt_sub_one_cases (textLength text)
    have sum := toInt_add_cases low (textLength text - 1)
    have count := sizeT_cases (textLength text)
    have small := buf.buffsize.toInt_lt
    have place := handed.place
    simp only [InBounds, List.mem_singleton, forall_eq, inside_iff, handed.buffsize, Meets, Cleared,
      if_pos (And.intro used zero)] at place ⊢
    rcases place with ⟨cleared, rfl, same⟩ | ⟨kept, rfl, same⟩
    · rw [same]
      omega
    · rw [same]
      omega
  · have same : szPrint buf text = szWrite buf (fun i => text.getD i 0) (textLength text) := by
      simp only [szPrint, szWrite]
      split
      · rename_i used
        rw [if_pos fun zero => behind ⟨used, zero⟩]
      · rfl
    rw [safe_iff (by simp only [call, same, written, Option.map_some]; rfl)]
    simpa only [List.mem_singleton, forall_eq, Meets, if_neg behind] using spec

theorem safe_endWriting_iff (good : Good buf) :
    Safe buf (.endWriting source length) ↔ Meets buf (.endWriting source length) := by
  obtain ⟨out, span, written, spec⟩ := szWrite_spec good source length
  by_cases exceeds : buf.cursize + length > buf.maxsize
  · rw [safe_iff (by simp only [call, msgEndWriting, if_pos exceeds]; rfl)]
    have empty : InBounds { szClear buf with overflowed := true } :=
      ⟨Int.le_refl 0, Int.le_trans good.inBounds.1 good.inBounds.2⟩
    simp [Meets, exceeds, empty]
  · rw [safe_iff (by simp only [call, msgEndWriting, if_neg exceeds, written, Option.map_some]; rfl)]
    have limit := good.limit
    have sum := toInt_add_cases good.inBounds.1 length
    have low := good.inBounds.1
    simp only [List.mem_singleton, forall_eq, Meets, exceeds, spec, false_or, Fits]
    rw [gt_iff_lt, Int32.lt_iff_toInt_lt] at exceeds
    omega

theorem safe_iff_meets (good : Good buf) (op : Op) : Safe buf op ↔ Meets buf op := by
  cases op with
  | getSpace source length => exact safe_getSpace_iff good
  | write source length => exact safe_write_iff good
  | print text => exact safe_print_iff good
  | endWriting source length => exact safe_endWriting_iff good
  | clear =>
    rw [safe_iff rfl]
    have empty : InBounds (szClear buf) :=
      ⟨Int.le_refl 0, Int.le_trans good.inBounds.1 good.inBounds.2⟩
    simp [Meets, empty]

/-! ## Runs -/

/-- What no call changes. -/
structure SameLimits (buf out : Sizebuf) : Prop where
  allowoverflow : out.allowoverflow = buf.allowoverflow
  maxsize : out.maxsize = buf.maxsize
  buffsize : out.buffsize = buf.buffsize

/-- Filling the space does not change them either. -/
theorem limits_filled (overflow : buf.allowoverflow = true) {out : Sizebuf} {span : Span}
    (place : Int → Int) {count : Nat}
    (h : (szGetSpace buf length).map (fun (buf, first) => fill buf (place first) source count) =
      some (out, span)) : SameLimits buf out := by
  obtain ⟨middle, first, got, handed⟩ := exists_szGetSpace overflow length
  rw [got, Option.map_some] at h
  cases h
  exact ⟨handed.allowoverflow, handed.maxsize, handed.buffsize⟩

/-- No call changes the limits of the buffer. -/
theorem call_limits (overflow : buf.allowoverflow = true) {op : Op} {out : Sizebuf}
    {spans : List Span} (h : call buf op = some (out, spans)) : SameLimits buf out := by
  have written : ∀ {source : Nat → UInt8} {length : Int32},
      (szWrite buf source length).map (fun (buf, span) => (buf, [span])) = some (out, spans) →
        SameLimits buf out := by
    intro source length h
    obtain ⟨⟨middle, span⟩, copied, rest⟩ := Option.map_eq_some_iff.mp h
    cases rest
    exact limits_filled overflow id copied
  cases op with
  | getSpace source length =>
    obtain ⟨⟨middle, span⟩, filled, rest⟩ := Option.map_eq_some_iff.mp h
    cases rest
    exact limits_filled overflow id filled
  | write source length => exact written h
  | print text =>
    obtain ⟨⟨middle, span⟩, printed, rest⟩ := Option.map_eq_some_iff.mp h
    cases rest
    simp only [szPrint] at printed
    split at printed
    · split at printed
      · exact limits_filled overflow id printed
      · exact limits_filled overflow (· - 1) printed
    · exact limits_filled overflow id printed
  | clear =>
    cases h
    exact ⟨rfl, rfl, rfl⟩
  | endWriting source length =>
    simp only [call, msgEndWriting] at h
    split at h
    · cases h
      exact ⟨rfl, rfl, rfl⟩
    · exact written h

theorem good_call (good : Good buf) {op : Op} (safe : Safe buf op) {out : Sizebuf}
    {spans : List Span} (h : call buf op = some (out, spans)) : Good out := by
  obtain ⟨allowoverflow, maxsize, buffsize⟩ := call_limits good.overflow h
  refine ⟨allowoverflow.trans good.overflow, ?_, (safe out spans h).1⟩
  rw [maxsize, buffsize]
  exact good.limit

/-- A run of calls keeps `cursize` within the buffer and writes nowhere else, just when each of
its calls meets the condition. -/
theorem run_inside_iff (buf : Sizebuf) (overflow : buf.allowoverflow = true)
    (limit : buf.maxsize.toInt ≤ buf.buffsize.toInt) (inBounds : InBounds buf) (ops : List Op) :
    StepRuns.AllSteps step (OnBuffer Safe) (some buf) ops ↔
      StepRuns.AllSteps step (OnBuffer Meets) (some buf) ops := by
  refine @StepRuns.allSteps_iff _ _ step _ _ (fun s => ∀ buf, s = some buf → Good buf) ?_ ?_ _ ?_ ops
  · intro s op good
    constructor
    · exact fun safe buf hs => (safe_iff_meets (good buf hs) op).mp (safe buf hs)
    · exact fun meets buf hs => (safe_iff_meets (good buf hs) op).mpr (meets buf hs)
  · intro s op good safe out stepped
    simp only [step, Option.bind_eq_some_iff, Option.map_eq_some_iff, Prod.exists] at stepped
    obtain ⟨buf, hs, out, spans, called, rfl⟩ := stepped
    exact good_call (good buf hs) (safe buf hs) called
  · rintro buf ⟨⟩
    exact ⟨overflow, limit, inBounds⟩

instance (buf : Sizebuf) : Decidable (InBounds buf) := inferInstanceAs (Decidable (_ ∧ _))

instance (buf : Sizebuf) (length : Int32) : Decidable (Fits buf length) :=
  inferInstanceAs (Decidable (_ ∧ _))

instance (buf : Sizebuf) (op : Op) : Decidable (Meets buf op) :=
  match op with
  | .getSpace _ _ => inferInstanceAs (Decidable (_ ∧ _))
  | .write _ _ => inferInstanceAs (Decidable (_ ∧ _))
  | .print _ => inferInstanceAs (Decidable (_ ∧ ite _ _ _))
  | .clear => inferInstanceAs (Decidable True)
  | .endWriting _ _ => inferInstanceAs (Decidable (_ ∨ _))

instance (P : Sizebuf → Op → Prop) [∀ buf op, Decidable (P buf op)] (s : Option Sizebuf) (op : Op) :
    Decidable (OnBuffer P s op) :=
  inferInstanceAs (Decidable (∀ buf ∈ s, P buf op))

private def eightBytes : Sizebuf where
  allowoverflow := true
  overflowed := false
  data := fun _ => 0
  maxsize := 8
  cursize := 0
  buffsize := 8

private def abcd : Op := .print (Bytes.ascii "abcd")

theorem run_inside_iff_eightBytes : StepRuns.AllSteps step (OnBuffer Safe) (some eightBytes)
    [abcd, .endWriting (fun _ => 1) 3, .endWriting (fun _ => 2) 3, .getSpace (fun _ => 3) 6,
      .write (fun _ => 4) 8, .clear, abcd] :=
  (run_inside_iff eightBytes rfl (by decide) (by decide) _).mpr (by decide +kernel)

/-- The second string does not fit behind the first: the buffer is emptied, and the string put one
byte before its start. -/
theorem print_before_start : ¬∀ (buf : Sizebuf) (ops : List Op), buf.allowoverflow = true →
    buf.maxsize.toInt ≤ buf.buffsize.toInt → InBounds buf →
      StepRuns.AllSteps step (OnBuffer Safe) (some buf) ops := by
  intro h
  obtain ⟨-, second, -⟩ := h eightBytes [abcd, abcd] rfl (by decide) (by decide)
  have safe := second _ rfl
  have meets := (safe_iff_meets ⟨rfl, by decide, by decide⟩ abcd).mp safe
  exact absurd meets (by decide +kernel)

/-! ## The buffer without its memory -/

/-- What has been written. -/
def view (buf : Sizebuf) : SizeBuf.Sizebuf where
  allowoverflow := buf.allowoverflow
  overflowed := buf.overflowed
  data := (List.range buf.cursize.toInt.toNat).map fun i : Nat => buf.data i
  maxsize := buf.maxsize.toInt.toNat
  buffsize := buf.buffsize.toInt.toNat

theorem bytes_filled (data : Int → UInt8) (source : Nat → UInt8) (start count : Nat) :
    ((List.range (start + count)).map fun i : Nat =>
        if (start : Int) ≤ i ∧ (i : Int) < start + count then source (i - start : Int).toNat else data i) =
      ((List.range start).map fun i : Nat => data i) ++ (List.range count).map source := by
  rw [List.range_add, List.map_append, List.map_map]
  congr 1
  · refine List.map_congr_left fun i hi => if_neg ?_
    have := List.mem_range.mp hi
    omega
  · refine List.map_congr_left fun i hi => ?_
    have := List.mem_range.mp hi
    simp only [Function.comp_apply]
    rw [if_pos (by omega)]
    congr 1
    omega

theorem view_memcpy {out : Sizebuf} {start : Int} (low : 0 ≤ start) (nonneg : 0 ≤ length.toInt)
    (grown : out.cursize.toInt = start + length.toInt) :
    view (memcpy out start source length).1 =
      { view out with data := ((List.range start.toNat).map fun i : Nat => out.data i) ++
          (List.range length.toInt.toNat).map source } := by
  have count : sizeT length = length.toInt.toNat := by
    have := sizeT_cases length
    omega
  have sum : out.cursize.toInt.toNat = start.toNat + length.toInt.toNat := by omega
  have bytes := bytes_filled out.data source start.toNat length.toInt.toNat
  rw [Int.toNat_of_nonneg low] at bytes
  simp only [view, memcpy, fill, count, sum, bytes]

/-- Within these bounds `SZ_Write` appends to what has been written. -/
theorem view_szWrite (good : Good buf) (limit : 0 ≤ buf.maxsize.toInt) (nonneg : 0 ≤ length.toInt)
    (fits : Fits buf length) : (szWrite buf source length).map (fun p => view p.1) =
      SizeBuf.szWrite (view buf) ((List.range length.toInt.toNat).map source) := by
  obtain ⟨low, high⟩ := good.inBounds
  have sum : (buf.cursize + length).toInt = buf.cursize.toInt + length.toInt := by
    have := toInt_add_cases low length
    have := fits.2
    omega
  have size : (view buf).cursize + ((List.range length.toInt.toNat).map source).length =
      (buf.cursize + length).toInt.toNat := by
    simp only [SizeBuf.Sizebuf.cursize, view, List.length_map, List.length_range]
    omega
  have overflow : (view buf).allowoverflow = true := good.overflow
  have exceeds : (view buf).cursize + ((List.range length.toInt.toNat).map source).length >
      (view buf).maxsize ↔ buf.cursize + length > buf.maxsize := by
    rw [size, gt_iff_lt, gt_iff_lt, Int32.lt_iff_toInt_lt]
    simp only [view]
    omega
  have full : (view buf).cursize + ((List.range length.toInt.toNat).map source).length ≥
      (view buf).buffsize ↔ buf.cursize + length ≥ buf.buffsize := by
    rw [size, ge_iff_le, ge_iff_le, Int32.le_iff_toInt_le]
    simp only [view]
    omega
  simp only [szWrite, szGetSpace, SizeBuf.szWrite, exceeds, full, overflow, good.overflow,
    not_true_eq_false, if_false, if_true]
  split
  · split
    · have grown : ((szClear buf).cursize + length).toInt = 0 + length.toInt := by
        rw [szClear, Int32.zero_add, Int.zero_add]
      exact congrArg some (view_memcpy (Int.le_refl 0) nonneg grown)
    · exact congrArg some ((view_memcpy low nonneg sum).trans (by simp only [view, good.overflow]))
  · exact congrArg some ((view_memcpy low nonneg sum).trans (by simp only [view, good.overflow]))

end SizeBufMemory
