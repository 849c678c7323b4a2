import Kpded2.Bytes

/-!
# `sizebuf_t`

Only the written part of a buffer is kept, so `cursize` is the length of `data`.
Two sizes bound it: `buffsize` is the allocation and `maxsize` a lower limit that
may change. A write that the buffer refuses with `Com_Error (ERR_FATAL)` returns
`none`.
-/
namespace SizeBuf

structure Sizebuf where
  allowoverflow : Bool := false
  overflowed : Bool := false
  data : List UInt8 := []
  maxsize : Nat
  buffsize : Nat
  deriving DecidableEq

def Sizebuf.cursize (buf : Sizebuf) : Nat := buf.data.length

def szInit (length : Nat) : Sizebuf := { maxsize := length, buffsize := length }

def szClear (buf : Sizebuf) : Sizebuf := { buf with data := [], overflowed := false }

/-- `SZ_GetSpace` and the copy into the space it returns. -/
def szWrite (buf : Sizebuf) (data : List UInt8) : Option Sizebuf :=
  if buf.cursize + data.length > buf.maxsize then
    if buf.allowoverflow then
      let buf := if buf.cursize + data.length ≥ buf.buffsize then szClear buf else buf
      some { buf with overflowed := true, data := buf.data ++ data }
    else none
  else some { buf with data := buf.data ++ data }

/-- A write that stops with an error of the caller's where the buffer refuses it. -/
def szWriteOr {ε : Type} (stop : ε) (buf : Sizebuf) (data : List UInt8) : Except ε Sizebuf :=
  (szWrite buf data).elim (.error stop) .ok

/-- `MSG_EndWriting`, with what has been written to `msgbuff`. -/
def msgEndWriting (out : Sizebuf) (msgbuff : List UInt8) : Sizebuf :=
  if out.cursize + msgbuff.length > out.maxsize then { szClear out with overflowed := true }
  else { out with data := out.data ++ msgbuff }

/-- The four bytes `SZ_WriteLong` stores, least significant first. -/
def longBytes (c : Nat) : List UInt8 :=
  [UInt8.ofNat c, UInt8.ofNat (c / 2 ^ 8), UInt8.ofNat (c / 2 ^ 16), UInt8.ofNat (c / 2 ^ 24)]

def shortBytes (c : Nat) : List UInt8 := [UInt8.ofNat c, UInt8.ofNat (c / 2 ^ 8)]

/-- `MSG_ReadLong` as an unsigned value, with the unread rest. -/
def msgReadLong : List UInt8 → Nat × List UInt8
  | a :: b :: c :: d :: rest =>
    (a.toNat + b.toNat * 2 ^ 8 + c.toNat * 2 ^ 16 + d.toNat * 2 ^ 24, rest)
  | _ => (2 ^ 32 - 1, [])

theorem szWrite_of_fits {buf : Sizebuf} {data : List UInt8}
    (h : buf.cursize + data.length ≤ buf.maxsize) :
    szWrite buf data = some { buf with data := buf.data ++ data } := by
  rw [szWrite, if_neg (by omega)]

/-- A buffer that may not overflow either takes the bytes or stops the program. -/
theorem szWrite_strict {buf out : Sizebuf} {data : List UInt8}
    (hstrict : buf.allowoverflow = false) (h : szWrite buf data = some out) :
    out.allowoverflow = false ∧ out.data = buf.data ++ data := by
  unfold szWrite at h
  split at h
  · rw [hstrict] at h
    cases h
  · rw [← Option.some.inj h]
    exact ⟨hstrict, rfl⟩

theorem szWrite_eq_none_iff {buf : Sizebuf} {data : List UInt8}
    (hstrict : buf.allowoverflow = false) :
    szWrite buf data = none ↔ buf.maxsize < buf.cursize + data.length := by
  unfold szWrite
  split
  · rename_i h
    simp only [hstrict, Bool.false_eq_true, if_false, true_iff]
    exact h
  · rename_i h
    simp only [reduceCtorEq, false_iff]
    omega

theorem szWriteOr_of_fits {ε : Type} (stop : ε) {buf : Sizebuf} {data : List UInt8}
    (h : buf.cursize + data.length ≤ buf.maxsize) :
    szWriteOr stop buf data = .ok { buf with data := buf.data ++ data } := by
  rw [szWriteOr, szWrite_of_fits h]
  rfl

theorem szWriteOr_of_full {ε : Type} (stop : ε) {buf : Sizebuf} {data : List UInt8}
    (strict : buf.allowoverflow = false) (h : buf.maxsize < buf.cursize + data.length) :
    szWriteOr stop buf data = .error stop := by
  rw [szWriteOr, (szWrite_eq_none_iff strict).mpr h]
  rfl

theorem msgEndWriting_of_fits {out : Sizebuf} {msgbuff : List UInt8}
    (h : out.cursize + msgbuff.length ≤ out.maxsize) :
    msgEndWriting out msgbuff = { out with data := out.data ++ msgbuff } := by
  rw [msgEndWriting, if_neg (by omega)]

theorem msgReadLong_longBytes {c : Nat} (h : c < 2 ^ 32) (rest : List UInt8) :
    msgReadLong (longBytes c ++ rest) = (c, rest) := by
  simp only [longBytes, List.cons_append, List.nil_append, msgReadLong, UInt8.toNat_ofNat',
    Prod.mk.injEq, and_true]
  omega

end SizeBuf
