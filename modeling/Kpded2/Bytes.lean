import Mathlib.Algebra.BigOperators.Group.List.Basic
import Mathlib.Algebra.Order.Ring.Nat
import Mathlib.Data.List.Basic

/-!
# Byte strings

A C string is modelled by the list of its bytes before the terminator, so
`strlen` is `List.length`, `strcmp` is equality, `strchr` is membership and
`strncmp (s, name, strlen (name)) == 0` is `name <+: s`. Only the modules that
look past a terminator keep the terminator and what follows it.
-/
namespace Bytes

/-- The bytes of an ASCII literal. -/
def ascii (s : String) : List UInt8 := s.toList.map fun c => UInt8.ofNat c.toNat

def space : UInt8 := 32
def quote : UInt8 := 34
def dollar : UInt8 := 36
def semicolon : UInt8 := 59
def newline : UInt8 := 10
def backslash : UInt8 := 92

def toLower (c : UInt8) : UInt8 := if 65 ≤ c ∧ c ≤ 90 then c + 32 else c

/-- `Q_stricmp (a, b) == 0`. -/
def sameIgnoringCase (a b : List UInt8) : Bool := a.map toLower == b.map toLower

/-- `Com_sprintf` into `size` bytes: the text is cut to leave room for the
terminator, and the returned length is the length of what was stored. -/
def comSprintf (size : Nat) (text : List UInt8) : List UInt8 :=
  if text.length < size then text else text.take (size - 1)

theorem comSprintf_of_fits {size : Nat} {text : List UInt8} (h : text.length < size) :
    comSprintf size text = text := by
  rw [comSprintf, if_pos h]

theorem comSprintf_length_of_overflow {size : Nat} {text : List UInt8}
    (h : size ≤ text.length) : (comSprintf size text).length = size - 1 := by
  rw [comSprintf, if_neg (by omega), List.length_take]
  omega

theorem comSprintf_length_lt {size : Nat} (text : List UInt8) (h : 0 < size) :
    (comSprintf size text).length < size := by
  by_cases hs : text.length < size
  · rwa [comSprintf_of_fits hs]
  · rw [comSprintf_length_of_overflow (by omega)]
    omega

/-- A string with its terminator, read up to that. -/
theorem takeWhile_terminated {s : List UInt8} (string : 0 ∉ s) (rest : List UInt8) :
    (s ++ 0 :: rest).takeWhile (· ≠ 0) = s := by
  have nonzero : ∀ c ∈ s, decide (c ≠ 0) = true := by
    intro c hc
    simpa using fun zero : c = 0 => string (zero ▸ hc)
  rw [List.takeWhile_append_of_pos nonzero]
  simp

end Bytes
