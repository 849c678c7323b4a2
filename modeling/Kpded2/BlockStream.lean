import Mathlib.Data.List.Basic

/-!
# Data taken in blocks

Data that comes in pieces is taken in blocks of `n`, and what is left over waits for the next piece.
-/
namespace BlockStream

universe u v
variable {State : Type u} {α : Type v}

def blocksOf (n : Nat) (data : List α) : List (List α) :=
  (List.range (data.length / n)).map fun i => (data.drop (n * i)).take n

/-- The state after all whole blocks, and what is left over. -/
def absorb (n : Nat) (process : State → List α → State) (s : State) (data : List α) :
    State × List α :=
  ((blocksOf n data).foldl process s, data.drop (n * (data.length / n)))

section
variable {n : Nat} {process : State → List α → State} {s : State} {block data rest : List α}

theorem blocksOf_short (short : data.length < n) : blocksOf n data = [] := by
  rw [blocksOf, Nat.div_eq_of_lt short, List.range_zero, List.map_nil]

theorem blocksOf_cons (whole : block.length = n) (positive : 0 < n) :
    blocksOf n (block ++ rest) = block :: blocksOf n rest := by
  have count : (block ++ rest).length / n = rest.length / n + 1 := by
    rw [List.length_append, whole, Nat.add_comm, Nat.add_div_right _ positive]
  rw [blocksOf, count, List.range_succ_eq_map, List.map_cons, List.map_map, Nat.mul_zero,
    List.drop_zero, List.take_left' whole, blocksOf]
  refine congrArg (block :: ·) (List.map_congr_left fun i _ => ?_)
  have next : n * (i + 1) = block.length + n * i := by rw [whole, Nat.mul_succ, Nat.add_comm]
  rw [Function.comp_apply, Nat.succ_eq_add_one, next, List.drop_length_add_append]

theorem absorb_short (short : data.length < n) : absorb n process s data = (s, data) := by
  rw [absorb, blocksOf_short short, Nat.div_eq_of_lt short, Nat.mul_zero, List.drop_zero,
    List.foldl_nil]

theorem absorb_block (whole : block.length = n) (positive : 0 < n) :
    absorb n process s (block ++ rest) = absorb n process (process s block) rest := by
  have count : (block ++ rest).length / n = rest.length / n + 1 := by
    rw [List.length_append, whole, Nat.add_comm, Nat.add_div_right _ positive]
  have left : n * (rest.length / n + 1) = block.length + n * (rest.length / n) := by
    rw [whole, Nat.mul_succ, Nat.add_comm]
  rw [absorb, blocksOf_cons whole positive, List.foldl_cons, count, left,
    List.drop_length_add_append, absorb]

/-- Whole blocks of the first piece, and then what was left over and the second piece. -/
theorem absorb_append (positive : 0 < n) (s : State) (first second : List α) :
    absorb n process s (first ++ second) =
      absorb n process (absorb n process s first).1 ((absorb n process s first).2 ++ second) := by
  induction size : first.length using Nat.strongRecOn generalizing first s with
  | ind length ih =>
    by_cases short : first.length < n
    · rw [absorb_short short]
    · have enough := Nat.le_of_not_lt short
      have whole : (first.take n).length = n := List.length_take_of_le enough
      have fewer : (first.drop n).length < length := by
        rw [List.length_drop]
        omega
      have split : first = first.take n ++ first.drop n := (List.take_append_drop n first).symm
      rw [split, List.append_assoc, absorb_block whole positive, absorb_block whole positive]
      exact ih _ fewer _ _ rfl

theorem length_absorb (s : State) (data : List α) :
    (absorb n process s data).2.length = data.length % n := by
  rw [absorb, List.length_drop, Nat.mod_eq_sub]

theorem absorb_whole (whole : data.length % n = 0) :
    absorb n process s data = ((blocksOf n data).foldl process s, []) := by
  refine Prod.ext rfl (List.eq_nil_of_length_eq_zero ?_)
  rw [length_absorb, whole]

end

end BlockStream
