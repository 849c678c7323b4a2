import Kpded2.ClientMessage

/-!
# The check byte of a move

`COM_BlockSequenceCheckByte` of the Kingpin build: two places of `chktbl` are mixed into a copy of
the command, one chosen by the sequence number of the packet and one by its sum with the client's
challenge. `blockChecksum` is `Com_BlockChecksum`.
-/
namespace SequenceCheck
open ClientMessage

inductive Stop where
  /-- `Sys_Error`. -/
  | negativeSequence
  /-- A byte outside `chktbl`. -/
  | table
  /-- A byte outside `chkb`. -/
  | scratch
  deriving DecidableEq

def chktblSize : Nat := 162 * 12
def chkbSize : Nat := 60 + 8

abbrev Chktbl := Vector UInt8 chktblSize

/-- Where the place of a number in `chktbl` begins; the division truncates. -/
def chktblOffset (n : Int) : Int := ((n.tdiv 3).tmod 162 * 3 + n.tmod 3) * 4

/-- `p[k]`. -/
def tableByte (chktbl : Chktbl) (p : Int) (k : Nat) : Except Stop UInt8 :=
  if inside : 0 ≤ p + k ∧ p + k < chktblSize then
    .ok (chktbl.get ⟨(p + k).toNat, by omega⟩)
  else .error .table

/-- `chkb[i] = b`. -/
def store (chkb : List UInt8) (i : Nat) (b : UInt8) : Except Stop (List UInt8) :=
  if i < chkb.length then .ok (chkb.set i b) else .error .scratch

/-- `memcpy (chkb, base, length)`. -/
def copyBlock (chkb block : List UInt8) : Except Stop (List UInt8) :=
  if block.length ≤ chkb.length then .ok (block ++ chkb.drop block.length) else .error .scratch

/-- `chkb` is the uninitialized array. -/
def comBlockSequenceCheckByte (blockChecksum : List UInt8 → BitVec 32) (chktbl : Chktbl)
    (chkb : Vector UInt8 chkbSize) (block : List UInt8) (sequence challenge : Int) :
    Except Stop UInt8 :=
  if sequence < 0 then .error .negativeSequence
  else do
    let block := block.take 60
    let length := block.length
    let chkb ← copyBlock chkb.toList block
    let p := chktblOffset sequence
    let chkb ← store chkb length ((← tableByte chktbl p 0) ^^^ toByte sequence)
    let chkb ← store chkb (length + 1) (← tableByte chktbl p 1)
    let chkb ← store chkb (length + 2) ((← tableByte chktbl p 2) ^^^ toByte (sequence / 2 ^ 8))
    let chkb ← store chkb (length + 3) (← tableByte chktbl p 3)
    let p := chktblOffset (int32 (sequence + challenge))
    let chkb ← store chkb (length + 4) ((← tableByte chktbl p 3) ^^^ toByte sequence)
    let chkb ← store chkb (length + 5) ((← tableByte chktbl p 2) ^^^ toByte challenge)
    let chkb ← store chkb (length + 6) ((← tableByte chktbl p 1) ^^^ toByte (sequence / 2 ^ 8))
    let chkb ← store chkb (length + 7) ((← tableByte chktbl p 0) ^^^ toByte (challenge / 2 ^ 7))
    .ok (UInt8.ofBitVec ((blockChecksum (chkb.take (length + 8))).setWidth 8))

/-! ## The places in the table -/

/-- Four bytes of the table. -/
def InTable (p : Int) : Prop := 0 ≤ p ∧ p + 4 ≤ chktblSize

theorem inTable_of_nonneg {n : Int} (h : 0 ≤ n) : InTable (chktblOffset n) := by
  have quotient : n.tdiv 3 = n / 3 := Int.tdiv_eq_ediv_of_nonneg h
  have place : (n / 3).tmod 162 = n / 3 % 162 := Int.tmod_eq_emod_of_nonneg (by omega)
  have remainder : n.tmod 3 = n % 3 := Int.tmod_eq_emod_of_nonneg h
  have size : chktblSize = 1944 := rfl
  rw [InTable, chktblOffset, quotient, place, remainder, size]
  omega

/-- A negative number leads in front of the table, or to its beginning. -/
theorem chktblOffset_neg (n : Int) : chktblOffset (-n) = -chktblOffset n := by
  simp only [chktblOffset, Int.neg_tdiv, Int.neg_tmod]
  omega

theorem inTable_neg {n : Int} (h : 0 < n) :
    (n % 486 = 0 → InTable (chktblOffset (-n))) ∧ (n % 486 ≠ 0 → chktblOffset (-n) + 3 < 0) := by
  have quotient : n.tdiv 3 = n / 3 := Int.tdiv_eq_ediv_of_nonneg h.le
  have place : (n / 3).tmod 162 = n / 3 % 162 := Int.tmod_eq_emod_of_nonneg (by omega)
  have remainder : n.tmod 3 = n % 3 := Int.tmod_eq_emod_of_nonneg h.le
  have size : chktblSize = 1944 := rfl
  rw [InTable, chktblOffset_neg, chktblOffset, quotient, place, remainder, size]
  constructor
  · omega
  · omega

variable {chktbl : Chktbl} {p : Int} {chkb : List UInt8}

theorem exists_tableByte (h : InTable p) {k : Nat} (few : k < 4) :
    ∃ b, tableByte chktbl p k = .ok b := by
  have inside : 0 ≤ p + k ∧ p + k < chktblSize := by
    obtain ⟨first, last⟩ := h
    omega
  exact ⟨_, dif_pos inside⟩

theorem tableByte_outside (h : p + 3 < 0) : tableByte chktbl p 3 = .error .table := by
  refine dif_neg fun inside => ?_
  have := inside.1
  omega

theorem exists_store {i : Nat} (h : i < chkb.length) (b : UInt8) :
    ∃ chkb', store chkb i b = .ok chkb' ∧ chkb'.length = chkb.length :=
  ⟨_, if_pos h, List.length_set⟩

/-! ## The accesses of a call -/

variable (blockChecksum : List UInt8 → BitVec 32) (chkb₀ : Vector UInt8 chkbSize) (block : List UInt8)

/-- The second place decides, and the scratch buffer is long enough for every block. -/
theorem comBlockSequenceCheckByte_cases {sequence challenge : Int} (nonneg : 0 ≤ sequence) :
    (InTable (chktblOffset (int32 (sequence + challenge))) → ∃ r,
      comBlockSequenceCheckByte blockChecksum chktbl chkb₀ block sequence challenge = .ok r) ∧
    (chktblOffset (int32 (sequence + challenge)) + 3 < 0 →
      comBlockSequenceCheckByte blockChecksum chktbl chkb₀ block sequence challenge =
        .error .table) := by
  have first := inTable_of_nonneg nonneg
  have size : chkb₀.toList.length = 68 := Vector.length_toList
  have few : (block.take 60).length ≤ 60 := List.length_take_le 60 block
  have copied : copyBlock chkb₀.toList (block.take 60) =
      .ok (block.take 60 ++ chkb₀.toList.drop (block.take 60).length) := if_pos (by omega)
  have length : (block.take 60 ++ chkb₀.toList.drop (block.take 60).length).length = 68 := by
    rw [List.length_append, List.length_drop]
    omega
  obtain ⟨p₀, read₀⟩ := @exists_tableByte chktbl _ first 0 (by decide)
  obtain ⟨p₁, read₁⟩ := @exists_tableByte chktbl _ first 1 (by decide)
  obtain ⟨p₂, read₂⟩ := @exists_tableByte chktbl _ first 2 (by decide)
  obtain ⟨p₃, read₃⟩ := @exists_tableByte chktbl _ first 3 (by decide)
  obtain ⟨c₁, store₁, length₁⟩ := @exists_store
    (block.take 60 ++ chkb₀.toList.drop (block.take 60).length) (block.take 60).length (by omega)
    (p₀ ^^^ toByte sequence)
  obtain ⟨c₂, store₂, length₂⟩ := exists_store (by omega : (block.take 60).length + 1 < c₁.length) p₁
  obtain ⟨c₃, store₃, length₃⟩ := exists_store (by omega : (block.take 60).length + 2 < c₂.length)
    (p₂ ^^^ toByte (sequence / 2 ^ 8))
  obtain ⟨c₄, store₄, length₄⟩ := exists_store (by omega : (block.take 60).length + 3 < c₃.length) p₃
  simp only [comBlockSequenceCheckByte, if_neg (Int.not_lt.mpr nonneg), copied, read₀, read₁, read₂,
    read₃, store₁, store₂, store₃, store₄, bind, Except.bind]
  constructor
  · intro second
    obtain ⟨q₀, read₀⟩ := @exists_tableByte chktbl _ second 0 (by decide)
    obtain ⟨q₁, read₁⟩ := @exists_tableByte chktbl _ second 1 (by decide)
    obtain ⟨q₂, read₂⟩ := @exists_tableByte chktbl _ second 2 (by decide)
    obtain ⟨q₃, read₃⟩ := @exists_tableByte chktbl _ second 3 (by decide)
    obtain ⟨c₅, store₅, length₅⟩ := exists_store (by omega : (block.take 60).length + 4 < c₄.length)
      (q₃ ^^^ toByte sequence)
    obtain ⟨c₆, store₆, length₆⟩ := exists_store (by omega : (block.take 60).length + 5 < c₅.length)
      (q₂ ^^^ toByte challenge)
    obtain ⟨c₇, store₇, length₇⟩ := exists_store (by omega : (block.take 60).length + 6 < c₆.length)
      (q₁ ^^^ toByte (sequence / 2 ^ 8))
    obtain ⟨c₈, store₈, -⟩ := exists_store (by omega : (block.take 60).length + 7 < c₇.length)
      (q₀ ^^^ toByte (challenge / 2 ^ 7))
    simp only [read₀, read₁, read₂, read₃, store₅, store₆, store₇, store₈]
    exact ⟨_, rfl⟩
  · intro outside
    rw [tableByte_outside outside]

/-- Sums from 2^31 on wrap around to negative numbers. -/
theorem int32_sum {sequence challenge : Nat} (hsequence : sequence < 2 ^ 31)
    (hchallenge : challenge < 2 ^ 31) :
    int32 (sequence + challenge) = if sequence + challenge < 2 ^ 31 then (sequence + challenge : Int)
      else -(2 ^ 32 - (sequence + challenge)) := by
  rw [int32, Int.bmod_def]
  split <;> split <;> omega

/-- No byte outside the two arrays is read or written, exactly if the sum does not wrap around or
leads back to the beginning of the table. -/
theorem comBlockSequenceCheckByte_inside_iff (blockChecksum : List UInt8 → BitVec 32) (chktbl : Chktbl)
    (chkb : Vector UInt8 chkbSize) (block : List UInt8) {sequence challenge : Nat}
    (hsequence : sequence < 2 ^ 31) (hchallenge : challenge < 2 ^ 31) :
    (∃ r, comBlockSequenceCheckByte blockChecksum chktbl chkb block sequence challenge = .ok r) ↔
      sequence + challenge < 2 ^ 31 ∨ 486 ∣ 2 ^ 32 - (sequence + challenge) := by
  obtain ⟨inside, outside⟩ := @comBlockSequenceCheckByte_cases chktbl blockChecksum chkb block sequence
    challenge (Int.natCast_nonneg sequence)
  rw [int32_sum hsequence hchallenge] at inside outside
  by_cases small : sequence + challenge < 2 ^ 31
  · rw [if_pos small] at inside
    exact iff_of_true (inside (inTable_of_nonneg (by omega))) (.inl small)
  · rw [if_neg small] at inside outside
    have wrapped : (0 : Int) < 2 ^ 32 - (sequence + challenge) := by omega
    have divides : 486 ∣ 2 ^ 32 - (sequence + challenge) ↔
        ((2 : Int) ^ 32 - (sequence + challenge)) % 486 = 0 := by omega
    rw [or_iff_right small, divides]
    constructor
    · rintro ⟨r, run⟩
      by_contra out
      rw [outside ((inTable_neg wrapped).2 out)] at run
      cases run
    · exact fun back => inside ((inTable_neg wrapped).1 back)

private def zeroTable : Chktbl := Vector.replicate chktblSize 0
private def blankScratch : Vector UInt8 chkbSize := Vector.replicate chkbSize 0

theorem comBlockSequenceCheckByte_inside_iff_first :
    (∃ r, comBlockSequenceCheckByte (fun _ => 7) zeroTable blankScratch [2, 3] 1 5 = .ok r) ↔
      1 + 5 < 2 ^ 31 ∨ 486 ∣ 2 ^ 32 - (1 + 5) :=
  comBlockSequenceCheckByte_inside_iff _ zeroTable blankScratch [2, 3] (by decide) (by decide)

/-- The greatest challenge, and the first packet of a client. -/
theorem reads_before_table :
    comBlockSequenceCheckByte (fun _ => 7) zeroTable blankScratch [2, 3] 1 (2 ^ 31 - 1) =
      .error .table := by
  refine (comBlockSequenceCheckByte_cases _ _ _ (by decide)).2 ?_
  decide

end SequenceCheck
