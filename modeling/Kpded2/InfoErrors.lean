import Kpded2.InfoString

/-!
# The errors of `Info_SetValueForKey`

Four of its reports are made before the string is touched, the last one after the old pair has
been removed.
-/
namespace InfoErrors
open Bytes InfoString

/-- What `Info_SetValueForKey` reports. -/
inductive Report where
  | backslash
  | semicolon
  | quote
  | tooLong
  | exceeded
  deriving DecidableEq

/-- The report of a call, made on the way of `infoSetValueForKey`. -/
def infoSetReport (s key value : List UInt8) : Option Report :=
  if backslash ∈ key ∨ backslash ∈ value then some .backslash
  else if semicolon ∈ key ∨ semicolon ∈ value then some .semicolon
  else if quote ∈ key ∨ quote ∈ value then some .quote
  else if key.length > maxInfoKey - 1 ∨ value.length > maxInfoKey - 1 then some .tooLong
  else
    let s := infoRemoveKey s key
    if value = [] then none
    else
      let newi := comSprintf maxInfoString (backslash :: key ++ backslash :: value)
      if newi.length + s.length > maxInfoString - 1 then some .exceeded else none

variable {s key value : List UInt8}

/-! ## Removing a key -/

/-- The rest behind a pair is the end of the string, and starts with a backslash. -/
theorem splitPair_rest {rest : List UInt8} {pair : Pair} (h : splitPair s = some (pair, rest)) :
    rest <:+ s ∧ (rest = [] ∨ rest.head? = some backslash) := by
  simp only [splitPair] at h
  split at h
  · cases h
  rename_i c tail hdrop
  obtain ⟨-, rfl⟩ := Prod.mk.inj (Option.some.inj h)
  constructor
  · have inner : tail <:+ s := (List.suffix_cons c tail).trans (hdrop ▸ List.drop_suffix _ s)
    exact (List.drop_suffix _ tail).trans inner
  · cases hrest : tail.drop (upToBackslash tail).length with
    | nil => exact Or.inl rfl
    | cons d rest => exact Or.inr (congrArg some (eq_backslash_of_drop hrest))

theorem skipBackslash_suffix (s : List UInt8) : skipBackslash s <:+ s := by
  unfold skipBackslash
  split
  · exact List.tail_suffix s
  · exact List.suffix_refl s

theorem take_append_of_suffix {rest : List UInt8} (h : rest <:+ s) :
    s.take (s.length - rest.length) ++ rest = s := by
  obtain ⟨front, rfl⟩ := h
  simp

theorem removeScan_of_none (key : List UInt8) (h : splitPair (skipBackslash s) = none) :
    removeScan key s = s := by
  rw [removeScan]
  split
  · rfl
  · rename_i some
    rw [h] at some
    cases some

theorem keyScan_of_none (key : List UInt8) (h : splitPair s = none) : keyScan key s = false := by
  rw [keyScan]
  split
  · rfl
  · rename_i some
    rw [h] at some
    cases some

/-- A removal leaves the string alone if and only if the key is not found in it. -/
theorem removeScan_eq_self_iff (key s : List UInt8) :
    removeScan key s = s ↔ keyScan key (skipBackslash s) = false := by
  induction s using removeScan.induct key with
  | case1 s none =>
    exact iff_of_true (removeScan_of_none key none) (keyScan_of_none key none)
  | case2 s v rest split =>
    have shorter := splitPair_length split
    have := length_skipBackslash s
    rw [removeScan_of_split key split, keyScan_of_split key split, if_pos rfl, if_pos rfl]
    refine iff_of_false (fun same => ?_) (by decide)
    rw [same] at shorter
    omega
  | case3 s k v different split =>
    rw [removeScan_of_split key split, keyScan_of_split key split, if_neg different,
      if_neg different, if_pos rfl, if_pos rfl]
    exact iff_of_true rfl rfl
  | case4 s k v rest split different more ih =>
    obtain ⟨inside, slash⟩ := splitPair_rest split
    have whole := take_append_of_suffix (inside.trans (skipBackslash_suffix s))
    have next : skipBackslash rest = rest.tail := by
      rw [skipBackslash, if_pos (slash.resolve_left more)]
    rw [removeScan_of_split key split, keyScan_of_split key split, if_neg different,
      if_neg different, if_neg more, if_neg more, ← next, ← ih]
    constructor
    · intro same
      exact List.append_cancel_left (same.trans whole.symm)
    · intro same
      rw [same, whole]

theorem infoRemoveKey_eq_self_iff (legal : backslash ∉ key) :
    infoRemoveKey s key = s ↔ infoKeyExists s key = false := by
  rw [infoRemoveKey, if_neg legal]
  exact removeScan_eq_self_iff key s

/-! ## Reports and the string -/

/-- The checks in front of the removal pass. -/
structure Legal (key value : List UInt8) : Prop where
  noBackslash : backslash ∉ key ∧ backslash ∉ value
  noSemicolon : semicolon ∉ key ∧ semicolon ∉ value
  noQuote : quote ∉ key ∧ quote ∉ value
  short : key.length ≤ maxInfoKey - 1 ∧ value.length ≤ maxInfoKey - 1

/-- The new pair has room beside what is left without the old one. -/
def Room (s key value : List UInt8) : Prop :=
  2 + key.length + value.length + (infoRemoveKey s key).length ≤ maxInfoString - 1

/-- A report that is made before the removal leaves the string alone. -/
theorem unchanged_of_illegal (illegal : ¬Legal key value) : infoSetValueForKey s key value = s := by
  unfold infoSetValueForKey
  split
  · rfl
  rename_i noBackslash
  split
  · rfl
  rename_i noSemicolon
  split
  · rfl
  rename_i noQuote
  split
  · rfl
  rename_i short
  exact absurd ⟨not_or.mp noBackslash, not_or.mp noSemicolon, not_or.mp noQuote, by omega⟩ illegal

/-- Setting to nothing only removes. -/
theorem infoSetReport_nil (legal : Legal key []) : infoSetReport s key [] = none := by
  have short : ¬key.length > maxInfoKey - 1 := Nat.not_lt.mpr legal.short.1
  simp only [infoSetReport, legal.noBackslash.1, legal.noSemicolon.1, legal.noQuote.1, short,
    List.not_mem_nil, List.length_nil, gt_iff_lt, Nat.not_lt_zero, or_self, if_false, if_true]

/-- Past the first checks, only the length is left to be reported. -/
theorem infoSet_of_legal (legal : Legal key value) (nonempty : value ≠ []) :
    (Room s key value → infoSetReport s key value = none) ∧
      (¬Room s key value → infoSetReport s key value = some .exceeded ∧
        infoSetValueForKey s key value = infoRemoveKey s key) := by
  have short := legal.short
  have size : (comSprintf maxInfoString (backslash :: key ++ backslash :: value)).length =
      2 + key.length + value.length := by
    have fits : (backslash :: key ++ backslash :: value).length < maxInfoString := by
      simp only [List.length_append, List.length_cons, maxInfoKey, maxInfoString] at short ⊢
      omega
    rw [comSprintf_of_fits fits]
    simp only [List.length_append, List.length_cons]
    omega
  have checks : ¬(key.length > maxInfoKey - 1 ∨ value.length > maxInfoKey - 1) := by omega
  simp only [infoSetReport, infoSetValueForKey, legal.noBackslash, legal.noSemicolon,
    legal.noQuote, or_self, if_false, checks, nonempty, size, Room]
  constructor
  · intro room
    rw [if_neg (Nat.not_lt.mpr room)]
  · intro full
    rw [if_pos (Nat.lt_of_not_le full), if_pos (Nat.lt_of_not_le full)]
    exact ⟨rfl, rfl⟩

/-- A report leaves the string as it was if and only if, past the first checks, a key that is
already there is only set to a value that fits. -/
theorem reported_unchanged_iff (s key value : List UInt8) :
    (infoSetReport s key value ≠ none → infoSetValueForKey s key value = s) ↔
      (Legal key value → value ≠ [] → infoKeyExists s key = true → Room s key value) := by
  constructor
  · intro unchanged legal nonempty found
    by_contra full
    obtain ⟨reported, removed⟩ := (infoSet_of_legal legal nonempty).2 full
    have same := unchanged (by rw [reported]; decide)
    rw [removed, infoRemoveKey_eq_self_iff legal.noBackslash.1, found] at same
    cases same
  · intro fits reported
    by_cases legal : Legal key value
    swap
    · exact unchanged_of_illegal legal
    by_cases nonempty : value ≠ []
    swap
    · obtain rfl := not_not.mp nonempty
      exact absurd (infoSetReport_nil legal) reported
    by_cases room : Room s key value
    · exact absurd ((infoSet_of_legal legal nonempty).1 room) reported
    · rw [((infoSet_of_legal legal nonempty).2 room).2,
        infoRemoveKey_eq_self_iff legal.noBackslash.1, Bool.eq_false_iff]
      exact fun found => room (fits legal nonempty found)

/-! ## A set that fails -/

private def fullPairs : List Pair :=
  (ascii "fov", ascii "60") :: List.replicate 8 (ascii "a", List.replicate 59 120)

/-- A value that is too long for a full string; the key is gone afterwards. -/
theorem exceeded_removes : ¬∀ s key value : List UInt8, s.length < maxInfoString →
    infoSetReport s key value ≠ none → infoSetValueForKey s key value = s := by
  intro claim
  have pairs : ∀ p ∈ fullPairs, NoBackslash p := by
    unfold NoBackslash
    decide
  have left : infoRemoveKey (render fullPairs) (ascii "fov") =
      render (List.replicate 8 (ascii "a", List.replicate 59 120)) := by
    rw [infoRemoveKey_render fullPairs pairs (by decide)]
    rfl
  have legal : Legal (ascii "fov") (ascii "100.000000000") :=
    ⟨by decide, by decide, by decide, by decide⟩
  have full : ¬Room (render fullPairs) (ascii "fov") (ascii "100.000000000") := by
    rw [Room, left]
    decide +kernel
  obtain ⟨reported, removed⟩ := (infoSet_of_legal legal (by decide)).2 full
  have short : (render fullPairs).length < maxInfoString := by decide +kernel
  have same := congrArg List.length (claim _ _ _ short (by rw [reported]; decide))
  rw [removed, left] at same
  exact absurd same (by decide +kernel)

end InfoErrors
