import Mathlib.Data.List.Flatten
import Kpded2.InfoString

/-!
# Setting a key of an info string

`Info_SetValueForKey` removes one pair that has the key and appends a new one. The checks look at
the value as it is given, what is appended are its printable bytes without their high bits.
-/
namespace InfoLaws
open Bytes InfoString

/-! ## The values of a key -/

def valuesOf (key : List UInt8) (pairs : List Pair) : List (List UInt8) :=
  (pairs.filter fun p => p.1 = key).map Prod.snd

def withoutFirst (key : List UInt8) (pairs : List Pair) : List Pair :=
  pairs.eraseP fun p => p.1 = key

variable {s key value other : List UInt8} {pairs : List Pair} {p : Pair}

theorem valuesOf_cons_of_eq (h : p.1 = key) :
    valuesOf key (p :: pairs) = p.2 :: valuesOf key pairs := by
  simp only [valuesOf, List.filter_cons, h, decide_true, if_true, List.map_cons]

theorem valuesOf_cons_of_ne (h : p.1 ≠ key) : valuesOf key (p :: pairs) = valuesOf key pairs := by
  simp only [valuesOf, List.filter_cons, h, decide_false, Bool.false_eq_true, if_false]

theorem valuesOf_append (front back : List Pair) :
    valuesOf key (front ++ back) = valuesOf key front ++ valuesOf key back := by
  simp only [valuesOf, List.filter_append, List.map_append]

theorem valuesOf_withoutFirst (pairs : List Pair) :
    valuesOf key (withoutFirst key pairs) = (valuesOf key pairs).tail := by
  induction pairs with
  | nil => rfl
  | cons p pairs ih =>
    by_cases same : p.1 = key
    · rw [withoutFirst, List.eraseP_cons_of_pos (by simpa using same), valuesOf_cons_of_eq same]
      rfl
    · rw [withoutFirst, List.eraseP_cons_of_neg (by simpa using same), valuesOf_cons_of_ne same,
        valuesOf_cons_of_ne same]
      exact ih

theorem valuesOf_withoutFirst_of_ne (different : other ≠ key) (pairs : List Pair) :
    valuesOf other (withoutFirst key pairs) = valuesOf other pairs := by
  induction pairs with
  | nil => rfl
  | cons p pairs ih =>
    by_cases same : p.1 = key
    · rw [withoutFirst, List.eraseP_cons_of_pos (by simpa using same),
        valuesOf_cons_of_ne fun h => different (h.symm.trans same)]
    · rw [withoutFirst, List.eraseP_cons_of_neg (by simpa using same)]
      by_cases found : p.1 = other
      · rw [valuesOf_cons_of_eq found, valuesOf_cons_of_eq found]
        exact congrArg _ ih
      · rw [valuesOf_cons_of_ne found, valuesOf_cons_of_ne found]
        exact ih

theorem infoValueForKey_valuesOf (hpairs : ∀ p ∈ pairs, NoBackslash p) (key : List UInt8) :
    infoValueForKey (render pairs) key = (valuesOf key pairs).headD [] := by
  rw [infoValueForKey_render pairs hpairs, valuesOf, List.headD_eq_head?_getD, List.head?_map,
    List.head?_filter]

theorem infoKeyExists_valuesOf (hpairs : ∀ p ∈ pairs, NoBackslash p) (key : List UInt8) :
    infoKeyExists (render pairs) key = false ↔ valuesOf key pairs = [] := by
  rw [infoKeyExists_render pairs hpairs, valuesOf, List.map_eq_nil_iff, List.filter_eq_nil_iff,
    List.any_eq_false]

theorem render_append (front back : List Pair) :
    render (front ++ back) = render front ++ render back :=
  List.flatMap_append

theorem length_render_withoutFirst (key : List UInt8) (pairs : List Pair) :
    (render (withoutFirst key pairs)).length ≤ (render pairs).length :=
  (List.Sublist.flatMap List.eraseP_sublist _).length_le

/-- A value is read up to the next backslash. -/
theorem backslash_notMem_valueScan (key s : List UInt8) : backslash ∉ valueScan key s := by
  induction s using valueScan.induct key with
  | case1 s none =>
    rw [valueScan]
    split
    · exact List.not_mem_nil
    · rename_i some
      rw [none] at some
      cases some
  | case2 s v rest split =>
    rw [valueScan_of_split _ split, if_pos rfl]
    simp only [splitPair] at split
    split at split
    · cases split
    · cases split
      exact upToBackslash_no_backslash _
  | case3 s k v different split =>
    rw [valueScan_of_split _ split, if_neg different, if_pos rfl]
    exact List.not_mem_nil
  | case4 s k v rest split different more ih =>
    rw [valueScan_of_split _ split, if_neg different, if_neg more]
    exact ih

/-- What `SV_UserinfoValidate` accepts does not end with an empty value. -/
theorem endsWithValue_of_valid (hpairs : ∀ p ∈ pairs, NoBackslash p)
    (valid : svUserinfoValidate (render pairs) = true) : EndsWithValue pairs := by
  obtain ⟨pairs', same, short, ends⟩ := exists_pairs_of_svUserinfoValidate valid
  have read := congrArg infoPairs same
  rw [infoPairs_render pairs hpairs, infoPairs_render pairs' fun p hp => (short p hp).noBackslash]
    at read
  rw [read]
  exact ends

/-! ## `Info_SetValueForKey` -/

/-- None of the checks of `Info_SetValueForKey` fails. -/
structure Accepted (s key value : List UInt8) : Prop where
  noBackslash : backslash ∉ key ∧ backslash ∉ value
  noSemicolon : semicolon ∉ key ∧ semicolon ∉ value
  noQuote : quote ∉ key ∧ quote ∉ value
  shortKey : key.length ≤ maxInfoKey - 1
  shortValue : value.length ≤ maxInfoKey - 1
  room : value ≠ [] → (backslash :: key ++ backslash :: value).length +
    (infoRemoveKey s key).length ≤ maxInfoString - 1

theorem asciiValues_append (s t : List UInt8) :
    asciiValues (s ++ t) = asciiValues s ++ asciiValues t := by
  simp only [asciiValues, List.map_append, List.filter_append]

theorem length_asciiValues_le (s : List UInt8) : (asciiValues s).length ≤ s.length :=
  (List.length_filter_le _ _).trans_eq (List.length_map _)

/-- A printable key is appended as it is. -/
theorem asciiValues_newi (printable : infoCheckBytes key = true) (value : List UInt8) :
    asciiValues (backslash :: key ++ backslash :: value) =
      backslash :: key ++ backslash :: asciiValues value := by
  have slash (t : List UInt8) : asciiValues (backslash :: t) = backslash :: asciiValues t := rfl
  rw [asciiValues_append, slash, slash, asciiValues_of_printable printable]

theorem infoSetValueForKey_nil (accepted : Accepted s key []) :
    infoSetValueForKey s key [] = infoRemoveKey s key := by
  have short := accepted.shortKey
  simp only [infoSetValueForKey, accepted.noBackslash.1, accepted.noSemicolon.1, accepted.noQuote.1,
    List.not_mem_nil, or_self, if_false, List.length_nil, Nat.not_lt.mpr short,
    Nat.not_lt_zero, gt_iff_lt, if_true]

theorem infoSetValueForKey_append (accepted : Accepted s key value) (nonempty : value ≠ [])
    (printable : infoCheckBytes key = true) : infoSetValueForKey s key value =
      infoRemoveKey s key ++ (backslash :: key ++ backslash :: asciiValues value) := by
  have fits : (backslash :: key ++ backslash :: value).length < maxInfoString := by
    have := accepted.room nonempty
    simp only [maxInfoString] at this ⊢
    omega
  simp only [infoSetValueForKey, accepted.noBackslash, accepted.noSemicolon, accepted.noQuote,
    or_self, if_false, gt_iff_lt, Nat.not_lt.mpr accepted.shortKey,
    Nat.not_lt.mpr accepted.shortValue, nonempty, comSprintf_of_fits fits,
    Nat.not_lt.mpr (accepted.room nonempty), asciiValues_newi printable]

/-- What setting a key is for. -/
structure Law (s key value : List UInt8) : Prop where
  found : infoValueForKey (infoSetValueForKey s key value) key = asciiValues value
  others : ∀ other ≠ key,
    infoValueForKey (infoSetValueForKey s key value) other = infoValueForKey s other
  valid : svUserinfoValidate (infoSetValueForKey s key value) = true
  short : (infoSetValueForKey s key value).length < maxInfoString
  gone : value = [] → infoKeyExists (infoSetValueForKey s key value) key = false

/-- The pair that is removed is the only one with the key, and the string does not end with an
empty value without it. -/
def Removable (pairs : List Pair) (key : List UInt8) : Prop :=
  (valuesOf key pairs).tail = [] ∧ EndsWithValue (withoutFirst key pairs)

/-- What is appended is not empty, has no backslash, and is found before another value. -/
def Settable (pairs : List Pair) (key value : List UInt8) : Prop :=
  asciiValues value ≠ [] ∧ backslash ∉ asciiValues value ∧
    ∀ second ∈ (valuesOf key pairs).tail.head?, second = asciiValues value

/-- The law for the empty value, which only removes. -/
theorem law_nil_iff (hpairs : ∀ p ∈ pairs, ShortPair p) (short : (render pairs).length < maxInfoString)
    (accepted : Accepted (render pairs) key []) :
    Law (render pairs) key [] ↔ Removable pairs key := by
  have noBackslash : ∀ p ∈ pairs, NoBackslash p := fun p hp => (hpairs p hp).noBackslash
  have left : ∀ p ∈ withoutFirst key pairs, ShortPair p :=
    fun p hp => hpairs p (List.mem_of_mem_eraseP hp)
  have left' : ∀ p ∈ withoutFirst key pairs, NoBackslash p := fun p hp => (left p hp).noBackslash
  have result : infoSetValueForKey (render pairs) key [] = render (withoutFirst key pairs) := by
    rw [infoSetValueForKey_nil accepted, infoRemoveKey_render pairs noBackslash
      accepted.noBackslash.1]
    rfl
  constructor
  · intro law
    have gone := law.gone rfl
    have valid := law.valid
    rw [result] at gone valid
    rw [infoKeyExists_valuesOf left', valuesOf_withoutFirst] at gone
    exact ⟨gone, endsWithValue_of_valid left' valid⟩
  · rintro ⟨once, ends⟩
    constructor
    · rw [result, infoValueForKey_valuesOf left', valuesOf_withoutFirst, once]
      rfl
    · intro other different
      rw [result, infoValueForKey_valuesOf left', infoValueForKey_valuesOf noBackslash,
        valuesOf_withoutFirst_of_ne different]
    · rw [result]
      exact svUserinfoValidate_render _ left ends
    · rw [result]
      exact (length_render_withoutFirst key pairs).trans_lt short
    · intro _
      rw [result, infoKeyExists_valuesOf left', valuesOf_withoutFirst]
      exact once

/-- The law for a value that is not empty. -/
theorem law_append_iff (hpairs : ∀ p ∈ pairs, ShortPair p) (printable : infoCheckBytes key = true)
    (accepted : Accepted (render pairs) key value) (nonempty : value ≠ []) :
    Law (render pairs) key value ↔ Settable pairs key value := by
  have noBackslash : ∀ p ∈ pairs, NoBackslash p := fun p hp => (hpairs p hp).noBackslash
  have removed : infoRemoveKey (render pairs) key = render (withoutFirst key pairs) :=
    infoRemoveKey_render pairs noBackslash accepted.noBackslash.1
  have appended := infoSetValueForKey_append accepted nonempty printable
  have length_lt : (infoSetValueForKey (render pairs) key value).length < maxInfoString := by
    have room := accepted.room nonempty
    have := length_asciiValues_le value
    rw [appended]
    simp only [List.length_append, List.length_cons, maxInfoString] at room ⊢
    omega
  by_cases separates : backslash ∈ asciiValues value
  · refine iff_of_false (fun law => ?_) fun settable => settable.2.1 separates
    rw [← law.found] at separates
    exact backslash_notMem_valueScan _ _ separates
  let pairs' := withoutFirst key pairs ++ [(key, asciiValues value)]
  have result : infoSetValueForKey (render pairs) key value = render pairs' := by
    rw [appended, removed, render_append]
    simp only [render, List.flatMap_singleton, renderPair]
  have short : ∀ p ∈ pairs', ShortPair p := by
    intro p hp
    rcases List.mem_append.mp hp with hp | hp
    · exact hpairs p (List.mem_of_mem_eraseP hp)
    · obtain rfl := List.mem_singleton.mp hp
      have shortKey := accepted.shortKey
      have shortValue := (length_asciiValues_le value).trans accepted.shortValue
      simp only [maxInfoKey] at shortKey shortValue
      exact ⟨⟨accepted.noBackslash.1, separates⟩, by simp only [maxInfoKey]; omega,
        by simp only [maxInfoValue]; omega⟩
  have short' : ∀ p ∈ pairs', NoBackslash p := fun p hp => (short p hp).noBackslash
  have values : valuesOf key pairs' = (valuesOf key pairs).tail ++ [asciiValues value] := by
    rw [valuesOf_append, valuesOf_withoutFirst]
    exact congrArg _ (@valuesOf_cons_of_eq key [] (key, asciiValues value) rfl)
  have ends_iff : EndsWithValue pairs' ↔ asciiValues value ≠ [] := by
    rw [EndsWithValue, List.getLast?_concat]
    simp
  constructor
  · intro law
    have found := law.found
    have valid := law.valid
    rw [result] at found valid
    rw [infoValueForKey_valuesOf short', values] at found
    refine ⟨ends_iff.mp (endsWithValue_of_valid short' valid), separates, ?_⟩
    intro second hsecond
    obtain ⟨rest, more⟩ := List.head?_eq_some_iff.mp hsecond
    rw [more] at found
    exact found
  · rintro ⟨kept, -, second⟩
    constructor
    · rw [result, infoValueForKey_valuesOf short', values]
      cases more : (valuesOf key pairs).tail with
      | nil => rfl
      | cons v rest => exact second v (by rw [more]; rfl)
    · intro other different
      rw [result, infoValueForKey_valuesOf short', infoValueForKey_valuesOf noBackslash,
        valuesOf_append, valuesOf_withoutFirst_of_ne different,
        valuesOf_cons_of_ne fun h => different h.symm]
      exact congrArg (List.headD · []) (List.append_nil _)
    · rw [result]
      exact svUserinfoValidate_render _ short (ends_iff.mpr kept)
    · exact length_lt
    · exact fun empty => absurd empty nonempty

/-- When a set keeps the law, for every string that `SV_UserinfoValidate` accepts. -/
theorem law_iff (valid : svUserinfoValidate s = true) (short : s.length < maxInfoString)
    (printable : infoCheckBytes key = true) (accepted : Accepted s key value) :
    Law s key value ↔ (value = [] → Removable (infoPairs s) key) ∧
      (value ≠ [] → Settable (infoPairs s) key value) := by
  obtain ⟨pairs, rfl, hpairs, -⟩ := exists_pairs_of_svUserinfoValidate valid
  rw [infoPairs_render pairs fun p hp => (hpairs p hp).noBackslash]
  by_cases empty : value = []
  · subst empty
    rw [law_nil_iff hpairs short accepted]
    exact ⟨fun h => ⟨fun _ => h, fun none => absurd rfl none⟩, fun h => h.1 rfl⟩
  · rw [law_append_iff hpairs printable accepted empty]
    exact ⟨fun h => ⟨fun none => absurd none empty, fun _ => h⟩, fun h => h.2 empty⟩

private def repeated : List UInt8 := ascii "\\fov\\60\\fov\\50"

theorem law_iff_name : Law (ascii "\\fov\\60") (ascii "name") (ascii "rob") ↔
    (ascii "rob" = [] → Removable (infoPairs (ascii "\\fov\\60")) (ascii "name")) ∧
      (ascii "rob" ≠ [] →
        Settable (infoPairs (ascii "\\fov\\60")) (ascii "name") (ascii "rob")) :=
  law_iff (by decide +kernel) (by decide) (by decide)
    ⟨by decide, by decide, by decide, by decide, by decide, fun _ => by decide +kernel⟩

/-- The second of two values is left, as where `SV_UpdateUserinfo` sets a field of view. -/
theorem second_value_left : ¬∀ s key value : List UInt8, svUserinfoValidate s = true →
    s.length < maxInfoString → key ≠ [] → infoCheckBytes key = true → Accepted s key value →
    Law s key value := by
  intro h
  have law := h repeated (ascii "fov") (ascii "90") (by decide +kernel) (by decide) (by decide)
    (by decide) ⟨by decide, by decide, by decide, by decide, by decide, fun _ => by decide +kernel⟩
  exact absurd law.found (by decide +kernel)

end InfoLaws
