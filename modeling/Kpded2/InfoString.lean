import Mathlib.Data.List.Basic
import Mathlib.Data.List.TakeWhile
import Mathlib.Data.UInt
import Kpded2.Bytes

/-!
# Info strings

An info string is a sequence of `\key\value` pairs. The functions below scan it as
the source does; `render` builds it from the pairs, and each function is a plain
operation on the pairs of a rendered string. The buffers for a key and a value,
512 bytes as an info string itself, are not modelled.
-/
namespace InfoString

open Bytes

def maxInfoKey : Nat := 64
def maxInfoValue : Nat := 64
def maxInfoString : Nat := 512

abbrev Pair := List UInt8 × List UInt8

def upToBackslash (s : List UInt8) : List UInt8 := s.takeWhile (· ≠ backslash)

/-- The key and the value at a position behind a backslash, and what follows them: the
end of the string or the next backslash. -/
def splitPair (s : List UInt8) : Option (Pair × List UInt8) :=
  match s.drop (upToBackslash s).length with
  | [] => none
  | _ :: rest => some ((upToBackslash s, upToBackslash rest), rest.drop (upToBackslash rest).length)

theorem splitPair_length {s rest : List UInt8} {pair : Pair} (h : splitPair s = some (pair, rest)) :
    rest.length < s.length := by
  simp only [splitPair] at h
  split at h
  · cases h
  rename_i c tail hdrop
  obtain ⟨-, rfl⟩ := Prod.mk.inj (Option.some.inj h)
  have hlength := congrArg List.length hdrop
  simp only [List.length_drop, List.length_cons] at hlength ⊢
  omega

/-- `if (*s == '\\') s++`. -/
def skipBackslash (s : List UInt8) : List UInt8 := if s.head? = some backslash then s.tail else s

theorem length_skipBackslash (s : List UInt8) : (skipBackslash s).length ≤ s.length := by
  simp only [skipBackslash]
  split
  · simp
  · exact Nat.le_refl _

def valueScan (key s : List UInt8) : List UInt8 :=
  match _h : splitPair s with
  | none => []
  | some ((k, v), rest) => if k = key then v else if rest = [] then [] else valueScan key rest.tail
termination_by s.length
decreasing_by
  have hlt := splitPair_length _h
  simp only [List.length_tail]
  omega

def infoValueForKey (s key : List UInt8) : List UInt8 := valueScan key (skipBackslash s)

def keyScan (key s : List UInt8) : Bool :=
  match _h : splitPair s with
  | none => false
  | some ((k, _), rest) => if k = key then true else if rest = [] then false else keyScan key rest.tail
termination_by s.length
decreasing_by
  have hlt := splitPair_length _h
  simp only [List.length_tail]
  omega

def infoKeyExists (s key : List UInt8) : Bool := keyScan key (skipBackslash s)

/-- The string without the first pair that has the key. -/
def removeScan (key s : List UInt8) : List UInt8 :=
  match _h : splitPair (skipBackslash s) with
  | none => s
  | some ((k, _), rest) =>
    if k = key then rest
    else if rest = [] then s
    else s.take (s.length - rest.length) ++ removeScan key rest
termination_by s.length
decreasing_by
  have hlt := splitPair_length _h
  have hle := length_skipBackslash s
  omega

def infoRemoveKey (s key : List UInt8) : List UInt8 :=
  if backslash ∈ key then s else removeScan key s

def infoValidate (s : List UInt8) : Bool := !(s.contains quote || s.contains semicolon)

def printable (c : UInt8) : Bool := 32 ≤ c && c < 127

def infoCheckBytes (s : List UInt8) : Bool := s.all printable

/-- "only copy ascii values". -/
def asciiValues (s : List UInt8) : List UInt8 := (s.map fun c => c &&& 127).filter printable

def infoSetValueForKey (s key value : List UInt8) : List UInt8 :=
  if backslash ∈ key ∨ backslash ∈ value then s
  else if semicolon ∈ key ∨ semicolon ∈ value then s
  else if quote ∈ key ∨ quote ∈ value then s
  else if key.length > maxInfoKey - 1 ∨ value.length > maxInfoKey - 1 then s
  else
    let s := infoRemoveKey s key
    if value = [] then s
    else
      let newi := comSprintf maxInfoString (backslash :: key ++ backslash :: value)
      if newi.length + s.length > maxInfoString - 1 then s else s ++ asciiValues newi

/-- `SV_UserinfoValidate` in sv_main.c. -/
def svUserinfoValidate (s : List UInt8) : Bool :=
  match s with
  | [] => true
  | c :: s =>
    if c ≠ backslash then false
    else match _h : s.drop (upToBackslash s).length with
      | [] => false
      | _ :: p =>
        if (upToBackslash s).length ≥ maxInfoKey then false
        else if p = [] then false
        else if (upToBackslash p).length ≥ maxInfoValue then false
        else svUserinfoValidate (p.drop (upToBackslash p).length)
termination_by s.length
decreasing_by
  have hlength := congrArg List.length _h
  simp only [List.length_drop, List.length_cons] at hlength ⊢
  omega

theorem infoValidate_iff (s : List UInt8) :
    infoValidate s = true ↔ quote ∉ s ∧ semicolon ∉ s := by
  simp [infoValidate]

theorem and_127_of_lt {c : UInt8} (h : c < 128) : c &&& 127 = c := by
  refine UInt8.toNat_inj.mp ?_
  rw [UInt8.toNat_and, show (127 : UInt8).toNat = 2 ^ 7 - 1 from rfl,
    Nat.and_two_pow_sub_one_eq_mod]
  exact Nat.mod_eq_of_lt (UInt8.lt_iff_toNat_lt.mp h)

theorem printable_lt {c : UInt8} (h : printable c = true) : c < 128 := by
  have hbounds : 32 ≤ c ∧ c < 127 := by simpa [printable] using h
  exact UInt8.lt_trans hbounds.2 (by decide)

theorem asciiValues_of_printable {s : List UInt8} (h : infoCheckBytes s = true) :
    asciiValues s = s := by
  have hbytes := List.all_eq_true.mp h
  have hmap : s.map (fun c => c &&& 127) = s := by
    conv_rhs => rw [← List.map_id s]
    exact List.map_congr_left fun c hc => and_127_of_lt (printable_lt (hbytes c hc))
  rw [asciiValues, hmap]
  exact List.filter_eq_self.mpr hbytes

/-! ## Strings made of pairs -/

def renderPair (p : Pair) : List UInt8 := backslash :: p.1 ++ backslash :: p.2

def render (pairs : List Pair) : List UInt8 := pairs.flatMap renderPair

/-- Keys and values contain no backslash. -/
def NoBackslash (p : Pair) : Prop := backslash ∉ p.1 ∧ backslash ∉ p.2

theorem render_cons (p : Pair) (pairs : List Pair) :
    render (p :: pairs) = backslash :: (p.1 ++ backslash :: (p.2 ++ render pairs)) := by
  simp only [render, List.flatMap_cons, renderPair, List.cons_append, List.append_assoc]

theorem render_eq_nil_or (pairs : List Pair) :
    render pairs = [] ∨ ∃ rest, render pairs = backslash :: rest := by
  cases pairs with
  | nil => exact Or.inl rfl
  | cons p pairs => exact Or.inr ⟨_, render_cons p pairs⟩

theorem upToBackslash_append {k : List UInt8} (hk : backslash ∉ k) {rest : List UInt8}
    (hrest : rest = [] ∨ ∃ tail, rest = backslash :: tail) : upToBackslash (k ++ rest) = k := by
  have hall : ∀ c ∈ k, decide (c ≠ backslash) = true := by
    intro c hc
    have hne : c ≠ backslash := fun heq => hk (heq ▸ hc)
    simpa using hne
  simp only [upToBackslash, List.takeWhile_append_of_pos hall]
  rcases hrest with rfl | ⟨tail, rfl⟩
  · simp
  · simp

theorem splitPair_render (p : Pair) (hp : NoBackslash p) (pairs : List Pair) :
    splitPair (p.1 ++ backslash :: (p.2 ++ render pairs)) = some (p, render pairs) := by
  have hkey : upToBackslash (p.1 ++ backslash :: (p.2 ++ render pairs)) = p.1 :=
    upToBackslash_append hp.1 (Or.inr ⟨_, rfl⟩)
  have hvalue := upToBackslash_append hp.2 (render_eq_nil_or pairs)
  simp only [splitPair, hkey, List.drop_left, hvalue]

theorem skipBackslash_render_cons (p : Pair) (pairs : List Pair) :
    skipBackslash (render (p :: pairs)) = p.1 ++ backslash :: (p.2 ++ render pairs) := by
  rw [render_cons]
  rfl

theorem render_ne_nil (p : Pair) (pairs : List Pair) : render (p :: pairs) ≠ [] := by
  rw [render_cons]
  exact List.cons_ne_nil _ _

theorem tail_render_cons (p : Pair) (pairs : List Pair) :
    (render (p :: pairs)).tail = p.1 ++ backslash :: (p.2 ++ render pairs) := by
  rw [render_cons]
  rfl

theorem valueScan_of_split (key : List UInt8) {s rest : List UInt8} {p : Pair}
    (h : splitPair s = some (p, rest)) :
    valueScan key s = if p.1 = key then p.2 else if rest = [] then [] else valueScan key rest.tail := by
  rw [valueScan]
  split
  · rename_i hnone
    rw [h] at hnone
    cases hnone
  · rename_i hsome
    rw [h] at hsome
    cases hsome
    rfl

theorem valueScan_render (key : List UInt8) (p : Pair) (pairs : List Pair)
    (hpairs : ∀ q ∈ p :: pairs, NoBackslash q) :
    valueScan key (p.1 ++ backslash :: (p.2 ++ render pairs)) =
      (((p :: pairs).find? fun q => q.1 = key).map Prod.snd).getD [] := by
  induction pairs generalizing p with
  | nil =>
    have hsplit := splitPair_render p (hpairs p List.mem_cons_self) []
    rw [valueScan_of_split key hsplit]
    by_cases hkey : p.1 = key
    · simp [hkey]
    · simp [hkey, render]
  | cons q pairs ih =>
    have hsplit := splitPair_render p (hpairs p List.mem_cons_self) (q :: pairs)
    rw [valueScan_of_split key hsplit]
    by_cases hkey : p.1 = key
    · simp [hkey]
    · have hfind : (p :: q :: pairs).find? (fun r => r.1 = key) =
          (q :: pairs).find? fun r => r.1 = key := List.find?_cons_of_neg (by simpa using hkey)
      rw [if_neg hkey, if_neg (render_ne_nil q pairs), tail_render_cons, hfind]
      exact ih q fun r hr => hpairs r (List.mem_cons_of_mem p hr)

/-- The first value of the key. -/
theorem infoValueForKey_render (pairs : List Pair) (hpairs : ∀ p ∈ pairs, NoBackslash p)
    (key : List UInt8) :
    infoValueForKey (render pairs) key =
      ((pairs.find? fun p => p.1 = key).map Prod.snd).getD [] := by
  cases pairs with
  | nil =>
    simp only [infoValueForKey]
    rw [valueScan]
    rfl
  | cons p pairs =>
    rw [infoValueForKey, skipBackslash_render_cons]
    exact valueScan_render key p pairs hpairs

theorem keyScan_of_split (key : List UInt8) {s rest : List UInt8} {p : Pair}
    (h : splitPair s = some (p, rest)) :
    keyScan key s = if p.1 = key then true else if rest = [] then false else keyScan key rest.tail := by
  rw [keyScan]
  split
  · rename_i hnone
    rw [h] at hnone
    cases hnone
  · rename_i hsome
    rw [h] at hsome
    cases hsome
    rfl

theorem keyScan_render (key : List UInt8) (p : Pair) (pairs : List Pair)
    (hpairs : ∀ q ∈ p :: pairs, NoBackslash q) :
    keyScan key (p.1 ++ backslash :: (p.2 ++ render pairs)) =
      (p :: pairs).any fun q => q.1 = key := by
  induction pairs generalizing p with
  | nil =>
    have hsplit := splitPair_render p (hpairs p List.mem_cons_self) []
    rw [keyScan_of_split key hsplit]
    by_cases hkey : p.1 = key
    · simp [hkey]
    · simp [hkey, render]
  | cons q pairs ih =>
    have hsplit := splitPair_render p (hpairs p List.mem_cons_self) (q :: pairs)
    rw [keyScan_of_split key hsplit]
    by_cases hkey : p.1 = key
    · simp [hkey]
    · rw [if_neg hkey, if_neg (render_ne_nil q pairs), tail_render_cons,
        ih q (fun r hr => hpairs r (List.mem_cons_of_mem p hr)), List.any_cons]
      simp [hkey]

theorem infoKeyExists_render (pairs : List Pair) (hpairs : ∀ p ∈ pairs, NoBackslash p)
    (key : List UInt8) : infoKeyExists (render pairs) key = pairs.any fun p => p.1 = key := by
  cases pairs with
  | nil =>
    simp only [infoKeyExists]
    rw [keyScan]
    rfl
  | cons p pairs =>
    rw [infoKeyExists, skipBackslash_render_cons]
    exact keyScan_render key p pairs hpairs

theorem take_render_cons (p : Pair) (pairs : List Pair) :
    (render (p :: pairs)).take ((render (p :: pairs)).length - (render pairs).length) =
      renderPair p := by
  have hsplit : render (p :: pairs) = renderPair p ++ render pairs := by
    simp only [render, List.flatMap_cons]
  rw [hsplit, List.length_append, Nat.add_sub_cancel]
  exact List.take_left

theorem removeScan_of_split (key : List UInt8) {s rest : List UInt8} {p : Pair}
    (h : splitPair (skipBackslash s) = some (p, rest)) :
    removeScan key s = if p.1 = key then rest else if rest = [] then s
      else s.take (s.length - rest.length) ++ removeScan key rest := by
  rw [removeScan]
  split
  · rename_i hnone
    rw [h] at hnone
    cases hnone
  · rename_i hsome
    rw [h] at hsome
    cases hsome
    rfl

theorem removeScan_render (key : List UInt8) (pairs : List Pair)
    (hpairs : ∀ p ∈ pairs, NoBackslash p) :
    removeScan key (render pairs) = render (pairs.eraseP fun p => p.1 = key) := by
  induction pairs with
  | nil =>
    rw [removeScan]
    rfl
  | cons p pairs ih =>
    have hsplit : splitPair (skipBackslash (render (p :: pairs))) = some (p, render pairs) := by
      rw [skipBackslash_render_cons]
      exact splitPair_render p (hpairs p List.mem_cons_self) pairs
    rw [removeScan_of_split key hsplit]
    by_cases hkey : p.1 = key
    · rw [if_pos hkey, List.eraseP_cons_of_pos (by simpa using hkey)]
    · have ih := ih fun q hq => hpairs q (List.mem_cons_of_mem p hq)
      rw [if_neg hkey, List.eraseP_cons_of_neg (by simpa using hkey)]
      by_cases hlast : render pairs = []
      · rw [if_pos hlast]
        cases pairs with
        | nil => rfl
        | cons q pairs => exact absurd hlast (render_ne_nil q pairs)
      · rw [if_neg hlast, take_render_cons, ih]
        simp only [render, List.flatMap_cons]

/-- Without the first pair that has the key. -/
theorem infoRemoveKey_render (pairs : List Pair) (hpairs : ∀ p ∈ pairs, NoBackslash p)
    {key : List UInt8} (hkey : backslash ∉ key) :
    infoRemoveKey (render pairs) key = render (pairs.eraseP fun p => p.1 = key) := by
  rw [infoRemoveKey, if_neg hkey]
  exact removeScan_render key pairs hpairs

structure ShortPair (p : Pair) : Prop where
  noBackslash : NoBackslash p
  shortKey : p.1.length < maxInfoKey
  shortValue : p.2.length < maxInfoValue

/-- The string does not end with an empty value. -/
def EndsWithValue (pairs : List Pair) : Prop := ∀ p ∈ pairs.getLast?, p.2 ≠ []

theorem svUserinfoValidate_of_split {s p : List UInt8} {c : UInt8}
    (h : s.drop (upToBackslash s).length = c :: p) :
    svUserinfoValidate (backslash :: s) =
      if (upToBackslash s).length ≥ maxInfoKey then false
      else if p = [] then false
      else if (upToBackslash p).length ≥ maxInfoValue then false
      else svUserinfoValidate (p.drop (upToBackslash p).length) := by
  rw [svUserinfoValidate]
  split
  · rename_i hne
    exact absurd rfl hne
  · split
    · rename_i hnil
      rw [h] at hnil
      cases hnil
    · rename_i hcons
      rw [h] at hcons
      cases hcons
      rfl

/-- A list of short pairs passes the check. -/
theorem svUserinfoValidate_render (pairs : List Pair) (hpairs : ∀ p ∈ pairs, ShortPair p)
    (hend : EndsWithValue pairs) : svUserinfoValidate (render pairs) = true := by
  induction pairs with
  | nil =>
    rw [svUserinfoValidate.eq_def]
    rfl
  | cons p pairs ih =>
    have hp := hpairs p List.mem_cons_self
    have hkey : upToBackslash (p.1 ++ backslash :: (p.2 ++ render pairs)) = p.1 :=
      upToBackslash_append hp.noBackslash.1 (Or.inr ⟨_, rfl⟩)
    have hvalue := upToBackslash_append hp.noBackslash.2 (render_eq_nil_or pairs)
    have hmore : p.2 ++ render pairs ≠ [] := by
      cases pairs with
      | nil => simpa [render] using hend p rfl
      | cons q pairs => exact fun hnil => render_ne_nil q pairs (List.append_eq_nil_iff.mp hnil).2
    have hrest : EndsWithValue pairs := by
      cases pairs with
      | nil => intro q hq; cases hq
      | cons q pairs => exact hend
    have hdrop : (p.1 ++ backslash :: (p.2 ++ render pairs)).drop
        (upToBackslash (p.1 ++ backslash :: (p.2 ++ render pairs))).length =
        backslash :: (p.2 ++ render pairs) := by
      rw [hkey, List.drop_left]
    rw [render_cons, svUserinfoValidate_of_split hdrop, hkey, hvalue, List.drop_left,
      if_neg (Nat.not_le.mpr hp.shortKey), if_neg hmore, if_neg (Nat.not_le.mpr hp.shortValue)]
    exact ih (fun q hq => hpairs q (List.mem_cons_of_mem p hq)) hrest

theorem upToBackslash_no_backslash (s : List UInt8) : backslash ∉ upToBackslash s := by
  intro hmem
  have hkept := List.mem_takeWhile_imp hmem
  simp at hkept

theorem upToBackslash_append_drop (s : List UInt8) :
    upToBackslash s ++ s.drop (upToBackslash s).length = s :=
  List.prefix_iff_eq_append.mp (List.takeWhile_prefix _)

theorem eq_backslash_of_drop {s p : List UInt8} {c : UInt8}
    (h : s.drop (upToBackslash s).length = c :: p) : c = backslash := by
  have hsplit : s.drop (upToBackslash s).length = s.dropWhile (· ≠ backslash) :=
    List.append_cancel_left ((upToBackslash_append_drop s).trans List.takeWhile_append_dropWhile.symm)
  have hhead := List.head?_dropWhile_not (fun c : UInt8 => decide (c ≠ backslash)) s
  rw [← hsplit, h] at hhead
  simpa using hhead

/-- What is accepted is made of pairs, and does not end with an empty value. -/
theorem exists_pairs_of_svUserinfoValidate {s : List UInt8} (h : svUserinfoValidate s = true) :
    ∃ pairs, s = render pairs ∧ (∀ p ∈ pairs, ShortPair p) ∧ EndsWithValue pairs := by
  induction hlength : s.length using Nat.strong_induction_on generalizing s with
  | _ n ih =>
    cases s with
    | nil => exact ⟨[], rfl, by simp, by simp [EndsWithValue]⟩
    | cons c s =>
      by_cases hc : c = backslash
      swap
      · rw [svUserinfoValidate, if_pos hc] at h
        cases h
      subst hc
      cases hdrop : s.drop (upToBackslash s).length with
      | nil =>
        rw [svUserinfoValidate] at h
        split at h
        · cases h
        · split at h
          · cases h
          · rename_i hcons
            rw [hdrop] at hcons
            cases hcons
      | cons d p =>
        have hsplit := upToBackslash_append_drop s
        rw [hdrop] at hsplit
        have hd := eq_backslash_of_drop hdrop
        rw [svUserinfoValidate_of_split hdrop] at h
        split at h
        · cases h
        rename_i hkey
        split at h
        · cases h
        rename_i hmore
        split at h
        · cases h
        rename_i hvalue
        have hless : (p.drop (upToBackslash p).length).length < n := by
          have hlengths := congrArg List.length hdrop
          simp only [List.length_drop, List.length_cons] at hlengths hlength ⊢
          omega
        obtain ⟨pairs, hrest, hshort, hend⟩ := ih _ hless h rfl
        refine ⟨(upToBackslash s, upToBackslash p) :: pairs, ?_, ?_, ?_⟩
        · rw [render_cons, ← hrest, upToBackslash_append_drop p, ← hd, hsplit]
        · intro q hq
          rcases List.mem_cons.mp hq with rfl | hq
          · exact ⟨⟨upToBackslash_no_backslash s, upToBackslash_no_backslash p⟩,
              Nat.not_le.mp hkey, Nat.not_le.mp hvalue⟩
          · exact hshort q hq
        · cases pairs with
          | nil =>
            rintro q ⟨rfl⟩ hnil
            have hp := upToBackslash_append_drop p
            rw [hrest, show upToBackslash p = [] from hnil] at hp
            exact hmore hp.symm
          | cons q pairs => exact hend

/-- The pairs of a string, as the functions above scan it. -/
def infoPairs (s : List UInt8) : List Pair :=
  match _h : splitPair (skipBackslash s) with
  | none => []
  | some (p, rest) => if rest = [] then [p] else p :: infoPairs rest
termination_by s.length
decreasing_by
  have hlt := splitPair_length _h
  have hle := length_skipBackslash s
  omega

theorem infoPairs_render (pairs : List Pair) (hpairs : ∀ p ∈ pairs, NoBackslash p) :
    infoPairs (render pairs) = pairs := by
  induction pairs with
  | nil =>
    rw [infoPairs]
    rfl
  | cons p pairs ih =>
    have hsplit : splitPair (skipBackslash (render (p :: pairs))) = some (p, render pairs) := by
      rw [skipBackslash_render_cons]
      exact splitPair_render p (hpairs p List.mem_cons_self) pairs
    rw [infoPairs]
    split
    · rename_i hnone
      rw [hsplit] at hnone
      cases hnone
    · rename_i hsome
      rw [hsplit] at hsome
      obtain ⟨rfl, rfl⟩ := Prod.mk.inj (Option.some.inj hsome)
      cases pairs with
      | nil => rw [if_pos (show render [] = [] from rfl)]
      | cons q pairs =>
        rw [if_neg (render_ne_nil q pairs), ih fun r hr => hpairs r (List.mem_cons_of_mem p hr)]

end InfoString
