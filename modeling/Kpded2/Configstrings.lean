import Kpded2.Outcome
import Kpded2.Userinfo

/-!
# Configstrings

The table `sv.configstrings` is one block of bytes, with 64 of them for each index. A call of
`PF_Configstring` writes a string at the place of its index, which may run on over the places
behind it. The texts that are printed are left out.
-/
namespace Configstrings
open Bytes Outcome Userinfo

def maxQpath : Nat := 64
def csName : Nat := 0
def csCdtrack : Nat := 1
def csDensity : Nat := 2
def csStatusbar : Nat := 7
def csServerVersion : Nat := 29
def csMapchecksum : Nat := 31
def csModels : Nat := 32
def csPlayerskins : Nat := 1696
def csLightflares : Nat := 1952
def csGeneral : Nat := 2592
def maxConfigstrings : Nat := 3104

inductive Stop where
  | drop | hard | outOfBounds
  deriving DecidableEq

/-- The bytes at and behind `sv.configstrings`. -/
abbrev Table := Nat → UInt8

def tableSize : Nat := maxQpath * maxConfigstrings

def place (index : Nat) : Nat := maxQpath * index

def byteAt (s : List UInt8) (k : Nat) : UInt8 := (s ++ [0]).getD k 0

/-- `strcmp (table + start, s) == 0`. -/
def sameString (t : Table) (start : Nat) (s : List UInt8) : Bool :=
  (List.range (s.length + 1)).all fun k => t (start + k) = byteAt s k

/-- The string at a place, up to the end of the table. -/
def stringAt (t : Table) (start : Nat) : List UInt8 :=
  ((List.range' start (tableSize - start)).map t).takeWhile (· ≠ 0)

def strcpyAt (t : Table) (start : Nat) (s : List UInt8) : Except Stop Table :=
  if start + s.length + 1 ≤ tableSize then
    .ok fun k => if start ≤ k ∧ k ≤ start + s.length then byteAt s (k - start) else t k
  else .error .outOfBounds

/-! ## Player skins -/

def isvalidchar (c : UInt8) : Bool :=
  (48 ≤ c && c ≤ 57) || (65 ≤ c && c ≤ 90) || (97 ≤ c && c ≤ 122) || c == 95 || c == 45

def slash : UInt8 := 47

/-- `strchr`, with what is before and behind the character. -/
def splitAtChar (c : UInt8) (s : List UInt8) : Option (List UInt8 × List UInt8) :=
  match s.dropWhile (· ≠ c) with
  | [] => none
  | _ :: behind => some (s.takeWhile (· ≠ c), behind)

def defaultSuffix : List UInt8 := ascii "\\male_thug/009 019 017 0"

def svFixPlayerSkin (player : List UInt8) : List UInt8 :=
  player.take (maxQpath - 30) ++ defaultSuffix

/-- A skin is three numbers and a flag, with spaces between them. -/
def skinChar (i : Nat) (c : UInt8) : Bool :=
  if i = 3 ∨ i = 7 ∨ i = 11 then c = space else isvalidchar c

def validSkin (skin : List UInt8) : Bool :=
  decide (11 ≤ skin.length) && skin.zipIdx.all fun c => skinChar c.2 c.1

/-- The model and the skin behind the name. The separator is not the first character. -/
def splitModel (modelName : List UInt8) : Option (List UInt8 × List UInt8) :=
  match modelName with
  | [] => none
  | first :: rest =>
    ((splitAtChar slash rest).or (splitAtChar backslash rest)).map fun parts =>
      (first :: parts.1, parts.2)

/-- The string with which the call goes on. -/
def checkPlayerskin (val : List UInt8) : List UInt8 :=
  let pname := val.take (maxQpath - 1)
  match splitAtChar backslash pname with
  | none => svFixPlayerSkin pname
  | some (player, modelName) =>
    match splitModel modelName with
    | none => svFixPlayerSkin player
    | some (model, skin) =>
      if skin = [] then svFixPlayerSkin player
      else if model.all isvalidchar && validSkin skin then val
      else svFixPlayerSkin player

/-! ## `PF_Configstring` -/

structure Call where
  index : Int
  val : Option (List UInt8)
  validatePlayerskins : Bool := false
  maxclients : Int := 8
  loading : Bool := false
  terminated : 0 ∉ val.getD []

/-- The part of the string that is stored. -/
def checkLength (index : Nat) (val : List UInt8) : Except Stop (List UInt8) :=
  if csModels < index ∧ index < csGeneral then
    .ok (if val.length > maxQpath - 1 then val.take (maxQpath - 1) else val)
  else if val.length > maxQpath * (maxConfigstrings - index) - 1 then .error .drop
  else if val.length > maxQpath - 1 then
    if index = csStatusbar then
      if val.length > maxQpath * (csServerVersion - csStatusbar) - 1 then .error .drop else .ok val
    else if csStatusbar < index ∧ index < csServerVersion then .error .drop
    else if index = csName then
      if val.length > maxQpath * (csDensity - csName) - 1 then .error .drop else .ok val
    else .ok val
  else .ok val

def Call.slot (c : Call) : Nat := c.index.toNat

/-- The string with which the call goes on. -/
def Call.checked (c : Call) : List UInt8 :=
  let val := c.val.getD []
  if val ≠ [] ∧ c.validatePlayerskins ∧ csPlayerskins ≤ c.index ∧
      c.index < csPlayerskins + c.maxclients then checkPlayerskin val
  else val

/-- The end of the call, with the index and the string that are sent to everyone. -/
def update (c : Call) (val : List UInt8) (t : Table) :
    Except Stop (Table × Option (Nat × List UInt8)) :=
  if sameString t (place c.slot) val then .ok (t, none)
  else do
    let t ← strcpyAt t (place c.slot) val
    .ok (t, if c.loading then none else some (c.slot, val))

/-- The last byte of the name is cleared. -/
def endName (t : Table) : Table := Function.update t (place csName + (maxQpath - 1)) 0

def pfConfigstring (c : Call) (t : Table) : Except Stop (Table × Option (Nat × List UInt8)) :=
  if c.index < 0 ∨ c.index ≥ maxConfigstrings then .error .drop
  else do
    let val ← checkLength c.slot c.checked
    if c.slot = csCdtrack then
      if t (place csCdtrack) ≠ 0 then
        if atoi val = 0 ∧ atoi (stringAt t (place csCdtrack)) = 0 then .ok (t, none)
        else update c val (endName t)
      else update c val t
    else if c.slot = csMapchecksum then .error .hard
    else update c val t

/-! ## What a call writes -/

/-- A long string for an index with one place, which the code only warns about. -/
def Call.RunsOn (c : Call) : Prop :=
  (c.slot ≤ csModels ∨ csGeneral ≤ c.slot) ∧ c.slot ≠ csName ∧
    ¬(csStatusbar ≤ c.slot ∧ c.slot < csServerVersion) ∧ maxQpath - 1 < c.checked.length

/-- The number of places that a string may take without a warning. -/
def ownPlaces (index : Nat) : Nat :=
  if index = csStatusbar then csServerVersion - csStatusbar
  else if index = csName then csDensity - csName
  else 1

/-- The bytes that a call may write. -/
def Call.Touches (c : Call) (k : Nat) : Prop :=
  (place c.slot ≤ k ∧ k < place (c.slot + ownPlaces c.slot)) ∨
    (c.RunsOn ∧ place c.slot ≤ k ∧ k ≤ place c.slot + c.checked.length) ∨
    (c.slot = csCdtrack ∧ k = place csName + (maxQpath - 1))

/-- Where the string that is stored ends. -/
structure Fits (c : Call) (val : List UInt8) : Prop where
  inside : place c.slot + val.length < tableSize
  own : c.RunsOn ∨ place c.slot + val.length < place (c.slot + ownPlaces c.slot)
  length_le : val.length ≤ c.checked.length

theorem place_add (index more : Nat) : place (index + more) = place index + maxQpath * more :=
  Nat.mul_add maxQpath index more

theorem one_le_ownPlaces (index : Nat) : 1 ≤ ownPlaces index := by
  simp only [ownPlaces]
  split
  · decide
  · split
    · decide
    · exact Nat.le_refl 1

/-- What the length check lets through fits, or is cut to a path. -/
theorem checkLength_ensures (c : Call) (bound : c.slot < maxConfigstrings) :
    Ensures .outOfBounds (fun val => Fits c val ∧
      (csModels < c.slot → c.slot < csGeneral → val = c.checked.take (maxQpath - 1)))
      (checkLength c.slot c.checked) := by
  have whole : place (c.slot + (maxConfigstrings - c.slot)) = tableSize := by
    rw [Nat.add_sub_cancel' (Nat.le_of_lt bound)]
    rfl
  rw [place_add] at whole
  have left : 1 ≤ maxConfigstrings - c.slot := Nat.le_sub_of_add_le' bound
  have single := one_le_ownPlaces c.slot
  -- a string of one place
  have short : ∀ val : List UInt8, val.length ≤ maxQpath - 1 → val.length ≤ c.checked.length →
      Fits c val := by
    intro val hval hle
    refine ⟨?_, .inr ?_, hle⟩
    · simp only [maxQpath] at hval whole ⊢
      omega
    · rw [place_add]
      simp only [maxQpath] at hval ⊢
      omega
  simp only [checkLength]
  split
  · refine ensures_ok ⟨?_, fun _ _ => ?_⟩
    · split
      · exact short _ (List.length_take_le _ _) (List.length_take_le' _ _)
      · rename_i fits
        exact short _ (Nat.not_lt.mp fits) (Nat.le_refl _)
    · split
      · rfl
      · rename_i fits
        exact (List.take_of_length_le (Nat.not_lt.mp fits)).symm
  rename_i table
  have absent : csModels < c.slot → c.slot < csGeneral →
      c.checked = c.checked.take (maxQpath - 1) := fun hi lo => absurd ⟨hi, lo⟩ table
  split
  · exact ensures_error (by rintro ⟨⟩)
  rename_i room
  have inside : place c.slot + c.checked.length < tableSize := by
    rw [← whole]
    simp only [maxQpath] at room ⊢
    omega
  split
  swap
  · rename_i fits
    exact ensures_ok ⟨short _ (Nat.not_lt.mp fits) (Nat.le_refl _), absent⟩
  rename_i long
  split
  · rename_i statusbar
    split
    · exact ensures_error (by rintro ⟨⟩)
    rename_i fits
    refine ensures_ok ⟨⟨inside, .inr ?_, Nat.le_refl _⟩, absent⟩
    rw [place_add, ownPlaces, if_pos statusbar]
    simp only [maxQpath, csServerVersion, csStatusbar] at fits ⊢
    omega
  rename_i notStatusbar
  split
  · exact ensures_error (by rintro ⟨⟩)
  rename_i notSingle
  split
  · rename_i name
    split
    · exact ensures_error (by rintro ⟨⟩)
    rename_i fits
    refine ensures_ok ⟨⟨inside, .inr ?_, Nat.le_refl _⟩, absent⟩
    rw [place_add, ownPlaces, if_neg notStatusbar, if_pos name]
    simp only [maxQpath, csDensity, csName] at fits ⊢
    omega
  · rename_i notName
    refine ensures_ok ⟨⟨inside, .inl ⟨?_, notName, ?_, long⟩, Nat.le_refl _⟩, absent⟩
    · omega
    · omega

theorem strcpyAt_of_fits {t : Table} {start : Nat} {s : List UInt8}
    (inside : start + s.length < tableSize) : strcpyAt t start s =
      .ok fun k => if start ≤ k ∧ k ≤ start + s.length then byteAt s (k - start) else t k :=
  if_pos inside

theorem sameString_iff {t : Table} {start : Nat} {s : List UInt8} :
    sameString t start s = true ↔ ∀ k ≤ s.length, t (start + k) = byteAt s k := by
  simp only [sameString, List.all_eq_true, List.mem_range, decide_eq_true_eq, Nat.lt_succ_iff]

/-- The string is at its place, and nothing else has changed. -/
structure Stored (t t' : Table) (start : Nat) (s : List UInt8) : Prop where
  holds : sameString t' start s = true
  frame : ∀ k, ¬(start ≤ k ∧ k ≤ start + s.length) → t' k = t k

theorem update_ensures {c : Call} {val : List UInt8} (inside : place c.slot + val.length < tableSize)
    (t : Table) : Ensures .outOfBounds (fun r => Stored t r.1 (place c.slot) val) (update c val t) := by
  simp only [update]
  split
  · rename_i same
    exact ensures_ok ⟨same, fun _ _ => rfl⟩
  · rw [strcpyAt_of_fits inside]
    refine ensures_ok ⟨?_, fun k outside => if_neg outside⟩
    rw [sameString_iff]
    intro k hk
    have within : place c.slot ≤ place c.slot + k ∧ place c.slot + k ≤ place c.slot + val.length :=
      ⟨Nat.le_add_right _ _, Nat.add_le_add_left hk _⟩
    change (if _ then _ else _) = _
    rw [if_pos within, Nat.add_sub_cancel_left]

/-- What a completed call has done. -/
structure Done (c : Call) (t t' : Table) : Prop where
  valid : 0 ≤ c.index ∧ c.slot < maxConfigstrings ∧ c.slot ≠ csMapchecksum
  frame : ∀ k, ¬c.Touches k → t' k = t k
  stored : csModels < c.slot → c.slot < csGeneral →
    sameString t' (place c.slot) (c.checked.take (maxQpath - 1)) = true

theorem touches_of_fits {c : Call} {val : List UInt8} (fits : Fits c val) {k : Nat}
    (h : place c.slot ≤ k ∧ k ≤ place c.slot + val.length) : c.Touches k := by
  rcases fits.own with runsOn | own
  · exact .inr (.inl ⟨runsOn, h.1, h.2.trans (Nat.add_le_add_left fits.length_le _)⟩)
  · exact .inl ⟨h.1, Nat.lt_of_le_of_lt h.2 own⟩

theorem endName_of_ne {t : Table} {k : Nat} (h : k ≠ place csName + (maxQpath - 1)) :
    endName t k = t k :=
  Function.update_of_ne h _ _

/-- What a call leaves in the table. -/
theorem pfConfigstring_done (c : Call) (t : Table) :
    Ensures .outOfBounds (fun r => Done c t r.1) (pfConfigstring c t) := by
  simp only [pfConfigstring]
  split
  · exact ensures_error (by rintro ⟨⟩)
  rename_i inRange
  have bound : c.slot < maxConfigstrings := by
    simp only [Call.slot]
    omega
  have natural : 0 ≤ c.index := by omega
  refine (checkLength_ensures c bound).bind ?_
  rintro val ⟨fits, truncated⟩
  have updated (t' : Table) (valid : c.slot ≠ csMapchecksum)
      (before : ∀ k, ¬c.Touches k → t' k = t k) :
      Ensures .outOfBounds (fun r => Done c t r.1) (update c val t') := by
    refine (update_ensures fits.inside t').mono fun r done => ⟨⟨natural, bound, valid⟩, ?_, ?_⟩
    · intro k outside
      exact (done.frame k fun h => outside (touches_of_fits fits h)).trans (before k outside)
    · intro hi lo
      rw [← truncated hi lo]
      exact done.holds
  split
  · rename_i cdtrack
    have notChecksum : c.slot ≠ csMapchecksum := by
      rw [cdtrack]
      decide
    split
    · split
      · refine ensures_ok ⟨⟨natural, bound, notChecksum⟩, fun _ _ => rfl, fun hi => ?_⟩
        rw [cdtrack] at hi
        exact absurd hi (by decide)
      · exact updated _ notChecksum fun k outside =>
          endName_of_ne fun same => outside (.inr (.inr ⟨cdtrack, same⟩))
    · exact updated t notChecksum fun _ _ => rfl
  · split
    · exact ensures_error (by rintro ⟨⟩)
    · rename_i notChecksum
      exact updated t notChecksum fun _ _ => rfl

/-! ## The skins that are stored -/

/-- A name, a model and a skin, of at most 63 characters. -/
structure IsPlayerskin (v name model : List UInt8) (separator : UInt8) (skin : List UInt8) : Prop where
  text : v = name ++ backslash :: (model ++ separator :: skin)
  name : backslash ∉ name
  separator : separator = slash ∨ separator = backslash
  nonempty : model ≠ [] ∧ skin ≠ []
  model : ∀ c ∈ model, isvalidchar c = true
  skin : validSkin skin = true
  cstring : 0 ∉ v
  length_lt : v.length < maxQpath

def Playerskin (v : List UInt8) : Prop :=
  ∃ name model separator skin, IsPlayerskin v name model separator skin

theorem splitAtChar_eq_some {c : UInt8} {s front behind : List UInt8}
    (h : splitAtChar c s = some (front, behind)) : s = front ++ c :: behind ∧ c ∉ front := by
  simp only [splitAtChar] at h
  split at h
  · cases h
  rename_i d rest hdrop
  cases h
  have first := List.head?_dropWhile_not (fun d : UInt8 => decide (d ≠ c)) s
  rw [hdrop] at first
  have same : d = c := by simpa using first
  constructor
  · have whole := @List.takeWhile_append_dropWhile _ (fun d : UInt8 => decide (d ≠ c)) s
    rw [hdrop, same] at whole
    exact whole.symm
  · intro hmem
    have kept := List.mem_takeWhile_imp hmem
    simp at kept

theorem playerskin_fix {player : List UInt8} (noBackslash : backslash ∉ player)
    (cstring : 0 ∉ player) : Playerskin ((svFixPlayerSkin player).take (maxQpath - 1)) := by
  have short : (svFixPlayerSkin player).length ≤ 58 := by
    have : defaultSuffix.length = 24 := by decide
    simp only [svFixPlayerSkin, List.length_append, List.length_take, maxQpath]
    omega
  have valid : ∀ c ∈ ascii "male_thug", isvalidchar c = true := List.all_eq_true.mp (by decide)
  rw [List.take_of_length_le (short.trans (by decide))]
  refine ⟨player.take (maxQpath - 30), ascii "male_thug", slash, ascii "009 019 017 0", rfl,
    fun h => noBackslash (List.mem_of_mem_take h), .inl rfl, ⟨by decide, by decide⟩, valid,
    by decide, ?_, Nat.lt_of_le_of_lt short (by decide)⟩
  intro zero
  rcases List.mem_append.mp zero with zero | zero
  · exact cstring (List.mem_of_mem_take zero)
  · exact absurd zero (by decide)

theorem splitModel_eq_some {modelName model skin : List UInt8}
    (h : splitModel modelName = some (model, skin)) : ∃ separator,
      modelName = model ++ separator :: skin ∧ model ≠ [] ∧
        (separator = slash ∨ separator = backslash) := by
  cases modelName with
  | nil => cases h
  | cons first rest =>
    simp only [splitModel, Option.map_eq_some_iff] at h
    obtain ⟨⟨front, behind⟩, found, same⟩ := h
    cases same
    rcases Option.or_eq_some_iff.mp found with found | ⟨-, found⟩
    · obtain ⟨split, -⟩ := splitAtChar_eq_some found
      exact ⟨slash, congrArg _ split, List.cons_ne_nil _ _, .inl rfl⟩
    · obtain ⟨split, -⟩ := splitAtChar_eq_some found
      exact ⟨backslash, congrArg _ split, List.cons_ne_nil _ _, .inr rfl⟩

/-- What is checked is what is stored: both are cut to 63 characters. -/
theorem playerskin_check {val : List UInt8} (cstring : 0 ∉ val) :
    Playerskin ((checkPlayerskin val).take (maxQpath - 1)) := by
  have cut : 0 ∉ val.take (maxQpath - 1) := fun zero => cstring (List.mem_of_mem_take zero)
  simp only [checkPlayerskin]
  cases named : splitAtChar backslash (val.take (maxQpath - 1)) with
  | none =>
    refine playerskin_fix (fun hmem => ?_) cut
    simp only [splitAtChar] at named
    split at named
    · rename_i hdrop
      have all := List.dropWhile_eq_nil_iff.mp hdrop _ hmem
      simp at all
    · cases named
  | some parts =>
    obtain ⟨player, modelName⟩ := parts
    obtain ⟨split, noBackslash⟩ := splitAtChar_eq_some named
    have fixed : Playerskin ((svFixPlayerSkin player).take (maxQpath - 1)) :=
      playerskin_fix noBackslash fun zero => cut (split ▸ List.mem_append_left _ zero)
    simp only
    split
    · exact fixed
    rename_i model skin found
    split
    · exact fixed
    rename_i nonempty
    split
    · rename_i valid
      rw [Bool.and_eq_true, List.all_eq_true] at valid
      obtain ⟨separator, rfl, model_ne, either⟩ := splitModel_eq_some found
      refine ⟨player, model, separator, skin, split, noBackslash, either, ⟨model_ne, nonempty⟩,
        valid.1, valid.2, cut, ?_⟩
      exact Nat.lt_of_le_of_lt (List.length_take_le _ _) (by decide)
    · exact fixed

/-- The call sets the skin of a client, and skins are validated. -/
structure Call.Validates (c : Call) : Prop where
  nonempty : c.val.getD [] ≠ []
  enabled : c.validatePlayerskins = true
  playerskins : csPlayerskins ≤ c.index ∧ c.index < csLightflares
  client : c.index < csPlayerskins + c.maxclients

theorem playerskin_of_done {c : Call} {t t' : Table} (done : Done c t t') (validates : c.Validates) :
    ∃ v, Playerskin v ∧ sameString t' (place c.slot) v = true := by
  have checked : c.checked = checkPlayerskin (c.val.getD []) :=
    if_pos ⟨validates.nonempty, validates.enabled, validates.playerskins.1, validates.client⟩
  refine ⟨_, playerskin_check c.terminated, ?_⟩
  rw [← checked]
  obtain ⟨lo, hi⟩ := validates.playerskins
  refine done.stored ?_ ?_
  · simp only [Call.slot, csModels, csPlayerskins] at lo ⊢
    omega
  · simp only [Call.slot, csGeneral, csLightflares] at hi ⊢
    omega

/-! ## Sequences of calls -/

/-- A call that ends with an error leaves the table as it is. -/
def apply (t : Table) (c : Call) : Table :=
  match pfConfigstring c t with
  | .ok r => r.1
  | .error _ => t

def run (calls : List Call) (t : Table) : Table := calls.foldl apply t

theorem apply_frame {c : Call} {t : Table} {k : Nat}
    (untouched : c.slot < maxConfigstrings → c.slot ≠ csMapchecksum → ¬c.Touches k) :
    apply t c k = t k := by
  have done := pfConfigstring_done c t
  simp only [apply]
  cases result : pfConfigstring c t with
  | error stop => rfl
  | ok r =>
    rw [result] at done
    exact done.frame k (untouched done.valid.2.1 done.valid.2.2)

/-- What no call touches is as it was. -/
theorem run_frame {calls : List Call} {t : Table} {k : Nat}
    (untouched : ∀ c ∈ calls, c.slot < maxConfigstrings → c.slot ≠ csMapchecksum → ¬c.Touches k) :
    run calls t k = t k := by
  induction calls generalizing t with
  | nil => rfl
  | cons c calls ih =>
    rw [run, List.foldl_cons]
    exact (ih fun d hd => untouched d (List.mem_cons_of_mem c hd)).trans
      (apply_frame (untouched c List.mem_cons_self))

/-- The place of the checksum is not one of another index. -/
theorem runsOn_of_touches_checksum {c : Call} {k : Nat} (other : c.slot ≠ csMapchecksum)
    (checksum : place csMapchecksum ≤ k ∧ k < place (csMapchecksum + 1)) (h : c.Touches k) :
    c.RunsOn := by
  rcases h with ⟨lo, hi⟩ | ⟨runsOn, -⟩ | ⟨-, name⟩
  · exfalso
    have spans : c.slot + ownPlaces c.slot ≤ csMapchecksum ∨ csMapchecksum < c.slot := by
      simp only [ownPlaces]
      split
      · rename_i statusbar
        rw [statusbar]
        decide
      · split
        · rename_i name
          rw [name]
          decide
        · omega
    simp only [place, maxQpath] at lo hi checksum
    omega
  · exact runsOn
  · exfalso
    rw [name] at checksum
    exact absurd checksum.1 (by decide)

/-- For every sequence of calls: what each writes is inside the table and at its own places, except
for long strings that are warned about and for the end of the name; the checksum is changed by
nothing else; and the skin of a client is one. -/
theorem run_configstrings (calls : List Call) (t : Table) :
    (∀ (c : Call) (u : Table), Ensures .outOfBounds (fun r => Done c u r.1 ∧
      (c.Validates → ∃ v, Playerskin v ∧ sameString r.1 (place c.slot) v = true))
        (pfConfigstring c u)) ∧
    (∀ k, (∀ c ∈ calls, ¬c.Touches k) → run calls t k = t k) ∧
    ∀ k, place csMapchecksum ≤ k ∧ k < place (csMapchecksum + 1) →
      (∀ c ∈ calls, c.RunsOn → ¬c.Touches k) → run calls t k = t k := by
  refine ⟨fun c u => ?_, fun k untouched => ?_, fun k checksum untouched => ?_⟩
  · exact (pfConfigstring_done c u).mono fun r done => ⟨done, playerskin_of_done done⟩
  · exact run_frame fun c hc _ _ => untouched c hc
  · refine run_frame fun c hc _ other touches => ?_
    exact untouched c hc (runsOn_of_touches_checksum other checksum touches) touches

private def longGeneral : Call where
  index := csGeneral
  val := some (List.replicate 65 97)
  terminated := by decide

/-- A long string runs on, with a warning. -/
theorem general_runs_on : ¬∀ (c : Call) (t : Table), Ensures .outOfBounds (fun r => ∀ k,
    ¬(place c.slot ≤ k ∧ k < place (c.slot + ownPlaces c.slot)) → r.1 k = t k)
      (pfConfigstring c t) := by
  intro h
  have own := h longGeneral fun _ => 0
  have written : ((pfConfigstring longGeneral fun _ => 0).toOption.map
      fun r => r.1 (place (csGeneral + 1))) = some 97 := by decide +kernel
  cases result : pfConfigstring longGeneral fun _ => 0 with
  | error stop =>
    rw [result] at written
    cases written
  | ok r =>
    rw [result] at own written
    have kept := own (place (csGeneral + 1)) (by decide)
    have changed : r.1 (place (csGeneral + 1)) = 97 := Option.some.inj written
    rw [kept] at changed
    cases changed

end Configstrings
