import Mathlib.Logic.Function.Basic
import Kpded2.ClientNames
import Kpded2.Configstrings
import Kpded2.MapReferences

/-!
# The inline models of a map

A map has up to 1023 models. `SV_SpawnServer` gives those behind the first a configstring and an
element of `sv.models`, which has 256 of them.
-/
namespace InlineModels
open Bytes BspLoad CollisionMap MapReferences
open Userinfo (decimal atoi)
open Configstrings (csModels csMapchecksum maxConfigstrings)
open Outcome (bind_of_ok exists_of_bind_eq_ok)

def maxModels : Nat := 256

/-- A model is known by its number in `map_cmodels`, and a configstring by its slot. -/
structure Server where
  models : Nat → Option Nat
  configstrings : Nat → List UInt8

/-- `outside` is a write outside of an array. -/
inductive Halt
  | drop
  | outside

def cmInlineModel (numcmodels : Nat) (name : List UInt8) : Except Halt Nat :=
  if name.head? ≠ some 42 then .error .drop
  else
    let num := atoi name.tail
    if num < 1 ∨ num ≥ numcmodels then .error .drop else .ok num.toNat

/-- The loop over the inline models. -/
def registerInline (numcmodels : Nat) (sv : Server) (i : Nat) : Except Halt Server :=
  if csModels + 1 + i ≥ maxConfigstrings then .error .outside
  else
    let name := comSprintf maxQpath (42 :: decimal i)
    let sv := { sv with
      configstrings := Function.update sv.configstrings (csModels + 1 + i) name }
    do
      let model ← cmInlineModel numcmodels (sv.configstrings (csModels + 1 + i))
      if i + 1 ≥ maxModels then .error .outside
      else .ok { sv with models := Function.update sv.models (i + 1) (some model) }

def registerInlineModels (numcmodels : Nat) (sv : Server) : Except Halt Server :=
  (List.range' 1 (numcmodels - 1)).foldlM (registerInline numcmodels) sv

theorem nil_fits : ([] : List UInt8).length < maxQpath := Nat.succ_pos 63

theorem sourceName_fits (server : List UInt8) : (sourceName server).length < maxQpath :=
  comSprintf_length_lt _ (Nat.succ_pos 63)

/-- `ss_game` loads the map of that name, the other states load none. -/
def mapRequest (game : Option (List UInt8)) (flushmap developer : Bool) : Request where
  name := match game with
    | none => ⟨[], nil_fits⟩
    | some server => ⟨sourceName server, sourceName_fits server⟩
  clientload := false
  flushmap := flushmap
  developer := developer

def intText (n : Int) : List UInt8 := if n < 0 then 45 :: decimal n.natAbs else decimal n.natAbs

/-- What is set from the map before the loop. -/
def setWorld (game : Bool) (m : State) (sv : Server) : Server where
  models := Function.update sv.models 1 (some 0)
  configstrings :=
    Function.update
      (if game then Function.update sv.configstrings (csModels + 1) m.mapName else sv.configstrings)
      csMapchecksum (intText m.lastChecksum.toBitVec.toInt)

/-- From the name of the map to the inline models, without the links of the entities. -/
def svSpawnServer (w : Disk) (game : Option (List UInt8)) (flushmap developer : Bool) (s : State)
    (sv : Server) : Except Halt (State × Server) :=
  match cmLoadMap w (mapRequest game flushmap developer) s with
  | .error _ => .error .drop
  | .ok m => do
    let sv ← registerInlineModels m.tables.cmodels.count (setWorld game.isSome m sv)
    .ok (m, sv)

/-- The slots and elements that the loop may write, and what it leaves in them. -/
structure Registered (numcmodels : Nat) (before after : Server) : Prop where
  slots : ∀ k, k < csModels + 2 ∨ csModels + maxModels ≤ k →
    after.configstrings k = before.configstrings k
  elements : ∀ k, k < 2 ∨ maxModels ≤ k → after.models k = before.models k
  named : ∀ i, 1 ≤ i → i < numcmodels →
    cmInlineModel numcmodels (after.configstrings (csModels + 1 + i)) = .ok i ∧
      after.models (i + 1) = some i

/-! ## The number in a name -/

theorem digit_of_mem_decimal {n : Nat} {c : UInt8} (h : c ∈ decimal n) :
    48 ≤ c.toNat ∧ c.toNat ≤ 57 := by
  obtain ⟨d, digits, rfl⟩ := List.mem_map.mp h
  have bounds := ClientNames.digit_bounds digits
  rw [UInt8.toNat_ofNat', Nat.mod_eq_of_lt (by omega)]
  exact bounds

theorem foldl_decimal (n : Nat) :
    (decimal n).foldl (fun n c => 10 * n + (c.toNat - 48)) 0 = n := by
  have value := @Nat.ofDigitChars_ten_toDigits n
  rw [Nat.ofDigitChars_eq_foldl] at value
  rw [decimal, List.foldl_map]
  refine Eq.trans (List.foldl_ext _ _ 0 fun sum c digits => ?_) value
  have bounds := ClientNames.digit_bounds digits
  rw [UInt8.toNat_ofNat', Nat.mod_eq_of_lt (by omega)]
  rfl

theorem atoi_decimal {n : Nat} (int : n < 2147483648) : atoi (decimal n) = n := by
  have noSpace : (decimal n).dropWhile Userinfo.isspace = decimal n := by
    refine List.dropWhile_eq_self_iff.mpr fun notEmpty space => ?_
    have digit := digit_of_mem_decimal (List.getElem_mem notEmpty)
    simp only [Userinfo.isspace, Bool.or_eq_true, beq_iff_eq, Bool.and_eq_true, decide_eq_true_eq,
      UInt8.le_iff_toNat_le, ← UInt8.toNat_inj] at space
    have values : (32 : UInt8).toNat = 32 ∧ (13 : UInt8).toNat = 13 := ⟨rfl, rfl⟩
    omega
  have digits : ((decimal n).takeWhile fun c => 48 ≤ c && c ≤ 57) = decimal n := by
    refine List.takeWhile_eq_self_iff.mpr fun c digit => ?_
    have bounds := digit_of_mem_decimal digit
    rw [Bool.and_eq_true, decide_eq_true_eq, decide_eq_true_eq, UInt8.le_iff_toNat_le,
      UInt8.le_iff_toNat_le]
    exact bounds
  have unsigned : ∀ c rest, decimal n = c :: rest → 48 ≤ c.toNat := by
    intro c rest same
    have digit : c ∈ decimal n := by
      rw [same]
      exact List.mem_cons_self
    exact (digit_of_mem_decimal digit).1
  simp only [atoi, noSpace]
  split
  · rename_i rest same
    exact absurd (unsigned 45 rest same) (by decide)
  · rename_i rest same
    exact absurd (unsigned 43 rest same) (by decide)
  · rw [digits, foldl_decimal, if_neg Bool.false_ne_true]
    omega

/-! ## The loop -/

theorem cmInlineModel_decimal {numcmodels i : Nat} (int : i < 2147483648) (first : 1 ≤ i)
    (known : i < numcmodels) : cmInlineModel numcmodels (42 :: decimal i) = .ok i := by
  simp only [cmInlineModel, List.head?_cons, ne_eq, not_true_eq_false, if_false, List.tail_cons,
    atoi_decimal int]
  rw [if_neg (by omega), Int.toNat_natCast]

theorem registerInline_ok {numcmodels i : Nat} (room : i + 1 < maxModels) (first : 1 ≤ i)
    (known : i < numcmodels) (sv : Server) : registerInline numcmodels sv i = .ok
      { models := Function.update sv.models (i + 1) (some i)
        configstrings := Function.update sv.configstrings (csModels + 1 + i) (42 :: decimal i) } := by
  have few : i < 255 := Nat.lt_of_succ_lt_succ room
  have fits : (42 :: decimal i).length < maxQpath := by
    have digits : (decimal i).length ≤ 3 := by
      simp only [decimal, List.length_map]
      exact (Nat.length_toDigits_le_iff (by decide) (by decide)).mpr (by omega)
    rw [List.length_cons]
    exact Nat.lt_of_le_of_lt (Nat.succ_le_succ digits) (by decide)
  have slot : ¬csModels + 1 + i ≥ maxConfigstrings := by
    simp only [csModels, maxConfigstrings]
    omega
  simp only [registerInline, if_neg slot, comSprintf_of_fits fits, Function.update_self,
    cmInlineModel_decimal (Nat.lt_trans few (by decide)) first known]
  exact if_neg (Nat.not_le.mpr room)

theorem room_of_registerInline {numcmodels i : Nat} {sv after : Server}
    (h : registerInline numcmodels sv i = .ok after) : i + 1 < maxModels := by
  simp only [registerInline] at h
  split at h
  · cases h
  obtain ⟨model, -, h⟩ := exists_of_bind_eq_ok h
  split at h
  · cases h
  · rename_i room
    exact Nat.not_le.mp room

/-- Every model that the loop has passed had room. -/
theorem room_of_foldlM {numcmodels : Nat} {numbers : List Nat} {sv after : Server}
    (h : numbers.foldlM (registerInline numcmodels) sv = .ok after) :
    ∀ i ∈ numbers, i + 1 < maxModels := by
  induction numbers generalizing sv with
  | nil => exact fun i h => absurd h List.not_mem_nil
  | cons first numbers ih =>
    rw [List.foldlM_cons] at h
    obtain ⟨next, hfirst, h⟩ := exists_of_bind_eq_ok h
    intro i hi
    rcases List.mem_cons.mp hi with rfl | hi
    · exact room_of_registerInline hfirst
    · exact ih h i hi

/-- The server when the loop has passed `k` models. -/
def passed (k : Nat) (sv : Server) : Server where
  models j := if 2 ≤ j ∧ j < k + 2 then some (j - 1) else sv.models j
  configstrings j :=
    if csModels + 2 ≤ j ∧ j < csModels + 2 + k then 42 :: decimal (j - csModels - 1)
    else sv.configstrings j

theorem passed_zero (sv : Server) : passed 0 sv = sv := by
  have none : ∀ j k : Nat, ¬(k ≤ j ∧ j < k) := by
    intro j k
    omega
  simp only [passed, Nat.zero_add, Nat.add_zero, none, if_false]

theorem passed_succ (k : Nat) (sv : Server) : passed (k + 1) sv =
    { models := Function.update (passed k sv).models (k + 1 + 1) (some (k + 1))
      configstrings :=
        Function.update (passed k sv).configstrings (csModels + 1 + (k + 1)) (42 :: decimal (k + 1)) } := by
  simp only [passed, Server.mk.injEq]
  constructor
  · funext j
    by_cases here : j = k + 1 + 1
    · subst here
      rw [Function.update_self, if_pos (by omega)]
      rfl
    · rw [Function.update_of_ne here]
      exact if_congr (by omega) rfl rfl
  · funext j
    by_cases here : j = csModels + 1 + (k + 1)
    · subst here
      rw [Function.update_self, if_pos (by omega)]
      congr 2
      omega
    · rw [Function.update_of_ne here]
      exact if_congr (by omega) rfl rfl

theorem foldlM_passed {numcmodels k : Nat} (room : k + 1 < maxModels)
    (known : k = 0 ∨ k < numcmodels) (sv : Server) :
    (List.range' 1 k).foldlM (registerInline numcmodels) sv = .ok (passed k sv) := by
  induction k with
  | zero => exact congrArg Except.ok (passed_zero sv).symm
  | succ k ih =>
    have before := ih (by omega) (by omega)
    have last : registerInline numcmodels (passed k sv) (k + 1) = .ok (passed (k + 1) sv) := by
      rw [passed_succ]
      exact registerInline_ok room (Nat.le_add_left 1 k) (by omega) (passed k sv)
    rw [List.range'_1_concat, List.foldlM_append, before, Nat.add_comm 1 k]
    exact bind_of_ok rfl (bind_of_ok last rfl)

theorem registered_passed {numcmodels : Nat} (room : numcmodels < maxModels) (sv : Server) :
    Registered numcmodels sv (passed (numcmodels - 1) sv) := by
  constructor
  · intro k outside
    exact if_neg (by simp only [maxModels] at room outside; omega)
  · intro k outside
    exact if_neg (by simp only [maxModels] at room outside; omega)
  · intro i first known
    have slot : csModels + 2 ≤ csModels + 1 + i ∧ csModels + 1 + i < csModels + 2 + (numcmodels - 1) := by
      omega
    have element : 2 ≤ i + 1 ∧ i + 1 < numcmodels - 1 + 2 := by omega
    simp only [passed, if_pos slot, if_pos element]
    have int : i < 2147483648 := Nat.lt_trans (Nat.lt_trans known room) (by decide)
    have number : csModels + 1 + i - csModels - 1 = i := by omega
    rw [number, cmInlineModel_decimal int first known]
    exact ⟨rfl, rfl⟩

/-- The loop does not get past the end of `sv.models`. -/
theorem room_of_svSpawnServer {w : Disk} {game : Option (List UInt8)} {flushmap developer : Bool}
    {s m : State} (h : cmLoadMap w (mapRequest game flushmap developer) s = .ok m)
    {sv after : Server} (run : svSpawnServer w game flushmap developer s sv = .ok (m, after)) :
    m.tables.cmodels.count < maxModels := by
  simp only [svSpawnServer, h] at run
  obtain ⟨last, loop, -⟩ := exists_of_bind_eq_ok run
  by_contra many
  have passes := room_of_foldlM loop (m.tables.cmodels.count - 1)
    (List.mem_range'_1.mpr (by simp only [maxModels] at many; omega))
  simp only [maxModels] at many passes
  omega

/-- The inline models of a map that has been loaded are registered in their places if and only if
`sv.models` has an element for each of them. -/
theorem svSpawnServer_models_iff {w : Disk} {game : Option (List UInt8)} {flushmap developer : Bool}
    {s m : State} (h : cmLoadMap w (mapRequest game flushmap developer) s = .ok m) (sv : Server) :
    (∃ after, svSpawnServer w game flushmap developer s sv = .ok (m, after) ∧
      Registered m.tables.cmodels.count (setWorld game.isSome m sv) after) ↔
      m.tables.cmodels.count < maxModels := by
  constructor
  · rintro ⟨after, run, -⟩
    exact room_of_svSpawnServer h run
  · intro room
    simp only [svSpawnServer, h]
    have loop := @foldlM_passed m.tables.cmodels.count (m.tables.cmodels.count - 1)
      (by simp only [maxModels] at room ⊢; omega) (by omega) (setWorld game.isSome m sv)
    refine ⟨_, ?_, registered_passed room _⟩
    exact congrArg (· >>= fun sv => Except.ok (m, sv)) loop

private def shiftedWord (n : Nat) : List UInt8 := [0, 8, 16, 24].map fun k => UInt8.ofNat (n / 2 ^ k)

private def modelsLump (models : Nat) : Nat → List UInt8
  | 1 => List.replicate 20 0
  | 4 => List.replicate 28 0
  | 5 => List.replicate 76 0
  | 8 => shiftedWord 1 ++ List.replicate 52 0
  | 10 => List.replicate 2 0
  | 13 => List.replicate (48 * models) 0
  | _ => []

private def modelsBsp (models : Nat) : List UInt8 :=
  let content := modelsLump models
  let offset (i : Nat) : Nat := headerSize + ((List.range i).map fun j => (content j).length).sum
  shiftedWord 0 ++ shiftedWord 38 ++
    (List.range numLumps).flatMap (fun i => shiftedWord (offset i) ++ shiftedWord (content i).length) ++
    (List.range numLumps).flatMap content

private def modelsDisk (models : Nat) : Disk where
  file name := if name = ascii "maps/hull.bsp" then some (modelsBsp models) else none
  blockChecksum := fun _ => 7

private def countOf : Except (Stop State) State → Nat
  | .ok m => m.tables.cmodels.count
  | .error _ => 0

private def hull : Request := mapRequest (some (ascii "hull")) false false

private def emptyServer : Server := ⟨fun _ => none, fun _ => []⟩

private theorem exists_of_countOf {x : Except (Stop State) State} {n : Nat} (h : countOf x = n + 1) :
    ∃ m, x = .ok m ∧ m.tables.cmodels.count = n + 1 := by
  cases x with
  | ok m => exact ⟨m, rfl, h⟩
  | error e => cases h

theorem svSpawnServer_models_iff_two : ∃ m, cmLoadMap (modelsDisk 2) hull initial = .ok m ∧
    ((∃ after, svSpawnServer (modelsDisk 2) (some (ascii "hull")) false false initial emptyServer =
      .ok (m, after) ∧ Registered m.tables.cmodels.count (setWorld true m emptyServer) after) ↔
        m.tables.cmodels.count < maxModels) := by
  have count : countOf (cmLoadMap (modelsDisk 2) hull initial) = 1 + 1 := by decide +kernel
  obtain ⟨m, hm, -⟩ := exists_of_countOf count
  exact ⟨m, hm, svSpawnServer_models_iff hm emptyServer⟩

/-- A map with 256 models is loaded, and the last of them is written behind `sv.models`. -/
theorem many_models_overflow : ∃ m, cmLoadMap (modelsDisk 256) hull initial = .ok m ∧
    ¬∃ after, svSpawnServer (modelsDisk 256) (some (ascii "hull")) false false initial emptyServer =
      .ok (m, after) := by
  have count : countOf (cmLoadMap (modelsDisk 256) hull initial) = 255 + 1 := by decide +kernel
  obtain ⟨m, hm, many⟩ := exists_of_countOf count
  refine ⟨m, hm, ?_⟩
  rintro ⟨after, run⟩
  have room := room_of_svSpawnServer hm run
  simp only [many, maxModels] at room
  omega

end InlineModels
