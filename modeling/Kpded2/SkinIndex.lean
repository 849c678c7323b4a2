import Kpded2.Configstrings
import Kpded2.StepRuns
import Mathlib.Data.List.Basic

/-!
# The skins of a model

The names of the skins of a model stand in one configstring, one after the other and with
nothing between them, and a skin is known by the offset of its name. `SV_SkinIndex` looks
for a name at the multiples of its own length. It finds its way as long as all the names of
a model have one length; a name that is shorter than another that begins with it is found
inside of that one.
-/
namespace SkinIndex
open Configstrings Userinfo

def maxModels : Nat := 256

/-- `modelskins` are the strings from `CS_MODELSKINS` on. -/
structure Server where
  loading : Bool
  modelskins : Nat → List UInt8

/-- The configstring that is sent to all clients. -/
structure Update where
  modelindex : Nat
  skins : List UInt8
  len : Nat

/-- The loop over the stored names: whether the name was met, and the `i` it ended with. -/
def findSkin (skins lwrname : List UInt8) (i : Nat) : Bool × Nat :=
  if i < skins.length then
    if lwrname <+: skins.drop i then (true, i)
    else findSkin skins lwrname (i + lwrname.length)
  else (false, i)
termination_by skins.length - i
decreasing_by
  rename_i more other
  have nonempty : lwrname ≠ [] := by
    rintro rfl
    exact other List.nil_prefix
  have := List.length_pos_iff.mpr nonempty
  omega

def svSkinIndex (server : Server) (modelindex : Int) (name : List UInt8) :
    Nat × Server × Option Update :=
  if modelindex % 2 ^ 32 ≥ maxModels then (0, server, none)
  else if name.length ≠ 3 ∧ name.length ≥ maxQpath then (0, server, none)
  else
    let lwrname := lower name
    let model := (modelindex % 2 ^ 32).toNat
    let skins := server.modelskins model
    let (found, i) := findSkin skins lwrname 0
    if found then (i, server, none)
    else if skins.length + name.length ≥ maxQpath then (0, server, none)
    else
      let skins := skins ++ lwrname
      (i, { server with modelskins := Function.update server.modelskins model skins },
        if server.loading then none else some ⟨model, skins, name.length⟩)

structure Call where
  modelindex : Int
  name : List UInt8

def Call.model (call : Call) : Nat := (call.modelindex % 2 ^ 32).toNat

/-- The letters of a name are stored in lower case. -/
def Call.skin (call : Call) : List UInt8 := lower call.name

def offsetOf (server : Server) (call : Call) : Nat :=
  (svSkinIndex server call.modelindex call.name).1

def step (server : Server) (call : Call) : Server :=
  (svSkinIndex server call.modelindex call.name).2.1

def run (server : Server) (calls : List Call) : Server := StepRuns.run step server calls

/-- A level begins without skins. -/
def cleared (loading : Bool) : Server := ⟨loading, fun _ => []⟩

/-! ## What the offsets are for -/

/-- Each name stands at the offset that was returned for it, also when the later names have been
stored; and two calls for a model got the same offset if they named the same skin, and only
then. -/
def Indexed (loading : Bool) (calls : List Call) : Prop :=
  ∀ before call after, calls = before ++ call :: after →
    call.skin <+: ((run (cleared loading) calls).modelskins call.model).drop
      (offsetOf (run (cleared loading) before) call) ∧
    ∀ earlier other later, calls = earlier ++ other :: later → other.model = call.model →
      (offsetOf (run (cleared loading) earlier) other =
        offsetOf (run (cleared loading) before) call ↔ other.skin = call.skin)

def enter (model : Nat) (skins : List (List UInt8)) (call : Call) : List (List UInt8) :=
  if call.model = model ∧ skins.contains call.skin = false then skins ++ [call.skin] else skins

/-- The skins of a model, in the order in which they were first named. -/
def skinsOf (model : Nat) (calls : List Call) : List (List UInt8) :=
  calls.foldl (enter model) []

/-- The skins of a model have names of one length, and there is room for them. -/
structure OneLength (calls : List Call) : Prop where
  index : ∀ call ∈ calls, call.modelindex % 2 ^ 32 < maxModels
  nonempty : ∀ call ∈ calls, call.name ≠ []
  length : ∀ call ∈ calls, ∀ other ∈ calls, other.model = call.model →
    other.name.length = call.name.length
  room : ∀ call ∈ calls, call.name.length * (skinsOf call.model calls).length < maxQpath

/-! ## The search -/

theorem prefix_iff_of_length {w y rest : List UInt8} (h : w.length = y.length) :
    w <+: y ++ rest ↔ w = y := by
  constructor
  · rintro ⟨tail, htail⟩
    exact (List.append_inj htail h).1
  · rintro rfl
    exact List.prefix_append w rest

theorem length_flatten_of {records : List (List UInt8)} {len : Nat}
    (h : ∀ r ∈ records, r.length = len) : records.flatten.length = len * records.length := by
  induction records with
  | nil => simp
  | cons r records ih =>
    have hr := h r List.mem_cons_self
    have hrest := ih fun other hother => h other (List.mem_cons_of_mem r hother)
    rw [List.flatten_cons, List.length_append, hr, hrest, List.length_cons, Nat.mul_succ,
      Nat.add_comm]

theorem findSkin_here {skins w : List UInt8} {i : Nat} (more : i < skins.length)
    (here : w <+: skins.drop i) : findSkin skins w i = (true, i) := by
  rw [findSkin, if_pos more, if_pos here]

theorem findSkin_next {skins w : List UInt8} {i : Nat} (more : i < skins.length)
    (other : ¬w <+: skins.drop i) : findSkin skins w i = findSkin skins w (i + w.length) := by
  conv_lhs => rw [findSkin, if_pos more, if_neg other]

theorem findSkin_end {skins w : List UInt8} {i : Nat} (done : ¬i < skins.length) :
    findSkin skins w i = (false, i) := by
  rw [findSkin, if_neg done]

/-- From the end of the records `xs` on the search goes through `ys`. -/
theorem findSkin_records {w : List UInt8} (nonempty : w ≠ []) (xs ys : List (List UInt8))
    (hxs : ∀ r ∈ xs, r.length = w.length) (hys : ∀ r ∈ ys, r.length = w.length) :
    findSkin (xs ++ ys).flatten w (w.length * xs.length) =
      if w ∈ ys then (true, w.length * (xs.length + ys.idxOf w))
      else (false, w.length * (xs ++ ys).length) := by
  have hpos := List.length_pos_iff.mpr nonempty
  induction ys generalizing xs with
  | nil =>
    have hlength := length_flatten_of hxs
    rw [findSkin_end (by rw [List.append_nil]; omega), if_neg List.not_mem_nil, List.append_nil]
  | cons y ys ih =>
    have hlength := length_flatten_of hxs
    have hy := hys y List.mem_cons_self
    have hmore : w.length * xs.length < (xs ++ y :: ys).flatten.length := by
      simp only [List.flatten_append, List.flatten_cons, List.length_append]
      omega
    have hdrop : (xs ++ y :: ys).flatten.drop (w.length * xs.length) = y ++ ys.flatten := by
      rw [List.flatten_append, List.flatten_cons, ← hlength, List.drop_left]
    by_cases same : w = y
    · subst same
      rw [findSkin_here hmore (by rw [hdrop]; exact List.prefix_append w _),
        if_pos List.mem_cons_self, List.idxOf_cons_self, Nat.add_zero]
    · have hother : ¬w <+: (xs ++ y :: ys).flatten.drop (w.length * xs.length) := by
        rwa [hdrop, prefix_iff_of_length hy.symm]
      have hnext := ih (xs ++ [y])
        (by
          intro r hr
          rcases List.mem_append.mp hr with hr | hr
          · exact hxs r hr
          · rw [List.mem_singleton.mp hr, hy])
        (fun r hr => hys r (List.mem_cons_of_mem y hr))
      rw [findSkin_next hmore hother]
      simp only [List.append_assoc, List.singleton_append, List.length_append,
        List.length_singleton, Nat.mul_add, Nat.mul_one] at hnext
      rw [hnext, List.idxOf_cons_ne ys (Ne.symm same)]
      simp only [List.mem_cons, same, false_or, List.length_append, List.length_cons, Nat.mul_add,
        Nat.mul_one, Nat.succ_eq_add_one]
      split
      · rw [Nat.add_assoc, Nat.add_comm w.length]
      · exact rfl

/-! ## The records of a model -/

theorem skinsOf_concat (model : Nat) (calls : List Call) (call : Call) :
    skinsOf model (calls ++ [call]) = enter model (skinsOf model calls) call := by
  simp only [skinsOf, List.foldl_append, List.foldl_cons, List.foldl_nil]

theorem enter_eq (model : Nat) (skins : List (List UInt8)) (call : Call) :
    enter model skins call =
      if call.model = model ∧ call.skin ∉ skins then skins ++ [call.skin] else skins := by
  simp only [enter]
  refine if_congr (and_congr_right fun _ => ?_) rfl rfl
  rw [← List.contains_iff_mem, Bool.not_eq_true]

theorem prefix_enter (model : Nat) (skins : List (List UInt8)) (call : Call) :
    skins <+: enter model skins call := by
  rw [enter_eq]
  split
  · exact List.prefix_append skins [call.skin]
  · exact List.prefix_refl skins

theorem skinsOf_front (model : Nat) (calls others : List Call) :
    skinsOf model calls <+: skinsOf model (calls ++ others) := by
  induction others using List.reverseRecOn with
  | nil => rw [List.append_nil]
  | append_singleton others call ih =>
    rw [← List.append_assoc, skinsOf_concat]
    exact ih.trans (prefix_enter model _ call)

theorem mem_skinsOf {model : Nat} {calls : List Call} {skin : List UInt8}
    (h : skin ∈ skinsOf model calls) :
    ∃ call ∈ calls, call.model = model ∧ call.skin = skin := by
  induction calls using List.reverseRecOn with
  | nil => exact absurd h List.not_mem_nil
  | append_singleton calls call ih =>
    rw [skinsOf_concat, enter_eq] at h
    split at h
    · next hnew =>
      rcases List.mem_append.mp h with h | h
      · obtain ⟨other, hother, rest⟩ := ih h
        exact ⟨other, List.mem_append_left _ hother, rest⟩
      · exact ⟨call, List.mem_append_right _ List.mem_cons_self, hnew.1,
          (List.mem_singleton.mp h).symm⟩
    · obtain ⟨other, hother, rest⟩ := ih h
      exact ⟨other, List.mem_append_left _ hother, rest⟩

theorem skin_mem_skinsOf (calls others : List Call) (call : Call) :
    call.skin ∈ skinsOf call.model (calls ++ call :: others) := by
  have hsplit : calls ++ call :: others = (calls ++ [call]) ++ others := by simp
  rw [hsplit]
  refine (skinsOf_front call.model (calls ++ [call]) others).subset ?_
  rw [skinsOf_concat, enter_eq]
  split
  · exact List.mem_append_right _ List.mem_cons_self
  · next known =>
    rw [not_and, not_not] at known
    exact known rfl

theorem skin_length (call : Call) : call.skin.length = call.name.length := List.length_map _

/-! ## A run -/

theorem OneLength.before {calls others : List Call} (h : OneLength (calls ++ others)) :
    OneLength calls where
  index call hcall := h.index call (List.mem_append_left others hcall)
  nonempty call hcall := h.nonempty call (List.mem_append_left others hcall)
  length call hcall other hother :=
    h.length call (List.mem_append_left others hcall) other (List.mem_append_left others hother)
  room call hcall :=
    lt_of_le_of_lt
      (Nat.mul_le_mul_left _ (skinsOf_front call.model calls others).length_le)
      (h.room call (List.mem_append_left others hcall))

/-- The records of the model of the next call have the length of its name. -/
theorem OneLength.records {calls : List Call} {call : Call} (h : OneLength (calls ++ [call])) :
    ∀ r ∈ skinsOf call.model calls, r.length = call.skin.length := by
  intro r hr
  obtain ⟨other, hother, hmodel, rfl⟩ := mem_skinsOf hr
  rw [skin_length, skin_length]
  exact h.length call (List.mem_append_right _ List.mem_cons_self) other
    (List.mem_append_left _ hother) hmodel

/-- The call is not turned away at once. -/
structure Asks (call : Call) : Prop where
  index : ¬call.modelindex % 2 ^ 32 ≥ maxModels
  short : ¬(call.name.length ≠ 3 ∧ call.name.length ≥ maxQpath)

theorem svSkinIndex_found {server : Server} {call : Call} (h : Asks call) {i : Nat}
    (found : findSkin (server.modelskins call.model) call.skin 0 = (true, i)) :
    svSkinIndex server call.modelindex call.name = (i, server, none) := by
  have hfound : findSkin (server.modelskins (call.modelindex % 2 ^ 32).toNat) (lower call.name) 0 =
      (true, i) := found
  simp only [svSkinIndex, if_neg h.index, if_neg h.short, hfound, if_true]

theorem svSkinIndex_new {server : Server} {call : Call} (h : Asks call) {i : Nat}
    (other : findSkin (server.modelskins call.model) call.skin 0 = (false, i))
    (room : ¬(server.modelskins call.model).length + call.name.length ≥ maxQpath) :
    offsetOf server call = i ∧ (step server call).modelskins =
      Function.update server.modelskins call.model
        (server.modelskins call.model ++ call.skin) := by
  have hother : findSkin (server.modelskins (call.modelindex % 2 ^ 32).toNat) (lower call.name) 0 =
      (false, i) := other
  have hroom : ¬(server.modelskins (call.modelindex % 2 ^ 32).toNat).length + call.name.length ≥
      maxQpath := room
  simp only [offsetOf, step, svSkinIndex, if_neg h.index, if_neg h.short, hother, if_neg hroom,
    Bool.false_eq_true, if_false]
  exact ⟨trivial, rfl⟩

theorem OneLength.asks {calls : List Call} {call : Call} (h : OneLength (calls ++ [call])) :
    Asks call where
  index := not_le.mpr (h.index call (List.mem_append_right _ List.mem_cons_self))
  short := by
    have hroom := h.room call (List.mem_append_right _ List.mem_cons_self)
    have hmem := List.length_pos_of_mem (skin_mem_skinsOf calls [] call)
    have := Nat.le_mul_of_pos_right call.name.length hmem
    omega

/-- What one call does to the records. -/
theorem svSkinIndex_records {server : Server} {calls : List Call} {call : Call}
    (h : OneLength (calls ++ [call]))
    (stored : ∀ model, server.modelskins model = (skinsOf model calls).flatten) :
    offsetOf server call =
        call.name.length * (skinsOf call.model (calls ++ [call])).idxOf call.skin ∧
      ∀ model, (step server call).modelskins model = (skinsOf model (calls ++ [call])).flatten := by
  have nonempty : call.skin ≠ [] := by
    have hname := h.nonempty call (List.mem_append_right _ List.mem_cons_self)
    rwa [← List.length_pos_iff, skin_length, List.length_pos_iff]
  have hsearch := findSkin_records nonempty [] (skinsOf call.model calls) (by simp) h.records
  rw [List.nil_append, ← stored, List.length_nil, Nat.mul_zero, Nat.zero_add, skin_length]
    at hsearch
  by_cases known : call.skin ∈ skinsOf call.model calls
  · rw [if_pos known] at hsearch
    have hsame : ∀ model, skinsOf model (calls ++ [call]) = skinsOf model calls := by
      intro model
      rw [skinsOf_concat, enter_eq, if_neg]
      rintro ⟨rfl, new⟩
      exact new known
    have hcall := svSkinIndex_found h.asks hsearch
    refine ⟨?_, ?_⟩
    · rw [offsetOf, hcall, hsame]
    · intro model
      rw [step, hcall, hsame, stored]
  · rw [if_neg known] at hsearch
    have hnew : skinsOf call.model (calls ++ [call]) =
        skinsOf call.model calls ++ [call.skin] := by
      rw [skinsOf_concat, enter_eq, if_pos ⟨rfl, known⟩]
    have hroom := h.room call (List.mem_append_right _ List.mem_cons_self)
    have hlength := length_flatten_of h.records
    rw [hnew, List.length_append, List.length_singleton, Nat.mul_succ] at hroom
    rw [skin_length, ← stored] at hlength
    obtain ⟨hoffset, hskins⟩ := svSkinIndex_new h.asks hsearch (by omega)
    refine ⟨?_, ?_⟩
    · rw [hoffset, hnew, List.idxOf_append_of_notMem known, List.idxOf_cons_self, Nat.add_zero]
    · intro model
      rw [hskins]
      by_cases same : model = call.model
      · subst same
        rw [Function.update_self, hnew, List.flatten_append, List.flatten_singleton, stored]
      · rw [Function.update_of_ne same, stored, skinsOf_concat, enter_eq, if_neg]
        rintro ⟨rfl, _⟩
        exact same rfl

/-- A model has the skins it was asked for, in the order of the calls. -/
theorem run_records (loading : Bool) (calls : List Call) (h : OneLength calls) (model : Nat) :
    (run (cleared loading) calls).modelskins model = (skinsOf model calls).flatten := by
  induction calls using List.reverseRecOn generalizing model with
  | nil => exact rfl
  | append_singleton calls call ih =>
    have hrun : run (cleared loading) (calls ++ [call]) = step (run (cleared loading) calls) call :=
      StepRuns.run_concat step _ calls call
    rw [hrun]
    exact (svSkinIndex_records h (ih h.before)).2 model

/-- A skin keeps the offset that it gets. -/
theorem offsetOf_eq {loading : Bool} {before after : List Call} {call : Call}
    (h : OneLength (before ++ call :: after)) :
    offsetOf (run (cleared loading) before) call =
      call.name.length * (skinsOf call.model (before ++ call :: after)).idxOf call.skin := by
  have hsplit : before ++ call :: after = (before ++ [call]) ++ after := by simp
  have hfirst : OneLength (before ++ [call]) := by
    rw [hsplit] at h
    exact h.before
  have hoffset := (svSkinIndex_records hfirst (run_records loading before hfirst.before)).1
  obtain ⟨rest, hrest⟩ := skinsOf_front call.model (before ++ [call]) after
  rw [hoffset, hsplit, ← hrest, List.idxOf_append_of_mem (skin_mem_skinsOf before [] call)]

theorem prefix_drop_records {records : List (List UInt8)} {w : List UInt8} {len : Nat}
    (hlength : ∀ r ∈ records, r.length = len) (h : w ∈ records) :
    w <+: records.flatten.drop (len * records.idxOf w) := by
  obtain ⟨first, rest, rfl, hfirst⟩ := List.eq_append_cons_of_mem h
  have hbefore := length_flatten_of fun r hr => hlength r (List.mem_append_left _ hr)
  rw [List.idxOf_append_of_notMem hfirst, List.idxOf_cons_self, Nat.add_zero, List.flatten_append,
    List.flatten_cons, ← hbefore, List.drop_left]
  exact List.prefix_append w rest.flatten

/-- As long as the skins of a model have names of one length and there is room for them,
`SV_SkinIndex` gives each its own offset and keeps it. -/
theorem svSkinIndex_indexed (loading : Bool) (calls : List Call) (uniform : OneLength calls) :
    Indexed loading calls := by
  have hmember : ∀ before call after, calls = before ++ call :: after →
      call ∈ calls ∧ call.skin ∈ skinsOf call.model calls := by
    rintro before call after rfl
    exact ⟨List.mem_append_right _ List.mem_cons_self, skin_mem_skinsOf before after call⟩
  have hoffset : ∀ before call after, calls = before ++ call :: after →
      offsetOf (run (cleared loading) before) call =
        call.name.length * (skinsOf call.model calls).idxOf call.skin := by
    rintro before call after rfl
    exact offsetOf_eq uniform
  have hlength : ∀ call ∈ calls, ∀ r ∈ skinsOf call.model calls, r.length = call.name.length := by
    intro call hcall r hr
    obtain ⟨other, hother, hmodel, rfl⟩ := mem_skinsOf hr
    rw [skin_length]
    exact uniform.length call hcall other hother hmodel
  intro before call after hcalls
  obtain ⟨hcall, hskin⟩ := hmember before call after hcalls
  refine ⟨?_, ?_⟩
  · rw [hoffset before call after hcalls, run_records loading calls uniform]
    exact prefix_drop_records (hlength call hcall) hskin
  · intro earlier other later hsplit hmodel
    obtain ⟨hother, hname⟩ := hmember earlier other later hsplit
    have hpos := List.length_pos_iff.mpr (uniform.nonempty call hcall)
    rw [hoffset before call after hcalls, hoffset earlier other later hsplit, hmodel,
      uniform.length call hcall other hother hmodel]
    rw [hmodel] at hname
    constructor
    · intro same
      exact (List.idxOf_inj hname).mp (Nat.eq_of_mul_eq_mul_left hpos same)
    · intro same
      rw [same]

/-- The three skins of a head, one of them named twice. -/
private def heads : List Call :=
  [⟨7, [48, 48, 49]⟩, ⟨7, [48, 48, 50]⟩, ⟨9, [65]⟩, ⟨7, [48, 48, 49]⟩]

theorem svSkinIndex_indexed_heads : OneLength heads ∧ Indexed true heads := by
  have uniform : OneLength heads := by
    constructor <;> decide
  exact ⟨uniform, svSkinIndex_indexed true heads uniform⟩

/-- The skin `ab` is found inside of `abc`. -/
theorem shorter_name_found : ¬Indexed true [⟨7, [97, 98, 99]⟩, ⟨7, [97, 98]⟩] := by
  intro indexed
  have hlong : Asks ⟨7, [97, 98, 99]⟩ := by constructor <;> decide
  have hshort : Asks ⟨7, [97, 98]⟩ := by constructor <;> decide
  obtain ⟨hfirst, hstored⟩ := @svSkinIndex_new (cleared true) ⟨7, [97, 98, 99]⟩ hlong 0
    (findSkin_end (by decide)) (by decide)
  have hserver : (step (cleared true) ⟨7, [97, 98, 99]⟩).modelskins 7 = [97, 98, 99] := by
    rw [hstored]
    exact rfl
  have hsecond : offsetOf (step (cleared true) ⟨7, [97, 98, 99]⟩) ⟨7, [97, 98]⟩ = 0 := by
    refine congrArg Prod.fst (svSkinIndex_found hshort (findSkin_here ?_ ?_))
    · exact hserver.symm ▸ (by decide)
    · exact hserver.symm ▸ (by decide)
  have hsame := (indexed [⟨7, [97, 98, 99]⟩] ⟨7, [97, 98]⟩ [] rfl).2 [] ⟨7, [97, 98, 99]⟩
    [⟨7, [97, 98]⟩] rfl rfl
  exact absurd (hsame.mp (hfirst.trans hsecond.symm)) (by decide)

end SkinIndex
