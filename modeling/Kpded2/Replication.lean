import Kpded2.SignonMessages
import Kpded2.SkinIndex
import Kpded2.TableCopies

/-!
# The configstrings of a client

A client is sent the configstrings when it signs on, with the files that can be downloaded in place
of the images, and the images when it begins. Changes of the table in the running level are sent to
everyone, but those of images not to a client that has not begun.

The messages are those that `SV_AddMessageSingle` does not turn away, as it does for a client whose
list has overflown or that has to reconnect first; such a client is dropped. What is put behind a
string for `CS_MODELSKINS` is no matter to the table.
-/
namespace Replication
open Configstrings MessageList SignonMessages SizeBuf StepRuns TableCopies Userinfo
open MessageBuffer (csImages maxImages configstringIndex)
open SkinIndex (findSkin)

/-! ## Calls that change the table -/

/-- A string of C. -/
abbrev Name := {s : List UInt8 // 0 ∉ s}

/-- A string for an index, and what stands behind it in the message. -/
structure Update where
  index : Nat
  string : List UInt8
  tail : List UInt8 := []

/-- What a call returns, what it makes of the table and what it sends. -/
structure Result where
  value : Nat
  configstrings : Table
  update : Option Update

/-- The parts of the table in which `SV_FindIndex` looks for a name. -/
inductive Part where
  | models
  | sounds
  | images
  deriving DecidableEq

def Part.start : Part → Nat
  | .models => csModels
  | .sounds => csSounds
  | .images => csImages

def Part.maxIndex : Part → Nat
  | .models => maxModels
  | .sounds => maxSounds
  | .images => maxImages

/-- The loop of `SV_FindIndex` from `i` on: whether the name was met, and the `i` it ended with. -/
def findName (t : Table) (name : List UInt8) (start maxIndex i : Nat) : Bool × Nat :=
  if i < maxIndex ∧ t (place (start + i)) ≠ 0 then
    if sameString t (place (start + i)) name then (true, i)
    else findName t name start maxIndex (i + 1)
  else (false, i)
termination_by maxIndex - i

def strncpyAt (t : Table) (start : Nat) (s : List UInt8) (n : Nat) : Table :=
  fun k => if start ≤ k ∧ k < start + n then s.getD (k - start) 0 else t k

/-- `none` is the error of a part without room. -/
def svFindIndex (loading : Bool) (part : Part) (name : List UInt8) (create : Bool) (t : Table) :
    Option Result :=
  if name = [] then some ⟨0, t, none⟩
  else
    let (found, i) := findName t name part.start part.maxIndex 1
    if found then some ⟨i, t, none⟩
    else if !create then some ⟨0, t, none⟩
    else if i = part.maxIndex then none
    else
      let index := part.start + i
      let t := strncpyAt t (place index) name (maxQpath - 1)
      some ⟨i, t, if loading then none else some { index, string := stringAt t (place index) }⟩

def svSkinIndex (loading : Bool) (modelindex : Int) (name : List UInt8) (t : Table) : Result :=
  if modelindex % 2 ^ 32 ≥ maxModels then ⟨0, t, none⟩
  else if name.length ≠ 3 ∧ name.length ≥ maxQpath then ⟨0, t, none⟩
  else
    let lwrname := lower name
    let index := csModelskins + (modelindex % 2 ^ 32).toNat
    let skins := stringAt t (place index)
    let (found, i) := findSkin skins lwrname 0
    if found then ⟨i, t, none⟩
    else if skins.length + name.length ≥ maxQpath then ⟨0, t, none⟩
    else
      let t := copy t (place index + skins.length) lwrname
      ⟨i, t, if loading then none
        else some ⟨index, stringAt t (place index), [UInt8.ofNat name.length]⟩⟩

/-! ## Messages -/

def Update.message (u : Update) : List UInt8 :=
  svcConfigstring :: (shortBytes u.index ++ (u.string ++ 0 :: u.tail))

/-- `dlconfigstrings` does not change any more, and `queued` are the reliable messages that were
queued for the client so far. -/
structure Game where
  configstrings : Table
  dlconfigstrings : Nat → List UInt8
  state : ClientState
  queued : List (List UInt8)

/-- The reasons of `SV_Multicast` to leave a client out. -/
def leavesOut (state : ClientState) (message : List UInt8) : Bool :=
  decide (state = .free ∨ state = .zombie) ||
    (decide (state ≠ .spawned) && decide (csImages < configstringIndex message ∧
      configstringIndex message < csImages + maxImages))

def svMulticast (message : List UInt8) (g : Game) : Game :=
  if leavesOut g.state message then g else { g with queued := g.queued ++ [message] }

def announce (t : Table) (update : Option Update) (g : Game) : Game :=
  let g := { g with configstrings := t }
  match update with
  | none => g
  | some u => svMulticast u.message g

/-- The images, and an empty one if the first place had a file that can be downloaded. -/
def imageMessages (t : Table) (dlconfigstrings : Nat → List UInt8) : List (List UInt8) :=
  (List.range maxImages).filterMap fun i =>
    if t (place (csImages + i)) ≠ 0 ∨ (i = 0 ∧ dlconfigstrings i ≠ []) then
      some (Update.message { index := csImages + i, string := stringAt t (place (csImages + i)) })
    else none

/-! ## A client's signon in the running level -/

inductive Event where
  | configstring (call : Call)
  | findIndex (part : Part) (name : Name) (create : Bool)
  | skinIndex (modelindex : Int) (name : Name)
  | new (s : Signon)
  | begin (sameLevel : Bool) (s : Signon)
  | drop

/-- What `SV_New_f` finds in the running level. -/
def inLevel (s : Signon) (g : Game) : Signon :=
  { s with
    configstrings := g.configstrings
    dlconfigstrings := g.dlconfigstrings
    inGame := true }

/-- `SV_New_f` for a client that is connected. -/
def svNew (s : Signon) (g : Game) : Game :=
  { g with state := .spawning, queued := g.queued ++ signon (inLevel s g) }

def svDropClient (g : Game) : Game := { g with state := .zombie }

def newCommand (s : Signon) (g : Game) : Game :=
  match g.state with
  | .connected => svNew s g
  | .spawning => svDropClient g
  | _ => g

def svClientBegin (g : Game) : Game :=
  { g with
    state := .spawned
    queued := g.queued ++ imageMessages g.configstrings g.dlconfigstrings }

/-- A client that begins another level has to sign on again. -/
def beginCommand (sameLevel : Bool) (s : Signon) (g : Game) : Game :=
  match g.state with
  | .spawning => if sameLevel then svClientBegin g else svNew s g
  | .connected | .spawned => svDropClient g
  | _ => g

/-- A call that ends in an error is none of the run. -/
def step (g : Game) : Event → Game
  | .configstring call =>
    match pfConfigstring { call with loading := false } g.configstrings with
    | .ok (t, sent) => announce t (sent.map fun u => { index := u.1, string := u.2 }) g
    | .error _ => g
  | .findIndex part name create =>
    match svFindIndex false part name create g.configstrings with
    | some result => announce result.configstrings result.update g
    | none => g
  | .skinIndex modelindex name =>
    let result := svSkinIndex false modelindex name g.configstrings
    announce result.configstrings result.update g
  | .new s => newCommand s g
  | .begin sameLevel s => beginCommand sameLevel s g
  | .drop => svDropClient g

/-- A client has connected to a level that is loaded. -/
def connected (table : Table) (dlconfigstrings : Nat → List UInt8) : Game :=
  ⟨table, dlconfigstrings, .connected, []⟩

/-! ## The reference client -/

def receive (c : Table) : List UInt8 → Table
  | type :: lo :: hi :: text =>
    if type = svcConfigstring then copy c (place (lo.toNat + 256 * hi.toNat)) (cString text) else c
  | _ => c

/-- The table of the client when everything has arrived. -/
def shown (queued : List (List UInt8)) : Table := queued.foldl receive fun _ => 0

def Image (index : Nat) : Prop := csImages ≤ index ∧ index < csImages + maxImages

/-- A client that has begun holds the strings of the server, of the images those that are not
empty. -/
def Replicated (g : Game) : Prop :=
  g.state = .spawned → ∀ index < maxConfigstrings,
    ¬Image index ∨ stringAt g.configstrings (place index) ≠ [] →
      stringAt (shown g.queued) (place index) = stringAt g.configstrings (place index)

/-- The call cuts off a map name that runs on over its place. -/
def CutsName (call : Call) (t : Table) : Prop :=
  call.slot = csCdtrack ∧ t (place csCdtrack) ≠ 0 ∧
    ¬(atoi call.checked = 0 ∧ atoi (stringAt t (place csCdtrack)) = 0) ∧
      maxQpath ≤ (stringAt t (place csName)).length

/-- The map name is not cut off when the client has been sent the configstrings. -/
def Calm (g : Game) : Event → Prop
  | .configstring call => g.state = .spawning ∨ g.state = .spawned → ¬CutsName call g.configstrings
  | _ => True

/-! ## Messages and the reference client -/

theorem cString_terminated {s : List UInt8} (nonzero : 0 ∉ s) (behind : List UInt8) :
    cString (s ++ 0 :: behind) = s :=
  Bytes.takeWhile_terminated nonzero behind

theorem short_value {index : Nat} (bound : index < maxConfigstrings) :
    (UInt8.ofNat index).toNat + 256 * (UInt8.ofNat (index / 2 ^ 8)).toNat = index := by
  have max : maxConfigstrings = 3104 := rfl
  rw [UInt8.toNat_ofNat', UInt8.toNat_ofNat']
  omega

theorem receive_configstring (c : Table) {index : Nat} (bound : index < maxConfigstrings)
    (text : List UInt8) :
    receive c (svcConfigstring :: (shortBytes index ++ text)) =
      copy c (place index) (cString text) := by
  change (if svcConfigstring = svcConfigstring then copy c
    (place ((UInt8.ofNat index).toNat + 256 * (UInt8.ofNat (index / 2 ^ 8)).toNat)) (cString text)
    else c) = _
  rw [if_pos rfl, short_value bound]

theorem receive_update (c : Table) {u : Update} (bound : u.index < maxConfigstrings)
    (nonzero : 0 ∉ u.string) : receive c u.message = copy c (place u.index) u.string := by
  rw [Update.message, receive_configstring c bound, cString_terminated nonzero]

/-- The message is no configstring. -/
def Other (message : List UInt8) : Prop := message.head? ≠ some svcConfigstring

theorem other_cons {type : UInt8} (rest : List UInt8) (different : type ≠ svcConfigstring) :
    Other (type :: rest) :=
  fun same => different (Option.some.inj same)

theorem other_stufftext (text : List UInt8) : Other (stufftext text) := other_cons _ (by decide)

theorem receive_other (c : Table) {message : List UInt8} (other : Other message) :
    receive c message = c := by
  rw [receive.eq_def]
  split
  · rename_i type lo hi text
    exact if_neg fun same => other (congrArg some same)
  · exact rfl

theorem foldl_receive_other (c : Table) {messages : List (List UInt8)}
    (others : ∀ m ∈ messages, Other m) : messages.foldl receive c = c := by
  induction messages with
  | nil => exact rfl
  | cons m messages ih =>
    rw [List.foldl_cons, receive_other c (others m List.mem_cons_self)]
    exact ih fun other later => others other (List.mem_cons_of_mem m later)

theorem shown_append (queued messages : List (List UInt8)) :
    shown (queued ++ messages) = messages.foldl receive (shown queued) :=
  List.foldl_append

theorem configstringIndex_message {u : Update} (bound : u.index < maxConfigstrings) :
    configstringIndex u.message = u.index := by
  have max : maxConfigstrings = 3104 := rfl
  change int16 ((UInt8.ofNat u.index).toNat + 256 * (UInt8.ofNat (u.index / 2 ^ 8)).toNat) = _
  rw [short_value bound, MessageStorage.int16_of_lt (by omega)]

/-! ## What a call does to the table -/

/-- The call leaves the table `t'` and sends the string that now stands at the index. Changes in
`Silent` are not sent. -/
structure Sends (Silent : Nat → Prop) (t t' : Table) (u : Update) : Prop where
  index : u.index < maxConfigstrings
  string : 0 ∉ u.string
  holds : ∀ p < tableSize, place u.index ≤ p → p ≤ place u.index + u.string.length →
    t' p = byteAt u.string (p - place u.index)
  frame : ∀ p < tableSize, ¬Silent p → Visible t' p →
    ¬(place u.index ≤ p ∧ p ≤ place u.index + u.string.length) → t' p = t p
  own : csModels < u.index → u.index < csGeneral → ∀ p, slotOf p ≠ u.index → t' p = t p

/-- What a call does to the table, and what it sends. -/
def Changes (Silent : Nat → Prop) (t t' : Table) : Option Update → Prop
  | none => ∀ p < tableSize, ¬Silent p → Visible t' p → t' p = t p
  | some u => Sends Silent t t' u

variable {Silent : Nat → Prop} {t t' c : Table}

theorem changes_none (t : Table) : Changes Silent t t none := fun _ _ _ _ => rfl

theorem place_lt_tableSize {index : Nat} (bound : index < maxConfigstrings) :
    place index < tableSize :=
  place_lt bound

/-- The string that stands at the index is sent, and all that has changed is visible there. -/
theorem sends_stringAt {index : Nat} (tail : List UInt8) (bound : index < maxConfigstrings)
    (reached : ∀ p < tableSize, ¬Silent p → Visible t' p → t' p ≠ t p → Reaches t' (place index) p)
    (own : ∀ p, slotOf p ≠ index → t' p = t p) :
    Sends Silent t t' ⟨index, stringAt t' (place index), tail⟩ where
  index := bound
  string := stringAt_nonzero t' (place index)
  holds := fun _ inside low high => stringAt_byte inside low high
  frame := by
    intro p inside known visible outside
    by_contra changed
    exact outside ((reaches_iff inside).mp (reached p inside known visible changed))
  own := fun _ _ => own

/-! ### `SV_FindIndex` -/

theorem findName_spec (t : Table) (name : List UInt8) (start maxIndex i : Nat) (low : 1 ≤ i)
    (high : i ≤ maxIndex) :
    1 ≤ (findName t name start maxIndex i).2 ∧ (findName t name start maxIndex i).2 ≤ maxIndex := by
  fun_induction findName t name start maxIndex i with
  | case1 i more same => exact ⟨low, high⟩
  | case2 i more other ih => exact ih (Nat.le_succ_of_le low) more.1
  | case3 i done => exact ⟨low, high⟩

theorem slotOf_of_within {index p : Nat} (low : place index ≤ p)
    (high : p < place index + maxQpath) : slotOf p = index := by
  have path : maxQpath = 64 := rfl
  simp only [place, slotOf, path] at *
  omega

/-- A new name is announced. -/
theorem svFindIndex_changes {part : Part} {name : List UInt8} {create : Bool} {result : Result}
    (returns : svFindIndex false part name create t = some result) :
    Changes Silent t result.configstrings result.update := by
  simp only [svFindIndex, Bool.false_eq_true, if_false] at returns
  split at returns
  · cases returns
    exact changes_none t
  · split at returns
    · cases returns
      exact changes_none t
    · split at returns
      · cases returns
        exact changes_none t
      · split at returns
        · cases returns
        · rename_i full
          cases returns
          have spec := findName_spec t name part.start part.maxIndex 1 (Nat.le_refl 1)
            (by cases part <;> decide)
          have bound : part.start + (findName t name part.start part.maxIndex 1).2 <
              maxConfigstrings := by
            have room : part.start + part.maxIndex ≤ maxConfigstrings := by cases part <;> decide
            omega
          refine sends_stringAt [] bound (fun p _ _ visible changed => ?_) fun p other => ?_
          · have slot : slotOf p = part.start + (findName t name part.start part.maxIndex 1).2 := by
              by_contra other
              exact changed (if_neg fun within => other (slotOf_of_within within.1
                (Nat.lt_of_lt_of_le within.2 (Nat.add_le_add_left (Nat.sub_le _ _) _))))
            rwa [Visible, slot] at visible
          · exact if_neg fun within => other (slotOf_of_within within.1
              (Nat.lt_of_lt_of_le within.2 (Nat.add_le_add_left (Nat.sub_le _ _) _)))

/-! ### `SV_SkinIndex` -/

/-- A new skin is announced. -/
theorem svSkinIndex_changes (modelindex : Int) {name : List UInt8} (nonzero : 0 ∉ name) :
    Changes Silent t (svSkinIndex false modelindex name t).configstrings
      (svSkinIndex false modelindex name t).update := by
  simp only [svSkinIndex, Bool.false_eq_true, if_false]
  split
  · exact changes_none t
  · rename_i model
    split
    · exact changes_none t
    · split
      · exact changes_none t
      · split
        · exact changes_none t
        · rename_i room
          have path : maxQpath = 64 := rfl
          have base : csModelskins + maxModels ≤ maxConfigstrings := by decide
          have bound : csModelskins + (modelindex % 2 ^ 32).toNat < maxConfigstrings := by omega
          have lwrname : (lower name).length = name.length := List.length_map _
          generalize csModelskins + (modelindex % 2 ^ 32).toNat = index at *
          refine sends_stringAt _ bound (fun p inside _ visible changed => ?_) fun p other => ?_
          · by_contra unreached
            refine changed (copy_outside fun within => unreached ?_)
            have start : place index + (stringAt t (place index)).length < tableSize :=
              Nat.lt_of_le_of_lt within.1 inside
            exact reaches_appended (not_mem_lower nonzero) start
              (Nat.le_trans (Nat.le_add_right _ _) within.1) within.2
          · refine copy_outside fun within => other (slotOf_of_within ?_ ?_)
            · exact Nat.le_trans (Nat.le_add_right _ _) within.1
            · omega

/-- The strings of the table are those that `SkinIndex` keeps by themselves. -/
structure HoldsSkins (server : SkinIndex.Server) (t : Table) : Prop where
  string : ∀ i < SkinIndex.maxModels, stringAt t (place (csModelskins + i)) = server.modelskins i
  short : ∀ i < SkinIndex.maxModels, (server.modelskins i).length < maxQpath

/-- What is appended to the string of a model leaves those of the others. -/
theorem HoldsSkins.append {server : SkinIndex.Server} {model : Nat} {skins : List UInt8}
    (holds : HoldsSkins server t) (inside : model < SkinIndex.maxModels) (nonzero : 0 ∉ skins)
    (room : (server.modelskins model).length + skins.length < maxQpath) :
    HoldsSkins
      { server with modelskins :=
          Function.update server.modelskins model (server.modelskins model ++ skins) }
      (copy t (place (csModelskins + model) + (server.modelskins model).length) skins) := by
  have path : maxQpath = 64 := rfl
  have models : SkinIndex.maxModels = 256 := rfl
  have base : csModelskins + SkinIndex.maxModels ≤ maxConfigstrings := by decide
  have within : ∀ i < SkinIndex.maxModels, place (csModelskins + i) + maxQpath ≤ tableSize := by
    intro i below
    rw [← place_succ]
    exact place_mono (by omega)
  constructor
  · intro i below
    dsimp only
    by_cases same : i = model
    · subst same
      have slot := within i below
      rw [Function.update_self, ← holds.string i below]
      exact stringAt_appended nonzero (by rw [holds.string i below]; omega)
    · rw [Function.update_of_ne same, ← holds.string i below]
      refine stringAt_of_shows (Nat.le_trans (Nat.le_add_right _ _) (within i below)) ?_
      intro p bound reaches
      have reached := ((reaches_iff bound).mp reaches).2
      rw [holds.string i below] at reached
      have short := holds.short i below
      have low := reaches.1
      refine copy_outside fun copied => same ?_
      simp only [place, path] at copied low reached
      omega
  · intro i below
    dsimp only
    by_cases same : i = model
    · subst same
      rw [Function.update_self, List.length_append]
      exact room
    · rw [Function.update_of_ne same]
      exact holds.short i below

/-- On the table `SV_SkinIndex` does what it does on the strings alone. -/
theorem svSkinIndex_strings {server : SkinIndex.Server} (holds : HoldsSkins server t)
    (modelindex : Int) {name : List UInt8} (nonzero : 0 ∉ name) :
    (svSkinIndex server.loading modelindex name t).value =
        (SkinIndex.svSkinIndex server modelindex name).1 ∧
      (svSkinIndex server.loading modelindex name t).update =
        (SkinIndex.svSkinIndex server modelindex name).2.2.map (fun u =>
          ⟨csModelskins + u.modelindex, u.skins, [UInt8.ofNat u.len]⟩) ∧
      HoldsSkins (SkinIndex.svSkinIndex server modelindex name).2.1
        (svSkinIndex server.loading modelindex name t).configstrings := by
  simp only [svSkinIndex, SkinIndex.svSkinIndex]
  have models : SkinIndex.maxModels = maxModels := rfl
  rw [models]
  split
  · exact ⟨rfl, rfl, holds⟩
  · rename_i index
    have inside : (modelindex % 2 ^ 32).toNat < SkinIndex.maxModels := by omega
    rw [holds.string _ inside]
    split
    · exact ⟨rfl, rfl, holds⟩
    · split
      · exact ⟨rfl, rfl, holds⟩
      · split
        · exact ⟨rfl, rfl, holds⟩
        · rename_i room
          have length : (lower name).length = name.length := List.length_map _
          have appended := holds.append inside (not_mem_lower nonzero) (by omega)
          refine ⟨rfl, ?_, appended⟩
          cases server.loading with
          | true => rfl
          | false =>
            have string := appended.string _ inside
            simp only [Function.update_self] at string
            simp only [Bool.false_eq_true, if_false, Option.map_some, string]

/-! ### `PF_Configstring` -/

theorem splitAtChar_nonzero {b : UInt8} {s front behind : List UInt8} (nonzero : 0 ∉ s)
    (split : splitAtChar b s = some (front, behind)) : 0 ∉ front := by
  obtain ⟨rfl, -⟩ := splitAtChar_eq_some split
  exact fun zero => nonzero (List.mem_append_left _ zero)

theorem svFixPlayerSkin_nonzero {player : List UInt8} (nonzero : 0 ∉ player) :
    0 ∉ svFixPlayerSkin player := by
  have suffix : (0 : UInt8) ∉ defaultSuffix := by decide
  intro zero
  cases List.mem_append.mp zero with
  | inl name => exact nonzero (List.mem_of_mem_take name)
  | inr skin => exact suffix skin

theorem checkPlayerskin_nonzero {val : List UInt8} (nonzero : 0 ∉ val) :
    0 ∉ checkPlayerskin val := by
  have pname : 0 ∉ val.take (maxQpath - 1) := fun zero => nonzero (List.mem_of_mem_take zero)
  simp only [checkPlayerskin]
  split
  · exact svFixPlayerSkin_nonzero pname
  · rename_i player modelName found
    have fixed := svFixPlayerSkin_nonzero (splitAtChar_nonzero pname found)
    split
    · exact fixed
    · split
      · exact fixed
      · split
        · exact nonzero
        · exact fixed

theorem checked_nonzero (call : Call) : 0 ∉ call.checked := by
  simp only [Call.checked]
  split
  · exact checkPlayerskin_nonzero call.terminated
  · exact call.terminated

/-- What is stored is the string or, where an index has one place, the front of it. -/
theorem checkLength_cases {index : Nat} {val stored : List UInt8}
    (returns : checkLength index val = .ok stored) :
    (csModels < index ∧ index < csGeneral ∧ stored.length < maxQpath ∧
        (stored = val ∨ stored = val.take (maxQpath - 1))) ∨
      (¬(csModels < index ∧ index < csGeneral) ∧ stored = val) := by
  have path : maxQpath = 64 := rfl
  simp only [checkLength] at returns
  split at returns
  · rename_i single
    left
    refine ⟨single.1, single.2, ?_⟩
    split at returns
    · cases returns
      refine ⟨Nat.lt_of_le_of_lt (List.length_take_le _ _) (by decide), Or.inr rfl⟩
    · cases returns
      exact ⟨by omega, Or.inl rfl⟩
  · rename_i other
    right
    refine ⟨other, ?_⟩
    split at returns
    · cases returns
    · split at returns
      · split at returns
        · split at returns
          · cases returns
          · cases returns
            exact rfl
        · split at returns
          · cases returns
          · split at returns
            · split at returns
              · cases returns
              · cases returns
                exact rfl
            · cases returns
              exact rfl
      · cases returns
        exact rfl

theorem stored_nonzero {call : Call} {stored : List UInt8}
    (returns : checkLength call.slot call.checked = .ok stored) : 0 ∉ stored := by
  have nonzero := checked_nonzero call
  have front : stored = call.checked ∨ stored = call.checked.take (maxQpath - 1) :=
    (checkLength_cases returns).elim (fun single => single.2.2.2) fun other => Or.inl other.2
  cases front with
  | inl same => rwa [same]
  | inr taken =>
    rw [taken]
    exact fun zero => nonzero (List.mem_of_mem_take zero)

theorem update_cases {call : Call} (running : call.loading = false) {val : List UInt8} {t0 : Table}
    {sent : Option (Nat × List UInt8)} (returns : update call val t0 = .ok (t', sent)) :
    (t' = t0 ∧ sent = none) ∨
      (t' = copy t0 (place call.slot) val ∧ sent = some (call.slot, val) ∧
        place call.slot + val.length < tableSize) := by
  simp only [update] at returns
  split at returns
  · cases returns
    exact Or.inl ⟨rfl, rfl⟩
  · simp only [strcpyAt] at returns
    split at returns
    · rename_i room
      cases returns
      exact Or.inr ⟨rfl, by rw [running]; rfl, room⟩
    · cases returns

/-- The byte that is cleared in the map name. -/
def Cut (call : Call) (t : Table) (p : Nat) : Prop :=
  p = place csName + (maxQpath - 1) ∧ CutsName call t

theorem endName_visible {p : Nat} (short : (stringAt t (place csName)).length < maxQpath)
    (inside : p < tableSize) (visible : Visible (endName t) p) : endName t p = t p := by
  by_cases last : p = place csName + (maxQpath - 1)
  · subst last
    have same : ∀ q < place csName + (maxQpath - 1), endName t q = t q := fun q before =>
      endName_of_ne (Nat.ne_of_lt before)
    have reaches : Reaches t (place csName) (place csName + (maxQpath - 1)) := by
      refine ⟨Nat.le_add_right _ _, fun q low high => ?_⟩
      rw [← same q high]
      exact visible.2 q low high
    have within := (reaches_iff inside).mp reaches
    have path : maxQpath = 64 := rfl
    have ends : (stringAt t (place csName)).length = maxQpath - 1 := by omega
    have stops := stringAt_byte inside within.1 within.2
    rw [Nat.add_sub_cancel_left, ← ends, byteAt_end] at stops
    rw [ends] at stops
    rw [stops]
    exact Function.update_self _ _ _
  · exact endName_of_ne last

/-- The end of a call; `t0` is the table with the map name cut off. -/
theorem update_changes {call : Call} (running : call.loading = false)
    (bound : call.slot < maxConfigstrings) {stored : List UInt8}
    (checked : checkLength call.slot call.checked = .ok stored) {t0 : Table}
    {sent : Option (Nat × List UInt8)} (before : ∀ p, p < place call.slot ∨ t0 p = t p)
    (near : ∀ p < tableSize, ¬Silent p → Visible t0 p → t0 p = t p)
    (own : csModels < call.slot → t0 = t) (returns : update call stored t0 = .ok (t', sent)) :
    Changes Silent t t' (sent.map fun u => { index := u.1, string := u.2 }) := by
  rcases update_cases running returns with ⟨rfl, rfl⟩ | ⟨rfl, rfl, room⟩
  · exact near
  · refine ⟨bound, stored_nonzero checked, fun p _ low high => copy_inside ⟨low, high⟩, ?_, ?_⟩
    · intro p inside known visible outside
      rw [copy_outside outside]
      rcases before p with front | same
      · -- the string is stored behind the byte
        refine near p inside known ⟨visible.1, fun q low high => ?_⟩
        have untouched : copy t0 (place call.slot) stored q = t0 q :=
          copy_outside fun within => absurd within.1 (Nat.not_le.mpr (Nat.lt_trans high front))
        rw [← untouched]
        exact visible.2 q low high
      · exact same
    · intro low high p other
      rcases checkLength_cases checked with single | several
      · have next : place call.slot + stored.length < place call.slot + maxQpath :=
          Nat.add_lt_add_left single.2.2.1 _
        rw [copy_outside fun within =>
          other (slotOf_of_within within.1 (Nat.lt_of_le_of_lt within.2 next)), own low]
      · exact absurd ⟨low, high⟩ several.1

/-- A configstring that is changed is announced, but for what was cut. -/
theorem pfConfigstring_changes {call : Call} (running : call.loading = false)
    {sent : Option (Nat × List UInt8)} (returns : pfConfigstring call t = .ok (t', sent)) :
    Changes (Cut call t) t t' (sent.map fun u => { index := u.1, string := u.2 }) := by
  simp only [pfConfigstring] at returns
  split at returns
  · cases returns
  · rename_i valid
    have bound : call.slot < maxConfigstrings := by
      simp only [Call.slot]
      omega
    obtain ⟨stored, checked, returns⟩ := Outcome.exists_of_bind_eq_ok returns
    have plain : update call stored t = .ok (t', sent) →
        Changes (Cut call t) t t' (sent.map fun u => { index := u.1, string := u.2 }) :=
      update_changes running bound checked (fun _ => Or.inr rfl) (fun _ _ _ _ => rfl) fun _ => rfl
    split at returns
    · rename_i cdtrack
      split at returns
      · rename_i track
        have whole : stored = call.checked := by
          rcases checkLength_cases checked with single | several
          · exact absurd (cdtrack ▸ single.1) (by decide)
          · exact several.2
        split at returns
        · cases returns
          exact changes_none t
        · rename_i heeded
          refine update_changes running bound checked (fun p => ?_)
            (fun p inside known visible => ?_)
            (fun low => absurd (cdtrack ▸ low) (by decide)) returns
          · by_cases last : p = place csName + (maxQpath - 1)
            · left
              rw [last, cdtrack]
              decide
            · exact Or.inr (endName_of_ne last)
          · by_cases short : (stringAt t (place csName)).length < maxQpath
            · exact endName_visible short inside visible
            · refine endName_of_ne fun last => known ⟨last, cdtrack, track, ?_, not_lt.mp short⟩
              rwa [← whole]
      · exact plain returns
    · split at returns
      · cases returns
      · exact plain returns

/-! ## What a client holds -/

/-- The first image has no place of its own for a client that was not sent a file there. -/
def FirstImage (g : Game) (c : Table) : Prop :=
  g.dlconfigstrings 0 = [] → g.configstrings (place csImages) = 0 → c (place csImages) = 0

/-- Before the signon: what is empty on the server is empty for the client. -/
structure Waiting (g : Game) (c : Table) : Prop where
  empty : ∀ index < maxConfigstrings, ¬Image index →
    g.configstrings (place index) = 0 → c (place index) = 0
  first : FirstImage g c

/-- After the signon: the client has all but the images. -/
structure Signing (g : Game) (c : Table) : Prop where
  agrees : ∀ index < maxConfigstrings, ¬Image index → Agrees g.configstrings c index
  first : FirstImage g c

/-- In the game. -/
def Playing (g : Game) (c : Table) : Prop :=
  ∀ index < maxConfigstrings, ¬Image index ∨ g.configstrings (place index) ≠ 0 →
    Shows g.configstrings c (place index)

def Inv (g : Game) : Prop :=
  match g.state with
  | .connected => Waiting g (shown g.queued)
  | .spawning => Signing g (shown g.queued)
  | .spawned => Playing g (shown g.queued)
  | _ => True

section
variable {Told : Nat → Prop} {g : Game} {c' : Table} {queued : List (List UInt8)}

theorem image_first_lt : csImages < maxConfigstrings := by decide

theorem Waiting.follows (waiting : Waiting g c)
    (follows : Follows Silent Told g.configstrings t' c c')
    (known : ∀ index, ¬Image index ∨ index = csImages → ¬Silent (place index)) :
    Waiting { g with configstrings := t', queued } c' where
  empty := fun index bound other =>
    follows.empty (place_lt_tableSize bound) (known index (Or.inl other))
      (waiting.empty index bound other)
  first := fun none =>
    follows.empty (place_lt_tableSize image_first_lt) (known csImages (Or.inr rfl))
      (waiting.first none)

theorem Signing.follows (signing : Signing g c)
    (follows : Follows Silent Told g.configstrings t' c c')
    (known : ∀ p, ¬Image (slotOf p) → ¬Silent p) (first : ¬Silent (place csImages)) :
    Signing { g with configstrings := t', queued } c' where
  agrees := fun index bound other =>
    follows.agrees (fun p slot => known p (slot ▸ other)) (signing.agrees index bound other)
  first := fun none =>
    follows.empty (place_lt_tableSize image_first_lt) first (signing.first none)

theorem Playing.follows (playing : Playing g c)
    (follows : Follows Silent Told g.configstrings t' c c') (known : ∀ p, ¬Silent p) :
    Playing { g with configstrings := t', queued } c' := by
  intro index bound kept
  by_cases before : ¬Image index ∨ g.configstrings (place index) ≠ 0
  · exact follows.shows known (playing index bound before)
  · -- an image that was empty: its string has just been stored
    have image : ¬¬Image index := fun other => before (Or.inl other)
    have empty : g.configstrings (place index) = 0 := by
      by_contra full
      exact before (Or.inr full)
    have filled : t' (place index) ≠ 0 := kept.resolve_left image
    refine follows.shows_told ?_
    by_contra untold
    have same := follows.frame (place index) (place_lt_tableSize bound) (known _)
      (visible_place t' index) untold
    exact filled (same.trans empty)
end

/-! ## Changes in the running level -/

theorem leavesOut_message {u : Update} (bound : u.index < maxConfigstrings) {state : ClientState} :
    leavesOut state u.message = true ↔ (state = .free ∨ state = .zombie) ∨
      (state ≠ .spawned ∧ csImages < u.index ∧ u.index < csImages + maxImages) := by
  simp only [leavesOut, configstringIndex_message bound, Bool.or_eq_true, Bool.and_eq_true,
    decide_eq_true_eq, Int.ofNat_lt, ← Int.natCast_add]

/-- `SV_Multicast` to all has no other reasons for a configstring. -/
theorem skips_configstring (env : MessageBuffer.Env) (slot : Nat) {s : MessageBuffer.Server}
    {u : Update} (message : s.msgbuff = u.message) :
    MessageBuffer.skips env none MessageBuffer.multicastAllR true slot s =
      leavesOut (s.clients slot).control.state u.message := by
  have type : u.message.getD 0 0 = svcConfigstring := rfl
  have needed : MessageBuffer.pointless svcConfigstring = false := by decide
  have entity : [MessageList.svcMuzzleflash, MessageBuffer.svcMuzzleflash2,
      MessageList.svcMuzzleflash3, MessageList.svcTempEntity].contains svcConfigstring = false := rfl
  have everyone : decide (MessageBuffer.multicastAllR ≠ MessageBuffer.multicastAll ∧
      MessageBuffer.multicastAllR ≠ MessageBuffer.multicastAllR) = false := rfl
  simp only [MessageBuffer.skips, leavesOut, message, type, needed, entity, everyone, Bool.not_true,
    Bool.or_false, Bool.and_false, Bool.false_and, beq_self_eq_true, Bool.and_true]

/-- What the multicast of a configstring does to a client that is not turned away. -/
def addConfigstring (forceReconnect : Bool) (message : List UInt8)
    (client : MessageList.Client) : Except MessageList.Stop MessageList.Client :=
  if leavesOut client.control.state message then .ok client
  else if refusesMessage forceReconnect client true then .ok client
  else queueMessage client message true

theorem tells_configstring (env : MessageBuffer.Env) (u : Update) (leftover : List UInt8) :
    MessageBuffer.Tells (MessageBuffer.sendTo env none MessageBuffer.multicastAllR true) u.message
      leftover (addConfigstring env.forceReconnect u.message) := by
  intro s slot first behind
  have nonempty : s.msgbuff ≠ [] := by
    rw [first]
    exact List.cons_ne_nil _ _
  have other : s.msgbuff.getD 0 0 ≠ svcLayout := by
    rw [first]
    exact show svcConfigstring ≠ svcLayout by decide
  rw [MessageBuffer.sendTo, skips_configstring env slot first, addConfigstring]
  by_cases out : leavesOut (s.clients slot).control.state u.message = true
  · rw [if_pos out, if_pos out]
    change _ = Except.ok { s with clients := Function.update s.clients slot (s.clients slot) }
    rw [Function.update_eq_self]
  · have seen : MessageBuffer.seenBy env (s.clients slot) ⟨s.msgbuff, s.leftover, nonempty⟩ true =
        ⟨s.msgbuff, s.leftover, nonempty⟩ := by
      rw [MessageBuffer.seenBy, if_neg other, ite_self]
    have added := @MessageStorage.svAddMessageSingle_other env.forceReconnect (s.clients slot)
      ⟨s.msgbuff, s.leftover, nonempty⟩ true other
    rw [if_neg out, if_neg out, MessageBuffer.addMessageSingle, dif_neg nonempty, ← first]
    simp only [seen, added, List.drop_length, List.nil_append]

/-- `svMulticast` is what `MessageBuffer.svMulticast` does for each client. -/
theorem svMulticast_configstring {env : MessageBuffer.Env} {s t : MessageBuffer.Server} {u : Update}
    (message : s.msgbuff = u.message)
    (sent : MessageBuffer.svMulticast env none MessageBuffer.multicastAllR s = .ok t) :
    ∀ slot < env.maxclients,
      addConfigstring env.forceReconnect u.message (s.clients slot) = .ok (t.clients slot) := by
  have tells := tells_configstring env u s.leftover
  rw [← message] at tells
  have nonempty : s.msgbuff ≠ [] := by
    rw [message]
    exact List.cons_ne_nil _ _
  rw [← message]
  exact tells.multicast nonempty sent

/-- What is silent before the signon, after it and in the game. -/
structure Hides (Silent : Nat → Prop) (state : ClientState) : Prop where
  waiting : state = .connected → ∀ index, ¬Image index ∨ index = csImages → ¬Silent (place index)
  signing : state = .spawning → (∀ p, ¬Image (slotOf p) → ¬Silent p) ∧ ¬Silent (place csImages)
  playing : state = .spawned → ∀ p, ¬Silent p

theorem inv_follows {g : Game} (inv : Inv g) {Told : Nat → Prop} {queued : List (List UInt8)}
    (hides : Hides Silent g.state)
    (follows : Follows Silent Told g.configstrings t' (shown g.queued) (shown queued)) :
    Inv { g with configstrings := t', queued } := by
  obtain ⟨t, dlconfigstrings, state, before⟩ := g
  cases state with
  | free => exact trivial
  | zombie => exact trivial
  | connected => exact Waiting.follows inv follows (hides.waiting rfl)
  | spawning =>
    exact Signing.follows inv follows (hides.signing rfl).1 (hides.signing rfl).2
  | spawned => exact Playing.follows inv follows (hides.playing rfl)

theorem place_ne_end (index : Nat) : place index ≠ place csName + (maxQpath - 1) := by
  have path : maxQpath = 64 := rfl
  have name : csName = 0 := rfl
  simp only [place, path, name]
  omega

theorem hides_silent {state : ClientState}
    (ends : ∀ p, Silent p → p = place csName + (maxQpath - 1))
    (calm : state = .spawning ∨ state = .spawned → ∀ p, ¬Silent p) : Hides Silent state where
  waiting := fun _ index _ silent => place_ne_end index (ends _ silent)
  signing := fun spawning => ⟨fun p _ => calm (Or.inl spawning) p, calm (Or.inl spawning) _⟩
  playing := fun spawned => calm (Or.inr spawned)

/-- An update that is announced reaches every client that will have the table. -/
theorem announce_keeps {g : Game} {update : Option Update} (inv : Inv g)
    (changes : Changes Silent g.configstrings t' update)
    (ends : ∀ p, Silent p → p = place csName + (maxQpath - 1))
    (calm : g.state = .spawning ∨ g.state = .spawned → ∀ p, ¬Silent p) :
    Inv (announce t' update g) := by
  have hides := hides_silent ends calm
  cases update with
  | none => exact inv_follows inv hides (follows_silent changes)
  | some u =>
    have sends : Sends Silent g.configstrings t' u := changes
    simp only [announce, svMulticast]
    split
    · rename_i leftOut
      cases (leavesOut_message sends.index).mp leftOut with
      | inl gone =>
        simp only [Inv]
        rcases gone with free | zombie
        · rw [free]
          exact trivial
        · rw [zombie]
          exact trivial
      | inr image =>
        -- the change of an image stays silent as a whole
        have own := sends.own (Nat.lt_trans (by decide) image.2.1)
          (Nat.lt_of_lt_of_le image.2.2 (by decide))
        have isImage : Image u.index := ⟨Nat.le_of_lt image.2.1, image.2.2⟩
        have hidden : Hides (fun p => Silent p ∨ slotOf p = u.index) g.state := by
          refine ⟨?_, ?_, fun spawned => absurd spawned image.1⟩
          · intro waiting index other silent
            rcases silent with silent | same
            · exact hides.waiting waiting index other silent
            · rw [slotOf_place] at same
              subst same
              rcases other with other | first
              · exact other isImage
              · exact Nat.ne_of_gt image.2.1 first
          · intro spawning
            refine ⟨fun p other silent => ?_, fun silent => ?_⟩
            · rcases silent with silent | same
              · exact (hides.signing spawning).1 p other silent
              · exact other (same ▸ isImage)
            · rcases silent with silent | same
              · exact (hides.signing spawning).2 silent
              · rw [slotOf_place] at same
                exact Nat.ne_of_lt image.2.1 same
        exact inv_follows inv hidden
          (follows_silent fun p _ known _ => own p fun same => known (Or.inr same))
    · have received : shown (g.queued ++ [u.message]) =
          copy (shown g.queued) (place u.index) u.string := by
        rw [shown_append, List.foldl_cons, List.foldl_nil,
          receive_update _ sends.index sends.string]
      have follows := follows_copy (c := shown g.queued) u.string (place u.index) sends.holds
        sends.frame
      rw [← received] at follows
      exact inv_follows inv hides follows

/-! ## The signon -/

theorem length_cString_le (s behind : List UInt8) :
    (cString (s ++ 0 :: behind)).length ≤ s.length := by
  induction s with
  | nil => exact Nat.le_refl 0
  | cons b s ih =>
    simp only [cString, List.cons_append, List.takeWhile_cons]
    split
    · exact Nat.succ_le_succ ih
    · exact Nat.zero_le _

theorem receive_piece (c : Table) {start : Nat} (bound : start < maxConfigstrings)
    (cs : List UInt8) : ∃ s : List UInt8, s.length ≤ maxQpath ∧ (0 ∉ cs → s = cs.take maxQpath) ∧
      receive c (SignonMessages.configstring start cs) = copy c (place start) s := by
  refine ⟨cString (cs.take maxQpath ++ [0]), ?_, fun nonzero => ?_, ?_⟩
  · exact Nat.le_trans (length_cString_le _ []) (List.length_take_le _ _)
  · exact cString_terminated (fun zero => nonzero (List.mem_of_mem_take zero)) []
  · rw [SignonMessages.configstring, List.append_assoc, receive_configstring c bound]

/-- What `SV_AddConfigstrings` has done when it has come to `start`. -/
structure Piecewise (s : Signon) (start nextdl : Nat) (c : Table) : Prop where
  agrees : ∀ index < start, ¬Image index → Agrees s.configstrings c index
  empty : ∀ index, start ≤ index → index < maxConfigstrings → ¬Image index →
    s.configstrings (place index) = 0 → c (place index) = 0
  first : s.dlconfigstrings 0 = [] → nextdl = 0 ∧
    (s.configstrings (place csImages) = 0 → c (place csImages) = 0)

theorem receive_emit (s : Signon) (wrote : Nat) (message : List UInt8) (c : Table) :
    (emit s wrote message).1.foldl receive c = receive c message := by
  have acked : ∀ c, receive c ack = c := fun c => receive_other c (other_stufftext _)
  simp only [emit]
  split
  · simp only [List.foldl_cons, List.foldl_nil, acked]
  · simp only [List.foldl_cons, List.foldl_nil]

/-- A string for an index reaches at most the end of the index, or its terminator the next one. -/
theorem copy_piece_next {start index : Nat} {s : List UInt8} (short : s.length ≤ maxQpath)
    (later : start < index) (empty : t (place index) = 0) :
    copy t (place start) s (place index) = 0 := by
  by_cases within : place start ≤ place index ∧ place index ≤ place start + s.length
  · have next : place start + maxQpath ≤ place index := by
      rw [← place_succ]
      exact place_mono later
    have last : place index - place start = s.length := by omega
    rw [copy_inside within, last, byteAt_end]
  · rw [copy_outside within, empty]

theorem copy_piece_before {start p : Nat} {s : List UInt8} (before : slotOf p < start) :
    copy t (place start) s p = t p :=
  copy_outside fun within =>
    absurd (le_slotOf within.1) (Nat.not_le.mpr before)

/-- The pieces that were copied before stay, and what is empty behind them stays empty. -/
theorem Piecewise.next {s : Signon} {start nextdl nextdl' : Nat} {piece : List UInt8}
    (piecewise : Piecewise s start nextdl c) (short : piece.length ≤ maxQpath)
    (here : ¬Image start → Agrees s.configstrings (copy c (place start) piece) start)
    (downloads : s.dlconfigstrings 0 = [] → nextdl' = 0 ∧ start ≠ csImages) :
    Piecewise s (start + 1) nextdl' (copy c (place start) piece) where
  agrees := by
    intro index below other p inside slot visible
    rcases Nat.eq_or_lt_of_le (Nat.le_of_lt_succ below) with same | before
    · subst same
      exact here other p inside slot visible
    · rw [copy_piece_before (slot ▸ before)]
      exact piecewise.agrees index before other p inside slot visible
  empty := fun index later bound other stops =>
    copy_piece_next short later (piecewise.empty index (Nat.le_of_succ_le later) bound other stops)
  first := by
    intro none
    refine ⟨(downloads none).1, fun stops => ?_⟩
    have before := (piecewise.first none).2 stops
    rcases Nat.lt_or_ge start csImages with earlier | later
    · exact copy_piece_next short earlier before
    · have behind : csImages < start := Nat.lt_of_le_of_ne later (Ne.symm (downloads none).2)
      rw [copy_piece_before (by rw [slotOf_place]; exact behind), before]

theorem nextDownload_zero {s : Signon} (none : s.dlconfigstrings 0 = []) :
    nextDownload s 0 = .none := by
  rw [nextDownload, if_pos (Or.inr none)]

/-- The piece of a string agrees with the table as far as its own index goes. -/
theorem agrees_piece (t c : Table) {index : Nat} (bound : index < maxConfigstrings) :
    Agrees t (copy c (place index) ((stringAt t (place index)).take maxQpath)) index := by
  intro p inside slot visible
  subst slot
  have within := (reaches_iff inside).mp visible
  have last := lt_place_slotOf p
  have next := place_succ (slotOf p)
  have length : p ≤ place (slotOf p) + ((stringAt t (place (slotOf p))).take maxQpath).length := by
    rw [List.length_take]
    omega
  rw [copy_inside ⟨within.1, length⟩, stringAt_byte inside within.1 within.2]
  exact byteAt_take _ (by omega)

/-- The signon brings every part of the table once. -/
theorem configstringMessages_piecewise (s : Signon) (start nextdl wrote : Nat)
    (le : start ≤ maxConfigstrings) (c : Table) (piecewise : Piecewise s start nextdl c) :
    ∃ nextdl', Piecewise s maxConfigstrings nextdl'
      ((configstringMessages s start nextdl wrote).foldl receive c) := by
  fun_induction configstringMessages s start nextdl wrote generalizing c with
  | case1 start nextdl wrote more images none ih =>
    refine ih (by decide) c ⟨fun index below other => ?_, fun index later => ?_, piecewise.first⟩
    · rcases Nat.lt_or_ge index start with before | behind
      · exact piecewise.agrees index before other
      · exact absurd ⟨Nat.le_trans images.1 behind, below⟩ other
    · exact piecewise.empty index (Nat.le_trans (Nat.le_of_lt images.2) later)
  | case2 start nextdl wrote more images cs next some messages written emitted ih =>
    have emits := receive_emit s wrote (SignonMessages.configstring start cs)
    rw [emitted] at emits
    obtain ⟨piece, short, -, received⟩ := receive_piece c more cs
    rw [List.foldl_append, emits, received]
    refine ih more _ (piecewise.next short (fun other => absurd images other) fun none => ?_)
    have first := (piecewise.first none).1
    rw [first, nextDownload_zero none] at some
    cases some
  | case3 start nextdl wrote more images cs empty ih =>
    have stops : s.configstrings (place start) = 0 :=
      (stringAt_eq_nil (place_lt_tableSize more)).mp empty
    refine ih more c ⟨fun index below other p inside slot visible => ?_, fun index later => ?_,
      piecewise.first⟩
    · rcases Nat.eq_or_lt_of_le (Nat.le_of_lt_succ below) with same | before
      · have here : p = place start := by
          subst slot
          by_contra behind
          have low := place_slotOf p
          exact visible.2 _ (Nat.le_refl _)
            (Nat.lt_of_le_of_ne low fun equal => behind (by rw [← same, equal])) (same ▸ stops)
        rw [here, stops]
        exact piecewise.empty start (Nat.le_refl _) more images stops
      · exact piecewise.agrees index before other p inside slot visible
    · exact piecewise.empty index (Nat.le_of_succ_le later)
  | case4 start nextdl wrote more images cs full messages written emitted ih =>
    have emits := receive_emit s wrote (SignonMessages.configstring start cs)
    rw [emitted] at emits
    obtain ⟨piece, short, whole, received⟩ := receive_piece c more cs
    rw [List.foldl_append, emits, received]
    refine ih more _ (piecewise.next short (fun _ => ?_) fun none => ?_)
    · rw [whole (stringAt_nonzero _ _)]
      exact agrees_piece s.configstrings c more
    · refine ⟨(piecewise.first none).1, fun same => images ?_⟩
      subst same
      exact ⟨Nat.le_refl _, by decide⟩
  | case5 start nextdl wrote done =>
    have same : start = maxConfigstrings := Nat.le_antisymm le (Nat.not_lt.mp done)
    subst same
    exact ⟨nextdl, piecewise⟩

theorem Signing.waiting {g : Game} (signing : Signing g c) : Waiting g c where
  empty := by
    intro index bound other stops
    have same := signing.agrees index bound other (place index) (place_lt_tableSize bound)
      (slotOf_place index) (visible_place _ index)
    exact same.trans stops
  first := signing.first

theorem Waiting.piecewise {g : Game} (waiting : Waiting g c) {s : Signon}
    (strings : s.configstrings = g.configstrings) (files : s.dlconfigstrings = g.dlconfigstrings) :
    Piecewise s 0 0 c where
  agrees := fun index below => absurd below (Nat.not_lt_zero index)
  empty := by
    intro index _ bound other
    rw [strings]
    exact waiting.empty index bound other
  first := by
    intro none
    rw [strings]
    rw [files] at none
    exact ⟨rfl, waiting.first none⟩

theorem Piecewise.signing {g : Game} {s : Signon} {nextdl : Nat}
    (piecewise : Piecewise s maxConfigstrings nextdl c)
    (strings : s.configstrings = g.configstrings) (files : s.dlconfigstrings = g.dlconfigstrings) :
    Signing g c where
  agrees := by
    rw [← strings]
    exact piecewise.agrees
  first := by
    intro none
    rw [← files] at none
    rw [← strings]
    exact (piecewise.first none).2

/-- Besides `SV_AddConfigstrings` no function of a signon sends a configstring. -/
theorem foldl_signon (s : Signon) (inGame : s.inGame = true) (c : Table) :
    (signon s).foldl receive c = (configstringMessages s 0 0 0).foldl receive c := by
  have alone : ∀ text, ∀ m ∈ [stufftext text], Other m := fun text =>
    List.forall_mem_singleton.mpr (other_stufftext text)
  have sent : ∀ set text, ∀ m ∈ sendIf set (stufftext text), Other m := by
    intro set text
    cases set with
    | false => exact List.forall_mem_nil _
    | true => exact alone text
  have asked : ∀ varnames : List (List UInt8), ∀ m ∈ varnames.map check, Other m := by
    intro varnames m hm
    obtain ⟨varname, -, rfl⟩ := List.mem_map.mp hm
    exact other_stufftext _
  have bans : ∀ m ∈ s.bans, Other m := by
    intro m hm
    obtain ⟨rest, rfl | rfl⟩ := s.bans_type m hm
    · exact other_cons rest (by decide)
    · exact other_cons rest (by decide)
  have data : ∀ m ∈ [serverdata s, stufftext [Bytes.newline]], Other m := by
    rw [List.forall_mem_cons]
    exact ⟨other_cons _ (by decide), alone _⟩
  have reconnect : ∀ m ∈ (s.reconnectVar.map check).toList, Other m := by
    rw [Option.toList_map]
    exact asked _
  have connecting : ∀ m ∈ connectMessages s, Other m := by
    rw [connectMessages]
    split
    · exact List.forall_mem_append.mpr ⟨sent _ _, sent _ _⟩
    · exact List.forall_mem_nil _
  have baselines : ∀ m ∈ svBaselinesMessage s, Other m := by
    refine List.forall_mem_append.mpr ⟨?_, alone _⟩
    refine (forall_baselineMessages (other_stufftext _) s _ 0).mpr fun m hm => ?_
    obtain ⟨i, -, rfl⟩ := List.mem_map.mp hm
    exact other_cons _ (by decide)
  simp only [signon, if_pos inGame, List.foldl_append, foldl_receive_other _ (alone _),
    foldl_receive_other _ bans, foldl_receive_other _ data, foldl_receive_other _ reconnect,
    foldl_receive_other _ (sent _ _), foldl_receive_other _ (asked _),
    foldl_receive_other _ connecting, foldl_receive_other _ baselines]

theorem svNew_keeps {g : Game} (s : Signon) (waiting : Waiting g (shown g.queued)) :
    Inv (svNew s g) := by
  change Signing (svNew s g) (shown (g.queued ++ signon (inLevel s g)))
  rw [shown_append, foldl_signon (inLevel s g) rfl]
  have start : Piecewise (inLevel s g) 0 0 (shown g.queued) := waiting.piecewise rfl rfl
  obtain ⟨nextdl, piecewise⟩ :=
    configstringMessages_piecewise (inLevel s g) 0 0 0 (Nat.zero_le _) _ start
  exact piecewise.signing rfl rfl

/-! ## Beginning -/

/-- The image is sent when a client begins. -/
def Sent (t : Table) (dlconfigstrings : Nat → List UInt8) (i : Nat) : Prop :=
  t (place (csImages + i)) ≠ 0 ∨ (i = 0 ∧ dlconfigstrings i ≠ [])

theorem receive_image (t c : Table) {i : Nat} (bound : i < maxImages) :
    receive c (Update.message
        { index := csImages + i, string := stringAt t (place (csImages + i)) }) =
      copy c (place (csImages + i)) (stringAt t (place (csImages + i))) :=
  receive_update c (Nat.lt_of_lt_of_le (Nat.add_lt_add_left bound _) (by decide))
    (stringAt_nonzero _ _)

section
variable {dlconfigstrings : Nat → List UInt8} {p : Nat}

/-- What the client holds before the images of `indices` are sent it holds afterwards, and those
images too. -/
theorem foldl_images (indices : List Nat) (bound : ∀ i ∈ indices, i < maxImages)
    (inside : p < tableSize)
    (held : c p = t p ∨
      ∃ i ∈ indices, Sent t dlconfigstrings i ∧ Reaches t (place (csImages + i)) p) :
    (indices.filterMap fun i =>
      if t (place (csImages + i)) ≠ 0 ∨ (i = 0 ∧ dlconfigstrings i ≠ []) then
        some (Update.message { index := csImages + i, string := stringAt t (place (csImages + i)) })
      else none).foldl receive c p = t p := by
  induction indices generalizing c with
  | nil =>
    rcases held with same | ⟨i, none, -⟩
    · exact same
    · exact absurd none List.not_mem_nil
  | cons i indices ih =>
    have rest := fun j later => bound j (List.mem_cons_of_mem i later)
    rw [List.filterMap_cons]
    by_cases sent : t (place (csImages + i)) ≠ 0 ∨ (i = 0 ∧ dlconfigstrings i ≠ [])
    · simp only [if_pos sent]
      rw [List.foldl_cons, receive_image t c (bound i List.mem_cons_self)]
      refine ih rest ?_
      rcases held with same | ⟨j, listed, sentThere, reaches⟩
      · exact Or.inl (copy_agrees inside same)
      · rcases List.mem_cons.mp listed with rfl | later
        · exact Or.inl (copy_reached inside reaches)
        · exact Or.inr ⟨j, later, sentThere, reaches⟩
    · simp only [if_neg sent]
      refine ih rest ?_
      rcases held with same | ⟨j, listed, sentThere, reaches⟩
      · exact Or.inl same
      · rcases List.mem_cons.mp listed with rfl | later
        · exact absurd sentThere sent
        · exact Or.inr ⟨j, later, sentThere, reaches⟩

theorem foldl_imageMessages (inside : p < tableSize)
    (held : c p = t p ∨ ∃ i < maxImages, Sent t dlconfigstrings i ∧
      Reaches t (place (csImages + i)) p) :
    (imageMessages t dlconfigstrings).foldl receive c p = t p := by
  refine foldl_images (List.range maxImages) (fun i => List.mem_range.mp) inside ?_
  simp only [List.mem_range]
  exact held

/-- The byte is one of an image that is sent, or the client holds it already. -/
theorem Signing.held {g : Game} (signing : Signing g c) {index : Nat} (inside : p < tableSize)
    (kept : ¬Image index ∨ g.configstrings (place index) ≠ 0)
    (reaches : Reaches g.configstrings (place index) p) :
    c p = g.configstrings p ∨ ∃ i < maxImages, Sent g.configstrings g.dlconfigstrings i ∧
      Reaches g.configstrings (place (csImages + i)) p := by
  have visible := visible_of_reaches reaches
  have slot : slotOf p < maxConfigstrings := by
    have low := place_slotOf p
    by_contra high
    exact absurd (Nat.lt_of_le_of_lt (Nat.le_trans (place_mono (not_lt.mp high)) low) inside)
      (by decide)
  by_cases image : Image (slotOf p)
  · obtain ⟨i, same⟩ := Nat.exists_eq_add_of_le image.1
    have bound : i < maxImages := by
      have := image.2
      omega
    by_cases filled : g.configstrings (place (slotOf p)) = 0
    · -- an empty image is reached at its first byte only
      have first : p = place (slotOf p) := by
        by_contra behind
        exact visible.2 _ (Nat.le_refl _)
          (Nat.lt_of_le_of_ne (place_slotOf p) (Ne.symm behind)) filled
      rcases Nat.eq_zero_or_pos i with zero | positive
      · subst zero
        by_cases none : g.dlconfigstrings 0 = []
        · left
          rw [Nat.add_zero] at same
          rw [first, same, signing.first none (same ▸ filled), ← same, filled]
        · exact Or.inr ⟨0, bound, Or.inr ⟨rfl, none⟩, same ▸ visible⟩
      · -- the string that ends here is that of the image before or comes through it
        obtain ⟨before, rfl⟩ := Nat.exists_eq_succ_of_ne_zero (Nat.ne_of_gt positive)
        have different : index ≠ slotOf p := by
          intro equal
          subst equal
          exact kept.elim (fun other => other image) fun full => full filled
        have earlier : index < slotOf p :=
          Nat.lt_of_le_of_ne (le_slotOf reaches.1) different
        have start : place index ≤ place (csImages + before) := place_mono (by omega)
        have ends : place (csImages + before) < p := by
          rw [first]
          exact TableCopies.place_lt (by omega)
        refine Or.inr ⟨before, by omega, Or.inl (reaches.2 _ start ends), ?_⟩
        exact reaches.behind start (Nat.le_of_lt ends)
    · exact Or.inr ⟨i, bound, Or.inl (same ▸ filled), same ▸ visible⟩
  · exact Or.inl (signing.agrees _ slot image p inside rfl visible)
end

theorem svClientBegin_keeps {g : Game} (signing : Signing g (shown g.queued)) :
    Inv (svClientBegin g) := by
  intro index bound kept p inside reaches
  change shown (g.queued ++ imageMessages g.configstrings g.dlconfigstrings) p = g.configstrings p
  rw [shown_append]
  exact foldl_imageMessages inside (signing.held inside kept reaches)

/-! ## A run -/

/-- A client that has just connected waits for the signon. -/
theorem inv_connected (table : Table) (dlconfigstrings : Nat → List UInt8) :
    Inv (connected table dlconfigstrings) where
  empty := fun _ _ _ _ => rfl
  first := fun _ _ => rfl

theorem newCommand_keeps {g : Game} (s : Signon) (inv : Inv g) : Inv (newCommand s g) := by
  obtain ⟨t, dlconfigstrings, state, queued⟩ := g
  cases state with
  | free => exact trivial
  | zombie => exact trivial
  | connected => exact svNew_keeps s inv
  | spawning => exact trivial
  | spawned => exact inv

theorem beginCommand_keeps {g : Game} (sameLevel : Bool) (s : Signon) (inv : Inv g) :
    Inv (beginCommand sameLevel s g) := by
  obtain ⟨t, dlconfigstrings, state, queued⟩ := g
  cases state with
  | free => exact trivial
  | zombie => exact trivial
  | connected => exact trivial
  | spawning =>
    have signing : Signing ⟨t, dlconfigstrings, .spawning, queued⟩ (shown queued) := inv
    cases sameLevel with
    | false => exact svNew_keeps s signing.waiting
    | true => exact svClientBegin_keeps signing
  | spawned => exact trivial

/-- Every calm event keeps what the client will have been told. -/
theorem step_keeps (g : Game) (event : Event) (inv : Inv g) (calm : Calm g event) :
    Inv (step g event) := by
  cases event with
  | configstring call =>
    simp only [step]
    split
    · rename_i t sent returns
      exact announce_keeps inv (pfConfigstring_changes rfl returns) (fun p cut => cut.1)
        fun told p cut => calm told cut.2
    · exact inv
  | findIndex part name create =>
    simp only [step]
    split
    · rename_i result returns
      exact announce_keeps inv (svFindIndex_changes returns) (fun _ none => none.elim)
        fun _ _ none => none
    · exact inv
  | skinIndex modelindex name =>
    exact announce_keeps inv (svSkinIndex_changes modelindex name.2) (fun _ none => none.elim)
      fun _ _ none => none
  | new s => exact newCommand_keeps s inv
  | begin sameLevel s => exact beginCommand_keeps sameLevel s inv
  | drop => exact trivial

theorem Inv.replicated {g : Game} (inv : Inv g) : Replicated g := by
  intro spawned index bound kept
  have playing : Playing g (shown g.queued) := by
    rw [Inv, spawned] at inv
    exact inv
  have inside := place_lt_tableSize bound
  refine stringAt_of_shows (Nat.le_of_lt inside) (playing index bound ?_)
  exact kept.imp_right fun filled stops => filled ((stringAt_eq_nil inside).mpr stops)

/-- However the changes of the table lie between the connection, the signon and the beginning of the
client, after that the client holds the strings of the server. -/
theorem configstrings_replicated (table : Table) (dlconfigstrings : Nat → List UInt8) (events : List Event)
    (calm : AllSteps step Calm (connected table dlconfigstrings) events) :
    Replicated (run step (connected table dlconfigstrings) events) :=
  Inv.replicated (invariant_run step_keeps (inv_connected table dlconfigstrings) calm)

theorem announce_state (t : Table) (update : Option Update) (g : Game) :
    (announce t update g).state = g.state := by
  cases update with
  | none => exact rfl
  | some u =>
    simp only [announce, svMulticast]
    split
    · exact rfl
    · exact rfl

theorem configstring_state (call : Call) (g : Game) :
    (step g (.configstring call)).state = g.state := by
  simp only [step]
  split
  · exact announce_state _ _ g
  · exact rfl

private theorem none_banned :
    ∀ m ∈ ([] : List (List UInt8)), ∃ rest, m = svcPrint :: rest ∨ m = svcStufftext :: rest :=
  List.forall_mem_nil _

private theorem blank_inRange (_ : Nat) :
    (DeltaChains.nullState 0).number < Protocol.maxEdicts .kingpin := Nat.zero_lt_succ 2047

private def visitor : Signon where
  protocol := 34
  spawncount := 1
  attractloop := 0
  clientdir := Bytes.ascii "main"
  playernum := 0
  inGame := true
  bans := []
  bans_type := none_banned
  reconnectVar := none
  lowRate := false
  varnames := []
  newConnection := false
  connectStuff := []
  patched := 9
  compress := false
  configstrings := fun _ => 0
  dlconfigstrings := fun _ => []
  lastlines := { state := fun _ => DeltaChains.nullState 0, inRange := blank_inRange }
  serverMembers := 0

private theorem title_terminated : (0 : UInt8) ∉ (some (Bytes.ascii "Tear")).getD [] := by decide

private def title : Call :=
  ⟨0, some (Bytes.ascii "Tear"), false, 8, false, title_terminated⟩

private def picture : Call := { title with index := csImages + 3 }

/-- The map gets its title before the client begins, and a picture afterwards. -/
private def signingOn : List Event :=
  [.new visitor, .configstring title, .begin true visitor, .configstring picture]

private theorem signingOn_spawned :
    (run step (connected (fun _ => 0) fun _ => []) signingOn).state = .spawned := by
  let signed := svNew visitor (connected (fun _ => 0) fun _ => [])
  let begun := beginCommand true visitor (step signed (.configstring title))
  have spawned : begun.state = .spawned := by
    change (beginCommand true visitor (step signed (.configstring title))).state = _
    rw [beginCommand, configstring_state]
    exact rfl
  change (step begun (.configstring picture)).state = _
  rw [configstring_state, spawned]

theorem configstrings_replicated_signingOn :
    AllSteps step Calm (connected (fun _ => 0) fun _ => []) signingOn ∧
      (run step (connected (fun _ => 0) fun _ => []) signingOn).state = .spawned ∧
      Replicated (run step (connected (fun _ => 0) fun _ => []) signingOn) := by
  have calm : AllSteps step Calm (connected (fun _ => 0) fun _ => []) signingOn := by
    refine ⟨trivial, fun _ cuts => ?_, trivial, fun _ cuts => ?_, trivial⟩
    · exact absurd cuts.1 (by decide)
    · exact absurd cuts.1 (by decide)
  exact ⟨calm, signingOn_spawned, configstrings_replicated _ _ signingOn calm⟩

end Replication
