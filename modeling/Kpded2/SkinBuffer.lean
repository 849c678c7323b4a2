import Kpded2.Userinfo

/-!
# The skin in a static buffer

`Info_ValueForKey` returns its values in two static buffers that it takes in turn, and the check of
the skin in `SV_UpdateUserinfo` edits the value where it stands. Here the buffers hold what earlier
calls have left, and the check keeps the positions that it reads or overwrites through `val`. A
call computes what it computes in `Userinfo`, where the values are strings (`run_eq`).
-/
namespace SkinBuffer
open Bytes InfoString Userinfo

/-! ## The buffers -/

/-- The string at a position of a buffer. -/
def stringFrom (buf : List UInt8) (p : Nat) : List UInt8 := (buf.drop p).takeWhile (· ≠ 0)

def strcpy (buf s : List UInt8) : List UInt8 := s ++ 0 :: buf.drop (s.length + 1)

structure Buffers where
  value : Bool → List UInt8
  valueindex : Bool

def Buffers.current (t : Buffers) : List UInt8 := t.value t.valueindex

def Buffers.put (t : Buffers) (buf : List UInt8) : Buffers :=
  { t with value := Function.update t.value t.valueindex buf }

/-- The loop of `Info_ValueForKey`: every value is copied, whether its key is the right one or not. -/
def scanValues (key s buf : List UInt8) : Bool × List UInt8 :=
  match _h : splitPair s with
  | none => (false, buf)
  | some ((pkey, v), rest) =>
    if pkey = key then (true, strcpy buf v)
    else if rest = [] then (false, strcpy buf v)
    else scanValues key rest.tail (strcpy buf v)
termination_by s.length
decreasing_by
  have hlt := splitPair_length _h
  simp only [List.length_tail]
  omega

/-- The string that is returned, and the buffers. -/
def infoValueForKey (t : Buffers) (s key : List UInt8) : List UInt8 × Buffers :=
  let t := { t with valueindex := !t.valueindex }
  let (found, buf) := scanValues key (skipBackslash s) t.current
  (if found then stringFrom buf 0 else [], t.put buf)

/-! ## `SV_UpdateUserinfo` -/

/-- The buffer of `val` while the skins are checked. -/
structure Check where
  buf : List UInt8
  replaced : Bool := false
  touched : List Nat

/-- `%.3s`. -/
def textureAt (buf : List UInt8) (p : Nat) : List UInt8 := (stringFrom buf p).take 3

def skinFile (env : Env) (model part texture : List UInt8) : Int :=
  env.loadFile (ascii "players/" ++ model ++ [47] ++ part ++ [95] ++ texture ++ ascii ".tga")

/-- The file for a skin is not there, but the one for the first is. -/
def Missing (env : Env) (model part texture : List UInt8) : Prop :=
  skinFile env model part texture ≤ 0 ∧ skinFile env model part (ascii "001") > 0

instance (env : Env) (model part texture : List UInt8) : Decidable (Missing env model part texture) :=
  inferInstanceAs (Decidable (_ ∧ _))

/-- One of the three skins, which begins at `p`. -/
def checkSkin (env : Env) (model part : List UInt8) (p : Nat) (r : Check) : Check :=
  let read := r.touched ++ List.range' p (min 3 ((textureAt r.buf p).length + 1))
  if Missing env model part (textureAt r.buf p) then
    { buf := overwriteAt r.buf p (ascii "001"), replaced := true, touched := read ++ List.range' p 3 }
  else { r with touched := read }

def checkSkins (env : Env) (model : List UInt8) (slash : Nat) (r : Check) : Check :=
  checkSkin env model (ascii "legs") (slash + 9) (checkSkin env model (ascii "body") (slash + 5)
    (checkSkin env model (ascii "head") (slash + 1) r))

/-- The userinfo and `badmodel` after the check, the buffers, and the positions in the value. -/
structure Fixed where
  userinfo : List UInt8
  badmodel : List UInt8
  buffers : Buffers
  touched : List Nat

/-- The check of a value with a slash; the value is the string in the current buffer. -/
def fixModel (env : Env) (cl : Client) (t : Buffers) (slash : Nat) : Fixed :=
  let val := stringFrom t.current 0
  let touched := List.range (val.length + 1)
  let model := lower (val.take slash)
  let t := t.put (model ++ 0 :: t.current.drop (slash + 1))
  if models.contains model then ⟨cl.userinfo, [], t, touched⟩
  else if env.loadFile (ascii "players/" ++ model ++ ascii "/head.mdx") ≤ 0 then
    ⟨infoSetValueForKey cl.userinfo skin (if cl.skin ≠ [] then cl.skin else defaultSkin env model),
      model, t, touched⟩
  else
    let r := checkSkins env model slash { buf := t.current, touched }
    if r.replaced then
      let t := t.put (r.buf.set slash 47)
      let text := stringFrom t.current 0
      let (badmodel, t) := infoValueForKey t cl.userinfo skin
      ⟨infoSetValueForKey cl.userinfo skin text, badmodel, t,
        r.touched ++ List.range (text.length + 1)⟩
    else ⟨cl.userinfo, [], t.put r.buf, r.touched⟩

def fixSkin (env : Env) (cl : Client) (t : Buffers) : Fixed :=
  if env.allowAnyModel || env.teamplay then ⟨cl.userinfo, [], t, []⟩
  else
    let (val, t) := infoValueForKey t cl.userinfo skin
    match lastSlash val with
    | none => ⟨cl.userinfo, [], t, List.range (val.length + 1)⟩
    | some slash => fixModel env cl t slash

def fixFov (env : Env) (userinfo : List UInt8) (t : Buffers) : List UInt8 × Buffers :=
  if env.noZoom then
    let (val, t) := infoValueForKey t userinfo (ascii "fov")
    (if atoi val < 90 then infoSetValueForKey userinfo (ascii "fov") (ascii "90") else userinfo, t)
  else (userinfo, t)

/-- The name that is kept or found, where the one that clashes stands. -/
def otherName (s : State) (slot : Nat) (cl : Client) (t : Buffers) : Buffers :=
  if cl.name ≠ [] then t.put (strcpy t.current cl.name)
  else
    let t := t.put (t.current.set 11 0)
    t.put (strcpy t.current (numberedName s slot (stringFrom t.current 0)))

def svNameClash (env : Env) (s : State) (slot : Nat) (cl : Client) (userinfo : List UInt8)
    (t : Buffers) : List UInt8 × Buffers :=
  if env.uniqueNames then
    let (val, t) := infoValueForKey t userinfo name
    if val = [] then (userinfo, t)
    else
      let t := t.put (t.current.set 13 0)
      if otherHasName s slot (stringFrom t.current 0) then
        let t := otherName s slot cl t
        (infoSetValueForKey userinfo name (stringFrom t.current 0), t)
      else (userinfo, t)
  else (userinfo, t)

def readName (userinfo : List UInt8) (t : Buffers) : List UInt8 × Buffers :=
  let (val, t) := infoValueForKey t userinfo name
  if val = [] then ([], t)
  else
    let t := t.put (t.current.set 15 0)
    (maskName (stringFrom t.current 0), t)

def readFields (cl : Client) (t : Buffers) : Client :=
  let (name, t) := readName cl.userinfo t
  let (rate, t) := infoValueForKey t cl.userinfo (ascii "rate")
  let (msg, t) := infoValueForKey t cl.userinfo (ascii "msg")
  let (val, _) := infoValueForKey t cl.userinfo skin
  { cl with
    name
    rate := clientRate rate
    messagelevel := if msg = [] then cl.messagelevel else max 0 (atoi msg)
    skin := if val = [] then cl.skin else val.take 63 }

/-- The state, and the positions in the value of the skin. -/
def svUpdateUserinfo (env : Env) (slot : Nat) (cl : Client) (notifyGame : Bool) (s : State)
    (t : Buffers) : State × List Nat :=
  let r := fixSkin env cl t
  let (userinfo, t) := fixFov env r.userinfo r.buffers
  let (userinfo, t) := svNameClash env s slot cl userinfo t
  if notifyGame then
    let cl' := readFields
      { cl with badmodel := r.badmodel, userinfo := env.clientUserinfoChanged userinfo } t
    ({ setClient s slot cl' with handed := s.handed ++ [(cl.adr, userinfo)] }, r.touched)
  else (setClient s slot (readFields { cl with badmodel := r.badmodel, userinfo } t), r.touched)

/-! ## The property -/

/-- A call with a userinfo that has been accepted. The names and what the game leaves are strings. -/
structure Update where
  env : Env
  slot : Nat
  cl : Client
  notifyGame : Bool
  s : State
  string : 0 ∉ cl.userinfo
  named : 0 ∉ cl.name
  game : ∀ userinfo, 0 ∉ env.clientUserinfoChanged userinfo
  accepted : svUserinfoValidate cl.userinfo = true

def Update.run (u : Update) (t : Buffers) : State × List Nat :=
  svUpdateUserinfo u.env u.slot u.cl u.notifyGame u.s t

/-- The skin that the client has sent. -/
def Update.val (u : Update) : List UInt8 := InfoString.infoValueForKey u.cl.userinfo skin

/-- What the buffers held makes no difference, and the check stays in the value, up to its
terminator. -/
structure Private (u : Update) : Prop where
  same : ∀ t t', (u.run t).1 = (u.run t').1
  inside : ∀ t, ∀ k ∈ (u.run t).2, k ≤ u.val.length

def Update.model (u : Update) (slash : Nat) : List UInt8 := lower (u.val.take slash)

/-- The check comes to the skins behind a slash. -/
structure ChecksSkins (u : Update) (slash : Nat) : Prop where
  wanted : (u.env.allowAnyModel || u.env.teamplay) = false
  last : lastSlash u.val = some slash
  other : u.model slash ∉ models
  there : u.env.loadFile (ascii "players/" ++ u.model slash ++ ascii "/head.mdx") > 0

/-- Three skins behind the slash, or two and the beginning of one that is not replaced. -/
def Fits (u : Update) (slash : Nat) : Prop :=
  slash + 12 ≤ u.val.length ∨ (slash + 9 ≤ u.val.length ∧
    ¬Missing u.env (u.model slash) (ascii "legs") (u.val.drop (slash + 9)))

/-! ## Strings in buffers -/

theorem stringFrom_front (front m : List UInt8) (i : Nat) :
    stringFrom (front ++ m) (front.length + i) = stringFrom m i := by
  rw [stringFrom, List.drop_append, List.drop_eq_nil_of_le (Nat.le_add_right _ _), List.nil_append,
    Nat.add_sub_cancel_left, stringFrom]

theorem stringFrom_append {s : List UInt8} (string : 0 ∉ s) (rest : List UInt8) :
    stringFrom (s ++ 0 :: rest) 0 = s := by
  rw [stringFrom, List.drop_zero, takeWhile_terminated string]

theorem stringFrom_drop {s : List UInt8} (string : 0 ∉ s) {i : Nat} (inside : i ≤ s.length)
    (rest : List UInt8) : stringFrom (s ++ 0 :: rest) i = s.drop i := by
  have string' : 0 ∉ s.drop i := fun h => string (List.mem_of_mem_drop h)
  have shifted := stringFrom_append string' rest
  rw [stringFrom, List.drop_zero] at shifted
  rw [stringFrom, List.drop_append_of_le_length inside, shifted]

theorem mem_of_splitPair {s rest : List UInt8} {p : Pair} (h : splitPair s = some (p, rest)) {c : UInt8} :
    (c ∈ p.1 → c ∈ s) ∧ (c ∈ p.2 → c ∈ s) ∧ (c ∈ rest → c ∈ s) := by
  rw [splitPair] at h
  split at h
  · cases h
  · rename_i d tail hdrop
    cases h
    have behind : ∀ e ∈ tail, e ∈ s := fun e he =>
      List.mem_of_mem_drop (hdrop ▸ List.mem_cons_of_mem d he)
    exact ⟨fun h => List.takeWhile_subset _ h, fun h => behind c (List.takeWhile_subset _ h),
      fun h => behind c (List.mem_of_mem_drop h)⟩

theorem valueScan_subset (key s : List UInt8) : valueScan key s ⊆ s := by
  intro c hc
  fun_induction valueScan key s with
  | case1 s => cases hc
  | case2 s v rest split => exact (mem_of_splitPair split).2.1 hc
  | case3 s k v split => cases hc
  | case4 s k v rest split other more ih =>
    exact (mem_of_splitPair split).2.2 (List.mem_of_mem_tail (ih hc))

theorem infoValueForKey_string {s : List UInt8} (string : 0 ∉ s) (key : List UInt8) :
    0 ∉ InfoString.infoValueForKey s key := by
  intro found
  have behind := valueScan_subset key (skipBackslash s) found
  rw [skipBackslash] at behind
  split at behind
  · exact string (List.mem_of_mem_tail behind)
  · exact string behind

theorem removeScan_subset (key s : List UInt8) : removeScan key s ⊆ s := by
  intro c hc
  have skipped : ∀ s : List UInt8, c ∈ skipBackslash s → c ∈ s := by
    intro s hs
    rw [skipBackslash] at hs
    split at hs
    · exact List.mem_of_mem_tail hs
    · exact hs
  fun_induction removeScan key s with
  | case1 s => exact hc
  | case2 s v rest split => exact skipped s ((mem_of_splitPair split).2.2 hc)
  | case3 s k v split => exact hc
  | case4 s k v rest split other more ih =>
    rcases List.mem_append.mp hc with hc | hc
    · exact List.mem_of_mem_take hc
    · exact skipped s ((mem_of_splitPair split).2.2 (ih hc))

theorem infoSetValueForKey_string {s : List UInt8} (string : 0 ∉ s) (key value : List UInt8) :
    0 ∉ infoSetValueForKey s key value := by
  have removed : 0 ∉ infoRemoveKey s key := by
    rw [infoRemoveKey]
    split
    · exact string
    · exact fun h => string (removeScan_subset key s h)
  have added : ∀ newi, 0 ∉ asciiValues newi := by
    intro newi h
    exact absurd (List.mem_filter.mp h).2 (by decide)
  simp only [infoSetValueForKey]
  split_ifs
  · exact string
  · exact string
  · exact string
  · exact string
  · exact removed
  · exact removed
  · rw [List.mem_append, not_or]
    exact ⟨removed, added _⟩

theorem valueScan_of_none {s : List UInt8} (key : List UInt8) (h : splitPair s = none) :
    valueScan key s = [] := by
  rw [valueScan]
  split
  · rfl
  · rename_i some
    rw [h] at some
    cases some

/-- What the loop leaves in its buffer. -/
theorem scanValues_spec (key s buf : List UInt8) :
    ((scanValues key s buf).1 = true → ∃ rest, (scanValues key s buf).2 = valueScan key s ++ 0 :: rest) ∧
      ((scanValues key s buf).1 = false → valueScan key s = []) := by
  fun_induction scanValues key s buf with
  | case1 s buf split =>
    exact ⟨fun h => absurd h Bool.false_ne_true, fun _ => valueScan_of_none key split⟩
  | case2 s buf v rest split =>
    rw [valueScan_of_split _ split, if_pos rfl]
    exact ⟨fun _ => ⟨_, rfl⟩, fun h => absurd h.symm Bool.false_ne_true⟩
  | case3 s buf k v other split =>
    rw [valueScan_of_split _ split, if_neg other, if_pos rfl]
    exact ⟨fun h => absurd h Bool.false_ne_true, fun _ => rfl⟩
  | case4 s buf k v rest split other more ih =>
    rw [valueScan_of_split _ split, if_neg other, if_neg more]
    exact ih

variable {t : Buffers} {u key : List UInt8}

@[simp] theorem Buffers.current_put (t : Buffers) (buf : List UInt8) : (t.put buf).current = buf :=
  Function.update_self _ _ _

theorem infoValueForKey_fst (string : 0 ∉ u) :
    (infoValueForKey t u key).1 = InfoString.infoValueForKey u key := by
  obtain ⟨found, missed⟩ := scanValues_spec key (skipBackslash u) (t.value !t.valueindex)
  have string' := infoValueForKey_string string key
  rw [infoValueForKey]
  cases h : (scanValues key (skipBackslash u) (t.value !t.valueindex)).1 with
  | true =>
    obtain ⟨rest, hrest⟩ := found h
    simp only [Buffers.current, h, if_true, hrest]
    exact stringFrom_append string' rest
  | false =>
    simp only [Buffers.current, h, Bool.false_eq_true, if_false]
    exact (missed h).symm

theorem infoValueForKey_current (some : InfoString.infoValueForKey u key ≠ []) :
    ∃ rest, (infoValueForKey t u key).2.current = InfoString.infoValueForKey u key ++ 0 :: rest := by
  obtain ⟨found, missed⟩ := scanValues_spec key (skipBackslash u) (t.value !t.valueindex)
  rw [infoValueForKey]
  cases h : (scanValues key (skipBackslash u) (t.value !t.valueindex)).1 with
  | true =>
    simp only [Buffers.current_put]
    exact found h
  | false => exact absurd (missed h) some

/-- A terminator that is put into a buffer cuts its string. -/
theorem exists_set (s rest : List UInt8) (i : Nat) :
    ∃ rest', (s ++ 0 :: rest).set i 0 = s.take i ++ 0 :: rest' := by
  by_cases inside : i < s.length
  · refine ⟨s.drop (i + 1) ++ 0 :: rest, ?_⟩
    rw [List.set_append_left _ _ inside, List.set_eq_take_append_cons_drop, if_pos inside,
      List.append_assoc, List.cons_append]
  · rw [List.set_append_right _ _ (by omega), List.take_of_length_le (by omega)]
    cases i - s.length with
    | zero => exact ⟨rest, rfl⟩
    | succ n => exact ⟨rest.set n 0, rfl⟩

theorem take_string {s : List UInt8} (string : 0 ∉ s) (i : Nat) : 0 ∉ s.take i :=
  fun h => string (List.mem_of_mem_take h)

/-! ## The check of the skins -/

variable {env : Env} {model part : List UInt8}

theorem overwriteAt_front (front m : List UInt8) (i : Nat) (new : List UInt8) :
    overwriteAt (front ++ m) (front.length + i) new = front ++ overwriteAt m i new := by
  have back : front.length + i + new.length - front.length = i + new.length := by omega
  simp only [overwriteAt, List.take_append, List.drop_append, List.append_assoc,
    List.take_of_length_le (Nat.le_add_right _ i), Nat.add_sub_cancel_left, back,
    List.drop_eq_nil_of_le (show front.length ≤ front.length + i + new.length by omega),
    List.nil_append]

/-- The positions that one of the three reads or overwrites. -/
def touches (env : Env) (model part m : List UInt8) (p i : Nat) : List Nat :=
  List.range' p (min 3 ((textureAt m i).length + 1)) ++
    if Missing env model part (textureAt m i) then List.range' p 3 else []

theorem textureAt_front (front m : List UInt8) (i : Nat) :
    textureAt (front ++ m) (front.length + i) = textureAt m i := by
  rw [textureAt, stringFrom_front, textureAt]

/-- The check behind the slash is the one of the string and what follows it. -/
theorem checkSkin_front (front m : List UInt8) (i : Nat) (replaced : Bool) (touched : List Nat) :
    checkSkin env model part (front.length + i) { buf := front ++ m, replaced, touched } =
      { buf := front ++ (Userinfo.checkSkin env model part i (m, replaced)).1
        replaced := (Userinfo.checkSkin env model part i (m, replaced)).2
        touched := touched ++ touches env model part m (front.length + i) i } := by
  have texture : threeOf (m.drop i) = textureAt m i := rfl
  rw [checkSkin, touches]
  simp only [textureAt_front, Userinfo.checkSkin, texture]
  by_cases missing : Missing env model part (textureAt m i)
  · have missing' := missing
    rw [Missing, skinFile, skinFile] at missing'
    rw [if_pos missing, if_pos missing, if_pos missing', overwriteAt_front, List.append_assoc]
  · have there := missing
    rw [Missing, skinFile, skinFile] at there
    rw [if_neg missing, if_neg missing, if_neg there, List.append_nil]

/-- The three checks, of what is behind the slash. -/
def afterHead (env : Env) (model m : List UInt8) : List UInt8 × Bool :=
  Userinfo.checkSkin env model (ascii "head") 0 (m, false)

def afterBody (env : Env) (model m : List UInt8) : List UInt8 × Bool :=
  Userinfo.checkSkin env model (ascii "body") 4 (afterHead env model m)

def afterLegs (env : Env) (model m : List UInt8) : List UInt8 × Bool :=
  Userinfo.checkSkin env model (ascii "legs") 8 (afterBody env model m)

theorem checkSkins_front {slash : Nat} {front : List UInt8} (length : front.length = slash + 1)
    (m : List UInt8) (touched : List Nat) :
    checkSkins env model slash { buf := front ++ m, touched } =
      { buf := front ++ (afterLegs env model m).1
        replaced := (afterLegs env model m).2
        touched := touched ++ touches env model (ascii "head") m (slash + 1) 0 ++
          touches env model (ascii "body") (afterHead env model m).1 (slash + 5) 4 ++
          touches env model (ascii "legs") (afterBody env model m).1 (slash + 9) 8 } := by
  have head := @checkSkin_front env model (ascii "head") front m 0 false touched
  have body := @checkSkin_front env model (ascii "body") front (afterHead env model m).1 4
    (afterHead env model m).2 (touched ++ touches env model (ascii "head") m (slash + 1) 0)
  have legs := @checkSkin_front env model (ascii "legs") front (afterBody env model m).1 8
    (afterBody env model m).2 (touched ++ touches env model (ascii "head") m (slash + 1) 0 ++
      touches env model (ascii "body") (afterHead env model m).1 (slash + 5) 4)
  rw [length] at head body legs
  rw [checkSkins]
  exact (congrArg _ ((congrArg _ head).trans body)).trans legs

theorem lastSlash_lt {val : List UInt8} {slash : Nat} (h : lastSlash val = some slash) :
    slash < val.length := by
  obtain ⟨i, hi, rfl⟩ := Option.map_eq_some_iff.mp h
  have inside := (List.findIdx?_eq_some_iff_findIdx_eq.mp hi).1
  rw [List.length_reverse] at inside
  omega

/-- What is behind the slash of a value, in its buffer. -/
def behind (val rest : List UInt8) (slash : Nat) : List UInt8 := val.drop (slash + 1) ++ 0 :: rest

variable {cl : Client} {val rest : List UInt8} {slash : Nat}

/-- The buffer while the skins are checked: the model is cut off and in lower case. -/
theorem cutModel (inside : slash < val.length) (current : t.current = val ++ 0 :: rest) :
    lower (val.take slash) ++ 0 :: t.current.drop (slash + 1) =
      (lower (val.take slash) ++ [0]) ++ behind val rest slash := by
  rw [current, List.drop_append_of_le_length (by omega), behind, List.append_assoc,
    List.singleton_append]

theorem length_cutModel (inside : slash < val.length) :
    (lower (val.take slash) ++ [0]).length = slash + 1 := by
  rw [lower, List.length_append, List.length_map, List.length_take, List.length_singleton]
  omega

/-- Back at the slash, the model and what the checks have left are one string. -/
theorem restored (inside : slash < val.length) (string : 0 ∉ val) (m : List UInt8) :
    stringFrom (((lower (val.take slash) ++ [0]) ++ m).set slash 47) 0 =
      lower (val.take slash) ++ 47 :: m.takeWhile (· ≠ 0) := by
  have length : (lower (val.take slash)).length = slash := by
    rw [lower, List.length_map, List.length_take]
    omega
  have clean : 0 ∉ lower (val.take slash) :=
    not_mem_lower fun h => string (List.mem_of_mem_take h)
  have nonzero : ∀ c ∈ lower (val.take slash), decide (c ≠ 0) = true := by
    intro c hc
    simpa using fun zero : c = 0 => clean (zero ▸ hc)
  rw [List.append_assoc, List.singleton_append, List.set_append_right _ _ (by omega), length,
    Nat.sub_self, List.set_cons_zero, stringFrom, List.drop_zero,
    List.takeWhile_append_of_pos nonzero]
  rfl

/-- The check is the one of `Userinfo` with what the buffer holds behind the value. -/
theorem fixModel_eq (inside : slash < val.length) (string : 0 ∉ cl.userinfo)
    (value : InfoString.infoValueForKey cl.userinfo skin = val)
    (current : t.current = val ++ 0 :: rest) :
    ((fixModel env cl t slash).userinfo, (fixModel env cl t slash).badmodel) =
      (if lower (val.take slash) ∈ models then (cl.userinfo, [])
      else if env.loadFile (ascii "players/" ++ lower (val.take slash) ++ ascii "/head.mdx") ≤ 0 then
        (infoSetValueForKey cl.userinfo skin
          (if cl.skin ≠ [] then cl.skin else defaultSkin env (lower (val.take slash))),
          lower (val.take slash))
      else if (afterLegs env (lower (val.take slash)) (behind val rest slash)).2 then
        (infoSetValueForKey cl.userinfo skin (lower (val.take slash) ++ 47 ::
          (afterLegs env (lower (val.take slash)) (behind val rest slash)).1.takeWhile (· ≠ 0)), val)
      else (cl.userinfo, [])) := by
  have own : 0 ∉ val := value ▸ infoValueForKey_string string skin
  have whole : stringFrom t.current 0 = val := by
    rw [current, stringFrom_append own]
  simp only [fixModel, whole, List.contains_iff_mem, cutModel inside current,
    Buffers.current_put, checkSkins_front (length_cutModel inside), restored inside own]
  split_ifs
  · rfl
  · rfl
  · rfl
  · simp only [infoValueForKey_fst string, value]
  · rfl

theorem fixModel_touched (inside : slash < val.length) (string : 0 ∉ val)
    (current : t.current = val ++ 0 :: rest) (other : lower (val.take slash) ∉ models)
    (there : env.loadFile (ascii "players/" ++ lower (val.take slash) ++ ascii "/head.mdx") > 0) :
    (fixModel env cl t slash).touched =
      List.range (val.length + 1) ++
        touches env (lower (val.take slash)) (ascii "head") (behind val rest slash) (slash + 1) 0 ++
        touches env (lower (val.take slash)) (ascii "body")
          (afterHead env (lower (val.take slash)) (behind val rest slash)).1 (slash + 5) 4 ++
        touches env (lower (val.take slash)) (ascii "legs")
          (afterBody env (lower (val.take slash)) (behind val rest slash)).1 (slash + 9) 8 ++
        if (afterLegs env (lower (val.take slash)) (behind val rest slash)).2 then
          List.range (slash + 1 + ((afterLegs env (lower (val.take slash))
            (behind val rest slash)).1.takeWhile (· ≠ 0)).length + 1)
        else [] := by
  have whole : stringFrom t.current 0 = val := by
    rw [current, stringFrom_append string]
  have length : (lower (val.take slash)).length = slash := by
    rw [lower, List.length_map, List.length_take]
    omega
  simp only [fixModel, whole, List.contains_iff_mem, cutModel inside current,
    Buffers.current_put, checkSkins_front (length_cutModel inside), restored inside string]
  rw [if_neg other, if_neg (not_le.mpr there)]
  split_ifs
  · simp only [List.length_append, List.length_cons, length]
    congr 2
    omega
  · rw [List.append_nil]

theorem fixSkin_eq (string : 0 ∉ cl.userinfo) (t : Buffers) :
    ∃ stale, ((fixSkin env cl t).userinfo, (fixSkin env cl t).badmodel) =
      Userinfo.fixSkin { env with stale } cl := by
  by_cases any : (env.allowAnyModel || env.teamplay) = true
  · refine ⟨[], ?_⟩
    rw [fixSkin, Userinfo.fixSkin, if_pos any, if_pos any]
  · cases last : lastSlash (InfoString.infoValueForKey cl.userinfo skin) with
    | none =>
      refine ⟨[], ?_⟩
      rw [fixSkin, Userinfo.fixSkin, if_neg any, if_neg any]
      simp only [infoValueForKey_fst string, last]
    | some slash =>
      have inside := lastSlash_lt last
      have some : InfoString.infoValueForKey cl.userinfo skin ≠ [] := by
        intro empty
        rw [empty] at inside
        exact absurd inside (Nat.not_lt_zero _)
      obtain ⟨rest, current⟩ := @infoValueForKey_current t _ _ some
      refine ⟨rest, ?_⟩
      rw [fixSkin, Userinfo.fixSkin, if_neg any, if_neg any]
      simp only [infoValueForKey_fst string, last]
      refine (fixModel_eq inside string rfl current).trans ?_
      rfl

/-! ## The rest of the call -/

theorem fixFov_eq (string : 0 ∉ u) (t : Buffers) :
    (fixFov env u t).1 = Userinfo.fixFov env u := by
  rw [fixFov, Userinfo.fixFov]
  split
  · rename_i noZoom
    simp only [infoValueForKey_fst string, noZoom, true_and]
  · rename_i zoom
    rw [if_neg fun h => zoom h.1]

theorem numberedName_string (s : State) (slot : Nat) {stem : List UInt8} (string : 0 ∉ stem) :
    0 ∉ numberedName s slot stem := by
  have candidate : ∀ n, 0 ∉ stem ++ padded space 2 n := by
    intro n found
    rcases List.mem_append.mp found with found | found
    · exact string found
    · exact absurd (List.all_eq_true.mp (infoCheckBytes_padded (by decide) 2 n) 0 found) (by decide)
  rw [numberedName]
  simp only
  split
  · exact candidate _
  · exact candidate _

theorem svNameClash_eq (string : 0 ∉ u) (named : 0 ∉ cl.name) (s : State) (slot : Nat) (t : Buffers) :
    (svNameClash env s slot cl u t).1 = Userinfo.svNameClash env s slot cl u := by
  have own := infoValueForKey_string string name
  rw [svNameClash, Userinfo.svNameClash]
  split
  · simp only [infoValueForKey_fst string]
    split
    · rfl
    · rename_i some
      obtain ⟨rest, current⟩ := @infoValueForKey_current t _ _ some
      obtain ⟨cut, hcut⟩ := exists_set (InfoString.infoValueForKey u name) rest 13
      simp only [Buffers.current_put, current, hcut, stringFrom_append (take_string own 13)]
      split
      · rw [otherName]
        split
        · simp only [Buffers.current_put, strcpy, stringFrom_append named]
        · obtain ⟨cut', hcut'⟩ := exists_set ((InfoString.infoValueForKey u name).take 13) cut 11
          simp only [Buffers.current_put, strcpy, hcut',
            stringFrom_append (take_string (take_string own 13) 11),
            stringFrom_append (numberedName_string s slot (take_string (take_string own 13) 11))]
      · rfl
  · rfl

theorem readName_eq (string : 0 ∉ u) (t : Buffers) :
    (readName u t).1 = maskName (InfoString.infoValueForKey u name) := by
  have own := infoValueForKey_string string name
  rw [readName]
  simp only [infoValueForKey_fst string]
  split
  · rename_i none
    rw [none]
    rfl
  · rename_i some
    obtain ⟨rest, current⟩ := @infoValueForKey_current t _ _ some
    obtain ⟨cut, hcut⟩ := exists_set (InfoString.infoValueForKey u name) rest 15
    simp only [Buffers.current_put, current, hcut, stringFrom_append (take_string own 15), maskName,
      List.take_take, min_self]

theorem readFields_eq (string : 0 ∉ cl.userinfo) (t : Buffers) :
    readFields cl t = Userinfo.readFields cl := by
  simp only [readFields, readName_eq string, infoValueForKey_fst string]
  rfl

theorem fixSkin_string (string : 0 ∉ cl.userinfo) : 0 ∉ (Userinfo.fixSkin env cl).1 := by
  simp only [Userinfo.fixSkin]
  split
  · exact string
  · split
    · exact string
    · split_ifs
      · exact string
      · exact infoSetValueForKey_string string _ _
      · exact infoSetValueForKey_string string _ _
      · exact infoSetValueForKey_string string _ _
      · exact string

theorem fixFov_string (string : 0 ∉ u) : 0 ∉ Userinfo.fixFov env u := by
  rw [Userinfo.fixFov]
  split
  · exact infoSetValueForKey_string string _ _
  · exact string

theorem svNameClash_string (string : 0 ∉ u) (s : State) (slot : Nat) :
    0 ∉ Userinfo.svNameClash env s slot cl u := by
  simp only [Userinfo.svNameClash]
  split_ifs
  · exact string
  · exact infoSetValueForKey_string string _ _
  · exact infoSetValueForKey_string string _ _
  · exact string
  · exact string

theorem svUpdateUserinfo_eq {stale : List UInt8} (string : 0 ∉ cl.userinfo) (named : 0 ∉ cl.name)
    (game : ∀ userinfo, 0 ∉ env.clientUserinfoChanged userinfo)
    (fixed : ((fixSkin env cl t).userinfo, (fixSkin env cl t).badmodel) =
      Userinfo.fixSkin { env with stale } cl) (slot : Nat) (notifyGame : Bool) (s : State) :
    (svUpdateUserinfo env slot cl notifyGame s t).1 =
      Userinfo.svUpdateUserinfo { env with stale } slot cl notifyGame s := by
  have first : (fixSkin env cl t).userinfo = (Userinfo.fixSkin { env with stale } cl).1 :=
    congrArg Prod.fst fixed
  have string₁ : 0 ∉ (fixSkin env cl t).userinfo := first ▸ fixSkin_string string
  have string₂ : 0 ∉ Userinfo.fixFov env (fixSkin env cl t).userinfo := fixFov_string string₁
  have string₃ : 0 ∉ Userinfo.svNameClash env s slot cl
      (Userinfo.fixFov env (fixSkin env cl t).userinfo) := svNameClash_string string₂ s slot
  have clash : ∀ t', (svNameClash env s slot cl (Userinfo.fixFov env (fixSkin env cl t).userinfo) t').1 =
      Userinfo.svNameClash env s slot cl (Userinfo.fixFov env (fixSkin env cl t).userinfo) :=
    svNameClash_eq string₂ named s slot
  simp only [svUpdateUserinfo, Userinfo.svUpdateUserinfo, ← fixed]
  split
  · simp only [fixFov_eq string₁, clash]
    rw [readFields_eq (game _)]
    rfl
  · simp only [fixFov_eq string₁, clash]
    rw [readFields_eq string₃]
    rfl

/-- The call is the one of `Userinfo`, with some bytes behind the skin. -/
theorem run_eq (u : Update) (t : Buffers) :
    ∃ stale, (u.run t).1 =
      Userinfo.svUpdateUserinfo { u.env with stale } u.slot u.cl u.notifyGame u.s := by
  obtain ⟨stale, fixed⟩ := fixSkin_eq u.string t
  exact ⟨stale, svUpdateUserinfo_eq u.string u.named u.game fixed u.slot u.notifyGame u.s⟩

/-! ## Inside the value -/

variable {tail : List UInt8} {i : Nat}

/-- A skin that stands inside of the value, or one that is only read there. -/
def Within (env : Env) (model part tail : List UInt8) (i : Nat) : Prop :=
  i + 3 ≤ tail.length ∨ (i ≤ tail.length ∧ ¬Missing env model part ((tail.drop i).take 3))

theorem Within.le (h : Within env model part tail i) : i ≤ tail.length := by
  rcases h with h | h
  · omega
  · exact h.1

theorem textureAt_append (string : 0 ∉ tail) (inside : i ≤ tail.length) (rest : List UInt8) :
    textureAt (tail ++ 0 :: rest) i = (tail.drop i).take 3 := by
  rw [textureAt, stringFrom_drop string inside]

theorem textureAt_string (string : 0 ∉ tail) (i : Nat) : textureAt tail i = (tail.drop i).take 3 := by
  have nonzero : ∀ c ∈ tail.drop i, decide (c ≠ 0) = true := by
    intro c hc
    simpa using fun zero : c = 0 => string (zero ▸ List.mem_of_mem_drop hc)
  rw [textureAt, stringFrom, List.takeWhile_eq_self_iff.mpr nonzero]

theorem checkSkin_eq (env : Env) (model part m : List UInt8) (i : Nat) (flag : Bool) :
    Userinfo.checkSkin env model part i (m, flag) =
      if Missing env model part (textureAt m i) then (overwriteAt m i (ascii "001"), true)
      else (m, flag) := by
  rfl

theorem checkSkin_within (string : 0 ∉ tail) (within : Within env model part tail i)
    (rest : List UInt8) (flag : Bool) :
    Userinfo.checkSkin env model part i (tail ++ 0 :: rest, flag) =
      ((Userinfo.checkSkin env model part i (tail, flag)).1 ++ 0 :: rest,
        (Userinfo.checkSkin env model part i (tail, flag)).2) := by
  rw [checkSkin_eq, checkSkin_eq, textureAt_append string within.le, textureAt_string string]
  split
  · rename_i missing
    have inside := within.resolve_right fun h => h.2 missing
    have three : (ascii "001").length = 3 := by decide
    simp only [overwriteAt, three, List.take_append_of_le_length within.le,
      List.drop_append_of_le_length inside, List.append_assoc]
  · rfl

/-- A check changes neither the length nor what stands behind its skin. -/
theorem checkSkin_frame (string : 0 ∉ tail) (within : Within env model part tail i) (flag : Bool) :
    0 ∉ (Userinfo.checkSkin env model part i (tail, flag)).1 ∧
      (Userinfo.checkSkin env model part i (tail, flag)).1.length = tail.length ∧
      (Userinfo.checkSkin env model part i (tail, flag)).1.drop (i + 3) = tail.drop (i + 3) := by
  rw [checkSkin_eq, textureAt_string string]
  split
  · rename_i missing
    have inside := within.resolve_right fun h => h.2 missing
    have three : (ascii "001").length = 3 := by decide
    have before : (tail.take i ++ ascii "001").length = i + 3 := by
      rw [List.length_append, List.length_take, three]
      omega
    refine ⟨?_, ?_, ?_⟩
    · rw [overwriteAt, three, List.mem_append, List.mem_append]
      rintro ((found | found) | found)
      · exact string (List.mem_of_mem_take found)
      · exact absurd found (by decide)
      · exact string (List.mem_of_mem_drop found)
    · rw [overwriteAt, List.length_append, before, three, List.length_drop]
      omega
    · rw [overwriteAt, three]
      exact List.drop_left' before
  · exact ⟨string, rfl, rfl⟩

theorem touches_within (string : 0 ∉ tail) (within : Within env model part tail i)
    (rest : List UInt8) (start : Nat) :
    ∀ k ∈ touches env model part (tail ++ 0 :: rest) (start + i) i, k ≤ start + tail.length := by
  have inside := within.le
  intro k hk
  rw [touches, textureAt_append string inside] at hk
  rcases List.mem_append.mp hk with hk | hk
  · have bounds := List.mem_range'_1.mp hk
    simp only [List.length_take, List.length_drop] at bounds
    omega
  · split at hk
    · rename_i missing
      have whole := within.resolve_right fun h => h.2 missing
      have bounds := List.mem_range'_1.mp hk
      omega
    · cases hk

/-- The first two skins of a tail with eight bytes. -/
structure TwoSkins (env : Env) (model tail : List UInt8) : Prop where
  head : ∀ rest, afterHead env model (tail ++ 0 :: rest) =
    ((afterHead env model tail).1 ++ 0 :: rest, (afterHead env model tail).2)
  headString : 0 ∉ (afterHead env model tail).1
  headLength : (afterHead env model tail).1.length = tail.length
  body : ∀ rest, afterBody env model (tail ++ 0 :: rest) =
    ((afterBody env model tail).1 ++ 0 :: rest, (afterBody env model tail).2)
  string : 0 ∉ (afterBody env model tail).1
  length : (afterBody env model tail).1.length = tail.length
  drop : (afterBody env model tail).1.drop 8 = tail.drop 8

theorem twoSkins (string : 0 ∉ tail) (eight : 8 ≤ tail.length) : TwoSkins env model tail := by
  have first : Within env model (ascii "head") tail 0 := Or.inl (by omega)
  obtain ⟨string₁, length₁, drop₁⟩ := checkSkin_frame string first false
  have second : Within env model (ascii "body") (afterHead env model tail).1 4 := by
    left
    rw [afterHead, length₁]
    omega
  obtain ⟨string₂, length₂, drop₂⟩ := checkSkin_frame string₁ second (afterHead env model tail).2
  have head := fun rest => checkSkin_within string first rest false
  refine ⟨head, string₁, length₁, fun rest => ?_, string₂, length₂.trans length₁, ?_⟩
  · rw [afterBody, afterHead, head rest]
    exact checkSkin_within string₁ second rest _
  · have later := congrArg (List.drop 1) drop₂
    have earlier := congrArg (List.drop 5) drop₁
    rw [List.drop_drop, List.drop_drop] at later earlier
    exact later.trans earlier

theorem afterLegs_within (string : 0 ∉ tail) (eight : 8 ≤ tail.length)
    (legs : Within env model (ascii "legs") tail 8) (rest : List UInt8) :
    afterLegs env model (tail ++ 0 :: rest) =
        ((afterLegs env model tail).1 ++ 0 :: rest, (afterLegs env model tail).2) ∧
      0 ∉ (afterLegs env model tail).1 ∧ (afterLegs env model tail).1.length = tail.length := by
  have two : TwoSkins env model tail := twoSkins string eight
  have third : Within env model (ascii "legs") (afterBody env model tail).1 8 := by
    rw [Within, two.length, two.drop]
    exact legs
  obtain ⟨string₃, length₃, -⟩ := checkSkin_frame two.string third (afterBody env model tail).2
  refine ⟨?_, string₃, length₃.trans two.length⟩
  rw [afterLegs, two.body rest]
  exact checkSkin_within two.string third rest _

variable {v : Update}

theorem Update.val_string (v : Update) : 0 ∉ v.val := infoValueForKey_string v.string skin

theorem Update.tail_string (v : Update) (slash : Nat) : 0 ∉ v.val.drop slash :=
  fun h => v.val_string (List.mem_of_mem_drop h)

theorem Fits.legs (h : Fits v slash) :
    8 ≤ (v.val.drop (slash + 1)).length ∧
      Within v.env (v.model slash) (ascii "legs") (v.val.drop (slash + 1)) 8 := by
  rw [Within, List.length_drop, List.drop_drop]
  by_cases whole : slash + 12 ≤ v.val.length
  · exact ⟨by omega, Or.inl (by omega)⟩
  · obtain ⟨some, there⟩ := h.resolve_left whole
    have short : (v.val.drop (slash + 1 + 8)).length ≤ 3 := by
      rw [List.length_drop]
      omega
    rw [List.take_of_length_le short]
    exact ⟨by omega, Or.inr ⟨by omega, there⟩⟩

/-- What the check makes of a skin that fits does not depend on what is behind it. -/
theorem fixSkin_same (fits : ∀ slash, ChecksSkins v slash → Fits v slash) (stale stale' : List UInt8) :
    Userinfo.fixSkin { v.env with stale } v.cl =
      Userinfo.fixSkin { v.env with stale := stale' } v.cl := by
  simp only [Userinfo.fixSkin]
  split
  · rfl
  · rename_i wanted
    split
    · rfl
    · rename_i slash last
      split
      · rfl
      · rename_i other
        split
        · rfl
        · rename_i there
          have checks : ChecksSkins v slash :=
            ⟨eq_false_of_ne_true wanted, last, other, not_le.mp there⟩
          obtain ⟨eight, legs⟩ := (fits slash checks).legs
          have string := v.tail_string (slash + 1)
          have left := afterLegs_within string eight legs stale
          have right := afterLegs_within string eight legs stale'
          change (if (afterLegs v.env (v.model slash) (v.val.drop (slash + 1) ++ 0 :: stale)).2 = true
              then (infoSetValueForKey v.cl.userinfo skin (v.model slash ++ 47 ::
                (afterLegs v.env (v.model slash)
                  (v.val.drop (slash + 1) ++ 0 :: stale)).1.takeWhile (· ≠ 0)), v.val)
              else (v.cl.userinfo, [])) =
            if (afterLegs v.env (v.model slash) (v.val.drop (slash + 1) ++ 0 :: stale')).2 = true
              then (infoSetValueForKey v.cl.userinfo skin (v.model slash ++ 47 ::
                (afterLegs v.env (v.model slash)
                  (v.val.drop (slash + 1) ++ 0 :: stale')).1.takeWhile (· ≠ 0)), v.val)
              else (v.cl.userinfo, [])
          rw [left.1, right.1]
          simp only [takeWhile_terminated left.2.1]

/-- Where the skins fit, what earlier calls have left plays no part. -/
theorem run_same (fits : ∀ slash, ChecksSkins v slash → Fits v slash) (t t' : Buffers) :
    (v.run t).1 = (v.run t').1 := by
  obtain ⟨stale, hrun⟩ := run_eq v t
  obtain ⟨stale', hrun'⟩ := run_eq v t'
  rw [hrun, hrun']
  simp only [Userinfo.svUpdateUserinfo, fixSkin_same fits stale stale']
  rfl

theorem run_snd (v : Update) (t : Buffers) : (v.run t).2 = (fixSkin v.env v.cl t).touched := by
  rw [Update.run, svUpdateUserinfo]
  simp only
  split
  · rfl
  · rfl

/-- Where the value stands when its skins are checked. -/
theorem run_touched (checks : ChecksSkins v slash) (t : Buffers) :
    ∃ t' rest, t'.current = v.val ++ 0 :: rest ∧ (v.run t).2 = (fixModel v.env v.cl t' slash).touched := by
  have inside := lastSlash_lt checks.last
  have some : v.val ≠ [] := by
    intro empty
    rw [empty] at inside
    exact absurd inside (Nat.not_lt_zero _)
  obtain ⟨rest, current⟩ := @infoValueForKey_current t _ _ some
  refine ⟨_, rest, current, ?_⟩
  have first : (infoValueForKey t v.cl.userinfo skin).1 = v.val := infoValueForKey_fst v.string
  rw [run_snd, fixSkin, checks.wanted, if_neg Bool.false_ne_true]
  simp only [first, checks.last]

/-- Without a check of the skins the value is only read. -/
theorem run_untouched (unchecked : ∀ slash, ¬ChecksSkins v slash) (t : Buffers) :
    ∀ k ∈ (v.run t).2, k ≤ v.val.length := by
  have first : (infoValueForKey t v.cl.userinfo skin).1 = v.val := infoValueForKey_fst v.string
  have value : ∀ k ∈ List.range (v.val.length + 1), k ≤ v.val.length := by
    intro k hk
    exact Nat.le_of_lt_succ (List.mem_range.mp hk)
  rw [run_snd, fixSkin]
  split
  · exact List.forall_mem_nil _
  · rename_i wanted
    simp only [first]
    split
    · exact value
    · rename_i slash last
      have inside := lastSlash_lt last
      have some : v.val ≠ [] := by
        intro empty
        rw [empty] at inside
        exact absurd inside (Nat.not_lt_zero _)
      obtain ⟨rest, current⟩ := @infoValueForKey_current t _ _ some
      have whole : stringFrom (infoValueForKey t v.cl.userinfo skin).2.current 0 = v.val := by
        rw [current]
        exact stringFrom_append v.val_string rest
      simp only [fixModel, whole, List.contains_iff_mem]
      split
      · exact value
      · rename_i other
        split
        · exact value
        · rename_i there
          exact absurd ⟨eq_false_of_ne_true wanted, last, other, not_le.mp there⟩ (unchecked slash)

/-- Where the skins fit, the check touches nothing behind the value. -/
theorem run_inside (checks : ChecksSkins v slash) (fits : Fits v slash) (t : Buffers) :
    ∀ k ∈ (v.run t).2, k ≤ v.val.length := by
  obtain ⟨t', rest, current, touched⟩ := run_touched checks t
  have inside := lastSlash_lt checks.last
  obtain ⟨eight, legs⟩ := fits.legs
  have string := v.tail_string (slash + 1)
  have two : TwoSkins v.env (v.model slash) (v.val.drop (slash + 1)) := twoSkins string eight
  obtain ⟨last, lastString, lastLength⟩ := afterLegs_within string eight legs rest
  have length : slash + 1 + (v.val.drop (slash + 1)).length = v.val.length := by
    rw [List.length_drop]
    omega
  rw [touched, fixModel_touched inside v.val_string current checks.other checks.there]
  change ∀ k ∈ List.range (v.val.length + 1) ++
      touches v.env (v.model slash) (ascii "head") (v.val.drop (slash + 1) ++ 0 :: rest)
        (slash + 1 + 0) 0 ++
      touches v.env (v.model slash) (ascii "body")
        (afterHead v.env (v.model slash) (v.val.drop (slash + 1) ++ 0 :: rest)).1 (slash + 1 + 4) 4 ++
      touches v.env (v.model slash) (ascii "legs")
        (afterBody v.env (v.model slash) (v.val.drop (slash + 1) ++ 0 :: rest)).1 (slash + 1 + 8) 8 ++
      (if (afterLegs v.env (v.model slash) (v.val.drop (slash + 1) ++ 0 :: rest)).2 = true then
        List.range (slash + 1 + ((afterLegs v.env (v.model slash)
          (v.val.drop (slash + 1) ++ 0 :: rest)).1.takeWhile (· ≠ 0)).length + 1)
      else []), k ≤ v.val.length
  rw [two.head, two.body, last]
  simp only [takeWhile_terminated lastString, lastLength]
  intro k hk
  rcases List.mem_append.mp hk with hk | hk
  · rcases List.mem_append.mp hk with hk | hk
    · rcases List.mem_append.mp hk with hk | hk
      · rcases List.mem_append.mp hk with hk | hk
        · exact Nat.le_of_lt_succ (List.mem_range.mp hk)
        · exact length ▸ touches_within string (Or.inl (by omega)) rest (slash + 1) k hk
      · have within : Within v.env (v.model slash) (ascii "body")
            (afterHead v.env (v.model slash) (v.val.drop (slash + 1))).1 4 := by
          left
          rw [two.headLength]
          omega
        have bound := touches_within two.headString within rest (slash + 1) k hk
        rw [two.headLength] at bound
        omega
    · have within : Within v.env (v.model slash) (ascii "legs")
          (afterBody v.env (v.model slash) (v.val.drop (slash + 1))).1 8 := by
        rw [Within, two.length, two.drop]
        exact legs
      have bound := touches_within two.string within rest (slash + 1) k hk
      rw [two.length] at bound
      omega
  · split at hk
    · have bound := List.mem_range.mp hk
      omega
    · cases hk

theorem length_takeWhile_append {front : List UInt8} (string : 0 ∉ front) (m : List UInt8) :
    front.length ≤ ((front ++ m).takeWhile (· ≠ 0)).length := by
  have nonzero : ∀ c ∈ front, decide (c ≠ 0) = true := by
    intro c hc
    simpa using fun zero : c = 0 => string (zero ▸ hc)
  rw [List.takeWhile_append_of_pos nonzero, List.length_append]
  exact Nat.le_add_right _ _

/-- A third skin that is replaced where the value ends takes the terminator away. -/
theorem overrun (string : 0 ∉ tail) (eight : 8 ≤ tail.length) (short : tail.length < 11)
    (missing : Missing env model (ascii "legs") (tail.drop 8)) (rest : List UInt8) :
    (afterLegs env model (tail ++ 0 :: rest)).2 = true ∧
      11 ≤ ((afterLegs env model (tail ++ 0 :: rest)).1.takeWhile (· ≠ 0)).length := by
  have two : TwoSkins env model tail := twoSkins string eight
  have texture : textureAt ((afterBody env model tail).1 ++ 0 :: rest) 8 = tail.drop 8 := by
    rw [textureAt_append two.string (by rw [two.length]; exact eight), two.drop]
    exact List.take_of_length_le (by rw [List.length_drop]; omega)
  have replaced : afterLegs env model (tail ++ 0 :: rest) =
      (overwriteAt ((afterBody env model tail).1 ++ 0 :: rest) 8 (ascii "001"), true) := by
    rw [afterLegs, two.body, checkSkin_eq, texture, if_pos missing]
  have front : 0 ∉ (afterBody env model tail).1.take 8 ++ ascii "001" := by
    rw [List.mem_append]
    rintro (found | found)
    · exact two.string (List.mem_of_mem_take found)
    · exact absurd found (by decide)
  have length : ((afterBody env model tail).1.take 8 ++ ascii "001").length = 11 := by
    have three : (ascii "001").length = 3 := by decide
    rw [List.length_append, List.length_take, two.length, three]
    omega
  rw [replaced]
  refine ⟨rfl, ?_⟩
  rw [overwriteAt, List.take_append_of_le_length (by rw [two.length]; exact eight), ← length]
  exact length_takeWhile_append front _

/-- Where the check stays inside the value, the skins fit. -/
theorem fits_of_inside (checks : ChecksSkins v slash)
    (inside : ∀ t, ∀ k ∈ (v.run t).2, k ≤ v.val.length) : Fits v slash := by
  have hslash := lastSlash_lt checks.last
  have t : Buffers := ⟨fun _ => [], false⟩
  obtain ⟨t', rest, current, touched⟩ := run_touched checks t
  have bound := inside t
  rw [touched, fixModel_touched hslash v.val_string current checks.other checks.there] at bound
  by_contra other
  rw [Fits, not_or, not_and, not_not] at other
  by_cases two : slash + 9 ≤ v.val.length
  · have missing := other.2 two
    have string := v.tail_string (slash + 1)
    have tail : (v.val.drop (slash + 1)).drop 8 = v.val.drop (slash + 9) := List.drop_drop
    have length : (v.val.drop (slash + 1)).length = v.val.length - (slash + 1) := List.length_drop
    obtain ⟨replaced, long⟩ := overrun string (by omega) (by omega)
      (show Missing v.env (v.model slash) (ascii "legs") ((v.val.drop (slash + 1)).drop 8) from
        tail ▸ missing) rest
    have reached := bound (slash + 12) (List.mem_append_right _ ?_)
    · omega
    · change slash + 12 ∈ if (afterLegs v.env (v.model slash)
          (v.val.drop (slash + 1) ++ 0 :: rest)).2 = true then _ else _
      rw [if_pos replaced]
      refine List.mem_range.mpr ?_
      change slash + 12 < slash + 1 + ((afterLegs v.env (v.model slash)
        (v.val.drop (slash + 1) ++ 0 :: rest)).1.takeWhile (· ≠ 0)).length + 1
      omega
  · refine absurd (bound (slash + 9) ?_) two
    refine List.mem_append_left _ (List.mem_append_right _ ?_)
    rw [touches]
    refine List.mem_append_left _ (List.mem_range'_1.mpr ⟨le_rfl, ?_⟩)
    omega

/-- Two runs that differ in what the buffers held leave the same state, and the check of the skin stays
in the value, if and only if the value has the skins that the check comes to. -/
theorem private_iff (v : Update) : Private v ↔ ∀ slash, ChecksSkins v slash → Fits v slash := by
  constructor
  · intro own slash checks
    exact fits_of_inside checks own.inside
  · intro fits
    refine ⟨run_same fits, fun t => ?_⟩
    by_cases checked : ∃ slash, ChecksSkins v slash
    · obtain ⟨slash, checks⟩ := checked
      exact run_inside checks (fits slash checks) t
    · exact run_untouched (fun slash checks => checked ⟨slash, checks⟩) t

private def alienFiles : Env where
  filterUserinfo := 0
  formatStringHack := false
  strictUserinfoCheck := false
  uniqueNames := false
  noZoom := false
  allowAnyModel := false
  teamplay := false
  password := []
  reservedPassword := []
  loadFile file :=
    if file = ascii "players/a/head.mdx" ∨ file = ascii "players/a/head_001.tga" then 1 else 0
  rand _ := 0
  stale := []
  country := none
  userInfoBanned _ := false
  clientConnect userinfo := (true, userinfo)
  clientUserinfoChanged _ := []

/-- A skin with one letter behind the slash. -/
private def shortSkin : Update where
  env := alienFiles
  slot := 0
  cl := newClient ⟨(0, 0, 0, 0), 0⟩ (ascii "\\skin\\a/1")
  notifyGame := false
  s := ⟨0, fun _ => newClient ⟨(0, 0, 0, 0), 0⟩ [], []⟩
  string := by decide
  named := List.not_mem_nil
  game _ := List.not_mem_nil
  accepted := by decide +kernel

private def leftBy (text : List UInt8) : Buffers := ⟨fun _ => text ++ List.replicate 100 0, false⟩

/-- What another client has sent gets into the userinfo. -/
theorem skin_leaks : ¬∀ u : Update, Private u := by
  intro claim
  have same := (claim shortSkin).same (leftBy []) (leftBy (ascii "-----secret"))
  have userinfo := congrArg (fun s => (s.clients 0).userinfo) same
  exact absurd userinfo (by decide +kernel)

end SkinBuffer
