import Mathlib.Data.Fintype.Pigeonhole
import Mathlib.Data.Fintype.Card
import Kpded2.Userinfo

/-!
# The names of the clients

`SV_NameClash` keeps the names apart: it looks for the first 13 bytes of a new name among the
names of the others. What is stored of a name is up to 15 bytes long and has no high bits.
-/
namespace ClientNames
open Bytes InfoString Userinfo

def UniqueNames (s : State) : Prop :=
  ∀ i < s.maxclients, ∀ j < s.maxclients, i ≠ j →
    (s.clients i).state = .connected → (s.clients j).state = .connected →
    (s.clients i).name = (s.clients j).name → (s.clients i).name = []

/-! ## What `SV_UpdateUserinfo` is called with -/

/-- The client that `SV_UserinfoChanged` hands over, unless it is kicked. -/
def handsOver (env : Env) (cl : Client) : Option Client :=
  if 255 ∈ cl.userinfo then none
  else if svUserinfoValidate cl.userinfo = false then none
  else if env.strictUserinfoCheck && !infoCheckBytes cl.userinfo then none
  else
    let cl := { cl with userinfo := filterUserinfo env (formatStringHack env cl.userinfo) }
    match restoreName cl with
    | none => none
    | some userinfo =>
      if infoKeyExists userinfo ip then none
      else if env.userInfoBanned userinfo then none
      else some { cl with userinfo }

theorem svUserinfoChanged_eq (env : Env) (slot : Nat) (cl : Client) (s : State) :
    svUserinfoChanged env slot cl s =
      match handsOver env cl with
      | none => svKickClient slot (setClient s slot cl)
      | some handed => svUpdateUserinfo env slot handed true (setClient s slot cl) := by
  simp only [svUserinfoChanged, handsOver]
  split
  · rfl
  split
  · rfl
  split
  · rfl
  generalize restoreName { cl with userinfo := _ } = restored
  cases restored with
  | none => rfl
  | some userinfo =>
    simp only
    split
    · rfl
    split
    · rfl
    · rfl

theorem handsOver_name {env : Env} {cl handed : Client} (h : handsOver env cl = some handed) :
    handed.name = cl.name := by
  simp only [handsOver] at h
  split at h
  · cases h
  split at h
  · cases h
  split at h
  · cases h
  split at h
  · cases h
  split at h
  · cases h
  split at h
  · cases h
  · rw [← Option.some.inj h]

/-- The userinfo that `SVC_DirectConnect` hands over, unless the connection is refused. -/
def connectsWith (env : Env) (p : ConnectPacket) (s : State) : Option (List UInt8) :=
  let userinfo := p.userinfo.take (maxInfoString - 1)
  if refusesUserinfo env userinfo then none
  else
    let userinfo := filterUserinfo env userinfo
    if refusesValues env userinfo then none
    else
      let userinfo := removePassword env (infoSetValueForKey userinfo ip (netAdrToString p.adr))
      if p.reconnected then
        let (allowed, userinfo) := env.clientConnect (connectUserinfo env p s userinfo)
        if allowed then some userinfo else none
      else some userinfo

/-- A connection leaves the clients alone, clears a slot or fills it. -/
theorem svcDirectConnect_cases (env : Env) (p : ConnectPacket) (s : State) :
    (∃ handed, svcDirectConnect env p s = { s with handed }) ∨
    (∃ handed, svcDirectConnect env p s =
      setClient { s with handed } p.slot { newClient p.adr [] with state := .free }) ∨
    ∃ userinfo ∈ connectsWith env p s, ∃ handed notifyGame, svcDirectConnect env p s =
      svUpdateUserinfo env p.slot (newClient p.adr userinfo) notifyGame { s with handed } := by
  simp only [svcDirectConnect, connectsWith]
  split
  · exact .inl ⟨s.handed, rfl⟩
  split
  · exact .inl ⟨s.handed, rfl⟩
  split
  · split
    · exact .inr (.inr ⟨_, rfl, _, true, rfl⟩)
    · exact .inr (.inl ⟨_, rfl⟩)
  · exact .inr (.inr ⟨_, rfl, s.handed, false, rfl⟩)

/-! ## The condition -/

/-- What `SV_NameClash` puts in the place of a name that somebody else has. -/
def replacement (s : State) (slot : Nat) (cl : Client) (val : List UInt8) : List UInt8 :=
  if cl.name ≠ [] then cl.name else numberedName s slot ((val.take 13).take 11)

/-- A name that is free as far as it is looked at is free as it is stored; the replacement of
any other survives the info string, or leaves no name at all. -/
def Storable (s : State) (slot : Nat) (cl : Client) (userinfo : List UInt8) : Prop :=
  let val := infoValueForKey userinfo name
  if otherHasName s slot (val.take 13) then
    infoValueForKey (infoSetValueForKey userinfo name (replacement s slot cl val)) name ∈
      [replacement s slot cl val, []]
  else maskName val = [] ∨ otherHasName s slot (maskName val) = false

instance (s : State) (slot : Nat) (cl : Client) (userinfo : List UInt8) :
    Decidable (Storable s slot cl userinfo) :=
  inferInstanceAs (Decidable (ite _ _ _))

/-- The userinfo as `SV_NameClash` gets it. -/
def clashUserinfo (env : Env) (cl : Client) : List UInt8 := fixFov env (fixSkin env cl).1

def Meets (s : State) : Event → Prop
  | .connect env p => ∀ userinfo ∈ connectsWith env p s,
      Storable s p.slot (newClient p.adr userinfo) (clashUserinfo env (newClient p.adr userinfo))
  | .userinfo env slot text => (s.clients slot).state = .connected →
      ∀ cl ∈ handsOver env { s.clients slot with userinfo := text.take (maxInfoString - 1) },
        Storable s slot cl (clashUserinfo env cl)
  | .drop _ => True

instance (s : State) (e : Event) : Decidable (Meets s e) :=
  match e with
  | .connect env p => inferInstanceAs (Decidable (∀ userinfo ∈ connectsWith env p s, _))
  | .userinfo _ _ _ => inferInstanceAs (Decidable (_ → ∀ cl ∈ handsOver _ _, _))
  | .drop _ => inferInstanceAs (Decidable True)

/-- `sv_unique_names` is on and the game leaves names alone. -/
def NamesOn : Event → Prop
  | .connect env _ | .userinfo env _ _ =>
    env.uniqueNames = true ∧
      ∀ u, infoValueForKey (env.clientUserinfoChanged u) name = infoValueForKey u name
  | .drop _ => True

/-! ## Stored names -/

/-- A name as `SV_UpdateUserinfo` stores it. -/
structure Plain (val : List UInt8) : Prop where
  short : val.length ≤ 15
  bytes : ∀ c ∈ val, c ≠ 0 ∧ c < 128

theorem plain_maskName (val : List UInt8) : Plain (maskName val) where
  short := by
    refine (List.takeWhile_prefix _).length_le.trans ?_
    simp only [List.length_map, List.length_take]
    omega
  bytes := by
    rintro c hmem
    have nonzero := List.mem_takeWhile_imp hmem
    obtain ⟨b, -, rfl⟩ := List.mem_map.mp (List.takeWhile_subset _ hmem)
    refine ⟨by simpa using nonzero, ?_⟩
    rw [UInt8.lt_iff_toNat_lt, UInt8.toNat_and]
    exact lt_of_le_of_lt Nat.and_le_right (by decide)

theorem Plain.maskName_eq {val : List UInt8} (h : Plain val) : maskName val = val := by
  have mask : val.map (fun c => c &&& 127) = val := by
    conv_rhs => rw [← List.map_id val]
    exact List.map_congr_left fun c hmem => and_127_of_lt (h.bytes c hmem).2
  rw [maskName, List.take_of_length_le h.short, mask]
  exact List.takeWhile_eq_self_iff.mpr fun c hmem => by simpa using (h.bytes c hmem).1

/-! ## Numbered names -/

theorem digit_bounds {d : Char} {n : Nat} (h : d ∈ Nat.toDigits 10 n) :
    48 ≤ d.toNat ∧ d.toNat ≤ 57 := by
  have digit := Nat.isDigit_of_mem_toDigits (by decide) (by decide) h
  simpa [Char.isDigit, UInt32.le_iff_toNat_le] using digit

theorem decimal_chars (n : Nat) :
    (decimal n).map (fun c => Char.ofNat c.toNat) = Nat.toDigits 10 n := by
  conv_rhs => rw [← List.map_id (Nat.toDigits 10 n)]
  rw [decimal, List.map_map]
  refine List.map_congr_left fun d hmem => ?_
  have bounds := digit_bounds hmem
  rw [Function.comp_apply, UInt8.toNat_ofNat', Nat.mod_eq_of_lt (by omega), Char.ofNat_toNat, id]

theorem decimal_injective : Function.Injective decimal := by
  intro m n h
  have chars := congrArg (List.map fun c : UInt8 => Char.ofNat c.toNat) h
  rw [decimal_chars, decimal_chars] at chars
  rw [← @Nat.ofDigitChars_ten_toDigits m, ← @Nat.ofDigitChars_ten_toDigits n, chars]

theorem space_notMem_decimal (n : Nat) : space ∉ decimal n := by
  intro hmem
  obtain ⟨d, hd, same⟩ := List.mem_map.mp hmem
  have bounds := digit_bounds hd
  have value := congrArg UInt8.toNat same
  rw [UInt8.toNat_ofNat', Nat.mod_eq_of_lt (by omega)] at value
  have : space.toNat = 32 := rfl
  omega

theorem length_padded {n : Nat} (few : n < 1000) : (padded space 2 n).length ≤ 3 := by
  have digits : (decimal n).length ≤ 3 := by
    simp only [decimal, List.length_map]
    exact (Nat.length_toDigits_le_iff (by decide) (by decide)).mpr few
  simp only [padded, List.length_append, List.length_replicate]
  omega

theorem padded_injective : Function.Injective (padded space 2) := by
  have digits : ∀ n, (padded space 2 n).dropWhile (· = space) = decimal n := by
    intro n
    rw [padded, List.dropWhile_append_of_pos (by simp [List.mem_replicate])]
    cases hdigits : decimal n with
    | nil => rfl
    | cons c cs =>
      refine List.dropWhile_cons_of_neg ?_
      have first := space_notMem_decimal n
      rw [hdigits] at first
      simpa using fun same : c = space => first (same ▸ List.mem_cons_self)
  intro m n h
  refine decimal_injective ?_
  rw [← digits m, ← digits n, h]

theorem otherHasName_iff (s : State) (slot : Nat) (val : List UInt8) :
    otherHasName s slot val = true ↔
      ∃ i < s.maxclients, i ≠ slot ∧ (s.clients i).state = .connected ∧
        (s.clients i).name = val := by
  simp [otherHasName, and_assoc]

/-- Of so many numbers one makes a name that nobody has. -/
theorem exists_free_number (s : State) (slot : Nat) (stem : List UInt8) :
    ∃ n < s.maxclients + 1, otherHasName s slot (stem ++ padded space 2 (n + 2)) = false := by
  by_contra none
  have holder : ∀ n : Fin (s.maxclients + 1), ∃ i : Fin s.maxclients,
      (s.clients i).name = stem ++ padded space 2 (n + 2) := by
    intro n
    have taken : otherHasName s slot (stem ++ padded space 2 (n + 2)) = true := by
      by_contra free
      exact none ⟨n, n.isLt, Bool.eq_false_iff.mpr free⟩
    obtain ⟨i, hi, -, -, same⟩ := (otherHasName_iff s slot _).mp taken
    exact ⟨⟨i, hi⟩, same⟩
  choose holds hholds using holder
  obtain ⟨m, n, other, same⟩ := Fintype.exists_ne_map_eq_of_card_lt holds (by simp)
  have names := hholds m
  rw [same, hholds n] at names
  have numbers := padded_injective (List.append_cancel_left names)
  exact other (Fin.ext (by omega))

theorem numberedName_spec (s : State) (slot : Nat) (stem : List UInt8) :
    ∃ n < s.maxclients + 1, numberedName s slot stem = stem ++ padded space 2 (n + 2) ∧
      otherHasName s slot (numberedName s slot stem) = false := by
  cases hfind : (List.range (s.maxclients + 1)).find?
      (fun n => !otherHasName s slot (stem ++ padded space 2 (n + 2))) with
  | none =>
    obtain ⟨n, few, free⟩ := exists_free_number s slot stem
    have := List.find?_eq_none.mp hfind n (List.mem_range.mpr few)
    simp [free] at this
  | some n =>
    have name : numberedName s slot stem = stem ++ padded space 2 (n + 2) := by
      simp only [numberedName, hfind]
    refine ⟨n, List.mem_range.mp (List.mem_of_find?_eq_some hfind), name, ?_⟩
    rw [name]
    simpa using List.find?_some hfind

theorem plain_append_padded {stem : List UInt8} (h : Plain stem) (short : stem.length ≤ 11) {n : Nat}
    (few : n < 1000) : Plain (stem ++ padded space 2 n) where
  short := by
    have := length_padded few
    rw [List.length_append]
    omega
  bytes := by
    rintro c hmem
    rcases List.mem_append.mp hmem with hmem | hmem
    · exact h.bytes c hmem
    · have printable := List.all_eq_true.mp (@infoCheckBytes_padded space rfl 2 n) c hmem
      refine ⟨?_, printable_lt printable⟩
      rintro rfl
      cases printable

/-! ## Runs -/

structure Inv (s : State) : Prop where
  unique : UniqueNames s
  plain : ∀ slot, Plain (s.clients slot).name
  few : s.maxclients ≤ 256

theorem Plain.nil : Plain [] := ⟨Nat.zero_le _, by simp⟩

theorem other_name {s : State} {slot i : Nat} {val : List UInt8} (h : otherHasName s slot val = false)
    (hi : i < s.maxclients) (other : i ≠ slot) (connected : (s.clients i).state = .connected) :
    (s.clients i).name ≠ val := by
  rintro same
  rw [(otherHasName_iff s slot val).mpr ⟨i, hi, other, connected, same⟩] at h
  cases h

/-- A client may take a name that no other has, or none, or leave. -/
theorem Inv.setClient {s : State} (h : Inv s) (slot : Nat) {cl : Client} (plain : Plain cl.name)
    (free : slot < s.maxclients →
      cl.name = [] ∨ cl.state ≠ .connected ∨ otherHasName s slot cl.name = false) :
    Inv (setClient s slot cl) where
  unique := by
    rintro i hi j hj different
    simp only [Userinfo.setClient, Function.update_apply]
    by_cases hslot : i = slot
    · subst hslot
      rw [if_pos rfl, if_neg (Ne.symm different)]
      rintro connected there same
      rcases free hi with none | left | free
      · exact none
      · exact absurd connected left
      · exact absurd same.symm (other_name free hj (Ne.symm different) there)
    · rw [if_neg hslot]
      by_cases jslot : j = slot
      · subst jslot
        rw [if_pos rfl]
        rintro there connected same
        rcases free hj with none | left | free
        · rw [same]
          exact none
        · exact absurd connected left
        · exact absurd same (other_name free hi hslot there)
      · rw [if_neg jslot]
        exact h.unique i hi j hj different
  plain := by
    intro other
    simp only [Userinfo.setClient, Function.update_apply]
    split
    · exact plain
    · exact h.plain other
  few := h.few

theorem Inv.of_clients {s t : State} (h : Inv s) (clients : t.clients = s.clients)
    (maxclients : t.maxclients = s.maxclients) : Inv t := by
  obtain ⟨unique, plain, few⟩ := h
  constructor
  · rw [UniqueNames, clients, maxclients]
    exact unique
  · rw [clients]
    exact plain
  · rw [maxclients]
    exact few

theorem svNameClash_eq {env : Env} (on : env.uniqueNames = true) {s : State} {slot : Nat}
    {cl : Client} {userinfo : List UInt8} :
    svNameClash env s slot cl userinfo =
      if infoValueForKey userinfo name = [] then userinfo
      else if otherHasName s slot ((infoValueForKey userinfo name).take 13) then
        infoSetValueForKey userinfo name (replacement s slot cl (infoValueForKey userinfo name))
      else userinfo := by
  simp only [svNameClash, if_pos on, replacement]

/-- The name that is stored is no other's, unless it is empty. -/
theorem storedName_free {env : Env} {s : State} (h : Inv s) (on : env.uniqueNames = true)
    {slot : Nat} (inside : slot < s.maxclients) {cl : Client}
    (known : cl.name = [] ∨
      cl.name = (s.clients slot).name ∧ (s.clients slot).state = .connected)
    {userinfo : List UInt8} (storable : Storable s slot cl userinfo) :
    maskName (infoValueForKey (svNameClash env s slot cl userinfo) name) = [] ∨
      otherHasName s slot
        (maskName (infoValueForKey (svNameClash env s slot cl userinfo) name)) = false := by
  rw [svNameClash_eq on]
  split
  · rename_i none
    rw [none]
    exact .inl rfl
  simp only [Storable] at storable
  split
  swap
  · rename_i free
    rwa [if_neg free] at storable
  rename_i taken
  rw [if_pos taken] at storable
  rcases List.mem_pair.mp storable with kept | none
  swap
  · rw [none]
    exact .inl rfl
  rw [kept, replacement]
  by_cases named : cl.name ≠ []
  · rw [if_pos named]
    rcases known with none | ⟨same, connected⟩
    · exact absurd none named
    · rw [same, (h.plain slot).maskName_eq]
      refine .inr (Bool.eq_false_iff.mpr fun taken => ?_)
      obtain ⟨i, hi, other, there, names⟩ := (otherHasName_iff s slot _).mp taken
      exact named (same.trans (h.unique slot inside i hi (Ne.symm other) connected there names.symm))
  · rw [if_neg named]
    obtain ⟨i, -, -, -, names⟩ := (otherHasName_iff s slot _).mp taken
    have stem : Plain ((infoValueForKey userinfo name).take 13) := names ▸ h.plain i
    obtain ⟨n, few, number, free⟩ :=
      numberedName_spec s slot (((infoValueForKey userinfo name).take 13).take 11)
    have bound := h.few
    have plain : Plain (numberedName s slot (((infoValueForKey userinfo name).take 13).take 11)) := by
      rw [number]
      refine plain_append_padded ⟨?_, fun c hmem => stem.bytes c (List.mem_of_mem_take hmem)⟩
        (List.length_take_le _ _) (by omega)
      exact (List.length_take_le _ _).trans (by decide)
    rw [plain.maskName_eq]
    exact .inr free

theorem otherHasName_setClient (s : State) (slot : Nat) (cl : Client) (val : List UInt8) :
    otherHasName (setClient s slot cl) slot val = otherHasName s slot val := by
  rw [Bool.eq_iff_iff, otherHasName_iff, otherHasName_iff]
  refine exists_congr fun i => and_congr_right fun _ => and_congr_right fun other => ?_
  simp only [setClient, Function.update_apply, if_neg other]

theorem storable_setClient {s : State} {slot : Nat} (received : Client) {cl : Client}
    {userinfo : List UInt8} (h : Storable s slot cl userinfo) :
    Storable (setClient s slot received) slot cl userinfo := by
  simp only [Storable, replacement, numberedName, otherHasName_setClient]
  exact h

/-- A client that only changes its userinfo keeps its name. -/
theorem Inv.receive {s : State} (h : Inv s) (slot : Nat) (userinfo : List UInt8) :
    Inv (Userinfo.setClient s slot { s.clients slot with userinfo }) := by
  refine h.setClient slot (h.plain slot) ?_
  rintro inside
  by_contra taken
  rw [not_or, not_or, not_not, Bool.not_eq_false] at taken
  obtain ⟨named, connected, taken⟩ := taken
  obtain ⟨i, hi, other, there, names⟩ := (otherHasName_iff s slot _).mp taken
  exact named (h.unique slot inside i hi (Ne.symm other) connected there names.symm)

/-- The name that is stored is not that of another client. -/
theorem inv_svUpdateUserinfo {env : Env} {s : State} (h : Inv s) (on : env.uniqueNames = true)
    (leaves : ∀ u, infoValueForKey (env.clientUserinfoChanged u) name = infoValueForKey u name)
    {slot : Nat} {cl : Client}
    (known : cl.name = [] ∨
      cl.name = (s.clients slot).name ∧ (s.clients slot).state = .connected)
    (storable : Storable s slot cl (clashUserinfo env cl)) (notifyGame : Bool) :
    Inv (svUpdateUserinfo env slot cl notifyGame s) := by
  simp only [svUpdateUserinfo]
  split
  · refine Inv.of_clients (h.setClient slot ?_ ?_) rfl rfl
    · exact plain_maskName _
    · rintro inside
      simp only [readFields, leaves]
      exact (storedName_free h on inside known storable).imp_right .inr
  · refine h.setClient slot (plain_maskName _) ?_
    rintro inside
    exact (storedName_free h on inside known storable).imp_right .inr

theorem inv_svKickClient {s : State} (h : Inv s) (slot : Nat) : Inv (svKickClient slot s) :=
  h.setClient slot .nil fun _ => .inl rfl

/-- Every event keeps the names apart. -/
theorem inv_step (s : State) (e : Event) (h : Inv s) (ok : NamesOn e ∧ Meets s e) :
    Inv (step s e) := by
  obtain ⟨on, meets⟩ := ok
  cases e with
  | connect env p =>
    have told : ∀ handed, Inv { s with handed } := fun _ => h.of_clients rfl rfl
    rcases svcDirectConnect_cases env p s with
      ⟨handed, same⟩ | ⟨handed, same⟩ | ⟨userinfo, hmem, handed, notifyGame, same⟩
    · rw [step, same]
      exact told handed
    · rw [step, same]
      exact (told handed).setClient p.slot .nil fun _ => .inl rfl
    · rw [step, same]
      exact inv_svUpdateUserinfo (told handed) on.1 on.2 (.inl rfl) (meets userinfo hmem) notifyGame
  | userinfo env slot text =>
    simp only [step, readUserinfo]
    split
    swap
    · exact h
    rename_i connected
    rw [svUserinfoChanged_eq]
    have received := h.receive slot (text.take (maxInfoString - 1))
    split
    · exact inv_svKickClient received slot
    · rename_i handed handing
      have same := handsOver_name handing
      refine inv_svUpdateUserinfo received on.1 on.2 (.inr ⟨?_, ?_⟩)
        (storable_setClient _ (meets connected handed handing)) true
      · simpa [setClient] using same
      · simpa [setClient] using connected
  | drop slot => exact inv_svKickClient h slot

/-- In every run of changes that meet the condition no two clients have the same name. -/
theorem run_unique (maxclients : Nat) (few : maxclients ≤ 256) (events : List Event)
    (namesOn : ∀ e ∈ events, NamesOn e)
    (storable : StepRuns.AllSteps step Meets (start maxclients) events) :
    UniqueNames (StepRuns.run step (start maxclients) events) := by
  have init : Inv (start maxclients) :=
    ⟨fun _ _ _ _ _ _ _ _ => rfl, fun _ => .nil, few⟩
  refine (StepRuns.invariant_run inv_step init ?_).unique
  exact StepRuns.allSteps_and namesOn storable

/-! ## Examples -/

/-- Names are kept apart, no filter is on, and the game changes nothing. -/
private def uniqueEnv : Env where
  filterUserinfo := 0
  formatStringHack := false
  strictUserinfoCheck := false
  uniqueNames := true
  noZoom := false
  allowAnyModel := true
  teamplay := false
  password := []
  reservedPassword := []
  loadFile := fun _ => 0
  rand := fun _ => 0
  stale := []
  country := none
  userInfoBanned := fun _ => false
  clientConnect := fun userinfo => (true, userinfo)
  clientUserinfoChanged := id

private def connectAs (slot : Nat) (name : String) : Event :=
  .connect uniqueEnv
    ⟨⟨(10, 0, 0, UInt8.ofNat slot), 31510⟩, ascii ("\\name\\" ++ name ++ "\\ver\\121"), slot, true⟩

/-- Two clients connect with the same name of 14 bytes. -/
theorem long_names_clash :
    ¬UniqueNames (StepRuns.run step (start 2)
      [connectAs 0 "abcdefghijklmn", connectAs 1 "abcdefghijklmn"]) := by
  rintro unique
  have none := unique 0 (by decide +kernel) 1 (by decide +kernel) (by decide) (by decide +kernel)
    (by decide +kernel) (by decide +kernel)
  revert none
  decide +kernel

theorem run_unique_bob :
    UniqueNames (StepRuns.run step (start 2) [connectAs 0 "bob", connectAs 1 "bob"]) :=
  run_unique 2 (by decide) _
    (by
      rintro e hmem
      rcases List.mem_pair.mp hmem with rfl | rfl
      · exact ⟨rfl, fun _ => rfl⟩
      · exact ⟨rfl, fun _ => rfl⟩)
    (by decide +kernel)

end ClientNames
