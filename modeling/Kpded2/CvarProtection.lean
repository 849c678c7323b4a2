import Kpded2.CvarAgenda
import Kpded2.StepRuns

/-!
# Which strings the console may change

What the command `set` and the direct assignment of a variable do to the variables that are write
protected, latched or part of an info string.
-/
namespace CvarProtection
open Bytes CommandArgs Cvar CvarValues CvarAgenda

variable {κ : Type}

/-! ## Protection -/

def noset (v : Value) : Bool := hasFlags v.flags cvarNoset
def latch (v : Value) : Bool := hasFlags v.flags cvarLatch

/-- `FS_SetGamedir` is at work. -/
def SetsGamedir : Cvar.Task κ → Prop
  | .call (.fullSet name _ flags) =>
    name = ascii "gamedir" ∧ flags = cvarNoset ∨
      name = ascii "game" ∧ flags = cvarLatch ||| cvarServerinfo
  | .setClientdir => True
  | _ => False

/-- The callback of `g_idle` forces it to another value. -/
def ForcesIdle (task : Cvar.Task κ) : Prop :=
  ∃ value argv, task = .call (.set2 (ascii "g_idle") value true argv)

/-- `Cvar_GetLatchedVars` is under way. -/
def GetsLatched (s : State κ) : Prop := ∃ names, .latchedVars names ∈ s.agenda

def stringOf (v : Option Value) : Option (List UInt8) := v.map Value.string

/-- The strings that a step may not change are what they were. -/
structure Kept (s t : State κ) : Prop where
  noset : ∀ name v, values s name = some v → noset v = true →
    (∀ task ∈ s.agenda.head?, ¬SetsGamedir task ∧ ¬ForcesIdle task) → stringOf (values t name) = some v.string
  latch : ∀ name v, values s name = some v → latch v = true → s.serverState ≠ 0 →
    ¬GetsLatched s → stringOf (values t name) = some v.string

/-- No variable puts a backslash, a quote or a semicolon into an info string. -/
def InfoClean (s : State κ) : Prop :=
  ∀ name v, values s name = some v → Sound v.flags v.string

/-- The step has no fault, keeps what is protected and leaves the info strings clean. -/
def Protects (p : Program κ) (s : Option (State κ)) (event : Event) : Prop :=
  ∀ s', s = some s' → ∃ t, next p s event = some t ∧ Kept s' t ∧ InfoClean t

/-- A write protected string does not change at all. -/
def KeepsNoset (p : Program κ) (s : Option (State κ)) (event : Event) : Prop :=
  ∀ s', s = some s' → ∀ t, next p s event = some t → ∀ name v, values s' name = some v →
    noset v = true → stringOf (values t name) = some v.string

/-! ## Variables as the engine sets them up -/

def Carries (P : List UInt8 → Prop) (v : Value) : Prop :=
  P v.string ∧ ∀ text, v.latched = some text → P text

/-- `game` is registered as part of the serverinfo, `gamedir` and `g_idle` are not latched. -/
structure Good (name : List UInt8) (v : Value) : Prop where
  clean : Carries (Sound v.flags) v
  noset : noset v = true → v.latched = none
  gamedir : name = ascii "gamedir" → latch v = false ∧ v.latched = none
  game : name = ascii "game" → infoFlags v.flags = true
  idle : name = ascii "g_idle" → latch v = false

structure SetUp (s : State κ) : Prop where
  inv : Inv s
  idle : s.agenda = []
  game : values s (ascii "game") ≠ none
  good : ∀ name v, values s name = some v → Good name v

/-- What `Cvar_Set_f` gives `Cvar_FullSet` passes the checks of `Cvar_Set2`, which
`Cvar_FullSet` does not make. -/
structure Harmless (s : State κ) (v : Value) (value : List UInt8) : Prop where
  valid : cvarInfoValidate value = true
  latched : ∀ text, v.latched = some text → cvarInfoValidate text = true
  noset : noset v = true → value = v.string
  latch : latch v = true → s.serverState ≠ 0 → value = v.string

def Meets (p : Program κ) (s : State κ) (event : Event) : Prop :=
  event = .goOn → Cvar.Meets p s ∧ ∀ name value flags rest,
    s.agenda = .call (.fullSet name value flags) :: rest →
    flags = cvarUserinfo ∨ flags = cvarServerinfo →
    ∀ v, values s name = some v → Harmless s v value

def OnState (P : State κ → Event → Prop) (s : Option (State κ)) (event : Event) : Prop :=
  ∀ s', s = some s' → P s' event

variable {p : Program κ} {s t : State κ} {name value : List UInt8}

/-! ## Agendas -/

/-- The task gives `gamedir` the directory that `clientdir` is going to get. -/
def SetsDir (task : Cvar.Task κ) : Prop :=
  ∃ dir, task = .call (.fullSet (ascii "gamedir") dir cvarNoset)

/-- Where `clientdir` gets the string of `gamedir`, this is a clean one. -/
def Ready (valid : Prop) : List (Cvar.Task κ) → Prop
  | [] => True
  | task :: agenda => SetsDir task ∨ (task = .setClientdir → valid) ∧ Ready valid agenda

/-- What changes a latched variable while a server runs waits for `Cvar_GetLatchedVars`. -/
def Behind (task : Cvar.Task κ) : Prop :=
  SetsGamedir task ∨ ∃ name old, task = .latchedRest name old

def Nested (dead : Prop) : List (Cvar.Task κ) → Prop
  | [] => True
  | task :: agenda =>
    (Behind task → dead ∨ ∃ names, .latchedVars names ∈ agenda) ∧ Nested dead agenda

section Agendas
variable {valid dead : Prop} {task : Cvar.Task κ} {tasks agenda : List (Cvar.Task κ)}

theorem ready_of_valid (h : valid) (agenda : List (Cvar.Task κ)) : Ready valid agenda := by
  induction agenda with
  | nil => exact trivial
  | cons task agenda ih => exact .inr ⟨fun _ => h, ih⟩

theorem ready_append (ready : Ready valid tasks) (rest : Ready valid agenda) :
    Ready valid (tasks ++ agenda) := by
  induction tasks with
  | nil => exact rest
  | cons task tasks ih =>
    rcases ready with sets | ⟨first, more⟩
    · exact .inl sets
    · exact .inr ⟨first, ih more⟩

theorem ready_calls (calls : List (Call κ)) (ready : Ready valid agenda) :
    Ready valid (calls.map .call ++ agenda) := by
  induction calls with
  | nil => exact ready
  | cons call calls ih => exact .inr ⟨by rintro ⟨⟩, ih⟩

theorem ready_fsTasks {dir : List UInt8} (fs : FsTasks dir tasks) : Ready valid tasks := by
  rcases fs with rfl | rfl | rfl
  · exact trivial
  · exact .inl ⟨dir, rfl⟩
  · exact .inl ⟨[], rfl⟩

theorem Ready.tail (ready : Ready valid (task :: agenda)) (other : ¬SetsDir task) :
    Ready valid agenda :=
  (ready.resolve_left other).2

theorem nested_append (rest : Nested dead agenda)
    (behind : ∀ task ∈ tasks, Behind task → dead ∨ ∃ names, .latchedVars names ∈ agenda) :
    Nested dead (tasks ++ agenda) := by
  induction tasks with
  | nil => exact rest
  | cons task tasks ih =>
    refine ⟨fun hbehind => ?_, ih fun other hother => behind other (List.mem_cons_of_mem task hother)⟩
    rcases behind task List.mem_cons_self hbehind with hdead | ⟨names, waits⟩
    · exact .inl hdead
    · exact .inr ⟨names, List.mem_append_right tasks waits⟩

theorem not_behind_call {calls : List (Call κ)} (own : OwnCalls name calls)
    (htask : task ∈ calls.map .call) : ¬Behind task := by
  obtain ⟨call, hcall, rfl⟩ := List.mem_map.mp htask
  obtain ⟨-, value, force, rfl, -, -⟩ := own call hcall
  rintro (⟨⟨⟩⟩ | ⟨name, old, ⟨⟩⟩)

theorem inner_call {calls : List (Call κ)} (own : OwnCalls name calls)
    (htask : task ∈ calls.map .call) : Inner task := by
  obtain ⟨call, hcall, rfl⟩ := List.mem_map.mp htask
  obtain ⟨apart, value, force, rfl, clean, forced⟩ := own call hcall
  exact .set2 apart clean forced

theorem not_rest_call {calls : List (Call κ)} {other : List UInt8} {old : Nat} {flags : UInt32} :
    (.fullSetRest other old flags : Cvar.Task κ) ∉ calls.map .call := by
  intro htask
  obtain ⟨call, hcall, same⟩ := List.mem_map.mp htask
  cases same

theorem inner_fsTasks {dir : List UInt8} (fs : FsTasks dir tasks) (clean : cvarInfoValidate dir = true)
    (htask : task ∈ tasks) : Inner task := by
  rcases fs with rfl | rfl | rfl
  · cases htask
  · rcases List.mem_pair.mp htask with rfl | rfl
    · exact .gamedir clean
    · exact .clientdir
  · simp only [noGamedirTasks, List.mem_cons, List.not_mem_nil, or_false] at htask
    rcases htask with rfl | rfl | rfl
    · exact .gamedir rfl
    · exact .game
    · exact .clientdir

theorem not_rest_fsTasks {dir : List UInt8} (fs : FsTasks dir tasks) {other : List UInt8} {old : Nat}
    {flags : UInt32} : (.fullSetRest other old flags : Cvar.Task κ) ∉ tasks := by
  rcases fs with rfl | rfl | rfl
  · simp
  · simp [gamedirTasks]
  · simp [noGamedirTasks]

end Agendas

/-! ## Entries -/

theorem Carries.mono {P Q : List UInt8 → Prop} {v : Value} (h : Carries P v)
    (le : ∀ text, P text → Q text) : Carries Q v :=
  ⟨le _ h.1, fun text held => le text (h.2 text held)⟩

theorem Carries.string {P : List UInt8 → Prop} {v : Value} (h : Carries P v) {text : List UInt8}
    (htext : P text) : Carries P { v with string := text } :=
  ⟨htext, h.2⟩

theorem Carries.latched {P : List UInt8 → Prop} {v : Value} (h : Carries P v)
    {latched : Option (List UInt8)} (hlatched : ∀ text, latched = some text → P text) :
    Carries P { v with latched } :=
  ⟨h.1, hlatched⟩

theorem sound_of_valid {text : List UInt8} (valid : cvarInfoValidate text = true) (flags : UInt32) :
    Sound flags text := fun _ => valid

theorem sound_subset {flags : UInt32} {text more : List UInt8} (h : Sound flags more)
    (inside : text ⊆ more) : Sound flags text :=
  fun info => cvarInfoValidate_of_subset inside (h info)

theorem sound_made {flags : UInt32} {text given : List UInt8} (h : Sound flags given)
    (made : From given text) : Sound flags text :=
  fun info => made.valid (h info)

theorem Good.string {v : Value} (h : Good name v) {text : List UInt8} (sound : Sound v.flags text) :
    Good name { v with string := text } :=
  ⟨h.clean.string sound, h.noset, h.gamedir, h.game, h.idle⟩

theorem Good.forget {v : Value} (h : Good name v) : Good name { v with latched := none } :=
  ⟨h.clean.latched (by rintro text ⟨⟩), fun _ => rfl, fun dir => ⟨(h.gamedir dir).1, rfl⟩, h.game, h.idle⟩

theorem Good.latch {v : Value} (h : Good name v) (hlatch : CvarProtection.latch v = true)
    (free : CvarProtection.noset v = false) {text : List UInt8} (sound : Sound v.flags text) :
    Good name { v with latched := some text } := by
  refine ⟨h.clean.latched ?_, fun noset => absurd (free.symm.trans noset) (by simp),
    fun dir => absurd (hlatch.symm.trans (h.gamedir dir).1) (by simp), h.game, h.idle⟩
  rintro text ⟨⟩
  exact sound

theorem unlatched_of_fits {flags : UInt32} (fits : Fits (ascii "gamedir") flags) :
    hasFlags flags cvarLatch = false := by
  refine Bool.eq_false_iff.mpr fun hlatch => ?_
  rcases fits.latch hlatch with same | same
  · exact absurd same (by decide)
  · exact absurd same (by decide)

theorem idle_of_fits {flags : UInt32} (fits : Fits (ascii "g_idle") flags) :
    hasFlags flags cvarLatch = false := by
  refine Bool.eq_false_iff.mpr fun hlatch => ?_
  rcases fits.latch hlatch with same | same
  · exact absurd same (by decide)
  · exact absurd same (by decide)

theorem Good.flags {v : Value} (h : Good name v) {flags : UInt32} (fits : Fits name flags)
    (clean : Carries (Sound flags) v) : Good name { v with flags } := by
  refine ⟨clean, fun noset => (h.gamedir (fits.noset noset)).2, ?_, fits.game, ?_⟩
  · rintro rfl
    exact ⟨unlatched_of_fits fits, (h.gamedir rfl).2⟩
  · rintro rfl
    exact idle_of_fits fits

theorem good_new {flags : UInt32} {text : List UInt8} (sound : Sound flags text)
    (gamedir : name = ascii "gamedir" → hasFlags flags cvarLatch = false)
    (game : name = ascii "game" → infoFlags flags = true)
    (idle : name = ascii "g_idle" → hasFlags flags cvarLatch = false) :
    Good name ⟨flags, text, none⟩ :=
  ⟨⟨sound, by rintro text ⟨⟩⟩, fun _ => rfl, fun dir => ⟨gamedir dir, rfl⟩, game, idle⟩

theorem Good.of_fits {flags : UInt32} (fits : Fits name flags) {text : List UInt8}
    (sound : Sound flags text) : Good name ⟨flags, text, none⟩ := by
  refine good_new sound ?_ fits.game ?_
  · rintro rfl
    exact unlatched_of_fits fits
  · rintro rfl
    exact idle_of_fits fits

theorem fits_info {flags : UInt32} (info : flags = cvarUserinfo ∨ flags = cvarServerinfo)
    (name : List UInt8) : Fits name flags := by
  rcases info with rfl | rfl
  · exact ⟨by rintro ⟨⟩, by rintro ⟨⟩, fun _ => rfl⟩
  · exact ⟨by rintro ⟨⟩, by rintro ⟨⟩, fun _ => rfl⟩

theorem fits_gamedir : Fits (ascii "gamedir") cvarNoset :=
  ⟨fun _ => rfl, by rintro ⟨⟩, fun same => absurd same (by decide)⟩

theorem fits_game : Fits (ascii "game") (cvarLatch ||| cvarServerinfo) :=
  ⟨fun noset => absurd noset (by decide), fun _ => .inl rfl, fun _ => by decide⟩

theorem fits_clientdir : Fits (ascii "clientdir") cvarLatch :=
  ⟨by rintro ⟨⟩, fun _ => .inr rfl, fun same => absurd same (by decide)⟩

/-- What the agenda is going to ask of a variable. -/
structure Waits (agenda : List (Cvar.Task κ)) (name : List UInt8) (v : Value) : Prop where
  flags : ∀ old flags, .fullSetRest name old flags ∈ agenda → Carries (Sound flags) v
  dir : name = ascii "gamedir" → Ready (cvarInfoValidate v.string = true) agenda

theorem Waits.tail {task : Cvar.Task κ} {agenda : List (Cvar.Task κ)} {v : Value}
    (h : Waits (task :: agenda) name v) (other : name = ascii "gamedir" → ¬SetsDir task) :
    Waits agenda name v :=
  ⟨fun old flags waits => h.flags old flags (List.mem_cons_of_mem task waits),
    fun dir => (h.dir dir).tail (other dir)⟩

theorem waits_nil (name : List UInt8) (v : Value) : Waits ([] : List (Cvar.Task κ)) name v :=
  ⟨by rintro old flags ⟨⟩, fun _ => trivial⟩

theorem waits_new {agenda : List (Cvar.Task κ)} {text : List UInt8} {flags : UInt32}
    (valid : cvarInfoValidate text = true) : Waits agenda name ⟨flags, text, none⟩ :=
  ⟨fun _ flags _ => ⟨sound_of_valid valid flags, by rintro text ⟨⟩⟩,
    fun _ => ready_of_valid valid agenda⟩

theorem Waits.string {task : Cvar.Task κ} {agenda : List (Cvar.Task κ)} {v : Value}
    (h : Waits (task :: agenda) name v) {text : List UInt8} (valid : cvarInfoValidate text = true) :
    Waits agenda name { v with string := text } :=
  ⟨fun old flags waits =>
      (h.flags old flags (List.mem_cons_of_mem task waits)).string (sound_of_valid valid flags),
    fun _ => ready_of_valid valid agenda⟩

theorem Waits.latched {agenda : List (Cvar.Task κ)} {v : Value} (h : Waits agenda name v)
    {latched : Option (List UInt8)} (valid : ∀ text, latched = some text → cvarInfoValidate text = true) :
    Waits agenda name { v with latched } :=
  ⟨fun old flags waits => (h.flags old flags waits).latched fun text held =>
      sound_of_valid (valid text held) flags, h.dir⟩

/-- A state in which a call may be under way. -/
structure Settled (s : State κ) : Prop where
  inv : Inv s
  game : values s (ascii "game") ≠ none
  good : ∀ name v, values s name = some v → Good name v
  waits : ∀ name v, values s name = some v → Waits s.agenda name v
  agenda : (∃ task, s.agenda = [task] ∧ Entered task) ∨ ∀ task ∈ s.agenda, Inner task
  nested : Nested (s.serverState = 0) s.agenda

theorem SetUp.settled (h : SetUp s) : Settled s where
  inv := h.inv
  game := h.game
  good := h.good
  waits := fun name v _ => h.idle ▸ waits_nil name v
  agenda := .inr (by rw [h.idle]; rintro task ⟨⟩)
  nested := by rw [h.idle]; exact trivial

/-! ## Steps -/

theorem forall_update {f : Values} {after : Option Value} {P : List UInt8 → Value → Prop}
    (others : ∀ other v, other ≠ name → f other = some v → P other v)
    (own : ∀ v, after = some v → P name v) (other : List UInt8) (v : Value)
    (hv : Function.update f name after other = some v) : P other v := by
  by_cases same : other = name
  · subst same
    rw [Function.update_self] at hv
    exact own v hv
  · rw [Function.update_of_ne same] at hv
    exact others other v same hv

/-- What `Cvar_Set2` makes of a good variable is good. -/
theorem good_set2 {force : Bool} {serverState : Nat} {before after : Option Value}
    (h : ∀ v, before = some v → Good name v) (game : name = ascii "game" → before ≠ none)
    (entry : Set2Entry name value force serverState before after) :
    ∀ v, after = some v → Good name v := by
  cases entry with
  | same => exact h
  | new _ got =>
    cases got with
    | same => rintro v ⟨⟩
    | created text given sound =>
      rintro v ⟨⟩
      exact good_new sound (fun _ => rfl) (fun same => absurd rfl (game same)) (fun _ => rfl)
  | assigned v text sound made free =>
    rintro _ ⟨⟩
    have stored := (h v rfl).string (sound_made sound made)
    cases force with
    | false => exact stored
    | true => exact stored.forget
  | latched v text sound inside hlatch free running =>
    rintro _ ⟨⟩
    exact (h v rfl).latch hlatch free (sound_subset sound inside)
  | replaced v text sound inside free dead =>
    rintro _ ⟨⟩
    exact (h v rfl).string (sound_subset sound inside)

/-- What `Cvar_Set2` makes of a variable goes on to wait for the rest of the agenda. -/
theorem waits_set2 {force : Bool} {serverState : Nat} {before after : Option Value}
    {task : Cvar.Task κ} {agenda : List (Cvar.Task κ)} (other : ¬SetsDir task)
    (h : ∀ v, before = some v → Waits (task :: agenda) name v)
    (valid : cvarInfoValidate value = true)
    (entry : Set2Entry name value force serverState before after) :
    ∀ v, after = some v → Waits agenda name v := by
  cases entry with
  | same => exact fun v hv => (h v hv).tail fun _ => other
  | new _ got =>
    cases got with
    | same => rintro v ⟨⟩
    | created text given sound =>
      cases given
      rintro v ⟨⟩
      exact waits_new valid
  | assigned v text sound made free =>
    rintro _ ⟨⟩
    have stored := (h v rfl).string (made.valid valid)
    cases force with
    | false => exact stored
    | true => exact stored.latched (by rintro text ⟨⟩)
  | latched v text sound inside hlatch free running =>
    rintro _ ⟨⟩
    refine ((h v rfl).tail fun _ => other).latched ?_
    rintro _ ⟨⟩
    exact cvarInfoValidate_of_subset inside valid
  | replaced v text sound inside free dead =>
    rintro _ ⟨⟩
    exact (h v rfl).string (cvarInfoValidate_of_subset inside valid)

/-- What `Cvar_FullSet` makes of a variable when the value is clean. -/
theorem entry_fullSet {flags : UInt32} {before after : Option Value} {task : Cvar.Task κ}
    {agenda : List (Cvar.Task κ)} (good : ∀ v, before = some v → Good name v)
    (waits : ∀ v, before = some v → Waits (task :: agenda) name v) (fits : Fits name flags)
    (valid : cvarInfoValidate value = true) (entry : FullSetEntry name value flags before after) :
    ∀ v, after = some v → Good name v ∧ Waits agenda name v := by
  cases entry with
  | assigned v =>
    rintro _ ⟨⟩
    exact ⟨(good v rfl).string (sound_of_valid valid _), (waits v rfl).string valid⟩
  | new _ got =>
    cases got with
    | same => rintro v ⟨⟩
    | created text given sound =>
      cases given
      rintro v ⟨⟩
      exact ⟨.of_fits fits sound, waits_new valid⟩

/-- What `Cvar_FullSet` makes of a variable is fit for its new flags. -/
theorem carries_fullSet {flags : UInt32} {before after : Option Value}
    (valid : cvarInfoValidate value = true)
    (latched : ∀ v, before = some v → ∀ text, v.latched = some text → Sound flags text)
    (entry : FullSetEntry name value flags before after) :
    ∀ v, after = some v → Carries (Sound flags) v := by
  cases entry with
  | assigned v =>
    rintro _ ⟨⟩
    exact ⟨sound_of_valid valid flags, latched v rfl⟩
  | new _ got =>
    cases got with
    | same => rintro v ⟨⟩
    | created text given sound =>
      rintro v ⟨⟩
      exact ⟨sound, by rintro text ⟨⟩⟩

theorem valid_of_info {flags : UInt32} (info : flags = cvarUserinfo ∨ flags = cvarServerinfo)
    (sound : Sound flags value) : cvarInfoValidate value = true := by
  rcases info with rfl | rfl
  · exact sound rfl
  · exact sound rfl

/-- What `Cvar_Set_f` gives `Cvar_FullSet` is clean, if it is for a variable that there is. -/
theorem valid_fullSet {flags : UInt32} (info : flags = cvarUserinfo ∨ flags = cvarServerinfo)
    {before after : Option Value} (harmless : ∀ v, before = some v → cvarInfoValidate value = true)
    (entry : FullSetEntry name value flags before after) {v : Value} (hv : after = some v) :
    cvarInfoValidate value = true := by
  cases entry with
  | assigned before => exact harmless before rfl
  | new _ got =>
    cases got with
    | same => cases hv
    | created text given sound =>
      cases given
      exact valid_of_info info sound

section Step
variable {task : Cvar.Task κ} {agenda : List (Cvar.Task κ)} {g : Values}

theorem Settled.allowed (h : Settled s) (hagenda : s.agenda = task :: agenda) :
    Entered task ∧ agenda = [] ∨ Inner task := by
  rcases h.agenda with ⟨first, only, entered⟩ | inner
  · rw [hagenda] at only
    cases only
    exact .inl ⟨entered, rfl⟩
  · exact .inr (inner task (by rw [hagenda]; exact List.mem_cons_self))

theorem Settled.waits_head (h : Settled s) (hagenda : s.agenda = task :: agenda) {v : Value}
    (hv : values s name = some v) : Waits (task :: agenda) name v :=
  hagenda ▸ h.waits name v hv

theorem Settled.game_valid (h : Settled s) {v : Value} (hv : values s (ascii "game") = some v) :
    Carries (fun text => cvarInfoValidate text = true) v :=
  (h.good _ v hv).clean.mono fun _ sound => sound ((h.good _ v hv).game rfl)

theorem Settled.clientdir_valid (h : Settled s) (hagenda : s.agenda = .setClientdir :: agenda)
    (given : value = [] ∨ ∃ v, values s (ascii "gamedir") = some v ∧ v.string = value) :
    cvarInfoValidate value = true := by
  rcases given with rfl | ⟨v, hv, rfl⟩
  · rfl
  · rcases (h.waits_head hagenda hv).dir rfl with ⟨dir, same⟩ | ⟨valid, -⟩
    · cases same
    · exact valid rfl

theorem not_info_noset : infoFlags cvarNoset = false := by decide
theorem not_info_latch : infoFlags cvarLatch = false := by decide

theorem sound_of_not_info {flags : UInt32} (none : infoFlags flags = false) (text : List UInt8) :
    Sound flags text := fun info => absurd (none.symm.trans info) (by simp)

/-- What a step makes of a variable is good, and waits for what is left of the agenda. -/
theorem entries_step (h : Settled s) (hagenda : s.agenda = task :: agenda)
    (meets : Meets p s .goOn) (change : Change s.serverState task (values s) g) :
    ∀ name v, g name = some v → Good name v ∧ Waits agenda name v := by
  have keep : ∀ name v, values s name = some v → (name = ascii "gamedir" → ¬SetsDir task) →
      Good name v ∧ Waits agenda name v := fun name v hv other =>
    ⟨h.good name v hv, (h.waits_head hagenda hv).tail other⟩
  have allowed := h.allowed hagenda
  cases change with
  | same _ quiet =>
    intro name v hv
    exact keep name v hv fun _ ⟨dir, same⟩ => quiet _ _ _ same
  | get entry =>
    rcases allowed with ⟨entered, -⟩ | inner
    · cases entered
    · cases inner
  | @set2 name value force argv f after entry =>
    have other : ¬SetsDir (.call (.set2 name value force argv) : Cvar.Task κ) := by rintro ⟨dir, ⟨⟩⟩
    refine forall_update (fun name v _ hv => keep name v hv fun _ => other) fun v hv => ⟨?_, ?_⟩
    · refine good_set2 (h.good name) ?_ entry v hv
      rintro rfl
      exact h.game
    · rcases allowed with ⟨-, rfl⟩ | inner
      · exact waits_nil name v
      · cases inner with
        | set2 own valid forced => exact waits_set2 other (fun v => h.waits_head hagenda) valid entry v hv
  | @fullSet name value flags f after entry =>
    refine forall_update (fun other v ne hv => keep other v hv ?_) fun v hv => ?_
    · rintro rfl ⟨dir, same⟩
      cases same
      exact ne rfl
    · rcases allowed with ⟨entered, rfl⟩ | inner
      · cases entered with
        | fullSet _ _ info =>
          have valid := valid_fullSet info
            (fun v hv => ((meets rfl).2 name value flags [] hagenda info v hv).valid) entry hv
          exact entry_fullSet (h.good name) (fun v => h.waits_head hagenda) (fits_info info name) valid
            entry v hv
      · cases inner with
        | gamedir valid =>
          exact entry_fullSet (h.good _) (fun v => h.waits_head hagenda) fits_gamedir valid entry v hv
        | game =>
          exact entry_fullSet (h.good _) (fun v => h.waits_head hagenda) fits_game rfl entry v hv
  | clientdir given entry =>
    have other : ¬SetsDir (.setClientdir : Cvar.Task κ) := by rintro ⟨dir, ⟨⟩⟩
    exact forall_update (fun name v _ hv => keep name v hv fun _ => other)
      (entry_fullSet (h.good _) (fun v => h.waits_head hagenda) fits_clientdir
        (h.clientdir_valid hagenda given) entry)
  | @fullSetRest name oldString flags f v hv =>
    have other : ¬SetsDir (.fullSetRest name oldString flags : Cvar.Task κ) := by rintro ⟨dir, ⟨⟩⟩
    refine forall_update (fun name v _ hv => keep name v hv fun _ => other) ?_
    rintro _ ⟨⟩
    have waits := h.waits_head hagenda hv
    have clean := waits.flags oldString flags List.mem_cons_self
    have inner : Inner (.fullSetRest name oldString flags : Cvar.Task κ) := by
      refine allowed.resolve_left ?_
      rintro ⟨⟨⟩, -⟩
    cases inner with
    | fullSetRest _ fits =>
      exact ⟨(h.good name v hv).flags fits clean, (waits.tail fun _ => other).flags,
        (waits.tail fun _ => other).dir⟩
  | @latched name text names f v hv held =>
    have other : ¬SetsDir (.latchedVars (name :: names) : Cvar.Task κ) := by rintro ⟨dir, ⟨⟩⟩
    refine forall_update (fun name v _ hv => keep name v hv fun _ => other) ?_
    rintro _ ⟨⟩
    have good := h.good name v hv
    have waits := h.waits_head hagenda hv
    refine ⟨(good.string (good.clean.2 text held)).forget, fun old flags hrest => ?_, ?_⟩
    · have clean := waits.flags old flags (List.mem_cons_of_mem _ hrest)
      exact (clean.string (clean.2 text held)).latched (by rintro text ⟨⟩)
    · rintro rfl
      exact absurd (held.symm.trans (good.gamedir rfl).2) (by simp)

theorem carries_step (h : Settled s) (hagenda : s.agenda = task :: agenda) (meets : Meets p s .goOn)
    (change : Change s.serverState task (values s) g) {name : List UInt8} {flags : UInt32}
    (full : (∃ value, task = .call (.fullSet name value flags)) ∨
      task = .setClientdir ∧ name = ascii "clientdir" ∧ flags = cvarLatch) :
    ∀ v, g name = some v → Carries (Sound flags) v := by
  intro v hv
  rcases full with ⟨value, rfl⟩ | ⟨rfl, rfl, rfl⟩
  · cases change with
    | same _ quiet => exact absurd rfl (quiet _ _ _)
    | fullSet entry =>
      rw [Function.update_self] at hv
      rcases h.allowed hagenda with ⟨entered, rfl⟩ | inner
      · cases entered with
        | fullSet _ _ info =>
          have harmless := (meets rfl).2 name value flags [] hagenda info
          have valid := valid_fullSet info (fun v hv => (harmless v hv).valid) entry hv
          exact carries_fullSet valid (fun v hv text held =>
            sound_of_valid ((harmless v hv).latched text held) flags) entry v hv
      · cases inner with
        | gamedir valid =>
          exact ⟨sound_of_not_info not_info_noset _, fun text _ => sound_of_not_info not_info_noset text⟩
        | game =>
          exact carries_fullSet rfl (fun v hv text held =>
            sound_of_valid ((h.game_valid hv).2 text held) _) entry v hv
  · exact ⟨sound_of_not_info not_info_latch _, fun text _ => sound_of_not_info not_info_latch text⟩

theorem ready_pushed {serverState : Nat} {f : Values} {pushed : List (Cvar.Task κ)} {valid : Prop}
    (h : Pushed serverState f task pushed) : Ready valid pushed := by
  cases h with
  | nothing => exact trivial
  | assigned own => exact ready_calls _ (.inr ⟨by rintro ⟨⟩, trivial⟩)
  | game hv sound inside dead fs => exact ready_fsTasks fs
  | fullSet own => exact ready_calls _ (.inr ⟨by rintro ⟨⟩, trivial⟩)
  | clientdir own => exact ready_calls _ (.inr ⟨by rintro ⟨⟩, trivial⟩)
  | getLatchedVars => exact .inr ⟨by rintro ⟨⟩, trivial⟩
  | skipped => exact .inr ⟨by rintro ⟨⟩, trivial⟩
  | latched own => exact ready_calls _ (.inr ⟨by rintro ⟨⟩, .inr ⟨by rintro ⟨⟩, trivial⟩⟩)
  | latchedGame hv fs => exact ready_fsTasks fs

/-- Flags are to be replaced only behind a `Cvar_FullSet`. -/
theorem rest_pushed {serverState : Nat} {f : Values} {pushed : List (Cvar.Task κ)}
    (h : Pushed serverState f task pushed) {name : List UInt8} {old : Nat} {flags : UInt32}
    (hrest : .fullSetRest name old flags ∈ pushed) :
    (∃ value, task = .call (.fullSet name value flags)) ∨
      task = .setClientdir ∧ name = ascii "clientdir" ∧ flags = cvarLatch := by
  cases h with
  | nothing => cases hrest
  | assigned own =>
    rcases List.mem_append.mp hrest with call | last
    · exact absurd call not_rest_call
    · simp at last
  | game hv sound inside dead fs => exact absurd hrest (not_rest_fsTasks fs)
  | fullSet own =>
    rcases List.mem_append.mp hrest with call | last
    · exact absurd call not_rest_call
    · cases List.mem_singleton.mp last
      exact .inl ⟨_, rfl⟩
  | clientdir own =>
    rcases List.mem_append.mp hrest with call | last
    · exact absurd call not_rest_call
    · cases List.mem_singleton.mp last
      exact .inr ⟨rfl, rfl, rfl⟩
  | getLatchedVars => simp at hrest
  | skipped => simp at hrest
  | latched own =>
    rcases List.mem_append.mp hrest with call | last
    · exact absurd call not_rest_call
    · simp at last
  | latchedGame hv fs => exact absurd hrest (not_rest_fsTasks fs)

theorem Settled.inner_pushed (h : Settled s) (hagenda : s.agenda = task :: agenda)
    {pushed : List (Cvar.Task κ)} (hpushed : Pushed s.serverState (values s) task pushed)
    {other : Cvar.Task κ} (hother : other ∈ pushed) : Inner other := by
  cases hpushed with
  | nothing => cases hother
  | assigned own =>
    rcases List.mem_append.mp hother with call | last
    · exact inner_call own call
    · cases List.mem_singleton.mp last
      exact .set2Rest _ _
  | game hv sound inside dead fs =>
    have valid := sound ((h.good _ _ hv).game rfl)
    exact inner_fsTasks fs (cvarInfoValidate_of_subset inside valid) hother
  | @fullSet name value flags calls old own =>
    rcases List.mem_append.mp hother with call | last
    · exact inner_call own call
    · cases List.mem_singleton.mp last
      refine .fullSetRest old ?_
      rcases h.allowed hagenda with ⟨entered, -⟩ | inner
      · cases entered with
        | fullSet _ _ info => exact fits_info info name
      · cases inner with
        | gamedir valid => exact fits_gamedir
        | game => exact fits_game
  | clientdir own =>
    rcases List.mem_append.mp hother with call | last
    · exact inner_call own call
    · cases List.mem_singleton.mp last
      exact .fullSetRest _ fits_clientdir
  | getLatchedVars =>
    cases List.mem_singleton.mp hother
    exact .latchedVars _
  | skipped =>
    cases List.mem_singleton.mp hother
    exact .latchedVars _
  | latched own =>
    rcases List.mem_append.mp hother with call | last
    · exact inner_call own call
    · rcases List.mem_pair.mp last with rfl | rfl
      · exact .latchedRest _ _
      · exact .latchedVars _
  | latchedGame hv fs => exact inner_fsTasks fs (h.game_valid hv).1 hother

/-- What is pushed waits for what its task waited for. -/
theorem nested_pushed {serverState : Nat} {f : Values} {pushed : List (Cvar.Task κ)}
    (h : Pushed serverState f task pushed) (nested : Nested (serverState = 0) (task :: agenda)) :
    Nested (serverState = 0) (pushed ++ agenda) := by
  have rest := nested.2
  have alone : ∀ {other : Cvar.Task κ}, ¬Behind other → Nested (serverState = 0) (other :: agenda) :=
    fun free => ⟨fun behind => absurd behind free, rest⟩
  cases h with
  | nothing => exact rest
  | assigned own =>
    rw [List.append_assoc]
    refine nested_append (alone ?_) fun other hother behind => absurd behind (not_behind_call own hother)
    rintro (⟨⟨⟩⟩ | ⟨name, old, ⟨⟩⟩)
  | game hv sound inside dead fs => exact nested_append rest fun _ _ _ => .inl dead
  | fullSet own =>
    rw [List.append_assoc]
    refine nested_append (alone ?_) fun other hother behind => absurd behind (not_behind_call own hother)
    rintro (⟨⟨⟩⟩ | ⟨name, old, ⟨⟩⟩)
  | clientdir own =>
    rw [List.append_assoc]
    refine nested_append (alone ?_) fun other hother behind => absurd behind (not_behind_call own hother)
    rintro (⟨⟨⟩⟩ | ⟨name, old, ⟨⟩⟩)
  | getLatchedVars =>
    refine alone ?_
    rintro (⟨⟨⟩⟩ | ⟨name, old, ⟨⟩⟩)
  | skipped =>
    refine alone ?_
    rintro (⟨⟨⟩⟩ | ⟨name, old, ⟨⟩⟩)
  | @latched name names calls old own =>
    rw [List.append_assoc]
    have last : Nested (serverState = 0) (.latchedVars names :: agenda) := by
      refine alone ?_
      rintro (⟨⟨⟩⟩ | ⟨name, old, ⟨⟩⟩)
    exact nested_append ⟨fun _ => .inr ⟨names, List.mem_cons_self⟩, last⟩
      fun other hother behind => absurd behind (not_behind_call own hother)
  | latchedGame hv fs =>
    exact nested_append rest fun _ _ _ => nested.1 (.inr ⟨_, _, rfl⟩)

/-- No variable is taken away. -/
theorem present_step (change : Change s.serverState task (values s) g) {name : List UInt8}
    (present : values s name ≠ none) : g name ≠ none := by
  have updated : ∀ {other : List UInt8} {after : Option Value},
      (values s other ≠ none → after ≠ none) → Function.update (values s) other after name ≠ none := by
    intro other after kept
    by_cases same : name = other
    · subst same
      rw [Function.update_self]
      exact kept present
    · rw [Function.update_of_ne same]
      exact present
  cases change with
  | same => exact present
  | get entry =>
    refine updated fun before => ?_
    generalize values s _ = b at entry before
    cases entry with
    | same => exact before
    | flagged v => simp
    | created text given sound => simp
  | set2 entry =>
    refine updated fun before => ?_
    generalize values s _ = b at entry before
    cases entry with
    | same => exact before
    | new => exact absurd rfl before
    | assigned v text sound made free => simp
    | latched v text sound inside hlatch free running => simp
    | replaced v text sound inside free dead => simp
  | fullSet entry =>
    refine updated fun before => ?_
    generalize values s _ = b at entry before
    cases entry with
    | assigned v => simp
    | new => exact absurd rfl before
  | clientdir given entry =>
    refine updated fun before => ?_
    generalize values s _ = b at entry before
    cases entry with
    | assigned v => simp
    | new => exact absurd rfl before
  | fullSetRest hv => exact updated fun _ => by simp
  | latched hv held => exact updated fun _ => by simp

end Step

/-- A call goes on. -/
theorem settled_step (kingpin : p.kingpin = true) (callbacks : OwnCallbacks p) (h : Settled s)
    (meets : Meets p s .goOn) {task : Cvar.Task κ} {agenda : List (Cvar.Task κ)}
    (hagenda : s.agenda = task :: agenda) (hstep : step p s = some t) : Settled t := by
  have change := values_step h.inv (meets rfl).1 hagenda hstep
  have allowed : Entered task ∨ Inner task := (h.allowed hagenda).imp_left And.left
  obtain ⟨⟨pushed, left, hpushed⟩, server⟩ := leaves_perform kingpin callbacks h.inv hagenda allowed hstep
  have hpushed : Pushed s.serverState (values s) task pushed := hpushed
  have left : t.agenda = pushed ++ agenda := left
  have server : t.serverState = s.serverState := server
  obtain ⟨t', ht', inv⟩ := inv_step p h.inv (meets rfl).1
  obtain rfl : t = t' := Option.some.inj (hstep.symm.trans ht')
  have entries := entries_step h hagenda meets change
  refine ⟨inv, present_step change h.game, fun name v hv => (entries name v hv).1, ?_, .inr ?_, ?_⟩
  · intro name v hv
    have waits := (entries name v hv).2
    rw [left]
    refine ⟨fun old flags hrest => ?_, fun dir => ready_append (ready_pushed hpushed) (waits.dir dir)⟩
    rcases List.mem_append.mp hrest with new | old
    · exact carries_step h hagenda meets change (rest_pushed hpushed new) v hv
    · exact waits.flags _ flags old
  · rw [left]
    intro other hother
    rcases List.mem_append.mp hother with new | old
    · exact h.inner_pushed hagenda hpushed new
    · rcases h.agenda with ⟨first, only, -⟩ | inner
      · rw [hagenda] at only
        cases only
        cases old
      · exact inner other (by rw [hagenda]; exact List.mem_cons_of_mem task old)
  · rw [left, server]
    exact nested_pushed hpushed (hagenda ▸ h.nested)

/-! ## What a step keeps -/

/-- A variable keeps its string. -/
def Keeps (s : State κ) (task : Cvar.Task κ) (v : Value) (after : Option Value) : Prop :=
  (noset v = true → ¬SetsGamedir task → ¬ForcesIdle task → stringOf after = some v.string) ∧
    (latch v = true → s.serverState ≠ 0 → ¬GetsLatched s → stringOf after = some v.string)

theorem keeps_same {s : State κ} {task : Cvar.Task κ} {v : Value} {after : Option Value}
    (same : stringOf after = some v.string) : Keeps s task v after :=
  ⟨fun _ _ _ => same, fun _ _ _ => same⟩

theorem keeps_free {s : State κ} {task : Cvar.Task κ} {v : Value} {after : Option Value}
    (free : noset v = false) (unlatched : latch v = false) : Keeps s task v after :=
  ⟨fun hnoset => absurd (free.symm.trans hnoset) (by simp),
    fun hlatch => absurd (unlatched.symm.trans hlatch) (by simp)⟩

theorem keeps_set2 {force : Bool} {task : Cvar.Task κ} {v : Value} {after : Option Value}
    (forced : force = true → ForcesIdle task ∧ latch v = false)
    (entry : Set2Entry name value force s.serverState (some v) after) : Keeps s task v after := by
  cases entry with
  | same => exact keeps_same rfl
  | assigned v text sound made free =>
    rcases free with hforce | ⟨free, unlatched⟩
    · obtain ⟨idle, unlatched⟩ := forced hforce
      exact ⟨fun _ _ not => absurd idle not,
        fun hlatch => absurd (unlatched.symm.trans hlatch) (by simp)⟩
    · exact keeps_free free unlatched
  | latched v text sound inside hlatch free running => exact keeps_same rfl
  | replaced v text sound inside free dead =>
    exact ⟨fun hnoset => absurd (free.symm.trans hnoset) (by simp), fun _ running => absurd dead running⟩

/-- What `FS_SetGamedir` sets has no server, or `Cvar_GetLatchedVars` behind it. -/
theorem keeps_behind {task : Cvar.Task κ} {agenda : List (Cvar.Task κ)} (h : Settled s)
    (hagenda : s.agenda = task :: agenda) (sets : SetsGamedir task) (v : Value)
    (after : Option Value) : Keeps s task v after := by
  refine ⟨fun _ not _ => absurd sets not, fun _ running not => ?_⟩
  have nested : Nested (s.serverState = 0) (task :: agenda) := hagenda ▸ h.nested
  rcases nested.1 (.inl sets) with dead | ⟨names, waits⟩
  · exact absurd dead running
  · exact absurd ⟨names, by rw [hagenda]; exact List.mem_cons_of_mem task waits⟩ not

/-- A step keeps the string of a variable that its flags protect. -/
theorem keeps_step {task : Cvar.Task κ} {agenda : List (Cvar.Task κ)} {g : Values} (h : Settled s)
    (hagenda : s.agenda = task :: agenda) (meets : Meets p s .goOn)
    (change : Change s.serverState task (values s) g) {name : List UInt8} {v : Value}
    (hv : values s name = some v) : Keeps s task v (g name) := by
  have updated : ∀ {other : List UInt8} {after : Option Value},
      (∀ v, values s other = some v → Keeps s task v after) →
        Keeps s task v (Function.update (values s) other after name) := by
    intro other after own
    by_cases same : name = other
    · subst same
      rw [Function.update_self]
      exact own v hv
    · rw [Function.update_of_ne same, hv]
      exact keeps_same rfl
  cases change with
  | same =>
    rw [hv]
    exact keeps_same rfl
  | get entry =>
    rcases h.allowed hagenda with ⟨entered, -⟩ | inner
    · cases entered
    · cases inner
  | set2 entry =>
    refine updated fun v hv => ?_
    rw [hv] at entry
    refine keeps_set2 ?_ entry
    rintro rfl
    rcases h.allowed hagenda with ⟨entered, -⟩ | inner
    · cases entered
    · cases inner with
      | set2 own valid forced =>
        obtain rfl := forced rfl
        exact ⟨⟨_, _, rfl⟩, (h.good _ v hv).idle rfl⟩
  | @fullSet name value flags f after entry =>
    rcases h.allowed hagenda with ⟨entered, rfl⟩ | inner
    · cases entered with
      | fullSet _ _ info =>
        refine updated fun v hv => ?_
        have harmless := (meets rfl).2 name value flags [] hagenda info v hv
        rw [hv] at entry
        cases entry with
        | assigned =>
          exact ⟨fun hnoset _ _ => congrArg some (harmless.noset hnoset),
            fun hlatch running _ => congrArg some (harmless.latch hlatch running)⟩
    · cases inner with
      | gamedir valid => exact keeps_behind h hagenda (.inl ⟨rfl, rfl⟩) v _
      | game => exact keeps_behind h hagenda (.inr ⟨rfl, rfl⟩) v _
  | clientdir given entry => exact keeps_behind h hagenda trivial v _
  | fullSetRest hfull =>
    refine updated fun v hv => ?_
    cases hfull.symm.trans hv
    exact keeps_same rfl
  | @latched name text names f w hw held =>
    refine updated fun v hv => ?_
    cases hw.symm.trans hv
    refine ⟨fun hnoset => ?_, fun _ _ not => ?_⟩
    · exact absurd (held.symm.trans ((h.good name _ hv).noset hnoset)) (by simp)
    · exact absurd ⟨name :: names, by rw [hagenda]; exact List.mem_cons_self⟩ not

theorem kept_of_values (same : values t = values s) : Kept s t :=
  ⟨fun _ _ hv _ _ => by rw [same, hv]; rfl, fun _ _ hv _ _ _ => by rw [same, hv]; rfl⟩

theorem Settled.infoClean (h : Settled s) : InfoClean s := fun name v hv => (h.good name v hv).clean.1

/-! ## Runs -/

theorem entered_of_cvarSetF {argv : TokenList} {call : Call κ} (set : cvarSetF argv = some call) :
    Entered (.call call) := by
  simp only [cvarSetF] at set
  split at set
  · cases set
  split at set
  · cases set
    exact .fullSet _ _ (.inl rfl)
  split at set
  · cases set
    exact .fullSet _ _ (.inr rfl)
  · cases set
    exact .set2 _ _ _

theorem entered_of_cvarCommand {argv : TokenList} {call : Call κ}
    (set : cvarCommand s argv = some call) : Entered (.call call) := by
  simp only [cvarCommand] at set
  split at set
  · cases set
  split at set
  · cases set
  · cases set
    exact .set2 _ _ _

/-- What is entered while nothing waits leaves the state settled. -/
theorem settled_enter (h : Settled s) (idle : s.agenda = []) {call : Option (Call κ)}
    (entered : ∀ c, call = some c → Entered (.call c)) : Settled (enter s call) := by
  cases call with
  | none => exact h
  | some call =>
    have hentered := entered call rfl
    have agenda : (enter s (some call)).agenda = [.call call] := by
      simp only [enter, State.push, Option.map_some, Option.toList_some, idle, List.append_nil]
    have inv : Inv (enter s (some call)) := h.inv.push_calls rfl
    refine ⟨inv, h.game, h.good, fun name v _ => ?_, .inl ⟨_, agenda, hentered⟩, ?_⟩
    · rw [agenda]
      refine ⟨?_, fun _ => .inr ⟨by rintro ⟨⟩, trivial⟩⟩
      intro old flags hrest
      cases List.mem_singleton.mp hrest
    · rw [agenda]
      refine ⟨?_, trivial⟩
      rintro (sets | ⟨name, old, ⟨⟩⟩)
      cases hentered with
      | set2 => exact sets.elim
      | fullSet name value info =>
        rcases info with rfl | rfl
        · rcases sets with ⟨-, flags⟩ | ⟨-, flags⟩
          · exact absurd flags (by decide)
          · exact absurd flags (by decide)
        · rcases sets with ⟨-, flags⟩ | ⟨-, flags⟩
          · exact absurd flags (by decide)
          · exact absurd flags (by decide)
      | getLatchedVars => exact sets.elim

/-- Every event that meets the condition goes on, and keeps the protected strings. -/
theorem settled_next (kingpin : p.kingpin = true) (callbacks : OwnCallbacks p) (h : Settled s)
    {event : Event} (meets : Meets p s event) :
    ∃ t, next p (some s) event = some t ∧ Settled t ∧ Kept s t := by
  have entering : ∀ call : Option (Call κ), (∀ c, call = some c → Entered (.call c)) →
      ∃ t, (if s.agenda.isEmpty then some (enter s call) else some s) = some t ∧ Settled t ∧ Kept s t := by
    intro call entered
    by_cases idle : s.agenda.isEmpty
    · refine ⟨_, if_pos idle, settled_enter h (List.isEmpty_iff.mp idle) entered, kept_of_values ?_⟩
      exact values_push s _
    · exact ⟨_, if_neg idle, h, kept_of_values rfl⟩
  cases event with
  | set argv => exact entering _ fun c => entered_of_cvarSetF
  | assign argv => exact entering _ fun c => entered_of_cvarCommand
  | latchedVars =>
    refine entering _ ?_
    rintro c ⟨⟩
    exact .getLatchedVars
  | serverState state =>
    by_cases idle : s.agenda.isEmpty
    · have none := List.isEmpty_iff.mp idle
      refine ⟨_, if_pos idle, ⟨h.inv.of_same rfl (fun _ => rfl) rfl, h.game, h.good, h.waits, h.agenda, ?_⟩,
        kept_of_values rfl⟩
      rw [none]
      exact trivial
    · exact ⟨_, if_neg idle, h, kept_of_values rfl⟩
  | goOn =>
    obtain ⟨t, hstep, -⟩ := inv_step p h.inv (meets rfl).1
    refine ⟨t, hstep, ?_⟩
    cases hagenda : s.agenda with
    | nil =>
      simp only [step, hagenda] at hstep
      cases hstep
      exact ⟨h, kept_of_values rfl⟩
    | cons task agenda =>
      have settled := settled_step kingpin callbacks h meets hagenda hstep
      have change := values_step h.inv (meets rfl).1 hagenda hstep
      refine ⟨settled, fun name v hv hnoset not => ?_, fun name v hv => ?_⟩
      · have other := not task (by rw [hagenda]; rfl)
        exact (keeps_step h hagenda meets change hv).1 hnoset other.1 other.2
      · exact (keeps_step h hagenda meets change hv).2

/-- From a state that the engine has set up, write protected strings change only where
`FS_SetGamedir` sets the game directory or `g_idle` is forced by its callback, latched strings of a running server only inside
`Cvar_GetLatchedVars`, and info strings stay clean, in every run whose calls of `Cvar_FullSet`
pass the checks of `Cvar_Set2` and in which no latched string is left dangling. -/
theorem run_protects (kingpin : p.kingpin = true) (callbacks : OwnCallbacks p) {s₀ : State κ}
    (setUp : SetUp s₀) {events : List Event}
    (meets : StepRuns.AllSteps (next p) (OnState (Meets p)) (some s₀) events) :
    StepRuns.AllSteps (next p) (Protects p) (some s₀) events := by
  have keeps : ∀ s event, (∃ s', s = some s' ∧ Settled s') → OnState (Meets p) s event →
      (∃ t, next p s event = some t ∧ Settled t) ∧ Protects p s event := by
    rintro s event ⟨s', rfl, h⟩ hmeets
    obtain ⟨t, hnext, settled, kept⟩ := settled_next kingpin callbacks h (hmeets s' rfl)
    refine ⟨⟨t, hnext, settled⟩, ?_⟩
    rintro _ ⟨⟩
    exact ⟨t, hnext, kept, settled.infoClean⟩
  exact StepRuns.allSteps_of_keeps keeps ⟨s₀, rfl, setUp.settled⟩ meets

/-- A variable is registered. -/
theorem good_cvarGet (h : Inv s) (good : ∀ name v, values s name = some v → Good name v)
    (new : values s name = none) {given : Option (List UInt8)} {flags : UInt32}
    (gamedir : name = ascii "gamedir" → hasFlags flags cvarLatch = false)
    (game : name = ascii "game" → infoFlags flags = true)
    (idle : name = ascii "g_idle" → hasFlags flags cvarLatch = false) :
    ∀ other v, values (cvarGet name given flags s) other = some v → Good other v := by
  obtain ⟨after, entry, hafter⟩ := values_cvarGet h name given flags
  rw [hafter]
  refine forall_update (fun other v _ => good other v) ?_
  rw [new] at entry
  cases entry with
  | same => rintro v ⟨⟩
  | created text _ sound =>
    rintro v ⟨⟩
    exact good_new sound gamedir game idle

/-- Players are on the server: `g_idle` goes back to zero. -/
private def playing : Program Unit where
  kingpin := true
  tokenizes := fun _ _ => true
  changed := fun _ _ name _ new =>
    if name = ascii "g_idle" ∧ new ≠ ascii "0" then [.set2 name (ascii "0") true false] else []

private theorem ownCallbacks_playing : OwnCallbacks playing := by
  intro _ s name old new call hcall
  simp only [playing] at hcall
  split at hcall
  · rename_i changed
    obtain rfl := List.mem_singleton.mp hcall
    exact ⟨by rw [changed.1]; decide, ascii "0", true, rfl, by decide, fun _ => changed.1⟩
  · cases hcall

private def registered : State Unit :=
  cvarGet (ascii "g_idle") (some (ascii "0")) cvarNoset
    (cvarGet (ascii "gamedir") (some []) cvarNoset
      (cvarGet (ascii "game") (some []) (cvarLatch ||| cvarServerinfo) (start [])))

private theorem setUp_registered : SetUp registered := by
  have empty : Inv (start [] : State Unit) := inv_start []
  have none : ∀ name v, values (start [] : State Unit) name = some v → Good name v := by
    rintro name v ⟨⟩
  have game := inv_cvarGet empty (ascii "game") (some []) (cvarLatch ||| cvarServerinfo)
  have gamedir := inv_cvarGet game (ascii "gamedir") (some []) cvarNoset
  refine ⟨inv_cvarGet gamedir _ _ _, rfl, by decide +kernel, ?_⟩
  refine good_cvarGet gamedir (good_cvarGet game (good_cvarGet empty none rfl ?_ ?_ ?_)
    (by decide +kernel) ?_ ?_ ?_) (by decide +kernel) ?_ ?_ ?_
  · decide
  · decide
  · decide
  · decide
  · decide
  · decide
  · decide
  · decide
  · decide

/-- `set game ctf`. -/
private def setGame : TokenList where
  argv := [ascii "set", ascii "game", ascii "ctf"]
  count := by decide
  short := by decide
  stored := by decide

/-- The write protected `gamedir` follows `game`. -/
theorem noset_changes : ¬∀ (p : Program Unit) (s₀ : State Unit), p.kingpin = true → OwnCallbacks p →
    SetUp s₀ → ∀ events, StepRuns.AllSteps (next p) (KeepsNoset p) (some s₀) events := by
  intro h
  obtain ⟨-, -, third, -⟩ := h playing registered rfl ownCallbacks_playing setUp_registered
    [.set setGame, .goOn, .goOn]
  have kept := third _ rfl _ rfl (ascii "gamedir") ⟨cvarNoset, [], none⟩ rfl rfl
  revert kept
  decide +kernel

/-- `game` and then `gamedir` change without a server. -/
theorem run_protects_set_game : StepRuns.AllSteps (next playing) (Protects playing) (some registered)
    [.set setGame, .goOn, .goOn] := by
  refine run_protects rfl ownCallbacks_playing setUp_registered ⟨?_, ?_, ?_, trivial⟩
  · rintro s - ⟨⟩
  · rintro s hs -
    have agenda : s.agenda = [.call (.set2 (ascii "game") (ascii "ctf") false false)] := by
      cases hs
      rfl
    have var : s.vars (ascii "game") = registered.vars (ascii "game") := by
      cases hs
      rfl
    constructor
    · rintro name value argv rest hagenda ⟨-, var', hvar, -, -, -, -, b, old, hlatched, -⟩
      rw [agenda] at hagenda
      cases hagenda
      rw [var] at hvar
      cases hvar
      cases hlatched
    · intro name value flags rest hagenda
      rw [agenda] at hagenda
      cases hagenda
  · rintro s hs -
    have agenda : s.agenda = [.call (.fullSet (ascii "gamedir") (ascii "ctf") cvarNoset),
        .setClientdir] := by
      cases hs
      rfl
    constructor
    · intro name value argv rest hagenda
      rw [agenda] at hagenda
      cases hagenda
    · intro name value flags rest hagenda info
      rw [agenda] at hagenda
      cases hagenda
      exact absurd info (by decide)

end CvarProtection
