import Kpded2.CommandArgs
import Kpded2.CvarValues

/-!
# What the commands for variables call

The command `set`, the direct assignment of a variable, and what each call of a setter puts on
the agenda.
-/
namespace CvarAgenda
open Bytes CommandArgs Cvar CvarValues

variable {κ : Type}

/-! ## Commands -/

/-- The rest of `Cmd_Args2`. -/
def joinArgs (args : List UInt8) : List (List UInt8) → List UInt8
  | [] => args
  | arg :: rest =>
    if args.length + (arg.length + 2) ≥ 2048 then args
    else if rest.isEmpty then args ++ arg
    else joinArgs (args ++ arg ++ [space]) rest

def cmdArgs2 (argv : TokenList) (arg : Nat) : List UInt8 := joinArgs [] (argv.argv.drop arg)

/-- `Cvar_Set_f`. -/
def cvarSetF (argv : TokenList) : Option (Call κ) :=
  if cmdArgc argv < 3 then none
  else if cmdArgv argv (cmdArgc argv - 1) = ascii "u" then
    some (.fullSet (cmdArgv argv 1) (cmdArgv argv 2) cvarUserinfo)
  else if cmdArgv argv 3 = ascii "s" then
    some (.fullSet (cmdArgv argv 1) (cmdArgv argv 2) cvarServerinfo)
  else some (.set2 (cmdArgv argv 1) (cmdArgs2 argv 2) false false)

def cvarCommand (s : State κ) (argv : TokenList) : Option (Call κ) :=
  match s.vars (cmdArgv argv 0) with
  | none => none
  | some _ =>
    if cmdArgc argv = 1 then none else some (.set2 (cmdArgv argv 0) (cmdArgv argv 1) false true)

inductive Event where
  | set (argv : TokenList)
  | assign (argv : TokenList)
  /-- A map starts. -/
  | latchedVars
  | serverState (state : Nat)
  /-- The call under way goes on. -/
  | goOn

def enter (s : State κ) (call : Option (Call κ)) : State κ := s.push ((call.map .call).toList)

/-- `none` after a fault. What is entered waits until the call under way is over. -/
def next (p : Program κ) (s : Option (State κ)) (event : Event) : Option (State κ) :=
  s.bind fun s =>
    match event with
    | .goOn => step p s
    | .set argv => if s.agenda.isEmpty then some (enter s (cvarSetF argv)) else some s
    | .assign argv => if s.agenda.isEmpty then some (enter s (cvarCommand s argv)) else some s
    | .latchedVars => if s.agenda.isEmpty then some (enter s (some .getLatchedVars)) else some s
    | .serverState state => if s.agenda.isEmpty then some { s with serverState := state } else some s

/-! ## What a task puts on the agenda -/

/-- The variables that `FS_SetGamedir` sets. -/
def gamedirNames : List (List UInt8) := [ascii "gamedir", ascii "game", ascii "clientdir"]

/-- The callback of a variable sets only that variable, and to a string without the characters of
an info string. Only the one of `g_idle` does so by force. -/
def OwnCalls (name : List UInt8) (calls : List (Call κ)) : Prop :=
  ∀ call ∈ calls, name ∉ gamedirNames ∧ ∃ value force, call = .set2 name value force false ∧
    cvarInfoValidate value = true ∧ (force = true → name = ascii "g_idle")

def OwnCallbacks (p : Program κ) : Prop :=
  ∀ changed s name old new, OwnCalls name (p.changed changed s name old new)

def gamedirTasks (dir : List UInt8) : List (Cvar.Task κ) :=
  [.call (.fullSet (ascii "gamedir") dir cvarNoset), .setClientdir]

def noGamedirTasks : List (Cvar.Task κ) :=
  [.call (.fullSet (ascii "gamedir") [] cvarNoset),
    .call (.fullSet (ascii "game") [] (cvarLatch ||| cvarServerinfo)), .setClientdir]

/-- What `FS_SetGamedir` is going to do. -/
def FsTasks (dir : List UInt8) (tasks : List (Cvar.Task κ)) : Prop :=
  tasks = [] ∨ tasks = gamedirTasks dir ∨ tasks = noGamedirTasks

inductive Pushed (serverState : Nat) (f : Values) : Cvar.Task κ → List (Cvar.Task κ) → Prop
  | nothing (task : Cvar.Task κ) : Pushed serverState f task []
  | assigned {name value : List UInt8} {force argv : Bool} {calls : List (Call κ)} {old : Option Nat}
      (own : OwnCalls name calls) : Pushed serverState f (.call (.set2 name value force argv))
        (calls.map .call ++ [.set2Rest name old])
  | game {value dir : List UInt8} {argv : Bool} {v : Value} {tasks : List (Cvar.Task κ)}
      (hv : f (ascii "game") = some v) (sound : Sound v.flags value) (inside : dir ⊆ value)
      (dead : serverState = 0) (fs : FsTasks dir tasks) :
      Pushed serverState f (.call (.set2 (ascii "game") value false argv)) tasks
  | fullSet {name value : List UInt8} {flags : UInt32} {calls : List (Call κ)} {old : Nat}
      (own : OwnCalls name calls) : Pushed serverState f (.call (.fullSet name value flags))
        (calls.map .call ++ [.fullSetRest name old flags])
  | clientdir {calls : List (Call κ)} {old : Nat} (own : OwnCalls (ascii "clientdir") calls) :
      Pushed serverState f .setClientdir
        (calls.map .call ++ [.fullSetRest (ascii "clientdir") old cvarLatch])
  | getLatchedVars {names : List (List UInt8)} :
      Pushed serverState f (.call .getLatchedVars) [.latchedVars names]
  | skipped {name : List UInt8} {names : List (List UInt8)} :
      Pushed serverState f (.latchedVars (name :: names)) [.latchedVars names]
  | latched {name : List UInt8} {names : List (List UInt8)} {calls : List (Call κ)} {old : Nat}
      (own : OwnCalls name calls) : Pushed serverState f (.latchedVars (name :: names))
        (calls.map .call ++ [.latchedRest name old, .latchedVars names])
  | latchedGame {old : Nat} {v : Value} {tasks : List (Cvar.Task κ)}
      (hv : f (ascii "game") = some v) (fs : FsTasks v.string tasks) :
      Pushed serverState f (.latchedRest (ascii "game") old) tasks

variable {p : Program κ} {s t : State κ} {name value : List UInt8} {var : Var κ}

theorem agenda_fsSetGamedir (kingpin : p.kingpin = true) (dir : List UInt8) (s : State κ) :
    ∃ tasks, (fsSetGamedir p dir s).agenda = tasks ++ s.agenda ∧ FsTasks dir tasks := by
  simp only [fsSetGamedir, kingpin, if_true]
  split
  · exact ⟨[], rfl, .inl rfl⟩
  · split
    · exact ⟨noGamedirTasks, rfl, .inr (.inr rfl)⟩
    · exact ⟨gamedirTasks dir, rfl, .inr (.inl rfl)⟩

theorem serverState_fsSetGamedir (p : Program κ) (dir : List UInt8) (s : State κ) :
    (fsSetGamedir p dir s).serverState = s.serverState := by
  simp only [fsSetGamedir]
  split
  · rfl
  · split <;> rfl

theorem ownCalls_changedCalls (callbacks : OwnCallbacks p) {oldString newString : Nat}
    {tasks : List (Cvar.Task κ)} (h : changedCalls p s name var oldString newString = some tasks) :
    ∃ calls : List (Call κ), tasks = calls.map .call ∧ OwnCalls name calls := by
  simp only [changedCalls] at h
  split at h
  · cases h
    exact ⟨[], rfl, by rintro call ⟨⟩⟩
  · obtain ⟨old, -, rest⟩ := Option.bind_eq_some_iff.mp h
    obtain ⟨new, -, rest⟩ := Option.bind_eq_some_iff.mp rest
    cases rest
    exact ⟨_, rfl, callbacks _ _ _ _ _⟩

/-- The agenda and the server after a task. -/
structure Leaves (s : State κ) (task : Cvar.Task κ) (t : State κ) : Prop where
  agenda : ∃ pushed, t.agenda = pushed ++ s.agenda ∧ Pushed s.serverState (values s) task pushed
  server : t.serverState = s.serverState

theorem leaves_nothing (task : Cvar.Task κ) (agenda : t.agenda = s.agenda)
    (server : t.serverState = s.serverState) : Leaves s task t :=
  ⟨⟨[], agenda, .nothing task⟩, server⟩

/-- What a plain assignment leaves on the agenda. -/
theorem leaves_setString (callbacks : OwnCallbacks p) {given : List UInt8} {force argv : Bool}
    {s' : State κ} (agenda : s'.agenda = s.agenda) (server : s'.serverState = s.serverState)
    (set : setString p name var value argv s' = some t) :
    Leaves s (.call (.set2 name given force argv)) t := by
  obtain ⟨old, hold, -⟩ := Option.bind_eq_some_iff.mp set
  simp only [setString, hold, Option.bind_eq_bind, Option.bind_some] at set
  have stored : (if name = ascii "hostname" then
      cutStartTime (fun time => argv && p.tokenizes s' time) value else value) =
        storedValue (fun time => argv && p.tokenizes s' time) name value := rfl
  rw [stored] at set
  generalize storedValue _ name value = text at set
  split at set
  · cases set
    exact leaves_nothing _ agenda server
  split at set
  · obtain ⟨heap, -, rest⟩ := Option.bind_eq_some_iff.mp set
    cases rest
    refine ⟨⟨[.set2Rest name none], ?_, @Pushed.assigned _ _ _ _ _ _ _ [] _ (by rintro call ⟨⟩)⟩, server⟩
    simp only [State.push, State.setVar, agenda]
  · obtain ⟨tasks, hcalls, rest⟩ := Option.bind_eq_some_iff.mp set
    obtain ⟨calls, rfl, own⟩ := ownCalls_changedCalls callbacks hcalls
    cases rest
    refine ⟨⟨calls.map .call ++ [.set2Rest name (some var.string)], ?_, .assigned own⟩, server⟩
    simp only [State.push, State.setVar, agenda]

/-- A latched variable leaves nothing to do, if it is not `game` without a server. -/
theorem leaves_storeLatched (kingpin : p.kingpin = true) {s' : State κ}
    (set : storeLatched p name var value s' = some t) : t.serverState = s'.serverState ∧
      (t.agenda = s'.agenda ∨ name = ascii "game" ∧ s'.serverState = 0 ∧
        ∃ tasks, t.agenda = tasks ++ s'.agenda ∧ FsTasks value tasks) := by
  simp only [storeLatched] at set
  split at set
  · cases set
    exact ⟨rfl, .inl rfl⟩
  · rename_i dead
    obtain ⟨heap, -, rest⟩ := Option.bind_eq_some_iff.mp set
    split at rest
    · rename_i game
      cases rest
      obtain ⟨tasks, agenda, fs⟩ := agenda_fsSetGamedir kingpin value
        (({ s' with heap := heap.alloc value } : State κ).setVar name { var with string := heap.next })
      refine ⟨serverState_fsSetGamedir p value _, .inr ⟨game, not_not.mp dead, tasks, agenda, fs⟩⟩
    · cases rest
      exact ⟨rfl, .inl rfl⟩

theorem leaves_setLatched (kingpin : p.kingpin = true)
    (set : setLatched p name var value s = some t) : t.serverState = s.serverState ∧
      (t.agenda = s.agenda ∨ name = ascii "game" ∧ s.serverState = 0 ∧
        ∃ tasks, t.agenda = tasks ++ s.agenda ∧ FsTasks value tasks) := by
  simp only [setLatched] at set
  split at set
  · obtain ⟨old, -, rest⟩ := Option.bind_eq_some_iff.mp set
    split at rest
    · cases rest
      exact ⟨rfl, .inl rfl⟩
    · obtain ⟨heap, -, rest⟩ := Option.bind_eq_some_iff.mp rest
      have left := leaves_storeLatched kingpin rest
      exact left
  · obtain ⟨old, -, rest⟩ := Option.bind_eq_some_iff.mp set
    split at rest
    · cases rest
      exact ⟨rfl, .inl rfl⟩
    · exact leaves_storeLatched kingpin rest

theorem leaves_cvarGet (hvar : s.vars name = none) (given : Option (List UInt8)) (flags : UInt32) :
    (cvarGet name given flags s).agenda = s.agenda ∧
      (cvarGet name given flags s).serverState = s.serverState := by
  simp only [cvarGet, hvar]
  split
  · exact ⟨rfl, rfl⟩
  split
  · exact ⟨rfl, rfl⟩
  split
  · exact ⟨rfl, rfl⟩
  · exact ⟨rfl, rfl⟩

/-- What `Cvar_Set2` leaves on the agenda. -/
theorem leaves_cvarSet2 (kingpin : p.kingpin = true) (callbacks : OwnCallbacks p) (h : Inv s)
    {force argv : Bool} (set : cvarSet2 p name value force argv s = some t) :
    Leaves s (.call (.set2 name value force argv)) t := by
  simp only [cvarSet2] at set
  split at set
  · cases set
    exact leaves_nothing _ rfl rfl
  cases hvar : s.vars name with
  | none =>
    rw [hvar] at set
    cases set
    obtain ⟨agenda, server⟩ := leaves_cvarGet hvar (some value) 0
    exact leaves_nothing _ agenda server
  | some var =>
    obtain ⟨old, latched, hv, -, -⟩ := exists_value h hvar
    simp only [hvar] at set
    split at set
    · cases set
      exact leaves_nothing _ rfl rfl
    rename_i valid
    have sound : Sound var.flags value := by
      intro info
      simpa [show hasFlags var.flags (cvarUserinfo ||| cvarServerinfo) = true from info] using valid
    split at set
    · rename_i forced
      cases hpointer : var.latchedString with
      | none =>
        simp only [hpointer] at set
        exact leaves_setString callbacks rfl rfl set
      | some b =>
        simp only [hpointer] at set
        obtain ⟨heap, -, rest⟩ := Option.bind_eq_some_iff.mp set
        refine leaves_setString callbacks ?_ ?_ rest
        · rfl
        · rfl
    · rename_i unforced
      obtain rfl : force = false := Bool.eq_false_iff.mpr unforced
      split at set
      · cases set
        exact leaves_nothing _ rfl rfl
      split at set
      · obtain ⟨server, same | ⟨rfl, dead, tasks, agenda, fs⟩⟩ := leaves_setLatched kingpin set
        · exact leaves_nothing _ same server
        · exact ⟨⟨tasks, agenda, .game hv sound (clientdirValue_subset p _ value) dead fs⟩, server⟩
      · exact leaves_setString callbacks rfl rfl set

theorem leaves_cvarFullSet (callbacks : OwnCallbacks p) {flags : UInt32}
    (set : cvarFullSet p name value flags s = some t) : t.serverState = s.serverState ∧
      (t.agenda = s.agenda ∨ ∃ calls old, OwnCalls name calls ∧
        t.agenda = calls.map .call ++ [.fullSetRest name old flags] ++ s.agenda) := by
  cases hvar : s.vars name with
  | none =>
    simp only [cvarFullSet, hvar] at set
    cases set
    obtain ⟨agenda, server⟩ := leaves_cvarGet hvar (some value) flags
    exact ⟨server, .inl agenda⟩
  | some var =>
    simp only [cvarFullSet, hvar] at set
    obtain ⟨tasks, hcalls, rest⟩ := Option.bind_eq_some_iff.mp set
    obtain ⟨calls, rfl, own⟩ := ownCalls_changedCalls callbacks hcalls
    cases rest
    exact ⟨rfl, .inr ⟨calls, var.string, own, rfl⟩⟩

/-! ## What waits on the agenda -/

/-- What is entered while nothing waits. -/
inductive Entered : Cvar.Task κ → Prop
  | set2 (name value : List UInt8) (argv : Bool) : Entered (.call (.set2 name value false argv))
  | fullSet (name value : List UInt8) {flags : UInt32}
      (info : flags = cvarUserinfo ∨ flags = cvarServerinfo) :
      Entered (.call (.fullSet name value flags))
  | getLatchedVars : Entered (.call .getLatchedVars)

/-- The flags that a variable may get. -/
structure Fits (name : List UInt8) (flags : UInt32) : Prop where
  noset : hasFlags flags cvarNoset = true → name = ascii "gamedir"
  latch : hasFlags flags cvarLatch = true → name = ascii "game" ∨ name = ascii "clientdir"
  game : name = ascii "game" → infoFlags flags = true

/-- What the setters put on the agenda. -/
inductive Inner : Cvar.Task κ → Prop
  | set2 {name value : List UInt8} {force argv : Bool} (own : name ∉ gamedirNames)
      (valid : cvarInfoValidate value = true) (forced : force = true → name = ascii "g_idle") :
      Inner (.call (.set2 name value force argv))
  | gamedir {dir : List UInt8} (valid : cvarInfoValidate dir = true) :
      Inner (.call (.fullSet (ascii "gamedir") dir cvarNoset))
  | game : Inner (.call (.fullSet (ascii "game") [] (cvarLatch ||| cvarServerinfo)))
  | clientdir : Inner .setClientdir
  | set2Rest (name : List UInt8) (old : Option Nat) : Inner (.set2Rest name old)
  | fullSetRest {name : List UInt8} (old : Nat) {flags : UInt32} (fits : Fits name flags) :
      Inner (.fullSetRest name old flags)
  | latchedVars (names : List (List UInt8)) : Inner (.latchedVars names)
  | latchedRest (name : List UInt8) (old : Nat) : Inner (.latchedRest name old)

theorem leaves_fullSet (callbacks : OwnCallbacks p) {flags : UInt32}
    (set : cvarFullSet p name value flags s = some t) :
    Leaves s (.call (.fullSet name value flags)) t := by
  obtain ⟨server, same | ⟨calls, old, own, pushed⟩⟩ := leaves_cvarFullSet callbacks set
  · exact leaves_nothing _ same server
  · exact ⟨⟨_, pushed, .fullSet own⟩, server⟩

theorem leaves_setClientdir (callbacks : OwnCallbacks p) (set : setClientdir p s = some t) :
    Leaves s .setClientdir t := by
  have full : ∃ value, cvarFullSet p (ascii "clientdir") value cvarLatch s = some t := by
    simp only [setClientdir] at set
    split at set
    · obtain ⟨gamedir, -, hfull⟩ := Option.bind_eq_some_iff.mp set
      exact ⟨gamedir, hfull⟩
    · exact ⟨[], set⟩
  obtain ⟨value, full⟩ := full
  obtain ⟨server, same | ⟨calls, old, own, pushed⟩⟩ := leaves_cvarFullSet callbacks full
  · exact leaves_nothing _ same server
  · exact ⟨⟨_, pushed, .clientdir own⟩, server⟩

theorem leaves_set2Rest {old : Option Nat} (set : set2Rest name old s = some t) :
    Leaves s (.set2Rest name old) t := by
  have same : t.agenda = s.agenda ∧ t.serverState = s.serverState := by
    simp only [set2Rest] at set
    cases old with
    | none =>
      cases set
      split
      · exact ⟨rfl, rfl⟩
      · exact ⟨rfl, rfl⟩
    | some b =>
      obtain ⟨heap, -, rest⟩ := Option.map_eq_some_iff.mp set
      cases rest
      split
      · exact ⟨rfl, rfl⟩
      · exact ⟨rfl, rfl⟩
  exact leaves_nothing _ same.1 same.2

theorem leaves_fullSetRest {old : Nat} {flags : UInt32}
    (set : fullSetRest name old flags s = some t) : Leaves s (.fullSetRest name old flags) t := by
  simp only [fullSetRest] at set
  obtain ⟨heap, -, rest⟩ := Option.bind_eq_some_iff.mp set
  split at rest
  · cases rest
    exact leaves_nothing _ rfl rfl
  · cases rest
    exact leaves_nothing _ rfl rfl

/-- What the loop of `Cvar_GetLatchedVars` leaves on the agenda. -/
theorem leaves_latchedVars (callbacks : OwnCallbacks p) {names : List (List UInt8)}
    (set : latchedVars p names s = some t) : Leaves s (.latchedVars names) t := by
  cases names with
  | nil =>
    cases set
    exact leaves_nothing _ rfl rfl
  | cons name names =>
    simp only [latchedVars] at set
    cases hvar : s.vars name with
    | none =>
      simp only [hvar] at set
      cases set
      exact ⟨⟨_, rfl, .skipped⟩, rfl⟩
    | some var =>
      simp only [hvar] at set
      cases hpointer : var.latchedString with
      | none =>
        simp only [hpointer] at set
        cases set
        exact ⟨⟨_, rfl, .skipped⟩, rfl⟩
      | some b =>
        simp only [hpointer] at set
        obtain ⟨text, -, rest⟩ := Option.bind_eq_some_iff.mp set
        obtain ⟨tasks, hcalls, rest⟩ := Option.bind_eq_some_iff.mp rest
        obtain ⟨calls, rfl, own⟩ := ownCalls_changedCalls callbacks hcalls
        cases rest
        exact ⟨⟨_, rfl, .latched own⟩, rfl⟩

/-- `FS_SetGamedir` is called with the string of `game`, which is not the block that is freed. -/
theorem leaves_latchedRest (kingpin : p.kingpin = true) {old : Nat} (stray : Stray s old)
    (valued : ∀ var, s.vars name = some var →
      ∃ text latched, values s name = some ⟨var.flags, text, latched⟩)
    (set : latchedRest p name old s = some t) : Leaves s (.latchedRest name old) t := by
  simp only [latchedRest] at set
  obtain ⟨heap, freed, rest⟩ := Option.bind_eq_some_iff.mp set
  cases hvar : s.vars name with
  | none =>
    simp only [hvar] at rest
    cases rest
    exact leaves_nothing _ rfl rfl
  | some var =>
    simp only [hvar] at rest
    split at rest
    · rename_i game
      subst game
      obtain ⟨dir, hdir, rest⟩ := Option.bind_eq_some_iff.mp rest
      cases rest
      obtain ⟨text, latched, hv⟩ := valued var hvar
      have hread : text = dir := by
        have value : valueOf s.heap var = some ⟨var.flags, text, latched⟩ := by
          rw [← hv, values, hvar, Option.bind_some]
        rw [← stray heap _ var freed hvar] at value
        obtain ⟨read, hread, rest⟩ := Option.bind_eq_some_iff.mp value
        obtain ⟨_, -, rest⟩ := Option.map_eq_some_iff.mp rest
        cases rest
        exact Option.some.inj (hread.symm.trans hdir)
      obtain ⟨tasks, pushed, fs⟩ := agenda_fsSetGamedir kingpin dir ({ s with heap } : State κ)
      exact ⟨⟨tasks, pushed, .latchedGame hv (hread ▸ fs)⟩, serverState_fsSetGamedir p dir _⟩
    · cases rest
      exact leaves_nothing _ rfl rfl

/-- A step leaves on the agenda what its task may leave there. -/
theorem leaves_perform (kingpin : p.kingpin = true) (callbacks : OwnCallbacks p) (h : Inv s)
    {task : Cvar.Task κ} {agenda : List (Cvar.Task κ)} (hagenda : s.agenda = task :: agenda)
    (allowed : Entered task ∨ Inner task) (hstep : step p s = some t) :
    Leaves { s with agenda } task t := by
  simp only [step, hagenda] at hstep
  have called : ∀ call, task = .call call → Inv { s with agenda } := by
    rintro call rfl
    exact h.pop hagenda rfl
  rcases allowed with entered | inner
  · cases entered with
    | set2 name value argv => exact leaves_cvarSet2 kingpin callbacks (called _ rfl) hstep
    | fullSet name value info => exact leaves_fullSet callbacks hstep
    | getLatchedVars =>
      cases hstep
      exact ⟨⟨_, rfl, .getLatchedVars⟩, rfl⟩
  · cases inner with
    | set2 own valid forced => exact leaves_cvarSet2 kingpin callbacks (called _ rfl) hstep
    | gamedir valid => exact leaves_fullSet callbacks hstep
    | game => exact leaves_fullSet callbacks hstep
    | clientdir => exact leaves_setClientdir callbacks hstep
    | set2Rest name old => exact leaves_set2Rest hstep
    | fullSetRest old fits => exact leaves_fullSetRest hstep
    | latchedVars names => exact leaves_latchedVars callbacks hstep
    | latchedRest name old =>
      refine leaves_latchedRest kingpin (stray_held h hagenda rfl) (fun var hvar => ?_) hstep
      obtain ⟨text, latched, hv, -, -⟩ := exists_value h hvar
      exact ⟨text, latched, hv⟩

end CvarAgenda
