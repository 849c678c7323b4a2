import Mathlib.Data.List.Infix
import Mathlib.Data.UInt
import Kpded2.Bytes
import Kpded2.OwnedHeap

/-!
# Console variables and their strings

The values of the console variables are blocks of the zone memory: `string`
is the current one and `latched_string` the one that the next map brings. A
callback of a variable, `FS_SetGamedir` and `Cvar_Get` call back into the same
functions while an old string waits to be freed, so a state has an agenda: the
calls to come, and what is left to do of the calls under way. A fault is an access to a
block that has been freed.

The number that `atof` makes of a string is left out: only callbacks read it, and
they are given the string.
-/
namespace Cvar

open Bytes OwnedHeap

def cvarUserinfo : UInt32 := 2
def cvarServerinfo : UInt32 := 4
def cvarNoset : UInt32 := 8
def cvarLatch : UInt32 := 16

/-- What there is of a `cvar_t`, without its name. -/
structure Var (κ : Type) where
  string : Nat
  latchedString : Option Nat
  flags : UInt32
  modified : Bool
  changed : Option κ

/-- The calls of other modules, with the strings they pass; `argv` tells of a value that it is
the first argument of the command `name`, which stands in `cmd_buffer`. -/
inductive Call (κ : Type)
  | get (name : List UInt8) (value : Option (List UInt8)) (flags : UInt32)
  | set2 (name value : List UInt8) (force argv : Bool)
  | fullSet (name value : List UInt8) (flags : UInt32)
  | getLatchedVars
  | setServerState (state : Nat)
  | setChanged (name : List UInt8) (changed : κ)

inductive Task (κ : Type)
  | call (call : Call κ)
  | setClientdir
  | set2Rest (name : List UInt8) (oldString : Option Nat)
  | fullSetRest (name : List UInt8) (oldString : Nat) (flags : UInt32)
  | latchedVars (names : List (List UInt8))
  | latchedRest (name : List UInt8) (oldString : Nat)

/-- `vars` is the tree, `cvarVars` the linked list with the newest variable first. -/
structure State (κ : Type) where
  heap : Heap (List UInt8)
  vars : List UInt8 → Option (Var κ)
  cvarVars : List (List UInt8)
  userinfoModified : Bool
  serverState : Nat
  agenda : List (Task κ)

/-- How the program is built, whether the line `setstarttime` with an argument becomes tokens
or is discarded, and what the callbacks call when they are given a variable's name, its old
value and its new one. -/
structure Program (κ : Type) where
  kingpin : Bool
  tokenizes : State κ → List UInt8 → Bool
  changed : κ → State κ → List UInt8 → List UInt8 → List UInt8 → List (Call κ)

variable {κ : Type}

def basedirname (p : Program κ) : List UInt8 := if p.kingpin then ascii "main" else ascii "baseq2"

def hasFlags (flags mask : UInt32) : Bool := flags &&& mask != 0

def State.setVar (s : State κ) (name : List UInt8) (var : Var κ) : State κ :=
  { s with vars := Function.update s.vars name (some var) }

def State.push (s : State κ) (tasks : List (Task κ)) : State κ :=
  { s with agenda := tasks ++ s.agenda }

def cvarInfoValidate (s : List UInt8) : Bool :=
  !(s.contains backslash || s.contains quote || s.contains semicolon)

def cvarAdd (name value : List UInt8) (flags : UInt32) (s : State κ) : State κ :=
  { s with
    heap := s.heap.alloc value
    vars := Function.update s.vars name (some
      { string := s.heap.next, latchedString := none, flags, modified := true, changed := none })
    cvarVars := name :: s.cvarVars
    userinfoModified := s.userinfoModified || hasFlags flags cvarUserinfo }

def cvarGet (name : List UInt8) (value : Option (List UInt8)) (flags : UInt32) (s : State κ) :
    State κ :=
  if hasFlags flags (cvarUserinfo ||| cvarServerinfo) && !cvarInfoValidate name then s
  else match s.vars name with
    | some var =>
      let s := s.setVar name { var with flags := var.flags ||| flags }
      match value with
      | some value =>
        if s.serverState = 0 ∧ value ≠ [] ∧ (name = ascii "gamename" ∨ name = ascii "gamedate") then
          s.push [.call (.set2 name value false false)]
        else s
      | none => s
    | none => match value with
      | none => s
      | some value =>
        if hasFlags flags (cvarUserinfo ||| cvarServerinfo) && !cvarInfoValidate value then s
        else cvarAdd name value flags s

/-- The searchpaths of the file system are left out. -/
def fsSetGamedir (p : Program κ) (dir : List UInt8) (s : State κ) : State κ :=
  if ascii ".." <:+: dir ∨ 47 ∈ dir ∨ backslash ∈ dir ∨ 58 ∈ dir then s
  else
    let flags := if p.kingpin then cvarNoset else cvarServerinfo ||| cvarNoset
    let clientdir := if p.kingpin then [.setClientdir] else []
    if dir = basedirname p ∨ dir = [] then
      s.push (.call (.fullSet (ascii "gamedir") [] flags) ::
        .call (.fullSet (ascii "game") [] (cvarLatch ||| cvarServerinfo)) :: clientdir)
    else s.push (.call (.fullSet (ascii "gamedir") dir flags) :: clientdir)

/-- What a variable's callback calls, once it has the new value in `newString`. -/
def changedCalls (p : Program κ) (s : State κ) (name : List UInt8) (var : Var κ)
    (oldString newString : Nat) : Option (List (Task κ)) :=
  match var.changed with
  | none => some []
  | some changed => do
    let old ← s.heap.blocks oldString
    let new ← s.heap.blocks newString
    return (p.changed changed s name old new).map .call

def spaces : List UInt8 := [9, 10, 11, 12, 13, space]

/-- `%u` of `sscanf`. -/
def scanUnsigned (text : List UInt8) : Option (Nat × List UInt8) :=
  let text := text.dropWhile (spaces.contains ·)
  let (minus, text) := match text with
    | 45 :: rest => (true, rest)
    | 43 :: rest => (false, rest)
    | _ => (false, text)
  let digits := text.takeWhile fun c => 48 ≤ c && c ≤ 57
  let n := digits.foldl (fun n c => 10 * n + (c.toNat - 48)) 0 % 2 ^ 32
  if digits = [] then none
  else some (if minus then (2 ^ 32 - n) % 2 ^ 32 else n, text.drop digits.length)

/-- A time of the day in `h:m` form. -/
def startTime (text : List UInt8) : Bool :=
  match scanUnsigned text with
  | some (h, 58 :: rest) => match scanUnsigned rest with
    | some (m, _) => h ≤ 23 && m ≤ 59
    | none => false
  | _ => false

/-- A start time behind the last '@' of the hostname goes to the command
`setstarttime`, which calls none of the functions here, and is cut off together with
the blanks before it. Where the tokens of that command take the place of `hostname` and the
value in `cmd_buffer`, the value is what stands there of its name. -/
def cutStartTime (overwrites : List UInt8 → Bool) (value : List UInt8) : List UInt8 :=
  match value.reverse.dropWhile (· ≠ 64) with
  | [] => value
  | _ :: before =>
    let behind := value.drop (before.length + 1)
    if space ∉ behind ∧ startTime behind then
      if overwrites behind then ((ascii "setstarttime").drop 9).take before.length
      else (before.dropWhile (· = space)).reverse
    else value

/-- The part of `Cvar_Set2` that is common to forced and unforced changes. -/
def setString (p : Program κ) (name : List UInt8) (var : Var κ) (value : List UInt8)
    (argv : Bool) (s : State κ) : Option (State κ) := do
  let overwrites := fun time => argv && p.tokenizes s time
  let value := if name = ascii "hostname" then cutStartTime overwrites value else value
  let old ← s.heap.blocks var.string
  if value = old then return s
  else if var.changed.isNone && value.length ≤ old.length then
    let heap ← s.heap.store var.string value
    return ({ s with heap }.setVar name { var with modified := true }).push [.set2Rest name none]
  else
    let var' := { var with string := s.heap.next, modified := true }
    let s' := { s with heap := s.heap.alloc value }.setVar name var'
    let calls ← changedCalls p s' name var' var.string var'.string
    return s'.push (calls ++ [.set2Rest name (some var.string)])

/-- The new value of a latched variable, kept for the next map if a server runs. -/
def storeLatched (p : Program κ) (name : List UInt8) (var : Var κ) (value : List UInt8)
    (s : State κ) : Option (State κ) :=
  if s.serverState ≠ 0 then
    some ({ s with heap := s.heap.alloc value }.setVar name
      { var with latchedString := some s.heap.next })
  else do
    let heap ← s.heap.free var.string
    let s' := { s with heap := heap.alloc value }.setVar name { var with string := heap.next }
    if name = ascii "game" then return fsSetGamedir p value s' else return s'

/-- `Cvar_Set2` for a latched variable that is set without force. -/
def setLatched (p : Program κ) (name : List UInt8) (var : Var κ) (value : List UInt8)
    (s : State κ) : Option (State κ) :=
  match var.latchedString with
  | some latchedString => do
    let old ← s.heap.blocks latchedString
    if value = old then return s
    else
      -- `latched_string` keeps its pointer
      let heap ← s.heap.free latchedString
      storeLatched p name var value { s with heap }
  | none => do
    let old ← s.heap.blocks var.string
    if value = old then return s
    else storeLatched p name var value s

/-- The default directory of the clients is stored as no directory. -/
def clientdirValue (p : Program κ) (name value : List UInt8) : List UInt8 :=
  if p.kingpin ∧ name = ascii "clientdir" ∧ value = basedirname p then [] else value

def cvarSet2 (p : Program κ) (name value : List UInt8) (force argv : Bool) (s : State κ) :
    Option (State κ) :=
  if name.head? = some dollar ∧ force = false then some s
  else match s.vars name with
    | none => some (cvarGet name (some value) 0 s)
    | some var =>
      if hasFlags var.flags (cvarUserinfo ||| cvarServerinfo) && !cvarInfoValidate value then some s
      else
        let value := clientdirValue p name value
        if force then
          match var.latchedString with
          | some latchedString => do
            let heap ← s.heap.free latchedString
            let var := { var with latchedString := none }
            setString p name var value argv ({ s with heap }.setVar name var)
          | none => setString p name var value argv s
        else if hasFlags var.flags cvarNoset then some s
        else if hasFlags var.flags cvarLatch then setLatched p name var value s
        else setString p name var value argv s

/-- `Cvar_Set2` after the callback. -/
def set2Rest (name : List UInt8) (oldString : Option Nat) (s : State κ) : Option (State κ) :=
  let s := match s.vars name with
    | some var => { s with userinfoModified := s.userinfoModified || hasFlags var.flags cvarUserinfo }
    | none => s
  match oldString with
  | none => some s
  | some oldString => (s.heap.free oldString).map fun heap => { s with heap }

def cvarFullSet (p : Program κ) (name value : List UInt8) (flags : UInt32) (s : State κ) :
    Option (State κ) :=
  match s.vars name with
  | none => some (cvarGet name (some value) flags s)
  | some var => do
    let var' := { var with string := s.heap.next, modified := true }
    let s' := { s with
      heap := s.heap.alloc value
      userinfoModified := s.userinfoModified || hasFlags var.flags cvarUserinfo }.setVar name var'
    let calls ← changedCalls p s' name var' var.string var'.string
    return s'.push (calls ++ [.fullSetRest name var.string flags])

/-- `Cvar_FullSet` after the callback. -/
def fullSetRest (name : List UInt8) (oldString : Nat) (flags : UInt32) (s : State κ) :
    Option (State κ) := do
  let heap ← s.heap.free oldString
  match s.vars name with
  | some var => return { s with heap }.setVar name { var with flags }
  | none => return { s with heap }

/-- `Cvar_GetLatchedVars` from one variable of the list on. -/
def latchedVars (p : Program κ) : List (List UInt8) → State κ → Option (State κ)
  | [], s => some s
  | name :: names, s =>
    match s.vars name with
    | none => some (s.push [.latchedVars names])
    | some var => match var.latchedString with
      | none => some (s.push [.latchedVars names])
      | some latchedString => do
        let var' := { var with string := latchedString, latchedString := none }
        let s' := s.setVar name var'
        let _ ← s'.heap.blocks latchedString
        let calls ← changedCalls p s' name var' var.string latchedString
        return s'.push (calls ++ [.latchedRest name var.string, .latchedVars names])

/-- `Cvar_GetLatchedVars` after the callback of one variable. -/
def latchedRest (p : Program κ) (name : List UInt8) (oldString : Nat) (s : State κ) :
    Option (State κ) := do
  let heap ← s.heap.free oldString
  match s.vars name with
  | some var =>
    if name = ascii "game" then
      let dir ← heap.blocks var.string
      return fsSetGamedir p dir { s with heap }
    else return { s with heap }
  | none => return { s with heap }

/-- `Cvar_FullSet ("clientdir", Cvar_VariableString ("gamedir"), CVAR_LATCH)`. -/
def setClientdir (p : Program κ) (s : State κ) : Option (State κ) :=
  match s.vars (ascii "gamedir") with
  | some var => do
    let gamedir ← s.heap.blocks var.string
    cvarFullSet p (ascii "clientdir") gamedir cvarLatch s
  | none => cvarFullSet p (ascii "clientdir") [] cvarLatch s

def performCall (p : Program κ) : Call κ → State κ → Option (State κ)
  | .get name value flags, s => some (cvarGet name value flags s)
  | .set2 name value force argv, s => cvarSet2 p name value force argv s
  | .fullSet name value flags, s => cvarFullSet p name value flags s
  | .getLatchedVars, s => some (s.push [.latchedVars s.cvarVars])
  | .setServerState state, s => some { s with serverState := state }
  | .setChanged name changed, s => match s.vars name with
    | some var => some (s.setVar name { var with changed := some changed })
    | none => some s

def perform (p : Program κ) : Task κ → State κ → Option (State κ)
  | .call call, s => performCall p call s
  | .setClientdir, s => setClientdir p s
  | .set2Rest name oldString, s => set2Rest name oldString s
  | .fullSetRest name oldString flags, s => fullSetRest name oldString flags s
  | .latchedVars names, s => latchedVars p names s
  | .latchedRest name oldString, s => latchedRest p name oldString s

def step (p : Program κ) (s : State κ) : Option (State κ) :=
  match s.agenda with
  | [] => some s
  | task :: agenda => perform p task { s with agenda }

def steps (p : Program κ) : Nat → State κ → Option (State κ)
  | 0, s => some s
  | n + 1, s => do
    let t ← steps p n s
    step p t

/-- No variables, and these calls to make. -/
def start (calls : List (Call κ)) : State κ where
  heap := .empty
  vars := fun _ => none
  cvarVars := []
  userinfoModified := false
  serverState := 0
  agenda := calls.map .call

/-! ## Who owns which string -/

inductive Field
  | string
  | latchedString
  deriving DecidableEq

def Var.pointer (var : Var κ) : Field → Option Nat
  | .string => some var.string
  | .latchedString => var.latchedString

def pointers (s : State κ) (i : List UInt8 × Field) : Option Nat :=
  (s.vars i.1).bind fun var => var.pointer i.2

/-- Every string and every latched string is live and nobody else's. -/
def StringsOwned (s : State κ) : Prop := Owns s.heap (pointers s)

def Task.held : Task κ → Option Nat
  | .set2Rest _ oldString => oldString
  | .fullSetRest _ oldString _ => some oldString
  | .latchedRest _ oldString => some oldString
  | _ => none

/-- The old strings that wait to be freed. -/
def held (agenda : List (Task κ)) : List Nat := agenda.filterMap Task.held

def heldPointer (agenda : List (Task κ)) (b : Nat) : Option Nat :=
  if b ∈ held agenda then some b else none

abbrev Slot := (List UInt8 × Field) ⊕ Nat

def slots (s : State κ) : Slot → Option Nat := Sum.elim (pointers s) (heldPointer s.agenda)

structure Inv (s : State κ) : Prop where
  owns : Owns s.heap (slots s)
  once : (held s.agenda).Nodup

theorem Inv.stringsOwned {s : State κ} (h : Inv s) : StringsOwned s :=
  h.owns.comp Sum.inl_injective

theorem pointers_setVar (s : State κ) (name : List UInt8) (var : Var κ) (i : List UInt8 × Field) :
    pointers (s.setVar name var) i = if i.1 = name then var.pointer i.2 else pointers s i := by
  simp only [pointers, State.setVar]
  by_cases hi : i.1 = name
  · rw [if_pos hi, hi, Function.update_self]
    rfl
  · rw [if_neg hi, Function.update_of_ne hi]

theorem held_calls (calls : List (Call κ)) : held (calls.map Task.call) = [] := by
  simp [held, Task.held]

theorem held_append (first second : List (Task κ)) :
    held (first ++ second) = held first ++ held second :=
  List.filterMap_append

theorem Inv.live_string {s : State κ} (h : Inv s) {name : List UInt8} {var : Var κ}
    (hvar : s.vars name = some var) : ∃ old, s.heap.blocks var.string = some old := by
  have hslot : slots s (.inl (name, .string)) = some var.string := by
    simp only [slots, Sum.elim_inl, pointers, hvar, Option.bind_some, Var.pointer]
  exact Option.isSome_iff_exists.mp (h.owns.live _ _ hslot)

theorem Inv.live_latched {s : State κ} (h : Inv s) {name : List UInt8} {var : Var κ} {b : Nat}
    (hvar : s.vars name = some var) (hlatched : var.latchedString = some b) :
    ∃ old, s.heap.blocks b = some old := by
  have hslot : slots s (.inl (name, .latchedString)) = some b := by
    simp only [slots, Sum.elim_inl, pointers, hvar, Option.bind_some, Var.pointer, hlatched]
  exact Option.isSome_iff_exists.mp (h.owns.live _ _ hslot)

theorem Inv.not_held {s : State κ} (h : Inv s) {name : List UInt8} {field : Field} {b : Nat}
    (hslot : pointers s (name, field) = some b) : b ∉ held s.agenda := by
  intro hb
  have hheld : slots s (.inr b) = some b := if_pos hb
  exact Sum.inl_ne_inr (h.owns.exclusive (.inl (name, field)) _ b hslot hheld)

theorem inv_of_owns {s : State κ} {ptr : Slot → Option Nat} (howns : Owns s.heap ptr)
    (hpointers : ∀ i b, pointers s i = some b → ptr (.inl i) = some b)
    (hheld : ∀ b ∈ held s.agenda, ptr (.inr b) = some b) (honce : (held s.agenda).Nodup) :
    Inv s where
  owns := by
    refine howns.of_le ?_
    rintro (i | c) b hslot
    · exact hpointers i b hslot
    · change (if c ∈ held s.agenda then some c else none) = some b at hslot
      by_cases hc : c ∈ held s.agenda
      · rw [if_pos hc] at hslot
        exact (hheld c hc).trans hslot
      · rw [if_neg hc] at hslot
        cases hslot
  once := honce

/-- A change that leaves the strings alone. -/
theorem Inv.of_same {s s' : State κ} (h : Inv s) (hheap : s'.heap = s.heap)
    (hpointers : ∀ i, pointers s' i = pointers s i) (hheld : held s'.agenda = held s.agenda) :
    Inv s' := by
  have howns : Owns s'.heap (slots s) := hheap ▸ h.owns
  refine inv_of_owns howns ?_ ?_ (hheld ▸ h.once)
  · intro i b hi
    rw [hpointers] at hi
    exact hi
  · intro b hb
    rw [hheld] at hb
    exact if_pos hb

theorem Inv.push_calls {s : State κ} (h : Inv s) {tasks : List (Task κ)} (htasks : held tasks = []) :
    Inv (s.push tasks) := by
  refine h.of_same rfl (fun _ => rfl) ?_
  simp only [State.push, held_append, htasks, List.nil_append]

theorem pointers_of_var {s : State κ} {name : List UInt8} {var : Var κ}
    (hvar : s.vars name = some var) (field : Field) :
    pointers s (name, field) = var.pointer field := by
  simp only [pointers, hvar, Option.bind_some]

theorem Inv.setVar_same {s : State κ} (h : Inv s) {name : List UInt8} {var var' : Var κ}
    (hvar : s.vars name = some var) (hsame : var'.pointer = var.pointer) :
    Inv (s.setVar name var') := by
  refine h.of_same rfl ?_ rfl
  rintro ⟨other, field⟩
  rw [pointers_setVar]
  split
  · rename_i heq
    obtain rfl : other = name := heq
    rw [pointers_of_var hvar, hsame]
  · rfl

/-- A new variable owns the block of its string. -/
theorem inv_cvarAdd {s : State κ} (h : Inv s) (name value : List UInt8) (flags : UInt32)
    (hnew : s.vars name = none) : Inv (cvarAdd name value flags s) := by
  refine inv_of_owns (h.owns.alloc (.inl (name, .string)) value) ?_ ?_ h.once
  · rintro ⟨other, field⟩ b hb
    change pointers (s.setVar name _) (other, field) = some b at hb
    rw [pointers_setVar] at hb
    split at hb
    · rename_i heq
      obtain rfl : other = name := heq
      cases field with
      | string => rwa [Function.update_self]
      | latchedString => cases hb
    · rename_i hne
      rw [Function.update_of_ne (by simpa using fun heq => absurd heq hne)]
      exact hb
  · intro b hb
    rw [Function.update_of_ne (by simp)]
    exact if_pos hb

/-- A variable that is there keeps its strings, and a new one gets its own. -/
theorem inv_cvarGet {s : State κ} (h : Inv s) (name : List UInt8) (value : Option (List UInt8))
    (flags : UInt32) : Inv (cvarGet name value flags s) := by
  simp only [cvarGet]
  split
  · exact h
  · cases hvar : s.vars name with
    | some var =>
      have hflags : Inv (s.setVar name { var with flags := var.flags ||| flags }) :=
        h.setVar_same hvar rfl
      cases value with
      | none => exact hflags
      | some value =>
        simp only
        split
        · exact hflags.push_calls rfl
        · exact hflags
    | none =>
      cases value with
      | none => exact h
      | some value =>
        simp only
        split
        · exact h
        · exact inv_cvarAdd h name value flags hvar

/-- `FS_SetGamedir` only puts calls on the agenda. -/
theorem inv_fsSetGamedir (p : Program κ) (dir : List UInt8) {s : State κ} (h : Inv s) :
    Inv (fsSetGamedir p dir s) := by
  have hclientdir : held (if p.kingpin then [(Task.setClientdir : Task κ)] else []) = [] := by
    split <;> rfl
  simp only [fsSetGamedir]
  split
  · exact h
  · split
    · exact h.push_calls hclientdir
    · exact h.push_calls hclientdir

theorem exists_changedCalls (p : Program κ) (s : State κ) (name : List UInt8) (var : Var κ)
    {oldString newString : Nat} (hold : ∃ old, s.heap.blocks oldString = some old)
    (hnew : ∃ new, s.heap.blocks newString = some new) :
    ∃ calls : List (Call κ),
      changedCalls p s name var oldString newString = some (calls.map .call) := by
  obtain ⟨old, hold⟩ := hold
  obtain ⟨new, hnew⟩ := hnew
  cases hchanged : var.changed with
  | none => exact ⟨[], by simp only [changedCalls, hchanged]; rfl⟩
  | some changed =>
    exact ⟨p.changed changed s name old new, by
      simp only [changedCalls, hchanged, hold, hnew, Option.bind_eq_bind, Option.bind_some,
        Option.pure_def]⟩

/-- A new string, while the old one waits. -/
theorem Inv.replaceString {s s' : State κ} (h : Inv s) {name value : List UInt8} {var var' : Var κ}
    (hvar : s.vars name = some var) (hheap : s'.heap = s.heap.alloc value)
    (hvars : s'.vars = Function.update s.vars name (some var')) (hstring : var'.string = s.heap.next)
    (hlatched : var'.latchedString = var.latchedString)
    (hheld : held s'.agenda = var.string :: held s.agenda) : Inv s' := by
  have hpointer : slots s (.inl (name, .string)) = some var.string := pointers_of_var hvar .string
  have hwaits := h.not_held hpointer
  have howns := (h.owns.move (i := .inl (name, .string)) (j := .inr var.string)
    (if_neg hwaits)).alloc (.inl (name, .string)) value
  rw [hpointer] at howns
  refine inv_of_owns (hheap ▸ howns) ?_ ?_ ?_
  · rintro ⟨other, field⟩ b hb
    have hb' : pointers (s.setVar name var') (other, field) = some b := by
      rw [← hb]
      simp only [pointers, State.setVar, hvars]
    rw [pointers_setVar] at hb'
    split at hb'
    · rename_i heq
      obtain rfl : other = name := heq
      cases field with
      | string =>
        rw [Function.update_self, ← hstring]
        exact hb'
      | latchedString =>
        rw [Function.update_of_ne (by simp), Function.update_of_ne (by simp),
          Function.update_of_ne (by simp)]
        exact (pointers_of_var hvar .latchedString).trans (hlatched.symm.trans hb')
    · rename_i hne
      have hother : (Sum.inl (other, field) : Slot) ≠ .inl (name, .string) := by
        simpa using fun heq => absurd heq hne
      rw [Function.update_of_ne hother, Function.update_of_ne (by simp),
        Function.update_of_ne hother]
      exact hb'
  · intro b hb
    rw [hheld, List.mem_cons] at hb
    rw [Function.update_of_ne (by simp)]
    by_cases hbs : b = var.string
    · rw [hbs, Function.update_self]
    · rw [Function.update_of_ne (by simpa using hbs), Function.update_of_ne (by simp)]
      exact if_pos (hb.resolve_left hbs)
  · rw [hheld]
    exact List.nodup_cons.mpr ⟨hwaits, h.once⟩

/-- The string is written in its block, or a new one is allocated and the old one held. -/
theorem inv_setString (p : Program κ) {s : State κ} (h : Inv s) {name : List UInt8} {var : Var κ}
    (hvar : s.vars name = some var) (value : List UInt8) (argv : Bool) :
    ∃ t, setString p name var value argv s = some t ∧ Inv t := by
  obtain ⟨old, hold⟩ := h.live_string hvar
  simp only [setString, hold, Option.bind_eq_bind, Option.bind_some]
  generalize (if name = ascii "hostname" then
    cutStartTime (fun time => argv && p.tokenizes s time) value else value) = value
  split
  · exact ⟨s, rfl, h⟩
  split
  · obtain ⟨heap, hstore⟩ := Heap.exists_store (a := value) (b := var.string) (h := s.heap)
      (by rw [hold]; rfl)
    refine ⟨_, by rw [hstore, Option.bind_some]; rfl, ?_⟩
    have hreused : Inv ({ s with heap := heap } : State κ) :=
      { owns := h.owns.of_isSome (Heap.isSome_store hstore), once := h.once }
    refine Inv.push_calls ?_ rfl
    exact hreused.setVar_same hvar rfl
  · have hnew : ∃ new, (s.heap.alloc value).blocks s.heap.next = some new :=
      ⟨value, s.heap.blocks_alloc_next value⟩
    have hwaits : ∃ old, (s.heap.alloc value).blocks var.string = some old :=
      ⟨old, by rw [Heap.blocks_alloc_of_isSome (by rw [hold]; rfl), hold]⟩
    obtain ⟨calls, hcalls⟩ := exists_changedCalls p
      ({ s with heap := s.heap.alloc value }.setVar name
        { var with string := s.heap.next, modified := true }) name
      { var with string := s.heap.next, modified := true } hwaits hnew
    refine ⟨_, by rw [hcalls, Option.bind_some]; rfl, ?_⟩
    refine h.replaceString hvar rfl rfl rfl rfl ?_
    simp only [State.push, State.setVar, held_append, held_calls]
    rfl

/-- The old string is held until the callback has returned. -/
theorem inv_cvarFullSet (p : Program κ) {s : State κ} (h : Inv s) (name value : List UInt8)
    (flags : UInt32) : ∃ t, cvarFullSet p name value flags s = some t ∧ Inv t := by
  cases hvar : s.vars name with
  | none =>
    simp only [cvarFullSet, hvar]
    exact ⟨_, rfl, inv_cvarGet h name (some value) flags⟩
  | some var =>
    obtain ⟨old, hold⟩ := h.live_string hvar
    have hnew : ∃ new, (s.heap.alloc value).blocks s.heap.next = some new :=
      ⟨value, s.heap.blocks_alloc_next value⟩
    have hwaits : ∃ old, (s.heap.alloc value).blocks var.string = some old :=
      ⟨old, by rw [Heap.blocks_alloc_of_isSome (by rw [hold]; rfl), hold]⟩
    simp only [cvarFullSet, hvar]
    obtain ⟨calls, hcalls⟩ := exists_changedCalls p
      ({ s with
        heap := s.heap.alloc value
        userinfoModified := s.userinfoModified || hasFlags var.flags cvarUserinfo }.setVar name
          { var with string := s.heap.next, modified := true }) name
      { var with string := s.heap.next, modified := true } hwaits hnew
    refine ⟨_, by rw [hcalls]; rfl, ?_⟩
    refine h.replaceString hvar rfl rfl rfl rfl ?_
    simp only [State.push, State.setVar, held_append, held_calls]
    rfl

/-- A latched string is freed; whether it is also forgotten is up to the caller. -/
theorem Inv.freeLatched {s : State κ} (h : Inv s) {name : List UInt8} {var : Var κ} {b : Nat}
    (hvar : s.vars name = some var) (hlatched : var.latchedString = some b) :
    ∃ heap, s.heap.free b = some heap ∧
      Owns heap (Function.update (slots s) (.inl (name, .latchedString)) none) := by
  obtain ⟨old, hold⟩ := h.live_latched hvar hlatched
  obtain ⟨heap, hfree⟩ := Heap.exists_free (b := b) (h := s.heap) (by rw [hold]; rfl)
  have hslot : slots s (.inl (name, .latchedString)) = some b :=
    (pointers_of_var hvar .latchedString).trans hlatched
  exact ⟨heap, hfree, h.owns.free hslot hfree⟩

/-- A server runs: the latched string is a new one, and the old one may have gone. -/
theorem inv_storeLatched_running (p : Program κ) {s : State κ} {name : List UInt8} {var : Var κ}
    (howns : Owns s.heap (Function.update (slots s) (.inl (name, .latchedString)) none))
    (honce : (held s.agenda).Nodup) (hvar : s.vars name = some var) (value : List UInt8)
    (hrunning : s.serverState ≠ 0) :
    ∃ t, storeLatched p name var value s = some t ∧ Inv t := by
  simp only [storeLatched, if_pos hrunning]
  refine ⟨_, rfl, ?_⟩
  have hnew := howns.alloc (.inl (name, .latchedString)) value
  rw [Function.update_idem] at hnew
  refine inv_of_owns hnew ?_ ?_ honce
  · rintro ⟨other, field⟩ b hb
    rw [pointers_setVar] at hb
    split at hb
    · rename_i heq
      obtain rfl : other = name := heq
      cases field with
      | string =>
        rw [Function.update_of_ne (by simp)]
        exact (pointers_of_var hvar .string).trans hb
      | latchedString =>
        rw [Function.update_self]
        exact hb
    · rename_i hne
      rw [Function.update_of_ne (by simpa using fun heq => absurd heq hne)]
      exact hb
  · intro b hb
    rw [Function.update_of_ne (by simp)]
    exact if_pos hb

/-- No server runs and nothing is latched. -/
theorem inv_storeLatched_dead (p : Program κ) {s : State κ} (h : Inv s) {name : List UInt8}
    {var : Var κ} (hvar : s.vars name = some var) (hlatched : var.latchedString = none)
    (value : List UInt8) (hdead : s.serverState = 0) :
    ∃ t, storeLatched p name var value s = some t ∧ Inv t := by
  obtain ⟨old, hold⟩ := h.live_string hvar
  obtain ⟨heap, hfree⟩ := Heap.exists_free (b := var.string) (h := s.heap) (by rw [hold]; rfl)
  have hslot : slots s (.inl (name, .string)) = some var.string := pointers_of_var hvar .string
  have howns := (h.owns.free hslot hfree).alloc (.inl (name, .string)) value
  rw [Function.update_idem] at howns
  have hstored : Inv (({ s with heap := heap.alloc value } : State κ).setVar name
      { var with string := heap.next }) := by
    refine inv_of_owns howns ?_ ?_ h.once
    · rintro ⟨other, field⟩ b hb
      rw [pointers_setVar] at hb
      split at hb
      · rename_i heq
        obtain rfl : other = name := heq
        cases field with
        | string =>
          rw [Function.update_self]
          exact hb
        | latchedString => exact absurd (hlatched.symm.trans hb) (by simp)
      · rename_i hne
        rw [Function.update_of_ne (by simpa using fun heq => absurd heq hne)]
        exact hb
    · intro b hb
      rw [Function.update_of_ne (by simp)]
      exact if_pos hb
  rw [storeLatched, if_neg (not_not.mpr hdead)]
  simp only [hfree, Option.bind_eq_bind, Option.bind_some]
  split
  · exact ⟨_, rfl, inv_fsSetGamedir p value hstored⟩
  · exact ⟨_, rfl, hstored⟩

/-- A variable with a latched string is set to something else while no server runs. -/
def ReplacesLatched (s : State κ) (var : Var κ) (value : List UInt8) : Prop :=
  s.serverState = 0 ∧ ∃ b old, var.latchedString = some b ∧ s.heap.blocks b = some old ∧ value ≠ old

/-- A latched variable that takes a value keeps its blocks. -/
theorem inv_setLatched (p : Program κ) {s : State κ} (h : Inv s) {name : List UInt8} {var : Var κ}
    (hvar : s.vars name = some var) {value : List UInt8} (hmeets : ¬ ReplacesLatched s var value) :
    ∃ t, setLatched p name var value s = some t ∧ Inv t := by
  cases hlatched : var.latchedString with
  | some b =>
    obtain ⟨old, hold⟩ := h.live_latched hvar hlatched
    simp only [setLatched, hlatched, hold, Option.bind_eq_bind, Option.bind_some]
    split
    · exact ⟨s, rfl, h⟩
    · rename_i hne
      have hrunning : s.serverState ≠ 0 := fun hdead => hmeets ⟨hdead, b, old, hlatched, hold, hne⟩
      obtain ⟨heap, hfree, howns⟩ := h.freeLatched hvar hlatched
      rw [hfree, Option.bind_some]
      exact inv_storeLatched_running p (s := { s with heap := heap }) howns h.once hvar value hrunning
  | none =>
    obtain ⟨old, hold⟩ := h.live_string hvar
    simp only [setLatched, hlatched, hold, Option.bind_eq_bind, Option.bind_some]
    split
    · exact ⟨s, rfl, h⟩
    · by_cases hdead : s.serverState = 0
      · exact inv_storeLatched_dead p h hvar hlatched value hdead
      · have hslot : slots s (.inl (name, .latchedString)) = none :=
          (pointers_of_var hvar .latchedString).trans hlatched
        have howns : Owns s.heap (Function.update (slots s) (.inl (name, .latchedString)) none) := by
          rw [← hslot, Function.update_eq_self]
          exact h.owns
        exact inv_storeLatched_running p howns h.once hvar value hdead

/-- The forced change forgets the latched string. -/
theorem inv_forgetLatched {s : State κ} (h : Inv s) {name : List UInt8} {var : Var κ} {b : Nat}
    (hvar : s.vars name = some var) (hlatched : var.latchedString = some b) :
    ∃ heap, s.heap.free b = some heap ∧
      Inv (({ s with heap := heap } : State κ).setVar name { var with latchedString := none }) := by
  obtain ⟨heap, hfree, howns⟩ := h.freeLatched hvar hlatched
  refine ⟨heap, hfree, inv_of_owns howns ?_ ?_ h.once⟩
  · rintro ⟨other, field⟩ b hb
    rw [pointers_setVar] at hb
    split at hb
    · rename_i heq
      obtain rfl : other = name := heq
      cases field with
      | string =>
        rw [Function.update_of_ne (by simp)]
        exact (pointers_of_var hvar .string).trans hb
      | latchedString => cases hb
    · rename_i hne
      rw [Function.update_of_ne (by simpa using fun heq => absurd heq hne)]
      exact hb
  · intro b hb
    rw [Function.update_of_ne (by simp)]
    exact if_pos hb

/-- `Cvar_Set` frees a latched string and keeps its pointer. -/
def LeavesDangling (p : Program κ) (name value : List UInt8) (s : State κ) : Prop :=
  name.head? ≠ some dollar ∧ ∃ var, s.vars name = some var ∧
    (hasFlags var.flags (cvarUserinfo ||| cvarServerinfo) && !cvarInfoValidate value) = false ∧
    hasFlags var.flags cvarNoset = false ∧ hasFlags var.flags cvarLatch = true ∧
    ReplacesLatched s var (clientdirValue p name value)

/-- `Cvar_Set2` keeps the blocks owned, unless it leaves a pointer dangling. -/
theorem inv_cvarSet2 (p : Program κ) {s : State κ} (h : Inv s) (name value : List UInt8)
    (force argv : Bool) (hmeets : force = false → ¬ LeavesDangling p name value s) :
    ∃ t, cvarSet2 p name value force argv s = some t ∧ Inv t := by
  simp only [cvarSet2]
  split
  · exact ⟨s, rfl, h⟩
  rename_i hopen
  cases hvar : s.vars name with
  | none => exact ⟨_, rfl, inv_cvarGet h name (some value) 0⟩
  | some var =>
    simp only
    split
    · exact ⟨s, rfl, h⟩
    rename_i hvalid
    split
    · cases hlatched : var.latchedString with
      | none => exact inv_setString p h hvar _ _
      | some b =>
        obtain ⟨heap, hfree, hforgot⟩ := inv_forgetLatched h hvar hlatched
        simp only [hfree, Option.bind_eq_bind, Option.bind_some]
        exact inv_setString p hforgot (Function.update_self ..) _ _
    · rename_i hforce
      have hforce : force = false := Bool.eq_false_iff.mpr hforce
      split
      · exact ⟨s, rfl, h⟩
      rename_i hnoset
      split
      · rename_i hlatch
        refine inv_setLatched p h hvar fun hreplaces => hmeets hforce ⟨?_, var, hvar, ?_, ?_, hlatch,
          hreplaces⟩
        · exact fun hdollar => hopen ⟨hdollar, hforce⟩
        · exact Bool.eq_false_iff.mpr hvalid
        · exact Bool.eq_false_iff.mpr hnoset
      · exact inv_setString p h hvar _ _

/-- The pointer that is kept leads to no live block, whatever is stored after it. -/
theorem cvarSet2_dangling (p : Program κ) {s t : State κ} (h : Inv s) {name value : List UInt8}
    {argv : Bool} (hdangling : LeavesDangling p name value s)
    (hset : cvarSet2 p name value false argv s = some t) :
    ¬ StringsOwned t := by
  obtain ⟨hopen, var, hvar, hvalid, hnoset, hlatch, hdead, b, old, hlatched, hold, hne⟩ := hdangling
  obtain ⟨heap, hfree, howns⟩ := h.freeLatched hvar hlatched
  have hgone : heap.blocks b = none := by
    rw [Heap.free_eq_some hfree, Function.update_self]
  have hslot : slots s (.inl (name, .string)) = some var.string := pointers_of_var hvar .string
  obtain ⟨heap', hfree'⟩ := Heap.exists_free (h := heap) (b := var.string) (howns.live
    (.inl (name, .string)) _ (by rw [Function.update_of_ne (by simp), hslot]))
  have hstill : (heap'.alloc (clientdirValue p name value)).blocks b = none := by
    have hold' : b ≠ heap'.next := by
      have hnext : heap'.next = s.heap.next := (Heap.next_free hfree').trans (Heap.next_free hfree)
      rw [hnext]
      exact Nat.ne_of_lt (Heap.lt_next (by rw [hold]; rfl))
    rw [Heap.blocks_alloc_of_ne _ hold', Heap.free_eq_some hfree', Function.update_apply]
    split
    · rfl
    · exact hgone
  have hstored : storeLatched p name var (clientdirValue p name value) { s with heap := heap } =
      some t := by
    simpa only [cvarSet2, hopen, false_and, if_false, hvar, hvalid, Bool.false_eq_true, hnoset,
      hlatch, if_true, setLatched, hlatched, hold, Option.bind_eq_bind, Option.bind_some, hne,
      hfree] using hset
  intro hsound
  have hpointer : pointers t (name, .latchedString) = some b ∧
      t.heap = heap'.alloc (clientdirValue p name value) := by
    rw [storeLatched, if_neg (not_not.mpr hdead)] at hstored
    simp only [hfree', Option.bind_eq_bind, Option.bind_some] at hstored
    have hkept : pointers (({ s with heap := heap'.alloc (clientdirValue p name value) } :
        State κ).setVar name { var with string := heap'.next }) (name, .latchedString) = some b := by
      rw [pointers_setVar, if_pos rfl]
      exact hlatched
    split at hstored
    · rw [← Option.some.inj hstored]
      simp only [fsSetGamedir]
      split
      · exact ⟨hkept, rfl⟩
      · split
        · exact ⟨hkept, rfl⟩
        · exact ⟨hkept, rfl⟩
    · rw [← Option.some.inj hstored]
      exact ⟨hkept, rfl⟩
  have hlive := hsound.live _ _ hpointer.1
  rw [hpointer.2, hstill] at hlive
  cases hlive

theorem held_push (s : State κ) (calls : List (Call κ)) (tasks : List (Task κ)) :
    held (s.push (calls.map .call ++ tasks)).agenda = held tasks ++ held s.agenda := by
  simp only [State.push, held_append, held_calls, List.nil_append]

/-- A latched string becomes the string, and the old one is held. -/
theorem inv_latchedVars (p : Program κ) {s : State κ} (h : Inv s) (names : List (List UInt8)) :
    ∃ t, latchedVars p names s = some t ∧ Inv t := by
  cases names with
  | nil => exact ⟨s, rfl, h⟩
  | cons name names =>
    cases hvar : s.vars name with
    | none =>
      simp only [latchedVars, hvar]
      exact ⟨_, rfl, h.push_calls rfl⟩
    | some var =>
      cases hlatched : var.latchedString with
      | none =>
        simp only [latchedVars, hvar, hlatched]
        exact ⟨_, rfl, h.push_calls rfl⟩
      | some b =>
        have hnew := h.live_latched hvar hlatched
        obtain ⟨calls, hcalls⟩ := exists_changedCalls p
          (s.setVar name { var with string := b, latchedString := none }) name
          { var with string := b, latchedString := none } (h.live_string hvar) hnew
        obtain ⟨new, hnew⟩ := hnew
        have hread : (s.setVar name { var with string := b, latchedString := none }).heap.blocks b =
            some new := hnew
        simp only [latchedVars, hvar, hlatched, hread, hcalls, Option.bind_eq_bind, Option.bind_some]
        refine ⟨_, rfl, ?_⟩
        have hstring : slots s (.inl (name, .string)) = some var.string :=
          pointers_of_var hvar .string
        have hlatchedSlot : slots s (.inl (name, .latchedString)) = some b :=
          (pointers_of_var hvar .latchedString).trans hlatched
        have hwaits := h.not_held hstring
        have howns := (h.owns.move (i := .inl (name, .string)) (j := .inr var.string)
          (if_neg hwaits)).move (i := .inl (name, .latchedString)) (j := .inl (name, .string))
          (by rw [Function.update_of_ne (by simp), Function.update_self])
        rw [Function.update_of_ne (by simp), Function.update_of_ne (by simp), hstring,
          hlatchedSlot] at howns
        refine inv_of_owns howns ?_ ?_ ?_
        · rintro ⟨other, field⟩ c hc
          change pointers (s.setVar name { var with string := b, latchedString := none })
            (other, field) = some c at hc
          rw [pointers_setVar] at hc
          split at hc
          · rename_i heq
            obtain rfl : other = name := heq
            cases field with
            | string =>
              rw [Function.update_self]
              exact hc
            | latchedString => cases hc
          · rename_i hne
            have hother : ∀ field', (Sum.inl (other, field) : Slot) ≠ .inl (name, field') := by
              intro field'
              simpa using fun heq => absurd heq hne
            rw [Function.update_of_ne (hother _), Function.update_of_ne (hother _),
              Function.update_of_ne (by simp), Function.update_of_ne (hother _)]
            exact hc
        · intro c hc
          rw [Function.update_of_ne (by simp), Function.update_of_ne (by simp)]
          rw [held_push] at hc
          rcases List.mem_cons.mp hc with rfl | hc
          · rw [Function.update_self]
          · by_cases hcs : c = var.string
            · rw [hcs, Function.update_self]
            · rw [Function.update_of_ne (by simpa using hcs), Function.update_of_ne (by simp)]
              exact if_pos hc
        · rw [held_push]
          exact List.nodup_cons.mpr ⟨hwaits, h.once⟩

theorem Inv.pop {s : State κ} (h : Inv s) {task : Task κ} {agenda : List (Task κ)}
    (hagenda : s.agenda = task :: agenda) (hheld : task.held = none) :
    Inv { s with agenda } := by
  refine h.of_same rfl (fun _ => rfl) ?_
  simp only [held, hagenda, List.filterMap_cons, hheld]

/-- The old string that a task holds is freed. -/
theorem Inv.freeHeld {s : State κ} (h : Inv s) {task : Task κ} {agenda : List (Task κ)} {b : Nat}
    (hagenda : s.agenda = task :: agenda) (hheld : task.held = some b) :
    ∃ heap, s.heap.free b = some heap ∧ Inv { s with heap, agenda } := by
  have hsplit : held s.agenda = b :: held agenda := by
    simp only [held, hagenda, List.filterMap_cons, hheld]
  obtain ⟨hfirst, honce⟩ := List.nodup_cons.mp (hsplit ▸ h.once)
  have hslot : slots s (.inr b) = some b := by
    refine if_pos ?_
    rw [hsplit]
    exact List.mem_cons_self
  obtain ⟨heap, hfree⟩ := Heap.exists_free (h.owns.live _ _ hslot)
  refine ⟨heap, hfree, inv_of_owns (h.owns.free hslot hfree) ?_ ?_ honce⟩
  · intro i c hc
    rw [Function.update_of_ne (by simp)]
    exact hc
  · intro c hc
    have hne : c ≠ b := fun heq => hfirst (heq ▸ hc)
    rw [Function.update_of_ne (by simpa using hne)]
    refine if_pos ?_
    rw [hsplit]
    exact List.mem_cons_of_mem b hc

theorem inv_userinfoModified {s : State κ} (h : Inv s) (modified : Bool) :
    Inv { s with userinfoModified := modified } :=
  h.of_same rfl (fun _ => rfl) rfl

/-- The old string that was held is freed. -/
theorem inv_set2Rest {s : State κ} (h : Inv s) {name : List UInt8} {oldString : Option Nat}
    {agenda : List (Task κ)} (hagenda : s.agenda = .set2Rest name oldString :: agenda) :
    ∃ t, set2Rest name oldString { s with agenda } = some t ∧ Inv t := by
  cases oldString with
  | none =>
    have hpop := h.pop hagenda rfl
    refine ⟨_, rfl, ?_⟩
    cases s.vars name with
    | none => exact hpop
    | some var => exact inv_userinfoModified hpop _
  | some b =>
    obtain ⟨heap, hfree, hfreed⟩ := h.freeHeld hagenda rfl
    cases hvar : s.vars name with
    | none =>
      simp only [set2Rest, hvar, hfree, Option.map_some]
      exact ⟨_, rfl, hfreed⟩
    | some var =>
      simp only [set2Rest, hvar, hfree, Option.map_some]
      exact ⟨_, rfl, inv_userinfoModified hfreed _⟩

/-- The old string that was held is freed, and the flags are set. -/
theorem inv_fullSetRest {s : State κ} (h : Inv s) {name : List UInt8} {b : Nat} {flags : UInt32}
    {agenda : List (Task κ)} (hagenda : s.agenda = .fullSetRest name b flags :: agenda) :
    ∃ t, fullSetRest name b flags { s with agenda } = some t ∧ Inv t := by
  obtain ⟨heap, hfree, hfreed⟩ := h.freeHeld hagenda rfl
  simp only [fullSetRest, hfree, Option.bind_eq_bind, Option.bind_some]
  cases hvar : s.vars name with
  | none => exact ⟨_, rfl, hfreed⟩
  | some var => exact ⟨_, rfl, hfreed.setVar_same hvar rfl⟩

/-- The old string that was held is freed, whatever the callback has done. -/
theorem inv_latchedRest (p : Program κ) {s : State κ} (h : Inv s) {name : List UInt8} {b : Nat}
    {agenda : List (Task κ)} (hagenda : s.agenda = .latchedRest name b :: agenda) :
    ∃ t, latchedRest p name b { s with agenda } = some t ∧ Inv t := by
  obtain ⟨heap, hfree, hfreed⟩ := h.freeHeld hagenda rfl
  simp only [latchedRest, hfree, Option.bind_eq_bind, Option.bind_some]
  cases hvar : s.vars name with
  | none => exact ⟨_, rfl, hfreed⟩
  | some var =>
    obtain ⟨dir, hdir⟩ := hfreed.live_string hvar
    have hdir : heap.blocks var.string = some dir := hdir
    simp only [hdir, Option.bind_some]
    split
    · exact ⟨_, rfl, inv_fsSetGamedir p dir hfreed⟩
    · exact ⟨_, rfl, hfreed⟩

theorem inv_setClientdir (p : Program κ) {s : State κ} (h : Inv s) :
    ∃ t, setClientdir p s = some t ∧ Inv t := by
  cases hvar : s.vars (ascii "gamedir") with
  | none =>
    simp only [setClientdir, hvar]
    exact inv_cvarFullSet p h _ _ _
  | some var =>
    obtain ⟨gamedir, hgamedir⟩ := h.live_string hvar
    simp only [setClientdir, hvar, hgamedir, Option.bind_eq_bind, Option.bind_some]
    exact inv_cvarFullSet p h _ _ _

/-- Every call keeps the blocks of the strings owned. -/
theorem inv_performCall (p : Program κ) {s : State κ} (h : Inv s) (call : Call κ)
    (hmeets : ∀ name value argv, call = .set2 name value false argv →
      ¬ LeavesDangling p name value s) :
    ∃ t, performCall p call s = some t ∧ Inv t := by
  cases call with
  | get name value flags => exact ⟨_, rfl, inv_cvarGet h name value flags⟩
  | set2 name value force argv =>
    refine inv_cvarSet2 p h name value force argv ?_
    rintro rfl
    exact hmeets name value argv rfl
  | fullSet name value flags => exact inv_cvarFullSet p h name value flags
  | getLatchedVars => exact ⟨_, rfl, h.push_calls rfl⟩
  | setServerState state => exact ⟨_, rfl, h.of_same rfl (fun _ => rfl) rfl⟩
  | setChanged name changed =>
    cases hvar : s.vars name with
    | none =>
      simp only [performCall, hvar]
      exact ⟨s, rfl, h⟩
    | some var =>
      simp only [performCall, hvar]
      exact ⟨_, rfl, h.setVar_same hvar rfl⟩

/-- The next task is not a `Cvar_Set` that keeps a pointer to a freed string. -/
def Meets (p : Program κ) (s : State κ) : Prop :=
  ∀ name value argv agenda, s.agenda = .call (.set2 name value false argv) :: agenda →
    ¬ LeavesDangling p name value s

/-- A step that meets the condition does not fail, and keeps the blocks owned. -/
theorem inv_step (p : Program κ) {s : State κ} (h : Inv s) (hmeets : Meets p s) :
    ∃ t, step p s = some t ∧ Inv t := by
  cases hagenda : s.agenda with
  | nil =>
    simp only [step, hagenda]
    exact ⟨s, rfl, h⟩
  | cons task agenda =>
    simp only [step, hagenda]
    cases task with
    | call call =>
      refine inv_performCall p (h.pop hagenda rfl) call ?_
      rintro name value argv rfl
      exact hmeets name value argv agenda hagenda
    | setClientdir => exact inv_setClientdir p (h.pop hagenda rfl)
    | set2Rest name oldString => exact inv_set2Rest h hagenda
    | fullSetRest name oldString flags => exact inv_fullSetRest h hagenda
    | latchedVars names => exact inv_latchedVars p (h.pop hagenda rfl) names
    | latchedRest name oldString => exact inv_latchedRest p h hagenda

/-- Without variables no block is owned. -/
theorem inv_start (calls : List (Call κ)) : Inv (start calls) := by
  have hheld : held (start calls).agenda = [] := held_calls calls
  have howns : Owns (start calls).heap (fun _ : Slot => none) := owns_empty
  refine inv_of_owns howns ?_ ?_ ?_
  · intro i b hb
    exact hb
  · intro b hb
    rw [hheld] at hb
    cases hb
  · rw [hheld]
    exact List.nodup_nil

/-- While the steps meet the condition nothing fails. -/
theorem inv_steps (p : Program κ) (calls : List (Call κ)) (n : Nat)
    (hmeets : ∀ m < n, ∀ s, steps p m (start calls) = some s → Meets p s) :
    ∃ s, steps p n (start calls) = some s ∧ Inv s := by
  induction n with
  | zero => exact ⟨_, rfl, inv_start calls⟩
  | succ n ih =>
    obtain ⟨s, hs, hinv⟩ := ih fun m hm => hmeets m (by omega)
    obtain ⟨t, ht, hinv'⟩ := inv_step p hinv (hmeets n (by omega) s hs)
    exact ⟨t, by simp only [steps, hs, Option.bind_eq_bind, Option.bind_some, ht], hinv'⟩

/-- Every state that these calls lead to is free of faults and owns its strings, if and
only if no `Cvar_Set` gives a variable whose latched string is another value while no
server runs. -/
theorem stringsOwned_iff (p : Program κ) (calls : List (Call κ)) :
    (∀ n, ∃ s, steps p n (start calls) = some s ∧ StringsOwned s) ↔
      ∀ n s, steps p n (start calls) = some s → Meets p s := by
  constructor
  · intro howned n
    induction n using Nat.strong_induction_on with
    | _ n ih =>
      intro s hs name value argv agenda hagenda hdangling
      obtain ⟨s', hs', hinv⟩ := inv_steps p calls n ih
      obtain rfl : s = s' := Option.some.inj (hs.symm.trans hs')
      obtain ⟨t, ht, hstrings⟩ := howned (n + 1)
      simp only [steps, hs, Option.bind_eq_bind, Option.bind_some, step, hagenda] at ht
      exact cvarSet2_dangling p (hinv.pop hagenda rfl) hdangling ht hstrings
  · intro hmeets n
    obtain ⟨s, hs, hinv⟩ := inv_steps p calls n fun m _ => hmeets m
    exact ⟨s, hs, hinv.stringsOwned⟩

/-- A latch made while a map runs, the end of the server, and another value. -/
private def exampleCalls : List (Call Empty) :=
  [.get (ascii "maxclients") (some (ascii "4")) cvarLatch,
    .setServerState 2,
    .set2 (ascii "maxclients") (ascii "8") false true,
    .setServerState 0,
    .set2 (ascii "maxclients") (ascii "16") false true]

private def exampleProgram : Program Empty := ⟨true, fun _ _ => true, fun changed => nomatch changed⟩

/-- The latched string of the fifth state is no live block. -/
theorem latched_string_dangles :
    ¬ ∀ n, ∃ s, steps exampleProgram n (start exampleCalls) = some s ∧ StringsOwned s := by
  intro howned
  obtain ⟨s, hs, hstrings⟩ := howned 5
  have hpointer : pointers s (ascii "maxclients", .latchedString) = some 1 := by
    rw [← Option.some.inj hs]
    rfl
  have hlive := hstrings.live _ _ hpointer
  rw [← Option.some.inj hs] at hlive
  cases hlive

end Cvar
