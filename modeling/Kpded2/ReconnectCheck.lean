import Mathlib.Data.List.Sublists
import Kpded2.MessageList
import Kpded2.StepRuns

/-!
# The check of a forced reconnect

With `sv_force_reconnect` a client gets the name of a random variable and is dropped. It connects
again, and is asked for the variable before it may spawn. The state of the check are two strings and
a flag of the client's slot.
-/
namespace ReconnectCheck
open MessageList (ClientState)
open StepRuns

/-- The members of `netadr_t` that are compared here. -/
structure Netadr where
  ip : UInt32
  port : UInt16
  deriving DecidableEq

def compareAdr (a b : Netadr) : Bool := a.ip == b.ip && a.port == b.port
def compareBaseAdr (a b : Netadr) : Bool := a.ip == b.ip

/-- `NET_IsLANAddress`; the first byte of an address is the lowest. -/
def isLANAddress (a : Netadr) : Bool :=
  a.ip &&& 0xFF == 127 || a.ip &&& 0xFF == 10 || a.ip &&& 0xFFFF == 0xA8C0 ||
    a.ip &&& 0xFFFF == 0x10AC

structure Client where
  state : ClientState
  adr : Netadr
  name : List UInt8
  lastReceived : Int
  spawncount : Int
  reconnectVar : List UInt8
  reconnectValue : List UInt8
  reconnectDone : Bool

/-- After `memset`. -/
def zeroClient : Client where
  state := .free
  adr := ⟨0, 0⟩
  name := []
  lastReceived := 0
  spawncount := 0
  reconnectVar := []
  reconnectValue := []
  reconnectDone := false

/-- `demo` says that `sv.state` is `ss_demo`. -/
structure Server where
  clients : Nat → Client
  spawncount : Int
  demo : Bool

/-- `forceReconnect` says that `sv_force_reconnect` is not empty. -/
structure Env where
  maxclients : Nat
  forceReconnect : Bool

/-- What goes to a client or comes from it: the name of the variable in a `svc_stufftext`, the packet
that accepts a connection, and the first argument of a reply. -/
inductive Event
  | sent (adr : Netadr) (reconnectVar : List UInt8)
  | connected (adr : Netadr)
  | answered (adr : Netadr) (name : List UInt8)
  deriving DecidableEq

def setClient (i : Nat) (c : Client) (s : Server) : Server :=
  { s with clients := Function.update s.clients i c }

def Client.active (c : Client) : Bool :=
  decide (c.state = .connected ∨ c.state = .spawning ∨ c.state = .spawned)

/-- `SV_DropClient`. -/
def Client.drop (c : Client) : Client := { c with state := .zombie, name := [] }

/-- `SV_CleanClient`. -/
def Client.clean (c : Client) : Client := { c with state := .free }

/-- A slot that is used again. -/
def Client.release (c : Client) : Client := if c.active then c.drop.clean else c.clean

/-! ## Connecting -/

/-- A packet that has passed the checks before the search for a slot. `allowed` is the answer of
`ge->ClientConnect`. -/
structure Connect where
  adr : Netadr
  name : List UInt8
  curtime : Int
  reserved : Nat
  iplimit : Int
  allowed : Bool

/-- The slot, with the strings that are saved from it. -/
def findSlot (env : Env) (c : Connect) (s : Server) :
    Option (Nat × List UInt8 × List UInt8) :=
  match (List.range env.maxclients).find? fun i =>
      decide ((s.clients i).state ≠ .free) && compareAdr c.adr (s.clients i).adr with
  | some i => some (i, (s.clients i).reconnectVar, (s.clients i).reconnectValue)
  | none =>
    match (List.range env.maxclients).find? fun i =>
        (s.clients i).active && c.name == (s.clients i).name &&
          decide (c.curtime - (s.clients i).lastReceived > 5000) with
    | some i => some (i, [], [])
    | none =>
      ((List.range (env.maxclients - c.reserved)).find? fun i =>
        decide ((s.clients i).state = .free)).map fun i => (i, [], [])

def previousclients (env : Env) (c : Connect) (s : Server) : Nat :=
  ((List.range env.maxclients).map fun i =>
    if (s.clients i).state = .free then 0
    else if compareBaseAdr c.adr (s.clients i).adr then
      if (s.clients i).state = .zombie then 1 else 2
    else 0).sum

def newClient (savedVar savedVal : List UInt8) : Client :=
  if savedVar ≠ [] ∧ savedVal ≠ [] then
    { zeroClient with reconnectVar := savedVar, reconnectValue := savedVal }
  else zeroClient

/-- From the search for a slot on. -/
def svcDirectConnect (env : Env) (c : Connect) (s : Server) : Server × List Event :=
  match findSlot env c s with
  | none => (s, [])
  | some (i, savedVar, savedVal) =>
    let s := setClient i (s.clients i).release s
    if c.iplimit > 0 ∧ previousclients env c s ≥ c.iplimit * 2 then (s, [])
    else
      let newcl := newClient savedVar savedVal
      let reconnected := !env.forceReconnect || !savedVar.isEmpty || isLANAddress c.adr
      if reconnected && !c.allowed then (setClient i newcl s, [])
      else
        (setClient i
          { newcl with
            state := .connected, adr := c.adr, name := c.name, lastReceived := c.curtime } s,
          [.connected c.adr])

/-! ## Commands -/

/-- `junk` are the random strings, and `banned` is the result of `SV_UserInfoBanned`, which drops the
client. -/
structure New where
  junkVar : List UInt8
  junkValue : List UInt8
  banned : Bool

def svNew (env : Env) (demo : Bool) (n : New) (cl : Client) : Client × List Event :=
  if cl.state ≠ .connected then (if cl.state = .spawning then cl.drop else cl, [])
  else if demo then (cl, [])
  else
    let cl := { cl with state := .spawning }
    if n.banned then (cl.drop, [])
    else if env.forceReconnect && !cl.reconnectDone && !isLANAddress cl.adr &&
        cl.reconnectVar.isEmpty then
      ({ cl with reconnectVar := n.junkVar, reconnectValue := n.junkValue }.drop,
        [.sent cl.adr n.junkVar])
    else (cl, [])

def svClientBegin (cl : Client) : Client :=
  if cl.reconnectVar ≠ [] then cl.drop else { cl with state := .spawned }

/-- `loadsPak` says that the client has to load a file that it got. -/
def svBegin (env : Env) (s : Server) (argv1 : Int) (loadsPak : Bool) (n : New) (cl : Client) :
    Client × List Event :=
  if cl.state ≠ .spawning then (cl.drop, [])
  else if loadsPak then (cl.drop, [])
  else if argv1 ≠ s.spawncount then svNew env s.demo n { cl with state := .connected }
  else (svClientBegin { cl with spawncount := argv1 }, [])

/-- A download for another level; the others leave the check alone. -/
def svBeginDownload (env : Env) (s : Server) (n : New) (cl : Client) : Client × List Event :=
  if cl.spawncount ≠ s.spawncount then svNew env s.demo n { cl with state := .connected }
  else (cl, [])

def svCvarResult (argv1 : List UInt8) (cl : Client) : Client × List Event :=
  (if argv1 = cl.reconnectVar then
      { cl with reconnectVar := [], reconnectValue := [], reconnectDone := true }
    else cl,
    [.answered cl.adr argv1])

inductive Command
  | new (n : New)
  | begin (argv1 : Int) (loadsPak : Bool) (n : New)
  | download (n : New)
  | reply (argv1 : List UInt8)
  /-- A command that drops the client, or one of the server. -/
  | drop

def execute (env : Env) (s : Server) (cl : Client) : Command → Client × List Event
  | .new n => svNew env s.demo n cl
  | .begin argv1 loadsPak n => svBegin env s argv1 loadsPak n cl
  | .download n => svBeginDownload env s n cl
  | .reply argv1 => svCvarResult argv1 cl
  | .drop => (cl.drop, [])

inductive Op
  | connect (c : Connect)
  | command (i : Nat) (c : Command)
  /-- A zombie becomes free. -/
  | free (i : Nat)
  /-- Another level, for which the clients connect again. -/
  | level (spawncount : Int) (demo : Bool)

def step (env : Env) (s : Server) : Op → Server × List Event
  | .connect c => svcDirectConnect env c s
  | .command i c =>
    if (s.clients i).active then
      let (cl, events) := execute env s (s.clients i) c
      (setClient i cl s, events)
    else (s, [])
  | .free i =>
    if (s.clients i).state = .zombie then (setClient i (s.clients i).clean s, []) else (s, [])
  | .level spawncount demo =>
    ({ spawncount, demo
       clients := fun i =>
         if (s.clients i).state = .spawned then { s.clients i with state := .connected }
         else s.clients i }, [])

/-- `log` are the events so far. -/
structure Watched where
  server : Server
  log : List Event

def advance (env : Env) (w : Watched) (op : Op) : Watched :=
  let (server, events) := step env w.server op
  ⟨server, w.log ++ events⟩

/-- The address was sent a variable, connected, and answered the check of that variable. -/
def Checked (log : List Event) (adr : Netadr) : Prop :=
  ∃ var, var ≠ [] ∧ List.Sublist [.sent adr var, .connected adr, .answered adr var] log

/-- The clients in the game have passed the check. -/
def Sound (w : Watched) : Prop :=
  ∀ i, (w.server.clients i).state = .spawned → isLANAddress (w.server.clients i).adr = false →
    Checked w.log (w.server.clients i).adr

/-- A reply without a name does not come from a client of which no variable is expected and which has
not passed the check. -/
def Named (w : Watched) : Op → Prop
  | .command i (.reply argv1) =>
    (w.server.clients i).active = true → isLANAddress (w.server.clients i).adr = false →
      argv1 = [] → (w.server.clients i).reconnectVar = [] →
        (w.server.clients i).reconnectDone = true
  | _ => True

/-! ## What is known of a slot -/

/-- A variable in a used slot was sent, in a connection it was sent before the connection, and only
a client that has passed the check, or has a variable, goes on. -/
structure Kept (log : List Event) (c : Client) : Prop where
  sent : c.state ≠ .free → isLANAddress c.adr = false → c.reconnectVar ≠ [] →
    List.Sublist [.sent c.adr c.reconnectVar] log
  connected : c.active = true → isLANAddress c.adr = false → c.reconnectVar ≠ [] →
    List.Sublist [.sent c.adr c.reconnectVar, .connected c.adr] log
  done : c.active = true → isLANAddress c.adr = false → c.reconnectDone = true → Checked log c.adr
  spawning : c.state = .spawning → isLANAddress c.adr = false →
    c.reconnectDone = true ∨ c.reconnectVar ≠ []
  spawned : c.state = .spawned → isLANAddress c.adr = false → c.reconnectDone = true

variable {log : List Event} {c : Client} {env : Env}

theorem sublist_later {events short : List Event} (h : List.Sublist short log) :
    List.Sublist short (log ++ events) :=
  h.trans (List.sublist_append_left log events)

theorem sublist_next {short : List Event} {event : Event} (h : List.Sublist short log) :
    List.Sublist (short ++ [event]) (log ++ [event]) :=
  h.append (List.Sublist.refl [event])

theorem Checked.later {adr : Netadr} (h : Checked log adr) (events : List Event) :
    Checked (log ++ events) adr := by
  obtain ⟨var, named, order⟩ := h
  exact ⟨var, named, sublist_later order⟩

theorem Kept.later (h : Kept log c) (events : List Event) : Kept (log ++ events) c where
  sent used lan var := sublist_later (h.sent used lan var)
  connected active lan var := sublist_later (h.connected active lan var)
  done active lan done := (h.done active lan done).later events
  spawning := h.spawning
  spawned := h.spawned

theorem kept_free (h : c.state = .free) : Kept log c := by
  have idle : c.active = false := by
    simp [Client.active, h]
  constructor
  · intro used
    exact absurd h used
  · intro active
    rw [idle] at active
    cases active
  · intro active
    rw [idle] at active
    cases active
  · intro spawning
    rw [h] at spawning
    cases spawning
  · intro spawned
    rw [h] at spawned
    cases spawned

theorem used_of_active (h : c.active = true) : c.state ≠ .free := by
  rintro free
  simp [Client.active, free] at h

theorem Kept.drop (h : Kept log c) (used : c.state ≠ .free) : Kept log c.drop := by
  constructor
  · exact fun _ lan var => h.sent used lan var
  · intro active
    cases active
  · intro active
    cases active
  · intro spawning
    cases spawning
  · intro spawned
    cases spawned

/-- A client that starts again is as before, but has not been let in. -/
theorem Kept.restart (h : Kept log c) (active : c.active = true) :
    Kept log { c with state := .connected } := by
  constructor
  · exact fun _ lan var => h.sent (used_of_active active) lan var
  · exact fun _ lan var => h.connected active lan var
  · exact fun _ lan done => h.done active lan done
  · intro spawning
    cases spawning
  · intro spawned
    cases spawned

/-- `new` leaves the slot as it should be. -/
theorem svNew_kept {demo : Bool} {n : New} (force : env.forceReconnect = true) (h : Kept log c)
    (active : c.active = true) :
    Kept (log ++ (svNew env demo n c).2) (svNew env demo n c).1 := by
  simp only [svNew]
  by_cases connected : c.state = .connected
  · rw [if_neg (not_not.mpr connected)]
    cases demo with
    | true =>
      simp only [if_true]
      exact h.later []
    | false =>
      simp only [Bool.false_eq_true, if_false]
      cases n.banned with
      | true =>
        simp only [if_true]
        exact (h.drop (used_of_active active)).later []
      | false =>
        simp only [Bool.false_eq_true, if_false]
        split
        · rename_i asked
          constructor
          · intro _ _ _
            exact List.sublist_append_right log _
          · intro active
            cases active
          · intro active
            cases active
          · intro spawning
            cases spawning
          · intro spawned
            cases spawned
        · rename_i passed
          constructor
          · exact fun _ lan var => sublist_later (h.sent (used_of_active active) lan var)
          · exact fun _ lan var => sublist_later (h.connected active lan var)
          · exact fun _ lan done => (h.done active lan done).later []
          · intro _ lan
            simp only at lan
            by_contra neither
            simp only [not_or, Bool.not_eq_true, not_not] at neither
            refine passed ?_
            simp only [force, neither.1, lan, neither.2, Bool.not_false, Bool.and_self,
              List.isEmpty_nil]
          · intro spawned
            cases spawned
  · rw [if_pos connected]
    split
    · exact (h.drop (used_of_active active)).later []
    · exact h.later []

/-- `begin` leaves the slot as it should be. -/
theorem svBegin_kept {s : Server} {argv1 : Int} {loadsPak : Bool} {n : New}
    (force : env.forceReconnect = true) (h : Kept log c) (active : c.active = true) :
    Kept (log ++ (svBegin env s argv1 loadsPak n c).2) (svBegin env s argv1 loadsPak n c).1 := by
  have dropped := (h.drop (used_of_active active)).later []
  simp only [svBegin]
  split
  · exact dropped
  rename_i spawning
  rw [not_not] at spawning
  split
  · exact dropped
  split
  · exact svNew_kept force (h.restart active) rfl
  simp only [svClientBegin]
  split
  · constructor
    · exact fun _ lan var => sublist_later (h.sent (used_of_active active) lan var)
    · intro active
      cases active
    · intro active
      cases active
    · intro spawning
      cases spawning
    · intro spawned
      cases spawned
  · rename_i none
    have none : c.reconnectVar = [] := not_not.mp none
    constructor
    · exact fun _ _ var => absurd none var
    · exact fun _ _ var => absurd none var
    · exact fun _ lan done => (h.done active lan done).later []
    · intro spawning
      cases spawning
    · exact fun _ lan => (h.spawning spawning lan).resolve_right (not_not.mpr none)

theorem svCvarResult_kept {argv1 : List UInt8} (h : Kept log c) (active : c.active = true)
    (named : isLANAddress c.adr = false → argv1 = [] → c.reconnectVar = [] →
      c.reconnectDone = true) :
    Kept (log ++ (svCvarResult argv1 c).2) (svCvarResult argv1 c).1 := by
  simp only [svCvarResult]
  by_cases answer : argv1 = c.reconnectVar
  · rw [if_pos answer]
    have checked (lan : isLANAddress c.adr = false) :
        Checked (log ++ [.answered c.adr argv1]) c.adr := by
      by_cases empty : c.reconnectVar = []
      · exact (h.done active lan (named lan (answer.trans empty) empty)).later _
      · refine ⟨argv1, answer ▸ empty, ?_⟩
        rw [answer]
        exact sublist_next (h.connected active lan empty)
    constructor
    · exact fun _ _ var => absurd rfl var
    · exact fun _ _ var => absurd rfl var
    · exact fun _ lan _ => checked lan
    · exact fun _ _ => .inl rfl
    · exact fun _ _ => rfl
  · rw [if_neg answer]
    exact h.later _

theorem execute_kept {s : Server} {command : Command} (force : env.forceReconnect = true)
    (h : Kept log c) (active : c.active = true)
    (named : ∀ argv1, command = .reply argv1 → isLANAddress c.adr = false → argv1 = [] →
      c.reconnectVar = [] → c.reconnectDone = true) :
    Kept (log ++ (execute env s c command).2) (execute env s c command).1 := by
  cases command with
  | new n => exact svNew_kept force h active
  | begin argv1 loadsPak n => exact svBegin_kept force h active
  | download n =>
    simp only [execute, svBeginDownload]
    split
    · exact svNew_kept force (h.restart active) rfl
    · exact h.later []
  | reply argv1 => exact svCvarResult_kept h active (named argv1 rfl)
  | drop => exact (h.drop (used_of_active active)).later []

/-! ## Connecting -/

theorem eq_of_compareAdr {a b : Netadr} (h : compareAdr a b = true) : a = b := by
  simp only [compareAdr, Bool.and_eq_true, beq_iff_eq] at h
  cases a
  cases b
  simp only [Netadr.mk.injEq]
  exact h

theorem findSlot_saved {a : Connect} {s : Server} {i : Nat} {var val : List UInt8}
    (h : findSlot env a s = some (i, var, val)) (nonempty : var ≠ []) :
    (s.clients i).state ≠ .free ∧ a.adr = (s.clients i).adr ∧
      var = (s.clients i).reconnectVar := by
  simp only [findSlot] at h
  split at h
  · rename_i j hj
    obtain ⟨rfl, rfl, rfl⟩ : j = i ∧ (s.clients j).reconnectVar = var ∧
        (s.clients j).reconnectValue = val := by
      simpa using h
    have found := List.find?_some hj
    simp only [Bool.and_eq_true, decide_eq_true_eq] at found
    exact ⟨found.1, eq_of_compareAdr found.2, rfl⟩
  · split at h
    · simp only [Option.some.injEq, Prod.mk.injEq] at h
      exact absurd h.2.1.symm nonempty
    · obtain ⟨j, -, hj⟩ := Option.map_eq_some_iff.mp h
      simp only [Prod.mk.injEq] at hj
      exact absurd hj.2.1.symm nonempty

/-- Every slot is as it should be. -/
def Known (w : Watched) : Prop := ∀ i, Kept w.log (w.server.clients i)

theorem known_setClient {s : Server} {i : Nat} {events : List Event}
    (h : ∀ j, Kept log (s.clients j)) (new : Kept (log ++ events) c) :
    Known ⟨setClient i c s, log ++ events⟩ := by
  intro j
  by_cases same : j = i
  · subst same
    simp only [setClient, Function.update_self]
    exact new
  · simp only [setClient, Function.update_of_ne same]
    exact (h j).later events

theorem release_free (c : Client) : c.release.state = .free := by
  simp only [Client.release]
  split
  · rfl
  · rfl

theorem newClient_free (var val : List UInt8) : (newClient var val).state = .free := by
  simp only [newClient]
  split
  · rfl
  · rfl

/-- A new client leaves its slot as it should be. -/
theorem newClient_connected {a : Connect} {s : Server} {i : Nat} {var val : List UInt8}
    (h : ∀ j, Kept log (s.clients j)) (found : findSlot env a s = some (i, var, val)) :
    Kept (log ++ [.connected a.adr])
      { newClient var val with
        state := .connected, adr := a.adr, name := a.name, lastReceived := a.curtime } := by
  have undone : (newClient var val).reconnectDone = false := by
    simp only [newClient]
    split
    · rfl
    · rfl
  have order (lan : isLANAddress a.adr = false) (nonempty : (newClient var val).reconnectVar ≠ []) :
      List.Sublist [.sent a.adr (newClient var val).reconnectVar, .connected a.adr]
        (log ++ [.connected a.adr]) := by
    by_cases both : var ≠ [] ∧ val ≠ []
    · obtain ⟨used, same, saved⟩ := findSlot_saved found both.1
      have before := (h i).sent used (same ▸ lan) (saved ▸ both.1)
      rw [← same, ← saved] at before
      simp only [newClient, if_pos both]
      exact sublist_next before
    · rw [newClient, if_neg both] at nonempty
      exact absurd rfl nonempty
  constructor
  · exact fun _ lan nonempty => (List.sublist_append_left [_] [_]).trans (order lan nonempty)
  · exact fun _ lan nonempty => order lan nonempty
  · intro _ _ done
    simp only [undone] at done
    cases done
  · intro spawning
    cases spawning
  · intro spawned
    cases spawned

theorem svcDirectConnect_known {a : Connect} {s : Server} (h : ∀ j, Kept log (s.clients j)) :
    Known ⟨(svcDirectConnect env a s).1, log ++ (svcDirectConnect env a s).2⟩ := by
  simp only [svcDirectConnect]
  split
  · exact fun j => (h j).later []
  rename_i i var val found
  have released : ∀ j, Kept log ((setClient i (s.clients i).release s).clients j) := by
    have known := @known_setClient log (s.clients i).release s i [] h
      (kept_free (release_free _))
    rw [List.append_nil] at known
    exact known
  split
  · exact fun j => (released j).later []
  split
  · exact known_setClient released (kept_free (newClient_free var val))
  · exact known_setClient released (newClient_connected h found)

/-! ## Runs -/

/-- Every operation leaves the slots as they should be. -/
theorem known_step {w : Watched} {op : Op} (force : env.forceReconnect = true) (h : Known w)
    (named : Named w op) : Known (advance env w op) := by
  simp only [advance]
  cases op with
  | connect a => exact svcDirectConnect_known h
  | command i command =>
    simp only [step]
    split
    · rename_i active
      refine known_setClient h (execute_kept force (h i) active ?_)
      rintro argv1 rfl
      exact named active
    · exact fun j => (h j).later []
  | free i =>
    simp only [step]
    split
    · exact known_setClient h (kept_free rfl)
    · exact fun j => (h j).later []
  | level spawncount demo =>
    intro j
    simp only [step]
    split
    · rename_i spawned
      exact ((h j).restart (by simp [Client.active, spawned])).later []
    · exact (h j).later []

theorem sound_of_known {w : Watched} (h : Known w) : Sound w := by
  intro i spawned lan
  exact (h i).done (by simp [Client.active, spawned]) lan ((h i).spawned spawned lan)

/-- Before the first packet. -/
def start (spawncount : Int) : Watched where
  server := ⟨fun _ => zeroClient, spawncount, false⟩
  log := []

/-- Where no reply lacks a name that a client could do without, a client that spawns was sent a
variable, has connected again and has answered the check of that variable. -/
theorem spawned_checked {env : Env} (force : env.forceReconnect = true) (spawncount : Int)
    {ops : List Op} (named : AllSteps (advance env) Named (start spawncount) ops) :
    Sound (run (advance env) (start spawncount) ops) :=
  sound_of_known (invariant_run (fun _ _ known name => known_step force known name)
    (fun _ => kept_free rfl) named)

private def stranger : Connect where
  adr := ⟨0x01020304, 27901⟩
  name := [65]
  curtime := 0
  reserved := 0
  iplimit := 0
  allowed := true

private def drawn : New := ⟨[88, 89], [90], false⟩

private def oneSlot : Env := ⟨1, true⟩

/-- The whole check. -/
theorem spawned_checked_once :
    Sound (run (advance oneSlot) (start 7)
      [.connect stranger, .command 0 (.new drawn), .connect stranger, .command 0 (.new drawn),
        .command 0 (.reply [88, 89]), .command 0 (.begin 7 false drawn)]) :=
  @spawned_checked oneSlot rfl 7 _ (by
    refine ⟨trivial, trivial, trivial, trivial, ?_, trivial, trivial⟩
    intro _ _ nameless
    cases nameless)

/-- A reply without arguments, before the first `new`. -/
theorem nameless_reply_spawns :
    ¬Sound (run (advance oneSlot) (start 7)
      [.connect stranger, .command 0 (.reply []), .command 0 (.new drawn),
        .command 0 (.begin 7 false drawn)]) := by
  intro sound
  obtain ⟨var, -, order⟩ := sound 0 (by decide) (by decide)
  have log : (run (advance oneSlot) (start 7)
      [.connect stranger, .command 0 (.reply []), .command 0 (.new drawn),
        .command 0 (.begin 7 false drawn)]).log =
      [.connected stranger.adr, .answered stranger.adr []] := by
    decide
  rw [log] at order
  have sent := order.subset List.mem_cons_self
  simp at sent

end ReconnectCheck
