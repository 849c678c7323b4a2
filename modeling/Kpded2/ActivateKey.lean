import Kpded2.ClientMessage
import Kpded2.StepRuns
import Kpded2.Userinfo

/-!
# The key that is held for `+activate`

The 1999 client sets the button in its user commands only when its own process hosts the
server, so the server presses it: `+activate` and `-activate` keep two slots of held keys,
and bits 1 and 2 of `activate_state` say that a key is down and that it was pressed since
the last command was run. `SV_ClientThink` adds the button to the copy of a user command
that it hands to the game. What the key does to a client is compared with a client whose
keys are never touched.
-/
namespace ActivateKey
open ClientMessage

/-- A client and the keys that hold `+activate`; an empty slot is 0. -/
structure Player where
  client : Client
  activateKeys : Int × Int := (0, 0)

/-- The slot of a client that connects is cleared. -/
def connect (client : Client) : Player where
  client := { client with activateState := 0 }

/-- `argument` is `Cmd_Argv(1)`; without one the command was typed at the console. -/
def keyOf (argument : List UInt8) : Int := if argument = [] then -1 else Userinfo.atoi argument

def svActivateDown (argument : List UInt8) (s : Player) : Player :=
  let k := keyOf argument
  let down := { s.client with activateState := s.client.activateState ||| (1 + 2) }
  if k = s.activateKeys.1 ∨ k = s.activateKeys.2 then s
  else if s.activateKeys.1 = 0 then { client := down, activateKeys := (k, s.activateKeys.2) }
  else if s.activateKeys.2 = 0 then { client := down, activateKeys := (s.activateKeys.1, k) }
  else s

/-- `activate_state &= ~1`. -/
def Player.keyUp (s : Player) : Player :=
  { s with client := { s.client with activateState := s.client.activateState &&& 254 } }

/-- The end of `SV_ActivateUp`, after a slot was emptied. -/
def Player.releaseUnheld (s : Player) : Player :=
  if s.activateKeys.1 ≠ 0 ∨ s.activateKeys.2 ≠ 0 then s else s.keyUp

def svActivateUp (argument : List UInt8) (s : Player) : Player :=
  if argument = [] then { s with activateKeys := (0, 0) }.keyUp
  else
    let k := Userinfo.atoi argument
    if s.activateKeys.1 = k then { s with activateKeys := (0, s.activateKeys.2) }.releaseUnheld
    else if s.activateKeys.2 = k then
      { s with activateKeys := (s.activateKeys.1, 0) }.releaseUnheld
    else s

/-- What happens to a client. `move` is a `clc_move` of the message `data`, met at the place
and with the counts of `p`. `elsewhere` is the rest of the server, which has no business with
the keys. -/
inductive Op where
  | press (argument : List UInt8)
  | release (argument : List UInt8)
  | move (env : Env) (data : List UInt8) (p : Progress)
  | elsewhere (edit : Client → Client)

def Player.move (s : Player) (env : Env) (data : List UInt8) (p : Progress) : Done :=
  executeMove env data { p with client := s.client }

/-- The client as it would be had no key been pressed. -/
def untouched (client : Client) : Client := { client with activateState := 0 }

def step (s : Player) : Op → Player
  | .press argument => svActivateDown argument s
  | .release argument => svActivateUp argument s
  | .move env data p => { s with client := (s.move env data p).after.client }
  | .elsewhere edit =>
    { s with client := { edit (untouched s.client) with activateState := s.client.activateState } }

def run (s : Player) (ops : List Op) : Player := StepRuns.run step s ops

/-! ## What the key is for -/

def Held (s : Player) : Prop := s.activateKeys.1 ≠ 0 ∨ s.activateKeys.2 ≠ 0

/-- A press counts if it is no repeat and a slot is free. -/
def Accepts (s : Player) (argument : List UInt8) : Prop :=
  keyOf argument ≠ s.activateKeys.1 ∧ keyOf argument ≠ s.activateKeys.2 ∧
    (s.activateKeys.1 = 0 ∨ s.activateKeys.2 = 0)

/-- A press was accepted, and no user command was executed since. -/
def Owed (s : Player) (ops : List Op) : Prop :=
  ∃ before argument after, ops = before ++ .press argument :: after ∧
    Accepts (run s before) argument ∧
    ∀ early env data p late, after = early ++ .move env data p :: late →
      ((run s (before ++ .press argument :: early)).move env data p).actions.any
        Action.isThink = false

/-- Of the commands that are executed, the first gets the button if the key is held or a press
is owed, the others if it is held. -/
def marked (held owed : Bool) : List Action → List Action
  | [] => []
  | .think cmd :: actions =>
    .think (if held || owed then { cmd with buttons := cmd.buttons ||| buttonActivate } else cmd) ::
      marked held false actions
  | action :: actions => action :: marked held owed actions

def Op.isKey : Op → Bool
  | .press _ | .release _ => true
  | .move .. | .elsewhere _ => false

/-! ## A user command -/

def bitsOf (held owed : Bool) : UInt8 :=
  (if held then 1 else 0) ||| (if owed then 2 else 0)

def keyed (held owed : Bool) (client : Client) : Client :=
  { client with activateState := bitsOf held owed }

/-- Whether a press is still owed after `actions`. -/
def stillOwed (owed : Bool) (actions : List Action) : Bool :=
  owed && !actions.any Action.isThink

/-- The key reaches the commands that are handed over, and nothing else. -/
def Latched (f : Client → Client × List Action) : Prop :=
  ∀ held owed client, f (keyed held owed client) =
    (keyed held (stillOwed owed (f (untouched client)).2) (f (untouched client)).1,
      marked held owed (f (untouched client)).2)

theorem stillOwed_append (owed : Bool) (xs ys : List Action) :
    stillOwed owed (xs ++ ys) = stillOwed (stillOwed owed xs) ys := by
  simp only [stillOwed, List.any_append, Bool.not_or, Bool.and_assoc]

theorem marked_append (held owed : Bool) (xs ys : List Action) :
    marked held owed (xs ++ ys) = marked held owed xs ++ marked held (stillOwed owed xs) ys := by
  induction xs generalizing owed with
  | nil => simp [marked, stillOwed]
  | cons action xs ih =>
    cases action with
    | think cmd => simp [marked, ih, stillOwed, Action.isThink]
    | refuse cmd => simp [marked, ih, stillOwed, Action.isThink]
    | execute s => simp [marked, ih, stillOwed, Action.isThink]
    | userinfo s => simp [marked, ih, stillOwed, Action.isThink]
    | kick reason => simp [marked, ih, stillOwed, Action.isThink]

theorem untouched_eq (client : Client) : untouched client = keyed false false client := rfl

theorem Latched.stays {f : Client → Client × List Action} (hf : Latched f) (client : Client) :
    untouched (f (untouched client)).1 = (f (untouched client)).1 := by
  have h := congrArg Prod.fst (hf false false client)
  simp only [← untouched_eq, stillOwed, Bool.false_and] at h
  exact h.symm

theorem latched_pure : Latched fun client => (client, []) := by
  intro held owed client
  simp only [stillOwed, marked, List.any_nil, Bool.not_false, Bool.and_true]
  exact rfl

/-- Two computations one after the other; the second may look at the client. -/
theorem Latched.andThen {f : Client → Client × List Action}
    {g : Client → Client × List Action} (hf : Latched f) (hg : Latched g) :
    Latched fun client => ((g (f client).1).1, (f client).2 ++ (g (f client).1).2) := by
  intro held owed client
  have hbetween := hg held (stillOwed owed (f (untouched client)).2) (f (untouched client)).1
  rw [hf.stays client] at hbetween
  simp only [hf held owed client, hbetween, stillOwed_append, marked_append]

/-- What a command costs the client, whether it is executed or not. -/
def charge (cmd : Usercmd) (client : Client) : Client :=
  let skipped := client.patched && decide (cmd.buttons &&& 64 ≠ 0) && decide (client.inDropped ≠ 0)
  { client with
    inDropped := if skipped then client.inDropped - 1 else client.inDropped
    commandMsec := int32 (client.commandMsec - cmd.msec.toNat)
    totalMsecUsed := uint32 (client.totalMsecUsed + cmd.msec.toNat) }

def Refused (env : Env) (cmd : Usercmd) (client : Client) : Prop :=
  int32 (client.commandMsec - cmd.msec.toNat) < 0 ∧ env.enforcetime

theorem svClientThink_refused {env : Env} {cmd : Usercmd} {client : Client}
    (refused : Refused env cmd client) :
    svClientThink env client cmd = (charge cmd client, [.refuse cmd]) :=
  if_pos refused

theorem svClientThink_executed {env : Env} {cmd : Usercmd} {client : Client}
    (executed : ¬Refused env cmd client) : svClientThink env client cmd =
      ({ charge cmd client with activateState := client.activateState &&& 253 },
        [.think (pressActivate client cmd)]) :=
  if_neg executed

theorem bitsOf_latched (held owed : Bool) : bitsOf held owed &&& 253 = bitsOf held false := by
  cases held <;> cases owed <;> decide

theorem bitsOf_either (held owed : Bool) : bitsOf held owed &&& 3 ≠ 0 ↔ (held || owed) = true := by
  cases held <;> cases owed <;> decide

theorem pressActivate_keyed (held owed : Bool) (client : Client) (cmd : Usercmd) :
    pressActivate (keyed held owed client) cmd =
      if held || owed then { cmd with buttons := cmd.buttons ||| buttonActivate } else cmd := by
  simp only [pressActivate, keyed, bitsOf_either]

theorem latched_svClientThink (env : Env) (cmd : Usercmd) :
    Latched fun client => svClientThink env client cmd := by
  intro held owed client
  by_cases refused : Refused env cmd client
  · have hkeyed : Refused env cmd (keyed held owed client) := refused
    have huntouched : Refused env cmd (untouched client) := refused
    simp only [svClientThink_refused hkeyed, svClientThink_refused huntouched]
    cases held <;> cases owed <;> rfl
  · have hkeyed : ¬Refused env cmd (keyed held owed client) := refused
    have huntouched : ¬Refused env cmd (untouched client) := refused
    have hplain : pressActivate (untouched client) cmd = cmd := pressActivate_keyed false false _ cmd
    simp only [svClientThink_executed hkeyed, svClientThink_executed huntouched, hplain, marked,
      pressActivate_keyed, stillOwed, List.any_cons, Action.isThink, Bool.true_or, Bool.not_true,
      Bool.and_false]
    refine Prod.ext ?_ rfl
    simp only [keyed, bitsOf_latched]
    exact rfl

/-- One pass of the loop that repeats the last command. -/
def repeatLast (env : Env) (msec : Int) (client : Client) : Client × List Action :=
  let repeated := { client.lastcmd with msec := repeatTime msec }
  svClientThink env { client with lastcmd := repeated } repeated

theorem latched_repeatLast (env : Env) (msec : Int) :
    Latched fun client => repeatLast env msec client := by
  intro held owed client
  have h := latched_svClientThink env { client.lastcmd with msec := repeatTime msec } held owed
    { client with lastcmd := { client.lastcmd with msec := repeatTime msec } }
  exact h

theorem catchUp_done (env : Env) {msec : Int} (done : ¬msec > 0) :
    (fun client => catchUp env msec client) = fun client => (client, []) := by
  funext client
  rw [catchUp, if_neg done]

theorem catchUp_more (env : Env) {msec : Int} (more : msec > 0) :
    (fun client => catchUp env msec client) = fun client =>
      ((catchUp env (msec - (repeatTime msec).toNat) (repeatLast env msec client).1).1,
        (repeatLast env msec client).2 ++
          (catchUp env (msec - (repeatTime msec).toNat) (repeatLast env msec client).1).2) := by
  funext client
  rw [catchUp, if_pos more]
  exact rfl

theorem latched_catchUp (env : Env) (msec : Int) :
    Latched fun client => catchUp env msec client := by
  induction msec using Int.strongRec (m := 1) with
  | lt msec few =>
    have done : ¬msec > 0 := by omega
    rw [catchUp_done env done]
    exact latched_pure
  | ge msec many ih =>
    have more : msec > 0 := many
    have htime := repeatTime_toNat more
    rw [catchUp_more env more]
    exact (latched_repeatLast env msec).andThen (ih _ (by omega))

theorem latched_thinkIf (env : Env) (needed : Bool) (cmd : Usercmd) :
    Latched fun client => thinkIf env needed cmd client := by
  cases needed with
  | false => exact latched_pure
  | true => exact latched_svClientThink env cmd

theorem latched_catchUpIf (env : Env) (needed : Bool) (msec : Int) :
    Latched fun client => catchUpIf env needed msec client := by
  cases needed with
  | false => exact latched_pure
  | true => exact latched_catchUp env msec

/-! ## A move -/

/-- The commands of a move that is run, once it is settled how many packets were lost. -/
def runCommands (env : Env) (netDrop : Int) (again : Bool) (msec : Int) (move : Move)
    (client : Client) : Client × List Action :=
  let repeats := catchUpIf env again msec client
  let first := thinkIf env (netDrop > 1) move.oldest repeats.1
  let second := thinkIf env (netDrop > 0) move.oldcmd first.1
  let third := svClientThink env second.1 move.newcmd
  (third.1, repeats.2 ++ (first.2 ++ (second.2 ++ third.2)))

theorem latched_runCommands (env : Env) (netDrop : Int) (again : Bool) (msec : Int) (move : Move) :
    Latched fun client => runCommands env netDrop again msec move client := by
  have hrepeats := latched_catchUpIf env again msec
  have hfirst := latched_thinkIf env (netDrop > 1) move.oldest
  have hsecond := latched_thinkIf env (netDrop > 0) move.oldcmd
  have hthird := latched_svClientThink env move.newcmd
  exact hrepeats.andThen (hfirst.andThen (hsecond.andThen hthird))

/-- The packets that count as lost. -/
def lost (env : Env) (client : Client) : Int :=
  if env.maxNetdrop < client.dropped then env.maxNetdrop else client.dropped

/-- The move as it is limited. -/
def limited (env : Env) (client : Client) (move : Move) : Move :=
  if lost env client ≠ 0 then limitMove env move else move

def refilled (env : Env) (client : Client) : Int :=
  if env.predictOnLag ∧ lost env client > 2 then 2 else lost env client

theorem runMove_paused {env : Env} (paused : env.paused) (client : Client) (move : Move) :
    runMove env client move = (client, move, []) := if_pos paused

theorem runMove_running {env : Env} (running : ¬env.paused) (client : Client) (move : Move) :
    runMove env client move =
      ((runCommands env (refilled env client)
          (refilled env client > 2 ∧ client.initialRealTime ≠ 0)
          (repeatMsec env (refilled env client) client (limited env client move))
          (limited env client move) client).1,
        limited env client move,
        (runCommands env (refilled env client)
          (refilled env client > 2 ∧ client.initialRealTime ≠ 0)
          (repeatMsec env (refilled env client) client (limited env client move))
          (limited env client move) client).2) := by
  rw [runMove, if_neg running]
  exact rfl

/-- What a move does to the commands depends on the key only through the marks they are given. -/
theorem runMove_keyed (env : Env) (move : Move) (held owed : Bool) (client : Client) :
    runMove env (keyed held owed client) move =
      (keyed held (stillOwed owed (runMove env (untouched client) move).2.2)
          (runMove env (untouched client) move).1,
        (runMove env (untouched client) move).2.1,
        marked held owed (runMove env (untouched client) move).2.2) := by
  by_cases paused : env.paused
  · simp only [runMove_paused paused]
    exact congrArg (fun c => (c, move, [])) (congrArg Prod.fst (latched_pure held owed client))
  · have h := latched_runCommands env (refilled env client)
      (refilled env client > 2 ∧ client.initialRealTime ≠ 0)
      (repeatMsec env (refilled env client) client (limited env client move))
      (limited env client move) held owed client
    simp only [runMove_running paused]
    exact congrArg (fun ran => (ran.1, limited env client move, ran.2)) h

theorem advanceDelays_keyed (i : BitVec 32) (held owed : Bool) (client : Client) :
    advanceDelays i (keyed held owed client) = keyed held owed (advanceDelays i client) := by
  induction client using advanceDelays.induct i with
  | case1 client behind index ih =>
    have hbehind : (keyed held owed client).cmdDelayindex ≠ i := behind
    conv_lhs => rw [advanceDelays, if_pos hbehind]
    conv_rhs => rw [advanceDelays, if_pos behind]
    exact ih
  | case2 client reached =>
    have hreached : ¬(keyed held owed client).cmdDelayindex ≠ i := reached
    conv_lhs => rw [advanceDelays, if_neg hreached]
    conv_rhs => rw [advanceDelays, if_neg reached]

theorem noteDelay_keyed (env : Env) (held owed : Bool) (client : Client) (move : Move) :
    noteDelay env (keyed held owed client) move = keyed held owed (noteDelay env client move) := by
  simp only [noteDelay, advanceDelays_keyed]
  by_cases long : (BitVec.ofNat 32 env.seconds - client.cmdDelayindex).toNat ≥ 20
  · have hlong : (BitVec.ofNat 32 env.seconds -
        (keyed held owed client).cmdDelayindex).toNat ≥ 20 := long
    rw [if_pos hlong, if_pos long]
    exact rfl
  · have hlong : ¬(BitVec.ofNat 32 env.seconds -
        (keyed held owed client).cmdDelayindex).toNat ≥ 20 := long
    rw [if_neg hlong, if_neg long]
    exact rfl

theorem noteMove_keyed (env : Env) (held owed : Bool) (client : Client) (lastframe : Int)
    (move : Move) : noteMove env (keyed held owed client) lastframe move =
      keyed held owed (noteMove env client lastframe move) := by
  have hactivity : noteActivity (keyed held owed client) lastframe move =
      keyed held owed (noteActivity client lastframe move) := rfl
  simp only [noteMove, hactivity, noteDelay_keyed]
  split
  · exact rfl
  · exact rfl

/-- What is left of a pass when the key is put in. -/
def Done.keyed (held owed : Bool) (done : Done) : Done :=
  { done with
    after := { done.after with
      client := ActivateKey.keyed held (stillOwed owed done.actions) done.after.client }
    actions := marked held owed done.actions }

theorem keyed_kick (held owed : Bool) (p : Progress) (client : Client) (reason : KickReason) :
    svKickClient { p with client := keyed held owed client } reason =
      Done.keyed held owed (svKickClient { p with client := untouched client } reason) := by
  cases owed <;> exact rfl

/-- A pass that hands no command over. -/
theorem keyed_quiet (held owed : Bool) (p : Progress) (client : Client) (ends : Bool) :
    { after := { p with client := keyed held owed client }, ends } =
      Done.keyed held owed { after := { p with client := untouched client }, ends } := by
  cases owed <;> exact rfl

/-- Whether a packet's move is accepted does not depend on the key. -/
theorem acceptMove_keyed (env : Env) (p : Progress) (checksum : Int) (checked : List UInt8)
    (lastframe : Int) (move : Move) (held owed : Bool) (client : Client) :
    acceptMove env { p with client := keyed held owed client } checksum checked lastframe move =
      Done.keyed held owed
        (acceptMove env { p with client := untouched client } checksum checked lastframe move) := by
  by_cases illegal : client.state = .spawned ∧ move.newcmd.msec > 250
  · have hkeyed : ∀ held owed, acceptMove env { p with client := keyed held owed client } checksum
        checked lastframe move = svKickClient { p with client := keyed held owed client }
          .illegalMsec := fun held owed => if_pos illegal
    rw [hkeyed held owed, untouched_eq, hkeyed false false]
    exact keyed_kick held owed p client .illegalMsec
  by_cases early : client.state ≠ .spawned
  · have hkeyed : ∀ held owed, acceptMove env { p with client := keyed held owed client } checksum
        checked lastframe move =
          { after := { p with client := keyed held owed { client with lastframe := -1 } } } :=
      fun held owed => (if_neg illegal).trans (if_pos early)
    rw [hkeyed held owed, untouched_eq, hkeyed false false]
    exact keyed_quiet held owed p { client with lastframe := -1 } false
  by_cases wrong : env.checkByte checked ≠ checksum
  · have hkeyed : ∀ held owed, acceptMove env { p with client := keyed held owed client } checksum
        checked lastframe move =
          { after := { p with client := keyed held owed client }, ends := true } :=
      fun held owed => (if_neg illegal).trans ((if_neg early).trans (if_pos wrong))
    rw [hkeyed held owed, untouched_eq, hkeyed false false]
    exact keyed_quiet held owed p client true
  · have hkeyed : ∀ held owed, acceptMove env { p with client := keyed held owed client } checksum
        checked lastframe move =
          let ran := runMove env (noteMove env (keyed held owed client) lastframe move) move
          { after := { p with client := { ran.1 with lastcmd := ran.2.1.newcmd } }
            actions := ran.2.2 } :=
      fun held owed => (if_neg illegal).trans ((if_neg early).trans (if_neg wrong))
    have hplain : noteMove env (untouched client) lastframe move =
        untouched (noteMove env client lastframe move) := noteMove_keyed env false false _ _ _
    rw [hkeyed held owed, untouched_eq, hkeyed false false, ← untouched_eq, hplain]
    simp only [noteMove_keyed, runMove_keyed]
    exact rfl

/-- The client after the frame it acknowledges was read. -/
def countNodelta (lastframe : Int) (client : Client) : Client :=
  { client with
    nodeltaframes := if lastframe = -1 ∧ client.lastframe = -1 then client.nodeltaframes + 1 else 0 }

/-- What is done with the commands of a move, or without them. -/
def takeMove (env : Env) (data : List UInt8) (q : Progress) (checksumIndex : Nat)
    (checksum lastframe : Int) : Except (KickReason × Nat) (Move × Nat) → Done
  | .error (reason, readcount) => svKickClient { q with readcount } reason
  | .ok (move, readcount) =>
    acceptMove env { q with readcount } checksum ((data.take readcount).drop (checksumIndex + 1))
      lastframe move

theorem executeMove_first (env : Env) (data : List UInt8) {p : Progress} (first : ¬p.moveIssued) :
    executeMove env data p =
      let checksum := msgReadByte data p.readcount
      let lastframe := msgReadLong data checksum.2
      let client := countNodelta lastframe.1 p.client
      let q := { p with client, moveIssued := true, readcount := lastframe.2 }
      if (lastframe.1 = -1 ∧ p.client.lastframe = -1) ∧ client.nodeltaframes ≥ 100 ∧
          ¬env.allownodelta then svKickClient q .nodelta
      else takeMove env data q p.readcount checksum.1 lastframe.1 (readMove data lastframe.2) := by
  rw [executeMove, if_neg first]
  exact rfl

theorem takeMove_keyed (env : Env) (data : List UInt8) (q : Progress) (checksumIndex : Nat)
    (checksum lastframe : Int) (read : Except (KickReason × Nat) (Move × Nat)) (held owed : Bool)
    (client : Client) :
    takeMove env data { q with client := keyed held owed client } checksumIndex checksum lastframe
        read =
      Done.keyed held owed
        (takeMove env data { q with client := untouched client } checksumIndex checksum lastframe
          read) := by
  cases read with
  | error kick => exact keyed_kick held owed { q with readcount := kick.2 } client kick.1
  | ok read => exact acceptMove_keyed env { q with readcount := read.2 } _ _ _ _ held owed client

/-- How a move is read does not depend on the key. -/
theorem executeMove_keyed (env : Env) (data : List UInt8) (p : Progress) (held owed : Bool)
    (client : Client) :
    executeMove env data { p with client := keyed held owed client } =
      Done.keyed held owed (executeMove env data { p with client := untouched client }) := by
  by_cases second : p.moveIssued
  · have hkeyed : ∀ held owed, executeMove env data { p with client := keyed held owed client } =
        svKickClient { p with client := keyed held owed client } .secondMove :=
      fun held owed => if_pos second
    rw [hkeyed held owed, untouched_eq, hkeyed false false]
    exact keyed_kick held owed p client .secondMove
  have first : ∀ client, ¬({ p with client } : Progress).moveIssued := fun _ => second
  let checksum := msgReadByte data p.readcount
  let lastframe := msgReadLong data checksum.2
  let counted := countNodelta lastframe.1 client
  let q := { p with moveIssued := true, readcount := lastframe.2 }
  by_cases many : (lastframe.1 = -1 ∧ client.lastframe = -1) ∧ counted.nodeltaframes ≥ 100 ∧
      ¬env.allownodelta
  · have hkeyed : ∀ held owed, executeMove env data { p with client := keyed held owed client } =
        svKickClient { q with client := keyed held owed counted } .nodelta :=
      fun held owed => (executeMove_first env data (first _)).trans (if_pos many)
    rw [hkeyed held owed, untouched_eq, hkeyed false false]
    exact keyed_kick held owed q counted .nodelta
  · have hkeyed : ∀ held owed, executeMove env data { p with client := keyed held owed client } =
        takeMove env data { q with client := keyed held owed counted } p.readcount checksum.1
          lastframe.1 (readMove data lastframe.2) :=
      fun held owed => (executeMove_first env data (first _)).trans (if_neg many)
    rw [hkeyed held owed, untouched_eq, hkeyed false false]
    exact takeMove_keyed env data q p.readcount checksum.1 lastframe.1 _ held owed counted

/-! ## The keys -/

theorem bitsOf_down (held owed : Bool) : bitsOf held owed ||| (1 + 2) = bitsOf true true := by
  cases held <;> cases owed <;> decide

theorem bitsOf_up (held owed : Bool) : bitsOf held owed &&& 254 = bitsOf false owed := by
  cases held <;> cases owed <;> decide

theorem bitsOf_held (held owed : Bool) : bitsOf held owed &&& 1 ≠ 0 ↔ held = true := by
  cases held <;> cases owed <;> decide

/-- The bits say whether a key is held and a press is owed. -/
structure Follows (owes : Prop) (held owed : Bool) (s : Player) : Prop where
  bits : s.client.activateState = bitsOf held owed
  keys : held = true ↔ Held s
  press : owed = true ↔ owes

theorem svActivateDown_refused {argument : List UInt8} {s : Player}
    (refused : ¬Accepts s argument) : svActivateDown argument s = s := by
  simp only [Accepts, not_and_or, not_or, not_not] at refused
  simp only [svActivateDown]
  rcases refused with first | second | full
  · rw [if_pos (.inl first)]
  · rw [if_pos (.inr second)]
  · rw [if_neg full.1, if_neg full.2, ite_self]

theorem svActivateDown_accepted {argument : List UInt8} {s : Player}
    (accepted : Accepts s argument) :
    (svActivateDown argument s).client =
        { s.client with activateState := s.client.activateState ||| (1 + 2) } ∧
      Held (svActivateDown argument s) := by
  obtain ⟨first, second, free⟩ := accepted
  have fresh : ¬(keyOf argument = s.activateKeys.1 ∨ keyOf argument = s.activateKeys.2) :=
    not_or.mpr ⟨first, second⟩
  have nonzero : keyOf argument ≠ 0 := by
    rcases free with free | free
    · rwa [free] at first
    · rwa [free] at second
  simp only [svActivateDown, if_neg fresh]
  split
  · exact ⟨rfl, .inl nonzero⟩
  · next taken =>
    rw [if_pos (free.resolve_left taken)]
    exact ⟨rfl, .inr nonzero⟩

theorem follows_down {owes : Prop} {held owed : Bool} {s : Player} (h : Follows owes held owed s)
    (argument : List UInt8) :
    ∃ held owed, Follows (Accepts s argument ∨ owes) held owed (svActivateDown argument s) := by
  by_cases accepted : Accepts s argument
  · obtain ⟨hclient, hheld⟩ := svActivateDown_accepted accepted
    refine ⟨true, true, ?_, ?_, ?_⟩
    · rw [hclient]
      exact (congrArg (· ||| (1 + 2)) h.bits).trans (bitsOf_down held owed)
    · exact iff_of_true rfl hheld
    · exact iff_of_true rfl (.inl accepted)
  · rw [svActivateDown_refused accepted]
    refine ⟨held, owed, h.bits, h.keys, ?_⟩
    rw [h.press, or_iff_right accepted]

theorem follows_keyUp {owes : Prop} {held owed : Bool} {s : Player} {keys : Int × Int}
    (h : Follows owes held owed s) (unheld : keys = (0, 0)) :
    Follows owes false owed { s with activateKeys := keys }.keyUp := by
  subst unheld
  refine ⟨?_, ?_, h.press⟩
  · exact (congrArg (· &&& 254) h.bits).trans (bitsOf_up held owed)
  · simp [Held, Player.keyUp]

/-- A slot is emptied that a key held, or that was empty. -/
theorem follows_releaseUnheld {owes : Prop} {held owed : Bool} {s : Player} {keys : Int × Int}
    (h : Follows owes held owed s) (fewer : keys.1 ≠ 0 ∨ keys.2 ≠ 0 → Held s) :
    ∃ held owed, Follows owes held owed { s with activateKeys := keys }.releaseUnheld := by
  by_cases still : keys.1 ≠ 0 ∨ keys.2 ≠ 0
  · have hstays : { s with activateKeys := keys }.releaseUnheld = { s with activateKeys := keys } :=
      if_pos still
    rw [hstays]
    refine ⟨held, owed, h.bits, ?_, h.press⟩
    exact iff_of_true (h.keys.mpr (fewer still)) still
  · have hup : { s with activateKeys := keys }.releaseUnheld =
        { s with activateKeys := keys }.keyUp := if_neg still
    rw [hup]
    rw [not_or, not_not, not_not] at still
    exact ⟨false, owed, follows_keyUp h (Prod.ext still.1 still.2)⟩

theorem follows_up {owes : Prop} {held owed : Bool} {s : Player} (h : Follows owes held owed s)
    (argument : List UInt8) :
    ∃ held owed, Follows owes held owed (svActivateUp argument s) := by
  simp only [svActivateUp]
  split
  · exact ⟨false, owed, follows_keyUp h rfl⟩
  split
  · refine follows_releaseUnheld h ?_
    rintro (first | second)
    · exact absurd rfl first
    · exact .inr second
  split
  · refine follows_releaseUnheld h ?_
    rintro (first | second)
    · exact .inl first
    · exact absurd rfl second
  · exact ⟨held, owed, h⟩

/-! ## A run -/

def Quiet (s : Player) (op : Op) : Prop :=
  ∀ env data p, op = .move env data p → (s.move env data p).actions.any Action.isThink = false

/-- What is owed after one more event. -/
theorem owed_concat (s : Player) (ops : List Op) (op : Op) :
    Owed s (ops ++ [op]) ↔
      (∃ argument, op = .press argument ∧ Accepts (run s ops) argument) ∨
        Owed s ops ∧ Quiet (run s ops) op := by
  constructor
  · rintro ⟨before, argument, after, hops, haccepts, hquiet⟩
    rcases List.eq_nil_or_concat after with rfl | ⟨late, x, rfl⟩
    · obtain ⟨rfl, hop⟩ := List.append_inj' hops rfl
      exact .inl ⟨argument, List.head_eq_of_cons_eq hop, haccepts⟩
    · have hsplit : ops ++ [op] = (before ++ .press argument :: late) ++ [x] := by
        rw [hops, List.concat_eq_append, List.append_assoc, List.cons_append]
      obtain ⟨rfl, hop⟩ := List.append_inj' hsplit rfl
      have hop : op = x := List.head_eq_of_cons_eq hop
      refine .inr ⟨⟨before, argument, late, rfl, haccepts, ?_⟩, ?_⟩
      · intro early env data p rest hlate
        exact hquiet early env data p (rest ++ [x]) (by simp [hlate])
      · intro env data p hmove
        exact hquiet late env data p [] (by simp [← hmove, hop])
  · rintro (⟨argument, rfl, haccepts⟩ | ⟨⟨before, argument, after, rfl, haccepts, hquiet⟩, hop⟩)
    · exact ⟨ops, argument, [], rfl, haccepts, fun early _ _ _ late h => by simp at h⟩
    · refine ⟨before, argument, after ++ [op], by simp, haccepts, ?_⟩
      intro early env data p late hafter
      rcases List.eq_nil_or_concat late with rfl | ⟨rest, x, rfl⟩
      · obtain ⟨rfl, hlast⟩ := List.append_inj' hafter rfl
        exact hop env data p (List.head_eq_of_cons_eq hlast)
      · have hsplit : after ++ [op] = (early ++ .move env data p :: rest) ++ [x] := by
          rw [hafter, List.concat_eq_append, List.append_assoc, List.cons_append]
        exact hquiet early env data p rest (List.append_inj' hsplit rfl).1

theorem Follows.client_eq {owes : Prop} {held owed : Bool} {s : Player}
    (h : Follows owes held owed s) : s.client = keyed held owed s.client := by
  rw [keyed, ← h.bits]

theorem Follows.move_eq {owes : Prop} {held owed : Bool} {s : Player}
    (h : Follows owes held owed s) (env : Env) (data : List UInt8) (p : Progress) :
    s.move env data p =
      Done.keyed held owed ({ s with client := untouched s.client }.move env data p) := by
  simp only [Player.move]
  conv_lhs => rw [h.client_eq]
  exact executeMove_keyed env data p held owed s.client

theorem marked_any (held owed : Bool) (actions : List Action) :
    (marked held owed actions).any Action.isThink = actions.any Action.isThink := by
  induction actions generalizing owed with
  | nil => exact rfl
  | cons action actions ih =>
    cases action with
    | think cmd => simp only [marked, List.any_cons, Action.isThink, Bool.true_or]
    | refuse cmd => simp only [marked, List.any_cons, ih]
    | execute s => simp only [marked, List.any_cons, ih]
    | userinfo s => simp only [marked, List.any_cons, ih]
    | kick reason => simp only [marked, List.any_cons, ih]

theorem Follows.quiet_iff {owes : Prop} {held owed : Bool} {s : Player}
    (h : Follows owes held owed s) (env : Env) (data : List UInt8) (p : Progress) :
    Quiet s (.move env data p) ↔
      ({ s with client := untouched s.client }.move env data p).actions.any Action.isThink =
        false := by
  have hany : (s.move env data p).actions.any Action.isThink =
      ({ s with client := untouched s.client }.move env data p).actions.any Action.isThink := by
    rw [h.move_eq env data p]
    exact marked_any held owed _
  rw [← hany]
  constructor
  · intro quiet
    exact quiet env data p rfl
  · rintro quiet _ _ _ ⟨⟩
    exact quiet

theorem quiet_of_not_move {s : Player} {op : Op} (other : ∀ env data p, op ≠ .move env data p) :
    Quiet s op := fun env data p h => absurd h (other env data p)

/-- After every run the state is the one without the key, with what is held and owed put in. -/
theorem follows_run (client : Client) (ops : List Op) :
    ∃ held owed, Follows (Owed (connect client) ops) held owed (run (connect client) ops) := by
  induction ops using List.reverseRecOn with
  | nil =>
    refine ⟨false, false, rfl, ?_, ?_⟩
    · simp [Held, run, connect]
    · simp [Owed]
  | append_singleton ops op ih =>
    obtain ⟨held, owed, h⟩ := ih
    have hrun : run (connect client) (ops ++ [op]) = step (run (connect client) ops) op :=
      StepRuns.run_concat step _ ops op
    rw [hrun, owed_concat]
    cases op with
    | press argument =>
      have hquiet : Quiet (run (connect client) ops) (.press argument) := quiet_of_not_move (by simp)
      simpa only [Op.press.injEq, exists_eq_left', hquiet, and_true, step]
        using follows_down h argument
    | release argument =>
      have hquiet : Quiet (run (connect client) ops) (.release argument) :=
        quiet_of_not_move (by simp)
      simpa only [reduceCtorEq, false_and, exists_false, false_or, hquiet, and_true,
        step] using follows_up h argument
    | move env data p =>
      have hafter := h.move_eq env data p
      refine ⟨held, stillOwed owed
        ({ run (connect client) ops with
          client := untouched (run (connect client) ops).client }.move env data p).actions, ?_⟩
      refine ⟨congrArg (fun done => done.after.client.activateState) hafter, h.keys, ?_⟩
      rw [h.quiet_iff env data p, ← h.press, stillOwed, Bool.and_eq_true, Bool.not_eq_true']
      simp only [reduceCtorEq, false_and, exists_false, false_or]
    | elsewhere edit =>
      have hquiet : Quiet (run (connect client) ops) (.elsewhere edit) :=
        quiet_of_not_move (by simp)
      refine ⟨held, owed, h.bits, h.keys, ?_⟩
      simp only [reduceCtorEq, false_and, exists_false, false_or, hquiet, and_true, h.press]

theorem executeMove_untouched (env : Env) (data : List UInt8) (p : Progress) (client : Client) :
    untouched (executeMove env data { p with client := untouched client }).after.client =
      (executeMove env data { p with client := untouched client }).after.client := by
  have h := congrArg (fun done => done.after.client) (executeMove_keyed env data p false false client)
  have hplain : ∀ done : Done, (Done.keyed false false done).after.client =
      untouched done.after.client := by
    intro done
    simp only [Done.keyed, stillOwed, Bool.false_and, untouched_eq]
  rw [hplain, ← untouched_eq] at h
  exact h.symm

/-- What a step does to the rest of the client does not depend on the keys. -/
theorem untouched_step {owes : Prop} {held owed : Bool} {s t : Player} {op : Op}
    (h : Follows owes held owed s) (same : t.client = untouched s.client) (plain : ¬op.isKey) :
    (step t op).client = untouched (step s op).client := by
  cases op with
  | press argument => exact absurd rfl plain
  | release argument => exact absurd rfl plain
  | move env data p =>
    have hplain : (step t (.move env data p)).client =
        (executeMove env data { p with client := untouched s.client }).after.client := by
      simp only [step, Player.move, same]
    have hkeyed : (step s (.move env data p)).client = keyed held
        (stillOwed owed (executeMove env data { p with client := untouched s.client }).actions)
        (executeMove env data { p with client := untouched s.client }).after.client :=
      congrArg (fun done => done.after.client) (h.move_eq env data p)
    rw [hplain, hkeyed]
    exact (executeMove_untouched env data p s.client).symm
  | elsewhere edit =>
    simp only [step, same]
    exact rfl

/-- The key changes nothing but what is held and owed. -/
theorem untouched_key {s : Player} {op : Op} (key : op.isKey) :
    untouched (step s op).client = untouched s.client := by
  cases op with
  | press argument =>
    simp only [step, svActivateDown]
    split
    · exact rfl
    split
    · exact rfl
    split
    · exact rfl
    · exact rfl
  | release argument =>
    simp only [step, svActivateUp, Player.releaseUnheld]
    split
    · exact rfl
    split
    · split
      · exact rfl
      · exact rfl
    split
    · split
      · exact rfl
      · exact rfl
    · exact rfl
  | move env data p => exact absurd key Bool.false_ne_true
  | elsewhere edit => exact absurd key Bool.false_ne_true

/-- But for the key, the run is that of the same events without those of the key. -/
theorem untouched_run (client : Client) (ops : List Op) :
    untouched (run (connect client) ops).client =
      (run (connect client) (ops.filter fun op => !op.isKey)).client := by
  induction ops using List.reverseRecOn with
  | nil => exact rfl
  | append_singleton ops op ih =>
    have hrun : run (connect client) (ops ++ [op]) = step (run (connect client) ops) op :=
      StepRuns.run_concat step _ ops op
    obtain ⟨held, owed, h⟩ := follows_run client ops
    rw [hrun, List.filter_append]
    by_cases key : op.isKey
    · simp only [List.filter_singleton, key, Bool.not_true, cond_false, List.append_nil]
      rw [untouched_key key, ih]
    · have hlast : [op].filter (fun op => !op.isKey) = [op] := by simp [key]
      have hconcat : run (connect client) ((ops.filter fun op => !op.isKey) ++ [op]) =
          step (run (connect client) (ops.filter fun op => !op.isKey)) op :=
        StepRuns.run_concat step _ _ op
      rw [hlast, hconcat]
      exact (untouched_step h ih.symm key).symm

/-- `bit 1 of activate_state` is set while a key is held; of the commands that are executed the
next one after a press gets the button, and each while a key is held; and the client is otherwise
what it is without the presses and releases. -/
theorem activate_latched (client : Client) (ops : List Op) :
    let s := run (connect client) ops
    (s.client.activateState &&& 1 ≠ 0 ↔ Held s) ∧
    (∀ env data p, ∃ held owed : Bool,
      (held = true ↔ Held s) ∧ (owed = true ↔ Owed (connect client) ops) ∧
      (s.move env data p).actions =
        marked held owed ({ s with client := untouched s.client }.move env data p).actions) ∧
    untouched s.client =
      (run (connect client) (ops.filter fun op => !op.isKey)).client := by
  obtain ⟨held, owed, h⟩ := follows_run client ops
  refine ⟨?_, ?_, ?_⟩
  · rw [h.bits, bitsOf_held, h.keys]
  · intro env data p
    exact ⟨held, owed, h.keys, h.press, congrArg Done.actions (h.move_eq env data p)⟩
  · exact untouched_run client ops

end ActivateKey
