import Mathlib.Algebra.Order.Ring.Int
import Mathlib.Logic.Function.Basic
import Mathlib.Tactic.NormNum
import Kpded2.MessageList

/-!
# The messages of a client

`SV_ExecuteClientMessage` of the Kingpin build. The readers return -1 at the end of the
message and count on, so a command is known to be complete only when `readcount` is not
past the end. What is measured of the connection for display (quality, ping, latency) is
left out: nothing here depends on it.
-/
namespace ClientMessage
open MessageList (ClientState)

/-! ## Reading -/

/-- `readcount` is the state. -/
abbrev Read (α : Type) := StateM Nat α

def int8 (b : UInt8) : Int := (b.toNat : Int).bmod (2 ^ 8)

def msgReadByte (data : List UInt8) : Read Int := fun readcount =>
  (match data[readcount]? with
    | some b => b.toNat
    | none => -1, readcount + 1)

/-- The bytes at `readcount`, if there are so many. -/
def bytesAt (data : List UInt8) (readcount count : Nat) : Option (List UInt8) :=
  if readcount + count > data.length then none else some ((data.drop readcount).take count)

/-- Least significant first. -/
def littleEndian : List UInt8 → Nat
  | [] => 0
  | b :: bytes => b.toNat + 2 ^ 8 * littleEndian bytes

def msgReadShort (data : List UInt8) : Read Int := fun readcount =>
  (match bytesAt data readcount 2 with
    | some bytes => (littleEndian bytes : Int).bmod (2 ^ 16)
    | none => -1, readcount + 2)

def msgReadLong (data : List UInt8) : Read Int := fun readcount =>
  (match bytesAt data readcount 4 with
    | some bytes => (littleEndian bytes : Int).bmod (2 ^ 32)
    | none => -1, readcount + 4)

/-- At most so many more characters; a byte 255 reads as the end of the message does. -/
def readChars (data : List UInt8) : Nat → Nat → List UInt8 × Nat
  | 0, readcount => ([], readcount)
  | room + 1, readcount =>
    match data[readcount]? with
    | none => ([], readcount + 1)
    | some b =>
      if int8 b = -1 ∨ b = 0 then ([], readcount + 1)
      else
        let (s, readcount) := readChars data room (readcount + 1)
        (b :: s, readcount)

def msgReadString (data : List UInt8) : Read (List UInt8) := fun readcount =>
  readChars data 2047 readcount

structure Usercmd where
  msec : UInt8 := 0
  buttons : UInt8 := 0
  angle1 : Int := 0
  angle2 : Int := 0
  angle3 : Int := 0
  forwardmove : Int := 0
  sidemove : Int := 0
  upmove : Int := 0
  impulse : UInt8 := 0
  lightlevel : UInt8 := 0
  deriving DecidableEq

def nullUsercmd : Usercmd := {}

def toByte (c : Int) : UInt8 := UInt8.ofNat (c % 2 ^ 8).toNat

/-- Bit `k` of what a reader returned, -1 having all. -/
def flag (bits : Int) (k : Nat) : Bool := decide (bits / 2 ^ k % 2 = 1)

def readIf {α : Type} (set : Bool) (read : Read α) (old : α) : Read α :=
  if set then read else pure old

def readByteIf (data : List UInt8) (set : Bool) (old : UInt8) : Read UInt8 :=
  readIf set (toByte <$> msgReadByte data) old

def msgReadDeltaUsercmd (data : List UInt8) (base : Usercmd) : Read Usercmd := do
  let bits ← msgReadByte data
  let angle1 ← readIf (flag bits 0) (msgReadShort data) base.angle1
  let angle2 ← readIf (flag bits 1) (msgReadShort data) base.angle2
  let angle3 ← readIf (flag bits 2) (msgReadShort data) base.angle3
  let forwardmove ← readIf (flag bits 3) (msgReadShort data) base.forwardmove
  let sidemove ← readIf (flag bits 4) (msgReadShort data) base.sidemove
  let upmove ← readIf (flag bits 5) (msgReadShort data) base.upmove
  let buttons ← readByteIf data (flag bits 6) base.buttons
  let impulse ← readByteIf data (flag bits 7) base.impulse
  let msec ← msgReadByte data
  let lightlevel ← msgReadByte data
  pure { msec := toByte msec, buttons, angle1, angle2, angle3, forwardmove, sidemove, upmove,
         impulse, lightlevel := toByte lightlevel }

/-! ## Moving -/

/-- `dropped` and `inDropped` belong to the channel, `levelSpawncount` is `svs.spawncount`. -/
structure Client where
  state : ClientState
  spawncount : Int := 0
  levelSpawncount : Int := 0
  userinfo : List UInt8 := []
  lastframe : Int := -1
  nodeltaframes : Nat := 0
  lastcmd : Usercmd := nullUsercmd
  commandMsec : Int := 0
  totalMsecUsed : Nat := 0
  initialRealTime : Nat := 0
  patched : Bool := false
  activateState : UInt8 := 0
  moved : Bool := false
  idletime : Nat := 0
  cmdDelayindex : BitVec 32 := 0
  cmdDelays : Nat → Int := fun _ => 0
  dropped : Nat := 0
  inDropped : Nat := 0
  countacks : Bool := false

/-- What else `SV_ExecuteClientMessage` sees and calls. `checkByte` is
`COM_BlockSequenceCheckByte` for the client's packet. -/
structure Env where
  curtime : Nat
  seconds : Nat := 0
  enforcetime : Bool := false
  paused : Bool := false
  predictOnLag : Bool := false
  allownodelta : Bool := false
  maxNetdrop : Int := 0
  checkByte : List UInt8 → Int
  executeUserCommand : List UInt8 → Client → Client
  userinfoChanged : Client → Client

inductive KickReason where
  | badRead
  | secondMove
  | nodelta
  | oldest
  | oldcmd
  | newcmd
  | illegalMsec
  | unknownCommand (c : Int)
  deriving DecidableEq

/-- What is done with a command; `refuse` stands for one there is no time left for. -/
inductive Action where
  | think (cmd : Usercmd)
  | refuse (cmd : Usercmd)
  | execute (s : List UInt8)
  | userinfo (s : List UInt8)
  | kick (reason : KickReason)
  deriving DecidableEq

def buttonActivate : UInt8 := 4

/-- The copy that is handed to the game while the key is held. -/
def pressActivate (client : Client) (cmd : Usercmd) : Usercmd :=
  if client.activateState &&& 3 ≠ 0 then { cmd with buttons := cmd.buttons ||| buttonActivate }
  else cmd

def int32 (c : Int) : Int := c.bmod (2 ^ 32)
def uint32 (c : Int) : Nat := (c % 2 ^ 32).toNat

def svClientThink (env : Env) (client : Client) (cmd : Usercmd) : Client × List Action :=
  let skipped := client.patched && decide (cmd.buttons &&& 64 ≠ 0) && decide (client.inDropped ≠ 0)
  let handed := pressActivate client cmd
  let client :=
    { client with
      inDropped := if skipped then client.inDropped - 1 else client.inDropped
      commandMsec := int32 (client.commandMsec - cmd.msec.toNat)
      totalMsecUsed := uint32 (client.totalMsecUsed + cmd.msec.toNat) }
  if client.commandMsec < 0 ∧ env.enforcetime then (client, [.refuse cmd])
  else ({ client with activateState := client.activateState &&& 253 }, [.think handed])

/-- The time one pass of `while (msec > 0)` takes. -/
def repeatTime (msec : Int) : UInt8 := toByte (if msec < 100 then msec else 100)

theorem repeatTime_toNat {msec : Int} (more : 0 < msec) :
    ((repeatTime msec).toNat : Int) = min msec 100 := by
  simp only [repeatTime, toByte, UInt8.toNat_ofNat']
  split <;> omega

/-- `while (msec > 0)`: the last command is repeated. -/
def catchUp (env : Env) (msec : Int) (client : Client) : Client × List Action :=
  if msec > 0 then
    let repeated := { client.lastcmd with msec := repeatTime msec }
    let (client, actions) := svClientThink env { client with lastcmd := repeated } repeated
    let (client, rest) := catchUp env (msec - (repeatTime msec).toNat) client
    (client, actions ++ rest)
  else (client, [])
termination_by msec.toNat
decreasing_by
  rename_i more
  have := repeatTime_toNat more
  omega

structure Move where
  oldest : Usercmd
  oldcmd : Usercmd
  newcmd : Usercmd

def atMost (msec limit : UInt8) : UInt8 := if msec > limit then limit else msec

/-- With `sv_predict_on_lag` the time they can catch up for is limited. -/
def limitMove (env : Env) (move : Move) : Move :=
  if env.predictOnLag then
    { oldest := { move.oldest with msec := atMost move.oldest.msec 25 }
      oldcmd := { move.oldcmd with msec := atMost move.oldcmd.msec 25 }
      newcmd := { move.newcmd with msec := atMost move.newcmd.msec 75 } }
  else move

/-- For how long the last command is repeated. -/
def repeatMsec (env : Env) (netDrop : Int) (client : Client) (move : Move) : Int :=
  let wanted := (int32 ((netDrop - 2) * (client.lastcmd.msec.toNat + move.oldest.msec.toNat))).tdiv 2
  let gap := int32 (env.curtime - client.initialRealTime - client.totalMsecUsed -
    move.newcmd.msec.toNat - move.oldcmd.msec.toNat - move.oldest.msec.toNat)
  if wanted > gap then gap else wanted

def thinkIf (env : Env) (needed : Bool) (cmd : Usercmd) (client : Client) :
    Client × List Action :=
  if needed then svClientThink env client cmd else (client, [])

def catchUpIf (env : Env) (needed : Bool) (msec : Int) (client : Client) : Client × List Action :=
  if needed then catchUp env msec client else (client, [])

/-- The commands of a move, after those that were lost; also the move as it was limited. -/
def runMove (env : Env) (client : Client) (move : Move) : Client × Move × List Action :=
  if env.paused then (client, move, [])
  else
    let netDrop := if env.maxNetdrop < client.dropped then env.maxNetdrop else (client.dropped : Int)
    let move := if netDrop ≠ 0 then limitMove env move else move
    let netDrop := if env.predictOnLag ∧ netDrop > 2 then 2 else netDrop
    let (client, repeats) := catchUpIf env (netDrop > 2 ∧ client.initialRealTime ≠ 0)
      (repeatMsec env netDrop client move) client
    let (client, first) := thinkIf env (netDrop > 1) move.oldest client
    let (client, second) := thinkIf env (netDrop > 0) move.oldcmd client
    let (client, third) := svClientThink env client move.newcmd
    (client, move, repeats ++ (first ++ (second ++ third)))

/-! ## The loop over the commands -/

/-- `while (cl->cmd_delayindex != i)`. -/
def advanceDelays (i : BitVec 32) (client : Client) : Client :=
  if client.cmdDelayindex ≠ i then
    let index := client.cmdDelayindex + 1
    advanceDelays i
      { client with
        cmdDelayindex := index
        cmdDelays := Function.update client.cmdDelays (index.toNat % 20) 0 }
  else client
termination_by (i - client.cmdDelayindex).toNat
decreasing_by
  rename_i behind
  bv_omega

/-- The delays of the last 20 seconds; those of the seconds without a move are 0. -/
def noteDelay (env : Env) (client : Client) (move : Move) : Client :=
  let i := BitVec.ofNat 32 env.seconds
  let client :=
    if (i - client.cmdDelayindex).toNat ≥ 20 then
      { client with cmdDelayindex := i, cmdDelays := fun _ => 0 }
    else advanceDelays i client
  let d : Int := move.newcmd.msec.toNat - min move.oldcmd.msec.toNat move.oldest.msec.toNat
  { client with
    cmdDelays := Function.update client.cmdDelays (i.toNat % 20)
      (max (client.cmdDelays (i.toNat % 20)) d) }

def noteActivity (client : Client) (lastframe : Int) (move : Move) : Client :=
  let active := move.newcmd.buttons ≠ move.oldcmd.buttons ∨
    move.newcmd.forwardmove ≠ move.oldcmd.forwardmove ∨
    move.newcmd.sidemove ≠ move.oldcmd.sidemove ∨ move.newcmd.upmove ≠ move.oldcmd.upmove
  { client with
    lastframe, moved := true, countacks := true
    idletime := if active then 0 else client.idletime }

def noteMove (env : Env) (client : Client) (lastframe : Int) (move : Move) : Client :=
  let idle := move.newcmd.forwardmove = 0 ∧ move.newcmd.sidemove = 0 ∧ move.newcmd.upmove = 0
  let client := noteActivity client lastframe move
  if idle then client else noteDelay env client move

/-- What the loop carries from one command to the next. -/
structure Progress where
  client : Client
  readcount : Nat
  moveIssued : Bool := false
  userinfoCount : Nat := 0
  stringCmdCount : Nat := 0

structure Done where
  after : Progress
  actions : List Action := []
  ends : Bool := false

/-- `SV_KickClient`, which leaves a zombie, and the return that follows it. -/
def svKickClient (p : Progress) (reason : KickReason) : Done where
  after := { p with client := { p.client with state := .zombie } }
  actions := [.kick reason]
  ends := true

/-- A user command, and the check that it was there. -/
def readUsercmd (data : List UInt8) (base : Usercmd) (reason : KickReason) (readcount : Nat) :
    Except (KickReason × Nat) (Usercmd × Nat) :=
  let (cmd, readcount) := msgReadDeltaUsercmd data base readcount
  if readcount > data.length then .error (reason, readcount) else .ok (cmd, readcount)

def readMove (data : List UInt8) (readcount : Nat) : Except (KickReason × Nat) (Move × Nat) := do
  let (oldest, readcount) ← readUsercmd data nullUsercmd .oldest readcount
  let (oldcmd, readcount) ← readUsercmd data oldest .oldcmd readcount
  let (newcmd, readcount) ← readUsercmd data oldcmd .newcmd readcount
  pure (⟨oldest, oldcmd, newcmd⟩, readcount)

/-- What is done with a move that is all there; `checked` is what its checksum is over. -/
def acceptMove (env : Env) (p : Progress) (checksum : Int) (checked : List UInt8)
    (lastframe : Int) (move : Move) : Done :=
  if p.client.state = .spawned ∧ move.newcmd.msec > 250 then svKickClient p .illegalMsec
  else if p.client.state ≠ .spawned then
    { after := { p with client := { p.client with lastframe := -1 } } }
  else if env.checkByte checked ≠ checksum then { after := p, ends := true }
  else
    let (client, move, actions) := runMove env (noteMove env p.client lastframe move) move
    { after := { p with client := { client with lastcmd := move.newcmd } }, actions }

def executeMove (env : Env) (data : List UInt8) (p : Progress) : Done :=
  if p.moveIssued then svKickClient p .secondMove
  else
    let checksumIndex := p.readcount
    let (checksum, readcount) := msgReadByte data p.readcount
    let (lastframe, readcount) := msgReadLong data readcount
    let nodelta := lastframe = -1 ∧ p.client.lastframe = -1
    let nodeltaframes := if nodelta then p.client.nodeltaframes + 1 else 0
    let p := { p with client := { p.client with nodeltaframes }, moveIssued := true, readcount }
    if nodelta ∧ nodeltaframes ≥ 100 ∧ ¬env.allownodelta then svKickClient p .nodelta
    else
      match readMove data readcount with
      | .error (reason, readcount) => svKickClient { p with readcount } reason
      | .ok (move, readcount) =>
        acceptMove env { p with readcount } checksum
          ((data.take readcount).drop (checksumIndex + 1)) lastframe move

def maxStringCmds : Nat := 8
def maxUserinfoUpdates : Nat := 8

def executeString (env : Env) (data : List UInt8) (p : Progress) : Done :=
  let (s, readcount) := msgReadString data p.readcount
  let stringCmdCount := if s.head? = some 127 then p.stringCmdCount else p.stringCmdCount + 1
  let executed := s.head? = some 127 ∨ stringCmdCount < maxStringCmds
  let client := if executed then env.executeUserCommand s p.client else p.client
  { after := { p with client, readcount, stringCmdCount }
    actions := if executed then [.execute s] else []
    ends := client.state = .zombie }

def executeUserinfo (env : Env) (data : List UInt8) (p : Progress) : Done :=
  let userinfoCount := p.userinfoCount + 1
  let (s, readcount) := msgReadString data p.readcount
  let userinfo := s.take 511
  let client :=
    if userinfoCount < maxUserinfoUpdates then
      env.userinfoChanged { p.client with userinfo := userinfo }
    else p.client
  { after := { p with client, readcount, userinfoCount }
    actions := if userinfoCount < maxUserinfoUpdates then [.userinfo userinfo] else []
    ends := client.state = .zombie }

def clcNop : Int := 1
def clcMove : Int := 2
def clcUserinfo : Int := 3
def clcStringcmd : Int := 4

/-- One pass of the loop. -/
def executeCommand (env : Env) (data : List UInt8) (p : Progress) : Done :=
  if p.readcount > data.length then svKickClient p .badRead
  else
    let (c, readcount) := msgReadByte data p.readcount
    let p := { p with readcount }
    if c = -1 then { after := p, ends := true }
    else if c = clcMove then executeMove env data p
    else if c = clcStringcmd then executeString env data p
    else if c = clcUserinfo then executeUserinfo env data p
    else if c = clcNop then { after := p }
    else svKickClient p (.unknownCommand c)

structure Pass extends Done where
  before : Progress

def passes (env : Env) (data : List UInt8) : Nat → Progress → List Pass
  | 0, _ => []
  | fuel + 1, p =>
    let done := executeCommand env data p
    { done with before := p } :: if done.ends then [] else passes env data fuel done.after

/-- The passes over the message `data` from `readcount` on. -/
def svExecuteClientMessage (env : Env) (data : List UInt8) (readcount : Nat) (client : Client) :
    List Pass :=
  passes env data (data.length + 1) { client, readcount }

/-! ## What a message can make the server do -/

def Pass.start (pass : Pass) : Nat := pass.before.readcount
def Pass.stop (pass : Pass) : Nat := pass.after.readcount

def Action.isKick : Action → Bool
  | .kick _ => true
  | _ => false

def Action.isThink : Action → Bool
  | .think _ => true
  | _ => false

def Pass.thinks (pass : Pass) : Bool := pass.actions.any Action.isThink

/-- `cmd` is `base` but for the time it takes and the key that is pressed for it. -/
def Repeats (cmd base : Usercmd) : Prop :=
  cmd = { base with msec := cmd.msec, buttons := cmd.buttons } ∧
    (cmd.buttons = base.buttons ∨ cmd.buttons = base.buttons ||| buttonActivate)

/-- The user commands of the move whose command byte is at `readcount`, if they are all inside
the message. -/
def usercmdsAt (data : List UInt8) (readcount : Nat) : List Usercmd :=
  match readMove data (readcount + 6) with
  | .ok (move, _) => [move.oldest, move.oldcmd, move.newcmd]
  | .error _ => []

def LastKicks (run : List Pass) : Prop :=
  ∃ last reason, run.getLast? = some last ∧ last.actions = [.kick reason]

/-- The commands are taken from left to right until the loop ends; at most one move is run,
with its own user commands or with the last one of an earlier move; nothing is done with a
command that runs past the end, and when one does the client is kicked. -/
structure Orderly (data : List UInt8) (readcount : Nat) (run : List Pass) : Prop where
  starts : run.head?.map Pass.start = some readcount
  leftToRight : run.IsChain fun pass next =>
    pass.start < pass.stop ∧ next.before = pass.after
  ends : ∃ pass, run.getLast? = some pass ∧ pass.ends
  oneMove : (run.filter Pass.thinks).length ≤ 1
  source : ∀ pass ∈ run, ∀ cmd, .think cmd ∈ pass.actions →
    ∃ base ∈ pass.before.client.lastcmd :: usercmdsAt data pass.start, Repeats cmd base
  whole : ∀ pass ∈ run, ∀ action ∈ pass.actions, action.isKick ∨ pass.stop ≤ data.length
  truncated : ∀ pass ∈ run, pass.start < data.length → data.length < pass.stop → LastKicks run

/-- The string at `readcount` has no end in the message. -/
def Unterminated (data : List UInt8) (readcount : Nat) : Prop :=
  (data.drop readcount).length < 2047 ∧ ∀ b ∈ data.drop readcount, b ≠ 0 ∧ b ≠ 255

/-- The command at `p` is a string that is still taken and has no end in the message. -/
def CutOff (data : List UInt8) (p : Progress) : Prop :=
  Unterminated data (p.readcount + 1) ∧
    (data[p.readcount]? = some 4 ∧
        (data[p.readcount + 1]? = some 127 ∨ p.stringCmdCount + 1 < maxStringCmds) ∨
      data[p.readcount]? = some 3 ∧ p.userinfoCount + 1 < maxUserinfoUpdates)

instance (data : List UInt8) (readcount : Nat) : Decidable (Unterminated data readcount) :=
  inferInstanceAs (Decidable (_ ∧ _))

instance (data : List UInt8) (p : Progress) : Decidable (CutOff data p) :=
  inferInstanceAs (Decidable (_ ∧ _))

/-! ## The readers -/

theorem bmod_eq_neg_one {n : Nat} (small : n < 256) : (n : Int).bmod 256 = -1 ↔ n = 255 := by
  simp only [Int.bmod]
  omega

theorem int8_eq_neg_one (b : UInt8) : int8 b = -1 ↔ b = 255 := by
  rw [← UInt8.toNat_inj]
  exact bmod_eq_neg_one b.toNat_lt

theorem readChars_none {data : List UInt8} {readcount : Nat} (past : data[readcount]? = none)
    (room : Nat) : readChars data (room + 1) readcount = ([], readcount + 1) := by
  simp only [readChars, past]

theorem readChars_some {data : List UInt8} {readcount : Nat} {b : UInt8}
    (there : data[readcount]? = some b) (room : Nat) :
    readChars data (room + 1) readcount =
      if b = 255 ∨ b = 0 then ([], readcount + 1)
      else (b :: (readChars data room (readcount + 1)).1,
        (readChars data room (readcount + 1)).2) := by
  simp only [readChars, there, int8_eq_neg_one]

theorem le_readChars (data : List UInt8) (room readcount : Nat) :
    readcount ≤ (readChars data room readcount).2 := by
  induction room generalizing readcount with
  | zero => simp [readChars]
  | succ room ih =>
    cases there : data[readcount]? with
    | none => simp [readChars_none there]
    | some b =>
      have := ih (readcount + 1)
      rw [readChars_some there]
      split
      · simp
      · simp only
        omega

/-- Only a string without an end takes the reader past the end of the message. -/
theorem readChars_past (data : List UInt8) (room readcount : Nat)
    (inside : readcount ≤ data.length) :
    data.length < (readChars data room readcount).2 ↔
      (data.drop readcount).length < room ∧ ∀ b ∈ data.drop readcount, b ≠ 0 ∧ b ≠ 255 := by
  induction room generalizing readcount with
  | zero => simpa [readChars] using inside
  | succ room ih =>
    rcases inside.eq_or_lt with rfl | inside
    · rw [readChars_none (by simp)]
      simp
    · have there : data[readcount]? = some data[readcount] := List.getElem?_eq_getElem inside
      have split := List.drop_eq_getElem_cons inside
      rw [readChars_some there, split]
      have rest := ih (readcount + 1) inside
      simp only [List.length_drop] at rest
      by_cases ended : data[readcount] = 255 ∨ data[readcount] = 0
      · rw [if_pos ended]
        simp only [List.length_cons, List.length_drop, List.mem_cons, forall_eq_or_imp]
        rcases ended with ended | ended <;> simp [ended] <;> omega
      · rw [if_neg ended]
        simp only [List.length_cons, List.length_drop, List.mem_cons, forall_eq_or_imp]
        rw [rest]
        rw [not_or] at ended
        constructor
        · rintro ⟨short, clean⟩
          exact ⟨by omega, ⟨ended.2, ended.1⟩, clean⟩
        · rintro ⟨short, -, clean⟩
          exact ⟨by omega, clean⟩

/-- A string without an end starts with the byte at `readcount`. -/
theorem head_of_unterminated {data : List UInt8} {readcount : Nat}
    (open_ : Unterminated data readcount) :
    (msgReadString data readcount).1.head? = data[readcount]? := by
  obtain ⟨-, clean⟩ := open_
  simp only [msgReadString]
  cases there : data[readcount]? with
  | none => rw [readChars_none there]; rfl
  | some b =>
    obtain ⟨inside, rfl⟩ := List.getElem?_eq_some_iff.mp there
    have known : data[readcount] ≠ 0 ∧ data[readcount] ≠ 255 := by
      refine clean _ ?_
      simp only [List.drop_eq_getElem_cons inside, List.mem_cons, true_or]
    rw [readChars_some there, if_neg (by simp [known])]
    rfl

/-- The reader does not go back. -/
def Advances {α : Type} (r : Read α) : Prop := ∀ readcount, readcount ≤ (r readcount).2

section
variable {α β : Type}

theorem advances_pure (a : α) : Advances (pure a : Read α) := fun _ => le_rfl

theorem Advances.bind {r : Read α} {f : α → Read β} (hr : Advances r)
    (hf : ∀ a, Advances (f a)) : Advances (r >>= f) :=
  fun readcount => (hr readcount).trans (hf _ _)

theorem Advances.map {r : Read α} (hr : Advances r) (f : α → β) : Advances (f <$> r) :=
  fun readcount => hr readcount

theorem Advances.ifSet {r : Read α} (hr : Advances r) (set : Bool) (old : α) :
    Advances (readIf set r old) := by
  simp only [readIf]
  split
  · exact hr
  · exact advances_pure old

end

theorem advances_msgReadByte (data : List UInt8) : Advances (msgReadByte data) :=
  fun _ => Nat.le_succ _

theorem advances_msgReadShort (data : List UInt8) : Advances (msgReadShort data) :=
  fun _ => Nat.le_add_right _ _

theorem advances_readByteIf (data : List UInt8) (set : Bool) (old : UInt8) :
    Advances (readByteIf data set old) :=
  ((advances_msgReadByte data).map toByte).ifSet set old

theorem advances_msgReadDeltaUsercmd (data : List UInt8) (base : Usercmd) :
    Advances (msgReadDeltaUsercmd data base) := by
  have short := advances_msgReadShort data
  have byte := advances_msgReadByte data
  have byteIf := advances_readByteIf data
  refine byte.bind fun bits => ?_
  refine (short.ifSet _ _).bind fun _ => (short.ifSet _ _).bind fun _ => ?_
  refine (short.ifSet _ _).bind fun _ => (short.ifSet _ _).bind fun _ => ?_
  refine (short.ifSet _ _).bind fun _ => (short.ifSet _ _).bind fun _ => ?_
  refine (byteIf _ _).bind fun _ => (byteIf _ _).bind fun _ => ?_
  exact byte.bind fun _ => byte.bind fun _ => advances_pure _

theorem readUsercmd_ok {data : List UInt8} {base cmd : Usercmd} {reason : KickReason}
    {readcount stop : Nat} (h : readUsercmd data base reason readcount = .ok (cmd, stop)) :
    readcount ≤ stop ∧ stop ≤ data.length := by
  have advances := advances_msgReadDeltaUsercmd data base readcount
  rcases hread : msgReadDeltaUsercmd data base readcount with ⟨read, after⟩
  simp only [readUsercmd, hread] at h advances
  split at h
  · cases h
  · rename_i inside
    obtain rfl := congrArg Prod.snd (Except.ok.inj h)
    exact ⟨advances, not_lt.mp inside⟩

theorem readMove_ok {data : List UInt8} {move : Move} {readcount stop : Nat}
    (h : readMove data readcount = .ok (move, stop)) :
    readcount ≤ stop ∧ stop ≤ data.length := by
  simp only [readMove, bind, Except.bind] at h
  split at h
  · cases h
  · rename_i first hfirst
    split at h
    · cases h
    · rename_i second hsecond
      split at h
      · cases h
      · rename_i third hthird
        obtain rfl := congrArg Prod.snd (Except.ok.inj h)
        obtain ⟨_, atFirst⟩ := first
        obtain ⟨_, atSecond⟩ := second
        obtain ⟨_, atThird⟩ := third
        have upToSecond := (readUsercmd_ok hfirst).1.trans (readUsercmd_ok hsecond).1
        exact ⟨upToSecond.trans (readUsercmd_ok hthird).1, (readUsercmd_ok hthird).2⟩

/-! ## The moves -/

theorem repeats_self (cmd : Usercmd) : Repeats cmd cmd := ⟨rfl, .inl rfl⟩

theorem repeats_pressActivate (client : Client) (cmd : Usercmd) :
    Repeats (pressActivate client cmd) cmd := by
  simp only [pressActivate]
  split
  · exact ⟨rfl, .inr rfl⟩
  · exact repeats_self cmd

/-- Only user commands that repeat one of `bases` are run or refused. -/
def Runs (bases : List Usercmd) (actions : List Action) : Prop :=
  ∀ action ∈ actions, ∃ cmd, (action = .think cmd ∨ action = .refuse cmd) ∧
    ∃ base ∈ bases, Repeats cmd base

theorem Runs.nil (bases : List Usercmd) : Runs bases [] := by
  simp [Runs]

theorem Runs.append {bases : List Usercmd} {xs ys : List Action} (hxs : Runs bases xs)
    (hys : Runs bases ys) : Runs bases (xs ++ ys) := by
  rintro action hmem
  rcases List.mem_append.mp hmem with hmem | hmem
  · exact hxs action hmem
  · exact hys action hmem

/-- Only the command that is given is run or refused. -/
theorem svClientThink_runs (env : Env) (client : Client) (cmd : Usercmd) :
    Runs [cmd] (svClientThink env client cmd).2 := by
  simp only [svClientThink]
  split
  · rintro action hmem
    obtain rfl := List.mem_singleton.mp hmem
    exact ⟨_, .inr rfl, cmd, List.mem_singleton_self cmd, repeats_self cmd⟩
  · rintro action hmem
    obtain rfl := List.mem_singleton.mp hmem
    exact ⟨_, .inl rfl, cmd, List.mem_singleton_self cmd, repeats_pressActivate client cmd⟩

@[simp] theorem svClientThink_lastcmd (env : Env) (client : Client) (cmd : Usercmd) :
    (svClientThink env client cmd).1.lastcmd = client.lastcmd := by
  simp only [svClientThink]
  split <;> rfl

theorem Runs.mono {bases others : List Usercmd} {actions : List Action}
    (sub : ∀ base ∈ bases, ∃ other ∈ others, ∀ cmd, Repeats cmd base → Repeats cmd other)
    (h : Runs bases actions) : Runs others actions := by
  rintro action hmem
  obtain ⟨cmd, done, base, hbase, hcmd⟩ := h action hmem
  obtain ⟨other, hother, himp⟩ := sub base hbase
  exact ⟨cmd, done, other, hother, himp cmd hcmd⟩

theorem runs_of_msec {base : Usercmd} {msec : UInt8} {actions : List Action}
    (h : Runs [{ base with msec }] actions) : Runs [base] actions := by
  refine h.mono ?_
  rintro _ hmem
  obtain rfl := List.mem_singleton.mp hmem
  exact ⟨base, List.mem_singleton_self base, fun cmd hcmd => hcmd⟩

/-- Lost commands are made up for with the last one. -/
theorem catchUp_runs (env : Env) (msec : Int) (client : Client) :
    Runs [client.lastcmd] (catchUp env msec client).2 := by
  induction msec, client using catchUp.induct env with
  | case1 msec client more repeated client' actions hthink _ _ _ ih =>
    have think := svClientThink_runs env { client with lastcmd := repeated } repeated
    have last := svClientThink_lastcmd env { client with lastcmd := repeated } repeated
    rw [hthink] at think last
    rw [catchUp, if_pos more]
    simp only [repeated] at hthink
    simp only [hthink]
    rw [last] at ih
    exact (runs_of_msec think).append (runs_of_msec ih)
  | case2 msec client more =>
    rw [catchUp, if_neg more]
    exact Runs.nil _

theorem limitMove_repeats (env : Env) (move : Move) :
    ∃ oldest oldcmd newcmd : UInt8, limitMove env move =
      ⟨{ move.oldest with msec := oldest }, { move.oldcmd with msec := oldcmd },
        { move.newcmd with msec := newcmd }⟩ := by
  simp only [limitMove]
  split
  · exact ⟨_, _, _, rfl⟩
  · exact ⟨_, _, _, rfl⟩

theorem thinkIf_runs (env : Env) (needed : Bool) (cmd : Usercmd) (client : Client) :
    Runs [cmd] (thinkIf env needed cmd client).2 := by
  simp only [thinkIf]
  split
  · exact svClientThink_runs env client cmd
  · exact Runs.nil _

theorem catchUpIf_runs (env : Env) (needed : Bool) (msec : Int) (client : Client) :
    Runs [client.lastcmd] (catchUpIf env needed msec client).2 := by
  simp only [catchUpIf]
  split
  · exact catchUp_runs env msec client
  · exact Runs.nil _

/-- A move runs its own user commands and the last one before it. -/
theorem runMove_runs (env : Env) (client : Client) (move : Move) :
    Runs [client.lastcmd, move.oldest, move.oldcmd, move.newcmd] (runMove env client move).2.2 := by
  simp only [runMove]
  split
  · exact Runs.nil _
  · generalize (if env.maxNetdrop < client.dropped then env.maxNetdrop else (client.dropped : Int))
      = netDrop
    generalize hlimited : (if netDrop ≠ 0 then limitMove env move else move) = limited
    have same : ∃ oldest oldcmd newcmd : UInt8, limited =
        ⟨{ move.oldest with msec := oldest }, { move.oldcmd with msec := oldcmd },
          { move.newcmd with msec := newcmd }⟩ := by
      subst hlimited
      split
      · exact limitMove_repeats env move
      · exact ⟨_, _, _, rfl⟩
    obtain ⟨oldest, oldcmd, newcmd, rfl⟩ := same
    have keep : ∀ {cmd : Usercmd} {actions},
        cmd ∈ [client.lastcmd, move.oldest, move.oldcmd, move.newcmd] → Runs [cmd] actions →
        Runs [client.lastcmd, move.oldest, move.oldcmd, move.newcmd] actions := by
      rintro cmd actions hmem h
      refine h.mono ?_
      rintro _ hbase
      obtain rfl := List.mem_singleton.mp hbase
      exact ⟨_, hmem, fun _ hcmd => hcmd⟩
    refine Runs.append (keep (by simp) (catchUpIf_runs env _ _ client)) ?_
    refine Runs.append (keep (by simp) (runs_of_msec (thinkIf_runs env _ _ _))) ?_
    refine Runs.append (keep (by simp) (runs_of_msec (thinkIf_runs env _ _ _))) ?_
    exact keep (by simp) (runs_of_msec (svClientThink_runs env _ _))

/-- The loop over the seconds ends where it is to end, and leaves the rest alone. -/
theorem advanceDelays_eq (i : BitVec 32) (client : Client) :
    ∃ delays, advanceDelays i client = { client with cmdDelayindex := i, cmdDelays := delays } := by
  induction client using advanceDelays.induct i with
  | case1 client behind index ih =>
    obtain ⟨delays, hdelays⟩ := ih
    rw [advanceDelays, if_pos behind]
    exact ⟨delays, hdelays⟩
  | case2 client behind =>
    rw [not_not] at behind
    subst behind
    rw [advanceDelays, if_neg (not_not.mpr rfl)]
    exact ⟨client.cmdDelays, rfl⟩

theorem noteDelay_eq (env : Env) (client : Client) (move : Move) :
    ∃ delays, noteDelay env client move =
      { client with cmdDelayindex := BitVec.ofNat 32 env.seconds, cmdDelays := delays } := by
  simp only [noteDelay]
  split
  · exact ⟨_, rfl⟩
  · obtain ⟨delays, hdelays⟩ := advanceDelays_eq (BitVec.ofNat 32 env.seconds) client
    rw [hdelays]
    exact ⟨_, rfl⟩

@[simp] theorem noteDelay_lastcmd (env : Env) (client : Client) (move : Move) :
    (noteDelay env client move).lastcmd = client.lastcmd := by
  obtain ⟨delays, hdelays⟩ := noteDelay_eq env client move
  rw [hdelays]

@[simp] theorem noteMove_lastcmd (env : Env) (client : Client) (lastframe : Int) (move : Move) :
    (noteMove env client lastframe move).lastcmd = client.lastcmd := by
  simp only [noteMove]
  split
  · rfl
  · rw [noteDelay_lastcmd]
    rfl

/-- The time of the user commands that are run. -/
def handedTime : List Action → Nat
  | [] => 0
  | .think cmd :: actions => cmd.msec.toNat + handedTime actions
  | _ :: actions => handedTime actions

/-- The time of the user commands, also of those that are refused. -/
def askedTime : List Action → Nat
  | [] => 0
  | .think cmd :: actions => cmd.msec.toNat + askedTime actions
  | .refuse cmd :: actions => cmd.msec.toNat + askedTime actions
  | _ :: actions => askedTime actions

theorem handedTime_append (xs ys : List Action) :
    handedTime (xs ++ ys) = handedTime xs + handedTime ys := by
  induction xs with
  | nil => simp [handedTime]
  | cons action xs ih =>
    cases action <;> simp only [List.cons_append, handedTime, ih, Nat.add_assoc]

theorem handedTime_le_askedTime (actions : List Action) :
    handedTime actions ≤ askedTime actions := by
  induction actions with
  | nil => exact Nat.le_refl 0
  | cons action actions ih =>
    cases action <;> simp only [handedTime, askedTime] <;> omega

theorem askedTime_append (xs ys : List Action) :
    askedTime (xs ++ ys) = askedTime xs + askedTime ys := by
  induction xs with
  | nil => simp [askedTime]
  | cons action xs ih =>
    cases action <;> simp only [List.cons_append, askedTime, ih, Nat.add_assoc]

/-- What is asked for is taken off `commandMsec`, and only what is left of it is run, as long as
the `int` does not overflow. -/
structure Charged (env : Env) (client after : Client) (actions : List Action) : Prop where
  state : after.state = client.state
  spawncount : after.spawncount = client.spawncount
  levelSpawncount : after.levelSpawncount = client.levelSpawncount
  paid : env.enforcetime → -2 ^ 31 ≤ client.commandMsec - askedTime actions →
    client.commandMsec < 2 ^ 31 → after.commandMsec = client.commandMsec - askedTime actions ∧
      handedTime actions + max after.commandMsec 0 ≤ max client.commandMsec 0

variable {env : Env}

theorem Charged.idle {client after : Client} (state : after.state = client.state)
    (spawncount : after.spawncount = client.spawncount)
    (levelSpawncount : after.levelSpawncount = client.levelSpawncount)
    (commandMsec : after.commandMsec = client.commandMsec) : Charged env client after [] :=
  ⟨state, spawncount, levelSpawncount, fun _ _ _ => by simp [handedTime, askedTime, commandMsec]⟩

theorem Charged.refl (client : Client) : Charged env client client [] := .idle rfl rfl rfl rfl

theorem Charged.append {client between after : Client} {xs ys : List Action}
    (first : Charged env client between xs) (second : Charged env between after ys) :
    Charged env client after (xs ++ ys) where
  state := second.state.trans first.state
  spawncount := second.spawncount.trans first.spawncount
  levelSpawncount := second.levelSpawncount.trans first.levelSpawncount
  paid := by
    intro enforced low high
    rw [askedTime_append, Nat.cast_add] at low ⊢
    obtain ⟨left, paid⟩ := first.paid enforced (by omega) high
    obtain ⟨left', paid'⟩ := second.paid enforced (by omega) (by omega)
    rw [handedTime_append]
    omega

theorem Charged.andIdle {client between after : Client} {actions : List Action}
    (first : Charged env client between actions) (idle : Charged env between after []) :
    Charged env client after actions := by
  simpa using first.append idle

theorem pressActivate_msec (client : Client) (cmd : Usercmd) :
    (pressActivate client cmd).msec = cmd.msec := by
  simp only [pressActivate]
  split <;> rfl

theorem svClientThink_charged (client : Client) (cmd : Usercmd) :
    Charged env client (svClientThink env client cmd).1 (svClientThink env client cmd).2 := by
  have exact : -2 ^ 31 ≤ client.commandMsec - cmd.msec.toNat → client.commandMsec < 2 ^ 31 →
      int32 (client.commandMsec - cmd.msec.toNat) = client.commandMsec - cmd.msec.toNat :=
    fun low high => Int.bmod_eq_of_le (by omega) (by omega)
  simp only [svClientThink]
  split
  · refine ⟨rfl, rfl, rfl, fun _ low high => ?_⟩
    simp only [handedTime, askedTime, Nat.add_zero] at low ⊢
    rw [exact low high]
    omega
  · rename_i runs
    refine ⟨rfl, rfl, rfl, fun enforced low high => ?_⟩
    simp only [handedTime, askedTime, pressActivate_msec, Nat.add_zero] at low ⊢
    simp only [enforced, and_true, not_lt] at runs
    rw [exact low high] at runs ⊢
    omega

theorem catchUp_charged (msec : Int) (client : Client) :
    Charged env client (catchUp env msec client).1 (catchUp env msec client).2 := by
  induction msec, client using catchUp.induct env with
  | case1 msec client more repeated client' actions hthink _ _ _ ih =>
    have start : Charged env client { client with lastcmd := repeated } [] := .idle rfl rfl rfl rfl
    have think := @svClientThink_charged env { client with lastcmd := repeated } repeated
    rw [hthink] at think
    rw [catchUp, if_pos more]
    simp only [repeated] at hthink
    simp only [hthink]
    exact (start.append think).append ih
  | case2 msec client more =>
    rw [catchUp, if_neg more]
    exact .refl client

theorem thinkIf_charged (needed : Bool) (cmd : Usercmd) (client : Client) :
    Charged env client (thinkIf env needed cmd client).1 (thinkIf env needed cmd client).2 := by
  simp only [thinkIf]
  split
  · exact svClientThink_charged client cmd
  · exact .refl client

theorem catchUpIf_charged (needed : Bool) (msec : Int) (client : Client) :
    Charged env client (catchUpIf env needed msec client).1
      (catchUpIf env needed msec client).2 := by
  simp only [catchUpIf]
  split
  · exact catchUp_charged msec client
  · exact .refl client

/-- What the commands of a move ask for is taken off the client's time. -/
theorem runMove_charged (client : Client) (move : Move) :
    Charged env client (runMove env client move).1 (runMove env client move).2.2 := by
  simp only [runMove]
  split
  · exact .refl client
  · exact (catchUpIf_charged _ _ client).append ((thinkIf_charged _ _ _).append
      ((thinkIf_charged _ _ _).append (svClientThink_charged _ _)))

theorem noteMove_charged (client : Client) (lastframe : Int) (move : Move) :
    Charged env client (noteMove env client lastframe move) [] := by
  simp only [noteMove]
  split
  · exact .idle rfl rfl rfl rfl
  · obtain ⟨delays, hdelays⟩ := noteDelay_eq env (noteActivity client lastframe move) move
    rw [hdelays]
    exact .idle rfl rfl rfl rfl

/-! ## One pass of the loop -/

theorem acceptMove_cases (env : Env) (p : Progress) (checksum : Int) (checked : List UInt8)
    (lastframe : Int) (move : Move) {done : Done}
    (hdone : acceptMove env p checksum checked lastframe move = done) :
    (∃ reason, done = svKickClient p reason) ∨
    (done = { after := p, ends := true }) ∨
    ∃ client actions, done = { after := { p with client }, actions } ∧
      Charged env p.client client actions ∧ (actions = [] ∨ p.client.state = .spawned) ∧
      Runs [p.client.lastcmd, move.oldest, move.oldcmd, move.newcmd] actions := by
  subst hdone
  simp only [acceptMove]
  split
  · exact .inl ⟨_, rfl⟩
  · split
    · exact .inr (.inr ⟨_, [], rfl, .idle rfl rfl rfl rfl, .inl rfl, Runs.nil _⟩)
    · rename_i spawned
      split
      · exact .inr (.inl rfl)
      · refine .inr (.inr ⟨_, _, rfl, ?_, .inr (not_not.mp spawned), ?_⟩)
        · exact ((noteMove_charged p.client lastframe move).append (runMove_charged _ move)).andIdle
            (.idle rfl rfl rfl rfl)
        · simpa only [noteMove_lastcmd] using
            runMove_runs env (noteMove env p.client lastframe move) move

/-- A move kicks the client, fails its checksum, or was all there. -/
theorem executeMove_cases (env : Env) (data : List UInt8) (p : Progress) {done : Done}
    (hdone : executeMove env data p = done) :
    (∃ q reason, done = svKickClient q reason) ∨
    (∃ q, done = { after := q, ends := true } ∧ q.readcount ≤ data.length ∧
      Charged env p.client q.client []) ∨
    ∃ q actions, done = { after := q, actions } ∧ p.moveIssued = false ∧ q.moveIssued = true ∧
      p.readcount < q.readcount ∧ q.readcount ≤ data.length ∧
      Charged env p.client q.client actions ∧ (actions = [] ∨ p.client.state = .spawned) ∧
      ∃ move, readMove data (p.readcount + 5) = .ok (move, q.readcount) ∧
        Runs [p.client.lastcmd, move.oldest, move.oldcmd, move.newcmd] actions := by
  rcases hbyte : msgReadByte data p.readcount with ⟨checksum, afterByte⟩
  rcases hlong : msgReadLong data afterByte with ⟨lastframe, afterLong⟩
  obtain rfl : p.readcount + 1 = afterByte := congrArg Prod.snd hbyte
  obtain rfl : p.readcount + 5 = afterLong := congrArg Prod.snd hlong
  simp only [executeMove, hbyte, hlong] at hdone
  split at hdone
  · exact .inl ⟨_, _, hdone.symm⟩
  · rename_i first
    generalize (if lastframe = -1 ∧ p.client.lastframe = -1 then p.client.nodeltaframes + 1
      else 0) = nodeltaframes at hdone
    split at hdone
    · exact .inl ⟨_, _, hdone.symm⟩
    · split at hdone
      · exact .inl ⟨_, _, hdone.symm⟩
      · rename_i move readcount hread
        have inside := readMove_ok hread
        have counted : Charged env p.client { p.client with nodeltaframes } [] :=
          .idle rfl rfl rfl rfl
        rcases acceptMove_cases env _ _ _ _ _ hdone with
          h | h | ⟨client, actions, h, charged, spawned, runs⟩
        · exact .inl ⟨_, h⟩
        · exact .inr (.inl ⟨_, h, inside.2, counted⟩)
        · refine .inr (.inr ⟨_, actions, h, by simpa using first, rfl, ?_, inside.2,
            counted.append charged, spawned, move, hread, runs⟩)
          simp only
          omega

/-- What a string that is executed says of its pass. -/
structure TakesString (env : Env) (data : List UInt8) (p : Progress) (done : Done) : Prop where
  client : done.after.client = p.client ∨
    (∃ s, done.after.client = env.executeUserCommand s p.client) ∨
    ∃ userinfo, done.after.client = env.userinfoChanged { p.client with userinfo }
  stop : done.after.readcount = (msgReadString data p.readcount).2
  moveIssued : done.after.moveIssued = p.moveIssued
  ends : done.ends = decide (done.after.client.state = .zombie)
  noThink : done.actions.any Action.isThink = false
  noKick : done.actions.any Action.isKick = false
  asksNothing : askedTime done.actions = 0

theorem any_ite {c : Prop} [Decidable c] {action : Action} {kind : Action → Bool}
    (other : kind action = false) : (if c then [action] else []).any kind = false := by
  split
  · simp [other]
  · rfl

theorem askedTime_ite {c : Prop} [Decidable c] {action : Action} (free : askedTime [action] = 0) :
    askedTime (if c then [action] else []) = 0 := by
  split
  · exact free
  · rfl

theorem executeString_takes (env : Env) (data : List UInt8) (p : Progress) :
    TakesString env data p (executeString env data p) where
  client := (ite_eq_or_eq _ _ _).symm.imp_right fun h => .inl ⟨_, h⟩
  stop := rfl
  moveIssued := rfl
  ends := rfl
  noThink := any_ite rfl
  noKick := any_ite rfl
  asksNothing := askedTime_ite rfl

theorem executeUserinfo_takes (env : Env) (data : List UInt8) (p : Progress) :
    TakesString env data p (executeUserinfo env data p) where
  client := (ite_eq_or_eq _ _ _).symm.imp_right fun h => .inr ⟨_, h⟩
  stop := rfl
  moveIssued := rfl
  ends := rfl
  noThink := any_ite rfl
  noKick := any_ite rfl
  asksNothing := askedTime_ite rfl

theorem executeString_unterminated (env : Env) {data : List UInt8} {p : Progress}
    (cut : Unterminated data p.readcount) :
    (data[p.readcount]? = some 127 ∨ p.stringCmdCount + 1 < maxStringCmds) ∧
        (∃ s, (executeString env data p).actions = [.execute s]) ∨
      ¬(data[p.readcount]? = some 127 ∨ p.stringCmdCount + 1 < maxStringCmds) ∧
        (executeString env data p).actions = [] ∧
        (executeString env data p).after.client = p.client := by
  have head := head_of_unterminated cut
  rcases hread : msgReadString data p.readcount with ⟨s, stop⟩
  simp only [hread] at head
  simp only [executeString, hread, ← head]
  by_cases named : s.head? = some 127
  · exact .inl ⟨.inl named, s, if_pos (.inl named)⟩
  · have count : (if s.head? = some 127 then p.stringCmdCount else p.stringCmdCount + 1) =
        p.stringCmdCount + 1 := if_neg named
    rw [count]
    by_cases few : p.stringCmdCount + 1 < maxStringCmds
    · exact .inl ⟨.inr few, s, if_pos (.inr few)⟩
    · have ignored := not_or.mpr ⟨named, few⟩
      exact .inr ⟨ignored, if_neg ignored, if_neg ignored⟩

theorem executeUserinfo_either (env : Env) (data : List UInt8) (p : Progress) :
    p.userinfoCount + 1 < maxUserinfoUpdates ∧
        (∃ s, (executeUserinfo env data p).actions = [.userinfo s]) ∨
      ¬p.userinfoCount + 1 < maxUserinfoUpdates ∧
        (executeUserinfo env data p).actions = [] ∧
        (executeUserinfo env data p).after.client = p.client := by
  simp only [executeUserinfo]
  by_cases few : p.userinfoCount + 1 < maxUserinfoUpdates
  · exact .inl ⟨few, _, if_pos few⟩
  · exact .inr ⟨few, if_neg few, if_neg few⟩

/-- What a pass can do that does not start past the end of the message. -/
inductive CommandCase (env : Env) (data : List UInt8) (p : Progress) (done : Done) : Prop where
  | kicked (q : Progress) (reason : KickReason) (same : done = svKickClient q reason)
  | finished (idle : done.actions = []) (ends : done.ends = true)
      (inside : done.after.readcount ≤ data.length ∨ p.readcount = data.length)
      (charged : Charged env p.client done.after.client [])
  | inside (goesOn : done.ends = false) (forward : p.readcount < done.after.readcount)
      (inside : done.after.readcount ≤ data.length)
      (charged : Charged env p.client done.after.client done.actions)
      (spawned : done.actions = [] ∨ p.client.state = .spawned)
      (runs : Runs (p.client.lastcmd :: usercmdsAt data p.readcount) done.actions)
      (issued : p.moveIssued → done.after.moveIssued = true ∧ done.actions = [])
      (issues : done.after.moveIssued = true ∨ done.actions = [])
  | string (starts : p.readcount < data.length)
      (takes : TakesString env data { p with readcount := p.readcount + 1 } done)
      (executed : CutOff data p → done.actions ≠ [])
      (ignored : Unterminated data (p.readcount + 1) → ¬CutOff data p →
        done.actions = [] ∧ done.after.client = p.client)

theorem msgReadByte_end {data : List UInt8} {readcount : Nat} (h : readcount = data.length) :
    msgReadByte data readcount = (-1, readcount + 1) := by
  subst h
  simp [msgReadByte]

theorem msgReadByte_inside {data : List UInt8} {readcount : Nat} (h : readcount < data.length) :
    msgReadByte data readcount = ((data[readcount].toNat : Int), readcount + 1) := by
  simp [msgReadByte, h]

theorem executeCommand_past (env : Env) {data : List UInt8} {p : Progress}
    (past : data.length < p.readcount) :
    executeCommand env data p = svKickClient p .badRead := by
  simp only [executeCommand, if_pos past]

theorem byte_eq {b : UInt8} {c : Int} {n : UInt8} (hb : (b.toNat : Int) = c)
    (hn : (n.toNat : Int) = c) : b = n := by
  rw [← UInt8.toNat_inj]
  omega

/-- What one command of a packet can do. -/
theorem executeCommand_cases (env : Env) {data : List UInt8} {p : Progress}
    (notPast : p.readcount ≤ data.length) : CommandCase env data p (executeCommand env data p) := by
  simp only [executeCommand, if_neg (not_lt.mpr notPast)]
  rcases notPast.eq_or_lt with last | inside
  · rw [msgReadByte_end last]
    exact .finished rfl rfl (.inr last) (.refl p.client)
  · have there : data[p.readcount]? = some data[p.readcount] := List.getElem?_eq_getElem inside
    rw [msgReadByte_inside inside]
    simp only
    split
    · omega
    split
    · rcases executeMove_cases env data _ rfl with
        ⟨q, reason, h⟩ | ⟨q, h, stop, charged⟩ | ⟨q, actions, h, first, issued, forward, stop, charged,
          spawned, move, hread, runs⟩
      · exact .kicked q reason h
      · rw [h]
        exact .finished rfl rfl (.inl stop) charged
      · rw [h]
        simp only at first forward
        refine .inside rfl (Nat.lt_of_succ_lt forward) stop charged spawned ?_ ?_ (.inl issued)
        · simp only [usercmdsAt, show readMove data (p.readcount + 6) = _ from hread]
          exact runs
        · rw [first]
          simp
    split
    · rename_i _ _ command
      have four : data[p.readcount] = 4 := byte_eq command rfl
      refine .string inside (executeString_takes env data _) ?_ ?_
      · rintro ⟨cut, taken⟩
        rcases executeString_unterminated env (p := { p with readcount := p.readcount + 1 }) cut
          with ⟨-, s, actions⟩ | ⟨skipped, -⟩
        · simp [actions]
        · simp only [there, four, Option.some.injEq, true_and] at taken
          rcases taken with taken | ⟨three, -⟩
          · exact absurd taken skipped
          · exact absurd three (by decide)
      · rintro cut whole
        rcases executeString_unterminated env (p := { p with readcount := p.readcount + 1 }) cut
          with ⟨taken, -⟩ | ⟨-, ignored⟩
        · exact absurd ⟨cut, .inl ⟨by rw [there, four], taken⟩⟩ whole
        · exact ignored
    split
    · rename_i _ _ _ command
      have three : data[p.readcount] = 3 := byte_eq command rfl
      have either := executeUserinfo_either env data { p with readcount := p.readcount + 1 }
      refine .string inside (executeUserinfo_takes env data _) ?_ ?_
      · rintro ⟨cut, taken⟩
        rcases either with ⟨-, s, actions⟩ | ⟨skipped, -⟩
        · simp [actions]
        · simp only [there, three, Option.some.injEq, true_and] at taken
          rcases taken with ⟨four, -⟩ | taken
          · exact absurd four (by decide)
          · exact absurd taken skipped
      · rintro cut whole
        rcases either with ⟨taken, -⟩ | ⟨-, ignored⟩
        · exact absurd ⟨cut, .inr ⟨by rw [there, three], taken⟩⟩ whole
        · exact ignored
    split
    · exact .inside rfl (Nat.lt_succ_self _) inside (.refl p.client) (.inl rfl) (Runs.nil _) (by simp)
        (.inr rfl)
    · exact .kicked _ _ rfl

theorem goesOn_inside (env : Env) {data : List UInt8} {p : Progress}
    (goesOn : (executeCommand env data p).ends = false) :
    p.readcount < data.length ∧ p.readcount < (executeCommand env data p).after.readcount := by
  by_cases past : data.length < p.readcount
  · rw [executeCommand_past env past] at goesOn
    cases goesOn
  · cases executeCommand_cases env (not_lt.mp past) with
    | kicked q reason same =>
      rw [same] at goesOn
      cases goesOn
    | finished idle ends => simp [ends] at goesOn
    | inside goesOn forward inside => exact ⟨forward.trans_le inside, forward⟩
    | string starts takes =>
      have := le_readChars data 2047 (p.readcount + 1)
      rw [takes.stop]
      exact ⟨starts, this⟩

theorem goesOn_alive (env : Env) {data : List UInt8} {p : Progress}
    (alive : p.client.state ≠ .zombie) (goesOn : (executeCommand env data p).ends = false) :
    (executeCommand env data p).after.client.state ≠ .zombie := by
  have inside := (goesOn_inside env goesOn).1
  cases executeCommand_cases env inside.le with
  | kicked q reason same =>
    rw [same] at goesOn
    cases goesOn
  | finished idle ends => simp [ends] at goesOn
  | inside goesOn forward inside charged => rwa [charged.state]
  | string starts takes => simpa [takes.ends] using goesOn

/-! ## All passes -/

theorem passes_ends {env : Env} {data : List UInt8} {p : Progress} (fuel : Nat)
    (ends : (executeCommand env data p).ends = true) :
    passes env data (fuel + 1) p = [⟨executeCommand env data p, p⟩] := by
  simp only [passes, ends, if_true]

theorem passes_goesOn {env : Env} {data : List UInt8} {p : Progress} (fuel : Nat)
    (goesOn : (executeCommand env data p).ends = false) :
    passes env data (fuel + 1) p =
      ⟨executeCommand env data p, p⟩ ::
        passes env data fuel (executeCommand env data p).after := by
  simp [passes, goesOn]

/-- The fuel suffices for the passes from `p` on. -/
def Enough (data : List UInt8) (fuel : Nat) (p : Progress) : Prop :=
  0 < fuel ∧ data.length < fuel + p.readcount

/-- The induction over the passes: the last one, or one that goes on and those after it. -/
theorem passes_induction (env : Env) (data : List UInt8) {P : Progress → List Pass → Prop}
    (last : ∀ p, (executeCommand env data p).ends = true → P p [⟨executeCommand env data p, p⟩])
    (next : ∀ p rest, (executeCommand env data p).ends = false →
      rest.head?.map Pass.before = some (executeCommand env data p).after →
      P (executeCommand env data p).after rest → P p (⟨executeCommand env data p, p⟩ :: rest))
    {fuel : Nat} {p : Progress} (enough : Enough data fuel p) : P p (passes env data fuel p) := by
  induction fuel generalizing p with
  | zero => exact absurd enough.1 (lt_irrefl 0)
  | succ fuel ih =>
    cases goesOn : (executeCommand env data p).ends with
    | true =>
      rw [passes_ends fuel goesOn]
      exact last p goesOn
    | false =>
      have forward := goesOn_inside env goesOn
      have := enough.2
      have rest : Enough data fuel (executeCommand env data p).after :=
        ⟨by omega, by omega⟩
      rw [passes_goesOn fuel goesOn]
      refine next p _ goesOn ?_ (ih rest)
      obtain ⟨k, rfl⟩ := Nat.exists_eq_succ_of_ne_zero rest.1.ne'
      rfl

variable {data : List UInt8} {fuel : Nat} {p : Progress}

theorem passes_alive (enough : Enough data fuel p) :
    p.client.state ≠ .zombie → ∀ pass ∈ passes env data fuel p,
      pass.toDone = executeCommand env data pass.before ∧ pass.before.client.state ≠ .zombie := by
  refine passes_induction env data (P := fun p run => p.client.state ≠ .zombie → ∀ pass ∈ run,
      pass.toDone = executeCommand env data pass.before ∧ pass.before.client.state ≠ .zombie)
    ?_ ?_ enough
  · rintro p - alive pass hmem
    obtain rfl := List.mem_singleton.mp hmem
    exact ⟨rfl, alive⟩
  · rintro p rest goesOn - ih alive pass hmem
    rcases List.mem_cons.mp hmem with rfl | hmem
    · exact ⟨rfl, alive⟩
    · exact ih (goesOn_alive env alive goesOn) pass hmem

theorem passes_chain (enough : Enough data fuel p) :
    (passes env data fuel p).IsChain fun pass next =>
      pass.start < pass.stop ∧ next.before = pass.after := by
  refine passes_induction env data (P := fun _ run => run.IsChain fun pass next =>
    pass.start < pass.stop ∧ next.before = pass.after) ?_ ?_ enough
  · rintro p -
    exact .singleton _
  · rintro p rest goesOn head ih
    cases rest with
    | nil => exact .singleton _
    | cons second rest =>
      exact .cons_cons ⟨(goesOn_inside env goesOn).2, Option.some.inj head⟩ ih

theorem passes_last (enough : Enough data fuel p) :
    ∃ pass, (passes env data fuel p).getLast? = some pass ∧ pass.ends := by
  refine passes_induction env data (P := fun _ run => ∃ pass, run.getLast? = some pass ∧ pass.ends)
    ?_ ?_ enough
  · rintro p ends
    exact ⟨_, rfl, ends⟩
  · rintro p rest - - ⟨pass, hlast, ends⟩
    exact ⟨pass, by simp [List.getLast?_cons, hlast], ends⟩

/-- A pass runs a move only if none was issued before, and notes it. -/
theorem pass_moves (env : Env) (data : List UInt8) (p : Progress) :
    (p.moveIssued → (executeCommand env data p).actions.any Action.isThink = false ∧
      ((executeCommand env data p).ends = false →
        (executeCommand env data p).after.moveIssued = true)) ∧
    ((executeCommand env data p).ends = false →
      (executeCommand env data p).after.moveIssued = true ∨
        (executeCommand env data p).actions.any Action.isThink = false) := by
  by_cases past : data.length < p.readcount
  · rw [executeCommand_past env past]
    exact ⟨fun _ => ⟨rfl, by simp [svKickClient]⟩, by simp [svKickClient]⟩
  · cases executeCommand_cases env (not_lt.mp past) with
    | kicked q reason same =>
      rw [same]
      exact ⟨fun _ => ⟨rfl, by simp [svKickClient]⟩, by simp [svKickClient]⟩
    | finished idle ends => simp [idle, ends]
    | inside goesOn forward inside charged spawned runs issued issues =>
      constructor
      · rintro first
        obtain ⟨after, idle⟩ := issued first
        exact ⟨by simp [idle], fun _ => after⟩
      · rintro -
        rcases issues with issues | idle
        · exact .inl issues
        · exact .inr (by simp [idle])
    | string starts takes =>
      exact ⟨fun first => ⟨takes.noThink, fun _ => takes.moveIssued.trans first⟩,
        fun _ => .inr takes.noThink⟩

theorem passes_oneMove (enough : Enough data fuel p) :
    (p.moveIssued → (passes env data fuel p).filter Pass.thinks = []) ∧
      ((passes env data fuel p).filter Pass.thinks).length ≤ 1 := by
  refine passes_induction env data (P := fun p run =>
    (p.moveIssued → run.filter Pass.thinks = []) ∧ (run.filter Pass.thinks).length ≤ 1) ?_ ?_ enough
  · rintro p -
    constructor
    · rintro issued
      simp [Pass.thinks, ((pass_moves env data p).1 issued).1]
    · exact List.length_filter_le _ _
  · rintro p rest goesOn - ⟨ihIssued, ih⟩
    obtain ⟨hissued, hfirst⟩ := pass_moves env data p
    constructor
    · rintro issued
      obtain ⟨idle, after⟩ := hissued issued
      rw [List.filter_cons, if_neg (by simpa [Pass.thinks] using idle)]
      exact ihIssued (after goesOn)
    · rcases hfirst goesOn with after | idle
      · rw [List.filter_cons, ihIssued after]
        split <;> simp
      · rw [List.filter_cons, if_neg (by simpa [Pass.thinks] using idle)]
        exact ih

theorem LastKicks.cons {run : List Pass} (h : LastKicks run) (pass : Pass) :
    LastKicks (pass :: run) := by
  obtain ⟨last, reason, hlast, kick⟩ := h
  exact ⟨last, reason, by simp [List.getLast?_cons, hlast], kick⟩

/-- When a command runs past the end, and is not a string that is taken, the client is kicked. -/
theorem passes_truncated (enough : Enough data fuel p) :
    (data.length < p.readcount → LastKicks (passes env data fuel p)) ∧
    (p.client.state ≠ .zombie → ∀ pass ∈ passes env data fuel p, ¬CutOff data pass.before →
      pass.start < data.length → data.length < pass.stop → LastKicks (passes env data fuel p)) := by
  refine passes_induction env data (P := fun p run =>
    (data.length < p.readcount → LastKicks run) ∧ (p.client.state ≠ .zombie →
      ∀ pass ∈ run, ¬CutOff data pass.before → pass.start < data.length →
        data.length < pass.stop → LastKicks run)) ?_ ?_ enough
  · rintro p ends
    constructor
    · rintro past
      exact ⟨_, _, rfl, by rw [executeCommand_past env past]; rfl⟩
    · rintro alive pass hmem whole start stop
      obtain rfl := List.mem_singleton.mp hmem
      simp only [Pass.start, Pass.stop] at start stop whole
      cases executeCommand_cases env start.le with
      | kicked q reason same => exact ⟨_, reason, rfl, by rw [same]; rfl⟩
      | finished idle ends inside => omega
      | inside goesOn => simp [goesOn] at ends
      | string starts takes executed ignored =>
        rw [takes.stop] at stop
        obtain ⟨-, same⟩ := ignored ((readChars_past data _ _ starts).mp stop) whole
        simp [takes.ends, same, alive] at ends
  · rintro p rest goesOn - ⟨past, ih⟩
    constructor
    · rintro start
      exact absurd (goesOn_inside env goesOn).1 (by omega)
    · rintro alive pass hmem whole start stop
      rcases List.mem_cons.mp hmem with rfl | hmem
      · exact (past stop).cons _
      · exact (ih (goesOn_alive env alive goesOn) pass hmem whole start stop).cons _

theorem pass_source (env : Env) (data : List UInt8) (p : Progress) :
    ∀ cmd, .think cmd ∈ (executeCommand env data p).actions →
      ∃ base ∈ p.client.lastcmd :: usercmdsAt data p.readcount, Repeats cmd base := by
  rintro cmd hmem
  by_cases past : data.length < p.readcount
  · rw [executeCommand_past env past] at hmem
    simp [svKickClient] at hmem
  · cases executeCommand_cases env (not_lt.mp past) with
    | kicked q reason same => simp [same, svKickClient] at hmem
    | finished idle => simp [idle] at hmem
    | inside goesOn forward inside charged spawned runs =>
      obtain ⟨cmd', same | same, h⟩ := runs _ hmem
      · cases same
        exact h
      · cases same
    | string starts takes =>
      have := List.any_eq_false.mp takes.noThink _ hmem
      simp [Action.isThink] at this

theorem pass_whole (env : Env) {data : List UInt8} {p : Progress} (whole : ¬CutOff data p) :
    ∀ action ∈ (executeCommand env data p).actions,
      action.isKick ∨ (executeCommand env data p).after.readcount ≤ data.length := by
  rintro action hmem
  by_cases past : data.length < p.readcount
  · rw [executeCommand_past env past] at hmem
    obtain rfl := List.mem_singleton.mp hmem
    exact .inl rfl
  · cases executeCommand_cases env (not_lt.mp past) with
    | kicked q reason same =>
      rw [same] at hmem
      obtain rfl := List.mem_singleton.mp hmem
      exact .inl rfl
    | finished idle => simp [idle] at hmem
    | inside goesOn forward inside => exact .inr inside
    | string starts takes executed ignored =>
      refine .inr ?_
      by_contra beyond
      rw [takes.stop, not_le] at beyond
      have idle := (ignored ((readChars_past data _ _ starts).mp beyond) whole).1
      simp [idle] at hmem

theorem executeCommand_at (env : Env) {data : List UInt8} {p : Progress} {b : UInt8}
    (there : data[p.readcount]? = some b) :
    p.readcount < data.length ∧ msgReadByte data p.readcount = ((b.toNat : Int), p.readcount + 1) ∧
    (b = 4 → executeCommand env data p =
      executeString env data { p with readcount := p.readcount + 1 }) ∧
    (b = 3 → executeCommand env data p =
      executeUserinfo env data { p with readcount := p.readcount + 1 }) := by
  obtain ⟨inside, rfl⟩ := List.getElem?_eq_some_iff.mp there
  have read := msgReadByte_inside inside
  refine ⟨inside, read, ?_, ?_⟩
  · rintro four
    rw [four] at read
    simp only [executeCommand, if_neg (not_lt.mpr inside.le), read]
    rfl
  · rintro three
    rw [three] at read
    simp only [executeCommand, if_neg (not_lt.mpr inside.le), read]
    rfl

/-- A string that is taken although it has no end is acted on. -/
theorem pass_cutOff (env : Env) {data : List UInt8} {p : Progress} (cut : CutOff data p) :
    ∃ action ∈ (executeCommand env data p).actions,
      action.isKick = false ∧ data.length < (executeCommand env data p).after.readcount := by
  obtain ⟨cut, taken⟩ := cut
  have beyond (inside : p.readcount < data.length) :=
    (readChars_past data 2047 (p.readcount + 1) inside).mpr cut
  rcases taken with ⟨there, taken⟩ | ⟨there, few⟩
  · obtain ⟨inside, -, same, -⟩ := executeCommand_at env there
    rw [same rfl, (executeString_takes env data _).stop]
    rcases executeString_unterminated env (p := { p with readcount := p.readcount + 1 }) cut
      with ⟨-, s, actions⟩ | ⟨skipped, -⟩
    · exact ⟨.execute s, by simp [actions], rfl, beyond inside⟩
    · exact absurd taken skipped
  · obtain ⟨inside, -, -, same⟩ := executeCommand_at env there
    rw [same rfl, (executeUserinfo_takes env data _).stop]
    rcases executeUserinfo_either env data { p with readcount := p.readcount + 1 }
      with ⟨-, s, actions⟩ | ⟨skipped, -⟩
    · exact ⟨.userinfo s, by simp [actions], rfl, beyond inside⟩
    · exact absurd few skipped

/-- The message is handled as it should be if and only if no string that is taken is without an
end. -/
theorem executeClientMessage_orderly_iff (env : Env) (data : List UInt8) (readcount : Nat)
    (client : Client) (alive : client.state ≠ .zombie) :
    Orderly data readcount (svExecuteClientMessage env data readcount client) ↔
      ∀ pass ∈ svExecuteClientMessage env data readcount client, ¬CutOff data pass.before := by
  have enough : Enough data (data.length + 1) { client, readcount } :=
    ⟨Nat.succ_pos _, by simp only; omega⟩
  have known := @passes_alive env data _ _ enough alive
  constructor
  · rintro orderly pass hmem cut
    obtain ⟨action, haction, kick, beyond⟩ := pass_cutOff env cut
    rw [← (known pass hmem).1] at haction beyond
    rcases orderly.whole pass hmem action haction with h | h
    · rw [kick] at h
      cases h
    · exact absurd beyond (not_lt.mpr h)
  · rintro whole
    constructor
    · rfl
    · exact passes_chain enough
    · exact passes_last enough
    · exact (passes_oneMove enough).2
    · rintro pass hmem
      rw [(known pass hmem).1]
      exact pass_source env data pass.before
    · rintro pass hmem
      have h := pass_whole env (whole pass hmem)
      rw [← (known pass hmem).1] at h
      exact h
    · rintro pass hmem
      exact (passes_truncated enough).2 alive pass hmem (whole pass hmem)

private def dullEnv : Env where
  curtime := 1000
  checkByte := fun _ => 0
  executeUserCommand := fun _ client => client
  userinfoChanged := id

/-- After the header of the channel the string command "kill", without its end. -/
private def cutKill : List UInt8 := [7, 0, 0, 0, 6, 0, 0, 0, 1, 2, 4, 107, 105, 108, 108]

theorem executes_cut_string :
    ¬Orderly cutKill 10 (svExecuteClientMessage dullEnv cutKill 10 { state := .spawned }) := by
  rintro orderly
  have whole := orderly.whole
  revert whole
  decide

theorem executeClientMessage_orderly_kill :
    Orderly (cutKill ++ [0]) 10
      (svExecuteClientMessage dullEnv (cutKill ++ [0]) 10 { state := .spawned }) :=
  (executeClientMessage_orderly_iff dullEnv (cutKill ++ [0]) 10 { state := .spawned }
    (by decide)).mpr (by decide +kernel)

end ClientMessage
