import Kpded2.Bytes
import Kpded2.ClientMessage
import Kpded2.StepRuns

/-!
# The time of a client's commands

With `sv_enforcetime` on, a client is granted `sv_msecs` every 16 frames; what it is granted
when it begins is what is left of these frames. The grants of `SV_GiveMsec` and the packets
of the client are the steps of a run. Of the string commands only those are spelled out that
change the client's state. What a refused command takes is taken off `commandMsec` as well: an
`int` that is overdrawn far enough wraps around.
-/
namespace CommandTime
open MessageList (ClientState)
open Bytes (ascii)
open ClientMessage StepRuns

/-! ## String commands -/

inductive ServerState where
  | dead
  | loading
  | game
  | cinematic
  | demo
  | pic
  deriving DecidableEq

/-- `msecs` is the variable `sv_msecs`, an `int`. -/
structure Level where
  state : ServerState
  coop : Bool := false
  msecs : Int
  fits : msecs < 2 ^ 31 := by decide

def svDropClient (client : Client) : Client := { client with state := .zombie }

/-- What a string command asks for, with what decides about it that is not modelled. -/
inductive UserCommand where
  | new (banned : Bool)
  | begin (spawncount : Int) (newPak unanswered banned : Bool)
  | download (banned : Bool)
  | nextserver (spawncount : Int)
  | other (drops : Bool) (edit : Client → Client)

def svNewF (level : Level) (banned : Bool) (client : Client) : Client :=
  match client.state with
  | .connected =>
    if level.state = .demo then client
    else if banned then svDropClient client
    else
      { client with
        state := .spawning
        spawncount := client.levelSpawncount
        lastcmd := if level.state = .game then nullUsercmd else client.lastcmd }
  | .spawning => svDropClient client
  | _ => client

def svClientBegin (level : Level) (framenum : Nat) (unanswered banned : Bool) (client : Client) :
    Client :=
  if unanswered then svDropClient client
  else if client.spawncount ≠ client.levelSpawncount then
    svNewF level banned { client with state := .connected }
  else
    { client with
      state := .spawned
      commandMsec := int32 (level.msecs - (framenum % 16 : Nat) * 100)
      totalMsecUsed := 0
      initialRealTime := 0 }

def svBeginF (level : Level) (framenum : Nat) (spawncount : Int)
    (newPak unanswered banned : Bool) (client : Client) : Client :=
  if client.state ≠ .spawning then svDropClient client
  else if newPak then svDropClient client
  else if spawncount ≠ client.levelSpawncount then
    svNewF level banned { client with state := .connected }
  else svClientBegin level framenum unanswered banned { client with spawncount }

/-- The rest of a download is no concern here. -/
def svBeginDownloadF (level : Level) (banned : Bool) (client : Client) : Client :=
  if client.spawncount ≠ client.levelSpawncount then
    svNewF level banned { client with state := .connected }
  else client

def svNextserverF (level : Level) (spawncount : Int) (client : Client) : Client :=
  if spawncount ≠ client.levelSpawncount then client
  else if level.state = .game ∨ level.state = .pic ∧ ¬level.coop then client
  else { client with levelSpawncount := client.levelSpawncount + 1 }

/-- What does not spawn the client can still drop it and change its other fields. -/
def svOther (drops : Bool) (edit : Client → Client) (client : Client) : Client :=
  { edit client with
    state := if drops then .zombie else client.state
    spawncount := client.spawncount
    levelSpawncount := client.levelSpawncount
    commandMsec := client.commandMsec
    totalMsecUsed := client.totalMsecUsed
    initialRealTime := client.initialRealTime }

def svExecuteUserCommand (level : Level) (framenum : Nat) :
    UserCommand → Client → Client
  | .new banned => svNewF level banned
  | .begin spawncount newPak unanswered banned =>
    svBeginF level framenum spawncount newPak unanswered banned
  | .download banned => svBeginDownloadF level banned
  | .nextserver spawncount => svNextserverF level spawncount
  | .other drops edit => svOther drops edit

/-! ## Grants and packets -/

/-- `handed` is the time of the commands run since the last grant, `asked` that of all commands. -/
structure Run where
  client : Client
  handed : Nat := 0
  asked : Nat := 0

structure Packet where
  env : Env
  command : List UInt8 → Client → UserCommand
  badUserinfo : List UInt8 → Bool
  editUserinfo : Client → Client
  framenum : Nat
  data : List UInt8
  readcount : Nat
  dropped : Nat
  inDropped : Nat

inductive Op where
  | packet (packet : Packet)
  | giveMsec (framenum lastReceived : Nat) (overflows : Bool)
  | drop

def Packet.server (packet : Packet) (level : Level) : Env :=
  { packet.env with
    enforcetime := true
    executeUserCommand := fun s client =>
      svExecuteUserCommand level packet.framenum (packet.command s client) client
    userinfoChanged := fun client =>
      svOther (packet.badUserinfo client.userinfo) packet.editUserinfo client }

def finalClient (passes : List Pass) (client : Client) : Client :=
  match passes.getLast? with
  | some pass => pass.after.client
  | none => client

def actionsOf (passes : List Pass) : List Action := passes.flatMap fun pass => pass.actions

/-- A packet of a client that is there and not leaving. -/
def readPacket (level : Level) (s : Run) (packet : Packet) : Run :=
  if s.client.state = .free ∨ s.client.state = .zombie then s
  else
    let client :=
      { s.client with dropped := packet.dropped, inDropped := packet.inDropped }
    let passes := svExecuteClientMessage (packet.server level) packet.data packet.readcount client
    { client := finalClient passes client
      handed := s.handed + handedTime (actionsOf passes)
      asked := s.asked + askedTime (actionsOf passes) }

/-- `overflows` says whether the client's overflow count is above the limit. -/
def svGiveMsec (level : Level) (framenum lastReceived : Nat) (overflows : Bool) (s : Run) : Run :=
  if framenum % 16 ≠ 0 then s
  else if s.client.state = .free ∨ s.client.state = .zombie then s
  else if ¬s.client.moved then s
  else if s.client.state = .spawned then
    if s.client.initialRealTime ≠ 0 ∧ overflows then { s with client := svDropClient s.client }
    else
      { client :=
          { s.client with
            totalMsecUsed := 0
            initialRealTime := lastReceived
            commandMsec := level.msecs } }
  else { client := { s.client with commandMsec := level.msecs } }

def step (level : Level) (s : Run) : Op → Run
  | .packet packet => readPacket level s packet
  | .giveMsec framenum lastReceived overflows => svGiveMsec level framenum lastReceived overflows s
  | .drop => { s with client := svDropClient s.client }

/-! ## The budget -/

/-- So much has not been asked for that `commandMsec` wraps around. -/
def Bounded (level : Level) (asked : Nat) : Prop := asked + 1500 ≤ 2 ^ 31 + level.msecs

instance (level : Level) (asked : Nat) : Decidable (Bounded level asked) :=
  inferInstanceAs (Decidable (_ ≤ _))

/-- What has been run and what is left do not exceed what was granted. -/
structure Within (level : Level) (client : Client) (handed asked : Nat) : Prop where
  bounded : handed ≤ level.msecs.toNat
  spawned : client.state = .spawned →
    handed + max client.commandMsec 0 ≤ level.msecs.toNat ∧
      level.msecs - 1500 - asked ≤ client.commandMsec ∧
      client.spawncount = client.levelSpawncount
  coming : client.state ≠ .spawned → client.state ≠ .zombie → handed = 0

/-- A level is played, and no client can leave it behind. -/
def Level.Playing (level : Level) : Prop :=
  level.state = .game ∨ level.state = .pic ∧ ¬level.coop

instance (level : Level) : Decidable level.Playing := inferInstanceAs (Decidable (_ ∨ _))

variable {level : Level} {client after : Client} {handed asked : Nat}

theorem Within.zombie (h : Within level client handed asked) (zombie : after.state = .zombie) :
    Within level after handed asked where
  bounded := h.bounded
  spawned := by simp [zombie]
  coming := by simp [zombie]

/-- A client that is not in the game yet has run nothing. -/
theorem Within.arriving (arriving : after.state ≠ .spawned) : Within level after 0 asked where
  bounded := Nat.zero_le _
  spawned := fun h => absurd h arriving
  coming := fun _ _ => rfl

theorem Within.same (h : Within level client handed asked) (state : after.state = client.state)
    (commandMsec : after.commandMsec = client.commandMsec)
    (spawncount : after.spawncount = client.spawncount)
    (levelSpawncount : after.levelSpawncount = client.levelSpawncount) :
    Within level after handed asked where
  bounded := h.bounded
  spawned := by
    rw [state, commandMsec, spawncount, levelSpawncount]
    exact h.spawned
  coming := by
    rw [state]
    exact h.coming

/-- What is handed out stays within what was granted. -/
theorem Within.charged {env : Env} {actions : List Action} (h : Within level client handed asked)
    (enforced : env.enforcetime = true) (charged : Charged env client after actions)
    (spawned : actions = [] ∨ client.state = .spawned)
    (fits : Bounded level (asked + askedTime actions)) :
    Within level after (handed + handedTime actions) (asked + askedTime actions) := by
  have int := level.fits
  simp only [Bounded, Nat.cast_add] at fits
  have paid : client.state = .spawned →
      after.commandMsec = client.commandMsec - askedTime actions ∧
        handedTime actions + max after.commandMsec 0 ≤ max client.commandMsec 0 := by
    intro spawned
    have before := h.spawned spawned
    exact charged.paid enforced (by omega) (by omega)
  rcases spawned with rfl | spawned
  · constructor
    · exact h.bounded
    · rw [charged.state, charged.spawncount, charged.levelSpawncount]
      intro spawned
      have before := h.spawned spawned
      have paid := paid spawned
      simp only [handedTime, askedTime] at paid ⊢
      omega
    · rw [charged.state]
      exact h.coming
  · have before := h.spawned spawned
    have paid := paid spawned
    constructor
    · omega
    · rw [charged.spawncount, charged.levelSpawncount]
      rintro -
      refine ⟨by omega, ?_, before.2.2⟩
      rw [Nat.cast_add]
      omega
    · simp [charged.state, spawned]

theorem Within.svNewF (h : Within level client handed asked) (banned : Bool) :
    Within level (svNewF level banned client) handed asked := by
  simp only [CommandTime.svNewF]
  split
  · rename_i connected
    obtain rfl := h.coming (by simp [connected]) (by simp [connected])
    split
    · exact h
    split
    · exact h.zombie rfl
    · exact .arriving (by simp)
  · exact h.zombie rfl
  · exact h

/-- Who is not in the level yet has run nothing when sent back to `new`. -/
theorem Within.restart (h : Within level client handed asked) (alive : client.state ≠ .zombie)
    (other : client.spawncount ≠ client.levelSpawncount) (banned : Bool) :
    Within level (CommandTime.svNewF level banned { client with state := .connected }) handed
      asked := by
  have coming : client.state ≠ .spawned := fun spawned => other (h.spawned spawned).2.2
  obtain rfl := h.coming coming alive
  exact Within.svNewF (.arriving (by simp)) banned

/-- What is granted to a client that begins is no more than `sv_msecs`. -/
theorem Within.svClientBegin (h : Within level client 0 asked) (fits : Bounded level asked)
    (framenum : Nat) (alive : client.state ≠ .zombie) (unanswered banned : Bool) :
    Within level (svClientBegin level framenum unanswered banned client) 0 asked := by
  simp only [CommandTime.svClientBegin]
  split
  · exact h.zombie rfl
  split
  · rename_i other
    exact h.restart alive other banned
  · rename_i same
    have int := level.fits
    simp only [Bounded] at fits
    have exact : int32 (level.msecs - (framenum % 16 : Nat) * 100) =
        level.msecs - (framenum % 16 : Nat) * 100 := Int.bmod_eq_of_le (by omega) (by omega)
    refine ⟨Nat.zero_le _, fun _ => ?_, fun _ _ => rfl⟩
    simp only [exact]
    exact ⟨by omega, by omega, not_not.mp same⟩

theorem Within.svExecuteUserCommand (h : Within level client handed asked)
    (fits : Bounded level asked) (alive : client.state ≠ .zombie) (playing : level.Playing)
    (framenum : Nat) (command : UserCommand) :
    Within level (svExecuteUserCommand level framenum command client) handed asked := by
  cases command with
  | new banned => exact h.svNewF banned
  | begin spawncount newPak unanswered banned =>
    simp only [CommandTime.svExecuteUserCommand, svBeginF]
    split
    · exact h.zombie rfl
    rename_i spawning
    rw [not_not] at spawning
    obtain rfl := h.coming (by simp [spawning]) alive
    split
    · exact h.zombie rfl
    split
    · exact Within.svNewF (.arriving (by simp)) banned
    · exact Within.svClientBegin (.arriving (by simp [spawning])) fits framenum (by simp [spawning])
        unanswered banned
  | download banned =>
    simp only [CommandTime.svExecuteUserCommand, svBeginDownloadF]
    split
    · rename_i other
      exact h.restart alive other banned
    · exact h
  | nextserver spawncount =>
    simp only [CommandTime.svExecuteUserCommand, svNextserverF, if_pos (show _ ∨ _ from playing)]
    split <;> exact h
  | other drops edit =>
    cases drops with
    | true => exact h.zombie rfl
    | false => exact h.same rfl rfl rfl rfl

theorem Within.svOther (h : Within level client handed asked) (drops : Bool)
    (edit : Client → Client) : Within level (svOther drops edit client) handed asked := by
  cases drops with
  | true => exact h.zombie rfl
  | false => exact h.same rfl rfl rfl rfl

/-! ## A packet -/

/-- One pass of the loop over the commands of a packet. -/
theorem within_pass (playing : level.Playing) (packet : Packet) {data : List UInt8} {p : Progress}
    (h : Within level p.client handed asked) (alive : p.client.state ≠ .zombie)
    (fits : Bounded level
      (asked + askedTime (executeCommand (packet.server level) data p).actions)) :
    Within level (executeCommand (packet.server level) data p).after.client
      (handed + handedTime (executeCommand (packet.server level) data p).actions)
      (asked + askedTime (executeCommand (packet.server level) data p).actions) := by
  by_cases past : data.length < p.readcount
  · rw [executeCommand_past _ past]
    exact h.zombie rfl
  · cases executeCommand_cases (packet.server level) (not_lt.mp past) with
    | kicked q reason same =>
      rw [same]
      exact h.zombie rfl
    | finished idle ends inside charged =>
      rw [idle]
      exact h.charged rfl charged (.inl rfl) (idle ▸ fits)
    | inside goesOn forward inside charged spawned => exact h.charged rfl charged spawned fits
    | string starts takes =>
      have idle : handedTime _ = 0 :=
        Nat.le_zero.mp (takes.asksNothing ▸ handedTime_le_askedTime _)
      rw [takes.asksNothing, Nat.add_zero] at fits ⊢
      rw [idle, Nat.add_zero]
      rcases takes.client with same | ⟨s, same⟩ | ⟨userinfo, same⟩
      · rw [same]
        exact h
      · rw [same]
        exact h.svExecuteUserCommand fits alive playing packet.framenum _
      · rw [same]
        have noted : Within level { p.client with userinfo } handed asked := h.same rfl rfl rfl rfl
        exact noted.svOther _ _

/-- All passes over a packet keep the commands within the time that was granted. -/
theorem within_passes (playing : level.Playing) (packet : Packet) {data : List UInt8} {fuel : Nat}
    {p : Progress} (enough : Enough data fuel p) :
    ∀ client handed asked, Within level p.client handed asked → p.client.state ≠ .zombie →
      Bounded level (asked + askedTime (actionsOf (passes (packet.server level) data fuel p))) →
      Within level (finalClient (passes (packet.server level) data fuel p) client)
        (handed + handedTime (actionsOf (passes (packet.server level) data fuel p)))
        (asked + askedTime (actionsOf (passes (packet.server level) data fuel p))) := by
  refine passes_induction (packet.server level) data (P := fun p run => ∀ client handed asked,
    Within level p.client handed asked → p.client.state ≠ .zombie →
      Bounded level (asked + askedTime (actionsOf run)) →
      Within level (finalClient run client) (handed + handedTime (actionsOf run))
        (asked + askedTime (actionsOf run))) ?_ ?_ enough
  · rintro p - client handed asked h alive fits
    simpa [actionsOf, finalClient] using within_pass playing packet h alive
      (by simpa [actionsOf] using fits)
  · rintro p rest goesOn head ih client handed asked h alive fits
    simp only [actionsOf, List.flatMap_cons, askedTime_append, ← Nat.add_assoc] at fits
    have first := @within_pass _ _ _ playing packet data _ h alive (by
      simp only [Bounded] at fits ⊢
      omega)
    have next := ih client _ _ first (goesOn_alive _ alive goesOn) fits
    cases rest with
    | nil => cases head
    | cons second rest =>
      simpa [actionsOf, finalClient, handedTime_append, askedTime_append, Nat.add_assoc,
        List.getLast?_cons] using next

/-- Every operation keeps the commands within the time that was granted. -/
theorem within_step (playing : level.Playing) (s : Run) (op : Op)
    (h : Within level s.client s.handed s.asked) (fits : Bounded level (step level s op).asked) :
    Within level (step level s op).client (step level s op).handed (step level s op).asked := by
  cases op with
  | packet packet =>
    simp only [step, readPacket] at fits ⊢
    split at fits
    · rename_i gone
      rw [if_pos gone]
      exact h
    · rename_i there
      rw [if_neg there]
      rw [not_or] at there
      have start : Within level
          { s.client with dropped := packet.dropped, inDropped := packet.inDropped } s.handed
          s.asked := h.same rfl rfl rfl rfl
      exact within_passes playing packet ⟨Nat.succ_pos _, by simp only; omega⟩ s.client _ _ start
        there.2 fits
  | giveMsec framenum lastReceived overflows =>
    simp only [step, svGiveMsec]
    split
    · exact h
    split
    · exact h
    split
    · exact h
    split
    · rename_i spawned
      split
      · exact h.zombie rfl
      · exact ⟨Nat.zero_le _,
          fun _ => ⟨by simp only; omega, by simp only; omega, (h.spawned spawned).2.2⟩,
          fun _ _ => rfl⟩
    · rename_i there _ spawned
      exact .arriving spawned
  | drop => exact h.zombie rfl

/-- The passes of a catch-up loop are as many as it takes to bring `msec` to 0. -/
theorem catchUp_terminates (msec : Int) :
    ∃ n ≤ msec.toNat, (fun left : Int => left - (repeatTime left).toNat)^[n] msec ≤ 0 := by
  induction hleft : msec.toNat using Nat.strongRecOn generalizing msec with
  | ind left ih =>
    by_cases more : 0 < msec
    · have time := repeatTime_toNat more
      obtain ⟨n, hn, ends⟩ := ih (msec - (repeatTime msec).toNat).toNat (by omega) _ rfl
      exact ⟨n + 1, by omega, by rwa [Function.iterate_succ_apply]⟩
    · exact ⟨0, Nat.zero_le _, not_lt.mp more⟩

/-- While a level is played, the commands run between two grants take no more time than was
granted, unless so many are sent that `commandMsec` wraps around; and every catch-up loop ends. -/
theorem handed_le_granted (level : Level) (playing : level.Playing) (client : Client)
    (connected : client.state = .connected) (ops : List Op)
    (fits : AllSteps (step level) (fun s op => Bounded level (step level s op).asked) { client }
      ops) :
    (run (step level) { client } ops).handed ≤ level.msecs.toNat ∧
      ∀ msec : Int, ∃ n ≤ msec.toNat,
        (fun left : Int => left - (repeatTime left).toNat)^[n] msec ≤ 0 := by
  have start : Within level client 0 0 := .arriving (by simp [connected])
  have within := @invariant_run Run Op (step level) _
    (fun s => Within level s.client s.handed s.asked) (within_step playing) { client } ops start fits
  exact ⟨within.bounded, catchUp_terminates⟩

private def stringcmd (s : String) : List UInt8 := 4 :: (ascii s ++ [0])

/-- Three user commands of 250 milliseconds, after a checksum and a frame number. -/
private def longMove : List UInt8 := [2, 0, 1, 0, 0, 0, 0, 250, 0, 0, 250, 0, 0, 250, 0]

private def exampleCommands (s : List UInt8) : UserCommand :=
  if s = ascii "new" then .new false
  else if s = ascii "begin 1" then .begin 1 false false false
  else if s = ascii "begin 2" then .begin 2 false false false
  else if s = ascii "download a" then .download false
  else if s = ascii "nextserver 1" then .nextserver 1
  else .other false id

private def examplePacket (data : List UInt8) : Packet where
  env :=
    { curtime := 5000, checkByte := fun _ => 0, executeUserCommand := fun _ client => client,
      userinfoChanged := id }
  command := fun s _ => exampleCommands s
  badUserinfo := fun _ => false
  editUserinfo := id
  framenum := 0
  data := data
  readcount := 0
  dropped := 0
  inDropped := 0

private def arrival : List Op :=
  [.packet (examplePacket (stringcmd "new" ++ stringcmd "begin 1" ++ longMove)),
    .giveMsec 16 5000 false, .packet (examplePacket longMove)]

/-- In a cinematic a client can have the level counted up and begin again. -/
theorem begins_again_in_cinematic :
    ¬(run (step { state := .cinematic, msecs := 250 })
      { client := { state := .connected, levelSpawncount := 1 } }
      (arrival ++ [.packet (examplePacket (stringcmd "nextserver 1" ++ stringcmd "download a" ++
        stringcmd "begin 2" ++ longMove))])).handed ≤ 250 := by
  decide

theorem handed_le_granted_arrival :
    (run (step { state := .game, msecs := 1800 })
      { client := { state := .connected, levelSpawncount := 1 } } arrival).handed ≤ 1800 :=
  (handed_le_granted { state := .game, msecs := 1800 } (by decide)
    { state := .connected, levelSpawncount := 1 } rfl arrival (by decide)).1

end CommandTime
