import Kpded2.UsercmdDelta

/-!
# `SV_RunMultiMoves`

Without `KINGPIN` a client may send several commands in one message. Its first byte has the number
of commands in three bits, and in five bits how many frames the frame that is acknowledged lies
behind the last one; 31 announces that the frame follows as a long. The function masks the number
of commands but does not shift it, and does not use the long.
-/
namespace MultiMoves
open ClientMessage (Read Usercmd nullUsercmd msgReadByte msgReadLong int32 uint32)
open MessageList (ClientState)
open UsercmdDelta (minorVersionR1q2UcmdUpdates)

def protocolR1q2 : Int := 35
def minorVersionR1q2 : Int := 1905
def latencyCounts : Nat := 64
def updateBackup : Nat := 16

/-- `senttime` is that of the client's `frames`. `SV_ClientThink` changes none of these fields. -/
structure Client where
  state : ClientState
  protocol : Int
  lastframe : Int := -1
  nodeltaframes : Nat := 0
  frameLatency : Nat → Int := fun _ => 0
  senttime : Nat → Int := fun _ => 0
  lastcmd : Usercmd := nullUsercmd
  idletime : Nat := 0
  moved : Bool := false

structure Env where
  curtime : Int
  allownodelta : Bool

inductive KickReason where
  | invalidOffset
  | nodelta
  | badRead
  | illegalMsec
  deriving DecidableEq

/-- `acknowledged` is the frame that is taken for the one the client has, and `commands` are those
that `SV_ClientThink` got. -/
structure Done where
  client : Client
  readcount : Nat
  acknowledged : Option Int := none
  commands : List Usercmd := []
  kicked : Option KickReason := none

def svKickClient (client : Client) (readcount : Nat) (reason : KickReason) : Done where
  client := { client with state := .zombie }
  readcount := readcount
  kicked := some reason

/-- The version that tells `MSG_ReadDeltaUsercmd` where the buttons are. -/
def Client.minor (client : Client) : Int :=
  if client.protocol = protocolR1q2 then minorVersionR1q2 else 0

def readCommand (data : List UInt8) (client : Client) (last : Usercmd) : Read Usercmd :=
  UsercmdDelta.msgReadDeltaUsercmd .quake2 client.minor last data

/-- `cl->lastcmd` stays as it was until the loop is over. -/
def noteActivity (client : Client) (move : Usercmd) : Client :=
  if move.buttons ≠ client.lastcmd.buttons ∨ move.forwardmove ≠ client.lastcmd.forwardmove ∨
      move.upmove ≠ client.lastcmd.upmove then { client with idletime := 0 }
  else client

/-- The loop over the commands. `move` has no value before the first of them. -/
def runMoves (data : List UInt8) : Nat → Usercmd → Usercmd → Nat → Client → Done
  | 0, _, move, readcount, client =>
    { client := { client with moved := true, lastcmd := move }, readcount }
  | nummoves + 1, last, _, readcount, client =>
    let (move, readcount) := readCommand data client last readcount
    if readcount > data.length then svKickClient client readcount .badRead
    else if client.state = .spawned ∧ move.msec > 250 then svKickClient client readcount .illegalMsec
    else
      let done := runMoves data nummoves move move readcount (noteActivity client move)
      { done with commands := move :: done.commands }

def noteFrame (env : Env) (client : Client) (lastframe : Int) : Client :=
  if lastframe = client.lastframe then client
  else if lastframe > 0 then
    let sent := client.senttime (lastframe.toNat % updateBackup)
    { client with
      lastframe
      frameLatency := Function.update client.frameLatency (lastframe.toNat % latencyCounts)
        (env.curtime - sent) }
  else { client with lastframe }

/-- `uninitialized` is what `move` happens to be. -/
def svRunMultiMoves (env : Env) (uninitialized : Usercmd) (data : List UInt8) (readcount : Nat)
    (client : Client) : Done :=
  let (c, readcount) := msgReadByte data readcount
  let nummoves := uint32 c &&& 0xE0
  let offset := uint32 c &&& 0x1F
  -- what is read here is overwritten below
  let readcount := if offset = 31 then (msgReadLong data readcount).2 else readcount
  if offset ≠ 31 ∧ client.lastframe = -1 then svKickClient client readcount .invalidOffset
  else
    let lastframe := int32 (client.lastframe + offset)
    let nodelta := lastframe = -1 ∧ client.lastframe = -1
    let client := { client with nodeltaframes := if nodelta then client.nodeltaframes + 1 else 0 }
    if nodelta ∧ client.nodeltaframes ≥ 100 ∧ ¬env.allownodelta then
      svKickClient client readcount .nodelta
    else
      let client := noteFrame env client lastframe
      if client.state ≠ .spawned then
        { client := { client with lastframe := -1 }, readcount, acknowledged := some lastframe }
      else
        { runMoves data nummoves nullUsercmd uninitialized readcount client with
          acknowledged := some lastframe }

/-! ## What the message says -/

/-- The first byte of the message. -/
def head (data : List UInt8) (readcount : Nat) : Nat := uint32 (msgReadByte data readcount).1

def offset (data : List UInt8) (readcount : Nat) : Nat := head data readcount % 32

/-- The top three bits. -/
def count (data : List UInt8) (readcount : Nat) : Nat := head data readcount / 32 % 8

def longFrame (data : List UInt8) (readcount : Nat) : Int := (msgReadLong data (readcount + 1)).1

/-- The frame that the message names. -/
def namedFrame (data : List UInt8) (readcount : Nat) (client : Client) : Int :=
  if offset data readcount = 31 then longFrame data readcount
  else int32 (client.lastframe + offset data readcount)

/-- Where the commands start. -/
def start (data : List UInt8) (readcount : Nat) : Nat :=
  if offset data readcount = 31 then readcount + 5 else readcount + 1

/-- The commands follow one another inside of the message, each as a delta from the one before. -/
def Decoded (data : List UInt8) (client : Client) : Usercmd → Nat → List Usercmd → Prop
  | _, _, [] => True
  | last, readcount, move :: moves =>
    (readCommand data client last readcount).1 = move ∧
      (readCommand data client last readcount).2 ≤ data.length ∧
      Decoded data client move (readCommand data client last readcount).2 moves

/-- The function does what the message says, whatever `move` was. -/
structure AsNamed (data : List UInt8) (readcount : Nat) (client : Client) (done : Done) : Prop where
  frame : ∀ f, done.acknowledged = some f → f = namedFrame data readcount client
  commands : client.state = .spawned → done.kicked = none →
    done.commands.length = count data readcount ∧
      Decoded data client nullUsercmd (start data readcount) done.commands
  last : done.kicked = none → done.client.lastcmd = done.commands.getLastD client.lastcmd

/-! ## The condition -/

/-- A client without a frame sent an offset to it. -/
abbrev Invalid (data : List UInt8) (readcount : Nat) (client : Client) : Prop :=
  offset data readcount ≠ 31 ∧ client.lastframe = -1

/-- From a command and its end to the next one. -/
def nextCommand (data : List UInt8) (client : Client) (move : Usercmd × Nat) : Usercmd × Nat :=
  readCommand data client move.1 move.2

/-- The message is over before the command is, or the command takes too long. -/
def Refused (data : List UInt8) (move : Usercmd × Nat) : Prop :=
  move.2 > data.length ∨ move.1.msec > 250

/-- The offset is refused, or a long that follows it says what the offset of 31 says; and if the
client is in the game, one of 32 times as many commands as he announced is refused. -/
def Harmless (data : List UInt8) (readcount : Nat) (client : Client) : Prop :=
  Invalid data readcount client ∨
    ((offset data readcount = 31 →
      longFrame data readcount = int32 (client.lastframe + (31 : Nat))) ∧
    (client.state = .spawned → ∃ k < 32 * count data readcount,
      Refused data ((nextCommand data client)^[k + 1] (nullUsercmd, start data readcount))))

variable {data : List UInt8} {readcount nummoves : Nat} {client : Client} {last move : Usercmd}

theorem mask_count (n : Nat) : n &&& 0xE0 = 32 * (n / 32 % 8) := by
  have shifted : 32 * (n / 32 % 8) = (n / 2 ^ 5 % 2 ^ 3) <<< 5 := by
    rw [Nat.shiftLeft_eq]
    omega
  have mask : 0xE0 = (2 ^ 3 - 1) <<< 5 := rfl
  rw [shifted, mask]
  refine Nat.eq_of_testBit_eq fun i => ?_
  simp only [Nat.testBit_and, Nat.testBit_shiftLeft, Nat.testBit_mod_two_pow,
    Nat.testBit_two_pow_sub_one, Nat.testBit_div_two_pow]
  by_cases high : 5 ≤ i
  · have position : i - 5 + 5 = i := Nat.sub_add_cancel high
    simp only [high, decide_true, Bool.true_and, position]
    exact Bool.and_comm _ _
  · simp only [high, decide_false, Bool.false_and, Bool.and_false]

theorem mask_offset (n : Nat) : n &&& 0x1F = n % 32 := Nat.and_two_pow_sub_one_eq_mod n 5

theorem noteActivity_state : (noteActivity client move).state = client.state := by
  simp only [noteActivity]
  split <;> rfl

theorem noteActivity_nextCommand :
    nextCommand data (noteActivity client move) = nextCommand data client := by
  simp only [noteActivity]
  split <;> rfl

/-- What one pass of the loop does. -/
theorem runMoves_succ (data : List UInt8) (nummoves : Nat) (last move : Usercmd) (readcount : Nat)
    (client : Client) (spawned : client.state = .spawned) :
    (Refused data (nextCommand data client (last, readcount)) ∧
      (runMoves data (nummoves + 1) last move readcount client).kicked ≠ none) ∨
    (¬Refused data (nextCommand data client (last, readcount)) ∧
      runMoves data (nummoves + 1) last move readcount client =
        let next := nextCommand data client (last, readcount)
        let done := runMoves data nummoves next.1 next.1 next.2 (noteActivity client next.1)
        { done with commands := next.1 :: done.commands }) := by
  have pass : runMoves data (nummoves + 1) last move readcount client =
      let next := nextCommand data client (last, readcount)
      if next.2 > data.length then svKickClient client next.2 .badRead
      else if client.state = .spawned ∧ next.1.msec > 250 then
        svKickClient client next.2 .illegalMsec
      else
        let done := runMoves data nummoves next.1 next.1 next.2 (noteActivity client next.1)
        { done with commands := next.1 :: done.commands } := rfl
  rw [pass]
  dsimp only
  split
  · rename_i truncated
    exact Or.inl ⟨Or.inl truncated, Option.some_ne_none _⟩
  rename_i whole
  split
  · rename_i illegal
    exact Or.inl ⟨Or.inr illegal.2, Option.some_ne_none _⟩
  · rename_i legal
    refine Or.inr ⟨?_, rfl⟩
    rintro (truncated | illegal)
    · exact whole truncated
    · exact legal ⟨spawned, illegal⟩

/-- The client is kicked exactly if a command is refused. -/
theorem runMoves_kicked_iff (spawned : client.state = .spawned) :
    (runMoves data nummoves last move readcount client).kicked ≠ none ↔
      ∃ k < nummoves, Refused data ((nextCommand data client)^[k + 1] (last, readcount)) := by
  induction nummoves generalizing last move readcount client with
  | zero => exact iff_of_false (fun h => h rfl) fun ⟨k, hk, _⟩ => Nat.not_lt_zero k hk
  | succ n ih =>
    rcases runMoves_succ data n last move readcount client spawned with
      ⟨refused, kicked⟩ | ⟨accepted, run⟩
    · exact iff_of_true kicked ⟨0, Nat.succ_pos n, refused⟩
    · rw [run]
      refine (ih (noteActivity_state.trans spawned)).trans ?_
      rw [noteActivity_nextCommand]
      constructor
      · rintro ⟨k, hk, refused⟩
        exact ⟨k + 1, Nat.succ_lt_succ hk, refused⟩
      · rintro ⟨k, hk, refused⟩
        cases k with
        | zero => exact absurd refused accepted
        | succ k => exact ⟨k, Nat.lt_of_succ_lt_succ hk, refused⟩

/-- Unless the client is kicked, as many commands are run as are announced. -/
theorem runMoves_length (spawned : client.state = .spawned)
    (kept : (runMoves data nummoves last move readcount client).kicked = none) :
    (runMoves data nummoves last move readcount client).commands.length = nummoves := by
  induction nummoves generalizing last move readcount client with
  | zero => rfl
  | succ n ih =>
    rcases runMoves_succ data n last move readcount client spawned with
      ⟨-, kicked⟩ | ⟨-, run⟩
    · exact absurd kept kicked
    · rw [run] at kept ⊢
      exact congrArg (· + 1) (ih (noteActivity_state.trans spawned) kept)

/-! ## The whole function -/

/-- The client before the loop. -/
def framed (env : Env) (client : Client) (lastframe : Int) : Client :=
  noteFrame env { client with nodeltaframes := 0 } lastframe

theorem framed_state (env : Env) (client : Client) (lastframe : Int) :
    (framed env client lastframe).state = client.state ∧
      (framed env client lastframe).lastcmd = client.lastcmd ∧
      nextCommand data (framed env client lastframe) = nextCommand data client := by
  simp only [framed, noteFrame]
  split
  · exact ⟨rfl, rfl, rfl⟩
  · split
    · exact ⟨rfl, rfl, rfl⟩
    · exact ⟨rfl, rfl, rfl⟩

/-- The test for packets without delta is never met: a client without a frame has to send 31. -/
theorem svRunMultiMoves_eq (env : Env) (uninitialized : Usercmd) :
    svRunMultiMoves env uninitialized data readcount client =
      if Invalid data readcount client then
        svKickClient client (start data readcount) .invalidOffset
      else
        let lastframe := int32 (client.lastframe + offset data readcount)
        let client := framed env client lastframe
        if client.state ≠ .spawned then
          { client := { client with lastframe := -1 }
            readcount := start data readcount
            acknowledged := some lastframe }
        else
          { runMoves data (32 * count data readcount) nullUsercmd uninitialized
              (start data readcount) client with
            acknowledged := some lastframe } := by
  obtain ⟨c, byte⟩ : ∃ c, msgReadByte data readcount = (c, readcount + 1) := ⟨_, rfl⟩
  have bits : uint32 c &&& 0xE0 = 32 * count data readcount := by
    rw [mask_count, count, head, byte]
  have behind : uint32 c &&& 0x1F = offset data readcount := by
    rw [mask_offset, offset, head, byte]
  have commands : (if offset data readcount = 31 then (msgReadLong data (readcount + 1)).2
      else readcount + 1) = start data readcount := rfl
  simp only [svRunMultiMoves, byte, bits, behind, commands]
  by_cases invalid : Invalid data readcount client
  · rw [if_pos invalid, if_pos invalid]
  rw [if_neg invalid, if_neg invalid]
  have delta : ¬(int32 (client.lastframe + offset data readcount) = -1 ∧ client.lastframe = -1) := by
    rintro ⟨sum, none⟩
    have far : offset data readcount = 31 := not_not.mp fun near => invalid ⟨near, none⟩
    rw [far, none] at sum
    revert sum
    decide
  rw [if_neg (fun h => delta h.1)]
  simp only [if_neg delta]
  rfl

theorem asNamed_invalid (env : Env) (uninitialized : Usercmd) (invalid : Invalid data readcount client) :
    AsNamed data readcount client (svRunMultiMoves env uninitialized data readcount client) := by
  rw [svRunMultiMoves_eq, if_pos invalid]
  constructor
  · rintro f ⟨⟩
  · rintro - ⟨⟩
  · rintro ⟨⟩

theorem asNamed_waiting (env : Env) (uninitialized : Usercmd)
    (valid : ¬Invalid data readcount client) (waiting : client.state ≠ .spawned) :
    AsNamed data readcount client (svRunMultiMoves env uninitialized data readcount client) ↔
      int32 (client.lastframe + offset data readcount) = namedFrame data readcount client := by
  obtain ⟨state, lastcmd, -⟩ :=
    @framed_state data env client (int32 (client.lastframe + offset data readcount))
  rw [svRunMultiMoves_eq, if_neg valid]
  dsimp only
  rw [state, if_pos waiting]
  constructor
  · exact fun named => named.frame _ rfl
  · intro right
    constructor
    · rintro f ⟨⟩
      exact right
    · exact fun spawned => absurd spawned waiting
    · exact fun _ => lastcmd

/-- A client in the game never gets along with what he announced. -/
theorem asNamed_spawned (env : Env) (valid : ¬Invalid data readcount client)
    (spawned : client.state = .spawned) :
    (∀ uninitialized, AsNamed data readcount client
      (svRunMultiMoves env uninitialized data readcount client)) ↔
    int32 (client.lastframe + offset data readcount) = namedFrame data readcount client ∧
      ∃ k < 32 * count data readcount,
        Refused data ((nextCommand data client)^[k + 1] (nullUsercmd, start data readcount)) := by
  obtain ⟨state, -, next⟩ :=
    @framed_state data env client (int32 (client.lastframe + offset data readcount))
  have inGame := state.trans spawned
  have run (uninitialized : Usercmd) :
      svRunMultiMoves env uninitialized data readcount client =
        { runMoves data (32 * count data readcount) nullUsercmd uninitialized
            (start data readcount)
            (framed env client (int32 (client.lastframe + offset data readcount))) with
          acknowledged := some (int32 (client.lastframe + offset data readcount)) } := by
    rw [svRunMultiMoves_eq, if_neg valid]
    dsimp only
    rw [inGame, if_neg (not_not.mpr rfl)]
  have kicked (uninitialized : Usercmd) := @runMoves_kicked_iff data (start data readcount)
    (32 * count data readcount) _ nullUsercmd uninitialized inGame
  simp only [next] at kicked
  constructor
  · intro named
    have right := (named nullUsercmd).frame
    rw [run] at right
    refine ⟨right _ rfl, ?_⟩
    by_contra accepted
    have kept (uninitialized : Usercmd) := not_not.mp fun out => accepted ((kicked uninitialized).mp out)
    have length := ((named nullUsercmd).commands spawned (by rw [run]; exact kept nullUsercmd)).1
    rw [run] at length
    have longer := runMoves_length inGame (kept nullUsercmd)
    have none : 32 * count data readcount = 0 := by
      have := longer.symm.trans length
      omega
    -- nothing has been read, and the client gets whatever `move` was
    have last (uninitialized : Usercmd) : uninitialized = client.lastcmd := by
      have lastcmd := (named uninitialized).last (by rw [run]; exact kept uninitialized)
      rw [run, none] at lastcmd
      exact lastcmd
    have clash := (last nullUsercmd).trans (last { nullUsercmd with msec := 1 }).symm
    revert clash
    decide
  · rintro ⟨right, refused⟩ uninitialized
    have out := (kicked uninitialized).mpr refused
    rw [run]
    constructor
    · rintro f ⟨⟩
      exact right
    · exact fun _ kept => absurd kept out
    · exact fun kept => absurd kept out

/-- The function does what the message says if and only if the offset is refused, or the frame is
right by chance and the client is not in the game or is kicked. -/
theorem multimoves_iff (env : Env) (data : List UInt8) (readcount : Nat) (client : Client) :
    (∀ uninitialized, AsNamed data readcount client
      (svRunMultiMoves env uninitialized data readcount client)) ↔
    Harmless data readcount client := by
  have frame : int32 (client.lastframe + offset data readcount) = namedFrame data readcount client ↔
      (offset data readcount = 31 →
        longFrame data readcount = int32 (client.lastframe + (31 : Nat))) := by
    rw [namedFrame]
    by_cases far : offset data readcount = 31
    · rw [if_pos far, far]
      exact ⟨fun h _ => h.symm, fun h => (h rfl).symm⟩
    · rw [if_neg far]
      exact iff_of_true rfl fun h => absurd h far
  rw [Harmless, ← frame]
  by_cases invalid : Invalid data readcount client
  · exact iff_of_true (fun uninitialized => asNamed_invalid env uninitialized invalid) (Or.inl invalid)
  refine Iff.trans ?_ (or_iff_right invalid).symm
  by_cases spawned : client.state = .spawned
  · rw [asNamed_spawned env invalid spawned]
    exact and_congr_right fun _ => ⟨fun h _ => h, fun h => h spawned⟩
  · rw [and_iff_left fun h => absurd h spawned]
    constructor
    · exact fun named => (asNamed_waiting env nullUsercmd invalid spawned).mp (named nullUsercmd)
    · exact fun right uninitialized =>
        (asNamed_waiting env uninitialized invalid spawned).mpr right

private def watching : Client where
  state := .spawned
  protocol := protocolR1q2
  lastframe := 5

/-- Offset 31, then the frame 10. -/
theorem long_overwritten : ¬∀ uninitialized, AsNamed [31, 10, 0, 0, 0] 0 watching
    (svRunMultiMoves ⟨0, false⟩ uninitialized [31, 10, 0, 0, 0] 0 watching) := by
  intro named
  have frame := (named nullUsercmd).frame 36 (by decide)
  revert frame
  decide

end MultiMoves
