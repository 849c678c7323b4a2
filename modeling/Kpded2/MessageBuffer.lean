import Kpded2.MessageList
import Kpded2.StepRuns

/-!
# The buffer of the message that is being written

The game writes a message into one buffer and then says to whom it goes. The functions that send it
have to empty the buffer, as the next message is written behind what is left in it.
-/
namespace MessageBuffer
open MessageList Outcome SizeBuf StepRuns

def messageBuffSize : Nat := 65536

def multicastAll : Int := 0
def multicastAllR : Int := 3
def multicastPvsR : Int := 5

def svcMuzzleflash2 : UInt8 := 2
def svcDisconnect : UInt8 := 9
def svcCenterprint : UInt8 := 17

def csImages : Nat := 672
def maxImages : Nat := 256

/-- Three floats. -/
abbrev Origin := List UInt32

/-- `hears` is the test of the areas and of the row of the origin for a client. -/
structure Env where
  maxclients : Nat
  forceReconnect : Bool
  disconnectHack : Bool
  noents : Nat → Bool
  hears : Origin → Int → Nat → Bool

/-- `leftover` is what earlier messages have left behind the message in `message_buff`, and `demo`
the multicast buffer of a demo that is recorded. -/
structure Server where
  msgbuff : List UInt8
  leftover : List UInt8
  clients : Nat → Client
  dropme : Nat → Bool
  demo : Option Sizebuf

def msgWrite (bytes : List UInt8) (s : Server) : Except Stop Server :=
  if s.msgbuff.length + bytes.length > messageBuffSize then .error .comError
  else .ok { s with msgbuff := s.msgbuff ++ bytes, leftover := s.leftover.drop bytes.length }

def msgFreeData (s : Server) : Server :=
  { s with msgbuff := [], leftover := s.msgbuff ++ s.leftover }

/-- A layout that is too long stays truncated in the buffer. -/
def seenBy (env : Env) (client : Client) (msg : Msgbuff) (reliable : Bool) : Msgbuff :=
  if refusesMessage env.forceReconnect client reliable then msg
  else if msg.data.getD 0 0 = svcLayout then trimLayout msg else msg

def addMessageSingle (env : Env) (slot : Nat) (reliable : Bool) (s : Server) :
    Except Stop Server :=
  if written : s.msgbuff = [] then .ok s
  else do
    let msg : Msgbuff := ⟨s.msgbuff, s.leftover, written⟩
    let client ← svAddMessageSingle env.forceReconnect (s.clients slot) msg reliable
    let seen := seenBy env (s.clients slot) msg reliable
    .ok { s with
      clients := Function.update s.clients slot client
      msgbuff := seen.data
      leftover := s.msgbuff.drop seen.data.length ++ s.leftover }

def svAddMessage (env : Env) (slot : Nat) (reliable : Bool) (s : Server) : Except Stop Server := do
  let s ← addMessageSingle env slot reliable s
  .ok (msgFreeData s)

/-- Types that a client does not need before it is in the game. -/
def pointless (type : UInt8) : Bool :=
  [svcMuzzleflash, svcMuzzleflash2, svcMuzzleflash3, svcTempEntity, svcPrint, svcSound,
    svcCenterprint].contains type

/-- The `short` behind the type. -/
def configstringIndex (msgbuff : List UInt8) : Int :=
  int16 ((msgbuff.getD 1 0).toNat + 256 * (msgbuff.getD 2 0).toNat)

/-- The reasons to leave a client out. -/
def skips (env : Env) (origin : Option Origin) (dest : Int) (reliable : Bool) (slot : Nat)
    (s : Server) : Bool :=
  let state := (s.clients slot).control.state
  let type := s.msgbuff.getD 0 0
  decide (state = .free ∨ state = .zombie) ||
  (decide (state ≠ .spawned) && (!reliable || pointless type)) ||
  (decide (state ≠ .spawned) && type == svcConfigstring &&
    decide (csImages < configstringIndex s.msgbuff ∧
      configstringIndex s.msgbuff < csImages + maxImages)) ||
  (env.noents slot &&
    [svcMuzzleflash, svcMuzzleflash2, svcMuzzleflash3, svcTempEntity].contains type) ||
  (decide (dest ≠ multicastAll ∧ dest ≠ multicastAllR) && !env.hears (origin.getD []) dest slot)

def sendTo (env : Env) (origin : Option Origin) (dest : Int) (reliable : Bool) (s : Server)
    (slot : Nat) : Except Stop Server :=
  if skips env origin dest reliable slot s then .ok s else addMessageSingle env slot reliable s

def recordMulticast (s : Server) : Except Stop Server :=
  match s.demo with
  | none => .ok s
  | some demo =>
    match szWrite demo s.msgbuff with
    | none => .error .comError
    | some demo => .ok { s with demo := some demo }

def svMulticast (env : Env) (origin : Option Origin) (dest : Int) (s : Server) :
    Except Stop Server :=
  if dest ≠ multicastAllR ∧ dest ≠ multicastAll ∧ origin = none then .ok s
  else if s.msgbuff = [] then .ok s
  else do
    let s ← recordMulticast s
    if dest < multicastAll ∨ multicastPvsR < dest then .ok s
    else do
      let reliable := decide (multicastAllR ≤ dest)
      let s ← (List.range env.maxclients).foldlM (sendTo env origin dest reliable) s
      .ok (msgFreeData s)

/-- The ways in which some games disconnect a client. -/
def disconnects (msgbuff : List UInt8) : Bool :=
  msgbuff == [svcDisconnect] ||
  (decide (msgbuff.length > 11) && msgbuff.head? == some svcStufftext &&
    (msgbuff.drop 1).take 11 == [100, 105, 115, 99, 111, 110, 110, 101, 99, 116, 10])

/-- `ent` is the number of the entity. -/
def pfUnicast (env : Env) (ent : Option Int) (reliable : Bool) (s : Server) : Except Stop Server :=
  match ent with
  | none => .ok s
  | some p =>
    if p < 1 ∨ p > env.maxclients then .ok s
    else if s.msgbuff = [] then .ok s
    else
      let slot := (p - 1).toNat
      let state := (s.clients slot).control.state
      if state = .free ∨ state = .zombie ∨ state = .connected ∨ state = .spawning then
        .ok (msgFreeData s)
      else if env.disconnectHack ∧ disconnects s.msgbuff then
        .ok { msgFreeData s with dropme := Function.update s.dropme slot true }
      else svAddMessage env slot reliable s

/-! ## Runs -/

/-- The calls of the game, and a message of the server itself to one client. -/
inductive Call
  | write (bytes : List UInt8)
  | multicast (origin : Option Origin) (dest : Int)
  | unicast (ent : Option Int) (reliable : Bool)
  | message (slot : Nat) (bytes : List UInt8) (reliable : Bool)

def Call.sends : Call → Bool
  | .write _ => false
  | _ => true

def step (env : Env) (s : Server) : Call → Except Stop Server
  | .write bytes => msgWrite bytes s
  | .multicast origin dest => svMulticast env origin dest s
  | .unicast ent reliable => pfUnicast env ent reliable s
  | .message slot bytes reliable => do
    let s ← msgWrite bytes s
    svAddMessage env slot reliable s

/-- A call that does not complete ends the run. -/
def advance (env : Env) (s : Option Server) (call : Call) : Option Server :=
  s.bind fun s => (step env s call).toOption

/-! ## What is left in the buffer -/

/-- Nothing has been written, or the arguments are not among those that are ignored. -/
def Frees (env : Env) (s : Server) : Call → Prop
  | .write _ => True
  | .multicast origin dest => s.msgbuff = [] ∨
      (multicastAll ≤ dest ∧ dest ≤ multicastPvsR ∧
        (dest = multicastAll ∨ dest = multicastAllR ∨ origin ≠ none))
  | .unicast ent _ => s.msgbuff = [] ∨ ∃ p, ent = some p ∧ 1 ≤ p ∧ p ≤ env.maxclients
  | .message _ _ _ => True

variable {env : Env} {s t : Server}

theorem svAddMessage_frees {slot : Nat} {reliable : Bool} (h : svAddMessage env slot reliable s = .ok t) :
    t.msgbuff = [] := by
  obtain ⟨added, -, h⟩ := exists_of_bind_eq_ok h
  rw [← Except.ok.inj h]
  rfl

/-- What is recorded changes nothing for the clients. -/
theorem recordMulticast_same (h : recordMulticast s = .ok t) :
    t.msgbuff = s.msgbuff ∧ t.leftover = s.leftover ∧ t.clients = s.clients := by
  simp only [recordMulticast] at h
  split at h
  · cases h
    exact ⟨rfl, rfl, rfl⟩
  · split at h
    · cases h
    · cases h
      exact ⟨rfl, rfl, rfl⟩

/-- `SV_Multicast` empties the buffer exactly if it does not return before. -/
theorem svMulticast_frees_iff {origin : Option Origin} {dest : Int}
    (h : svMulticast env origin dest s = .ok t) :
    t.msgbuff = [] ↔ Frees env s (.multicast origin dest) := by
  simp only [svMulticast] at h
  simp only [Frees]
  split at h
  · rename_i ignored
    rw [← Except.ok.inj h]
    refine (or_iff_left ?_).symm
    rintro ⟨-, -, all | allR | known⟩
    · exact ignored.2.1 all
    · exact ignored.1 allR
    · exact known ignored.2.2
  rename_i known
  split at h
  · rename_i empty
    rw [← Except.ok.inj h]
    exact iff_of_true empty (.inl empty)
  rename_i written
  obtain ⟨recorded, hrecord, h⟩ := exists_of_bind_eq_ok h
  split at h
  · rename_i bad
    rw [← Except.ok.inj h, (recordMulticast_same hrecord).1]
    refine (or_iff_left ?_).symm
    rintro ⟨low, high, -⟩
    omega
  · rename_i good
    obtain ⟨sent, -, h⟩ := exists_of_bind_eq_ok h
    rw [← Except.ok.inj h]
    refine iff_of_true rfl (.inr ⟨by omega, by omega, ?_⟩)
    by_contra ignored
    rw [not_or, not_or] at ignored
    exact known ⟨ignored.2.1, ignored.1, not_not.mp ignored.2.2⟩

/-- `PF_Unicast` empties the buffer exactly for a client of the game. -/
theorem pfUnicast_frees_iff {ent : Option Int} {reliable : Bool}
    (h : pfUnicast env ent reliable s = .ok t) :
    t.msgbuff = [] ↔ Frees env s (.unicast ent reliable) := by
  simp only [pfUnicast] at h
  simp only [Frees]
  cases ent with
  | none =>
    rw [← Except.ok.inj h]
    refine (or_iff_left ?_).symm
    rintro ⟨p, absent, -⟩
    cases absent
  | some p =>
  simp only at h
  split at h
  · rename_i illegal
    rw [← Except.ok.inj h]
    refine (or_iff_left ?_).symm
    rintro ⟨q, same, low, high⟩
    obtain rfl := Option.some.inj same
    omega
  rename_i legal
  have right : s.msgbuff = [] ∨ ∃ q, some p = some q ∧ 1 ≤ q ∧ q ≤ env.maxclients :=
    .inr ⟨p, rfl, by omega, by omega⟩
  split at h
  · rename_i empty
    rw [← Except.ok.inj h]
    exact iff_of_true empty right
  split at h
  · rw [← Except.ok.inj h]
    exact iff_of_true rfl right
  split at h
  · rw [← Except.ok.inj h]
    exact iff_of_true rfl right
  · exact iff_of_true (svAddMessage_frees h) right

/-- A call that sends empties the buffer exactly under its condition. -/
theorem step_frees_iff {call : Call} (h : step env s call = .ok t) (sends : call.sends = true) :
    t.msgbuff = [] ↔ Frees env s call := by
  cases call with
  | write bytes => cases sends
  | multicast origin dest => exact svMulticast_frees_iff h
  | unicast ent reliable => exact pfUnicast_frees_iff h
  | message slot bytes reliable =>
    obtain ⟨written, -, h⟩ := exists_of_bind_eq_ok h
    exact iff_of_true (svAddMessage_frees h) trivial

/-- The buffer is empty after a call that sends and completes. -/
def EmptyAfter (env : Env) (s : Option Server) (call : Call) : Prop :=
  ∀ before t, s = some before → step env before call = .ok t → call.sends = true → t.msgbuff = []

def FreesNow (env : Env) (s : Option Server) (call : Call) : Prop :=
  ∀ before t, s = some before → step env before call = .ok t → call.sends = true →
    Frees env before call

/-- The buffer is empty after each call of a run that sends if and only if none of these calls is
ignored for its arguments while something is in the buffer. -/
theorem msgbuff_empty_iff (env : Env) (s : Server) (calls : List Call) :
    AllSteps (advance env) (EmptyAfter env) (some s) calls ↔
      AllSteps (advance env) (FreesNow env) (some s) calls := by
  have each : ∀ s call, EmptyAfter env s call ↔ FreesNow env s call := fun s call =>
    forall_congr' fun before => forall_congr' fun t => forall_congr' fun _ =>
      forall_congr' fun h => forall_congr' fun sends => step_frees_iff h sends
  have all : EmptyAfter env = FreesNow env := funext fun s => funext fun call => propext (each s call)
  rw [all]

/-- What has been written since the last call that sends. -/
def pending (written : List UInt8) : Call → List UInt8
  | .write bytes => written ++ bytes
  | _ => []

/-- Nothing happens after an error. -/
theorem run_none (env : Env) (calls : List Call) : run (advance env) none calls = none := by
  induction calls with
  | nil => rfl
  | cons call calls ih => exact ih

/-- A message begins where the message before it has ended. -/
theorem msgbuff_run {calls : List Call} (h : AllSteps (advance env) (FreesNow env) (some s) calls)
    (hrun : run (advance env) (some s) calls = some t) :
    t.msgbuff = calls.foldl pending s.msgbuff := by
  induction calls generalizing s with
  | nil =>
    obtain rfl := Option.some.inj hrun
    rfl
  | cons call calls ih =>
    rw [run_cons] at hrun
    obtain ⟨now, later⟩ := h
    cases hstep : step env s call with
    | error e =>
      have stops : advance env (some s) call = none := by
        simp only [advance, Option.bind_some, hstep]
        rfl
      rw [stops, run_none] at hrun
      cases hrun
    | ok u =>
      have goes : advance env (some s) call = some u := by
        simp only [advance, Option.bind_some, hstep]
        rfl
      rw [goes] at hrun later
      rw [ih later hrun, List.foldl_cons]
      congr 1
      cases call with
      | write bytes =>
        simp only [step, msgWrite] at hstep
        split at hstep
        · cases hstep
        · rw [← Except.ok.inj hstep]
          rfl
      | multicast origin dest =>
        exact (step_frees_iff hstep rfl).mpr (now s u rfl hstep rfl)
      | unicast ent reliable =>
        exact (step_frees_iff hstep rfl).mpr (now s u rfl hstep rfl)
      | message slot bytes reliable =>
        exact (step_frees_iff hstep rfl).mpr (now s u rfl hstep rfl)

private def quiet : Env := ⟨1, false, false, fun _ => false, fun _ _ _ => true⟩

private def unsent : Server where
  msgbuff := []
  leftover := []
  clients _ :=
    { control :=
        { state := .spawned
          netchan :=
            { sock := .server, lastReceived := 0, lastSent := 0, qport := 0, protocol := 32
              message := szInit 1390 } } }
  dropme _ := false
  demo := none

/-- The game writes two bytes and names no entity. -/
theorem unicast_keeps_bytes :
    ¬AllSteps (advance quiet) (EmptyAfter quiet) (some unsent)
      [.write [12, 2], .unicast none true] := by
  rintro ⟨-, empty, -⟩
  have kept := empty { unsent with msgbuff := [12, 2] } _ rfl rfl rfl
  cases kept

/-! ## A multicast, client by client -/

theorem svMulticast_everyone (written : s.msgbuff ≠ []) :
    svMulticast env none multicastAllR s = (recordMulticast s >>= fun s =>
      (List.range env.maxclients).foldlM (sendTo env none multicastAllR true) s >>= fun s =>
        .ok (msgFreeData s)) := by
  simp only [svMulticast, multicastAllR, multicastAll, ne_eq, not_true_eq_false, false_and,
    if_false, written]
  rfl

/-- The message in the buffer does the same to each client that it is sent to. -/
def Tells (tell : Server → Nat → Except Stop Server) (msgbuff leftover : List UInt8)
    (add : Client → Except Stop Client) : Prop :=
  ∀ s slot, s.msgbuff = msgbuff → s.leftover = leftover →
    tell s slot = (add (s.clients slot) >>= fun c =>
      .ok { s with clients := Function.update s.clients slot c })

section
variable {tell : Server → Nat → Except Stop Server} {msgbuff leftover : List UInt8}
  {add : Client → Except Stop Client} {slots : List Nat}

theorem Tells.others (tells : Tells tell msgbuff leftover add) (first : s.msgbuff = msgbuff)
    (behind : s.leftover = leftover) (run : slots.foldlM tell s = .ok t) :
    ∀ slot ∉ slots, t.clients slot = s.clients slot := by
  induction slots generalizing s with
  | nil =>
    intro slot _
    cases run
    rfl
  | cons a slots ih =>
    intro slot hslot
    rw [List.foldlM_cons] at run
    obtain ⟨u, told, run⟩ := exists_of_bind_eq_ok run
    rw [tells s a first behind] at told
    obtain ⟨c, -, hu⟩ := exists_of_bind_eq_ok told
    have other : slot ≠ a := by
      rintro rfl
      exact hslot List.mem_cons_self
    rw [← Except.ok.inj hu] at run
    rw [@ih { s with clients := Function.update s.clients a c } first behind run slot
      (fun h => hslot (List.mem_cons_of_mem _ h))]
    exact Function.update_of_ne other _ _

theorem Tells.each (tells : Tells tell msgbuff leftover add) (nodup : slots.Nodup)
    (first : s.msgbuff = msgbuff) (behind : s.leftover = leftover)
    (run : slots.foldlM tell s = .ok t) :
    ∀ slot ∈ slots, add (s.clients slot) = .ok (t.clients slot) := by
  induction slots generalizing s with
  | nil => exact List.forall_mem_nil _
  | cons a slots ih =>
    obtain ⟨fresh, nodup⟩ := List.nodup_cons.mp nodup
    rw [List.foldlM_cons] at run
    obtain ⟨u, told, run⟩ := exists_of_bind_eq_ok run
    rw [tells s a first behind] at told
    obtain ⟨c, hc, hu⟩ := exists_of_bind_eq_ok told
    rw [← Except.ok.inj hu] at run
    refine List.forall_mem_cons.mpr ⟨?_, fun slot hslot => ?_⟩
    · rw [hc, @Tells.others { s with clients := Function.update s.clients a c } t tell msgbuff
        leftover add slots tells first behind run a fresh]
      simp only [Function.update_self]
    · have other : slot ≠ a := by
        rintro rfl
        exact fresh hslot
      have later := @ih { s with clients := Function.update s.clients a c } nodup first behind run
        slot hslot
      simp only [Function.update_of_ne other] at later
      exact later

theorem Tells.all (tells : Tells tell msgbuff leftover add) (nodup : slots.Nodup)
    (first : s.msgbuff = msgbuff) (behind : s.leftover = leftover)
    (each : ∀ slot ∈ slots, ∃ c, add (s.clients slot) = .ok c) :
    ∃ t, slots.foldlM tell s = .ok t := by
  induction slots generalizing s with
  | nil => exact ⟨s, rfl⟩
  | cons a slots ih =>
    obtain ⟨fresh, nodup⟩ := List.nodup_cons.mp nodup
    obtain ⟨⟨c, hc⟩, each⟩ := List.forall_mem_cons.mp each
    have told : tell s a = .ok { s with clients := Function.update s.clients a c } := by
      rw [tells s a first behind, hc]
      rfl
    rw [List.foldlM_cons, told]
    refine @ih { s with clients := Function.update s.clients a c } nodup first behind
      fun slot hslot => ?_
    have other : slot ≠ a := by
      rintro rfl
      exact fresh hslot
    simp only [Function.update_of_ne other]
    exact each slot hslot
end

/-- A multicast to all, for each of the clients. -/
theorem Tells.multicast {add : Client → Except Stop Client}
    (tells : Tells (sendTo env none multicastAllR true) s.msgbuff s.leftover add)
    (written : s.msgbuff ≠ []) (sent : svMulticast env none multicastAllR s = .ok t) :
    ∀ slot < env.maxclients, add (s.clients slot) = .ok (t.clients slot) := by
  intro slot inside
  rw [svMulticast_everyone written] at sent
  obtain ⟨u, record, sent⟩ := exists_of_bind_eq_ok sent
  obtain ⟨v, told, sent⟩ := exists_of_bind_eq_ok sent
  obtain ⟨msgbuff, leftover, clients⟩ := recordMulticast_same record
  have each := tells.each List.nodup_range msgbuff leftover told slot (List.mem_range.mpr inside)
  rw [clients] at each
  rw [each, ← Except.ok.inj sent]
  rfl

end MessageBuffer
