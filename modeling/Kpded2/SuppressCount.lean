import Kpded2.FrameDatagram
import Kpded2.StepRuns

/-!
# The frames that were suppressed

`SV_RateDrop` counts the frames that a client is not sent, and `SV_WriteFrameToClient`
writes the count into the header of the next one. A turn of `SV_SendClientMessages` for
one client is a step; what else may happen to the client before it is free.

The count is watched against how many frames were suppressed since the last one that was
put into a datagram.
-/
namespace SuppressCount
open ClientDatagram DeltaEntity FrameDatagram MessageList NetChan Outcome PacketEntities SizeBuf
open StepRuns

abbrev rateMessages : Nat := 10

structure Sender where
  surpressCount : Nat
  messageSize : Vector Nat rateMessages

/-- What a turn finds. `localHost` is `NET_IsLocalHost`; the rate of the client is in
`env`. -/
structure Turn where
  framenum : Nat
  localHost : Bool
  env : Env
  setting : Setting
  ents : Entities
  demostart : Nat
  client : Client

def setMessageSize (t : Turn) (s : Sender) (size : Nat) : Sender :=
  { s with messageSize :=
      s.messageSize.set (t.framenum % rateMessages) size (Nat.mod_lt _ (by decide)) }

def svRateDrop (t : Turn) (s : Sender) : Bool × Sender :=
  if t.localHost then (false, s)
  else if s.messageSize.toList.sum > t.env.rate then
    (true, setMessageSize t { s with surpressCount := s.surpressCount + 1 } 0)
  else (false, s)

/-- What the frame writer starts from. -/
def memory (t : Turn) (s : Sender) : Memory where
  ents := t.ents
  demostart := t.demostart
  surpressCount := s.surpressCount

/-- One client of `SV_SendClientMessages`, in a game and spawned. -/
def svSendClientMessage (t : Turn) (s : Sender) : Except Stop Sender :=
  let (drop, s) := svRateDrop t s
  if drop then .ok s
  else do
    let (m, _, datagram) ←
      svSendClientDatagram t.env (svWriteFrameToClient t.setting) 3 (memory t s) t.client
    let s := { s with surpressCount := m.surpressCount }
    .ok (datagram.elim s fun data => setMessageSize t s data.length)

/-! ## The header of the frame -/

def timedOut (env : Env) (client : Client) : Bool :=
  (env.curtime + 2 ^ 32 - client.control.netchan.lastReceived) % 2 ^ 32 > 5000 && !env.demofile

/-- The datagram when the frame has been put into it, and nothing else yet. -/
def frameMessage (t : Turn) (s : Sender) : Option (List UInt8) :=
  if (svRateDrop t s).1 || timedOut t.env t.client then none
  else
    match frameDatagram t.env (svWriteFrameToClient t.setting) 3 (memory t s) t.client with
    | .error _ => none
    | .ok (_, d) => if d.msg.data = [] then none else some d.msg.data

/-- A string of `svc_stufftext` may stand in front of `svc_frame`; the suppress count is
the byte after the two frame numbers. -/
def suppressByte (bytes : List UInt8) : Option UInt8 :=
  let frame := if bytes.head? = some svcStufftext then (bytes.dropWhile (· ≠ 0)).tail else bytes
  if frame.head? = some svcFrame then frame[9]? else none

theorem suppressByte_frameHead (s : Setting) (base : Option ClientFrame)
    (attempt surpressCount : Nat) (rest : List UInt8) :
    suppressByte (frameHead s base attempt surpressCount ++ rest) =
      some (UInt8.ofNat surpressCount) := by
  unfold frameHead workaround
  split <;> rfl

/-! ## Runs -/

/-- The sender, and how many frames were suppressed since the last one that was put into
a datagram. -/
structure Watched where
  sender : Sender
  suppressed : Nat

def count (t : Turn) (w : Watched) : Nat :=
  if (svRateDrop t w.sender).1 then w.suppressed + 1
  else if (frameMessage t w.sender).isSome then 0
  else w.suppressed

/-- No state follows a call that has ended in `Com_Error`. -/
def turn (s : Option Watched) (t : Turn) : Option Watched :=
  s.bind fun w => (svSendClientMessage t w.sender).toOption.map fun sender =>
    { sender, suppressed := count t w }

/-- The header of the frame that is sent tells how many were suppressed. -/
def Tells (t : Turn) (w : Watched) : Prop :=
  ∀ data, frameMessage t w.sender = some data →
    ((opened t.env.zlib data).bind suppressByte).map UInt8.toNat = some w.suppressed

/-- The first attempt at a frame. -/
def firstAttempt (env : Env) (s : Setting) (m : Memory) (client : Client) :
    Except Stop (Draft × Bool) := do
  let (msg, rmessage) ← reserve client
  let client ← svBuildClientFrame env client
  let frame ← (svWriteFrameToClient s m noLimit).elim (.error .comError) .ok
  putAttempt env rmessage ⟨client.messages, client.control, msg⟩ frame.bytes

/-- The first attempt is put into the datagram. -/
def FirstFits (t : Turn) (s : Sender) : Prop :=
  Returns (fun r => r.2 = true ∧ r.1.msg.overflowed = false)
    (firstAttempt t.env t.setting (memory t s) t.client)

/-- Whether a frame is written in this turn. -/
def writes (t : Turn) (s : Sender) : Bool :=
  !(svRateDrop t s).1 && !timedOut t.env t.client && !t.client.control.nodata

/-- The count is not lost: there is none, or it is a byte and the first frame fits. -/
def Kept (t : Turn) (s : Sender) : Prop :=
  writes t s = true → s.surpressCount = 0 ∨ (s.surpressCount < 256 ∧ FirstFits t s)

def Right (s : Option Watched) (t : Turn) : Prop := ∀ w, s = some w → Tells t w

def Fits (s : Option Watched) (t : Turn) : Prop := ∀ w, s = some w → Kept t w.sender

/-- No frame has been suppressed yet. -/
def start (messageSize : Vector Nat rateMessages) : Option Watched := some ⟨⟨0, messageSize⟩, 0⟩

/-! ## The attempts -/

/-- An attempt writes the count that is left into its header and clears it. -/
theorem svWriteFrameToClient_count {s : Setting} {m : Memory} {newEntities : Nat}
    {frame : Frame Memory} (h : svWriteFrameToClient s m newEntities = some frame) :
    frame.memory.surpressCount = 0 ∧ ∀ bytes, frame.bytes = some bytes → ∃ base rest,
      bytes = frameHead s base m.attempts m.surpressCount ++ rest := by
  unfold svWriteFrameToClient at h
  obtain ⟨out, -, h⟩ := Option.bind_eq_some_iff.mp h
  cases h
  refine ⟨rfl, fun bytes hbytes => ?_⟩
  dsimp only at hbytes
  split at hbytes
  · cases hbytes
    exact ⟨_, _, rfl⟩
  · cases hbytes

/-- The frame with this count in its header is in the message. -/
def Headed (zlib : Zlib) (n : Nat) (data : List UInt8) : Prop :=
  (opened zlib data).bind suppressByte = some (UInt8.ofNat n)

theorem Headed.ne_nil {zlib : Zlib} {n : Nat} {data : List UInt8} (h : Headed zlib n data) :
    data ≠ [] := by
  rintro rfl
  cases h

theorem putAttempt_count {env : Env} {s : Setting} {rmessage : Option Nat} {newEntities : Nat}
    {m : Memory} {d : Draft} {frame : Frame Memory} (empty : d.msg.data = [])
    (hwrite : svWriteFrameToClient s m newEntities = some frame) :
    Ensures .unfinished (fun r =>
        if r.2 then r.1.msg.overflowed = true ∨ Headed env.zlib m.surpressCount r.1.msg.data
        else r.1.msg.data = [])
      (putAttempt env rmessage d frame.bytes) := by
  obtain ⟨-, -, plain⟩ := svWriteFrameToClient_attempt hwrite
  apply (putAttempt_put env rmessage empty plain).mono
  rintro ⟨d', done⟩ hput
  cases done with
  | true =>
    obtain ⟨bytes, hbytes, carries⟩ := hput
    refine carries.imp_right ?_
    rintro ⟨rest, hopened⟩
    obtain ⟨base, more, rfl⟩ := (svWriteFrameToClient_count hwrite).2 bytes hbytes
    rw [Headed, hopened, Option.bind_some, List.append_assoc]
    exact suppressByte_frameHead s base m.attempts m.surpressCount _
  | false => exact hput

/-- The attempts after the first write no count. -/
theorem retryframe_count (env : Env) (s : Setting) (rmessage : Option Nat) (newEntities : Nat)
    {m : Memory} {d : Draft} (cleared : m.surpressCount = 0) (empty : d.msg.data = []) :
    Ensures .unfinished (fun r => r.1.surpressCount = 0 ∧
        (r.2.msg.data = [] ∨ r.2.msg.overflowed = true ∨ Headed env.zlib 0 r.2.msg.data))
      (retryframe env (svWriteFrameToClient s) rmessage 2 m newEntities true d) := by
  let before (m : Memory) (d : Draft) : Prop := m.surpressCount = 0 ∧ d.msg.data = []
  let after (m : Memory) (d : Draft) : Prop := m.surpressCount = 0 ∧
    (d.msg.data = [] ∨ d.msg.overflowed = true ∨ Headed env.zlib 0 d.msg.data)
  have put : ∀ (left : Nat) (m : Memory) (newEntities : Nat) (d : Draft) (frame : Frame Memory),
      before m d → svWriteFrameToClient s m newEntities = some frame →
      Ensures .unfinished (fun r => if r.2 then after frame.memory r.1 else before frame.memory r.1)
        (putAttempt env rmessage d frame.bytes) := by
    rintro - m newEntities d frame ⟨cleared, empty⟩ hwrite
    have next := (svWriteFrameToClient_count hwrite).1
    apply (putAttempt_count empty hwrite).mono
    rintro ⟨d', done⟩ hput
    rw [cleared] at hput
    cases done with
    | true => exact ⟨next, Or.inr hput⟩
    | false => exact ⟨next, hput⟩
  have few : attemptsLeft newEntities true ≤ 2 := by
    unfold attemptsLeft
    split <;> decide
  have loop := retryframe_rule (fun _ => before) (fun _ => after)
    (fun _ _ _ h => (svWriteFrameToClient_attempt h).1) put
    (fun _ _ _ h => ⟨h.1, Or.inl h.2⟩) 2 ⟨cleared, empty⟩ few (Nat.le_refl 2)
  exact loop.mono fun r ⟨_, h⟩ => h

theorem draft_of_fits {d : Draft} (h : d.msg.overflowed = false) :
    (if d.msg.overflowed = true then { d with msg := szClear d.msg } else d) = d :=
  if_neg (by simp only [h, Bool.false_eq_true, not_false_eq_true])

theorem data_of_headed {zlib : Zlib} {n : Nat} {d : Draft}
    (h : d.msg.data = [] ∨ d.msg.overflowed = true ∨ Headed zlib n d.msg.data) :
    (if d.msg.overflowed = true then { d with msg := szClear d.msg } else d).msg.data = [] ∨
      Headed zlib n
        (if d.msg.overflowed = true then { d with msg := szClear d.msg } else d).msg.data := by
  cases hover : d.msg.overflowed with
  | true => exact Or.inl rfl
  | false =>
    rw [if_neg (by decide)]
    rcases h with empty | excess | headed
    · exact Or.inl empty
    · rw [hover] at excess
      cases excess
    · exact Or.inr headed

/-- One round of the loop. -/
theorem retryframe_succ {σ : Type} (env : Env) (write : σ → Nat → Option (Frame σ))
    (rmessage : Option Nat) (fuel : Nat) (m : σ) (newEntities : Nat) (reduced : Bool) (d : Draft) :
    retryframe env write rmessage (fuel + 1) m newEntities reduced d = (do
      let frame ← (write m newEntities).elim (.error .comError) .ok
      let (d, done) ← putAttempt env rmessage d frame.bytes
      if done then .ok (frame.memory, d)
      else if frame.newEntities ≠ 0 then
        retryframe env write rmessage fuel frame.memory
          (if reduced then 0 else frame.newEntities / 2) true d
      else .ok (frame.memory, d)) := rfl

/-- What the frame of a turn tells. -/
theorem frameDatagram_count (t : Turn) (s : Sender) (sends : t.client.control.nodata = false) :
    Returns (fun r => r.1.surpressCount = 0 ∧
        (FirstFits t s → Headed t.env.zlib s.surpressCount r.2.msg.data) ∧
        (¬FirstFits t s → r.2.msg.data = [] ∨ Headed t.env.zlib 0 r.2.msg.data))
      (frameDatagram t.env (svWriteFrameToClient t.setting) 3 (memory t s) t.client) := by
  have empty := reserve_empty t.client
  unfold frameDatagram FirstFits firstAttempt
  cases hreserve : reserve t.client with
  | error e => exact trivial
  | ok reserved =>
    obtain ⟨msg, rmessage⟩ := reserved
    rw [hreserve] at empty
    simp only [retryframe_succ t.env (svWriteFrameToClient t.setting) rmessage 2, bind,
      Except.bind, sends, Bool.false_eq_true, if_false]
    cases hbuilt : svBuildClientFrame t.env t.client with
    | error e => exact trivial
    | ok built =>
      cases hwrite : svWriteFrameToClient t.setting (memory t s) noLimit with
      | none => exact trivial
      | some frame =>
        have next := (svWriteFrameToClient_count hwrite).1
        have put := @putAttempt_count t.env t.setting rmessage noLimit (memory t s)
          ⟨built.messages, built.control, msg⟩ frame empty hwrite
        simp only [Option.elim]
        cases hput : putAttempt t.env rmessage ⟨built.messages, built.control, msg⟩
            frame.bytes with
        | error e => exact trivial
        | ok r =>
          obtain ⟨d, done⟩ := r
          rw [hput] at put
          cases done with
          | true =>
            simp only [if_true]
            refine ⟨next, fun fits => ?_, fun unfit => Or.inl ?_⟩
            · rw [draft_of_fits fits.2]
              rcases put with excess | headed
              · rw [fits.2] at excess
                cases excess
              · exact headed
            · cases hover : d.msg.overflowed with
              | true => rfl
              | false => exact absurd ⟨rfl, hover⟩ unfit
          | false =>
            simp only [Bool.false_eq_true, if_false]
            have unfit : ¬Returns (fun r : Draft × Bool => r.2 = true ∧ r.1.msg.overflowed = false)
                (Except.ok (d, false) : Except Stop (Draft × Bool)) := by
              rintro ⟨⟨⟩, -⟩
            by_cases more : frame.newEntities ≠ 0
            · rw [if_pos more]
              have rest := (retryframe_count t.env t.setting rmessage (frame.newEntities / 2) next
                put).returns
              cases hrest : retryframe t.env (svWriteFrameToClient t.setting) rmessage 2
                  frame.memory (frame.newEntities / 2) true d with
              | error e => exact trivial
              | ok r =>
                rw [hrest] at rest
                exact ⟨rest.1, fun fits => absurd fits unfit, fun _ => data_of_headed rest.2⟩
            · rw [if_neg more]
              exact ⟨next, fun fits => absurd fits unfit, fun _ => data_of_headed (Or.inl put)⟩

/-! ## One turn -/

theorem svRateDrop_dropped {t : Turn} {s : Sender} (h : (svRateDrop t s).1 = true) :
    (svRateDrop t s).2.surpressCount = s.surpressCount + 1 := by
  unfold svRateDrop at h ⊢
  split at h
  · cases h
  · rename_i remote
    rw [if_neg remote]
    split at h
    · rename_i excess
      rw [if_pos excess]
      rfl
    · cases h

theorem svRateDrop_kept {t : Turn} {s : Sender} (h : (svRateDrop t s).1 = false) :
    (svRateDrop t s).2 = s := by
  unfold svRateDrop at h ⊢
  split
  · rfl
  · rename_i remote
    rw [if_neg remote] at h
    split
    · rename_i excess
      rw [if_pos excess] at h
      cases h
    · rfl

/-- The count that a datagram leaves is the one that the frame has left. -/
theorem svSendClientDatagram_memory {env : Env} {s : Setting} {m : Memory} {client : Client}
    {r : Memory × Client × Option (List UInt8)}
    (h : svSendClientDatagram env (svWriteFrameToClient s) 3 m client = .ok r) :
    (timedOut env client = true ∧ r.1 = m) ∨ (timedOut env client = false ∧
      ∃ d, frameDatagram env (svWriteFrameToClient s) 3 m client = .ok (r.1, d)) := by
  unfold svSendClientDatagram at h
  dsimp only at h
  split at h
  · rename_i silent
    obtain ⟨swept, -, h⟩ := exists_of_bind_eq_ok h
    cases h
    left
    exact ⟨by simpa [timedOut] using silent, rfl⟩
  · rename_i heard
    obtain ⟨⟨m', d⟩, hframe, h⟩ := exists_of_bind_eq_ok h
    obtain ⟨filled, -, h⟩ := exists_of_bind_eq_ok h
    split at h
    · cases h
    · obtain ⟨swept, -, h⟩ := exists_of_bind_eq_ok h
      obtain ⟨after, -, h⟩ := exists_of_bind_eq_ok h
      cases h
      right
      exact ⟨by simpa [timedOut] using heard, d, hframe⟩

theorem frameDatagram_nodata {t : Turn} {s : Sender} {r : Memory × Draft}
    (nodata : t.client.control.nodata = true)
    (h : frameDatagram t.env (svWriteFrameToClient t.setting) 3 (memory t s) t.client = .ok r) :
    r.1 = memory t s ∧ r.2.msg.data = [] := by
  unfold frameDatagram at h
  obtain ⟨⟨msg, rmessage⟩, hreserve, h⟩ := exists_of_bind_eq_ok h
  have empty := reserve_empty t.client
  rw [hreserve] at empty
  simp only [nodata, if_true] at h
  cases h
  exact ⟨rfl, empty⟩

theorem frameMessage_of_ok {t : Turn} {s : Sender} {r : Memory × Draft}
    (sent : (svRateDrop t s).1 = false) (heard : timedOut t.env t.client = false)
    (h : frameDatagram t.env (svWriteFrameToClient t.setting) 3 (memory t s) t.client = .ok r) :
    frameMessage t s = if r.2.msg.data = [] then none else some r.2.msg.data := by
  simp only [frameMessage, sent, heard, Bool.or_self, Bool.false_eq_true, if_false, h]

theorem exists_of_frameMessage {t : Turn} {s : Sender} {data : List UInt8}
    (h : frameMessage t s = some data) :
    (svRateDrop t s).1 = false ∧ timedOut t.env t.client = false ∧
      t.client.control.nodata = false ∧ ∃ r, frameDatagram t.env (svWriteFrameToClient t.setting) 3 (memory t s) t.client = .ok r ∧ r.2.msg.data = data ∧ data ≠ [] := by
  unfold frameMessage at h
  split at h
  · cases h
  · rename_i quiet
    simp only [Bool.or_eq_true, not_or, Bool.not_eq_true] at quiet
    split at h
    · cases h
    · rename_i m d hframe
      split at h
      · cases h
      · rename_i full
        cases h
        refine ⟨quiet.1, quiet.2, ?_, (m, d), hframe, rfl, full⟩
        cases nodata : t.client.control.nodata with
        | true => exact absurd (frameDatagram_nodata nodata hframe).2 full
        | false => rfl

/-- The byte in the header of the frame of a turn. -/
theorem byte_of_frameMessage {t : Turn} {s : Sender} {data : List UInt8}
    (h : frameMessage t s = some data) :
    (FirstFits t s → Headed t.env.zlib s.surpressCount data) ∧
      (¬FirstFits t s → Headed t.env.zlib 0 data) := by
  obtain ⟨-, -, sends, r, hframe, rfl, full⟩ := exists_of_frameMessage h
  have counted := frameDatagram_count t s sends
  rw [hframe] at counted
  exact ⟨counted.2.1, fun unfit => (counted.2.2 unfit).resolve_left full⟩

theorem headed_toNat {zlib : Zlib} {n : Nat} {data : List UInt8} (h : Headed zlib n data) :
    ((opened zlib data).bind suppressByte).map UInt8.toNat = some (n % 256) := by
  rw [h, Option.map_some, UInt8.toNat_ofNat']

/-- For a frame that is sent the condition is exact. -/
theorem tells_iff_kept {t : Turn} {w : Watched} {data : List UInt8}
    (counted : w.sender.surpressCount = w.suppressed) (h : frameMessage t w.sender = some data) :
    Tells t w ↔ w.sender.surpressCount = 0 ∨
      (w.sender.surpressCount < 256 ∧ FirstFits t w.sender) := by
  obtain ⟨first, later⟩ := byte_of_frameMessage h
  have only : Tells t w ↔ ((opened t.env.zlib data).bind suppressByte).map UInt8.toNat =
      some w.suppressed := by
    constructor
    · intro tells
      exact tells data h
    · intro byte data' h'
      rw [h] at h'
      cases h'
      exact byte
  rw [only]
  by_cases fits : FirstFits t w.sender
  · rw [headed_toNat (first fits), Option.some.injEq]
    constructor
    · intro same
      exact Or.inr ⟨by omega, fits⟩
    · rintro (none | ⟨small, -⟩)
      · omega
      · omega
  · rw [headed_toNat (later fits), Option.some.injEq]
    constructor
    · intro same
      exact Or.inl (by omega)
    · rintro (none | ⟨-, fits'⟩)
      · omega
      · exact absurd fits' fits

theorem tells_of_kept {t : Turn} {w : Watched}
    (counted : w.sender.surpressCount = w.suppressed) (kept : Kept t w.sender) : Tells t w := by
  intro data h
  obtain ⟨sent, heard, sends, -⟩ := exists_of_frameMessage h
  have due : writes t w.sender = true := by
    simp only [writes, sent, heard, sends, Bool.not_false, Bool.and_self]
  exact (tells_iff_kept counted h).mpr (kept due) data h

/-- What the count is after a turn. -/
theorem turn_counted {t : Turn} {w w' : Watched}
    (counted : w.sender.surpressCount = w.suppressed) (kept : Kept t w.sender)
    (h : turn (some w) t = some w') : w'.sender.surpressCount = w'.suppressed := by
  simp only [turn, Option.bind_some] at h
  obtain ⟨sender, hsender, rfl⟩ := Option.map_eq_some_iff.mp h
  unfold svSendClientMessage at hsender
  cases hdrop : (svRateDrop t w.sender).1 with
  | true =>
    simp only [hdrop, if_true] at hsender
    obtain rfl := Option.some.inj hsender
    simp only [count, hdrop, if_true, svRateDrop_dropped hdrop, counted]
  | false =>
    simp only [hdrop, Bool.false_eq_true, if_false, svRateDrop_kept hdrop] at hsender
    cases hdatagram : svSendClientDatagram t.env (svWriteFrameToClient t.setting) 3
        (memory t w.sender) t.client with
    | error e =>
      rw [hdatagram] at hsender
      cases hsender
    | ok r =>
      rw [hdatagram] at hsender
      obtain rfl := Option.some.inj hsender
      have left : (r.2.2.elim { w.sender with surpressCount := r.1.surpressCount } fun data =>
          setMessageSize t { w.sender with surpressCount := r.1.surpressCount } data.length
            ).surpressCount = r.1.surpressCount := by
        cases r.2.2 <;> rfl
      refine left.trans ?_
      simp only [count, hdrop, Bool.false_eq_true, if_false]
      rcases svSendClientDatagram_memory hdatagram with ⟨silent, hmemory⟩ | ⟨heard, d, hframe⟩
      · have unsent : frameMessage t w.sender = none := by
          simp only [frameMessage, hdrop, silent, Bool.false_or, if_true]
        rw [unsent, hmemory]
        exact counted
      · rw [frameMessage_of_ok hdrop heard hframe]
        cases nodata : t.client.control.nodata with
        | true =>
          obtain ⟨hmemory, empty⟩ := frameDatagram_nodata nodata hframe
          dsimp only at hmemory empty
          rw [if_pos empty, hmemory]
          exact counted
        | false =>
          have written := frameDatagram_count t w.sender nodata
          rw [hframe] at written
          obtain ⟨cleared, first, -⟩ := written
          dsimp only at cleared first
          rw [cleared]
          by_cases empty : d.msg.data = []
          · have due : writes t w.sender = true := by
              simp only [writes, hdrop, heard, nodata, Bool.not_false, Bool.and_self]
            rw [if_pos empty]
            rcases kept due with none | ⟨-, fits⟩
            · exact none.symm.trans counted
            · exact absurd empty (first fits).ne_nil
          · rw [if_neg empty]
            rfl

/-- In a run in which no count is lost, the header of every frame that is sent tells how many
frames were suppressed since the one before. -/
theorem suppressed_run {messageSize : Vector Nat rateMessages} {turns : List Turn}
    (fits : AllSteps turn Fits (start messageSize) turns) :
    AllSteps turn Right (start messageSize) turns := by
  have keeps : ∀ s t, (∀ w, s = some w → w.sender.surpressCount = w.suppressed) → Fits s t →
      (∀ w, turn s t = some w → w.sender.surpressCount = w.suppressed) ∧ Right s t := by
    intro s t counted kept
    cases s with
    | none =>
      constructor
      · rintro w ⟨⟩
      · rintro w ⟨⟩
    | some w =>
      constructor
      · intro w' h
        exact turn_counted (counted w rfl) (kept w rfl) h
      · rintro _ ⟨⟩
        exact tells_of_kept (counted w rfl) (kept w rfl)
  refine allSteps_of_keeps keeps ?_ fits
  rintro w ⟨⟩
  rfl

private def blankEntity (number : Nat) : EntityState where
  number := number
  origin := ⟨0, 0, 0⟩
  angles := ⟨0, 0, 0⟩
  oldOrigin := ⟨0, 0, 0⟩
  modelindex := 1
  frame := 0
  skinnum := 0
  effects := 0
  renderfx := 0
  renderfx2 := 0
  solid := 0
  sound := 0
  event := 0
  numParts := 0
  modelParts := Vector.replicate _ ⟨0, 0, Vector.replicate _ 0, []⟩
  modelLighting := ⟨Vector.replicate _ 0, 0, []⟩
  scale := 1

private theorem blankEntity_inRange (_ : Nat) :
    (blankEntity 0).number < Protocol.maxEdicts .kingpin :=
  Nat.zero_lt_succ 2047

private theorem nothing_deflated (_ : List UInt8) (avail : Nat) (out : List UInt8)
    (h : (none : Option (List UInt8)) = some out) : out.length ≤ avail := by
  cases h

private theorem nothing_inflated (input : List UInt8) (_ : Nat) (out : List UInt8)
    (h : (none : Option (List UInt8)) = some out) : (none : Option (List UInt8)) = some input := by
  cases h

/-- A client that sees entity 2, and is sent its frame without a base. -/
private def watchTurn (messageSize : Nat) (chan : Chan) : Turn where
  framenum := 14
  localHost := false
  env :=
    { curtime := 0
      rate := messageSize
      zlib :=
        { deflate := fun _ _ => none
          inflate := fun _ => none
          deflate_le := nothing_deflated
          inflate_deflate := nothing_inflated } }
  setting :=
    { ctx :=
        { numClientEntities := 1024, maxclients := 1, newEntities := 0, protocolVersion := 34
          lastlines :=
            { state := fun _ => blankEntity 0
              inRange := blankEntity_inRange } }
      framenum := 14
      lastframe := -1
      demofile := false
      patched := true
      turned := false
      frames := fun _ => ⟨0, 1⟩
      areabits := [0]
      playerstate := fun _ => [19, 0, 0, 0, 0, 0, 0] }
  ents := fun _ => blankEntity 2
  demostart := 0
  client := { control := { state := .spawned, netchan := chan } }

private def quietChan : Chan where
  sock := .server
  lastReceived := 0
  lastSent := 0
  qport := 7
  protocol := 34
  message := { allowoverflow := true, maxsize := 1390, buffsize := 1390 }

/-- The channel has to send 1367 bytes again. -/
private def fullChan : Chan :=
  { quietChan with
    incomingAcknowledged := 8
    lastReliableSequence := 7
    reliableSequence := true
    reliable := List.replicate 1367 0 }

private def spent : Vector Nat rateMessages := (Vector.replicate 10 0).set 4 1000

private theorem after_drop : turn (start spent) (watchTurn 500 quietChan) =
    some ⟨⟨1, Vector.replicate 10 0⟩, 1⟩ := rfl

private theorem quiet_fits : ((firstAttempt (watchTurn 500 quietChan).env
    (watchTurn 500 quietChan).setting (memory (watchTurn 500 quietChan)
      ⟨1, Vector.replicate 10 0⟩) (watchTurn 500 quietChan).client).toOption.map
        fun r => (r.2, r.1.msg.overflowed)) = some (true, false) := by
  decide +kernel

/-- A frame is suppressed, and the next is sent whole. -/
theorem suppressed_run_once :
    AllSteps turn Right (start spent) [watchTurn 500 quietChan, watchTurn 500 quietChan] := by
  have fits : AllSteps turn Fits (start spent)
      [watchTurn 500 quietChan, watchTurn 500 quietChan] := by
    refine ⟨?_, ?_, trivial⟩
    · rintro w ⟨⟩ -
      exact Or.inl rfl
    · rintro w h -
      obtain rfl := Option.some.inj (after_drop.symm.trans h)
      refine Or.inr ⟨by decide, ?_⟩
      have flags := quiet_fits
      unfold FirstFits
      revert flags
      cases firstAttempt (watchTurn 500 quietChan).env (watchTurn 500 quietChan).setting
          (memory (watchTurn 500 quietChan) ⟨1, Vector.replicate 10 0⟩)
          (watchTurn 500 quietChan).client with
      | error e => exact fun _ => trivial
      | ok r =>
        intro flags
        have both := Option.some.inj flags
        exact ⟨congrArg Prod.fst both, congrArg Prod.snd both⟩
  exact suppressed_run fits

/-- A frame is suppressed, and the next has to be reduced before it fits. -/
theorem reduced_frame_forgets :
    ¬AllSteps turn Right (start spent) [watchTurn 500 quietChan, watchTurn 500 fullChan] := by
  rintro ⟨-, right, -⟩
  have sent : frameMessage (watchTurn 500 fullChan) ⟨1, Vector.replicate 10 0⟩ =
      some [22, 14, 0, 0, 0, 255, 255, 255, 255, 0, 1, 0, 19, 0, 0, 0, 0, 0, 0, 20, 0, 0] := by
    decide +kernel
  have byte := right _ after_drop _ sent
  exact absurd byte (by decide)

end SuppressCount
