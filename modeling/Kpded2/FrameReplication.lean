import Kpded2.FrameBuilding
import Kpded2.FrameReading

/-!
# The frames that a client has

Every turn a client is sent a frame as a change of the last one that it has acknowledged, if that is
not too old. Datagrams are lost, repeated and overtaken, and so are acknowledgements; the ring of
entities is shared by the frames of all clients. Next to the state stands what the server remembered
of each frame when it was sent, which no code reads.

The messages behind a frame and the reliable ones in front of it are left out.
-/
namespace FrameReplication
open ClientDatagram DeltaEntity FrameBuilding FrameDatagram FrameReading Outcome PacketEntities
open PacketParse StepRuns
open EntityRing (FrameRecord Intact deltaBase slot)
open PlayerDelta (PlayerState nullPlayerstate svWritePlayerstateToClient)
open Protocol (updateBackup)
open SizeBuf (Sizebuf szClear szInit)
open SortedEdits (Sorted)

/-! ## Writing one frame -/

/-- The memory after some attempts at the frame. -/
structure Attempted (s : Setting) (ents : Entities) (base : Option ClientFrame)
    (surpressCount : Nat) (m : Memory) : Prop where
  ready : FrameDatagram.Ready s ents base surpressCount m
  outside : ∀ k ∉ slots s.ctx (newframe s) 0, m.ents k = ents k

theorem svEmitPacketEntities_outside {ctx : Context} {ents : Entities} {base : Option ClientFrame}
    {new : ClientFrame} (ready : PacketEntities.Ready ctx (oldFrame base) new ents 0 0)
    {out : Emitted} (emitted : svEmitPacketEntities ctx ents base new = some out) {k : Nat}
    (outside : k ∉ slots ctx new 0) : out.ents k = ents k := by
  obtain ⟨cmds, kept, result, -, -⟩ := emitLoop_spec ctx (oldFrame base) new
    (new.numEntities + (oldFrame base).numEntities) ents 0 0 0 (by omega) ready
  rw [svEmitPacketEntities, result] at emitted
  cases emitted
  exact if_neg fun taken => outside taken.1

theorem Attempted.step {s : Setting} {ents : Entities} {base : Option ClientFrame}
    {surpressCount newEntities : Nat} {m : Memory} {frame : Frame Memory}
    (attempted : Attempted s ents base surpressCount m) (promised : Promised s ents ents base)
    (written : svWriteFrameToClient s m newEntities = some frame) :
    Attempted s ents base surpressCount frame.memory where
  ready := (attempted.ready.step promised written).1
  outside := by
    intro k outside
    have old := live_congr attempted.ready.kept
    have ready : PacketEntities.Ready { s.ctx with newEntities } (oldFrame base) (newframe s)
        m.ents 0 0 :=
      ⟨old ▸ promised.oldSorted, attempted.ready.newSorted,
        fun e listed => promised.oldRange e (old ▸ listed), attempted.ready.newRange⟩
    unfold svWriteFrameToClient at written
    obtain ⟨out, emitted, written⟩ := Option.bind_eq_some_iff.mp written
    rw [attempted.ready.chosen] at emitted
    have same := svEmitPacketEntities_outside ready emitted outside
    cases written
    exact same.trans (attempted.outside k outside)

/-- What the frame of one turn leaves, and what is put into the datagram. -/
def FrameWritten (zlib : Zlib) (s : Setting) (ents : Entities) (base : Option ClientFrame)
    (surpressCount : Nat) (client : MessageList.Client) (r : Memory × Draft) : Prop :=
  Attempted s ents base surpressCount r.1 ∧
    (r.2.msg.data ≠ [] → client.control.nodata = false ∧
      Decoded zlib s ents base surpressCount r.1 r.2.msg.data)

/-- What is put into the datagram can be decoded, and only the slots of the frame are written. -/
theorem frameDatagram_written (env : Env) (s : Setting) (ents : Entities)
    (demostart surpressCount : Nat) (client : MessageList.Client)
    (promised : Promised s ents ents (oldframe s demostart)) :
    Returns (FrameWritten env.zlib s ents (oldframe s demostart) surpressCount client)
      (frameDatagram env (svWriteFrameToClient s) 3 { ents, demostart, surpressCount } client) := by
  have start : Attempted s ents (oldframe s demostart) surpressCount
      { ents, demostart, surpressCount } :=
    ⟨FrameDatagram.Ready.start surpressCount promised fun _ _ => rfl, fun _ _ => rfl⟩
  refine (show Ensures .unfinished _ _ from ?_).returns
  unfold frameDatagram
  refine (reserve_empty client).bind ?_
  rintro ⟨msg, rmessage⟩ empty
  dsimp only at empty ⊢
  split
  · exact ensures_ok ⟨start, fun put => absurd empty put⟩
  · rename_i data
    refine (svBuildClientFrame_finishes env client).bind ?_
    rintro built -
    have loop := retryframe_rule
      (fun _ m d => d.msg.data = [] ∧ Attempted s ents (oldframe s demostart) surpressCount m)
      (fun _ m d => Attempted s ents (oldframe s demostart) surpressCount m ∧
        (d.msg.data = [] ∨ d.msg.overflowed = true ∨
          Decoded env.zlib s ents (oldframe s demostart) surpressCount m d.msg.data))
      (fun _ _ _ written => (svWriteFrameToClient_attempt written).1)
      (fun _ m _ d frame before written => by
        obtain ⟨empty, attempted⟩ := before
        have plain := (svWriteFrameToClient_attempt written).2.2
        refine (putAttempt_put env rmessage empty plain).mono ?_
        rintro ⟨d', done⟩ put
        have next := attempted.step promised written
        cases done with
        | true =>
          obtain ⟨bytes, hbytes, carries⟩ := put
          exact ⟨next, Or.inr (decoded_of_carries attempted.ready promised written hbytes carries)⟩
        | false => exact ⟨put, next⟩)
      (fun _ _ _ before => ⟨before.2, Or.inl before.1⟩) 3
      (show ((⟨built.messages, built.control, msg⟩ : Draft).msg.data = [] ∧ _) from
        ⟨empty, start⟩)
      (show attemptsLeft noLimit false ≤ 3 by decide) (Nat.le_refl 3)
    refine loop.bind ?_
    rintro ⟨m, d⟩ ⟨-, attempted, decoded⟩
    refine ensures_ok ⟨attempted, fun put => ?_⟩
    dsimp only at put ⊢
    refine ⟨Bool.eq_false_iff.mpr data, ?_⟩
    split at put
    · exact absurd rfl put
    · rename_i clean
      rw [if_neg clean]
      rcases decoded with none | overflowed | decoded
      · exact absurd none put
      · exact absurd overflowed clean
      · exact decoded

/-! ## The turns of a level -/

/-- What the server remembered of a frame. -/
structure Remembered where
  ps : PlayerState
  window : List EntityState

def Remembered.entities (r : Remembered) : List EntityState := present r.window

/-- A datagram with a frame; `framenum` and `base` are not read by the client. -/
structure Packet where
  data : List UInt8
  framenum : Nat
  base : Option Nat

/-- A client: the packets before `next` are too old for its channel, and `accepted` are the frames
that it may acknowledge. -/
structure Viewer where
  frames : Nat → Option Snapshot := fun _ => none
  next : Nat := 0
  accepted : List Nat := []
  failed : Bool := false

/-- `ps` are the player states in `client->frames`. -/
structure World where
  ring : EntityRing.Server
  ents : Entities
  ps : Nat → Nat → PlayerState
  lastlines : Nat → Baselines
  flight : Nat → List Packet
  viewers : Nat → Viewer
  history : Nat → Nat → Option Remembered

/-- What `SV_SendClientDatagram` finds when it is a client's turn. -/
structure Turn where
  states : List EntityState
  sorted : Sorted EntityState.number states
  inRange : ∀ s ∈ states, InRange s
  fate : EntityState → Fate
  ps : PlayerState
  receiver : PlayerDelta.Client
  areabits : List UInt8
  few : areabits.length < 2 ^ 8
  patched : Bool
  turned : Bool
  surpressCount : Nat
  env : Env
  client : MessageList.Client

/-- The entities that `SV_BuildClientFrame` gets to. -/
def Turn.visible (turn : Turn) : List EntityState := turn.states.take EntityRing.maxFrameEntities

inductive Op where
  | tick
  | connect (c : Nat) (lastlines : Baselines)
  | send (c : Nat) (turn : Turn)
  | deliver (c index : Nat)
  | ack (c : Nat) (framenum : Option Nat)
  | record (c start : Nat)

def build (w : World) (c : Nat) (turn : Turn) : World :=
  let num := w.ring.numClientEntities
  let first := w.ring.nextClientEntities
  let (kept, ents) := buildEntities num first turn.fate turn.visible w.ents
  { w with
    ring := EntityRing.svBuildClientFrame w.ring c turn.visible.length kept
    ents
    ps := Function.update w.ps c
      (Function.update (w.ps c) (w.ring.framenum % updateBackup) turn.ps) }

def frameOf (r : FrameRecord) : ClientFrame := ⟨r.firstEntity, r.numEntities⟩

/-- The player state of the delta base. -/
def oldPs (w : World) (c : Nat) : Option PlayerState :=
  (deltaBase w.ring c).map fun f => w.ps c (f % updateBackup)

def writtenPs (w : World) (c : Nat) (turn : Turn) : PlayerDelta.Result :=
  svWritePlayerstateToClient .kingpin turn.receiver (oldPs w c) turn.ps

def setting (protocolVersion : Nat) (w : World) (c : Nat) (turn : Turn) : Setting where
  ctx :=
    { numClientEntities := w.ring.numClientEntities
      maxclients := w.ring.maxclients
      newEntities := 0
      protocolVersion
      lastlines := w.lastlines c }
  framenum := w.ring.framenum
  lastframe := (w.ring.clients c).lastframe
  demofile := (w.ring.clients c).demofile
  patched := turn.patched
  turned := turn.turned
  frames := fun k => (((w.ring.clients c).frames k).map frameOf).getD ⟨0, 0⟩
  areabits := turn.areabits
  playerstate := fun _ => allBytes (writtenPs w c turn).fields

def attempt (zlib : Zlib) (protocolVersion : Nat) (w : World) (c : Nat) (turn : Turn) :
    Except MessageList.Stop (Memory × Draft) :=
  frameDatagram { turn.env with zlib } (svWriteFrameToClient (setting protocolVersion w c turn)) 3
    { ents := w.ents
      demostart := (w.ring.clients c).demostart
      surpressCount := turn.surpressCount } turn.client

/-- The frame has been written, as often as it took. -/
def written (w : World) (c : Nat) (turn : Turn) (m : Memory) : World :=
  { w with
    ring := EntityRing.step w.ring (.write c)
    ents := m.ents
    ps := if turn.client.control.nodata then w.ps
      else Function.update w.ps c
        (Function.update (w.ps c) (w.ring.framenum % updateBackup) (writtenPs w c turn).ps) }

def remember (w : World) (c : Nat) : Option Remembered :=
  ((w.ring.clients c).frames (w.ring.framenum % updateBackup)).map fun r =>
    ⟨w.ps c (w.ring.framenum % updateBackup),
      window w.ring.numClientEntities w.ents r.firstEntity r.numEntities⟩

def transmit (w : World) (c : Nat) (data : List UInt8) (base : Option Nat) : World :=
  { w with
    ring := EntityRing.step w.ring (.transmit c)
    flight := Function.update w.flight c (w.flight c ++ [⟨data, w.ring.framenum, base⟩])
    history := Function.update w.history c
      (Function.update (w.history c) w.ring.framenum (remember w c)) }

/-- There is a frame of this number already. -/
def Built (w : World) (c : Nat) : Prop :=
  ((w.ring.clients c).frames (w.ring.framenum % updateBackup)).map FrameRecord.framenum =
    some w.ring.framenum

instance (w : World) (c : Nat) : Decidable (Built w c) := inferInstanceAs (Decidable (_ = _))

/-- An error ends the game, so nothing happens after it. -/
def send (zlib : Zlib) (protocolVersion : Nat) (w : World) (c : Nat) (turn : Turn) : World :=
  if w.ring.maxclients ≤ c ∨ Built w c then w
  else
    let built := build w c turn
    match attempt zlib protocolVersion built c turn with
    | .error _ => w
    | .ok (m, d) =>
      if d.msg.data = [] then written built c turn m
      else transmit (written built c turn m) c d.msg.data (deltaBase built.ring c)

def receive (viewer : Viewer) (index : Nat) : Option Snapshot → Viewer
  | none => { viewer with next := index + 1, failed := true }
  | some snapshot =>
    { viewer with
      frames := Function.update viewer.frames (snapshot.framenum % updateBackup) (some snapshot)
      next := index + 1
      accepted := snapshot.framenum :: viewer.accepted }

def deliver (zlib : Zlib) (w : World) (c index : Nat) : World :=
  let viewer := w.viewers c
  if index < viewer.next then w
  else
    match (w.flight c)[index]? with
    | none => w
    | some packet =>
      { w with
        viewers := Function.update w.viewers c (receive viewer index
          (readFrame zlib (w.lastlines c) viewer.frames packet.data)) }

def step (zlib : Zlib) (protocolVersion : Nat) (w : World) : Op → World
  | .tick => { w with ring := EntityRing.step w.ring .frame }
  | .connect c lastlines =>
    { w with
      ring := EntityRing.step w.ring (.connect c)
      lastlines := Function.update w.lastlines c lastlines
      flight := Function.update w.flight c []
      viewers := Function.update w.viewers c {}
      history := Function.update w.history c fun _ => none }
  | .send c turn => send zlib protocolVersion w c turn
  | .deliver c index => deliver zlib w c index
  | .ack c none => { w with ring := EntityRing.step w.ring (.ack c (-1)) }
  | .ack c (some framenum) =>
    if framenum ∈ (w.viewers c).accepted then
      { w with ring := EntityRing.step w.ring (.ack c framenum) }
    else w
  | .record c start => { w with ring := EntityRing.step w.ring (.record c start) }

def start (maxclients framenum : Nat) (ents : Entities) (lastlines : Nat → Baselines) : World where
  ring := EntityRing.svInitGame maxclients framenum
  ents := ents
  ps := fun _ _ => nullPlayerstate
  lastlines := lastlines
  flight := fun _ => []
  viewers := fun _ => {}
  history := fun _ _ => none

/-! ## What the client has -/

/-- The client's frame is that which the server remembered. -/
def Shows (history : Nat → Option Remembered) (snapshot : Snapshot) : Prop :=
  ∃ r, history snapshot.framenum = some r ∧ Copies r.ps snapshot.ps ∧
    snapshot.entities = r.entities.map view

/-- No frame was refused, and every frame that is kept is the server's. An accepted frame is kept
until there is a newer one in its place. -/
structure Faithful (w : World) (c : Nat) : Prop where
  sound : (w.viewers c).failed = false
  kept : ∀ f ∈ (w.viewers c).accepted, ∃ snapshot,
    (w.viewers c).frames (f % updateBackup) = some snapshot ∧ f ≤ snapshot.framenum
  shows : ∀ k snapshot, (w.viewers c).frames k = some snapshot → Shows (w.history c) snapshot

/-- The ring has not come round to the first of these slots, and the counter has not wrapped since,
unless that is harmless because the ring size divides 2^32. -/
def Roomy (num first count high : Nat) : Prop :=
  count = 0 ∨
    (high ≤ first + num ∧ (num ∣ 2 ^ 32 ∨ first / 2 ^ 32 = (high - 1) / 2 ^ 32))

/-- There is room for the new frame and for its base in the ring. -/
structure Room (w : World) (c : Nat) (turn : Turn) : Prop where
  framenum : w.ring.framenum < 2 ^ 31
  new : Roomy w.ring.numClientEntities w.ring.nextClientEntities turn.visible.length
    (build w c turn).ring.high
  base : ∀ f r, deltaBase (build w c turn).ring c = some f →
    ((build w c turn).ring.clients c).frames (f % updateBackup) = some r →
    Roomy w.ring.numClientEntities r.firstEntity r.numEntities (build w c turn).ring.high

def HasRoom (w : World) : Op → Prop
  | .send c turn => Room w c turn
  | _ => True

/-! ## Reading in any order -/

section
variable {zlib : Zlib} {lastlines : Baselines} {history history' : Nat → Option Remembered}

/-- A client that has the base of the packet as the server remembers it reads the frame from it. -/
def Readable (zlib : Zlib) (lastlines : Baselines) (history : Nat → Option Remembered)
    (packet : Packet) : Prop :=
  ∀ frames : Nat → Option Snapshot,
    (∀ b, packet.base = some b → ∃ snapshot, frames (b % updateBackup) = some snapshot ∧
      snapshot.framenum = b ∧ Shows history snapshot) →
    ∃ snapshot, readFrame zlib lastlines frames packet.data = some snapshot ∧
      snapshot.framenum = packet.framenum ∧ Shows history snapshot

theorem Shows.congr {snapshot : Snapshot} (shows : Shows history snapshot)
    (same : history' snapshot.framenum = history snapshot.framenum) : Shows history' snapshot := by
  obtain ⟨r, remembered, agrees⟩ := shows
  exact ⟨r, same.trans remembered, agrees⟩

theorem Readable.congr {packet : Packet} (readable : Readable zlib lastlines history packet)
    (frame : history' packet.framenum = history packet.framenum)
    (base : ∀ b, packet.base = some b → history' b = history b) :
    Readable zlib lastlines history' packet := by
  intro frames has
  obtain ⟨snapshot, read, named, shows⟩ := readable frames fun b chosen => by
    obtain ⟨snapshot, held, named, shows⟩ := has b chosen
    refine ⟨snapshot, held, named, shows.congr ?_⟩
    rw [named, base b chosen]
  exact ⟨snapshot, read, named, shows.congr (by rw [named, frame])⟩

/-- A client and the packets that it may still be sent. `sent` are the frames that it was sent. -/
structure Following (zlib : Zlib) (lastlines : Baselines) (history : Nat → Option Remembered)
    (sent : List Nat) (flight : List Packet) (viewer : Viewer) : Prop where
  readable : ∀ p ∈ flight, Readable zlib lastlines history p
  sent : ∀ p ∈ flight, p.framenum ∈ sent
  base : ∀ p ∈ flight, ∀ b, p.base = some b →
    b ∈ viewer.accepted ∧ b < p.framenum ∧ p.framenum < b + updateBackup
  increasing : flight.Pairwise fun p q => p.framenum < q.framenum
  accepted : ∀ f ∈ viewer.accepted, ∃ (i : Nat) (p : Packet), i < viewer.next ∧
    flight[i]? = some p ∧ p.framenum = f
  held : ∀ k snapshot, viewer.frames k = some snapshot → k = snapshot.framenum % updateBackup ∧
    snapshot.framenum ∈ viewer.accepted ∧ Shows history snapshot
  kept : ∀ f ∈ viewer.accepted, ∃ snapshot, viewer.frames (f % updateBackup) = some snapshot ∧
    f ≤ snapshot.framenum
  sound : viewer.failed = false

theorem following_start (zlib : Zlib) (lastlines : Baselines)
    (history : Nat → Option Remembered) (sent : List Nat) :
    Following zlib lastlines history sent [] {} where
  readable := List.forall_mem_nil _
  sent := List.forall_mem_nil _
  base := List.forall_mem_nil _
  increasing := List.Pairwise.nil
  accepted := List.forall_mem_nil _
  held := by
    intro k snapshot held
    cases held
  kept := List.forall_mem_nil _
  sound := rfl

variable {sent : List Nat} {flight : List Packet} {viewer : Viewer}

theorem Following.accepted_sent (following : Following zlib lastlines history sent flight viewer)
    {f : Nat} (accepted : f ∈ viewer.accepted) : f ∈ sent := by
  obtain ⟨i, p, -, there, rfl⟩ := following.accepted f accepted
  exact following.sent p (List.mem_of_getElem? there)

/-- What was accepted is of an earlier packet than one that can still be accepted. -/
theorem Following.accepted_lt (following : Following zlib lastlines history sent flight viewer)
    {index : Nat} (fresh : viewer.next ≤ index) {p : Packet} (there : flight[index]? = some p)
    {f : Nat} (accepted : f ∈ viewer.accepted) : f < p.framenum := by
  obtain ⟨i, q, before, earlier, rfl⟩ := following.accepted f accepted
  obtain ⟨inside, rfl⟩ := List.getElem?_eq_some_iff.mp there
  obtain ⟨inside', rfl⟩ := List.getElem?_eq_some_iff.mp earlier
  exact List.pairwise_iff_getElem.mp following.increasing i index inside' inside
    (Nat.lt_of_lt_of_le before fresh)

/-- The base of a packet has not been overwritten by a later frame. -/
theorem Following.has_base (following : Following zlib lastlines history sent flight viewer)
    {index : Nat} (fresh : viewer.next ≤ index) {p : Packet} (there : flight[index]? = some p)
    {b : Nat} (chosen : p.base = some b) :
    ∃ snapshot, viewer.frames (b % updateBackup) = some snapshot ∧ snapshot.framenum = b ∧
      Shows history snapshot := by
  obtain ⟨accepted, -, recent⟩ := following.base p (List.mem_of_getElem? there) b chosen
  obtain ⟨snapshot, kept, later⟩ := following.kept b accepted
  obtain ⟨place, named, shows⟩ := following.held _ snapshot kept
  have before := following.accepted_lt fresh there named
  have backup : updateBackup = 16 := rfl
  rw [backup] at place recent
  exact ⟨snapshot, kept, by omega, shows⟩

/-- A packet that is not too old is read, and its frame kept. -/
theorem Following.deliver (following : Following zlib lastlines history sent flight viewer)
    {index : Nat} (fresh : viewer.next ≤ index) {p : Packet} (there : flight[index]? = some p) :
    Following zlib lastlines history sent flight
      (receive viewer index (readFrame zlib lastlines viewer.frames p.data)) := by
  obtain ⟨snapshot, read, named, shows⟩ :=
    following.readable p (List.mem_of_getElem? there) viewer.frames
      fun b chosen => following.has_base fresh there chosen
  rw [read]
  have earlier : ∀ f ∈ viewer.accepted, f < snapshot.framenum := fun f accepted => by
    rw [named]
    exact following.accepted_lt fresh there accepted
  exact
    { readable := following.readable
      sent := following.sent
      base := fun q listed b chosen => by
        obtain ⟨accepted, recent⟩ := following.base q listed b chosen
        exact ⟨List.mem_cons_of_mem _ accepted, recent⟩
      increasing := following.increasing
      accepted := by
        intro f accepted
        rcases List.mem_cons.mp accepted with rfl | before
        · exact ⟨index, p, Nat.lt_succ_self index, there, named.symm⟩
        · obtain ⟨i, q, below, rest⟩ := following.accepted f before
          exact ⟨i, q, Nat.lt_succ_of_le (Nat.le_trans (Nat.le_of_lt below) fresh), rest⟩
      held := by
        intro k other held
        simp only [receive] at held
        by_cases place : k = snapshot.framenum % updateBackup
        · rw [place, Function.update_self] at held
          cases held
          exact ⟨place, List.mem_cons_self, shows⟩
        · rw [Function.update_of_ne place] at held
          obtain ⟨here, accepted, shown⟩ := following.held k other held
          exact ⟨here, List.mem_cons_of_mem _ accepted, shown⟩
      kept := by
        intro f accepted
        simp only [receive]
        by_cases place : f % updateBackup = snapshot.framenum % updateBackup
        · refine ⟨snapshot, by rw [place, Function.update_self], ?_⟩
          rcases List.mem_cons.mp accepted with same | before
          · exact Nat.le_of_eq same
          · exact Nat.le_of_lt (earlier f before)
        · rw [Function.update_of_ne place]
          rcases List.mem_cons.mp accepted with same | before
          · exact absurd (congrArg (· % updateBackup) same) place
          · exact following.kept f before
      sound := following.sound }

/-- One more frame is on its way. -/
theorem Following.sent_more (following : Following zlib lastlines history sent flight viewer)
    {framenum : Nat} {p : Packet} (new : p.framenum = framenum) (unsent : ∀ f ∈ sent, f < framenum)
    (readable : Readable zlib lastlines history' p)
    (base : ∀ b, p.base = some b →
      b ∈ viewer.accepted ∧ b < p.framenum ∧ p.framenum < b + updateBackup)
    (same : ∀ f < framenum, history' f = history f) :
    Following zlib lastlines history' (framenum :: sent) (flight ++ [p]) viewer where
  readable := by
    intro q listed
    rcases List.mem_append.mp listed with before | last
    · have earlier := unsent q.framenum (following.sent q before)
      refine (following.readable q before).congr (same _ earlier) fun b chosen => same b ?_
      exact Nat.lt_trans (following.base q before b chosen).2.1 earlier
    · rw [List.mem_singleton.mp last]
      exact readable
  sent := by
    intro q listed
    rcases List.mem_append.mp listed with before | last
    · exact List.mem_cons_of_mem _ (following.sent q before)
    · rw [List.mem_singleton.mp last, new]
      exact List.mem_cons_self
  base := by
    intro q listed
    rcases List.mem_append.mp listed with before | last
    · exact following.base q before
    · rw [List.mem_singleton.mp last]
      exact base
  increasing := by
    refine List.pairwise_append.mpr ⟨following.increasing, List.pairwise_singleton _ _, ?_⟩
    intro q before r last
    rw [List.mem_singleton.mp last, new]
    exact unsent q.framenum (following.sent q before)
  accepted := by
    intro f accepted
    obtain ⟨i, q, below, there, named⟩ := following.accepted f accepted
    obtain ⟨inside, -⟩ := List.getElem?_eq_some_iff.mp there
    exact ⟨i, q, below, by rw [List.getElem?_append_left inside, there], named⟩
  held := by
    intro k snapshot held
    obtain ⟨place, accepted, shows⟩ := following.held k snapshot held
    exact ⟨place, accepted,
      shows.congr (same _ (unsent _ (following.accepted_sent accepted)))⟩
  kept := following.kept
  sound := following.sound

end

/-! ## The new frame -/

section
variable {w : World} {c : Nat} {turn : Turn}

/-- The slots of the ring that the entities of the turn are put into. -/
def Taken (w : World) (turn : Turn) (k : Nat) : Prop :=
  Within w.ring.numClientEntities w.ring.nextClientEntities turn.visible.length k

def keptOf (w : World) (turn : Turn) : Nat :=
  (buildEntities w.ring.numClientEntities w.ring.nextClientEntities turn.fate turn.visible w.ents).1

theorem visible_le (turn : Turn) : turn.visible.length ≤ EntityRing.maxFrameEntities :=
  List.length_take_le _ _

theorem visible_sorted (turn : Turn) : Sorted EntityState.number turn.visible :=
  turn.sorted.sublist (List.take_sublist _ _)

theorem visible_inRange (turn : Turn) : ∀ s ∈ turn.visible, InRange s :=
  fun s listed => turn.inRange s (List.mem_of_mem_take listed)

theorem writeSlots_within {num framenum first count k : Nat} (owner : Nat → Option EntityRing.Stamp)
    (within : Within num first count k) :
    ∃ j, EntityRing.writeSlots num c framenum first count owner k = some ⟨c, framenum, j⟩ := by
  induction count with
  | zero =>
    obtain ⟨i, none, -⟩ := within
    exact absurd none (Nat.not_lt_zero i)
  | succ count ih =>
    rw [EntityRing.writeSlots]
    by_cases last : k = slot num (first + count)
    · exact ⟨count, by rw [last, Function.update_self]⟩
    · rw [Function.update_of_ne last]
      refine ih ?_
      obtain ⟨i, inside, rfl⟩ := within
      refine ⟨i, Nat.lt_of_le_of_ne (Nat.le_of_lt_succ inside) fun same => ?_, rfl⟩
      exact last (by rw [same])

theorem writeSlots_outside {num framenum first count k : Nat}
    (owner : Nat → Option EntityRing.Stamp) (outside : ¬Within num first count k) :
    EntityRing.writeSlots num c framenum first count owner k = owner k :=
  EntityRing.writeSlots_other fun i inside same => outside ⟨i, inside, same.symm⟩

theorem build_ring (fresh : ¬Built w c) (le : keptOf w turn ≤ turn.visible.length) :
    (build w c turn).ring =
      { w.ring with
        nextClientEntities := w.ring.nextClientEntities + keptOf w turn
        high := max w.ring.high (w.ring.nextClientEntities + turn.visible.length)
        owner := EntityRing.writeSlots w.ring.numClientEntities c w.ring.framenum
          w.ring.nextClientEntities (keptOf w turn)
          (EntityRing.writeSlots w.ring.numClientEntities c w.ring.framenum
            w.ring.nextClientEntities turn.visible.length w.ring.owner)
        clients := Function.update w.ring.clients c { w.ring.clients c with
          frames := Function.update (w.ring.clients c).frames (w.ring.framenum % updateBackup)
            (some ⟨w.ring.framenum, w.ring.nextClientEntities, keptOf w turn⟩) } } := by
  have entities : min turn.visible.length EntityRing.maxFrameEntities = turn.visible.length :=
    Nat.min_eq_left (visible_le turn)
  have kept : min (keptOf w turn) turn.visible.length = keptOf w turn := Nat.min_eq_left le
  change EntityRing.svBuildClientFrame w.ring c turn.visible.length (keptOf w turn) = _
  simp only [EntityRing.svBuildClientFrame, entities, kept]
  exact if_neg fresh

theorem build_high (fresh : ¬Built w c) : (build w c turn).ring.high =
    max w.ring.high (w.ring.nextClientEntities + turn.visible.length) := by
  have entities : min turn.visible.length EntityRing.maxFrameEntities = turn.visible.length :=
    Nat.min_eq_left (visible_le turn)
  have unbuilt : ¬((w.ring.clients c).frames (w.ring.framenum % updateBackup)).map
      FrameRecord.framenum = some w.ring.framenum := fresh
  change (EntityRing.svBuildClientFrame w.ring c turn.visible.length (keptOf w turn)).high = _
  simp only [EntityRing.svBuildClientFrame, entities, if_neg unbuilt]

/-- What is known of the ring with the new frame. -/
structure NewFrame (w : World) (c : Nat) (turn : Turn) : Prop where
  inv : EntityRing.Inv (build w c turn).ring
  num : (build w c turn).ring.numClientEntities = w.ring.numClientEntities
  framenum : (build w c turn).ring.framenum = w.ring.framenum
  lastframe : ∀ a, ((build w c turn).ring.clients a).lastframe = (w.ring.clients a).lastframe
  sent : ∀ a, ((build w c turn).ring.clients a).sent = (w.ring.clients a).sent
  frame : ((build w c turn).ring.clients c).frames (w.ring.framenum % updateBackup) =
    some ⟨w.ring.framenum, w.ring.nextClientEntities, keptOf w turn⟩
  others : ∀ a k, a ≠ c ∨ k ≠ w.ring.framenum % updateBackup →
    ((build w c turn).ring.clients a).frames k = (w.ring.clients a).frames k
  taken : ∀ k, Taken w turn k → ∃ j, (build w c turn).ring.owner k = some ⟨c, w.ring.framenum, j⟩
  free : ∀ k, ¬Taken w turn k → (build w c turn).ring.owner k = w.ring.owner k
  window : window w.ring.numClientEntities (build w c turn).ents w.ring.nextClientEntities
    (keptOf w turn) = remaining turn.fate turn.visible
  kept : keptOf w turn ≤ turn.visible.length

theorem distinct_of_roomy {num first count high : Nat} (roomy : Roomy num first count high)
    (inside : first + count ≤ high) : Distinct num first count := by
  rcases roomy with none | ⟨lap, wrap⟩
  · intro i hi
    exact absurd hi (none ▸ Nat.not_lt_zero i)
  · exact distinct_of_lap inside lap wrap

/-- The new frame stands in its own part of the ring. -/
theorem newFrame_build (inv : EntityRing.Inv w.ring) (fresh : ¬Built w c) (room : Room w c turn) :
    NewFrame w c turn := by
  have high : w.ring.nextClientEntities + turn.visible.length ≤ (build w c turn).ring.high :=
    le_of_le_of_eq (Nat.le_max_right _ _) (build_high fresh).symm
  obtain ⟨count, content⟩ := buildEntities_window turn.fate turn.visible w.ents
    (distinct_of_roomy room.new high)
  have le : keptOf w turn ≤ turn.visible.length :=
    le_of_eq_of_le count (length_remaining_le turn.fate turn.visible)
  have ring := build_ring fresh le
  have client : ∀ a, (build w c turn).ring.clients a = if a = c then { w.ring.clients c with
      frames := Function.update (w.ring.clients c).frames (w.ring.framenum % updateBackup)
        (some ⟨w.ring.framenum, w.ring.nextClientEntities, keptOf w turn⟩) }
      else w.ring.clients a := by
    intro a
    rw [ring]
    by_cases same : a = c
    · subst same
      rw [if_pos rfl]
      exact Function.update_self _ _ _
    · rw [if_neg same]
      exact Function.update_of_ne same _ _
  exact
    { inv := EntityRing.inv_svBuildClientFrame inv c turn.visible.length (keptOf w turn)
      num := by rw [ring]
      framenum := by rw [ring]
      lastframe := by
        intro a
        rw [client]
        split
        · rename_i same
          rw [same]
        · exact rfl
      sent := by
        intro a
        rw [client]
        split
        · rename_i same
          rw [same]
        · exact rfl
      frame := by
        rw [client, if_pos rfl]
        exact Function.update_self _ _ _
      others := by
        intro a k different
        rw [client]
        split
        · rename_i same
          rw [same]
          exact Function.update_of_ne (different.resolve_left fun other => other same) _ _
        · exact rfl
      taken := by
        intro k taken
        rw [ring]
        by_cases again : Within w.ring.numClientEntities w.ring.nextClientEntities (keptOf w turn) k
        · exact writeSlots_within _ again
        · dsimp only
          rw [writeSlots_outside _ again]
          exact writeSlots_within _ taken
      free := by
        intro k free
        have again : ¬Within w.ring.numClientEntities w.ring.nextClientEntities (keptOf w turn) k :=
          fun ⟨i, inside, same⟩ => free ⟨i, Nat.lt_of_lt_of_le inside le, same⟩
        rw [ring]
        dsimp only
        rw [writeSlots_outside _ again, writeSlots_outside _ free]
      window := content
      kept := le }

theorem build_ents_free {k : Nat} (free : ¬Taken w turn k) : (build w c turn).ents k = w.ents k :=
  buildEntities_outside turn.fate turn.visible w.ents free

/-- The slots of another frame that are still its own were not taken. -/
theorem NewFrame.untaken (new : NewFrame w c turn) {a : Nat} {r : FrameRecord}
    (other : a ≠ c ∨ r.framenum ≠ w.ring.framenum) (intact : Intact (build w c turn).ring a r)
    {j : Nat} (inside : j < r.numEntities) :
    ¬Taken w turn (slot w.ring.numClientEntities (r.firstEntity + j)) := by
  intro taken
  obtain ⟨i, owned⟩ := new.taken _ taken
  have own := intact j inside
  rw [new.num, owned] at own
  obtain ⟨client, framenum, -⟩ := EntityRing.Stamp.mk.inj (Option.some.inj own)
  exact other.elim (fun h => h client.symm) fun h => h framenum.symm

theorem NewFrame.intact (new : NewFrame w c turn) {a : Nat} {r : FrameRecord}
    (other : a ≠ c ∨ r.framenum ≠ w.ring.framenum) (intact : Intact (build w c turn).ring a r) :
    Intact w.ring a r := by
  intro j inside
  have own := intact j inside
  rwa [new.num, new.free _ (new.untaken other intact inside)] at own

end


/-! ## The ring between two frames -/

theorem clients_updateClient {α : Type} (g : EntityRing.Client → α) {s : EntityRing.Server}
    {c : Nat} {client : EntityRing.Client} (same : g client = g (s.clients c)) (a : Nat) :
    g ((EntityRing.updateClient s c client).clients a) = g (s.clients a) := by
  by_cases here : a = c
  · rw [here]
    exact (congrArg g (Function.update_self ..)).trans same
  · exact congrArg g (Function.update_of_ne here ..)

/-- The second ring has the same frames, and has sent the same ones. -/
structure SameFrames (s t : EntityRing.Server) : Prop where
  num : t.numClientEntities = s.numClientEntities
  owner : t.owner = s.owner
  frames : ∀ a, (t.clients a).frames = (s.clients a).frames
  sent : ∀ a, (t.clients a).sent = (s.clients a).sent

theorem sameFrames_updateClient {s : EntityRing.Server} {c : Nat} {client : EntityRing.Client}
    (frames : client.frames = (s.clients c).frames) (sent : client.sent = (s.clients c).sent) :
    SameFrames s (EntityRing.updateClient s c client) where
  num := rfl
  owner := rfl
  frames := clients_updateClient EntityRing.Client.frames frames
  sent := clients_updateClient EntityRing.Client.sent sent

theorem SameFrames.intact {s t : EntityRing.Server} (same : SameFrames s t) {a : Nat}
    {r : FrameRecord} : Intact t a r ↔ Intact s a r := by
  rw [Intact, Intact, same.num, same.owner]

/-- Writing a frame only moves the start of the client's demo. -/
theorem write_eq (s : EntityRing.Server) (c : Nat) : ∃ demostart, EntityRing.step s (.write c) =
    EntityRing.updateClient s c { s.clients c with demostart } := by
  unfold EntityRing.step
  dsimp only
  split
  · exact ⟨_, rfl⟩
  · refine ⟨(s.clients c).demostart, ?_⟩
    rw [EntityRing.updateClient, Function.update_eq_self]

theorem sameFrames_write (s : EntityRing.Server) (c : Nat) :
    SameFrames s (EntityRing.step s (.write c)) := by
  obtain ⟨demostart, ring⟩ := write_eq s c
  rw [ring]
  exact sameFrames_updateClient rfl rfl

theorem write_framenum (s : EntityRing.Server) (c : Nat) :
    (EntityRing.step s (.write c)).framenum = s.framenum := by
  obtain ⟨demostart, ring⟩ := write_eq s c
  rw [ring]
  exact rfl

theorem write_lastframe (s : EntityRing.Server) (c a : Nat) :
    ((EntityRing.step s (.write c)).clients a).lastframe = (s.clients a).lastframe := by
  obtain ⟨demostart, ring⟩ := write_eq s c
  rw [ring]
  refine clients_updateClient EntityRing.Client.lastframe ?_ a
  exact rfl

theorem deltaBase_lastframe {s : EntityRing.Server} {c f : Nat} (chosen : deltaBase s c = some f) :
    (s.clients c).lastframe = f := by
  unfold deltaBase at chosen
  dsimp only at chosen
  split at chosen
  · cases chosen
  · split at chosen
    · cases chosen
    · split at chosen
      · cases chosen
      · have base := Option.some.inj chosen
        omega

/-! ## What holds in every state -/

structure Inv (zlib : Zlib) (w : World) : Prop where
  ring : EntityRing.Inv w.ring
  remembered : ∀ c, ∀ f ∈ (w.ring.clients c).sent, ∃ r, w.history c f = some r
  known : ∀ c f r, w.history c f = some r → f ∈ (w.ring.clients c).sent
  ordered : ∀ c f r, w.history c f = some r →
    Sorted EntityState.number r.entities ∧ ∀ e ∈ r.entities, InRange e
  contents : ∀ c k r old, (w.ring.clients c).frames k = some r →
    w.history c r.framenum = some old → w.ps c k = old.ps ∧ (Intact w.ring c r →
      window w.ring.numClientEntities w.ents r.firstEntity r.numEntities = old.window)
  acked : ∀ c, (w.ring.clients c).lastframe = -1 ∨
    ∃ f ∈ (w.viewers c).accepted, (w.ring.clients c).lastframe = f
  following : ∀ c, Following zlib (w.lastlines c) (w.history c) (w.ring.clients c).sent
    (w.flight c) (w.viewers c)

section
variable {zlib : Zlib} {w : World} {c : Nat} {turn : Turn}

/-- Nothing has been sent to anyone. -/
theorem inv_start (zlib : Zlib) (maxclients framenum : Nat) (ents : Entities)
    (lastlines : Nat → Baselines) : Inv zlib (start maxclients framenum ents lastlines) where
  ring := EntityRing.inv_svInitGame maxclients framenum
  remembered := fun _ => List.forall_mem_nil _
  known := by
    intro _ _ _ remembered
    cases remembered
  ordered := by
    intro _ _ _ remembered
    cases remembered
  contents := by
    intro _ _ _ _ has
    cases has
  acked := fun _ => Or.inl rfl
  following := fun c => following_start zlib (lastlines c) _ _

theorem Inv.faithful (inv : Inv zlib w) (c : Nat) : Faithful w c where
  sound := (inv.following c).sound
  kept := (inv.following c).kept
  shows := fun k snapshot held => ((inv.following c).held k snapshot held).2.2

theorem Inv.ring_changed (inv : Inv zlib w) {ring : EntityRing.Server}
    (same : SameFrames w.ring ring) (kept : EntityRing.Inv ring)
    (acked : ∀ a, (ring.clients a).lastframe = -1 ∨
      ∃ f ∈ (w.viewers a).accepted, (ring.clients a).lastframe = f) :
    Inv zlib { w with ring } where
  ring := kept
  remembered := by
    intro a f sent
    rw [same.sent] at sent
    exact inv.remembered a f sent
  known := by
    intro a f r remembered
    rw [same.sent]
    exact inv.known a f r remembered
  ordered := inv.ordered
  contents := by
    intro a k r old has remembered
    rw [same.frames] at has
    rw [same.intact, same.num]
    exact inv.contents a k r old has remembered
  acked := acked
  following := by
    intro a
    dsimp only
    rw [same.sent]
    exact inv.following a

/-- Nothing has been sent of this number if there is no such frame. -/
theorem Inv.unsent (inv : Inv zlib w) (fresh : ¬Built w c) :
    ∀ f ∈ (w.ring.clients c).sent, f < w.ring.framenum := by
  intro f sent
  refine Nat.lt_of_le_of_ne (inv.ring.sent_past c f sent) fun same => fresh ?_
  have backup : updateBackup = 16 := rfl
  obtain ⟨r, has, named⟩ := inv.ring.sent_kept c f sent (by omega)
  rw [Built, ← same, has, Option.map_some, named]

theorem Inv.unknown (inv : Inv zlib w) (fresh : ¬Built w c) :
    w.history c w.ring.framenum = none := by
  rw [Option.eq_none_iff_forall_ne_some]
  intro r remembered
  exact Nat.lt_irrefl _ (inv.unsent fresh _ (inv.known c _ r remembered))

/-- Another entity memory and other player states, but only for the new frame. -/
theorem Inv.built (inv : Inv zlib w) (fresh : ¬Built w c) (new : NewFrame w c turn)
    {ents : Entities} {ps : Nat → Nat → PlayerState}
    (free : ∀ k, ¬Taken w turn k → ents k = w.ents k)
    (others : ∀ a k, a ≠ c ∨ k ≠ w.ring.framenum % updateBackup → ps a k = w.ps a k) :
    Inv zlib { build w c turn with ents, ps } where
  ring := new.inv
  remembered := by
    intro a f sent
    rw [new.sent] at sent
    exact inv.remembered a f sent
  known := by
    intro a f r remembered
    rw [new.sent]
    exact inv.known a f r remembered
  ordered := inv.ordered
  contents := by
    intro a k r old has remembered
    dsimp only at has remembered ⊢
    have before : w.history a r.framenum = some old := remembered
    by_cases here : a = c ∧ k = w.ring.framenum % updateBackup
    · obtain ⟨rfl, rfl⟩ := here
      rw [new.frame] at has
      cases has
      rw [inv.unknown fresh] at before
      cases before
    · have different : a ≠ c ∨ k ≠ w.ring.framenum % updateBackup :=
        or_iff_not_imp_left.mpr fun same place => here ⟨not_not.mp same, place⟩
      rw [new.others a k different] at has
      have place := inv.ring.place a k r has
      have other : a ≠ c ∨ r.framenum ≠ w.ring.framenum :=
        different.imp_right fun slots same => slots (same ▸ place)
      obtain ⟨player, content⟩ := inv.contents a k r old has before
      refine ⟨(others a k different).trans player, fun intact => ?_⟩
      rw [new.num, ← content (new.intact other intact)]
      exact window_congr fun j inside => free _ (new.untaken other intact inside)
  acked := by
    intro a
    dsimp only
    rw [new.lastframe]
    exact inv.acked a
  following := by
    intro a
    dsimp only
    rw [new.sent]
    exact inv.following a

end

/-! ## The delta base -/

section
variable {zlib : Zlib} {w : World} {c : Nat} {turn : Turn}

/-- What is known of the delta base `f` when the new frame is built. -/
structure OldFrame (w : World) (c : Nat) (turn : Turn) (f : Nat) (r : FrameRecord)
    (old : Remembered) : Prop where
  frame : ((build w c turn).ring.clients c).frames (f % updateBackup) = some r
  remembered : w.history c f = some old
  accepted : f ∈ (w.viewers c).accepted
  older : f < w.ring.framenum
  recent : w.ring.framenum < f + updateBackup
  ps : (build w c turn).ps c (f % updateBackup) = old.ps
  window : window w.ring.numClientEntities (build w c turn).ents r.firstEntity r.numEntities =
    old.window

theorem Inv.lastframe_accepted (inv : Inv zlib w) {f : Nat}
    (lastframe : (w.ring.clients c).lastframe = f) : f ∈ (w.viewers c).accepted := by
  rcases inv.acked c with none | ⟨g, accepted, same⟩
  · omega
  · have number : g = f := by omega
    exact number ▸ accepted

/-- The delta base is still in the ring as it was sent. -/
theorem Inv.oldFrame (inv : Inv zlib w) (fresh : ¬Built w c) (room : Room w c turn)
    (new : NewFrame w c turn) {f : Nat} (chosen : deltaBase (build w c turn).ring c = some f) :
    ∃ r old, OldFrame w c turn f r old := by
  have accepted : f ∈ (w.viewers c).accepted :=
    inv.lastframe_accepted ((new.lastframe c).symm.trans (deltaBase_lastframe chosen))
  have sent := (inv.following c).accepted_sent accepted
  have older := inv.unsent fresh f sent
  have recent := EntityRing.deltaBase_recent chosen
  rw [new.framenum] at recent
  obtain ⟨old, remembered⟩ := inv.remembered c f sent
  have room' : EntityRing.Room (build w c turn).ring (.write c) := by
    intro g r base _ has
    rw [new.num]
    exact room.base g r base has
  obtain ⟨r, frame, named, intact⟩ :=
    EntityRing.baseIntact_of_room _ (.write c) new.inv room' f chosen (by rwa [new.sent])
  have place : f % updateBackup ≠ w.ring.framenum % updateBackup :=
    (EntityRing.mod_ne_mod older recent).symm
  have before := frame
  rw [new.others c _ (Or.inr place)] at before
  have other : c ≠ c ∨ r.framenum ≠ w.ring.framenum := Or.inr (named ▸ Nat.ne_of_lt older)
  obtain ⟨player, content⟩ := inv.contents c _ r old before (named.symm ▸ remembered)
  refine ⟨r, old, frame, remembered, accepted, older, recent, ?_, ?_⟩
  · rw [← player]
    change Function.update w.ps c (Function.update (w.ps c) (w.ring.framenum % updateBackup)
      turn.ps) c (f % updateBackup) = _
    rw [Function.update_self, Function.update_of_ne place]
  · rw [← content (new.intact other intact)]
    exact window_congr fun j inside => build_ents_free (new.untaken other intact inside)

variable {protocolVersion : Nat}

theorem startsDemo_iff {s : Setting} {demostart : Nat} : startsDemo s demostart = true ↔
    s.demofile = true ∧ 0 ≤ s.lastframe ∧ s.lastframe.toNat < demostart := by
  rw [startsDemo, Bool.and_eq_true, decide_eq_true_eq]

theorem oldframe_setting (w : World) (c : Nat) (turn : Turn) :
    oldframe (setting protocolVersion w c turn) (w.ring.clients c).demostart =
      (deltaBase w.ring c).map fun f =>
        (((w.ring.clients c).frames (f % updateBackup)).map frameOf).getD ⟨0, 0⟩ := by
  by_cases demo : (w.ring.clients c).demofile = true ∧ (w.ring.clients c).lastframe ≥ 0 ∧
    (w.ring.clients c).demostart > (w.ring.clients c).lastframe.toNat
  · have server : deltaBase w.ring c = none := if_pos demo
    rw [server]
    exact if_pos (startsDemo_iff.mpr demo)
  · have server : deltaBase w.ring c = _ := if_neg demo
    have writer : oldframe (setting protocolVersion w c turn) (w.ring.clients c).demostart = _ :=
      if_neg fun starts => demo (startsDemo_iff.mp starts)
    rw [server, writer]
    change ite ((w.ring.clients c).lastframe ≤ 0) _ (ite ((w.ring.framenum : Int) -
      (w.ring.clients c).lastframe ≥ (updateBackup : Int) - 2) _ _) = _
    split
    · exact rfl
    · split
      · exact rfl
      · exact rfl

/-- The setting of the new frame. -/
abbrev newSetting (protocolVersion : Nat) (w : World) (c : Nat) (turn : Turn) : Setting :=
  setting protocolVersion (build w c turn) c turn

theorem newframe_setting (new : NewFrame w c turn) :
    newframe (newSetting protocolVersion w c turn) =
      ⟨w.ring.nextClientEntities, keptOf w turn⟩ := by
  change ((((build w c turn).ring.clients c).frames
    ((build w c turn).ring.framenum % updateBackup)).map frameOf).getD ⟨0, 0⟩ = _
  rw [new.framenum, new.frame]
  exact rfl

theorem num_setting (new : NewFrame w c turn) :
    (newSetting protocolVersion w c turn).ctx.numClientEntities = w.ring.numClientEntities :=
  new.num

/-- The delta base of a frame, as the writer looks it up. -/
abbrev newBase (protocolVersion : Nat) (w : World) (c : Nat) (turn : Turn) : Option ClientFrame :=
  oldframe (newSetting protocolVersion w c turn) ((build w c turn).ring.clients c).demostart

theorem newBase_none (chosen : deltaBase (build w c turn).ring c = none) :
    newBase protocolVersion w c turn = none := by
  rw [newBase, oldframe_setting, chosen, Option.map_none]

theorem OldFrame.newBase {f : Nat} {r : FrameRecord} {old : Remembered}
    (base : OldFrame w c turn f r old) (chosen : deltaBase (build w c turn).ring c = some f) :
    newBase protocolVersion w c turn = some (frameOf r) := by
  rw [FrameReplication.newBase, oldframe_setting, chosen, Option.map_some, base.frame]
  exact rfl

theorem OldFrame.live (protocolVersion : Nat) {f : Nat} {r : FrameRecord} {old : Remembered}
    (base : OldFrame w c turn f r old) (new : NewFrame w c turn) :
    live (newSetting protocolVersion w c turn).ctx (build w c turn).ents (frameOf r) 0 =
      old.entities := by
  rw [live_eq, num_setting new]
  exact congrArg present base.window

theorem live_none (ctx : Context) (ents : Entities) : live ctx ents (oldFrame none) 0 = [] := by
  rw [live_eq]
  exact rfl

theorem live_newframe (protocolVersion : Nat) (new : NewFrame w c turn) :
    live (newSetting protocolVersion w c turn).ctx (build w c turn).ents
      (newframe (newSetting protocolVersion w c turn)) 0 = remaining turn.fate turn.visible := by
  rw [live_eq, num_setting new, newframe_setting new, new.window]
  exact present_of_inRange (remaining_inRange turn.fate (visible_inRange turn))

theorem Inv.lastframe_lt (inv : Inv zlib w) (fresh : ¬Built w c) :
    (w.ring.clients c).lastframe < w.ring.framenum := by
  rcases inv.acked c with none | ⟨f, accepted, same⟩
  · omega
  · have older := inv.unsent fresh f ((inv.following c).accepted_sent accepted)
    omega

/-- What the delta of the frame relies on holds. -/
theorem Inv.promised (inv : Inv zlib w) (fresh : ¬Built w c) (room : Room w c turn)
    (new : NewFrame w c turn) :
    Promised (newSetting protocolVersion w c turn) (build w c turn).ents (build w c turn).ents
      (newBase protocolVersion w c turn) := by
  have acked : (newSetting protocolVersion w c turn).lastframe <
      (newSetting protocolVersion w c turn).framenum := by
    change ((build w c turn).ring.clients c).lastframe < (build w c turn).ring.framenum
    rw [new.lastframe, new.framenum]
    exact inv.lastframe_lt fresh
  have newSorted := remaining_sorted turn.fate (visible_sorted turn)
  have newRange := remaining_inRange turn.fate (visible_inRange turn)
  rw [← live_newframe protocolVersion new] at newSorted newRange
  cases chosen : deltaBase (build w c turn).ring c with
  | none =>
    rw [newBase_none chosen]
    refine ⟨acked, ?_, ?_, newSorted, newRange⟩
    · rw [live_none]
      exact List.Pairwise.nil
    · intro e listed
      rw [live_none] at listed
      cases listed
  | some f =>
    obtain ⟨r, old, base⟩ := inv.oldFrame fresh room new chosen
    obtain ⟨oldSorted, oldRange⟩ := inv.ordered c f old base.remembered
    rw [← base.live protocolVersion new] at oldSorted oldRange
    rw [base.newBase chosen]
    exact ⟨acked, oldSorted, oldRange, newSorted, newRange⟩

end

/-! ## A turn -/

theorem update_other {α : Type} (f : Nat → Nat → α) (c slot : Nat) (v : α) {a k : Nat}
    (other : a ≠ c ∨ k ≠ slot) :
    Function.update f c (Function.update (f c) slot v) a k = f a k := by
  by_cases same : a = c
  · rw [same, Function.update_self, Function.update_of_ne (other.resolve_left (not_not.mpr same))]
  · rw [Function.update_of_ne same]

section
variable {zlib : Zlib} {protocolVersion : Nat} {w : World} {c : Nat} {turn : Turn} {m : Memory}
  {data : List UInt8}

/-- Writing the frame does not touch the entities of other frames. -/
theorem NewFrame.ents_free (new : NewFrame w c turn) {base : Option ClientFrame}
    (attempted : Attempted (newSetting protocolVersion w c turn) (build w c turn).ents base
      turn.surpressCount m) {k : Nat} (free : ¬Taken w turn k) : m.ents k = w.ents k := by
  refine (attempted.outside k fun listed => free ?_).trans (build_ents_free free)
  obtain ⟨i, inside, same⟩ := mem_slots.mp listed
  rw [num_setting new, newframe_setting new] at same
  rw [newframe_setting new] at inside
  exact ⟨i, Nat.lt_of_lt_of_le inside new.kept, same⟩

theorem Inv.written (inv : Inv zlib w) (fresh : ¬Built w c) (new : NewFrame w c turn)
    {base : Option ClientFrame}
    (attempted : Attempted (newSetting protocolVersion w c turn) (build w c turn).ents base
      turn.surpressCount m) : Inv zlib (written (build w c turn) c turn m) := by
  have others : ∀ a k, a ≠ c ∨ k ≠ w.ring.framenum % updateBackup →
      (FrameReplication.written (build w c turn) c turn m).ps a k = w.ps a k := by
    intro a k other
    have before : (build w c turn).ps a k = w.ps a k := update_other _ c _ turn.ps other
    simp only [FrameReplication.written]
    split
    · exact before
    · rw [new.framenum]
      exact (update_other _ c _ _ other).trans before
  have built := inv.built fresh new (fun k free => new.ents_free attempted free) others
  refine built.ring_changed (sameFrames_write _ c) (EntityRing.inv_step _ (.write c) new.inv)
    fun a => ?_
  rw [write_lastframe]
  exact built.acked a

/-- What the server remembers of the new frame, once it is written. -/
theorem remember_written (new : NewFrame w c turn) (data : turn.client.control.nodata = false) :
    remember (written (build w c turn) c turn m) c =
      some ⟨(writtenPs (build w c turn) c turn).ps,
        window w.ring.numClientEntities m.ents w.ring.nextClientEntities (keptOf w turn)⟩ := by
  have num : (written (build w c turn) c turn m).ring.numClientEntities =
      w.ring.numClientEntities := (sameFrames_write _ c).num.trans new.num
  have framenum : (written (build w c turn) c turn m).ring.framenum = w.ring.framenum :=
    (write_framenum _ c).trans new.framenum
  have frame : ((written (build w c turn) c turn m).ring.clients c).frames
      (w.ring.framenum % updateBackup) =
        some ⟨w.ring.framenum, w.ring.nextClientEntities, keptOf w turn⟩ := by
    change ((EntityRing.step (build w c turn).ring (.write c)).clients c).frames _ = _
    rw [(sameFrames_write _ c).frames]
    exact new.frame
  have player : (written (build w c turn) c turn m).ps c (w.ring.framenum % updateBackup) =
      (writtenPs (build w c turn) c turn).ps := by
    simp only [written, data, Bool.false_eq_true, if_false, new.framenum, Function.update_self]
  simp only [remember, framenum, num, frame, player, Option.map_some]
  exact rfl

theorem ring_transmit (built : Built w c) (data : List UInt8) (base : Option Nat) :
    (transmit w c data base).ring = EntityRing.updateClient w.ring c
      { w.ring.clients c with sent := w.ring.framenum :: (w.ring.clients c).sent } :=
  if_pos built

/-- Sending a frame changes nothing of the ring but the list of the frames that were sent. -/
theorem clients_transmit {α : Type} (built : Built w c) (data : List UInt8) (base : Option Nat)
    (proj : EntityRing.Client → α)
    (same : ∀ client sent, proj { client with sent } = proj client) (a : Nat) :
    proj ((transmit w c data base).ring.clients a) = proj (w.ring.clients a) := by
  rw [ring_transmit built]
  exact clients_updateClient proj (same _ _) a

theorem sent_transmit (built : Built w c) (data : List UInt8) (base : Option Nat) (a : Nat) :
    ((transmit w c data base).ring.clients a).sent =
      if a = c then w.ring.framenum :: (w.ring.clients c).sent else (w.ring.clients a).sent := by
  rw [ring_transmit built]
  split
  · rename_i here
    simp only [EntityRing.updateClient, here, Function.update_self]
  · rename_i other
    simp only [EntityRing.updateClient, Function.update_of_ne other]

theorem history_transmit (data : List UInt8) (base : Option Nat) (a f : Nat) :
    (transmit w c data base).history a f =
      if a = c ∧ f = w.ring.framenum then remember w c else w.history a f := by
  change Function.update w.history c
    (Function.update (w.history c) w.ring.framenum (remember w c)) a f = _
  split
  · rename_i here
    rw [here.1, here.2, Function.update_self, Function.update_self]
  · rename_i other
    exact update_other _ _ _ _ (not_and_or.mp other)

/-- What is remembered of the frame that is sent is what its slots hold. -/
theorem Inv.contents_transmit (inv : Inv zlib w) (data : List UInt8) (base : Option Nat)
    {first count : Nat} (frame : (w.ring.clients c).frames (w.ring.framenum % updateBackup) =
      some ⟨w.ring.framenum, first, count⟩) {a k : Nat} {r : FrameRecord} {old : Remembered}
    (has : (w.ring.clients a).frames k = some r)
    (known : (transmit w c data base).history a r.framenum = some old) :
    w.ps a k = old.ps ∧ (Intact w.ring a r →
      window w.ring.numClientEntities w.ents r.firstEntity r.numEntities = old.window) := by
  rw [history_transmit] at known
  split at known
  · rename_i here
    obtain ⟨rfl, new⟩ := here
    have place := inv.ring.place a k r has
    rw [new] at place
    rw [place, frame] at has
    cases has
    rw [remember, frame, Option.map_some] at known
    cases known
    exact ⟨congrArg (w.ps a) place, fun _ => rfl⟩
  · exact inv.contents a k r old has known

/-- A frame is sent, and the server remembers it. -/
theorem Inv.transmit (inv : Inv zlib w) (first count : Nat)
    (fresh : ∀ f ∈ (w.ring.clients c).sent, f < w.ring.framenum)
    (frame : (w.ring.clients c).frames (w.ring.framenum % updateBackup) =
      some ⟨w.ring.framenum, first, count⟩)
    (sorted : Sorted EntityState.number
      (present (window w.ring.numClientEntities w.ents first count)))
    (inRange : ∀ e ∈ present (window w.ring.numClientEntities w.ents first count), InRange e)
    {base : Option Nat}
    (acked : ∀ b, base = some b →
      b ∈ (w.viewers c).accepted ∧ b < w.ring.framenum ∧ w.ring.framenum < b + updateBackup)
    (readable : Readable zlib (w.lastlines c)
      (Function.update (w.history c) w.ring.framenum (remember w c))
      ⟨data, w.ring.framenum, base⟩) :
    Inv zlib (transmit w c data base) := by
  have remembered : remember w c = some ⟨w.ps c (w.ring.framenum % updateBackup),
      window w.ring.numClientEntities w.ents first count⟩ := by
    rw [remember, frame, Option.map_some]
  have built : Built w c := by
    rw [Built, frame, Option.map_some]
  have sent := sent_transmit built data base
  have history := history_transmit (w := w) (c := c) data base
  have frames := clients_transmit built data base EntityRing.Client.frames fun _ _ => rfl
  have lastframe := clients_transmit built data base EntityRing.Client.lastframe fun _ _ => rfl
  refine
    { ring := EntityRing.inv_step w.ring (.transmit c) inv.ring
      remembered := fun a f listed => ?_
      known := fun a f r has => ?_
      ordered := fun a f r has => ?_
      contents := fun a k r old has known => ?_
      acked := fun a => ?_
      following := fun a => ?_ }
  · rw [history]
    rw [sent] at listed
    split
    · exact ⟨_, remembered⟩
    · rename_i other
      split at listed
      · rename_i here
        subst here
        refine inv.remembered a f ((List.mem_cons.mp listed).resolve_left fun new => ?_)
        exact other ⟨rfl, new⟩
      · exact inv.remembered a f listed
  · rw [history] at has
    rw [sent]
    split at has
    · rename_i here
      rw [if_pos here.1, here.2]
      exact List.mem_cons_self
    · have before := inv.known a f r has
      split
      · rename_i here
        exact List.mem_cons_of_mem _ (here ▸ before)
      · exact before
  · rw [history] at has
    split at has
    · rw [remembered] at has
      cases has
      exact ⟨sorted, inRange⟩
    · exact inv.ordered a f r has
  · rw [frames] at has
    obtain ⟨player, same⟩ := inv.contents_transmit data base frame has known
    refine ⟨player, fun intact => ?_⟩
    rw [ring_transmit built] at intact ⊢
    exact same intact
  · rw [lastframe]
    exact inv.acked a
  · rw [sent]
    simp only [FrameReplication.transmit]
    by_cases here : a = c
    · subst here
      rw [if_pos rfl, Function.update_self, Function.update_self]
      exact (inv.following a).sent_more rfl fresh readable acked fun f older =>
        Function.update_of_ne (Nat.ne_of_lt older) _ _
    · rw [if_neg here, Function.update_of_ne here, Function.update_of_ne here]
      exact inv.following a

end

/-! ## Every run -/

section
variable {zlib : Zlib} {protocolVersion : Nat} {w : World} {c : Nat} {turn : Turn} {m : Memory}
  {data : List UInt8}

/-- A client that has the frame of the delta base has what it takes to read the new one. -/
theorem Inv.hasBase (protocolVersion : Nat) (inv : Inv zlib w) (fresh : ¬Built w c)
    (room : Room w c turn) (new : NewFrame w c turn) (remembered : Option Remembered)
    {frames : Nat → Option Snapshot}
    (has : ∀ b, deltaBase (build w c turn).ring c = some b →
      ∃ snapshot, frames (b % updateBackup) = some snapshot ∧ snapshot.framenum = b ∧
        Shows (Function.update (w.history c) w.ring.framenum remembered) snapshot) :
    ∃ snapshot, HasBase frames
      (deltaNumber (newSetting protocolVersion w c turn) (newBase protocolVersion w c turn))
      (oldPs (build w c turn) c)
      (clientCopy (newSetting protocolVersion w c turn) (build w c turn).ents
        (newBase protocolVersion w c turn)) snapshot := by
  cases chosen : deltaBase (build w c turn).ring c with
  | none =>
    refine ⟨nullSnapshot, ?_⟩
    rw [newBase_none chosen, oldPs, chosen, Option.map_none, clientCopy, live_none]
    exact hasBase_noDelta frames
  | some f =>
    obtain ⟨r, old, base⟩ := inv.oldFrame fresh room new chosen
    obtain ⟨snapshot, held, named, known, found, copies, entities⟩ := has f chosen
    rw [named, Function.update_of_ne (Nat.ne_of_lt base.older), base.remembered] at found
    cases found
    have number : deltaNumber (newSetting protocolVersion w c turn)
        (FrameReplication.newBase protocolVersion w c turn) = f := by
      rw [base.newBase chosen]
      change ((build w c turn).ring.clients c).lastframe.toNat = f
      rw [deltaBase_lastframe chosen, Int.toNat_natCast]
    have small : f ≠ noDelta := by
      have older := base.older
      have framenum := room.framenum
      rw [noDelta]
      omega
    refine ⟨snapshot, ?_, ?_, ?_⟩
    · rw [number, baseOf, if_neg small, held]
      exact Option.filter_eq_some_iff.mpr ⟨rfl, decide_eq_true named⟩
    · rw [oldPs, chosen, Option.map_some, Option.getD_some, base.ps]
      exact copies
    · rw [clientCopy, base.newBase chosen, entities]
      exact congrArg (List.map view) (base.live protocolVersion new).symm

/-- The client can read the new frame with what it has. -/
theorem Inv.readable (inv : Inv zlib w) (fresh : ¬Built w c) (room : Room w c turn)
    (new : NewFrame w c turn) (sends : turn.client.control.nodata = false)
    (decoded : Decoded zlib (newSetting protocolVersion w c turn) (build w c turn).ents
      (newBase protocolVersion w c turn) turn.surpressCount m data) :
    Readable zlib (w.lastlines c)
      (Function.update (w.history c) w.ring.framenum
        (remember (FrameReplication.written (build w c turn) c turn m) c))
      ⟨data, w.ring.framenum, deltaBase (build w c turn).ring c⟩ := by
  intro frames has
  obtain ⟨snapshot, hasBase⟩ := inv.hasBase protocolVersion fresh room new _ has
  have framenum : (newSetting protocolVersion w c turn).framenum = w.ring.framenum := new.framenum
  have acked : (newSetting protocolVersion w c turn).lastframe <
      (newSetting protocolVersion w c turn).framenum := by
    rw [framenum]
    exact lt_of_eq_of_lt (new.lastframe c) (inv.lastframe_lt fresh)
  have read : readFrame zlib (w.lastlines c) frames data =
      some ⟨_, readOver turn.receiver _ turn.ps snapshot.ps, _⟩ :=
    readFrame_of_hasBase decoded (fun _ => rfl) (framenum ▸ room.framenum) acked turn.few hasBase
  refine ⟨_, read, framenum, ?_⟩
  refine ⟨⟨(writtenPs (build w c turn) c turn).ps,
    window w.ring.numClientEntities m.ents w.ring.nextClientEntities (keptOf w turn)⟩, ?_, ?_, ?_⟩
  · rw [framenum, Function.update_self, remember_written new sends]
  · exact copies_readOver turn.receiver _ turn.ps hasBase.ps
  · rw [live_eq, num_setting new, newframe_setting new]
    exact rfl

/-- A frame that is put into a datagram is remembered as the client will have it. -/
theorem Inv.sends (inv : Inv zlib w) (fresh : ¬Built w c) (room : Room w c turn)
    (new : NewFrame w c turn) (sends : turn.client.control.nodata = false)
    (attempted : Attempted (newSetting protocolVersion w c turn) (build w c turn).ents
      (newBase protocolVersion w c turn) turn.surpressCount m)
    (decoded : Decoded zlib (newSetting protocolVersion w c turn) (build w c turn).ents
      (newBase protocolVersion w c turn) turn.surpressCount m data) :
    Inv zlib (FrameReplication.transmit (FrameReplication.written (build w c turn) c turn m) c data
      (deltaBase (build w c turn).ring c)) := by
  have same : SameFrames (build w c turn).ring
      (FrameReplication.written (build w c turn) c turn m).ring := sameFrames_write _ c
  have framenum : (FrameReplication.written (build w c turn) c turn m).ring.framenum =
      w.ring.framenum := (write_framenum _ c).trans new.framenum
  have num : (FrameReplication.written (build w c turn) c turn m).ring.numClientEntities =
      w.ring.numClientEntities := same.num.trans new.num
  have live : present (window
      (FrameReplication.written (build w c turn) c turn m).ring.numClientEntities m.ents
        w.ring.nextClientEntities (keptOf w turn)) =
      live (newSetting protocolVersion w c turn).ctx m.ents
        (newframe (newSetting protocolVersion w c turn)) 0 := by
    rw [live_eq, num, num_setting new, newframe_setting new]
  refine (inv.written fresh new attempted).transmit w.ring.nextClientEntities
    (keptOf w turn) ?_ ?_ ?_ ?_ ?_ ?_
  · rw [framenum, same.sent, new.sent]
    exact inv.unsent fresh
  · rw [framenum, same.frames]
    exact new.frame
  · exact live ▸ attempted.ready.newSorted
  · exact live ▸ attempted.ready.newRange
  · intro f chosen
    obtain ⟨r, old, base⟩ := inv.oldFrame fresh room new chosen
    rw [framenum]
    exact ⟨base.accepted, base.older, base.recent⟩
  · rw [framenum]
    exact inv.readable fresh room new sends decoded

/-- A turn keeps what the clients have. -/
theorem Inv.send (inv : Inv zlib w) (c : Nat) (turn : Turn) (room : Room w c turn) :
    Inv zlib (send zlib protocolVersion w c turn) := by
  unfold FrameReplication.send
  split
  · exact inv
  · rename_i ready
    have fresh : ¬Built w c := fun built => ready (Or.inr built)
    have new := newFrame_build inv.ring fresh room
    have wrote : Returns (FrameWritten zlib (newSetting protocolVersion w c turn)
        (build w c turn).ents (newBase protocolVersion w c turn) turn.surpressCount turn.client)
        (attempt zlib protocolVersion (build w c turn) c turn) :=
      frameDatagram_written { turn.env with zlib } _ _ _ _ turn.client
        (inv.promised fresh room new)
    dsimp only
    split
    · exact inv
    · rename_i m d ran
      rw [ran] at wrote
      obtain ⟨attempted, put⟩ := wrote
      split
      · exact inv.written fresh new attempted
      · rename_i filled
        obtain ⟨sends, decoded⟩ := put filled
        exact inv.sends fresh room new sends attempted decoded

/-- A packet is delivered, whichever it is. -/
theorem Inv.deliver (inv : Inv zlib w) (c index : Nat) : Inv zlib (deliver zlib w c index) := by
  unfold FrameReplication.deliver
  dsimp only
  split
  · exact inv
  · rename_i fresh
    split
    · exact inv
    · rename_i p there
      have next := (inv.following c).deliver (Nat.le_of_not_lt fresh) there
      have grows : ∀ f ∈ (w.viewers c).accepted, f ∈ (receive (w.viewers c) index
          (readFrame zlib (w.lastlines c) (w.viewers c).frames p.data)).accepted := by
        intro f accepted
        cases readFrame zlib (w.lastlines c) (w.viewers c).frames p.data with
        | none => exact accepted
        | some snapshot => exact List.mem_cons_of_mem _ accepted
      refine ⟨inv.ring, inv.remembered, inv.known, inv.ordered, inv.contents, ?_, ?_⟩
      · intro a
        dsimp only
        by_cases here : a = c
        · rw [here, Function.update_self]
          exact (inv.acked c).imp_right fun ⟨f, accepted, same⟩ => ⟨f, grows f accepted, same⟩
        · rw [Function.update_of_ne here]
          exact inv.acked a
      · intro a
        dsimp only
        by_cases here : a = c
        · rw [here, Function.update_self]
          exact next
        · rw [Function.update_of_ne here]
          exact inv.following a

/-- A new client has no frame, and has been sent none. -/
theorem Inv.connect (inv : Inv zlib w) (c : Nat) (lastlines : Baselines) :
    Inv zlib (step zlib protocolVersion w (.connect c lastlines)) where
  ring := EntityRing.inv_step w.ring (.connect c) inv.ring
  remembered := by
    intro a f sent
    simp only [step, EntityRing.step, EntityRing.updateClient] at sent ⊢
    by_cases here : a = c
    · rw [here, Function.update_self] at sent
      cases sent
    · rw [Function.update_of_ne here] at sent ⊢
      exact inv.remembered a f sent
  known := by
    intro a f r remembered
    simp only [step, EntityRing.step, EntityRing.updateClient] at remembered ⊢
    by_cases here : a = c
    · rw [here, Function.update_self] at remembered
      cases remembered
    · rw [Function.update_of_ne here] at remembered ⊢
      exact inv.known a f r remembered
  ordered := by
    intro a f r remembered
    simp only [step] at remembered
    by_cases here : a = c
    · rw [here, Function.update_self] at remembered
      cases remembered
    · rw [Function.update_of_ne here] at remembered
      exact inv.ordered a f r remembered
  contents := by
    intro a k r old has remembered
    simp only [step] at remembered
    simp only [step, EntityRing.step, EntityRing.updateClient] at has
    by_cases here : a = c
    · rw [here, Function.update_self] at remembered
      cases remembered
    · rw [Function.update_of_ne here] at remembered has
      exact inv.contents a k r old has remembered
  acked := by
    intro a
    simp only [step, EntityRing.step, EntityRing.updateClient]
    by_cases here : a = c
    · rw [here, Function.update_self]
      exact Or.inl rfl
    · rw [Function.update_of_ne here, Function.update_of_ne here]
      exact inv.acked a
  following := by
    intro a
    simp only [step, EntityRing.step, EntityRing.updateClient]
    by_cases here : a = c
    · rw [here]
      simp only [Function.update_self]
      exact following_start zlib lastlines _ _
    · simp only [Function.update_of_ne here]
      exact inv.following a

/-- One client of the ring is changed, but not its frames. -/
theorem Inv.client_changed (inv : Inv zlib w) {c : Nat} {client : EntityRing.Client}
    (frames : client.frames = (w.ring.clients c).frames)
    (sent : client.sent = (w.ring.clients c).sent)
    (acked : client.lastframe = -1 ∨ ∃ f ∈ (w.viewers c).accepted, client.lastframe = f) :
    Inv zlib { w with ring := EntityRing.updateClient w.ring c client } := by
  have ring : EntityRing.Inv (EntityRing.updateClient w.ring c client) := by
    refine EntityRing.inv_updateClient inv.ring (fun k r has => frames ▸ has) ?_ ?_
    · rw [sent]
      exact inv.ring.sent_past c
    · rw [sent, frames]
      exact inv.ring.sent_kept c
  refine inv.ring_changed (sameFrames_updateClient frames sent) ring fun a => ?_
  simp only [EntityRing.updateClient]
  by_cases here : a = c
  · rw [here, Function.update_self]
    exact acked
  · rw [Function.update_of_ne here]
    exact inv.acked a

/-- Every step with room in the ring keeps what the clients have. -/
theorem inv_step (w : World) (op : Op) (inv : Inv zlib w) (room : HasRoom w op) :
    Inv zlib (step zlib protocolVersion w op) := by
  cases op with
  | tick =>
    exact inv.ring_changed ⟨rfl, rfl, fun _ => rfl, fun _ => rfl⟩ (EntityRing.inv_frame inv.ring)
      inv.acked
  | connect c lastlines => exact inv.connect c lastlines
  | send c turn => exact inv.send c turn room
  | deliver c index => exact inv.deliver c index
  | ack c framenum =>
    cases framenum with
    | none => exact inv.client_changed rfl rfl (Or.inl rfl)
    | some f =>
      simp only [step]
      split
      · rename_i accepted
        exact inv.client_changed rfl rfl (Or.inr ⟨f, accepted, rfl⟩)
      · exact inv
  | record c start => exact inv.client_changed rfl rfl (inv.acked c)

end

/-- As long as the ring has room, a client reads every frame that it accepts, whatever got lost, was
repeated or overtaken before, and each that it has is what the server sent under that number. -/
theorem frames_replicated (zlib : Zlib) (protocolVersion maxclients framenum : Nat)
    (ents : Entities) (lastlines : Nat → Baselines) (ops : List Op)
    (room : AllSteps (step zlib protocolVersion) HasRoom
      (start maxclients framenum ents lastlines) ops) (c : Nat) :
    Faithful (run (step zlib protocolVersion) (start maxclients framenum ents lastlines) ops) c :=
  Inv.faithful (invariant_run inv_step (inv_start zlib maxclients framenum ents lastlines) room) c

section
variable {w : World} {c : Nat} {turn : Turn}

/-- Until the ring comes round for the first time, there is room for every frame. -/
theorem room_of_high (framenum : w.ring.framenum < 2 ^ 31)
    (divides : w.ring.numClientEntities ∣ 2 ^ 32)
    (high : (build w c turn).ring.high ≤ w.ring.numClientEntities) : Room w c turn where
  framenum := framenum
  new := Or.inr ⟨Nat.le_add_left_of_le high, Or.inl divides⟩
  base := fun _ _ _ _ => Or.inr ⟨Nat.le_add_left_of_le high, Or.inl divides⟩

end

private def barrel (number : Nat) : EntityState where
  number := number
  origin := ⟨0, 0, 0⟩
  angles := ⟨0, 0, 0⟩
  oldOrigin := ⟨0, 0, 0⟩
  modelindex := 1
  frame := 0
  skinnum := 0
  effects := 0
  renderfx := 0
  renderfx2 := 0
  solid := 0
  sound := 0
  event := 0
  numParts := 0
  modelParts := Vector.replicate _ ⟨0, 0, Vector.replicate _ 0, []⟩
  modelLighting := ⟨Vector.replicate _ 0, 0, []⟩
  scale := 1

private theorem barrel_inRange (_ : Nat) : (barrel 0).number < Protocol.maxEdicts .kingpin :=
  Nat.zero_lt_succ 2047

private def noLines : Baselines where
  state := fun _ => barrel 0
  inRange := barrel_inRange

private theorem stored_le : ∀ (input : List UInt8) (avail : Nat) (out : List UInt8),
    (if input.length ≤ avail then some input else none) = some out → out.length ≤ avail := by
  intro input avail out stored
  split at stored
  · cases stored
    assumption
  · cases stored

private theorem stored_back : ∀ (input : List UInt8) (avail : Nat) (out : List UInt8),
    (if input.length ≤ avail then some input else none) = some out → some out = some input := by
  intro input avail out stored
  split at stored
  · cases stored
    exact rfl
  · cases stored

private def asIs : Zlib where
  deflate := fun input avail => if input.length ≤ avail then some input else none
  inflate := some
  deflate_le := stored_le
  inflate_deflate := stored_back

private theorem barrels_sorted : Sorted EntityState.number [barrel 3, barrel 7] := by decide

private theorem barrels_inRange : ∀ s ∈ [barrel 3, barrel 7], InRange s := by decide

private theorem one_areabyte : [(0 : UInt8)].length < 2 ^ 8 := by decide

/-- The second one of two barrels is only seen if `both` are. -/
private def barrels (both : Bool) : Turn where
  states := [barrel 3, barrel 7]
  sorted := barrels_sorted
  inRange := barrels_inRange
  fate := fun s => if both = true ∨ s.number = 3 then .keep else .remove
  ps := { nullPlayerstate with fov := 90 }
  receiver := ⟨34, false, false, false, false, 0⟩
  areabits := [0]
  few := one_areabyte
  patched := true
  turned := false
  surpressCount := 0
  env := { curtime := 0, rate := 0, zlib := asIs }
  client :=
    { control :=
        { state := .spawned
          netchan :=
            { sock := .server, lastReceived := 0, lastSent := 0, qport := 7, protocol := 34
              message := { allowoverflow := true, maxsize := 1390, buffsize := 1390 } } } }

/-- The second of three frames is overtaken by the third. -/
private def overtaken : List Op :=
  [.send 0 (barrels true), .deliver 0 0, .ack 0 (some 1), .tick, .send 0 (barrels false), .tick,
    .send 0 (barrels false), .deliver 0 2, .deliver 0 1]

private def barrelWorld : World := start 1 1 (fun _ => barrel 0) fun _ => noLines

private theorem overtaken_room : AllSteps (step asIs 34) HasRoom barrelWorld overtaken := by
  refine ⟨?_, trivial, trivial, trivial, ?_, trivial, ?_, trivial, trivial, trivial⟩
  · exact room_of_high (by decide +kernel) (by decide +kernel) (by decide +kernel)
  · exact room_of_high (by decide +kernel) (by decide +kernel) (by decide +kernel)
  · exact room_of_high (by decide +kernel) (by decide +kernel) (by decide +kernel)

theorem frames_replicated_overtaken :
    AllSteps (step asIs 34) HasRoom barrelWorld overtaken ∧
      ((run (step asIs 34) barrelWorld overtaken).viewers 0).accepted = [3, 1] ∧
      ((((run (step asIs 34) barrelWorld overtaken).viewers 0).frames 3).map fun snapshot =>
        snapshot.entities.map View.number) = some [3] ∧
      Faithful (run (step asIs 34) barrelWorld overtaken) 0 :=
  ⟨overtaken_room, by decide +kernel, by decide +kernel,
    frames_replicated asIs 34 1 1 (fun _ => barrel 0) (fun _ => noLines) overtaken overtaken_room 0⟩

end FrameReplication
