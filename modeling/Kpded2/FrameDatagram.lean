import Kpded2.ClientDatagram
import Kpded2.PacketParse

/-!
# The frame in the datagram

`SV_WriteFrameToClient` as the writer of the loop at `retryframe`. Each attempt
starts from the entities that the one before has left. `attempts` counts them; the
server itself does not.
-/
namespace FrameDatagram
open ClientDatagram DeltaEntity MessageList Outcome PacketEntities PacketParse Protocol SizeBuf
open SortedEdits (Sorted patch)

def svcFrame : UInt8 := 22

/-- What stays fixed between the attempts. `turned` is the test of the view angles for
the `centerview` workaround, and `playerstate` what `SV_WritePlayerstateToClient` writes
at each attempt. The limit of `ctx` is not used. -/
structure Setting where
  ctx : Context
  framenum : Nat
  lastframe : Int
  demofile : Bool
  patched : Bool
  turned : Bool
  frames : Nat → ClientFrame
  areabits : List UInt8
  playerstate : Nat → List UInt8

structure Memory where
  ents : Entities
  demostart : Nat
  surpressCount : Nat
  attempts : Nat := 0

/-- A client demo needs to start with a non-delta frame. -/
def startsDemo (s : Setting) (demostart : Nat) : Bool :=
  s.demofile && decide (0 ≤ s.lastframe ∧ s.lastframe.toNat < demostart)

def oldframe (s : Setting) (demostart : Nat) : Option ClientFrame :=
  if startsDemo s demostart then none
  else if s.lastframe ≤ 0 then none
  else if (s.framenum : Int) - s.lastframe ≥ (updateBackup : Int) - 2 then none
  else some (s.frames (s.lastframe.toNat % updateBackup))

def newframe (s : Setting) : ClientFrame := s.frames (s.framenum % updateBackup)

/-- "centerview\n" with its NUL. -/
def centerview : List UInt8 := [99, 101, 110, 116, 101, 114, 118, 105, 101, 119, 10, 0]

def workaround (s : Setting) (base : Option ClientFrame) : List UInt8 :=
  if !s.patched && base.isSome && s.turned then svcStufftext :: centerview else []

/-- Everything in front of `svc_packetentities`. -/
def frameHead (s : Setting) (base : Option ClientFrame) (attempt surpressCount : Nat) :
    List UInt8 :=
  workaround s base ++ svcFrame :: (longBytes s.framenum ++
    longBytes (if base.isSome then s.lastframe.toNat else 2 ^ 32 - 1) ++
    [UInt8.ofNat surpressCount, UInt8.ofNat s.areabits.length] ++ s.areabits ++
    s.playerstate attempt)

def svWriteFrameToClient (s : Setting) (m : Memory) (newEntities : Nat) :
    Option (Frame Memory) := do
  let base := oldframe s m.demostart
  let out ← svEmitPacketEntities { s.ctx with newEntities } m.ents base (newframe s)
  let bytes := frameHead s base m.attempts m.surpressCount ++ packetBytes out.commands
  some
    { memory :=
        { ents := out.ents
          demostart := if startsDemo s m.demostart then min m.demostart s.framenum else m.demostart
          surpressCount := 0
          attempts := m.attempts + 1 }
      newEntities := out.newEntities
      bytes := if bytes.length ≤ frameBuf then some bytes else none }

/-! ## What a client makes of the datagram -/

/-- A compressed packet tells the length of its stream. -/
def opened (zlib : Zlib) : List UInt8 → Option (List UInt8)
  | svc :: a :: b :: rest =>
    if svc = svcCpacket then
      let size := a.toNat + b.toNat * 2 ^ 8
      (zlib.inflate (rest.take size)).map (· ++ rest.drop size)
    else some (svc :: a :: b :: rest)
  | short => some short

/-- The client has the base as it was sent to it. -/
def clientCopy (s : Setting) (sent : Entities) (base : Option ClientFrame) : List View :=
  (live s.ctx sent (oldFrame base) 0).map view

/-- The entities that a client reads from the datagram are those that the server
remembers of the frame. -/
def Decoded (zlib : Zlib) (s : Setting) (sent : Entities) (base : Option ClientFrame)
    (surpressCount : Nat) (m : Memory) (data : List UInt8) : Prop :=
  ∃ body commands rest,
    opened zlib data = some (frameHead s base (m.attempts - 1)
      (if m.attempts = 1 then surpressCount else 0) ++ body) ∧
    readPacket body = some (commands, rest) ∧
    patch (reader s.ctx.lastlines) commands (clientCopy s sent base) =
      (live s.ctx m.ents (newframe s) 0).map view

/-- What the callers promise: the client acknowledges only frames that were sent, and
`SV_BuildClientFrame` puts the entities in order of their numbers. -/
structure Promised (s : Setting) (ents sent : Entities) (base : Option ClientFrame) : Prop where
  acked : s.lastframe < s.framenum
  oldSorted : Sorted EntityState.number (live s.ctx sent (oldFrame base) 0)
  oldRange : WindowInRange s.ctx sent (oldFrame base) 0
  newSorted : Sorted EntityState.number (live s.ctx ents (newframe s) 0)
  newRange : WindowInRange s.ctx ents (newframe s) 0

/-- The slots of the delta base still hold what the client was sent. -/
def BaseKept (s : Setting) (ents sent : Entities) (base : Option ClientFrame) : Prop :=
  ∀ i ∈ slots s.ctx (oldFrame base) 0, ents i = sent i

/-! ## The loop -/

/-- How many more frames are written at most. -/
def attemptsLeft (newEntities : Nat) (reduced : Bool) : Nat :=
  if newEntities = 0 then 1 else if reduced then 2 else 3

theorem attemptsLeft_pos (newEntities : Nat) (reduced : Bool) :
    0 < attemptsLeft newEntities reduced := by
  unfold attemptsLeft
  split
  · decide
  · cases reduced <;> decide

/-- Every attempt that is followed by another uses one up. -/
theorem attemptsLeft_step {newEntities counted fuel : Nat} {reduced : Bool}
    (hle : counted ≤ newEntities) (hmore : counted ≠ 0)
    (hleft : attemptsLeft newEntities reduced ≤ fuel + 1) :
    attemptsLeft (if reduced then 0 else counted / 2) true ≤ fuel := by
  unfold attemptsLeft at hleft
  rw [if_neg (by omega)] at hleft
  cases reduced with
  | true => exact Nat.le_of_succ_le_succ hleft
  | false =>
    have htwo : 2 ≤ fuel := Nat.le_of_succ_le_succ hleft
    simp only [attemptsLeft, Bool.false_eq_true, if_false, if_true]
    split <;> omega

/-- The rule for the loop at `retryframe`: `Inv` holds before each attempt, with the
number of attempts that are left. -/
theorem retryframe_rule {σ : Type} {env : Env} {write : σ → Nat → Option (Frame σ)}
    {rmessage : Option Nat} (Inv Post : Nat → σ → Draft → Prop)
    (hlimit : ∀ memory newEntities frame, write memory newEntities = some frame →
      frame.newEntities ≤ newEntities)
    (hput : ∀ left memory newEntities d frame, Inv (left + 1) memory d →
      write memory newEntities = some frame →
      Ensures .unfinished (fun r => if r.2 then Post left frame.memory r.1
        else Inv left frame.memory r.1) (putAttempt env rmessage d frame.bytes))
    (hdropped : ∀ left memory d, Inv left memory d → Post left memory d)
    (fuel : Nat) {left : Nat} {memory : σ} {newEntities : Nat} {reduced : Bool} {d : Draft}
    (h : Inv left memory d) (hleft : attemptsLeft newEntities reduced ≤ left)
    (hfuel : left ≤ fuel) :
    Ensures .unfinished (fun r => ∃ left, Post left r.1 r.2)
      (retryframe env write rmessage fuel memory newEntities reduced d) := by
  have hpos := attemptsLeft_pos newEntities reduced
  induction fuel generalizing left memory newEntities reduced d with
  | zero => omega
  | succ fuel ih =>
    obtain ⟨left, rfl⟩ : ∃ k, left = k + 1 := ⟨left - 1, by omega⟩
    unfold retryframe
    cases hwrite : write memory newEntities with
    | none => exact ensures_error (by decide)
    | some frame =>
      have hle := hlimit memory newEntities frame hwrite
      apply (hput left memory newEntities d frame h hwrite).bind
      rintro ⟨d', done⟩ hr
      dsimp only at hr ⊢
      cases done with
      | true => exact ensures_ok ⟨left, hr⟩
      | false =>
        rw [if_neg (by decide)] at hr ⊢
        split
        · rename_i hmore
          exact ih hr (attemptsLeft_step hle hmore hleft) (by omega) (attemptsLeft_pos _ _)
        · exact ensures_ok ⟨left, hdropped left _ _ hr⟩

/-! ## Bytes in the datagram -/

/-- A buffer that was overrun is flagged; otherwise it holds what was written. -/
def Took (buf : Sizebuf) (data : List UInt8) (out : Sizebuf) : Prop :=
  out.overflowed = true ∨ (buf.overflowed = false ∧ out.data = buf.data ++ data)

theorem szWrite_took {buf out : Sizebuf} {data : List UInt8} (h : szWrite buf data = some out) :
    Took buf data out := by
  unfold szWrite at h
  split at h
  · split at h
    · cases h
      exact Or.inl rfl
    · cases h
  · cases h
    cases hflag : buf.overflowed with
    | true => exact Or.inl rfl
    | false => exact Or.inr ⟨hflag, rfl⟩

theorem writeOrStop_took (buf : Sizebuf) (data : List UInt8) :
    Ensures .unfinished (Took buf data) (writeOrStop buf data) := by
  unfold writeOrStop
  split
  · rename_i hwrite
    exact ensures_ok (szWrite_took hwrite)
  · exact ensures_error (by decide)

theorem Took.trans {a b c : Sizebuf} {x y : List UInt8} (hab : Took a x b) (hbc : Took b y c) :
    Took a (x ++ y) c := by
  rcases hbc with hc | ⟨hb, hdata⟩
  · exact Or.inl hc
  · rcases hab with hb' | ⟨ha, hdata'⟩
    · rw [hb] at hb'
      cases hb'
    · exact Or.inr ⟨ha, by rw [hdata, hdata', List.append_assoc]⟩

/-- The datagram holds these bytes, as they are or compressed, with more behind them. -/
def Carries (zlib : Zlib) (bytes : List UInt8) (msg : Sizebuf) : Prop :=
  msg.overflowed = true ∨ ∃ rest, opened zlib msg.data = some (bytes ++ rest)

theorem opened_plain (zlib : Zlib) {bytes : List UInt8} (h : bytes.head? ≠ some svcCpacket) :
    opened zlib bytes = some bytes := by
  unfold opened
  split
  · rw [if_neg (fun heq => h (congrArg some heq))]
  · rfl

theorem opened_compressed (zlib : Zlib) {input stream : List UInt8} (h : stream.length < 2 ^ 16)
    (hinflate : zlib.inflate stream = some input) :
    opened zlib (svcCpacket :: (shortBytes stream.length ++ stream)) = some input := by
  have hsize : (UInt8.ofNat stream.length).toNat +
      (UInt8.ofNat (stream.length / 2 ^ 8)).toNat * 2 ^ 8 = stream.length := by
    rw [UInt8.toNat_ofNat', UInt8.toNat_ofNat']
    omega
  simp only [shortBytes, List.cons_append, List.nil_append, opened, if_true, hsize,
    List.take_length, List.drop_length, hinflate, Option.map_some, List.append_nil]

/-- What is compressed can be opened again, unless it has overflowed. -/
theorem compressBuffer_carries (zlib : Zlib) (input : List UInt8) {out : Sizebuf}
    (hempty : out.data = []) :
    Ensures .unfinished (fun r => ∀ msg, r = some msg →
      msg.overflowed = true ∨ opened zlib msg.data = some input)
      (compressBuffer zlib input out) := by
  unfold compressBuffer
  dsimp only
  split
  · exact ensures_ok fun _ h => by cases h
  · split
    · exact ensures_ok fun _ h => by cases h
    · rename_i stream hstream
      split
      · exact ensures_error (by decide)
      · rename_i hroom
        apply (writeOrStop_took out [svcCpacket]).bind
        intro first hfirst
        apply (writeOrStop_took first (shortBytes stream.length)).bind
        intro second hsecond
        refine ensures_ok ?_
        rintro msg ⟨⟩
        rcases hfirst.trans hsecond with hover | ⟨_, hdata⟩
        · exact Or.inl hover
        · right
          have husable : maxUsablemsg .kingpin < 2 ^ 16 := by decide
          simp only [hdata, hempty, List.nil_append, List.singleton_append]
          exact opened_compressed zlib (by omega) (zlib.inflate_deflate _ _ _ hstream)

theorem bytes_finishes (m : Messages) (i : Nat) :
    Ensures .unfinished (fun _ => True) (m.bytes i) := by
  unfold Messages.bytes
  split
  · split
    · exact ensures_ok trivial
    · exact ensures_error (by decide)
  · exact ensures_error (by decide)

theorem unreliableSize_finishes (m : Messages) (l : List Nat) :
    Ensures .unfinished (fun _ => True) (unreliableSize m l) := by
  induction l with
  | nil => exact ensures_ok trivial
  | cons i rest ih =>
    unfold unreliableSize
    split
    · exact ih
    · apply (bytes_finishes m i).bind
      rintro bytes -
      apply ih.bind
      rintro size -
      exact ensures_ok trivial

theorem write_finishes (m : Messages) (i offset : Nat) (new : List UInt8) :
    Ensures .unfinished (fun _ => True) (m.write i offset new) := by
  unfold Messages.write
  dsimp only
  split
  · split
    · split
      · exact ensures_ok trivial
      · split
        · exact ensures_ok trivial
        · exact ensures_error (by decide)
    · exact ensures_error (by decide)
  · exact ensures_error (by decide)

theorem svDeleteMessage_finishes (m : Messages) (i : Nat) :
    Ensures .unfinished (fun _ => True) (svDeleteMessage m i) := by
  unfold svDeleteMessage
  split
  · split
    · exact ensures_error (by decide)
    · split
      · exact ensures_ok trivial
      · exact ensures_error (by decide)
  · exact ensures_ok trivial

theorem sweep_finishes {α : Type} {visit : Messages → α → Nat → Except Stop (α × Visit)}
    (hvisit : ∀ m acc i, Ensures .unfinished (fun _ => True) (visit m acc i)) (l : List Nat)
    (acc : α) (m : Messages) : Ensures .unfinished (fun _ => True) (sweep visit l acc m) := by
  induction l generalizing acc m with
  | nil => exact ensures_ok trivial
  | cons i rest ih =>
    unfold sweep
    apply (hvisit m acc i).bind
    rintro ⟨acc', verdict⟩ -
    cases verdict with
    | keep => exact ih acc' m
    | delete =>
      apply (svDeleteMessage_finishes m i).bind
      rintro m' -
      exact ih acc' m'
    | stop => exact ensures_ok trivial

theorem deleteUntil_finishes (stopAt : Option Nat) (m : Messages) (control : Control) (i : Nat) :
    Ensures .unfinished (fun _ => True) (deleteUntil stopAt m control i) := by
  unfold deleteUntil
  split
  · exact ensures_ok trivial
  · split
    · exact ensures_ok trivial
    · exact ensures_ok trivial

/-- The messages behind the frame leave its bytes in front. -/
theorem appendUnreliable_front (m : Messages) (frame : List UInt8) (l : List Nat) :
    Ensures .unfinished (fun r => ∃ rest, r.1 = frame ++ rest) (appendUnreliable m frame l) := by
  induction l generalizing frame with
  | nil => exact ensures_ok ⟨[], (List.append_nil frame).symm⟩
  | cons i rest ih =>
    unfold appendUnreliable
    split
    · exact ih frame
    · apply (bytes_finishes m i).bind
      rintro bytes -
      split
      · exact ensures_ok ⟨[], (List.append_nil frame).symm⟩
      · apply (ih (frame ++ bytes)).mono
        rintro r ⟨more, hmore⟩
        exact ⟨bytes ++ more, by rw [hmore, List.append_assoc]⟩

/-- Compressing the reliable message leaves the datagram empty. -/
theorem compressReliable_empty (zlib : Zlib) (rmessage : Option Nat) {d : Draft}
    (hempty : d.msg.data = []) :
    Ensures .unfinished (fun r => ∀ d', r = some d' → d'.msg.data = [])
      (compressReliable zlib rmessage d) := by
  unfold compressReliable
  dsimp only
  split
  · rename_i i
    split
    · exact ensures_ok fun _ h => by cases h
    · apply (bytes_finishes d.messages i).bind
      rintro bytes -
      apply (compressBuffer_carries zlib bytes
        (show { d.msg with maxsize := d.msg.buffsize }.data = [] from hempty)).bind
      rintro (_ | out) -
      · exact ensures_ok fun _ h => by cases h
      · apply (write_finishes d.messages i 0 out.data).bind
        rintro messages -
        refine ensures_ok ?_
        rintro d' ⟨⟩
        rfl
  · split
    · apply (compressBuffer_carries zlib d.control.netchan.reliable
        (show { d.msg with maxsize := d.msg.buffsize }.data = [] from hempty)).bind
      rintro (_ | out) -
      · exact ensures_ok fun _ h => by cases h
      · refine ensures_ok ?_
        rintro d' ⟨⟩
        rfl
    · exact ensures_ok fun _ h => by cases h

/-- An attempt that ends the loop has put the frame into the datagram; after another
the datagram is still empty. -/
def Put (zlib : Zlib) (bytes : Option (List UInt8)) (r : Draft × Bool) : Prop :=
  if r.2 then ∃ frame, bytes = some frame ∧ Carries zlib frame r.1.msg else r.1.msg.data = []

theorem putPlain_put (zlib : Zlib) {frame : List UInt8} {d : Draft} (hempty : d.msg.data = [])
    (hplain : frame.head? ≠ some svcCpacket) :
    Ensures .unfinished (Put zlib (some frame)) (putPlain frame d) := by
  unfold putPlain
  split
  · apply (writeOrStop_took d.msg frame).bind
    rintro msg (hover | ⟨_, hdata⟩)
    · exact ensures_ok ⟨frame, rfl, Or.inl hover⟩
    · refine ensures_ok ⟨frame, rfl, Or.inr ⟨[], ?_⟩⟩
      simp only [hdata, hempty, List.nil_append, List.append_nil]
      exact opened_plain zlib hplain
  · exact ensures_ok hempty

theorem putCompressed_put (zlib : Zlib) {frame : List UInt8} {d : Draft}
    (hempty : d.msg.data = []) (hplain : frame.head? ≠ some svcCpacket) :
    Ensures .unfinished (Put zlib (some frame)) (putCompressed zlib frame d) := by
  unfold putCompressed
  apply (appendUnreliable_front d.messages frame d.messages.list).bind
  rintro ⟨whole, stopAt⟩ ⟨rest, rfl⟩
  apply (compressBuffer_carries zlib (frame ++ rest) hempty).bind
  rintro (_ | msg) hwhole
  · apply (compressBuffer_carries zlib frame hempty).bind
    rintro (_ | msg) hframe
    · exact putPlain_put zlib hempty hplain
    · refine ensures_ok ⟨frame, rfl, (hframe msg rfl).imp_right fun h => ⟨[], ?_⟩⟩
      rw [h, List.append_nil]
  · apply (sweep_finishes (deleteUntil_finishes stopAt) _ _ _).bind
    rintro ⟨control, messages⟩ -
    exact ensures_ok ⟨frame, rfl, (hwhole msg rfl).imp_right fun h => ⟨rest, h⟩⟩

/-- An attempt puts the frame as it is or compressed, or puts nothing. -/
theorem putAttempt_put (env : Env) (rmessage : Option Nat) {d : Draft} (hempty : d.msg.data = [])
    {bytes : Option (List UInt8)}
    (hplain : ∀ frame, bytes = some frame → frame.head? ≠ some svcCpacket) :
    Ensures .unfinished (Put env.zlib bytes) (putAttempt env rmessage d bytes) := by
  cases bytes with
  | none => exact ensures_ok hempty
  | some frame =>
    have hplain := hplain frame rfl
    change Ensures .unfinished _ (putFrame env rmessage frame d)
    unfold putFrame
    split
    · apply (unreliableSize_finishes d.messages d.messages.list).bind
      rintro rest -
      dsimp only
      split
      · apply (compressReliable_empty env.zlib rmessage hempty).bind
        rintro (_ | d') hd
        · exact putCompressed_put env.zlib hempty hplain
        · dsimp only
          split
          · exact putCompressed_put env.zlib (hd d' rfl) hplain
          · exact putPlain_put env.zlib (hd d' rfl) hplain
      · exact putPlain_put env.zlib hempty hplain
    · exact putPlain_put env.zlib hempty hplain

/-! ## The frames -/

theorem frameHead_head (s : Setting) (base : Option ClientFrame) (attempt surpressCount : Nat)
    (rest : List UInt8) :
    (frameHead s base attempt surpressCount ++ rest).head? ≠ some svcCpacket := by
  unfold frameHead workaround
  split
  · change some svcStufftext ≠ some svcCpacket
    decide
  · change some svcFrame ≠ some svcCpacket
    decide

/-- What every attempt does, whatever the entities are. -/
theorem svWriteFrameToClient_attempt {s : Setting} {m : Memory} {newEntities : Nat}
    {frame : Frame Memory} (h : svWriteFrameToClient s m newEntities = some frame) :
    frame.newEntities ≤ newEntities ∧ frame.memory.attempts = m.attempts + 1 ∧
      ∀ bytes, frame.bytes = some bytes → bytes.head? ≠ some svcCpacket := by
  unfold svWriteFrameToClient at h
  obtain ⟨out, hout, h⟩ := Option.bind_eq_some_iff.mp h
  unfold svEmitPacketEntities at hout
  obtain ⟨⟨ents, commands, count⟩, _, hout⟩ := Option.bind_eq_some_iff.mp hout
  cases hout
  cases h
  refine ⟨Nat.min_le_left _ _, rfl, ?_⟩
  intro bytes hbytes
  dsimp only at hbytes
  split at hbytes
  · cases hbytes
    exact frameHead_head s _ _ _ _
  · cases hbytes

theorem live_congr {ctx : Context} {ents sent : Entities} {frame : ClientFrame}
    (h : ∀ i ∈ slots ctx frame 0, ents i = sent i) : live ctx ents frame 0 = live ctx sent frame 0 := by
  rw [live, live, List.map_congr_left h]

/-- The memory before an attempt. -/
structure Ready (s : Setting) (sent : Entities) (base : Option ClientFrame) (surpressCount : Nat)
    (m : Memory) : Prop where
  chosen : oldframe s m.demostart = base
  kept : BaseKept s m.ents sent base
  newSorted : Sorted EntityState.number (live s.ctx m.ents (newframe s) 0)
  newRange : WindowInRange s.ctx m.ents (newframe s) 0
  surpressCount : m.surpressCount = if m.attempts = 0 then surpressCount else 0

theorem oldframe_next {s : Setting} (hacked : s.lastframe < s.framenum) (demostart : Nat) :
    oldframe s (if startsDemo s demostart then min demostart s.framenum else demostart) =
      oldframe s demostart := by
  by_cases hdemo : startsDemo s demostart = true
  · rw [if_pos hdemo]
    have hagain : startsDemo s (min demostart s.framenum) = true := by
      simp only [startsDemo, Bool.and_eq_true, decide_eq_true_eq] at hdemo ⊢
      exact ⟨hdemo.1, hdemo.2.1, by omega⟩
    rw [oldframe, oldframe, if_pos hagain, if_pos hdemo]
  · rw [if_neg hdemo]

/-- Taking additions out of the new window leaves the old one alone. -/
theorem takeOut_old (ctx : Context) {ents : Entities} {old new : ClientFrame} {i : Nat}
    (hi : i ∈ slots ctx old 0) (hrange : WindowInRange ctx ents new 0) :
    takeOut ents (slots ctx new 0) ((beyondLimit ctx (live ctx ents old 0)
      (live ctx ents new 0)).map EntityState.number) i = ents i := by
  unfold takeOut
  split
  · rename_i h
    obtain ⟨n, hn, hnumber⟩ := List.mem_map.mp h.2
    have hadded := (List.mem_filter.mp (List.mem_of_mem_drop hn)).1
    obtain ⟨hnew, hfresh⟩ := List.mem_filter.mp hadded
    have hpos := (hrange n hnew).1
    have hmem : ents i ∈ live ctx ents old 0 := mem_live hi (by omega)
    have hne : (ents i).number ≠ n.number := by
      simp only [Bool.not_eq_true', List.any_eq_false, beq_iff_eq] at hfresh
      exact hfresh (ents i) hmem
    exact absurd hnumber.symm hne
  · rfl

/-- What an attempt writes and leaves, when the base has been kept. -/
theorem Ready.step {s : Setting} {sent ents : Entities} {base : Option ClientFrame}
    {surpressCount newEntities : Nat} {m : Memory} {frame : Frame Memory}
    (h : Ready s sent base surpressCount m) (hpromised : Promised s ents sent base)
    (hwrite : svWriteFrameToClient s m newEntities = some frame) :
    Ready s sent base surpressCount frame.memory ∧
      ∀ bytes, frame.bytes = some bytes → ∃ commands,
        bytes = frameHead s base m.attempts m.surpressCount ++ packetBytes commands ∧
        (∀ rest, readPacket (packetBytes commands ++ rest) =
          some (commands.map normalCommand, rest)) ∧
        patch (reader s.ctx.lastlines) commands (clientCopy s sent base) =
          (live s.ctx frame.memory.ents (newframe s) 0).map view := by
  have hold := live_congr h.kept
  unfold svWriteFrameToClient at hwrite
  obtain ⟨out, hout, hwrite⟩ := Option.bind_eq_some_iff.mp hwrite
  rw [h.chosen] at hout hwrite
  obtain ⟨out', hout', hcorrect⟩ := svEmitPacketEntities_correct
    { s.ctx with newEntities } m.ents base (newframe s)
    (show Sorted _ (live s.ctx m.ents _ 0) from hold ▸ hpromised.oldSorted) h.newSorted
    (show WindowInRange s.ctx m.ents _ 0 from fun e he => hpromised.oldRange e (hold ▸ he))
    h.newRange
  obtain rfl : out' = out := Option.some.inj (hout'.symm.trans hout)
  have hread := readPacket_svEmitPacketEntities hout
    (show WindowInRange s.ctx m.ents _ 0 from fun e he => hpromised.oldRange e (hold ▸ he))
    h.newRange
  have hleft : live s.ctx out'.ents (newframe s) 0 = (live s.ctx m.ents (newframe s) 0).filter _ :=
    hcorrect.left
  cases hwrite
  refine ⟨⟨?_, ?_, ?_, ?_, rfl⟩, ?_⟩
  · exact (oldframe_next hpromised.acked m.demostart).trans h.chosen
  · intro i hi
    rw [← h.kept i hi]
    dsimp only
    rw [hcorrect.taken]
    exact takeOut_old { s.ctx with newEntities } hi h.newRange
  · dsimp only
    rw [hleft]
    exact h.newSorted.sublist List.filter_sublist
  · intro e he
    dsimp only at he
    rw [hleft] at he
    exact h.newRange e (List.mem_of_mem_filter he)
  · intro bytes hbytes
    dsimp only at hbytes
    split at hbytes
    · cases hbytes
      refine ⟨out'.commands, rfl, hread, ?_⟩
      rw [clientCopy, ← hold]
      exact hcorrect.decoded
    · cases hbytes

theorem Ready.start {s : Setting} {ents sent : Entities} {demostart : Nat} (surpressCount : Nat)
    (hpromised : Promised s ents sent (oldframe s demostart))
    (hkept : BaseKept s ents sent (oldframe s demostart)) :
    Ready s sent (oldframe s demostart) surpressCount { ents, demostart, surpressCount } where
  chosen := rfl
  kept := hkept
  newSorted := hpromised.newSorted
  newRange := hpromised.newRange
  surpressCount := rfl

/-- An attempt that has put its frame into the datagram. -/
theorem decoded_of_carries {zlib : Zlib} {s : Setting} {sent ents : Entities}
    {base : Option ClientFrame} {surpressCount newEntities : Nat} {m : Memory}
    {frame : Frame Memory} {bytes : List UInt8} {msg : Sizebuf}
    (h : Ready s sent base surpressCount m) (hpromised : Promised s ents sent base)
    (hwrite : svWriteFrameToClient s m newEntities = some frame)
    (hbytes : frame.bytes = some bytes) (hcarries : Carries zlib bytes msg) :
    msg.overflowed = true ∨ Decoded zlib s sent base surpressCount frame.memory msg.data := by
  rcases hcarries with hover | ⟨rest, hopened⟩
  · exact Or.inl hover
  · right
    obtain ⟨commands, rfl, hread, hpatch⟩ := (h.step hpromised hwrite).2 bytes hbytes
    have hattempts := (svWriteFrameToClient_attempt hwrite).2.1
    refine ⟨packetBytes commands ++ rest, commands.map normalCommand, rest, ?_, hread rest, ?_⟩
    · rw [hopened, h.surpressCount, hattempts, List.append_assoc]
      simp
    · rw [patch_normal, hpatch]

/-! ### Building the frame -/

theorem visitLayout_finishes (next : Nat) (m : Messages) (reliable : Bool) (i : Nat) :
    Ensures .unfinished (fun _ => True) (visitLayout next m reliable i) := by
  unfold visitLayout
  split
  · exact ensures_ok trivial
  · split
    · exact ensures_ok trivial
    · exact ensures_ok trivial

theorem overflow_finishes (client : Client) :
    Ensures .unfinished (fun _ => True) (overflow client) := by
  unfold overflow svClearMessageList
  refine Ensures.bind (?_ : Ensures Stop.unfinished (fun _ => True) _) ?_
  · apply (sweep_finishes (fun _ _ _ => ensures_ok trivial) _ _ _).bind
    rintro ⟨_, m⟩ -
    exact ensures_ok trivial
  · rintro m -
    exact ensures_ok trivial

theorem dropOtherLayouts_finishes (m : Messages) (next : Nat) :
    Ensures .unfinished (fun _ => True) (dropOtherLayouts m next) := by
  unfold dropOtherLayouts
  split
  · apply (sweep_finishes (visitLayout_finishes next) _ _ _).bind
    rintro ⟨reliable, m'⟩ -
    exact ensures_ok trivial
  · exact ensures_ok trivial

theorem padModelskin_finishes (state : ClientState) (m : Messages) (i : Nat) :
    Ensures .unfinished (fun _ => True) (padModelskin state m i) := by
  unfold padModelskin
  dsimp only
  split
  · split
    · exact ensures_error (by decide)
    · split
      · apply (write_finishes m i _ _).bind
        rintro m' -
        exact ensures_ok trivial
      · exact ensures_ok trivial
  · exact ensures_ok trivial

theorem queueMessage_finishes (client : Client) (data : List UInt8) (reliable : Bool) :
    Ensures .unfinished (fun _ => True) (queueMessage client data reliable) := by
  unfold queueMessage
  dsimp only
  split
  · exact overflow_finishes client
  · split
    · exact overflow_finishes _
    · apply (dropOtherLayouts_finishes _ _).bind
      rintro m -
      apply (padModelskin_finishes _ m _).bind
      rintro m' -
      exact ensures_ok trivial

theorem svBuildClientFrame_finishes (env : Env) (client : Client) :
    Ensures .unfinished (fun _ => True) (svBuildClientFrame env client) := by
  unfold svBuildClientFrame
  split
  · exact ensures_ok trivial
  · unfold svAddMessageSingle
    split
    · exact ensures_ok trivial
    · split
      · exact ensures_ok trivial
      · exact queueMessage_finishes _ _ _

theorem reserve_empty (client : Client) :
    Ensures .unfinished (fun r => r.1.data = []) (reserve client) := by
  unfold reserve
  dsimp only
  split
  · split
    · exact ensures_ok rfl
    · exact ensures_ok rfl
  · split
    · exact ensures_ok rfl
    · apply (bytes_finishes _ _).bind
      rintro bytes -
      exact ensures_ok rfl

section Datagram
variable {zlib : Zlib} {s : Setting} {ents sent : Entities} {base : Option ClientFrame}
  {surpressCount left : Nat} {m : Memory}

/-- Before an attempt. -/
def Before (s : Setting) (ents sent : Entities) (base : Option ClientFrame) (surpressCount left : Nat)
    (m : Memory) (d : Draft) : Prop :=
  m.attempts + left = 3 ∧ d.msg.data = [] ∧
    (Promised s ents sent base → BaseKept s ents sent base → Ready s sent base surpressCount m)

/-- After the last attempt. -/
def After (zlib : Zlib) (s : Setting) (ents sent : Entities) (base : Option ClientFrame)
    (surpressCount left : Nat) (m : Memory) (d : Draft) : Prop :=
  m.attempts + left = 3 ∧
    (Promised s ents sent base → BaseKept s ents sent base → d.msg.data = [] ∨
      d.msg.overflowed = true ∨ Decoded zlib s sent base surpressCount m d.msg.data)

theorem putAttempt_before (env : Env) (rmessage : Option Nat) {newEntities : Nat} {d : Draft}
    {frame : Frame Memory} (h : Before s ents sent base surpressCount (left + 1) m d)
    (hwrite : svWriteFrameToClient s m newEntities = some frame) :
    Ensures .unfinished (fun r =>
        if r.2 then After env.zlib s ents sent base surpressCount left frame.memory r.1
        else Before s ents sent base surpressCount left frame.memory r.1)
      (putAttempt env rmessage d frame.bytes) := by
  obtain ⟨hcount, hempty, hready⟩ := h
  obtain ⟨_, hattempts, hplain⟩ := svWriteFrameToClient_attempt hwrite
  apply (putAttempt_put env rmessage hempty hplain).mono
  rintro ⟨d', done⟩ hput
  cases done with
  | true =>
    obtain ⟨bytes, hbytes, hcarries⟩ := hput
    refine ⟨by omega, fun hpromised hkept => Or.inr ?_⟩
    exact decoded_of_carries (hready hpromised hkept) hpromised hwrite hbytes hcarries
  | false =>
    refine ⟨by omega, hput, fun hpromised hkept => ?_⟩
    exact ((hready hpromised hkept).step hpromised hwrite).1

end Datagram

/-- The loop writes at most three frames. If one is put into the datagram, a client that
still has what the server took as the base of the delta reads from it the entities that
the server remembers of the frame, whatever the attempts before have taken out. -/
theorem frameDatagram_decoded (env : Env) (s : Setting) (ents sent : Entities)
    (demostart surpressCount : Nat) (client : Client) (fuel : Nat) (enough : 3 ≤ fuel) :
    Ensures .unfinished (fun r => r.1.attempts ≤ 3 ∧
        (Promised s ents sent (oldframe s demostart) →
          BaseKept s ents sent (oldframe s demostart) → r.2.msg.data ≠ [] →
          Decoded env.zlib s sent (oldframe s demostart) surpressCount r.1 r.2.msg.data))
      (frameDatagram env (svWriteFrameToClient s) fuel { ents, demostart, surpressCount }
        client) := by
  unfold frameDatagram
  apply (reserve_empty client).bind
  rintro ⟨msg, rmessage⟩ hempty
  dsimp only at hempty ⊢
  split
  · exact ensures_ok ⟨Nat.zero_le 3, fun _ _ hput => absurd hempty hput⟩
  · apply (svBuildClientFrame_finishes env client).bind
    rintro built -
    have hstart : Before s ents sent (oldframe s demostart) surpressCount 3
        { ents, demostart, surpressCount } ⟨built.messages, built.control, msg⟩ :=
      ⟨rfl, hempty, fun hpromised hkept => Ready.start surpressCount hpromised hkept⟩
    have hloop := retryframe_rule (Before s ents sent (oldframe s demostart) surpressCount)
      (After env.zlib s ents sent (oldframe s demostart) surpressCount)
      (fun _ _ _ h => (svWriteFrameToClient_attempt h).1)
      (fun _ _ _ _ _ h hwrite => putAttempt_before env rmessage h hwrite)
      (fun _ _ _ h => ⟨h.1, fun _ _ => Or.inl h.2.1⟩) fuel hstart
      (show attemptsLeft noLimit false ≤ 3 by decide) enough
    apply hloop.bind
    rintro ⟨m, d⟩ ⟨left, hcount, hafter⟩
    refine ensures_ok ⟨by dsimp only at hcount ⊢; omega, fun hpromised hkept hput => ?_⟩
    dsimp only at hput ⊢
    split at hput
    · exact absurd rfl hput
    · rename_i hflag
      rw [if_neg hflag]
      rcases hafter hpromised hkept with hnone | hover | hdecoded
      · exact absurd hnone hput
      · exact absurd hover hflag
      · exact hdecoded

private def exampleEntity (number : Nat) : EntityState where
  number := number
  origin := ⟨0, 0, 0⟩
  angles := ⟨0, 0, 0⟩
  oldOrigin := ⟨0, 0, 0⟩
  modelindex := 1
  frame := 0
  skinnum := 0
  effects := 0
  renderfx := 0
  renderfx2 := 0
  solid := 0
  sound := 0
  event := 0
  numParts := 0
  modelParts := Vector.replicate _ ⟨0, 0, Vector.replicate _ 0, []⟩
  modelLighting := ⟨Vector.replicate _ 0, 0, []⟩
  scale := 1

private def exampleLastlines : Baselines where
  state := fun _ => exampleEntity 0
  inRange := by
    intro n
    exact Nat.lt_of_lt_of_eq (Nat.zero_lt_succ 2047) (show 2048 = maxEdicts .kingpin from rfl)

/-- Frame 14 of the only client, which had entity 1 in frame 5. Between the two there
was room for eight frames of 128 entities. -/
private def exampleSetting : Setting where
  ctx :=
    { numClientEntities := 1024, maxclients := 1, newEntities := 0, protocolVersion := 34
      lastlines := exampleLastlines }
  framenum := 14
  lastframe := 5
  demofile := false
  patched := true
  turned := false
  frames := fun k => if k = 5 then ⟨0, 1⟩ else ⟨1025, 1⟩
  areabits := [0]
  playerstate := fun _ => []

/-- Entity 2 is in the slot of frame 14. -/
private def exampleRing (first : Nat) : Entities := fun i => exampleEntity (if i = 0 then first else 2)

private def plainEnv : Env where
  curtime := 0
  rate := 0
  zlib :=
    { deflate := fun input avail => if input.length ≤ avail then some input else none
      inflate := some
      deflate_le := by
        intro input avail out h
        split at h
        · cases h
          assumption
        · cases h
      inflate_deflate := by
        intro input avail out h
        split at h
        · cases h
          rfl
        · cases h }

private def exampleReceiver : Client where
  control :=
    { state := .spawned
      netchan :=
        { sock := .server, lastReceived := 0, lastSent := 0, qport := 7, protocol := 34
          message := { allowoverflow := true, maxsize := 1390, buffsize := 1390 } } }

private theorem examplePromised (first : Nat) (h : first = 1 ∨ first = 200) :
    Promised exampleSetting (exampleRing first) (exampleRing 1) (oldframe exampleSetting 0) := by
  rcases h with rfl | rfl
  all_goals exact
    { acked := by decide
      oldSorted := by decide
      oldRange := by unfold WindowInRange; decide
      newSorted := by decide
      newRange := by unfold WindowInRange; decide }

/-- With entity 1 still in its slot the client reads that it has gone. -/
theorem frameDatagram_decoded_example :
    Ensures .unfinished (fun r => r.1.attempts ≤ 3 ∧ (r.2.msg.data ≠ [] →
        Decoded plainEnv.zlib exampleSetting (exampleRing 1) (oldframe exampleSetting 0) 0 r.1
          r.2.msg.data))
      (frameDatagram plainEnv (svWriteFrameToClient exampleSetting) 3
        { ents := exampleRing 1, demostart := 0, surpressCount := 0 } exampleReceiver) :=
  (frameDatagram_decoded plainEnv exampleSetting (exampleRing 1) (exampleRing 1) 0 0
    exampleReceiver 3 (Nat.le_refl 3)).mono fun _ h =>
      ⟨h.1, h.2 (examplePromised 1 (Or.inl rfl)) fun _ _ => rfl⟩

/-- With entity 200 of the eighth frame in it, the server removes that one, and the
client keeps entity 1. -/
theorem base_overwritten_misread :
    Promised exampleSetting (exampleRing 200) (exampleRing 1) (oldframe exampleSetting 0) ∧
      ¬ Ensures .unfinished (fun r => r.1.attempts ≤ 3 ∧ (r.2.msg.data ≠ [] →
          Decoded plainEnv.zlib exampleSetting (exampleRing 1) (oldframe exampleSetting 0) 0 r.1
            r.2.msg.data))
        (frameDatagram plainEnv (svWriteFrameToClient exampleSetting) 3
          { ents := exampleRing 200, demostart := 0, surpressCount := 0 } exampleReceiver) := by
  refine ⟨examplePromised 200 (Or.inr rfl), ?_⟩
  intro h
  have hrun : (frameDatagram plainEnv (svWriteFrameToClient exampleSetting) 3
      { ents := exampleRing 200, demostart := 0, surpressCount := 0 } exampleReceiver).map
      (fun r => (r.1.attempts, r.2.msg.data,
        (live exampleSetting.ctx r.1.ents (newframe exampleSetting) 0).map EntityState.number)) =
      .ok (1, [22, 14, 0, 0, 0, 5, 0, 0, 0, 0, 1, 0, 20, 0, 2, 64, 200, 0, 0], [2]) := by
    decide +kernel
  have hread : ((readPacket [20, 0, 2, 64, 200, 0, 0]).map fun r =>
      (patch (reader exampleSetting.ctx.lastlines) r.1
        (clientCopy exampleSetting (exampleRing 1) (oldframe exampleSetting 0))).map
        View.number) = some [1, 2] := by
    decide +kernel
  revert h hrun
  cases frameDatagram plainEnv (svWriteFrameToClient exampleSetting) 3
    { ents := exampleRing 200, demostart := 0, surpressCount := 0 } exampleReceiver with
  | error e =>
    intro _ hrun
    cases hrun
  | ok r =>
    rintro ⟨_, hdecoded⟩ hrun
    obtain ⟨hattempts, hdata, hlive⟩ : r.1.attempts = 1 ∧ r.2.msg.data =
        [22, 14, 0, 0, 0, 5, 0, 0, 0, 0, 1, 0, 20, 0, 2, 64, 200, 0, 0] ∧
        (live exampleSetting.ctx r.1.ents (newframe exampleSetting) 0).map EntityState.number =
          [2] := by
      simpa only [Except.map, Except.ok.injEq, Prod.mk.injEq] using hrun
    rw [hdata] at hdecoded
    obtain ⟨body, commands, rest, hopened, hbody, hpatch⟩ := hdecoded (by decide)
    rw [hattempts] at hopened
    have hbytes : body = [20, 0, 2, 64, 200, 0, 0] :=
      List.append_cancel_left (Option.some.inj hopened).symm
    rw [hbytes] at hbody
    rw [hbody, Option.map_some, hpatch, List.map_map] at hread
    change some ((live exampleSetting.ctx r.1.ents (newframe exampleSetting) 0).map
      EntityState.number) = some [1, 2] at hread
    rw [hlive] at hread
    exact absurd hread (by decide)

end FrameDatagram
