import Kpded2.DemoPlayback

/-!
# From the recording to the playback

The file that a recording has written is a sequence of blocks, the first of `SV_ServerRecord_f` and
one for each frame. Played, each frame takes the next one.
-/
namespace DemoRoundTrip
open Bytes Configstrings DatagramSize DemoPlayback DemoRecording MessageList NetChan Protocol SizeBuf
open StepRuns

/-- The messages of the file that is written, which no code reads. -/
def noted (serverMembers : Nat) (w : Watched) (messages : List (List UInt8)) :
    DemoRecording.Op → List (List UInt8)
  | .serverrecord c =>
    match w.recorder with
    | none => messages
    | some s => if accepted c s then [s.msgbuff ++ startup c] else messages
  | .frame f =>
    match w.recorder with
    | none => messages
    | some s =>
      if s.demofile then messages ++ [frameMessage serverMembers f w.sinceFrame] else messages
  | _ => messages

def record (serverMembers : Nat) (s : Watched × List (List UInt8)) (op : DemoRecording.Op) :
    Watched × List (List UInt8) :=
  (DemoRecording.advance serverMembers s.1 op, noted serverMembers s.1 s.2 op)

theorem record_fst {serverMembers : Nat} (w : Watched) (messages : List (List UInt8))
    (op : DemoRecording.Op) :
    (record serverMembers (w, messages) op).1 = DemoRecording.advance serverMembers w op := rfl

/-- What is in the file that is open, and what the next frame of it will be told. -/
def Written (w : Watched) (messages : List (List UInt8)) : Prop :=
  ∀ s, w.recorder = some s → Kept s w.sinceFrame ∧
    ∀ content, s.file = some content → content = demoFile messages false

variable {serverMembers : Nat}

theorem demoFile_concat (messages : List (List UInt8)) (message : List UInt8) :
    demoFile (messages ++ [message]) false = demoFile messages false ++ block message := by
  simp only [demoFile, List.flatMap_append, List.flatMap_cons, List.flatMap_nil, List.append_nil,
    Bool.false_eq_true, if_false]

theorem demoFile_cons (message : List UInt8) (messages : List (List UInt8)) :
    demoFile (message :: messages) false = block message ++ demoFile messages false := by
  rw [demoFile, List.flatMap_cons, List.append_assoc]
  rfl

/-- A call adds to the file the message that is noted. -/
theorem file_step {s t : Recorder} {sinceFrame : List UInt8} {messages : List (List UInt8)}
    {op : DemoRecording.Op} (kept : Kept s sinceFrame) (room : DemoRecording.Room serverMembers s op)
    (before : ∀ content, s.file = some content → content = demoFile messages false)
    (h : DemoRecording.step serverMembers s op = .ok t) (content : List UInt8)
    (after : t.file = some content) :
    content = demoFile (noted serverMembers ⟨some s, sinceFrame⟩ messages op) false := by
  cases op with
  | serverrecord c =>
    simp only [noted]
    cases taken : accepted c s with
    | false =>
      rw [DemoRecording.step, svServerRecord_of_refused taken] at h
      obtain rfl := Except.ok.inj h
      exact before content after
    | true =>
      rw [DemoRecording.step, svServerRecord_of_room taken (room taken)] at h
      obtain rfl := Except.ok.inj h
      obtain rfl := Option.some.inj after
      exact (demoFile_concat [] (s.msgbuff ++ startup c)).symm
  | serverstop =>
    rw [DemoRecording.step, svServerStop] at h
    split at h
    · obtain rfl := Except.ok.inj h
      exact before content after
    · obtain ⟨-, -, stopped⟩ := Outcome.exists_of_bind_eq_ok h
      obtain rfl := Except.ok.inj stopped
      cases after
  | write bytes =>
    rw [DemoRecording.step] at h
    split at h
    · cases h
    · obtain rfl := Except.ok.inj h
      exact before content after
  | multicast origin dest =>
    obtain ⟨left, sent⟩ := svMulticast_of_room kept room
    rw [DemoRecording.step, sent] at h
    obtain rfl := Except.ok.inj h
    exact before content after
  | frame f =>
    simp only [noted]
    cases recording : s.demofile with
    | false =>
      rw [DemoRecording.step, svRecordDemoMessage, recording] at h
      obtain rfl := Except.ok.inj h
      exact before content after
    | true =>
      obtain ⟨old, opened⟩ := Option.isSome_iff_exists.mp (kept.pointer.mp recording)
      rw [(recorded_of_room kept room).complete f t old rfl h opened] at after
      obtain rfl := Option.some.inj after
      rw [if_pos rfl, demoFile_concat, before old opened]

/-- The file holds the messages that were noted, also after one more call. -/
theorem written_step {s : Watched × List (List UInt8)} {op : DemoRecording.Op}
    (written : Written s.1 s.2) (fits : DemoRecording.Fits serverMembers s.1 op) :
    Written (record serverMembers s op).1 (record serverMembers s op).2 := by
  obtain ⟨⟨recorder, sinceFrame⟩, messages⟩ := s
  intro t after
  cases recorder with
  | none => cases after
  | some s =>
    obtain ⟨kept, before⟩ := written s rfl
    have room := fits s rfl
    simp only [record, DemoRecording.advance] at after ⊢
    cases stepped : DemoRecording.step serverMembers s op with
    | error e =>
      rw [stepped] at after
      cases after
    | ok u =>
      rw [stepped] at after
      obtain rfl := Option.some.inj after
      exact ⟨kept_step kept room stepped, file_step kept room before stepped⟩

/-- The file holds the messages that were noted in the whole run. -/
theorem written_run {s : Watched × List (List UInt8)} {ops : List DemoRecording.Op}
    (written : Written s.1 s.2)
    (fits : AllSteps (record serverMembers) (fun s op => DemoRecording.Fits serverMembers s.1 op) s
      ops) : Written (run (record serverMembers) s ops).1 (run (record serverMembers) s ops).2 :=
  @invariant_run _ _ _ _ (fun s => Written s.1 s.2) (fun _ _ written fits => written_step written fits)
    _ _ written fits

theorem allSteps_record {s : Watched × List (List UInt8)} {ops : List DemoRecording.Op}
    (fits : AllSteps (DemoRecording.advance serverMembers) (DemoRecording.Fits serverMembers) s.1
      ops) :
    AllSteps (record serverMembers) (fun s op => DemoRecording.Fits serverMembers s.1 op) s ops := by
  induction ops generalizing s with
  | nil => exact trivial
  | cons op ops ih => exact ⟨fits.1, ih fits.2⟩

/-! The playback. -/

/-- The packets of the clients that are in use end with the message. -/
def Told (f : DemoPlayback.Frame) (message : List UInt8) (clients : List (Client × List (List UInt8))) :
    Prop :=
  List.Forall₂ (fun player sent => player.client.control.state ≠ .free →
    Sent message player sent.2) f.players clients

/-- What the frames show of the messages that are left in a file, `none` when it is closed. A frame
that is not paused sends the next one to every client, and closes the file behind the last. Paused
frames, and those behind the end, send nothing but reliable messages. No frame is stopped by what it
reads. -/
def Shown : Option (List (List UInt8)) → Option (List UInt8) → List DemoPlayback.Frame → Prop
  | _, _, [] => True
  | messages, demofile, f :: rest =>
    (∀ e, svSendClientMessages f demofile = .error e → e ≠ .drop ∧ e ≠ .overrun ∧ e ≠ .tooLong) ∧
    ∀ played, svSendClientMessages f demofile = .ok played →
      match if f.paused then none else messages with
      | none => Told f [] played.clients ∧ Shown messages played.demofile rest
      | some [] => played = ⟨none, []⟩ ∧ Shown none none rest
      | some (message :: messages) =>
        Told f message played.clients ∧ Shown (some messages) played.demofile rest

/-- The messages go into a packet of every client of the frames. -/
structure Playable (messages : List (List UInt8)) (frames : List DemoPlayback.Frame) : Prop where
  short : ∀ message ∈ messages, message.length ≤ maxMsglen .kingpin
  packets : ∀ f ∈ frames, ∀ p ∈ f.players, p.client.control.state ≠ .free →
    ∀ message ∈ messages, 8 + (reliablePart p.client).length + message.length ≤ 1400

theorem Playable.tail {messages : List (List UInt8)} {frames : List DemoPlayback.Frame}
    {f : DemoPlayback.Frame} (playable : Playable messages (f :: frames)) :
    Playable messages frames :=
  ⟨playable.short, fun g listed => playable.packets g (List.mem_cons_of_mem f listed)⟩

theorem Playable.next {messages : List (List UInt8)} {frames : List DemoPlayback.Frame}
    {message : List UInt8} (playable : Playable (message :: messages) frames) :
    Playable messages frames :=
  ⟨fun m listed => playable.short m (List.mem_cons_of_mem message listed),
    fun g frame p player used m listed =>
      playable.packets g frame p player used m (List.mem_cons_of_mem message listed)⟩

theorem blockLength_nil : blockLength (demoFile [] false) = -1 := by
  decide

/-- What is left of a recorded file can be read by a frame. -/
theorem room_of_playable {messages : List (List UInt8)} {frames : List DemoPlayback.Frame}
    {f : DemoPlayback.Frame} (playable : Playable messages (f :: frames)) :
    DemoPlayback.Room (demoFile messages false) f.players := by
  cases messages with
  | nil =>
    refine ⟨?_, ?_, ?_⟩
    · rw [blockLength_nil]
      decide
    · rw [blockLength_nil]
      decide
    · exact fun long => absurd long (by decide)
  | cons message messages =>
    rw [demoFile_cons]
    exact room_block (playable.short message List.mem_cons_self) fun p player used =>
      playable.packets f List.mem_cons_self p player used message List.mem_cons_self

/-- A frame that has nothing to send. -/
theorem silent_frame {f : DemoPlayback.Frame} {demofile : Option (List UInt8)}
    (silent : nextMessage f.paused demofile = .ok (some ([], demofile))) :
    (∀ e, svSendClientMessages f demofile = .error e → e ≠ .drop ∧ e ≠ .overrun ∧ e ≠ .tooLong) ∧
    ∀ played, svSendClientMessages f demofile = .ok played →
      Told f [] played.clients ∧ played.demofile = demofile := by
  obtain ⟨safe, sends⟩ := @sendMessages_room f.curtime [] f.players (.inl rfl)
  rw [svSendClientMessages_of_message silent]
  refine ⟨fun e failed => safe e (except_map_error failed), fun played plays => ?_⟩
  cases sent : sendMessages f.curtime [] f.players with
  | error e =>
    rw [sent] at plays
    cases plays
  | ok clients =>
    rw [sent] at plays
    obtain rfl := Except.ok.inj plays
    exact ⟨sends clients sent, rfl⟩

/-- When the demo is over, the frames go on. -/
theorem shown_closed (frames : List DemoPlayback.Frame) : Shown none none frames := by
  induction frames with
  | nil => exact trivial
  | cons f frames ih =>
    obtain ⟨safe, told⟩ := @silent_frame f none rfl
    refine ⟨safe, fun played plays => ?_⟩
    rw [ite_self]
    refine ⟨(told played plays).1, ?_⟩
    rw [(told played plays).2]
    exact ih

/-- A file of whole messages shows them in order. -/
theorem shown_of_playable {messages : List (List UInt8)} {frames : List DemoPlayback.Frame}
    (playable : Playable messages frames) :
    Shown (some messages) (some (demoFile messages false)) frames := by
  induction frames generalizing messages with
  | nil => exact trivial
  | cons f frames ih =>
    have faithful : Faithful f ⟨some (demoFile messages false)⟩ :=
      faithful_of_fits fun file opened _ => by
        obtain rfl := Option.some.inj opened
        exact room_of_playable playable
    refine ⟨faithful.safe, fun played plays => ?_⟩
    cases paused : f.paused with
    | true =>
      have silent : nextMessage f.paused (some (demoFile messages false)) =
          .ok (some ([], some (demoFile messages false))) := by
        rw [paused]
        rfl
      obtain ⟨told, left⟩ := (silent_frame silent).2 played plays
      rw [if_pos rfl]
      refine ⟨told, ?_⟩
      rw [left]
      exact ih playable.tail
    | false =>
      rw [if_neg Bool.false_ne_true]
      cases messages with
      | nil => exact ⟨Except.ok.inj (plays.symm.trans (faithful.ends false paused rfl)),
          shown_closed frames⟩
      | cons message messages =>
        have small : message.length < 2 ^ 31 :=
          Nat.lt_of_le_of_lt (playable.short message List.mem_cons_self) (by decide)
        obtain ⟨left, sent⟩ := faithful.plays message (demoFile messages false) played paused
          (congrArg some (demoFile_cons message messages)) small plays
        refine ⟨sent, ?_⟩
        rw [left]
        exact ih playable.tail.next

/-- A file that is being recorded plays, frame by frame, what was recorded. -/
theorem recorded_shown {msgbuff : List UInt8} {ops : List DemoRecording.Op}
    (fits : AllSteps (DemoRecording.advance serverMembers) (DemoRecording.Fits serverMembers)
      (DemoRecording.start msgbuff) ops) {s : Recorder}
    (goes : (run (record serverMembers) (DemoRecording.start msgbuff, []) ops).1.recorder = some s)
    {content : List UInt8} (opened : s.file = some content) {frames : List DemoPlayback.Frame}
    (playable : Playable (run (record serverMembers) (DemoRecording.start msgbuff, []) ops).2
      frames) :
    Shown (some (run (record serverMembers) (DemoRecording.start msgbuff, []) ops).2) (some content)
      frames := by
  have start : Written (DemoRecording.start msgbuff) [] := by
    intro s idle
    obtain rfl := Option.some.inj idle
    refine ⟨⟨iff_of_false Bool.false_ne_true Bool.false_ne_true, ?_, fun _ => rfl⟩, ?_⟩
    · rintro ⟨⟩
    · rintro content ⟨⟩
  obtain ⟨-, file⟩ := written_run start (allSteps_record fits) s goes
  rw [file content opened]
  exact shown_of_playable playable

theorem readMessage_long {message rest : List UInt8} (long : maxMsglen .kingpin < message.length)
    (small : message.length < 2 ^ 31) :
    readMessage (block message ++ rest) = .error .tooLong := by
  have natLimit : maxMsglen .kingpin = 1400 := rfl
  have read : msgReadLong (block message ++ rest) = (message.length, message ++ rest) := by
    rw [block, List.append_assoc]
    exact msgReadLong_longBytes (by omega) _
  have size : 4 ≤ (block message ++ rest).length := by
    simp only [block, longBytes, List.length_append, List.length_cons, List.length_nil]
    omega
  simp only [readMessage, if_neg (Nat.not_lt.mpr size), read, signed_of_lt small]
  rw [if_neg (by omega), if_pos (by omega)]

/-- A recorded message that is longer than the buffer of the playback stops it. -/
theorem long_message_stops {f : DemoPlayback.Frame} (goes : f.paused = false)
    {message : List UInt8} (messages : List (List UInt8))
    (long : maxMsglen .kingpin < message.length) (small : message.length < 2 ^ 31) :
    svSendClientMessages f (some (demoFile (message :: messages) false)) = .error .tooLong := by
  rw [svSendClientMessages, nextMessage, goes, demoFile_cons]
  simp only [Bool.false_eq_true, if_false, readMessage_long long small]
  rfl

/-! A demo of one frame, in which the game has sent a message, and a client that watches it. -/

private def emptyLevel : RecordCommand where
  argv := [ascii "serverrecord", ascii "demo2"]
  inGame := true
  opens := true
  spawncount := 1
  gamedir := []
  configstrings _ := 0

private def watcher : Player where
  client :=
    { control :=
        { state := .spawned
          netchan :=
            { sock := .server, lastReceived := 0, lastSent := 0, qport := 0, protocol := 32
              message := szInit 1390 } } }
  netSends := 1
  server := rfl

private def emptyRecorder (msgbuff file messages : List UInt8) : Recorder where
  msgbuff := msgbuff
  demofile := true
  file := some file
  demoMulticast := { szInit (maxMsglen .kingpin) with data := messages }

private theorem empty_startup : startup emptyLevel = serverdata emptyLevel := by
  simp only [startup, configstringMessages, emptyLevel, ne_eq, not_true_eq_false, decide_false,
    List.filter_false, List.flatMap_nil, List.append_nil]

private theorem empty_size : (serverdata emptyLevel).length = 14 := by
  have name : (stringAt emptyLevel.configstrings (place csName)).length = 0 := by
    simp [stringAt, emptyLevel]
  simp only [serverdata, List.length_cons, List.length_append, name]
  decide

private def oneFrame : List DemoRecording.Op :=
  [.write [12, 2, 0], .multicast none 0, .frame ⟨1, []⟩]

private theorem empty_room : (startup emptyLevel).length + 67 < recordBuffer := by
  rw [empty_startup, empty_size]
  decide

private theorem empty_accepted : accepted emptyLevel ⟨[], false, none, szInit 0⟩ = true := by
  decide

private def emptyRun : Watched × List (List UInt8) :=
  (⟨some (emptyRecorder [] (block (serverdata emptyLevel)) []), []⟩, [serverdata emptyLevel])

private theorem record_emptyLevel :
    record 0 (DemoRecording.start [], []) (.serverrecord emptyLevel) = emptyRun := by
  let idle : Recorder := ⟨[], false, none, szInit 0⟩
  have room : idle.msgbuff.length + (startup emptyLevel).length + 67 < recordBuffer := by
    rw [show idle.msgbuff.length = 0 from rfl, Nat.zero_add]
    exact empty_room
  have taken : DemoRecording.step 0 idle (.serverrecord emptyLevel) =
      .ok (emptyRecorder [] (block (serverdata emptyLevel)) []) := by
    rw [DemoRecording.step, svServerRecord_of_room empty_accepted room, empty_startup]
    rfl
  have goes (s t : Recorder) (said : List UInt8)
      (h : DemoRecording.step 0 s (.serverrecord emptyLevel) = .ok t)
      (accepts : accepted emptyLevel s = true) (told : s.msgbuff ++ startup emptyLevel = said) :
      record 0 (⟨some s, []⟩, []) (.serverrecord emptyLevel) = (⟨some t, []⟩, [said]) := by
    simp only [record, DemoRecording.advance, noted, h, if_pos accepts, told]
    rfl
  exact goes _ _ _ taken empty_accepted empty_startup

private def framed : Watched × List (List UInt8) :=
  (⟨some (emptyRecorder [] (block (serverdata emptyLevel) ++
    block (frameMessage 0 ⟨1, []⟩ [12, 2, 0])) []), []⟩,
    [serverdata emptyLevel, frameMessage 0 ⟨1, []⟩ [12, 2, 0]])

private theorem record_oneFrame : run (record 0) emptyRun oneFrame = framed := by
  rfl

private theorem record_all : run (record 0) (DemoRecording.start [], [])
    (.serverrecord emptyLevel :: oneFrame) = framed := by
  rw [run_cons, record_emptyLevel, record_oneFrame]

private theorem oneFrame_fits : AllSteps (DemoRecording.advance 0) (DemoRecording.Fits 0)
    (DemoRecording.start []) (.serverrecord emptyLevel :: oneFrame) := by
  refine ⟨?_, ?_⟩
  · intro s hs
    obtain rfl := Option.some.inj hs
    intro _
    rw [List.length_nil, Nat.zero_add]
    exact empty_room
  rw [← record_fst _ [], record_emptyLevel]
  refine ⟨fun _ _ => trivial, ?_, ?_, trivial⟩
  · intro s hs
    obtain rfl := Option.some.inj hs
    intro _
    decide
  · intro s hs
    obtain rfl := Option.some.inj hs
    intro _
    exact ⟨.inl rfl, by decide⟩

private theorem framed_sizes : ∀ message ∈ framed.2, message.length ≤ 26 := by
  intro message listed
  rcases List.mem_cons.mp listed with rfl | listed
  · rw [empty_size]
    decide
  · obtain rfl := List.mem_singleton.mp listed
    decide

/-- The demo is over in the fourth of them. -/
private def watched : List DemoPlayback.Frame :=
  [⟨0, false, [watcher]⟩, ⟨1, true, [watcher]⟩, ⟨2, false, [watcher]⟩, ⟨3, false, [watcher]⟩,
    ⟨4, false, [watcher]⟩]

private theorem framed_playable : Playable framed.2
    watched := by
  have silent : (reliablePart watcher.client).length = 0 := by
    decide
  refine ⟨fun message listed => (framed_sizes message listed).trans (by decide), ?_⟩
  intro f frame p player _ message listed
  have watches : p = watcher := by
    simp only [watched, List.mem_cons, List.not_mem_nil, or_false] at frame
    rcases frame with rfl | rfl | rfl | rfl | rfl
    · exact List.mem_singleton.mp player
    · exact List.mem_singleton.mp player
    · exact List.mem_singleton.mp player
    · exact List.mem_singleton.mp player
    · exact List.mem_singleton.mp player
  have size := framed_sizes message listed
  rw [watches, silent]
  omega

/-- Two messages, played with a pause between them. -/
theorem recorded_shown_frame :
    Shown (some (run (record 0) (DemoRecording.start [], [])
        (.serverrecord emptyLevel :: oneFrame)).2)
      (some (block (serverdata emptyLevel) ++ block (frameMessage 0 ⟨1, []⟩ [12, 2, 0])))
      watched := by
  refine recorded_shown oneFrame_fits (by rw [record_all]; rfl) rfl ?_
  rw [record_all]
  exact framed_playable

end DemoRoundTrip
