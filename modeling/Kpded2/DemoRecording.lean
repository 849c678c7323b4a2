import Kpded2.Configstrings
import Kpded2.DeltaChains
import Kpded2.MessageBuffer

/-!
# Recording a demo of the server

`SV_ServerRecord_f` opens a file and writes what a client is told when it connects.
`SV_Multicast` collects the messages of a frame, and `SV_RecordDemoMessage` writes them behind the
entities. Every write to an open file succeeds.
-/
namespace DemoRecording
open Bytes Configstrings DeltaChains DeltaEntity Outcome Protocol SizeBuf StepRuns
open MessageBuffer (Origin messageBuffSize multicastAll multicastAllR multicastPvsR)

inductive Stop
  /-- The fatal error of `SZ_GetSpace`. -/
  | getSpace
  /-- The game has filled the message buffer. -/
  | message
  /-- `SV_WriteDeltaEntity` refuses the number of an entity. -/
  | badNumber
  /-- A stream is used after `fclose`. -/
  | closedFile
  deriving DecidableEq

def svcServerdata : UInt8 := 14
def svcConfigstring : UInt8 := 15
def svcPacketentities : UInt8 := 20
def svcFrame : UInt8 := 22

def protocolOriginal : Nat := 32
def recordBuffer : Nat := 32768

/-- `demofile` says that `svs.demofile` is not `NULL`; `file` has the bytes of the file while it is
open. -/
structure Recorder where
  msgbuff : List UInt8
  demofile : Bool
  file : Option (List UInt8)
  demoMulticast : Sizebuf

def msgWrite (bytes msgbuff : List UInt8) : Except Stop (List UInt8) :=
  if msgbuff.length + bytes.length > messageBuffSize then .error .getSpace
  else .ok (msgbuff ++ bytes)

def fwrite (data : List UInt8) : Option (List UInt8) → Except Stop (List UInt8)
  | none => .error .closedFile
  | some content => .ok (content ++ data)

/-- The length and the bytes of a message in a demo file. -/
def block (data : List UInt8) : List UInt8 := longBytes data.length ++ data

/-! ## `SV_ServerRecord_f` and `SV_ServerStop_f` -/

/-- `opens` says that `fopen` succeeds. -/
structure RecordCommand where
  argv : List (List UInt8)
  inGame : Bool
  opens : Bool
  spawncount : Nat
  gamedir : List UInt8
  configstrings : Table

def illegalName (name : List UInt8) : Bool :=
  decide (ascii ".." <:+: name) || name.contains slash || name.contains backslash

def serverdata (c : RecordCommand) : List UInt8 :=
  svcServerdata :: (longBytes protocolOriginal ++ longBytes c.spawncount ++ [2] ++
    (c.gamedir ++ [0]) ++ shortBytes 65535 ++ (stringAt c.configstrings (place csName) ++ [0]))

def configstringMessage (t : Table) (i : Nat) : List UInt8 :=
  svcConfigstring :: (shortBytes i ++ (stringAt t (place i) ++ [0]))

/-- `none` is the exit for want of space. -/
def addConfigstrings (t : Table) : List Nat → Sizebuf → Except Stop (Option Sizebuf)
  | [], buf => .ok (some buf)
  | i :: rest, buf =>
    if t (place i) = 0 then addConfigstrings t rest buf
    else do
      let message ← msgWrite (configstringMessage t i) []
      let buf := msgEndWriting buf message
      if buf.cursize + 67 ≥ buf.maxsize then .ok none else addConfigstrings t rest buf

def svServerRecord (c : RecordCommand) (s : Recorder) : Except Stop Recorder :=
  if c.argv.length ≠ 2 then .ok s
  else if s.demofile then .ok s
  else if !c.inGame then .ok s
  else if illegalName (c.argv.getD 1 []) then .ok s
  else if !c.opens then .ok s
  else do
    let s := { s with demofile := true, file := some [], demoMulticast := szInit (maxMsglen .kingpin) }
    let message ← msgWrite (serverdata c) s.msgbuff
    let buf := msgEndWriting (szInit recordBuffer) message
    let s := { s with msgbuff := [] }
    match ← addConfigstrings c.configstrings (List.range maxConfigstrings) buf with
    | none => .ok { s with file := none }
    | some buf => do
      let file ← fwrite (block buf.data) s.file
      .ok { s with file := some file }

def svServerStop (s : Recorder) : Except Stop Recorder :=
  if !s.demofile then .ok s
  else do
    let _ ← fwrite [] s.file
    .ok { s with demofile := false, file := none }

/-! ## `SV_Multicast` -/

def recordMulticast (s : Recorder) : Except Stop Recorder :=
  if !s.demofile then .ok s
  else do
    let demoMulticast ← szWriteOr .getSpace s.demoMulticast s.msgbuff
    .ok { s with demoMulticast }

/-- The function as far as the recording goes; the clients are left out. -/
def svMulticast (origin : Option Origin) (dest : Int) (s : Recorder) : Except Stop Recorder :=
  if dest ≠ multicastAllR ∧ dest ≠ multicastAll ∧ origin = none then .ok s
  else if s.msgbuff = [] then .ok s
  else do
    let s ← recordMulticast s
    if dest < multicastAll ∨ multicastPvsR < dest then .ok s else .ok { s with msgbuff := [] }

/-! ## `SV_RecordDemoMessage` -/

structure Edict where
  inuse : Bool
  noclient : Bool
  s : EntityState

/-- `edicts` are the entities from number 1 on. -/
structure Frame where
  framenum : Nat
  edicts : List Edict

def recordable (ent : Edict) : Bool :=
  ent.inuse && ent.s.number != 0 &&
    (ent.s.modelindex != 0 || ent.s.effects != 0 || ent.s.sound != 0 || ent.s.event != 0 ||
      ent.s.numParts != 0) &&
    !ent.noclient

def entityDelta (serverMembers : Nat) (ent : Edict) : Option (List UInt8) :=
  (svWriteDeltaEntity 100 (nullState serverMembers) (some ent.s) false true false).map
    (·.flatMap commandBytes)

def writeEntities (serverMembers : Nat) :
    List Edict → List UInt8 → Sizebuf → Except Stop (List UInt8 × Sizebuf)
  | [], msgbuff, buf => .ok (msgbuff, buf)
  | ent :: rest, msgbuff, buf =>
    if recordable ent then
      match entityDelta serverMembers ent with
      | none => .error .badNumber
      | some delta => do
        let message ← msgWrite delta msgbuff
        writeEntities serverMembers rest [] (msgEndWriting buf message)
    else writeEntities serverMembers rest msgbuff buf

def svRecordDemoMessage (serverMembers : Nat) (f : Frame) (s : Recorder) : Except Stop Recorder :=
  if !s.demofile then .ok s
  else do
    let buf ← szWriteOr .getSpace (szInit recordBuffer) [svcFrame]
    let buf ← szWriteOr .getSpace buf (longBytes f.framenum)
    let buf ← szWriteOr .getSpace buf [svcPacketentities]
    let (msgbuff, buf) ← writeEntities serverMembers f.edicts s.msgbuff buf
    let buf ← szWriteOr .getSpace buf (shortBytes 0)
    let buf ← szWriteOr .getSpace buf s.demoMulticast.data
    let file ← fwrite (block buf.data) s.file
    .ok { s with msgbuff, file := some file, demoMulticast := szClear s.demoMulticast }

/-! ## Runs -/

/-- The commands, a write of the game into the message buffer, a call of `SV_Multicast` and the end
of a frame. -/
inductive Op
  | serverrecord (c : RecordCommand)
  | serverstop
  | write (bytes : List UInt8)
  | multicast (origin : Option Origin) (dest : Int)
  | frame (f : Frame)

def step (serverMembers : Nat) (s : Recorder) : Op → Except Stop Recorder
  | .serverrecord c => svServerRecord c s
  | .serverstop => svServerStop s
  | .write bytes =>
    if s.msgbuff.length + bytes.length > messageBuffSize then .error .message
    else .ok { s with msgbuff := s.msgbuff ++ bytes }
  | .multicast origin dest => svMulticast origin dest s
  | .frame f => svRecordDemoMessage serverMembers f s

/-- The message of a call that is not ignored while a demo is recorded. -/
def heard (origin : Option Origin) (dest : Int) (s : Recorder) : List UInt8 :=
  if dest ≠ multicastAllR ∧ dest ≠ multicastAll ∧ origin = none then []
  else if s.demofile then s.msgbuff else []

/-- `sinceFrame` are the messages since the last frame, and `recorder` is `none` once a step has not
completed. -/
structure Watched where
  recorder : Option Recorder
  sinceFrame : List UInt8

def note (s : Recorder) (sinceFrame : List UInt8) : Op → List UInt8
  | .multicast origin dest => sinceFrame ++ heard origin dest s
  | .frame _ => []
  | .serverstop => []
  | _ => sinceFrame

def advance (serverMembers : Nat) (w : Watched) (op : Op) : Watched :=
  match w.recorder with
  | none => w
  | some s => ⟨(step serverMembers s op).toOption, note s w.sinceFrame op⟩

def frameHeader (f : Frame) : List UInt8 := svcFrame :: (longBytes f.framenum ++ [svcPacketentities])

def deltas (serverMembers : Nat) (edicts : List Edict) : List UInt8 :=
  (edicts.filter recordable).flatMap fun ent => (entityDelta serverMembers ent).getD []

/-- The header, the recordable entities and the messages of the frame. -/
def frameMessage (serverMembers : Nat) (f : Frame) (messages : List UInt8) : List UInt8 :=
  frameHeader f ++ deltas serverMembers f.edicts ++ shortBytes 0 ++ messages

/-- A step stops for a bad number only, the pointer tells whether the file is open, and the block of
a frame is complete. -/
structure Recorded (serverMembers : Nat) (s : Recorder) (sinceFrame : List UInt8) (op : Op) :
    Prop where
  stops : ∀ e, step serverMembers s op = .error e → e = .badNumber ∨ e = .message
  pointer : ∀ t, step serverMembers s op = .ok t → (t.demofile = true ↔ t.file.isSome = true)
  complete : ∀ f t content, op = .frame f → step serverMembers s op = .ok t →
    s.file = some content →
    t.file = some (content ++ block (frameMessage serverMembers f sinceFrame))

def Sound (serverMembers : Nat) (w : Watched) (op : Op) : Prop :=
  ∀ s, w.recorder = some s → Recorded serverMembers s w.sinceFrame op

/-! ## What a step does while there is room -/

def accepted (c : RecordCommand) (s : Recorder) : Bool :=
  c.argv.length == 2 && !s.demofile && c.inGame && !illegalName (c.argv.getD 1 []) && c.opens

def configstringMessages (t : Table) (indices : List Nat) : List UInt8 :=
  (indices.filter fun i => t (place i) ≠ 0).flatMap (configstringMessage t)

/-- What a client is told when it connects. -/
def startup (c : RecordCommand) : List UInt8 :=
  serverdata c ++ configstringMessages c.configstrings (List.range maxConfigstrings)

/-- The first message is short of its buffer by more than 67 bytes, the messages of a frame fit in
theirs, and so does the block of a frame, of which no message is left in front of an entity. -/
def Room (serverMembers : Nat) (s : Recorder) : Op → Prop
  | .serverrecord c => accepted c s = true →
      s.msgbuff.length + (startup c).length + 67 < recordBuffer
  | .serverstop => True
  | .write _ => True
  | .multicast origin dest => s.demofile = true →
      s.demoMulticast.cursize + (heard origin dest s).length ≤ maxMsglen .kingpin
  | .frame f => s.demofile = true →
      (s.msgbuff = [] ∨ ∀ ent ∈ f.edicts, recordable ent = false) ∧
      8 + (deltas serverMembers f.edicts).length + s.demoMulticast.cursize ≤ recordBuffer

def Fits (serverMembers : Nat) (w : Watched) (op : Op) : Prop :=
  ∀ s, w.recorder = some s → Room serverMembers s op

structure Kept (s : Recorder) (sinceFrame : List UInt8) : Prop where
  pointer : s.demofile = true ↔ s.file.isSome = true
  buffer : s.demofile = true → s.demoMulticast = { szInit (maxMsglen .kingpin) with data := sinceFrame }
  idle : s.demofile = false → sinceFrame = []

variable {serverMembers : Nat} {s t : Recorder} {sinceFrame : List UInt8}

theorem msgWrite_of_fits {bytes msgbuff : List UInt8}
    (h : msgbuff.length + bytes.length ≤ messageBuffSize) :
    msgWrite bytes msgbuff = .ok (msgbuff ++ bytes) := by
  rw [msgWrite, if_neg (by omega)]

theorem configstringMessages_cons (t : Table) (i : Nat) (rest : List Nat) :
    configstringMessages t (i :: rest) =
      (if t (place i) = 0 then [] else configstringMessage t i) ++ configstringMessages t rest := by
  by_cases empty : t (place i) = 0
  · simp [configstringMessages, empty]
  · simp [configstringMessages, empty]

/-- All configstrings are written if there is room for them. -/
theorem addConfigstrings_of_room {t : Table} {indices : List Nat} {buf : Sizebuf}
    (small : buf.maxsize ≤ messageBuffSize)
    (room : buf.cursize + (configstringMessages t indices).length + 67 < buf.maxsize) :
    addConfigstrings t indices buf =
      .ok (some { buf with data := buf.data ++ configstringMessages t indices }) := by
  induction indices generalizing buf with
  | nil =>
    simp only [addConfigstrings, configstringMessages, List.filter_nil, List.flatMap_nil,
      List.append_nil]
  | cons i rest ih =>
    rw [configstringMessages_cons] at room ⊢
    by_cases empty : t (place i) = 0
    · rw [if_pos empty, List.nil_append] at room ⊢
      rw [addConfigstrings, if_pos empty]
      exact ih small room
    · rw [if_neg empty, List.length_append] at room
      rw [if_neg empty, addConfigstrings, if_neg empty,
        msgWrite_of_fits (by simp only [List.length_nil]; omega)]
      have added := @msgEndWriting_of_fits buf (configstringMessage t i) (by omega)
      have rested : (msgEndWriting buf (configstringMessage t i)).cursize +
          (configstringMessages t rest).length + 67 <
            (msgEndWriting buf (configstringMessage t i)).maxsize := by
        simp only [added, Sizebuf.cursize, List.length_append] at room ⊢
        omega
      refine bind_of_ok rfl ?_
      simp only [List.nil_append]
      rw [if_neg (by omega), ih (by rw [added]; exact small) rested, added]
      simp only [List.append_assoc]

theorem svServerRecord_of_refused {c : RecordCommand} (h : accepted c s = false) :
    svServerRecord c s = .ok s := by
  simp only [svServerRecord]
  by_cases args : c.argv.length = 2
  · simp only [accepted, args, beq_self_eq_true, Bool.true_and] at h
    cases hfile : s.demofile <;> cases hgame : c.inGame <;>
      cases hname : illegalName (c.argv.getD 1 []) <;> cases hopens : c.opens <;> simp_all
  · rw [if_pos args]

/-- A recording with room for the signon begins with it. -/
theorem svServerRecord_of_room {c : RecordCommand} (h : accepted c s = true)
    (room : s.msgbuff.length + (startup c).length + 67 < recordBuffer) :
    svServerRecord c s = .ok
      { msgbuff := []
        demofile := true
        file := some (block (s.msgbuff ++ startup c))
        demoMulticast := szInit (maxMsglen .kingpin) } := by
  simp only [accepted, Bool.and_eq_true, beq_iff_eq, Bool.not_eq_true'] at h
  obtain ⟨⟨⟨⟨args, idle⟩, game⟩, legal⟩, opens⟩ := h
  simp only [startup, List.length_append] at room
  have big : recordBuffer = 32768 := rfl
  have bigger : messageBuffSize = 65536 := rfl
  simp only [svServerRecord, args, idle, game, legal, opens, ne_eq, not_true_eq_false, if_false,
    Bool.false_eq_true, Bool.not_true]
  refine bind_of_ok (msgWrite_of_fits (by omega)) ?_
  have first : msgEndWriting (szInit recordBuffer) (s.msgbuff ++ serverdata c) =
      { szInit recordBuffer with data := s.msgbuff ++ serverdata c } := by
    refine msgEndWriting_of_fits ?_
    simp only [szInit, Sizebuf.cursize, List.length_nil, List.length_append]
    omega
  rw [first]
  refine bind_of_ok (addConfigstrings_of_room (by simp only [szInit]; omega) ?_) ?_
  · simp only [szInit, Sizebuf.cursize, List.length_append]
    omega
  · simp only [startup, fwrite, List.nil_append, List.append_assoc]
    rfl

theorem deltas_cons (ent : Edict) (rest : List Edict) :
    deltas serverMembers (ent :: rest) =
      (if recordable ent then (entityDelta serverMembers ent).getD [] else []) ++
        deltas serverMembers rest := by
  by_cases shown : recordable ent = true
  · simp [deltas, shown]
  · simp [deltas, shown]

/-- The deltas of all entities are written if there is room for them. -/
theorem writeEntities_of_room {edicts : List Edict} {msgbuff : List UInt8} {buf : Sizebuf}
    (clean : msgbuff = [] ∨ ∀ ent ∈ edicts, recordable ent = false)
    (small : buf.maxsize ≤ messageBuffSize)
    (room : buf.cursize + (deltas serverMembers edicts).length ≤ buf.maxsize) :
    writeEntities serverMembers edicts msgbuff buf = .error .badNumber ∨
    writeEntities serverMembers edicts msgbuff buf =
      .ok (msgbuff, { buf with data := buf.data ++ deltas serverMembers edicts }) := by
  induction edicts generalizing buf with
  | nil =>
    right
    simp only [writeEntities, deltas, List.filter_nil, List.flatMap_nil, List.append_nil]
  | cons ent rest ih =>
    have later : msgbuff = [] ∨ ∀ other ∈ rest, recordable other = false :=
      clean.imp_right fun none other hmem => none other (List.mem_cons_of_mem ent hmem)
    simp only [writeEntities]
    rw [deltas_cons] at room ⊢
    by_cases shown : recordable ent = true
    · rcases clean with rfl | none
      · rw [if_pos shown, List.length_append] at room
        rw [if_pos shown, if_pos shown]
        cases hdelta : entityDelta serverMembers ent with
        | none => exact .inl rfl
        | some delta =>
          simp only [hdelta, Option.getD_some] at room ⊢
          have written : msgWrite delta [] = .ok delta := by
            rw [msgWrite_of_fits (by simp only [List.length_nil]; omega), List.nil_append]
          have added := @msgEndWriting_of_fits buf delta (by omega)
          have rested : (msgEndWriting buf delta).cursize +
              (deltas serverMembers rest).length ≤ (msgEndWriting buf delta).maxsize := by
            simp only [added, Sizebuf.cursize, List.length_append] at room ⊢
            omega
          rw [written]
          rcases ih (.inl rfl) (by rw [added]; exact small) rested with bad | good
          · exact .inl bad
          · refine .inr (bind_of_ok rfl ?_)
            rw [good, added]
            simp only [List.append_assoc]
      · rw [none ent List.mem_cons_self] at shown
        cases shown
    · rw [if_neg shown, List.nil_append] at room
      rw [if_neg shown, if_neg shown, List.nil_append]
      exact ih later small room

/-- A frame with room is written to the file, and the buffer is cleared. -/
theorem svRecordDemoMessage_of_room {f : Frame} {content : List UInt8} (recording : s.demofile = true)
    (opened : s.file = some content)
    (buffer : s.demoMulticast = { szInit (maxMsglen .kingpin) with data := sinceFrame })
    (room : Room serverMembers s (.frame f)) :
    svRecordDemoMessage serverMembers f s = .error .badNumber ∨
    svRecordDemoMessage serverMembers f s = .ok
      { s with
        file := some (content ++ block (frameMessage serverMembers f sinceFrame))
        demoMulticast := szInit (maxMsglen .kingpin) } := by
  obtain ⟨clean, room⟩ := room recording
  have big : recordBuffer = 32768 := rfl
  have bigger : messageBuffSize = 65536 := rfl
  simp only [buffer, Sizebuf.cursize] at room
  have header : (frameHeader f).length = 6 := rfl
  have entities := @writeEntities_of_room serverMembers f.edicts s.msgbuff
    { szInit recordBuffer with data := frameHeader f } clean (by simp only [szInit]; omega)
    (by simp only [Sizebuf.cursize, szInit, header]; omega)
  simp only [svRecordDemoMessage, recording, Bool.not_true, Bool.false_eq_true, if_false]
  rcases entities with bad | good
  · left
    exact bind_of_ok rfl (bind_of_ok rfl (bind_of_ok rfl (bind_of_error bad)))
  · right
    refine bind_of_ok rfl (bind_of_ok rfl (bind_of_ok rfl (bind_of_ok good ?_)))
    refine bind_of_ok (szWriteOr_of_fits _ ?_) (bind_of_ok (szWriteOr_of_fits _ ?_) ?_)
    · simp only [Sizebuf.cursize, szInit, List.length_append, header, shortBytes, List.length_cons,
        List.length_nil]
      omega
    · simp only [Sizebuf.cursize, szInit, List.length_append, header, shortBytes, List.length_cons,
        List.length_nil, buffer]
      omega
    · rw [opened, buffer]
      rfl

/-- The two outcomes of a call: ignored, or collected while a demo is recorded. -/
theorem svMulticast_of_room {origin : Option Origin} {dest : Int} (kept : Kept s sinceFrame)
    (room : Room serverMembers s (.multicast origin dest)) :
    ∃ left, svMulticast origin dest s = .ok
      { s with
        msgbuff := left
        demoMulticast :=
          if s.demofile then
            { szInit (maxMsglen .kingpin) with data := sinceFrame ++ heard origin dest s }
          else s.demoMulticast } := by
  cases recording : s.demofile with
  | false =>
    simp only [svMulticast, recordMulticast, recording, Bool.not_false, if_true,
      Bool.false_eq_true, if_false]
    split
    · exact ⟨s.msgbuff, by rw [← recording]⟩
    split
    · exact ⟨s.msgbuff, by rw [← recording]⟩
    simp only [bind, Except.bind]
    split
    · exact ⟨s.msgbuff, by rw [← recording]⟩
    · exact ⟨[], by rw [← recording]⟩
  | true =>
    have room := room recording
    have buffer := kept.buffer recording
    simp only [heard, recording, if_true] at room ⊢
    simp only [svMulticast]
    split
    · rename_i ignored
      refine ⟨s.msgbuff, ?_⟩
      rw [List.append_nil, ← buffer, ← recording]
    rename_i known
    rw [if_neg known] at room
    split
    · rename_i empty
      refine ⟨s.msgbuff, ?_⟩
      rw [empty, List.append_nil, ← buffer, ← recording, ← empty]
    · have collected : recordMulticast s = .ok { s with
          demoMulticast :=
            { szInit (maxMsglen .kingpin) with data := sinceFrame ++ s.msgbuff } } := by
        simp only [recordMulticast, recording, Bool.not_true, Bool.false_eq_true, if_false]
        refine bind_of_ok (szWriteOr_of_fits _ ?_) ?_
        · rw [buffer] at room ⊢
          exact room
        · rw [buffer]
      simp only [collected, bind, Except.bind, recording]
      split
      · exact ⟨s.msgbuff, rfl⟩
      · exact ⟨[], rfl⟩

/-- A call with room leaves the buffer as the recording needs it. -/
theorem kept_step {op : Op} (kept : Kept s sinceFrame) (room : Room serverMembers s op)
    (h : step serverMembers s op = .ok t) : Kept t (note s sinceFrame op) := by
  cases op with
  | serverrecord c =>
    simp only [step] at h
    cases taken : accepted c s with
    | false =>
      rw [svServerRecord_of_refused taken] at h
      obtain rfl := Except.ok.inj h
      exact kept
    | true =>
      rw [svServerRecord_of_room taken (room taken)] at h
      obtain rfl := Except.ok.inj h
      have idle : s.demofile = false := by
        simp only [accepted, Bool.and_eq_true, Bool.not_eq_true'] at taken
        exact taken.1.1.1.2
      constructor
      · simp
      · intro _
        simp only [note, kept.idle idle]
        rfl
      · intro h
        cases h
  | serverstop =>
    simp only [step, svServerStop] at h
    split at h
    · rename_i idle
      obtain rfl := Except.ok.inj h
      simp only [Bool.not_eq_true'] at idle
      refine ⟨kept.pointer, ?_, fun _ => rfl⟩
      intro recording
      rw [idle] at recording
      cases recording
    · obtain ⟨-, -, h⟩ := exists_of_bind_eq_ok h
      obtain rfl := Except.ok.inj h
      constructor
      · simp
      · intro h
        cases h
      · exact fun _ => rfl
  | write bytes =>
    simp only [step] at h
    split at h
    · cases h
    · obtain rfl := Except.ok.inj h
      exact ⟨kept.pointer, kept.buffer, kept.idle⟩
  | multicast origin dest =>
    obtain ⟨left, heq⟩ := svMulticast_of_room kept room
    rw [step, heq] at h
    obtain rfl := Except.ok.inj h
    refine ⟨kept.pointer, ?_, ?_⟩
    · intro recording
      simp only at recording
      simp only [recording, if_true, note]
    · intro idle
      simp only at idle
      simp [note, heard, idle, kept.idle idle]
  | frame f =>
    simp only [step] at h
    cases recording : s.demofile with
    | false =>
      simp only [svRecordDemoMessage, recording, Bool.not_false, if_true] at h
      obtain rfl := Except.ok.inj h
      refine ⟨kept.pointer, ?_, fun _ => rfl⟩
      intro again
      rw [recording] at again
      cases again
    | true =>
      obtain ⟨content, opened⟩ := Option.isSome_iff_exists.mp (kept.pointer.mp recording)
      rcases svRecordDemoMessage_of_room recording opened (kept.buffer recording) room with
        bad | good
      · rw [bad] at h
        cases h
      · rw [good] at h
        obtain rfl := Except.ok.inj h
        constructor
        · simp [recording]
        · exact fun _ => rfl
        · intro idle
          rw [recording] at idle
          cases idle

/-- A call with room stops for no other reason than a bad number or message. -/
theorem stops_of_room {op : Op} {e : Stop} (kept : Kept s sinceFrame)
    (room : Room serverMembers s op) (h : step serverMembers s op = .error e) :
    e = .badNumber ∨ e = .message := by
  cases op with
  | serverrecord c =>
    simp only [step] at h
    cases taken : accepted c s with
    | false =>
      rw [svServerRecord_of_refused taken] at h
      cases h
    | true =>
      rw [svServerRecord_of_room taken (room taken)] at h
      cases h
  | serverstop =>
    simp only [step, svServerStop] at h
    split at h
    · cases h
    · rename_i recording
      simp only [Bool.not_eq_true', Bool.not_eq_false] at recording
      obtain ⟨content, opened⟩ := Option.isSome_iff_exists.mp (kept.pointer.mp recording)
      rw [opened] at h
      cases h
  | write bytes =>
    simp only [step] at h
    split at h
    · exact .inr (Except.error.inj h).symm
    · cases h
  | multicast origin dest =>
    obtain ⟨left, heq⟩ := svMulticast_of_room kept room
    rw [step, heq] at h
    cases h
  | frame f =>
    simp only [step] at h
    cases recording : s.demofile with
    | false =>
      simp only [svRecordDemoMessage, recording, Bool.not_false, if_true] at h
      cases h
    | true =>
      obtain ⟨content, opened⟩ := Option.isSome_iff_exists.mp (kept.pointer.mp recording)
      rcases svRecordDemoMessage_of_room recording opened (kept.buffer recording) room with
        bad | good
      · rw [bad] at h
        exact .inl (Except.error.inj h).symm
      · rw [good] at h
        cases h

theorem recorded_of_room {op : Op} (kept : Kept s sinceFrame) (room : Room serverMembers s op) :
    Recorded serverMembers s sinceFrame op where
  stops e h := stops_of_room kept room h
  pointer t h := (kept_step kept room h).pointer
  complete f t content hop h opened := by
    subst hop
    have recording : s.demofile = true := kept.pointer.mpr (by rw [opened]; rfl)
    rcases svRecordDemoMessage_of_room recording opened (kept.buffer recording) room with
      bad | good
    · rw [step, bad] at h
      cases h
    · rw [step, good] at h
      obtain rfl := Except.ok.inj h
      rfl

/-! ## The clients -/

/-- The buffers that the two models of `SV_Multicast` share. -/
structure Same (server : MessageBuffer.Server) (s : Recorder) : Prop where
  msgbuff : server.msgbuff = s.msgbuff
  demo : server.demo = if s.demofile then some s.demoMulticast else none

theorem sendTo_demo {env : MessageBuffer.Env} {origin : Option Origin} {dest : Int} {reliable : Bool}
    {server sent : MessageBuffer.Server} {slot : Nat}
    (h : MessageBuffer.sendTo env origin dest reliable server slot = .ok sent) :
    sent.demo = server.demo := by
  simp only [MessageBuffer.sendTo, MessageBuffer.addMessageSingle] at h
  split at h
  · rw [← Except.ok.inj h]
  split at h
  · rw [← Except.ok.inj h]
  · obtain ⟨client, -, h⟩ := exists_of_bind_eq_ok h
    rw [← Except.ok.inj h]

theorem sendToAll_demo {env : MessageBuffer.Env} {origin : Option Origin} {dest : Int}
    {reliable : Bool} {slots : List Nat} {server sent : MessageBuffer.Server}
    (h : slots.foldlM (MessageBuffer.sendTo env origin dest reliable) server = .ok sent) :
    sent.demo = server.demo := by
  induction slots generalizing server with
  | nil => rw [← Except.ok.inj h]
  | cons slot slots ih =>
    rw [List.foldlM_cons] at h
    obtain ⟨next, hnext, h⟩ := exists_of_bind_eq_ok h
    rw [ih h, sendTo_demo hnext]

theorem recordMulticast_same {server recorded : MessageBuffer.Server} (same : Same server s)
    (h : MessageBuffer.recordMulticast server = .ok recorded) :
    ∃ u, recordMulticast s = .ok u ∧ Same recorded u := by
  simp only [MessageBuffer.recordMulticast, same.demo, same.msgbuff] at h
  simp only [recordMulticast]
  cases recording : s.demofile with
  | false =>
    simp only [recording, Bool.false_eq_true, if_false] at h
    obtain rfl := Except.ok.inj h
    exact ⟨s, rfl, same⟩
  | true =>
    simp only [recording, if_true] at h
    simp only [Bool.not_true, Bool.false_eq_true, if_false, szWriteOr]
    cases hwrite : szWrite s.demoMulticast s.msgbuff with
    | none =>
      rw [hwrite] at h
      cases h
    | some demo =>
      rw [hwrite] at h
      obtain rfl := Except.ok.inj h
      exact ⟨_, rfl, rfl, rfl⟩

/-- What the whole function leaves in the two buffers is what it leaves here. -/
theorem svMulticast_same {env : MessageBuffer.Env} {origin : Option Origin} {dest : Int}
    {server sent : MessageBuffer.Server} (same : Same server s)
    (h : MessageBuffer.svMulticast env origin dest server = .ok sent) :
    ∃ u, svMulticast origin dest s = .ok u ∧ Same sent u := by
  simp only [MessageBuffer.svMulticast, same.msgbuff] at h
  simp only [svMulticast]
  split at h
  · rename_i ignored
    obtain rfl := Except.ok.inj h
    exact ⟨s, if_pos ignored, same⟩
  rename_i known
  rw [if_neg known]
  split at h
  · rename_i empty
    obtain rfl := Except.ok.inj h
    exact ⟨s, if_pos empty, same⟩
  rename_i written
  rw [if_neg written]
  obtain ⟨recorded, hrecord, h⟩ := exists_of_bind_eq_ok h
  obtain ⟨u, hu, after⟩ := recordMulticast_same same hrecord
  split at h
  · rename_i bad
    obtain rfl := Except.ok.inj h
    exact ⟨u, bind_of_ok hu (if_pos bad), after⟩
  · rename_i good
    obtain ⟨last, hlast, h⟩ := exists_of_bind_eq_ok h
    obtain rfl := Except.ok.inj h
    exact ⟨_, bind_of_ok hu (if_neg good), rfl, (sendToAll_demo hlast).trans after.demo⟩

/-! ## What a run records -/

/-- Before the first command. -/
def start (msgbuff : List UInt8) : Watched where
  recorder := some
    { msgbuff := msgbuff
      demofile := false
      file := none
      demoMulticast := szInit 0 }
  sinceFrame := []

/-- In a run whose messages and blocks all fit, the recording stops for bad numbers of entities only,
the pointer tells whether the file is open, and every block of a frame is complete. -/
theorem recording_run (serverMembers : Nat) (msgbuff : List UInt8) (ops : List Op)
    (fits : AllSteps (advance serverMembers) (Fits serverMembers) (start msgbuff) ops) :
    AllSteps (advance serverMembers) (Sound serverMembers) (start msgbuff) ops := by
  have keeps : ∀ (w : Watched) (op : Op), (∀ s, w.recorder = some s → Kept s w.sinceFrame) →
      Fits serverMembers w op →
      (∀ t, (advance serverMembers w op).recorder = some t →
        Kept t (advance serverMembers w op).sinceFrame) ∧ Sound serverMembers w op := by
    intro w op kept fits
    constructor
    · intro t ht
      cases hs : w.recorder with
      | none =>
        simp only [advance, hs] at ht
        cases ht
      | some s =>
        simp only [advance, hs] at ht ⊢
        cases hstep : step serverMembers s op with
        | error e =>
          rw [hstep] at ht
          cases ht
        | ok u =>
          rw [hstep] at ht
          obtain rfl := Option.some.inj ht
          exact kept_step (kept s hs) (fits s hs) hstep
    · exact fun s hs => recorded_of_room (kept s hs) (fits s hs)
  refine allSteps_of_keeps keeps ?_ fits
  intro s hs
  obtain rfl := Option.some.inj hs
  refine ⟨iff_of_false (by simp) (by simp), ?_, fun _ => rfl⟩
  intro recording
  cases recording

private def bareCommand : RecordCommand where
  argv := [ascii "serverrecord", ascii "demo1"]
  inGame := true
  opens := true
  spawncount := 1
  gamedir := []
  configstrings _ := 0

private def bareRecorder : Recorder where
  msgbuff := []
  demofile := true
  file := some (block (serverdata bareCommand))
  demoMulticast := szInit (maxMsglen .kingpin)

private theorem bare_startup : startup bareCommand = serverdata bareCommand := by
  simp [startup, configstringMessages, bareCommand]

private theorem bare_name : stringAt (fun _ => 0) 0 = [] := by
  simp [stringAt]

private theorem bare_size : (serverdata bareCommand).length + 67 < recordBuffer := by
  have name : (stringAt bareCommand.configstrings (place csName)).length = 0 :=
    congrArg List.length bare_name
  simp only [serverdata, List.length_cons, List.length_append, name]
  decide

private theorem bare_accepted : accepted bareCommand ⟨[], false, none, szInit 0⟩ = true := by
  decide

private theorem advance_bareCommand :
    advance 0 (start []) (.serverrecord bareCommand) = ⟨some bareRecorder, []⟩ := by
  let idle : Recorder := ⟨[], false, none, szInit 0⟩
  have room : idle.msgbuff.length + (startup bareCommand).length + 67 < recordBuffer := by
    rw [bare_startup, show idle.msgbuff.length = 0 from rfl, Nat.zero_add]
    exact bare_size
  have taken : step 0 idle (.serverrecord bareCommand) = .ok bareRecorder := by
    rw [step, svServerRecord_of_room bare_accepted room, bare_startup]
    rfl
  have goes (s : Recorder) (t : Recorder) (h : step 0 s (.serverrecord bareCommand) = .ok t) :
      advance 0 ⟨some s, []⟩ (.serverrecord bareCommand) = ⟨some t, []⟩ := by
    simp only [advance, h]
    rfl
  exact goes _ _ taken

/-- A demo with one frame, in which the game has sent a message. -/
theorem recording_run_frame : AllSteps (advance 0) (Sound 0) (start [])
    [.serverrecord bareCommand, .write [12, 2, 0], .multicast none 0, .frame ⟨1, []⟩, .serverstop] :=
  recording_run 0 [] _ (by
    refine ⟨?_, ?_⟩
    · intro s hs
      obtain rfl := Option.some.inj hs
      intro _
      simp only [List.length_nil, Nat.zero_add, bare_startup]
      exact bare_size
    rw [advance_bareCommand]
    refine ⟨fun _ _ => trivial, ?_, ?_, fun _ _ => trivial, trivial⟩
    · intro s hs
      obtain rfl := Option.some.inj hs
      intro _
      decide
    · intro s hs
      obtain rfl := Option.some.inj hs
      intro _
      exact ⟨.inl rfl, by decide⟩)

/-- Messages of one frame that do not fit in their buffer. -/
theorem overflow_stops {bytes : List UInt8} (long : maxMsglen .kingpin < bytes.length)
    (short : bytes.length ≤ messageBuffSize) : ¬AllSteps (advance 0) (Sound 0) (start [])
      [.serverrecord bareCommand, .write bytes, .multicast none 0] := by
  rintro ⟨-, h⟩
  rw [advance_bareCommand] at h
  obtain ⟨-, sound, -⟩ := h
  have written : advance 0 ⟨some bareRecorder, []⟩ (.write bytes) =
      ⟨some { bareRecorder with msgbuff := bytes }, []⟩ := by
    have fits : ¬bareRecorder.msgbuff.length + bytes.length > messageBuffSize := by
      rw [show bareRecorder.msgbuff.length = 0 from rfl]
      omega
    simp only [advance, step, if_neg fits]
    rfl
  rw [written] at sound
  have full : szWrite bareRecorder.demoMulticast bytes = none := by
    rw [szWrite_eq_none_iff rfl]
    exact long.trans_le (Nat.le_add_left _ _)
  have collected : recordMulticast { bareRecorder with msgbuff := bytes } = .error .getSpace := by
    refine bind_of_error ?_
    rw [szWriteOr, full]
    rfl
  have fatal : step 0 { bareRecorder with msgbuff := bytes } (.multicast none 0) =
      .error .getSpace := by
    simp only [step, svMulticast]
    rw [if_neg (by decide), if_neg (by rintro rfl; cases long)]
    exact bind_of_error collected
  rcases (sound _ rfl).stops _ fatal with bad | bad
  · cases bad
  · cases bad

/-- One message of 1401 bytes. -/
theorem busy_frame_stops : ¬AllSteps (advance 0) (Sound 0) (start [])
    [.serverrecord bareCommand, .write (List.replicate 1401 12), .multicast none 0] :=
  overflow_stops (by rw [List.length_replicate]; decide) (by rw [List.length_replicate]; decide)

end DemoRecording
