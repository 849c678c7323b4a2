import Kpded2.DemoRecording

/-!
# The start of a client demo

`SV_WriteClientDemoServerData` writes what a client is told when it connects into the demo of that
client, in blocks of at most 1390 bytes. Before it adds a configstring or a baseline to a block, it
writes the block out if an estimate of the size does not fit. `MSG_EndWriting` clears the block
when the message itself does not fit.
-/
namespace ClientDemo
open Bytes DeltaChains DeltaEntity Outcome Protocol SizeBuf
open Configstrings (Table csName csStatusbar maxConfigstrings place stringAt)
open DemoRecording (Stop configstringMessage msgWrite svcServerdata)
open MessageBuffer (messageBuffSize)
open MessageList (svcStufftext)

def svcSpawnbaseline : UInt8 := 16
def blockSize : Nat := 1390

/-- `number` is the place of the client in `svs.clients`, and `serverMembers` the number of members
of a model part that are not sent. -/
structure Recording where
  protocol : Nat
  spawncount : Nat
  clientdir : List UInt8
  number : Nat
  configstrings : Table
  lastlines : Baselines
  serverMembers : Nat

/-- The block that is being filled, and those in the file, each of which follows its length. -/
structure Writer where
  buf : Sizebuf
  demofile : List (List UInt8)

def Writer.start : Writer := ⟨szInit blockSize, []⟩

def writeOut (w : Writer) : Writer :=
  { buf := { w.buf with data := [] }, demofile := w.demofile ++ [w.buf.data] }

def makeRoom (estimate : Nat) (w : Writer) : Writer :=
  if w.buf.cursize + estimate > w.buf.maxsize then writeOut w else w

/-- A message that is begun, written and ended. -/
def addMessage (message : List UInt8) (w : Writer) : Except Stop Writer := do
  let message ← msgWrite message []
  .ok { w with buf := msgEndWriting w.buf message }

def serverdata (r : Recording) : List UInt8 :=
  svcServerdata :: (longBytes r.protocol ++ longBytes r.spawncount ++ [1] ++ (r.clientdir ++ [0]) ++
    shortBytes r.number ++ (stringAt r.configstrings (place csName) ++ [0]))

def addConfigstrings (t : Table) : List Nat → Writer → Except Stop Writer
  | [], w => .ok w
  | i :: rest, w =>
    if t (place i) = 0 then addConfigstrings t rest w
    else do
      let w ← addMessage (configstringMessage t i)
        (makeRoom ((stringAt t (place i)).length + 32) w)
      addConfigstrings t rest w

def baselineDelta (serverMembers : Nat) (ent : EntityState) : Option (List UInt8) :=
  (svWriteDeltaEntity 100 (nullState serverMembers) (some ent) true true false).map
    (·.flatMap commandBytes)

def addBaselines (r : Recording) : List Nat → Writer → Except Stop Writer
  | [], w => .ok w
  | i :: rest, w =>
    if (r.lastlines.state i).number = 0 then addBaselines r rest w
    else
      match baselineDelta r.serverMembers (r.lastlines.state i) with
      | none => .error .badNumber
      | some delta => do
        let w ← addMessage (svcSpawnbaseline :: delta) (makeRoom 64 w)
        addBaselines r rest w

def precache : List UInt8 := svcStufftext :: (ascii "precache\n" ++ [0])

/-- The blocks in the file. -/
def svWriteClientDemoServerData (r : Recording) : Except Stop (List (List UInt8)) := do
  let w ← addMessage (serverdata r) .start
  let w ← addConfigstrings r.configstrings (List.range maxConfigstrings) w
  let w ← addBaselines r (List.range (maxEdicts .kingpin)) w
  let w ← addMessage precache w
  .ok (writeOut w).demofile

/-! ## What has to be written -/

/-- A message, and the room that is asked for before it. -/
structure Item where
  estimate : Nat
  message : List UInt8

def configstringItem (t : Table) (i : Nat) : Option Item :=
  if t (place i) = 0 then none
  else some ⟨(stringAt t (place i)).length + 32, configstringMessage t i⟩

def baselineItem (r : Recording) (i : Nat) : Option Item :=
  if (r.lastlines.state i).number = 0 then none
  else some ⟨64, svcSpawnbaseline :: (baselineDelta r.serverMembers (r.lastlines.state i)).getD []⟩

def configstringItems (r : Recording) : List Item :=
  (List.range maxConfigstrings).filterMap (configstringItem r.configstrings)

def baselineItems (r : Recording) : List Item :=
  (List.range (maxEdicts .kingpin)).filterMap (baselineItem r)

def items (r : Recording) : List Item :=
  ⟨0, serverdata r⟩ :: (configstringItems r ++ (baselineItems r ++ [⟨0, precache⟩]))

/-- The file has blocks of at most 1390 bytes, which together are the messages. -/
def Complete (r : Recording) : Prop :=
  ∃ blocks, svWriteClientDemoServerData r = .ok blocks ∧ (∀ b ∈ blocks, b.length ≤ blockSize) ∧
    blocks.flatten = (items r).flatMap Item.message

/-! ## Blocks -/

/-- What a block with `fill` bytes has when the room was made. -/
def roomy (fill : Nat) (item : Item) : Nat := if fill + item.estimate > blockSize then 0 else fill

/-- Each message finds room in its block. -/
def Room : Nat → List Item → Prop
  | _, [] => True
  | fill, item :: rest =>
    roomy fill item + item.message.length ≤ blockSize ∧
      Room (roomy fill item + item.message.length) rest

/-- How many bytes the last block has then. -/
def filled (fill : Nat) (items : List Item) : Nat :=
  items.foldl (fun fill item => roomy fill item + item.message.length) fill

theorem room_append (fill : Nat) (items more : List Item) :
    Room fill (items ++ more) ↔ Room fill items ∧ Room (filled fill items) more := by
  induction items generalizing fill with
  | nil => exact (and_iff_right trivial).symm
  | cons item rest ih =>
    refine (and_congr_right fun _ => ih _).trans ?_
    exact and_assoc.symm

def put (w : Writer) (item : Item) : Writer :=
  let w := makeRoom item.estimate w
  { w with buf := msgEndWriting w.buf item.message }

/-- All bytes that are in the file or in the block. -/
def Writer.total (w : Writer) : List UInt8 := w.demofile.flatten ++ w.buf.data

structure Writer.Sized (w : Writer) : Prop where
  maxsize : w.buf.maxsize = blockSize
  buf : w.buf.cursize ≤ blockSize
  demofile : ∀ b ∈ w.demofile, b.length ≤ blockSize

variable {w : Writer} {item : Item}

theorem makeRoom_total (estimate : Nat) (w : Writer) : (makeRoom estimate w).total = w.total := by
  simp only [makeRoom]
  split
  · simp only [writeOut, Writer.total, List.flatten_append, List.flatten_cons, List.flatten_nil,
      List.append_nil]
  · rfl

theorem Writer.Sized.writeOut (sized : w.Sized) : (writeOut w).Sized := by
  constructor
  · exact sized.maxsize
  · exact Nat.zero_le _
  · intro b hb
    rcases List.mem_append.mp hb with hb | hb
    · exact sized.demofile b hb
    · rw [List.mem_singleton.mp hb]
      exact sized.buf

theorem Writer.Sized.makeRoom (sized : w.Sized) : (makeRoom item.estimate w).Sized ∧
    (makeRoom item.estimate w).buf.cursize = roomy w.buf.cursize item := by
  simp only [ClientDemo.makeRoom, roomy, sized.maxsize]
  split
  · exact ⟨sized.writeOut, rfl⟩
  · exact ⟨sized, rfl⟩

/-- A message that finds room is appended, any other empties the block. -/
theorem put_of_sized (sized : w.Sized) :
    (put w item).Sized ∧
      if roomy w.buf.cursize item + item.message.length ≤ blockSize then
        (put w item).total = w.total ++ item.message ∧
          (put w item).buf.cursize = roomy w.buf.cursize item + item.message.length
      else (put w item).total.length ≤ w.total.length := by
  obtain ⟨roomySized, cursize⟩ := @Writer.Sized.makeRoom w item sized
  have total := makeRoom_total item.estimate w
  simp only [put]
  generalize makeRoom item.estimate w = v at *
  rw [← cursize, ← total]
  by_cases fits : v.buf.cursize + item.message.length ≤ blockSize
  · have appended : msgEndWriting v.buf item.message =
        { v.buf with data := v.buf.data ++ item.message } :=
      if_neg (by rw [roomySized.maxsize]; exact Nat.not_lt_of_le fits)
    rw [if_pos fits, appended]
    refine ⟨⟨roomySized.maxsize, ?_, roomySized.demofile⟩, ?_, ?_⟩
    · exact (List.length_append ..).trans_le fits
    · exact (List.append_assoc ..).symm
    · exact List.length_append
  · have cleared : msgEndWriting v.buf item.message = { szClear v.buf with overflowed := true } :=
      if_pos (by rw [roomySized.maxsize]; exact Nat.lt_of_not_le fits)
    rw [if_neg fits, cleared]
    refine ⟨⟨roomySized.maxsize, Nat.zero_le _, roomySized.demofile⟩, ?_⟩
    simp only [Writer.total, szClear, List.length_append, List.length_nil]
    exact Nat.le_add_right _ _

theorem foldl_put_length (sized : w.Sized) (items : List Item) : (items.foldl put w).Sized ∧
    (items.foldl put w).total.length ≤
      w.total.length + (items.flatMap Item.message).length := by
  induction items generalizing w with
  | nil => exact ⟨sized, Nat.le_add_right _ _⟩
  | cons item rest ih =>
    obtain ⟨next, added⟩ := @put_of_sized w item sized
    obtain ⟨last, later⟩ := ih next
    refine ⟨last, ?_⟩
    rw [List.flatMap_cons, List.length_append]
    split at added
    · have length := congrArg List.length added.1
      rw [List.length_append] at length
      rw [List.foldl_cons]
      omega
    · rw [List.foldl_cons]
      omega

/-- Nothing is lost if and only if every message finds room. -/
theorem foldl_put_total_iff (sized : w.Sized) {items : List Item}
    (nonempty : ∀ item ∈ items, item.message ≠ []) :
    (items.foldl put w).total = w.total ++ items.flatMap Item.message ↔
      Room w.buf.cursize items := by
  induction items generalizing w with
  | nil => exact iff_of_true (List.append_nil _).symm trivial
  | cons item rest ih =>
    obtain ⟨some, nonempty⟩ := List.forall_mem_cons.mp nonempty
    obtain ⟨next, added⟩ := @put_of_sized w item sized
    rw [List.foldl_cons, List.flatMap_cons, Room]
    by_cases fits : roomy w.buf.cursize item + item.message.length ≤ blockSize
    · rw [if_pos fits] at added
      have later := ih next nonempty
      rw [added.1, added.2, List.append_assoc] at later
      exact later.trans (and_iff_right fits).symm
    · rw [if_neg fits] at added
      refine iff_of_false (fun all => ?_) fun h => fits h.1
      have bound := (foldl_put_length next rest).2
      have length := congrArg List.length all
      have positive := List.length_pos_of_ne_nil some
      simp only [List.length_append] at length
      omega

/-! ## The function -/

def addItem (w : Writer) (item : Item) : Except Stop Writer :=
  addMessage item.message (makeRoom item.estimate w)

theorem addItem_of_short (short : item.message.length ≤ messageBuffSize) :
    addItem w item = .ok (put w item) := by
  have written : msgWrite item.message [] = .ok item.message :=
    if_neg (by rw [List.length_nil, Nat.zero_add]; exact Nat.not_lt_of_le short)
  rw [addItem, addMessage, written]
  rfl

theorem addItem_ok {v : Writer} (run : addItem w item = .ok v) : v = put w item := by
  obtain ⟨message, written, run⟩ := exists_of_bind_eq_ok run
  simp only [msgWrite] at written
  split at written
  · cases written
  · cases written
    cases run
    rfl

theorem addItems_of_short {items : List Item}
    (short : ∀ item ∈ items, item.message.length ≤ messageBuffSize) :
    items.foldlM addItem w = .ok (items.foldl put w) := by
  induction items generalizing w with
  | nil => rfl
  | cons item rest ih =>
    obtain ⟨first, short⟩ := List.forall_mem_cons.mp short
    rw [List.foldlM_cons, addItem_of_short first]
    exact ih short

theorem addItems_ok {items : List Item} {v : Writer} (run : items.foldlM addItem w = .ok v) :
    v = items.foldl put w := by
  induction items generalizing w with
  | nil =>
    cases run
    rfl
  | cons item rest ih =>
    rw [List.foldlM_cons] at run
    obtain ⟨u, first, run⟩ := exists_of_bind_eq_ok run
    rw [addItem_ok first] at run
    exact ih run

theorem addConfigstrings_eq (t : Table) (indices : List Nat) :
    addConfigstrings t indices w = (indices.filterMap (configstringItem t)).foldlM addItem w := by
  induction indices generalizing w with
  | nil => rfl
  | cons i rest ih =>
    simp only [addConfigstrings, List.filterMap_cons, configstringItem]
    split
    · exact ih
    · exact congrArg (_ >>= ·) (funext fun v => ih)

variable {r : Recording}

theorem baselineDelta_some (serverMembers : Nat) {lastlines : Baselines} {i : Nat}
    (used : (lastlines.state i).number ≠ 0) :
    ∃ delta, baselineDelta serverMembers (lastlines.state i) = some delta := by
  have null : ¬(nullState serverMembers).number ≥ maxEdicts .kingpin :=
    Nat.not_le_of_lt (show 0 < maxEdicts .kingpin by decide)
  have good : ¬((lastlines.state i).number ≥ maxEdicts .kingpin ∨
      (lastlines.state i).number < 1) := by
    have := lastlines.inRange i
    omega
  simp only [baselineDelta, svWriteDeltaEntity, if_neg null, if_neg good, not_true_eq_false,
    and_false, if_false]
  exact ⟨_, rfl⟩

theorem addBaselines_eq (indices : List Nat) :
    addBaselines r indices w = (indices.filterMap (baselineItem r)).foldlM addItem w := by
  induction indices generalizing w with
  | nil => rfl
  | cons i rest ih =>
    simp only [addBaselines, List.filterMap_cons, baselineItem]
    split
    · exact ih
    · rename_i used
      obtain ⟨delta, hdelta⟩ := baselineDelta_some r.serverMembers used
      rw [hdelta]
      exact congrArg (_ >>= ·) (funext fun v => ih)

theorem start_sized : Writer.start.Sized := ⟨rfl, Nat.zero_le _, List.forall_mem_nil _⟩

/-- A message before which no room is made. -/
theorem addItem_zero (sized : w.Sized) (message : List UInt8) :
    addItem w ⟨0, message⟩ = addMessage message w := by
  have room : makeRoom 0 w = w :=
    if_neg (by rw [sized.maxsize]; exact Nat.not_lt_of_le sized.buf)
  rw [addItem, room]

/-- The loops of the function are one loop over a list of messages. -/
theorem svWriteClientDemoServerData_eq (r : Recording) :
    svWriteClientDemoServerData r =
      ((items r).foldlM addItem .start >>= fun w => .ok (writeOut w).demofile) := by
  have front : svWriteClientDemoServerData r =
      ((⟨0, serverdata r⟩ :: (configstringItems r ++ baselineItems r)).foldlM addItem .start >>=
        fun w => addMessage precache w >>= fun w => .ok (writeOut w).demofile) := by
    simp only [svWriteClientDemoServerData, addConfigstrings_eq, addBaselines_eq, List.foldlM_cons,
      List.foldlM_append, addItem_zero start_sized, bind_assoc]
    rfl
  have whole : items r =
      (⟨0, serverdata r⟩ :: (configstringItems r ++ baselineItems r)) ++ [⟨0, precache⟩] := by
    simp only [items, List.cons_append, List.append_assoc]
  rw [front, whole, List.foldlM_append, bind_assoc]
  cases run : (⟨0, serverdata r⟩ :: (configstringItems r ++ baselineItems r)).foldlM addItem
      .start with
  | error e => rfl
  | ok w =>
    have sized : w.Sized := by
      rw [addItems_ok run]
      exact (foldl_put_length start_sized _).1
    change (addMessage precache w >>= fun w => .ok (writeOut w).demofile) =
      ((addItem w ⟨0, precache⟩ >>= fun w => .ok w) >>= fun w => .ok (writeOut w).demofile)
    rw [addItem_zero sized, bind_assoc]
    rfl

theorem items_nonempty : ∀ item ∈ items r, item.message ≠ [] := by
  have configstring : ∀ item ∈ configstringItems r, item.message ≠ [] := by
    intro item hitem
    obtain ⟨i, -, made⟩ := List.mem_filterMap.mp hitem
    simp only [configstringItem, Option.ite_none_left_eq_some, Option.some.injEq] at made
    rw [← made.2]
    exact List.cons_ne_nil _ _
  have baseline : ∀ item ∈ baselineItems r, item.message ≠ [] := by
    intro item hitem
    obtain ⟨i, -, made⟩ := List.mem_filterMap.mp hitem
    simp only [baselineItem, Option.ite_none_left_eq_some, Option.some.injEq] at made
    rw [← made.2]
    exact List.cons_ne_nil _ _
  simp only [items, List.forall_mem_cons, List.forall_mem_append]
  exact ⟨List.cons_ne_nil _ _, configstring, baseline, List.cons_ne_nil _ _, List.forall_mem_nil _⟩

theorem room_short {fill : Nat} {items : List Item} (room : Room fill items) :
    ∀ item ∈ items, item.message.length ≤ blockSize := by
  induction items generalizing fill with
  | nil => exact List.forall_mem_nil _
  | cons item rest ih =>
    refine List.forall_mem_cons.mpr ⟨?_, ih room.2⟩
    exact (Nat.le_add_left _ _).trans room.1

theorem complete_iff_room (r : Recording) : Complete r ↔ Room 0 (items r) := by
  have total : ((items r).foldl put .start).total = (items r).flatMap Item.message ↔
      Room 0 (items r) := foldl_put_total_iff start_sized items_nonempty
  have file (w : Writer) : (writeOut w).demofile.flatten = w.total := by
    simp only [writeOut, Writer.total, List.flatten_append, List.flatten_cons, List.flatten_nil,
      List.append_nil]
  rw [← total, Complete, svWriteClientDemoServerData_eq]
  constructor
  · rintro ⟨blocks, run, -, flat⟩
    obtain ⟨w, added, ended⟩ := exists_of_bind_eq_ok run
    rw [← Except.ok.inj ended, file, addItems_ok added] at flat
    exact flat
  · intro flat
    have short : ∀ item ∈ items r, item.message.length ≤ messageBuffSize := fun item hitem =>
      (room_short (total.mp flat) item hitem).trans (by decide)
    rw [addItems_of_short short]
    refine ⟨_, rfl, ?_, (file _).trans flat⟩
    exact ((foldl_put_length start_sized (items r)).1.writeOut).demofile

/-- The estimate for a configstring is 28 bytes too large, so only its own length counts. -/
theorem room_configstring (fill : Nat) (t : Table) (i : Nat) :
    roomy fill ⟨(stringAt t (place i)).length + 32, configstringMessage t i⟩ +
        (configstringMessage t i).length ≤ blockSize ↔
      (stringAt t (place i)).length ≤ 1386 := by
  have size : (configstringMessage t i).length = (stringAt t (place i)).length + 4 := by
    simp only [configstringMessage, shortBytes, List.length_cons, List.length_append,
      List.length_nil]
    omega
  have block : blockSize = 1390 := rfl
  simp only [roomy, size]
  split
  · omega
  · omega

theorem room_indices (fill : Nat) (t : Table) (indices : List Nat) :
    Room fill (indices.filterMap (configstringItem t)) ↔
      ∀ i ∈ indices, t (place i) ≠ 0 → (stringAt t (place i)).length ≤ 1386 := by
  induction indices generalizing fill with
  | nil => exact iff_of_true trivial (List.forall_mem_nil _)
  | cons i rest ih =>
    rw [List.forall_mem_cons, List.filterMap_cons, configstringItem]
    by_cases empty : t (place i) = 0
    · rw [if_pos empty, and_iff_right fun h => absurd empty h]
      exact ih fill
    · rw [if_neg empty, forall_prop_of_true empty]
      exact and_congr (room_configstring fill t i) (ih _)

theorem room_configstrings (fill : Nat) (r : Recording) :
    Room fill (configstringItems r) ↔ ∀ i < maxConfigstrings, r.configstrings (place i) ≠ 0 →
      (stringAt r.configstrings (place i)).length ≤ 1386 := by
  rw [configstringItems, room_indices]
  exact forall_congr' fun i => imp_congr_left List.mem_range

/-- The serverdata and each configstring fit into a block of their own, and each baseline and the
command into the block that is filled when they come. -/
def Fits (r : Recording) : Prop :=
  (serverdata r).length ≤ blockSize ∧
    (∀ i < maxConfigstrings, r.configstrings (place i) ≠ 0 →
      (stringAt r.configstrings (place i)).length ≤ 1386) ∧
    Room (filled (serverdata r).length (configstringItems r)) (baselineItems r ++ [⟨0, precache⟩])

/-- Nothing is lost from the start of a client demo if and only if the messages fit. -/
theorem demo_complete_iff (r : Recording) : Complete r ↔ Fits r := by
  have empty : roomy 0 ⟨0, serverdata r⟩ = 0 := if_neg (Nat.not_lt_zero _)
  rw [complete_iff_room, items, Room, empty, Nat.zero_add, room_append, room_configstrings, Fits]

/-- A status bar of 1400 characters, which `PF_Configstring` stores, in an empty table. -/
private def statusbarTable : Table := fun k => if 448 ≤ k ∧ k < 1848 then 65 else 0

private theorem nullState_number : (nullState 0).number < maxEdicts .kingpin :=
  Nat.zero_lt_succ 2047

private def longStatusbar : Recording where
  protocol := 34
  spawncount := 1
  clientdir := ascii "main"
  number := 0
  configstrings := statusbarTable
  lastlines := ⟨fun _ => nullState 0, fun _ => nullState_number⟩
  serverMembers := 0

private theorem statusbar_length : 1400 ≤ (stringAt statusbarTable (place csStatusbar)).length := by
  have split : List.range' 448 198208 = List.range' 448 1400 ++ List.range' 1848 196808 := by
    rw [List.range'_append_1]
  have inside : ∀ c ∈ (List.range' 448 1400).map statusbarTable, decide (c ≠ 0) = true := by
    intro c hc
    obtain ⟨k, hk, rfl⟩ := List.mem_map.mp hc
    rw [List.mem_range'_1] at hk
    rw [statusbarTable, if_pos (by omega)]
    rfl
  change 1400 ≤ (((List.range' 448 198208).map statusbarTable).takeWhile (· ≠ 0)).length
  rw [split, List.map_append, List.takeWhile_append_of_pos inside, List.length_append,
    List.length_map, List.length_range']
  exact Nat.le_add_right 1400 _

theorem statusbar_lost : ¬Complete longStatusbar := by
  rw [complete_iff_room, items, Room, room_append, room_configstrings]
  rintro ⟨-, configstrings, -⟩
  have short := configstrings csStatusbar (by decide) (by decide)
  have long := statusbar_length
  exact Nat.not_le_of_lt (by decide) (long.trans short)

end ClientDemo
