import Kpded2.ClientDemo
import Kpded2.CvarChecks

/-!
# The messages of a signon

`SV_New_f` queues all that a client has to know of the level as reliable messages, one for each
configstring and each baseline, before any of them is sent. The list of a client has room for 2046
messages; how many are queued is not asked.
-/
namespace SignonMessages
open Bytes DeltaEntity MessageList MessageLoops MessageStorage Outcome Protocol SizeBuf
open ClientDemo (baselineDelta svcSpawnbaseline)
open Configstrings (Table csName maxConfigstrings place stringAt)
open CvarChecks (checkText va)
open DeltaChains (nullState)
open DemoRecording (svcServerdata)
open MessageBuffer (csImages maxImages messageBuffSize)
open Userinfo (decimal)

def csSounds : Nat := 288
def maxSounds : Nat := 384

/-- What `SV_New_f` finds for a client that is neither banned nor made to reconnect first. The level
is played (`inGame`), or it is a picture or a cinematic. `bans` are the messages of
`SV_UserInfoBanned`, `reconnectVar` the variable that `sv_force_reconnect` asks for, and `varnames`
those in `cvarbans`. -/
structure Signon where
  protocol : Nat
  spawncount : Nat
  attractloop : UInt8
  clientdir : List UInt8
  playernum : Nat
  inGame : Bool
  bans : List (List UInt8)
  bans_type : ∀ m ∈ bans, ∃ rest, m = svcPrint :: rest ∨ m = svcStufftext :: rest
  reconnectVar : Option (List UInt8)
  lowRate : Bool
  varnames : List (List UInt8)
  newConnection : Bool
  connectStuff : List UInt8
  patched : Nat
  compress : Bool
  configstrings : Table
  dlconfigstrings : Nat → List UInt8
  lastlines : Baselines
  serverMembers : Nat

def stufftext (text : List UInt8) : List UInt8 := svcStufftext :: (text ++ [0])

/-- `cmd \177n`, with which the client acknowledges. -/
def ack : List UInt8 := stufftext (ascii "cmd " ++ [127] ++ ascii "n\n")

/-- A message that is queued when `wrote` bytes have been, and the command that follows it. -/
def emit (s : Signon) (wrote : Nat) (message : List UInt8) : List (List UInt8) × Nat :=
  if s.patched < 4 ∧ wrote + message.length ≥ 1300 then ([message, ack], 0)
  else ([message], wrote + message.length)

/-! ## `SV_AddConfigstrings` -/

def soundAt (s : Signon) (i : Nat) : List UInt8 := stringAt s.configstrings (place (csSounds + i))

/-- The client asks for the sounds of the table itself. -/
def listedSound (s : Signon) (file : List UInt8) : Bool :=
  (((List.range' 1 (maxSounds - 1)).map (soundAt s)).takeWhile (· ≠ [])).contains file

/-- `recheckdl`. -/
def nextDownload (s : Signon) (nextdl : Nat) : Option (List UInt8 × Nat) :=
  if nextdl ≥ maxImages ∨ s.dlconfigstrings nextdl = [] then none
  else
    let cs := s.dlconfigstrings nextdl
    if s.patched ≥ 9 ∧ ascii "sound/" <+: cs ∧ listedSound s (cs.drop 6) then
      nextDownload s (nextdl + 1)
    else some (cs, nextdl + 1)
termination_by maxImages - nextdl

def configstring (start : Nat) (cs : List UInt8) : List UInt8 :=
  svcConfigstring :: (shortBytes start ++ cs.take Configstrings.maxQpath ++ [0])

/-- In place of the images, which are sent later, stand the files that can be downloaded. -/
def configstringMessages (s : Signon) (start nextdl wrote : Nat) : List (List UInt8) :=
  if start < maxConfigstrings then
    if csImages ≤ start ∧ start < csImages + maxImages then
      match nextDownload s nextdl with
      | none => configstringMessages s (csImages + maxImages) nextdl wrote
      | some (cs, nextdl) =>
        let (messages, wrote) := emit s wrote (configstring start cs)
        messages ++ configstringMessages s (start + 1) nextdl wrote
    else
      let cs := stringAt s.configstrings (place start)
      if cs = [] then configstringMessages s (start + 1) nextdl wrote
      else
        let (messages, wrote) := emit s wrote (configstring start cs)
        messages ++ configstringMessages s (start + 1) nextdl wrote
  else []
termination_by maxConfigstrings - start

/-! ## `SV_BaselinesMessage` -/

/-- The numbers of the table are none that `SV_WriteDeltaEntity` refuses. -/
def spawnbaseline (s : Signon) (i : Nat) : List UInt8 :=
  svcSpawnbaseline :: (baselineDelta s.serverMembers (s.lastlines.state i)).getD []

def baselineMessages (s : Signon) : List Nat → Nat → List (List UInt8)
  | [], _ => []
  | i :: rest, wrote =>
    if (s.lastlines.state i).number = 0 then baselineMessages s rest wrote
    else
      let (messages, wrote) := emit s wrote (spawnbaseline s i)
      messages ++ baselineMessages s rest wrote

def svBaselinesMessage (s : Signon) : List (List UInt8) :=
  baselineMessages s (List.range (maxEdicts .kingpin)) 0 ++
    [stufftext (ascii "precache " ++ decimal s.spawncount ++ [newline])]

/-! ## `SV_New_f` -/

def serverdata (s : Signon) : List UInt8 :=
  svcServerdata :: (longBytes s.protocol ++ longBytes s.spawncount ++ [s.attractloop] ++
    (s.clientdir ++ [0]) ++ shortBytes (if s.inGame then s.playernum else 65535) ++
    (stringAt s.configstrings (place csName) ++ [0]))

def check (varname : List UInt8) : List UInt8 := stufftext (va (checkText varname))

def sendIf (set : Bool) (message : List UInt8) : List (List UInt8) := if set then [message] else []

/-- The texts that are sent on a new connection only. -/
def connectMessages (s : Signon) : List (List UInt8) :=
  if s.newConnection then
    sendIf (s.connectStuff ≠ []) (stufftext s.connectStuff) ++
      sendIf (4 ≤ s.patched && s.compress) (stufftext (127 :: ascii "p cmp\n"))
  else []

def rateText : List UInt8 :=
  ascii "echo \"Your 'rate' setting is being raised from the default 4000 to 25000 for a smoother game\"\nset rate 25000\n"

def parentalText : List UInt8 :=
  ascii "cmd " ++ 127 :: ascii "c " ++
    127 :: ascii "nc $nocurse $cl_parental_lock $cl_parental_override\n"

/-- All messages in their order. -/
def signon (s : Signon) : List (List UInt8) :=
  [stufftext [newline]] ++ s.bans ++ [serverdata s, stufftext [newline]] ++
    (s.reconnectVar.map check).toList ++ sendIf s.lowRate (stufftext rateText) ++
    s.varnames.map check ++ connectMessages s ++ [stufftext parentalText] ++
    (if s.inGame then configstringMessages s 0 0 0 ++ svBaselinesMessage s
    else [stufftext (ascii "cmd begin " ++ decimal s.spawncount ++ [newline])])

/-- `SV_AddMessage`. None of the messages is a layout, for which the bytes behind it count. -/
def addMessage (forceReconnect : Bool) (client : Client) (message : List UInt8) :
    Except Stop Client :=
  if written : message = [] then .ok client
  else if message.length > messageBuffSize then .error .comError
  else svAddMessageSingle forceReconnect client ⟨message, [], written⟩ true

def spawning (client : Client) : Client :=
  { client with control := { client.control with state := .spawning } }

def svNew (forceReconnect : Bool) (s : Signon) (client : Client) : Except Stop Client :=
  (signon s).foldlM (addMessage forceReconnect) (spawning client)

/-! ## The messages -/

def used (s : Signon) (i : Nat) : Bool := (s.lastlines.state i).number ≠ 0

/-- A message that the list takes as it is. -/
def Usual (message : List UInt8) : Prop := message ≠ [] ∧ Plain message

theorem usual_cons {type : UInt8} (rest : List UInt8) (layout : type ≠ svcLayout)
    (configstring : type ≠ MessageList.svcConfigstring) : Usual (type :: rest) :=
  ⟨List.cons_ne_nil _ _, plain_cons rest layout configstring⟩

theorem usual_stufftext (text : List UInt8) : Usual (stufftext text) :=
  usual_cons _ (by decide) (by decide)

theorem usual_configstring (start : Nat) (cs : List UInt8) : Usual (configstring start cs) := by
  have max : msgMaxSizeBeforeMalloc = 69 := rfl
  have path : Configstrings.maxQpath = 64 := rfl
  have length : (configstring start cs).length = (cs.take Configstrings.maxQpath).length + 4 := by
    simp only [configstring, shortBytes, List.length_cons, List.length_append, List.length_nil]
    omega
  have short := List.length_take_le Configstrings.maxQpath cs
  have last : (configstring start cs).getD ((configstring start cs).length - 1) 0 = 0 := by
    exact getD_last (MessageList.svcConfigstring :: (shortBytes start ++ cs.take Configstrings.maxQpath)) 0
  refine ⟨List.cons_ne_nil _ _, ?_, fun _ => ⟨by omega, ?_⟩⟩
  · change (15 : UInt8) ≠ 5
    decide
  · rw [last]
    decide

section Every
variable {P : List UInt8 → Prop}

theorem forall_emit (acked : P ack) (s : Signon) (wrote : Nat) {message : List UInt8} :
    (∀ m ∈ (emit s wrote message).1, P m) ↔ P message := by
  simp only [emit]
  split
  · rw [List.forall_mem_cons, List.forall_mem_singleton]
    exact and_iff_left acked
  · exact List.forall_mem_singleton

theorem forall_configstringMessages (acked : P ack)
    (strings : ∀ start cs, P (configstring start cs)) (s : Signon) (start nextdl wrote : Nat) :
    ∀ m ∈ configstringMessages s start nextdl wrote, P m := by
  fun_induction configstringMessages s start nextdl wrote with
  | case1 start nextdl wrote more images none ih => exact ih
  | case2 start nextdl wrote more images cs next some messages written emitted ih =>
    refine List.forall_mem_append.mpr ⟨?_, ih⟩
    have emits := (forall_emit acked s wrote).mpr (strings start cs)
    rwa [emitted] at emits
  | case3 start nextdl wrote more images cs empty ih => exact ih
  | case4 start nextdl wrote more images cs some messages written emitted ih =>
    refine List.forall_mem_append.mpr ⟨?_, ih⟩
    have emits := (forall_emit acked s wrote).mpr (strings start cs)
    rwa [emitted] at emits
  | case5 => exact List.forall_mem_nil _

theorem forall_baselineMessages (acked : P ack) (s : Signon) (indices : List Nat) (wrote : Nat) :
    (∀ m ∈ baselineMessages s indices wrote, P m) ↔
      ∀ m ∈ (indices.filter (used s)).map (spawnbaseline s), P m := by
  induction indices generalizing wrote with
  | nil => exact Iff.rfl
  | cons i rest ih =>
    simp only [baselineMessages]
    by_cases unused : (s.lastlines.state i).number = 0
    · have dropped : ¬used s i = true := fun h => of_decide_eq_true h unused
      rw [if_pos unused, ih, List.filter_cons_of_neg dropped]
    · have kept : used s i = true := decide_eq_true unused
      rw [if_neg unused, List.filter_cons_of_pos kept, List.map_cons, List.forall_mem_append,
        List.forall_mem_cons, forall_emit acked, ih]

/-- The messages whose size the protocol does not bound. -/
def unbounded (s : Signon) : List (List UInt8) :=
  s.bans ++ [serverdata s] ++ connectMessages s ++
    (if s.inGame then
      ((List.range (maxEdicts .kingpin)).filter (used s)).map (spawnbaseline s) ++
        [stufftext (ascii "precache " ++ decimal s.spawncount ++ [newline])]
    else [stufftext (ascii "cmd begin " ++ decimal s.spawncount ++ [newline])])

/-- What holds of all messages of a signon. -/
theorem forall_signon (acked : P ack) (strings : ∀ start cs, P (configstring start cs))
    (checks : ∀ varname, P (check varname)) (line : P (stufftext [newline]))
    (rate : P (stufftext rateText)) (parental : P (stufftext parentalText)) (s : Signon) :
    (∀ m ∈ signon s, P m) ↔ ∀ m ∈ unbounded s, P m := by
  have raised : ∀ m ∈ sendIf s.lowRate (stufftext rateText), P m := by
    cases s.lowRate with
    | false => exact List.forall_mem_nil _
    | true => exact List.forall_mem_singleton.mpr rate
  have asked : ∀ varnames : List (List UInt8), ∀ m ∈ varnames.map check, P m := by
    intro varnames m hm
    obtain ⟨varname, -, rfl⟩ := List.mem_map.mp hm
    exact checks varname
  have reconnect : ∀ m ∈ (s.reconnectVar.map check).toList, P m := by
    rw [Option.toList_map]
    exact asked _
  have configstrings := forall_configstringMessages acked strings s 0 0 0
  simp only [signon, unbounded, svBaselinesMessage, List.forall_mem_append, List.forall_mem_cons,
    iff_true_intro (List.forall_mem_nil P), line, parental, iff_true_intro raised, iff_true_intro (asked s.varnames),
    iff_true_intro reconnect, true_and, and_true]
  refine and_congr_right fun _ => ?_
  by_cases inGame : s.inGame = true
  · rw [if_pos inGame, if_pos inGame]
    simp only [List.forall_mem_append, iff_true_intro configstrings, true_and,
      forall_baselineMessages acked]
  · rw [if_neg inGame, if_neg inGame]

end Every

/-- The messages of a signon are usual ones. -/
theorem usual_signon (s : Signon) : ∀ m ∈ signon s, Usual m := by
  have alone : ∀ text, ∀ m ∈ [stufftext text], Usual m := fun text =>
    List.forall_mem_singleton.mpr (usual_stufftext text)
  refine (forall_signon (usual_stufftext _) usual_configstring (fun _ => usual_stufftext _)
    (usual_stufftext _) (usual_stufftext _) (usual_stufftext _) s).mpr ?_
  have bans : ∀ m ∈ s.bans, Usual m := by
    intro m hm
    obtain ⟨rest, rfl | rfl⟩ := s.bans_type m hm
    · exact usual_cons rest (by decide) (by decide)
    · exact usual_cons rest (by decide) (by decide)
  have data : ∀ m ∈ [serverdata s], Usual m :=
    List.forall_mem_singleton.mpr (usual_cons _ (by decide) (by decide))
  have sent : ∀ set text, ∀ m ∈ sendIf set (stufftext text), Usual m := by
    intro set text
    cases set with
    | false => exact List.forall_mem_nil _
    | true => exact alone text
  have connecting : ∀ m ∈ connectMessages s, Usual m := by
    rw [connectMessages]
    split
    · exact List.forall_mem_append.mpr ⟨sent _ _, sent _ _⟩
    · exact List.forall_mem_nil _
  refine List.forall_mem_append.mpr
    ⟨List.forall_mem_append.mpr ⟨List.forall_mem_append.mpr ⟨bans, data⟩, connecting⟩, ?_⟩
  split
  · refine List.forall_mem_append.mpr ⟨fun m hm => ?_, alone _⟩
    obtain ⟨i, -, rfl⟩ := List.mem_map.mp hm
    exact usual_cons _ (by decide) (by decide)
  · exact alone _

/-! ## How many messages there are -/

/-- How often messages of these sizes are followed by a request to acknowledge. -/
def acks : Nat → List Nat → Nat
  | _, [] => 0
  | wrote, size :: rest =>
    if wrote + size ≥ 1300 then acks 0 rest + 1 else acks (wrote + size) rest

/-- The number of messages that messages of these sizes take. -/
def total (s : Signon) (wrote : Nat) (sizes : List Nat) : Nat :=
  sizes.length + if s.patched < 4 then acks wrote sizes else 0

theorem total_cons {s : Signon} {wrote written : Nat} {message : List UInt8}
    {messages : List (List UInt8)} (emitted : emit s wrote message = (messages, written))
    (rest : List Nat) :
    messages.length + total s written rest = total s wrote (message.length :: rest) := by
  simp only [emit] at emitted
  simp only [total, acks, List.length_cons]
  split at emitted
  · rename_i due
    cases emitted
    rw [if_pos due.1, if_pos due.1, if_pos due.2]
    simp only [List.length_cons, List.length_nil]
    omega
  · rename_i notDue
    cases emitted
    by_cases old : s.patched < 4
    · rw [if_pos old, if_pos old, if_neg fun h => notDue ⟨old, h⟩]
      simp only [List.length_singleton]
      omega
    · rw [if_neg old, if_neg old]
      simp only [List.length_singleton]
      omega

theorem length_baselineMessages (s : Signon) (indices : List Nat) (wrote : Nat) :
    (baselineMessages s indices wrote).length =
      total s wrote ((indices.filter (used s)).map fun i => (spawnbaseline s i).length) := by
  induction indices generalizing wrote with
  | nil =>
    simp only [baselineMessages, total, List.filter_nil, List.map_nil, List.length_nil, acks,
      ite_self]
  | cons i rest ih =>
    simp only [baselineMessages]
    by_cases unused : (s.lastlines.state i).number = 0
    · have dropped : ¬used s i = true := fun h => of_decide_eq_true h unused
      rw [if_pos unused, ih, List.filter_cons_of_neg dropped]
    · have kept : used s i = true := decide_eq_true unused
      rw [if_neg unused, List.filter_cons_of_pos kept, List.map_cons, List.length_append, ih]
      exact total_cons rfl _

/-- The configstrings between two places that are not empty. -/
def strings (s : Signon) (first last : Nat) : List (List UInt8) :=
  ((List.range' first (last - first)).map fun i => stringAt s.configstrings (place i)).filter
    (· ≠ [])

/-- The client asks for the file itself. -/
def skipped (s : Signon) (cs : List UInt8) : Bool :=
  s.patched ≥ 9 ∧ ascii "sound/" <+: cs ∧ listedSound s (cs.drop 6)

/-- The files that can be downloaded, up to the first place that is free. -/
def files (s : Signon) (nextdl : Nat) : List (List UInt8) :=
  (((List.range' nextdl (maxImages - nextdl)).map s.dlconfigstrings).takeWhile (· ≠ [])).filter
    fun cs => !skipped s cs

def texts (s : Signon) : List (List UInt8) :=
  strings s 0 csImages ++ files s 0 ++ strings s (csImages + maxImages) maxConfigstrings

def size (cs : List UInt8) : Nat := min cs.length Configstrings.maxQpath + 4

theorem length_configstring (start : Nat) (cs : List UInt8) :
    (configstring start cs).length = size cs := by
  simp only [configstring, shortBytes, List.length_cons, List.length_append, List.length_nil,
    List.length_take, size]
  omega

theorem strings_cons (s : Signon) {first last : Nat} (more : first < last) :
    strings s first last =
      if stringAt s.configstrings (place first) = [] then strings s (first + 1) last
      else stringAt s.configstrings (place first) :: strings s (first + 1) last := by
  obtain ⟨k, hk⟩ : ∃ k, last - first = k + 1 := ⟨last - first - 1, by omega⟩
  have rest : last - (first + 1) = k := by omega
  simp only [strings, hk, rest, List.range'_succ, List.map_cons, List.filter_cons, ne_eq,
    decide_not, Bool.not_eq_true', decide_eq_false_iff_not, ite_not]

theorem files_cons (s : Signon) {nextdl : Nat} (more : nextdl < maxImages)
    (some : s.dlconfigstrings nextdl ≠ []) :
    files s nextdl =
      if skipped s (s.dlconfigstrings nextdl) then files s (nextdl + 1)
      else s.dlconfigstrings nextdl :: files s (nextdl + 1) := by
  obtain ⟨k, hk⟩ : ∃ k, maxImages - nextdl = k + 1 := ⟨maxImages - nextdl - 1, by omega⟩
  have rest : maxImages - (nextdl + 1) = k := by omega
  simp only [files, hk, rest, List.range'_succ, List.map_cons]
  rw [List.takeWhile_cons, if_pos (decide_eq_true some), List.filter_cons]
  cases skipped s (s.dlconfigstrings nextdl) <;> rfl

theorem files_none (s : Signon) {nextdl : Nat}
    (none : nextdl ≥ maxImages ∨ s.dlconfigstrings nextdl = []) : files s nextdl = [] := by
  by_cases beyond : nextdl ≥ maxImages
  · rw [files, Nat.sub_eq_zero_of_le beyond]
    rfl
  · have empty := none.resolve_left beyond
    obtain ⟨k, hk⟩ : ∃ k, maxImages - nextdl = k + 1 := ⟨maxImages - nextdl - 1, by omega⟩
    rw [files, hk, List.range'_succ, List.map_cons, List.takeWhile_cons_of_neg]
    · rfl
    · rw [empty]
      decide

/-- What is found next is the first of the files. -/
theorem nextDownload_eq (s : Signon) (nextdl : Nat) :
    match nextDownload s nextdl with
    | none => files s nextdl = []
    | some (cs, next) => files s nextdl = cs :: files s next ∧ nextdl < next := by
  fun_induction nextDownload s nextdl with
  | case1 nextdl none => exact files_none s none
  | case2 nextdl more cs skip ih =>
    have skip : skipped s (s.dlconfigstrings nextdl) = true := decide_eq_true skip
    rw [files_cons s (Nat.lt_of_not_le fun h => more (Or.inl h)) fun h => more (Or.inr h),
      if_pos skip]
    split at ih
    · exact ih
    · exact ⟨ih.1, Nat.lt_of_succ_lt ih.2⟩
  | case3 nextdl more cs keep =>
    have keep : ¬skipped s (s.dlconfigstrings nextdl) = true := fun h => keep (of_decide_eq_true h)
    rw [files_cons s (Nat.lt_of_not_le fun h => more (Or.inl h)) fun h => more (Or.inr h),
      if_neg keep]
    exact ⟨rfl, Nat.lt_succ_self nextdl⟩

/-- What is sent from a place on. -/
def textsFrom (s : Signon) (start nextdl : Nat) : List (List UInt8) :=
  strings s start csImages ++ (if start < csImages + maxImages then files s nextdl else []) ++
    strings s (max start (csImages + maxImages)) maxConfigstrings

theorem strings_nil (s : Signon) {first last : Nat} (done : last ≤ first) :
    strings s first last = [] := by
  rw [strings, Nat.sub_eq_zero_of_le done]
  rfl

theorem textsFrom_images (s : Signon) {start nextdl : Nat}
    (images : csImages ≤ start ∧ start < csImages + maxImages) :
    textsFrom s start nextdl =
      files s nextdl ++ strings s (csImages + maxImages) maxConfigstrings := by
  rw [textsFrom, strings_nil s images.1, if_pos images.2, Nat.max_eq_right (Nat.le_of_lt images.2),
    List.nil_append]

theorem textsFrom_behind (s : Signon) {start : Nat} (nextdl : Nat)
    (behind : csImages + maxImages ≤ start) :
    textsFrom s start nextdl = strings s start maxConfigstrings := by
  rw [textsFrom, strings_nil s (Nat.le_trans (Nat.le_add_right _ _) behind),
    if_neg (Nat.not_lt_of_le behind), Nat.max_eq_left behind, List.nil_append, List.nil_append]

theorem textsFrom_cons (s : Signon) {start : Nat} (nextdl : Nat) (more : start < maxConfigstrings)
    (images : ¬(csImages ≤ start ∧ start < csImages + maxImages)) :
    textsFrom s start nextdl =
      if stringAt s.configstrings (place start) = [] then textsFrom s (start + 1) nextdl
      else stringAt s.configstrings (place start) :: textsFrom s (start + 1) nextdl := by
  have positive : 0 < maxImages := by decide
  by_cases before : start < csImages
  · have next : max (start + 1) (csImages + maxImages) = csImages + maxImages := by omega
    have here : max start (csImages + maxImages) = csImages + maxImages := by omega
    simp only [textsFrom, strings_cons s before, here, next,
      if_pos (show start < csImages + maxImages by omega),
      if_pos (show start + 1 < csImages + maxImages by omega)]
    split <;> rfl
  · rw [textsFrom_behind s nextdl (by omega), textsFrom_behind s nextdl (by omega),
      strings_cons s more]

/-- A file that can be downloaded always has a place: as many have been found as places passed. -/
theorem length_configstringMessages (s : Signon) (start nextdl wrote : Nat)
    (places : start ≤ csImages + nextdl ∨ csImages + maxImages ≤ start) :
    (configstringMessages s start nextdl wrote).length =
      total s wrote ((textsFrom s start nextdl).map size) := by
  fun_induction configstringMessages s start nextdl wrote with
  | case1 start nextdl wrote more images none ih =>
    have found := nextDownload_eq s nextdl
    rw [none] at found
    rw [ih (Or.inr (Nat.le_refl _)), textsFrom_behind s nextdl (Nat.le_refl _),
      textsFrom_images s images, found, List.nil_append]
  | case2 start nextdl wrote more images cs next some messages written emitted ih =>
    have found := nextDownload_eq s nextdl
    rw [some] at found
    have rest : files s next ++ strings s (csImages + maxImages) maxConfigstrings =
        textsFrom s (start + 1) next := by
      by_cases last : start + 1 < csImages + maxImages
      · rw [textsFrom_images s ⟨by omega, last⟩]
      · have none : next ≥ maxImages := by omega
        have behind : start + 1 = csImages + maxImages := by omega
        rw [files_none s (Or.inl none), behind, textsFrom_behind s next (Nat.le_refl _),
          List.nil_append]
    rw [List.length_append, ih (by omega), textsFrom_images s images, found.1, List.cons_append,
      rest, List.map_cons, ← length_configstring start cs]
    exact total_cons emitted _
  | case3 start nextdl wrote more images cs empty ih =>
    rw [ih (by omega), textsFrom_cons s nextdl more images, if_pos empty]
  | case4 start nextdl wrote more images cs some messages written emitted ih =>
    rw [List.length_append, ih (by omega), textsFrom_cons s nextdl more images, if_neg some,
      List.map_cons, ← length_configstring start cs]
    exact total_cons emitted _
  | case5 start nextdl wrote done =>
    have images : csImages + maxImages ≤ maxConfigstrings := by decide
    rw [textsFrom_behind s nextdl (by omega), strings_nil s (by omega)]
    simp only [total, List.map_nil, List.length_nil, acks, ite_self]

/-- How many messages the tables and the settings make. -/
def count (s : Signon) : Nat :=
  s.bans.length + s.reconnectVar.toList.length + s.lowRate.toNat +
    s.varnames.length + (connectMessages s).length +
    (if s.inGame then
      total s 0 ((texts s).map size) +
        total s 0 (((List.range (maxEdicts .kingpin)).filter (used s)).map fun i =>
          (spawnbaseline s i).length)
    else 0) + 5

theorem length_signon (s : Signon) : (signon s).length = count s := by
  have rate : (sendIf s.lowRate (stufftext rateText)).length = s.lowRate.toNat := by
    cases s.lowRate <;> rfl
  have reconnect : (s.reconnectVar.map check).toList.length = s.reconnectVar.toList.length := by
    rw [Option.toList_map, List.length_map]
  have all : textsFrom s 0 0 = texts s := rfl
  have level : (if s.inGame then configstringMessages s 0 0 0 ++ svBaselinesMessage s
      else [stufftext (ascii "cmd begin " ++ decimal s.spawncount ++ [newline])]).length =
      (if s.inGame then total s 0 ((texts s).map size) +
        total s 0 (((List.range (maxEdicts .kingpin)).filter (used s)).map fun i =>
          (spawnbaseline s i).length)
      else 0) + 1 := by
    cases s.inGame with
    | false => rfl
    | true =>
      simp only [if_true, svBaselinesMessage, List.length_append, List.length_singleton,
        length_baselineMessages]
      rw [length_configstringMessages s 0 0 0 (Or.inl (Nat.zero_le _)), all, Nat.add_assoc]
  simp only [signon, List.length_append, List.length_cons, List.length_nil, List.length_map, rate,
    reconnect, level, count]
  omega

/-! ## The list of the client -/

/-- The client can be sent messages, and has not overflown; its channel is as `Netchan_Setup` left
it. -/
structure Listening (control : Control) : Prop where
  state : control.state = .spawning
  setup : control.netchan.message.buffsize = 1390
  overflowed : control.overflowed = false
  overflowDone : control.overflowDone = false

/-- The first `n` messages of a signon have been queued. -/
structure Signing (control : Control) (n : Nat) (c : Client) : Prop where
  control : c.control = control
  allocated : c.messages.allocated = true
  next : nextIndex c.messages = n + 1

/-- A client that is dropped for an overflow. -/
structure Lost (c : Client) : Prop where
  overflowed : c.control.overflowed = true
  overflowDone : c.control.overflowDone = false

/-- The message can be written, and its size is smaller than the channel. -/
def Fits (message : List UInt8) : Prop :=
  message.length ≤ messageBuffSize ∧ int16 message.length < 1390

theorem fits_of_short {message : List UInt8} (short : message.length < 1390) : Fits message := by
  have room : messageBuffSize = 65536 := rfl
  refine ⟨by omega, ?_⟩
  rw [int16_of_lt (by omega)]
  omega

variable {control : Control} {c t : Client} {n : Nat} {message : List UInt8}

theorem signing_accepts (listening : Listening control) (signing : Signing control n c)
    (forceReconnect : Bool) : refusesMessage forceReconnect c true = false := by
  simp only [refusesMessage, signing.control, signing.allocated, listening.state,
    listening.overflowed, reduceCtorEq, or_self, decide_false, Bool.false_and, Bool.not_true,
    Bool.or_self, Bool.and_false]

theorem addMessage_usual (usual : Usual message) (short : message.length ≤ messageBuffSize)
    (accepts : refusesMessage forceReconnect c true = false) :
    addMessage forceReconnect c message = queueMessage c message true := by
  have added := @svAddMessageSingle_other forceReconnect c ⟨message, [], usual.1⟩ true usual.2.1
  rw [accepts] at added
  simp only [addMessage, dif_neg usual.1, if_neg (Nat.not_lt_of_le short)]
  exact added

theorem lost_of_overflow (overflowDone : c.control.overflowDone = false)
    (run : overflow c = .ok t) : Lost t := by
  obtain ⟨m, -, run⟩ := exists_of_bind_eq_ok run
  cases run
  exact ⟨rfl, overflowDone⟩

theorem addMessage_lost (lost : Lost c) (run : addMessage forceReconnect c message = .ok t) :
    Lost t := by
  have refuses : refusesMessage forceReconnect c true = true := by
    simp only [refusesMessage, lost.overflowed, lost.overflowDone, Bool.not_false, Bool.and_true,
      Bool.or_true, Bool.true_or]
  simp only [addMessage, svAddMessageSingle, refuses, if_true] at run
  split at run
  · cases run
    exact lost
  · split at run
    · cases run
    · cases run
      exact lost

/-- A message is queued, or the list overflows. -/
theorem addMessage_signing (forceReconnect : Bool) (listening : Listening control)
    (signing : Signing control n c) (usual : Usual message) :
    (n < 2046 ∧ Fits message ∧
        ∃ t, addMessage forceReconnect c message = .ok t ∧ Signing control (n + 1) t) ∨
      (¬(n < 2046 ∧ Fits message) ∧
        ∀ t, addMessage forceReconnect c message = .ok t → Lost t) := by
  have size : maxMessagesPerList = 2048 := rfl
  have overflowDone : c.control.overflowDone = false := by
    rw [signing.control]
    exact listening.overflowDone
  by_cases short : message.length ≤ messageBuffSize
  · have ended := ended_appended c message
    have run := queueMessage_plain c usual.1 usual.2 true
    generalize appended c.messages message = m at ended run
    rw [addMessage_usual usual short (signing_accepts listening signing forceReconnect), run,
      signing.next, signing.control, listening.setup]
    by_cases full : n + 1 ≥ maxMessagesPerList - 1
    · rw [if_pos full]
      exact Or.inr ⟨by omega, fun t run => lost_of_overflow overflowDone run⟩
    · rw [if_neg full]
      by_cases large : int16 message.length ≥ (1390 : Nat)
      · rw [if_pos large]
        exact Or.inr ⟨fun h => absurd h.2.2 (Int.not_lt.mpr large),
          fun t run => @lost_of_overflow { control, messages := m } t listening.overflowDone run⟩
      · rw [if_neg large]
        refine Or.inl ⟨by omega, ⟨short, Int.not_le.mp large⟩, _, rfl, rfl, ?_, ?_⟩
        · exact (ended.setReliable true).allocated.trans signing.allocated
        · rw [nextIndex]
          change m.list.getLastD 0 + 1 = _
          rw [ended.list, List.getLastD_concat, signing.next]
  · refine Or.inr ⟨fun h => absurd h.2.1 short, fun t run => ?_⟩
    simp only [addMessage, dif_neg usual.1, if_pos (Nat.lt_of_not_le short)] at run
    cases run

/-- A client that has overflowed stays so. -/
theorem run_lost {messages : List (List UInt8)} (lost : Lost c)
    (run : messages.foldlM (addMessage forceReconnect) c = .ok t) : Lost t := by
  induction messages generalizing c with
  | nil =>
    cases run
    exact lost
  | cons message rest ih =>
    rw [List.foldlM_cons] at run
    obtain ⟨d, first, run⟩ := exists_of_bind_eq_ok run
    exact ih (addMessage_lost lost first) run

/-- The messages are queued, and the client is not dropped. -/
def Stays (forceReconnect : Bool) (c : Client) (messages : List (List UInt8)) : Prop :=
  ∃ t, messages.foldlM (addMessage forceReconnect) c = .ok t ∧ t.control.overflowed = false

/-- The client stays exactly if there is a node for every message and each one fits. -/
theorem stays_signing_iff (forceReconnect : Bool) {messages : List (List UInt8)}
    (listening : Listening control) (signing : Signing control n c)
    (usual : ∀ m ∈ messages, Usual m) (room : n ≤ 2046) :
    Stays forceReconnect c messages ↔ n + messages.length ≤ 2046 ∧ ∀ m ∈ messages, Fits m := by
  induction messages generalizing n c with
  | nil =>
    refine iff_of_true ⟨c, rfl, ?_⟩ ⟨room, List.forall_mem_nil _⟩
    rw [signing.control]
    exact listening.overflowed
  | cons message rest ih =>
    obtain ⟨first, later⟩ := List.forall_mem_cons.mp usual
    rw [List.forall_mem_cons, List.length_cons]
    rcases addMessage_signing forceReconnect listening signing first with
      ⟨more, fits, t, run, next⟩ | ⟨refused, lost⟩
    · have rest_iff := ih next later more
      have same : Stays forceReconnect c (message :: rest) ↔ Stays forceReconnect t rest := by
        rw [Stays, Stays, List.foldlM_cons, run]
        exact Iff.rfl
      rw [same, rest_iff]
      constructor
      · rintro ⟨count, fit⟩
        exact ⟨by omega, fits, fit⟩
      · rintro ⟨count, -, fit⟩
        exact ⟨by omega, fit⟩
    · refine iff_of_false ?_ fun h => refused ⟨by omega, h.2.1⟩
      rintro ⟨t, run, overflowed⟩
      rw [List.foldlM_cons] at run
      obtain ⟨d, added, run⟩ := exists_of_bind_eq_ok run
      have gone := run_lost (lost d added) run
      rw [gone.overflowed] at overflowed
      cases overflowed

/-- A client that `SVC_DirectConnect` has made. -/
structure Connecting (client : Client) : Prop where
  allocated : client.messages.allocated = true
  empty : client.messages.list = []
  setup : client.control.netchan.message.buffsize = 1390
  overflowed : client.control.overflowed = false
  overflowDone : client.control.overflowDone = false

theorem listening_spawning {client : Client} (connecting : Connecting client) :
    Listening (spawning client).control :=
  ⟨rfl, connecting.setup, connecting.overflowed, connecting.overflowDone⟩

theorem signing_spawning {client : Client} (connecting : Connecting client) :
    Signing (spawning client).control 0 (spawning client) := by
  refine ⟨rfl, connecting.allocated, ?_⟩
  change client.messages.list.getLastD 0 + 1 = 1
  rw [connecting.empty]
  rfl

theorem length_stufftext (text : List UInt8) : (stufftext text).length = text.length + 2 := by
  rw [stufftext, List.length_cons, List.length_append, List.length_singleton]

theorem fits_signon (s : Signon) : (∀ m ∈ signon s, Fits m) ↔ ∀ m ∈ unbounded s, Fits m := by
  refine forall_signon (fits_of_short ?_) (fun start cs => fits_of_short ?_)
    (fun varname => fits_of_short ?_) (fits_of_short ?_) (fits_of_short ?_) (fits_of_short ?_) s
  · decide
  · have path : Configstrings.maxQpath = 64 := rfl
    rw [length_configstring, size]
    omega
  · have short : (va (checkText varname)).length ≤ 1022 := List.length_take_le 1022 _
    rw [check, length_stufftext]
    omega
  · decide
  · decide
  · decide

/-- The client comes through its signon just when all messages get one of the 2046 places. -/
theorem stays_iff (forceReconnect : Bool) (s : Signon) {client : Client}
    (connecting : Connecting client) :
    (∃ c, svNew forceReconnect s client = .ok c ∧ c.control.overflowed = false) ↔
      count s ≤ 2046 ∧ ∀ m ∈ unbounded s, Fits m := by
  have run := stays_signing_iff forceReconnect (listening_spawning connecting)
    (signing_spawning connecting) (usual_signon s) (Nat.zero_le _)
  rw [Nat.zero_add, length_signon, fits_signon] at run
  exact run

/-! ## That a signon ends -/

theorem overflow_returns (inv : ClientInv c) : ∃ t, overflow c = .ok t ∧ ClientInv t := by
  obtain ⟨m, cleared, kept, -⟩ := svClearMessageList_ok inv.messages
  refine ⟨{ c with messages := m, control := { c.control with overflowed := true } }, ?_, kept.inv,
    inv.setup⟩
  rw [overflow, cleared]
  rfl

theorem allocated_of_accepts (accepts : refusesMessage forceReconnect c true = false) :
    c.messages.allocated = true := by
  simp only [refusesMessage, Bool.or_eq_false_iff, Bool.not_eq_false'] at accepts
  exact accepts.1.2.1

theorem addMessage_returns (forceReconnect : Bool) (inv : ClientInv c) (usual : Usual message)
    (short : message.length < 2 ^ 15) :
    ∃ t, addMessage forceReconnect c message = .ok t ∧ ClientInv t := by
  have room : messageBuffSize = 65536 := rfl
  cases accepts : refusesMessage forceReconnect c true with
  | true =>
    refine ⟨c, ?_, inv⟩
    rw [addMessage, dif_neg usual.1, if_neg (by omega), svAddMessageSingle, if_pos accepts]
  | false =>
    have appends : Inv (appended c.messages message) :=
      inv_msgEndWrite inv.messages (allocated_of_accepts accepts) short
    rw [addMessage_usual usual (by omega) accepts, queueMessage_plain c usual.1 usual.2 true]
    split
    · exact overflow_returns inv
    · split
      · exact overflow_returns ⟨appends, inv.setup⟩
      · exact ⟨_, rfl, inv_setReliable appends _ true, inv.setup⟩

/-- Usual messages can all be added. -/
theorem run_returns (forceReconnect : Bool) {messages : List (List UInt8)} (inv : ClientInv c)
    (usual : ∀ m ∈ messages, Usual m) (short : ∀ m ∈ messages, m.length < 2 ^ 15) :
    ∃ t, messages.foldlM (addMessage forceReconnect) c = .ok t ∧ ClientInv t := by
  induction messages generalizing c with
  | nil => exact ⟨c, rfl, inv⟩
  | cons message rest ih =>
    obtain ⟨first, later⟩ := List.forall_mem_cons.mp usual
    obtain ⟨shortFirst, shortLater⟩ := List.forall_mem_cons.mp short
    obtain ⟨d, added, next⟩ := addMessage_returns forceReconnect inv first shortFirst
    obtain ⟨t, run, done⟩ := ih next later shortLater
    refine ⟨t, ?_, done⟩
    rw [List.foldlM_cons, added]
    exact run

theorem svNew_returns (forceReconnect : Bool) (s : Signon) {client : Client}
    (inv : ClientInv client) (short : ∀ m ∈ unbounded s, m.length < 2 ^ 15) :
    ∃ c, svNew forceReconnect s client = .ok c ∧ ClientInv c := by
  refine run_returns forceReconnect ⟨inv.messages, inv.setup⟩ (usual_signon s) ?_
  refine (forall_signon ?_ (fun start cs => ?_) (fun varname => ?_) ?_ ?_ ?_ s).mpr short
  · decide
  · have path : Configstrings.maxQpath = 64 := rfl
    rw [length_configstring, size]
    omega
  · have cut : (va (checkText varname)).length ≤ 1022 := List.length_take_le 1022 _
    rw [check, length_stufftext]
    omega
  · decide
  · decide
  · decide

/-- All 2047 entities have a model, and nothing else is sent. -/
private def crowded : Signon where
  protocol := 34
  spawncount := 1
  attractloop := 0
  clientdir := ascii "main"
  playernum := 0
  inGame := true
  bans := []
  bans_type := List.forall_mem_nil _
  reconnectVar := none
  lowRate := false
  varnames := []
  newConnection := false
  connectStuff := []
  patched := 9
  compress := false
  configstrings := fun _ => 0
  dlconfigstrings := fun _ => []
  lastlines :=
    { state := fun i => { nullState 0 with number := i % 2048, modelindex := 1 }
      inRange := fun i => Nat.mod_lt i (Nat.zero_lt_succ 2047) }
  serverMembers := 0

private theorem crowded_count : 2046 < count crowded := by
  have each : ∀ i ∈ List.range' 1 2047, used crowded i = true := by
    intro i hi
    rw [List.mem_range'_1] at hi
    refine decide_eq_true ?_
    change i % 2048 ≠ 0
    omega
  have all : ((List.range 2048).filter (used crowded)).length = 2047 := by
    have first : ¬used crowded 0 = true := fun h => of_decide_eq_true h rfl
    rw [List.range_eq_range', List.range'_succ, List.filter_cons_of_neg first,
      List.filter_eq_self.mpr each, List.length_range']
  have baselines : ((List.range (maxEdicts .kingpin)).filter (used crowded)).length = 2047 := all
  have game : crowded.inGame = true := rfl
  rw [count, if_pos game]
  simp only [total, List.length_map, baselines]
  omega

theorem length_headerBytes (bits number : Nat) : (headerBytes bits number).length ≤ 6 := by
  simp only [headerBytes, List.length_append]
  have word : ∀ (n bits : Nat), ((longBytes bits).take n).length ≤ 4 := fun n bits =>
    List.length_take_le' n _
  have size : (if 256 ≤ number then shortBytes number else [UInt8.ofNat number]).length ≤ 2 := by
    split
    · exact Nat.le_refl 2
    · exact Nat.le_succ 1
  exact Nat.add_le_add (word _ _) size

private theorem crowded_baseline (i : Nat) : (spawnbaseline crowded i).length < 2 ^ 15 := by
  have bits : deltaBits 100 true false (nullState 0) (crowded.lastlines.state i) =
      deltaBits 100 true false (nullState 0) (crowded.lastlines.state 1) := rfl
  have model : deltaBits 100 true false (nullState 0) (crowded.lastlines.state 1) =
      ⟨false, false, false, false, false, false, false, false, false, false, false, false, false,
        false, false, false, false, true, false, false, false, false, false, false, false, false⟩ := by
    decide +kernel
  have fields : ((writeFields (deltaBits 100 true false (nullState 0) (crowded.lastlines.state i))
      (nullState 0) (crowded.lastlines.state i)).bytes).length ≤ 7 := by
    rw [bits, model]
    simp only [Delta.bytes, writeFields, writeIf, bySize, Bool.false_and, Bool.false_eq_true,
      if_false, if_true, Option.toList_none, Option.toList_some, List.append_nil, List.length_append, List.flatMap_singleton]
    exact Nat.succ_le_succ (length_headerBytes _ _)
  rw [spawnbaseline, List.length_cons]
  simp only [baselineDelta, svWriteDeltaEntity]
  split
  · decide
  · split
    · decide
    · rw [if_neg fun h => h.2 trivial, Option.map_some, Option.getD_some, List.flatMap_singleton]
      exact Nat.lt_of_le_of_lt (Nat.succ_le_succ fields) (by decide)

private def newcomer : Client where
  control :=
    { state := .connected
      netchan :=
        { sock := .server, lastReceived := 0, lastSent := 0, qport := 0, protocol := 34
          message := { maxsize := 1390, buffsize := 1390 } } }
  messages := { allocated := true }

private theorem newcomer_inv : ClientInv newcomer := ⟨inv_begin true, rfl⟩

private theorem newcomer_connecting : Connecting newcomer :=
  ⟨rfl, rfl, rfl, rfl, rfl⟩

private theorem crowded_short : ∀ m ∈ unbounded crowded, m.length < 2 ^ 15 := by
  have game : crowded.inGame = true := rfl
  have data : (serverdata crowded).length = 18 := by
    have name : stringAt crowded.configstrings (place csName) = [] := rfl
    rw [serverdata, name]
    rfl
  have precache : (stufftext (ascii "precache " ++ decimal crowded.spawncount ++ [newline])).length =
      13 := by decide
  rw [unbounded, if_pos game]
  simp only [List.forall_mem_append]
  refine ⟨⟨⟨List.forall_mem_nil _, List.forall_mem_singleton.mpr ?_⟩, List.forall_mem_nil _⟩, ?_,
    List.forall_mem_singleton.mpr ?_⟩
  · rw [data]
    decide
  · intro m hm
    obtain ⟨i, -, rfl⟩ := List.mem_map.mp hm
    exact crowded_baseline i
  · rw [precache]
    decide

theorem overflows_of_full (forceReconnect : Bool) {s : Signon} {client : Client}
    (connecting : Connecting client) (full : 2046 < count s)
    (run : svNew forceReconnect s client = .ok t) : t.control.overflowed = true := by
  have fits := stays_signing_iff forceReconnect (listening_spawning connecting)
    (signing_spawning connecting) (usual_signon s) (Nat.zero_le _)
  rw [Nat.zero_add, length_signon] at fits
  by_contra kept
  exact absurd (fits.mp ⟨t, run, Bool.eq_false_iff.mpr kept⟩).1 (Nat.not_le_of_lt full)

/-- 2047 baselines are more than there are places. -/
theorem crowded_dropped : ∃ c, svNew false crowded newcomer = .ok c ∧
    c.control.overflowed = true := by
  obtain ⟨c, run, -⟩ := svNew_returns false crowded newcomer_inv crowded_short
  exact ⟨c, run, overflows_of_full false newcomer_connecting crowded_count run⟩

theorem stays_iff_crowded :
    (∃ c, svNew false crowded newcomer = .ok c ∧ c.control.overflowed = false) ↔
      count crowded ≤ 2046 ∧ ∀ m ∈ unbounded crowded, Fits m :=
  stays_iff false crowded newcomer_connecting

end SignonMessages
