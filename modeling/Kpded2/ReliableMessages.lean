import Kpded2.MessageLoops

/-!
# Moving reliable messages to the channel

A message is a sequence of commands, of which only `svc_print` matters here; the bytes of the
others are taken as they are. `SV_WriteReliableMessages` continues a print with the text of the
next one. It looks at the first two bytes of both messages.
-/
namespace ReliableMessages
open MessageList MessageLoops MessageStorage NetChan Outcome OwnedHeap SizeBuf

/-! ## Commands -/

inductive Command where
  | print (level : UInt8) (text : List UInt8)
  | other (bytes : List UInt8)
  deriving DecidableEq

def Command.encode : Command → List UInt8
  | .print level text => svcPrint :: level :: (text ++ [0])
  | .other bytes => bytes

def Command.Valid : Command → Prop
  | .print _ text => 0 ∉ text
  | .other bytes => ∃ first rest, bytes = first :: rest ∧ first ≠ svcPrint

def encode (cs : List Command) : List UInt8 := cs.flatMap Command.encode

/-- Levels below `PRINT_CHAT`. -/
def joins (level : UInt8) : Bool := decide (level &&& 3 < printChat)

/-- A print, before the output of what follows it. -/
def joinPrint (level : UInt8) (text : List UInt8) : List Command → List Command
  | .print next more :: rest =>
    if level = next ∧ joins level then .print level (text ++ more) :: rest
    else .print level text :: .print next more :: rest
  | rest => .print level text :: rest

/-- The commands with the texts of adjacent prints of one level put together. -/
def output : List Command → List Command
  | [] => []
  | .print level text :: rest => joinPrint level text (output rest)
  | .other bytes :: rest => .other bytes :: output rest

def Command.level : Command → Option UInt8
  | .print level _ => some level
  | .other _ => none

def firstLevel (cs : List Command) : Option UInt8 := cs.head?.bind Command.level
def lastLevel (cs : List Command) : Option UInt8 := cs.getLast?.bind Command.level

theorem encode_append (cs ds : List Command) : encode (cs ++ ds) = encode cs ++ encode ds :=
  List.flatMap_append

theorem encode_nil : encode [] = [] := rfl

theorem encode_cons (c : Command) (cs : List Command) : encode (c :: cs) = c.encode ++ encode cs :=
  rfl

theorem output_append_congr (cs : List Command) {ds ds' : List Command} (h : output ds = output ds') :
    output (cs ++ ds) = output (cs ++ ds') := by
  induction cs with
  | nil => exact h
  | cons c cs ih =>
    cases c with
    | print level text =>
      simp only [List.cons_append, output, ih]
    | other bytes =>
      simp only [List.cons_append, output, ih]

theorem joinPrint_joinPrint {level : UInt8} (below : joins level = true) (text more : List UInt8)
    (rest : List Command) :
    joinPrint level text (joinPrint level more rest) = joinPrint level (text ++ more) rest := by
  cases rest with
  | nil => simp only [joinPrint, below, and_self, if_true]
  | cons c rest =>
    cases c with
    | other bytes => simp only [joinPrint, below, and_self, if_true]
    | print next further =>
      by_cases same : level = next
      · simp only [joinPrint, same, same ▸ below, if_true, and_self, List.append_assoc]
      · simp only [joinPrint, same, false_and, if_false, below, and_self, if_true]

/-- Text moved into the print before it. -/
theorem output_continued {level : UInt8} (below : joins level = true) (cs ds : List Command)
    (text more : List UInt8) :
    output (cs ++ .print level (text ++ more) :: ds) =
      output (cs ++ [.print level text] ++ .print level more :: ds) := by
  rw [List.append_assoc]
  refine output_append_congr cs ?_
  exact (joinPrint_joinPrint below text more (output ds)).symm

theorem eq_nil_of_output {cs : List Command} (h : output cs = []) : cs = [] := by
  cases cs with
  | nil => rfl
  | cons c cs =>
    cases c with
    | other bytes => cases h
    | print level text =>
      simp only [output] at h
      cases hrest : output cs with
      | nil =>
        rw [hrest] at h
        cases h
      | cons d ds =>
        rw [hrest] at h
        cases d with
        | other bytes => cases h
        | print next more =>
          simp only [joinPrint] at h
          split at h <;> cases h

theorem eq_nil_of_encode {cs : List Command} (valid : ∀ c ∈ cs, c.Valid) (h : encode cs = []) :
    cs = [] := by
  cases cs with
  | nil => rfl
  | cons c cs =>
    cases c with
    | print level text => cases h
    | other bytes =>
      obtain ⟨first, rest, rfl, -⟩ := valid _ List.mem_cons_self
      cases h

theorem lastLevel_append (cs : List Command) {ds : List Command} (nonempty : ds ≠ []) :
    lastLevel (cs ++ ds) = lastLevel ds := by
  rw [lastLevel, List.getLast?_append_of_ne_nil cs nonempty]
  rfl

/-- Where the last command is a print. -/
theorem exists_of_lastLevel {cs : List Command} {level : UInt8} (h : lastLevel cs = some level) :
    ∃ front text, cs = front ++ [.print level text] := by
  rcases List.eq_nil_or_concat cs with rfl | ⟨front, c, rfl⟩
  · cases h
  · rw [List.concat_eq_append] at h ⊢
    rw [lastLevel_append front (List.cons_ne_nil c [])] at h
    cases c with
    | print level' text =>
      cases h
      exact ⟨front, text, rfl⟩
    | other bytes => cases h

theorem exists_of_svcPrint {cs : List Command} (valid : ∀ c ∈ cs, c.Valid) (nonempty : cs ≠ [])
    (h : (encode cs).getD 0 0 = svcPrint) :
    ∃ level text rest, cs = .print level text :: rest ∧ (encode cs).getD 1 0 = level := by
  cases cs with
  | nil => exact absurd rfl nonempty
  | cons c cs =>
    cases c with
    | print level text => exact ⟨level, text, cs, rfl, rfl⟩
    | other bytes =>
      obtain ⟨first, rest, rfl, different⟩ := valid _ List.mem_cons_self
      exact absurd h different

/-! ## One message -/

/-- What can be read of a message: its commands, every one complete. -/
structure Reads (m : Messages) (i : Nat) (cs : List Command) : Prop where
  nonempty : cs ≠ []
  valid : ∀ c ∈ cs, c.Valid
  bytes : m.bytes i = .ok (encode cs)

/-- The message that was last written on its own, with the texts put behind it: where it begins in
the channel's message, and the level of the print it begins and of the one it ends with. -/
structure Group where
  position : Nat
  first : Option UInt8
  last : Option UInt8

/-- A message of this length that begins with a print of this level loses its header, and its text
goes on behind the group. -/
def Group.Takes (group : Group) (size length : Nat) (level : UInt8) : Prop :=
  joins level = true ∧ group.first = some level ∧ size - group.position + length < 2048

instance (group : Group) (size length : Nat) (level : UInt8) :
    Decidable (group.Takes size length level) := inferInstanceAs (Decidable (_ ∧ _))

/-- The size of the channel's message and its last group, with the commands `cs` written behind. -/
def grown (size : Nat) (group : Option Group) (cs : List Command) : Nat × Option Group :=
  let length := (encode cs).length
  match group.filter fun g => (firstLevel cs).any fun level => g.Takes size length level with
  | some g => (size + length - 3, some { g with last := lastLevel cs })
  | none => (size + length, some ⟨size, firstLevel cs, lastLevel cs⟩)

/-- If the message loses its header, the group ends with a print. -/
def MayFollow (size : Nat) (group : Option Group) (cs : List Command) : Prop :=
  ∀ g ∈ group, ∀ level ∈ firstLevel cs, g.Takes size (encode cs).length level →
    g.last = some level

/-- The bytes written behind `start`, and what is known of the last group. -/
structure Stream (start : List UInt8) (cs : List Command) (group : Option Group) (w : Written) :
    Prop where
  data : w.message.data = start ++ encode cs
  valid : ∀ c ∈ cs, c.Valid
  lastmsg : w.lastmsg = group.map Group.position
  group : ∀ g ∈ group, ∃ before own, cs = before ++ own ∧ own ≠ [] ∧
    g.position = (start ++ encode before).length ∧ firstLevel own = g.first ∧
      lastLevel own = g.last

structure Limited (buffSize : Nat) (message : Sizebuf) : Prop where
  clean : message.overflowed = false
  maxsize : message.maxsize = buffSize
  cursize_le : message.data.length ≤ buffSize

theorem getD_append_length (front back : List UInt8) (k : Nat) :
    (front ++ back).getD (front.length + k) 0 = back.getD k 0 := by
  rw [List.getD_append_right _ _ _ _ (Nat.le_add_right _ _), Nat.add_sub_cancel_left]

variable {start : List UInt8} {cs ds : List Command} {group : Option Group}
  {m : Messages} {w : Written} {i buffSize : Nat}

theorem continuesPrint_spec {length : Nat} (h : continuesPrint m i length w = true) :
    ∃ p, w.lastmsg = some p ∧ m.byteAt i 0 = svcPrint ∧ joins (m.byteAt i 1) = true ∧
      w.message.data.getD p 0 = m.byteAt i 0 ∧ w.message.data.getD (p + 1) 0 = m.byteAt i 1 ∧
        (w.message.cursize : Int) - p + length < 2048 := by
  cases hlast : w.lastmsg with
  | none =>
    simp only [continuesPrint, hlast] at h
    cases h
  | some p =>
    simp only [continuesPrint, hlast, Bool.and_eq_true, beq_iff_eq] at h
    obtain ⟨⟨⟨⟨first, below⟩, same⟩, level⟩, short⟩ := h
    exact ⟨p, rfl, first, below, same, level, of_decide_eq_true short⟩

theorem byteAt_zero (reads : Reads m i ds) : m.byteAt i 0 = (encode ds).getD 0 0 := by
  refine byteAt_of_bytes reads.bytes ?_
  cases ds with
  | nil => exact absurd rfl reads.nonempty
  | cons d ds =>
    cases d with
    | print level text => exact Nat.succ_pos _
    | other bytes =>
      obtain ⟨first, rest, rfl, -⟩ := reads.valid _ List.mem_cons_self
      exact Nat.succ_pos _

theorem byteAt_one {level : UInt8} {text : List UInt8} (reads : Reads m i (.print level text :: ds)) :
    m.byteAt i 1 = level := by
  refine byteAt_of_bytes reads.bytes ?_
  rw [encode_cons, List.length_append]
  simp only [Command.encode, List.length_cons, List.length_append]
  omega

theorem exists_of_firstLevel {level : UInt8} (h : firstLevel cs = some level) :
    ∃ text rest, cs = .print level text :: rest := by
  cases cs with
  | nil => cases h
  | cons c cs =>
    cases c with
    | print level' text =>
      cases h
      exact ⟨text, cs, rfl⟩
    | other bytes => cases h

/-- What the code reads off the bytes of both messages. -/
theorem continuesPrint_iff (stream : Stream start cs group w) (reads : Reads m i ds) :
    continuesPrint m i (encode ds).length w = true ↔ ∃ g ∈ group, ∃ level ∈ firstLevel ds,
      g.Takes w.message.data.length (encode ds).length level := by
  constructor
  · intro h
    obtain ⟨p, hlast, first, below, same, again, short⟩ := continuesPrint_spec h
    rw [stream.lastmsg] at hlast
    obtain ⟨g, hg, rfl⟩ := Option.map_eq_some_iff.mp hlast
    obtain ⟨before, own, rfl, own_ne, position, firsts, -⟩ := stream.group g hg
    have behind : g.position ≤ w.message.data.length := by
      rw [position, stream.data, encode_append, ← List.append_assoc]
      exact (@List.length_append _ _ (encode own)).symm ▸ Nat.le_add_right _ _
    have print := byteAt_zero reads
    rw [first] at print
    obtain ⟨level, more, rest, rfl, -⟩ := exists_of_svcPrint reads.valid reads.nonempty print.symm
    rw [byteAt_one reads] at below again
    rw [first] at same
    rw [stream.data, encode_append, ← List.append_assoc, position] at same again
    have head : (encode own).getD 0 0 = svcPrint := by
      have shifted := getD_append_length (start ++ encode before) (encode own) 0
      rw [← shifted]
      exact same
    obtain ⟨level', text', rest', rfl, level_eq⟩ := exists_of_svcPrint
      (fun c hc => stream.valid c (List.mem_append_right _ hc)) own_ne head
    rw [getD_append_length, level_eq] at again
    subst again
    refine ⟨g, hg, level', rfl, below, firsts.symm.trans rfl, ?_⟩
    simp only [Sizebuf.cursize] at short
    omega
  · rintro ⟨g, hg, level, hlevel, below, first, short⟩
    obtain ⟨before, own, rfl, -, position, firsts, -⟩ := stream.group g hg
    obtain ⟨text, rest, rfl⟩ := exists_of_firstLevel hlevel
    obtain ⟨text', rest', rfl⟩ := exists_of_firstLevel (firsts.trans first)
    have behind : g.position ≤ w.message.data.length := by
      rw [position, stream.data, encode_append, ← List.append_assoc]
      exact (@List.length_append _ (start ++ encode before) _).symm ▸ Nat.le_add_right _ _
    have last : w.lastmsg = some g.position := by rw [stream.lastmsg, hg, Option.map_some]
    have print : m.byteAt i 0 = svcPrint := byteAt_zero reads
    have data : w.message.data =
        (start ++ encode before) ++ encode (.print level text' :: rest') := by
      rw [stream.data, encode_append, List.append_assoc]
    have same : w.message.data.getD g.position 0 = svcPrint := by
      rw [data, position]
      exact getD_append_length (start ++ encode before) _ 0
    have again : w.message.data.getD (g.position + 1) 0 = level := by
      rw [data, position]
      exact getD_append_length (start ++ encode before) _ 1
    have near : (w.message.cursize : Int) - g.position +
        (encode (.print level text :: rest)).length < 2048 := by
      simp only [Sizebuf.cursize]
      omega
    simp only [continuesPrint, last, print, byteAt_one reads, same, again, beq_self_eq_true, near,
      decide_true, Bool.and_true]
    exact below

/-- The terminator of the print is replaced by the text that continues it. -/
theorem dropLast_encode (front : List Command) (level : UInt8) (text more : List UInt8)
    (rest : List Command) :
    (start ++ encode (front ++ [.print level text])).dropLast ++
        (encode (.print level more :: rest)).drop 2 =
      start ++ encode (front ++ .print level (text ++ more) :: rest) := by
  have print : start ++ encode (front ++ [.print level text]) =
      start ++ encode front ++ (svcPrint :: level :: text) ++ [0] := by
    simp only [encode_append, encode_cons, encode_nil, Command.encode, List.append_nil,
      List.append_assoc, List.cons_append]
  rw [print, List.dropLast_concat]
  simp only [encode_append, encode_cons, Command.encode, List.append_assoc, List.cons_append,
    List.drop_succ_cons, List.drop_zero, List.nil_append]

theorem grown_taken {g : Group} {level : UInt8} {size : Nat} (first : firstLevel cs = some level)
    (takes : g.Takes size (encode cs).length level) :
    grown size (some g) cs =
      (size + (encode cs).length - 3, some { g with last := lastLevel cs }) := by
  simp only [grown, Option.filter_some, first, Option.any_some, takes, decide_true, if_true]

theorem grown_alone {size : Nat}
    (alone : ¬∃ g ∈ group, ∃ level ∈ firstLevel cs, g.Takes size (encode cs).length level) :
    grown size group cs =
      (size + (encode cs).length, some ⟨size, firstLevel cs, lastLevel cs⟩) := by
  have none : group.filter (fun g => (firstLevel cs).any fun level =>
      g.Takes size (encode cs).length level) = none := by
    refine Option.filter_eq_none_iff.mpr fun g hg taken => alone ⟨g, hg, ?_⟩
    obtain ⟨level, hlevel, takes⟩ := (Option.any_eq_true _ _).mp taken
    exact ⟨level, hlevel, of_decide_eq_true takes⟩
  simp only [grown, none]

/-- A message that fits is written, and the output is the one of both, whatever comes behind. -/
theorem writeReliable_fits (stream : Stream start cs group w) (reads : Reads m i ds)
    (follows : MayFollow w.message.data.length group ds) (limited : Limited buffSize w.message)
    (reliable : (m.nodes i).reliable = true)
    (fits : (encode ds).length + w.message.data.length ≤ buffSize) :
    ∃ w' cs', writeReliable m w i = .ok (w', .delete) ∧
      Stream start cs' (grown w.message.data.length group ds).2 w' ∧
      w'.message.data.length = (grown w.message.data.length group ds).1 ∧
      (∀ behind, output (cs' ++ behind) = output (cs ++ (ds ++ behind))) ∧
        Limited buffSize w'.message ∧ w'.tooBig = w.tooBig := by
  have room : ¬(encode ds).length + w.message.cursize > w.message.maxsize := by
    rw [limited.maxsize]
    exact Nat.not_lt.mpr fits
  have continues := continuesPrint_iff stream reads
  by_cases taken : ∃ g ∈ group, ∃ level ∈ firstLevel ds,
      g.Takes w.message.data.length (encode ds).length level
  · replace continues := continues.mpr taken
    obtain ⟨g, rfl, level, hlevel, takes⟩ := taken
    obtain ⟨before, own, rfl, -, position, firsts, lasts⟩ := stream.group g rfl
    obtain ⟨front, text, rfl⟩ :=
      exists_of_lastLevel (lasts.trans (follows g rfl level hlevel takes))
    obtain ⟨more, rest, rfl⟩ := exists_of_firstLevel hlevel
    have below := takes.1
    have long : 3 ≤ (encode (.print level more :: rest)).length := by
      rw [encode_cons, List.length_append]
      simp only [Command.encode, List.length_cons, List.length_append]
      omega
    have filled : 0 < w.message.data.length := by
      rw [stream.data]
      simp only [encode_append, encode_cons, Command.encode, List.length_append, List.length_cons]
      omega
    have data := stream.data
    rw [← List.append_assoc] at data
    have written := @dropLast_encode start (before ++ front) level text more rest
    rw [← data] at written
    have size : (w.message.data.dropLast ++ (encode (.print level more :: rest)).drop 2).length =
        w.message.data.length + (encode (.print level more :: rest)).length - 3 := by
      rw [List.length_append, List.length_dropLast, List.length_drop]
      omega
    have smaller : w.message.data.dropLast.length + ((encode (.print level more :: rest)).drop 2).length
        ≤ buffSize := by
      rw [← List.length_append, size]
      omega
    let cs' := before ++ front ++ .print level (text ++ more) :: rest
    let message := { w.message with
      data := w.message.data.dropLast ++ (encode (.print level more :: rest)).drop 2 }
    rw [grown_taken hlevel takes]
    refine ⟨{ w with message }, cs', ?_, ⟨written, ?_, stream.lastmsg, ?_⟩, size, ?_,
      ⟨limited.clean, limited.maxsize, ?_⟩, rfl⟩
    · simp only [writeReliable, reliable, if_true, reads.bytes, bind, Except.bind, if_neg room,
        continues, if_neg (show ¬(encode (.print level more :: rest)).length < 2 by omega)]
      rw [writeOrStop_fits (by
        change w.message.data.dropLast.length + _ ≤ w.message.maxsize
        rw [limited.maxsize]
        exact smaller)]
    · intro c hc
      rcases List.mem_append.mp hc with hc | hc
      · refine stream.valid c ?_
        rw [← List.append_assoc]
        exact List.mem_append_left _ hc
      · rcases List.mem_cons.mp hc with rfl | hc
        · have left := stream.valid (.print level text) (by simp)
          have right := reads.valid (.print level more) List.mem_cons_self
          exact fun zero => (List.mem_append.mp zero).elim left right
        · exact reads.valid c (List.mem_cons_of_mem _ hc)
    · rintro _ ⟨⟩
      refine ⟨before, front ++ .print level (text ++ more) :: rest, List.append_assoc _ _ _, by simp,
        position, ?_, ?_⟩
      · simp only
        rw [← firsts]
        cases front with
        | nil => rfl
        | cons c front => rfl
      · rw [lastLevel_append _ (List.cons_ne_nil _ _)]
        cases rest with
        | nil => rfl
        | cons c rest => rfl
    · intro behind
      have moved := output_continued below (before ++ front) (rest ++ behind) text more
      simp only [cs', List.append_assoc, List.cons_append, List.nil_append] at moved ⊢
      exact moved
    · change (w.message.data.dropLast ++ _).length ≤ buffSize
      rw [List.length_append]
      exact smaller
  · replace continues : continuesPrint m i (encode ds).length w = false :=
      Bool.eq_false_iff.mpr fun true => taken (continues.mp true)
    rw [grown_alone taken]
    let message := { w.message with data := w.message.data ++ encode ds }
    refine ⟨{ w with message, lastmsg := some w.message.cursize }, cs ++ ds, ?_, ⟨?_, ?_, rfl, ?_⟩,
      List.length_append, fun behind => congrArg output (List.append_assoc cs ds behind),
      ⟨limited.clean, limited.maxsize, ?_⟩, rfl⟩
    · simp only [writeReliable, reliable, if_true, reads.bytes, bind, Except.bind, if_neg room,
        continues, Bool.false_eq_true, if_false]
      rw [writeOrStop_fits (by omega)]
    · rw [encode_append, ← List.append_assoc, ← stream.data]
    · exact fun c hc => (List.mem_append.mp hc).elim (stream.valid c) (reads.valid c)
    · rintro _ ⟨⟩
      exact ⟨cs, ds, rfl, reads.nonempty, congrArg List.length stream.data, rfl, rfl⟩
    · change (w.message.data ++ encode ds).length ≤ buffSize
      rw [List.length_append]
      omega

/-! ## The loop -/

def reliables (m : Messages) (l : List Nat) : List Nat := l.filter fun i => (m.nodes i).reliable

/-- `moved` are the messages that were written and deleted, `rest` the reliable ones that stay. -/
structure Swept (P : List Nat → Written → Prop) (bytes : Nat → List UInt8) (m : Messages)
    (buffSize : Nat) (moved rest : List Nat) (r : Written × Messages) : Prop where
  split : reliables m m.list = moved ++ rest
  list : r.2.list = m.list.filter fun i => !moved.contains i
  limited : Limited buffSize r.1.message
  stopped : ∀ i ∈ rest.head?, buffSize < (bytes i).length + r.1.message.data.length
  tooBig : r.1.tooBig = true ↔ rest ≠ [] ∧ r.1.message.data = []
  holds : ∃ w, P moved w ∧ r.1.message = w.message

/-- A message that fits is written, and what was known of those written before is known of it. -/
def Visits (P : List Nat → Written → Prop) (bytes : Nat → List UInt8) (all : List Nat)
    (buffSize : Nat) : Prop :=
  ∀ moved i rest w m, all = moved ++ i :: rest → P moved w → (m.nodes i).reliable = true →
    m.bytes i = .ok (bytes i) → Limited buffSize w.message →
    (bytes i).length + w.message.data.length ≤ buffSize →
    ∃ w', writeReliable m w i = .ok (w', .delete) ∧ P (moved ++ [i]) w' ∧
      Limited buffSize w'.message ∧ w'.tooBig = w.tooBig

theorem filter_erase {l moved : List Nat} (nodup : l.Nodup) (i : Nat) :
    (l.filter fun j => !moved.contains j).erase i = l.filter fun j => !(moved ++ [i]).contains j := by
  rw [List.Nodup.erase_eq_filter (nodup.filter _), List.filter_filter]
  refine List.filter_congr fun j _ => ?_
  simp only [List.contains_append, List.contains_cons, List.contains_nil, Bool.or_false, Bool.not_or]
  rw [bne, Bool.and_comm]

/-- The loop has met the messages before `rest`, and written the reliable ones of them. -/
structure Looping (P : List Nat → Written → Prop) (bytes : Nat → List UInt8) (m : Messages)
    (buffSize : Nat) (rest : List Nat) (w : Written) (m' : Messages) : Prop where
  nodes : m'.nodes = m.nodes
  reads : ∀ i ∈ rest, (m.nodes i).reliable = true → m'.bytes i = .ok (bytes i)
  limited : Limited buffSize w.message
  small : w.tooBig = false
  moved : ∃ moved, reliables m m.list = moved ++ reliables m rest ∧
    m'.list = (m.list.filter fun i => !moved.contains i) ∧ P moved w

/-- What the loop puts into the channel, message by message. -/
theorem sweep_writeReliable {P : List Nat → Written → Prop} {bytes : Nat → List UInt8}
    (readable : Readable m)
    (reads : ∀ i ∈ m.list, (m.nodes i).reliable = true → m.bytes i = .ok (bytes i))
    (visits : Visits P bytes (reliables m m.list) buffSize) (start : P [] w)
    (limited : Limited buffSize w.message) (small : w.tooBig = false) :
    ∃ r, sweep writeReliable m.list w m = .ok r ∧
      (∃ moved rest, Swept P bytes m buffSize moved rest r) ∧ Fewer m r.2 := by
  have first : Looping P bytes m buffSize m.list w m :=
    ⟨rfl, reads, limited, small, [], rfl, (List.filter_eq_self.mpr fun _ _ => rfl).symm, start⟩
  refine sweep_total (I := Looping P bytes m buffSize)
    (Q := fun w' m' => ∃ moved rest, Swept P bytes m buffSize moved rest (w', m')) readable
    readable.nodup (fun _ hi => hi) first ?_ ?_
  · rintro i rest w m' readable' hi ⟨nodes, own, limited, small, moved, split, list, holds⟩
    have others : ∀ j ∈ rest, (m.nodes j).reliable = true → m'.bytes j = .ok (bytes j) :=
      fun j hj => own j (List.mem_cons_of_mem i hj)
    cases reliable : (m.nodes i).reliable with
    | false =>
      have skip : reliables m (i :: rest) = reliables m rest :=
        List.filter_cons_of_neg (by rw [reliable]; exact Bool.false_ne_true)
      refine ⟨(w, .keep), ?_, nodes, others, limited, small, moved, skip ▸ split, list, holds⟩
      simp only [writeReliable, nodes, reliable, Bool.false_eq_true, if_false]
    | true =>
      have take : reliables m (i :: rest) = i :: reliables m rest := List.filter_cons_of_pos reliable
      rw [take] at split
      have read := own i List.mem_cons_self reliable
      have reliable' : (m'.nodes i).reliable = true := nodes ▸ reliable
      by_cases fits : (bytes i).length + w.message.data.length ≤ buffSize
      · obtain ⟨w', visit, holds', limited', small'⟩ :=
          visits moved i (reliables m rest) w m' split holds reliable' read limited fits
        refine ⟨(w', .delete), visit, fun m'' fewer erased still => ⟨fewer.nodes.trans nodes, ?_,
          limited', small'.trans small, moved ++ [i], ?_, ?_, holds'⟩⟩
        · exact fun j hj hreliable => (fewer.bytes j (still j hj)).trans (others j hj hreliable)
        · rw [split, List.append_assoc]
          rfl
        · rw [erased, list, filter_erase readable.nodup]
      · have full : (bytes i).length + w.message.cursize > w.message.maxsize := by
          rw [limited.maxsize]
          exact Nat.lt_of_not_le fits
        refine ⟨({ w with tooBig := decide (w.message.cursize = 0) }, .stop), ?_, moved,
          i :: reliables m rest, split, list, limited, ?_, ?_, ?_⟩
        · simp only [writeReliable, reliable', if_true, read, bind, Except.bind, if_pos full]
        · rintro _ ⟨⟩
          exact Nat.lt_of_not_le fits
        · rw [decide_eq_true_eq]
          exact ⟨fun none => ⟨List.cons_ne_nil _ _, List.eq_nil_of_length_eq_zero none⟩,
            fun none => congrArg List.length none.2⟩
        · exact ⟨w, holds, rfl⟩
  · rintro w' m' ⟨-, -, limited, small, moved, split, list, holds⟩
    refine ⟨moved, [], split.trans rfl, list, limited, ?_, ?_, w', holds, rfl⟩
    · rintro _ ⟨⟩
    · rw [small]
      simp

/-! ## `SV_WriteReliableMessages` -/

/-- Messages have been moved until one did not fit, and nothing else has changed. -/
structure Sent (P : List Nat → Written → Prop) (bytes : Nat → List UInt8) (client : Client)
    (buffSize : Nat) (moved rest : List Nat) (r : Client) : Prop where
  split : reliables client.messages client.messages.list = moved ++ rest
  list : r.messages.list = client.messages.list.filter fun i => !moved.contains i
  fewer : Fewer client.messages r.messages
  clean : r.control.netchan.message.overflowed = false
  cursize_le : r.control.netchan.message.data.length ≤ buffSize
  stopped : ∀ i ∈ rest.head?, buffSize < (bytes i).length + r.control.netchan.message.data.length
  started : rest ≠ [] → r.control.netchan.message.data ≠ []
  control : ∃ w, P moved w ∧ r.control = setChannelMessage client.control w.message

/-- The first reliable message is larger than the room that there is for messages. -/
def TooBig (bytes : Nat → List UInt8) (client : Client) (buffSize : Nat) : Prop :=
  client.control.netchan.message.data = [] ∧
    ∃ i ∈ (reliables client.messages client.messages.list).head?, buffSize < (bytes i).length

/-- The client has been dropped, with its list. -/
structure Dropped (client r : Client) : Prop where
  control : ∃ message, r.control = { setChannelMessage client.control message with state := .zombie }
  sub : ∀ i ∈ r.messages.list, i ∈ client.messages.list

/-- The client has a list, and a free channel. -/
structure Active (client : Client) (buffSize : Nat) : Prop where
  state : client.control.state ≠ .free
  allocated : client.messages.allocated = true
  readable : Readable client.messages
  free : client.control.netchan.reliable = []
  clean : client.control.netchan.message.overflowed = false
  start : client.control.netchan.message.data.length ≤ buffSize

/-- The loop goes over the reliable messages alone. -/
theorem svWriteReliableMessages_sent {P : List Nat → Written → Prop} {bytes : Nat → List UInt8}
    {client : Client} (active : Active client buffSize)
    (reads : ∀ i ∈ client.messages.list, (client.messages.nodes i).reliable = true →
      client.messages.bytes i = .ok (bytes i))
    (visits : Visits P bytes (reliables client.messages client.messages.list) buffSize)
    (start : P [] { message := { client.control.netchan.message with maxsize := buffSize } })
    (blank : ∀ moved rest w, reliables client.messages client.messages.list = moved ++ rest →
      P moved w → w.message.data = [] → moved = [] ∧ client.control.netchan.message.data = []) :
    ∃ r, svWriteReliableMessages client buffSize = .ok r ∧
      (Dropped client r ∧ TooBig bytes client buffSize ∨
        ∃ moved rest, Sent P bytes client buffSize moved rest r) := by
  obtain ⟨⟨w, m⟩, run, ⟨moved, rest, swept⟩, fewer⟩ := sweep_writeReliable active.readable reads
    visits start ⟨active.clean, rfl, active.start⟩ rfl
  have live : ¬(client.control.state = .free ∨ (!client.messages.allocated) = true) := by
    rw [active.allocated]
    exact fun gone => gone.elim active.state Bool.false_ne_true
  simp only [svWriteReliableMessages, if_neg live]
  rw [active.free]
  simp only [List.isEmpty_nil, Bool.not_true, Bool.false_eq_true, if_false, run, bind, Except.bind]
  obtain ⟨w', holds, same⟩ := swept.holds
  simp only at same
  split
  · rename_i big
    obtain ⟨remains, empty⟩ := swept.tooBig.mp big
    obtain ⟨none, started⟩ := blank moved rest w' swept.split holds (same ▸ empty)
    obtain ⟨m', cleared, gone⟩ := svClearMessageList_readable fewer.readable
    have dropped : ∃ r, dropMessages
        { control := setChannelMessage client.control w.message, messages := m } .zombie = .ok r ∧
          Dropped client r := by
      simp only [dropMessages]
      split
      · simp only [cleared, bind, Except.bind]
        exact ⟨_, rfl, ⟨_, rfl⟩, fun i hi => fewer.sub i (gone.sub i hi)⟩
      · exact ⟨_, rfl, ⟨_, rfl⟩, fewer.sub⟩
    obtain ⟨r, drop, left⟩ := dropped
    refine ⟨r, drop, .inl ⟨left, started, ?_⟩⟩
    have split := swept.split
    rw [none, List.nil_append] at split
    rw [split]
    cases rest with
    | nil => exact absurd rfl remains
    | cons i rest =>
      have stopped := swept.stopped i rfl
      simp only at empty
      rw [empty] at stopped
      exact ⟨i, rfl, stopped⟩
  · rename_i small
    split
    · rename_i overflowed
      exact absurd (swept.limited.clean.symm.trans overflowed) Bool.false_ne_true
    · exact ⟨_, rfl, .inr ⟨moved, rest, swept.split, swept.list, fewer, swept.limited.clean,
        swept.limited.cursize_le, swept.stopped,
        fun left empty => small (swept.tooBig.mpr ⟨left, empty⟩), w', holds, by rw [same]⟩⟩

/-! ## What is moved -/

/-- Of the messages `all`, those that fit into the channel's message can be read, and none of them
is put behind a group that does not end with the print it goes on with. -/
def Sendable (m : Messages) (commands : Nat → List Command) (buffSize : Nat) :
    Nat → Option Group → List Nat → Prop
  | _, _, [] => True
  | size, group, i :: rest =>
    (textOf m i).length + size ≤ buffSize →
      Reads m i (commands i) ∧ MayFollow size group (commands i) ∧
        Sendable m commands buffSize (grown size group (commands i)).1
          (grown size group (commands i)).2 rest

/-- What has been written behind `start` decodes to the output of the messages moved, and those
that come can be sent. -/
def Decodes (m : Messages) (commands : Nat → List Command) (buffSize : Nat) (start : List UInt8)
    (all moved : List Nat) (w : Written) : Prop :=
  (∀ i ∈ moved, commands i ≠ []) ∧ ∃ cs group, Stream start cs group w ∧
    (∀ behind, output (cs ++ behind) = output (moved.flatMap commands ++ behind)) ∧
    ∀ rest, all = moved ++ rest → Sendable m commands buffSize w.message.data.length group rest

/-- A prefix of the reliable messages has been moved, and nothing else has changed. -/
structure Moved (commands : Nat → List Command) (client : Client) (buffSize : Nat) (r : Client)
    (moved rest : List Nat) : Prop where
  split : reliables client.messages client.messages.list = moved ++ rest
  list : r.messages.list = client.messages.list.filter fun i => !moved.contains i
  fewer : Fewer client.messages r.messages
  clean : r.control.netchan.message.overflowed = false
  cursize_le : r.control.netchan.message.data.length ≤ buffSize
  stopped : ∀ i ∈ rest.head?,
    buffSize < (textOf client.messages i).length + r.control.netchan.message.data.length
  control : ∃ message, r.control = setChannelMessage client.control message
  stream : ∃ cs, r.control.netchan.message.data =
      client.control.netchan.message.data ++ encode cs ∧ (∀ c ∈ cs, c.Valid) ∧
    output cs = output (moved.flatMap commands)

theorem visits_decodes {commands : Nat → List Command} {all : List Nat} :
    Visits (Decodes m commands buffSize start all) (textOf m) all buffSize := by
  rintro moved i rest w m' split ⟨told, cs, group, stream, whole, sendable⟩ reliable read limited fits
  obtain ⟨reads, follows, behind⟩ := sendable (i :: rest) split fits
  have text := textOf_of_bytes reads.bytes
  rw [text] at read fits
  obtain ⟨w', cs', visit, stream', size, joined, limited', small⟩ :=
    writeReliable_fits stream ⟨reads.nonempty, reads.valid, read⟩ follows limited reliable fits
  refine ⟨w', visit, ⟨fun j hj => ?_, cs', _, stream', fun behind => ?_, fun rest' same => ?_⟩, limited',
    small⟩
  · rcases List.mem_append.mp hj with hj | hj
    · exact told j hj
    · exact List.mem_singleton.mp hj ▸ reads.nonempty
  · rw [joined, whole, List.flatMap_append, List.flatMap_singleton, List.append_assoc]
  · rw [List.append_assoc] at same
    obtain rfl := (List.cons.inj (List.append_cancel_left (split.symm.trans same))).2
    rw [size]
    exact behind

theorem decodes_blank {commands : Nat → List Command} {all moved : List Nat}
    (h : Decodes m commands buffSize start all moved w) (blank : w.message.data = []) :
    moved = [] ∧ start = [] := by
  obtain ⟨told, cs, group, stream, whole, -⟩ := h
  have data := stream.data
  rw [blank] at data
  obtain ⟨nothing, none⟩ := List.append_eq_nil_iff.mp data.symm
  refine ⟨?_, nothing⟩
  have silent := whole []
  rw [eq_nil_of_encode stream.valid none, List.append_nil, List.append_nil] at silent
  have unmoved := eq_nil_of_output (silent.symm.trans rfl)
  cases moved with
  | nil => rfl
  | cons i moved =>
    rw [List.flatMap_cons] at unmoved
    exact absurd (List.append_eq_nil_iff.mp unmoved).1 (told i List.mem_cons_self)

/-- If no message that loses its header is put behind one that ends otherwise than with a print of
its level, the messages that fit are moved, and what is sent decodes to their output. -/
theorem svWriteReliableMessages_moves {commands : Nat → List Command} {client : Client}
    (active : Active client buffSize)
    (sendable : Sendable client.messages commands buffSize
      client.control.netchan.message.data.length none
      (reliables client.messages client.messages.list)) :
    ∃ r, svWriteReliableMessages client buffSize = .ok r ∧
      (r.control.state = .zombie ∧ TooBig (textOf client.messages) client buffSize ∨
        ∃ moved rest, Moved commands client buffSize r moved rest) := by
  have start : Decodes client.messages commands buffSize client.control.netchan.message.data
      (reliables client.messages client.messages.list) []
      { message := { client.control.netchan.message with maxsize := buffSize } } :=
    ⟨List.forall_mem_nil _, [], none, ⟨(List.append_nil _).symm, List.forall_mem_nil _, rfl,
      by rintro _ ⟨⟩⟩, fun _ => rfl, by rintro _ rfl; exact sendable⟩
  obtain ⟨r, run, result⟩ := svWriteReliableMessages_sent active (fun i hi _ => by
      obtain ⟨bytes, read⟩ := active.readable.bytes i hi
      rw [read, textOf_of_bytes read])
    visits_decodes start (fun moved rest w _ decodes empty => decodes_blank decodes empty)
  refine ⟨r, run, result.imp (fun dropped => ⟨?_, dropped.2⟩) ?_⟩
  · obtain ⟨message, control⟩ := dropped.1.control
    rw [control]
  rintro ⟨moved, rest, sent⟩
  obtain ⟨w, ⟨-, cs, group, stream, whole, -⟩, control⟩ := sent.control
  refine ⟨moved, rest, sent.split, sent.list, sent.fewer, sent.clean, sent.cursize_le,
    sent.stopped, ⟨w.message, control⟩, cs, ?_, stream.valid, ?_⟩
  · rw [control]
    exact stream.data
  · have alone := whole []
    rwa [List.append_nil, List.append_nil] at alone

/-! ## A print that is not the last command -/

theorem length_encode_joinPrint_le (level : UInt8) (text : List UInt8) (rest : List Command) :
    (encode (joinPrint level text rest)).length ≤
      (encode (.print level text :: rest)).length := by
  cases rest with
  | nil => exact Nat.le_refl _
  | cons c rest =>
    cases c with
    | other bytes => exact Nat.le_refl _
    | print next more =>
      simp only [joinPrint]
      split
      · simp only [encode_cons, Command.encode, List.length_append, List.length_cons]
        omega
      · exact Nat.le_refl _

/-- Putting texts together only removes bytes. -/
theorem length_encode_output_le (cs : List Command) :
    (encode (output cs)).length ≤ (encode cs).length := by
  induction cs with
  | nil => exact Nat.le_refl _
  | cons c cs ih =>
    cases c with
    | other bytes =>
      simp only [output, encode_cons, List.length_append]
      omega
    | print level text =>
      have joined := length_encode_joinPrint_le level text (output cs)
      simp only [output, encode_cons, List.length_append] at joined ⊢
      omega

/-- Reliable messages in their local buffers. -/
private def queueOf (texts : List (List UInt8)) : Messages where
  allocated := true
  nodes i :=
    let text := texts.getD (i - 1) []
    { cursize := text.length, reliable := true, localbuff := text ++ List.replicate (69 - text.length) 0 }
  list := List.range' 1 texts.length

private theorem inv_queueOf {texts : List (List UInt8)}
    (short : ∀ i, (texts.getD (i - 1) []).length ≤ 69) : Inv (queueOf texts) where
  sorted := List.pairwise_lt_range'
  stored := fun i _ => ⟨Int.natCast_nonneg _, Int.ofNat_le.mpr (short i)⟩
  owns := by
    have unowned : owner (queueOf texts) = fun _ => none := by
      funext i
      exact ite_self none
    rw [unowned]
    exact owns_empty
  noLeak := by
    have unowned : owner (queueOf texts) = fun _ => none := by
      funext i
      exact ite_self none
    rw [unowned]
    exact noLeak_empty
  localbuff := fun i => by
    have := short i
    change (texts.getD (i - 1) [] ++ List.replicate (69 - (texts.getD (i - 1) []).length) 0).length = 69
    rw [List.length_append, List.length_replicate]
    omega
  gone := by rintro ⟨⟩

private def clientOf (texts : List (List UInt8)) : Client where
  control :=
    { state := .spawned
      netchan :=
        { sock := .server, lastReceived := 0, lastSent := 0, qport := 7, protocol := 34
          message := { allowoverflow := true, maxsize := 1390, buffsize := 1390 } } }
  messages := queueOf texts

/-- Two prints of level 2, the first with a text to be stuffed behind it if `stuffed`. -/
private def printsOf (stuffed : Bool) : Nat → List Command
  | 1 => .print 2 [97] :: if stuffed then [.other [svcStufftext, 98, 0]] else []
  | 2 => [.print 2 [99]]
  | _ => []

private def exampleTexts (stuffed : Bool) : List (List UInt8) :=
  [encode (printsOf stuffed 1), encode (printsOf stuffed 2)]

private theorem short_exampleTexts (stuffed : Bool) (i : Nat) :
    ((exampleTexts stuffed).getD (i - 1) []).length ≤ 69 := by
  rcases i with _ | _ | _ | i
  · cases stuffed <;> decide
  · cases stuffed <;> decide
  · cases stuffed <;> decide
  · exact Nat.zero_le _

private theorem reads_exampleTexts (stuffed : Bool) (i : Nat)
    (hi : i ∈ (queueOf (exampleTexts stuffed)).list) :
    Reads (queueOf (exampleTexts stuffed)) i (printsOf stuffed i) := by
  rcases List.mem_cons.mp hi with rfl | hi
  · cases stuffed with
    | false => exact ⟨List.cons_ne_nil _ _, by simp [printsOf, Command.Valid], rfl⟩
    | true => exact ⟨List.cons_ne_nil _ _, by simp [printsOf, Command.Valid, svcStufftext, svcPrint], rfl⟩
  · rw [List.mem_singleton.mp hi]
    exact ⟨List.cons_ne_nil _ _, by simp [printsOf, Command.Valid], rfl⟩

private theorem active_clientOf (stuffed : Bool) :
    Active (clientOf (exampleTexts stuffed)) 1390 where
  state := by rintro ⟨⟩
  allocated := rfl
  readable := readable_of_inv (inv_queueOf (short_exampleTexts stuffed))
  free := rfl
  clean := rfl
  start := Nat.zero_le _

private theorem sendable_exampleTexts : Sendable (queueOf (exampleTexts false)) (printsOf false) 1390
    0 none [1, 2] := by
  refine fun _ => ⟨reads_exampleTexts false 1 (by decide), fun g hg => (Option.not_mem_none g hg).elim,
    fun _ => ⟨reads_exampleTexts false 2 (by decide), ?_, trivial⟩⟩
  rintro _ ⟨⟩ level hlevel -
  exact hlevel

theorem svWriteReliableMessages_moves_prints :
    ∃ r, svWriteReliableMessages (clientOf (exampleTexts false)) 1390 = .ok r ∧
      (r.control.state = .zombie ∧
          TooBig (textOf (queueOf (exampleTexts false))) (clientOf (exampleTexts false)) 1390 ∨
        ∃ moved rest, Moved (printsOf false) (clientOf (exampleTexts false)) 1390 r moved rest) :=
  svWriteReliableMessages_moves (active_clientOf false) sendable_exampleTexts

-- a message that does not fit is never put behind another
example : Sendable (queueOf (exampleTexts true)) (printsOf true) 10 0 none [1, 2] :=
  fun _ => ⟨reads_exampleTexts true 1 (by decide), fun g hg => (Option.not_mem_none g hg).elim,
    fun fits => absurd fits (by decide)⟩

/-- The text of the second print is put behind the command that follows the first one. -/
theorem print_lost : ¬∀ (commands : Nat → List Command) (client : Client) (buffSize : Nat),
    Active client buffSize →
    (∀ i ∈ client.messages.list, (client.messages.nodes i).reliable = true →
      Reads client.messages i (commands i)) →
    ∃ r, svWriteReliableMessages client buffSize = .ok r ∧
      (r.control.state = .zombie ∧ TooBig (textOf client.messages) client buffSize ∨
        ∃ moved rest, Moved commands client buffSize r moved rest) := by
  intro h
  obtain ⟨r, run, result⟩ := h (printsOf true) (clientOf (exampleTexts true)) 1390
    (active_clientOf true) (fun i hi _ => reads_exampleTexts true i hi)
  have data : (svWriteReliableMessages (clientOf (exampleTexts true)) 1390).toOption.map
      (fun r => (r.control.netchan.message.data.length, r.messages.list, r.control.state)) =
        some (8, [], .spawned) := by decide +kernel
  rw [run] at data
  simp only [Except.toOption, Option.map_some, Option.some.injEq, Prod.mk.injEq] at data
  obtain ⟨size, list, state⟩ := data
  rcases result with ⟨zombie, -⟩ | ⟨moved, rest, result⟩
  · rw [state] at zombie
    cases zombie
  · have split : [1, 2] = moved ++ rest := result.split
    have remaining := result.list
    rw [list] at remaining
    obtain ⟨cs, same, -, whole⟩ := result.stream
    have all : moved = [1, 2] := by
      rcases moved with _ | ⟨a, _ | ⟨b, _ | ⟨c, moved⟩⟩⟩
      · exact absurd remaining (by decide)
      · cases split
        exact absurd remaining (by decide)
      · cases split
        rfl
      · cases split
    have longer := length_encode_output_le cs
    rw [whole, all] at longer
    have written := congrArg List.length same
    rw [size] at written
    have : (encode (output ([1, 2].flatMap (printsOf true)))).length = 11 := by decide
    have start : (clientOf (exampleTexts true)).control.netchan.message.data = [] := rfl
    rw [start, List.nil_append] at written
    omega

end ReliableMessages
