import Kpded2.DatagramSize
import Kpded2.ReliableMessages

/-!
# The list while a datagram is composed

`SV_SendClientDatagram` compresses the first reliable message in place, or the one that waits for
its acknowledgement, and deletes the unreliable messages that it has put behind the frame.
-/
namespace DraftMessages
open ClientDatagram MessageList MessageLoops MessageStorage NetChan Outcome Protocol ReliableMessages
open SizeBuf

def unreliables (m : Messages) (l : List Nat) : List Nat := l.filter fun i => !(m.nodes i).reliable

def texts (m : Messages) (l : List Nat) : List UInt8 := l.flatMap (textOf m)

/-- What `CompressBuffer` makes of a buffer. -/
def packet (stream : List UInt8) : List UInt8 := svcCpacket :: (shortBytes stream.length ++ stream)

variable {zlib : Zlib} {m m' : Messages} {i : Nat}

theorem length_packet (stream : List UInt8) : (packet stream).length = stream.length + 3 := by
  simp only [packet, shortBytes, List.length_cons, List.length_append, List.length_nil]
  omega

/-- Where there is room for the header, the stream fits behind it. -/
theorem compressBuffer_room (input : List UInt8) {out : Sizebuf} (blank : out.data = [])
    (room : 3 ≤ out.maxsize) :
    Returns (fun r => ∀ out', r = some out' → ∃ stream, zlib.inflate stream = some input ∧
        stream.length + 3 ≤ out.maxsize ∧ stream.length + 3 < input.length ∧
          out' = { out with data := packet stream })
      (compressBuffer zlib input out) := by
  have cursize : out.cursize = 0 := congrArg List.length blank
  simp only [compressBuffer]
  split
  · exact returns_ok fun _ h => by cases h
  · rename_i long
    split
    · exact returns_ok fun _ h => by cases h
    · rename_i stream deflated
      have inflated := zlib.inflate_deflate _ _ _ deflated
      have short := zlib.deflate_le _ _ _ deflated
      have fits : stream.length + 3 ≤ out.maxsize ∧ stream.length + 3 < input.length := by omega
      split
      · exact returns_error _
      · have two : (shortBytes stream.length).length = 2 := rfl
        rw [writeOrStop_fits (by simp only [cursize, List.length_singleton]; omega)]
        change Returns _ (writeOrStop _ _ >>= _)
        rw [writeOrStop_fits (by
          simp only [Sizebuf.cursize, blank, List.nil_append, List.length_singleton]
          omega)]
        refine returns_ok ?_
        rintro out' ⟨⟩
        refine ⟨stream, inflated, fits.1, fits.2, ?_⟩
        simp only [blank, packet, List.nil_append, List.cons_append]

/-! ## Loops that delete unreliable messages -/

section Loops
variable {α : Type} {visit : Messages → α → Nat → Except Stop (α × Visit)}
  {P : List Nat → List Nat → α → Prop} {Q : List Nat → α → Prop} {acc : α}

/-- What a visit leaves, if the messages of `gone` have been deleted. -/
def Leaves (P : List Nat → List Nat → α → Prop) (Q : List Nat → α → Prop) (m : Messages) (i : Nat)
    (rest gone : List Nat) (r : α × Visit) : Prop :=
  match r.2 with
  | .keep => P rest gone r.1
  | .delete => (m.nodes i).reliable = false ∧ P rest (gone ++ [i]) r.1
  | .stop => Q gone r.1

/-- The messages of `gone` have been deleted, and nothing else has happened. -/
structure Without (m : Messages) (gone : List Nat) (m' : Messages) : Prop where
  fewer : Fewer m m'
  sub : gone.Sublist (unreliables m m.list)
  list : m'.list = m.list.filter fun i => !gone.contains i

/-- A loop over the list takes off what it has counted as gone. -/
theorem sweep_gone (readable : Readable m) (start : P m.list [] acc)
    (visits : ∀ i rest gone acc m', P (i :: rest) gone acc → Fewer m m' → i ∈ m.list → i ∈ m'.list →
      ∃ r, visit m' acc i = .ok r ∧ Leaves P Q m i rest gone r)
    (done : ∀ gone acc, P [] gone acc → Q gone acc) :
    ∃ r, sweep visit m.list acc m = .ok r ∧ ∃ gone, Q gone r.1 ∧ Without m gone r.2 := by
  have first : ∃ front gone, m.list = front ++ m.list ∧ gone.Sublist (unreliables m front) ∧
      m.list = (m.list.filter fun i => !gone.contains i) ∧ P m.list gone acc ∧ Fewer m m :=
    ⟨[], [], rfl, List.Sublist.refl _, (List.filter_eq_self.mpr fun _ _ => rfl).symm, start,
      Fewer.refl readable⟩
  suffices swept : ∃ r, sweep visit m.list acc m = .ok r ∧ (∃ gone, Q gone r.1 ∧
      gone.Sublist (unreliables m m.list) ∧ (r.2.list = m.list.filter fun i => !gone.contains i) ∧
        Fewer m r.2) ∧ Fewer m r.2 by
    obtain ⟨r, run, ⟨gone, post, sub, list, fewer⟩, -⟩ := swept
    exact ⟨r, run, gone, post, fewer, sub, list⟩
  refine sweep_total
    (I := fun rest acc m' => ∃ front gone, m.list = front ++ rest ∧
      gone.Sublist (unreliables m front) ∧ m'.list = (m.list.filter fun i => !gone.contains i) ∧
        P rest gone acc ∧ Fewer m m')
    (Q := fun acc m' => ∃ gone, Q gone acc ∧ gone.Sublist (unreliables m m.list) ∧
      m'.list = (m.list.filter fun i => !gone.contains i) ∧ Fewer m m') readable readable.nodup
    (fun _ hi => hi) first ?_ ?_
  · rintro i rest acc m' - hi ⟨front, gone, whole, sub, list, own, fewer⟩
    have listed : i ∈ m.list := whole ▸ List.mem_append_right _ List.mem_cons_self
    obtain ⟨⟨acc', verdict⟩, run, leaves⟩ := visits i rest gone acc m' own fewer listed hi
    have onward : m.list = (front ++ [i]) ++ rest := by
      rw [whole, List.append_assoc]
      rfl
    have sub_onward : (unreliables m front).Sublist (unreliables m (front ++ [i])) :=
      (List.sublist_append_left front [i]).filter _
    refine ⟨_, run, ?_⟩
    cases verdict with
    | keep => exact ⟨front ++ [i], gone, onward, sub.trans sub_onward, list, leaves, fewer⟩
    | stop =>
      refine ⟨gone, leaves, sub.trans ?_, list, fewer⟩
      rw [whole]
      exact (List.sublist_append_left front _).filter _
    | delete =>
      intro m'' fewer' erased _
      have taken : unreliables m (front ++ [i]) = unreliables m front ++ [i] := by
        rw [unreliables, List.filter_append]
        refine congrArg _ (List.filter_cons_of_pos ?_)
        rw [leaves.1]
        rfl
      refine ⟨front ++ [i], gone ++ [i], onward, ?_, ?_, leaves.2, fewer.trans fewer'⟩
      · rw [taken]
        exact sub.append_right [i]
      · rw [erased, list, filter_erase readable.nodup]
  · rintro acc m' ⟨front, gone, whole, sub, list, own, fewer⟩
    rw [List.append_nil] at whole
    exact ⟨gone, done gone acc own, whole ▸ sub, list, fewer⟩

end Loops

/-! ## The draft -/

/-- The list without the messages of `gone`. The first reliable message, for which space is kept, may
have been compressed. -/
structure Listed (m : Messages) (rmessage : Option Nat) (gone : List Nat) (m' : Messages) : Prop where
  readable : Readable m'
  allocated : m'.allocated = m.allocated
  reliable : ∀ j, (m'.nodes j).reliable = (m.nodes j).reliable
  sub : ∀ i ∈ gone, i ∈ unreliables m m.list
  nodup : gone.Nodup
  list : m'.list = m.list.filter fun i => !gone.contains i
  others : ∀ j ∈ m'.list, j ∉ rmessage → m'.bytes j = m.bytes j
  own : ∀ i ∈ rmessage, i ∈ m'.list →
    m'.bytes i = m.bytes i ∨ ∃ rest, m'.bytes i = .ok (svcCpacket :: rest) ∧ rest.length < 1390

/-- The space that is kept. -/
structure Spared (m : Messages) (rmessage : Option Nat) (room : Nat) (d : Draft) : Prop where
  buffsize : d.msg.buffsize = 1390
  own : ∀ i ∈ rmessage, i ∈ d.messages.list → ∀ bytes, d.messages.bytes i = .ok bytes →
    d.msg.maxsize = 1390 - bytes.length
  waiting : rmessage = none →
    d.msg.maxsize = 1390 ∨ d.msg.maxsize = 1390 - d.control.netchan.reliable.length
  room_le : m.list ≠ [] → room ≤ d.msg.maxsize

/-- A layout is noted only if it is sent. -/
structure Noted (m : Messages) (gone : List Nat) (c c' : Control) : Prop where
  state : c'.state = c.state
  layout : c'.layoutUnreliable = c.layoutUnreliable ∨ ∃ i ∈ gone, (textOf m i).head? = some svcLayout

/-- A reliable message of the list. -/
structure First (m : Messages) (rmessage : Option Nat) : Prop where
  queued : ∀ i ∈ rmessage, m.list ≠ [] → i ∈ m.list
  reliable : ∀ i ∈ rmessage, (m.nodes i).reliable = true

/-- A draft without a frame. -/
structure Blank (client : Client) (rmessage : Option Nat) (room : Nat) (d : Draft) : Prop where
  listed : Listed client.messages rmessage [] d.messages
  spared : Spared client.messages rmessage room d
  noted : Noted client.messages [] client.control d.control
  data : d.msg.data = []
  clean : d.msg.overflowed = false

variable {client : Client} {rmessage : Option Nat} {room : Nat} {d : Draft} {gone gone' : List Nat}

theorem Listed.refl (readable : Readable m) (rmessage : Option Nat) : Listed m rmessage [] m where
  readable := readable
  allocated := rfl
  reliable := fun _ => rfl
  sub := fun _ hi => (List.not_mem_nil hi).elim
  nodup := List.nodup_nil
  list := (List.filter_eq_self.mpr fun _ _ => rfl).symm
  others := fun _ _ _ => rfl
  own := fun _ _ _ => .inl rfl

theorem Listed.list_nil (h : Listed m rmessage [] m') : m'.list = m.list := by
  rw [h.list]
  exact List.filter_eq_self.mpr fun _ _ => rfl

theorem Listed.without {m'' : Messages} (h : Listed m rmessage gone m') (w : Without m' gone' m'') :
    Listed m rmessage (gone ++ gone') m'' where
  readable := w.fewer.readable
  allocated := w.fewer.allocated.trans h.allocated
  reliable := fun j => by
    rw [w.fewer.nodes]
    exact h.reliable j
  sub := by
    intro i hi
    rcases List.mem_append.mp hi with hi | hi
    · exact h.sub i hi
    · obtain ⟨listed, unreliable⟩ := List.mem_filter.mp (w.sub.subset hi)
      rw [h.list] at listed
      rw [h.reliable] at unreliable
      exact List.mem_filter.mpr ⟨List.mem_of_mem_filter listed, unreliable⟩
  nodup := by
    refine List.nodup_append.mpr ⟨h.nodup, w.sub.nodup (h.readable.nodup.filter _), ?_⟩
    rintro i hi _ hi' rfl
    have listed := List.mem_of_mem_filter (w.sub.subset hi')
    rw [h.list] at listed
    have kept := (List.mem_filter.mp listed).2
    rw [List.contains_iff_mem.mpr hi] at kept
    exact Bool.false_ne_true kept
  list := by
    rw [w.list, h.list, List.filter_filter]
    refine List.filter_congr fun i _ => ?_
    rw [List.contains_append, Bool.not_or, Bool.and_comm]
  others := fun j hj other => (w.fewer.bytes j hj).trans (h.others j (w.fewer.sub j hj) other)
  own := fun i hi listed => by
    rw [w.fewer.bytes i listed]
    exact h.own i hi (w.fewer.sub i listed)

/-- Unreliable messages are not compressed in place. -/
theorem Listed.bytes_unreliable (h : Listed m rmessage gone m') (first : First m rmessage)
    (hi : i ∈ m'.list) (unreliable : (m'.nodes i).reliable = false) : m'.bytes i = m.bytes i := by
  refine h.others i hi fun own => ?_
  rw [h.reliable] at unreliable
  exact Bool.false_ne_true (unreliable.symm.trans (first.reliable i own))

theorem Spared.of_bytes {d' : Draft} (h : Spared m rmessage room d)
    (buffsize : d'.msg.buffsize = d.msg.buffsize) (maxsize : d'.msg.maxsize = d.msg.maxsize)
    (netchan : d'.control.netchan = d.control.netchan)
    (bytes : ∀ i ∈ d'.messages.list, i ∈ d.messages.list ∧ d'.messages.bytes i = d.messages.bytes i) :
    Spared m rmessage room d' where
  buffsize := buffsize.trans h.buffsize
  own := fun i hi listed data read => by
    rw [maxsize]
    exact h.own i hi (bytes i listed).1 data ((bytes i listed).2 ▸ read)
  waiting := fun none => by
    rw [maxsize, netchan]
    exact h.waiting none
  room_le := fun nonempty => by
    rw [maxsize]
    exact h.room_le nonempty

theorem Noted.trans {c c' c'' : Control} (h : Noted m gone c c') (k : Noted m gone' c' c'') :
    Noted m (gone ++ gone') c c'' where
  state := k.state.trans h.state
  layout := by
    rcases k.layout with same | ⟨i, hi, layout⟩
    · rcases h.layout with same' | ⟨i, hi, layout⟩
      · exact .inl (same.trans same')
      · exact .inr ⟨i, List.mem_append_left _ hi, layout⟩
    · exact .inr ⟨i, List.mem_append_right _ hi, layout⟩

theorem compressReliable_blank (first : First client.messages rmessage)
    (h : Blank client rmessage room d) :
    Returns (fun r => ∀ d', r = some d' → Blank client rmessage room d')
      (compressReliable zlib rmessage d) := by
  obtain ⟨listed, spared, noted, data, clean⟩ := h
  have list := listed.list_nil
  have buffsize := spared.buffsize
  have whole (input : List UInt8) := @compressBuffer_room zlib input
    { d.msg with maxsize := d.msg.buffsize } data (by change 3 ≤ d.msg.buffsize; omega)
  simp only [compressReliable]
  split
  · rename_i i
    split
    · exact returns_ok fun _ none => by cases none
    · cases read : d.messages.bytes i with
      | error stop => exact returns_error _
      | ok bytes =>
        refine (whole bytes).bind fun r hr => ?_
        cases r with
        | none => exact returns_ok fun _ none => by cases none
        | some out =>
          obtain ⟨stream, -, fits, shorter, rfl⟩ := hr out rfl
          have length := length_packet stream
          have inside : stream.length + 3 ≤ 1390 := buffsize ▸ fits
          obtain ⟨m', written, overwritten⟩ := write_overwritten (i := i) listed.readable
            (fun nonempty => list ▸ first.queued i rfl (list ▸ nonempty)) read
            (by rw [length]; exact shorter.le) (by omega)
          simp only [written, bind, Except.bind]
          refine returns_ok ?_
          rintro d' ⟨⟩
          refine ⟨⟨overwritten.readable, overwritten.allocated.trans listed.allocated, ?_,
            listed.sub, listed.nodup, overwritten.list.trans listed.list, ?_, ?_⟩, ⟨buffsize, ?_, ?_, ?_⟩,
            noted, rfl, rfl⟩
          · exact fun j => (overwritten.reliable j).trans (listed.reliable j)
          · intro j hj other
            have before : j ∈ d.messages.list := overwritten.list ▸ hj
            have unchanged := overwritten.others j before fun same => other (same ▸ rfl)
            exact unchanged.trans (listed.others j before other)
          · rintro _ ⟨⟩ -
            refine .inr ⟨_, overwritten.own, ?_⟩
            rw [packet, List.length_cons] at length
            omega
          · rintro _ ⟨⟩ - bytes' read'
            cases overwritten.own.symm.trans read'
            exact congrArg (· - (packet stream).length) buffsize
          · rintro ⟨⟩
          · intro nonempty
            have own := spared.own i rfl (list ▸ first.queued i rfl nonempty) bytes read
            have before := spared.room_le nonempty
            change room ≤ d.msg.buffsize - (packet stream).length
            omega
  · split
    · rename_i compresses
      refine (whole d.control.netchan.reliable).bind fun r hr => ?_
      cases r with
      | none => exact returns_ok fun _ none => by cases none
      | some out =>
        obtain ⟨stream, -, fits, shorter, rfl⟩ := hr out rfl
        have length := length_packet stream
        refine returns_ok ?_
        rintro d' ⟨⟩
        refine ⟨listed, ⟨buffsize, ?_, fun _ => .inr ?_, fun nonempty => ?_⟩, ⟨noted.state, noted.layout⟩,
          rfl, rfl⟩
        · rintro _ ⟨⟩
        · exact congrArg (· - (packet stream).length) buffsize
        · have before := spared.room_le nonempty
          have waiting := (spared.waiting rfl).resolve_left fun same => by omega
          change room ≤ d.msg.buffsize - (packet stream).length
          omega
    · exact returns_ok fun _ none => by cases none

/-! ## The frame -/

/-- What is in the datagram: a frame, perhaps compressed and with the messages of `packed`. -/
inductive Contents (zlib : Zlib) (frames : List UInt8 → Prop) (m : Messages) :
    List Nat → List UInt8 → Prop where
  | nothing : Contents zlib frames m [] []
  | plain (frame : List UInt8) : frames frame → Contents zlib frames m [] frame
  | compressed (frame stream : List UInt8) (packed : List Nat) : frames frame →
      zlib.inflate stream = some (frame ++ texts m packed) →
      Contents zlib frames m packed (packet stream)

/-- A draft with its frame. Only a datagram that had no room for a header may have overflowed. -/
structure Framed (zlib : Zlib) (frames : List UInt8 → Prop) (client : Client)
    (rmessage : Option Nat) (room : Nat) (gone : List Nat) (d : Draft) : Prop where
  listed : Listed client.messages rmessage gone d.messages
  spared : Spared client.messages rmessage room d
  noted : Noted client.messages gone client.control d.control
  contents : d.msg.overflowed = true ∧ (client.messages.list ≠ [] → room < 3) ∨
    d.msg.overflowed = false ∧ Contents zlib frames client.messages gone d.msg.data

/-- What an attempt to put a frame into the datagram leaves. -/
def Attempted (zlib : Zlib) (frames : List UInt8 → Prop) (client : Client) (rmessage : Option Nat)
    (room : Nat) (r : Draft × Bool) : Prop :=
  if r.2 then ∃ gone, Framed zlib frames client rmessage room gone r.1
  else Blank client rmessage room r.1

/-- No message is empty. -/
def Nonempty (m : Messages) : Prop := ∀ i ∈ m.list, textOf m i ≠ []

variable {frames : List UInt8 → Prop} {frame : List UInt8} {env : Env}

theorem putPlain_attempted (written : frames frame) (h : Blank client rmessage room d) :
    Returns (Attempted zlib frames client rmessage room) (putPlain frame d) := by
  simp only [putPlain]
  split
  · rename_i fits
    have cursize : d.msg.cursize = 0 := congrArg List.length h.data
    rw [writeOrStop_fits (by omega)]
    refine returns_ok ⟨[], h.listed, h.spared.of_bytes rfl rfl rfl fun i hi => ⟨hi, rfl⟩, h.noted, .inr ?_⟩
    refine ⟨h.clean, ?_⟩
    change Contents zlib frames client.messages [] (d.msg.data ++ frame)
    rw [h.data]
    exact .plain frame written
  · exact returns_ok h

/-- The messages before the one where the loop stops. -/
def upTo (stopAt : Option Nat) (l : List Nat) : List Nat :=
  match stopAt with
  | none => l
  | some i => l.takeWhile (· ≠ i)

theorem upTo_cons {stopAt : Option Nat} {j : Nat} (other : stopAt ≠ some j) (l : List Nat) :
    upTo stopAt (j :: l) = j :: upTo stopAt l := by
  cases stopAt with
  | none => rfl
  | some i =>
    have different : j ≠ i := fun same => other (congrArg some same.symm)
    simp only [upTo]
    exact List.takeWhile_cons_of_pos (by simp only [different, ne_eq, not_false_eq_true, decide_true])

theorem upTo_self (j : Nat) (l : List Nat) : upTo (some j) (j :: l) = [] := by
  simp only [upTo]
  exact List.takeWhile_cons_of_neg (by simp)

/-- The unreliable messages are put behind the frame while they fit. -/
theorem appendUnreliable_spec (readable : Readable m) {l : List Nat} (nodup : l.Nodup)
    (sub : ∀ i ∈ l, i ∈ m.list) (frame : List UInt8) :
    ∃ stopAt, appendUnreliable m frame l =
        .ok (frame ++ texts m (unreliables m (upTo stopAt l)), stopAt) ∧ (∀ j ∈ stopAt, j ∈ l) ∧
      ((∀ i ∈ l, frame.length + (textOf m i).length ≤ frameBuf) → unreliables m l ≠ [] →
        unreliables m (upTo stopAt l) ≠ []) := by
  induction l generalizing frame with
  | nil =>
    refine ⟨none, ?_, by rintro _ ⟨⟩, fun _ some => some⟩
    rw [show texts m (unreliables m (upTo none [])) = [] from rfl, List.append_nil]
    rfl
  | cons i rest ih =>
    obtain ⟨fresh, nodup⟩ := List.nodup_cons.mp nodup
    have ih := ih nodup fun j hj => sub j (List.mem_cons_of_mem i hj)
    have other (stopAt : Option Nat) (inside : ∀ j ∈ stopAt, j ∈ rest) : stopAt ≠ some i :=
      fun same => fresh (inside i same)
    cases reliable : (m.nodes i).reliable with
    | true =>
      obtain ⟨stopAt, run, inside, packs⟩ := ih frame
      have skip (rest : List Nat) : unreliables m (i :: rest) = unreliables m rest :=
        List.filter_cons_of_neg (by simp [reliable])
      rw [skip]
      refine ⟨stopAt, ?_, fun j hj => List.mem_cons_of_mem i (inside j hj), fun short some => ?_⟩
      · rw [upTo_cons (other stopAt inside), skip, ← run]
        simp only [appendUnreliable, reliable, if_true]
      · rw [upTo_cons (other stopAt inside), skip]
        exact packs (fun j hj => short j (List.mem_cons_of_mem i hj)) some
    | false =>
      obtain ⟨bytes, read⟩ := readable.bytes i (sub i List.mem_cons_self)
      by_cases long : frame.length + bytes.length > frameBuf
      · refine ⟨some i, ?_, fun j hj => Option.some.inj hj ▸ List.mem_cons_self, fun short _ => ?_⟩
        · rw [upTo_self, show texts m (unreliables m []) = [] from rfl, List.append_nil]
          simp only [appendUnreliable, reliable, Bool.false_eq_true, if_false, read, bind, Except.bind,
            if_pos long]
        · have fits := short i List.mem_cons_self
          rw [textOf_of_bytes read] at fits
          exact absurd long (Nat.not_lt.mpr fits)
      · obtain ⟨stopAt, run, inside, -⟩ := ih (frame ++ bytes)
        have take : unreliables m (i :: upTo stopAt rest) = i :: unreliables m (upTo stopAt rest) :=
          List.filter_cons_of_pos (by simp [reliable])
        refine ⟨stopAt, ?_, fun j hj => List.mem_cons_of_mem i (inside j hj), fun _ _ => ?_⟩
        · rw [upTo_cons (other stopAt inside), take, texts, List.flatMap_cons, textOf_of_bytes read,
            ← List.append_assoc, ← texts, ← run]
          simp only [appendUnreliable, reliable, Bool.false_eq_true, if_false, read, bind, Except.bind,
            if_neg long]
        · rw [upTo_cons (other stopAt inside), take]
          exact List.cons_ne_nil _ _

theorem head_of_byteAt (same : m'.bytes i = m.bytes i) (nonempty : textOf m i ≠ []) :
    (textOf m i).head? = some (m'.byteAt i 0) := by
  cases read : m.bytes i with
  | error stop =>
    rw [textOf, read] at nonempty
    exact absurd rfl nonempty
  | ok bytes =>
    rw [textOf_of_bytes read] at nonempty ⊢
    cases bytes with
    | nil => exact absurd rfl nonempty
    | cons b rest => rw [byteAt_of_bytes (same.trans read) (Nat.succ_pos _)]; rfl

theorem noteLayout_noted {c c' : Control} (noted : Noted m gone c c') (same : m'.bytes i = m.bytes i)
    (nonempty : textOf m i ≠ []) : Noted m (gone ++ [i]) c (noteLayout m' i c') := by
  simp only [noteLayout]
  split
  · rename_i layout
    refine ⟨noted.state, .inr ⟨i, List.mem_append_right _ List.mem_cons_self, ?_⟩⟩
    rw [head_of_byteAt same nonempty, layout]
  · refine ⟨noted.state, noted.layout.imp id ?_⟩
    rintro ⟨j, hj, layout⟩
    exact ⟨j, List.mem_append_left _ hj, layout⟩

theorem Noted.refl (m : Messages) (c : Control) : Noted m [] c c := ⟨rfl, .inl rfl⟩

/-- The messages behind the frame are deleted. -/
theorem sweep_deleteUntil (first : First client.messages rmessage) (nonempty : Nonempty client.messages)
    (listed : Listed client.messages rmessage gone m) (stopAt : Option Nat) (control : Control) :
    ∃ r, sweep (deleteUntil stopAt) m.list control m = .ok r ∧
      Without m (unreliables m (upTo stopAt m.list)) r.2 ∧ r.1.netchan = control.netchan ∧
        Noted client.messages (unreliables m (upTo stopAt m.list)) control r.1 := by
  let packed := unreliables m (upTo stopAt m.list)
  suffices swept : ∃ r, sweep (deleteUntil stopAt) m.list control m = .ok r ∧ ∃ gone',
      (gone' = packed ∧ r.1.netchan = control.netchan ∧ Noted client.messages gone' control r.1) ∧
        Without m gone' r.2 by
    obtain ⟨r, run, _, ⟨rfl, netchan, noted⟩, without⟩ := swept
    exact ⟨r, run, without, netchan, noted⟩
  refine @sweep_gone m Control (deleteUntil stopAt)
    (fun rest gone' c => gone' ++ unreliables m (upTo stopAt rest) = packed ∧
      c.netchan = control.netchan ∧ Noted client.messages gone' control c)
    (fun gone' c => gone' = packed ∧ c.netchan = control.netchan ∧
      Noted client.messages gone' control c) control listed.readable
    ⟨rfl, rfl, Noted.refl _ _⟩ ?_ ?_
  · rintro i rest gone' c m' ⟨whole, netchan, noted⟩ fewer hi hi'
    simp only [deleteUntil]
    split
    · rename_i stops
      rw [stops, upTo_self, show unreliables m [] = [] from rfl, List.append_nil] at whole
      exact ⟨_, rfl, whole, netchan, noted⟩
    · rename_i other
      rw [upTo_cons other] at whole
      cases reliable : (m'.nodes i).reliable with
      | true =>
        refine ⟨_, rfl, ?_, netchan, noted⟩
        rw [← whole, unreliables, unreliables, List.filter_cons_of_neg]
        rw [← fewer.nodes, reliable]
        exact Bool.false_ne_true
      | false =>
        have flag : (m.nodes i).reliable = false := fewer.nodes ▸ reliable
        refine ⟨_, rfl, flag, ?_, (noteLayout_netchan m' i c).trans netchan, ?_⟩
        · rw [← whole, List.append_assoc]
          refine congrArg _ (Eq.symm (List.filter_cons_of_pos ?_))
          rw [flag]
          rfl
        · refine noteLayout_noted noted ((fewer.bytes i hi').trans
            (listed.bytes_unreliable first hi flag)) (nonempty i ?_)
          rw [listed.list] at hi
          exact List.mem_of_mem_filter hi
  · rintro gone' c ⟨whole, netchan, noted⟩
    have stop : upTo stopAt [] = [] := by cases stopAt <;> rfl
    rw [stop, show unreliables m [] = [] from rfl, List.append_nil] at whole
    exact ⟨whole, netchan, noted⟩

theorem textOf_eq (same : m'.bytes i = m.bytes i) : textOf m' i = textOf m i := by
  rw [textOf, same, textOf]

theorem compressBuffer_tight (input : List UInt8) {out : Sizebuf} (blank : out.data = [])
    (tight : out.maxsize < 3) :
    Returns (fun r => ∀ out', r = some out' → out'.overflowed = true)
      (compressBuffer zlib input out) := by
  simp only [compressBuffer]
  split
  · exact returns_ok fun _ h => by cases h
  split
  · exact returns_ok fun _ h => by cases h
  split
  · exact returns_error _
  rename_i stream _ _
  refine (DatagramSize.writeOrStop_returns _ _).bind fun first h₁ => ?_
  refine (DatagramSize.writeOrStop_returns _ _).bind fun second h₂ => ?_
  obtain ⟨max₁, -, -, -, flag₁⟩ := DatagramSize.szWrite_effect h₁
  obtain ⟨max₂, -, -, -, flag₂⟩ := DatagramSize.szWrite_effect h₂
  have two : (shortBytes stream.length).length = 2 := rfl
  have one : [svcCpacket].length = 1 := rfl
  refine returns_ok ?_
  rintro out' ⟨⟩
  change second.overflowed = true
  rcases flag₂ with spills | ⟨same, length₂, fits⟩
  · exact spills
  · rcases flag₁ with spills | ⟨-, length₁, -⟩
    · exact same.trans spills
    · rw [blank, List.length_nil] at length₁
      omega

/-- A compressed frame, with the messages of `packed` behind it. -/
theorem compressBuffer_framed {packed : List Nat} (written : frames frame)
    (h : Blank client rmessage room d) :
    Returns (fun r => ∀ msg, r = some msg → msg.maxsize = d.msg.maxsize ∧
        msg.buffsize = d.msg.buffsize ∧
          (msg.overflowed = true ∧ (client.messages.list ≠ [] → room < 3) ∨
            msg.overflowed = false ∧ Contents zlib frames client.messages packed msg.data))
      (compressBuffer zlib (frame ++ texts client.messages packed) d.msg) := by
  by_cases tight : d.msg.maxsize < 3
  · have sizes := DatagramSize.compressBuffer_returns zlib (frame ++ texts client.messages packed) h.data
    have overflows := @compressBuffer_tight zlib (frame ++ texts client.messages packed) d.msg h.data tight
    cases run : compressBuffer zlib (frame ++ texts client.messages packed) d.msg with
    | error stop => exact returns_error stop
    | ok r =>
      rw [run] at sizes overflows
      refine returns_ok fun msg some => ?_
      obtain ⟨-, compressed⟩ := sizes msg some
      refine ⟨compressed.maxsize_eq, compressed.buffsize_eq, .inl ⟨overflows msg some, fun nonempty => ?_⟩⟩
      have := h.spared.room_le nonempty
      omega
  · refine (compressBuffer_room _ h.data (Nat.le_of_not_lt tight)).mono fun r hr msg some => ?_
    obtain ⟨stream, inflated, -, -, rfl⟩ := hr msg some
    exact ⟨rfl, rfl, .inr ⟨h.clean, .compressed frame stream packed written inflated⟩⟩

/-- An attempt to compress the frame puts it with some messages, or leaves all of them. -/
theorem putCompressed_attempted (first : First client.messages rmessage)
    (nonempty : Nonempty client.messages) (written : frames frame)
    (h : Blank client rmessage room d) :
    Returns (Attempted zlib frames client rmessage room) (putCompressed zlib frame d) := by
  have listed := h.listed
  obtain ⟨stopAt, appended, -, -⟩ := appendUnreliable_spec listed.readable listed.readable.nodup
    (fun _ hi => hi) frame
  let packed := unreliables d.messages (upTo stopAt d.messages.list)
  have inside : ∀ i ∈ packed, i ∈ d.messages.list ∧ (d.messages.nodes i).reliable = false := by
    intro i hi
    obtain ⟨front, unreliable⟩ := List.mem_filter.mp hi
    refine ⟨?_, by simpa using unreliable⟩
    cases stopAt with
    | none => exact front
    | some j => exact (List.takeWhile_prefix _).subset front
  have same : texts d.messages packed = texts client.messages packed := by
    refine List.flatMap_congr fun i hi => textOf_eq ?_
    exact listed.bytes_unreliable first (inside i hi).1 (inside i hi).2
  have alone : frame ++ texts client.messages [] = frame := List.append_nil frame
  rw [same] at appended
  simp only [putCompressed, appended, bind, Except.bind]
  refine (compressBuffer_framed written h).bind fun r hr => ?_
  cases r with
  | some msg =>
    obtain ⟨maxsize, buffsize, contents⟩ := hr msg rfl
    obtain ⟨⟨control, messages⟩, run, without, netchan, noted⟩ :=
      sweep_deleteUntil first nonempty listed stopAt d.control
    simp only [run]
    refine returns_ok ⟨packed, listed.without without, ?_, h.noted.trans noted, contents⟩
    exact h.spared.of_bytes buffsize maxsize netchan fun i hi =>
      ⟨without.fewer.sub i hi, without.fewer.bytes i hi⟩
  | none =>
    have plain := @compressBuffer_framed zlib client rmessage room d frames frame [] written h
    rw [alone] at plain
    refine plain.bind fun r hr => ?_
    cases r with
    | some msg =>
      obtain ⟨maxsize, buffsize, contents⟩ := hr msg rfl
      refine returns_ok ⟨[], listed, ?_, h.noted, contents⟩
      exact h.spared.of_bytes buffsize maxsize rfl fun i hi => ⟨hi, rfl⟩
    | none => exact putPlain_attempted written h

theorem putAttempt_attempted (first : First client.messages rmessage)
    (nonempty : Nonempty client.messages) (h : Blank client rmessage room d)
    {bytes : Option (List UInt8)} (written : ∀ frame ∈ bytes, frames frame) :
    Returns (Attempted env.zlib frames client rmessage room) (putAttempt env rmessage d bytes) := by
  cases bytes with
  | none => exact returns_ok h
  | some frame =>
    have written := written frame rfl
    simp only [putAttempt, putFrame]
    split
    · refine (returns_any _).bind fun size _ => ?_
      split
      · refine (compressReliable_blank first h).bind fun r hr => ?_
        split
        · exact putCompressed_attempted first nonempty written h
        · have blank := hr _ rfl
          split
          · exact putCompressed_attempted first nonempty written blank
          · exact putPlain_attempted written blank
      · exact putPlain_attempted written h
    · exact putPlain_attempted written h

/-- The frames that the writer of frames may return. -/
def Writes {σ : Type} (write : σ → Nat → Option (Frame σ)) (frame : List UInt8) : Prop :=
  ∃ memory limit attempt, write memory limit = some attempt ∧ attempt.bytes = some frame

/-- The induction is on the attempts: each starts from an empty datagram. -/
theorem retryframe_framed {σ : Type} {write : σ → Nat → Option (Frame σ)}
    (first : First client.messages rmessage) (nonempty : Nonempty client.messages) (fuel : Nat)
    (memory : σ) (newEntities : Nat) (reduced : Bool) (h : Blank client rmessage room d) :
    Returns (fun r => ∃ gone, Framed env.zlib (Writes write) client rmessage room gone r.2)
      (retryframe env write rmessage fuel memory newEntities reduced d) := by
  induction fuel generalizing memory newEntities reduced d with
  | zero => exact returns_error _
  | succ fuel ih =>
    simp only [retryframe]
    cases wrote : write memory newEntities with
    | none => exact returns_error _
    | some attempt =>
      have written : ∀ frame ∈ attempt.bytes, Writes write frame :=
        fun frame hframe => ⟨memory, newEntities, attempt, wrote, hframe⟩
      refine (putAttempt_attempted first nonempty h written).bind ?_
      rintro ⟨d', done⟩ attempted
      cases done with
      | true => exact attempted
      | false =>
        simp only [Bool.false_eq_true, if_false]
        split
        · exact ih _ _ _ attempted
        · obtain ⟨listed, spared, noted, data, clean⟩ := attempted
          refine ⟨[], listed, spared, noted, .inr ⟨clean, ?_⟩⟩
          rw [data]
          exact .nothing

/-! ## The other unreliable messages -/

/-- The messages of `gone'` have been written behind what was there. -/
structure Filled (client : Client) (rmessage : Option Nat) (gone gone' : List Nat) (d d' : Draft) :
    Prop where
  listed : Listed client.messages rmessage (gone ++ gone') d'.messages
  fewer : Fewer d.messages d'.messages
  msg : d'.msg = { d.msg with data := d.msg.data ++ texts client.messages gone' }
  fits : d'.msg.cursize ≤ d'.msg.maxsize
  netchan : d'.control.netchan = d.control.netchan
  noted : Noted client.messages gone' d.control d'.control

/-- What the note of a pass may change. -/
def Notes (m : Messages) (note : Messages → Nat → Control → Control) : Prop :=
  ∀ m' i c, (note m' i c).netchan = c.netchan ∧ (m'.bytes i = m.bytes i → textOf m i ≠ [] →
    ∀ gone c₀, Noted m gone c₀ c → Noted m (gone ++ [i]) c₀ (note m' i c))

theorem notes_noteLayout (m : Messages) : Notes m noteLayout := fun m' i c =>
  ⟨noteLayout_netchan m' i c, fun same nonempty _ _ noted => noteLayout_noted noted same nonempty⟩

theorem notes_nothing (m : Messages) : Notes m fun _ _ c => c := fun _ i _ =>
  ⟨rfl, fun _ _ _ _ noted => ⟨noted.state, noted.layout.imp id fun ⟨j, hj, layout⟩ =>
    ⟨j, List.mem_append_left [i] hj, layout⟩⟩⟩

theorem texts_concat (m : Messages) (l : List Nat) (i : Nat) :
    texts m (l ++ [i]) = texts m l ++ textOf m i := by
  simp only [texts, List.flatMap_append, List.flatMap_cons, List.flatMap_nil, List.append_nil]

/-- A pass over the list takes the messages that it writes off it. -/
theorem fillPass_filled {chosen : Messages → Nat → Bool} {note : Messages → Nat → Control → Control}
    (first : First client.messages rmessage) (nonempty : Nonempty client.messages)
    (notes : Notes client.messages note) (listed : Listed client.messages rmessage gone d.messages)
    (fits : d.msg.cursize ≤ d.msg.maxsize) :
    ∃ d', fillPass chosen note d = .ok d' ∧ ∃ gone', Filled client rmessage gone gone' d d' := by
  let P (gone' : List Nat) (acc : Sizebuf × Control) : Prop :=
    acc.1 = { d.msg with data := d.msg.data ++ texts client.messages gone' } ∧
      acc.1.cursize ≤ d.msg.maxsize ∧ acc.2.netchan = d.control.netchan ∧
        Noted client.messages gone' d.control acc.2
  have start : P [] (d.msg, d.control) := by
    refine ⟨?_, fits, rfl, Noted.refl _ _⟩
    rw [show texts client.messages [] = [] from rfl, List.append_nil]
  have swept : ∃ r, sweep (fill chosen note) d.messages.list (d.msg, d.control) d.messages = .ok r ∧
      ∃ gone', P gone' r.1 ∧ Without d.messages gone' r.2 := by
    refine @sweep_gone d.messages _ (fill chosen note) (fun _ => P) P (d.msg, d.control)
      listed.readable start ?_ fun _ _ own => own
    rintro i rest gone' ⟨msg, control⟩ m' own fewer hi hi'
    obtain ⟨same, inside, netchan, noted⟩ := own
    simp only at same
    subst same
    obtain ⟨bytes, read⟩ := listed.readable.bytes i hi
    simp only [fill]
    split
    · exact ⟨_, rfl, rfl, inside, netchan, noted⟩
    · rename_i skipped
      have flag : (d.messages.nodes i).reliable = false := by
        simp only [Bool.or_eq_true, not_or] at skipped
        rw [← fewer.nodes]
        exact Bool.eq_false_iff.mpr skipped.1
      have unchanged := listed.bytes_unreliable first hi flag
      have read' := (fewer.bytes i hi').trans read
      have own : textOf client.messages i = bytes := textOf_of_bytes (unchanged.symm.trans read)
      simp only [read', bind, Except.bind]
      split
      · exact ⟨_, rfl, rfl, inside, netchan, noted⟩
      · rename_i room
        rw [writeOrStop_fits (Nat.le_of_not_lt room)]
        have listed' : i ∈ client.messages.list := by
          rw [listed.list] at hi
          exact List.mem_of_mem_filter hi
        obtain ⟨kept, noted'⟩ := notes m' i control
        refine ⟨_, rfl, flag, ?_, ?_, kept.trans netchan,
          noted' ((fewer.bytes i hi').trans unchanged) (nonempty i listed') _ _ noted⟩
        · simp only [texts_concat, own, List.append_assoc]
        · simp only [Sizebuf.cursize, List.length_append] at room ⊢
          omega
  obtain ⟨⟨⟨msg, control⟩, messages⟩, run, gone', ⟨same, inside, netchan, noted⟩, without⟩ := swept
  refine ⟨⟨messages, control, msg⟩, ?_, gone', listed.without without, without.fewer, same, ?_,
    netchan, noted⟩
  · simp only [fillPass, run, bind, Except.bind]
  · simp only at same inside ⊢
    rw [same] at inside ⊢
    exact inside

theorem Filled.trans {d' d'' : Draft} {more : List Nat} (h : Filled client rmessage gone gone' d d')
    (k : Filled client rmessage (gone ++ gone') more d' d'') :
    Filled client rmessage gone (gone' ++ more) d d'' where
  listed := by
    rw [← List.append_assoc]
    exact k.listed
  fewer := h.fewer.trans k.fewer
  msg := by
    rw [k.msg, h.msg]
    simp only [texts, List.flatMap_append, List.append_assoc]
  fits := k.fits
  netchan := k.netchan.trans h.netchan
  noted := h.noted.trans k.noted

theorem fillUnreliable_filled (first : First client.messages rmessage)
    (nonempty : Nonempty client.messages) (listed : Listed client.messages rmessage gone d.messages)
    (fits : d.msg.cursize ≤ d.msg.maxsize) :
    ∃ d', fillUnreliable env d = .ok d' ∧ ∃ gone', Filled client rmessage gone gone' d d' := by
  simp only [fillUnreliable]
  split
  · obtain ⟨d', run, gone', filled⟩ := @fillPass_filled client rmessage d gone (goesFirst env.random) _
      first nonempty (notes_nothing client.messages) listed fits
    simp only [run, bind, Except.bind]
    split
    · obtain ⟨d'', run', more, filled'⟩ := @fillPass_filled client rmessage d' (gone ++ gone')
        (fun _ _ => true) _ first nonempty (notes_noteLayout client.messages) filled.listed filled.fits
      exact ⟨d'', run', _, filled.trans filled'⟩
    · exact ⟨d', rfl, gone', filled⟩
  · refine ⟨d, rfl, [], ?_, Fewer.refl listed.readable, ?_, fits, rfl, Noted.refl _ _⟩
    · rw [List.append_nil]
      exact listed
    · rw [show texts client.messages [] = [] from rfl, List.append_nil]

/-- What is left of the list has been looked at: an unreliable message only stays if it is kept. -/
theorem sweep_nukeUnreliable {kept : UInt8 → Bool} (first : First client.messages rmessage)
    (nonempty : Nonempty client.messages)
    (listed : Listed client.messages rmessage gone m) (control : Control) :
    ∃ r, sweep (nukeUnreliable kept) m.list control m = .ok r ∧ ∃ gone',
      Listed client.messages rmessage (gone ++ gone') r.2 ∧ Fewer m r.2 ∧ r.1.netchan = control.netchan ∧
        r.1.state = control.state ∧ r.1.layoutUnreliable = control.layoutUnreliable ∧
          (∀ i ∈ r.2.list, (r.2.nodes i).reliable = false →
            ∃ b, (textOf client.messages i).head? = some b ∧ kept b = true) := by
  let Stays (i : Nat) : Prop := (m.nodes i).reliable = false →
    ∃ b, (textOf client.messages i).head? = some b ∧ kept b = true
  let P (rest gone' : List Nat) (c : Control) : Prop :=
    (∀ i ∈ m.list, i ∉ rest → i ∉ gone' → Stays i) ∧ c.netchan = control.netchan ∧
      c.state = control.state ∧ c.layoutUnreliable = control.layoutUnreliable
  have swept : ∃ r, sweep (nukeUnreliable kept) m.list control m = .ok r ∧
      ∃ gone', P [] gone' r.1 ∧ Without m gone' r.2 := by
    refine @sweep_gone m _ (nukeUnreliable kept) P (P []) control listed.readable
      ⟨fun i hi out => absurd hi out, rfl, rfl, rfl⟩ ?_ fun _ _ own => own
    rintro i rest gone' c m' ⟨stays, same⟩ fewer hi hi'
    simp only [nukeUnreliable]
    split
    · rename_i keeps
      refine ⟨_, rfl, fun j hj out kept' => ?_, same⟩
      by_cases own : j = i
      · subst own
        intro unreliable
        have unchanged := listed.bytes_unreliable first hi unreliable
        rw [listed.list] at hi
        refine ⟨_, head_of_byteAt ((fewer.bytes j hi').trans unchanged)
          (nonempty j (List.mem_of_mem_filter hi)), ?_⟩
        rw [fewer.nodes, unreliable, Bool.false_or] at keeps
        exact keeps
      · exact stays j hj (List.not_mem_cons_of_ne_of_not_mem own out) kept'
    · rename_i drops
      have flag : (m.nodes i).reliable = false := by
        simp only [Bool.or_eq_true, not_or] at drops
        rw [← fewer.nodes]
        exact Bool.eq_false_iff.mpr drops.1
      have left : ∀ j ∈ m.list, j ∉ rest → j ∉ gone' ++ [i] → Stays j := by
        intro j hj out kept'
        rw [List.mem_append, not_or, List.mem_singleton] at kept'
        exact stays j hj (List.not_mem_cons_of_ne_of_not_mem kept'.2 out) kept'.1
      split
      · exact ⟨_, rfl, flag, left, same⟩
      · exact ⟨_, rfl, flag, left, same⟩
  obtain ⟨⟨c, m'⟩, run, gone', ⟨stays, netchan, state, layout⟩, without⟩ := swept
  refine ⟨(c, m'), run, gone', listed.without without, without.fewer, netchan, state, layout,
    fun i hi unreliable => ?_⟩
  have list : m'.list = m.list.filter fun i => !gone'.contains i := without.list
  rw [list] at hi
  obtain ⟨before, remains⟩ := List.mem_filter.mp hi
  refine stays i before List.not_mem_nil (fun out => ?_) (without.fewer.nodes ▸ unreliable)
  rw [List.contains_iff_mem.mpr out] at remains
  cases remains

/-! ## The reliable messages -/

/-- A reliable message has a command, and a print a level and a terminator. -/
def Wellformed (m : Messages) : Prop := ∀ i ∈ m.list, (m.nodes i).reliable = true →
  ∃ b rest, m.bytes i = .ok (b :: rest) ∧ (b = svcPrint → 2 ≤ rest.length)

/-- The first message that was moved is at the front of the channel's message, but for a terminator
that the next one has replaced. -/
structure Begun (m : Messages) (buffSize : Nat) (moved : List Nat) (w : Written) : Prop where
  start : moved = [] → w.message.data = [] ∧ w.lastmsg = none
  head : ∀ i ∈ moved.head?, (textOf m i).length ≤ buffSize ∧
    (textOf m i).length ≤ w.message.data.length ∧ (textOf m i).dropLast <+: w.message.data

variable {buffSize : Nat}

theorem visits_begun (wellformed : Wellformed m) :
    Visits (Begun m buffSize) (textOf m) (reliables m m.list) buffSize := by
  intro moved i rest w m' all begun reliable read limited fits
  obtain ⟨listed, flag⟩ := List.mem_filter.mp
    (all ▸ List.mem_append_right moved List.mem_cons_self : i ∈ reliables m m.list)
  obtain ⟨b, more, own, long⟩ := wellformed i listed flag
  have text := textOf_of_bytes own
  have room : ¬(textOf m i).length + w.message.cursize > w.message.maxsize := by
    rw [limited.maxsize]
    exact Nat.not_lt.mpr fits
  have first : m'.byteAt i 0 = b := by
    rw [byteAt_of_bytes read (by rw [text]; exact Nat.succ_pos _), text]
    rfl
  simp only [writeReliable, reliable, if_true, read, bind, Except.bind, if_neg room]
  cases continues : continuesPrint m' i (textOf m i).length w with
  | true =>
    obtain ⟨p, last, print, -⟩ := continuesPrint_spec continues
    have length : 3 ≤ (textOf m i).length := by
      rw [text, List.length_cons]
      have := long (first.symm.trans print)
      omega
    have started : moved ≠ [] := by
      rintro rfl
      rw [(begun.start rfl).2] at last
      cases last
    have smaller : w.message.data.dropLast.length + ((textOf m i).drop 2).length ≤ buffSize := by
      rw [List.length_dropLast, List.length_drop]
      omega
    simp only [if_true, if_neg (Nat.not_lt.mpr (show 2 ≤ (textOf m i).length by omega))]
    rw [writeOrStop_fits (by
      change w.message.data.dropLast.length + _ ≤ w.message.maxsize
      rw [limited.maxsize]
      exact smaller)]
    refine ⟨_, rfl, ⟨fun none => by simp at none, fun k hk => ?_⟩, ⟨limited.clean, limited.maxsize, ?_⟩,
      rfl⟩
    · rw [List.head?_append_of_ne_nil _ started] at hk
      obtain ⟨small, before, front⟩ := begun.head k hk
      refine ⟨small, ?_, ?_⟩
      · change _ ≤ (w.message.data.dropLast ++ (textOf m i).drop 2).length
        rw [List.length_append, List.length_dropLast, List.length_drop]
        omega
      · have kept : (textOf m k).dropLast <+: w.message.data.dropLast := by
          refine List.prefix_of_prefix_length_le front (List.dropLast_prefix _) ?_
          rw [List.length_dropLast, List.length_dropLast]
          omega
        exact kept.trans (List.prefix_append _ _)
    · change (w.message.data.dropLast ++ _).length ≤ buffSize
      rw [List.length_append]
      exact smaller
  | false =>
    simp only [Bool.false_eq_true, if_false]
    rw [writeOrStop_fits (by omega)]
    refine ⟨_, rfl, ⟨fun none => by simp at none, fun k hk => ?_⟩, ⟨limited.clean, limited.maxsize, ?_⟩,
      rfl⟩
    · change _ ∧ _ ≤ (w.message.data ++ textOf m i).length ∧ _ <+: w.message.data ++ textOf m i
      cases moved with
      | nil =>
        cases hk
        rw [(begun.start rfl).1, List.nil_append]
        exact ⟨by omega, Nat.le_refl _, List.dropLast_prefix _⟩
      | cons j moved =>
        obtain ⟨small, before, front⟩ := begun.head k hk
        refine ⟨small, ?_, front.trans (List.prefix_append _ _)⟩
        rw [List.length_append]
        omega
    · change (w.message.data ++ textOf m i).length ≤ buffSize
      rw [List.length_append]
      omega

theorem firstReliable_eq (m : Messages) : firstReliable m = (reliables m m.list).head? :=
  List.head?_filter.symm

/-- The first reliable message is moved if it fits, and costs the client its place if not. -/
theorem svWriteReliableMessages_first (active : Active client buffSize)
    (wellformed : Wellformed client.messages) (blank : client.control.netchan.message.data = []) :
    ∃ r, svWriteReliableMessages client buffSize = .ok r ∧
      (∀ i ∈ r.messages.list, i ∈ client.messages.list) ∧
      ((∃ message, r.control = setChannelMessage client.control message) ∨
        ∃ message, r.control = { setChannelMessage client.control message with state := .zombie }) ∧
      ∀ i ∈ firstReliable client.messages,
        ((textOf client.messages i).length ≤ buffSize → r.control.state = client.control.state ∧
          i ∉ r.messages.list ∧
            (textOf client.messages i).dropLast <+: r.control.netchan.message.data) ∧
        (buffSize < (textOf client.messages i).length → r.control.state = .zombie) := by
  have reads : ∀ i ∈ client.messages.list, (client.messages.nodes i).reliable = true →
      client.messages.bytes i = .ok (textOf client.messages i) := by
    intro i hi flag
    obtain ⟨b, rest, read, -⟩ := wellformed i hi flag
    rw [read, textOf_of_bytes read]
  have head := firstReliable_eq client.messages
  obtain ⟨r, run, result⟩ := svWriteReliableMessages_sent active reads (visits_begun wellformed)
    ⟨fun _ => ⟨blank, rfl⟩, by rintro _ ⟨⟩⟩ (fun moved rest w all begun empty => by
      refine ⟨?_, blank⟩
      cases moved with
      | nil => rfl
      | cons k moved =>
        obtain ⟨listed, flag⟩ := List.mem_filter.mp
          (all ▸ List.mem_cons_self : k ∈ reliables client.messages client.messages.list)
        obtain ⟨b, more, own, -⟩ := wellformed k listed flag
        have long := (begun.head k rfl).2.1
        rw [empty, textOf_of_bytes own] at long
        cases long)
  refine ⟨r, run, ?_⟩
  rcases result with ⟨dropped, -, k, hk, big⟩ | ⟨moved, rest, sent⟩
  · obtain ⟨message, control⟩ := dropped.control
    refine ⟨dropped.sub, .inr ⟨message, control⟩, fun i hi => ⟨fun small => ?_, fun _ => ?_⟩⟩
    · rw [head] at hi
      cases hi.symm.trans hk
      omega
    · rw [control]
  · obtain ⟨w, begun, control⟩ := sent.control
    refine ⟨sent.fewer.sub, .inl ⟨_, control⟩, fun i hi => ?_⟩
    rw [head, sent.split] at hi
    cases moved with
    | nil =>
      have empty := (begun.start rfl).1
      have started := sent.started (List.ne_nil_of_mem (List.mem_of_head? hi))
      rw [control] at started
      exact absurd empty started
    | cons k moved =>
      obtain rfl : k = i := Option.some.inj hi
      obtain ⟨small, -, front⟩ := begun.head k rfl
      refine ⟨fun _ => ⟨by rw [control]; rfl, fun remains => ?_, by rw [control]; exact front⟩,
        fun big => by omega⟩
      rw [sent.list] at remains
      have out := (List.mem_filter.mp remains).2
      simp at out

theorem Listed.reliables_eq (h : Listed m rmessage gone m') :
    reliables m' m'.list = reliables m m.list := by
  rw [h.list, reliables, reliables, List.filter_filter]
  refine List.filter_congr fun i hi => ?_
  rw [h.reliable]
  cases flag : (m.nodes i).reliable with
  | false => rfl
  | true =>
    have kept : gone.contains i = false := by
      by_contra out
      have unreliable := (List.mem_filter.mp (h.sub i (by simpa using out))).2
      rw [flag] at unreliable
      cases unreliable
    rw [kept]
    rfl

/-- The reliable messages are as they were, but for the first. -/
theorem Listed.wellformed (h : Listed m rmessage gone m') (wellformed : Wellformed m) :
    Wellformed m' := by
  intro i hi flag
  rw [h.reliable] at flag
  have listed := hi
  rw [h.list] at listed
  obtain ⟨b, rest, read, long⟩ := wellformed i (List.mem_of_mem_filter listed) flag
  by_cases own : i ∈ rmessage
  · rcases h.own i own hi with same | ⟨rest', compressed, -⟩
    · exact ⟨b, rest, same.trans read, long⟩
    · exact ⟨svcCpacket, rest', compressed, by rintro ⟨⟩⟩
  · exact ⟨b, rest, (h.others i hi own).trans read, long⟩

theorem reliable_of_first {m : Messages} {i : Nat} (hi : i ∈ firstReliable m) :
    i ∈ m.list ∧ (m.nodes i).reliable = true := by
  have found : m.list.find? (fun i => (m.nodes i).reliable) = some i := hi
  exact ⟨List.mem_of_find?_eq_some found, @List.find?_some _ (fun i => (m.nodes i).reliable) _ _ found⟩

/-! ## A sound that is registered while the frame is built -/

/-- The list after the frame has been built. -/
structure Built (client c : Client) : Prop where
  readable : Readable c.messages
  wellformed : Wellformed c.messages
  nonempty : Nonempty c.messages
  allocated : c.messages.allocated = client.messages.allocated
  state : c.control.state = client.control.state
  netchan : c.control.netchan = client.control.netchan
  flags : ∀ i ∈ client.messages.list, (c.messages.nodes i).reliable = (client.messages.nodes i).reliable

variable {c : Client} {forceReconnect : Bool} {registered : Option Nat}

theorem built_refl (readable : Readable client.messages) (wellformed : Wellformed client.messages)
    (nonempty : Nonempty client.messages) : Built client client :=
  ⟨readable, wellformed, nonempty, rfl, rfl, rfl, fun _ _ => rfl⟩

theorem effect_built (h : ClientInv client) (wellformed : Wellformed client.messages)
    (nonempty : Nonempty client.messages) (inv : ClientInv c)
    (effect : Effect forceReconnect registered client c) : Built client c := by
  cases effect with
  | same unchanged silent =>
    rw [unchanged]
    exact built_refl (readable_of_inv h.messages) wellformed nonempty
  | cleared cleared registers full =>
    have none_of : ∀ i ∈ c.messages.list, False := fun i hi => by
      rw [cleared.list] at hi
      cases hi
    refine ⟨readable_of_inv inv.messages, fun i hi => (none_of i hi).elim,
      fun i hi => (none_of i hi).elim, cleared.allocated, ?_, ?_, fun i _ => ?_⟩
    · rw [cleared.control]
    · rw [cleared.control]
    · rw [cleared.nodes]
  | appended index added registers room =>
    refine ⟨readable_of_inv inv.messages, fun i hi flag => ?_, fun i hi => ?_,
      added.allocated, ?_, ?_, fun i hi => ?_⟩
    · rw [added.list] at hi
      rcases List.mem_append.mp hi with hi | hi
      · rw [added.others hi]
        rw [added.nodes i hi] at flag
        exact wellformed i hi flag
      · rw [List.mem_singleton.mp hi]
        exact ⟨_, _, added.own, by rintro ⟨⟩⟩
    · rw [added.list] at hi
      rcases List.mem_append.mp hi with hi | hi
      · rw [textOf_eq (added.others hi)]
        exact nonempty i hi
      · rw [List.mem_singleton.mp hi, textOf_of_bytes added.own]
        exact List.cons_ne_nil _ _
    · rw [added.control]
    · rw [added.control]
    · rw [added.nodes i hi]

theorem effect_bytes (effect : Effect forceReconnect registered client c) {i : Nat}
    (hi : i ∈ client.messages.list) (listed : i ∈ c.messages.list) :
    c.messages.bytes i = client.messages.bytes i := by
  cases effect with
  | same unchanged silent => rw [unchanged]
  | cleared cleared registers full =>
    rw [cleared.list] at listed
    cases listed
  | appended index added registers room => exact added.others hi

/-- The message for which there is space is in the list, if it has not been cleared. -/
theorem effect_first (effect : Effect forceReconnect registered client c) (built : Built client c)
    (waits : ∀ i ∈ rmessage, i ∈ firstReliable client.messages) : First c.messages rmessage where
  queued := fun i hi nonempty => by
    obtain ⟨listed, -⟩ := reliable_of_first (waits i hi)
    cases effect with
    | same unchanged silent => rwa [unchanged]
    | cleared cleared registers full => exact absurd cleared.list nonempty
    | appended index added registers room =>
      rw [added.list]
      exact List.mem_append_left _ listed
  reliable := fun i hi => by
    obtain ⟨listed, reliable⟩ := reliable_of_first (waits i hi)
    rw [built.flags i listed]
    exact reliable

theorem effect_spared (effect : Effect forceReconnect registered client c) (built : Built client c)
    (waits : ∀ i ∈ rmessage, i ∈ firstReliable client.messages) {msg : Sizebuf} {room' : Nat}
    (spared : Spared client.messages rmessage room ⟨client.messages, client.control, msg⟩)
    (room_le : room' ≤ msg.maxsize) :
    Spared c.messages rmessage room' ⟨c.messages, c.control, msg⟩ where
  buffsize := spared.buffsize
  own := fun i hi listed bytes read => by
    obtain ⟨queued, -⟩ := reliable_of_first (waits i hi)
    exact spared.own i hi queued bytes ((effect_bytes effect queued listed).symm.trans read)
  waiting := fun none => by
    rw [show (⟨c.messages, c.control, msg⟩ : Draft).control.netchan = client.control.netchan from
      built.netchan]
    exact spared.waiting none
  room_le := fun _ => room_le

end DraftMessages
