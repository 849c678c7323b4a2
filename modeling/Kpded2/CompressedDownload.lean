import Mathlib.Data.List.TakeDrop
import Mathlib.Data.Nat.ModEq

/-!
# The compression of a download

A thread reads the file of a client through a copy of its descriptor, while the offset was set
through the `FILE`. What `read` delivers goes to `deflate`, and the output to a buffer of the size of
the rest. The compressor is not part of the program: it takes all of its input, keeps to the room that
it is given, and what it has written when it ends a stream inflates to what it has read.
-/
namespace CompressedDownload

/-! ## The compressor -/

inductive Flush
  | noFlush | partialFlush | finish
  deriving DecidableEq

def zStreamEnd : Int := 1

/-- A stream, with the input and the room of a call: the output and the returned code. -/
structure Stream where
  State : Type
  deflateInit : State
  deflate : State → Flush → List UInt8 → Nat → State × List UInt8 × Int
  inflate : List UInt8 → Option (List UInt8)

/-- `Trace z s input output`: calls that lead to `s` have read the one and written the other. -/
inductive Trace (z : Stream) : z.State → List UInt8 → List UInt8 → Prop
  | init : Trace z z.deflateInit [] []
  | call {s : z.State} {input output : List UInt8} (earlier : Trace z s input output)
      (flush : Flush) (more : List UInt8) (room : Nat) :
      Trace z (z.deflate s flush more room).1 (input ++ more)
        (output ++ (z.deflate s flush more room).2.1)

structure Compressor extends Stream where
  bounded : ∀ s flush input room, (deflate s flush input room).2.1.length ≤ room
  ends : ∀ s input output flush more room, Trace toStream s input output →
    (deflate s flush more room).2.2 = zStreamEnd →
      inflate (output ++ (deflate s flush more room).2.1) = some (input ++ more)

/-! ## The file -/

/-- The bytes under an open `FILE`, which may be a part of a pak, its position and the position of
its descriptor. -/
structure File where
  bytes : List UInt8
  pos : Nat
  fd : Nat

/-- `lands` is where the descriptor is left. -/
def fseek (f : File) (offset lands : Nat) : File := { f with pos := offset, fd := lands }

/-- `read`: `size` is what the system is ready to deliver, and nothing stands for a failure, too. -/
def read (bytes : List UInt8) (fd count size : Nat) : List UInt8 :=
  (bytes.drop fd).take (min size count)

/-- A download that is compressed: what `FS_FOpenFile` opened, where `fseek` leaves the descriptor,
the results of `read`, and what the new buffers hold. Only large files are compressed. -/
structure Job where
  opened : File
  lands : Nat
  size : Nat
  offset : Nat
  large : offset + 100000 ≤ size
  sizes : List Nat
  stack : List UInt8
  stackSize : stack.length = 0x4000
  alloc : List UInt8
  allocSize : alloc.length = size - offset

def Job.downloadstart (j : Job) : Nat := j.opened.pos

/-- The start of the download. -/
def Job.download (j : Job) : File :=
  if j.offset = 0 then j.opened else fseek j.opened (j.downloadstart + j.offset) j.lands

/-! ## The thread -/

/-- `z_stream` with its buffer, the array `buf`, the descriptor and the bytes that are left. -/
structure Worker (State : Type) where
  zs : State
  nextIn : Bool
  availOut : Nat
  totalOut : Nat
  compbuf : List UInt8
  buf : List UInt8
  fd : Nat
  c : Nat
  comperr : Int := 0

/-- The input of a call. `none` is a read outside of the array. -/
def slice (buf : List UInt8) (start n : Nat) : Option (List UInt8) :=
  if start + n ≤ buf.length then some ((buf.drop start).take n) else none

/-- The output goes behind what is written. -/
def Worker.put {State : Type} (w : Worker State) (zs : State) (output : List UInt8) : Worker State :=
  { w with
    zs
    availOut := w.availOut - output.length
    totalOut := w.totalOut + output.length
    compbuf := w.compbuf.take w.totalOut ++ output ++ w.compbuf.drop (w.totalOut + output.length) }

/-- `none` is a write outside of the buffer. -/
def deflate (z : Stream) (flush : Flush) (input : List UInt8) (w : Worker z.State) :
    Option (Int × Worker z.State) :=
  let (zs, output, r) := z.deflate w.zs flush input w.availOut
  if w.totalOut + output.length ≤ w.compbuf.length then some (r, w.put zs output) else none

/-- What is done with a block. The first one is taken in two parts, and the length of the second
is an unsigned number. -/
def block (z : Stream) (r : Nat) (w : Worker z.State) : Option (Int × Worker z.State) :=
  if w.nextIn then do
    let input ← slice w.buf 0 r
    deflate z .noFlush input w
  else do
    let input ← slice w.buf 0 1024
    let (_, w) ← deflate z .partialFlush input { w with nextIn := true }
    let input ← slice w.buf 1024 (((r : Int) - 1024) % 2 ^ 32).toNat
    deflate z .noFlush input w

/-- A block is read into `buf`. -/
def Worker.take {State : Type} (w : Worker State) (data : List UInt8) : Worker State :=
  { w with buf := data ++ w.buf.drop data.length, fd := w.fd + data.length, c := w.c - data.length }

/-- The loop, with one size for each `read`. -/
def loop (z : Stream) (bytes : List UInt8) : List Nat → Worker z.State → Option (Worker z.State)
  | [], w => some w
  | size :: sizes, w =>
    let data := read bytes w.fd (min w.c 0x4000) size
    if data = [] then some w
    else
      match block z data.length (w.take data) with
      | none => none
      | some (r, w) =>
        if r ≠ 0 ∨ w.availOut = 0 then some { w with comperr := r }
        else if w.c > 0 then loop z bytes sizes w
        else some w

structure Cached where
  compsize : Nat
  compbuf : List UInt8
  comperr : Int

/-- Behind the loop. -/
def close (z : Stream) (w : Worker z.State) : Option Cached :=
  if w.c = 0 then
    match deflate z .finish [] w with
    | none => none
    | some (r, w') =>
      some { compsize := if r = zStreamEnd then w'.totalOut else 0, compbuf := w'.compbuf
             comperr := w.comperr }
  else some { compsize := 0, compbuf := w.compbuf, comperr := w.comperr }

def Job.worker (j : Job) (z : Stream) : Worker z.State where
  zs := z.deflateInit
  nextIn := false
  availOut := j.size - j.offset - 1
  totalOut := 0
  compbuf := j.alloc
  buf := j.stack
  fd := j.download.fd
  c := j.size - j.offset

def cacheDownload (z : Stream) (j : Job) : Option Cached :=
  (loop z j.opened.bytes j.sizes (j.worker z)).bind (close z)

/-! ## What is promised -/

def bytesAt (bytes : List UInt8) (start n : Nat) : List UInt8 := (bytes.drop start).take n

/-- The rest of the file from the offset on. -/
def Job.rest (j : Job) : List UInt8 :=
  bytesAt j.opened.bytes (j.downloadstart + j.offset) (j.size - j.offset)

/-- The thread stays inside its buffers, and what it reports inflates to the rest of the file. -/
def Meets (z : Compressor) (j : Job) : Prop :=
  ∃ d, cacheDownload z.toStream j = some d ∧
    (d.compsize > 0 → z.inflate (d.compbuf.take d.compsize) = some j.rest)

/-- The bytes that one `read` delivers, of those that are `left` behind the descriptor. -/
def delivered (left c size : Nat) : Nat := min (min size (min c 0x4000)) left

/-- Whether the reads deliver all of `c` bytes. -/
def delivers : List Nat → Nat → Nat → Bool
  | [], _, _ => false
  | size :: sizes, left, c =>
    let r := delivered left c size
    if r = 0 then false else if c - r = 0 then true else delivers sizes (left - r) (c - r)

/-- The bytes behind the descriptor. -/
def Job.left (j : Job) : Nat := j.opened.bytes.length - j.download.fd

/-- The first `read` delivers nothing or enough for the first part, and the descriptor stands where the
bytes are those of the rest, if it delivers as many. -/
structure Sound (j : Job) : Prop where
  first : ∀ size ∈ j.sizes.head?, delivered j.left (j.size - j.offset) size = 0 ∨
    1024 ≤ delivered j.left (j.size - j.offset) size
  source : delivers j.sizes j.left (j.size - j.offset) = true →
    bytesAt j.opened.bytes j.download.fd (j.size - j.offset) = j.rest

/-! ## One call -/

variable {z : Compressor} {input : List UInt8}

/-- What has been written is at the start of the buffer, and there is as much room as is said. -/
structure Written (z : Stream) (w : Worker z.State) (input : List UInt8) : Prop where
  trace : Trace z w.zs input (w.compbuf.take w.totalOut)
  room : w.totalOut + w.availOut ≤ w.compbuf.length

theorem take_put {State : Type} {w : Worker State} (zs : State) (output : List UInt8)
    (room : w.totalOut ≤ w.compbuf.length) :
    (w.put zs output).compbuf.take (w.put zs output).totalOut =
      w.compbuf.take w.totalOut ++ output := by
  have length : (w.compbuf.take w.totalOut ++ output).length = w.totalOut + output.length := by
    rw [List.length_append, List.length_take, min_eq_left room]
  exact List.take_left' length

theorem deflate_eq {w : Worker z.State} (h : Written z.toStream w input) (flush : Flush)
    (more : List UInt8) :
    deflate z.toStream flush more w =
      some ((z.deflate w.zs flush more w.availOut).2.2,
        w.put (z.deflate w.zs flush more w.availOut).1 (z.deflate w.zs flush more w.availOut).2.1) := by
  have bound := z.bounded w.zs flush more w.availOut
  have room := h.room
  have fits : w.totalOut + (z.deflate w.zs flush more w.availOut).2.1.length ≤ w.compbuf.length := by
    omega
  exact if_pos fits

theorem Written.put {w : Worker z.State} (h : Written z.toStream w input) (flush : Flush)
    (more : List UInt8) :
    Written z.toStream (w.put (z.deflate w.zs flush more w.availOut).1
      (z.deflate w.zs flush more w.availOut).2.1) (input ++ more) := by
  have bound := z.bounded w.zs flush more w.availOut
  have room := h.room
  constructor
  · rw [take_put _ _ (by omega)]
    exact h.trace.call flush more w.availOut
  · simp only [Worker.put, List.length_append, List.length_take, List.length_drop]
    omega

/-- When a stream ends, the buffer inflates to the input. -/
theorem inflate_put {w : Worker z.State} (h : Written z.toStream w input) {flush : Flush}
    {more : List UInt8} (ended : (z.deflate w.zs flush more w.availOut).2.2 = zStreamEnd) :
    z.inflate ((w.put (z.deflate w.zs flush more w.availOut).1
      (z.deflate w.zs flush more w.availOut).2.1).compbuf.take
        (w.put (z.deflate w.zs flush more w.availOut).1
          (z.deflate w.zs flush more w.availOut).2.1).totalOut) = some (input ++ more) := by
  have room := h.room
  rw [take_put _ _ (by omega)]
  exact z.ends _ _ _ flush more _ h.trace ended

/-- A compressor that takes its input without a word until the stream is to end. -/
structure Quiet (z : Stream) (live : z.State → List UInt8 → Prop) : Prop where
  quiet : ∀ s input flush more room, flush ≠ .finish → live s input →
    (z.deflate s flush more room).2 = ([], 0)
  live : ∀ s input flush more room, flush ≠ .finish → live s input →
    live (z.deflate s flush more room).1 (input ++ more)

/-- A step from one worker to another with the same file, behind more input. -/
structure Taken (z : Stream) (w w' : Worker z.State) (input more : List UInt8) (r : Int) : Prop where
  written : Written z w' (input ++ more)
  buf : w'.buf = w.buf
  fd : w'.fd = w.fd
  c : w'.c = w.c
  quiet : ∀ live, Quiet z live → live w.zs input →
    r = 0 ∧ w'.availOut = w.availOut ∧ w'.totalOut = w.totalOut ∧ live w'.zs (input ++ more)

theorem deflate_taken {w : Worker z.State} (h : Written z.toStream w input) {flush : Flush}
    (notLast : flush ≠ .finish) (more : List UInt8) :
    ∃ r w', deflate z.toStream flush more w = some (r, w') ∧ w'.nextIn = w.nextIn ∧
      Taken z.toStream w w' input more r := by
  refine ⟨_, _, deflate_eq h flush more, rfl, h.put flush more, rfl, rfl, rfl, fun live quiet own => ?_⟩
  have silent := quiet.quiet w.zs input flush more w.availOut notLast own
  refine ⟨congrArg Prod.snd silent, ?_, ?_, quiet.live _ _ _ _ _ notLast own⟩
  · simp only [Worker.put, silent, List.length_nil, Nat.sub_zero]
  · simp only [Worker.put, silent, List.length_nil, Nat.add_zero]

theorem Taken.trans {w₁ w₂ w₃ : Worker z.State} {more₁ more₂ : List UInt8} {r₁ r₂ : Int}
    (h₁ : Taken z.toStream w₁ w₂ input more₁ r₁)
    (h₂ : Taken z.toStream w₂ w₃ (input ++ more₁) more₂ r₂) :
    Taken z.toStream w₁ w₃ input (more₁ ++ more₂) r₂ where
  written := by
    rw [← List.append_assoc]
    exact h₂.written
  buf := h₂.buf.trans h₁.buf
  fd := h₂.fd.trans h₁.fd
  c := h₂.c.trans h₁.c
  quiet live quiet own := by
    obtain ⟨-, avail₁, total₁, live₁⟩ := h₁.quiet live quiet own
    obtain ⟨r, avail₂, total₂, live₂⟩ := h₂.quiet live quiet live₁
    rw [← List.append_assoc]
    exact ⟨r, avail₂.trans avail₁, total₂.trans total₁, live₂⟩

/-! ## A block -/

theorem slice_eq {buf data behind : List UInt8} (hbuf : buf = data ++ behind) {start n : Nat}
    (inside : start + n ≤ data.length) : slice buf start n = some ((data.drop start).take n) := by
  have whole : start + n ≤ buf.length := by
    rw [hbuf, List.length_append]
    omega
  rw [slice, if_pos whole, hbuf, List.drop_append_of_le_length (by omega),
    List.take_append_of_le_length (by rw [List.length_drop]; omega)]

/-- A block that is long enough is taken by the stream. -/
theorem block_taken {w : Worker z.State} (h : Written z.toStream w input) {data behind : List UInt8}
    (buf : w.buf = data ++ behind) (long : w.nextIn = true ∨ 1024 ≤ data.length)
    (short : data.length ≤ 0x4000) :
    ∃ r w', block z.toStream data.length w = some (r, w') ∧ w'.nextIn = true ∧
      Taken z.toStream w w' input data r := by
  rw [block]
  split
  · rename_i later
    have all := slice_eq buf (show 0 + data.length ≤ data.length by omega)
    rw [List.drop_zero, List.take_length] at all
    obtain ⟨r, w', run, nextIn, taken⟩ := @deflate_taken z input w h .noFlush (by decide) data
    rw [all]
    exact ⟨r, w', run, nextIn.trans later, taken⟩
  · rename_i first
    have long := long.resolve_left first
    have start : Written z.toStream { w with nextIn := true } input := ⟨h.trace, h.room⟩
    have front := slice_eq buf (show 0 + 1024 ≤ data.length by omega)
    obtain ⟨r₁, w₁, run₁, nextIn₁, taken₁⟩ :=
      @deflate_taken z input _ start .partialFlush (by decide) ((data.drop 0).take 1024)
    have count : (((data.length : Nat) : Int) - 1024) % 2 ^ 32 = ((data.length - 1024 : Nat) : Int) := by
      omega
    have back := slice_eq (taken₁.buf.trans buf) (show 1024 + (data.length - 1024) ≤ data.length by omega)
    obtain ⟨r₂, w₂, run₂, nextIn₂, taken₂⟩ := @deflate_taken z _ w₁ taken₁.written .noFlush
      (by decide) ((data.drop 1024).take (data.length - 1024))
    have both : (data.drop 0).take 1024 ++ (data.drop 1024).take (data.length - 1024) = data := by
      have whole : (data.drop 1024).take (data.length - 1024) = data.drop 1024 :=
        List.take_of_length_le (by rw [List.length_drop])
      rw [List.drop_zero, whole, List.take_append_drop]
    have taken := taken₁.trans taken₂
    rw [both] at taken
    simp only [front, run₁, Option.bind_eq_bind, Option.bind_some, count, Int.toNat_natCast, back]
    exact ⟨r₂, w₂, run₂, nextIn₂.trans nextIn₁, taken.written, taken.buf, taken.fd, taken.c,
      taken.quiet⟩

/-! ## The loop -/

theorem length_read (bytes : List UInt8) (fd c size : Nat) :
    (read bytes fd (min c 0x4000) size).length = delivered (bytes.length - fd) c size := by
  rw [read, List.length_take, List.length_drop, delivered]

/-- How far the thread is in the file: `input` is what it has read behind `start`. -/
structure Reading (bytes : List UInt8) (start total : Nat) {State : Type} (w : Worker State)
    (input : List UInt8) : Prop where
  data : input <+: bytes.drop start
  fd : w.fd = start + input.length
  c : w.c + input.length = total
  buf : w.buf.length = 0x4000

variable {bytes : List UInt8} {start total : Nat}

theorem Reading.take {State : Type} {w : Worker State} (h : Reading bytes start total w input)
    (size : Nat) :
    Reading bytes start total (w.take (read bytes w.fd (min w.c 0x4000) size))
      (input ++ read bytes w.fd (min w.c 0x4000) size) := by
  have length := length_read bytes w.fd w.c size
  have hfd := h.fd
  have hc := h.c
  have hbuf := h.buf
  have atMost : delivered (bytes.length - w.fd) w.c size ≤ w.c ∧
      delivered (bytes.length - w.fd) w.c size ≤ 0x4000 := by
    rw [delivered]
    omega
  refine ⟨?_, ?_, ?_, ?_⟩
  · obtain ⟨rest, hrest⟩ := h.data
    have here : bytes.drop w.fd = rest := by
      rw [hfd, ← List.drop_drop, ← hrest, List.drop_left]
    rw [read, here, ← hrest, List.prefix_append_right_inj]
    exact List.take_prefix _ _
  · simp only [Worker.take, List.length_append]
    omega
  · simp only [Worker.take, List.length_append, length]
    omega
  · simp only [Worker.take, List.length_append, List.length_drop, length]
    omega

/-- What is asked of the first `read`. -/
def FirstRead (left c : Nat) (sizes : List Nat) : Prop :=
  ∀ size ∈ sizes.head?, delivered left c size = 0 ∨ 1024 ≤ delivered left c size

/-- The loop stays inside its buffers and counts what it reads; it ends with nothing left only if the
reads deliver everything, and then always, if the compressor does not stop it. -/
structure Looped (z : Stream) (bytes : List UInt8) (start total : Nat) (sizes : List Nat)
    (w w' : Worker z.State) (input : List UInt8) : Prop where
  written : ∃ input', Written z w' input' ∧ Reading bytes start total w' input' ∧
    ∀ live, Quiet z live → live w.zs input → 0 < w.availOut →
      delivers sizes (bytes.length - w.fd) w.c = true →
        w'.c = 0 ∧ w'.availOut = w.availOut ∧ w'.totalOut = w.totalOut ∧ live w'.zs input'
  done : w'.c = 0 → delivers sizes (bytes.length - w.fd) w.c = true

theorem delivers_cons {left c size : Nat} (some : delivered left c size ≠ 0) (sizes : List Nat) :
    delivers (size :: sizes) left c =
      if c - delivered left c size = 0 then true
      else delivers sizes (left - delivered left c size) (c - delivered left c size) :=
  if_neg some

theorem Reading.of_taken {w w' : Worker z.State} {data more : List UInt8} {r : Int}
    (h : Reading bytes start total w data) (taken : Taken z.toStream w w' input more r) :
    Reading bytes start total w' data where
  data := h.data
  fd := taken.fd.trans h.fd
  c := taken.c ▸ h.c
  buf := taken.buf ▸ h.buf

/-- The loop hands the whole file to the stream, block by block. -/
theorem loop_looped {sizes : List Nat} {w : Worker z.State} (written : Written z.toStream w input)
    (reading : Reading bytes start total w input) (more : 0 < w.c)
    (first : w.nextIn = true ∨ FirstRead (bytes.length - w.fd) w.c sizes) :
    ∃ w', loop z.toStream bytes sizes w = some w' ∧
      Looped z.toStream bytes start total sizes w w' input := by
  induction sizes generalizing w input with
  | nil =>
    refine ⟨w, rfl, ⟨input, written, reading, fun live quiet own room all => ?_⟩, fun none => ?_⟩
    · cases all
    · omega
  | cons size sizes ih =>
    rw [loop]
    have length := length_read bytes w.fd w.c size
    by_cases empty : read bytes w.fd (min w.c 0x4000) size = []
    · rw [if_pos empty]
      have zero : delivered (bytes.length - w.fd) w.c size = 0 := by
        rw [← length, empty, List.length_nil]
      refine ⟨w, rfl, ⟨input, written, reading, fun live quiet own room all => ?_⟩, fun none => ?_⟩
      · rw [delivers] at all
        simp only [zero, if_true] at all
        cases all
      · omega
    · rw [if_neg empty]
      have some : delivered (bytes.length - w.fd) w.c size ≠ 0 := by
        rw [← length]
        exact (List.length_pos_iff.mpr empty).ne'
      have next := reading.take size
      have long : w.nextIn = true ∨ 1024 ≤ (read bytes w.fd (min w.c 0x4000) size).length := by
        rcases first with later | first
        · exact Or.inl later
        · right
          rw [length]
          exact (first size rfl).resolve_left some
      have atMost : (read bytes w.fd (min w.c 0x4000) size).length ≤ 0x4000 := by
        rw [length, delivered]
        omega
      generalize hdata : read bytes w.fd (min w.c 0x4000) size = data at *
      obtain ⟨r, w₁, run, nextIn, taken⟩ := block_taken (w := w.take data)
        (⟨written.trace, written.room⟩ : Written z.toStream (w.take data) input) rfl long atMost
      have reading₁ := next.of_taken taken
      have c₁ : w₁.c = w.c - delivered (bytes.length - w.fd) w.c size := by
        rw [taken.c, ← length]
        rfl
      have left₁ : bytes.length - w₁.fd =
          bytes.length - w.fd - delivered (bytes.length - w.fd) w.c size := by
        rw [taken.fd, ← length, Nat.sub_sub]
        rfl
      have ended : w₁.c = 0 → delivers (size :: sizes) (bytes.length - w.fd) w.c = true := by
        intro none
        rw [delivers_cons some, ← c₁, if_pos none]
      rw [run]
      simp only
      split
      · rename_i stop
        refine ⟨_, rfl, ⟨input ++ data, ⟨taken.written.trace, taken.written.room⟩,
          ⟨reading₁.data, reading₁.fd, reading₁.c, reading₁.buf⟩, ?_⟩, ended⟩
        intro live quiet own room all
        obtain ⟨zero, avail, -, -⟩ := taken.quiet live quiet own
        rcases stop with stop | stop
        · exact absurd zero stop
        · rw [avail] at stop
          exact absurd stop room.ne'
      · split
        · rename_i more₁
          obtain ⟨w', run', looped⟩ := ih taken.written reading₁ more₁ (Or.inl nextIn)
          have same : delivers (size :: sizes) (bytes.length - w.fd) w.c =
              delivers sizes (bytes.length - w₁.fd) w₁.c := by
            rw [delivers_cons some, ← c₁, if_neg more₁.ne', left₁]
          obtain ⟨input', written', reading', quiet'⟩ := looped.written
          refine ⟨w', run', ⟨input', written', reading', fun live quiet own room all => ?_⟩, ?_⟩
          · obtain ⟨-, avail, totalOut, own₁⟩ := taken.quiet live quiet own
            obtain ⟨c, avail', totalOut', own'⟩ := quiet' live quiet own₁ (avail ▸ room) (same ▸ all)
            exact ⟨c, avail'.trans avail, totalOut'.trans totalOut, own'⟩
          · rw [same]
            exact looped.done
        · rename_i stop none
          refine ⟨w₁, rfl, ⟨input ++ data, taken.written, reading₁, fun live quiet own room all => ?_⟩,
            ended⟩
          obtain ⟨-, avail, totalOut, own₁⟩ := taken.quiet live quiet own
          exact ⟨Nat.eq_zero_of_not_pos none, avail, totalOut, own₁⟩

/-! ## The thread -/

variable {j : Job}

theorem Job.written (j : Job) (z : Compressor) :
    Written z.toStream (j.worker z.toStream) [] := by
  have alloc := j.allocSize
  have large := j.large
  refine ⟨Trace.init, ?_⟩
  simp only [Job.worker]
  omega

theorem Job.reading (j : Job) (z : Compressor) :
    Reading j.opened.bytes j.download.fd (j.size - j.offset) (j.worker z.toStream) [] :=
  ⟨List.nil_prefix, rfl, rfl, j.stackSize⟩

theorem Reading.all {State : Type} {w : Worker State} (h : Reading bytes start total w input)
    (none : w.c = 0) : input = bytesAt bytes start total := by
  have hc := h.c
  have length : input.length = total := by omega
  rw [bytesAt, ← length]
  exact List.prefix_iff_eq_take.mp h.data

theorem meets_of_sound (h : Sound j) (z : Compressor) : Meets z j := by
  have large := j.large
  obtain ⟨w, run, looped⟩ := loop_looped (j.written z) (j.reading z)
    (show 0 < j.size - j.offset by omega) (Or.inr h.first)
  obtain ⟨input, written, reading, -⟩ := looped.written
  rw [Meets, cacheDownload, run, Option.bind_some, close]
  split
  · rename_i none
    rw [deflate_eq written .finish []]
    refine ⟨_, rfl, fun reported => ?_⟩
    simp only at reported ⊢
    split at reported
    · rename_i ended
      rw [if_pos ended, inflate_put written ended, List.append_nil, reading.all none,
        h.source (looped.done none)]
    · exact absurd reported (lt_irrefl 0)
  · exact ⟨_, rfl, fun reported => absurd reported (lt_irrefl 0)⟩

theorem loop_of_stuck {w : Worker z.State} {size : Nat} {sizes : List Nat}
    (some : read bytes w.fd (min w.c 0x4000) size ≠ [])
    (stuck : block z.toStream (read bytes w.fd (min w.c 0x4000) size).length
      (w.take (read bytes w.fd (min w.c 0x4000) size)) = none) :
    loop z.toStream bytes (size :: sizes) w = none := by
  rw [loop, if_neg some, stuck]

/-- A first block that is too short makes the thread read outside of its array. -/
theorem block_short {w : Worker z.State} (h : Written z.toStream w input) (first : w.nextIn = false)
    (buf : w.buf.length = 0x4000) {r : Nat} (some : 0 < r) (short : r < 1024) :
    block z.toStream r w = none := by
  have start : Written z.toStream { w with nextIn := true } input := ⟨h.trace, h.room⟩
  have front : slice w.buf 0 1024 = Option.some ((w.buf.drop 0).take 1024) :=
    if_pos (by omega)
  obtain ⟨r₁, w₁, run₁, -, taken₁⟩ :=
    @deflate_taken z input _ start .partialFlush (by decide) ((w.buf.drop 0).take 1024)
  have back : slice w₁.buf 1024 (((r : Int) - 1024) % 2 ^ 32).toNat = none := by
    rw [taken₁.buf]
    refine if_neg ?_
    simp only [buf]
    omega
  rw [block, first, if_neg Bool.false_ne_true]
  simp only [front, run₁, Option.bind_eq_bind, Option.bind_some, back, Option.bind_none]

def pack (x input : List UInt8) : List UInt8 := if input = x then [1] else 0 :: input

def unpack (x : List UInt8) : List UInt8 → Option (List UInt8)
  | [] => none
  | c :: s => some (if c = 1 then x else s)

theorem unpack_pack (x input : List UInt8) : unpack x (pack x input) = some input := by
  rw [pack]
  split
  · rename_i known
    exact congrArg some known.symm
  · rfl

/-- A compressor that knows one input by heart. -/
def packer (x : List UInt8) : Stream where
  State := Option (List UInt8)
  deflateInit := some []
  deflate s flush more room :=
    match s, flush with
    | some input, .finish =>
      if (pack x (input ++ more)).length ≤ room then (none, pack x (input ++ more), zStreamEnd)
      else (some (input ++ more), [], 0)
    | some input, _ => (some (input ++ more), [], 0)
    | none, _ => (none, [], -2)
  inflate := unpack x

theorem packer_trace {x input output : List UInt8} {s : (packer x).State}
    (h : Trace (packer x) s input output) : s = none ∨ (s = some input ∧ output = []) := by
  induction h with
  | init => exact Or.inr ⟨rfl, rfl⟩
  | @call s input output earlier flush more room ih =>
    rcases ih with rfl | ⟨rfl, rfl⟩
    · exact Or.inl rfl
    · cases flush with
      | noFlush => exact Or.inr ⟨rfl, rfl⟩
      | partialFlush => exact Or.inr ⟨rfl, rfl⟩
      | finish =>
        simp only [packer]
        split
        · exact Or.inl rfl
        · exact Or.inr ⟨rfl, rfl⟩

def packerCompressor (x : List UInt8) : Compressor where
  toStream := packer x
  bounded s flush input room := by
    cases s with
    | none => exact Nat.zero_le _
    | some known =>
      cases flush with
      | noFlush => exact Nat.zero_le _
      | partialFlush => exact Nat.zero_le _
      | finish =>
        simp only [packer]
        split
        · assumption
        · exact Nat.zero_le _
  ends s input output flush more room trace ended := by
    rcases packer_trace trace with rfl | ⟨rfl, rfl⟩
    · exact absurd ended (show ¬(-2 : Int) = 1 by decide)
    · cases flush with
      | noFlush => exact absurd ended (show ¬(0 : Int) = 1 by decide)
      | partialFlush => exact absurd ended (show ¬(0 : Int) = 1 by decide)
      | finish =>
        simp only [packer] at ended ⊢
        split at ended
        · rename_i fits
          rw [if_pos fits]
          exact unpack_pack x (input ++ more)
        · exact absurd ended (show ¬(0 : Int) = 1 by decide)

theorem packer_quiet (x : List UInt8) : Quiet (packer x) fun s input => s = some input where
  quiet s input flush more room other own := by
    subst own
    cases flush with
    | noFlush => rfl
    | partialFlush => rfl
    | finish => exact absurd rfl other
  live s input flush more room other own := by
    subst own
    cases flush with
    | noFlush => rfl
    | partialFlush => rfl
    | finish => exact absurd rfl other

theorem first_of_meets (h : ∀ z, Meets z j) : FirstRead j.left (j.size - j.offset) j.sizes := by
  intro size hsize
  by_contra short
  rw [not_or] at short
  obtain ⟨sizes, hsizes⟩ : ∃ sizes, j.sizes = size :: sizes := by
    cases hj : j.sizes with
    | nil => rw [hj] at hsize; cases hsize
    | cons head sizes => rw [hj] at hsize; cases hsize; exact ⟨sizes, rfl⟩
  have z : Compressor := packerCompressor []
  obtain ⟨d, run, -⟩ := h z
  have length := length_read j.opened.bytes j.download.fd (j.size - j.offset) size
  have written : Written z.toStream ((j.worker z.toStream).take
      (read j.opened.bytes j.download.fd (min (j.size - j.offset) 0x4000) size)) [] :=
    ⟨(j.written z).trace, (j.written z).room⟩
  have stuck := block_short written rfl ((j.reading z).take size).buf
    (Nat.pos_of_ne_zero short.1) (not_le.mp short.2)
  have some : read j.opened.bytes j.download.fd (min (j.size - j.offset) 0x4000) size ≠ [] := by
    intro empty
    rw [empty, List.length_nil] at length
    exact short.1 length.symm
  have same : delivered j.left (j.size - j.offset) size =
      (read j.opened.bytes j.download.fd (min (j.size - j.offset) 0x4000) size).length := length.symm
  rw [same] at stuck
  rw [cacheDownload, hsizes, loop_of_stuck some stuck] at run
  cases run

theorem source_of_meets (h : ∀ z, Meets z j)
    (all : delivers j.sizes j.left (j.size - j.offset) = true) :
    bytesAt j.opened.bytes j.download.fd (j.size - j.offset) = j.rest := by
  have large := j.large
  have alloc := j.allocSize
  obtain ⟨d, run, inflates⟩ :=
    h (packerCompressor (bytesAt j.opened.bytes j.download.fd (j.size - j.offset)))
  generalize hx : bytesAt j.opened.bytes j.download.fd (j.size - j.offset) = x at *
  obtain ⟨w, hloop, looped⟩ := loop_looped (j.written (packerCompressor x))
    (j.reading (packerCompressor x)) (show 0 < j.size - j.offset by omega)
    (Or.inr (first_of_meets h))
  obtain ⟨input, written, reading, quiet⟩ := looped.written
  obtain ⟨none, avail, totalOut, live⟩ := quiet _ (packer_quiet x) rfl
    (show 0 < j.size - j.offset - 1 by omega) all
  have known := (reading.all none).trans hx
  subst known
  have last : (packerCompressor input).deflate w.zs .finish [] w.availOut =
      (Option.none, [1], zStreamEnd) := by
    have room : 1 ≤ w.availOut := by
      rw [avail]
      show 1 ≤ j.size - j.offset - 1
      omega
    rw [live]
    simp only [packerCompressor, packer, pack, List.append_nil, if_true, List.length_singleton,
      if_pos room]
  have ended := congrArg (fun r => r.2.2) last
  rw [cacheDownload, hloop, Option.bind_some, close, if_pos none, deflate_eq written] at run
  simp only [ended, if_true] at run
  obtain rfl := Option.some.inj run
  have whole := inflates (by simp only [Worker.put, last, List.length_singleton]; omega)
  simp only at whole
  rw [inflate_put written ended, List.append_nil] at whole
  exact Option.some.inj whole

/-- Whatever the compressor is, what a thread reports inflates to the rest of the file, if and only if
the first block is not cut short and the descriptor stands in the right place. -/
theorem compressed_iff (j : Job) : (∀ z : Compressor, Meets z j) ↔ Sound j := by
  constructor
  · intro meets
    exact ⟨first_of_meets meets, source_of_meets meets⟩
  · intro sound z
    exact meets_of_sound sound z

/-- A file of a pak, behind its header, whose descriptor `fseek` has left behind the first block. -/
private def inPak : Job where
  opened := { bytes := List.replicate 4096 0 ++ List.replicate 100000 1, pos := 12, fd := 4096 }
  lands := 4096
  size := 100000
  offset := 0
  large := by decide
  sizes := List.replicate 7 16384
  stack := List.replicate 16384 0
  stackSize := List.length_replicate
  alloc := List.replicate 100000 0
  allocSize := List.length_replicate

private theorem inPak_left : inPak.left = 100000 := by
  simp only [Job.left, Job.download, inPak, if_true, List.length_append, List.length_replicate]

theorem pak_differs : ¬∀ (z : Compressor) (j : Job), Meets z j := by
  intro claim
  have all : delivers inPak.sizes inPak.left (inPak.size - inPak.offset) = true := by
    rw [inPak_left]
    decide
  have same := source_of_meets (fun z => claim z inPak) all
  have first := congrArg (fun s => s[0]?) same
  simp only [bytesAt, Job.rest, Job.download, Job.downloadstart, inPak, if_true, List.getElem?_take,
    List.getElem?_drop, List.getElem?_append, List.length_replicate, List.getElem?_replicate] at first
  exact absurd first (by decide)

end CompressedDownload
