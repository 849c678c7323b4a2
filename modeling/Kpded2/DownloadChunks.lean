import Kpded2.DownloadReferences
import Kpded2.FileCache

/-!
# Download chunks

A chunk from the stream is at the position of its block if the stream is where the client's position
says, and the file still has there what the stream delivers; a chunk from a compressed entry is right
anyway.
-/
namespace DownloadChunks
open DownloadCache DownloadReferences Downloads Outcome

/-! ## Right chunks -/

/-- The position of a chunk's block. A download from the file starts at an offset that is given in
blocks of 1024 bytes. -/
def position (k : Chunk) : Int :=
  if k.compressed then if k.start then 0 else 1366 * k.block
  else if k.extended then if k.start then -1024 * k.block else k.offset + 1366 * k.block
  else 1024 * k.block

/-- The bytes of a chunk are those at the position of its block. -/
structure Right (k : Chunk) : Prop where
  inside : 0 ≤ position k ∧ position k + k.bytes.length ≤ k.size
  source : k.origin + position k + k.bytes.length ≤ k.source.length
  bytes : k.bytes = (k.source.drop (k.origin + position k).toNat).take k.bytes.length

/-- What holds of an entry whatever its thread does. -/
structure Sane (d : Entry) : Prop where
  running : d.running = true → d.compsize = 0 ∧ d.finished = false
  whole : d.compsize ≠ 0 → ∃ b, d.compbuf = some b ∧ b.length = d.compsize
  finished : d.finished = true → d.compbuf.isSome → d.compsize ≠ 0

/-- The download has not started. -/
structure Waiting (c : Client) : Prop where
  pos : c.downloadpos = c.downloadoffset
  offset_lt : c.downloadoffset < c.downloadsize

/-- A client is in order with its stream and its entry. -/
structure Fit (c : Client) (downloads : List Entry) (f : Stream) : Prop where
  size_pos : 0 < c.downloadsize
  aligned : c.downloadoffset % 1024 = 0
  plain : c.downloadcache = none → f.pos = c.downloadstart + c.downloadpos
  cached : ∀ a, c.downloadcache = some a → ∃ d, entryAt downloads a = .ok d ∧
    (d.compsize = c.downloadsize ∨ Waiting c)

def AllFit (c : Client) (downloads : List Entry) : Prop :=
  ∀ f, c.download = some f → Fit c downloads f

def AllSane (downloads : List Entry) : Prop := ∀ d ∈ downloads, Sane d

/-- A client below version 4 has no entry that has been compressed. -/
def Apart (c : Client) (downloads : List Entry) : Prop :=
  c.patched < 4 → ∀ a ∈ c.downloadcache, ∀ d ∈ find downloads a, d.compsize = 0

/-! ## What a stream delivers -/

/-- The file has `r` bytes at `pos`, and what the stream has buffered of them is still there. -/
structure Stands (f : Stream) (pos r : Nat) : Prop where
  inside : pos + r ≤ f.contents.length
  buffered : f.buffered pos r <+: f.contents.drop pos

/-- The stream of the same file after reads and seeks. -/
structure Later (f g : Stream) : Prop where
  contents : g.contents = f.contents
  stands : ∀ pos r, Stands f pos r → Stands g pos r

section Streams
variable {f g : Stream} {filled : Nat × Nat} {pos r : Nat}

theorem Later.refl (f : Stream) : Later f f := ⟨rfl, fun _ _ => id⟩

theorem Later.trans {h : Stream} (first : Later f g) (second : Later g h) : Later f h :=
  ⟨second.contents.trans first.contents, fun pos r stands =>
    second.stands pos r (first.stands pos r stands)⟩

/-- The buffer of a stream does not tell where the stream is. -/
theorem Stands.moved (stands : Stands f pos r) (here : Nat) : Stands { f with pos := here } pos r :=
  ⟨stands.inside, stands.buffered⟩

/-- What is put into the buffer is of the file. -/
theorem Stands.fill (stands : Stands f pos r) (filled : Nat × Nat) : Stands (f.fill filled) pos r := by
  refine ⟨stands.inside, ?_⟩
  by_cases before : filled.1 ≤ pos
  · have delivered : (f.fill filled).buffered pos r =
        (((f.contents.drop filled.1).take filled.2).drop (pos - filled.1)).take r := if_pos before
    rw [delivered, List.drop_take, List.drop_drop, Nat.add_sub_cancel' before]
    exact (List.take_prefix _ _).trans (List.take_prefix _ _)
  · have delivered : (f.fill filled).buffered pos r = [] := if_neg before
    rw [delivered]
    exact List.nil_prefix

theorem later_seek (f : Stream) (sought : Option (Nat × Nat)) (pos : Nat) :
    Later f (f.seek sought pos) := by
  cases sought with
  | none => exact ⟨rfl, fun _ _ stands => stands.moved pos⟩
  | some part => exact ⟨rfl, fun _ _ stands => (stands.fill part).moved pos⟩

theorem later_fread (filled : Nat × Nat) (r : Nat) (f : Stream) : Later f (fread filled r f).2 := by
  simp only [fread]
  split
  · exact ⟨rfl, fun _ _ stands => stands.moved _⟩
  · exact ⟨rfl, fun _ _ stands => (stands.fill filled).moved _⟩

/-- What the buffer delivers and what comes from the file behind it are one part of the file. -/
theorem fread_of_stands (stands : Stands f f.pos r) :
    (fread filled r f).1 = (f.contents.drop f.pos).take r := by
  obtain ⟨more, whole⟩ := stands.buffered
  have behind : f.contents.drop (f.pos + (f.buffered f.pos r).length) = more := by
    rw [← List.drop_drop, ← whole, List.drop_left]
  have short : (f.buffered f.pos r).length ≤ r := by
    rw [Stream.buffered]
    split
    · exact List.length_take_le r _
    · exact Nat.zero_le r
  simp only [fread, behind]
  rw [← whole, List.take_append, List.take_of_length_le short]

theorem pos_fread (filled : Nat × Nat) (r : Nat) (f : Stream) :
    (fread filled r f).2.pos = f.pos + (fread filled r f).1.length := rfl

end Streams

/-! ## One chunk -/

/-- The client's position is that of a block. -/
def Aligned (start : Bool) (c : Client) : Prop :=
  if c.patched ≥ 4 then
    if c.downloadcache.isSome then if start then c.downloadpos = 0 else c.downloadpos % 1366 = 0
    else if start then c.downloadpos = c.downloadoffset
    else c.downloadoffset ≤ c.downloadpos ∧ (c.downloadpos - c.downloadoffset) % 1366 = 0
  else c.downloadpos % 1024 = 0

/-- How long the chunk at a position is. -/
def blockLength (c : Client) (offset : Nat) : Nat :=
  min (c.downloadsize - offset).toNat (chunkSize c)

/-- What the chunk is read of is there. -/
structure Serves (start : Bool) (c : Client) (downloads : List Entry) (f : Stream) : Prop where
  stream : c.download = some f
  pos_lt : c.downloadpos < c.downloadsize
  offset : c.downloadoffset % 1024 = 0
  aligned : Aligned start c
  plain : c.downloadcache = none → f.pos = c.downloadstart + c.downloadpos
  stands : c.downloadcache = none → Stands f f.pos (blockLength c c.downloadpos)
  cached : ∀ a, c.downloadcache = some a → c.patched ≥ 4 ∧ ∃ d b, entryAt downloads a = .ok d ∧
    d.compbuf = some b ∧ b.length = c.downloadsize ∧ d.compsize = c.downloadsize

variable {start : Bool} {c : Client} {downloads : List Entry} {f : Stream} {how : Reading} {r : Nat}
  {a : Nat} {d : Entry}

/-- A read that the file still has is whole, and leaves the stream behind what was read. -/
theorem fsRead_of_stands (stands : Stands f f.pos r) : ∃ g,
    fsRead how r f = .ok ((f.contents.drop f.pos).take r, g) ∧ Later f g ∧ g.pos = f.pos + r := by
  have inside := stands.inside
  have whole : ((f.contents.drop f.pos).take r).length = r := by
    rw [List.length_take, List.length_drop]
    omega
  have read := @fread_of_stands f how.filled r stands
  refine ⟨(fread how.filled r f).2, ?_, later_fread how.filled r f, ?_⟩
  · simp only [fsRead, read, whole, if_true]
  · rw [pos_fread, read, whole]

/-- A file as the search for it has opened it: nothing of it is in the buffer yet. -/
def opened (file : FileCache.OpenFile) : Stream where
  contents := file.bytes
  pos := file.pos

theorem stands_opened (file : FileCache.OpenFile) (inside : file.pos + r ≤ file.bytes.length) :
    Stands (opened file) file.pos r := by
  refine ⟨inside, ?_⟩
  have empty : (opened file).buffered file.pos r = [] := by
    simp only [Stream.buffered, opened, List.drop_nil, List.take_nil, ite_self]
  rw [empty]
  exact List.nil_prefix

/-- A download reads of a file that was opened what `FS_LoadFile` reads of it. -/
theorem fsRead_opened (file : FileCache.OpenFile) (how : Reading)
    (inside : file.pos + r ≤ file.bytes.length) :
    ∃ g, fsRead how r (opened file) = .ok (FileCache.fsRead file r, g) ∧
      Later (opened file) g ∧ g.pos = file.pos + r :=
  fsRead_of_stands (stands_opened file inside)

theorem length_slice {s : List UInt8} {k r : Nat} (fits : k + r ≤ s.length) :
    ((s.drop k).take r).length = r := by
  rw [List.length_take, List.length_drop]
  omega

/-- The block of a chunk says where the client is. -/
theorem position_chunkOf (h : Serves start c downloads f) (compressed : Bool)
    (bytes source : List UInt8) (origin : Nat) (mode : compressed = c.downloadcache.isSome) :
    position (chunkOf start c compressed bytes source origin) = c.downloadpos := by
  have aligned := h.aligned
  have offset := h.offset
  subst mode
  simp only [Aligned] at aligned
  cases cache : c.downloadcache with
  | some a =>
    have extended := (h.cached a cache).1
    simp only [extended, if_true, cache, Option.isSome_some] at aligned
    simp only [position, chunkOf, blockOf, extended, if_true, cache, Option.isSome_some]
    cases start with
    | true =>
      simp only [if_true] at aligned ⊢
      omega
    | false =>
      simp only [Bool.false_eq_true, if_false] at aligned ⊢
      omega
  | none =>
    by_cases extended : c.patched ≥ 4
    · simp only [extended, if_true, cache, Option.isSome_none, Bool.false_eq_true, if_false] at aligned
      simp only [position, chunkOf, blockOf, extended, if_true, cache, Option.isSome_none,
        Bool.false_eq_true, if_false, decide_true]
      cases start with
      | true =>
        simp only [if_true] at aligned ⊢
        omega
      | false =>
        simp only [Bool.false_eq_true, if_false] at aligned ⊢
        rw [Int.tdiv_eq_ediv_of_nonneg (by omega)]
        omega
    · simp only [extended, if_false] at aligned
      simp only [position, chunkOf, blockOf, extended, if_false, cache, Option.isSome_none,
        Bool.false_eq_true, decide_false]
      omega

theorem right_chunkOf (h : Serves start c downloads f) {compressed : Bool} {source : List UInt8}
    {origin : Nat} (mode : compressed = c.downloadcache.isSome)
    (fits : c.downloadpos + r ≤ c.downloadsize) (inside : origin + c.downloadpos + r ≤ source.length) :
    Right (chunkOf start c compressed ((source.drop (origin + c.downloadpos)).take r) source origin) := by
  have length := length_slice inside
  constructor
  · rw [position_chunkOf h _ _ _ _ mode]
    change 0 ≤ (c.downloadpos : Int) ∧
      (c.downloadpos : Int) + ((source.drop (origin + c.downloadpos)).take r).length ≤ c.downloadsize
    omega
  · rw [position_chunkOf h _ _ _ _ mode]
    change (origin : Int) + c.downloadpos + ((source.drop (origin + c.downloadpos)).take r).length ≤
      source.length
    omega
  · rw [position_chunkOf h _ _ _ _ mode]
    change (source.drop (origin + c.downloadpos)).take r =
      (source.drop (origin + (c.downloadpos : Int)).toNat).take
        ((source.drop (origin + c.downloadpos)).take r).length
    rw [length]
    congr 2

/-- The chunk is right, and the stream is behind it if it was read of. -/
theorem makeChunk_right (h : Serves start c downloads f) :
    ∃ g k, makeChunk how start (blockLength c c.downloadpos) c downloads =
        .ok ({ c with download := some g }, k) ∧ Right k ∧ Later f g ∧
      (c.downloadcache = none → g.pos = f.pos + blockLength c c.downloadpos) := by
  have pos_lt := h.pos_lt
  have fits : c.downloadpos + blockLength c c.downloadpos ≤ c.downloadsize := by
    rw [blockLength]
    omega
  cases cache : c.downloadcache with
  | some a =>
    obtain ⟨extended, d, b, found, buffer, length, -⟩ := h.cached a cache
    have inside : c.downloadpos + blockLength c c.downloadpos ≤ b.length := by omega
    refine ⟨f, chunkOf start c true
      ((b.drop (0 + c.downloadpos)).take (blockLength c c.downloadpos)) b 0, ?_,
      right_chunkOf h (by rw [cache]; rfl) fits (by omega), .refl f, fun none => by cases none⟩
    simp only [makeChunk, extended, decide_true, cache, found, bind, Except.bind, compressedBytes,
      buffer, if_pos inside, Nat.zero_add]
    rw [← h.stream, ← cache]
  | none =>
    have pos := h.plain cache
    have stands := h.stands cache
    have inside := stands.inside
    rw [pos] at inside
    obtain ⟨g, read, later, behind⟩ := @fsRead_of_stands f how _ stands
    refine ⟨g, chunkOf start c false ((f.contents.drop (c.downloadstart + c.downloadpos)).take
      (blockLength c c.downloadpos)) f.contents c.downloadstart, ?_,
      right_chunkOf h (by rw [cache]; rfl) fits inside, later, fun _ => behind⟩
    simp only [makeChunk, cache, streamOf, h.stream, bind, Except.bind, read]
    rw [pos]
    generalize decide (c.patched ≥ 4) = extended
    cases extended <;> rfl

/-! ## Sending -/

theorem Sane.congr {d d' : Entry} (h : Sane d) (running : d'.running = d.running)
    (compsize : d'.compsize = d.compsize) (compbuf : d'.compbuf = d.compbuf)
    (finished : d'.finished = d.finished) : Sane d' := by
  constructor
  · rw [running, compsize, finished]
    exact h.running
  · rw [compsize, compbuf]
    exact h.whole
  · rw [finished, compbuf, compsize]
    exact h.finished

theorem allSane_release (h : AllSane downloads) (a : Nat) :
    AllSane (releaseCachedDownload a downloads) := by
  induction downloads with
  | nil => exact h
  | cons d rest ih =>
    have own := h d List.mem_cons_self
    have others : AllSane rest := fun e he => h e (List.mem_cons_of_mem d he)
    simp only [releaseCachedDownload]
    split
    · split
      · exact others
      · intro e he
        rcases List.mem_cons.mp he with rfl | he
        · exact own.congr rfl rfl rfl rfl
        · exact others e he
    · intro e he
      rcases List.mem_cons.mp he with rfl | he
      · exact own
      · exact ih others e he

theorem allSane_close (h : AllSane downloads) (c : Client) : AllSane (svCloseDownload c downloads).2 := by
  simp only [svCloseDownload]
  split
  · exact h
  · split
    · exact h
    · exact allSane_release h _

theorem download_close (c : Client) (downloads : List Entry) :
    (svCloseDownload c downloads).1.download = none := by
  simp only [svCloseDownload]
  split
  · assumption
  · split <;> rfl

theorem patched_close (c : Client) (downloads : List Entry) :
    (svCloseDownload c downloads).1.patched = c.patched := by
  simp only [svCloseDownload]
  split
  · rfl
  · split <;> rfl

theorem allFit_of_none (closed : c.download = none) (downloads : List Entry) : AllFit c downloads :=
  fun _ stream => by cases closed.symm.trans stream

/-- The download has started, if it waits for an entry. -/
def Started (c : Client) (downloads : List Entry) : Prop :=
  ∀ a, c.downloadcache = some a → ∃ d, entryAt downloads a = .ok d ∧ d.compsize = c.downloadsize

/-- What a step of a client leaves. -/
structure Sent (r : Client × List Entry × List Chunk) : Prop where
  right : ∀ k ∈ r.2.2, Right k
  sane : AllSane r.2.1
  fit : AllFit r.1 r.2.1

/-- A download goes on with the same stream. -/
structure Onward (c : Client) (f : Stream) (c' : Client) : Prop where
  patched : c'.patched = c.patched
  size : c'.downloadsize = c.downloadsize
  start : c'.downloadstart = c.downloadstart
  offset : c'.downloadoffset = c.downloadoffset
  cache : c'.downloadcache = c.downloadcache
  stream : ∃ g, c'.download = some g ∧ Later f g

theorem Onward.blockLength {c' : Client} (same : Onward c f c') (offset : Nat) :
    blockLength c' offset = DownloadChunks.blockLength c offset := by
  simp only [DownloadChunks.blockLength, chunkSize, same.size, same.patched]

/-- A chunk that is sent is right, and the client goes on behind it. -/
theorem sendChunk_sent (h : Serves start c downloads f) (sane : AllSane downloads) :
    ∃ r, sendChunk how start c downloads = .ok r ∧ Sent r ∧
      (r.1.download.isSome → Started r.1 r.2.1 ∧ Onward c f r.1) := by
  have pos_lt := h.pos_lt
  obtain ⟨g, k, made, right, later, pos⟩ := @makeChunk_right start c downloads f how h
  have remains : ¬c.downloadsize - c.downloadpos < 0 := by omega
  refine ⟨finishChunk (blockLength c c.downloadpos) { c with download := some g } downloads k, ?_, ?_⟩
  · simp only [sendChunk, if_neg remains]
    change (makeChunk how start (blockLength c c.downloadpos) c downloads >>= _) = _
    rw [made]
    rfl
  simp only [finishChunk]
  split
  · refine ⟨⟨fun k' hk => ?_, sane, fun f' stream => ?_⟩, fun _ => ⟨fun a cache => ?_, ?_⟩⟩
    · obtain rfl := List.mem_singleton.mp hk
      exact right
    · cases stream
      refine ⟨by change 0 < c.downloadsize; omega, h.offset, fun cache => ?_, fun a cache => ?_⟩
      · rw [pos cache, h.plain cache]
        exact Nat.add_assoc _ _ _
      · obtain ⟨extended, d, b, found, -, -, compsize⟩ := h.cached a cache
        exact ⟨d, found, .inl compsize⟩
    · obtain ⟨-, d, b, found, -, -, compsize⟩ := h.cached a cache
      exact ⟨d, found, compsize⟩
    · exact ⟨rfl, rfl, rfl, rfl, rfl, g, rfl, later⟩
  · refine ⟨⟨fun k' hk => ?_, allSane_close sane _,
      allFit_of_none (download_close _ _) _⟩, fun opened => ?_⟩
    · obtain rfl := List.mem_singleton.mp hk
      exact right
    · rw [download_close] at opened
      cases opened

theorem find_of_entryAt (found : entryAt downloads a = .ok d) : find downloads a = some d := by
  simp only [entryAt] at found
  split at found
  · cases found
  · rename_i e he
    cases found
    exact he

theorem mem_of_entryAt (found : entryAt downloads a = .ok d) : d ∈ downloads :=
  List.mem_of_find?_eq_some (find_of_entryAt found)

theorem compressed_of_started (fit : Fit c downloads f) (sane : AllSane downloads)
    (apart : Apart c downloads)
    (cache : c.downloadcache = some a) (found : entryAt downloads a = .ok d) (hd : d ∈ downloads)
    (started : d.compsize = c.downloadsize) :
    c.patched ≥ 4 ∧ ∃ b, d.compbuf = some b ∧ b.length = c.downloadsize := by
  have size_pos := fit.size_pos
  obtain ⟨b, buffer, length⟩ := (sane d hd).whole (by omega)
  refine ⟨?_, b, buffer, by omega⟩
  by_contra old
  have zero := apart (Int.not_le.mp old) a cache d (find_of_entryAt found)
  omega


/-- The position that is asked for is that of a block. -/
theorem aligned_of_blockOffset {blocks : Int} {offset : Nat} (h : blockOffset c blocks = some offset)
    {c' : Client} (pos : c'.downloadpos = offset) (patched : c'.patched = c.patched)
    (cache : c'.downloadcache = c.downloadcache) (base : c'.downloadoffset = c.downloadoffset) :
    Aligned false c' := by
  simp only [blockOffset] at h
  simp only [Aligned, patched, pos, cache, base, Bool.false_eq_true, if_false]
  split at h
  · cases h
  split at h
  · rename_i extended
    rw [if_pos extended]
    split at h
    · cases h
    cases h
    cases c.downloadcache with
    | some a =>
      simp only [Option.isSome_some, Option.isNone_some, if_true, Bool.false_eq_true, if_false]
      omega
    | none =>
      simp only [Option.isSome_none, Option.isNone_none, if_true, Bool.false_eq_true, if_false]
      omega
  · rename_i old
    rw [if_neg old]
    split at h
    · cases h
    cases h
    omega

/-- After a seek to a block the client can be served from there. -/
theorem seekTo_serves {blocks : Int} {offset : Nat} (stream : c.download = some f)
    (fit : Fit c downloads f) (sane : AllSane downloads) (apart : Apart c downloads)
    (started : Started c downloads) (block : blockOffset c blocks = some offset)
    (offset_lt : offset < c.downloadsize)
    (stands : c.downloadcache = none → Stands f (c.downloadstart + offset) (blockLength c offset)) :
    ∃ c' f', seekTo how c offset = .ok c' ∧ Serves false c' downloads f' ∧ Onward c f c' ∧
      Later f f' := by
  have serves (c' : Client) (f' : Stream) (stream' : c'.download = some f')
      (pos : c'.downloadpos = offset) (same : Onward c f c') (later : Later f f')
      (plain : c.downloadcache = none → f'.pos = c.downloadstart + offset) :
      Serves false c' downloads f' := by
    refine ⟨stream', by rw [pos, same.size]; exact offset_lt, same.offset ▸ fit.aligned,
      aligned_of_blockOffset block pos same.patched same.cache same.offset,
      fun none => ?_, fun none => ?_, fun a some => ?_⟩
    · rw [plain (same.cache ▸ none), same.start, pos]
    · rw [plain (same.cache ▸ none), pos, same.blockLength]
      exact later.stands _ _ (stands (same.cache ▸ none))
    · rw [same.cache] at some
      obtain ⟨d, found, compsize⟩ := started a some
      obtain ⟨extended, b, buffer, length⟩ :=
        compressed_of_started fit sane apart some found (mem_of_entryAt found) compsize
      rw [same.patched, same.size]
      exact ⟨extended, d, b, found, buffer, length, compsize⟩
  simp only [seekTo]
  split
  · rename_i here
    have same : Onward c f c := ⟨rfl, rfl, rfl, rfl, rfl, f, stream, .refl f⟩
    refine ⟨c, f, rfl, serves c f stream here same (.refl f) fun none => ?_, same, .refl f⟩
    rw [fit.plain none, here]
  · by_cases without : c.downloadcache = none
    · have later := later_seek f how.sought (c.downloadstart + offset)
      have same : Onward c f { c with
          downloadpos := offset, download := some (f.seek how.sought (c.downloadstart + offset)) } :=
        ⟨rfl, rfl, rfl, rfl, rfl, _, rfl, later⟩
      refine ⟨_, _, ?_, serves _ _ rfl rfl same later fun _ => rfl, same, later⟩
      rw [if_pos (Option.isNone_iff_eq_none.mpr without)]
      simp only [fseek, stream]
    · have same : Onward c f { c with downloadpos := offset } :=
        ⟨rfl, rfl, rfl, rfl, rfl, f, stream, .refl f⟩
      refine ⟨_, f, if_neg fun none => without (Option.isNone_iff_eq_none.mp none),
        serves { c with downloadpos := offset } f stream rfl same (.refl f) fun none => ?_, same,
        .refl f⟩
      exact absurd none without

/-- The positions that `nextdl2` asks for, up to the first argument that it refuses. -/
def asked (c : Client) : List Request → List Nat
  | [] => []
  | q :: rest =>
    match blockOffset c q.blocks with
    | none => []
    | some offset =>
      if !q.served ∨ (offset : Int) ≥ c.downloadsize then []
      else offset :: if c.patched < 4 then [] else asked c rest

theorem asked_congr {c' : Client} (same : Onward c f c') (requests : List Request) :
    asked c' requests = asked c requests := by
  have block (blocks : Int) : blockOffset c' blocks = blockOffset c blocks := by
    simp only [blockOffset, same.patched, same.size, same.cache, same.offset]
  induction requests with
  | nil => rfl
  | cons q rest ih => simp only [asked, block, ih, same.size, same.patched]

/-- The chunks that are read of the stream are there. -/
def Reaches (c : Client) (f : Stream) (requests : List Request) : Prop :=
  ∀ offset ∈ asked c requests, Stands f (c.downloadstart + offset) (blockLength c offset)

/-- Every chunk of a loop over the requests is right. -/
theorem nextLoop_sent (requests : List Request) (fit : AllFit c downloads) (sane : AllSane downloads)
    (apart : Apart c downloads) (stream : c.download = some f) (started : Started c downloads)
    (reaches : c.downloadcache = none → Reaches c f requests) :
    ∃ r, nextLoop requests c downloads = .ok r ∧ Sent r := by
  induction requests generalizing c downloads f with
  | nil => exact ⟨_, rfl, List.forall_mem_nil _, sane, fit⟩
  | cons q rest ih =>
    have idle : Sent (c, downloads, []) := ⟨List.forall_mem_nil _, sane, fit⟩
    simp only [nextLoop]
    split
    · exact ⟨_, rfl, idle⟩
    rename_i served
    split
    · exact ⟨_, rfl, idle⟩
    rename_i offset block
    split
    · exact ⟨_, rfl, idle⟩
    rename_i inside
    have goes : ¬((!q.served) = true ∨ (offset : Int) ≥ c.downloadsize) := by
      rintro (refused | beyond)
      · exact served refused
      · exact inside beyond
    have here : offset ∈ asked c (q :: rest) := by
      simp only [asked, block, if_neg goes, List.mem_cons, true_or]
    obtain ⟨c', f', sought, serves, same, later⟩ :=
      @seekTo_serves c downloads f q.how _ _ stream (fit f stream) sane apart started block
        (Int.not_le.mp inside) fun none => reaches none offset here
    obtain ⟨⟨c'', downloads', sent⟩, run, done, onward⟩ :=
      @sendChunk_sent false c' downloads f' q.how serves sane
    have pushed : pushDownload q.how false c' downloads = .ok (c'', downloads', sent) := run
    simp only [sought, bind, Except.bind, pushed]
    split
    · exact ⟨_, rfl, done⟩
    · rename_i more
      have remains : c''.download.isSome := by
        cases h : c''.download with
        | none => exact absurd (.inr (by rw [h]; rfl)) more
        | some g => rfl
      obtain ⟨started', same'⟩ := onward remains
      have same' : Onward c' f' c'' := same'
      obtain ⟨g, stream', later'⟩ := same'.stream
      have extended : ¬c.patched < 4 := by
        rw [← same.patched, ← same'.patched]
        exact fun old => more (.inl old)
      have reaches' : c''.downloadcache = none → Reaches c'' g rest := by
        intro without offset' next
        have before : c.downloadcache = none :=
          same.cache.symm.trans (same'.cache.symm.trans without)
        rw [asked_congr same', asked_congr same] at next
        rw [same'.start, same.start, same'.blockLength, same.blockLength]
        refine (later.trans later').stands _ _ (reaches before offset' ?_)
        simp only [asked, block, if_neg goes, if_neg extended]
        exact List.mem_cons_of_mem offset next
      obtain ⟨⟨c3, downloads3, sent3⟩, run3, done3⟩ := ih done.fit done.sane
        (fun old => absurd (.inl old) more) stream' started' reaches'
      refine ⟨(c3, downloads3, sent ++ sent3), by simp only [run3], ?_, done3.sane, done3.fit⟩
      exact fun k hk => (List.mem_append.mp hk).elim (done.right k) (done3.right k)

/-! ## Starting -/

/-- The client's download can start, from its entry or from the stream. -/
structure Begins (c : Client) (downloads : List Entry) (f : Stream) : Prop where
  stream : c.download = some f
  aligned : c.downloadoffset % 1024 = 0
  waiting : Waiting c
  plain : c.downloadcache = none → f.pos = c.downloadstart + c.downloadpos
  cached : ∀ a, c.downloadcache = some a → ∃ d, entryAt downloads a = .ok d ∧
    (c.patched < 4 → d.compsize = 0)

/-- The first chunk of a file is there. -/
def Opens (c : Client) (f : Stream) : Prop :=
  Stands f (c.downloadstart + c.downloadoffset) (blockLength c c.downloadoffset)

theorem Begins.fit (h : Begins c downloads f) : AllFit c downloads := by
  intro g stream
  cases h.stream.symm.trans stream
  have offset_lt := h.waiting.offset_lt
  refine ⟨by omega, h.aligned, h.plain, fun a some => ?_⟩
  obtain ⟨d, found, -⟩ := h.cached a some
  exact ⟨d, found, .inr h.waiting⟩

/-- A download starts from its entry, or from the file when nothing was gained. -/
theorem startDownload_serves (h : Begins c downloads f) (sane : AllSane downloads)
    (settled : ∀ a d, c.downloadcache = some a → entryAt downloads a = .ok d → d.finished = true)
    (opens : (∀ a ∈ c.downloadcache, ∀ d ∈ find downloads a, d.compbuf = none) → Opens c f) :
    ∃ c' downloads' f', startDownload how c downloads = .ok (c', downloads') ∧
      Serves true c' downloads' f' ∧ AllSane downloads' := by
  obtain ⟨pos, offset_lt⟩ := h.waiting
  have aligned := h.aligned
  have serves (c' : Client) (l : List Entry) (f' : Stream) (stream : c'.download = some f')
      (without : c'.downloadcache = none) (same : c'.downloadpos = c.downloadpos)
      (base : c'.downloadoffset = c.downloadoffset) (size : c'.downloadsize = c.downloadsize)
      (patched : c'.patched = c.patched) (here : f'.pos = c'.downloadstart + c'.downloadpos)
      (stands : Stands f' f'.pos (blockLength c c.downloadoffset)) : Serves true c' l f' := by
    have length : blockLength c' c'.downloadpos = blockLength c c.downloadoffset := by
      simp only [blockLength, chunkSize, size, patched, same, pos]
    refine ⟨stream, by omega, by omega, ?_, fun _ => here, fun _ => length ▸ stands, fun a some => ?_⟩
    · simp only [Aligned, without, Option.isSome_none, Bool.false_eq_true, if_false, if_true]
      split
      · omega
      · omega
    · rw [without] at some
      cases some
  cases cache : c.downloadcache with
  | none =>
    have here := h.plain cache
    refine ⟨c, downloads, f, ?_, serves c downloads f h.stream cache rfl rfl rfl rfl here ?_, sane⟩
    · simp only [startDownload, cache]
    · rw [here, pos]
      exact opens (by rw [cache]; rintro a ⟨⟩)
  | some a =>
    obtain ⟨d, found, plain⟩ := h.cached a cache
    have own := sane d (mem_of_entryAt found)
    simp only [startDownload, cache, found, bind, Except.bind]
    split
    · rename_i compressed
      have nonzero := own.finished (settled a d cache found) compressed
      obtain ⟨b, buffer, length⟩ := own.whole nonzero
      have extended : c.patched ≥ 4 := by
        by_contra old
        exact nonzero (plain (Int.not_le.mp old))
      refine ⟨_, downloads, f, rfl, ⟨h.stream, ?_, aligned, ?_, fun none => ?_, fun none => ?_,
        fun a' some => ?_⟩, sane⟩
      · change ((0 : Nat) : Int) < (d.compsize : Int)
        omega
      · simp only [Aligned, extended, if_true, Option.isSome_some]
      · cases none
      · cases none
      · cases some
        exact ⟨extended, d, b, found, buffer, congrArg Nat.cast length, rfl⟩
    · rename_i plainly
      have first : Opens c f := by
        refine opens fun a' some d' found' => ?_
        cases Eq.trans (Eq.symm cache) some
        cases (find_of_entryAt found).symm.trans found'
        exact Option.isNone_iff_eq_none.mp (Option.not_isSome_iff_eq_none.mp plainly ▸ rfl)
      simp only [fseek, h.stream]
      refine ⟨_, _, _, rfl, serves _ _ (f.seek how.sought (c.downloadstart + c.downloadoffset)) rfl
        rfl rfl rfl rfl rfl ?_ ?_, allSane_release sane a⟩
      · change c.downloadstart + c.downloadoffset = c.downloadstart + c.downloadpos
        omega
      · exact (later_seek f how.sought _).stands _ _ first

theorem sane_settle (h : Sane d) : Sane (settle d) := by
  cases running : d.running with
  | true =>
    have same : settle d = d := by
      simp only [settle, ready, running, Bool.not_true, Bool.false_eq_true, if_false]
    rw [same]
    exact h
  | false =>
    cases finished : d.finished with
    | true =>
      have same : settle d = d := by
        simp only [settle, ready, running, Bool.not_false, if_true, finish, finished]
      rw [same]
      exact h
    | false =>
      simp only [settle, ready, running, Bool.not_false, if_true, finish, finished,
        Bool.false_eq_true, if_false]
      refine ⟨by rintro ⟨⟩, fun nonzero => ?_, fun _ compressed nonzero => ?_⟩
      · obtain ⟨b, buffer, length⟩ := h.whole nonzero
        refine ⟨b.take d.compsize, ?_, ?_⟩
        · simp only [if_pos nonzero, buffer, Option.map_some]
        · rw [List.length_take, length]
          exact Nat.min_self _
      · have left : (if d.compsize ≠ 0 then d.compbuf.map fun b => b.take d.compsize else none).isSome :=
          compressed
        rw [if_neg fun different => different nonzero] at left
        cases left

theorem compsize_settle (d : Entry) : (settle d).compsize = d.compsize := by
  simp only [settle, finish]
  split
  · split <;> rfl
  · rfl

/-- A thread leaves the entry in order, whatever it has made of the file. -/
theorem sane_endThread {result : Option (List UInt8)} (h : Sane d) : Sane (endThread result d) := by
  cases running : d.running with
  | false =>
    have same : endThread result d = d := by
      simp only [endThread, running, Bool.false_eq_true, if_false]
    rw [same]
    exact h
  | true =>
    obtain ⟨zero, unfinished⟩ := h.running running
    have failed : Sane { d with running := false } := ⟨by rintro ⟨⟩, h.whole, h.finished⟩
    cases compbuf : d.compbuf with
    | none =>
      have same : endThread result d = { d with running := false } := by
        simp only [endThread, running, if_true, compbuf]
      rw [same]
      exact failed
    | some b =>
      cases result with
      | none =>
        have same : endThread none d = { d with running := false } := by
          simp only [endThread, running, if_true, compbuf]
        rw [same]
        exact failed
      | some bytes =>
        have same : endThread (some bytes) d =
            { d with running := false, compbuf := some bytes, compsize := bytes.length } := by
          simp only [endThread, running, if_true, compbuf]
        rw [same]
        refine ⟨by rintro ⟨⟩, fun _ => ⟨_, rfl, rfl⟩, fun finished => ?_⟩
        exact absurd (unfinished.symm.trans finished) Bool.false_ne_true

theorem allSane_update {g : Entry → Entry} (h : AllSane downloads) (keeps : ∀ d, Sane d → Sane (g d))
    (a : Nat) : AllSane (update a g downloads) := by
  intro e he
  obtain ⟨d, hd, rfl⟩ := List.mem_map.mp he
  split
  · exact keeps d (h d hd)
  · exact h d hd

theorem entryAt_update {g : Entry → Entry} (address : ∀ d, (g d).address = d.address)
    (found : entryAt downloads a = .ok d) : entryAt (update a g downloads) a = .ok (g d) := by
  induction downloads with
  | nil => cases found
  | cons e rest ih =>
    simp only [entryAt, find, update, List.map_cons, List.find?_cons] at found ih ⊢
    by_cases same : e.address = a
    · simp only [same, decide_true, if_true] at found ⊢
      cases found
      simp only [address, same, decide_true]
    · simp only [same, decide_false, if_false] at found ⊢
      exact ih found

/-- The entry of a client is ready, and no compressed file is in it. -/
def StartsPlain (c : Client) (downloads : List Entry) : Prop :=
  ∀ a ∈ c.downloadcache, ∀ d ∈ find downloads a, ready d = true ∧ (settle d).compbuf = none

/-- A download that is ready begins with a right chunk. -/
theorem pushWhenReady_sent (h : Begins c downloads f) (sane : AllSane downloads)
    (opens : StartsPlain c downloads → Opens c f) :
    ∃ r, pushWhenReady how c downloads = .ok r ∧ Sent r := by
  have push {downloads : List Entry} (h : Begins c downloads f) (sane : AllSane downloads)
      (settled : ∀ a d, c.downloadcache = some a → entryAt downloads a = .ok d → d.finished = true)
      (opens : (∀ a ∈ c.downloadcache, ∀ d ∈ find downloads a, d.compbuf = none) → Opens c f) :
      ∃ r, pushDownload how true c downloads = .ok r ∧ Sent r := by
    obtain ⟨c', downloads', f', started, serves, sane'⟩ :=
      @startDownload_serves c downloads f how h sane settled opens
    obtain ⟨r, run, sent, -⟩ := @sendChunk_sent true c' downloads' f' how serves sane'
    refine ⟨r, ?_, sent⟩
    simp only [pushDownload, if_true, started, bind, Except.bind, run]
  simp only [pushWhenReady]
  cases cache : c.downloadcache with
  | none =>
    refine push h sane (fun a d some => by rw [cache] at some; cases some) fun _ => opens ?_
    rw [StartsPlain, cache]
    rintro a ⟨⟩
  | some a =>
    obtain ⟨d, found, plain⟩ := h.cached a cache
    have settled := entryAt_update (fun d => (same_settle d).address) found
    have sane' := allSane_update sane (fun d => sane_settle) a
    have begins : Begins c (update a settle downloads) f := by
      refine ⟨h.stream, h.aligned, h.waiting, h.plain, fun b some => ?_⟩
      cases cache.symm.trans some
      exact ⟨settle d, settled, fun old => (compsize_settle d).trans (plain old)⟩
    simp only [cachedDownloadReady, found, bind, Except.bind]
    split
    · rename_i isReady
      refine push begins sane' (fun b e some found' => ?_) fun uncompressed => opens ?_
      · cases cache.symm.trans some
        cases settled.symm.trans found'
        simp only [settle, isReady, if_true, finish]
        split
        · assumption
        · rfl
      · intro b some e found'
        cases Eq.trans (Eq.symm cache) some
        cases (find_of_entryAt found).symm.trans found'
        exact ⟨isReady, uncompressed a cache _ (find_of_entryAt settled)⟩
    · exact ⟨_, rfl, List.forall_mem_nil _, sane', begins.fit⟩

theorem waits_of_found (cache : c.downloadcache = some a) (found : entryAt downloads a = .ok d) :
    waits c downloads = .ok (decide (c.downloadsize ≠ d.compsize)) := by
  simp only [waits, cache, found, bind, Except.bind]

/-- The chunks that a client asks for are right. -/
theorem svNextPushDownload_sent (requests : List Request) (fit : AllFit c downloads)
    (sane : AllSane downloads) (apart : Apart c downloads)
    (reaches : ∀ f ∈ c.download, c.downloadcache = none → Reaches c f requests) :
    ∃ r, svNextPushDownload requests c downloads = .ok r ∧ Sent r := by
  have idle : Sent (c, downloads, []) := ⟨List.forall_mem_nil _, sane, fit⟩
  simp only [svNextPushDownload]
  cases stream : c.download with
  | none => exact ⟨_, rfl, idle⟩
  | some f =>
    have next := fun started => @nextLoop_sent c downloads f requests fit sane apart stream started
      (reaches f stream)
    cases cache : c.downloadcache with
    | none =>
      simp only [waits, cache, bind, Except.bind, Bool.false_eq_true, if_false]
      exact next fun a some => by rw [cache] at some; cases some
    | some a =>
      obtain ⟨d, found, -⟩ := (fit f stream).cached a cache
      simp only [waits_of_found cache found, bind, Except.bind]
      split
      · exact ⟨_, rfl, idle⟩
      · rename_i started
        refine next fun b some => ?_
        cases cache.symm.trans some
        refine ⟨d, found, ?_⟩
        by_contra different
        exact started (decide_eq_true (Ne.symm different))

/-- The chunk of a frame is right. -/
theorem svFrame_sent (fit : AllFit c downloads) (sane : AllSane downloads) (apart : Apart c downloads)
    (owned : c.downloadcache.isSome → c.download.isSome)
    (opens : ∀ f ∈ c.download, StartsPlain c downloads → Opens c f) :
    ∃ r, svFrame how c downloads = .ok r ∧ Sent r := by
  have idle : Sent (c, downloads, []) := ⟨List.forall_mem_nil _, sane, fit⟩
  simp only [svFrame]
  cases cache : c.downloadcache with
  | none =>
    simp only [waits, cache, bind, Except.bind, Option.isSome_none, Bool.false_eq_true, false_and,
      if_false]
    exact ⟨_, rfl, idle⟩
  | some a =>
    obtain ⟨f, stream⟩ := Option.isSome_iff_exists.mp (owned (by rw [cache]; rfl))
    have own := fit f stream
    obtain ⟨d, found, started⟩ := own.cached a cache
    simp only [waits_of_found cache found, bind, Except.bind, Option.isSome_some, true_and]
    split
    · rename_i waiting
      rcases started with started | waiting'
      · exact absurd started.symm (of_decide_eq_true waiting)
      · refine pushWhenReady_sent ⟨stream, own.aligned, waiting', own.plain, fun b some => ?_⟩ sane
          (opens f stream)
        cases cache.symm.trans some
        exact ⟨d, found, fun old => apart old a cache d (find_of_entryAt found)⟩
    · exact ⟨_, rfl, idle⟩

/-! ## Requests for a file -/

theorem entryAt_of_nodup (nodup : (addresses downloads).Nodup) (hd : d ∈ downloads) :
    entryAt downloads d.address = .ok d := by
  obtain ⟨e, he, same, found⟩ := entryAt_of_mem (mem_addresses.mpr ⟨d, hd, rfl⟩)
  rw [found, List.inj_on_of_nodup_map nodup he hd same]

variable {w : Wanted} {alloc : Allocator} {b : Begin} {others : Nat → Nat}

theorem sane_create (w : Wanted) (a : Nat) : Sane (create w a) :=
  ⟨fun _ => ⟨rfl, rfl⟩, fun nonzero => absurd rfl nonzero, by rintro ⟨⟩⟩

theorem sane_restart (w : Wanted) (d : Entry) : Sane (restart w d) :=
  ⟨fun _ => ⟨rfl, rfl⟩, fun nonzero => absurd rfl nonzero, by rintro ⟨⟩⟩

theorem allSane_newCachedDownload (h : AllSane downloads) :
    AllSane (newCachedDownload alloc w downloads).2 := by
  simp only [newCachedDownload]
  split
  · rename_i r found
    rcases lookup_spec found with ⟨-, same⟩ | ⟨front, d, back, rfl, -, result⟩
    · rw [same]
      exact h
    · have replaced {d' : Entry} (own : Sane d') : AllSane (front ++ d' :: back) := by
        intro e he
        rcases List.mem_append.mp he with he | he
        · exact h e (List.mem_append_left _ he)
        · rcases List.mem_cons.mp he with rfl | he
          · exact own
          · exact h e (List.mem_append_right _ (List.mem_cons_of_mem d he))
      have own := h d (List.mem_append_right _ List.mem_cons_self)
      rcases result with result | ⟨result, -⟩
      · rw [result]
        exact replaced (own.congr rfl rfl rfl rfl)
      · rw [result]
        exact replaced (sane_restart w d)
  · intro e he
    rcases List.mem_cons.mp he with rfl | he
    · exact sane_create w _
    · exact h e he

/-- A file that is not to be compressed is only waited for while it is read. -/
theorem lookup_running {r : Option Nat × List Entry} (h : lookup w downloads = some r)
    (plain : w.compress = false) (some : r.1 = some a) :
    ∃ d ∈ r.2, d.address = a ∧ d.running = true := by
  induction downloads generalizing r with
  | nil => cases h
  | cons e rest ih =>
    simp only [lookup, visit, plain, Bool.false_eq_true, if_false] at h
    by_cases other : e.name ≠ w.name
    · simp only [if_pos other] at h
      obtain ⟨r', found, rfl⟩ := Option.map_eq_some_iff.mp h
      obtain ⟨d, hd, known⟩ := ih found some
      exact ⟨d, List.mem_cons_of_mem e hd, known⟩
    · by_cases covers : e.offset ≤ w.offset
      · cases running : e.running with
        | true =>
          simp only [if_neg other, if_pos covers, running, Bool.not_true, Bool.false_eq_true,
            if_false] at h
          cases h
          cases some
          exact ⟨share e, List.mem_cons_self, rfl, running⟩
        | false =>
          simp only [if_neg other, if_pos covers, running, Bool.not_false, if_true] at h
          cases h
          cases some
      · simp only [if_neg other, if_neg covers] at h
        obtain ⟨r', found, rfl⟩ := Option.map_eq_some_iff.mp h
        obtain ⟨d, hd, known⟩ := ih found some
        exact ⟨d, List.mem_cons_of_mem e hd, known⟩

theorem newCachedDownload_running (plain : w.compress = false)
    (some : (newCachedDownload alloc w downloads).1 = some a) :
    ∃ d ∈ (newCachedDownload alloc w downloads).2, d.address = a ∧ d.running = true := by
  simp only [newCachedDownload] at some ⊢
  split at some
  · rename_i r found
    exact lookup_running found plain some
  · cases some
    exact ⟨_, List.mem_cons_self, rfl, rfl⟩

theorem allSane_cacheDownload (h : AllSane downloads) :
    AllSane (cacheDownload alloc b c downloads).2 := by
  have compressed : AllSane (compressDownload alloc b c downloads).2 := by
    simp only [compressDownload]
    split
    · exact allSane_newCachedDownload h
    · exact h
  simp only [cacheDownload, precacheDownload]
  split
  · exact allSane_newCachedDownload compressed
  · exact compressed

theorem cacheDownload_running (old : c.patched < 4)
    (some : (cacheDownload alloc b c downloads).1 = some a) :
    ∃ d ∈ (cacheDownload alloc b c downloads).2, d.address = a ∧ d.running = true := by
  have without : compressDownload alloc b c downloads = (none, downloads) := by
    have never : compresses b c = false := by
      simp only [compresses, decide_eq_false (Int.not_le.mpr old), Bool.and_false, Bool.false_and]
    simp only [compressDownload, never, Bool.false_eq_true, if_false]
  simp only [cacheDownload, precacheDownload, without] at some ⊢
  split at some
  · rename_i cached
    rw [if_pos cached]
    exact newCachedDownload_running rfl some
  · cases some

/-- What is opened has the first chunk that the client is told of. -/
def OpensWhole (b : Begin) (c : Client) : Prop :=
  ∀ size ∈ b.fsLoadFile, ∀ f ∈ b.fsOpenFile, b.offset < size →
    Stands f (f.pos + b.offset) (min (size - b.offset) (chunkSize c))

/-- A new download begins with right chunks. -/
theorem svBeginDownload_sent (held : Held others c downloads) (sane : AllSane downloads)
    (whole : OpensWhole b c) : ∃ r, svBeginDownload alloc b c downloads = .ok r ∧ Sent r := by
  have closed := svCloseDownload_held (held.of_eq rfl id rfl : Held others
    { c with downloadid := b.downloadid } downloads)
  have sane' := allSane_close sane { c with downloadid := b.downloadid }
  have patched := patched_close { c with downloadid := b.downloadid } downloads
  simp only [svBeginDownload]
  obtain ⟨good, unused, closed⟩ := closed
  generalize svCloseDownload { c with downloadid := b.downloadid } downloads = r
    at good unused closed sane' patched ⊢
  obtain ⟨c', downloads'⟩ := r
  simp only at good unused closed sane' patched ⊢
  have idle (size : Int) : Sent ({ c' with downloadsize := size }, downloads', []) :=
    ⟨List.forall_mem_nil _, sane', @allFit_of_none { c' with downloadsize := size } closed _⟩
  cases loaded : b.fsLoadFile with
  | none => exact ⟨_, rfl, idle _⟩
  | some size =>
    simp only
    split
    · exact ⟨_, rfl, idle _⟩
    · rename_i inside
      split
      · exact ⟨_, rfl, idle _⟩
      · rename_i f found
        have offset_lt : b.offset < size := by omega
        have first := whole size loaded f found offset_lt
        have opened : Held others (openDownload b f { c' with downloadsize := size }) downloads' :=
          good.held.of_eq rfl (fun _ => rfl) rfl
        have cached := @cacheDownload_good others downloads' _ alloc b opened unused rfl
        have length : blockLength (openDownload b f { c' with downloadsize := size }) b.offset =
            min (size - b.offset) (chunkSize c) := by
          simp only [blockLength, openDownload, chunkSize, patched]
          omega
        refine pushWhenReady_sent ⟨rfl, Nat.mul_mod_left _ _, ⟨rfl, Int.ofNat_lt.mpr offset_lt⟩,
          fun _ => ?_, fun a some => ?_⟩ (allSane_cacheDownload sane') fun _ => ?_
        · simp only [openDownload]
          split
          · omega
          · rfl
        · obtain ⟨d, hd, address, at_a⟩ := entryAt_of_held cached.held some
          refine ⟨d, at_a, fun old => ?_⟩
          obtain ⟨e, he, same, running⟩ := cacheDownload_running old some
          obtain rfl := List.inj_on_of_nodup_map cached.held.counted.nodup he hd (same.trans address.symm)
          exact ((allSane_cacheDownload sane') e he).running running |>.1
        · have stands : Stands (if b.offset = 0 then f else f.seek b.sought (f.pos + b.offset))
              (f.pos + b.offset) (min (size - b.offset) (chunkSize c)) := by
            split
            · exact first
            · exact (later_seek f b.sought _).stands _ _ first
          rw [← length] at stands
          exact stands

/-! ## The server -/

variable {s : State} {slot : Nat} {e : Event} {downloads' : List Entry}

structure Serving (s : State) : Prop where
  refs : Inv s
  sane : AllSane s.downloads
  fit : ∀ c ∈ s.clients, AllFit c s.downloads
  right : ∀ k ∈ s.sent, Right k.2

/-- A download that has started from its entry. -/
def Packed (c : Client) (downloads : List Entry) : Prop :=
  ∃ a ∈ c.downloadcache, ∃ d ∈ find downloads a, d.compsize = c.downloadsize

/-- The chunks that a step reads of a stream are in the file as it is then, and what the stream has
buffered of them still is. -/
def Current (s : State) : Event → Prop
  | .begin slot b => ∀ c ∈ s.clients[slot]?, OpensWhole b c
  | .next slot requests => ∀ c ∈ s.clients[slot]?, ∀ f ∈ c.download,
    c.downloadcache = none → Reaches c f requests
  | .frame slot _ => ∀ c ∈ s.clients[slot]?, ∀ f ∈ c.download, StartsPlain c s.downloads → Opens c f
  | _ => True

def AllApart (s : State) : Prop := ∀ c ∈ s.clients, Apart c s.downloads

/-- A run in which no client below version 4 has an entry that has been compressed, and no chunk is
read of a file that has been changed there or does not reach so far. -/
def SoundRun (alloc : Allocator) (s : State) : List Event → Prop
  | [] => AllApart s
  | e :: events => AllApart s ∧ Current s e ∧
    ∀ s' ∈ (step alloc s e).toOption, SoundRun alloc s' events

instance : Decidable (Apart c downloads) := inferInstanceAs (Decidable (_ → _))

instance (f : Stream) (pos r : Nat) : Decidable (Stands f pos r) :=
  decidable_of_iff (pos + r ≤ f.contents.length ∧ f.buffered pos r <+: f.contents.drop pos)
    ⟨fun h => ⟨h.1, h.2⟩, fun h => ⟨h.inside, h.buffered⟩⟩

instance : Decidable (Opens c f) := inferInstanceAs (Decidable (Stands _ _ _))

instance : Decidable (StartsPlain c downloads) := inferInstanceAs (Decidable (∀ _ ∈ _, _))

instance (requests : List Request) : Decidable (Reaches c f requests) :=
  inferInstanceAs (Decidable (∀ _ ∈ _, _))

instance : Decidable (OpensWhole b c) := inferInstanceAs (Decidable (∀ _ ∈ _, _))

instance (s : State) : (e : Event) → Decidable (Current s e)
  | .begin slot b => inferInstanceAs (Decidable (∀ c ∈ s.clients[slot]?, OpensWhole b c))
  | .next slot requests => inferInstanceAs (Decidable (∀ c ∈ s.clients[slot]?, ∀ f ∈ c.download,
    c.downloadcache = none → Reaches c f requests))
  | .frame slot _ => inferInstanceAs (Decidable (∀ c ∈ s.clients[slot]?, ∀ f ∈ c.download,
    StartsPlain c s.downloads → Opens c f))
  | .change .. | .close _ | .clean _ | .connect .. | .unpatch _ | .thread .. | .poll
  | .clear | .shutdown _ => inferInstanceAs (Decidable True)

instance : Decidable (AllApart s) := inferInstanceAs (Decidable (∀ _ ∈ _, _))

instance decidableSoundRun (alloc : Allocator) (s : State) :
    (events : List Event) → Decidable (SoundRun alloc s events)
  | [] => inferInstanceAs (Decidable (AllApart s))
  | _ :: events =>
    have (s' : State) : Decidable (SoundRun alloc s' events) := decidableSoundRun alloc s' events
    inferInstanceAs (Decidable (_ ∧ _ ∧ _))

theorem address_of_entryAt (found : entryAt downloads a = .ok d) : d.address = a := by
  have same := List.find?_some (find_of_entryAt found)
  exact of_decide_eq_true same

/-- The others go on where they were. -/
theorem AllFit.kept (fit : AllFit c downloads) (sane : AllSane downloads)
    (kept : Kept others downloads downloads') (used : ∀ a, c.downloadcache = some a → others a ≠ 0)
    (nodup : (addresses downloads').Nodup) : AllFit c downloads' := by
  intro f stream
  have own := fit f stream
  have size_pos := own.size_pos
  refine ⟨size_pos, own.aligned, own.plain, fun a cache => ?_⟩
  obtain ⟨d, found, started⟩ := own.cached a cache
  have hd := mem_of_entryAt found
  obtain rfl := address_of_entryAt found
  obtain ⟨d', hd', same⟩ := kept d hd (used _ cache)
  refine ⟨d', same.address ▸ entryAt_of_nodup nodup hd', started.imp_left fun started => ?_⟩
  have ended : d.running = false := by
    by_contra running
    have zero := ((sane d hd).running (Bool.eq_true_of_not_eq_false running)).1
    omega
  rw [same.compsize ended, started]

theorem users_ne_zero {clients : List Client} (hc : c ∈ clients) (cache : c.downloadcache = some a) :
    users clients a ≠ 0 :=
  Nat.ne_zero_of_lt (List.countP_pos_iff.mpr ⟨c, hc, decide_eq_true cache⟩)

/-- What one client has done leaves the server in order. -/
theorem Serving.store (h : Serving s) (found : s.clients[slot]? = some c)
    {r : Client × List Entry × List Chunk} (sent : Sent r) (refs : Inv (s.store slot r))
    (kept : Kept (users (s.clients.eraseIdx slot)) s.downloads r.2.1) : Serving (s.store slot r) where
  refs := refs
  sane := sent.sane
  fit := by
    intro d hd
    obtain ⟨inside, -⟩ := List.getElem?_eq_some_iff.mp found
    rcases List.mem_cons.mp ((List.set_perm_cons_eraseIdx inside r.1).mem_iff.mp hd) with rfl | hd
    · exact sent.fit
    · exact (h.fit d (List.mem_of_mem_eraseIdx hd)).kept h.sane kept
        (fun a => users_ne_zero hd) refs.counted.nodup
  right := by
    intro k hk
    rcases List.mem_append.mp hk with hk | hk
    · exact h.right k hk
    · obtain ⟨chunk, made, rfl⟩ := List.mem_map.mp hk
      exact sent.right chunk made

theorem Serving.act (h : Serving s)
    {f : Client → List Entry → Except Stop (Client × List Entry × List Chunk)}
    (refs : Ensures .dangling (fun s' => Inv s' ∧
      Kept (users (s.clients.eraseIdx slot)) s.downloads s'.downloads) (s.act slot f))
    (sent : ∀ c, s.clients[slot]? = some c → c.live = true → ∃ r, f c s.downloads = .ok r ∧ Sent r) :
    ∃ s', s.act slot f = .ok s' ∧ Serving s' := by
  simp only [State.act] at refs ⊢
  cases found : s.clients[slot]? with
  | none => exact ⟨s, rfl, h⟩
  | some c =>
    simp only [found] at refs
    simp only
    split
    · rename_i live
      obtain ⟨r, ran, sent⟩ := sent c found live
      rw [if_pos live, ran] at refs
      rw [ran]
      exact ⟨_, rfl, h.store found sent refs.1 refs.2⟩
    · exact ⟨s, rfl, h⟩

theorem allSane_cleanAll (clients : List Client) (h : AllSane downloads) :
    AllSane (cleanAll clients downloads) := by
  induction clients generalizing downloads with
  | nil => exact h
  | cons c rest ih =>
    refine ih ?_
    split
    · exact allSane_close h c
    · exact h

/-- Where the stream is does not matter to a client that has an entry. -/
theorem allFit_moveStream (fit : AllFit c downloads) (address pos : Nat) :
    AllFit (moveStream downloads address pos c) downloads := by
  simp only [moveStream]
  split
  · rename_i moved
    obtain ⟨cache, running⟩ := moved
    intro f stream
    obtain ⟨g, before, rfl⟩ := Option.map_eq_some_iff.mp stream
    have own := fit g before
    refine ⟨own.size_pos, own.aligned, fun none => ?_, fun a some => ?_⟩
    · cases cache.symm.trans none
    · obtain ⟨d, found, started⟩ := own.cached a some
      exact ⟨d, found, started.imp_right fun waiting => ⟨waiting.pos, waiting.offset_lt⟩⟩
  · exact fit

theorem allFit_change (fit : AllFit c downloads) (contents : List UInt8) :
    AllFit { c with download := c.download.map fun f => { f with contents } } downloads := by
  intro f stream
  obtain ⟨g, before, rfl⟩ := Option.map_eq_some_iff.mp stream
  have own := fit g before
  refine ⟨own.size_pos, own.aligned, own.plain, fun a cache => ?_⟩
  obtain ⟨d, found, started⟩ := own.cached a cache
  exact ⟨d, found, started.imp_right fun waiting => ⟨waiting.pos, waiting.offset_lt⟩⟩

theorem Serving.thread (h : Serving s) (address : Nat) (result : Option (List UInt8))
    (positions : Nat → Nat) (alloc : Allocator) :
    ∃ s', step alloc s (.thread address result positions) = .ok s' ∧ Serving s' := by
  have refs := inv_thread h.refs address result positions
  have kept : Kept (users s.clients) s.downloads (update address (endThread result) s.downloads) :=
    Kept.update (same_endThread result) address
  refine ⟨_, rfl, refs, allSane_update h.sane (fun d => sane_endThread) address, fun c hc => ?_, h.right⟩
  obtain ⟨i, hi, rfl⟩ := List.mem_mapIdx.mp hc
  have hc := List.getElem_mem hi
  refine (allFit_moveStream (h.fit _ hc) address (positions i)).kept h.sane kept (fun a cache => ?_)
    refs.counted.nodup
  rw [(moveStream_spec _ _ _ _).1] at cache
  exact users_ne_zero hc cache

/-- No step leaves the order, and every step returns. -/
theorem step_serving (alloc : Allocator) (h : Serving s) (apart : AllApart s) (current : Current s e) :
    ∃ s', step alloc s e = .ok s' ∧ Serving s' := by
  have refs := step_ensures alloc h.refs e
  cases e with
  | begin slot b =>
    refine h.act refs fun c found live => ?_
    exact svBeginDownload_sent (h.refs.held found live) h.sane (current c found)
  | next slot requests =>
    refine h.act refs fun c found _ => ?_
    have hc := List.mem_of_getElem? found
    exact svNextPushDownload_sent requests (h.fit c hc) h.sane (apart c hc) (current c found)
  | frame slot how =>
    refine h.act refs fun c found _ => ?_
    have hc := List.mem_of_getElem? found
    exact svFrame_sent (h.fit c hc) h.sane (apart c hc) (h.refs.owned c hc) (current c found)
  | close slot =>
    simp only [step, bystanders] at refs ⊢
    refine h.act refs fun c found _ => ⟨_, rfl, List.forall_mem_nil _, allSane_close h.sane c, ?_⟩
    exact allFit_of_none (download_close _ _) _
  | clean slot =>
    simp only [step, bystanders] at refs ⊢
    refine h.act refs fun c found _ => ⟨_, rfl, List.forall_mem_nil _, allSane_close h.sane c, ?_⟩
    exact allFit_of_none (c := { (svCloseDownload c s.downloads).1 with live := false })
      (download_close _ _) _
  | connect slot patched =>
    simp only [step, bystanders] at refs ⊢
    cases found : s.clients[slot]? with
    | none => exact ⟨s, rfl, h⟩
    | some c =>
      rw [found] at refs
      simp only at refs ⊢
      refine ⟨_, rfl, h.store found ⟨?_, ?_, allFit_of_none rfl _⟩ refs.1 refs.2⟩
      · split <;> exact List.forall_mem_nil _
      · split
        · exact allSane_close h.sane c
        · exact h.sane
  | unpatch slot =>
    simp only [step, bystanders] at refs ⊢
    refine h.act refs fun c found _ => ⟨_, rfl, List.forall_mem_nil _, h.sane, fun f stream => ?_⟩
    have own := h.fit c (List.mem_of_getElem? found) f stream
    refine ⟨own.size_pos, own.aligned, own.plain, fun a cache => ?_⟩
    obtain ⟨d, at_a, started⟩ := own.cached a cache
    exact ⟨d, at_a, started.imp_right fun waiting => ⟨waiting.pos, waiting.offset_lt⟩⟩
  | change slot contents =>
    simp only [step, bystanders] at refs ⊢
    refine h.act refs fun c found _ => ⟨_, rfl, List.forall_mem_nil _, h.sane, ?_⟩
    exact allFit_change (h.fit c (List.mem_of_getElem? found)) contents
  | thread address result positions => exact h.thread address result positions alloc
  | poll =>
    refine ⟨_, rfl, refs.1, fun d hd => ?_, fun c hc => ?_, h.right⟩
    · obtain ⟨e, he, rfl⟩ := List.mem_map.mp hd
      exact sane_settle (h.sane e he)
    · exact (h.fit c hc).kept h.sane refs.2 (fun a => users_ne_zero hc) refs.1.counted.nodup
  | clear =>
    refine ⟨_, rfl, refs.1, fun d hd => h.sane d (List.mem_of_mem_filter hd), fun c hc => ?_, h.right⟩
    exact (h.fit c hc).kept h.sane refs.2 (fun a => users_ne_zero hc) refs.1.counted.nodup
  | shutdown maxclients =>
    refine ⟨_, rfl, refs.1, allSane_cleanAll s.clients h.sane, fun c hc => ?_, h.right⟩
    rw [List.eq_of_mem_replicate hc]
    exact allFit_of_none rfl _

/-- Every sound run goes on, and all chunks of it are right. -/
theorem run_serving (alloc : Allocator) (events : List Event) (h : Serving s)
    (sound : SoundRun alloc s events) : ∃ s', run alloc s events = .ok s' ∧ Serving s' ∧ AllApart s' := by
  induction events generalizing s with
  | nil => exact ⟨s, rfl, h, sound⟩
  | cons e events ih =>
    obtain ⟨apart, current, rest⟩ := sound
    obtain ⟨s', stepped, serving⟩ := step_serving alloc h apart current
    obtain ⟨s'', ran, left⟩ := ih serving (rest s' (by rw [stepped]; rfl))
    exact ⟨s'', bind_of_ok stepped ran, left⟩

theorem serving_start (maxclients : Nat) : Serving (DownloadReferences.start maxclients) where
  refs := inv_start maxclients
  sane := List.forall_mem_nil _
  fit := fun c hc => by
    rw [List.eq_of_mem_replicate hc]
    exact allFit_of_none rfl _
  right := List.forall_mem_nil _

/-- The next chunk of the client in sequence is read of its stream. -/
def FromStream (c : Client) (downloads : List Entry) : Prop :=
  c.downloadcache = none ∨ c.patched < 4 ∧ Packed c downloads

/-- The streams that chunks are read of are where the positions of their clients say. -/
def Synced (s : State) : Prop := ∀ c ∈ s.clients, ∀ f, c.download = some f →
  FromStream c s.downloads → f.pos = c.downloadstart + c.downloadpos

theorem Serving.synced (h : Serving s) (apart : AllApart s) : Synced s := by
  intro c hc f stream source
  have own := h.fit c hc f stream
  have size_pos := own.size_pos
  rcases source with none | ⟨old, a, cache, d, found, started⟩
  · exact own.plain none
  · have zero := apart c hc old a cache d found
    omega

/-- In a sound run every chunk is right, no step stops, and the streams stay where they belong. -/
theorem run_chunks (alloc : Allocator) (maxclients : Nat) (events : List Event)
    (sound : SoundRun alloc (DownloadReferences.start maxclients) events) :
    ∃ s, run alloc (DownloadReferences.start maxclients) events = .ok s ∧
      (∀ k ∈ s.sent, Right k.2) ∧ Synced s := by
  obtain ⟨s, ran, serving, apart⟩ := run_serving alloc events (serving_start maxclients) sound
  exact ⟨s, ran, serving.right, serving.synced apart⟩

/-- The stream has a buffer of 4096 bytes. -/
private def buffering (base : Nat) : Reading where
  filled := (base, 4096)
  sought := some (base, 4096)

private def fewBytes (size : Nat) : Begin where
  name := [0x61]
  downloadid := 1
  blocks := 0
  fsLoadFile := some size
  refused := false
  fsOpenFile := some { contents := List.replicate size 7, pos := 0 }
  mtime := 0
  compressDownloads := false
  downloadPrecache := true
  how := buffering 0

private def nextAddress : Allocator where
  pick used := used.foldr max 0 + 1
  pick_notMem := by
    intro used mem
    have bound (l : List Nat) : ∀ a ∈ l, a ≤ l.foldr max 0 := by
      induction l with
      | nil => exact List.forall_mem_nil _
      | cons b l ih =>
        intro a ha
        rcases List.mem_cons.mp ha with rfl | ha
        · exact Nat.le_max_left _ _
        · exact (ih a ha).trans (Nat.le_max_right _ _)
    have := bound used _ mem
    omega

private def precached : List Event :=
  [.connect 0 4, .begin 0 (fewBytes 1400), .thread 1 none fun _ => 1400, .frame 0 (buffering 0),
    .change 0 (List.replicate 1500 7), .next 0 [{ blocks := 1 }, { blocks := 0 }]]

/-- The file has grown behind the download. -/
theorem run_chunks_precached :
    ∃ s, run nextAddress (DownloadReferences.start 2) precached = .ok s ∧ (∀ k ∈ s.sent, Right k.2) ∧
      Synced s :=
  run_chunks nextAddress 2 precached (by decide +kernel)

private def cutShort : List Event :=
  [.connect 0 4, .begin 0 { fewBytes 5000 with downloadPrecache := false }, .change 0 [7, 7, 7],
    .next 0 [{ blocks := 3, how := buffering 4096 }]]

/-- The file has become shorter, and the block is behind the buffer: the chunk is not of the file. -/
theorem chunk_not_right : ¬∀ (alloc : Allocator) (maxclients : Nat) (events : List Event),
    ∃ s, run alloc (DownloadReferences.start maxclients) events = .ok s ∧
      (∀ k ∈ s.sent, Right k.2) ∧ Synced s := by
  intro all
  obtain ⟨s, ran, right, -⟩ := all nextAddress 1 cutShort
  have outside : ((run nextAddress (DownloadReferences.start 1) cutShort).toOption.map fun s =>
      s.sent.all fun k => decide (k.2.origin + position k.2 + k.2.bytes.length ≤ k.2.source.length)) =
        some false := by decide +kernel
  rw [ran] at outside
  have inside := List.all_eq_true.mpr fun k hk => decide_eq_true (right k hk).source
  exact Bool.false_ne_true ((Option.some.inj outside).symm.trans inside)

end DownloadChunks
