import Kpded2.Bytes
import Kpded2.DownloadCache

/-!
# Downloads

A client's file is read from a stream of its own, or from the buffer of a cache entry. The contents
of the file behind a stream may change at any time; the stream delivers what it has buffered before.
The messages around a chunk, and the requests that are refused before a file is looked for, are left
out. So are the tokens: whether a request is served is part of the request.
-/
namespace Downloads
open Bytes DownloadCache

inductive Stop where
  | fatal | dangling | null | outOfBounds
  deriving DecidableEq

/-- `buffer` is what `stdio` has read of the file from `base` on. -/
structure Stream where
  contents : List UInt8
  pos : Nat
  base : Nat := 0
  buffer : List UInt8 := []

structure Client where
  live : Bool := false
  patched : Int := 0
  download : Option Stream := none
  downloadFileName : List UInt8 := []
  downloadstart : Nat := 0
  downloadsize : Int := 0
  downloadcount : Nat := 0
  downloadid : Int := 0
  downloadoffset : Nat := 0
  downloadpos : Nat := 0
  downloadcache : Option Nat := none

/-- What is sent. `source` and `origin` say what the bytes were read of, and where it begins. -/
structure Chunk where
  extended : Bool
  start : Bool
  downloadid : Int
  block : Int
  size : Int
  offset : Nat
  compressed : Bool
  bytes : List UInt8
  source : List UInt8
  origin : Nat

/-! ## Reading -/

/-- How a read goes: whether it can fail, and what is in the message behind what was read. `filled`
and `sought` are the part of the file that a read and a seek put into the stream's buffer. -/
structure Reading where
  fails : Bool := false
  stale : List UInt8 := []
  filled : Nat × Nat := (0, 0)
  sought : Option (Nat × Nat) := none

def Stream.fill (f : Stream) (part : Nat × Nat) : Stream :=
  { f with base := part.1, buffer := (f.contents.drop part.1).take part.2 }

/-- What is delivered from the buffer. -/
def Stream.buffered (f : Stream) (pos r : Nat) : List UInt8 :=
  if f.base ≤ pos then (f.buffer.drop (pos - f.base)).take r else []

def fread (filled : Nat × Nat) (r : Nat) (f : Stream) : List UInt8 × Stream :=
  let first := f.buffered f.pos r
  let got := first ++ (f.contents.drop (f.pos + first.length)).take (r - first.length)
  let g := if first.length = r then f else f.fill filled
  (got, { g with pos := f.pos + got.length })

theorem fread_length_le (filled : Nat × Nat) (r : Nat) (f : Stream) :
    (fread filled r f).1.length ≤ r := by
  have first : (f.buffered f.pos r).length ≤ r := by
    rw [Stream.buffered]
    split
    · exact List.length_take_le r _
    · exact Nat.zero_le r
  simp only [fread, List.length_append, List.length_take]
  omega

/-- `FS_Read`, which returns after an incomplete read if the stream has no error. -/
def fsRead (how : Reading) (r : Nat) (f : Stream) : Except Stop (List UInt8 × Stream) :=
  let (got, g) := fread how.filled r f
  if got.length = r then .ok (got, g)
  else if how.fails then .error .fatal
  else .ok (got ++ (how.stale ++ List.replicate r 0).take (r - got.length), g)

def Stream.seek (f : Stream) (sought : Option (Nat × Nat)) (pos : Nat) : Stream :=
  { (match sought with
    | none => f
    | some part => f.fill part) with pos }

def fseek (how : Reading) (c : Client) (pos : Nat) : Except Stop Client :=
  match c.download with
  | none => .error .null
  | some f => .ok { c with download := some (f.seek how.sought pos) }

def entryAt (downloads : List Entry) (a : Nat) : Except Stop Entry :=
  match find downloads a with
  | none => .error .dangling
  | some d => .ok d

/-! ## Sending -/

def svCloseDownload (c : Client) (downloads : List Entry) : Client × List Entry :=
  match c.download with
  | none => (c, downloads)
  | some _ =>
    let closed := { c with download := none, downloadsize := 0, downloadFileName := [] }
    match c.downloadcache with
    | none => (closed, downloads)
    | some a => ({ closed with downloadcache := none }, releaseCachedDownload a downloads)

/-- The start of a download that waited for its entry. -/
def startDownload (how : Reading) (c : Client) (downloads : List Entry) :
    Except Stop (Client × List Entry) :=
  match c.downloadcache with
  | none => .ok (c, downloads)
  | some a => do
    let d ← entryAt downloads a
    if d.compbuf.isSome then
      .ok ({ c with downloadsize := d.compsize, downloadpos := 0, downloadcount := 0 }, downloads)
    else do
      let c ← fseek how { c with downloadcache := none } (c.downloadstart + c.downloadoffset)
      .ok (c, releaseCachedDownload a downloads)

/-- The bytes of a chunk from a compressed entry. -/
def compressedBytes (d : Entry) (pos r : Nat) : Except Stop (List UInt8 × List UInt8) :=
  match d.compbuf with
  | none => .error .null
  | some b => if pos + r ≤ b.length then .ok ((b.drop pos).take r, b) else .error .outOfBounds

def streamOf (c : Client) : Except Stop Stream :=
  match c.download with
  | none => .error .null
  | some f => .ok f

/-- The number that says where a chunk belongs. -/
def blockOf (start : Bool) (c : Client) : Int :=
  if c.patched ≥ 4 then
    if start then -(c.downloadoffset : Int) / 1024
    else if c.downloadcache.isSome then (c.downloadpos / 1366 : Nat)
    else ((c.downloadpos : Int) - c.downloadoffset).tdiv 1366
  else (c.downloadpos / 1024 : Nat)

def chunkOf (start : Bool) (c : Client) (compressed : Bool) (bytes source : List UInt8)
    (origin : Nat) : Chunk where
  extended := decide (c.patched ≥ 4)
  start := start
  downloadid := c.downloadid
  block := blockOf start c
  size := c.downloadsize
  offset := c.downloadoffset
  compressed := compressed
  bytes := bytes
  source := source
  origin := origin

/-- The chunk at the position of the client. -/
def makeChunk (how : Reading) (start : Bool) (r : Nat) (c : Client) (downloads : List Entry) :
    Except Stop (Client × Chunk) :=
  match decide (c.patched ≥ 4), c.downloadcache with
  | true, some a => do
    let d ← entryAt downloads a
    let (bytes, source) ← compressedBytes d c.downloadpos r
    .ok (c, chunkOf start c true bytes source 0)
  | _, _ => do
    let f ← streamOf c
    let (bytes, g) ← fsRead how r f
    .ok ({ c with download := some g }, chunkOf start c false bytes f.contents c.downloadstart)

def chunkSize (c : Client) : Nat := if c.patched ≥ 4 then 1366 else 1024

def advance (r : Nat) (c : Client) : Client :=
  { c with
    downloadpos := c.downloadpos + r, downloadcount := max c.downloadcount (c.downloadpos + r) }

/-- The client's position is behind the chunk, and its download ends with the last one. -/
def finishChunk (r : Nat) (c : Client) (downloads : List Entry) (sent : Chunk) :
    Client × List Entry × List Chunk :=
  let c := advance r c
  if (c.downloadcount : Int) ≠ c.downloadsize then (c, downloads, [sent])
  else
    let (c, downloads) := svCloseDownload c downloads
    (c, downloads, [sent])

def sendChunk (how : Reading) (start : Bool) (c : Client) (downloads : List Entry) :
    Except Stop (Client × List Entry × List Chunk) :=
  let r := c.downloadsize - c.downloadpos
  if r < 0 then .ok (c, downloads, [])
  else do
    let r := min r.toNat (chunkSize c)
    let (c, sent) ← makeChunk how start r c downloads
    .ok (finishChunk r c downloads sent)

def pushDownload (how : Reading) (start : Bool) (c : Client) (downloads : List Entry) :
    Except Stop (Client × List Entry × List Chunk) :=
  if start then do
    let (c, downloads) ← startDownload how c downloads
    sendChunk how start c downloads
  else sendChunk how start c downloads

/-! ## Requests -/

/-- An argument of `nextdl2`. -/
structure Request where
  blocks : Int
  served : Bool := true
  how : Reading := {}

/-- The position that is asked for, if the count is in range. -/
def blockOffset (c : Client) (blocks : Int) : Option Nat :=
  if blocks < 0 then none
  else if c.patched ≥ 4 then
    if blocks > c.downloadsize / 1366 then none
    else some (blocks.toNat * 1366 + if c.downloadcache.isNone then c.downloadoffset else 0)
  else if blocks > c.downloadsize / 1024 then none
  else some (blocks.toNat * 1024)

def seekTo (how : Reading) (c : Client) (offset : Nat) : Except Stop Client :=
  if c.downloadpos = offset then .ok c
  else
    let c := { c with downloadpos := offset }
    if c.downloadcache.isNone then fseek how c (c.downloadstart + offset) else .ok c

def nextLoop : List Request → Client → List Entry → Except Stop (Client × List Entry × List Chunk)
  | [], c, downloads => .ok (c, downloads, [])
  | q :: rest, c, downloads =>
    if !q.served then .ok (c, downloads, [])
    else match blockOffset c q.blocks with
      | none => .ok (c, downloads, [])
      | some offset =>
        if (offset : Int) ≥ c.downloadsize then .ok (c, downloads, [])
        else do
          let c ← seekTo q.how c offset
          let (c, downloads, sent) ← pushDownload q.how false c downloads
          if c.patched < 4 ∨ c.download.isNone then .ok (c, downloads, sent)
          else do
            let (c, downloads, more) ← nextLoop rest c downloads
            .ok (c, downloads, sent ++ more)

/-- Whether the client waits for its entry. -/
def waits (c : Client) (downloads : List Entry) : Except Stop Bool :=
  match c.downloadcache with
  | none => .ok false
  | some a => do
    let d ← entryAt downloads a
    .ok (decide (c.downloadsize ≠ d.compsize))

def svNextPushDownload (requests : List Request) (c : Client) (downloads : List Entry) :
    Except Stop (Client × List Entry × List Chunk) :=
  match c.download with
  | none => .ok (c, downloads, [])
  | some _ => do
    if ← waits c downloads then .ok (c, downloads, []) else nextLoop requests c downloads

/-! ## The start of a download -/

/-- A file that is asked for, and what the file system knows of it; `sought` is what the seek to its
offset puts into the stream's buffer. -/
structure Begin where
  name : List UInt8
  downloadid : Int
  blocks : Fin (2 ^ 21)
  fsLoadFile : Option Nat
  refused : Bool
  fsOpenFile : Option Stream
  mtime : Int
  compressDownloads : Bool
  downloadPrecache : Bool
  sought : Option (Nat × Nat) := none
  how : Reading := {}

def Begin.offset (b : Begin) : Nat := b.blocks * 1024

def compresses (b : Begin) (c : Client) : Bool :=
  b.compressDownloads && decide (c.patched ≥ 4) && decide (c.downloadsize - b.offset ≥ 100000) &&
    !decide (ascii ".wav" <:+: b.name)

def wanted (b : Begin) (c : Client) (compress : Bool) : Wanted where
  name := b.name
  size := c.downloadsize
  offset := b.offset
  mtime := b.mtime
  compress := compress

def compressDownload (alloc : Allocator) (b : Begin) (c : Client) (downloads : List Entry) :
    Option Nat × List Entry :=
  if compresses b c then newCachedDownload alloc (wanted b c true) downloads else (none, downloads)

def precacheDownload (alloc : Allocator) (b : Begin) (c : Client) (r : Option Nat × List Entry) :
    Option Nat × List Entry :=
  if r.1.isNone ∧ b.downloadPrecache ∧ ¬ascii "maps/" <+: b.name then
    newCachedDownload alloc (wanted b c false) r.2
  else r

/-- The entry for the client's file, compressed or not. -/
def cacheDownload (alloc : Allocator) (b : Begin) (c : Client) (downloads : List Entry) :
    Option Nat × List Entry :=
  precacheDownload alloc b c (compressDownload alloc b c downloads)

def openDownload (b : Begin) (f : Stream) (c : Client) : Client :=
  { c with
    download := some (if b.offset = 0 then f else f.seek b.sought (f.pos + b.offset))
    downloadstart := f.pos
    downloadoffset := b.offset
    downloadpos := b.offset
    downloadcount := b.offset
    downloadFileName := b.name }

/-- `CachedDownloadReady` on the entry of a client. -/
def cachedDownloadReady (a : Nat) (downloads : List Entry) : Except Stop (Bool × List Entry) := do
  let d ← entryAt downloads a
  .ok (ready d, update a settle downloads)

/-- The download begins when its entry is ready. -/
def pushWhenReady (how : Reading) (c : Client) (downloads : List Entry) :
    Except Stop (Client × List Entry × List Chunk) :=
  match c.downloadcache with
  | none => pushDownload how true c downloads
  | some a => do
    let (isReady, downloads) ← cachedDownloadReady a downloads
    if isReady then pushDownload how true c downloads else .ok (c, downloads, [])

/-- `SV_BeginDownload_f` from where the file is looked for. -/
def svBeginDownload (alloc : Allocator) (b : Begin) (c : Client) (downloads : List Entry) :
    Except Stop (Client × List Entry × List Chunk) :=
  let (c, downloads) := svCloseDownload { c with downloadid := b.downloadid } downloads
  match b.fsLoadFile with
  | none => .ok ({ c with downloadsize := -1 }, downloads, [])
  | some size =>
    let c := { c with downloadsize := size }
    if b.refused ∨ b.offset ≥ size then .ok (c, downloads, [])
    else match b.fsOpenFile with
      | none => .ok (c, downloads, [])
      | some f =>
        let c := openDownload b f c
        let (a, downloads) := cacheDownload alloc b c downloads
        pushWhenReady b.how { c with downloadcache := a } downloads

/-! ## The server -/

structure State where
  clients : List Client
  downloads : List Entry := []
  sent : List (Nat × Chunk) := []

inductive Event where
  /-- A download request of a client that is loading. -/
  | begin (slot : Nat) (b : Begin)
  | next (slot : Nat) (requests : List Request)
  /-- A frame that sends to a client. -/
  | frame (slot : Nat) (how : Reading)
  /-- The end of a download by `SV_ClientBegin`, or of a client by `SV_CleanClient`. -/
  | close (slot : Nat)
  | clean (slot : Nat)
  | connect (slot : Nat) (patched : Int)
  /-- `SV_Patched_f` with anything unexpected. -/
  | unpatch (slot : Nat)
  /-- The contents of an open file change. -/
  | change (slot : Nat) (contents : List UInt8)
  /-- The thread of an entry ends. It has moved the streams that share its file. -/
  | thread (address : Nat) (result : Option (List UInt8)) (positions : Nat → Nat)
  | poll
  /-- `ClearCachedDownloads`, on a new map or for an empty server. -/
  | clear
  /-- `SV_Shutdown`, and the clients of the next game. -/
  | shutdown (maxclients : Nat)

/-- The result of a step of one client. -/
def State.store (s : State) (slot : Nat) (r : Client × List Entry × List Chunk) : State :=
  { clients := s.clients.set slot r.1, downloads := r.2.1
    sent := s.sent ++ r.2.2.map fun chunk => (slot, chunk) }

/-- A step of a client that is connected. -/
def State.act (s : State) (slot : Nat)
    (f : Client → List Entry → Except Stop (Client × List Entry × List Chunk)) : Except Stop State :=
  match s.clients[slot]? with
  | none => .ok s
  | some c => if c.live then (f c s.downloads).map (s.store slot) else .ok s

def svFrame (how : Reading) (c : Client) (downloads : List Entry) :
    Except Stop (Client × List Entry × List Chunk) := do
  if c.downloadcache.isSome ∧ (← waits c downloads) then pushWhenReady how c downloads
  else .ok (c, downloads, [])

def closeStep (c : Client) (downloads : List Entry) : Client × List Entry × List Chunk :=
  let r := svCloseDownload c downloads
  (r.1, r.2, [])

def svCleanClient (c : Client) (downloads : List Entry) : Client × List Entry × List Chunk :=
  let r := svCloseDownload c downloads
  ({ r.1 with live := false }, r.2, [])

/-- The threads move the streams of the clients that wait for them. -/
def moveStream (downloads : List Entry) (address pos : Nat) (c : Client) : Client :=
  if c.downloadcache = some address ∧ (find downloads address).any Entry.running then
    { c with download := c.download.map fun f => { f with pos } }
  else c

/-- Every client that is connected is cleaned. -/
def cleanAll : List Client → List Entry → List Entry
  | [], downloads => downloads
  | c :: rest, downloads =>
    cleanAll rest (if c.live then (svCleanClient c downloads).2.1 else downloads)

def step (alloc : Allocator) (s : State) : Event → Except Stop State
  | .begin slot b => s.act slot (svBeginDownload alloc b)
  | .next slot requests => s.act slot (svNextPushDownload requests)
  | .frame slot how => s.act slot (svFrame how)
  | .close slot => s.act slot fun c downloads => .ok (closeStep c downloads)
  | .clean slot => s.act slot fun c downloads => .ok (svCleanClient c downloads)
  | .connect slot patched =>
    match s.clients[slot]? with
    | none => .ok s
    | some c =>
      -- a slot that never got cleaned is cleaned first
      let r := if c.download.isSome then svCleanClient c s.downloads else (c, s.downloads, [])
      .ok (s.store slot ({ live := true, patched }, r.2))
  | .unpatch slot => s.act slot fun c downloads => .ok ({ c with patched := 0 }, downloads, [])
  | .change slot contents => s.act slot fun c downloads =>
    .ok ({ c with download := c.download.map fun f => { f with contents } }, downloads, [])
  | .thread address result positions => .ok { s with
      clients := s.clients.mapIdx fun slot c => moveStream s.downloads address (positions slot) c
      downloads := update address (endThread result) s.downloads }
  | .poll => .ok { s with downloads := pollCachedDownloads s.downloads }
  | .clear => .ok { s with downloads := clearCachedDownloads s.downloads }
  | .shutdown maxclients => .ok { s with
      clients := List.replicate maxclients {}, downloads := cleanAll s.clients s.downloads }

def run (alloc : Allocator) (s : State) : List Event → Except Stop State
  | [] => .ok s
  | e :: events => do
    let s ← step alloc s e
    run alloc s events

end Downloads
