import Kpded2.Bytes
import Kpded2.StepRuns
import Mathlib.Data.List.Infix
import Mathlib.Logic.Function.Basic

/-!
# The cache of file lookups

`FS_FOpenFile` keeps what a search has found under the name that was asked for, and a later call
for the name takes it from there. The names of the cache are compared as `LINUX` does. What it
found is kept in a block from `malloc`, so that a name or a path that fills its buffer has no
terminator of its own.
-/
namespace FileCache
open Bytes StepRuns

abbrev Path := List UInt8

/-! ## Files -/

structure Stat where
  dir : Bool
  size : Nat

/-- `stat`, and the bytes that `fopen` gives. -/
structure Disk where
  stat : Path → Option Stat
  fopen : Path → Option (List UInt8)

/-- `none` is -1. -/
def sysFileLength (disk : Disk) (path : Path) : Option Nat :=
  match disk.stat path with
  | none => none
  | some st => if st.dir then none else some st.size

inductive PackType where
  | quake
  | zip
  deriving DecidableEq

structure PackFile where
  filepos : Nat
  filelen : Nat

/-- `find` is `rbfind` with the names, and `handle` tells the open handles apart. -/
structure Pack where
  filename : Path
  named : filename ≠ []
  bytes : List UInt8
  handle : Nat
  type : PackType
  find : Path → Option PackFile

inductive SearchPath where
  | dir (filename : Path)
  | pack (pak : Pack)

structure FileLink where
  linkFrom : Path
  linkTo : Path

structure FileSystem where
  disk : Disk
  fsNoextern : Bool
  fsLinks : List FileLink
  fsSearchpaths : List SearchPath

/-! ## The cache -/

def maxQpath : Nat := 64
def maxOspath : Nat := 128

structure CacheEntry where
  filepath : Path
  filelen : Nat
  fileseek : Nat
  pak : Option Pack

/-- The cache, and where the handles of the packs are. -/
structure State where
  cache : Path → Option CacheEntry
  pos : Nat → Nat

/-- What is in a new block: the last bytes of the two buffers, and the string behind the second. -/
structure Junk where
  name : UInt8
  path : UInt8
  behind : Path

inductive HandleStyle where
  | handleNone
  | handleOpen
  | handleDupe
  deriving DecidableEq

structure Call where
  filename : Path
  openHandle : HandleStyle
  fsCache : Nat
  q2Initialized : Bool
  junk : Junk

/-- The string that begins with a byte. -/
def cString (c : UInt8) (rest : Path) : Path := if c = 0 then [] else c :: rest

/-- The string in a buffer after `strncpy` with one less than its size. -/
def strncpyString (size : Nat) (s last : Path) : Path :=
  if s.length < size - 1 then s else s.take (size - 1) ++ last

def storedPath (junk : Junk) (path : Path) : Path :=
  strncpyString maxOspath path (cString junk.path junk.behind)

def fsAddToCache (s : State) (call : Call) (path : Option Path) (filelen fileseek : Nat)
    (pak : Option Pack) : State :=
  if !call.q2Initialized then s
  else
    let filepath := match path with
      | some path => storedPath call.junk path
      | none => []
    let filename := strncpyString maxQpath call.filename (cString call.junk.name filepath)
    { s with cache := Function.update s.cache filename (some { filepath, filelen, fileseek, pak }) }

/-! ## Opening -/

inductive Handle where
  | opened (path : Path)
  | shared (handle : Nat)
  deriving DecidableEq

structure OpenFile where
  handle : Handle
  bytes : List UInt8
  pos : Nat
  deriving DecidableEq

/-- What is returned and written; `none` for `file` and `closeHandle` is nothing. -/
structure Result where
  length : Option Nat
  file : Option (Option OpenFile) := none
  closeHandle : Option Bool := none
  lastpakfile : Option Path := none
  deriving DecidableEq

def hasUpper (s : Path) : Bool := s.any fun c => 65 ≤ c && c ≤ 90

def lowered (filename : Path) : Path := (filename.take (maxQpath - 1)).map toLower

def comSprintf (s : Path) : Path := s.take (maxOspath - 1)

def netpath (fs : FileSystem) (dir filename : Path) : Path :=
  let asked := comSprintf (dir ++ 47 :: filename)
  if hasUpper filename && (sysFileLength fs.disk asked).isNone then
    comSprintf (dir ++ 47 :: lowered filename)
  else asked

/-- The path that a link leads to. -/
def linked (fs : FileSystem) (filename : Path) : Option Path :=
  if fs.fsNoextern then none
  else (fs.fsLinks.find? fun link => link.linkFrom.isPrefixOf filename).map fun link =>
    comSprintf (link.linkTo ++ filename.drop link.linkFrom.length)

def openLinked (fs : FileSystem) (style : HandleStyle) (path : Path) : Result :=
  if style ≠ .handleNone then
    match fs.disk.fopen path with
    | some bytes =>
      { length := some bytes.length, file := some (some ⟨.opened path, bytes, 0⟩)
        closeHandle := some true }
    | none => { length := none, file := some none }
  else { length := sysFileLength fs.disk path }

/-- A call whose name is in the cache. -/
def fromCache (fs : FileSystem) (s : State) (call : Call) (cache : CacheEntry) : State × Result :=
  if cache.filepath = [] then (s, { length := none, file := some none })
  else
    let lastpakfile := cache.pak.map Pack.filename
    let deleted := { s with cache := Function.update s.cache call.filename none }
    if call.openHandle ≠ .handleNone then
      match cache.pak with
      | some pak =>
        if call.openHandle = .handleDupe then
          match fs.disk.fopen pak.filename with
          | none => (deleted, { length := none, file := some none })
          | some bytes =>
            (s, { length := some cache.filelen, closeHandle := some true, lastpakfile
                  file := some (some ⟨.opened pak.filename, bytes, cache.fileseek⟩) })
        else
          let pos := if cache.fileseek ≠ 0 then cache.fileseek else s.pos pak.handle
          ({ s with pos := Function.update s.pos pak.handle pos },
            { length := some cache.filelen, closeHandle := some false, lastpakfile
              file := some (some ⟨.shared pak.handle, pak.bytes, pos⟩) })
      | none =>
        match fs.disk.fopen cache.filepath with
        | none => (deleted, { length := none, file := some none })
        | some bytes =>
          (s, { length := some cache.filelen, closeHandle := some true, lastpakfile
                file := some (some ⟨.opened cache.filepath, bytes, cache.fileseek⟩) })
    else (s, { length := some cache.filelen, lastpakfile })

/-- A file in a pack. A handle that `fopen` does not give cannot be sought: `none`. -/
def openPacked (fs : FileSystem) (s : State) (call : Call) (pak : Pack) (entry : PackFile) :
    Option (State × Result) := do
  let length := some entry.filelen
  let lastpakfile := some pak.filename
  let (s, result) ←
    if call.openHandle = .handleNone then some (s, { length, lastpakfile })
    else if call.openHandle = .handleDupe then
      (fs.disk.fopen pak.filename).map fun bytes =>
        (s, { length, lastpakfile, closeHandle := some true
              file := some (some ⟨.opened pak.filename, bytes, entry.filepos⟩) })
    else
      some ({ s with pos := Function.update s.pos pak.handle entry.filepos },
        { length, lastpakfile, closeHandle := some false
          file := some (some ⟨.shared pak.handle, pak.bytes, entry.filepos⟩) })
  let s :=
    if call.fsCache.testBit 0 then
      fsAddToCache s call (some pak.filename) entry.filelen entry.filepos (some pak)
    else s
  some (s, result)

/-- The loop over the search paths. -/
def searchPaths (fs : FileSystem) (s : State) (call : Call) :
    List SearchPath → Option (State × Result)
  | [] =>
    some (if call.fsCache.testBit 1 then fsAddToCache s call none 0 0 none else s,
      { length := none, file := some none })
  | .pack pak :: rest =>
    match if pak.type = .quake then pak.find (lowered call.filename) else none with
    | some entry => openPacked fs s call pak entry
    | none => searchPaths fs s call rest
  | .dir filename :: rest =>
    if fs.fsNoextern then searchPaths fs s call rest
    else
      let path := netpath fs filename call.filename
      let added (filelen : Nat) :=
        if call.fsCache.testBit 2 then fsAddToCache s call (some path) filelen 0 none else s
      if call.openHandle = .handleNone then
        match sysFileLength fs.disk path with
        | none => searchPaths fs s call rest
        | some filelen => some (added filelen, { length := some filelen })
      else
        match fs.disk.stat path with
        | none => searchPaths fs s call rest
        | some st =>
          if st.dir then searchPaths fs s call rest
          else
            match fs.disk.fopen path with
            | none => searchPaths fs s call rest
            | some bytes =>
              some (added bytes.length,
                { length := some bytes.length, closeHandle := some true
                  file := some (some ⟨.opened path, bytes, 0⟩) })

/-- `none` is a crash. -/
def fsFOpenFile (fs : FileSystem) (s : State) (call : Call) : Option (State × Result) :=
  match linked fs call.filename with
  | some path => some (s, openLinked fs call.openHandle path)
  | none =>
    match s.cache call.filename with
    | some cache => some (fromCache fs s call cache)
    | none => searchPaths fs s call fs.fsSearchpaths

/-! ## Loading -/

/-- `none` for the buffer is nothing written, and `some none` a null pointer. -/
structure Loaded where
  length : Option Nat
  buffer : Option (Option (List UInt8)) := none
  lastpakfile : Option Path
  deriving DecidableEq

/-- What `FS_Read` delivers. -/
def fsRead (f : OpenFile) (len : Nat) : List UInt8 := (f.bytes.drop f.pos).take len

/-- The rest of `FS_LoadFile`. -/
def loadOpened (buffer : Bool) (s : State) (r : Result) : State × Loaded :=
  let lastpakfile := r.lastpakfile
  match r.length with
  | none => (s, { length := none, buffer := if buffer then some none else none, lastpakfile })
  | some len =>
    if !buffer then (s, { length := some len, lastpakfile })
    else if len = 0 then (s, { length := some 0, buffer := some (some []), lastpakfile })
    else
      match r.file with
      | some (some f) =>
        let read := fsRead f len
        let s := match f.handle with
          | .shared handle => { s with pos := Function.update s.pos handle (f.pos + read.length) }
          | .opened _ => s
        (s, { length := some len, buffer := some (some read), lastpakfile })
      | _ => (s, { length := some len, lastpakfile })

/-- What `FS_LoadFile` asks for. -/
def loads (call : Call) (buffer : Bool) : Call :=
  { call with openHandle := if buffer then .handleOpen else .handleNone }

def fsLoadFile (fs : FileSystem) (s : State) (call : Call) (buffer : Bool) :
    Option (State × Loaded) :=
  (fsFOpenFile fs s (loads call buffer)).map fun (s, r) => loadOpened buffer s r

/-! ## Runs -/

/-- The calls; between them the handle of a pack may be read from. -/
inductive Op where
  | fopenFile (call : Call)
  | loadFile (call : Call) (buffer : Bool)
  | move (handle pos : Nat)

def step (fs : FileSystem) (s : State) : Op → State
  | .fopenFile call => ((fsFOpenFile fs s call).map Prod.fst).getD s
  | .loadFile call buffer => ((fsLoadFile fs s call buffer).map Prod.fst).getD s
  | .move handle pos => { s with pos := Function.update s.pos handle pos }

/-- The cache is emptied. -/
def emptied (s : State) : State := { s with cache := fun _ => none }

/-- The call returns what it does with an empty cache. -/
def Same (fs : FileSystem) (s : State) : Op → Prop
  | .fopenFile call =>
    (fsFOpenFile fs s call).map Prod.snd = (fsFOpenFile fs (emptied s) call).map Prod.snd
  | .loadFile call buffer =>
    (fsLoadFile fs s call buffer).map Prod.snd = (fsLoadFile fs (emptied s) call buffer).map Prod.snd
  | .move _ _ => True

instance (fs : FileSystem) (s : State) : ∀ op, Decidable (Same fs s op)
  | .fopenFile _ => inferInstanceAs (Decidable (_ = _))
  | .loadFile _ _ => inferInstanceAs (Decidable (_ = _))
  | .move _ _ => inferInstanceAs (Decidable True)

/-! ## What a search finds -/

inductive Found where
  | missing
  | packed (pak : Pack) (entry : PackFile)
  | plain (path : Path) (filelen : Nat)

/-- How long a file on disk is to a search; `none` where it goes on. -/
def lengthFor (disk : Disk) (style : HandleStyle) (path : Path) : Option Nat :=
  if style = .handleNone then sysFileLength disk path
  else if (sysFileLength disk path).isSome then (disk.fopen path).map List.length
  else none

def find (fs : FileSystem) (style : HandleStyle) (filename : Path) : List SearchPath → Found
  | [] => .missing
  | .pack pak :: rest =>
    match if pak.type = .quake then pak.find (lowered filename) else none with
    | some entry => .packed pak entry
    | none => find fs style filename rest
  | .dir dir :: rest =>
    if fs.fsNoextern then find fs style filename rest
    else
      match lengthFor fs.disk style (netpath fs dir filename) with
      | some filelen => .plain (netpath fs dir filename) filelen
      | none => find fs style filename rest

/-- Which bit of `fs_cache` keeps it. -/
def Found.bit : Found → Nat
  | .packed _ _ => 0
  | .missing => 1
  | .plain _ _ => 2

/-- What is returned for a file on disk. -/
def openPlain (fs : FileSystem) (style : HandleStyle) (path : Path) (filelen : Nat) : Result :=
  if style = .handleNone then { length := some filelen }
  else
    { length := some filelen, closeHandle := some true
      file := some ((fs.disk.fopen path).map fun bytes => ⟨.opened path, bytes, 0⟩) }

/-- The end of a search. -/
def answer (fs : FileSystem) (s : State) (call : Call) : Found → Option (State × Result)
  | .missing =>
    some (if call.fsCache.testBit 1 then fsAddToCache s call none 0 0 none else s,
      { length := none, file := some none })
  | .packed pak entry => openPacked fs s call pak entry
  | .plain path filelen =>
    some (if call.fsCache.testBit 2 then fsAddToCache s call (some path) filelen 0 none else s,
      openPlain fs call.openHandle path filelen)

/-- An open does not take a directory for a file either. -/
theorem lengthFor_open {style : HandleStyle} (opens : style ≠ .handleNone) (disk : Disk)
    (path : Path) : lengthFor disk style path =
      match disk.stat path with
      | none => none
      | some st => if st.dir then none else (disk.fopen path).map List.length := by
  unfold lengthFor sysFileLength
  rw [if_neg opens]
  split
  · rfl
  · next st _ =>
    by_cases directory : st.dir = true
    · simp [directory]
    · simp [directory]

/-- The search answers with the first match of the paths. -/
theorem searchPaths_eq (fs : FileSystem) (s : State) (call : Call) (paths : List SearchPath) :
    searchPaths fs s call paths =
      answer fs s call (find fs call.openHandle call.filename paths) := by
  induction paths with
  | nil => rfl
  | cons search rest ih =>
    cases search with
    | pack pak =>
      simp only [searchPaths, find, ih]
      split
      · rfl
      · rfl
    | dir dir =>
      simp only [searchPaths, find, ih]
      split
      · rfl
      · by_cases style : call.openHandle = .handleNone
        · simp only [style, if_true, lengthFor]
          cases sysFileLength fs.disk (netpath fs dir call.filename) with
          | none => rfl
          | some filelen => simp only [answer, openPlain, style, if_true]
        · rw [if_neg style, lengthFor_open style]
          cases fs.disk.stat (netpath fs dir call.filename) with
          | none => rfl
          | some st =>
            simp only
            cases st.dir with
            | true => rfl
            | false =>
              cases opened : fs.disk.fopen (netpath fs dir call.filename) with
              | none => rfl
              | some bytes => simp [answer, openPlain, style, opened]

/-! ## What the cache can replay -/

/-- The first file on disk that a search comes to can be opened. -/
def Readable (fs : FileSystem) (filename : Path) : List SearchPath → Prop
  | [] => True
  | .pack pak :: rest =>
    match if pak.type = .quake then pak.find (lowered filename) else none with
    | some _ => True
    | none => Readable fs filename rest
  | .dir dir :: rest =>
    if fs.fsNoextern then Readable fs filename rest
    else
      match sysFileLength fs.disk (netpath fs dir filename) with
      | some filelen =>
        (fs.disk.fopen (netpath fs dir filename)).map List.length = some filelen
      | none => Readable fs filename rest

/-- All calls for the name find the same then. -/
theorem find_style {fs : FileSystem} {filename : Path} {paths : List SearchPath}
    (readable : Readable fs filename paths) (style : HandleStyle) :
    find fs style filename paths = find fs .handleNone filename paths := by
  induction paths with
  | nil => rfl
  | cons search rest ih =>
    cases search with
    | pack pak =>
      simp only [Readable, find] at readable ⊢
      split
      · rfl
      · next missing =>
        rw [missing] at readable
        exact ih readable
    | dir dir =>
      simp only [Readable, find] at readable ⊢
      split
      · next noextern =>
        rw [if_pos noextern] at readable
        exact ih readable
      · next outside =>
        rw [if_neg outside] at readable
        cases length : sysFileLength fs.disk (netpath fs dir filename) with
        | none =>
          rw [length] at readable
          simp only [lengthFor, length, Option.isSome_none, Bool.false_eq_true, if_false, ite_self]
          exact ih readable
        | some filelen =>
          rw [length] at readable
          simp only [lengthFor, length, Option.isSome_some, if_true, readable, ite_self]

theorem netpath_ne_nil (fs : FileSystem) (dir filename : Path) : netpath fs dir filename ≠ [] := by
  have sprintf : ∀ rest : Path, comSprintf (dir ++ 47 :: rest) ≠ [] := by
    intro rest empty
    rcases List.take_eq_nil_iff.mp empty with short | empty
    · exact absurd short (by decide)
    · exact absurd empty (List.append_ne_nil_of_right_ne_nil dir (List.cons_ne_nil 47 rest))
  simp only [netpath]
  split
  · exact sprintf (lowered filename)
  · exact sprintf filename

/-- What is found on disk can be opened, and has a name. -/
theorem find_plain {fs : FileSystem} {filename path : Path} {filelen : Nat}
    {paths : List SearchPath} (readable : Readable fs filename paths)
    (found : find fs .handleNone filename paths = .plain path filelen) :
    (fs.disk.fopen path).map List.length = some filelen ∧ path ≠ [] := by
  induction paths with
  | nil => exact Found.noConfusion found
  | cons search rest ih =>
    cases search with
    | pack pak =>
      simp only [Readable, find] at readable found
      split at found
      · exact Found.noConfusion found
      · next missing =>
        rw [missing] at readable
        exact ih readable found
    | dir dir =>
      simp only [Readable, find] at readable found
      split at found
      · next noextern =>
        rw [if_pos noextern] at readable
        exact ih readable found
      · next outside =>
        rw [if_neg outside] at readable
        simp only [lengthFor, if_true] at found
        cases length : sysFileLength fs.disk (netpath fs dir filename) with
        | none =>
          rw [length] at readable found
          exact ih readable found
        | some here =>
          rw [length] at readable found
          cases found
          exact ⟨readable, netpath_ne_nil fs dir filename⟩

/-- A string and its terminator have room in a buffer, or what follows is a terminator. -/
def Fits (size : Nat) (last : UInt8) (s : Path) : Prop :=
  s.length + 1 < size ∨ s.length + 1 = size ∧ last = 0

/-- What a call keeps does for every later call. -/
def Storable (fs : FileSystem) (call : Call) : Prop :=
  Fits maxQpath call.junk.name call.filename ∧ Readable fs call.filename fs.fsSearchpaths ∧
    match find fs call.openHandle call.filename fs.fsSearchpaths with
    | .missing => True
    | .packed pak entry => entry.filepos ≠ 0 ∧ fs.disk.fopen pak.filename ≠ none
    | .plain path _ => Fits maxOspath call.junk.path path

/-- When a call puts its name into the cache. -/
def Stores (fs : FileSystem) (s : State) (call : Call) : Prop :=
  linked fs call.filename = none ∧ s.cache call.filename = none ∧ call.q2Initialized = true ∧
    call.fsCache.testBit (find fs call.openHandle call.filename fs.fsSearchpaths).bit = true

def Good (fs : FileSystem) (s : State) : Op → Prop
  | .fopenFile call => Stores fs s call → Storable fs call
  | .loadFile call buffer => Stores fs s (loads call buffer) → Storable fs (loads call buffer)
  | .move _ _ => True

/-- An entry that does for every call with its name. -/
def Replays (fs : FileSystem) (filename : Path) (cache : CacheEntry) : Prop :=
  Readable fs filename fs.fsSearchpaths ∧
    match find fs .handleNone filename fs.fsSearchpaths with
    | .missing => cache.filepath = []
    | .packed pak entry =>
      cache.filepath ≠ [] ∧ cache.pak = some pak ∧ cache.filelen = entry.filelen ∧
        cache.fileseek = entry.filepos ∧ entry.filepos ≠ 0 ∧ fs.disk.fopen pak.filename ≠ none
    | .plain path filelen =>
      cache.filepath = path ∧ cache.pak = none ∧ cache.filelen = filelen ∧ cache.fileseek = 0

def Sound (fs : FileSystem) (s : State) : Prop :=
  ∀ filename cache, s.cache filename = some cache → Replays fs filename cache

/-! ## Calls whose name is in the cache -/

/-- A call that is answered from the cache is answered as a search would. -/
theorem fromCache_eq {fs : FileSystem} {s other : State} {call : Call} {cache : CacheEntry}
    (replays : Replays fs call.filename cache) :
    some (fromCache fs s call cache).2 = (searchPaths fs other call fs.fsSearchpaths).map Prod.snd := by
  obtain ⟨readable, entry⟩ := replays
  rw [searchPaths_eq, find_style readable]
  cases found : find fs .handleNone call.filename fs.fsSearchpaths with
  | missing =>
    rw [found] at entry
    simp only at entry
    simp only [fromCache, if_pos entry, answer, Option.map_some]
  | packed pak file =>
    rw [found] at entry
    obtain ⟨named, isPak, length, seek, nonzero, opened⟩ := entry
    obtain ⟨bytes, opened⟩ := Option.ne_none_iff_exists'.mp opened
    simp only [fromCache, if_neg named, answer, openPacked, isPak, length, seek, opened]
    cases call.openHandle with
    | handleNone => rfl
    | handleOpen =>
      simp only [if_pos nonzero]
      rfl
    | handleDupe => rfl
  | plain path filelen =>
    rw [found] at entry
    obtain ⟨named, isPak, length, seek⟩ := entry
    obtain ⟨opened, nonempty⟩ := find_plain readable found
    obtain ⟨bytes, opened, -⟩ := Option.map_eq_some_iff.mp opened
    subst named
    simp only [fromCache, if_neg nonempty, answer, openPlain, isPak, length, seek, opened]
    cases call.openHandle with
    | handleNone => rfl
    | handleOpen => rfl
    | handleDupe => rfl

/-- What a search returns does not depend on the state. -/
theorem answer_result (fs : FileSystem) (s other : State) (call : Call) (found : Found) :
    (answer fs s call found).map Prod.snd = (answer fs other call found).map Prod.snd := by
  cases found with
  | missing => rfl
  | plain path filelen => rfl
  | packed pak entry =>
    simp only [answer, openPacked]
    cases call.openHandle with
    | handleNone => rfl
    | handleOpen => rfl
    | handleDupe => cases fs.disk.fopen pak.filename <;> rfl

/-- A cache that replays its entries is not seen. -/
theorem Sound.fsFOpenFile_eq {fs : FileSystem} {s : State} (sound : Sound fs s) (call : Call) :
    (fsFOpenFile fs s call).map Prod.snd = (fsFOpenFile fs (emptied s) call).map Prod.snd := by
  unfold fsFOpenFile
  cases linked fs call.filename with
  | some path => rfl
  | none =>
    simp only [emptied]
    cases kept : s.cache call.filename with
    | none =>
      rw [searchPaths_eq, searchPaths_eq]
      exact answer_result fs s _ call _
    | some cache => exact fromCache_eq (sound call.filename cache kept)

theorem loadOpened_result (buffer : Bool) (s other : State) (r : Result) :
    (loadOpened buffer s r).2 = (loadOpened buffer other r).2 := by
  simp only [loadOpened]
  cases r.length with
  | none => rfl
  | some len =>
    cases buffer with
    | false => rfl
    | true =>
      by_cases empty : len = 0
      · simp only [empty, if_true, Bool.not_true, Bool.false_eq_true, if_false]
      · simp only [empty, Bool.not_true, Bool.false_eq_true, if_false]
        cases r.file with
        | none => rfl
        | some file => cases file <;> rfl

theorem load_result (buffer : Bool) (s : State) (opened : Option (State × Result)) :
    (opened.map fun (s, r) => loadOpened buffer s r).map Prod.snd =
      (opened.map Prod.snd).map fun r => (loadOpened buffer s r).2 := by
  cases opened with
  | none => rfl
  | some opened => exact congrArg some (loadOpened_result buffer opened.1 s opened.2)

theorem Sound.same {fs : FileSystem} {s : State} (sound : Sound fs s) (op : Op) :
    Same fs s op := by
  cases op with
  | fopenFile call => exact sound.fsFOpenFile_eq call
  | loadFile call buffer =>
    have opened := sound.fsFOpenFile_eq (loads call buffer)
    simp only [Same, fsLoadFile, load_result buffer s]
    rw [opened]
  | move handle pos => trivial

/-! ## What the calls put into the cache -/

theorem strncpyString_fits {size : Nat} {last : UInt8} {s behind : Path} (fits : Fits size last s) :
    strncpyString size s (cString last behind) = s := by
  unfold strncpyString
  rcases fits with room | ⟨full, rfl⟩
  · exact if_pos (by omega)
  · rw [if_neg (by omega), List.take_of_length_le (by omega)]
    exact List.append_nil s

theorem strncpyString_ne_nil {size : Nat} {s last : Path} (room : 1 < size) (nonempty : s ≠ []) :
    strncpyString size s last ≠ [] := by
  unfold strncpyString
  split
  · exact nonempty
  · refine List.append_ne_nil_of_left_ne_nil (fun empty => ?_) last
    rcases List.take_eq_nil_iff.mp empty with none | empty
    · omega
    · exact nonempty empty

theorem Sound.of_cache {fs : FileSystem} {s s' : State} (sound : Sound fs s)
    (same : s'.cache = s.cache) : Sound fs s' := by
  intro filename cache kept
  rw [same] at kept
  exact sound filename cache kept

/-- A new entry takes the place of what is there under its name. -/
theorem Sound.fsAddToCache {fs : FileSystem} {s : State} {call : Call} {path : Option Path}
    {filelen fileseek : Nat} {pak : Option Pack} (sound : Sound fs s)
    (good : call.q2Initialized = true → Fits maxQpath call.junk.name call.filename ∧
      Replays fs call.filename
        ⟨(path.map (storedPath call.junk)).getD [], filelen, fileseek, pak⟩) :
    Sound fs (fsAddToCache s call path filelen fileseek pak) := by
  unfold FileCache.fsAddToCache
  cases early : call.q2Initialized with
  | false => exact sound
  | true =>
    obtain ⟨fits, replays⟩ := good early
    simp only [Bool.not_true, Bool.false_eq_true, if_false, strncpyString_fits fits]
    intro filename cache kept
    by_cases same : filename = call.filename
    · subst same
      simp only [Function.update_self] at kept
      cases kept
      cases path with
      | none => exact replays
      | some path => exact replays
    · simp only [Function.update_of_ne same] at kept
      exact sound filename cache kept

/-- Opening a file in a pack moves a handle before the file is kept. -/
theorem openPacked_state {fs : FileSystem} {s : State} {call : Call} {pak : Pack}
    {entry : PackFile} {result : State × Result}
    (returns : openPacked fs s call pak entry = some result) :
    ∃ moved : State, moved.cache = s.cache ∧ result.1 =
      if call.fsCache.testBit 0 then
        fsAddToCache moved call (some pak.filename) entry.filelen entry.filepos (some pak)
      else moved := by
  simp only [openPacked] at returns
  cases style : call.openHandle with
  | handleNone =>
    rw [style] at returns
    cases returns
    exact ⟨s, rfl, rfl⟩
  | handleOpen =>
    rw [style] at returns
    cases returns
    exact ⟨{ s with pos := Function.update s.pos pak.handle entry.filepos }, rfl, rfl⟩
  | handleDupe =>
    rw [style] at returns
    cases opened : fs.disk.fopen pak.filename with
    | none =>
      rw [opened] at returns
      cases returns
    | some bytes =>
      rw [opened] at returns
      cases returns
      exact ⟨s, rfl, rfl⟩

/-- A search keeps what does for every call. -/
theorem Sound.answer {fs : FileSystem} {s : State} {call : Call} (sound : Sound fs s)
    (out : linked fs call.filename = none) (absent : s.cache call.filename = none)
    (good : Stores fs s call → Storable fs call) {result : State × Result}
    (returns : answer fs s call (find fs call.openHandle call.filename fs.fsSearchpaths) =
      some result) : Sound fs result.1 := by
  unfold Stores Storable at good
  cases found : find fs call.openHandle call.filename fs.fsSearchpaths with
  | missing =>
    rw [found] at returns good
    cases returns
    split
    · next bit =>
      refine sound.fsAddToCache fun initialized => ?_
      obtain ⟨fits, readable, -⟩ := good ⟨out, absent, initialized, bit⟩
      refine ⟨fits, readable, ?_⟩
      rw [← find_style readable call.openHandle, found]
      rfl
    · exact sound
  | packed pak entry =>
    rw [found] at returns good
    obtain ⟨moved, same, state⟩ := openPacked_state returns
    rw [state]
    split
    · next bit =>
      refine (sound.of_cache same).fsAddToCache fun initialized => ?_
      obtain ⟨fits, readable, nonzero, opened⟩ := good ⟨out, absent, initialized, bit⟩
      refine ⟨fits, readable, ?_⟩
      rw [← find_style readable call.openHandle, found]
      exact ⟨strncpyString_ne_nil (by decide) pak.named, rfl, rfl, rfl, nonzero, opened⟩
    · exact sound.of_cache same
  | plain path filelen =>
    rw [found] at returns good
    cases returns
    split
    · next bit =>
      refine sound.fsAddToCache fun initialized => ?_
      obtain ⟨fits, readable, pathFits⟩ := good ⟨out, absent, initialized, bit⟩
      refine ⟨fits, readable, ?_⟩
      rw [← find_style readable call.openHandle, found]
      exact ⟨strncpyString_fits pathFits, rfl, rfl, rfl⟩
    · exact sound

theorem Sound.deleted {fs : FileSystem} {s : State} (sound : Sound fs s) (filename : Path) :
    Sound fs { s with cache := Function.update s.cache filename none } := by
  intro other cache kept
  by_cases same : other = filename
  · subst same
    simp only [Function.update_self] at kept
    cases kept
  · simp only [Function.update_of_ne same] at kept
    exact sound other cache kept

theorem Sound.fromCache {fs : FileSystem} {s : State} (sound : Sound fs s) (call : Call)
    (cache : CacheEntry) : Sound fs (fromCache fs s call cache).1 := by
  unfold FileCache.fromCache
  split
  · exact sound
  · simp only
    split
    · split
      · split
        · split
          · exact sound.deleted call.filename
          · exact sound
        · exact sound.of_cache rfl
      · split
        · exact sound.deleted call.filename
        · exact sound
    · exact sound

theorem Sound.fsFOpenFile {fs : FileSystem} {s : State} {call : Call} (sound : Sound fs s)
    (good : Stores fs s call → Storable fs call) :
    Sound fs (((fsFOpenFile fs s call).map Prod.fst).getD s) := by
  unfold FileCache.fsFOpenFile
  cases out : linked fs call.filename with
  | some path => exact sound
  | none =>
    simp only
    cases absent : s.cache call.filename with
    | some cache => exact sound.fromCache call cache
    | none =>
      rw [searchPaths_eq]
      cases returns : FileCache.answer fs s call
          (find fs call.openHandle call.filename fs.fsSearchpaths) with
      | none => exact sound
      | some result => exact sound.answer out absent good returns

/-- Reading moves a handle. -/
theorem loadOpened_cache (buffer : Bool) (s : State) (r : Result) :
    (loadOpened buffer s r).1.cache = s.cache := by
  simp only [loadOpened]
  cases r.length with
  | none => rfl
  | some len =>
    cases buffer with
    | false => rfl
    | true =>
      by_cases empty : len = 0
      · simp only [empty, if_true, Bool.not_true, Bool.false_eq_true, if_false]
      · simp only [empty, Bool.not_true, Bool.false_eq_true, if_false]
        cases r.file with
        | none => rfl
        | some file =>
          cases file with
          | none => rfl
          | some f =>
            simp only
            cases f.handle with
            | opened path => rfl
            | shared handle => rfl

/-- A call leaves only entries that replay a search. -/
theorem step_sound {fs : FileSystem} {s : State} {op : Op} (sound : Sound fs s)
    (good : Good fs s op) : Sound fs (step fs s op) := by
  cases op with
  | fopenFile call => exact sound.fsFOpenFile good
  | loadFile call buffer =>
    have opened := sound.fsFOpenFile good
    simp only [step, fsLoadFile]
    cases returns : FileCache.fsFOpenFile fs s (loads call buffer) with
    | none => exact sound
    | some result =>
      rw [returns] at opened
      exact Sound.of_cache opened (loadOpened_cache buffer result.1 result.2)
  | move handle pos => exact sound.of_cache rfl

def start (pos : Nat → Nat) : State where
  cache _ := none
  pos := pos

theorem start_sound (fs : FileSystem) (pos : Nat → Nat) : Sound fs (start pos) := by
  intro filename cache kept
  cases kept

/-- Where what is kept does for every call, no run sees the cache. -/
theorem cache_unseen (fs : FileSystem) (pos : Nat → Nat) (ops : List Op)
    (good : AllSteps (step fs) (Good fs) (start pos) ops) :
    AllSteps (step fs) (Same fs) (start pos) ops := by
  refine allSteps_of_keeps (fun s op sound good => ?_) (start_sound fs pos) good
  exact ⟨step_sound sound good, sound.same op⟩

private def looked : Call where
  filename := ascii "motd"
  openHandle := .handleNone
  fsCache := 7
  q2Initialized := true
  junk := ⟨0, 0, []⟩

private def inGame : Path := ascii "game/motd"
private def inBase : Path := ascii "base/motd"

private def text : List UInt8 := ascii "hello"

/-- A file of the game directory, perhaps without the right to read it, and one of the same name
behind it. -/
private def twoFiles (allowed : Bool) : FileSystem where
  disk :=
    { stat := fun path => if path = inGame ∨ path = inBase then some ⟨false, 5⟩ else none
      fopen := fun path =>
        if path = inGame ∧ allowed = true ∨ path = inBase then some text else none }
  fsNoextern := false
  fsLinks := []
  fsSearchpaths := [.dir (ascii "game"), .dir (ascii "base")]

theorem cache_unseen_twoFiles : AllSteps (step (twoFiles true)) (Same (twoFiles true))
    (start fun _ => 0) [.loadFile looked false, .loadFile looked true] := by
  have storable : ∀ buffer, Storable (twoFiles true) (loads looked buffer) := by
    intro buffer
    cases buffer with
    | false => exact ⟨.inl (by decide), rfl, .inl (by decide)⟩
    | true => exact ⟨.inl (by decide), rfl, .inl (by decide)⟩
  exact cache_unseen (twoFiles true) (fun _ => 0) _
    ⟨fun _ => storable false, fun _ => storable true, trivial⟩

/-- Its length is known without the right to read it, and then it hides the other. -/
theorem length_hides_file : ¬AllSteps (step (twoFiles false)) (Same (twoFiles false))
    (start fun _ => 0) [.loadFile looked false, .loadFile looked true] := by
  decide

end FileCache
