import Mathlib.Data.List.Basic
import Mathlib.Data.List.Nodup
import Mathlib.Data.UInt

/-!
# The download cache

Entries are kept in a list and are known by their address. An entry is compressed by a thread of its
own, or only read to get the file into memory; `running` says that the thread has not closed its file
yet. What an allocated buffer holds before it is written is what it held before.
-/
namespace DownloadCache

structure Entry where
  address : Nat
  name : List UInt8
  mtime : Int
  size : Int
  offset : Nat
  compsize : Nat
  compbuf : Option (List UInt8)
  refc : Int
  running : Bool
  finished : Bool

/-- Where a new entry is allocated. -/
structure Allocator where
  pick : List Nat → Nat
  pick_notMem : ∀ used, pick used ∉ used

def addresses (downloads : List Entry) : List Nat := downloads.map Entry.address

def find (downloads : List Entry) (a : Nat) : Option Entry :=
  downloads.find? fun d => d.address = a

/-- What an entry is asked for: the file of a client, and whether it is to be compressed. -/
structure Wanted where
  name : List UInt8
  size : Int
  offset : Nat
  mtime : Int
  compress : Bool

inductive Visit where
  | pass | share | restart | cached
  deriving DecidableEq

/-- One turn of the loop of `NewCachedDownload`. -/
def visit (w : Wanted) (d : Entry) : Visit :=
  if d.name ≠ w.name then .pass
  else if w.compress then
    if d.compbuf.isSome ∧ d.offset = w.offset then
      if d.mtime = w.mtime then .share
      else if d.refc = 0 ∧ !d.running then .restart
      else .pass
    else .pass
  else if d.offset ≤ w.offset then
    if !d.running then .cached else .share
  else .pass

def share (d : Entry) : Entry := { d with refc := d.refc + 1 }

def restart (w : Wanted) (d : Entry) : Entry :=
  { d with
    refc := 1, size := w.size, mtime := w.mtime, compsize := 0, finished := false, running := true }

def create (w : Wanted) (a : Nat) : Entry where
  address := a
  name := w.name
  mtime := w.mtime
  size := w.size
  offset := w.offset
  compsize := 0
  compbuf := if w.compress then some [] else none
  refc := 1
  running := true
  finished := false

/-- The loop, if it returns. -/
def lookup (w : Wanted) : List Entry → Option (Option Nat × List Entry)
  | [] => none
  | d :: rest =>
    match visit w d with
    | .pass => (lookup w rest).map fun r => (r.1, d :: r.2)
    | .share => some (some d.address, share d :: rest)
    | .restart => some (some d.address, restart w d :: rest)
    | .cached => some (none, d :: rest)

def newCachedDownload (alloc : Allocator) (w : Wanted) (downloads : List Entry) :
    Option Nat × List Entry :=
  match lookup w downloads with
  | some r => r
  | none =>
    let a := alloc.pick (addresses downloads)
    (some a, create w a :: downloads)

def releaseCachedDownload (a : Nat) : List Entry → List Entry
  | [] => []
  | d :: rest =>
    if d.address = a then
      let d := { d with refc := d.refc - 1 }
      if d.refc = 0 ∧ d.compbuf.isSome ∧ d.offset ≠ 0 then rest else d :: rest
    else d :: releaseCachedDownload a rest

def clearCachedDownloads (downloads : List Entry) : List Entry :=
  downloads.filter fun d => d.refc ≠ 0

/-- What `CachedDownloadReady` does to an entry whose thread has ended. -/
def finish (d : Entry) : Entry :=
  if d.finished then d
  else { d with
    finished := true
    compbuf := if d.compsize ≠ 0 then d.compbuf.map fun b => b.take d.compsize else none }

def ready (d : Entry) : Bool := !d.running

def settle (d : Entry) : Entry := if ready d then finish d else d

def pollCachedDownloads (downloads : List Entry) : List Entry := downloads.map settle

/-- The end of the thread: what has been compressed, if that went well. -/
def endThread (result : Option (List UInt8)) (d : Entry) : Entry :=
  if d.running then
    match d.compbuf, result with
    | some _, some bytes => { d with running := false, compbuf := some bytes, compsize := bytes.length }
    | _, _ => { d with running := false }
  else d

def update (a : Nat) (f : Entry → Entry) (downloads : List Entry) : List Entry :=
  downloads.map fun d => if d.address = a then f d else d

end DownloadCache
