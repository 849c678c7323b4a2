import Mathlib.Data.List.GetD
import Mathlib.Algebra.Order.Ring.Int
import Kpded2.NetChan
import Kpded2.Outcome
import Kpded2.OwnedHeap
import Kpded2.Protocol
import Kpded2.SizeBuf

/-!
# A client's message list

`SV_AddMessageSingle`, `SV_DeleteMessage`, `SV_ClearMessageList` and
`SV_WriteReliableMessages` of the Kingpin build. `messageListData` is an array of
nodes and the list is the order in which they are chained; node 0 is
`msgListStart` and holds no message. A long message lives in a block of its own, a
short one in the `localbuff` of its node.

The program goes wrong silently where it frees or writes storage that is not the
message's; the model stops there with `storage`. Reading a message whose `cursize`
does not fit its storage stops it in the same way.
-/
namespace MessageList
open NetChan Outcome OwnedHeap Protocol SizeBuf

inductive Stop where
  | storage
  | otherBuffer
  | comError
  | unfinished
  deriving DecidableEq

def msgMaxSizeBeforeMalloc : Nat := 69
def maxMessagesPerList : Nat := 2048

inductive Data where
  | localbuff
  | malloced (block : Nat)
  deriving DecidableEq

structure Messagelist where
  data : Data := .localbuff
  cursize : Int := 0
  reliable : Bool := false
  localbuff : List UInt8 := List.replicate msgMaxSizeBeforeMalloc 0

/-- `allocated` is that `messageListData` is not null. -/
structure Messages where
  allocated : Bool := false
  nodes : Nat → Messagelist := fun _ => {}
  list : List Nat := []
  heap : Heap (List UInt8) := Heap.empty

def Messages.storage (m : Messages) (i : Nat) : Option (List UInt8) :=
  match (m.nodes i).data with
  | .localbuff => some (m.nodes i).localbuff
  | .malloced block => m.heap.blocks block

/-- `message->data[k]`. -/
def Messages.byteAt (m : Messages) (i k : Nat) : UInt8 := ((m.storage i).getD []).getD k 0

/-- The first `cursize` bytes at `data`. -/
def Messages.bytes (m : Messages) (i : Nat) : Except Stop (List UInt8) :=
  match m.storage i with
  | some storage =>
    if 0 ≤ (m.nodes i).cursize ∧ (m.nodes i).cursize ≤ storage.length then
      .ok (storage.take (m.nodes i).cursize.toNat)
    else .error .storage
  | none => .error .storage

theorem byteAt_of_storage {m : Messages} {i k : Nat} {data rest : List UInt8}
    (hstorage : m.storage i = some (data ++ rest)) (hk : k < data.length) :
    m.byteAt i k = data.getD k 0 := by
  rw [Messages.byteAt, hstorage, Option.getD_some, List.getD_append _ _ _ _ hk]

theorem byteAt_of_bytes {m : Messages} {i k : Nat} {bytes : List UInt8} (h : m.bytes i = .ok bytes)
    (inside : k < bytes.length) : m.byteAt i k = bytes.getD k 0 := by
  simp only [Messages.bytes] at h
  split at h
  · rename_i storage hstorage
    split at h
    · cases h
      refine @byteAt_of_storage _ _ _ _ (storage.drop (m.nodes i).cursize.toNat) ?_ inside
      rw [List.take_append_drop]
      exact hstorage
    · cases h
  · cases h

theorem bytes_congr {m m' : Messages} {i : Nat} (nodes : m'.nodes i = m.nodes i)
    (storage : m'.storage i = m.storage i) : m'.bytes i = m.bytes i := by
  simp only [Messages.bytes, nodes, storage]

theorem bytes_of_storage {m : Messages} {i : Nat} {data rest : List UInt8}
    (storage : m.storage i = some (data ++ rest))
    (cursize : (m.nodes i).cursize = data.length) : m.bytes i = .ok data := by
  have inside : (0 : Int) ≤ data.length ∧ (data.length : Int) ≤ (data ++ rest).length := by
    rw [List.length_append]
    omega
  simp only [Messages.bytes, storage, cursize, if_pos inside, Int.toNat_natCast, List.take_left']

/-- The bytes of a message, or none. -/
def textOf (m : Messages) (i : Nat) : List UInt8 := (m.bytes i).toOption.getD []

theorem textOf_of_bytes {m : Messages} {i : Nat} {bytes : List UInt8} (h : m.bytes i = .ok bytes) :
    textOf m i = bytes := by
  rw [textOf, h]
  rfl

/-- `memcpy (message->data + offset, new, …)`. -/
def Messages.write (m : Messages) (i offset : Nat) (new : List UInt8) : Except Stop Messages :=
  match m.storage i with
  | some storage =>
    if offset + new.length ≤ storage.length then
      let storage := storage.take offset ++ new ++ storage.drop (offset + new.length)
      match (m.nodes i).data with
      | .localbuff =>
        .ok { m with nodes := Function.update m.nodes i { m.nodes i with localbuff := storage } }
      | .malloced block =>
        match m.heap.store block storage with
        | some heap => .ok { m with heap }
        | none => .error .storage
    else .error .storage
  | none => .error .storage

def Messages.setCursize (m : Messages) (i : Nat) (cursize : Int) : Messages :=
  { m with nodes := Function.update m.nodes i { m.nodes i with cursize } }

def Messages.setReliable (m : Messages) (i : Nat) (reliable : Bool) : Messages :=
  { m with nodes := Function.update m.nodes i { m.nodes i with reliable } }

def int16 (n : Nat) : Int := (n : Int).bmod (2 ^ 16)

/-! ## Deleting -/

def svDeleteMessage (m : Messages) (i : Nat) : Except Stop Messages :=
  if (m.nodes i).cursize > msgMaxSizeBeforeMalloc then
    match (m.nodes i).data with
    | .localbuff => .error .storage
    | .malloced block =>
      match m.heap.free block with
      | some heap => .ok { m with heap, list := m.list.erase i }
      | none => .error .storage
  else .ok { m with list := m.list.erase i }

inductive Visit where
  | keep
  | delete
  | stop
  deriving DecidableEq

/-- The loops over the list: `visit` sees one message after the other and says what
becomes of it. -/
def sweep {α : Type} (visit : Messages → α → Nat → Except Stop (α × Visit)) :
    List Nat → α → Messages → Except Stop (α × Messages)
  | [], acc, m => .ok (acc, m)
  | i :: rest, acc, m => do
    let (acc, verdict) ← visit m acc i
    match verdict with
    | .keep => sweep visit rest acc m
    | .delete => do
      let m ← svDeleteMessage m i
      sweep visit rest acc m
    | .stop => .ok (acc, m)

def svClearMessageList (m : Messages) : Except Stop Messages := do
  let (_, m) ← sweep (fun _ acc _ => .ok (acc, .delete)) m.list () m
  .ok m

/-! ## Clients -/

inductive ClientState where
  | free
  | zombie
  | connected
  | spawning
  | spawned
  deriving DecidableEq

/-- The fields that other code changes too. `layout` is a string without its NUL. -/
structure Control where
  state : ClientState
  lanAddress : Bool := false
  reconnectDone : Bool := false
  reconnectVar : Bool := false
  overflowed : Bool := false
  overflowDone : Bool := false
  nodata : Bool := false
  layout : List UInt8 := []
  layoutUnreliable : Nat := 0
  netchan : Chan

structure Client where
  control : Control
  messages : Messages := {}

/-- The message being written: `message_buff` up to `cursize`, and what an earlier
message left behind it. No caller adds an empty message. -/
structure Msgbuff where
  data : List UInt8
  leftover : List UInt8 := []
  written : data ≠ []

def cString (s : List UInt8) : List UInt8 := s.takeWhile (· ≠ 0)

def svcMuzzleflash : UInt8 := 1
def svcMuzzleflash3 : UInt8 := 3
def svcTempEntity : UInt8 := 4
def svcLayout : UInt8 := 5
def svcNop : UInt8 := 8
def svcSound : UInt8 := 11
def svcPrint : UInt8 := 12
def svcStufftext : UInt8 := 13
def svcConfigstring : UInt8 := 15
def svcCpacket : UInt8 := 25

def printChat : UInt8 := 3
def maxModels : Nat := 256

/-- 32 configstrings, then 256 models, 384 sounds and 256 images. -/
def csModelskins : Nat := 928

/-! ## Adding -/

/-- The returns of `SV_AddMessageSingle` before it looks at the message.
`forceReconnect` is that `sv_force_reconnect` is not empty. -/
def refusesMessage (forceReconnect : Bool) (client : Client) (reliable : Bool) : Bool :=
  let c := client.control
  decide (c.state = .free ∨ c.state = .zombie) ||
  (decide (c.state = .connected) && forceReconnect && !c.reconnectDone && !c.lanAddress &&
    !c.reconnectVar) ||
  (!client.messages.allocated || (c.overflowed && !c.overflowDone)) ||
  (c.nodata && !reliable)

/-- A layout the client cannot hold is truncated to 1024 characters. -/
def trimLayout (msg : Msgbuff) : Msgbuff :=
  if msg.data.length > 1025 then
    { msg with data := msg.data.take 1024 ++ [0], written := by simp }
  else msg

/-- `none` drops the message, a layout equal to the last one. -/
def checkLayout (c : Control) (msg : Msgbuff) (reliable : Bool) : Option (Control × Msgbuff) :=
  if (msg.data ++ msg.leftover).getD 0 0 = svcLayout then
    let msg := trimLayout msg
    let text := cString ((msg.data ++ msg.leftover).drop 1)
    if text = c.layout ∧ (!reliable ∨ c.layoutUnreliable = 0) then none
    else
      some ({ c with
        layout := text.take 1023
        layoutUnreliable := if reliable then 0 else c.layoutUnreliable }, msg)
  else some (c, msg)

def nextIndex (m : Messages) : Nat := m.list.getLastD 0 + 1

def msgEndWrite (m : Messages) (i : Nat) (data : List UInt8) : Messages :=
  let node := m.nodes i
  if data.length > msgMaxSizeBeforeMalloc then
    { m with
      heap := m.heap.alloc data
      nodes := Function.update m.nodes i
        { node with data := .malloced m.heap.next, cursize := int16 data.length } }
  else
    { m with
      nodes := Function.update m.nodes i
        { node with
          data := .localbuff
          localbuff := data ++ node.localbuff.drop data.length
          cursize := int16 data.length } }

def visitLayout (next : Nat) (m : Messages) (reliable : Bool) (i : Nat) :
    Except Stop (Bool × Visit) :=
  if i = next then .ok (reliable, .stop)
  else if m.byteAt i 0 = svcLayout then .ok (reliable || (m.nodes i).reliable, .delete)
  else .ok (reliable, .keep)

/-- Any other pending layout is dropped; a reliable one makes the new one reliable. -/
def dropOtherLayouts (m : Messages) (next : Nat) : Except Stop Messages :=
  if m.byteAt next 0 = svcLayout then do
    let (reliable, m) ← sweep (visitLayout next) m.list (m.nodes next).reliable m
    .ok (m.setReliable next reliable)
  else .ok m

/-- A model skin that a client which has not spawned would misread. -/
def modelskinIndex (state : ClientState) (m : Messages) (i : Nat) : Bool :=
  decide (state ≠ .spawned) && m.byteAt i 0 == svcConfigstring &&
  (let cs := int16 ((m.byteAt i 1).toNat + (m.byteAt i 2).toNat * 2 ^ 8)
   decide (cs > csModelskins) && decide (cs < csModelskins + maxModels))

/-- The padding of model skins. -/
def padModelskin (state : ClientState) (m : Messages) (i : Nat) : Except Stop Messages :=
  if modelskinIndex state m i then
    let cursize := (m.nodes i).cursize
    if cursize < 1 then .error .storage
    else if m.byteAt i (cursize - 1).toNat = 3 then do
      let m ← m.write i cursize.toNat [svcStufftext, 0, svcNop]
      .ok (m.setCursize i (cursize + 3))
    else .ok m
  else .ok m

/-- The client is dropped by `SV_CheckForOverflow` later. -/
def overflow (client : Client) : Except Stop Client := do
  let m ← svClearMessageList client.messages
  .ok { client with messages := m, control := { client.control with overflowed := true } }

/-- From the place where the message gets its node. -/
def queueMessage (client : Client) (data : List UInt8) (reliable : Bool) : Except Stop Client := do
  let m := client.messages
  let index := nextIndex m
  if index ≥ maxMessagesPerList - 1 then overflow client
  else
    let m := msgEndWrite { m with list := m.list ++ [index] } index data
    if (m.nodes index).cursize ≥ client.control.netchan.message.buffsize then
      overflow { client with messages := m }
    else do
      let m := m.setReliable index reliable
      let m ← dropOtherLayouts m index
      let m ← padModelskin client.control.state m index
      .ok { client with messages := m }

def svAddMessageSingle (forceReconnect : Bool) (client : Client) (msg : Msgbuff)
    (reliable : Bool) : Except Stop Client :=
  if refusesMessage forceReconnect client reliable then .ok client
  else
    match checkLayout client.control msg reliable with
    | none => .ok client
    | some (control, msg) => queueMessage { client with control } msg.data reliable

/-! ## Leaving -/

/-- `SV_DropClient` without notification, and the part of `SV_CleanClient` that
concerns the list. -/
def dropMessages (client : Client) (state : ClientState) : Except Stop Client := do
  let m ← if client.messages.allocated then svClearMessageList client.messages
    else .ok client.messages
  .ok { client with
    messages := { m with allocated := false }
    control := { client.control with state } }

/-- A new connection gets a zeroed array, after the old one was cleaned up. -/
def connect (client : Client) (control : Control) : Except Stop Client := do
  let client ← dropMessages client .free
  .ok { control
        messages := { allocated := true, nodes := fun _ => {}, list := []
                      heap := client.messages.heap } }

/-! ## Moving messages to the channel -/

structure Written where
  message : Sizebuf
  lastmsg : Option Nat := none
  tooBig : Bool := false

/-- Text that continues the message before it loses its own header. -/
def continuesPrint (m : Messages) (i length : Nat) (w : Written) : Bool :=
  match w.lastmsg with
  | none => false
  | some last =>
    m.byteAt i 0 == svcPrint && decide (m.byteAt i 1 &&& 3 < printChat) &&
    w.message.data.getD last 0 == m.byteAt i 0 &&
    w.message.data.getD (last + 1) 0 == m.byteAt i 1 &&
    decide ((w.message.cursize : Int) - last + length < 2048)

def writeOrStop (buf : Sizebuf) (data : List UInt8) : Except Stop Sizebuf :=
  match szWrite buf data with
  | some buf => .ok buf
  | none => .error .comError

def writeReliable (m : Messages) (w : Written) (i : Nat) : Except Stop (Written × Visit) :=
  if (m.nodes i).reliable then do
    let bytes ← m.bytes i
    if bytes.length + w.message.cursize > w.message.maxsize then
      .ok ({ w with tooBig := decide (w.message.cursize = 0) }, .stop)
    else if continuesPrint m i bytes.length w then
      if bytes.length < 2 then .error .otherBuffer
      else do
        let message ← writeOrStop { w.message with data := w.message.data.dropLast } (bytes.drop 2)
        .ok ({ w with message }, .delete)
    else do
      let message ← writeOrStop w.message bytes
      .ok ({ w with message, lastmsg := some w.message.cursize }, .delete)
  else .ok (w, .keep)

def setChannelMessage (control : Control) (message : Sizebuf) : Control :=
  { control with netchan := { control.netchan with message } }

def svWriteReliableMessages (client : Client) (buffSize : Nat) : Except Stop Client :=
  let chan := client.control.netchan
  if client.control.state = .free ∨ !client.messages.allocated then .ok client
  else if !chan.reliable.isEmpty then .ok client
  else do
    let start : Written := { message := { chan.message with maxsize := buffSize } }
    let (w, m) ← sweep writeReliable client.messages.list start client.messages
    let client := { control := setChannelMessage client.control w.message, messages := m }
    if w.tooBig then dropMessages client .zombie
    else if w.message.overflowed then .error .comError
    else .ok client

end MessageList
