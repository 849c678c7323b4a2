import Kpded2.Bytes
import Kpded2.MessageList

/-!
# `SV_SendClientDatagram`

The Kingpin build, up to the call of `Netchan_Transmit`. A frame is written by a
parameter that sees the limit of new entities and returns the state it leaves
behind (its memory of the frame), the number of new entities it counted and the
bytes, or nothing if `frame_buf` overflowed. It may also stop with `Com_Error`.
`Zlib` is the compressor. Of `SV_BuildClientFrame` there is only what it does to
the message list: the first frame of a client under water registers a sound, whose
configstring goes to every client.
-/
namespace ClientDatagram
open Bytes MessageList NetChan Outcome Protocol SizeBuf

/-- `deflate input avail` is the output of `deflate` with `Z_FINISH` when it ends the
stream in `avail` bytes; `inflate` is what a client makes of it. -/
structure Zlib where
  deflate : List UInt8 → Nat → Option (List UInt8)
  inflate : List UInt8 → Option (List UInt8)
  deflate_le : ∀ input avail out, deflate input avail = some out → out.length ≤ avail
  inflate_deflate : ∀ input avail out, deflate input avail = some out → inflate out = some input

/-- `registered` is the index that the sound gets, if this frame is the first that needs it. -/
structure Env where
  curtime : Nat
  demofile : Bool := false
  forceReconnect : Bool := false
  registered : Option Nat := none
  compress : Bool := false
  rate : Nat
  zlib : Zlib
  /-- `randomMT () & 1` when the message of a node is looked at. -/
  random : Nat → Bool := fun _ => false

structure Frame (σ : Type) where
  memory : σ
  newEntities : Nat
  bytes : Option (List UInt8)

def frameBuf : Nat := 4096

/-- A message about the length of what follows. -/
def compressBuffer (zlib : Zlib) (input : List UInt8) (out : Sizebuf) :
    Except Stop (Option Sizebuf) :=
  if input.length < 60 then .ok none
  else
    let maxout := min ((out.maxsize : Int) - out.cursize) (input.length - 1)
    -- `avail_out` is unsigned
    match zlib.deflate input ((maxout - 3) % 2 ^ 32).toNat with
    | none => .ok none
    | some stream =>
      if out.cursize + 3 + stream.length > maxUsablemsg .kingpin then .error .otherBuffer
      else do
        let out ← writeOrStop out [svcCpacket]
        let out ← writeOrStop out (shortBytes stream.length)
        .ok (some { out with data := out.data ++ stream })

/-- What `SV_SendClientDatagram` changes: the message list, the client and `msg`. -/
structure Draft where
  messages : Messages
  control : Control
  msg : Sizebuf

/-! ## Reserving space -/

def retransmits (chan : Chan) : Bool :=
  decide (chan.incomingAcknowledged > chan.lastReliableSequence) &&
    chan.incomingReliableAcknowledged != chan.reliableSequence

def firstReliable (m : Messages) : Option Nat := m.list.find? fun i => (m.nodes i).reliable

/-- `msg` with room left for what the channel sends itself, and `rmessage`. -/
def reserve (client : Client) : Except Stop (Sizebuf × Option Nat) :=
  let chan := client.control.netchan
  let msg := { szInit chan.message.buffsize with allowoverflow := true }
  if !chan.reliable.isEmpty then
    if retransmits chan then .ok ({ msg with maxsize := msg.maxsize - chan.reliable.length }, none)
    else .ok (msg, none)
  else
    match firstReliable client.messages with
    | none => .ok (msg, none)
    | some i => do
      let bytes ← client.messages.bytes i
      .ok ({ msg with maxsize := msg.maxsize - bytes.length }, some i)

/-! ## Putting the frame into the datagram -/

def unreliableSize (m : Messages) : List Nat → Except Stop Nat
  | [] => .ok 0
  | i :: rest =>
    if (m.nodes i).reliable then unreliableSize m rest
    else do
      let bytes ← m.bytes i
      let size ← unreliableSize m rest
      .ok (bytes.length + size)

def overBudget (rate size : Nat) (msg : Sizebuf) : Bool :=
  decide (size > msg.maxsize ∨ size + msg.buffsize - msg.maxsize > rate / 10)

def setChannelReliable (control : Control) (reliable : List UInt8) : Control :=
  { control with netchan := { control.netchan with reliable } }

/-- Compresses what the channel sends itself: the first reliable message in place, or
the message that waits for its acknowledgement. `none` if that does not help. -/
def compressReliable (zlib : Zlib) (rmessage : Option Nat) (d : Draft) :
    Except Stop (Option Draft) :=
  let whole := { d.msg with maxsize := d.msg.buffsize }
  let shrunk (out : Sizebuf) : Sizebuf :=
    szClear { out with maxsize := out.maxsize - out.cursize }
  match rmessage with
  | some i =>
    if d.messages.byteAt i 0 = svcCpacket then .ok none
    else do
      let bytes ← d.messages.bytes i
      match ← compressBuffer zlib bytes whole with
      | none => .ok none
      | some out => do
        let messages ← d.messages.write i 0 out.data
        .ok (some
          { d with
            messages := messages.setCursize i (int16 out.cursize)
            msg := shrunk out })
  | none =>
    let chan := d.control.netchan
    if d.msg.maxsize < d.msg.buffsize ∧ chan.reliable.head? ≠ some svcCpacket then do
      match ← compressBuffer zlib chan.reliable whole with
      | none => .ok none
      | some out =>
        .ok (some
          { d with
            control := setChannelReliable d.control out.data
            msg := shrunk out })
    else .ok none

/-- The unreliable messages that fit behind the frame, up to the first that does not. -/
def appendUnreliable (m : Messages) (frame : List UInt8) :
    List Nat → Except Stop (List UInt8 × Option Nat)
  | [] => .ok (frame, none)
  | i :: rest =>
    if (m.nodes i).reliable then appendUnreliable m frame rest
    else do
      let bytes ← m.bytes i
      if frame.length + bytes.length > frameBuf then .ok (frame, some i)
      else appendUnreliable m (frame ++ bytes) rest

/-- An unreliable layout is remembered with the packet that carries it. -/
def noteLayout (m : Messages) (i : Nat) (control : Control) : Control :=
  if m.byteAt i 0 = svcLayout then
    { control with layoutUnreliable := control.netchan.outgoingSequence }
  else control

def deleteUntil (stopAt : Option Nat) (m : Messages) (control : Control) (i : Nat) :
    Except Stop (Control × Visit) :=
  if stopAt = some i then .ok (control, .stop)
  else if (m.nodes i).reliable then .ok (control, .keep)
  else .ok (noteLayout m i control, .delete)

/-- The frame as it is; `false` if it does not fit. -/
def putPlain (frame : List UInt8) (d : Draft) : Except Stop (Draft × Bool) :=
  if frame.length ≤ d.msg.maxsize then do
    let msg ← writeOrStop d.msg frame
    .ok ({ d with msg }, true)
  else .ok (d, false)

/-- The frame compressed, with the unreliable messages if possible. -/
def putCompressed (zlib : Zlib) (frame : List UInt8) (d : Draft) : Except Stop (Draft × Bool) := do
  let (whole, stopAt) ← appendUnreliable d.messages frame d.messages.list
  match ← compressBuffer zlib whole d.msg with
  | some msg => do
    let (control, messages) ←
      sweep (deleteUntil stopAt) d.messages.list d.control d.messages
    .ok ({ messages, control, msg }, true)
  | none =>
    match ← compressBuffer zlib frame d.msg with
    | some msg => .ok ({ d with msg }, true)
    | none => putPlain frame d

/-- After a successful compression of the reliable part the test is made again, and
then there is nothing left to compress but the frame. -/
def putFrame (env : Env) (rmessage : Option Nat) (frame : List UInt8) (d : Draft) :
    Except Stop (Draft × Bool) :=
  if env.compress then do
    let rest ← unreliableSize d.messages d.messages.list
    let size := frame.length + rest
    if overBudget env.rate size d.msg then
      match ← compressReliable env.zlib rmessage d with
      | none => putCompressed env.zlib frame d
      | some d =>
        if overBudget env.rate size d.msg then putCompressed env.zlib frame d
        else putPlain frame d
    else putPlain frame d
  else putPlain frame d

/-- A frame that overflowed `frame_buf` is not put anywhere. -/
def putAttempt (env : Env) (rmessage : Option Nat) (d : Draft) :
    Option (List UInt8) → Except Stop (Draft × Bool)
  | none => .ok (d, false)
  | some frame => putFrame env rmessage frame d

/-- The loop at `retryframe`: half of the new entities, then none. -/
def retryframe {σ : Type} (env : Env) (write : σ → Nat → Option (Frame σ))
    (rmessage : Option Nat) : Nat → σ → Nat → Bool → Draft → Except Stop (σ × Draft)
  | 0, _, _, _, _ => .error .unfinished
  | fuel + 1, memory, newEntities, reduced, d => do
    let frame ← (write memory newEntities).elim (.error .comError) .ok
    let (d, done) ← putAttempt env rmessage d frame.bytes
    if done then .ok (frame.memory, d)
    else if frame.newEntities ≠ 0 then
      retryframe env write rmessage fuel frame.memory
        (if reduced then 0 else frame.newEntities / 2) true d
    else .ok (frame.memory, d)

/-- The limit before any frame has overflowed. -/
def noLimit : Nat := 9999

def csSounds : Nat := 288

/-- What `SV_FindIndex` multicasts. -/
def soundMessage (index : Nat) : Msgbuff where
  data := svcConfigstring :: (shortBytes (csSounds + index) ++ (ascii "world/watr_un.wav" ++ [0]))
  written := List.cons_ne_nil _ _

def svBuildClientFrame (env : Env) (client : Client) : Except Stop Client :=
  match env.registered with
  | none => .ok client
  | some index => svAddMessageSingle env.forceReconnect client (soundMessage index) true

/-- The datagram after the frame; a `msg` that overflowed is emptied. -/
def frameDatagram {σ : Type} (env : Env) (write : σ → Nat → Option (Frame σ)) (fuel : Nat)
    (memory : σ) (client : Client) : Except Stop (σ × Draft) := do
  let (msg, rmessage) ← reserve client
  if client.control.nodata then .ok (memory, ⟨client.messages, client.control, msg⟩)
  else do
    -- the space is reserved by now, and the list can still change
    let client ← svBuildClientFrame env client
    let (memory, d) ← retryframe env write rmessage fuel memory noLimit false
      ⟨client.messages, client.control, msg⟩
    .ok (memory, if d.msg.overflowed then { d with msg := szClear d.msg } else d)

/-! ## The other unreliable messages -/

def lower (b : UInt8) : UInt8 := if 65 ≤ b ∧ b ≤ 90 then b + 32 else b

/-- `Q_strncasecmp ((char *)message->data + 1, "play ", 5)` finds no difference. -/
def stuffsPlay (m : Messages) (i : Nat) : Bool :=
  (List.range 5).map (fun k => lower (m.byteAt i (k + 1))) == [112, 108, 97, 121, 32]

def teGunshot : UInt8 := 0
def teGunshotVisible : UInt8 := 1
def teBlood : UInt8 := 2
def teShotgun : UInt8 := 5
def teSplash : UInt8 := 12
def teBulletSparks : UInt8 := 16
def teSurfaceSpriteEntity : UInt8 := 43

/-- The effects and sounds of the first pass, some of them chosen at random. -/
def goesFirst (random : Nat → Bool) (m : Messages) (i : Nat) : Bool :=
  if m.byteAt i 0 = svcTempEntity then
    let te := m.byteAt i 1
    if te = teBlood ∨ te = teSplash ∨ te = teSurfaceSpriteEntity then false
    else if te = teGunshot ∨ te = teBulletSparks ∨ te = teShotgun ∨ te = teGunshotVisible then
      !random i
    else true
  else
    decide (m.byteAt i 0 = svcSound ∨ m.byteAt i 0 = svcMuzzleflash ∨
      m.byteAt i 0 = svcMuzzleflash3) ||
    (m.byteAt i 0 == svcStufftext && stuffsPlay m i)

/-- One message of a pass: written and freed if it fits. -/
def fill (chosen : Messages → Nat → Bool) (note : Messages → Nat → Control → Control)
    (m : Messages) (acc : Sizebuf × Control) (i : Nat) :
    Except Stop ((Sizebuf × Control) × Visit) :=
  let (msg, control) := acc
  if (m.nodes i).reliable || !chosen m i then .ok (acc, .keep)
  else do
    let bytes ← m.bytes i
    if msg.cursize + bytes.length > msg.maxsize then .ok (acc, .keep)
    else do
      let msg ← writeOrStop msg bytes
      .ok ((msg, note m i control), .delete)

def fillPass (chosen : Messages → Nat → Bool) (note : Messages → Nat → Control → Control)
    (d : Draft) : Except Stop Draft := do
  let ((msg, control), messages) ←
    sweep (fill chosen note) d.messages.list (d.msg, d.control) d.messages
  .ok ⟨messages, control, msg⟩

def hasRoom (msg : Sizebuf) : Bool := decide (msg.cursize + 8 < msg.maxsize)

def fillUnreliable (env : Env) (d : Draft) : Except Stop Draft :=
  if hasRoom d.msg then do
    let d ← fillPass (goesFirst env.random) (fun _ _ control => control) d
    if hasRoom d.msg then fillPass (fun _ _ => true) noteLayout d else .ok d
  else .ok d

/-- Unreliable messages that are not sent are dropped, but for those `kept` says. -/
def nukeUnreliable (kept : UInt8 → Bool) (m : Messages) (control : Control) (i : Nat) :
    Except Stop (Control × Visit) :=
  if (m.nodes i).reliable || kept (m.byteAt i 0) then .ok (control, .keep)
  else if m.byteAt i 0 = svcLayout then .ok ({ control with layout := [] }, .delete)
  else .ok (control, .delete)

/-- The new memory, the client and the datagram, if one is sent. -/
def svSendClientDatagram {σ : Type} (env : Env) (write : σ → Nat → Option (Frame σ))
    (fuel : Nat) (memory : σ) (client : Client) : Except Stop (σ × Client × Option (List UInt8)) := do
  let chan := client.control.netchan
  if (env.curtime + 2 ^ 32 - chan.lastReceived) % 2 ^ 32 > 5000 ∧ !env.demofile then
    let (control, messages) ←
      sweep (nukeUnreliable fun _ => false) client.messages.list client.control client.messages
    .ok (memory, { control, messages }, none)
  else
    let (memory, d) ← frameDatagram env write fuel memory client
    let d ← fillUnreliable env d
    if d.msg.overflowed then .error .comError
    else
      let (control, messages) ←
        sweep (nukeUnreliable (· == svcStufftext)) d.messages.list d.control d.messages
      let client ← svWriteReliableMessages { control, messages }
        (control.netchan.message.buffsize - d.msg.cursize)
      .ok (memory, client, some d.msg.data)

end ClientDatagram
