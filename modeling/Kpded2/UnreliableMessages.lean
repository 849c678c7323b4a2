import Kpded2.DraftMessages
import Kpded2.MessageLinks

/-!
# What becomes of the unreliable messages

`SV_SendClientDatagram` takes a message off the list when it writes it: those that are compressed
with the frame, and those of the two passes behind it. What is left is dropped without being sent,
but for stuffed text.
-/
namespace UnreliableMessages
open ClientDatagram DatagramSize DraftMessages MessageList MessageLoops MessageStorage NetChan
open Outcome Protocol ReliableMessages SizeBuf

/-- `built` is the client for whom the frame is written. -/
def Builds (env : Env) (client built : Client) : Prop :=
  if client.control.nodata then built = client else svBuildClientFrame env client = .ok built

/-- Building the frame leaves the unreliable messages, or the list has overflowed and is empty. -/
def FrameLeaves (client built : Client) : Prop :=
  (built.messages.list = [] ∧ built.control.overflowed = true) ∨
    unreliables built.messages built.messages.list =
        unreliables client.messages client.messages.list ∧
      ∀ i ∈ unreliables client.messages client.messages.list,
        built.messages.bytes i = client.messages.bytes i

/-- The unreliable messages that are counted as sent: `d` is the draft after the passes. -/
def counted (client : Client) (d : Draft) : List Nat :=
  (unreliables client.messages client.messages.list).filter fun i => !d.messages.list.contains i

/-- The datagram consists of a frame and the counted messages, one after another, some of them
perhaps compressed with the frame. -/
structure Delivered (zlib : Zlib) (frames : List UInt8 → Prop) (client : Client) (d : Draft)
    (client' : Client) (datagram : List UInt8) : Prop where
  sent : ∃ head packed later, Contents zlib frames client.messages packed head ∧
    datagram = head ++ texts client.messages later ∧ (packed ++ later).Perm (counted client d)
  removed : ∀ i ∈ counted client d, i ∉ client'.messages.list
  kept : ∀ i ∈ client'.messages.list, (client.messages.nodes i).reliable = false →
    i ∈ client.messages.list ∧ (textOf client.messages i).head? = some svcStufftext
  layout : d.control.layoutUnreliable = client.control.layoutUnreliable ∨
    ∃ i ∈ counted client d, (textOf client.messages i).head? = some svcLayout

variable {σ : Type} {client : Client}

/-- A client with messages as `SV_AddMessageSingle` leaves them. -/
structure Served (client : Client) : Prop where
  inv : ClientInv client
  ready : Ready client.control.netchan
  wellformed : Wellformed client.messages
  nonempty : Nonempty client.messages
  short : ∀ i ∈ client.messages.list, (textOf client.messages i).length < 1390 + 3

/-- The bytes that are kept free for the reliable part. -/
def reservedBytes (client : Client) : Nat :=
  if client.control.netchan.reliable = [] then
    match firstReliable client.messages with
    | none => 0
    | some i => (textOf client.messages i).length
  else repeated client.control.netchan

variable {env : Env} {write : σ → Nat → Option (Frame σ)} {d : Draft} {rmessage : Option Nat}
  {built : Client} {forceReconnect : Bool} {registered : Option Nat}

theorem Builds.unique {built' : Client} (h : Builds env client built) (h' : Builds env client built') :
    built = built' := by
  unfold Builds at h h'
  split at h
  · rename_i nodata
    rw [if_pos nodata] at h'
    rw [h, h']
  · rename_i nodata
    rw [if_neg nodata] at h'
    cases h.symm.trans h'
    rfl

/-- What waits behind the frame waited before it. -/
theorem FrameLeaves.sub (h : FrameLeaves client built) {i : Nat}
    (hi : i ∈ unreliables built.messages built.messages.list) :
    i ∈ unreliables client.messages client.messages.list := by
  rcases h with ⟨empty, -⟩ | ⟨same, -⟩
  · rw [empty] at hi
    cases hi
  · rwa [← same]

/-- No header of a compressed frame can be too long for the datagram and take messages with it. -/
def Roomy (compress forceReconnect : Bool) (registered : Option Nat) (client : Client) : Prop :=
  compress = false ∨ client.control.nodata = true ∨
    unreliables client.messages client.messages.list = [] ∨ reservedBytes client + 3 ≤ 1390 ∨
      (Registers forceReconnect registered client ∧ Full client)

/-- The draft behind the frame. -/
structure Started (zlib : Zlib) (frames : List UInt8 → Prop) (client : Client) (roomy : Prop)
    (rmessage : Option Nat) (gone : List Nat) (d : Draft) : Prop where
  first : First client.messages rmessage
  listed : Listed client.messages rmessage gone d.messages
  noted : Noted client.messages gone client.control d.control
  clean : d.msg.overflowed = false
  fits : d.msg.cursize ≤ d.msg.maxsize
  contents : roomy → Contents zlib frames client.messages gone d.msg.data

variable {whole : List UInt8}

private def layoutMessage : Messages :=
  msgEndWrite { allocated := true, list := [1] } 1 [svcLayout, 97, 0]

/-- A client with a layout to send and a reliable message that has to be repeated. -/
private def watcher (repeats : List UInt8) : Client where
  control :=
    { state := .spawned
      layout := [97]
      netchan :=
        { sock := .server, lastReceived := 0, lastSent := 0, qport := 7, protocol := 34
          outgoingSequence := 9, incomingAcknowledged := 5, lastReliableSequence := 3
          reliableSequence := true
          message := { allowoverflow := true, maxsize := 1390, buffsize := 1390 }
          reliable := repeats } }
  messages := layoutMessage

end UnreliableMessages
