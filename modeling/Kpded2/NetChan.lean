import Kpded2.Protocol
import Kpded2.SizeBuf

/-!
# Network channels

`Netchan_Setup`, `Netchan_Transmit` and `Netchan_Process`. The one-bit counters
are `Bool`, and `reliable` holds the first `reliable_length` bytes of
`reliable_buf`, so the length is 0 exactly when it is empty. Sequence numbers are
natural numbers: they are masked to 31 bits where they enter a packet.
-/
namespace NetChan
open Protocol SizeBuf

inductive NetSrc where
  | client
  | server
  deriving DecidableEq

structure Chan where
  gotReliable : Bool := false
  sock : NetSrc
  dropped : Nat := 0
  lastReceived : Nat
  lastSent : Nat
  qport : Nat
  protocol : Nat
  incomingSequence : Nat := 0
  incomingAcknowledged : Nat := 0
  incomingReliableAcknowledged : Bool := false
  incomingReliableSequence : Bool := false
  outgoingSequence : Nat := 1
  reliableSequence : Bool := false
  lastReliableSequence : Nat := 0
  message : Sizebuf
  reliable : List UInt8 := []
  countacks : Bool := false
  outTotal : Nat := 0
  outDropped : Nat := 0
  inTotal : Nat := 0
  inDropped : Nat := 0
  packetdup : Nat := 0
  bytesIn : Nat := 0
  packetsIn : Nat := 0
  bytesOut : Nat := 0
  packetsOut : Nat := 0

/-- `none` is the `Com_Error` for a message size that no packet can hold. -/
def netchanSetup (build : Build) (curtime : Nat) (sock : NetSrc) (protocol qport msglen : Nat) :
    Option Chan :=
  let setup (message : Sizebuf) : Chan :=
    { sock, qport, protocol, lastReceived := curtime, lastSent := curtime
      message := { message with allowoverflow := true } }
  if build = .quake2 ∧ protocol = protocolR1Q2 then
    if msglen ≠ 0 then
      if msglen > maxUsablemsg build then none else some (setup (szInit msglen))
    else some (setup (szInit (maxUsablemsg build)))
  else some (setup (szInit 1390))

/-- A header word: 31 bits of sequence number below one flag. -/
def headerWord (sequence : Nat) (flag : Bool) : Nat :=
  sequence % 2 ^ 31 + if flag then 2 ^ 31 else 0

structure Header where
  sequence : Nat
  reliableMessage : Bool
  sequenceAck : Nat
  reliableAck : Bool
  deriving DecidableEq

/-- The two header words of a packet, and what follows them. -/
def readHeader (msg : List UInt8) : Header × List UInt8 :=
  let (w1, rest) := msgReadLong msg
  let (w2, rest) := msgReadLong rest
  (⟨w1 % 2 ^ 31, 2 ^ 31 ≤ w1, w2 % 2 ^ 31, 2 ^ 31 ≤ w2⟩, rest)

def sendReliable (chan : Chan) : Bool :=
  (decide (chan.incomingAcknowledged > chan.lastReliableSequence) &&
      chan.incomingReliableAcknowledged != chan.reliableSequence) ||
    (chan.reliable.isEmpty && !chan.message.data.isEmpty)

/-- The pending message moves into the holding area when that is free. -/
def stageReliable (chan : Chan) : Chan :=
  if chan.reliable.isEmpty && !chan.message.data.isEmpty then
    { chan with
      reliable := chan.message.data
      message := { chan.message with data := [] }
      reliableSequence := !chan.reliableSequence }
  else chan

def sendSize (build : Build) (chan : Chan) : Nat :=
  if build = .quake2 ∧ chan.protocol = protocolR1Q2 then maxMsglen build else 1400

/-- The bytes a client adds after the header. -/
def qportBytes (chan : Chan) : List UInt8 :=
  match chan.sock with
  | .server => []
  | .client =>
    if chan.protocol ≠ protocolR1Q2 then shortBytes chan.qport
    else if chan.qport ≠ 0 then [UInt8.ofNat chan.qport] else []

def writeIf (needed : Bool) (send : Sizebuf) (data : List UInt8) : Option Sizebuf :=
  if needed then szWrite send data else some send

inductive TransmitResult where
  | overflow
  | sendFailed
  | sent
  | dropped
  deriving DecidableEq

structure Transmitted where
  chan : Chan
  result : TransmitResult
  packets : List (List UInt8)

/-- The loop over `packetdup`: no duplicates without recent packet loss, and no
more copies once the socket has refused one. -/
def copiesWanted (chan : Chan) : Nat := if chan.outDropped = 0 then 1 else chan.packetdup + 1

def numberPacket (curtime : Nat) (chan : Chan) : Chan :=
  { chan with outgoingSequence := chan.outgoingSequence + 1, lastSent := curtime }

def noteReliable (reliableNow : Bool) (chan : Chan) : Chan :=
  if reliableNow then { chan with lastReliableSequence := chan.outgoingSequence - 1 } else chan

def countSent (copies size : Nat) (chan : Chan) : Chan :=
  { chan with
    bytesOut := chan.bytesOut + copies * size
    packetsOut := chan.packetsOut + copies }

/-- `netSends` is how many calls of `NET_SendPacket` succeed before one fails;
`none` is a fatal overflow of the packet buffer. -/
def netchanTransmit (build : Build) (curtime netSends : Nat) (chan : Chan) (data : List UInt8) :
    Option Transmitted :=
  if chan.message.overflowed then some ⟨chan, .overflow, []⟩
  else do
    let reliableNow := sendReliable chan
    let chan := stageReliable chan
    let send := szInit (sendSize build chan)
    let w1 := headerWord chan.outgoingSequence reliableNow
    let w2 := headerWord chan.incomingSequence chan.incomingReliableSequence
    let chan := numberPacket curtime chan
    let send ← szWrite send (longBytes w1)
    let send ← szWrite send (longBytes w2)
    let send ← writeIf (!(qportBytes chan).isEmpty) send (qportBytes chan)
    let send ← writeIf (reliableNow && !chan.reliable.isEmpty) send chan.reliable
    let chan := noteReliable reliableNow chan
    if send.cursize + data.length ≤ send.maxsize then
      let send ← writeIf (!data.isEmpty) send data
      let copies := min (copiesWanted chan) netSends
      some ⟨countSent copies send.cursize chan,
        if copies < copiesWanted chan then .sendFailed else .sent,
        List.replicate copies send.data⟩
    else some ⟨chan, .dropped, []⟩

/-- How many bytes the receiver skips for the sender's port. -/
def qportLength (build : Build) (chan : Chan) : Nat :=
  match chan.sock, build with
  | .client, _ => 0
  | .server, .kingpin => 2
  | .server, .quake2 =>
    if chan.protocol ≠ protocolR1Q2 ∨ chan.qport > 0xFF then 2
    else if chan.qport ≠ 0 then 1 else 0

structure LossCounters where
  outTotal : Nat
  outDropped : Nat
  inTotal : Nat
  inDropped : Nat

/-- The counters are halved from time to time, to favour current data. -/
def decayCounters (c : LossCounters) : LossCounters :=
  if c.outTotal ≥ (if c.outDropped = 1 then 2000 else 600) then
    ⟨c.outTotal / 2, c.outDropped / 2, c.inTotal / 2, c.inDropped / 2⟩
  else c

/-- The packet-loss counters, updated when the packet acknowledges something new. -/
def countAcks (curtime : Nat) (header : Header) (chan : Chan) (c : LossCounters) :
    LossCounters :=
  if header.sequenceAck > chan.incomingAcknowledged then
    let gained := header.sequenceAck - chan.incomingAcknowledged
    if chan.countacks ∧ ((curtime + 2 ^ 32 - chan.lastReceived) % 2 ^ 32 < 90 ∨ gained = 1) then
      decayCounters
        { c with outTotal := c.outTotal + gained, outDropped := c.outDropped + (gained - 1) }
    else if !chan.reliable.isEmpty ∧ header.sequenceAck ≥ chan.lastReliableSequence then
      decayCounters
        { c with
          outTotal := c.outTotal + 1
          outDropped :=
            if header.reliableAck ≠ chan.reliableSequence then c.outDropped + 1
            else c.outDropped }
    else decayCounters c
  else c

structure Processed where
  chan : Chan
  accepted : Bool
  body : List UInt8

def netchanProcess (build : Build) (curtime : Nat) (chan : Chan) (msg : List UInt8) :
    Processed :=
  let (header, rest) := readHeader msg
  let body := rest.drop (qportLength build chan)
  let chan :=
    { chan with
      bytesIn := chan.bytesIn + msg.length
      packetsIn := chan.packetsIn + 1
      gotReliable := header.reliableMessage }
  if header.sequence ≤ chan.incomingSequence then ⟨chan, false, body⟩
  else
    let dropped := header.sequence - (chan.incomingSequence + 1)
    let counters := countAcks curtime header chan
      ⟨chan.outTotal, chan.outDropped,
        chan.inTotal + (header.sequence - chan.incomingSequence), chan.inDropped + dropped⟩
    let chan :=
      { chan with
        dropped := dropped
        outTotal := counters.outTotal
        outDropped := counters.outDropped
        inTotal := counters.inTotal
        inDropped := counters.inDropped
        reliable := if header.reliableAck = chan.reliableSequence then [] else chan.reliable
        incomingSequence := header.sequence
        incomingAcknowledged := header.sequenceAck
        incomingReliableAcknowledged := header.reliableAck
        incomingReliableSequence := header.reliableMessage ^^ chan.incomingReliableSequence
        lastReceived := curtime }
    ⟨chan, true, body⟩

/-! ## What one call does to the sequencing variables -/

theorem readHeader_bytes (sequence ack : Nat) (flag ackFlag : Bool) (rest : List UInt8) :
    readHeader (longBytes (headerWord sequence flag) ++
        (longBytes (headerWord ack ackFlag) ++ rest)) =
      (⟨sequence % 2 ^ 31, flag, ack % 2 ^ 31, ackFlag⟩, rest) := by
  have hword : ∀ n (b : Bool), headerWord n b < 2 ^ 32 := by
    intro n b
    unfold headerWord
    split <;> omega
  have hlow : ∀ n (b : Bool), headerWord n b % 2 ^ 31 = n % 2 ^ 31 := by
    intro n b
    unfold headerWord
    split <;> omega
  have hflag : ∀ n (b : Bool), decide (2 ^ 31 ≤ headerWord n b) = b := by
    intro n b
    unfold headerWord
    cases b
    · simp only [Bool.false_eq_true, if_false, decide_eq_false_iff_not]
      omega
    · simp
  unfold readHeader
  simp only [msgReadLong_longBytes (hword _ _), hlow, hflag]

theorem writeIf_strict {needed : Bool} {send out : Sizebuf} {data : List UInt8}
    (hstrict : send.allowoverflow = false) (h : writeIf needed send data = some out) :
    out.allowoverflow = false ∧ out.data = send.data ++ if needed then data else [] := by
  cases needed with
  | false =>
    simp only [writeIf, Bool.false_eq_true, if_false, Option.some.injEq] at h
    simp [← h, hstrict]
  | true => exact szWrite_strict hstrict h

theorem keep_nonempty (data : List UInt8) :
    (if (!data.isEmpty) = true then data else []) = data := by
  cases data <;> simp

theorem keep_needed (needed : Bool) (data : List UInt8) :
    (if (needed && !data.isEmpty) = true then data else []) = if needed then data else [] := by
  cases data <;> simp

/-- A packet: the header, the port of a client, the reliable part, the rest. -/
def packetBytes (chan : Chan) (data : List UInt8) : List UInt8 :=
  longBytes (headerWord chan.outgoingSequence (sendReliable chan)) ++
    (longBytes (headerWord chan.incomingSequence chan.incomingReliableSequence) ++
      (qportBytes chan ++
        ((if sendReliable chan then (stageReliable chan).reliable else []) ++ data)))

/-- The channel after a packet has been composed. -/
def afterSend (curtime : Nat) (chan : Chan) : Chan :=
  noteReliable (sendReliable chan) (numberPacket curtime (stageReliable chan))

theorem stageReliable_cases (chan : Chan) :
    (chan.reliable.isEmpty = true ∧ chan.message.data.isEmpty = false ∧
      stageReliable chan = { chan with
        reliable := chan.message.data
        message := { chan.message with data := [] }
        reliableSequence := !chan.reliableSequence }) ∨
    ((chan.reliable.isEmpty && !chan.message.data.isEmpty) = false ∧
      stageReliable chan = chan) := by
  unfold stageReliable
  cases hr : chan.reliable.isEmpty <;> cases hm : chan.message.data.isEmpty <;> simp

/-- The fields that the staging leaves alone. -/
theorem stageReliable_frame (chan : Chan) :
    (stageReliable chan).outgoingSequence = chan.outgoingSequence ∧
    (stageReliable chan).incomingSequence = chan.incomingSequence ∧
    (stageReliable chan).incomingReliableSequence = chan.incomingReliableSequence ∧
    (stageReliable chan).incomingAcknowledged = chan.incomingAcknowledged ∧
    (stageReliable chan).incomingReliableAcknowledged = chan.incomingReliableAcknowledged ∧
    (stageReliable chan).lastReliableSequence = chan.lastReliableSequence ∧
    qportBytes (stageReliable chan) = qportBytes chan := by
  rcases stageReliable_cases chan with ⟨_, _, heq⟩ | ⟨_, heq⟩
  · rw [heq]
    simp [qportBytes]
  · rw [heq]
    simp

/-- What a transmission can do. -/
theorem netchanTransmit_cases {build : Build} {curtime netSends : Nat} {chan : Chan}
    {data : List UInt8} {out : Transmitted}
    (h : netchanTransmit build curtime netSends chan data = some out) :
    (chan.message.overflowed = true ∧ out = ⟨chan, .overflow, []⟩) ∨
    (chan.message.overflowed = false ∧ out.result ≠ .overflow ∧
      ∃ copies size, out.chan = countSent copies size (afterSend curtime chan) ∧
        out.packets = List.replicate copies (packetBytes chan data)) := by
  unfold netchanTransmit at h
  split at h
  · rename_i hover
    exact Or.inl ⟨hover, (Option.some.inj h).symm⟩
  · rename_i hover
    refine Or.inr ⟨by simpa using hover, ?_⟩
    obtain ⟨hout, hin, hrin, _, _, _, hport⟩ := stageReliable_frame chan
    simp only [Option.bind_eq_bind, Option.bind_eq_some_iff] at h
    obtain ⟨s1, h1, s2, h2, s3, h3, s4, h4, h⟩ := h
    obtain ⟨hs1, hd1⟩ := szWrite_strict rfl h1
    obtain ⟨hs2, hd2⟩ := szWrite_strict hs1 h2
    obtain ⟨hs3, hd3⟩ := writeIf_strict hs2 h3
    obtain ⟨hs4, hd4⟩ := writeIf_strict hs3 h4
    split at h
    · simp only [Option.bind_eq_some_iff] at h
      obtain ⟨s5, h5, h⟩ := h
      obtain ⟨_, hd5⟩ := writeIf_strict hs4 h5
      have hbytes : s5.data = packetBytes chan data := by
        rw [keep_nonempty] at hd3 hd5
        rw [keep_needed] at hd4
        rw [hd5, hd4, hd3, hd2, hd1]
        simp only [packetBytes, ← hout, ← hin, ← hrin, ← hport, List.append_assoc]
        rfl
      rw [← Option.some.inj h, ← hbytes]
      refine ⟨?_, _, _, rfl, rfl⟩
      dsimp only
      split <;> decide
    · rw [← Option.some.inj h]
      exact ⟨by simp, 0, 0, by simp [countSent, afterSend], rfl⟩

/-- The variables that the two directions of a conversation share through the
packet headers, with the unacknowledged reliable message. -/
structure Sequencing where
  incomingSequence : Nat
  incomingAcknowledged : Nat
  incomingReliableAcknowledged : Bool
  incomingReliableSequence : Bool
  outgoingSequence : Nat
  reliableSequence : Bool
  lastReliableSequence : Nat
  reliable : List UInt8

def Chan.sequencing (chan : Chan) : Sequencing where
  incomingSequence := chan.incomingSequence
  incomingAcknowledged := chan.incomingAcknowledged
  incomingReliableAcknowledged := chan.incomingReliableAcknowledged
  incomingReliableSequence := chan.incomingReliableSequence
  outgoingSequence := chan.outgoingSequence
  reliableSequence := chan.reliableSequence
  lastReliableSequence := chan.lastReliableSequence
  reliable := chan.reliable

theorem netchanSetup_sequencing {build : Build} {curtime protocol qport msglen : Nat}
    {sock : NetSrc} {chan : Chan}
    (h : netchanSetup build curtime sock protocol qport msglen = some chan) :
    chan.sequencing = ⟨0, 0, false, false, 1, false, 0, []⟩ := by
  unfold netchanSetup at h
  split at h
  · split at h
    · split at h
      · cases h
      · rw [← Option.some.inj h]
        rfl
    · rw [← Option.some.inj h]
      rfl
  · rw [← Option.some.inj h]
    rfl

/-- The payload that a call of `Netchan_Transmit` moves into the holding area. -/
def movedPayload (chan : Chan) : Option (List UInt8) :=
  if chan.reliable.isEmpty && !chan.message.data.isEmpty then some chan.message.data else none

/-- A packet starts a new payload, repeats the one in the holding area because
the peer saw a later packet without it, or carries none. -/
theorem afterSend_cases (curtime copies size : Nat) (chan : Chan) :
    (∃ p, p ≠ [] ∧ movedPayload chan = some p ∧ chan.reliable = [] ∧
      sendReliable chan = true ∧ (stageReliable chan).reliable = p ∧
      (countSent copies size (afterSend curtime chan)).sequencing =
        { chan.sequencing with
          outgoingSequence := chan.outgoingSequence + 1
          lastReliableSequence := chan.outgoingSequence
          reliableSequence := !chan.reliableSequence
          reliable := p }) ∨
    (movedPayload chan = none ∧ chan.lastReliableSequence < chan.incomingAcknowledged ∧
      chan.incomingReliableAcknowledged ≠ chan.reliableSequence ∧
      sendReliable chan = true ∧ (stageReliable chan).reliable = chan.reliable ∧
      (countSent copies size (afterSend curtime chan)).sequencing =
        { chan.sequencing with
          outgoingSequence := chan.outgoingSequence + 1
          lastReliableSequence := chan.outgoingSequence }) ∨
    (movedPayload chan = none ∧ sendReliable chan = false ∧
      (countSent copies size (afterSend curtime chan)).sequencing =
        { chan.sequencing with outgoingSequence := chan.outgoingSequence + 1 }) := by
  rcases stageReliable_cases chan with ⟨hr, hm, hstage⟩ | ⟨hnone, hstage⟩
  · left
    have hsend : sendReliable chan = true := by simp [sendReliable, hr, hm]
    refine ⟨chan.message.data, by simpa using hm, by simp [movedPayload, hr, hm],
      by simpa using hr, hsend, by rw [hstage], ?_⟩
    rw [afterSend, hstage, hsend]
    rfl
  · right
    have hmoved : movedPayload chan = none := by simp [movedPayload, hnone]
    cases hsend : sendReliable chan with
    | false =>
      refine Or.inr ⟨hmoved, rfl, ?_⟩
      rw [afterSend, hstage, hsend]
      rfl
    | true =>
      have hwhy := hsend
      rw [sendReliable, hnone, Bool.or_false, Bool.and_eq_true, decide_eq_true_eq,
        bne_iff_ne] at hwhy
      refine Or.inl ⟨hmoved, hwhy.1, hwhy.2, rfl, by rw [hstage], ?_⟩
      rw [afterSend, hstage, hsend]
      rfl

theorem netchanProcess_stale (build : Build) (curtime : Nat) {chan : Chan} {msg : List UInt8}
    (h : (readHeader msg).1.sequence ≤ chan.incomingSequence) :
    (netchanProcess build curtime chan msg).accepted = false ∧
      (netchanProcess build curtime chan msg).chan.sequencing = chan.sequencing := by
  simp only [netchanProcess, if_pos h]
  exact ⟨trivial, rfl⟩

theorem netchanProcess_newer (build : Build) (curtime : Nat) {chan : Chan} {msg : List UInt8}
    (h : chan.incomingSequence < (readHeader msg).1.sequence) :
    (netchanProcess build curtime chan msg).accepted = true ∧
    (netchanProcess build curtime chan msg).chan.gotReliable =
      (readHeader msg).1.reliableMessage ∧
    (netchanProcess build curtime chan msg).chan.sequencing =
      { chan.sequencing with
        incomingSequence := (readHeader msg).1.sequence
        incomingAcknowledged := (readHeader msg).1.sequenceAck
        incomingReliableAcknowledged := (readHeader msg).1.reliableAck
        incomingReliableSequence :=
          (readHeader msg).1.reliableMessage ^^ chan.incomingReliableSequence
        reliable :=
          if (readHeader msg).1.reliableAck = chan.reliableSequence then [] else chan.reliable } := by
  simp only [netchanProcess, if_neg (Nat.not_le_of_lt h)]
  exact ⟨trivial, trivial, rfl⟩

end NetChan
