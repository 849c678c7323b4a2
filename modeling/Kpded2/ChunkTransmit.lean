import Kpded2.DatagramSize
import Kpded2.DownloadChunks

/-!
# The packets of a download chunk

`PushDownload` puts the chunks between the first and the last into packets of their own. If the
reliable bytes that `Netchan_Transmit` would add leave no room for the chunk, they are sent
before it without it. When that is so is asked a second time here, in the words of
`Netchan_Transmit`.
-/
namespace ChunkTransmit
open DatagramSize DownloadCache Downloads NetChan Protocol SizeBuf

/-! ## The message -/

def svcPushdownload : UInt8 := 24
def svcXdownload : UInt8 := 26

def wordBytes (c : Int) : List UInt8 := longBytes (c % 2 ^ 32).toNat

/-- A chunk that is not the first, as it is written. -/
def chunkMessage (k : Chunk) : List UInt8 :=
  if k.extended then
    svcXdownload :: (shortBytes k.bytes.length ++ (wordBytes k.downloadid ++
      (wordBytes k.block ++ k.bytes)))
  else
    svcPushdownload :: (shortBytes k.bytes.length ++ (wordBytes k.size ++
      (wordBytes k.downloadid ++ (wordBytes k.block ++ k.bytes))))

theorem fsRead_length {how : Reading} {r : Nat} {f : Stream} {got : List UInt8 × Stream}
    (read : fsRead how r f = .ok got) : got.1.length = r := by
  have delivered := fread_length_le how.filled r f
  simp only [fsRead] at read
  split at read
  · rename_i whole
    cases read
    exact whole
  split at read
  · cases read
  cases read
  simp only [List.length_append, List.length_take, List.length_replicate]
  omega

theorem compressedBytes_length {d : Entry} {pos r : Nat} {got : List UInt8 × List UInt8}
    (read : compressedBytes d pos r = .ok got) : got.1.length = r := by
  simp only [compressedBytes] at read
  split at read
  · cases read
  split at read
  · rename_i fits
    cases read
    rw [List.length_take, List.length_drop]
    omega
  · cases read

theorem makeChunk_bytes {how : Reading} {start : Bool} {r : Nat} {c : Client}
    {downloads : List Entry} {made : Client × Chunk}
    (run : makeChunk how start r c downloads = .ok made) :
    made.2.bytes.length = r ∧ made.2.extended = decide (c.patched ≥ 4) := by
  simp only [makeChunk] at run
  split at run
  · obtain ⟨d, -, run⟩ := Outcome.exists_of_bind_eq_ok run
    obtain ⟨got, read, run⟩ := Outcome.exists_of_bind_eq_ok run
    cases run
    exact ⟨compressedBytes_length read, rfl⟩
  · obtain ⟨f, -, run⟩ := Outcome.exists_of_bind_eq_ok run
    obtain ⟨got, read, run⟩ := Outcome.exists_of_bind_eq_ok run
    cases run
    exact ⟨fsRead_length read, rfl⟩

/-- No chunk is longer than what its kind of message holds. -/
theorem sendChunk_bytes {how : Reading} {start : Bool} {c : Client} {downloads : List Entry}
    {sent : Client × List Entry × List Chunk}
    (run : sendChunk how start c downloads = .ok sent) :
    ∀ k ∈ sent.2.2, k.bytes.length ≤ if k.extended then 1366 else 1024 := by
  simp only [sendChunk] at run
  split at run
  · cases run
    intro k hk
    cases hk
  · obtain ⟨made, run, finished⟩ := Outcome.exists_of_bind_eq_ok run
    obtain ⟨length, extended⟩ := makeChunk_bytes run
    cases finished
    intro k hk
    have heq : k = made.2 := by
      simp only [finishChunk] at hk
      split at hk
      · exact List.mem_singleton.mp hk
      · exact List.mem_singleton.mp hk
    rw [heq, length, extended, chunkSize]
    simp only [decide_eq_true_eq]
    exact Nat.min_le_right _ _

theorem chunkMessage_length {k : Chunk}
    (fits : k.bytes.length ≤ if k.extended then 1366 else 1024) :
    (chunkMessage k).length ≤ 1377 := by
  rw [chunkMessage]
  cases hextended : k.extended
  · rw [hextended] at fits
    simp only [Bool.false_eq_true, if_false] at fits
    simp only [Bool.false_eq_true, if_false, List.length_cons, List.length_append, shortBytes,
      wordBytes, longBytes, List.length_nil]
    omega
  · rw [hextended] at fits
    simp only [if_true] at fits
    simp only [if_true, List.length_cons, List.length_append, shortBytes, wordBytes, longBytes,
      List.length_nil]
    omega

/-! ## The packets -/

/-- `send_reliable` of `PushDownload`. -/
def sendsSeparately (chan : Chan) (msglen : Nat) : Bool :=
  (decide (chan.incomingAcknowledged > chan.lastReliableSequence) &&
    chan.incomingReliableAcknowledged != chan.reliableSequence &&
    decide (chan.reliable.length + msglen > maxMsglen .kingpin - 8)) ||
  (chan.reliable.isEmpty &&
    decide (chan.message.data.length + msglen > maxMsglen .kingpin - 8))

/-- Without duplicates of a packet. -/
def quiet (chan : Chan) : Chan := { chan with packetdup := 0 }

/-- `calls` are the calls of `Netchan_Transmit`, the one with the chunk last. -/
structure Pushed where
  calls : List Transmitted
  chan : Chan

/-- `sends` and `sends'` are how many packets of either call get out. -/
def pushChunk (curtime sends sends' : Nat) (chan : Chan) (data : List UInt8) : Option Pushed :=
  if sendsSeparately chan data.length then do
    let first ← netchanTransmit .kingpin curtime sends chan []
    -- `ERR_DROP` leaves the function
    if first.result = .dropped then some ⟨[first], first.chan⟩
    else
      let second ← netchanTransmit .kingpin curtime sends' (quiet first.chan) data
      some ⟨[first, second], { second.chan with packetdup := chan.packetdup }⟩
  else do
    let only ← netchanTransmit .kingpin curtime sends' (quiet chan) data
    some ⟨[only], { only.chan with packetdup := chan.packetdup }⟩

/-- The channel of a client. -/
structure Bounded (chan : Chan) : Prop where
  server : chan.sock = .server
  message_le : chan.message.data.length ≤ maxUsablemsg .kingpin
  reliable_le : chan.reliable.length ≤ maxUsablemsg .kingpin

/-- No call stops the server frame, and after a separate packet the one with the chunk has
nothing but the chunk behind its header. -/
structure Safe (chan : Chan) (data : List UInt8) : Prop where
  returns : ∀ curtime sends sends', ∃ p, pushChunk curtime sends sends' chan data = some p
  neverDrops : ∀ curtime sends sends' p, pushChunk curtime sends sends' chan data = some p →
    ∀ t ∈ p.calls, t.result ≠ .dropped
  once : ∀ curtime sends sends' p, pushChunk curtime sends sends' chan data = some p →
    ∀ first second, p.calls = [first, second] →
      ∀ packet ∈ second.packets, packet.drop 8 = data

/-- The client has acknowledged a packet beyond the next one, and does not acknowledge the
payload that the next one carries for want of room. -/
structure Ahead (chan : Chan) (msglen : Nat) : Prop where
  clean : chan.message.overflowed = false
  separately : sendsSeparately chan msglen = true
  acknowledged : chan.outgoingSequence < chan.incomingAcknowledged
  unseen : chan.reliable ≠ [] ∨ chan.incomingReliableAcknowledged = chan.reliableSequence

theorem reliableIncluded_length {chan : Chan} (bounded : Bounded chan) :
    (reliableIncluded chan).length ≤ maxUsablemsg .kingpin := by
  have hreliable := bounded.reliable_le
  have hmessage := bounded.message_le
  rw [reliableIncluded]
  split
  · rcases stageReliable_cases chan with ⟨-, -, hstage⟩ | ⟨-, hstage⟩
    · rw [hstage]
      exact hmessage
    · rw [hstage]
      exact hreliable
  · exact Nat.zero_le _

/-- The condition of the chunk covers that of the channel. -/
theorem together_fit {chan : Chan} {msglen : Nat} (short : msglen ≤ 1377)
    (together : sendsSeparately chan msglen = false) :
    8 + (reliableIncluded chan).length + msglen ≤ 1400 := by
  have hmax : maxMsglen .kingpin - 8 = 1392 := rfl
  simp only [sendsSeparately, hmax, Bool.or_eq_false_iff, Bool.and_eq_false_iff,
    decide_eq_false_iff_not, List.isEmpty_eq_false_iff] at together
  rw [reliableIncluded]
  split
  · rename_i hsend
    rcases stageReliable_cases chan with ⟨hempty, -, hstage⟩ | ⟨hnone, hstage⟩
    · rw [hstage]
      have hlong := together.2.resolve_left (fun h => h (List.isEmpty_iff.mp hempty))
      simp only
      omega
    · rw [hstage]
      rw [sendReliable, hnone, Bool.or_false, Bool.and_eq_true] at hsend
      rcases together.1 with (hnot | hnot) | hlong
      · exact absurd (of_decide_eq_true hsend.1) hnot
      · rw [hsend.2] at hnot
        cases hnot
      · omega
  · simp only [List.length_nil]
    omega

/-- What goes first is not empty. -/
theorem staged_of_separately {chan : Chan} {msglen : Nat} (short : msglen ≤ 1377)
    (separately : sendsSeparately chan msglen = true) :
    sendReliable chan = true ∧ (stageReliable chan).reliable ≠ [] ∧
      1392 < (stageReliable chan).reliable.length + msglen := by
  have hmax : maxMsglen .kingpin - 8 = 1392 := rfl
  simp only [sendsSeparately, hmax, Bool.or_eq_true, Bool.and_eq_true, decide_eq_true_eq]
    at separately
  rcases separately with ⟨⟨acknowledged, unseen⟩, hlong⟩ | ⟨hempty, hlong⟩
  · have hreliable : chan.reliable ≠ [] := by
      intro hnil
      rw [hnil, List.length_nil] at hlong
      omega
    have hstage : stageReliable chan = chan := by
      rcases stageReliable_cases chan with ⟨hempty, -, -⟩ | ⟨-, hstage⟩
      · exact absurd (List.isEmpty_iff.mp hempty) hreliable
      · exact hstage
    refine ⟨?_, ?_, ?_⟩
    · simp only [sendReliable, unseen, decide_eq_true acknowledged, Bool.true_and, Bool.true_or]
    · rwa [hstage]
    · rwa [hstage]
  · have hmessage : chan.message.data ≠ [] := by
      intro hnil
      rw [hnil, List.length_nil] at hlong
      omega
    have hpending : chan.message.data.isEmpty = false := List.isEmpty_eq_false_iff.mpr hmessage
    have hstage : (stageReliable chan).reliable = chan.message.data := by
      simp only [stageReliable, hempty, hpending, Bool.not_false, Bool.and_self, if_true]
    refine ⟨?_, ?_, ?_⟩
    · simp only [sendReliable, hempty, hpending, Bool.not_false, Bool.and_self, Bool.or_true]
    · rwa [hstage]
    · rw [hstage]
      omega

/-- The payload in the separate packet is not acknowledged. -/
theorem unseen_iff {chan : Chan} {msglen : Nat} (short : msglen ≤ 1377)
    (separately : sendsSeparately chan msglen = true) :
    chan.incomingReliableAcknowledged ≠ (stageReliable chan).reliableSequence ↔
      chan.reliable ≠ [] ∨ chan.incomingReliableAcknowledged = chan.reliableSequence := by
  have hmax : maxMsglen .kingpin - 8 = 1392 := rfl
  simp only [sendsSeparately, hmax, Bool.or_eq_true, Bool.and_eq_true, decide_eq_true_eq]
    at separately
  rcases stageReliable_cases chan with ⟨hempty, hmessage, hstage⟩ | ⟨hnone, hstage⟩
  · have hreliable : chan.reliable = [] := List.isEmpty_iff.mp hempty
    rw [hstage]
    simp only [hreliable, ne_eq, not_true_eq_false, false_or]
    cases chan.incomingReliableAcknowledged <;> cases chan.reliableSequence <;> simp
  · rw [hstage]
    rcases separately with ⟨⟨-, unseen⟩, hlong⟩ | ⟨hempty, hlong⟩
    · have hreliable : chan.reliable ≠ [] := by
        intro hnil
        rw [hnil, List.length_nil] at hlong
        omega
      exact ⟨fun _ => Or.inl hreliable, fun _ => bne_iff_ne.mp unseen⟩
    · have hmessage : chan.message.data.isEmpty = false := by
        refine List.isEmpty_eq_false_iff.mpr fun hnil => ?_
        rw [hnil, List.length_nil] at hlong
        omega
      rw [hempty, hmessage] at hnone
      cases hnone

/-- What the call with the chunk finds after a separate packet. -/
structure After (chan next : Chan) : Prop where
  sock : next.sock = chan.sock
  overflowed : next.message.overflowed = chan.message.overflowed
  reliable : next.reliable = (stageReliable chan).reliable
  acknowledged : next.incomingAcknowledged = chan.incomingAcknowledged
  last : next.lastReliableSequence = chan.outgoingSequence
  seen : next.incomingReliableAcknowledged = chan.incomingReliableAcknowledged
  sequence : next.reliableSequence = (stageReliable chan).reliableSequence

theorem after_separate (curtime copies size : Nat) {chan : Chan}
    (sends : sendReliable chan = true) :
    After chan (quiet (countSent copies size (afterSend curtime chan))) := by
  obtain ⟨hout, -, -, hack, hrack, -, -⟩ := stageReliable_frame chan
  have hkept : (stageReliable chan).sock = chan.sock ∧
      (stageReliable chan).message.overflowed = chan.message.overflowed := by
    rcases stageReliable_cases chan with ⟨-, -, hstage⟩ | ⟨-, hstage⟩
    · rw [hstage]
      exact ⟨rfl, rfl⟩
    · rw [hstage]
      exact ⟨rfl, rfl⟩
  rw [afterSend, sends]
  exact ⟨hkept.1, hkept.2, rfl, hack, hout, hrack, rfl⟩

theorem After.included {chan next : Chan} (after : After chan next)
    (staged : (stageReliable chan).reliable ≠ []) :
    reliableIncluded next =
      if chan.outgoingSequence < chan.incomingAcknowledged ∧
        chan.incomingReliableAcknowledged ≠ (stageReliable chan).reliableSequence
      then (stageReliable chan).reliable else [] := by
  have hheld : next.reliable.isEmpty = false := by
    rw [after.reliable]
    exact List.isEmpty_eq_false_iff.mpr staged
  have hstage : stageReliable next = next := by
    rcases stageReliable_cases next with ⟨hempty, -, -⟩ | ⟨-, hstage⟩
    · rw [hheld] at hempty
      cases hempty
    · exact hstage
  have hsend : sendReliable next = true ↔ chan.outgoingSequence < chan.incomingAcknowledged ∧
      chan.incomingReliableAcknowledged ≠ (stageReliable chan).reliableSequence := by
    rw [sendReliable, hheld, Bool.false_and, Bool.or_false, after.acknowledged, after.last,
      after.seen, after.sequence, Bool.and_eq_true, decide_eq_true_eq, bne_iff_ne]
  rw [reliableIncluded, hstage, after.reliable]
  exact if_congr hsend rfl rfl

theorem netchanTransmit_of_overflow (curtime netSends : Nat) {chan : Chan} (data : List UInt8)
    (overflowed : chan.message.overflowed = true) :
    netchanTransmit .kingpin curtime netSends chan data = some ⟨chan, .overflow, []⟩ := by
  simp only [netchanTransmit, overflowed, if_true]

/-- Both calls do nothing to a channel whose message has overflowed. -/
theorem safe_of_overflow {chan : Chan} (overflowed : chan.message.overflowed = true)
    (data : List UInt8) : Safe chan data := by
  have hrun : ∀ curtime sends sends', ∃ p, pushChunk curtime sends sends' chan data = some p ∧
      ∀ t ∈ p.calls, t.result = .overflow ∧ t.packets = [] := by
    intro curtime sends sends'
    have hquiet : (quiet chan).message.overflowed = true := overflowed
    simp only [pushChunk, netchanTransmit_of_overflow curtime sends [] overflowed,
      netchanTransmit_of_overflow curtime sends' data hquiet, Option.bind_eq_bind,
      Option.bind_some, reduceCtorEq, if_false]
    split
    · refine ⟨_, rfl, fun t ht => ?_⟩
      rcases List.mem_cons.mp ht with rfl | ht
      · exact ⟨rfl, rfl⟩
      · rw [List.mem_singleton.mp ht]
        exact ⟨rfl, rfl⟩
    · refine ⟨_, rfl, fun t ht => ?_⟩
      rw [List.mem_singleton.mp ht]
      exact ⟨rfl, rfl⟩
  constructor
  · intro curtime sends sends'
    obtain ⟨p, run, -⟩ := hrun curtime sends sends'
    exact ⟨p, run⟩
  · intro curtime sends sends' p run t ht
    obtain ⟨q, run', results⟩ := hrun curtime sends sends'
    rw [Option.some.inj (run.symm.trans run')] at ht
    rw [(results t ht).1]
    exact TransmitResult.noConfusion
  · intro curtime sends sends' p run first second calls packet hpacket
    obtain ⟨q, run', results⟩ := hrun curtime sends sends'
    rw [Option.some.inj (run.symm.trans run')] at calls
    rw [(results second (by rw [calls]; exact List.mem_cons_of_mem _ List.mem_cons_self)).2]
      at hpacket
    cases hpacket

/-- Without a separate packet there is room for the chunk. -/
theorem safe_of_together {chan : Chan} {data : List UInt8} (bounded : Bounded chan)
    (short : data.length ≤ 1377) (together : sendsSeparately chan data.length = false) :
    Safe chan data := by
  have hrun : ∀ curtime sends sends', ∃ only,
      pushChunk curtime sends sends' chan data =
        some ⟨[only], { only.chan with packetdup := chan.packetdup }⟩ ∧
      only.result ≠ .dropped := by
    intro curtime sends sends'
    have hfits : 8 + (reliableIncluded (quiet chan)).length + data.length ≤ 1400 :=
      @together_fit (quiet chan) data.length short together
    obtain ⟨only, run, result⟩ :=
      @netchanTransmit_fits curtime sends' (quiet chan) data bounded.server hfits
    refine ⟨only, ?_, result⟩
    simp only [pushChunk, together, Bool.false_eq_true, if_false, run, Option.bind_eq_bind,
      Option.bind_some]
  constructor
  · intro curtime sends sends'
    obtain ⟨only, run, -⟩ := hrun curtime sends sends'
    exact ⟨_, run⟩
  · intro curtime sends sends' p run t ht
    obtain ⟨only, run', result⟩ := hrun curtime sends sends'
    rw [← Option.some.inj (run'.symm.trans run)] at ht
    rw [List.mem_singleton.mp ht]
    exact result
  · intro curtime sends sends' p run first second calls
    obtain ⟨only, run', -⟩ := hrun curtime sends sends'
    rw [← Option.some.inj (run'.symm.trans run)] at calls
    cases calls

/-- The separate packet gets out, and what the next call finds. -/
theorem separate_sent (curtime sends : Nat) {chan : Chan} {msglen : Nat} (bounded : Bounded chan)
    (clean : chan.message.overflowed = false) (short : msglen ≤ 1377)
    (separately : sendsSeparately chan msglen = true) :
    ∃ first, netchanTransmit .kingpin curtime sends chan [] = some first ∧
      first.result ≠ .dropped ∧ After chan (quiet first.chan) := by
  have hlength := reliableIncluded_length bounded
  have hmax : maxUsablemsg .kingpin = 1390 := rfl
  rw [hmax] at hlength
  obtain ⟨first, run, result⟩ := @netchanTransmit_fits curtime sends chan [] bounded.server
    (by rw [List.length_nil]; omega)
  refine ⟨first, run, result, ?_⟩
  rcases netchanTransmit_cases run with ⟨hover, -⟩ | ⟨-, -, copies, size, hchan, -⟩
  · rw [clean] at hover
    cases hover
  · rw [hchan]
    exact after_separate curtime copies size (staged_of_separately short separately).1

theorem pushChunk_separately {curtime sends sends' : Nat} {chan : Chan} {data : List UInt8}
    {first second : Transmitted} (separately : sendsSeparately chan data.length = true)
    (run : netchanTransmit .kingpin curtime sends chan [] = some first)
    (result : first.result ≠ .dropped)
    (run' : netchanTransmit .kingpin curtime sends' (quiet first.chan) data = some second) :
    pushChunk curtime sends sends' chan data =
      some ⟨[first, second], { second.chan with packetdup := chan.packetdup }⟩ := by
  simp only [pushChunk, separately, if_true, run, Option.bind_eq_bind, Option.bind_some, result,
    if_false, run']

/-- A packet without reliable bytes. -/
theorem packetBytes_drop {chan : Chan} {data : List UInt8} (server : chan.sock = .server)
    (included : reliableIncluded chan = []) : (packetBytes chan data).drop 8 = data := by
  have hport : qportBytes chan = [] := by simp only [qportBytes, server]
  have hreliable : (if sendReliable chan then (stageReliable chan).reliable else []) = [] :=
    included
  rw [packetBytes, hport, hreliable]
  rfl

/-- A chunk is safe behind reliable data that goes ahead of it, unless the channel is behind. -/
theorem safe_of_separately {chan : Chan} {data : List UInt8} (bounded : Bounded chan)
    (clean : chan.message.overflowed = false) (short : data.length ≤ 1377)
    (separately : sendsSeparately chan data.length = true)
    (behind : ¬(chan.outgoingSequence < chan.incomingAcknowledged ∧
      chan.incomingReliableAcknowledged ≠ (stageReliable chan).reliableSequence)) :
    Safe chan data := by
  have hrun : ∀ curtime sends sends', ∃ first second,
      pushChunk curtime sends sends' chan data =
        some ⟨[first, second], { second.chan with packetdup := chan.packetdup }⟩ ∧
      first.result ≠ .dropped ∧ second.result ≠ .dropped ∧
      ∀ packet ∈ second.packets, packet.drop 8 = data := by
    intro curtime sends sends'
    obtain ⟨first, run, result, after⟩ :=
      separate_sent curtime sends bounded clean short separately
    have hserver : (quiet first.chan).sock = .server := after.sock.trans bounded.server
    have hincluded : reliableIncluded (quiet first.chan) = [] := by
      rw [after.included (staged_of_separately short separately).2.1, if_neg behind]
    obtain ⟨second, run', result'⟩ := @netchanTransmit_fits curtime sends' (quiet first.chan) data
      hserver (by rw [hincluded, List.length_nil]; omega)
    refine ⟨first, second, pushChunk_separately separately run result run', result, result', ?_⟩
    intro packet hpacket
    rcases netchanTransmit_cases run' with ⟨-, hout⟩ | ⟨-, -, copies, size, -, hpackets⟩
    · rw [hout] at hpacket
      cases hpacket
    · rw [hpackets] at hpacket
      rw [List.eq_of_mem_replicate hpacket]
      exact packetBytes_drop hserver hincluded
  constructor
  · intro curtime sends sends'
    obtain ⟨first, second, run, -⟩ := hrun curtime sends sends'
    exact ⟨_, run⟩
  · intro curtime sends sends' p run t ht
    obtain ⟨first, second, run', result, result', -⟩ := hrun curtime sends sends'
    rw [← Option.some.inj (run'.symm.trans run)] at ht
    rcases List.mem_cons.mp ht with rfl | ht
    · exact result
    · rw [List.mem_singleton.mp ht]
      exact result'
  · intro curtime sends sends' p run first second calls packet hpacket
    obtain ⟨first', second', run', -, -, packets⟩ := hrun curtime sends sends'
    rw [← Option.some.inj (run'.symm.trans run)] at calls
    injection calls with hfirst hrest
    injection hrest with hsecond
    rw [← hsecond] at hpacket
    exact packets packet hpacket

/-- An acknowledgement from beyond makes the channel repeat what was just sent, and with it the
chunk is too long. -/
theorem not_safe_of_ahead {chan : Chan} {data : List UInt8} (bounded : Bounded chan)
    (short : data.length ≤ 1377) (ahead : Ahead chan data.length) : ¬Safe chan data := by
  intro safe
  obtain ⟨first, run, result, after⟩ :=
    separate_sent 0 1 bounded ahead.clean short ahead.separately
  obtain ⟨sends, staged, long⟩ := staged_of_separately short ahead.separately
  have hserver : (quiet first.chan).sock = .server := after.sock.trans bounded.server
  have hclean : (quiet first.chan).message.overflowed = false :=
    after.overflowed.trans ahead.clean
  have hincluded : reliableIncluded (quiet first.chan) = (stageReliable chan).reliable := by
    rw [after.included staged,
      if_pos ⟨ahead.acknowledged, (unseen_iff short ahead.separately).mpr ahead.unseen⟩]
  have hlength := reliableIncluded_length bounded
  have hmax : maxUsablemsg .kingpin = 1390 := rfl
  have hsame : reliableIncluded chan = (stageReliable chan).reliable := by
    rw [reliableIncluded, if_pos sends]
  rw [hmax, hsame] at hlength
  obtain ⟨second, run', result'⟩ :=
    @netchanTransmit_dropped_iff 0 1 (quiet first.chan) data hserver hclean
      (by rw [hincluded]; omega)
  have hpush := pushChunk_separately ahead.separately run result run'
  refine safe.neverDrops 0 1 1 _ hpush second (List.mem_cons_of_mem _ List.mem_cons_self) ?_
  refine result'.mpr ?_
  rw [hincluded]
  omega

/-- The chunks of `PushDownload` that are neither the first nor the last: their packets are safe
exactly if the acknowledgements of the client are not ahead of what was sent to him. -/
theorem chunk_safe_iff {how : Reading} {c : Client} {downloads : List Entry}
    {sent : Client × List Entry × List Chunk} {k : Chunk} {chan : Chan}
    (run : sendChunk how false c downloads = .ok sent) (hk : k ∈ sent.2.2)
    (bounded : Bounded chan) :
    Safe chan (chunkMessage k) ↔ ¬Ahead chan (chunkMessage k).length := by
  have short := chunkMessage_length (sendChunk_bytes run k hk)
  constructor
  · intro safe ahead
    exact not_safe_of_ahead bounded short ahead safe
  · intro behind
    cases hover : chan.message.overflowed with
    | true => exact safe_of_overflow hover _
    | false =>
      cases hsep : sendsSeparately chan (chunkMessage k).length with
      | false => exact safe_of_together bounded short hsep
      | true =>
        refine safe_of_separately bounded hover short hsep fun h => ?_
        exact behind ⟨hover, hsep, h.1, (unseen_iff short hsep).mp h.2⟩

private def midway : Client where
  patched := 4
  download := some { contents := List.replicate 3000 7, pos := 1366 }
  downloadsize := 3000
  downloadpos := 1366
  downloadcount := 1366

private theorem midway_sends : ∃ sent k, sendChunk {} false midway [] = .ok sent ∧ k ∈ sent.2.2 ∧
    (chunkMessage k).length = 1377 := by
  have hlength : (match sendChunk {} false midway [] with
      | .ok sent => sent.2.2.map fun k => (chunkMessage k).length
      | .error _ => []) = [1377] := by decide +kernel
  split at hlength
  · rename_i sent run
    obtain ⟨k, hk, hone⟩ := List.mem_map.mp (hlength ▸ List.mem_singleton_self 1377)
    exact ⟨sent, k, run, hk, hone⟩
  · cases hlength

/-- What the channel of a new client is when it has sent `message`, and a packet has come that
acknowledges the packet `ack` but not the message. -/
def answered (message : List UInt8) (ack : Nat) : Option Chan := do
  let chan ← netchanSetup .kingpin 0 .server 0 0 0
  let sent ← netchanTransmit .kingpin 0 1
    { chan with message := { chan.message with data := message } } []
  some (netchanProcess .kingpin 0 sent.chan
    (longBytes (headerWord 1 false) ++ (longBytes (headerWord ack false) ++ [0, 0]))).chan

theorem chunk_safe_iff_midway : ∃ chan k, answered (List.replicate 16 8) 2 = some chan ∧
    (Safe chan (chunkMessage k) ↔ ¬Ahead chan (chunkMessage k).length) := by
  obtain ⟨sent, k, run, hk, -⟩ := midway_sends
  have hchan : ((answered (List.replicate 16 8) 2).map fun chan =>
      decide (chan.sock = .server ∧ chan.message.data.length ≤ maxUsablemsg .kingpin ∧
        chan.reliable.length ≤ maxUsablemsg .kingpin)) = some true := by decide +kernel
  obtain ⟨chan, hanswered, hbounded⟩ := Option.map_eq_some_iff.mp hchan
  obtain ⟨server, message, reliable⟩ := of_decide_eq_true hbounded
  exact ⟨chan, k, hanswered, chunk_safe_iff run hk ⟨server, message, reliable⟩⟩

/-- The client acknowledges the packet 1000 after one was sent: the chunk stops the server frame. -/
theorem chunk_drops : ∃ chan k, answered (List.replicate 16 8) 1000 = some chan ∧
    (∃ sent, sendChunk {} false midway [] = .ok sent ∧ k ∈ sent.2.2) ∧ Bounded chan ∧
    ¬Safe chan (chunkMessage k) := by
  obtain ⟨sent, k, run, hk, hlength⟩ := midway_sends
  have hchan : ((answered (List.replicate 16 8) 1000).map fun chan =>
      decide (chan.sock = .server ∧ chan.message.data.length ≤ maxUsablemsg .kingpin ∧
        chan.reliable.length ≤ maxUsablemsg .kingpin) &&
      (decide (chan.message.overflowed = false ∧ sendsSeparately chan 1377 = true ∧
        chan.outgoingSequence < chan.incomingAcknowledged ∧ chan.reliable ≠ []))) =
          some true := by decide +kernel
  obtain ⟨chan, hanswered, hfacts⟩ := Option.map_eq_some_iff.mp hchan
  obtain ⟨hbounded, hahead⟩ := Bool.and_eq_true_iff.mp hfacts
  obtain ⟨server, message, reliable⟩ := of_decide_eq_true hbounded
  obtain ⟨clean, separately, acknowledged, unseen⟩ := of_decide_eq_true hahead
  have ahead : Ahead chan (chunkMessage k).length := by
    rw [hlength]
    exact ⟨clean, separately, acknowledged, Or.inl unseen⟩
  have bounded : Bounded chan := ⟨server, message, reliable⟩
  exact ⟨chan, k, hanswered, ⟨sent, run, hk⟩, bounded,
    not_safe_of_ahead bounded (by rw [hlength]) ahead⟩

end ChunkTransmit
