import Kpded2.MessageStorage

/-!
# The size of a datagram

`Netchan_Transmit` stops the server frame when the reliable bytes that it adds and
the datagram exceed a packet. `SV_SendClientDatagram` keeps room for these bytes, in
every state that the calls on a client leave behind.
-/
namespace DatagramSize
open ClientDatagram MessageList NetChan Outcome Protocol SizeBuf StepRuns

/-- The reliable bytes that `Netchan_Transmit` puts before the datagram. -/
def reliableIncluded (chan : Chan) : List UInt8 :=
  if sendReliable chan then (stageReliable chan).reliable else []

/-! ## Reliable messages -/

/-- What every visit keeps of the accumulator, a loop over the list keeps. -/
theorem sweep_returns {α : Type} {I : α → Prop}
    {visit : Messages → α → Nat → Except Stop (α × Visit)}
    (hvisit : ∀ m acc i, I acc → Returns (fun r => I r.1) (visit m acc i)) (l : List Nat)
    {acc : α} (m : Messages) (hacc : I acc) :
    Returns (fun r => I r.1) (sweep visit l acc m) := by
  induction l generalizing acc m with
  | nil => exact hacc
  | cons i rest ih =>
    refine (hvisit m acc i hacc).bind ?_
    rintro ⟨acc', verdict⟩ hacc'
    cases verdict with
    | keep => exact ih m hacc'
    | delete => exact (returns_any _).bind fun m' _ => ih m' hacc'
    | stop => exact hacc'

/-- The pending message of the channel while `SV_WriteReliableMessages` fills it. -/
structure Filling (buffsize maxsize : Nat) (message : Sizebuf) : Prop where
  clean : message.overflowed = false
  buffsize_eq : message.buffsize = buffsize
  maxsize_eq : message.maxsize = maxsize
  fits : message.data.length ≤ maxsize

theorem filling_write {buffsize maxsize : Nat} {message : Sizebuf}
    (h : Filling buffsize maxsize message) {data bytes : List UInt8}
    (hfits : data.length + bytes.length ≤ maxsize) :
    Returns (Filling buffsize maxsize) (writeOrStop { message with data } bytes) := by
  have hwrite : writeOrStop { message with data } bytes =
      .ok { message with data := data ++ bytes } := by
    refine MessageStorage.writeOrStop_fits ?_
    rw [h.maxsize_eq]
    exact hfits
  rw [hwrite]
  exact ⟨h.clean, h.buffsize_eq, h.maxsize_eq, by simpa using hfits⟩

theorem writeReliable_returns {buffsize maxsize : Nat} (m : Messages) (w : Written) (i : Nat)
    (h : Filling buffsize maxsize w.message) :
    Returns (fun r => Filling buffsize maxsize r.1.message) (writeReliable m w i) := by
  simp only [writeReliable]
  split
  · refine (returns_any _).bind fun bytes _ => ?_
    split
    · exact h
    · rename_i hfits
      rw [Sizebuf.cursize, h.maxsize_eq] at hfits
      split
      · split
        · exact returns_error _
        · refine (filling_write h ?_).bind fun message hmessage => hmessage
          rw [List.length_dropLast, List.length_drop]
          omega
      · have hroom : w.message.data.length + bytes.length ≤ maxsize := by omega
        exact (filling_write h hroom).bind fun message hmessage => hmessage
  · exact h

/-- What other code sees of `SV_WriteReliableMessages`: nothing, or the pending message
of a channel whose reliable message has been acknowledged. -/
inductive Refilled (client : Client) (buffSize : Nat) (r : Client) : Prop where
  | same (unchanged : r = client)
  | filled (free : client.control.netchan.reliable = []) (message : Sizebuf)
      (netchan : r.control.netchan = { client.control.netchan with message })
      (filling : Filling client.control.netchan.message.buffsize buffSize message)

/-- The reliable messages are moved into the channel while they fit. -/
theorem svWriteReliableMessages_returns {client : Client} (buffSize : Nat)
    (clean : client.control.netchan.message.overflowed = false)
    (moved : client.messages.allocated = true → client.control.netchan.message.data = []) :
    Returns (Refilled client buffSize) (svWriteReliableMessages client buffSize) := by
  simp only [svWriteReliableMessages]
  split
  · exact Refilled.same rfl
  · rename_i hallocated
    split
    · exact Refilled.same rfl
    · rename_i hfree
      have hreliable : client.control.netchan.reliable = [] := by simpa using hfree
      have hempty : client.control.netchan.message.data = [] := by
        refine moved ?_
        simpa using (not_or.mp hallocated).2
      let start : Written :=
        { message := { client.control.netchan.message with maxsize := buffSize } }
      have hstart : Filling client.control.netchan.message.buffsize buffSize start.message :=
        ⟨clean, rfl, rfl, by simp [start, hempty]⟩
      refine (sweep_returns
        (I := fun w => Filling client.control.netchan.message.buffsize buffSize w.message)
        writeReliable_returns client.messages.list client.messages hstart).bind ?_
      rintro ⟨w, m⟩ hw
      dsimp only
      split
      · simp only [dropMessages]
        split
        · refine (returns_any _).bind fun m' _ => ?_
          exact Refilled.filled hreliable w.message rfl hw
        · exact Refilled.filled hreliable w.message rfl hw
      · split
        · exact returns_error _
        · exact Refilled.filled hreliable w.message rfl hw

/-! ## The frame -/

theorem szWrite_effect {buf out : Sizebuf} {data : List UInt8} (h : szWrite buf data = some out) :
    out.maxsize = buf.maxsize ∧ out.buffsize = buf.buffsize ∧
    data.length ≤ out.data.length ∧ out.data.length ≤ buf.data.length + data.length ∧
    (out.overflowed = true ∨
      out.overflowed = buf.overflowed ∧ out.data.length = buf.data.length + data.length ∧
        out.data.length ≤ out.maxsize) := by
  simp only [szWrite] at h
  split at h
  · split at h
    · cases h
      split
      · simp [szClear]
      · simp
    · cases h
  · rename_i hfits
    cases h
    have hle : buf.data.length + data.length ≤ buf.maxsize := Nat.not_lt.mp hfits
    simp [hle]

theorem writeOrStop_returns (buf : Sizebuf) (data : List UInt8) :
    Returns (fun out => szWrite buf data = some out) (writeOrStop buf data) := by
  simp only [writeOrStop]
  split
  · rename_i hwrite
    exact hwrite
  · exact returns_error _

/-- The datagram fits its limit, or will be emptied. -/
def Placed (msg : Sizebuf) : Prop := msg.overflowed = true ∨ msg.cursize ≤ msg.maxsize

theorem cursize_le_of_blank {msg : Sizebuf} (blank : msg.data = []) :
    msg.cursize ≤ msg.maxsize := by
  have hzero : msg.cursize = 0 := congrArg List.length blank
  omega

/-- What `CompressBuffer` writes into an empty buffer. Where the room for the stream is
negative, its header has no room either. -/
structure Compressed (out out' : Sizebuf) : Prop where
  maxsize_eq : out'.maxsize = out.maxsize
  buffsize_eq : out'.buffsize = out.buffsize
  nonempty : out'.data ≠ []
  length_le : out'.data.length ≤ maxUsablemsg .kingpin
  placed : Placed out'

/-- Only 60 bytes or more are compressed. -/
theorem compressBuffer_returns (zlib : Zlib) (input : List UInt8) {out : Sizebuf}
    (blank : out.data = []) :
    Returns (fun r => ∀ out', r = some out' → 60 ≤ input.length ∧ Compressed out out')
      (compressBuffer zlib input out) := by
  simp only [compressBuffer]
  split
  · exact returns_ok fun _ h => absurd h.symm (Option.some_ne_none _)
  · rename_i hlong
    split
    · exact returns_ok fun _ h => absurd h.symm (Option.some_ne_none _)
    · rename_i stream hstream
      have havail := zlib.deflate_le _ _ _ hstream
      split
      · exact returns_error _
      · rename_i hroom
        refine (writeOrStop_returns _ _).bind fun out₁ h₁ => ?_
        refine (writeOrStop_returns _ _).bind fun out₂ h₂ => ?_
        obtain ⟨hmax₁, hbuff₁, _, hlen₁, hflag₁⟩ := szWrite_effect h₁
        obtain ⟨hmax₂, hbuff₂, hshort, hlen₂, hflag₂⟩ := szWrite_effect h₂
        have hshortLength : (shortBytes stream.length).length = 2 := rfl
        have hcode : [svcCpacket].length = 1 := rfl
        have hempty : out.data.length = 0 := by simp [blank]
        refine returns_ok fun out' hout => ⟨Nat.not_lt.mp hlong, ?_⟩
        cases hout
        simp only [Sizebuf.cursize] at havail hroom
        refine ⟨hmax₂.trans hmax₁, hbuff₂.trans hbuff₁, ?_, ?_, ?_⟩
        · intro hnil
          have hzero := congrArg List.length hnil
          simp only [List.length_append, List.length_nil] at hzero
          omega
        · simp only [List.length_append]
          omega
        · rcases hflag₂ with hover | ⟨hsame₂, hlength₂, hfits₂⟩
          · exact Or.inl hover
          · rcases hflag₁ with hover | ⟨hsame₁, hlength₁, _⟩
            · exact Or.inl (hsame₂.trans hover)
            · refine Or.inr ?_
              simp only [Sizebuf.cursize, List.length_append]
              omega

/-- The bytes of the waiting reliable message that the next packet repeats. -/
def repeated (chan : Chan) : Nat := if retransmits chan then chan.reliable.length else 0

/-- The datagram of a client whose channel was `chan`. Only the waiting message may have
been compressed since, and the limit of the datagram leaves room for it. -/
structure Reserved (chan : Chan) (d : Draft) : Prop where
  netchan : ∃ reliable, d.control.netchan = { chan with reliable }
  waiting : d.control.netchan.reliable = [] ↔ chan.reliable = []
  reliable_le : d.control.netchan.reliable.length ≤ maxUsablemsg .kingpin
  room : repeated d.control.netchan + d.msg.maxsize ≤ maxUsablemsg .kingpin
  maxsize_le : d.msg.maxsize ≤ chan.message.buffsize
  buffsize_eq : d.msg.buffsize = chan.message.buffsize

/-- Nothing but the contents of the datagram has changed. -/
theorem Reserved.move {chan : Chan} {d d' : Draft} (h : Reserved chan d)
    (netchan : d'.control.netchan = d.control.netchan) (maxsize : d'.msg.maxsize = d.msg.maxsize)
    (buffsize : d'.msg.buffsize = d.msg.buffsize) : Reserved chan d' where
  netchan := by
    rw [netchan]
    exact h.netchan
  waiting := by
    rw [netchan]
    exact h.waiting
  reliable_le := by
    rw [netchan]
    exact h.reliable_le
  room := by
    rw [netchan, maxsize]
    exact h.room
  maxsize_le := by
    rw [maxsize]
    exact h.maxsize_le
  buffsize_eq := by
    rw [buffsize]
    exact h.buffsize_eq

theorem repeated_le (chan : Chan) : repeated chan ≤ chan.reliable.length := by
  simp only [repeated]
  split <;> omega

/-- The channel of a client that is sent datagrams. -/
structure Ready (chan : Chan) : Prop where
  server : chan.sock = .server
  buffsize_le : chan.message.buffsize ≤ maxUsablemsg .kingpin
  reliable_le : chan.reliable.length ≤ maxUsablemsg .kingpin
  clean : chan.message.overflowed = false
  moved : chan.message.data = []

/-- The room for the reliable data is set aside. -/
theorem reserve_returns {client : Client} (ready : Ready client.control.netchan) :
    Returns
      (fun r => Reserved client.control.netchan ⟨client.messages, client.control, r.1⟩ ∧
        r.1.data = [] ∧ r.1.overflowed = false ∧
        (r.2.isSome = true → client.control.netchan.reliable = []))
      (reserve client) := by
  have hbuff := ready.buffsize_le
  have hreliable := ready.reliable_le
  have hreserved : ∀ msg : Sizebuf,
      repeated client.control.netchan + msg.maxsize ≤ maxUsablemsg .kingpin →
      msg.maxsize ≤ client.control.netchan.message.buffsize →
      msg.buffsize = client.control.netchan.message.buffsize →
      Reserved client.control.netchan ⟨client.messages, client.control, msg⟩ :=
    fun msg hroom hmax hbuffsize =>
      ⟨⟨_, rfl⟩, Iff.rfl, hreliable, hroom, hmax, hbuffsize⟩
  simp only [reserve]
  split
  · split
    · rename_i hretransmits
      refine returns_ok ⟨hreserved _ ?_ ?_ rfl, rfl, rfl, nofun⟩
      · simp only [repeated, if_pos hretransmits, szInit]
        omega
      · simp only [szInit]
        omega
    · rename_i hretransmits
      refine returns_ok ⟨hreserved _ ?_ (Nat.le_refl _) rfl, rfl, rfl, nofun⟩
      simp only [repeated, if_neg hretransmits, szInit]
      omega
  · rename_i hwaiting
    have hnone : client.control.netchan.reliable = [] := by simpa using hwaiting
    have hzero : repeated client.control.netchan = 0 := by
      have hle := repeated_le client.control.netchan
      rw [hnone] at hle
      exact Nat.le_zero.mp hle
    split
    · refine returns_ok ⟨hreserved _ ?_ (Nat.le_refl _) rfl, rfl, rfl, nofun⟩
      simp only [hzero, szInit]
      omega
    · refine (returns_any _).bind fun bytes _ => ?_
      refine returns_ok ⟨hreserved _ ?_ ?_ rfl, rfl, rfl, fun _ => hnone⟩
      · simp only [hzero, szInit]
        omega
      · simp only [szInit]
        omega

/-- The reliable message is compressed into the room that was reserved for it. -/
theorem compressReliable_returns {chan : Chan} {zlib : Zlib} {rmessage : Option Nat} {d : Draft}
    (ready : Ready chan) (h : Reserved chan d) (blank : d.msg.data = [])
    (waits : rmessage.isSome = true → chan.reliable = []) :
    Returns (fun r => ∀ d', r = some d' →
        Reserved chan d' ∧ d'.msg.data = [] ∧ d'.msg.overflowed = false)
      (compressReliable zlib rmessage d) := by
  have hbuff := ready.buffsize_le
  have hbuffsize := h.buffsize_eq
  have hwhole : ({ d.msg with maxsize := d.msg.buffsize } : Sizebuf).data = [] := blank
  simp only [compressReliable]
  split
  · rename_i i
    split
    · exact returns_ok fun _ hsome => nomatch hsome
    · refine (returns_any _).bind fun bytes _ => ?_
      refine (compressBuffer_returns _ _ hwhole).bind fun r hr => ?_
      split
      · exact returns_ok fun _ hsome => nomatch hsome
      · rename_i out
        obtain ⟨_, hout⟩ := hr out rfl
        refine (returns_any _).bind fun messages _ => ?_
        refine returns_ok fun d' hsome => ?_
        cases hsome
        have hzero : repeated d.control.netchan = 0 := by
          have hle := repeated_le d.control.netchan
          rw [h.waiting.mpr (waits rfl)] at hle
          exact Nat.le_zero.mp hle
        have hmax : out.maxsize = chan.message.buffsize := hout.maxsize_eq.trans hbuffsize
        refine ⟨⟨h.netchan, h.waiting, h.reliable_le, ?_, ?_, ?_⟩, rfl, rfl⟩
        · simp only [hzero, szClear]
          omega
        · simp only [szClear]
          omega
        · exact hout.buffsize_eq.trans hbuffsize
  · split
    · refine (compressBuffer_returns _ _ hwhole).bind fun r hr => ?_
      split
      · exact returns_ok fun _ hsome => nomatch hsome
      · rename_i out
        obtain ⟨hlong, hout⟩ := hr out rfl
        refine returns_ok fun d' hsome => ?_
        cases hsome
        have hmax : out.maxsize = chan.message.buffsize := hout.maxsize_eq.trans hbuffsize
        have hle := hout.length_le
        obtain ⟨reliable, hnetchan⟩ := h.netchan
        refine ⟨⟨⟨out.data, ?_⟩, ?_, hle, ?_, ?_, ?_⟩, rfl, rfl⟩
        · simp only [setChannelReliable, hnetchan]
        · have hnonempty : chan.reliable ≠ [] := by
            intro hnil
            rw [h.waiting.mpr hnil] at hlong
            exact absurd hlong (by decide)
          simp only [setChannelReliable, hout.nonempty, hnonempty]
        · have hrepeated := repeated_le (setChannelReliable d.control out.data).netchan
          simp only [setChannelReliable, szClear, Sizebuf.cursize] at hrepeated ⊢
          omega
        · simp only [szClear]
          omega
        · exact hout.buffsize_eq.trans hbuffsize
    · exact returns_ok fun _ hsome => nomatch hsome

/-- An attempt has put the frame into the datagram, or has left it empty. -/
structure Tried (chan : Chan) (r : Draft × Bool) : Prop where
  reserved : Reserved chan r.1
  placed : r.2 = true → Placed r.1.msg
  blank : r.2 = false → r.1.msg.data = [] ∧ r.1.msg.overflowed = false

theorem putPlain_returns {chan : Chan} {frame : List UInt8} {d : Draft} (h : Reserved chan d)
    (blank : d.msg.data = [] ∧ d.msg.overflowed = false) :
    Returns (Tried chan) (putPlain frame d) := by
  simp only [putPlain]
  split
  · rename_i hfits
    have hwrite : writeOrStop d.msg frame = .ok { d.msg with data := d.msg.data ++ frame } := by
      refine MessageStorage.writeOrStop_fits ?_
      simpa [Sizebuf.cursize, blank.1] using hfits
    rw [hwrite]
    refine ⟨h.move rfl rfl rfl, fun _ => Or.inr ?_, by simp⟩
    simpa [Sizebuf.cursize, blank.1] using hfits
  · exact ⟨h, by simp, fun _ => blank⟩

/-- Trying to put the frame compressed keeps the room that is reserved. -/
theorem putCompressed_returns {chan : Chan} {zlib : Zlib} {frame : List UInt8} {d : Draft}
    (h : Reserved chan d) (blank : d.msg.data = [] ∧ d.msg.overflowed = false) :
    Returns (Tried chan) (putCompressed zlib frame d) := by
  simp only [putCompressed]
  refine (returns_any _).bind ?_
  rintro ⟨whole, stopAt⟩ _
  refine (compressBuffer_returns _ _ blank.1).bind fun r hr => ?_
  split
  · rename_i msg
    obtain ⟨_, hmsg⟩ := hr msg rfl
    have hdelete : ∀ m control i, control.netchan = d.control.netchan →
        Returns (fun r => r.1.netchan = d.control.netchan) (deleteUntil stopAt m control i) := by
      intro m control i hcontrol
      simp only [deleteUntil]
      split
      · exact hcontrol
      · split
        · exact hcontrol
        · exact (MessageStorage.noteLayout_netchan m i control).trans hcontrol
    refine (sweep_returns (I := fun control => control.netchan = d.control.netchan)
      hdelete _ _ rfl).bind ?_
    rintro ⟨control, messages⟩ hcontrol
    exact ⟨h.move hcontrol hmsg.maxsize_eq hmsg.buffsize_eq, fun _ => hmsg.placed, nofun⟩
  · refine (compressBuffer_returns _ _ blank.1).bind fun r hr => ?_
    split
    · rename_i msg
      obtain ⟨_, hmsg⟩ := hr msg rfl
      exact ⟨h.move rfl hmsg.maxsize_eq hmsg.buffsize_eq, fun _ => hmsg.placed, nofun⟩
    · exact putPlain_returns h blank

theorem putAttempt_returns {chan : Chan} {env : Env} {rmessage : Option Nat} {d : Draft}
    (ready : Ready chan) (h : Reserved chan d)
    (blank : d.msg.data = [] ∧ d.msg.overflowed = false)
    (waits : rmessage.isSome = true → chan.reliable = []) (frame : Option (List UInt8)) :
    Returns (Tried chan) (putAttempt env rmessage d frame) := by
  cases frame with
  | none => exact ⟨h, nofun, fun _ => blank⟩
  | some frame =>
    simp only [putAttempt, putFrame]
    split
    · refine (returns_any _).bind fun size _ => ?_
      split
      · refine (compressReliable_returns ready h blank.1 waits).bind fun r hr => ?_
        split
        · exact putCompressed_returns h blank
        · rename_i d'
          obtain ⟨hd', hblank'⟩ := hr d' rfl
          split
          · exact putCompressed_returns hd' hblank'
          · exact putPlain_returns hd' hblank'
      · exact putPlain_returns h blank
    · exact putPlain_returns h blank

/-- The induction is on the attempts: each starts from an empty datagram. -/
theorem retryframe_returns {σ : Type} {chan : Chan} {env : Env}
    {write : σ → Nat → Option (Frame σ)} {rmessage : Option Nat} (ready : Ready chan)
    (waits : rmessage.isSome = true → chan.reliable = []) (fuel : Nat) (memory : σ)
    (newEntities : Nat) (reduced : Bool) {d : Draft} (h : Reserved chan d)
    (blank : d.msg.data = [] ∧ d.msg.overflowed = false) :
    Returns (fun r => Reserved chan r.2 ∧ Placed r.2.msg)
      (retryframe env write rmessage fuel memory newEntities reduced d) := by
  induction fuel generalizing memory newEntities reduced d with
  | zero => exact returns_error _
  | succ fuel ih =>
    simp only [retryframe]
    refine (returns_any _).bind fun frame _ => ?_
    refine (putAttempt_returns ready h blank waits frame.bytes).bind ?_
    rintro ⟨d', done⟩ htried
    cases done with
    | true => exact ⟨htried.reserved, htried.placed rfl⟩
    | false =>
      have hblank := htried.blank rfl
      simp only [Bool.false_eq_true, if_false]
      split
      · exact ih _ _ _ htried.reserved hblank
      · exact ⟨htried.reserved, Or.inr (cursize_le_of_blank hblank.1)⟩

/-- No messages are added. -/
def dead (state : ClientState) : Bool := decide (state = .free ∨ state = .zombie)

theorem queueMessage_netchan (client : Client) (data : List UInt8) (reliable : Bool) :
    Returns (fun r => r.control.netchan = client.control.netchan)
      (queueMessage client data reliable) := by
  have hoverflow : ∀ c : Client, c.control.netchan = client.control.netchan →
      Returns (fun r => r.control.netchan = client.control.netchan) (overflow c) := by
    intro c hc
    exact (returns_any _).bind fun m _ => hc
  simp only [queueMessage]
  split
  · exact hoverflow _ rfl
  · split
    · exact hoverflow _ rfl
    · refine (returns_any _).bind fun m _ => ?_
      exact (returns_any _).bind fun m' _ => rfl

theorem svAddMessageSingle_returns {client : Client} (forceReconnect : Bool) (msg : Msgbuff)
    (reliable : Bool) :
    Returns (fun r => r = client ∨
        dead client.control.state = false ∧ r.control.netchan = client.control.netchan)
      (svAddMessageSingle forceReconnect client msg reliable) := by
  simp only [svAddMessageSingle]
  split
  · exact Or.inl rfl
  · rename_i haccepted
    have halive : dead client.control.state = false := by
      simp only [refusesMessage, Bool.or_eq_true, not_or] at haccepted
      simpa [dead] using haccepted.1.1.1
    split
    · exact Or.inl rfl
    · rename_i control msg' hlayout
      have hnetchan := (MessageStorage.checkLayout_control hlayout).2
      exact (queueMessage_netchan _ _ _).mono fun r hr => Or.inr ⟨halive, hr.trans hnetchan⟩

theorem svBuildClientFrame_returns (env : Env) (client : Client) :
    Returns (fun r => r.control.netchan = client.control.netchan) (svBuildClientFrame env client) := by
  simp only [svBuildClientFrame]
  split
  · exact returns_ok rfl
  · exact (svAddMessageSingle_returns _ _ _).mono fun r added =>
      added.elim (fun same => by rw [same]) fun queued => queued.2

theorem frameDatagram_returns {σ : Type} {env : Env} {write : σ → Nat → Option (Frame σ)}
    {client : Client} (ready : Ready client.control.netchan) (fuel : Nat) (memory : σ) :
    Returns
      (fun r => Reserved client.control.netchan r.2 ∧ r.2.msg.cursize ≤ r.2.msg.maxsize)
      (frameDatagram env write fuel memory client) := by
  simp only [frameDatagram]
  refine (reserve_returns ready).bind ?_
  rintro ⟨msg, rmessage⟩ ⟨hreserved, hdata, hclean, hwaits⟩
  dsimp only
  split
  · exact ⟨hreserved, cursize_le_of_blank hdata⟩
  · refine (svBuildClientFrame_returns env client).bind fun built hbuilt => ?_
    have hstart : Reserved client.control.netchan ⟨built.messages, built.control, msg⟩ :=
      hreserved.move hbuilt rfl rfl
    refine (retryframe_returns ready hwaits fuel memory _ _ hstart ⟨hdata, hclean⟩).bind ?_
    rintro ⟨memory', d⟩ ⟨hd, hplaced⟩
    dsimp only
    split
    · exact ⟨hd.move rfl rfl rfl, Nat.zero_le _⟩
    · rename_i hclear
      exact ⟨hd, hplaced.resolve_left hclear⟩

/-! ## The rest of the datagram -/

/-- A pass over the unreliable messages, begun with this limit and this channel. -/
structure Passing (chan : Chan) (maxsize buffsize : Nat) (acc : Sizebuf × Control) : Prop where
  netchan : acc.2.netchan = chan
  maxsize_eq : acc.1.maxsize = maxsize
  buffsize_eq : acc.1.buffsize = buffsize
  fits : acc.1.cursize ≤ acc.1.maxsize

/-- A pass over the messages writes no more than there is room for. -/
theorem fillPass_returns {chan : Chan} {chosen : Messages → Nat → Bool}
    {note : Messages → Nat → Control → Control} {d : Draft}
    (hnote : ∀ m i control, (note m i control).netchan = control.netchan)
    (h : Reserved chan d) (fits : d.msg.cursize ≤ d.msg.maxsize) :
    Returns (fun d' => Reserved chan d' ∧ d'.msg.cursize ≤ d'.msg.maxsize)
      (fillPass chosen note d) := by
  have hvisit : ∀ m acc i, Passing d.control.netchan d.msg.maxsize d.msg.buffsize acc →
      Returns (fun r => Passing d.control.netchan d.msg.maxsize d.msg.buffsize r.1)
        (fill chosen note m acc i) := by
    rintro m ⟨msg, control⟩ i hacc
    simp only [fill]
    split
    · exact hacc
    · refine (returns_any _).bind fun bytes _ => ?_
      split
      · exact hacc
      · rename_i hroom
        have hle : msg.cursize + bytes.length ≤ msg.maxsize := Nat.not_lt.mp hroom
        rw [MessageStorage.writeOrStop_fits hle]
        refine ⟨(hnote m i control).trans hacc.netchan, hacc.maxsize_eq, hacc.buffsize_eq, ?_⟩
        simpa [Sizebuf.cursize] using hle
  simp only [fillPass]
  refine (sweep_returns hvisit _ _ ⟨rfl, rfl, rfl, fits⟩).bind ?_
  rintro ⟨⟨msg, control⟩, messages⟩ hacc
  exact ⟨h.move hacc.netchan hacc.maxsize_eq hacc.buffsize_eq, hacc.fits⟩

theorem fillUnreliable_returns {chan : Chan} {env : Env} {d : Draft} (h : Reserved chan d)
    (fits : d.msg.cursize ≤ d.msg.maxsize) :
    Returns (fun d' => Reserved chan d' ∧ d'.msg.cursize ≤ d'.msg.maxsize)
      (fillUnreliable env d) := by
  simp only [fillUnreliable]
  split
  · refine (fillPass_returns (fun _ _ _ => rfl) h fits).bind ?_
    rintro d' ⟨hd', hfits'⟩
    split
    · exact fillPass_returns MessageStorage.noteLayout_netchan hd' hfits'
    · exact ⟨hd', hfits'⟩
  · exact ⟨h, fits⟩

theorem sweep_nukeUnreliable_returns (kept : UInt8 → Bool) (m : Messages) (control : Control) :
    Returns (fun r => r.1.netchan = control.netchan)
      (sweep (nukeUnreliable kept) m.list control m) := by
  refine sweep_returns (I := fun c : Control => c.netchan = control.netchan) ?_ _ _ rfl
  intro m' c i hc
  simp only [nukeUnreliable]
  split
  · exact hc
  · split
    · exact hc
    · exact hc

/-- What `SV_SendClientDatagram` leaves behind: the channel as it was, but for a waiting
message that has been compressed and a pending message that fits beside the datagram. -/
structure Composed (chan chan' : Chan) (datagram : List UInt8) : Prop where
  netchan : ∃ reliable message, chan' = { chan with reliable, message }
  reliable_le : chan'.reliable.length ≤ maxUsablemsg .kingpin
  clean : chan'.message.overflowed = false
  buffsize_eq : chan'.message.buffsize = chan.message.buffsize
  waiting : chan'.reliable ≠ [] → chan'.message.data = []
  room : repeated chan' + datagram.length ≤ maxUsablemsg .kingpin
  pending : chan'.message.data.length + datagram.length ≤ chan.message.buffsize

/-- A datagram that is sent fits behind the reliable data. -/
theorem svSendClientDatagram_returns {σ : Type} (env : Env) (write : σ → Nat → Option (Frame σ))
    {client : Client} (ready : Ready client.control.netchan) (fuel : Nat) (memory : σ) :
    Returns
      (fun r => match r.2.2 with
        | none => r.2.1.control.netchan = client.control.netchan
        | some datagram => Composed client.control.netchan r.2.1.control.netchan datagram)
      (svSendClientDatagram env write fuel memory client) := by
  simp only [svSendClientDatagram]
  split
  · refine (sweep_nukeUnreliable_returns _ client.messages client.control).bind ?_
    rintro ⟨control, messages⟩ hcontrol
    exact hcontrol
  · refine (frameDatagram_returns ready fuel memory).bind ?_
    rintro ⟨memory', d⟩ ⟨hd, hfits⟩
    refine (fillUnreliable_returns hd hfits).bind ?_
    rintro d' ⟨hd', hfits'⟩
    dsimp only
    split
    · exact returns_error _
    · refine (sweep_nukeUnreliable_returns _ d'.messages d'.control).bind ?_
      rintro ⟨control, messages⟩ hcontrol
      obtain ⟨reliable, hnetchan⟩ := hd'.netchan
      have hmessage : control.netchan.message = client.control.netchan.message := by
        rw [hcontrol, hnetchan]
      refine (svWriteReliableMessages_returns _ ?_ ?_).bind ?_
      · rw [hmessage]
        exact ready.clean
      · rw [hmessage]
        exact fun _ => ready.moved
      · intro client' hclient'
        have hle := hd'.maxsize_le
        have hroom := hd'.room
        have hreliable := hd'.reliable_le
        rw [← hcontrol] at hroom hreliable
        cases hclient' with
        | same unchanged =>
          subst unchanged
          refine ⟨⟨reliable, _, hcontrol.trans hnetchan⟩, hreliable, ?_, ?_, ?_, ?_, ?_⟩
          · exact hmessage ▸ ready.clean
          · exact congrArg Sizebuf.buffsize hmessage
          · exact fun _ => hmessage ▸ ready.moved
          · exact (Nat.add_le_add_left hfits' _).trans hroom
          · dsimp only
            rw [hmessage, ready.moved]
            exact (Nat.zero_add _).trans_le (hfits'.trans hle)
        | filled free message netchan filling =>
          have hwith : client'.control.netchan =
              { client.control.netchan with reliable, message } := by
            rw [netchan, hcontrol, hnetchan]
          have hnone : client'.control.netchan.reliable = [] := by
            rw [netchan]
            exact free
          have hzero := repeated_le client'.control.netchan
          have hpending := filling.fits
          rw [hmessage] at hpending
          refine ⟨⟨reliable, message, hwith⟩, ?_, ?_, ?_, fun hwaits => absurd hnone hwaits, ?_, ?_⟩
          · rw [hnone]
            exact Nat.zero_le _
          · rw [netchan]
            exact filling.clean
          · rw [netchan]
            exact filling.buffsize_eq.trans (congrArg Sizebuf.buffsize hmessage)
          · rw [hnone] at hzero
            have hlength : d'.msg.data.length ≤ d'.msg.maxsize := hfits'
            have hbuff := ready.buffsize_le
            simp only [List.length_nil] at hzero
            dsimp only
            omega
          · have hlength : d'.msg.data.length ≤ d'.msg.maxsize := hfits'
            simp only [netchan, Sizebuf.cursize] at hpending ⊢
            omega

/-! ## The packet -/

theorem sendReliable_eq (chan : Chan) :
    sendReliable chan =
      (retransmits chan || (chan.reliable.isEmpty && !chan.message.data.isEmpty)) := rfl

/-- Only a free channel takes the pending message into the packet. -/
theorem reliableIncluded_length (chan : Chan) :
    (reliableIncluded chan).length = repeated chan ∨
      chan.reliable = [] ∧ (reliableIncluded chan).length = chan.message.data.length := by
  rcases stageReliable_cases chan with ⟨hfree, hdata, hstage⟩ | ⟨hstay, hstage⟩
  · right
    have hsend : sendReliable chan = true := by
      rw [sendReliable_eq, hfree, hdata]
      exact Bool.or_true _
    rw [reliableIncluded, if_pos hsend, hstage]
    exact ⟨List.isEmpty_iff.mp hfree, rfl⟩
  · left
    rw [reliableIncluded, sendReliable_eq, hstay, Bool.or_false, hstage, repeated]
    split <;> rfl

theorem composed_fits {chan chan' : Chan} {datagram : List UInt8} (ready : Ready chan)
    (h : Composed chan chan' datagram) :
    8 + (reliableIncluded chan').length + datagram.length ≤ 1400 := by
  have hmax : maxUsablemsg .kingpin = 1390 := rfl
  have hbuff := ready.buffsize_le
  have hroom := h.room
  have hpending := h.pending
  rcases reliableIncluded_length chan' with hincluded | ⟨_, hincluded⟩
  · omega
  · omega

theorem reliableIncluded_packetdup (chan : Chan) (packetdup : Nat) :
    reliableIncluded { chan with packetdup } = reliableIncluded chan := by
  have hstage : (stageReliable { chan with packetdup }).reliable =
      (stageReliable chan).reliable := by
    simp only [stageReliable]
    split <;> rfl
  rw [reliableIncluded, reliableIncluded, hstage]
  rfl

theorem writeIf_of_fits {needed : Bool} {buf : Sizebuf} {data : List UInt8}
    (h : buf.cursize + (if needed then data else []).length ≤ buf.maxsize) :
    writeIf needed buf data =
      some { buf with data := buf.data ++ if needed then data else [] } := by
  cases needed with
  | false => simp [writeIf]
  | true => exact szWrite_of_fits h

/-- Whether a packet with room for its reliable part is composed depends on the rest. -/
theorem netchanTransmit_dropped_iff (curtime netSends : Nat) {chan : Chan} {data : List UInt8}
    (server : chan.sock = .server) (clean : chan.message.overflowed = false)
    (fits : 8 + (reliableIncluded chan).length ≤ 1400) :
    ∃ out, netchanTransmit .kingpin curtime netSends chan data = some out ∧
      (out.result = .dropped ↔ 1400 < 8 + (reliableIncluded chan).length + data.length) := by
  have hsize : sendSize .kingpin (stageReliable chan) = 1400 := rfl
  have hport : qportBytes (numberPacket curtime (stageReliable chan)) = [] := by
    have hsock : (numberPacket curtime (stageReliable chan)).sock = .server := by
      rcases stageReliable_cases chan with ⟨_, _, hstage⟩ | ⟨_, hstage⟩
      · simp only [numberPacket, hstage, server]
      · simp only [numberPacket, hstage, server]
    simp only [qportBytes, hsock]
  have hincluded : (if (sendReliable chan &&
        !(numberPacket curtime (stageReliable chan)).reliable.isEmpty) = true
      then (numberPacket curtime (stageReliable chan)).reliable else []) =
      reliableIncluded chan := keep_needed _ _
  have hlong : ∀ n, (longBytes n).length = 4 := fun _ => rfl
  simp only [netchanTransmit, clean, Bool.false_eq_true, if_false, hport, hsize, szInit]
  rw [szWrite_of_fits (by simp [Sizebuf.cursize, hlong])]
  simp only [Option.bind_eq_bind, Option.bind_some]
  rw [szWrite_of_fits (by simp [Sizebuf.cursize, hlong])]
  simp only [Option.bind_some]
  rw [writeIf_of_fits (by simp [Sizebuf.cursize, hlong])]
  simp only [Option.bind_some]
  rw [writeIf_of_fits (by
    rw [hincluded]
    simp only [Sizebuf.cursize, List.length_append, hlong, List.isEmpty_nil, Bool.not_true,
      Bool.false_eq_true, if_false, List.length_nil]
    omega)]
  have hlength : (longBytes (headerWord (stageReliable chan).outgoingSequence
        (sendReliable chan)) ++ longBytes (headerWord (stageReliable chan).incomingSequence
          (stageReliable chan).incomingReliableSequence) ++ reliableIncluded chan).length =
      8 + (reliableIncluded chan).length := by
    simp only [List.length_append, hlong]
  simp only [Option.bind_some, hincluded, Sizebuf.cursize, List.nil_append, List.isEmpty_nil,
    Bool.not_true, Bool.false_eq_true, if_false, List.append_nil, hlength]
  by_cases hroom : 8 + (reliableIncluded chan).length + data.length ≤ 1400
  · rw [if_pos hroom, writeIf_of_fits (by
      simp only [keep_nonempty, Sizebuf.cursize, hlength]
      omega)]
    refine ⟨_, rfl, ?_⟩
    simp only [Nat.not_lt_of_le hroom, iff_false]
    split <;> simp
  · rw [if_neg hroom]
    exact ⟨_, rfl, fun _ => Nat.lt_of_not_le hroom, fun _ => rfl⟩

/-- A packet that is not too long is composed. -/
theorem netchanTransmit_fits (curtime netSends : Nat) {chan : Chan} {data : List UInt8}
    (server : chan.sock = .server)
    (fits : 8 + (reliableIncluded chan).length + data.length ≤ 1400) :
    ∃ out, netchanTransmit .kingpin curtime netSends chan data = some out ∧
      out.result ≠ .dropped := by
  cases hover : chan.message.overflowed with
  | true =>
    exact ⟨⟨chan, .overflow, []⟩, by simp only [netchanTransmit, hover, if_true],
      by simp⟩
  | false =>
    obtain ⟨out, hout, hdropped⟩ := @netchanTransmit_dropped_iff curtime netSends chan data server
      hover (by omega)
    exact ⟨out, hout, fun h => Nat.not_lt_of_le fits (hdropped.mp h)⟩

/-! ## Runs -/

theorem netchanTransmit_sequel {build : Build} {curtime netSends : Nat} {chan : Chan}
    {data : List UInt8} {out : Transmitted}
    (h : netchanTransmit build curtime netSends chan data = some out) :
    out.chan = chan ∧ chan.message.overflowed = true ∨
    ∃ copies size, out.chan = countSent copies size (afterSend curtime chan) := by
  rcases netchanTransmit_cases h with ⟨hover, hout⟩ | ⟨_, _, copies, size, hchan, _⟩
  · exact Or.inl ⟨by rw [hout], hover⟩
  · exact Or.inr ⟨copies, size, hchan⟩

/-- Between two calls the pending message of a client is empty, unless the client was
dropped while it was asked to connect again. -/
structure Idle (client : Client) : Prop where
  server : client.control.netchan.sock = .server
  buffsize_le : client.control.netchan.message.buffsize ≤ maxUsablemsg .kingpin
  reliable_le : client.control.netchan.reliable.length ≤ maxUsablemsg .kingpin
  clean : client.control.netchan.message.overflowed = false
  pending_le : client.control.netchan.message.data.length ≤ maxUsablemsg .kingpin
  moved : client.control.netchan.message.data = [] ∨
    client.messages.allocated = false ∧
      (client.control.state = .free ∨ client.control.state = .zombie)

theorem Idle.ready {client : Client} (h : Idle client)
    (spawned : client.control.state = .spawned) : Ready client.control.netchan where
  server := h.server
  buffsize_le := h.buffsize_le
  reliable_le := h.reliable_le
  clean := h.clean
  moved := by
    rcases h.moved with hmoved | ⟨_, hdead⟩
    · exact hmoved
    · rw [spawned] at hdead
      simp at hdead

/-- `Netchan_Transmit` for a client, and whether the socket refused the packet. -/
def transmit (curtime netSends : Nat) (client : Client) (data : List UInt8) :
    Except Stop Client :=
  match netchanTransmit .kingpin curtime netSends client.control.netchan data with
  | none => .error .comError
  | some out =>
    if out.result = .dropped then .error .comError
    else .ok { client with control := { client.control with netchan := out.chan } }

def setPacketdup (client : Client) (packetdup : Nat) : Client :=
  { client with
    control := { client.control with netchan := { client.control.netchan with packetdup } } }

/-- `changeMap` is what `SV_Map` does to a client. `flush` is a packet without a frame: for clients that have not spawned, for one that
is told why it is dropped, and in front of a cinematic or a demo. `reconnect` is a client
that is told to connect again and dropped at once. `update` is everything else that
other code does to a client. -/
inductive Op where
  | connect (control : Control) (curtime protocol qport msglen : Nat)
  | drop (cleaned : Bool)
  | reconnect
  | changeMap
  | update (control : Control)
  | add (forceReconnect : Bool) (msg : Msgbuff) (reliable : Bool)
  | receive (curtime : Nat) (msg : List UInt8)
  | flush (curtime netSends : Nat) (always : Bool) (data : List UInt8)
  | datagram (env : Env) (frames : Nat → Nat → Option (Frame Nat)) (fuel packetdup netSends : Nat)

def perform (client : Client) : Op → Except Stop Client
  | .connect control curtime protocol qport msglen =>
    match netchanSetup .kingpin curtime .server protocol qport msglen with
    | none => .error .comError
    | some netchan => MessageList.connect client { control with netchan }
  | .drop cleaned => dropMessages client (if cleaned then .free else .zombie)
  | .reconnect => do
    let client ←
      if client.control.netchan.reliable.isEmpty then
        svWriteReliableMessages client client.control.netchan.message.buffsize
      else .ok client
    dropMessages client .zombie
  | .changeMap =>
    if client.control.state = .spawned then do
      let messages ← svClearMessageList client.messages
      .ok { messages, control := { client.control with state := .connected } }
    else .ok client
  | .update control =>
    .ok { client with
      control := { control with
        state := if dead client.control.state then client.control.state else control.state
        netchan := client.control.netchan } }
  | .add forceReconnect msg reliable => svAddMessageSingle forceReconnect client msg reliable
  | .receive curtime msg =>
    let netchan := (netchanProcess .kingpin curtime client.control.netchan msg).chan
    .ok { client with control := { client.control with netchan } }
  | .flush curtime netSends always data => do
    let client ← svWriteReliableMessages client client.control.netchan.message.buffsize
    if always || !client.control.netchan.message.data.isEmpty then
      transmit curtime netSends client data
    else .ok client
  | .datagram env frames fuel packetdup netSends =>
    if client.control.state = .spawned then do
      let (_, client, datagram) ← svSendClientDatagram env frames fuel 0 client
      match datagram with
      | none => .ok client
      | some datagram => do
        let sent ← transmit env.curtime netSends (setPacketdup client packetdup) datagram
        .ok (setPacketdup sent client.control.netchan.packetdup)
    else .ok client

/-- Nothing more happens after a stop. -/
def step (s : Except Stop Client) (op : Op) : Except Stop Client := s >>= fun client =>
  perform client op

/-- `Netchan_Transmit` composes the packet of a datagram: the reliable bytes that it
adds leave room for what `SV_SendClientDatagram` gives it. -/
def Fits (s : Except Stop Client) (op : Op) : Prop :=
  match s, op with
  | .ok client, .datagram env frames fuel packetdup netSends =>
    client.control.state = .spawned → ∀ memory client' datagram,
      svSendClientDatagram env frames fuel 0 client = .ok (memory, client', some datagram) →
      8 + (reliableIncluded client'.control.netchan).length + datagram.length ≤ 1400 ∧
      ∃ out, netchanTransmit .kingpin env.curtime netSends
          (setPacketdup client' packetdup).control.netchan datagram = some out ∧
        out.result ≠ .dropped
  | _, _ => True

/-- What a packet leaves in the channel, apart from the numbers. -/
structure Moved (chan chan' : Chan) : Prop where
  server : chan'.sock = chan.sock
  buffsize_eq : chan'.message.buffsize = chan.message.buffsize
  clean : chan'.message.overflowed = chan.message.overflowed
  reliable : chan'.reliable = chan.reliable ∨ chan'.reliable = chan.message.data
  free : chan.reliable = [] → chan'.message.data = []
  waiting : chan.reliable ≠ [] → chan'.message.data = chan.message.data

theorem moved_stageReliable (chan : Chan) : Moved chan (stageReliable chan) := by
  rcases stageReliable_cases chan with ⟨hfree, hdata, hstage⟩ | ⟨hstay, hstage⟩
  · rw [hstage]
    exact ⟨rfl, rfl, rfl, Or.inr rfl, fun _ => rfl,
      fun hwaits => absurd (List.isEmpty_iff.mp hfree) hwaits⟩
  · rw [hstage]
    refine ⟨rfl, rfl, rfl, Or.inl rfl, fun hfree => ?_, fun _ => rfl⟩
    simpa [hfree] using hstay

theorem moved_afterSend (curtime copies size : Nat) (chan : Chan) :
    Moved chan (countSent copies size (afterSend curtime chan)) := by
  have h := moved_stageReliable chan
  simp only [afterSend, noteReliable]
  split
  · exact ⟨h.server, h.buffsize_eq, h.clean, h.reliable, h.free, h.waiting⟩
  · exact ⟨h.server, h.buffsize_eq, h.clean, h.reliable, h.free, h.waiting⟩

theorem transmit_returns {client : Client} (curtime netSends : Nat) (data : List UInt8)
    (clean : client.control.netchan.message.overflowed = false) :
    Returns (fun r => Moved client.control.netchan r.control.netchan ∧
        r.control.state = client.control.state ∧ r.messages = client.messages)
      (transmit curtime netSends client data) := by
  simp only [transmit]
  split
  · exact returns_error _
  · rename_i out hout
    split
    · exact returns_error _
    · rcases netchanTransmit_cases hout with ⟨hover, _⟩ | ⟨_, _, copies, size, hchan, _⟩
      · rw [clean] at hover
        cases hover
      · refine returns_ok ⟨?_, rfl, rfl⟩
        rw [hchan]
        exact moved_afterSend curtime copies size client.control.netchan

/-- After a packet the pending message is empty, or waits as it did before. -/
theorem idle_of_moved {chan : Chan} {r : Client} (server : chan.sock = .server)
    (buffsize_le : chan.message.buffsize ≤ maxUsablemsg .kingpin)
    (reliable_le : chan.reliable.length ≤ maxUsablemsg .kingpin)
    (clean : chan.message.overflowed = false)
    (pending_le : chan.message.data.length ≤ maxUsablemsg .kingpin)
    (waiting : chan.reliable ≠ [] →
      chan.message.data = [] ∨ r.messages.allocated = false ∧
        (r.control.state = .free ∨ r.control.state = .zombie))
    (moved : Moved chan r.control.netchan) : Idle r where
  server := moved.server.trans server
  buffsize_le := by
    rw [moved.buffsize_eq]
    exact buffsize_le
  reliable_le := by
    rcases moved.reliable with hsame | hpending
    · rw [hsame]
      exact reliable_le
    · rw [hpending]
      exact pending_le
  clean := moved.clean.trans clean
  pending_le := by
    by_cases hfree : chan.reliable = []
    · rw [moved.free hfree]
      exact Nat.zero_le _
    · rw [moved.waiting hfree]
      exact pending_le
  moved := by
    by_cases hfree : chan.reliable = []
    · exact Or.inl (moved.free hfree)
    · rw [moved.waiting hfree]
      exact waiting hfree

theorem Idle.of_netchan {client r : Client} (h : Idle client)
    (same : r.control.netchan = client.control.netchan)
    (moved : client.control.netchan.message.data = []) : Idle r := by
  refine ⟨?_, ?_, ?_, ?_, ?_, Or.inl ?_⟩
  · exact same ▸ h.server
  · exact same ▸ h.buffsize_le
  · exact same ▸ h.reliable_le
  · exact same ▸ h.clean
  · exact same ▸ h.pending_le
  · exact same ▸ moved

theorem Idle.writeReliable {client : Client} (h : Idle client) (buffSize : Nat) :
    Returns (Refilled client buffSize) (svWriteReliableMessages client buffSize) := by
  refine svWriteReliableMessages_returns buffSize h.clean fun hallocated => ?_
  rcases h.moved with hmoved | ⟨hgone, _⟩
  · exact hmoved
  · rw [hallocated] at hgone
    cases hgone

/-- A dropped client keeps what was pending. -/
theorem idle_dropMessages {client : Client} (server : client.control.netchan.sock = .server)
    (buffsize_le : client.control.netchan.message.buffsize ≤ maxUsablemsg .kingpin)
    (reliable_le : client.control.netchan.reliable.length ≤ maxUsablemsg .kingpin)
    (clean : client.control.netchan.message.overflowed = false)
    (pending_le : client.control.netchan.message.data.length ≤ maxUsablemsg .kingpin)
    {state : ClientState} (hdead : state = .free ∨ state = .zombie) :
    Returns Idle (dropMessages client state) := by
  simp only [dropMessages]
  split
  · refine (returns_any _).bind fun m _ => ?_
    exact ⟨server, buffsize_le, reliable_le, clean, pending_le, Or.inr ⟨rfl, hdead⟩⟩
  · exact ⟨server, buffsize_le, reliable_le, clean, pending_le, Or.inr ⟨rfl, hdead⟩⟩

theorem idle_connect (client : Client) {control : Control}
    (server : control.netchan.sock = .server)
    (buffsize_le : control.netchan.message.buffsize ≤ maxUsablemsg .kingpin)
    (reliable : control.netchan.reliable = []) (clean : control.netchan.message.overflowed = false)
    (pending : control.netchan.message.data = []) :
    Returns Idle (MessageList.connect client control) := by
  simp only [MessageList.connect]
  refine (returns_any _).bind fun c _ => ?_
  refine ⟨server, buffsize_le, ?_, clean, ?_, Or.inl pending⟩
  · simp only [reliable]
    exact Nat.zero_le _
  · simp only [pending]
    exact Nat.zero_le _

theorem idle_reconnect {client : Client} (h : Idle client) :
    Returns Idle (perform client .reconnect) := by
  simp only [perform]
  split
  · refine (h.writeReliable _).bind fun r hr => ?_
    cases hr with
    | same unchanged =>
      subst unchanged
      exact idle_dropMessages h.server h.buffsize_le h.reliable_le h.clean h.pending_le (Or.inr rfl)
    | filled free message netchan filling =>
      refine idle_dropMessages ?_ ?_ ?_ ?_ ?_ (Or.inr rfl)
      · rw [netchan]
        exact h.server
      · rw [netchan]
        exact filling.buffsize_eq.trans_le h.buffsize_le
      · rw [netchan]
        exact h.reliable_le
      · rw [netchan]
        exact filling.clean
      · rw [netchan]
        exact filling.fits.trans h.buffsize_le
  · exact idle_dropMessages h.server h.buffsize_le h.reliable_le h.clean h.pending_le (Or.inr rfl)

/-- A flush leaves nothing pending. -/
theorem idle_flush {client : Client} (h : Idle client) (curtime netSends : Nat) (always : Bool)
    (data : List UInt8) : Returns Idle (perform client (.flush curtime netSends always data)) := by
  simp only [perform]
  refine (h.writeReliable _).bind fun c hc => ?_
  cases hc with
  | same unchanged =>
    subst unchanged
    split
    · refine (transmit_returns curtime netSends data h.clean).mono ?_
      rintro r ⟨hmoved, hstate, hmessages⟩
      refine idle_of_moved h.server h.buffsize_le h.reliable_le h.clean h.pending_le ?_ hmoved
      rw [hstate, hmessages]
      exact fun _ => h.moved
    · exact h
  | filled free message netchan filling =>
    have hserver : c.control.netchan.sock = .server := by
      rw [netchan]
      exact h.server
    have hbuff : c.control.netchan.message.buffsize ≤ maxUsablemsg .kingpin := by
      rw [netchan]
      exact filling.buffsize_eq.trans_le h.buffsize_le
    have hreliable : c.control.netchan.reliable.length ≤ maxUsablemsg .kingpin := by
      rw [netchan]
      exact h.reliable_le
    have hclean : c.control.netchan.message.overflowed = false := by
      rw [netchan]
      exact filling.clean
    have hpending : c.control.netchan.message.data.length ≤ maxUsablemsg .kingpin := by
      rw [netchan]
      exact filling.fits.trans h.buffsize_le
    have hfree : c.control.netchan.reliable = [] := by
      rw [netchan]
      exact free
    split
    · refine (transmit_returns curtime netSends data hclean).mono ?_
      rintro r ⟨hmoved, _, _⟩
      exact idle_of_moved hserver hbuff hreliable hclean hpending
        (fun hwaits => absurd hfree hwaits) hmoved
    · rename_i hempty
      refine ⟨hserver, hbuff, hreliable, hclean, hpending, Or.inl ?_⟩
      simp only [Bool.or_eq_true, not_or] at hempty
      simpa using hempty.2

theorem Idle.setPacketdup {client : Client} (h : Idle client) (packetdup : Nat) :
    Idle (setPacketdup client packetdup) :=
  ⟨h.server, h.buffsize_le, h.reliable_le, h.clean, h.pending_le, h.moved⟩

/-- A datagram leaves nothing pending. -/
theorem idle_datagram {client : Client} (h : Idle client) (env : Env)
    (frames : Nat → Nat → Option (Frame Nat)) (fuel packetdup netSends : Nat) :
    Returns Idle (perform client (.datagram env frames fuel packetdup netSends)) := by
  simp only [perform]
  split
  · rename_i hspawned
    have hready := h.ready hspawned
    refine (svSendClientDatagram_returns env frames hready fuel 0).bind ?_
    rintro ⟨_, c, datagram⟩ hc
    cases datagram with
    | none => exact h.of_netchan hc hready.moved
    | some datagram =>
      have hcomposed : Composed client.control.netchan c.control.netchan datagram := hc
      have hclean : (setPacketdup c packetdup).control.netchan.message.overflowed = false :=
        hcomposed.clean
      obtain ⟨reliable, message, hnetchan⟩ := hcomposed.netchan
      have hserver : (setPacketdup c packetdup).control.netchan.sock = .server := by
        simp only [setPacketdup, hnetchan]
        exact h.server
      have hpending : c.control.netchan.message.data.length ≤ maxUsablemsg .kingpin :=
        ((Nat.le_add_right _ _).trans hcomposed.pending).trans h.buffsize_le
      refine (transmit_returns env.curtime netSends datagram hclean).bind ?_
      rintro r ⟨hmoved, _, _⟩
      have hidle : Idle r := idle_of_moved hserver
        (hcomposed.buffsize_eq.trans_le h.buffsize_le) hcomposed.reliable_le hcomposed.clean
        hpending (fun hwaits => Or.inl (hcomposed.waiting hwaits)) hmoved
      exact hidle.setPacketdup _
  · exact h

/-- An acknowledgement frees the channel and changes nothing that is pending. -/
theorem idle_receive {client : Client} (h : Idle client) (curtime : Nat) (msg : List UInt8) :
    Returns Idle (perform client (.receive curtime msg)) := by
  have hle : ∀ freed : Bool,
      (if freed then [] else client.control.netchan.reliable).length ≤ maxUsablemsg .kingpin := by
    intro freed
    cases freed with
    | false => exact h.reliable_le
    | true => exact Nat.zero_le _
  by_cases hstale : (readHeader msg).1.sequence ≤ client.control.netchan.incomingSequence
  · simp only [perform, netchanProcess, if_pos hstale]
    exact ⟨h.server, h.buffsize_le, h.reliable_le, h.clean, h.pending_le, h.moved⟩
  · simp only [perform, netchanProcess, if_neg hstale]
    refine ⟨h.server, h.buffsize_le, ?_, h.clean, h.pending_le, h.moved⟩
    simpa using hle (decide ((readHeader msg).1.reliableAck =
      client.control.netchan.reliableSequence))

theorem fits_of_idle (s : Except Stop Client) (op : Op) (h : Returns Idle s) : Fits s op := by
  cases s with
  | error e => exact trivial
  | ok client =>
    cases op with
    | datagram env frames fuel packetdup netSends =>
      intro hspawned memory client' datagram hsend
      have hready := Idle.ready h hspawned
      have hcomposed : Composed client.control.netchan client'.control.netchan datagram := by
        have hsent := svSendClientDatagram_returns env frames hready fuel 0
        rw [hsend] at hsent
        exact hsent
      have hfits := composed_fits hready hcomposed
      obtain ⟨reliable, message, hnetchan⟩ := hcomposed.netchan
      have hserver : (setPacketdup client' packetdup).control.netchan.sock = .server := by
        simp only [setPacketdup, hnetchan]
        exact hready.server
      refine ⟨hfits, netchanTransmit_fits env.curtime netSends hserver ?_⟩
      simp only [setPacketdup, reliableIncluded_packetdup]
      exact hfits
    | _ => exact trivial

/-- Every operation leaves the pending message empty, unless the client was dropped. -/
theorem idle_step (s : Except Stop Client) (op : Op) (h : Returns Idle s) :
    Returns Idle (step s op) := by
  refine h.bind fun client hclient => ?_
  cases op with
  | connect control curtime protocol qport msglen =>
    simp only [perform, netchanSetup, reduceCtorEq, false_and, if_false]
    exact idle_connect client rfl (Nat.le_refl _) rfl rfl rfl
  | drop cleaned =>
    refine idle_dropMessages hclient.server hclient.buffsize_le hclient.reliable_le hclient.clean
      hclient.pending_le ?_
    cases cleaned with
    | false => exact Or.inr rfl
    | true => exact Or.inl rfl
  | reconnect => exact idle_reconnect hclient
  | changeMap =>
    simp only [perform]
    split
    · rename_i hspawned
      refine (returns_any _).bind fun m _ => ?_
      exact ⟨hclient.server, hclient.buffsize_le, hclient.reliable_le, hclient.clean,
        hclient.pending_le, Or.inl (hclient.ready hspawned).moved⟩
    · exact hclient
  | update control =>
    refine ⟨hclient.server, hclient.buffsize_le, hclient.reliable_le, hclient.clean,
      hclient.pending_le, hclient.moved.imp_right ?_⟩
    rintro ⟨hgone, hdead⟩
    have hkept : dead client.control.state = true := by simpa [dead] using hdead
    refine ⟨hgone, ?_⟩
    simp only [hkept, if_true]
    exact hdead
  | add forceReconnect msg reliable =>
    refine (svAddMessageSingle_returns forceReconnect msg reliable).mono ?_
    rintro r (hsame | ⟨halive, hnetchan⟩)
    · rw [hsame]
      exact hclient
    · have hmoved : client.control.netchan.message.data = [] := by
        rcases hclient.moved with hmoved | ⟨_, hdead⟩
        · exact hmoved
        · simp [dead, hdead] at halive
      exact hclient.of_netchan hnetchan hmoved
  | receive curtime msg => exact idle_receive hclient curtime msg
  | flush curtime netSends always data => exact idle_flush hclient curtime netSends always data
  | datagram env frames fuel packetdup netSends =>
    exact idle_datagram hclient env frames fuel packetdup netSends

/-- In every run each datagram fits its packet, whatever the list holds. -/
theorem run_fits {start : Client} (start_idle : Idle start) (ops : List Op) :
    AllSteps step Fits (.ok start) ops :=
  allSteps_invariant idle_step fits_of_idle (show Returns Idle (.ok start) from start_idle) ops

private def noCompression : Zlib where
  deflate := fun _ _ => none
  inflate := fun _ => none
  deflate_le := nofun
  inflate_deflate := nofun

/-- A client whose last reliable message of 1000 bytes has to be repeated. -/
private def repeating : Client where
  control :=
    { state := .spawned
      netchan :=
        { sock := .server, lastReceived := 0, lastSent := 0, qport := 7, protocol := 34
          incomingAcknowledged := 5, lastReliableSequence := 3, reliableSequence := true
          message := { allowoverflow := true, maxsize := 1390, buffsize := 1390 }
          reliable := List.replicate 1000 svcNop } }
  messages := { allocated := true }

/-- A frame of 380 bytes is sent, then another message is queued and a frame follows. -/
theorem run_fits_example :
    AllSteps step Fits (.ok repeating)
      [.datagram { curtime := 0, rate := 15000, zlib := noCompression }
          (fun _ _ => some ⟨0, 0, some (List.replicate 380 svcNop)⟩) 1 0 1,
        .add false ⟨[svcPrint, 2, 0], [], by simp⟩ true,
        .datagram { curtime := 0, rate := 15000, zlib := noCompression }
          (fun _ _ => some ⟨0, 0, some (List.replicate 390 svcNop)⟩) 1 0 1] :=
  run_fits ⟨rfl, by decide, List.length_replicate.trans_le (by decide), rfl, by decide, Or.inl rfl⟩ _

end DatagramSize
