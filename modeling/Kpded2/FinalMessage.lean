import Kpded2.DatagramSize

/-!
# The final message of a shutdown

`SV_FinalMessage` writes one print message with a command behind it and sends it to every client,
twice. It runs inside `Com_Error`, where a second error ends the program.
-/
namespace FinalMessage
open ClientDatagram DatagramSize MessageList NetChan Outcome Protocol SizeBuf

inductive Stop where
  /-- `Com_Error (ERR_FATAL)` of a buffer. -/
  | fatal
  /-- `Com_Error (ERR_DROP)` of `Netchan_Transmit`. -/
  | drop
  deriving DecidableEq

def svcDisconnect : UInt8 := 9
def svcReconnect : UInt8 := 10
def printHigh : UInt8 := 2

/-- `net_message` when it is sent. -/
def composed (message : List UInt8) (reconnect : Bool) : Except Stop Sizebuf := do
  let msgbuff ← szWriteOr .fatal (szInit 0x10000) [svcPrint]
  let msgbuff ← szWriteOr .fatal msgbuff [printHigh]
  let msgbuff ← szWriteOr .fatal msgbuff (message ++ [0])
  let netMessage := msgEndWriting (szInit (maxMsglen .kingpin)) msgbuff.data
  szWriteOr .fatal netMessage [if reconnect then svcReconnect else svcDisconnect]

/-- `netSends` is how many packets the socket takes. -/
def netchanTransmitTo (curtime netSends : Nat) (data : List UInt8) (cl : Control) :
    Except Stop Control :=
  if dead cl.state then .ok cl
  else
    match netchanTransmit .kingpin curtime netSends cl.netchan data with
    | none => .error .fatal
    | some out =>
      if out.result = .dropped then .error .drop else .ok { cl with netchan := out.chan }

/-- One of the two loops over the clients. -/
def transmitAll (curtime : Nat) (data : List UInt8) :
    (Nat → Nat) → List Control → Except Stop (List Control)
  | _, [] => .ok []
  | netSends, cl :: rest => do
    let cl ← netchanTransmitTo curtime (netSends 0) data cl
    let rest ← transmitAll curtime data (fun i => netSends (i + 1)) rest
    .ok (cl :: rest)

def svFinalMessage (curtime : Nat) (first second : Nat → Nat) (clients : List Control)
    (message : List UInt8) (reconnect : Bool) : Except Stop (List Control) := do
  let netMessage ← composed message reconnect
  let clients ← transmitAll curtime netMessage.data first clients
  transmitAll curtime netMessage.data second clients

/-! ## The packet that is composed -/

theorem writeIf_maxsize {needed : Bool} {buf out : Sizebuf} {data : List UInt8}
    (h : writeIf needed buf data = some out) : out.maxsize = buf.maxsize := by
  cases needed with
  | false =>
    cases h
    rfl
  | true => exact (szWrite_effect h).1

/-- What `netchanTransmit_fits` asks for is needed. -/
theorem fits_of_netchanTransmit {curtime netSends : Nat} {chan : Chan} {data : List UInt8}
    (server : chan.sock = .server) (clean : chan.message.overflowed = false) {out : Transmitted}
    (h : netchanTransmit .kingpin curtime netSends chan data = some out)
    (sent : out.result ≠ .dropped) : 8 + (reliableIncluded chan).length + data.length ≤ 1400 := by
  simp only [netchanTransmit, clean, Bool.false_eq_true, if_false] at h
  obtain ⟨s1, h1, h⟩ := Option.bind_eq_some_iff.mp h
  obtain ⟨s2, h2, h⟩ := Option.bind_eq_some_iff.mp h
  obtain ⟨s3, h3, h⟩ := Option.bind_eq_some_iff.mp h
  obtain ⟨s4, h4, h⟩ := Option.bind_eq_some_iff.mp h
  obtain ⟨hs1, hd1⟩ := szWrite_strict rfl h1
  obtain ⟨hs2, hd2⟩ := szWrite_strict hs1 h2
  obtain ⟨hs3, hd3⟩ := writeIf_strict hs2 h3
  obtain ⟨hs4, hd4⟩ := writeIf_strict hs3 h4
  have limit : s4.maxsize = 1400 := by
    rw [writeIf_maxsize h4, writeIf_maxsize h3, (szWrite_effect h2).1, (szWrite_effect h1).1]
    rfl
  have port : (qportBytes (numberPacket curtime (stageReliable chan))).length = 0 := by
    have same : qportBytes (numberPacket curtime (stageReliable chan)) = qportBytes chan :=
      (stageReliable_frame chan).2.2.2.2.2.2
    rw [same]
    simp only [qportBytes, server, List.length_nil]
  have included : (if (sendReliable chan &&
        !(numberPacket curtime (stageReliable chan)).reliable.isEmpty) = true
      then (numberPacket curtime (stageReliable chan)).reliable else []) = reliableIncluded chan :=
    keep_needed _ _
  have size : s4.cursize = 8 + (reliableIncluded chan).length := by
    rw [keep_nonempty] at hd3
    rw [included] at hd4
    simp only [Sizebuf.cursize, hd4, hd3, hd2, hd1, List.length_append, port]
    rfl
  split at h
  · rename_i fits
    rw [size, limit] at fits
    exact fits
  · cases h
    exact absurd rfl sent

/-! ## The text -/

def finalSize (message : List UInt8) : Nat :=
  if message.length + 3 ≤ 1400 then message.length + 4 else 1

/-- The text fits `msgbuff`, and does not leave `net_message` without room for the command. -/
def Writes (message : List UInt8) : Prop :=
  message.length + 3 ≤ 0x10000 ∧ message.length + 3 ≠ 1400

instance (message : List UInt8) : Decidable (Writes message) :=
  inferInstanceAs (Decidable (_ ∧ _))

/-- `msgbuff` when the print message is complete. -/
theorem composed_eq {message : List UInt8} (room : message.length + 3 ≤ 0x10000)
    (reconnect : Bool) : composed message reconnect =
      szWriteOr .fatal (msgEndWriting (szInit (maxMsglen .kingpin))
        ([svcPrint, printHigh] ++ (message ++ [0])))
        [if reconnect then svcReconnect else svcDisconnect] := by
  have text : (message ++ [0]).length = message.length + 1 := List.length_append
  simp only [composed, bind, Except.bind]
  rw [szWriteOr_of_fits _ (by decide)]
  simp only
  rw [szWriteOr_of_fits _ (by decide)]
  simp only
  rw [szWriteOr_of_fits _ (by
    change 2 + (message ++ [0]).length ≤ 0x10000
    omega)]
  rfl

theorem endWriting_of_fits {msgbuff : List UInt8} (fits : msgbuff.length ≤ 1400) :
    msgEndWriting (szInit (maxMsglen .kingpin)) msgbuff =
      { szInit (maxMsglen .kingpin) with data := msgbuff } :=
  msgEndWriting_of_fits (by
    change 0 + msgbuff.length ≤ 1400
    omega)

/-- A text that is too long is dropped. -/
theorem endWriting_of_long {msgbuff : List UInt8} (long : 1400 < msgbuff.length) :
    msgEndWriting (szInit (maxMsglen .kingpin)) msgbuff =
      { szInit (maxMsglen .kingpin) with overflowed := true } := by
  have outside : (szInit (maxMsglen .kingpin)).cursize + msgbuff.length >
      (szInit (maxMsglen .kingpin)).maxsize := by
    change 0 + msgbuff.length > 1400
    omega
  rw [msgEndWriting, if_pos outside]
  rfl

theorem composed_of_writes {message : List UInt8} (h : Writes message) (reconnect : Bool) :
    ∃ out, composed message reconnect = .ok out ∧ out.data.length = finalSize message := by
  obtain ⟨room, several⟩ := h
  have text : ([svcPrint, printHigh] ++ (message ++ [0])).length = message.length + 3 := by
    simp only [List.length_append, List.length_cons, List.length_nil]
    omega
  rw [composed_eq room]
  by_cases fits : message.length + 3 ≤ 1400
  · rw [endWriting_of_fits (text.trans_le fits), szWriteOr_of_fits _ (by
      change ([svcPrint, printHigh] ++ (message ++ [0])).length + 1 ≤ 1400
      omega)]
    refine ⟨_, rfl, ?_⟩
    rw [List.length_append, text, finalSize, if_pos fits]
    rfl
  · rw [endWriting_of_long (by omega)]
    refine ⟨_, szWriteOr_of_fits _ (by change 0 + 1 ≤ 1400; decide), ?_⟩
    rw [finalSize, if_neg fits]
    rfl

theorem writes_of_composed {message : List UInt8} {reconnect : Bool} {out : Sizebuf}
    (h : composed message reconnect = .ok out) : Writes message := by
  have text : ([svcPrint, printHigh] ++ (message ++ [0])).length = message.length + 3 := by
    simp only [List.length_append, List.length_cons, List.length_nil]
    omega
  have room : message.length + 3 ≤ 0x10000 := by
    by_contra long
    simp only [composed, bind, Except.bind] at h
    rw [szWriteOr_of_fits _ (by decide)] at h
    simp only at h
    rw [szWriteOr_of_fits _ (by decide)] at h
    simp only at h
    rw [szWriteOr_of_full _ rfl (by
      change 0x10000 < 2 + (message ++ [0]).length
      rw [List.length_append]
      change 0x10000 < 2 + (message.length + 1)
      omega)] at h
    cases h
  refine ⟨room, fun full => ?_⟩
  rw [composed_eq room, endWriting_of_fits (text.trans_le full.le)] at h
  rw [szWriteOr_of_full _ rfl (by
    change 1400 < ([svcPrint, printHigh] ++ (message ++ [0])).length + 1
    omega)] at h
  cases h

/-! ## The packets -/

/-- What the packet of a client has room for. -/
def Fits (size : Nat) (cl : Control) : Prop :=
  dead cl.state = false → cl.netchan.message.overflowed = false →
    8 + (reliableIncluded cl.netchan).length + size ≤ 1400

/-- The packet is sent exactly when the message fits. -/
theorem netchanTransmitTo_ok_iff {curtime netSends : Nat} {data : List UInt8} {cl : Control}
    (server : cl.netchan.sock = .server) :
    (∃ out, netchanTransmitTo curtime netSends data cl = .ok out) ↔ Fits data.length cl := by
  cases gone : dead cl.state with
  | true =>
    refine ⟨fun _ used => ?_, fun _ => ⟨cl, if_pos gone⟩⟩
    rw [gone] at used
    cases used
  | false =>
    simp only [netchanTransmitTo, gone, Bool.false_eq_true, if_false]
    constructor
    · rintro ⟨out, h⟩ _ clean
      split at h
      · cases h
      · rename_i sent run
        split at h
        · cases h
        · rename_i kept
          exact fits_of_netchanTransmit server clean run kept
    · intro fits
      cases overflowed : cl.netchan.message.overflowed with
      | true =>
        refine ⟨cl, ?_⟩
        simp only [netchanTransmit, overflowed, if_true]
        rfl
      | false =>
        obtain ⟨out, run, kept⟩ :=
          netchanTransmit_fits curtime netSends server (fits gone overflowed)
        refine ⟨{ cl with netchan := out.chan }, ?_⟩
        rw [run]
        exact if_neg kept

/-- A second packet takes no more from the channel than the first one did. -/
theorem reliableIncluded_sent_le (curtime copies size : Nat) (chan : Chan) :
    (reliableIncluded (countSent copies size (afterSend curtime chan))).length ≤
      (reliableIncluded chan).length := by
  cases sends : sendReliable chan with
  | true =>
    have same : reliableIncluded chan = (stageReliable chan).reliable := if_pos sends
    have reliable : (countSent copies size (afterSend curtime chan)).reliable =
        (stageReliable chan).reliable := by
      simp only [countSent, afterSend, sends, noteReliable, numberPacket, if_true]
    have message : (countSent copies size (afterSend curtime chan)).message =
        (stageReliable chan).message := by
      simp only [countSent, afterSend, sends, noteReliable, numberPacket, if_true]
    rw [same, reliableIncluded]
    split
    · rcases stageReliable_cases (countSent copies size (afterSend curtime chan)) with
        ⟨free, waits, -⟩ | ⟨-, stays⟩
      · rw [reliable] at free
        rw [message] at waits
        rcases stageReliable_cases chan with ⟨-, waited, staged⟩ | ⟨nothing, staged⟩
        · rw [staged] at free
          simp only at free
          rw [free] at waited
          cases waited
        · rw [staged] at free waits
          rw [free, waits] at nothing
          cases nothing
      · rw [stays, reliable]
    · exact Nat.zero_le _
  | false =>
    have nothing : (chan.reliable.isEmpty && !chan.message.data.isEmpty) = false := by
      rw [sendReliable_eq, Bool.or_eq_false_iff] at sends
      exact sends.2
    have stays : stageReliable chan = chan := if_neg (by rw [nothing]; exact Bool.false_ne_true)
    have silent : sendReliable (countSent copies size (afterSend curtime chan)) = false := by
      simp only [afterSend, stays, sends, noteReliable, Bool.false_eq_true, if_false]
      exact sends
    rw [reliableIncluded, silent]
    exact Nat.zero_le _

/-- A client that a packet went to still has room for it. -/
theorem sent_fits {curtime netSends size : Nat} {data : List UInt8} {cl out : Control}
    (h : netchanTransmitTo curtime netSends data cl = .ok out) (fits : Fits size cl)
    (server : cl.netchan.sock = .server) : Fits size out ∧ out.netchan.sock = .server := by
  simp only [netchanTransmitTo] at h
  split at h
  · cases h
    exact ⟨fits, server⟩
  split at h
  · cases h
  · rename_i sent run
    split at h
    · cases h
    · cases h
      rcases netchanTransmit_sequel run with ⟨same, -⟩ | ⟨copies, length, chan⟩
      · rw [same]
        exact ⟨fits, server⟩
      · obtain ⟨sock, -, clean, -⟩ := moved_afterSend curtime copies length cl.netchan
        rw [chan]
        refine ⟨fun used cleaned => ?_, sock.trans server⟩
        have included := reliableIncluded_sent_le curtime copies length cl.netchan
        have room := fits used (clean.symm.trans cleaned)
        change 8 + (reliableIncluded (countSent copies length (afterSend curtime cl.netchan))).length +
          size ≤ 1400
        omega

/-- One loop over the clients ends just when every packet fits. -/
theorem transmitAll_ok_iff {curtime : Nat} {data : List UInt8} {clients : List Control}
    (server : ∀ cl ∈ clients, cl.netchan.sock = .server) (netSends : Nat → Nat) :
    (∃ out, transmitAll curtime data netSends clients = .ok out) ↔
      ∀ cl ∈ clients, Fits data.length cl := by
  induction clients generalizing netSends with
  | nil => exact ⟨fun _ => List.forall_mem_nil _, fun _ => ⟨[], rfl⟩⟩
  | cons cl rest ih =>
    rw [List.forall_mem_cons] at server
    rw [List.forall_mem_cons, ← ih server.2 fun i => netSends (i + 1),
      ← @netchanTransmitTo_ok_iff curtime (netSends 0) data cl server.1]
    constructor
    · rintro ⟨out, h⟩
      obtain ⟨first, hfirst, h⟩ := exists_of_bind_eq_ok h
      obtain ⟨others, hothers, -⟩ := exists_of_bind_eq_ok h
      exact ⟨⟨first, hfirst⟩, others, hothers⟩
    · rintro ⟨⟨first, hfirst⟩, others, hothers⟩
      exact ⟨first :: others, bind_of_ok hfirst (bind_of_ok hothers rfl)⟩

theorem transmitAll_fits {curtime size : Nat} {data : List UInt8} {clients out : List Control}
    {netSends : Nat → Nat} (h : transmitAll curtime data netSends clients = .ok out)
    (fits : ∀ cl ∈ clients, Fits size cl ∧ cl.netchan.sock = .server) :
    ∀ cl ∈ out, Fits size cl ∧ cl.netchan.sock = .server := by
  induction clients generalizing netSends out with
  | nil =>
    cases h
    exact fits
  | cons cl rest ih =>
    rw [List.forall_mem_cons] at fits
    obtain ⟨first, hfirst, h⟩ := exists_of_bind_eq_ok h
    obtain ⟨others, hothers, h⟩ := exists_of_bind_eq_ok h
    cases h
    rw [List.forall_mem_cons]
    exact ⟨sent_fits hfirst fits.1.1 fits.1.2, ih hothers fits.2⟩

/-! ## The shutdown -/

theorem fits_of_completes {curtime : Nat} {first second : Nat → Nat} {clients : List Control}
    (server : ∀ cl ∈ clients, cl.netchan.sock = .server) {message : List UInt8} {reconnect : Bool}
    {out : List Control} (h : svFinalMessage curtime first second clients message reconnect = .ok out) :
    Writes message ∧ ∀ cl ∈ clients, Fits (finalSize message) cl := by
  obtain ⟨netMessage, hmessage, h⟩ := exists_of_bind_eq_ok h
  obtain ⟨between, hfirst, -⟩ := exists_of_bind_eq_ok h
  have writes := writes_of_composed hmessage
  obtain ⟨same, run, size⟩ := composed_of_writes writes reconnect
  cases hmessage.symm.trans run
  refine ⟨writes, ?_⟩
  rw [← size]
  exact (transmitAll_ok_iff server first).mp ⟨between, hfirst⟩

/-- A shutdown completes just when its text can be put into a message, and the message into a
packet of every client with what the channel sends there itself. -/
theorem completes_iff (curtime : Nat) (first second : Nat → Nat) {clients : List Control}
    (server : ∀ cl ∈ clients, cl.netchan.sock = .server) (message : List UInt8) (reconnect : Bool) :
    (∃ out, svFinalMessage curtime first second clients message reconnect = .ok out) ↔
      Writes message ∧ ∀ cl ∈ clients, Fits (finalSize message) cl := by
  constructor
  · rintro ⟨out, h⟩
    exact fits_of_completes server h
  · rintro ⟨writes, fits⟩
    obtain ⟨netMessage, hmessage, size⟩ := composed_of_writes writes reconnect
    rw [← size] at fits
    obtain ⟨between, hfirst⟩ := (transmitAll_ok_iff server first).mpr fits
    have still := transmitAll_fits hfirst fun cl hcl => ⟨fits cl hcl, server cl hcl⟩
    obtain ⟨out, hsecond⟩ := (transmitAll_ok_iff (fun cl hcl => (still cl hcl).2) second).mpr
      fun cl hcl => (still cl hcl).1
    exact ⟨out, bind_of_ok hmessage (bind_of_ok hfirst hsecond)⟩

/-- A client whose last reliable message, of a full buffer, was lost. -/
private def lostReliable : Control where
  state := .spawned
  netchan :=
    { sock := .server, lastReceived := 0, lastSent := 0, qport := 0, protocol := 34
      incomingAcknowledged := 8, lastReliableSequence := 7, reliableSequence := true
      reliable := List.replicate 1390 svcNop, message := szInit 1390 }

private def killed : List UInt8 := Bytes.ascii "Server was killed.\n"

/-- One whose last reliable message was short. -/
private def lostPrint : Control where
  state := .spawned
  netchan := { lostReliable.netchan with reliable := List.replicate 300 svcPrint }

private theorem killed_writes : Writes killed := by
  decide +kernel

private theorem lostPrint_fits : Fits (finalSize killed) lostPrint := by
  intro _ _
  decide +kernel

private theorem lostReliable_unfit : ¬Fits (finalSize killed) lostReliable := by
  intro fits
  exact absurd (fits rfl rfl) (by decide +kernel)

/-- A reliable message of 300 bytes goes out again with the text, and one of 1390 bytes does not. -/
theorem completes_iff_spawned :
    (∃ out, svFinalMessage 0 (fun _ => 2) (fun _ => 2) [lostPrint, lostPrint] killed false =
      .ok out) ∧
    ¬∃ out, svFinalMessage 0 (fun _ => 2) (fun _ => 2) [lostPrint, lostReliable] killed false =
      .ok out := by
  have server : ∀ cl ∈ [lostPrint, lostReliable], cl.netchan.sock = .server :=
    List.forall_mem_cons.mpr ⟨rfl, List.forall_mem_singleton.mpr rfl⟩
  constructor
  · refine (completes_iff 0 _ _ ?_ killed false).mpr ⟨killed_writes, ?_⟩
    · exact List.forall_mem_cons.mpr ⟨rfl, List.forall_mem_singleton.mpr rfl⟩
    · exact List.forall_mem_cons.mpr ⟨lostPrint_fits, List.forall_mem_singleton.mpr lostPrint_fits⟩
  · intro completes
    have fits := ((completes_iff 0 _ _ server killed false).mp completes).2
    exact lostReliable_unfit (fits lostReliable (by simp))

/-- No room is kept for a reliable message that has to be sent again. -/
theorem kill_not_completed : ¬∀ (curtime : Nat) (first second : Nat → Nat) (clients : List Control)
    (message : List UInt8) (reconnect : Bool), (∀ cl ∈ clients, cl.netchan.sock = .server) →
      ∃ out, svFinalMessage curtime first second clients message reconnect = .ok out := by
  intro h
  obtain ⟨out, run⟩ := h 0 (fun _ => 2) (fun _ => 2) [lostReliable] killed false
    (List.forall_mem_singleton.mpr rfl)
  obtain ⟨-, fits⟩ := fits_of_completes (List.forall_mem_singleton.mpr rfl) run
  exact lostReliable_unfit (List.forall_mem_singleton.mp fits)

end FinalMessage
