import Kpded2.MessageBuffer
import Kpded2.MessageLoops

/-!
# `SV_CheckCvarBans_f`

The command `checkcvars` asks all clients for the values of the variables that are checked. It
writes one question behind the other into the message buffer and sends them as one message, whose
size no one limits but the list of a client, by dropping him.
-/
namespace CvarChecks
open Bytes MessageBuffer MessageList MessageLoops MessageStorage Outcome SizeBuf

/-- The text that makes a client answer. -/
def checkText (varname : List UInt8) : List UInt8 :=
  ascii "cmd " ++ (127 :: ascii "c " ++ varname ++ ascii " $" ++ varname ++ [newline])

/-- `va`, which has room for 1022 characters. -/
def va (text : List UInt8) : List UInt8 := text.take 1022

def msgWriteString (text : List UInt8) (s : Server) : Except Stop Server := msgWrite (text ++ [0]) s

def writeCheck (s : Server) (varname : List UInt8) : Except Stop Server := do
  let s ← msgWrite [svcStufftext] s
  msgWriteString (va (checkText varname)) s

/-- `varnames` are the names in `cvarbans`. -/
def svCheckCvarBans (env : Env) (initialized : Bool) (varnames : List (List UInt8)) (s : Server) :
    Except Stop Server :=
  if !initialized then .ok s
  else if varnames = [] then .ok s
  else do
    let s ← varnames.foldlM writeCheck s
    svMulticast env none multicastAllR s

/-! ## What is written -/

def question (varname : List UInt8) : List UInt8 := svcStufftext :: (checkText varname ++ [0])

def written (varnames : List (List UInt8)) : List UInt8 :=
  varnames.flatMap fun varname => svcStufftext :: (va (checkText varname) ++ [0])

theorem length_written_le (varnames : List (List UInt8)) :
    (written varnames).length ≤ (varnames.flatMap question).length := by
  induction varnames with
  | nil => exact Nat.le_refl _
  | cons varname rest ih =>
    simp only [written, List.flatMap_cons, List.length_append, question, List.length_cons, va,
      List.length_take] at ih ⊢
    omega

theorem fits_of_length {varnames : List (List UInt8)}
    (same : (varnames.flatMap question).length ≤ (written varnames).length) :
    ∀ varname ∈ varnames, (checkText varname).length ≤ 1022 := by
  induction varnames with
  | nil => exact List.forall_mem_nil _
  | cons varname rest ih =>
    have hrest := length_written_le rest
    simp only [written, List.flatMap_cons, List.length_append, question, List.length_cons, va,
      List.length_take] at same hrest ih
    refine List.forall_mem_cons.mpr ⟨by omega, ih (by omega)⟩

theorem written_of_fits {varnames : List (List UInt8)}
    (fits : ∀ varname ∈ varnames, (checkText varname).length ≤ 1022) :
    written varnames = varnames.flatMap question := by
  refine List.flatMap_congr fun varname hmem => ?_
  rw [va, List.take_of_length_le (fits varname hmem)]
  rfl

theorem written_head {varnames : List (List UInt8)} (some : varnames ≠ []) :
    ∃ rest, written varnames = svcStufftext :: rest := by
  cases varnames with
  | nil => exact absurd rfl some
  | cons varname rest => exact ⟨_, List.flatMap_cons⟩

variable {env : Env} {s t : Server}

/-- Only the buffer has changed. -/
structure Buffered (s t : Server) (msgbuff : List UInt8) : Prop where
  msgbuff : t.msgbuff = msgbuff
  clients : t.clients = s.clients
  demo : t.demo = s.demo

theorem msgWrite_ok {bytes : List UInt8}
    (room : s.msgbuff.length + bytes.length ≤ messageBuffSize) :
    ∃ t, msgWrite bytes s = .ok t ∧ Buffered s t (s.msgbuff ++ bytes) :=
  ⟨_, if_neg (Nat.not_lt_of_le room), rfl, rfl, rfl⟩

theorem msgWrite_buffered {bytes : List UInt8} (run : msgWrite bytes s = .ok t) :
    s.msgbuff.length + bytes.length ≤ messageBuffSize ∧ Buffered s t (s.msgbuff ++ bytes) := by
  simp only [msgWrite] at run
  split at run
  · cases run
  · rename_i room
    cases run
    exact ⟨Nat.le_of_not_lt room, rfl, rfl, rfl⟩

/-- All questions are written while there is room for them. -/
theorem writeChecks_ok {varnames : List (List UInt8)}
    (room : s.msgbuff.length + (written varnames).length ≤ messageBuffSize) :
    ∃ t, varnames.foldlM writeCheck s = .ok t ∧ Buffered s t (s.msgbuff ++ written varnames) := by
  induction varnames generalizing s with
  | nil => exact ⟨s, rfl, (List.append_nil _).symm, rfl, rfl⟩
  | cons varname rest ih =>
    simp only [written, List.flatMap_cons, List.length_append, List.length_cons] at room ih
    obtain ⟨u, hu, typed⟩ := @msgWrite_ok s [svcStufftext]
      (by rw [List.length_singleton]; omega)
    obtain ⟨v, hv, text⟩ := @msgWrite_ok u (va (checkText varname) ++ [0]) (by
      rw [typed.msgbuff]
      simp only [List.length_append, List.length_singleton] at room ⊢
      omega)
    obtain ⟨t, ht, later⟩ := @ih v (by
      rw [text.msgbuff, typed.msgbuff]
      simp only [List.length_append, List.length_singleton] at room ⊢
      omega)
    refine ⟨t, ?_, ?_, ?_, ?_⟩
    · have check : writeCheck s varname = .ok v := by
        rw [writeCheck, hu]
        exact hv
      rw [List.foldlM_cons, check]
      exact ht
    · rw [later.msgbuff, text.msgbuff, typed.msgbuff, written]
      simp only [List.flatMap_cons, List.append_assoc, List.cons_append, List.nil_append]
    · rw [later.clients, text.clients, typed.clients]
    · rw [later.demo, text.demo, typed.demo]

/-- The questions stand in the buffer in the order of the list. -/
theorem writeChecks_buffered {varnames : List (List UInt8)}
    (run : varnames.foldlM writeCheck s = .ok t) :
    (varnames ≠ [] → s.msgbuff.length + (written varnames).length ≤ messageBuffSize) ∧
      Buffered s t (s.msgbuff ++ written varnames) := by
  induction varnames generalizing s with
  | nil =>
    cases run
    exact ⟨fun h => absurd rfl h, (List.append_nil _).symm, rfl, rfl⟩
  | cons varname rest ih =>
    rw [List.foldlM_cons] at run
    obtain ⟨v, check, run⟩ := exists_of_bind_eq_ok run
    obtain ⟨u, hu, hv⟩ := exists_of_bind_eq_ok check
    obtain ⟨-, typed⟩ := msgWrite_buffered hu
    obtain ⟨room, text⟩ := msgWrite_buffered hv
    obtain ⟨more, later⟩ := ih run
    have grown : v.msgbuff = s.msgbuff ++ (svcStufftext :: (va (checkText varname) ++ [0])) := by
      rw [text.msgbuff, typed.msgbuff, List.append_assoc]
      rfl
    refine ⟨fun _ => ?_, ?_, ?_, ?_⟩
    · by_cases hrest : rest = []
      · subst hrest
        rw [typed.msgbuff] at room
        simp only [written, List.flatMap_cons, List.flatMap_nil, List.append_nil,
          List.length_append, List.length_cons, List.length_nil] at room ⊢
        omega
      · have more := more hrest
        rw [grown] at more
        simp only [written, List.flatMap_cons, List.length_append, List.length_cons] at more ⊢
        omega
    · rw [later.msgbuff, grown, written, List.append_assoc]
      rfl
    · rw [later.clients, text.clients, typed.clients]
    · rw [later.demo, text.demo, typed.demo]

/-! ## One client -/

/-- What the multicast does to a client. -/
def addQuestions (forceReconnect : Bool) (data : List UInt8) (client : Client) :
    Except Stop Client :=
  if refusesMessage forceReconnect client true then .ok client else queueMessage client data true

theorem svAddMessageSingle_questions (forceReconnect : Bool) (client : Client) {data : List UInt8}
    (leftover : List UInt8) (nonempty : data ≠ []) {rest : List UInt8}
    (first : data = svcStufftext :: rest) :
    svAddMessageSingle forceReconnect client ⟨data, leftover, nonempty⟩ true =
      addQuestions forceReconnect data client := by
  subst first
  exact svAddMessageSingle_other forceReconnect client true (show svcStufftext ≠ svcLayout by decide)

/-- The list of a client is taken for overflown. -/
structure Cleared (c : Client) : Prop where
  list : c.messages.list = []
  overflowed : c.control.overflowed = true

/-- The client has one message more. -/
structure Asked (client c : Client) (data : List UInt8) : Prop where
  control : c.control = client.control
  list : c.messages.list = [1]
  bytes : ∀ b, c.messages.bytes 1 = .ok b → b = data.take (int16 data.length).toNat
  whole : data.length < 32768 → c.messages.bytes 1 = .ok data

theorem cleared_of_overflow {client c : Client} (one : client.messages.list = [1])
    (run : overflow client = .ok c) : Cleared c := by
  obtain ⟨m, clear, run⟩ := exists_of_bind_eq_ok run
  cases run
  refine ⟨?_, rfl⟩
  simp only [svClearMessageList, one, sweep, bind, Except.bind] at clear
  split at clear
  · cases clear
  · rename_i swept
    split at swept
    · cases swept
    · rename_i deleted
      cases swept
      cases clear
      simp only [svDeleteMessage, one] at deleted
      split at deleted
      · split at deleted
        · cases deleted
        · split at deleted
          · cases deleted
            rfl
          · cases deleted
      · cases deleted
        rfl

theorem bmod_le_self (n m : Nat) : (n : Int).bmod m ≤ n := by
  have hmod : (n : Int) % m ≤ n := by
    rw [← Int.natCast_emod]
    exact Int.ofNat_le.mpr (Nat.mod_le n m)
  rw [Int.bmod_def]
  split
  · exact hmod
  · omega

theorem int16_le (n : Nat) : int16 n ≤ n := bmod_le_self n (2 ^ 16)

/-- A question for a client without pending messages. -/
theorem queueMessage_question {client : Client} {data rest : List UInt8}
    (empty : client.messages.list = []) (first : data = svcStufftext :: rest) :
    (int16 data.length ≥ client.control.netchan.message.buffsize ∧
        ∀ c, queueMessage client data true = .ok c → Cleared c) ∨
      (int16 data.length < client.control.netchan.message.buffsize ∧
        ∃ c, queueMessage client data true = .ok c ∧ Asked client c data) := by
  have index : nextIndex client.messages = 1 := by
    rw [nextIndex, empty]
    rfl
  have ended := ended_appended client data
  have run := queueMessage_plain client
    (show data ≠ [] by rw [first]; exact List.cons_ne_nil _ _)
    (show Plain data by rw [first]; exact plain_cons rest (by decide) (by decide)) true
  generalize appended client.messages data = m at ended run
  rw [index, if_neg (by decide)] at run
  obtain ⟨list, -, ⟨behind, storage⟩, size⟩ := ended.setReliable true
  rw [index] at storage size
  rw [index, empty, List.nil_append] at list
  rw [run]
  by_cases large : int16 data.length ≥ client.control.netchan.message.buffsize
  · refine Or.inl ⟨large, fun c hc => ?_⟩
    rw [if_pos large] at hc
    exact @cleared_of_overflow { client with messages := m } c list hc
  · refine Or.inr ⟨Int.not_le.mp large, _, if_neg large, rfl, list, ?_, ?_⟩
    · intro b hb
      simp only [Messages.bytes, storage, size] at hb
      split at hb
      · rename_i inside
        have within : (int16 data.length).toNat ≤ data.length := Int.toNat_le.mpr (int16_le _)
        rw [← Except.ok.inj hb, List.take_append_of_le_length within]
      · cases hb
    · intro short
      have small : data.length < 2 ^ 15 := by omega
      refine bytes_of_storage storage ?_
      rw [size, int16_of_lt small]

/-! ## All clients -/

def connected (client : Client) : Prop :=
  ¬(client.control.state = .free ∨ client.control.state = .zombie)

theorem refuses_of_not_connected {client : Client} (gone : ¬connected client)
    (forceReconnect : Bool) : refusesMessage forceReconnect client true = true := by
  have state : decide (client.control.state = .free ∨ client.control.state = .zombie) = true :=
    decide_eq_true (not_not.mp gone)
  simp only [refusesMessage, state, Bool.true_or]

theorem sendTo_question {rest : List UInt8} (slot : Nat)
    (first : s.msgbuff = svcStufftext :: rest) :
    sendTo env none multicastAllR true s slot =
      (addQuestions env.forceReconnect s.msgbuff (s.clients slot) >>= fun c =>
        .ok { s with clients := Function.update s.clients slot c }) := by
  have type : s.msgbuff.getD 0 0 = svcStufftext := by
    rw [first]
    rfl
  have nonempty : s.msgbuff ≠ [] := by
    rw [first]
    exact List.cons_ne_nil _ _
  have skipped : skips env none multicastAllR true slot s = true ↔ ¬connected (s.clients slot) := by
    have other : (svcStufftext == svcConfigstring) = false := rfl
    have needed : pointless svcStufftext = false := rfl
    have entity : [svcMuzzleflash, svcMuzzleflash2, svcMuzzleflash3, svcTempEntity].contains
        svcStufftext = false := rfl
    have everyone : decide (multicastAllR ≠ multicastAll ∧ multicastAllR ≠ multicastAllR) =
        false := rfl
    simp only [skips, type, other, needed, entity, everyone, Bool.not_true, Bool.or_false,
      Bool.and_false, Bool.false_and, decide_eq_true_eq, connected, not_not]
  by_cases gone : connected (s.clients slot)
  · have stays : skips env none multicastAllR true slot s = false :=
      Bool.eq_false_iff.mpr fun h => skipped.mp h gone
    have seen (msg : Msgbuff) (same : msg.data = s.msgbuff) :
        seenBy env (s.clients slot) msg true = msg := by
      have short : ¬msg.data.getD 0 0 = svcLayout := by
        rw [same, type]
        decide
      rw [seenBy, if_neg short, ite_self]
    rw [sendTo, stays, addMessageSingle, dif_neg nonempty]
    simp only [Bool.false_eq_true, if_false, seen ⟨s.msgbuff, s.leftover, nonempty⟩ rfl,
      List.drop_length, List.nil_append,
      svAddMessageSingle_questions env.forceReconnect (s.clients slot) s.leftover nonempty first]
  · rw [sendTo, if_pos (skipped.mpr gone), addQuestions, if_pos (refuses_of_not_connected gone _)]
    change _ = Except.ok { s with clients := Function.update s.clients slot (s.clients slot) }
    rw [Function.update_eq_self]

theorem tells_questions (env : Env) (rest leftover : List UInt8) :
    Tells (sendTo env none multicastAllR true) (svcStufftext :: rest) leftover
      (addQuestions env.forceReconnect (svcStufftext :: rest)) := by
  intro s slot first _
  rw [sendTo_question slot first, first]

/-! ## Which checks reach everyone -/

/-- All questions wait for the client, in messages that his channel can take, and he is not taken
for overflown. -/
structure Delivered (varnames : List (List UInt8)) (client c : Client) : Prop where
  overflowed : c.control.overflowed = client.control.overflowed
  pending : ∃ ms, c.messages.list.mapM c.messages.bytes = .ok ms ∧
    ms.flatten = varnames.flatMap question ∧
    ∀ m ∈ ms, m.length < client.control.netchan.message.buffsize

/-- The command returns, and every client above `cs_zombie` has all questions. -/
def AllDelivered (env : Env) (varnames : List (List UInt8)) (s : Server) : Prop :=
  ∃ t, svCheckCvarBans env true varnames s = .ok t ∧
    ∀ slot < env.maxclients, connected (s.clients slot) →
      Delivered varnames (s.clients slot) (t.clients slot)

/-- The joined message has room in the message buffer, in that of a demo and in the channel of each
client; no text is cut; and no client is refused messages. -/
structure Sendable (env : Env) (varnames : List (List UInt8)) (s : Server) : Prop where
  short : (written varnames).length ≤ messageBuffSize
  recorded : ∀ demo, s.demo = some demo → (szWrite demo (written varnames)).isSome = true
  uncut : ∀ slot < env.maxclients, connected (s.clients slot) →
    ∀ varname ∈ varnames, (checkText varname).length ≤ 1022
  room : ∀ slot < env.maxclients, connected (s.clients slot) →
    (written varnames).length < (s.clients slot).control.netchan.message.buffsize
  accepts : ∀ slot < env.maxclients, connected (s.clients slot) →
    refusesMessage env.forceReconnect (s.clients slot) true = false

/-- Nothing is in the buffer, as `MSG_BeginWriting` asserts, and no message waits for a client,
whose channel is one of `Netchan_Setup`. -/
structure Fresh (s : Server) : Prop where
  msgbuff : s.msgbuff = []
  empty : ∀ slot, connected (s.clients slot) → (s.clients slot).messages.list = []
  buffsize : ∀ slot, (s.clients slot).control.netchan.message.buffsize ≤
    Protocol.maxUsablemsg .quake2

theorem recordMulticast_ok
    (recorded : ∀ demo, s.demo = some demo → (szWrite demo s.msgbuff).isSome = true) :
    ∃ u, recordMulticast s = .ok u := by
  rw [recordMulticast]
  split
  · exact ⟨s, rfl⟩
  · rename_i demo hdemo
    obtain ⟨out, hout⟩ := Option.isSome_iff_exists.mp (recorded demo hdemo)
    rw [hout]
    exact ⟨_, rfl⟩

theorem recorded_of_ok {u : Server} (run : recordMulticast s = .ok u) :
    ∀ demo, s.demo = some demo → (szWrite demo s.msgbuff).isSome = true := by
  simp only [recordMulticast] at run
  intro demo' hdemo'
  split at run
  · rename_i none
    rw [none] at hdemo'
    cases hdemo'
  · rename_i demo hdemo
    split at run
    · cases run
    · rename_i out hout
      rw [hdemo] at hdemo'
      rw [← Option.some.inj hdemo', hout]
      rfl

theorem question_nonempty {varnames : List (List UInt8)} (some : varnames ≠ []) :
    varnames.flatMap question ≠ [] := by
  cases varnames with
  | nil => exact absurd rfl some
  | cons varname rest =>
    rw [List.flatMap_cons, question]
    exact List.cons_ne_nil _ _

/-- The client got the questions, if he has them. -/
theorem delivered_only {varnames : List (List UInt8)} {client c : Client}
    (some : varnames ≠ []) (empty : client.messages.list = []) {forceReconnect : Bool}
    (told : addQuestions forceReconnect (written varnames) client = .ok c)
    (delivered : Delivered varnames client c) :
    refusesMessage forceReconnect client true = false ∧
      (∀ varname ∈ varnames, (checkText varname).length ≤ 1022) ∧
      (written varnames).length < client.control.netchan.message.buffsize := by
  obtain ⟨ms, pending, flat, sizes⟩ := delivered.pending
  have nothing (list : c.messages.list = []) : False := by
    rw [list] at pending
    cases pending
    exact question_nonempty some flat.symm
  obtain ⟨rest, first⟩ := written_head some
  rw [addQuestions] at told
  split at told
  · cases told
    exact (nothing empty).elim
  rename_i accepted
  rcases queueMessage_question empty first with ⟨-, cleared⟩ | ⟨-, c', queued, asked⟩
  · exact (nothing (cleared c told).list).elim
  · rw [told] at queued
    cases queued
    rw [asked.list] at pending
    obtain ⟨b, hb, pending⟩ := exists_of_bind_eq_ok pending
    obtain rfl : [b] = ms := Except.ok.inj pending
    have cut := asked.bytes b hb
    have whole : b = varnames.flatMap question := by
      rw [← flat, List.flatten_cons, List.flatten_nil, List.append_nil]
    have length : b.length ≤ (written varnames).length :=
      (congrArg List.length cut).trans_le (List.length_take_le' _ _)
    have fits := @fits_of_length varnames (by rw [← whole]; exact length)
    refine ⟨Bool.eq_false_iff.mpr accepted, fits, ?_⟩
    rw [written_of_fits fits, ← whole]
    exact sizes b List.mem_cons_self

theorem delivered_if {varnames : List (List UInt8)} {client : Client} (some : varnames ≠ [])
    (empty : client.messages.list = []) {forceReconnect : Bool}
    (buffsize : client.control.netchan.message.buffsize ≤ Protocol.maxUsablemsg .quake2)
    (accepts : refusesMessage forceReconnect client true = false)
    (uncut : ∀ varname ∈ varnames, (checkText varname).length ≤ 1022)
    (room : (written varnames).length < client.control.netchan.message.buffsize) :
    ∃ c, addQuestions forceReconnect (written varnames) client = .ok c ∧
      Delivered varnames client c := by
  have largest : Protocol.maxUsablemsg .quake2 = 4086 := rfl
  have int16 := int16_le (written varnames).length
  obtain ⟨rest, first⟩ := written_head some
  rw [addQuestions, if_neg (Bool.eq_false_iff.mp accepts)]
  rcases queueMessage_question empty first with ⟨large, -⟩ | ⟨-, c, queued, asked⟩
  · exact absurd (Int.le_trans large int16) (by omega)
  · refine ⟨c, queued, congrArg Control.overflowed asked.control, [written varnames], ?_, ?_, ?_⟩
    · rw [asked.list]
      simp only [List.mapM_cons, asked.whole (by omega), List.mapM_nil, bind, Except.bind, pure,
        Except.pure]
    · rw [List.flatten_cons, List.flatten_nil, List.append_nil]
      exact written_of_fits uncut
    · rintro m hm
      rw [List.mem_singleton.mp hm]
      exact room

/-- The checks of the command reach every client if and only if their questions together fit. -/
theorem checks_delivered_iff (env : Env) (varnames : List (List UInt8)) (s : Server)
    (fresh : Fresh s) :
    AllDelivered env varnames s ↔ varnames = [] ∨ Sendable env varnames s := by
  by_cases none : varnames = []
  · subst none
    refine iff_of_true ⟨s, rfl, fun slot _ above => ⟨rfl, [], ?_, rfl, List.forall_mem_nil _⟩⟩
      (Or.inl rfl)
    rw [fresh.empty slot above]
    rfl
  rw [or_iff_right none]
  obtain ⟨rest, first⟩ := written_head none
  have nodup : (List.range env.maxclients).Nodup := List.nodup_range
  constructor
  · rintro ⟨t, run, delivered⟩
    simp only [svCheckCvarBans, Bool.not_true, Bool.false_eq_true, if_false, none] at run
    obtain ⟨u, checks, run⟩ := exists_of_bind_eq_ok run
    obtain ⟨room, buffered⟩ := writeChecks_buffered checks
    rw [fresh.msgbuff, List.nil_append] at buffered
    rw [fresh.msgbuff, List.length_nil, Nat.zero_add] at room
    have nonempty : u.msgbuff ≠ [] := by
      rw [buffered.msgbuff, first]
      exact List.cons_ne_nil _ _
    have tells := tells_questions env rest u.leftover
    rw [← first, ← buffered.msgbuff] at tells
    have told := tells.multicast nonempty run
    rw [buffered.clients, buffered.msgbuff] at told
    rw [svMulticast_everyone nonempty] at run
    obtain ⟨v, record, -⟩ := exists_of_bind_eq_ok run
    have recorded := recorded_of_ok record
    have each : ∀ slot < env.maxclients, connected (s.clients slot) →
        refusesMessage env.forceReconnect (s.clients slot) true = false ∧
          (∀ varname ∈ varnames, (checkText varname).length ≤ 1022) ∧
          (written varnames).length < (s.clients slot).control.netchan.message.buffsize := by
      intro slot hslot above
      exact delivered_only none (fresh.empty slot above) (told slot hslot)
        (delivered slot hslot above)
    refine ⟨room none, ?_, fun slot hslot above => (each slot hslot above).2.1,
      fun slot hslot above => (each slot hslot above).2.2,
      fun slot hslot above => (each slot hslot above).1⟩
    rw [buffered.demo, buffered.msgbuff] at recorded
    exact recorded
  · intro sendable
    obtain ⟨u, checks, buffered⟩ := @writeChecks_ok s varnames (by
      rw [fresh.msgbuff, List.length_nil, Nat.zero_add]
      exact sendable.short)
    rw [fresh.msgbuff, List.nil_append] at buffered
    have nonempty : u.msgbuff ≠ [] := by
      rw [buffered.msgbuff, first]
      exact List.cons_ne_nil _ _
    have tells := tells_questions env rest u.leftover
    rw [← first, ← buffered.msgbuff] at tells
    obtain ⟨v, record⟩ := @recordMulticast_ok u (by
      rw [buffered.demo, buffered.msgbuff]
      exact sendable.recorded)
    obtain ⟨same, behind, clients⟩ := recordMulticast_same record
    have each : ∀ slot < env.maxclients, connected (s.clients slot) →
        ∃ c, addQuestions env.forceReconnect (written varnames) (s.clients slot) = .ok c ∧
          Delivered varnames (s.clients slot) c := fun slot hslot above =>
      delivered_if none (fresh.empty slot above) (fresh.buffsize slot)
        (sendable.accepts slot hslot above) (sendable.uncut slot hslot above)
        (sendable.room slot hslot above)
    obtain ⟨w, sent⟩ : ∃ w, (List.range env.maxclients).foldlM
        (sendTo env Option.none multicastAllR true) v = .ok w := by
      refine tells.all nodup same behind fun slot hslot => ?_
      rw [clients, buffered.clients, buffered.msgbuff]
      by_cases above : connected (s.clients slot)
      · obtain ⟨c, told, -⟩ := each slot (List.mem_range.mp hslot) above
        exact ⟨c, told⟩
      · rw [addQuestions, if_pos (refuses_of_not_connected above _)]
        exact ⟨_, rfl⟩
    have run : svMulticast env Option.none multicastAllR u = .ok (msgFreeData w) := by
      rw [svMulticast_everyone nonempty, record]
      change ((List.range env.maxclients).foldlM (sendTo env Option.none multicastAllR true) v >>=
        fun s => .ok (msgFreeData s)) = _
      rw [sent]
      rfl
    refine ⟨msgFreeData w, ?_, fun slot hslot above => ?_⟩
    · simp only [svCheckCvarBans, Bool.not_true, Bool.false_eq_true, if_false, none, checks]
      exact run
    · obtain ⟨c, told, delivered⟩ := each slot hslot above
      have same := tells.multicast nonempty run slot hslot
      rw [buffered.clients, buffered.msgbuff, told] at same
      rw [← Except.ok.inj same]
      exact delivered

private def oneClient : Server where
  msgbuff := []
  leftover := []
  clients _ :=
    { control :=
        { state := .spawned
          netchan :=
            { sock := .server, lastReceived := 0, lastSent := 0, qport := 0, protocol := 32
              message := szInit 1390 } }
      messages := { allocated := true } }
  dropme _ := false
  demo := none

private def oneSlot : Env := ⟨1, false, false, fun _ => false, fun _ _ _ => true⟩

private theorem oneClient_fresh : Fresh oneClient where
  msgbuff := rfl
  empty _ _ := rfl
  buffsize _ := by
    change 1390 ≤ 4086
    decide

theorem checks_delivered_iff_one :
    AllDelivered oneSlot [ascii "gl_modulate"] oneClient ↔
      [ascii "gl_modulate"] = [] ∨ Sendable oneSlot [ascii "gl_modulate"] oneClient :=
  checks_delivered_iff oneSlot [ascii "gl_modulate"] oneClient oneClient_fresh

/-- With a name of eleven characters a question has 34 bytes, and 45 of them are too long. -/
theorem many_checks_overflow : Fresh oneClient ∧
    ¬AllDelivered oneSlot (List.replicate 45 (ascii "gl_modulate")) oneClient := by
  refine ⟨oneClient_fresh, fun delivered => ?_⟩
  obtain ⟨t, run, each⟩ := delivered
  have overflowed : ((svCheckCvarBans oneSlot true (List.replicate 45 (ascii "gl_modulate"))
      oneClient).toOption.map fun t => (t.clients 0).control.overflowed) = some true := by
    decide +kernel
  rw [run] at overflowed
  have kept := (each 0 (by decide) (by rintro (h | h) <;> cases h)).overflowed
  exact Bool.noConfusion (kept.symm.trans (Option.some.inj overflowed))

end CvarChecks
