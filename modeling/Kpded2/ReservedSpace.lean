import Kpded2.Bytes
import Kpded2.DraftMessages

/-!
# The space for the first reliable message

`SV_BuildClientFrame` changes a client's list in one place: it registers the sound of being under
water, whose configstring goes to every client. That is after `SV_SendClientDatagram` has reserved
the space for the first reliable message.
-/
namespace ReservedSpace
open Bytes ClientDatagram DatagramSize DraftMessages MessageList MessageLoops MessageStorage NetChan
open Outcome Protocol ReliableMessages SizeBuf

/-! ## The datagram up to the reliable messages -/

/-- What the datagram depends on besides the client. -/
structure Building (σ : Type) where
  env : Env
  write : σ → Nat → Option (Frame σ)
  fuel : Nat
  memory : σ

variable {σ : Type}

/-- The unreliable messages: what fits is written, and little of the rest is kept. -/
def sendUnreliable (env : Env) (d : Draft) : Except Stop (Client × Sizebuf) := do
  let d ← fillUnreliable env d
  if d.msg.overflowed then .error .comError
  else do
    let (control, messages) ←
      sweep (nukeUnreliable (· == svcStufftext)) d.messages.list d.control d.messages
    .ok ({ control, messages }, d.msg)

/-- `SV_SendClientDatagram` up to the call of `SV_WriteReliableMessages`. -/
def prepareDatagram (b : Building σ) (client : Client) : Except Stop (σ × Client × Sizebuf) := do
  let (memory, d) ← frameDatagram b.env b.write b.fuel b.memory client
  let (client, msg) ← sendUnreliable b.env d
  .ok (memory, client, msg)

/-- Nothing has been heard of the client for five seconds. -/
def Silent (env : Env) (client : Client) : Prop :=
  (env.curtime + 2 ^ 32 - client.control.netchan.lastReceived) % 2 ^ 32 > 5000 ∧ !env.demofile

instance (env : Env) (client : Client) : Decidable (Silent env client) :=
  inferInstanceAs (Decidable (_ ∧ _))

/-- A datagram is prepared and the reliable messages are written into what it leaves. -/
theorem svSendClientDatagram_eq (b : Building σ) {client : Client} (loud : ¬Silent b.env client) :
    svSendClientDatagram b.env b.write b.fuel b.memory client = (do
      let (memory, client, msg) ← prepareDatagram b client
      let client ← svWriteReliableMessages client
        (client.control.netchan.message.buffsize - msg.cursize)
      .ok (memory, client, some msg.data)) := by
  simp only [svSendClientDatagram, prepareDatagram, sendUnreliable]
  refine Eq.trans (if_neg loud) ?_
  cases frameDatagram b.env b.write b.fuel b.memory client with
  | error stop => rfl
  | ok r =>
    obtain ⟨memory, d⟩ := r
    simp only [bind, Except.bind]
    cases fillUnreliable b.env d with
    | error stop => rfl
    | ok d' =>
      simp only
      by_cases overflowed : d'.msg.overflowed = true
      · simp only [if_pos overflowed]
      · simp only [if_neg overflowed]
        cases sweep (nukeUnreliable (· == svcStufftext)) d'.messages.list d'.control d'.messages with
        | error stop => rfl
        | ok r => rfl

/-! ## The claim -/

/-- A message that the buffer of the channel could hold alone. -/
def Small (client : Client) (i : Nat) : Prop :=
  i ∈ client.messages.list ∧ (client.messages.nodes i).reliable = true ∧
    (textOf client.messages i).length ≤ client.control.netchan.message.buffsize

/-- If a reliable message could be sent, the first one is moved, and the client stays. -/
def Moves (client : Client) (msg : Sizebuf) : Prop :=
  (∃ j, Small client j) → ∃ r,
    svWriteReliableMessages client (client.control.netchan.message.buffsize - msg.cursize) = .ok r ∧
      r.control.state = .spawned ∧ ∀ i ∈ firstReliable client.messages,
        i ∉ r.messages.list ∧
          (textOf client.messages i).dropLast <+: r.control.netchan.message.data

/-- A client that is sent a datagram, with a free channel. -/
structure Spawned (client : Client) : Prop where
  inv : ClientInv client
  ready : Ready client.control.netchan
  state : client.control.state = .spawned
  allocated : client.messages.allocated = true
  free : client.control.netchan.reliable = []
  wellformed : Wellformed client.messages
  nonempty : Nonempty client.messages

/-- The first reliable message that waits can be sent. -/
def FirstFits (client : Client) : Prop :=
  ∃ i ∈ firstReliable client.messages,
    (textOf client.messages i).length ≤ client.control.netchan.message.buffsize

/-! ## What building the frame changes -/

variable {client c : Client} {forceReconnect : Bool} {registered : Option Nat}

theorem Spawned.readable (h : Spawned client) : Readable client.messages := readable_of_inv h.inv.messages

theorem Spawned.built (h : Spawned client) : Built client client :=
  built_refl h.readable h.wellformed h.nonempty

/-! ## What is reserved -/

theorem reserve_spec (h : Spawned client) : ∃ msg,
    reserve client = .ok (msg, firstReliable client.messages) ∧ msg.buffsize = 1390 ∧
      msg.data = [] ∧ msg.overflowed = false ∧
        (firstReliable client.messages = none → msg.maxsize = 1390) ∧
          ∀ i ∈ firstReliable client.messages,
            msg.maxsize = 1390 - (textOf client.messages i).length := by
  have buffsize := h.inv.setup
  simp only [reserve, h.free, List.isEmpty_nil, Bool.not_true, Bool.false_eq_true, if_false]
  cases first : firstReliable client.messages with
  | none =>
    exact ⟨_, rfl, buffsize, rfl, rfl, fun _ => buffsize, by rintro _ ⟨⟩⟩
  | some i =>
    obtain ⟨bytes, read⟩ := h.readable.bytes i (List.mem_of_find?_eq_some first)
    simp only [read, bind, Except.bind]
    refine ⟨_, rfl, buffsize, rfl, rfl, by rintro ⟨⟩, ?_⟩
    rintro _ ⟨⟩
    rw [textOf_of_bytes read]
    change client.control.netchan.message.buffsize - bytes.length = _
    rw [buffsize]

/-- What the unreliable messages leave of a datagram. -/
structure Finished (c : Client) (rmessage : Option Nat) (d : Draft) (client' : Client)
    (msg : Sizebuf) : Prop where
  listed : ∃ gone, Listed c.messages rmessage gone client'.messages
  fewer : Fewer d.messages client'.messages
  maxsize : msg.maxsize = d.msg.maxsize
  longer : d.msg.cursize ≤ msg.cursize
  fits : msg.cursize ≤ msg.maxsize
  netchan : client'.control.netchan = d.control.netchan
  state : client'.control.state = d.control.state

variable {b : Building σ} {d : Draft} {m : Messages} {gone : List Nat} {env : Env}
  {rmessage : Option Nat}

theorem sendUnreliable_finished (nonempty : Nonempty c.messages) (first : First c.messages rmessage)
    (listed : Listed c.messages rmessage gone d.messages) (clean : d.msg.overflowed = false)
    (fits : d.msg.cursize ≤ d.msg.maxsize) :
    ∃ client' msg, sendUnreliable env d = .ok (client', msg) ∧ Finished c rmessage d client' msg := by
  obtain ⟨d', run, gone', filled⟩ := @fillUnreliable_filled c _ d gone env first nonempty listed fits
  have clean' : ¬d'.msg.overflowed = true := by
    rw [filled.msg]
    exact Bool.eq_false_iff.mp clean
  obtain ⟨⟨control, messages⟩, run', gone'', listed', fewer, netchan, state, -⟩ :=
    @sweep_nukeUnreliable d'.messages c _ _ (· == svcStufftext) first nonempty filled.listed
      d'.control
  refine ⟨{ control, messages }, d'.msg, ?_, ⟨_, listed'⟩, filled.fewer.trans fewer, ?_, ?_,
    filled.fits, netchan.trans filled.netchan, state.trans filled.noted.state⟩
  · simp only [sendUnreliable, run, run', bind, Except.bind, if_neg clean']
  · rw [filled.msg]
  · rw [filled.msg]
    simp only [Sizebuf.cursize, List.length_append]
    omega

theorem Finished.first_eq {client' : Client} {msg : Sizebuf} (h : Finished c rmessage d client' msg) :
    firstReliable client'.messages = firstReliable c.messages := by
  obtain ⟨gone, listed⟩ := h.listed
  rw [firstReliable_eq, firstReliable_eq, listed.reliables_eq]

/-- The first reliable message is moved if it fits behind the datagram. -/
theorem Finished.written {client' : Client} {msg : Sizebuf} (h : Spawned client)
    (built : Built client c) (finished : Finished c rmessage d client' msg)
    (netchan : d.control.netchan = client.control.netchan) (state : d.control.state = .spawned) :
    ∃ r, svWriteReliableMessages client'
        (client'.control.netchan.message.buffsize - msg.cursize) = .ok r ∧
      ∀ i ∈ firstReliable c.messages,
        ((textOf client'.messages i).length ≤ 1390 - msg.cursize → r.control.state = .spawned ∧
          i ∉ r.messages.list ∧
            (textOf client'.messages i).dropLast <+: r.control.netchan.message.data) ∧
        (1390 - msg.cursize < (textOf client'.messages i).length → r.control.state = .zombie) := by
  obtain ⟨gone, listed⟩ := finished.listed
  have chan := finished.netchan.trans netchan
  have spawned := finished.state.trans state
  have buffsize : client'.control.netchan.message.buffsize = 1390 := by
    rw [chan]
    exact h.inv.setup
  have empty : client'.control.netchan.message.data = [] := by
    rw [chan]
    exact h.ready.moved
  have active : Active client' (1390 - msg.cursize) := by
    refine ⟨?_, listed.allocated.trans (built.allocated.trans h.allocated), listed.readable, ?_, ?_, ?_⟩
    · rw [spawned]
      rintro ⟨⟩
    · rw [chan]
      exact h.free
    · rw [chan]
      exact h.ready.clean
    · rw [empty]
      exact Nat.zero_le _
  obtain ⟨r, run, -, -, result⟩ :=
    svWriteReliableMessages_first active (listed.wellformed built.wellformed) empty
  rw [buffsize]
  refine ⟨r, run, fun i hi => ?_⟩
  obtain ⟨moves, drops⟩ := result i (finished.first_eq ▸ hi)
  refine ⟨fun small => ?_, drops⟩
  obtain ⟨same, gone, text⟩ := moves small
  exact ⟨same.trans spawned, gone, text⟩

/-- The space is still there when the frame has been put into the datagram. -/
structure Drafted (client c : Client) (gone : List Nat) (d : Draft) : Prop where
  listed : Listed c.messages (firstReliable client.messages) gone d.messages
  spared : Spared c.messages (firstReliable client.messages) 0 d
  clean : d.msg.overflowed = false
  fits : d.msg.cursize ≤ d.msg.maxsize
  netchan : d.control.netchan = client.control.netchan
  state : d.control.state = .spawned

theorem spared_first {msg : Sizebuf} (h : Spawned client)
    (reserved : reserve client = .ok (msg, firstReliable client.messages)) :
    Spared client.messages (firstReliable client.messages) 0
      ⟨client.messages, client.control, msg⟩ := by
  obtain ⟨msg', run, buffsize, -, -, whole, own⟩ := reserve_spec h
  cases run.symm.trans reserved
  refine ⟨buffsize, fun i hi _ bytes read => ?_, fun none => .inl (whole none), fun _ => Nat.zero_le _⟩
  rw [own i hi, textOf_of_bytes read]

/-- What the frame leaves of the messages, and what it puts. -/
theorem frameDatagram_drafted (h : Spawned client) :
    Returns (fun r => ∃ c gone, Built client c ∧ Effect b.env.forceReconnect b.env.registered client c ∧
        Drafted client c gone r.2)
      (frameDatagram b.env b.write b.fuel b.memory client) := by
  obtain ⟨msg, reserved, buffsize, blank, clean, whole, own⟩ := reserve_spec h
  have kept := reserve_returns h.ready
  rw [reserved] at kept
  obtain ⟨reservation, -, -, waits⟩ := kept
  simp only [frameDatagram, reserved, bind, Except.bind]
  split
  · rename_i nodata
    have same : Effect b.env.forceReconnect b.env.registered client client :=
      .same rfl fun r => Bool.false_ne_true (r.1.symm.trans nodata)
    exact returns_ok ⟨client, [], h.built, same, Listed.refl h.readable _, spared_first h reserved,
      clean, cursize_le_of_blank blank, rfl, h.state⟩
  · rename_i nodata
    obtain ⟨c, run, inv, effect⟩ := @svBuildClientFrame_effect b.env client h.inv
      (Bool.eq_false_iff.mpr nodata)
    have built := effect_built h.inv h.wellformed h.nonempty inv effect
    have first := effect_first effect built fun _ hi => hi
    have start : Blank c (firstReliable client.messages) 0 ⟨c.messages, c.control, msg⟩ :=
      ⟨Listed.refl built.readable _, effect_spared effect built (fun _ hi => hi) (spared_first h reserved)
        (Nat.zero_le _), Noted.refl _ _, blank, clean⟩
    have moved : Reserved client.control.netchan ⟨c.messages, c.control, msg⟩ :=
      reservation.move built.netchan rfl rfl
    have framed := @retryframe_framed c _ 0 _ b.env σ b.write first built.nonempty b.fuel b.memory
      noLimit false start
    have returned := @retryframe_returns σ _ b.env b.write _ h.ready waits b.fuel b.memory noLimit
      false _ moved ⟨blank, clean⟩
    simp only [run]
    cases result : retryframe b.env b.write (firstReliable client.messages) b.fuel b.memory noLimit
        false ⟨c.messages, c.control, msg⟩ with
    | error stop => exact returns_error stop
    | ok r =>
      rw [result] at framed returned
      obtain ⟨gone, listed, spared, noted, -⟩ := framed
      obtain ⟨reserves, placed⟩ := returned
      have netchan : r.2.control.netchan = client.control.netchan := by
        obtain ⟨reliable, chan⟩ := reserves.netchan
        have free : r.2.control.netchan.reliable = [] := reserves.waiting.mpr h.free
        rw [chan] at free ⊢
        change reliable = [] at free
        rw [free, ← h.free]
      have state : r.2.control.state = .spawned := noted.state.trans (built.state.trans h.state)
      simp only
      refine returns_ok ⟨c, gone, built, effect, ?_⟩
      cases overflowed : r.2.msg.overflowed with
      | true =>
        simp only [if_true]
        exact ⟨listed, spared.of_bytes rfl rfl rfl fun i hi => ⟨hi, rfl⟩, rfl, Nat.zero_le _, netchan,
          state⟩
      | false =>
        simp only [Bool.false_eq_true, if_false]
        refine ⟨listed, spared, overflowed, placed.resolve_left ?_, netchan, state⟩
        rw [overflowed]
        exact Bool.false_ne_true

/-! ## Whether the first message is moved -/

theorem exists_firstReliable {m : Messages} {j : Nat} (hj : j ∈ m.list)
    (reliable : (m.nodes j).reliable = true) : ∃ i, i ∈ firstReliable m := by
  have found : (m.list.find? fun i => (m.nodes i).reliable).isSome :=
    List.find?_isSome.mpr ⟨j, hj, reliable⟩
  exact Option.isSome_iff_exists.mp found

/-- The configstring is behind the message for which space is reserved. -/
theorem effect_first_mem (effect : Effect forceReconnect registered client c) (built : Built client c)
    (kept_open : ¬(Registers forceReconnect registered client ∧ Full client)) {i : Nat}
    (hi : i ∈ firstReliable client.messages) : i ∈ firstReliable c.messages := by
  cases effect with
  | same unchanged silent => rwa [unchanged]
  | cleared cleared registers full => exact absurd ⟨registers, full⟩ kept_open
  | appended index added registers room =>
    have same : reliables c.messages client.messages.list =
        reliables client.messages client.messages.list :=
      List.filter_congr fun j hj => built.flags j hj
    rw [firstReliable_eq] at hi ⊢
    rw [added.list, reliables, List.filter_append, ← reliables, same,
      List.head?_append_of_ne_nil _ (List.ne_nil_of_mem (List.mem_of_head? hi))]
    exact hi

/-- A message that could be sent is still there, and may have become shorter. -/
theorem Finished.small {client' : Client} {msg : Sizebuf} (finished : Finished c rmessage d client' msg)
    (netchan : client'.control.netchan.message.buffsize = c.control.netchan.message.buffsize)
    {j : Nat} (small : Small c j) (same : client'.messages.bytes j = c.messages.bytes j) :
    Small client' j := by
  obtain ⟨gone, listed⟩ := finished.listed
  obtain ⟨hj, reliable, short⟩ := small
  have kept : j ∈ reliables client'.messages client'.messages.list := by
    rw [listed.reliables_eq]
    exact List.mem_filter.mpr ⟨hj, reliable⟩
  obtain ⟨hj', reliable'⟩ := List.mem_filter.mp kept
  refine ⟨hj', reliable', ?_⟩
  rw [textOf_eq same, netchan]
  exact short

/-- The condition: the list is cleared, or there is space for what is in it. -/
def Spaced (forceReconnect : Bool) (registered : Option Nat) (client : Client) : Prop :=
  (Registers forceReconnect registered client ∧ Full client) ∨
    ((Registers forceReconnect registered client ∨ ∃ j, Small client j) → FirstFits client)

/-- The first message that can be sent is the one for which there is space. -/
theorem effect_first_own (effect : Effect forceReconnect registered client c)
    (built : Built client c) (nonempty : c.messages.list ≠ [])
    (fits : Registers forceReconnect registered client → FirstFits client) {i : Nat}
    (hi : i ∈ firstReliable c.messages) : i ∈ firstReliable client.messages := by
  cases effect with
  | same unchanged silent => rwa [← unchanged]
  | cleared cleared registers full => exact absurd cleared.list nonempty
  | appended index added registers room =>
    obtain ⟨k, hk, -⟩ := fits registers
    have first := effect_first_mem (.appended index added registers room) built
      (fun both => room both.2) hk
    cases first.symm.trans hi
    exact hk

/-- If the first message cannot be sent, none of the others can. -/
theorem first_short (h : Spawned client) (spaced : Spaced forceReconnect registered client)
    (effect : Effect forceReconnect registered client c)
    (listed : Listed c.messages (firstReliable client.messages) gone m) {i j : Nat}
    (own : i ∈ firstReliable client.messages) (hi : i ∈ m.list) (hj : j ∈ m.list)
    (reliable : (m.nodes j).reliable = true) (small : (textOf m j).length ≤ 1390) :
    (textOf m i).length ≤ 1390 := by
  have buffsize := h.inv.setup
  have inside : ∀ k ∈ m.list, k ∈ c.messages.list := fun k hk => by
    rw [listed.list] at hk
    exact List.mem_of_mem_filter hk
  by_contra big
  have unchanged : m.bytes i = client.messages.bytes i := by
    rcases listed.own i own hi with same | ⟨rest, compressed, length⟩
    · exact same.trans (effect_bytes effect (reliable_of_first own).1 (inside i hi))
    · rw [textOf_of_bytes compressed, List.length_cons] at big
      omega
  have long : ¬FirstFits client := by
    rintro ⟨k, hk, fits⟩
    cases hk.symm.trans own
    rw [textOf_eq unchanged, ← buffsize] at big
    exact big fits
  cases effect with
  | cleared cleared registers full => exact List.ne_nil_of_mem (inside i hi) cleared.list
  | appended index added registers room =>
    rcases spaced with ⟨-, full⟩ | fits
    · exact room full
    · exact long (fits (.inl registers))
  | same unchanged' silent =>
    subst unchanged'
    have other : j ∉ firstReliable c.messages := fun same => by
      cases same.symm.trans own
      exact big small
    rcases spaced with ⟨registers, -⟩ | fits
    · exact silent registers
    · refine long (fits (.inr ⟨j, inside j hj, ?_, ?_⟩))
      · rwa [← listed.reliable]
      · rw [buffsize, ← textOf_eq (listed.others j hj other)]
        exact small

theorem moves_of_spaced (h : Spawned client) (spaced : Spaced forceReconnect registered client)
    (built : Built client c) (effect : Effect forceReconnect registered client c)
    (drafted : Drafted client c gone d) {client' : Client} {msg : Sizebuf}
    (finished : Finished c (firstReliable client.messages) d client' msg) : Moves client' msg := by
  rintro ⟨j, hj, reliable, small⟩
  obtain ⟨r, run, result⟩ := finished.written h built drafted.netchan drafted.state
  obtain ⟨gone', listed⟩ := finished.listed
  obtain ⟨i, hi⟩ := exists_firstReliable hj reliable
  rw [finished.netchan, drafted.netchan, h.inv.setup] at small
  have first : i ∈ firstReliable c.messages := finished.first_eq ▸ hi
  have nonempty : c.messages.list ≠ [] := List.ne_nil_of_mem (reliable_of_first first).1
  have listed_i := (reliable_of_first hi).1
  have own : i ∈ firstReliable client.messages := by
    refine effect_first_own effect built nonempty (fun registers => ?_) first
    refine spaced.resolve_left (fun both => ?_) (.inl registers)
    cases effect with
    | same unchanged silent => exact silent registers
    | cleared cleared registers full => exact nonempty cleared.list
    | appended index added registers room => exact room both.2
  have short := first_short h spaced effect listed own listed_i hj reliable small
  have space : (textOf client'.messages i).length ≤ 1390 - msg.cursize := by
    obtain ⟨bytes, read⟩ := listed.readable.bytes i listed_i
    have same := finished.fewer.bytes i listed_i
    have maxsize := drafted.spared.own i own (finished.fewer.sub i listed_i) bytes (same ▸ read)
    have fits := finished.fits
    rw [textOf_of_bytes read] at short ⊢
    rw [finished.maxsize, maxsize] at fits
    omega
  obtain ⟨moves, -⟩ := result i first
  obtain ⟨state, gone'', text⟩ := moves space
  refine ⟨r, run, state, fun k hk => ?_⟩
  cases hk.symm.trans hi
  exact ⟨gone'', text⟩

private theorem length_le_of_noStream (_ : List UInt8) (avail : Nat) (out : List UInt8)
    (h : none = some out) : out.length ≤ avail := by
  cases h

private theorem inflate_of_noStream (input : List UInt8) (_ : Nat) (out : List UInt8)
    (h : none = some out) : none = some input := by
  cases h

private def storedZlib : Zlib where
  deflate := fun _ _ => none
  inflate := fun _ => none
  deflate_le := length_le_of_noStream
  inflate_deflate := inflate_of_noStream

def fullFrame : List UInt8 := List.replicate 1390 0

theorem length_fullFrame : fullFrame.length = 1390 := List.length_replicate

/-- A frame that fills a datagram without reliable messages. -/
def tight (forceReconnect : Bool) (registered : Option Nat) : Building Unit where
  env := { curtime := 0, demofile := true, forceReconnect, registered, rate := 0, zlib := storedZlib }
  write := fun _ _ => some ⟨(), 0, some fullFrame⟩
  fuel := 1
  memory := ()

theorem not_silent_tight (client : Client) :
    ¬Silent (tight forceReconnect registered).env client := by
  rintro ⟨-, demo⟩
  cases demo

theorem frameDatagram_tight (h : Spawned client) :
    ∃ c msg, frameDatagram (tight forceReconnect registered).env
        (tight forceReconnect registered).write 1 () client =
          .ok ((), ⟨c.messages, c.control, msg⟩) ∧ Built client c ∧
      Effect forceReconnect registered client c ∧ msg.overflowed = false ∧ msg.cursize ≤ msg.maxsize ∧
        (client.control.nodata = false → firstReliable client.messages = none → msg.cursize = 1390) := by
  obtain ⟨msg, reserved, buffsize, blank, clean, whole, own⟩ := reserve_spec h
  have start := cursize_le_of_blank blank
  have zero : msg.data.length = 0 := congrArg List.length blank
  simp only [frameDatagram, reserved, bind, Except.bind]
  split
  · rename_i nodata
    have silent : ¬Registers forceReconnect registered client := fun r =>
      Bool.false_ne_true (r.1.symm.trans nodata)
    exact ⟨client, msg, rfl, h.built, .same rfl silent, clean, start, fun sent =>
      absurd (sent.symm.trans nodata) Bool.false_ne_true⟩
  · rename_i nodata
    obtain ⟨c, run, inv, effect⟩ := @svBuildClientFrame_effect (tight forceReconnect registered).env
      client h.inv (Bool.eq_false_iff.mpr nodata)
    have built := effect_built h.inv h.wellformed h.nonempty inv effect
    simp only [run]
    by_cases fits : fullFrame.length ≤ msg.maxsize
    · have length : (msg.data ++ fullFrame).length = 1390 := by
        rw [List.length_append, length_fullFrame, zero]
      have placed : writeOrStop msg fullFrame = .ok { msg with data := msg.data ++ fullFrame } :=
        writeOrStop_fits (by
          rw [Sizebuf.cursize, zero, Nat.zero_add]
          exact fits)
      rw [length_fullFrame] at fits
      refine ⟨c, { msg with data := msg.data ++ fullFrame }, ?_, built, effect, clean, ?_,
        fun _ _ => length⟩
      · rw [← length_fullFrame] at fits
        simp only [tight, retryframe, Option.elim, putAttempt, putFrame, putPlain, Bool.false_eq_true,
          if_false, if_pos fits, placed, bind, Except.bind, if_true, clean]
      · rw [Sizebuf.cursize, length]
        exact fits
    · refine ⟨c, msg, ?_, built, effect, clean, start, fun _ none => ?_⟩
      · simp only [tight, retryframe, Option.elim, putAttempt, putFrame, putPlain, Bool.false_eq_true,
          if_false, if_neg fits, bind, Except.bind, clean, ne_eq, not_true_eq_false]
      · rw [whole none, length_fullFrame] at fits
        exact absurd (Nat.le_refl 1390) fits

theorem spaced_of_moves (h : Spawned client)
    (moves : ∀ client' msg, prepareDatagram (tight forceReconnect registered) client =
      .ok ((), client', msg) → Moves client' msg) : Spaced forceReconnect registered client := by
  by_contra unspaced
  obtain ⟨kept_open, unfit⟩ := not_or.mp unspaced
  obtain ⟨reason, long⟩ := Classical.not_imp.mp unfit
  have buffsize := h.inv.setup
  obtain ⟨c, msg, run, built, effect, clean, fits, full⟩ :=
    @frameDatagram_tight client forceReconnect registered h
  obtain ⟨client', msg', run', finished⟩ := @sendUnreliable_finished c ⟨c.messages, c.control, msg⟩ []
    (tight forceReconnect registered).env _ built.nonempty (effect_first effect built fun _ hi => hi) (Listed.refl built.readable _) clean fits
  have prepared : prepareDatagram (tight forceReconnect registered) client =
      .ok ((), client', msg') := by
    refine Eq.trans (congrArg (· >>= _) run) ?_
    simp only [run', bind, Except.bind]
  obtain ⟨gone, listed⟩ := finished.listed
  have same : ∀ j ∈ client'.messages.list, client'.messages.bytes j = c.messages.bytes j :=
    finished.fewer.bytes
  have chan : client'.control.netchan = client.control.netchan := finished.netchan.trans built.netchan
  obtain ⟨r, written, result⟩ := finished.written h built built.netchan (built.state.trans h.state)
  have dropped : ∀ i ∈ firstReliable c.messages,
      1390 - msg'.cursize < (textOf c.messages i).length → r.control.state = .zombie := by
    intro i hi big
    obtain ⟨listed_i, -⟩ := reliable_of_first (show i ∈ firstReliable client'.messages from
      finished.first_eq ▸ hi)
    exact (result i hi).2 (textOf_eq (same i listed_i) ▸ big)
  -- a message that could be sent, and the first one, which is dropped
  have zombie : (∃ j, Small c j) ∧ r.control.state = .zombie := by
    cases effect with
    | cleared cleared registers full => exact absurd ⟨registers, full⟩ kept_open
    | same unchanged silent =>
      subst unchanged
      obtain ⟨j, small⟩ := reason.resolve_left silent
      obtain ⟨i, hi⟩ := exists_firstReliable small.1 small.2.1
      refine ⟨⟨j, small⟩, dropped i hi ?_⟩
      have := Nat.lt_of_not_le fun fits => long ⟨i, hi, fits⟩
      omega
    | appended index added registers room =>
      have text : textOf c.messages (nextIndex client.messages) = (soundMessage index).data :=
        textOf_of_bytes added.own
      have last : nextIndex client.messages ∈ c.messages.list := by
        rw [added.list]
        exact List.mem_append_right _ List.mem_cons_self
      refine ⟨⟨_, last, added.reliable, ?_⟩, ?_⟩
      · rw [text, length_soundMessage, built.netchan, buffsize]
        decide
      · cases hfirst : firstReliable client.messages with
        | some i =>
          have hi : i ∈ firstReliable client.messages := hfirst
          have own := effect_first_mem (.appended index added registers room) built kept_open hi
          have unchanged := added.others (reliable_of_first hi).1
          refine dropped i own ?_
          rw [textOf_eq unchanged]
          have := Nat.lt_of_not_le fun fits => long ⟨i, hi, fits⟩
          omega
        | none =>
          obtain ⟨i, hi⟩ := exists_firstReliable last added.reliable
          have longer : msg.cursize ≤ msg'.cursize := finished.longer
          rw [full registers.1 hfirst] at longer
          have positive := List.length_pos_iff.mpr (built.nonempty i (reliable_of_first hi).1)
          exact dropped i hi (by omega)
  obtain ⟨⟨j, small⟩, state⟩ := zombie
  have kept : j ∈ reliables client'.messages client'.messages.list := by
    rw [listed.reliables_eq]
    exact List.mem_filter.mpr ⟨small.1, small.2.1⟩
  have remains := (List.mem_filter.mp kept).1
  obtain ⟨r', run'', spawned, -⟩ := moves client' msg' prepared
    ⟨j, finished.small (by rw [chan, built.netchan]) small (same j remains)⟩
  cases run''.symm.trans written
  rw [state] at spawned
  cases spawned

/-- Whatever the frame and the unreliable messages are, the first reliable message is moved if one
could be: exactly if it could when the space for it was reserved. -/
theorem prepareDatagram_moves (h : Spawned client) (forceReconnect : Bool) (registered : Option Nat) :
    (∀ (σ : Type) (b : Building σ) (memory : σ) (client' : Client) (msg : Sizebuf),
      b.env.forceReconnect = forceReconnect → b.env.registered = registered → ¬Silent b.env client →
        prepareDatagram b client = .ok (memory, client', msg) → Moves client' msg) ↔
      Spaced forceReconnect registered client := by
  constructor
  · intro moves
    exact @spaced_of_moves client forceReconnect registered h fun client' msg run =>
      moves Unit (tight forceReconnect registered) () client' msg rfl rfl (not_silent_tight client) run
  · rintro spaced σ b memory client' msg rfl rfl - run
    have drafted := @frameDatagram_drafted σ client b h
    obtain ⟨⟨memory', d⟩, built_run, rest⟩ := exists_of_bind_eq_ok run
    rw [built_run] at drafted
    obtain ⟨c, gone, built, effect, draft⟩ := drafted
    obtain ⟨client'', msg', sent, finished⟩ := @sendUnreliable_finished c d gone b.env _ built.nonempty
      (effect_first effect built fun _ hi => hi) draft.listed draft.clean draft.fits
    simp only [sent, bind, Except.bind] at rest
    cases rest
    exact moves_of_spaced h spaced built effect draft finished

/-- The first client under water, with the messages that wait for him. -/
private def swimmer (messages : Messages) : Client where
  control :=
    { state := .spawned
      netchan :=
        { sock := .server, lastReceived := 0, lastSent := 0, qport := 7, protocol := 34
          message := { allowoverflow := true, maxsize := 1390, buffsize := 1390 } } }
  messages := messages

private def hello : List UInt8 := [svcPrint, 2, 104, 105, 0]

private def waiting : Messages := (msgEndWrite { allocated := true, list := [1] } 1 hello).setReliable 1 true

private theorem inv_waiting : Inv waiting :=
  inv_setReliable (@inv_msgEndWrite { allocated := true } (inv_begin true) rfl hello (by decide)) 1 true

private theorem spawned_waiting : Spawned (swimmer waiting) where
  inv := ⟨inv_waiting, rfl⟩
  ready := ⟨rfl, by decide, by decide, rfl, rfl⟩
  state := rfl
  allocated := rfl
  free := rfl
  wellformed := fun i hi _ => by
    obtain rfl : i = 1 := List.mem_singleton.mp hi
    exact ⟨svcPrint, [2, 104, 105, 0], rfl, fun _ => by decide⟩
  nonempty := fun i hi => by
    obtain rfl : i = 1 := List.mem_singleton.mp hi
    exact List.cons_ne_nil _ _

/-- The message that waits is moved, and the configstring of the sound stays behind it. -/
theorem prepareDatagram_moves_waiting :
    Spaced false (some 1) (swimmer waiting) ∧
      ∀ (σ : Type) (b : Building σ) (memory : σ) (client' : Client) (msg : Sizebuf),
        b.env.forceReconnect = false → b.env.registered = some 1 → ¬Silent b.env (swimmer waiting) →
          prepareDatagram b (swimmer waiting) = .ok (memory, client', msg) → Moves client' msg := by
  have spaced : Spaced false (some 1) (swimmer waiting) := .inr fun _ => ⟨1, rfl, by decide⟩
  exact ⟨spaced, (prepareDatagram_moves spawned_waiting false (some 1)).mpr spaced⟩

private theorem spawned_empty : Spawned (swimmer { allocated := true }) where
  inv := ⟨inv_begin true, rfl⟩
  ready := ⟨rfl, by decide, by decide, rfl, rfl⟩
  state := rfl
  allocated := rfl
  free := rfl
  wellformed := fun _ hi => (List.not_mem_nil hi).elim
  nonempty := fun _ hi => (List.not_mem_nil hi).elim

/-- The configstring of the sound costs a client its place, of which nothing was waiting. -/
theorem configstring_too_big :
    (svSendClientDatagram (tight false (some 1)).env (tight false (some 1)).write 1 ()
        (swimmer { allocated := true })).toOption.map (fun r => r.2.1.control.state) = some .zombie ∧
      ¬∀ (σ : Type) (b : Building σ) (memory : σ) (client' : Client) (msg : Sizebuf),
        b.env.forceReconnect = false → b.env.registered = some 1 →
          ¬Silent b.env (swimmer { allocated := true }) →
            prepareDatagram b (swimmer { allocated := true }) = .ok (memory, client', msg) →
              Moves client' msg := by
  refine ⟨by decide +kernel, fun moves => ?_⟩
  have spaced := @spaced_of_moves _ false (some 1) spawned_empty fun client' msg run =>
    moves Unit (tight false (some 1)) () client' msg rfl rfl (not_silent_tight _) run
  rcases spaced with ⟨-, full⟩ | fits
  · exact absurd (show maxMessagesPerList - 1 ≤ nextIndex { allocated := true } from full) (by decide)
  · obtain ⟨i, hi, -⟩ := fits (.inl ⟨rfl, rfl, by decide⟩)
    cases hi

end ReservedSpace
