import Kpded2.FrameDatagram
import Kpded2.PlayerDelta

/-!
# Reading a frame

A client keeps the frames of the last `UPDATE_BACKUP` numbers and reads a new one over that which
the message names. The state of the player and the entities are read as in `readPlayerstate` and
`readPacket`; what stands behind the frame is not looked at.
-/
namespace FrameReading
open ByteReader ClientDatagram DeltaEntity FrameDatagram MessageList PacketEntities PacketParse
open PlayerDelta (EFlags Group PlayerState gunVector nullPlayerstate readPlayerstate
  svWritePlayerstateToClient wire)
open Protocol (Build updateBackup)
open SizeBuf (longBytes)
open SortedEdits (patch)

/-- A frame as a client has it. -/
structure Snapshot where
  framenum : Nat
  ps : PlayerDelta.View
  entities : List DeltaEntity.View

/-- The text of the `centerview` workaround. -/
def skipStufftext (bytes : List UInt8) : List UInt8 :=
  if bytes.head? = some svcStufftext then (bytes.dropWhile (· ≠ 0)).drop 1 else bytes

/-- The count of suppressed frames and the area bits. -/
def readAreabits : Reader (List UInt8) := do
  let _ ← readByte
  let areabytes ← readByte
  readMany readByte areabytes.toNat

/-- The number of the frame and that of its base. -/
def readNumbers : Reader (Nat × Nat) := do
  let framenum ← readLong
  let lastframe ← readLong
  let _ ← readAreabits
  pure (framenum, lastframe)

def readHead : Reader (Nat × Nat) := do
  let c ← readByte
  if c = svcFrame then readNumbers else failure

/-- -1 -/
def noDelta : Nat := 2 ^ 32 - 1

def nullSnapshot : Snapshot := ⟨0, wire .kingpin nullPlayerstate, []⟩

/-- A client that does not have the base any more cannot read the frame. -/
def baseOf (frames : Nat → Option Snapshot) (lastframe : Nat) : Option Snapshot :=
  if lastframe = noDelta then some nullSnapshot
  else (frames (lastframe % updateBackup)).filter fun snapshot => snapshot.framenum = lastframe

def readFrame (zlib : Zlib) (lastlines : Baselines) (frames : Nat → Option Snapshot)
    (data : List UInt8) : Option Snapshot := do
  let bytes ← opened zlib data
  let ((framenum, lastframe), rest) ← readHead.run (skipStufftext bytes)
  let base ← baseOf frames lastframe
  let (ps, rest) ← (readPlayerstate .kingpin none base.ps).run rest
  let (commands, _) ← readPacket rest
  some ⟨framenum, ps, patch (reader lastlines) commands base.entities⟩

/-! ## The head of a frame -/

theorem skipStufftext_frame (bytes : List UInt8) :
    skipStufftext (svcFrame :: bytes) = svcFrame :: bytes :=
  if_neg fun same => absurd (Option.some.inj same) (by decide)

theorem skipStufftext_workaround (s : Setting) (base : Option ClientFrame) (bytes : List UInt8) :
    skipStufftext (workaround s base ++ svcFrame :: bytes) = svcFrame :: bytes := by
  unfold workaround
  split
  · exact rfl
  · exact skipStufftext_frame bytes

theorem reads_bytes (bytes : List UInt8) : Reads (readMany readByte bytes.length) bytes bytes := by
  have each := reads_readMany reads_readByte bytes
  rwa [List.map_id', List.flatMap_singleton'] at each

theorem reads_head {framenum lastframe : Nat} (frame : framenum < 2 ^ 32)
    (last : lastframe < 2 ^ 32) (surpressCount : UInt8)
    {areabits : List UInt8} (few : areabits.length < 2 ^ 8) :
    Reads readHead (svcFrame :: (longBytes framenum ++ longBytes lastframe ++
      [surpressCount, UInt8.ofNat areabits.length] ++ areabits)) (framenum, lastframe) := by
  have length : (UInt8.ofNat areabits.length).toNat = areabits.length := by
    rw [UInt8.toNat_ofNat', Nat.mod_eq_of_lt few]
  have bits := reads_bytes areabits
  rw [← length] at bits
  have area : Reads readAreabits ([surpressCount] ++ ([UInt8.ofNat areabits.length] ++ areabits))
      areabits :=
    (reads_readByte surpressCount).bind ((reads_readByte _).bind bits)
  have numbers : Reads readNumbers (longBytes framenum ++ (longBytes lastframe ++
      ([surpressCount] ++ ([UInt8.ofNat areabits.length] ++ areabits)))) (framenum, lastframe) :=
    (reads_longBytes frame).bind ((reads_longBytes last).bind (Reads.last area))
  have whole := (reads_readByte svcFrame).bind (f := fun c =>
    if c = svcFrame then readNumbers else failure) (by rw [if_pos rfl]; exact numbers)
  simpa only [readHead, List.append_assoc, List.singleton_append, List.cons_append,
    List.nil_append] using whole

/-! ## The player state -/

/-- A client's copy of a player state. The gun vectors are only sent with the gun frame. -/
def Copies (ps : PlayerState) (held : PlayerDelta.View) : Prop :=
  ∀ g, gunVector g = false → held g = wire .kingpin ps g

theorem copies_wire (ps : PlayerState) : Copies ps (wire .kingpin ps) := fun _ _ => rfl

/-- A group that is sent does not depend on what the client held of a gun vector. -/
theorem reads_group_over {old : PlayerState} (ps : PlayerState) {held : PlayerDelta.View}
    (copies : Copies old held) (g : Group) :
    Reads (PlayerDelta.readGroup .kingpin g (held g))
      (allBytes (PlayerDelta.groupFields .kingpin old ps g)) (wire .kingpin ps g) := by
  cases g with
  | plain p => exact PlayerDelta.reads_plain .kingpin ps p
  | weaponindex =>
    rw [copies .weaponindex (by decide)]
    exact PlayerDelta.reads_weaponindex .kingpin old ps
  | stats =>
    rw [copies .stats (by decide)]
    exact PlayerDelta.reads_stats old ps

/-- What a client makes of the message, over its own copy of the old state. -/
def readOver (client : PlayerDelta.Client) (old : Option PlayerState) (new : PlayerState)
    (held : PlayerDelta.View) : PlayerDelta.View := fun g =>
  let r := svWritePlayerstateToClient .kingpin client old new
  if PlayerDelta.sent r.flags g then wire .kingpin r.ps g else held g

theorem reads_playerstate_over (client : PlayerDelta.Client) (old : Option PlayerState)
    (new : PlayerState) {held : PlayerDelta.View}
    (copies : Copies (old.getD nullPlayerstate) held) :
    Reads (readPlayerstate .kingpin none held)
      (allBytes (svWritePlayerstateToClient .kingpin client old new).fields)
      (readOver client old new held) := by
  have plain : PlayerDelta.enhanced .kingpin client = false := rfl
  generalize hops : old.getD nullPlayerstate = ops at copies
  let r := svWritePlayerstateToClient .kingpin client old new
  have groups := reads_readFamily
    (p := fun g a => DeltaCoding.readOr (PlayerDelta.sent r.flags g)
      (PlayerDelta.readGroup .kingpin g a) a)
    (v := held) (show PlayerDelta.order.Nodup by decide)
    fun g _ => DeltaCoding.reads_readOr (PlayerDelta.sent r.flags g) (held g)
      (reads_group_over r.ps copies g)
  simp only [PlayerDelta.mem_order, if_true] at groups
  have known : (PlayerDelta.pflagsOf .kingpin (PlayerDelta.wordOf (r.flags.1.bits .kingpin)),
      (none : Option EFlags).getD (PlayerDelta.implied
        (PlayerDelta.pflagsOf .kingpin (PlayerDelta.wordOf (r.flags.1.bits .kingpin))))) =
      r.flags := by
    rw [PlayerDelta.pflagsOf_wordOf]
    exact Prod.ext rfl (PlayerDelta.implied_flags _ _ plain)
  have family : Reads (readFamily
      (fun g a => DeltaCoding.readOr (PlayerDelta.sent r.flags g)
        (PlayerDelta.readGroup .kingpin g a) a) PlayerDelta.order held)
      (allBytes (PlayerDelta.order.flatMap fun g =>
        if PlayerDelta.sent r.flags g then PlayerDelta.groupFields .kingpin ops r.ps g else []))
      (readOver client old new held) := by
    rw [allBytes, List.flatMap_assoc]
    exact groups
  have body := (PlayerDelta.reads_word .kingpin r.flags.1).bind (f := fun word => readFamily
    (fun g a => DeltaCoding.readOr (PlayerDelta.sent (PlayerDelta.pflagsOf .kingpin word,
      (none : Option EFlags).getD (PlayerDelta.implied (PlayerDelta.pflagsOf .kingpin word))) g)
        (PlayerDelta.readGroup .kingpin g a) a) PlayerDelta.order held)
    (by rw [known]; exact family)
  have fields : r.fields = .byte (PlayerDelta.svcPlayerinfo .kingpin) ::
      .short (PlayerDelta.wordOf (r.flags.1.bits .kingpin)) ::
        PlayerDelta.order.flatMap fun g =>
          if PlayerDelta.sent r.flags g then PlayerDelta.groupFields .kingpin ops r.ps g
          else [] := by
    simp only [r, svWritePlayerstateToClient, hops, plain, Bool.false_eq_true, if_false,
      List.singleton_append]
  change Reads _ (allBytes r.fields) _
  rw [fields, allBytes_cons, allBytes_cons]
  have opening : ((DeltaCoding.wireByte (PlayerDelta.svcPlayerinfo .kingpin)).toNat : Int) =
      PlayerDelta.svcPlayerinfo .kingpin := rfl
  refine (reads_readByte (DeltaCoding.wireByte (PlayerDelta.svcPlayerinfo .kingpin))).bind ?_
  rw [if_neg (not_not.mpr opening)]
  exact body

/-- The copy of the new state is as good as that of the old one. -/
theorem copies_readOver (client : PlayerDelta.Client) (old : Option PlayerState)
    (new : PlayerState) {held : PlayerDelta.View}
    (copies : Copies (old.getD nullPlayerstate) held) :
    Copies (svWritePlayerstateToClient .kingpin client old new).ps
      (readOver client old new held) := by
  intro g vector
  simp only [readOver]
  split
  · exact rfl
  · rename_i unsent
    rw [copies g vector]
    refine PlayerDelta.wire_of_not_sent rfl (Bool.eq_false_iff.mpr unsent) ?_
    rintro (⟨gun, -⟩ | ⟨nogun, -⟩ | ⟨noblend, -⟩)
    · rw [vector] at gun
      cases gun
    · cases nogun
    · cases noblend

/-! ## The whole frame -/

/-- What a client must have to read a frame of this base. -/
structure HasBase (frames : Nat → Option Snapshot) (lastframe : Nat) (old : Option PlayerState)
    (entities : List DeltaEntity.View) (base : Snapshot) : Prop where
  chosen : baseOf frames lastframe = some base
  ps : Copies (old.getD nullPlayerstate) base.ps
  entities : base.entities = entities

theorem hasBase_noDelta (frames : Nat → Option Snapshot) :
    HasBase frames noDelta none [] nullSnapshot where
  chosen := if_pos rfl
  ps := copies_wire nullPlayerstate
  entities := rfl

/-- The number that names the base. -/
def deltaNumber (s : Setting) (base : Option ClientFrame) : Nat :=
  if base.isSome then s.lastframe.toNat else noDelta

theorem skipStufftext_frameHead (s : Setting) (base : Option ClientFrame)
    (attempt surpressCount : Nat) (body : List UInt8) :
    skipStufftext (frameHead s base attempt surpressCount ++ body) =
      svcFrame :: (longBytes s.framenum ++ longBytes (deltaNumber s base) ++
        [UInt8.ofNat surpressCount, UInt8.ofNat s.areabits.length] ++ s.areabits) ++
        (s.playerstate attempt ++ body) := by
  rw [frameHead, List.append_assoc, List.cons_append, skipStufftext_workaround]
  simp only [deltaNumber, noDelta, List.append_assoc, List.cons_append]

/-- A client that has the base reads the frame that the server remembers. -/
theorem readFrame_of_hasBase {zlib : Zlib} {s : Setting} {sent : Entities}
    {base : Option ClientFrame} {surpressCount : Nat} {m : Memory} {data : List UInt8}
    (decoded : Decoded zlib s sent base surpressCount m data)
    {client : PlayerDelta.Client} {old : Option PlayerState} {new : PlayerState}
    (playerstate : ∀ attempt, s.playerstate attempt =
      allBytes (svWritePlayerstateToClient .kingpin client old new).fields)
    (framenum : s.framenum < 2 ^ 31) (acked : s.lastframe < s.framenum)
    (few : s.areabits.length < 2 ^ 8) {frames : Nat → Option Snapshot} {snapshot : Snapshot}
    (hasBase : HasBase frames (deltaNumber s base) old (clientCopy s sent base) snapshot) :
    readFrame zlib s.ctx.lastlines frames data =
      some ⟨s.framenum, readOver client old new snapshot.ps,
        (live s.ctx m.ents (newframe s) 0).map view⟩ := by
  obtain ⟨body, commands, rest, hopened, hread, hpatch⟩ := decoded
  have last : deltaNumber s base < 2 ^ 32 := by
    rw [deltaNumber]
    split
    · omega
    · decide
  have head := reads_head (Nat.lt_trans framenum (by decide)) last
    (UInt8.ofNat (if m.attempts = 1 then surpressCount else 0)) few
    (s.playerstate (m.attempts - 1) ++ body)
  have player := reads_playerstate_over client old new hasBase.ps body
  rw [playerstate] at head
  simp only [readFrame, hopened, Option.bind_eq_bind, Option.bind_some, skipStufftext_frameHead,
    head, hasBase.chosen, playerstate, player, hread, hasBase.entities, hpatch]

end FrameReading
