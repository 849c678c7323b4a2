import Kpded2.DeltaCoding
import Kpded2.StepRuns

/-!
# Chains of updates

What the reference decoder holds of one entity after many updates: the model parts
along a chain in which every update starts from the one before, and the position in
frames that start from any earlier frame.
-/
namespace DeltaChains
open ByteReader DeltaCoding DeltaEntity PacketParse Protocol SizeBuf SortedEdits

/-- Without bytes the decoder carries over what it has. -/
def receive (held : Known) (cmds : List (Command Delta)) : Known :=
  if cmds.isEmpty then { held with view := carryView held.view }
  else ((decode held).run (cmds.flatMap commandBytes)).elim held Prod.fst

def setNumber (k : Known) (number : Nat) : Known := { k with view := { k.view with number } }

/-- But for the number, which no bytes leave as it is. -/
theorem receive_eq {protocolVersion : Nat} {old new : EntityState}
    {force newentity deltaorigin : Bool} {cmds : List (Command Delta)}
    (h : svWriteDeltaEntity protocolVersion old (some new) force newentity deltaorigin =
      some cmds) (held : Known) :
    ∃ number, receive held cmds = setNumber (apply held
      (writeFields (deltaBits protocolVersion newentity deltaorigin old new) old new)) number := by
  have hwire := wire_svWriteDeltaEntity h
  simp only [svWriteDeltaEntity] at h
  split at h
  · cases h
  · split at h
    · cases h
    · split at h
      · rename_i hbits
        cases h
        refine ⟨held.view.number, ?_⟩
        have hparts : applyParts held.parts (writeFields noBits old new) = held.parts := by
          rw [applyParts_writeFields]
          rfl
        rw [eq_noBits_of_value hbits.1]
        simp only [apply, hparts]
        rfl
      · cases h
        have hread := decode_command (hwire _ List.mem_cons_self) held []
        rw [List.append_nil] at hread
        refine ⟨new.number, ?_⟩
        simp only [receive, List.isEmpty_cons, Bool.false_eq_true, if_false,
          List.flatMap_singleton, hread, Option.elim_some]
        rfl

/-! ## The baseline -/

/-- `null_entity_state`; the members of a part that are not sent are zero too. -/
def nullState (serverMembers : Nat) : EntityState where
  number := 0
  origin := ⟨0, 0, 0⟩
  angles := ⟨0, 0, 0⟩
  oldOrigin := ⟨0, 0, 0⟩
  modelindex := 0
  frame := 0
  skinnum := 0
  effects := 0
  renderfx := 0
  renderfx2 := 0
  solid := 0
  sound := 0
  event := 0
  numParts := 0
  modelParts := Vector.replicate 8
    ⟨0, 0, Vector.replicate 8 0, List.replicate serverMembers 0⟩
  modelLighting := ⟨Vector.replicate 3 0, 0, []⟩
  scale := 0

/-- The baseline that the client decodes from `svc_spawnbaseline`, which is written for
version 100; entities without a number have none. -/
def clientBaseline (serverMembers : Nat) (lastline : EntityState) : Known :=
  let null := nullState serverMembers
  if lastline.number = 0 then known null
  else
    ((svWriteDeltaEntity 100 null (some lastline) true true false).map (receive (known null))).getD
      (known null)

/-- A baseline as `SV_CreateBaseline` leaves it. -/
structure IsBaseline (serverMembers : Nat) (lastline : EntityState) : Prop where
  number_lt : lastline.number < maxEdicts .kingpin
  unused : lastline.number = 0 → lastline = nullState serverMembers

theorem clientBaseline_eq {serverMembers : Nat} {lastline : EntityState}
    (h : IsBaseline serverMembers lastline) :
    lastline = nullState serverMembers ∧
      clientBaseline serverMembers lastline = known (nullState serverMembers) ∨
    ∃ number, clientBaseline serverMembers lastline = setNumber (apply (known (nullState serverMembers))
      (writeFields (deltaBits 100 true false (nullState serverMembers) lastline)
        (nullState serverMembers) lastline)) number := by
  by_cases hnumber : lastline.number = 0
  · exact Or.inl ⟨h.unused hnumber, if_pos hnumber⟩
  · right
    have hlt := h.number_lt
    have hold : ¬ (nullState serverMembers).number ≥ maxEdicts .kingpin :=
      Nat.not_le.mpr (show 0 < maxEdicts .kingpin by decide)
    have hnew : ¬ (lastline.number ≥ maxEdicts .kingpin ∨ lastline.number < 1) := by omega
    have hwritten : ∃ cmds, svWriteDeltaEntity 100 (nullState serverMembers) (some lastline)
        true true false = some cmds := by
      simp only [svWriteDeltaEntity, if_neg hold, if_neg hnew]
      exact ⟨_, if_neg fun hnone => hnone.2 trivial⟩
    obtain ⟨cmds, hcmds⟩ := hwritten
    obtain ⟨number, hreceive⟩ := receive_eq hcmds (known (nullState serverMembers))
    refine ⟨number, ?_⟩
    simp only [clientBaseline, if_neg hnumber, hcmds, Option.map_some, Option.getD_some, hreceive]

/-! ## Model parts -/

def numPartsSent (s : EntityState) : Nat := (Written.byte s.numParts).value

/-- The decoder has the model parts of this state. -/
def HasParts (k : Known) (s : EntityState) : Prop :=
  k.numParts = numPartsSent s ∧ k.parts = partViews s.modelParts

/-- Only the model index of part 3 is sent of the parts. -/
def suppressed (protocolVersion : Nat) (s : EntityState) : Bool :=
  s.modelindex == 255 && 114 ≤ protocolVersion

theorem numParts_apply {protocolVersion : Nat} {newentity deltaorigin : Bool}
    {old new : EntityState} (held : Known) :
    (apply held (writeFields (deltaBits protocolVersion newentity deltaorigin old new)
      old new)).numParts =
      if !suppressed protocolVersion new && new.numParts != old.numParts then numPartsSent new
      else held.numParts := by
  have hwhole : (new.modelindex != 255 || decide (protocolVersion < 114)) =
      !suppressed protocolVersion new := by
    simp only [suppressed, Bool.not_and, ← Nat.not_lt, decide_not, Bool.not_not]
    rfl
  simp only [apply, writeFields, deltaBits, hwhole]
  cases !suppressed protocolVersion new && new.numParts != old.numParts <;> rfl

theorem parts_apply {protocolVersion : Nat} {newentity deltaorigin : Bool}
    {old new : EntityState} (held : Known) :
    (apply held (writeFields (deltaBits protocolVersion newentity deltaorigin old new)
      old new)).parts =
      if suppressed protocolVersion new then
        setPart3 held.parts (writeIf (new.part3.modelindex != old.part3.modelindex)
          (.byte new.part3.modelindex))
      else mergeParts old.modelParts new.modelParts held.parts := by
  have hwhole : (new.modelindex != 255 || decide (protocolVersion < 114)) =
      !suppressed protocolVersion new := by
    simp only [suppressed, Bool.not_and, ← Nat.not_lt, decide_not, Bool.not_not]
    rfl
  simp only [apply, applyParts_writeFields, deltaBits, hwhole]
  cases suppressed protocolVersion new with
  | true => rfl
  | false =>
    by_cases heq : new.modelParts = old.modelParts
    · have hsame : mergeParts old.modelParts old.modelParts held.parts = held.parts := by
        ext1 a ha
        simp only [mergeParts, Vector.getElem_ofFn, mergePart_self, Fin.getElem_fin]
      simp [heq, hsame, writeIf, setPart3]
    · simp [heq, writeIf, setPart3]

theorem hasParts_clientBaseline {serverMembers : Nat} {lastline : EntityState}
    (h : IsBaseline serverMembers lastline) :
    HasParts (clientBaseline serverMembers lastline) lastline := by
  rcases clientBaseline_eq h with ⟨hnull, hbase⟩ | ⟨number, hbase⟩
  · rw [hbase, hnull]
    exact ⟨rfl, rfl⟩
  · have hsent : suppressed 100 lastline = false := by simp [suppressed]
    rw [hbase]
    constructor
    · simp only [setNumber, numParts_apply, hsent, Bool.not_false, Bool.true_and]
      by_cases heq : lastline.numParts = (nullState serverMembers).numParts
      · rw [heq]
        simp only [bne_self_eq_false, Bool.false_eq_true, if_false, numPartsSent, heq]
        rfl
      · simp [heq]
    · simp only [setNumber, parts_apply, hsent, Bool.false_eq_true, if_false, known,
        mergeParts_known]

/-- `before` is the last state whose parts were not suppressed, or the baseline. -/
structure Chain where
  server : EntityState
  before : EntityState
  held : Known

structure Update where
  state : EntityState
  inRange : InRange state
  force : Bool
  newentity : Bool
  deltaorigin : Bool

/-- One update from the state of the one before. A fatal error would end the chain. -/
def step (protocolVersion : Nat) (c : Chain) (u : Update) : Chain :=
  match svWriteDeltaEntity protocolVersion c.server (some u.state) u.force u.newentity
    u.deltaorigin with
  | none => c
  | some cmds =>
    { server := u.state
      before := if suppressed protocolVersion u.state then c.before else u.state
      held := receive c.held cmds }

def start (serverMembers : Nat) (lastline : EntityState) : Chain :=
  ⟨lastline, lastline, clientBaseline serverMembers lastline⟩

/-- The decoder has the parts while the model index is not 255. -/
def InSync (c : Chain) : Prop := c.server.modelindex ≠ 255 → HasParts c.held c.server

/-- A member that is not what it was before the parts were suppressed changes again in
this update. The model index of part 3 has been sent all the time. -/
structure NothingOwed (before old new : EntityState) : Prop where
  numParts : new.numParts = old.numParts → numPartsSent before = numPartsSent old
  modelindex : ∀ a : Fin 8, a ≠ 3 →
    new.modelParts[a].modelindex = old.modelParts[a].modelindex →
    wireByte before.modelParts[a].modelindex = wireByte old.modelParts[a].modelindex
  invisibleObjects : ∀ a : Fin 8,
    new.modelParts[a].invisibleObjects = old.modelParts[a].invisibleObjects →
    before.modelParts[a].invisibleObjects = old.modelParts[a].invisibleObjects
  skinnum : ∀ a k : Fin 8, new.modelParts[a].skinnum[k] = old.modelParts[a].skinnum[k] →
    before.modelParts[a].skinnum[k] = old.modelParts[a].skinnum[k]

/-- An update that ends a suppression owes the client nothing. -/
def PaysUp (protocolVersion : Nat) (c : Chain) (u : Update) : Prop :=
  suppressed protocolVersion c.server = true → u.state.modelindex ≠ 255 →
    NothingOwed c.before c.server u.state

/-- What the decoder has of the parts while they are suppressed. -/
def heldParts (before s : EntityState) : Vector PartView maxModelParts :=
  setPart3 (partViews before.modelParts) (some (.byte s.part3.modelindex))

theorem setPart3_setPart3 (parts : Vector PartView maxModelParts) (w w' : Written) :
    setPart3 (setPart3 parts (some w)) (some w') = setPart3 parts (some w') := by
  simp [setPart3]

theorem heldParts_getElem (before s : EntityState) (a : Fin 8) :
    (heldParts before s)[a] =
      if a = 3 then
        { partView before.modelParts[a] with
          modelindex := wireByte s.modelParts[a].modelindex }
      else partView before.modelParts[a] := by
  by_cases ha : a = 3
  · subst ha
    simp only [heldParts, setPart3, Fin.getElem_fin, partViews, if_true]
    simp
    rfl
  · have hne : ¬ 3 = a.val := fun h => ha (Fin.ext h.symm)
    simp only [heldParts, setPart3, Fin.getElem_fin, partViews, if_neg ha]
    simp [hne]

theorem heldParts_self (s : EntityState) : heldParts s s = partViews s.modelParts := by
  ext1 a ha
  have hget := heldParts_getElem s s ⟨a, ha⟩
  simp only [Fin.getElem_fin] at hget
  rw [hget]
  simp only [partViews, Vector.getElem_map]
  split <;> rfl

theorem mergePart_eq_iff (old new : ModelPart) (held : PartView) :
    mergePart old new held = partView new ↔
      (new.modelindex = old.modelindex → held.modelindex = wireByte old.modelindex) ∧
      (new.invisibleObjects = old.invisibleObjects → held.invisibleObjects = old.invisibleObjects) ∧
      ∀ k : Fin 8, new.skinnum[k] = old.skinnum[k] → held.skinnum[k] = old.skinnum[k] := by
  have hskinnum : mergeSkins old.skinnum new.skinnum held.skinnum = new.skinnum ↔
      ∀ k : Fin 8, new.skinnum[k] = old.skinnum[k] → held.skinnum[k] = old.skinnum[k] := by
    constructor
    · intro h k
      have hk := congrArg (fun v : Vector UInt8 8 => v[k]) h
      simp only [mergeSkins, Fin.getElem_fin, Vector.getElem_ofFn] at hk ⊢
      exact ite_bne_eq_iff (f := id) |>.mp hk
    · intro h
      ext1 k hk
      simp only [mergeSkins, Fin.getElem_fin, Vector.getElem_ofFn]
      exact ite_bne_eq_iff (f := id) |>.mpr (h ⟨k, hk⟩)
  simp only [mergePart, partView, PartView.mk.injEq, hskinnum]
  refine and_congr ite_bne_eq_iff (and_congr ?_ Iff.rfl)
  exact ite_bne_eq_iff (f := id)

theorem mergeParts_eq_iff (old new : Vector ModelPart maxModelParts)
    (held : Vector PartView maxModelParts) :
    mergeParts old new held = partViews new ↔
      ∀ a : Fin 8, mergePart old[a] new[a] held[a] = partView new[a] := by
  constructor
  · intro h a
    have ha := congrArg (fun v : Vector PartView 8 => v[a]) h
    simpa [mergeParts, partViews] using ha
  · intro h
    ext1 a ha
    have ha' := h ⟨a, ha⟩
    simpa [mergeParts, partViews] using ha'

/-- The members that the client lacks are those that were owed. -/
theorem hasParts_iff_nothingOwed {before old new : EntityState} {numParts : Nat}
    (hnumParts : numParts = if new.numParts != old.numParts then numPartsSent new
      else numPartsSent before) :
    (numParts = numPartsSent new ∧
      mergeParts old.modelParts new.modelParts (heldParts before old) =
        partViews new.modelParts) ↔ NothingOwed before old new := by
  have hcount : numParts = numPartsSent new ↔
      (new.numParts = old.numParts → numPartsSent before = numPartsSent old) := by
    rw [hnumParts]
    exact ite_bne_eq_iff (f := fun n => (Written.byte n).value)
  rw [hcount, mergeParts_eq_iff]
  simp only [mergePart_eq_iff, heldParts_getElem]
  constructor
  · rintro ⟨hnum, hparts⟩
    refine ⟨hnum, ?_, ?_, ?_⟩
    · intro a ha
      simpa [ha, partView] using (hparts a).1
    · intro a
      have ha := (hparts a).2.1
      split at ha <;> exact ha
    · intro a k
      have ha := (hparts a).2.2 k
      split at ha <;> exact ha
  · intro h
    refine ⟨h.numParts, fun a => ?_⟩
    by_cases ha : a = 3
    · simp only [if_pos ha]
      exact ⟨fun _ => trivial, h.invisibleObjects a, h.skinnum a⟩
    · simp only [if_neg ha]
      exact ⟨h.modelindex a ha, h.invisibleObjects a, h.skinnum a⟩

/-- What the decoder has, in terms of the server's states. -/
structure Tracks (protocolVersion : Nat) (c : Chain) : Prop where
  number_lt : c.server.number < maxEdicts .kingpin
  sent : suppressed protocolVersion c.server = false → HasParts c.held c.server
  unsent : suppressed protocolVersion c.server = true →
    c.held.numParts = numPartsSent c.before ∧ c.held.parts = heldParts c.before c.server
  before_eq : suppressed protocolVersion c.server = false → c.before = c.server

/-- While nothing is suppressed the last state sent is the current one. -/
theorem Tracks.held_eq {protocolVersion : Nat} {c : Chain} (h : Tracks protocolVersion c) :
    c.held.numParts = numPartsSent c.before ∧ c.held.parts = heldParts c.before c.server := by
  cases hwas : suppressed protocolVersion c.server with
  | true => exact h.unsent hwas
  | false =>
    obtain ⟨hnum, hparts⟩ := h.sent hwas
    rw [h.before_eq hwas, heldParts_self]
    exact ⟨hnum, hparts⟩

theorem setPart3_heldParts (before old new : EntityState) :
    setPart3 (heldParts before old) (writeIf (new.part3.modelindex != old.part3.modelindex)
      (.byte new.part3.modelindex)) = heldParts before new := by
  by_cases heq : new.part3.modelindex = old.part3.modelindex
  · simp [heq, writeIf, setPart3, heldParts]
  · simp only [bne_iff_ne, ne_eq, heq, not_false_eq_true, writeIf, if_true, heldParts]
    exact setPart3_setPart3 _ _ _

/-- What an update does to the server and to the client. -/
theorem step_cases (protocolVersion : Nat) {c : Chain} (u : Update)
    (hold : c.server.number < maxEdicts .kingpin) :
    ∃ number, step protocolVersion c u =
      { server := u.state
        before := if suppressed protocolVersion u.state then c.before else u.state
        held := setNumber (apply c.held (writeFields
          (deltaBits protocolVersion u.newentity u.deltaorigin c.server u.state)
          c.server u.state)) number } := by
  obtain ⟨hpos, hlt⟩ := u.inRange
  have hwritten : ∃ cmds, svWriteDeltaEntity protocolVersion c.server (some u.state) u.force
      u.newentity u.deltaorigin = some cmds := by
    simp only [svWriteDeltaEntity, if_neg (Nat.not_le.mpr hold)]
    rw [if_neg (by omega)]
    split
    · exact ⟨_, rfl⟩
    · exact ⟨_, rfl⟩
  obtain ⟨cmds, hcmds⟩ := hwritten
  obtain ⟨number, hreceive⟩ := receive_eq hcmds c.held
  refine ⟨number, ?_⟩
  simp only [step, hcmds, hreceive]

/-- An update that sends whole parts brings the decoder up to date, or owes something
from a suppression. -/
theorem hasParts_step {protocolVersion : Nat} {c : Chain} {u : Update}
    (h : Tracks protocolVersion c) (hsent : suppressed protocolVersion u.state = false) :
    HasParts (step protocolVersion c u).held u.state ↔
      (suppressed protocolVersion c.server = true → NothingOwed c.before c.server u.state) := by
  obtain ⟨number, hstep⟩ := step_cases protocolVersion u h.number_lt
  rw [hstep]
  simp only [HasParts, setNumber, numParts_apply, parts_apply, hsent, Bool.not_false,
    Bool.true_and, Bool.false_eq_true, if_false]
  cases hwas : suppressed protocolVersion c.server with
  | true =>
    obtain ⟨hnum, hparts⟩ := h.unsent hwas
    rw [hparts, hnum]
    simp only [true_implies]
    exact hasParts_iff_nothingOwed rfl
  | false =>
    obtain ⟨hnum, hparts⟩ := h.sent hwas
    simp only [Bool.false_eq_true, false_implies, iff_true]
    rw [hnum, hparts, mergeParts_known]
    refine ⟨?_, rfl⟩
    exact (ite_bne_eq_iff (f := fun n => (Written.byte n).value)).mpr fun _ => rfl

/-- An update leaves the two in step exactly when it owes the client nothing. -/
theorem inSync_step_iff {protocolVersion : Nat} (c : Chain) (u : Update)
    (h : Tracks protocolVersion c) :
    InSync (step protocolVersion c u) ↔ PaysUp protocolVersion c u := by
  obtain ⟨number, hstep⟩ := step_cases protocolVersion u h.number_lt
  have hserver : (step protocolVersion c u).server = u.state := by rw [hstep]
  simp only [InSync, hserver, PaysUp]
  by_cases hindex : u.state.modelindex = 255
  · simp [hindex]
  · have hsent : suppressed protocolVersion u.state = false := by simp [suppressed, hindex]
    rw [hasParts_step h hsent]
    simp [hindex]

/-- The decoder goes on to have what was sent. -/
theorem tracks_step {protocolVersion : Nat} (c : Chain) (u : Update)
    (h : Tracks protocolVersion c) (hsync : InSync (step protocolVersion c u)) :
    Tracks protocolVersion (step protocolVersion c u) := by
  have hpays := (inSync_step_iff c u h).mp hsync
  obtain ⟨number, hstep⟩ := step_cases protocolVersion u h.number_lt
  have hserver : (step protocolVersion c u).server = u.state := by rw [hstep]
  refine ⟨?_, ?_, ?_, ?_⟩
  · rw [hserver]
    exact u.inRange.2
  · rw [hserver]
    intro hsent
    refine (hasParts_step h hsent).mpr fun hwas => ?_
    refine hpays hwas fun hindex => ?_
    simp only [suppressed, Bool.and_eq_true, decide_eq_true_eq] at hwas
    simp [suppressed, hindex, hwas.2] at hsent
  · rw [hserver]
    intro hunsent
    obtain ⟨hnum, hparts⟩ := h.held_eq
    rw [hstep]
    simp only [setNumber, numParts_apply, parts_apply, hunsent, Bool.not_true, Bool.false_and,
      Bool.false_eq_true, if_false, if_true, hnum, hparts, setPart3_heldParts]
    exact ⟨trivial, trivial⟩
  · rw [hserver]
    intro hsent
    rw [hstep]
    simp [hsent]

theorem tracks_start {protocolVersion serverMembers : Nat} {lastline : EntityState}
    (h : IsBaseline serverMembers lastline) :
    Tracks protocolVersion (start serverMembers lastline) where
  number_lt := h.number_lt
  sent := fun _ => hasParts_clientBaseline h
  unsent := fun _ => by
    obtain ⟨hnum, hparts⟩ := hasParts_clientBaseline h
    exact ⟨hnum, hparts.trans (heldParts_self lastline).symm⟩
  before_eq := fun _ => rfl

/-- The decoder has the parts at every step at which the model index is not 255, if and
only if each update that ends a suppression pays what is owed. -/
theorem chain_inSync_iff {serverMembers : Nat} {lastline : EntityState}
    (baseline : IsBaseline serverMembers lastline) (protocolVersion : Nat)
    (updates : List Update) :
    StepRuns.AllSteps (step protocolVersion) (fun c u => InSync (step protocolVersion c u))
        (start serverMembers lastline) updates ↔
      StepRuns.AllSteps (step protocolVersion) (PaysUp protocolVersion)
        (start serverMembers lastline) updates :=
  StepRuns.allSteps_iff inSync_step_iff tracks_step (tracks_start baseline) updates

/-- Entity 1 with this model and so many parts. -/
private def walker (modelindex numParts : Int) : EntityState :=
  { nullState 0 with number := 1, modelindex, numParts }

private def walks (modelindex numParts : Int) : Update where
  state := walker modelindex numParts
  inRange := ⟨Nat.zero_lt_one, show 1 < maxEdicts .kingpin by decide⟩
  force := false
  newentity := false
  deltaorigin := false

private theorem isBaseline_walker (modelindex numParts : Int) :
    IsBaseline 0 (walker modelindex numParts) :=
  ⟨show 1 < maxEdicts .kingpin by decide, fun h => nomatch (show 1 = 0 from h)⟩

theorem chain_inSync_iff_example :
    StepRuns.AllSteps (step 114) (fun c u => InSync (step 114 c u)) (start 0 (walker 1 1))
      [walks 255 1, walks 2 3] := by
  refine (chain_inSync_iff (isBaseline_walker 1 1) 114 _).mpr ⟨?_, ?_, trivial⟩
  · exact fun hwas => absurd hwas (by decide +kernel)
  · intro _ _
    obtain ⟨number, hstep⟩ := step_cases 114 (walks 255 1)
      (show (start 0 (walker 1 1)).server.number < maxEdicts .kingpin by decide)
    rw [hstep]
    exact ⟨fun _ => rfl, fun _ _ _ => rfl, fun _ _ => rfl, fun _ _ _ => rfl⟩

/-- A number of parts that changes during a suppression is never sent. -/
theorem parts_stay_stale :
    ¬ StepRuns.AllSteps (step 114) (fun c u => InSync (step 114 c u)) (start 0 (walker 1 1))
      [walks 255 2, walks 1 2] := by
  rintro ⟨_, hsync, _⟩
  have hafter : ¬ InSync (step 114 (step 114 (start 0 (walker 1 1)) (walks 255 2)) (walks 1 2)) := by
    intro h
    have hstale : (step 114 (step 114 (start 0 (walker 1 1)) (walks 255 2))
          (walks 1 2)).held.numParts ≠
        numPartsSent (step 114 (step 114 (start 0 (walker 1 1)) (walks 255 2))
          (walks 1 2)).server := by
      decide +kernel
    exact hstale (h (by decide +kernel)).1
  exact hafter hsync

/-! ## Positions -/

structure Position where
  origin1 : Nat
  origin2 : Nat
  origin3 : Nat
  angle1 : Nat
  angle2 : Nat
  angle3 : Nat
  deriving DecidableEq

def position (k : Known) : Position :=
  ⟨k.view.origin1, k.view.origin2, k.view.origin3, k.view.angle1, k.view.angle2, k.view.angle3⟩

/-- Eighths of a unit, truncated to 16 bits. -/
def quantisedCoord (f : Rat) : Nat := (trunc (f * 8) % 2 ^ 16).toNat

/-- Parts of 256 of a turn, truncated and masked to 8 bits. -/
def quantisedAngle (f : Rat) : Nat := (trunc (f * 256 / 360) % 2 ^ 8).toNat

def quantised (s : EntityState) : Position :=
  ⟨quantisedCoord s.origin.x, quantisedCoord s.origin.y, quantisedCoord s.origin.z,
    quantisedAngle s.angles.x, quantisedAngle s.angles.y, quantisedAngle s.angles.z⟩

theorem value_msgWriteAngle (f : Rat) : (msgWriteAngle f).value = quantisedAngle f := by
  have hmod : trunc (f * 256 / 360) % 256 % 2 ^ 8 = trunc (f * 256 / 360) % 2 ^ 8 := by omega
  rw [msgWriteAngle, Written.value, hmod, quantisedAngle]

/-- An update that skips what has not changed on the wire leaves nothing behind. -/
theorem position_apply {protocolVersion : Nat} {newentity : Bool} {old new : EntityState}
    {held : Known} (h : position held = quantised old) (number : Nat) :
    position (setNumber (apply held (writeFields
      (deltaBits protocolVersion newentity false old new) old new)) number) = quantised new := by
  simp only [position, quantised, Position.mk.injEq] at h
  obtain ⟨h1, h2, h3, h4, h5, h6⟩ := h
  have hcoord : ∀ x y : Rat, received (writeIf (!floatByteCompare x y) (msgWriteCoord x))
      (quantisedCoord y) = quantisedCoord x := received_coord
  have hangle : ∀ x y : Rat, received (writeIf (!floatAngleCompare x y) (msgWriteAngle x))
      (quantisedAngle y) = quantisedAngle x := by
    intro x y
    rw [← value_msgWriteAngle, ← value_msgWriteAngle]
    exact received_angle x y
  simp only [position, quantised, setNumber, apply, applyDelta, writeFields, deltaBits,
    Bool.false_and, Bool.false_eq_true, if_false, h1, h2, h3, h4, h5, h6, hcoord, hangle]

theorem position_receive {protocolVersion : Nat} {old new : EntityState} {force newentity : Bool}
    {cmds : List (Command Delta)}
    (h : svWriteDeltaEntity protocolVersion old (some new) force newentity false = some cmds)
    {held : Known} (hheld : position held = quantised old) :
    position (receive held cmds) = quantised new := by
  obtain ⟨number, hreceive⟩ := receive_eq h held
  rw [hreceive]
  exact position_apply hheld number

theorem position_known (s : EntityState) : position (known s) = quantised s := by
  simp only [position, known, exactView, view, quantised, value_msgWriteAngle]
  rfl

/-- The client's baseline and the one that the server starts from are in the same place. -/
theorem position_clientBaseline {serverMembers : Nat} {lastline : EntityState}
    (h : IsBaseline serverMembers lastline) :
    position (clientBaseline serverMembers lastline) = quantised lastline := by
  rcases clientBaseline_eq h with ⟨hnull, hbase⟩ | ⟨number, hbase⟩
  · rw [hbase, hnull]
    exact position_known _
  · rw [hbase]
    exact position_apply (position_known _) number

/-- The entity in one frame, and what a client that receives the frame has of it. -/
structure Frame where
  state : Option EntityState
  held : Option Known

/-- A new frame: the earlier one it starts from, if any, and the entity, if it is in it. -/
structure Send where
  base : Option Nat
  state : Option EntityState

/-- The branch of `SV_EmitPacketEntities` that deals with the entity. -/
def emit (protocolVersion : Nat) (lastline : EntityState) (old new : Option EntityState) :
    Option (List (Command Delta)) :=
  match old, new with
  | none, none => some []
  | some old, none => svWriteDeltaEntity protocolVersion old none true false false
  | none, some new => svWriteDeltaEntity protocolVersion lastline (some new) true true false
  | some old, some new => svWriteDeltaEntity protocolVersion old (some new) false false false

/-- An entity without an update is carried over, and one that the old frame lacks
starts from the baseline. -/
def update (baseline : Known) (held : Option Known) (cmds : List (Command Delta)) : Option Known :=
  match cmds with
  | [] => held.map (receive · [])
  | .remove _ :: _ => none
  | cmds => some (receive (held.getD baseline) cmds)

/-- Frames are in the order in which they are sent. -/
def send (protocolVersion serverMembers : Nat) (lastline : EntityState) (frames : List Frame)
    (s : Send) : List Frame :=
  let base := s.base.bind (frames[·]?)
  match emit protocolVersion lastline (base.bind Frame.state) s.state with
  | none => frames
  | some cmds =>
    let baseline := clientBaseline serverMembers lastline
    frames ++ [⟨s.state, update baseline (base.bind Frame.held) cmds⟩]

/-- The decoder has the entity if it is in the frame, and in its place. -/
structure Exact (f : Frame) : Prop where
  present : f.held.isSome = f.state.isSome
  place : ∀ s k, f.state = some s → f.held = some k → position k = quantised s

/-- What is written of an entity is nothing, or an update. -/
theorem written_cases {protocolVersion : Nat} {old new : EntityState}
    {force newentity deltaorigin : Bool} {cmds : List (Command Delta)}
    (h : svWriteDeltaEntity protocolVersion old (some new) force newentity deltaorigin =
      some cmds) :
    (cmds = [] ∧ force = false) ∨ ∃ delta, cmds = [.update new.number delta] := by
  simp only [svWriteDeltaEntity] at h
  split at h
  · cases h
  · split at h
    · cases h
    · split at h
      · rename_i hbits
        cases h
        exact Or.inl ⟨rfl, by simpa using hbits.2⟩
      · cases h
        exact Or.inr ⟨_, rfl⟩

theorem exact_none : Exact ⟨none, none⟩ := by
  refine ⟨rfl, ?_⟩
  rintro _ _ ⟨⟩

theorem exact_some {s : EntityState} {k : Known} (h : position k = quantised s) :
    Exact ⟨some s, some k⟩ := by
  refine ⟨rfl, ?_⟩
  rintro _ _ ⟨⟩ ⟨⟩
  exact h

/-- A delta that is emitted carries the position exactly. -/
theorem exact_emit {protocolVersion : Nat} {lastline : EntityState} {baseline : Known}
    {oldState : Option EntityState} {oldHeld : Option Known} {new : Option EntityState}
    {cmds : List (Command Delta)} (hold : Exact ⟨oldState, oldHeld⟩)
    (hbaseline : position baseline = quantised lastline)
    (h : emit protocolVersion lastline oldState new = some cmds) :
    Exact ⟨new, update baseline oldHeld cmds⟩ := by
  have hpresent := hold.present
  cases oldState with
  | none =>
    obtain rfl : oldHeld = none := by simpa using hpresent
    cases new with
    | none =>
      obtain rfl : [] = cmds := Option.some.inj h
      exact exact_none
    | some new =>
      have hwritten : svWriteDeltaEntity protocolVersion lastline (some new) true true false =
          some cmds := h
      have hplace := position_receive hwritten hbaseline
      rcases written_cases hwritten with ⟨_, hforce⟩ | ⟨delta, hdelta⟩
      · cases hforce
      · have hupdate : update baseline none cmds = some (receive baseline cmds) := by
          rw [hdelta]
          rfl
        rw [hupdate]
        exact exact_some hplace
  | some old =>
    obtain ⟨held, rfl⟩ : ∃ held, oldHeld = some held := by
      simpa [Option.isSome_iff_exists] using hpresent
    cases new with
    | none =>
      obtain rfl : [.remove old.number] = cmds := Option.some.inj h
      exact exact_none
    | some new =>
      have hwritten : svWriteDeltaEntity protocolVersion old (some new) false false false =
          some cmds := h
      have hplace := position_receive hwritten (hold.place old held rfl rfl)
      have hupdate : update baseline (some held) cmds = some (receive held cmds) := by
        rcases written_cases hwritten with ⟨hnone, _⟩ | ⟨delta, hdelta⟩
        · rw [hnone]
          rfl
        · rw [hdelta]
          rfl
      rw [hupdate]
      exact exact_some hplace

theorem exact_send {protocolVersion serverMembers : Nat} {lastline : EntityState}
    (baseline : IsBaseline serverMembers lastline) (frames : List Frame) (s : Send)
    (h : ∀ f ∈ frames, Exact f) :
    ∀ f ∈ send protocolVersion serverMembers lastline frames s, Exact f := by
  have hbase : Exact ⟨(s.base.bind (frames[·]?)).bind Frame.state,
      (s.base.bind (frames[·]?)).bind Frame.held⟩ := by
    cases hfound : s.base.bind (frames[·]?) with
    | none => exact exact_none
    | some f =>
      obtain ⟨i, _, hi⟩ := Option.bind_eq_some_iff.mp hfound
      exact h f (List.mem_of_getElem? hi)
  simp only [send]
  split
  · exact h
  · rename_i cmds hemit
    intro f hf
    rcases List.mem_append.mp hf with hf | hf
    · exact h f hf
    · rw [List.mem_singleton.mp hf]
      exact exact_emit hbase (position_clientBaseline baseline) hemit

/-- The client's baseline is in the place of the server's, and in every frame of every
chain the decoder has the entity in its place: nothing that was skipped adds up. -/
theorem positions_exact {serverMembers : Nat} {lastline : EntityState}
    (baseline : IsBaseline serverMembers lastline) (protocolVersion : Nat) (sends : List Send) :
    position (clientBaseline serverMembers lastline) = quantised lastline ∧
    ∀ f ∈ StepRuns.run (send protocolVersion serverMembers lastline) [] sends, Exact f := by
  refine ⟨position_clientBaseline baseline, ?_⟩
  have hall : StepRuns.AllSteps (send protocolVersion serverMembers lastline)
      (fun _ _ => True) [] sends :=
    StepRuns.allSteps_invariant (fun _ _ _ => trivial) (fun _ _ (_ : True) => trivial) trivial sends
  have hnone : ∀ f ∈ ([] : List Frame), Exact f := fun _ hf => absurd hf List.not_mem_nil
  exact StepRuns.invariant_run (fun frames s h _ => exact_send baseline frames s h) hnone hall

private def standing (x : Rat) : EntityState := { walker 1 1 with origin := ⟨x, 0, 0⟩ }

/-- Small steps below zero, the last of them from the first frame. -/
theorem positions_exact_example :
    position (clientBaseline 0 (walker 1 1)) = quantised (walker 1 1) ∧
    ∀ f ∈ StepRuns.run (send 114 0 (walker 1 1)) []
      [⟨none, some (standing (-1 / 10))⟩, ⟨some 0, some (standing (-1 / 5))⟩,
        ⟨some 0, some (standing (-1 / 3))⟩], Exact f :=
  positions_exact (isBaseline_walker 1 1) 114 _

end DeltaChains
