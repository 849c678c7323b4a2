import Mathlib.Logic.Function.Basic
import Mathlib.Tactic.Ring.Basic
import Kpded2.Protocol
import Kpded2.StepRuns

/-!
# The ring of client entities over many frames

`svs.client_entities` is shared by the frames of all clients. Building a frame
takes the next slots of the ring, and may give some back after squeezing the
frame together. Every slot remembers which entity of which frame was last
written to it; the server itself never reads that. `nextClientEntities` counts
without wrapping, and is reduced to 32 bits where it selects a slot; `high` is
the highest value it has had.

Messages are left out here: they only take entities out of the frame they are
written for, before it is sent.
-/
namespace EntityRing
open Protocol StepRuns

structure FrameRecord where
  framenum : Nat
  firstEntity : Nat
  numEntities : Nat
  deriving DecidableEq

structure Stamp where
  client : Nat
  framenum : Nat
  index : Nat
  deriving DecidableEq

structure Client where
  frames : Nat → Option FrameRecord := fun _ => none
  lastframe : Int := -1
  demofile : Bool := false
  demostart : Nat := 0
  sent : List Nat := []

structure Server where
  maxclients : Nat
  numClientEntities : Nat
  framenum : Nat
  nextClientEntities : Nat := 0
  high : Nat := 0
  owner : Nat → Option Stamp := fun _ => none
  clients : Nat → Client := fun _ => {}

/-- `SV_InitGame`, with the number of the first frame. -/
def svInitGame (maxclients framenum : Nat) : Server where
  maxclients := maxclients
  numClientEntities := maxclients * updateBackup * maxPacketEntities
  framenum := framenum

def slot (numClientEntities index : Nat) : Nat := index % 2 ^ 32 % numClientEntities

/-- The entities of a frame, written one after the other. -/
def writeSlots (num client framenum first : Nat) :
    Nat → (Nat → Option Stamp) → Nat → Option Stamp
  | 0, owner => owner
  | count + 1, owner =>
    Function.update (writeSlots num client framenum first count owner)
      (slot num (first + count)) (some ⟨client, framenum, count⟩)

/-- `++frame->num_entities == 128` ends the loop. -/
def maxFrameEntities : Nat := 128

/-- `SV_BuildClientFrame`: `entities` are put into the ring, and the `kept` of them
that are not removed again are moved together. A client gets one frame each time. -/
def svBuildClientFrame (s : Server) (c entities kept : Nat) : Server :=
  let entities := min entities maxFrameEntities
  let kept := min kept entities
  let client := s.clients c
  let first := s.nextClientEntities
  if (client.frames (s.framenum % updateBackup)).map FrameRecord.framenum = some s.framenum then s
  else
    { s with
      nextClientEntities := first + kept
      high := max s.high (first + entities)
      owner := writeSlots s.numClientEntities c s.framenum first kept
        (writeSlots s.numClientEntities c s.framenum first entities s.owner)
      clients := Function.update s.clients c { client with
        frames := Function.update client.frames (s.framenum % updateBackup)
          (some ⟨s.framenum, first, kept⟩) } }

/-- The number of the frame that `SV_WriteFrameToClient` takes as delta base. -/
def deltaBase (s : Server) (c : Nat) : Option Nat :=
  let client := s.clients c
  if client.demofile ∧ client.lastframe ≥ 0 ∧ client.demostart > client.lastframe.toNat then none
  else if client.lastframe ≤ 0 then none
  else if (s.framenum : Int) - client.lastframe ≥ (updateBackup : Int) - 2 then none
  else some client.lastframe.toNat

inductive Op where
  | frame
  | connect (c : Nat)
  | build (c entities kept : Nat)
  | write (c : Nat)
  | transmit (c : Nat)
  | ack (c : Nat) (lastframe : Int)
  | record (c start : Nat)

def updateClient (s : Server) (c : Nat) (client : Client) : Server :=
  { s with clients := Function.update s.clients c client }

def step (s : Server) : Op → Server
  | .frame => { s with framenum := s.framenum + 1 }
  | .connect c => updateClient s c {}
  | .build c entities kept =>
    if c < s.maxclients then svBuildClientFrame s c entities kept else s
  | .write c =>
    let client := s.clients c
    if client.demofile ∧ client.lastframe ≥ 0 ∧ client.demostart > client.lastframe.toNat then
      updateClient s c { client with demostart := min client.demostart s.framenum }
    else s
  | .transmit c =>
    let client := s.clients c
    if (client.frames (s.framenum % updateBackup)).map FrameRecord.framenum = some s.framenum then
      updateClient s c { client with sent := s.framenum :: client.sent }
    else s
  | .ack c lastframe => updateClient s c { s.clients c with lastframe := lastframe }
  | .record c start =>
    updateClient s c { s.clients c with demofile := true, demostart := start }

/-- The slots of a frame still hold its entities. -/
def Intact (s : Server) (c : Nat) (r : FrameRecord) : Prop :=
  ∀ j < r.numEntities,
    s.owner (slot s.numClientEntities (r.firstEntity + j)) = some ⟨c, r.framenum, j⟩

/-- A delta base that the client was really sent is the frame of that number, with
its slots as they were. -/
def BaseIntact (s : Server) : Op → Prop
  | .write c => ∀ f, deltaBase s c = some f → f ∈ (s.clients c).sent →
    ∃ r, (s.clients c).frames (f % updateBackup) = some r ∧ r.framenum = f ∧ Intact s c r
  | _ => True

/-- The ring has not come round to the delta base: at most `num_client_entities`
slots have been handed out from its first one on, and the counter has not wrapped
since, unless that is harmless because the ring size divides 2^32. -/
def Room (s : Server) : Op → Prop
  | .write c => ∀ f r, deltaBase s c = some f → f ∈ (s.clients c).sent →
    (s.clients c).frames (f % updateBackup) = some r →
    r.numEntities = 0 ∨
      (s.high ≤ r.firstEntity + s.numClientEntities ∧
        (s.numClientEntities ∣ 2 ^ 32 ∨ r.firstEntity / 2 ^ 32 = (s.high - 1) / 2 ^ 32))
  | _ => True

/-! ## Slots -/

theorem mod_ne_mod {a b n : Nat} (hlt : a < b) (hclose : b < a + n) : b % n ≠ a % n := by
  intro heq
  have hdvd := Nat.dvd_of_mod_eq_zero (Nat.sub_mod_eq_zero_of_mod_eq heq)
  have := Nat.le_of_dvd (by omega) hdvd
  omega

/-- Within one lap of the ring, and without a wrap of the counter that would
shift it, different indices are different slots. -/
theorem slot_ne {num first high a b : Nat} (hlap : high ≤ first + num)
    (hwrap : num ∣ 2 ^ 32 ∨ first / 2 ^ 32 = (high - 1) / 2 ^ 32) (hfirst : first ≤ a)
    (hlt : a < b) (hhigh : b < high) : slot num b ≠ slot num a := by
  unfold slot
  rcases hwrap with hdvd | hsame
  · rw [Nat.mod_mod_of_dvd _ hdvd, Nat.mod_mod_of_dvd _ hdvd]
    exact mod_ne_mod hlt (by omega)
  · have hle : ∀ x, first ≤ x → x < high → x / 2 ^ 32 = first / 2 ^ 32 := by
      intro x hx hxh
      have h1 := Nat.div_le_div_right (c := 2 ^ 32) hx
      have h2 := Nat.div_le_div_right (c := 2 ^ 32) (show x ≤ high - 1 by omega)
      omega
    have ha := hle a hfirst (by omega)
    have hb := hle b (by omega) hhigh
    exact mod_ne_mod (by omega) (by omega)

theorem writeSlots_other {num c f first count s : Nat} {owner : Nat → Option Stamp}
    (h : ∀ i < count, slot num (first + i) ≠ s) :
    writeSlots num c f first count owner s = owner s := by
  induction count with
  | zero => rfl
  | succ count ih =>
    rw [writeSlots, Function.update_of_ne (fun heq => h count (Nat.lt_succ_self _) heq.symm)]
    exact ih fun i hi => h i (Nat.lt_succ_of_lt hi)

theorem writeSlots_at {num c f first count j : Nat} {owner : Nat → Option Stamp} (hj : j < count)
    (h : ∀ i < count, j < i → slot num (first + i) ≠ slot num (first + j)) :
    writeSlots num c f first count owner (slot num (first + j)) = some ⟨c, f, j⟩ := by
  induction count with
  | zero => omega
  | succ count ih =>
    rw [writeSlots]
    by_cases hlast : j = count
    · subst hlast
      rw [Function.update_self]
    · rw [Function.update_of_ne (h count (Nat.lt_succ_self _) (by omega)).symm]
      exact ih (by omega) fun i hi hji => h i (Nat.lt_succ_of_lt hi) hji

/-! ## The frames of every run -/

/-- No slot index handed out after this one has its slot. -/
def Unreached (s : Server) (index : Nat) : Prop :=
  ∀ i, index < i → i < s.high → slot s.numClientEntities i ≠ slot s.numClientEntities index

structure Inv (s : Server) : Prop where
  place : ∀ c k r, (s.clients c).frames k = some r → k = r.framenum % updateBackup
  past : ∀ c k r, (s.clients c).frames k = some r → r.framenum ≤ s.framenum
  handed : ∀ c k r, (s.clients c).frames k = some r →
    r.firstEntity + r.numEntities ≤ s.nextClientEntities
  next_le : s.nextClientEntities ≤ s.high
  owned : ∀ c k r, (s.clients c).frames k = some r → ∀ j < r.numEntities,
    Unreached s (r.firstEntity + j) →
      s.owner (slot s.numClientEntities (r.firstEntity + j)) = some ⟨c, r.framenum, j⟩
  sent_past : ∀ c, ∀ f ∈ (s.clients c).sent, f ≤ s.framenum
  sent_kept : ∀ c, ∀ f ∈ (s.clients c).sent, s.framenum < f + updateBackup →
    ∃ r, (s.clients c).frames (f % updateBackup) = some r ∧ r.framenum = f

/-- A new game has sent nothing. -/
theorem inv_svInitGame (maxclients framenum : Nat) : Inv (svInitGame maxclients framenum) := by
  constructor <;> simp [svInitGame]

/-- A client may change if its frames were there before. -/
theorem inv_updateClient {s : Server} (h : Inv s) {c : Nat} {client : Client}
    (hframes : ∀ k r, client.frames k = some r → (s.clients c).frames k = some r)
    (hpast : ∀ f ∈ client.sent, f ≤ s.framenum)
    (hkept : ∀ f ∈ client.sent, s.framenum < f + updateBackup →
      ∃ r, client.frames (f % updateBackup) = some r ∧ r.framenum = f) :
    Inv (updateClient s c client) := by
  have hold : ∀ a k r, ((updateClient s c client).clients a).frames k = some r →
      (s.clients a).frames k = some r := by
    intro a k r hr
    by_cases ha : a = c
    · subst ha
      simp only [updateClient, Function.update_self] at hr
      exact hframes k r hr
    · simpa only [updateClient, Function.update_of_ne ha] using hr
  refine ⟨fun a k r hr => h.place a k r (hold a k r hr), fun a k r hr => h.past a k r (hold a k r hr),
    fun a k r hr => h.handed a k r (hold a k r hr), h.next_le,
    fun a k r hr => h.owned a k r (hold a k r hr), ?_, ?_⟩
  · intro a f hf
    by_cases ha : a = c
    · subst ha
      simp only [updateClient, Function.update_self] at hf
      exact hpast f hf
    · simp only [updateClient, Function.update_of_ne ha] at hf
      exact h.sent_past a f hf
  · intro a f hf
    by_cases ha : a = c
    · subst ha
      simp only [updateClient, Function.update_self] at hf ⊢
      exact hkept f hf
    · simp only [updateClient, Function.update_of_ne ha] at hf ⊢
      exact h.sent_kept a f hf

theorem framenum_of_built {s : Server} {c : Nat}
    (h : ((s.clients c).frames (s.framenum % updateBackup)).map FrameRecord.framenum =
      some s.framenum) :
    ∃ r, (s.clients c).frames (s.framenum % updateBackup) = some r ∧ r.framenum = s.framenum := by
  obtain ⟨r, hr, hf⟩ := Option.map_eq_some_iff.mp h
  exact ⟨r, hr, hf⟩

/-- The next frame number is larger than those that were sent. -/
theorem inv_frame {s : Server} (h : Inv s) : Inv { s with framenum := s.framenum + 1 } where
  place := h.place
  past := fun c k r hr => Nat.le_succ_of_le (h.past c k r hr)
  handed := h.handed
  next_le := h.next_le
  owned := h.owned
  sent_past := fun c f hf => Nat.le_succ_of_le (h.sent_past c f hf)
  sent_kept := fun c f hf hlt => h.sent_kept c f hf (Nat.lt_of_succ_lt hlt)

/-- The new frame takes its slot and the next part of the ring. -/
theorem inv_svBuildClientFrame {s : Server} (h : Inv s) (c entities kept : Nat) :
    Inv (svBuildClientFrame s c entities kept) := by
  unfold svBuildClientFrame
  dsimp only
  generalize hn : min entities maxFrameEntities = n
  generalize hm : min kept n = m
  split
  · exact h
  · rename_i hbuilt
    have hmn : m ≤ n := by omega
    -- A record of the new state is the new frame or one that was there before.
    have hcases : ∀ a k r, (Function.update s.clients c { s.clients c with
        frames := Function.update (s.clients c).frames (s.framenum % updateBackup)
          (some ⟨s.framenum, s.nextClientEntities, m⟩) } a).frames k = some r →
        (a = c ∧ k = s.framenum % updateBackup ∧
          r = ⟨s.framenum, s.nextClientEntities, m⟩) ∨
        (s.clients a).frames k = some r := by
      intro a k r hr
      by_cases ha : a = c
      · subst ha
        rw [Function.update_self] at hr
        by_cases hk : k = s.framenum % updateBackup
        · subst hk
          simp only [Function.update_self, Option.some.injEq] at hr
          exact Or.inl ⟨rfl, rfl, hr.symm⟩
        · simp only [Function.update_of_ne hk] at hr
          exact Or.inr hr
      · rw [Function.update_of_ne ha] at hr
        exact Or.inr hr
    refine ⟨?_, ?_, ?_, ?_, ?_, ?_, ?_⟩
    · intro a k r hr
      rcases hcases a k r hr with ⟨_, rfl, rfl⟩ | hr
      · rfl
      · exact h.place a k r hr
    · intro a k r hr
      rcases hcases a k r hr with ⟨_, _, rfl⟩ | hr
      · exact Nat.le_refl _
      · exact h.past a k r hr
    · intro a k r hr
      rcases hcases a k r hr with ⟨_, _, rfl⟩ | hr
      · exact Nat.le_refl _
      · exact Nat.le_trans (h.handed a k r hr) (Nat.le_add_right _ _)
    · have := h.next_le
      simp only
      omega
    · intro a k r hr j hj hfree
      simp only [Unreached] at hfree ⊢
      rcases hcases a k r hr with ⟨rfl, _, rfl⟩ | hr
      · apply writeSlots_at hj
        intro i hi hji
        simp only at hi hj hfree
        exact hfree _ (by omega) (by omega)
      · have hhanded := h.handed a k r hr
        have hother : ∀ i < n, slot s.numClientEntities (s.nextClientEntities + i) ≠
            slot s.numClientEntities (r.firstEntity + j) :=
          fun i hi => hfree _ (by omega) (by omega)
        rw [writeSlots_other fun i hi => hother i (by omega), writeSlots_other hother]
        exact h.owned a k r hr j hj fun i hi hhigh => hfree i hi (by omega)
    · intro a f hf
      by_cases ha : a = c
      · subst ha
        simp only [Function.update_self] at hf
        exact h.sent_past a f hf
      · simp only [Function.update_of_ne ha] at hf
        exact h.sent_past a f hf
    · intro a f hf hlt
      by_cases ha : a = c
      · subst ha
        simp only [Function.update_self] at hf hlt ⊢
        obtain ⟨r, hr, hrf⟩ := h.sent_kept a f hf hlt
        have hle := h.sent_past a f hf
        have hne : f ≠ s.framenum := by
          rintro rfl
          exact hbuilt (by rw [hr, Option.map_some, hrf])
        have hslot : f % updateBackup ≠ s.framenum % updateBackup :=
          (mod_ne_mod (by omega) hlt).symm
        exact ⟨r, by simp only [Function.update_of_ne hslot]; exact hr, hrf⟩
      · simp only [Function.update_of_ne ha] at hf hlt ⊢
        exact h.sent_kept a f hf hlt

/-- Every operation of the server keeps the invariant. -/
theorem inv_step (s : Server) (op : Op) (h : Inv s) : Inv (step s op) := by
  cases op with
  | frame => exact inv_frame h
  | connect c => exact inv_updateClient h (by simp) (by simp) (by simp)
  | build c entities kept =>
    unfold step
    dsimp only
    split
    · exact inv_svBuildClientFrame h c entities kept
    · exact h
  | write c =>
    unfold step
    dsimp only
    split
    · exact inv_updateClient h (fun k r hr => hr) (h.sent_past c) (h.sent_kept c)
    · exact h
  | transmit c =>
    unfold step
    dsimp only
    split
    · rename_i hbuilt
      refine @inv_updateClient s h c
        { s.clients c with sent := s.framenum :: (s.clients c).sent } (fun k r hr => hr) ?_ ?_
      · intro f hf
        rcases List.mem_cons.mp hf with rfl | hf
        · exact Nat.le_refl _
        · exact h.sent_past c f hf
      · intro f hf hlt
        rcases List.mem_cons.mp hf with rfl | hf
        · exact framenum_of_built hbuilt
        · exact h.sent_kept c f hf hlt
    · exact h
  | ack c lastframe => exact inv_updateClient h (fun k r hr => hr) (h.sent_past c) (h.sent_kept c)
  | record c start => exact inv_updateClient h (fun k r hr => hr) (h.sent_past c) (h.sent_kept c)

/-- The age test keeps the base among the frames that are still stored. -/
theorem deltaBase_recent {s : Server} {c f : Nat} (h : deltaBase s c = some f) :
    s.framenum < f + updateBackup := by
  unfold deltaBase at h
  dsimp only at h
  split at h
  · cases h
  · split at h
    · cases h
    · split at h
      · cases h
      · rename_i hpos hage
        have hf := Option.some.inj h
        have hbackup : updateBackup = 16 := rfl
        omega

theorem baseIntact_of_room (s : Server) (op : Op) (h : Inv s) (hroom : Room s op) :
    BaseIntact s op := by
  cases op with
  | write c =>
    intro f hbase hsent
    obtain ⟨r, hr, hrf⟩ := h.sent_kept c f hsent (deltaBase_recent hbase)
    refine ⟨r, hr, hrf, ?_⟩
    intro j hj
    rcases hroom f r hbase hsent hr with hzero | ⟨hlap, hwrap⟩
    · omega
    · apply h.owned c _ r hr j hj
      intro i hlt hhigh
      exact slot_ne hlap hwrap (Nat.le_add_right _ _) hlt hhigh
  | frame => trivial
  | connect c => trivial
  | build c entities kept => trivial
  | transmit c => trivial
  | ack c lastframe => trivial
  | record c start => trivial

/-- In every run in which the ring does not come round to a delta base, every
delta base is intact when it is chosen. -/
theorem allSteps_baseIntact (maxclients framenum : Nat) (ops : List Op)
    (enough_room : AllSteps step Room (svInitGame maxclients framenum) ops) :
    AllSteps step BaseIntact (svInitGame maxclients framenum) ops :=
  allSteps_of_invariant inv_step baseIntact_of_room (inv_svInitGame maxclients framenum)
    enough_room

private def shortRun : List Op :=
  [.build 0 3 2, .transmit 0, .ack 0 1, .frame, .build 0 3 3, .write 0]

theorem allSteps_baseIntact_example :
    AllSteps step BaseIntact (svInitGame 1 1) shortRun := by
  apply allSteps_baseIntact 1 1 shortRun
  refine ⟨trivial, trivial, trivial, trivial, trivial, ?_, trivial⟩
  intro f r hbase _ hr
  cases (show some 1 = some f from hbase)
  cases (show some (⟨1, 0, 2⟩ : FrameRecord) = some r from hr)
  exact Or.inr ⟨by decide, Or.inl ⟨2 ^ 22, rfl⟩⟩

/-- One frame with all the entities it can have. -/
private def busyFrame : List Op := [.frame, .build 0 128 128, .transmit 0]

/-- One client acknowledges frame 1 and sees 128 entities in each frame up to the ninth. -/
private def busyRun : List Op :=
  [.build 0 128 128, .transmit 0, .ack 0 1] ++ (List.replicate 8 busyFrame).flatten

private def busyServer : Server := run step (svInitGame 1 1) busyRun

private theorem busyServer_base : deltaBase busyServer 0 = some 1 := by decide +kernel

private theorem busyServer_sent : 1 ∈ (busyServer.clients 0).sent := by decide +kernel

private theorem busyServer_record :
    (busyServer.clients 0).frames (1 % updateBackup) = some ⟨1, 0, 128⟩ := by decide +kernel

private theorem busyServer_owner :
    busyServer.owner (slot busyServer.numClientEntities 0) = some ⟨0, 9, 0⟩ := by decide +kernel

/-- The ninth frame is written over the slots of its own delta base. -/
theorem base_overwritten :
    ¬ AllSteps step BaseIntact (svInitGame 1 1) (busyRun ++ [.write 0]) := by
  intro hall
  obtain ⟨hlast, _⟩ := (allSteps_append step BaseIntact _ busyRun [.write 0]).mp hall |>.2
  obtain ⟨r, hr, _, hintact⟩ := hlast 1 busyServer_base busyServer_sent
  obtain rfl : ⟨1, 0, 128⟩ = r := Option.some.inj (busyServer_record.symm.trans hr)
  have hown := hintact 0 (show 0 < 128 by decide)
  cases busyServer_owner.symm.trans hown

end EntityRing
