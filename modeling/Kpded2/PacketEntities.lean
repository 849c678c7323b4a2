import Mathlib.Logic.Function.Basic
import Kpded2.DeltaEntity

/-!
# `SV_EmitPacketEntities`

The entities of all frames live in one ring, and a frame is a window of it. A
slot whose number is 0 has been taken out of its frame. The loop walks the old
and the new window together; when a frame is being reduced it takes out further
slots of the new window while it goes.
-/
namespace PacketEntities
open Protocol DeltaEntity SortedEdits

/-- `svs.client_entities`, by slot. -/
abbrev Entities := Nat → EntityState

structure ClientFrame where
  firstEntity : Nat
  numEntities : Nat

/-- What stays fixed during a call. `newEntities` is the limit `cl->new_entities`. -/
structure Context where
  numClientEntities : Nat
  maxclients : Nat
  newEntities : Nat
  protocolVersion : Nat
  lastlines : Baselines

/-- The index expression is unsigned. -/
def slot (ctx : Context) (frame : ClientFrame) (index : Nat) : Nat :=
  (frame.firstEntity + index) % 2 ^ 32 % ctx.numClientEntities

def sentinel : Nat := 9999

def numberAt (ctx : Context) (ents : Entities) (frame : ClientFrame) (index : Nat) : Nat :=
  if index ≥ frame.numEntities then sentinel else (ents (slot ctx frame index)).number

/-- Takes a slot out of its frame. -/
def zeroNumber (ents : Entities) (s : Nat) : Entities :=
  Function.update ents s { ents s with number := 0 }

/-- The loop; `none` is a fatal error. Every pass advances one of the indices, so
as many passes as there are slots are enough. -/
def emitLoop (ctx : Context) (old new : ClientFrame) :
    Nat → Entities → Nat → Nat → Nat → Option (Entities × List (Command Delta) × Nat)
  | 0, ents, _, _, count => some (ents, [], count)
  | passes + 1, ents, newindex, oldindex, count =>
    if ¬ (newindex < new.numEntities ∨ oldindex < old.numEntities) then some (ents, [], count)
    else
      let newnum := numberAt ctx ents new newindex
      if newnum = 0 then emitLoop ctx old new passes ents (newindex + 1) oldindex count
      else
        let oldnum := numberAt ctx ents old oldindex
        if oldnum = 0 then emitLoop ctx old new passes ents newindex (oldindex + 1) count
        else
          let newent := ents (slot ctx new newindex)
          let oldent := ents (slot ctx old oldindex)
          if newnum = oldnum then do
            let cmds ← svWriteDeltaEntity ctx.protocolVersion oldent (some newent) false false false
            let (ents, rest, count) ←
              emitLoop ctx old new passes ents (newindex + 1) (oldindex + 1) count
            some (ents, cmds ++ rest, count)
          else if newnum < oldnum then
            let count' := if newnum > ctx.maxclients then count + 1 else count
            if newnum > ctx.maxclients ∧ count' > ctx.newEntities then
              emitLoop ctx old new passes (zeroNumber ents (slot ctx new newindex))
                (newindex + 1) oldindex count'
            else do
              let cmds ← svWriteDeltaEntity ctx.protocolVersion (ctx.lastlines.state newnum)
                (some newent) true true false
              let (ents, rest, count) ←
                emitLoop ctx old new passes ents (newindex + 1) oldindex count'
              some (ents, cmds ++ rest, count)
          else do
            let cmds ← svWriteDeltaEntity ctx.protocolVersion oldent none true false false
            let (ents, rest, count) ← emitLoop ctx old new passes ents newindex (oldindex + 1) count
            some (ents, cmds ++ rest, count)

structure Emitted where
  ents : Entities
  commands : List (Command Delta)
  newEntities : Nat

/-- Without a delta base the old window is empty. -/
def oldFrame (base : Option ClientFrame) : ClientFrame := base.getD ⟨0, 0⟩

def svEmitPacketEntities (ctx : Context) (ents : Entities) (base : Option ClientFrame)
    (new : ClientFrame) : Option Emitted := do
  let old := oldFrame base
  let (ents, commands, count) ←
    emitLoop ctx old new (new.numEntities + old.numEntities) ents 0 0 0
  some ⟨ents, commands, min ctx.newEntities count⟩

def svcPacketentities : UInt8 := 20

/-- The message: the command byte, the commands, and a zero where the next flag
byte and number would stand. -/
def packetBytes (commands : List (Command Delta)) : List UInt8 :=
  svcPacketentities :: (commands.flatMap commandBytes ++ [0, 0])

/-! ## Windows as lists -/

/-- The slots of a window from an index on. -/
def slots (ctx : Context) (frame : ClientFrame) (index : Nat) : List Nat :=
  (List.range' index (frame.numEntities - index)).map (slot ctx frame)

/-- The entities of a window from an index on, without the removed ones. -/
def live (ctx : Context) (ents : Entities) (frame : ClientFrame) (index : Nat) :
    List EntityState :=
  ((slots ctx frame index).map ents).filter fun s => s.number ≠ 0

theorem slots_done {ctx : Context} {frame : ClientFrame} {index : Nat}
    (h : frame.numEntities ≤ index) : slots ctx frame index = [] := by
  rw [slots, Nat.sub_eq_zero_of_le h]
  rfl

theorem slots_step {ctx : Context} {frame : ClientFrame} {index : Nat}
    (h : index < frame.numEntities) :
    slots ctx frame index = slot ctx frame index :: slots ctx frame (index + 1) := by
  have hlen : frame.numEntities - index = (frame.numEntities - (index + 1)) + 1 := by omega
  rw [slots, hlen, List.range'_succ, List.map_cons]
  rfl

/-- What the loop finds at an index. -/
theorem numberAt_cases (ctx : Context) (ents : Entities) (frame : ClientFrame) (index : Nat) :
    (frame.numEntities ≤ index ∧ numberAt ctx ents frame index = sentinel ∧
      live ctx ents frame index = []) ∨
    (index < frame.numEntities ∧ numberAt ctx ents frame index = 0 ∧
      (ents (slot ctx frame index)).number = 0 ∧
      live ctx ents frame index = live ctx ents frame (index + 1)) ∨
    (index < frame.numEntities ∧
      numberAt ctx ents frame index = (ents (slot ctx frame index)).number ∧
      (ents (slot ctx frame index)).number ≠ 0 ∧
      live ctx ents frame index =
        ents (slot ctx frame index) :: live ctx ents frame (index + 1)) := by
  by_cases hdone : frame.numEntities ≤ index
  · left
    refine ⟨hdone, if_pos hdone, ?_⟩
    rw [live, slots_done hdone]
    rfl
  · right
    have hlt : index < frame.numEntities := by omega
    have hnumber : numberAt ctx ents frame index = (ents (slot ctx frame index)).number :=
      if_neg hdone
    by_cases hz : (ents (slot ctx frame index)).number = 0
    · left
      refine ⟨hlt, hnumber.trans hz, hz, ?_⟩
      rw [live, slots_step hlt, List.map_cons, List.filter_cons_of_neg (by simp [hz])]
      rfl
    · right
      refine ⟨hlt, hnumber, hz, ?_⟩
      rw [live, slots_step hlt, List.map_cons, List.filter_cons_of_pos (by simp [hz])]
      rfl

theorem mem_live {ctx : Context} {ents : Entities} {frame : ClientFrame} {index s : Nat}
    (hs : s ∈ slots ctx frame index) (hz : (ents s).number ≠ 0) :
    ents s ∈ live ctx ents frame index := by
  rw [live, List.mem_filter]
  exact ⟨List.mem_map_of_mem hs, by simpa using hz⟩

/-- Taking out a slot whose number no remaining entity has leaves the window alone. -/
theorem live_zeroNumber {ctx : Context} {ents : Entities} {frame : ClientFrame} {index s : Nat}
    (hz : (ents s).number ≠ 0)
    (h : ∀ e ∈ live ctx ents frame index, e.number ≠ (ents s).number) :
    live ctx (zeroNumber ents s) frame index = live ctx ents frame index := by
  rw [live, live]
  congr 1
  apply List.map_congr_left
  intro i hi
  rw [zeroNumber, Function.update_of_ne]
  rintro rfl
  exact h _ (mem_live hi hz) rfl

/-- The entities after some numbers have been taken out of a window. -/
def takeOut (ents : Entities) (window numbers : List Nat) : Entities := fun s =>
  if s ∈ window ∧ (ents s).number ∈ numbers then { ents s with number := 0 } else ents s

theorem takeOut_nil (ents : Entities) (window : List Nat) : takeOut ents window [] = ents := by
  funext s
  simp [takeOut]

theorem takeOut_skip {ents : Entities} {window numbers : List Nat} {s : Nat}
    (h : (ents s).number ∉ numbers) :
    takeOut ents (s :: window) numbers = takeOut ents window numbers := by
  funext t
  unfold takeOut
  by_cases ht : t = s
  · subst ht
    simp [h]
  · simp [ht]

theorem takeOut_zeroNumber {ents : Entities} {window numbers : List Nat} {s : Nat}
    (hzero : 0 ∉ numbers)
    (halone : ∀ t ∈ window, t ≠ s → (ents t).number ≠ (ents s).number) :
    takeOut (zeroNumber ents s) window numbers =
      takeOut ents (s :: window) ((ents s).number :: numbers) := by
  funext t
  unfold takeOut zeroNumber
  by_cases ht : t = s
  · subst ht
    simp [hzero]
  · rw [Function.update_of_ne ht]
    have hiff : (t ∈ window ∧ (ents t).number ∈ numbers) ↔
        (t ∈ s :: window ∧ (ents t).number ∈ (ents s).number :: numbers) := by
      simp only [List.mem_cons]
      constructor
      · rintro ⟨hw, hn⟩
        exact ⟨Or.inr hw, Or.inr hn⟩
      · rintro ⟨hw, hn⟩
        rcases hw with hw | hw
        · exact absurd hw ht
        · rcases hn with hn | hn
          · exact absurd hn (halone t hw ht)
          · exact ⟨hw, hn⟩
    simp only [hiff]

/-! ## The loop computes the edits -/

/-- The additions that the limit counts: players are never held back. -/
def counted (ctx : Context) (es : List (Edit EntityState)) : List EntityState :=
  (es.filterMap Edit.added).filter fun s => decide (s.number > ctx.maxclients)

/-- The numbers beyond the limit, when `count` additions have been made. -/
def dropped (ctx : Context) (count : Nat) (es : List (Edit EntityState)) : List Nat :=
  ((counted ctx es).drop (ctx.newEntities - count)).map EntityState.number

theorem mem_dropped {ctx : Context} {count n : Nat} {es : List (Edit EntityState)}
    (h : n ∈ dropped ctx count es) : ∃ e ∈ es, e.key EntityState.number = n := by
  obtain ⟨s, hs, rfl⟩ := List.mem_map.mp h
  have hs := (List.mem_filter.mp (List.mem_of_mem_drop hs)).1
  obtain ⟨e, he, hadded⟩ := List.mem_filterMap.mp hs
  cases e with
  | add new =>
    cases hadded
    exact ⟨_, he, rfl⟩
  | remove old => cases hadded
  | change old new => cases hadded

theorem not_mem_dropped {ctx : Context} {count n : Nat} {es : List (Edit EntityState)}
    (h : ∀ e ∈ es, n < e.key EntityState.number) : n ∉ dropped ctx count es := by
  intro hn
  obtain ⟨e, he, heq⟩ := mem_dropped hn
  have := h e he
  omega

abbrev LoopResult := Option (Entities × List (Command Delta) × Nat)

/-- A loop over a window produces the commands for some edits and takes the
additions beyond the limit out of the window. -/
def Produces (ctx : Context) (ents : Entities) (window : List Nat) (news : List EntityState)
    (es : List (Edit EntityState)) (count : Nat) (result : LoopResult) : Prop :=
  ∃ cmds kept,
    result = some (takeOut ents window (dropped ctx count es), cmds,
      count + (counted ctx es).length) ∧
    EncodesAll (reader ctx.lastlines) EntityState.number view es cmds kept ∧
    kept = news.filter fun s => s.number ∉ dropped ctx count es

/-- The result of the loop from two indices on. -/
def LoopSpec (ctx : Context) (old new : ClientFrame) (ents : Entities)
    (newindex oldindex count : Nat) (result : LoopResult) : Prop :=
  Produces ctx ents (slots ctx new newindex) (live ctx ents new newindex)
    (edits EntityState.number (live ctx ents old oldindex) (live ctx ents new newindex))
    count result

/-- Both windows are sorted and hold valid numbers from these indices on. -/
structure Ready (ctx : Context) (old new : ClientFrame) (ents : Entities)
    (newindex oldindex : Nat) : Prop where
  oldSorted : Sorted EntityState.number (live ctx ents old oldindex)
  newSorted : Sorted EntityState.number (live ctx ents new newindex)
  oldRange : ∀ s ∈ live ctx ents old oldindex, InRange s
  newRange : ∀ s ∈ live ctx ents new newindex, InRange s

theorem dropped_of_not_added (ctx : Context) (count : Nat) {e : Edit EntityState}
    (es : List (Edit EntityState)) (h : e.added = none) :
    dropped ctx count (e :: es) = dropped ctx count es ∧
      counted ctx (e :: es) = counted ctx es := by
  simp [dropped, counted, h]

/-- `new_entities` after an addition. -/
def counts (ctx : Context) (count number : Nat) : Nat :=
  if number > ctx.maxclients then count + 1 else count

theorem counted_add (ctx : Context) (count : Nat) (n : EntityState)
    (es : List (Edit EntityState)) :
    count + (counted ctx (.add n :: es)).length =
      counts ctx count n.number + (counted ctx es).length := by
  by_cases hn : n.number > ctx.maxclients
  · simp [counted, counts, Edit.added, hn]
    omega
  · simp [counted, counts, Edit.added, hn]

theorem dropped_add (ctx : Context) (count : Nat) (n : EntityState)
    (es : List (Edit EntityState)) :
    dropped ctx count (.add n :: es) =
      if n.number > ctx.maxclients ∧ counts ctx count n.number > ctx.newEntities then
        n.number :: dropped ctx (counts ctx count n.number) es
      else dropped ctx (counts ctx count n.number) es := by
  by_cases hn : n.number > ctx.maxclients
  · have hcounted : counted ctx (.add n :: es) = n :: counted ctx es := by
      simp [counted, Edit.added, hn]
    rw [dropped, hcounted, counts, if_pos hn]
    by_cases hfull : count + 1 > ctx.newEntities
    · have hzero : ctx.newEntities - count = 0 := by omega
      have hzero' : ctx.newEntities - (count + 1) = 0 := by omega
      rw [if_pos ⟨hn, hfull⟩, dropped, hzero, hzero']
      rfl
    · have hsucc : ctx.newEntities - count = (ctx.newEntities - (count + 1)) + 1 := by omega
      rw [if_neg (fun h => hfull h.2), dropped, hsucc, List.drop_succ_cons]
  · have hcounted : counted ctx (.add n :: es) = counted ctx es := by
      simp [counted, Edit.added, hn]
    rw [dropped, hcounted, counts, if_neg hn, if_neg (fun h => hn h.1)]
    rfl

/-- The rest of the loop after a command. -/
def continued (cmds : List (Command Delta)) (result : LoopResult) : LoopResult :=
  result.map fun (ents, rest, count) => (ents, cmds ++ rest, count)

section Passes
variable {ctx : Context} {old new : ClientFrame} {ents : Entities}
  {newindex oldindex count : Nat} {result : LoopResult}

theorem LoopSpec.done (hold : old.numEntities ≤ oldindex) (hnew : new.numEntities ≤ newindex) :
    LoopSpec ctx old new ents newindex oldindex count (some (ents, [], count)) := by
  have hlive : live ctx ents old oldindex = [] ∧ live ctx ents new newindex = [] := by
    rw [live, live, slots_done hold, slots_done hnew]
    exact ⟨rfl, rfl⟩
  rw [LoopSpec, hlive.1, hlive.2, edits]
  exact ⟨[], [], by simp [dropped, counted, takeOut_nil], EncodesAll.nil, rfl⟩

theorem LoopSpec.skipNew (hlt : newindex < new.numEntities)
    (hz : (ents (slot ctx new newindex)).number = 0)
    (hlive : live ctx ents new newindex = live ctx ents new (newindex + 1))
    (hready : Ready ctx old new ents newindex oldindex)
    (h : LoopSpec ctx old new ents (newindex + 1) oldindex count result) :
    LoopSpec ctx old new ents newindex oldindex count result := by
  rw [LoopSpec, ← hlive] at h
  obtain ⟨cmds, kept, hres, henc, hkept⟩ := h
  refine ⟨cmds, kept, ?_, henc, hkept⟩
  rw [hres, slots_step hlt, takeOut_skip]
  rw [hz]
  apply not_mem_dropped
  exact lt_key_of_mem_edits _ _ (fun s hs => (hready.oldRange s hs).1)
    (fun s hs => (hready.newRange s hs).1)

theorem LoopSpec.skipOld (hlive : live ctx ents old oldindex = live ctx ents old (oldindex + 1))
    (h : LoopSpec ctx old new ents newindex (oldindex + 1) count result) :
    LoopSpec ctx old new ents newindex oldindex count result := by
  unfold LoopSpec at h ⊢
  rwa [hlive]

theorem LoopSpec.change {cmds : List (Command Delta)} (hlt : newindex < new.numEntities)
    (hnew : live ctx ents new newindex =
      ents (slot ctx new newindex) :: live ctx ents new (newindex + 1))
    (hold : live ctx ents old oldindex =
      ents (slot ctx old oldindex) :: live ctx ents old (oldindex + 1))
    (hsame : (ents (slot ctx new newindex)).number = (ents (slot ctx old oldindex)).number)
    (hready : Ready ctx old new ents newindex oldindex)
    (henc : Encodes (reader ctx.lastlines) EntityState.number view
      (.change (ents (slot ctx old oldindex)) (ents (slot ctx new newindex))) cmds
      [ents (slot ctx new newindex)])
    (h : LoopSpec ctx old new ents (newindex + 1) (oldindex + 1) count result) :
    LoopSpec ctx old new ents newindex oldindex count (continued cmds result) := by
  obtain ⟨rest, kept, hres, hrest, hkept⟩ := h
  have hsorted := sorted_edits hready.oldSorted hready.newSorted
  rw [hold, hnew, edits_change hsame] at hsorted
  have hnot : (ents (slot ctx new newindex)).number ∉ dropped ctx count _ :=
    not_mem_dropped (List.pairwise_cons.mp hsorted).1
  unfold LoopSpec Produces
  rw [hold, hnew, edits_change hsame, (dropped_of_not_added ctx count _ rfl).1,
    (dropped_of_not_added ctx count _ rfl).2, slots_step hlt, takeOut_skip hnot]
  refine ⟨cmds ++ rest, _ :: kept, by rw [hres]; rfl, EncodesAll.cons henc hrest, ?_⟩
  rw [List.filter_cons_of_pos (by simpa using hnot), hkept]

theorem LoopSpec.remove
    (hold : live ctx ents old oldindex =
      ents (slot ctx old oldindex) :: live ctx ents old (oldindex + 1))
    (hbefore : ∀ n ∈ live ctx ents new newindex,
      (ents (slot ctx old oldindex)).number < n.number)
    (h : LoopSpec ctx old new ents newindex (oldindex + 1) count result) :
    LoopSpec ctx old new ents newindex oldindex count
      (continued [.remove (ents (slot ctx old oldindex)).number] result) := by
  obtain ⟨rest, kept, hres, hrest, hkept⟩ := h
  unfold LoopSpec Produces
  rw [hold, edits_remove hbefore, (dropped_of_not_added ctx count _ rfl).1,
    (dropped_of_not_added ctx count _ rfl).2]
  exact ⟨_, kept, by rw [hres]; rfl, EncodesAll.cons (Encodes.remove _) hrest, hkept⟩

/-- The addition of the entity at the head of the new window. -/
theorem edits_add_head
    (hnew : live ctx ents new newindex =
      ents (slot ctx new newindex) :: live ctx ents new (newindex + 1))
    (hbefore : ∀ o ∈ live ctx ents old oldindex,
      (ents (slot ctx new newindex)).number < o.number)
    (hready : Ready ctx old new ents newindex oldindex) :
    edits EntityState.number (live ctx ents old oldindex) (live ctx ents new newindex) =
      .add (ents (slot ctx new newindex)) ::
        edits EntityState.number (live ctx ents old oldindex)
          (live ctx ents new (newindex + 1)) ∧
    (∀ count, (ents (slot ctx new newindex)).number ∉ dropped ctx count
      (edits EntityState.number (live ctx ents old oldindex)
        (live ctx ents new (newindex + 1)))) ∧
    ∀ e ∈ live ctx ents new (newindex + 1), e.number ≠ (ents (slot ctx new newindex)).number := by
  have hsorted := hready.newSorted
  rw [hnew] at hsorted ⊢
  have hlater := (List.pairwise_cons.mp hsorted).1
  refine ⟨edits_add hbefore, fun count => ?_, ?_⟩
  · exact not_mem_dropped (lt_key_of_mem_edits _ _ hbefore hlater)
  · intro e he
    have := hlater e he
    omega

theorem LoopSpec.add {cmds : List (Command Delta)} (hlt : newindex < new.numEntities)
    (hnew : live ctx ents new newindex =
      ents (slot ctx new newindex) :: live ctx ents new (newindex + 1))
    (hbefore : ∀ o ∈ live ctx ents old oldindex,
      (ents (slot ctx new newindex)).number < o.number)
    (hready : Ready ctx old new ents newindex oldindex)
    (hfits : ¬ ((ents (slot ctx new newindex)).number > ctx.maxclients ∧
      counts ctx count (ents (slot ctx new newindex)).number > ctx.newEntities))
    (henc : Encodes (reader ctx.lastlines) EntityState.number view
      (.add (ents (slot ctx new newindex))) cmds [ents (slot ctx new newindex)])
    (h : LoopSpec ctx old new ents (newindex + 1) oldindex
      (counts ctx count (ents (slot ctx new newindex)).number) result) :
    LoopSpec ctx old new ents newindex oldindex count (continued cmds result) := by
  obtain ⟨rest, kept, hres, hrest, hkept⟩ := h
  obtain ⟨hedits, hnot, _⟩ := edits_add_head hnew hbefore hready
  unfold LoopSpec Produces
  rw [hedits, dropped_add, if_neg hfits, counted_add, slots_step hlt, takeOut_skip (hnot _)]
  refine ⟨cmds ++ rest, _ :: kept, by rw [hres]; rfl, EncodesAll.cons henc hrest, ?_⟩
  rw [hnew, List.filter_cons_of_pos (by simpa using hnot _), hkept]

theorem LoopSpec.suppress (hlt : newindex < new.numEntities)
    (hnew : live ctx ents new newindex =
      ents (slot ctx new newindex) :: live ctx ents new (newindex + 1))
    (hbefore : ∀ o ∈ live ctx ents old oldindex,
      (ents (slot ctx new newindex)).number < o.number)
    (hready : Ready ctx old new ents newindex oldindex)
    (hfull : (ents (slot ctx new newindex)).number > ctx.maxclients ∧
      counts ctx count (ents (slot ctx new newindex)).number > ctx.newEntities)
    (h : LoopSpec ctx old new (zeroNumber ents (slot ctx new newindex)) (newindex + 1) oldindex
      (counts ctx count (ents (slot ctx new newindex)).number) result) :
    LoopSpec ctx old new ents newindex oldindex count result := by
  obtain ⟨hedits, hnot, halone⟩ := edits_add_head hnew hbefore hready
  have hmem : ents (slot ctx new newindex) ∈ live ctx ents new newindex := by
    rw [hnew]
    exact List.mem_cons_self
  have hrange := hready.newRange _ hmem
  have hz : (ents (slot ctx new newindex)).number ≠ 0 := Nat.pos_iff_ne_zero.mp hrange.1
  have hold : live ctx (zeroNumber ents (slot ctx new newindex)) old oldindex =
      live ctx ents old oldindex := by
    apply live_zeroNumber hz
    intro e he
    have := hbefore e he
    omega
  rw [LoopSpec, hold, live_zeroNumber hz halone] at h
  obtain ⟨rest, kept, hres, hrest, hkept⟩ := h
  have hzero : 0 ∉ dropped ctx (counts ctx count (ents (slot ctx new newindex)).number)
      (edits EntityState.number (live ctx ents old oldindex)
        (live ctx ents new (newindex + 1))) := by
    apply not_mem_dropped
    apply lt_key_of_mem_edits _ _ (fun s hs => (hready.oldRange s hs).1)
    intro s hs
    apply (hready.newRange s _).1
    rw [hnew]
    exact List.mem_cons_of_mem _ hs
  have hwindow : ∀ t ∈ slots ctx new (newindex + 1), t ≠ slot ctx new newindex →
      (ents t).number ≠ (ents (slot ctx new newindex)).number := by
    intro t ht _ heq
    exact halone _ (mem_live ht (by rw [heq]; exact hz)) heq
  unfold LoopSpec Produces
  rw [hedits, dropped_add, if_pos hfull, counted_add, slots_step hlt]
  refine ⟨rest, kept, ?_, EncodesAll.cons (Encodes.suppressed _) hrest, ?_⟩
  · rw [hres, takeOut_zeroNumber hzero hwindow]
  · rw [hnew, List.filter_cons_of_neg (by simp), hkept]
    apply List.filter_congr
    intro e he
    simp [halone e he]

theorem Ready.mono {newindex' oldindex' : Nat} (h : Ready ctx old new ents newindex oldindex)
    (hold : live ctx ents old oldindex' <:+ live ctx ents old oldindex)
    (hnew : live ctx ents new newindex' <:+ live ctx ents new newindex) :
    Ready ctx old new ents newindex' oldindex' where
  oldSorted := h.oldSorted.sublist hold.sublist
  newSorted := h.newSorted.sublist hnew.sublist
  oldRange := fun s hs => h.oldRange s (hold.subset hs)
  newRange := fun s hs => h.newRange s (hnew.subset hs)

theorem Ready.zeroNumber {s : Nat} (h : Ready ctx old new ents newindex oldindex)
    (hold : live ctx (zeroNumber ents s) old oldindex = live ctx ents old oldindex)
    (hnew : live ctx (PacketEntities.zeroNumber ents s) new newindex =
      live ctx ents new newindex) :
    Ready ctx old new (PacketEntities.zeroNumber ents s) newindex oldindex where
  oldSorted := hold ▸ h.oldSorted
  newSorted := hnew ▸ h.newSorted
  oldRange := hold ▸ h.oldRange
  newRange := hnew ▸ h.newRange

end Passes

theorem bind_continued (cmds : List (Command Delta)) (result : LoopResult) :
    (do
      let (ents, rest, count) ← result
      some (ents, cmds ++ rest, count)) = continued cmds result := by
  cases result <;> rfl

theorem lt_sentinel {s : EntityState} (h : InRange s) : s.number < sentinel :=
  Nat.lt_of_lt_of_le h.2 (by decide)

section Passes
variable {ctx : Context} {old new : ClientFrame} {ents : Entities}
  {newindex oldindex count passes : Nat}

/-- One pass over an entity that the old frame does not have. -/
theorem emitLoop_addition
    (ih : ∀ ents newindex oldindex count,
      (new.numEntities - newindex) + (old.numEntities - oldindex) ≤ passes →
      Ready ctx old new ents newindex oldindex →
      LoopSpec ctx old new ents newindex oldindex count
        (emitLoop ctx old new passes ents newindex oldindex count))
    (hpasses : (new.numEntities - newindex) + (old.numEntities - oldindex) ≤ passes + 1)
    (hready : Ready ctx old new ents newindex oldindex) (hlt : newindex < new.numEntities)
    (hz : (ents (slot ctx new newindex)).number ≠ 0)
    (hnew : live ctx ents new newindex =
      ents (slot ctx new newindex) :: live ctx ents new (newindex + 1))
    (hbefore : ∀ o ∈ live ctx ents old oldindex,
      (ents (slot ctx new newindex)).number < o.number) :
    LoopSpec ctx old new ents newindex oldindex count
      (if (ents (slot ctx new newindex)).number > ctx.maxclients ∧
          counts ctx count (ents (slot ctx new newindex)).number > ctx.newEntities then
        emitLoop ctx old new passes (zeroNumber ents (slot ctx new newindex)) (newindex + 1)
          oldindex (counts ctx count (ents (slot ctx new newindex)).number)
      else do
        let cmds ← svWriteDeltaEntity ctx.protocolVersion
          (ctx.lastlines.state (ents (slot ctx new newindex)).number)
          (some (ents (slot ctx new newindex))) true true false
        let (ents, rest, count) ← emitLoop ctx old new passes ents (newindex + 1) oldindex
          (counts ctx count (ents (slot ctx new newindex)).number)
        some (ents, cmds ++ rest, count)) := by
  have htail : Ready ctx old new ents (newindex + 1) oldindex :=
    hready.mono (List.suffix_refl _) (by rw [hnew]; exact List.suffix_cons _ _)
  have hmeasure : (new.numEntities - (newindex + 1)) + (old.numEntities - oldindex) ≤ passes := by
    omega
  split
  · rename_i hfull
    apply LoopSpec.suppress hlt hnew hbefore hready hfull
    apply ih _ _ _ _ hmeasure
    apply htail.zeroNumber
    · apply live_zeroNumber hz
      intro e he
      have := hbefore e he
      omega
    · exact live_zeroNumber hz (edits_add_head hnew hbefore hready).2.2
  · rename_i hfits
    have hrange : InRange (ents (slot ctx new newindex)) := by
      apply hready.newRange
      rw [hnew]
      exact List.mem_cons_self
    obtain ⟨delta, hwrite, henc⟩ :=
      svWriteDeltaEntity_add ctx.protocolVersion ctx.lastlines hrange
    rw [hwrite, Option.bind_eq_bind, Option.bind_some, bind_continued]
    exact LoopSpec.add hlt hnew hbefore hready hfits henc (ih _ _ _ _ hmeasure htail)

/-- One pass over an entity that the new frame does not have. -/
theorem emitLoop_removal
    (ih : ∀ ents newindex oldindex count,
      (new.numEntities - newindex) + (old.numEntities - oldindex) ≤ passes →
      Ready ctx old new ents newindex oldindex →
      LoopSpec ctx old new ents newindex oldindex count
        (emitLoop ctx old new passes ents newindex oldindex count))
    (hpasses : (new.numEntities - newindex) + (old.numEntities - oldindex) ≤ passes + 1)
    (hready : Ready ctx old new ents newindex oldindex) (hlt : oldindex < old.numEntities)
    (hold : live ctx ents old oldindex =
      ents (slot ctx old oldindex) :: live ctx ents old (oldindex + 1))
    (hbefore : ∀ n ∈ live ctx ents new newindex,
      (ents (slot ctx old oldindex)).number < n.number) :
    LoopSpec ctx old new ents newindex oldindex count
      (do
        let cmds ← svWriteDeltaEntity ctx.protocolVersion (ents (slot ctx old oldindex)) none
          true false false
        let (ents, rest, count) ←
          emitLoop ctx old new passes ents newindex (oldindex + 1) count
        some (ents, cmds ++ rest, count)) := by
  have htail : Ready ctx old new ents newindex (oldindex + 1) :=
    hready.mono (by rw [hold]; exact List.suffix_cons _ _) (List.suffix_refl _)
  rw [svWriteDeltaEntity, Option.bind_eq_bind, Option.bind_some, bind_continued]
  exact LoopSpec.remove hold hbefore (ih _ _ _ _ (by omega) htail)

end Passes

/-- The loop emits the edits from the two positions on, and changes nothing but the new window. -/
theorem emitLoop_spec (ctx : Context) (old new : ClientFrame) (passes : Nat) (ents : Entities)
    (newindex oldindex count : Nat)
    (hpasses : (new.numEntities - newindex) + (old.numEntities - oldindex) ≤ passes)
    (hready : Ready ctx old new ents newindex oldindex) :
    LoopSpec ctx old new ents newindex oldindex count
      (emitLoop ctx old new passes ents newindex oldindex count) := by
  induction passes generalizing ents newindex oldindex count with
  | zero => exact LoopSpec.done (by omega) (by omega)
  | succ passes ih =>
    have hskip : ∀ index, live ctx ents old oldindex = live ctx ents old (oldindex + 1) →
        oldindex < old.numEntities → index = newindex →
        LoopSpec ctx old new ents newindex oldindex count
          (emitLoop ctx old new passes ents index (oldindex + 1) count) := by
      rintro index hlive hlt rfl
      apply LoopSpec.skipOld hlive
      apply ih _ _ _ _ (by omega)
      exact hready.mono ⟨[], hlive.symm⟩ (List.suffix_refl _)
    rw [emitLoop]
    rcases numberAt_cases ctx ents new newindex with
      ⟨hnewdone, hnum, hnewlive⟩ | ⟨hnewlt, hnum, hz, hnewlive⟩ | ⟨hnewlt, hnum, hz, hnewlive⟩
    · rcases numberAt_cases ctx ents old oldindex with
        ⟨holddone, honum, holdlive⟩ | ⟨holdlt, honum, ho, holdlive⟩ |
          ⟨holdlt, honum, ho, holdlive⟩
      · rw [if_pos (by omega)]
        exact LoopSpec.done holddone hnewdone
      · rw [if_neg (by omega)]
        simp only [hnum, honum]
        exact hskip _ holdlive holdlt rfl
      · have hrange : InRange (ents (slot ctx old oldindex)) := by
          apply hready.oldRange
          rw [holdlive]
          exact List.mem_cons_self
        have hlt := lt_sentinel hrange
        rw [if_neg (by omega)]
        simp only [hnum, honum]
        rw [if_neg (by decide), if_neg ho, if_neg (by omega), if_neg (by omega)]
        apply emitLoop_removal ih (by omega) hready holdlt holdlive
        rw [hnewlive]
        simp
    · rw [if_neg (by omega)]
      simp only [hnum, if_pos]
      apply LoopSpec.skipNew hnewlt hz hnewlive hready
      apply ih
      · omega
      · exact hready.mono (List.suffix_refl _) ⟨[], hnewlive.symm⟩
    · have hnrange : InRange (ents (slot ctx new newindex)) := by
        apply hready.newRange
        rw [hnewlive]
        exact List.mem_cons_self
      have hnlt := lt_sentinel hnrange
      rw [if_neg (by omega)]
      simp only [hnum, if_neg hz]
      rcases numberAt_cases ctx ents old oldindex with
        ⟨holddone, honum, holdlive⟩ | ⟨holdlt, honum, ho, holdlive⟩ |
          ⟨holdlt, honum, ho, holdlive⟩
      · simp only [honum]
        rw [if_neg (by decide), if_neg (by omega), if_pos hnlt]
        apply emitLoop_addition ih (by omega) hready hnewlt hz hnewlive
        rw [holdlive]
        simp
      · simp only [honum, if_pos]
        exact hskip _ holdlive holdlt rfl
      · simp only [honum, if_neg ho]
        have hosorted := hready.oldSorted
        rw [holdlive] at hosorted
        have holater := (List.pairwise_cons.mp hosorted).1
        have hnsorted := hready.newSorted
        rw [hnewlive] at hnsorted
        have hnlater := (List.pairwise_cons.mp hnsorted).1
        split
        · rename_i hsame
          obtain ⟨cmds, hwrite, henc⟩ := svWriteDeltaEntity_change
            ctx.protocolVersion ctx.lastlines hsame.symm hnrange
          rw [hwrite, Option.bind_eq_bind, Option.bind_some, bind_continued]
          apply LoopSpec.change hnewlt hnewlive holdlive hsame hready henc
          apply ih _ _ _ _ (by omega)
          exact hready.mono (by rw [holdlive]; exact List.suffix_cons _ _)
            (by rw [hnewlive]; exact List.suffix_cons _ _)
        · rename_i hne
          split
          · rename_i hlt
            apply emitLoop_addition ih (by omega) hready hnewlt hz hnewlive
            rw [holdlive]
            intro o hmem
            rcases List.mem_cons.mp hmem with rfl | hmem
            · exact hlt
            · exact Nat.lt_trans hlt (holater o hmem)
          · rename_i hge
            apply emitLoop_removal ih (by omega) hready holdlt holdlive
            rw [hnewlive]
            intro n hmem
            have hlt : (ents (slot ctx old oldindex)).number <
                (ents (slot ctx new newindex)).number := by omega
            rcases List.mem_cons.mp hmem with rfl | hmem
            · exact hlt
            · exact Nat.lt_trans hlt (hnlater n hmem)

/-! ## The message against the windows -/

/-- The non-player additions beyond the limit. -/
def beyondLimit (ctx : Context) (olds news : List EntityState) : List EntityState :=
  ((additions EntityState.number olds news).filter fun s =>
    decide (s.number > ctx.maxclients)).drop ctx.newEntities

theorem live_takeOut {ctx : Context} {ents : Entities} {frame : ClientFrame} {index : Nat}
    {numbers : List Nat} :
    live ctx (takeOut ents (slots ctx frame index) numbers) frame index =
      (live ctx ents frame index).filter fun s => s.number ∉ numbers := by
  have hkeep : ∀ s ∈ slots ctx frame index,
      takeOut ents (slots ctx frame index) numbers s =
        if (ents s).number ∈ numbers then { ents s with number := 0 } else ents s := by
    intro s hs
    simp [takeOut, hs]
  rw [live, live, List.map_congr_left hkeep]
  generalize slots ctx frame index = window
  induction window with
  | nil => rfl
  | cons s window ih =>
    simp only [List.map_cons, List.filter_cons]
    by_cases hmem : (ents s).number ∈ numbers
    · simp only [if_pos hmem]
      by_cases hz : (ents s).number = 0
      · simpa [hz] using ih
      · simpa [hz, hmem] using ih
    · simp only [if_neg hmem]
      by_cases hz : (ents s).number = 0
      · simpa [hz] using ih
      · simpa [hz, hmem] using ih

/-- A message and the window it leaves: the commands are in order of entity number,
a client that applies them to the old window has what is left of the new one, and
what was taken out are the non-player additions beyond the limit. -/
structure Correct (ctx : Context) (ents : Entities) (old new : ClientFrame) (out : Emitted) :
    Prop where
  ordered : out.commands.Pairwise fun a b => a.number < b.number
  decoded : patch (reader ctx.lastlines) out.commands ((live ctx ents old 0).map view) =
    (live ctx out.ents new 0).map view
  left : live ctx out.ents new 0 = (live ctx ents new 0).filter fun s => s.number ∉
    (beyondLimit ctx (live ctx ents old 0) (live ctx ents new 0)).map EntityState.number
  taken : out.ents = takeOut ents (slots ctx new 0)
    ((beyondLimit ctx (live ctx ents old 0) (live ctx ents new 0)).map EntityState.number)

theorem svEmitPacketEntities_correct (ctx : Context) (ents : Entities)
    (base : Option ClientFrame) (new : ClientFrame)
    (old_sorted : Sorted EntityState.number (live ctx ents (oldFrame base) 0))
    (new_sorted : Sorted EntityState.number (live ctx ents new 0))
    (old_range : ∀ s ∈ live ctx ents (oldFrame base) 0, InRange s)
    (new_range : ∀ s ∈ live ctx ents new 0, InRange s) :
    ∃ out, svEmitPacketEntities ctx ents base new = some out ∧
      Correct ctx ents (oldFrame base) new out := by
  have hready : Ready ctx (oldFrame base) new ents 0 0 :=
    ⟨old_sorted, new_sorted, old_range, new_range⟩
  obtain ⟨cmds, kept, hres, henc, hkept⟩ :=
    emitLoop_spec ctx (oldFrame base) new (new.numEntities + (oldFrame base).numEntities) ents
      0 0 0 (by omega) hready
  have hdropped : dropped ctx 0 (edits EntityState.number (live ctx ents (oldFrame base) 0)
      (live ctx ents new 0)) =
      (beyondLimit ctx (live ctx ents (oldFrame base) 0) (live ctx ents new 0)).map
        EntityState.number := by
    rw [dropped, counted, filterMap_added_edits old_sorted new_sorted]
    rfl
  rw [hdropped] at hres hkept
  refine ⟨⟨takeOut ents (slots ctx new 0) _, cmds, _⟩,
    by rw [svEmitPacketEntities, hres]; rfl, ?_⟩
  refine ⟨henc.sorted (sorted_edits old_sorted new_sorted), ?_, live_takeOut, rfl⟩
  dsimp only
  rw [live_takeOut, ← hkept]
  exact patch_encodes view_number old_sorted new_sorted henc

private def exampleState (number : Nat) : EntityState where
  number := number
  origin := ⟨number, 0, 0⟩
  angles := ⟨0, 0, 0⟩
  oldOrigin := ⟨0, 0, 0⟩
  modelindex := 1
  frame := 0
  skinnum := 0
  effects := 0
  renderfx := 0
  renderfx2 := 0
  solid := 0
  sound := 0
  event := 0
  numParts := 0
  modelParts := Vector.replicate _ ⟨0, 0, Vector.replicate _ 0, []⟩
  modelLighting := ⟨Vector.replicate _ 0, 0, []⟩
  scale := 1

private def exampleContext : Context where
  numClientEntities := 1024
  maxclients := 1
  newEntities := 1
  protocolVersion := 114
  lastlines := ⟨fun _ => exampleState 0, fun _ => Nat.zero_lt_succ _⟩

/-- Entity 1 goes, 2 stays, 3 is added and 4 is beyond the limit. -/
theorem svEmitPacketEntities_example :
    ∃ out, svEmitPacketEntities exampleContext exampleState (some ⟨1, 2⟩) ⟨2, 3⟩ = some out ∧
      Correct exampleContext exampleState ⟨1, 2⟩ ⟨2, 3⟩ out :=
  svEmitPacketEntities_correct exampleContext exampleState (some ⟨1, 2⟩) ⟨2, 3⟩ (by decide)
    (by decide) (by decide) (by decide)

example : (beyondLimit exampleContext (live exampleContext exampleState ⟨1, 2⟩ 0)
    (live exampleContext exampleState ⟨2, 3⟩ 0)).map EntityState.number = [4] := by decide

end PacketEntities
