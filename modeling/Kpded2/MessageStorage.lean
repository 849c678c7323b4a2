import Mathlib.Data.List.GetD
import Kpded2.ClientDatagram
import Kpded2.StepRuns

/-!
# Where queued messages are stored

Only `cursize` tells whether `data` is a block of its own. `Stored` says that it
tells this rightly for every queued message, and that no other block is left.
-/
namespace MessageStorage
open ClientDatagram MessageList NetChan Outcome OwnedHeap Protocol SizeBuf StepRuns

/-- The block that a queued message owns. -/
def owner (m : Messages) (i : Nat) : Option Nat :=
  if i ∈ m.list then
    match (m.nodes i).data with
    | .localbuff => none
    | .malloced block => some block
  else none

structure Stored (m : Messages) : Prop where
  long_iff : ∀ i ∈ m.list, (m.nodes i).cursize > msgMaxSizeBeforeMalloc ↔
    ∃ block contents, (m.nodes i).data = .malloced block ∧
      m.heap.blocks block = some contents ∧ (m.nodes i).cursize ≤ contents.length
  short : ∀ i ∈ m.list, (m.nodes i).cursize ≤ msgMaxSizeBeforeMalloc →
    (m.nodes i).data = .localbuff ∧ 0 ≤ (m.nodes i).cursize ∧
      (m.nodes i).cursize ≤ (m.nodes i).localbuff.length
  owns : Owns m.heap (owner m)
  noLeak : NoLeak m.heap (owner m)

def NodeStored (heap : Heap (List UInt8)) (node : Messagelist) : Prop :=
  match node.data with
  | .localbuff => 0 ≤ node.cursize ∧ node.cursize ≤ msgMaxSizeBeforeMalloc
  | .malloced block => msgMaxSizeBeforeMalloc < node.cursize ∧
    ∃ contents, heap.blocks block = some contents ∧ node.cursize ≤ contents.length

structure Inv (m : Messages) : Prop where
  sorted : m.list.Pairwise (· < ·)
  stored : ∀ i ∈ m.list, NodeStored m.heap (m.nodes i)
  owns : Owns m.heap (owner m)
  noLeak : NoLeak m.heap (owner m)
  localbuff : ∀ i, (m.nodes i).localbuff.length = msgMaxSizeBeforeMalloc
  gone : m.allocated = false → m.list = []

theorem stored_of_inv {m : Messages} (h : Inv m) : Stored m where
  long_iff := by
    intro i hi
    have hn := h.stored i hi
    unfold NodeStored at hn
    split at hn
    · rename_i hdata
      constructor
      · intro hlong
        omega
      · rintro ⟨block, _, hblock, _⟩
        rw [hdata] at hblock
        cases hblock
    · rename_i block hdata
      obtain ⟨hlong, contents, hcontents, hle⟩ := hn
      exact ⟨fun _ => ⟨block, contents, hdata, hcontents, hle⟩, fun _ => hlong⟩
  short := by
    intro i hi hshort
    have hn := h.stored i hi
    unfold NodeStored at hn
    split at hn
    · rename_i hdata
      exact ⟨hdata, hn.1, by rw [h.localbuff i]; exact hn.2⟩
    · omega
  owns := h.owns
  noLeak := h.noLeak

theorem owner_eq_none_of_not_mem {m : Messages} {i : Nat} (hi : i ∉ m.list) : owner m i = none :=
  if_neg hi

theorem owner_of_mem {m : Messages} {i : Nat} (hi : i ∈ m.list) :
    owner m i = match (m.nodes i).data with
      | .localbuff => none
      | .malloced block => some block :=
  if_pos hi

/-- What a message says of its length is there to be read. -/
theorem inv_bytes {m : Messages} (h : Inv m) {i : Nat} (hi : i ∈ m.list) :
    ∃ bytes, m.bytes i = .ok bytes ∧ (bytes.length : Int) = (m.nodes i).cursize := by
  have hn := h.stored i hi
  unfold NodeStored at hn
  unfold Messages.bytes Messages.storage
  cases hdata : (m.nodes i).data with
  | localbuff =>
    rw [hdata] at hn
    have hlen := h.localbuff i
    dsimp only
    rw [if_pos ⟨hn.1, by omega⟩]
    exact ⟨_, rfl, by rw [List.length_take]; omega⟩
  | malloced block =>
    rw [hdata] at hn
    obtain ⟨hlong, contents, hcontents, hle⟩ := hn
    simp only [hcontents]
    rw [if_pos ⟨by omega, hle⟩]
    exact ⟨_, rfl, by rw [List.length_take]; omega⟩

/-! ## Deleting -/

/-- What the loops over the list leave as it is. -/
structure Kept (m m' : Messages) : Prop where
  inv : Inv m'
  nodes : m'.nodes = m.nodes
  allocated : m'.allocated = m.allocated
  sub : ∀ i ∈ m'.list, i ∈ m.list
  storage : ∀ i ∈ m'.list, m'.storage i = m.storage i

theorem Kept.refl {m : Messages} (h : Inv m) : Kept m m :=
  ⟨h, rfl, rfl, fun _ hi => hi, fun _ _ => rfl⟩

theorem Kept.trans {a b c : Messages} (h : Kept a b) (k : Kept b c) : Kept a c where
  inv := k.inv
  nodes := k.nodes.trans h.nodes
  allocated := k.allocated.trans h.allocated
  sub := fun i hi => h.sub i (k.sub i hi)
  storage := fun i hi => (k.storage i hi).trans (h.storage i (k.sub i hi))

theorem owner_erase {m : Messages} (hnodup : m.list.Nodup) (heap : Heap (List UInt8)) (i : Nat) :
    owner { m with heap, list := m.list.erase i } = Function.update (owner m) i none := by
  funext j
  by_cases hj : j = i
  · subst hj
    rw [Function.update_self]
    exact owner_eq_none_of_not_mem fun hmem => (hnodup.mem_erase_iff.mp hmem).1 rfl
  · rw [Function.update_of_ne hj, owner, owner]
    simp only [hnodup.mem_erase_iff, ne_eq, hj, not_false_eq_true, true_and]

/-- A message that is deleted leaves the others their storage. -/
theorem svDeleteMessage_ok {m : Messages} (h : Inv m) {i : Nat} (hi : i ∈ m.list) :
    ∃ m', svDeleteMessage m i = .ok m' ∧ Kept m m' ∧ m'.list = m.list.erase i := by
  have hnodup : m.list.Nodup := h.sorted.imp Nat.ne_of_lt
  have hmem : ∀ j, j ∈ m.list.erase i → j ≠ i ∧ j ∈ m.list := fun j hj =>
    hnodup.mem_erase_iff.mp hj
  have hsorted : (m.list.erase i).Pairwise (· < ·) := h.sorted.sublist List.erase_sublist
  have hgone : m.allocated = false → m.list.erase i = [] := fun ha => by rw [h.gone ha]; rfl
  have hn := h.stored i hi
  unfold NodeStored at hn
  split at hn
  · rename_i hdata
    have howner : owner m i = none := by rw [owner_of_mem hi, hdata]
    have hupdate : Function.update (owner m) i none = owner m := by
      rw [← howner, Function.update_eq_self]
    refine ⟨{ m with list := m.list.erase i }, ?_, ⟨⟨hsorted, ?_, ?_, ?_, h.localbuff, hgone⟩,
      rfl, rfl, fun j hj => (hmem j hj).2, fun _ _ => rfl⟩, rfl⟩
    · rw [svDeleteMessage, if_neg (by omega)]
    · exact fun j hj => h.stored j (hmem j hj).2
    · rw [owner_erase hnodup m.heap i, hupdate]
      exact h.owns
    · rw [owner_erase hnodup m.heap i, hupdate]
      exact h.noLeak
  · rename_i block hdata
    have howner : owner m i = some block := by rw [owner_of_mem hi, hdata]
    obtain ⟨heap, hfree⟩ := Heap.exists_free (h.owns.live i block howner)
    have hother : ∀ j ∈ m.list.erase i, ∀ b, (m.nodes j).data = .malloced b →
        heap.blocks b = m.heap.blocks b := by
      intro j hj b hb
      have hne : b ≠ block := by
        rintro rfl
        have hj' : owner m j = some b := by rw [owner_of_mem (hmem j hj).2, hb]
        exact (hmem j hj).1 (h.owns.exclusive j i b hj' howner)
      rw [Heap.free_eq_some hfree, Function.update_of_ne hne]
    refine ⟨{ m with heap, list := m.list.erase i }, ?_, ⟨⟨hsorted, ?_, ?_, ?_, h.localbuff,
      hgone⟩, rfl, rfl, fun j hj => (hmem j hj).2, ?_⟩, rfl⟩
    · rw [svDeleteMessage, if_pos hn.1, hdata]
      simp only [hfree]
    · intro j hj
      have hstored := h.stored j (hmem j hj).2
      unfold NodeStored at hstored ⊢
      cases hdataj : (m.nodes j).data with
      | localbuff => simpa only [hdataj] using hstored
      | malloced b =>
        simp only [hdataj] at hstored ⊢
        rwa [hother j hj b hdataj]
    · rw [owner_erase hnodup heap i]
      exact h.owns.free howner hfree
    · rw [owner_erase hnodup heap i]
      exact h.noLeak.free howner hfree
    · intro j hj
      unfold Messages.storage
      cases hdataj : (m.nodes j).data with
      | localbuff => rfl
      | malloced b => exact hother j hj b hdataj

theorem nodup_of_inv {m : Messages} (h : Inv m) : m.list.Nodup := h.sorted.imp Nat.ne_of_lt

/-- A loop never deletes this message. -/
def Spared {α : Type} (visit : Messages → α → Nat → Except Stop (α × Visit)) (j : Nat) : Prop :=
  ∀ m acc acc', visit m acc j ≠ .ok (acc', .delete)

/-- A loop that asks nothing unusual of the messages leaves the kept ones alone. -/
theorem sweep_kept {α : Type} {visit : Messages → α → Nat → Except Stop (α × Visit)}
    (Good : α → Prop) {m : Messages} {l : List Nat} {acc : α} (h : Inv m) (hnodup : l.Nodup)
    (hl : ∀ i ∈ l, i ∈ m.list) (hacc : Good acc)
    (hvisit : ∀ m acc i, Inv m → i ∈ m.list → Good acc →
      Ensures .storage (fun r => Good r.1) (visit m acc i)) :
    Ensures .storage
      (fun r => Good r.1 ∧ Kept m r.2 ∧ ∀ j ∈ m.list, Spared visit j → j ∈ r.2.list)
      (sweep visit l acc m) := by
  induction l generalizing acc m with
  | nil => exact ensures_ok ⟨hacc, Kept.refl h, fun _ hj _ => hj⟩
  | cons i rest ih =>
    obtain ⟨hi, hrest⟩ := List.nodup_cons.mp hnodup
    have hrestl : ∀ j ∈ rest, j ∈ m.list := fun j hj => hl j (List.mem_cons_of_mem i hj)
    have hv := hvisit m acc i h (hl i List.mem_cons_self) hacc
    unfold sweep
    cases hverdict : visit m acc i with
    | error e =>
      rw [hverdict] at hv
      exact hv
    | ok r =>
      rw [hverdict] at hv
      obtain ⟨acc', verdict⟩ := r
      cases verdict with
      | keep => exact ih h hrest hrestl hv
      | stop => exact ensures_ok ⟨hv, Kept.refl h, fun _ hj _ => hj⟩
      | delete =>
        obtain ⟨m', hdelete, hkept, hlist⟩ := svDeleteMessage_ok h (hl i List.mem_cons_self)
        have hmem : ∀ j ∈ m.list, j ≠ i → j ∈ m'.list := by
          intro j hj hne
          rw [hlist]
          exact (List.mem_erase_of_ne hne).mpr hj
        simp only [bind, Except.bind, hdelete]
        refine (ih hkept.inv hrest (fun j hj => hmem j (hrestl j hj) ?_) hv).mono ?_
        · rintro rfl
          exact hi hj
        · rintro r ⟨hgood, hr, hspared⟩
          refine ⟨hgood, hkept.trans hr, fun j hj hs => hspared j (hmem j hj ?_) hs⟩
          rintro rfl
          exact hs m acc acc' hverdict

theorem svClearMessageList_ok {m : Messages} (h : Inv m) :
    ∃ m', svClearMessageList m = .ok m' ∧ Kept m m' ∧ m'.list = [] := by
  have hclear : ∀ l (m : Messages), Inv m → m.list = l →
      ∃ m', sweep (fun _ acc _ => .ok (acc, Visit.delete)) l () m = .ok ((), m') ∧ Kept m m' ∧
        m'.list = [] := by
    intro l
    induction l with
    | nil => exact fun m h hm => ⟨m, rfl, Kept.refl h, hm⟩
    | cons i rest ih =>
      intro m h hm
      obtain ⟨m1, hdelete, hkept, hlist⟩ := svDeleteMessage_ok h (i := i) (by rw [hm]; simp)
      have hrest : m1.list = rest := by rw [hlist, hm, List.erase_cons_head]
      obtain ⟨m2, hsweep, hkept2, hnil⟩ := ih m1 hkept.inv hrest
      refine ⟨m2, ?_, hkept.trans hkept2, hnil⟩
      simp only [sweep, bind, Except.bind, hdelete]
      exact hsweep
  obtain ⟨m', hsweep, hkept, hnil⟩ := hclear m.list m h rfl
  refine ⟨m', ?_, hkept, hnil⟩
  simp only [svClearMessageList, bind, Except.bind, hsweep]

/-! ## Changing one message -/

/-- The index of a new message is above all others. -/
theorem lt_nextIndex {m : Messages} (h : Inv m) : ∀ i ∈ m.list, i < nextIndex m := by
  intro i hi
  unfold nextIndex
  rcases List.eq_nil_or_concat m.list with hnil | ⟨front, last, hlast⟩
  · rw [hnil] at hi
    cases hi
  · have hsorted := h.sorted
    rw [hlast, List.concat_eq_append] at hi hsorted ⊢
    rw [List.getLastD_concat]
    rcases List.mem_append.mp hi with hfront | hlast
    · have := (List.pairwise_append.mp hsorted).2.2 i hfront last (List.mem_singleton_self last)
      omega
    · have := List.mem_singleton.mp hlast
      omega

theorem int16_of_lt {n : Nat} (h : n < 2 ^ 15) : int16 n = n := by
  unfold int16
  rw [Int.bmod_eq_of_le (by omega) (by omega)]

/-- The node keeps its storage and what it says about it stays right. -/
theorem inv_updateNode {m : Messages} (h : Inv m) {i : Nat} {node : Messagelist}
    (hdata : node.data = (m.nodes i).data)
    (hlocal : node.localbuff.length = msgMaxSizeBeforeMalloc)
    (hstored : i ∈ m.list → NodeStored m.heap node) :
    Inv { m with nodes := Function.update m.nodes i node } := by
  have howner : owner { m with nodes := Function.update m.nodes i node } = owner m := by
    funext j
    unfold owner
    by_cases hj : j = i
    · subst hj
      simp only [Function.update_self, hdata]
    · simp only [Function.update_of_ne hj]
  refine ⟨h.sorted, ?_, by rw [howner]; exact h.owns, by rw [howner]; exact h.noLeak, ?_, h.gone⟩
  · intro j hj
    by_cases hji : j = i
    · subst hji
      simp only [Function.update_self]
      exact hstored hj
    · simp only [Function.update_of_ne hji]
      exact h.stored j hj
  · intro j
    by_cases hji : j = i
    · subst hji
      simp only [Function.update_self]
      exact hlocal
    · simp only [Function.update_of_ne hji]
      exact h.localbuff j

theorem nodeStored_congr {heap heap' : Heap (List UInt8)} {node : Messagelist}
    (hblocks : ∀ b contents, node.data = .malloced b → heap.blocks b = some contents →
      ∃ contents', heap'.blocks b = some contents' ∧ contents'.length = contents.length)
    (h : NodeStored heap node) : NodeStored heap' node := by
  unfold NodeStored at h ⊢
  cases hdata : node.data with
  | localbuff => simpa only [hdata] using h
  | malloced b =>
    simp only [hdata] at h ⊢
    obtain ⟨hlong, contents, hcontents, hle⟩ := h
    obtain ⟨contents', hcontents', hlen⟩ := hblocks b contents hdata hcontents
    exact ⟨hlong, contents', hcontents', by rw [hlen]; exact hle⟩

theorem inv_setReliable {m : Messages} (h : Inv m) (i : Nat) (reliable : Bool) :
    Inv (m.setReliable i reliable) :=
  inv_updateNode h rfl (h.localbuff i) fun hi => h.stored i hi

/-- A write inside the message changes neither its storage nor its size. -/
theorem write_ok {m : Messages} (h : Inv m) {i : Nat} (offset : Nat) (new : List UInt8)
    (hi : i ∈ m.list) (hfits : ∃ storage, m.storage i = some storage ∧ offset + new.length ≤ storage.length) :
    ∃ m', m.write i offset new = .ok m' ∧ Inv m' ∧ m'.list = m.list ∧
      m'.allocated = m.allocated ∧
      (∀ j, (m'.nodes j).data = (m.nodes j).data ∧ (m'.nodes j).cursize = (m.nodes j).cursize ∧
        (m'.nodes j).reliable = (m.nodes j).reliable) ∧
      ∃ storage, m.storage i = some storage ∧ m'.storage i =
        some (storage.take offset ++ new ++ storage.drop (offset + new.length)) := by
  obtain ⟨storage, hstorage, hle⟩ := hfits
  have hlen : (storage.take offset ++ new ++ storage.drop (offset + new.length)).length =
      storage.length := by
    simp only [List.length_append, List.length_take, List.length_drop]
    omega
  have hn := h.stored i hi
  unfold Messages.write
  simp only [hstorage, if_pos hle]
  unfold Messages.storage at hstorage
  cases hdata : (m.nodes i).data with
  | localbuff =>
    simp only [hdata] at hstorage ⊢
    have hlocal := h.localbuff i
    have hs := Option.some.inj hstorage
    refine ⟨_, rfl, inv_updateNode h hdata.symm (by rw [hlen, ← hs]; exact hlocal) ?_, rfl, rfl,
      ?_, storage, rfl, ?_⟩
    · intro _
      unfold NodeStored at hn ⊢
      simpa only [hdata] using hn
    · intro j
      by_cases hj : j = i
      · subst hj
        simp only [Function.update_self, hdata, and_self]
      · simp only [Function.update_of_ne hj, and_self]
    · unfold Messages.storage
      simp only [Function.update_self]
  | malloced block =>
    simp only [hdata] at hstorage ⊢
    obtain ⟨heap, hheap⟩ := Heap.exists_store (h := m.heap) (b := block) (by rw [hstorage]; rfl)
      (storage.take offset ++ new ++ storage.drop (offset + new.length))
    have hsame := Heap.isSome_store hheap
    simp only [hheap]
    refine ⟨{ m with heap }, rfl, ⟨h.sorted, ?_, h.owns.of_isSome hsame, h.noLeak.of_isSome hsame,
      h.localbuff, h.gone⟩, rfl, rfl, fun _ => ⟨rfl, rfl, rfl⟩, storage, rfl, ?_⟩
    · intro j hj
      refine nodeStored_congr ?_ (h.stored j hj)
      intro b contents hb hcontents
      rw [Heap.store_eq_some hheap]
      by_cases hbb : b = block
      · subst hbb
        rw [Function.update_self]
        refine ⟨_, rfl, ?_⟩
        rw [hlen, Option.some.inj (hstorage.symm.trans hcontents)]
      · rw [Function.update_of_ne hbb]
        exact ⟨contents, hcontents, rfl⟩
    · unfold Messages.storage
      simp only [hdata, Heap.store_eq_some hheap, Function.update_self]

theorem inv_setCursize {m : Messages} (h : Inv m) {i : Nat} {cursize : Int}
    (hstored : NodeStored m.heap { m.nodes i with cursize }) : Inv (m.setCursize i cursize) :=
  inv_updateNode h rfl (h.localbuff i) fun _ => hstored

/-- A message of less than 32768 bytes is stored as `MSG_EndWrite` means it. -/
theorem inv_msgEndWrite {m : Messages} (h : Inv m) (hallocated : m.allocated = true)
    {data : List UInt8} (hlen : data.length < 2 ^ 15) :
    Inv (msgEndWrite { m with list := m.list ++ [nextIndex m] } (nextIndex m) data) := by
  have hlt := lt_nextIndex h
  have hnew : nextIndex m ∉ m.list := fun hmem => Nat.lt_irrefl _ (hlt _ hmem)
  have hne : ∀ i ∈ m.list, i ≠ nextIndex m := fun i hi => Nat.ne_of_lt (hlt i hi)
  have hsorted : (m.list ++ [nextIndex m]).Pairwise (· < ·) := by
    rw [List.pairwise_append]
    refine ⟨h.sorted, List.pairwise_singleton _ _, ?_⟩
    intro i hi j hj
    rw [List.mem_singleton.mp hj]
    exact hlt i hi
  have hfree : owner m (nextIndex m) = none := owner_eq_none_of_not_mem hnew
  have hgone : ∀ l : List Nat, m.allocated = false → l = [] := by
    intro l hl
    rw [hallocated] at hl
    cases hl
  unfold msgEndWrite
  dsimp only
  split
  · rename_i hlong
    have howner : owner { m with
        list := m.list ++ [nextIndex m]
        heap := m.heap.alloc data
        nodes := Function.update m.nodes (nextIndex m)
          { m.nodes (nextIndex m) with
            data := .malloced m.heap.next, cursize := int16 data.length } } =
        Function.update (owner m) (nextIndex m) (some m.heap.next) := by
      funext j
      by_cases hj : j = nextIndex m
      · subst hj
        simp [owner]
      · simp [owner, hj]
    refine ⟨hsorted, ?_, by rw [howner]; exact h.owns.alloc _ _, by
      rw [howner]; exact h.noLeak.alloc hfree _, ?_, hgone _⟩
    · intro i hi
      by_cases hin : i = nextIndex m
      · subst hin
        simp only [NodeStored, Function.update_self]
        rw [int16_of_lt hlen]
        exact ⟨by exact_mod_cast hlong, data, Heap.blocks_alloc_next _ _, Int.le_refl _⟩
      · have hold : i ∈ m.list := by
          rcases List.mem_append.mp hi with hi | hi
          · exact hi
          · exact absurd (List.mem_singleton.mp hi) hin
        simp only [Function.update_of_ne hin]
        refine nodeStored_congr ?_ (h.stored i hold)
        intro b contents _ hcontents
        rw [Heap.blocks_alloc_of_isSome (by rw [hcontents]; rfl)]
        exact ⟨contents, hcontents, rfl⟩
    · intro i
      by_cases hin : i = nextIndex m
      · subst hin
        simp only [Function.update_self]
        exact h.localbuff _
      · simp only [Function.update_of_ne hin]
        exact h.localbuff i
  · rename_i hshort
    have howner : owner { m with
        list := m.list ++ [nextIndex m]
        nodes := Function.update m.nodes (nextIndex m)
          { m.nodes (nextIndex m) with
            data := .localbuff
            localbuff := data ++ (m.nodes (nextIndex m)).localbuff.drop data.length
            cursize := int16 data.length } } = owner m := by
      funext j
      by_cases hj : j = nextIndex m
      · subst hj
        rw [hfree]
        simp [owner]
      · simp [owner, hj]
    refine ⟨hsorted, ?_, by rw [howner]; exact h.owns, by rw [howner]; exact h.noLeak, ?_,
      hgone _⟩
    · intro i hi
      by_cases hin : i = nextIndex m
      · subst hin
        simp only [NodeStored, Function.update_self]
        rw [int16_of_lt hlen]
        exact ⟨Int.natCast_nonneg _, by exact_mod_cast Nat.le_of_not_lt hshort⟩
      · have hold : i ∈ m.list := by
          rcases List.mem_append.mp hi with hi | hi
          · exact hi
          · exact absurd (List.mem_singleton.mp hi) hin
        simp only [Function.update_of_ne hin]
        exact h.stored i hold
    · intro i
      by_cases hin : i = nextIndex m
      · subst hin
        simp only [Function.update_self, List.length_append, List.length_drop, h.localbuff]
        omega
      · simp only [Function.update_of_ne hin]
        exact h.localbuff i

/-! ## Operations on the list -/

/-- A client's messages are in order and its channel is as `Netchan_Setup` left it. -/
structure ClientInv (client : Client) : Prop where
  messages : Inv client.messages
  setup : client.control.netchan.message.buffsize = 1390

theorem clientInv_overflow {client : Client} (h : ClientInv client) :
    Ensures .storage ClientInv (overflow client) := by
  obtain ⟨m, hclear, hkept, _⟩ := svClearMessageList_ok h.messages
  rw [overflow, hclear]
  exact ensures_ok ⟨hkept.inv, h.setup⟩

/-- Without its list a client has no messages. -/
theorem dropMessages_ok {client : Client} (h : ClientInv client) (state : ClientState) :
    Ensures .storage (fun client' => ClientInv client' ∧ client'.messages.list = [])
      (dropMessages client state) := by
  unfold dropMessages
  by_cases hallocated : client.messages.allocated = true
  · obtain ⟨m, hclear, hkept, hnil⟩ := svClearMessageList_ok h.messages
    rw [if_pos hallocated, hclear]
    have hi := hkept.inv
    exact ensures_ok ⟨⟨⟨hi.sorted, hi.stored, hi.owns, hi.noLeak, hi.localbuff, fun _ => hnil⟩,
      h.setup⟩, hnil⟩
  · rw [if_neg hallocated]
    have hi := h.messages
    have hnil := hi.gone (by simpa using hallocated)
    exact ensures_ok ⟨⟨⟨hi.sorted, hi.stored, hi.owns, hi.noLeak, hi.localbuff, fun _ => hnil⟩,
      h.setup⟩, hnil⟩

theorem owner_of_nil {m : Messages} (h : m.list = []) : owner m = fun _ => none := by
  funext i
  exact owner_eq_none_of_not_mem (by rw [h]; exact List.not_mem_nil)

/-- A list that nothing has been added to. -/
theorem inv_begin (allocated : Bool) : Inv { allocated := allocated } where
  sorted := List.Pairwise.nil
  stored := fun _ hi => (List.not_mem_nil hi).elim
  owns := by
    rw [owner_of_nil rfl]
    exact owns_empty
  noLeak := by
    rw [owner_of_nil rfl]
    exact noLeak_empty
  localbuff := fun _ => List.length_replicate
  gone := fun _ => rfl

theorem clientInv_connect {client : Client} (h : ClientInv client) {control : Control}
    (hsetup : control.netchan.message.buffsize = 1390) :
    Ensures .storage ClientInv (connect client control) := by
  apply (dropMessages_ok h .free).bind
  rintro client' ⟨h', hnil⟩
  have howns := h'.messages.owns
  have hnoLeak := h'.messages.noLeak
  rw [owner_of_nil hnil] at howns hnoLeak
  refine ensures_ok ⟨⟨List.Pairwise.nil, fun i hi => (List.not_mem_nil hi).elim, ?_, ?_,
    fun _ => List.length_replicate, fun _ => rfl⟩, hsetup⟩
  · rw [owner_of_nil rfl]
    exact howns
  · rw [owner_of_nil rfl]
    exact hnoLeak

theorem dropOtherLayouts_ok {m : Messages} (h : Inv m) {next : Nat} (hnext : next ∈ m.list) :
    Ensures .storage (fun m' => Inv m' ∧ next ∈ m'.list ∧ m'.storage next = m.storage next ∧
      (m'.nodes next).data = (m.nodes next).data ∧
      (m'.nodes next).cursize = (m.nodes next).cursize) (dropOtherLayouts m next) := by
  unfold dropOtherLayouts
  split
  · have hvisit : ∀ m acc i, Inv m → i ∈ m.list → True →
        Ensures .storage (fun _ => True) (visitLayout next m acc i) := by
      intro m acc i _ _ _
      unfold visitLayout
      split
      · exact ensures_ok trivial
      · split <;> exact ensures_ok trivial
    have hspared : Spared (visitLayout next) next := by
      intro m acc acc'
      rw [visitLayout, if_pos rfl]
      intro heq
      cases heq
    apply (sweep_kept (fun _ => True) h (nodup_of_inv h) (fun _ hi => hi) trivial hvisit).bind
    rintro ⟨reliable, m'⟩ ⟨-, hkept, hmem⟩
    have hin := hmem next hnext hspared
    have hnodes : m'.nodes = m.nodes := hkept.nodes
    refine ensures_ok ⟨inv_setReliable hkept.inv next reliable, hin, ?_, ?_, ?_⟩
    · rw [← hkept.storage next hin]
      simp only [Messages.storage, Messages.setReliable, Function.update_self]
    · simp only [Messages.setReliable, Function.update_self, hnodes]
    · simp only [Messages.setReliable, Function.update_self, hnodes]
  · exact ensures_ok ⟨h, hnext, rfl, rfl, rfl⟩

/-- What makes `SV_AddMessageSingle` pad a message of at least three bytes. -/
def isModelskin (data : List UInt8) : Bool :=
  data.getD 0 0 == svcConfigstring &&
  (let cs := int16 ((data.getD 1 0).toNat + (data.getD 2 0).toNat * 2 ^ 8)
   decide (cs > csModelskins) && decide (cs < csModelskins + maxModels)) &&
  data.getD (data.length - 1) 0 == 3

/-- The length of the message fits `cursize`, and its padding fits where it is put.
A message of 1390 bytes or more is never padded: it overflows the client. -/
def FitsStorage (state : ClientState) (data : List UInt8) : Prop :=
  data.length < 2 ^ 15 ∧
    (state = .spawned ∨ isModelskin data = false ∨ data.length < 67 ∨ 1390 ≤ data.length)

/-- A byte behind the message is written inside its storage. -/
theorem padModelskin_ok {m : Messages} (h : Inv m) {i : Nat} (hi : i ∈ m.list)
    {data rest : List UInt8} (hstorage : m.storage i = some (data ++ rest))
    (hcursize : (m.nodes i).cursize = data.length) (hwritten : data ≠ [])
    (hlen : data.length < 1390) {state : ClientState} (hfits : FitsStorage state data) :
    Ensures .storage Inv (padModelskin state m i) := by
  have hpos := List.length_pos_of_ne_nil hwritten
  have hn := h.stored i hi
  unfold padModelskin
  split
  · rename_i hindex
    rw [hcursize, if_neg (by omega)]
    split
    · rename_i hlast
      rw [show ((data.length : Int) - 1).toNat = data.length - 1 by omega] at hlast
      have hshort : data.length < 67 := by
        by_contra hlong
        rw [byteAt_of_storage hstorage (by omega)] at hlast
        unfold modelskinIndex at hindex
        rw [byteAt_of_storage hstorage (by omega), byteAt_of_storage hstorage (by omega),
          byteAt_of_storage hstorage (by omega)] at hindex
        simp only [Bool.and_eq_true, decide_eq_true_eq, beq_iff_eq] at hindex
        obtain ⟨⟨hstate, htype⟩, hlow, hhigh⟩ := hindex
        rcases hfits.2 with hspawned | hskin | hlt | hge
        · exact hstate hspawned
        · simp only [isModelskin, htype, hlow, hhigh, hlast, beq_self_eq_true, decide_true,
            Bool.and_self, Bool.true_eq_false] at hskin
        · omega
        · omega
      have hlocal : (m.nodes i).data = .localbuff := by
        unfold NodeStored at hn
        split at hn
        · assumption
        · have hmax : msgMaxSizeBeforeMalloc = 69 := rfl
          omega
      have hroom : (data ++ rest).length = 69 := by
        simp only [Messages.storage, hlocal] at hstorage
        rw [← Option.some.inj hstorage, h.localbuff i]
        rfl
      obtain ⟨m', hwrite, hinv, hlist, _, hsame, _⟩ := write_ok h data.length
        [svcStufftext, 0, svcNop] hi ⟨_, hstorage, by rw [hroom]; simp only [List.length_cons, List.length_nil]; omega⟩
      rw [Int.toNat_natCast, hwrite]
      refine ensures_ok (inv_setCursize hinv ?_)
      obtain ⟨hdata, _, _⟩ := hsame i
      simp only [NodeStored, hdata, hlocal]
      have hmax : msgMaxSizeBeforeMalloc = 69 := rfl
      omega
    · exact ensures_ok h
  · exact ensures_ok h

/-- What `MSG_EndWrite` leaves in the node. -/
theorem msgEndWrite_storage (m : Messages) (i : Nat) (data : List UInt8) :
    (∃ rest, (msgEndWrite m i data).storage i = some (data ++ rest)) ∧
      ((msgEndWrite m i data).nodes i).cursize = int16 data.length := by
  unfold msgEndWrite
  dsimp only
  split
  · constructor
    · refine ⟨[], ?_⟩
      simp only [Messages.storage, Function.update_self, Heap.blocks_alloc_next, List.append_nil]
    · simp only [Function.update_self]
  · constructor
    · refine ⟨(m.nodes i).localbuff.drop data.length, ?_⟩
      simp only [Messages.storage, Function.update_self]
    · simp only [Function.update_self]

/-- A message that fits is queued with a storage of its own. -/
theorem queueMessage_ok {client : Client} (h : ClientInv client)
    (hallocated : client.messages.allocated = true) {data : List UInt8} (hwritten : data ≠ [])
    (hfits : nextIndex client.messages < maxMessagesPerList - 1 →
      FitsStorage client.control.state data) (reliable : Bool) :
    Ensures .storage ClientInv (queueMessage client data reliable) := by
  unfold queueMessage
  dsimp only
  split
  · exact clientInv_overflow h
  · rename_i hindex
    have hfits := hfits (by omega)
    have hinv := inv_msgEndWrite h.messages hallocated hfits.1
    obtain ⟨⟨rest, hstorage⟩, hcursize⟩ := msgEndWrite_storage
      { client.messages with list := client.messages.list ++ [nextIndex client.messages] }
      (nextIndex client.messages) data
    rw [int16_of_lt hfits.1] at hcursize
    split
    · exact clientInv_overflow ⟨hinv, h.setup⟩
    · rename_i hsize
      rw [hcursize, h.setup] at hsize
      generalize hm : msgEndWrite _ _ _ = m at hinv hstorage hcursize ⊢
      have hin : nextIndex client.messages ∈ m.list := by
        rw [← hm]
        unfold msgEndWrite
        dsimp only
        split <;> simp
      apply (dropOtherLayouts_ok (inv_setReliable hinv _ reliable) hin).bind
      rintro m' ⟨hinv', hin', hstorage', hdata', hcursize'⟩
      have hkeep : (m.setReliable (nextIndex client.messages) reliable).storage
          (nextIndex client.messages) = m.storage (nextIndex client.messages) := by
        simp only [Messages.storage, Messages.setReliable, Function.update_self]
      have hsizes : ((m.setReliable (nextIndex client.messages) reliable).nodes
          (nextIndex client.messages)).cursize = (m.nodes (nextIndex client.messages)).cursize := by
        simp only [Messages.setReliable, Function.update_self]
      apply (padModelskin_ok hinv' hin' (hstorage'.trans (hkeep.trans hstorage))
        (hcursize'.trans (hsizes.trans hcursize)) hwritten (by omega) hfits).bind
      intro m'' hinv''
      exact ensures_ok ⟨hinv'', h.setup⟩

theorem checkLayout_control {c c' : Control} {msg msg' : Msgbuff} {reliable : Bool}
    (h : checkLayout c msg reliable = some (c', msg')) :
    c'.state = c.state ∧ c'.netchan = c.netchan := by
  unfold checkLayout at h
  dsimp only at h
  split at h
  · split at h
    · cases h
    · cases h
      exact ⟨rfl, rfl⟩
  · cases h
    exact ⟨rfl, rfl⟩

/-- What is no layout is queued as it is. -/
theorem svAddMessageSingle_other (forceReconnect : Bool) (client : Client) {msg : Msgbuff}
    (reliable : Bool) (other : msg.data.getD 0 0 ≠ svcLayout) :
    svAddMessageSingle forceReconnect client msg reliable =
      if refusesMessage forceReconnect client reliable then .ok client
      else queueMessage client msg.data reliable := by
  have first : (msg.data ++ msg.leftover).getD 0 0 ≠ svcLayout := by
    rwa [List.getD_append _ _ _ _ (List.length_pos_of_ne_nil msg.written)]
  have layout : checkLayout client.control msg reliable = some (client.control, msg) :=
    if_neg first
  simp only [svAddMessageSingle, layout]

/-- A message that gets a node fits it. -/
def AddFits (forceReconnect : Bool) (client : Client) (msg : Msgbuff) (reliable : Bool) : Prop :=
  refusesMessage forceReconnect client reliable = false →
  ∀ control msg', checkLayout client.control msg reliable = some (control, msg') →
  nextIndex client.messages < maxMessagesPerList - 1 →
  FitsStorage client.control.state msg'.data

theorem svAddMessageSingle_ok {forceReconnect : Bool} {client : Client} {msg : Msgbuff}
    {reliable : Bool} (h : ClientInv client) (hfits : AddFits forceReconnect client msg reliable) :
    Ensures .storage ClientInv (svAddMessageSingle forceReconnect client msg reliable) := by
  unfold svAddMessageSingle
  split
  · exact ensures_ok h
  · rename_i hrefused
    have hrefused : refusesMessage forceReconnect client reliable = false := by simpa using hrefused
    have hallocated : client.messages.allocated = true := by
      unfold refusesMessage at hrefused
      simp only [Bool.or_eq_false_iff] at hrefused
      simpa using hrefused.1.2.1
    split
    · exact ensures_ok h
    · rename_i control msg' hlayout
      obtain ⟨hstate, hnetchan⟩ := checkLayout_control hlayout
      have hsetup : control.netchan.message.buffsize = 1390 := by rw [hnetchan, h.setup]
      refine queueMessage_ok (show ClientInv { client with control } from ⟨h.messages, hsetup⟩)
        hallocated msg'.written ?_ reliable
      intro hindex
      dsimp only
      rw [hstate]
      exact hfits hrefused control msg' hlayout hindex

theorem szWrite_buffsize {buf out : Sizebuf} {data : List UInt8} (h : szWrite buf data = some out) :
    out.buffsize = buf.buffsize := by
  unfold szWrite at h
  split at h
  · split at h
    · cases h
      split <;> rfl
    · cases h
  · cases h
    rfl

theorem writeOrStop_buffsize (buf : Sizebuf) (data : List UInt8) :
    Ensures .storage (fun out => out.buffsize = buf.buffsize) (writeOrStop buf data) := by
  unfold writeOrStop
  split
  · rename_i hwrite
    exact ensures_ok (szWrite_buffsize hwrite)
  · exact ensures_error (by decide)

theorem bytes_ensures {m : Messages} (h : Inv m) {i : Nat} (hi : i ∈ m.list) :
    Ensures .storage (fun bytes => m.bytes i = .ok bytes) (m.bytes i) := by
  obtain ⟨bytes, hbytes, _⟩ := inv_bytes h hi
  exact ensures_of_eq_ok hbytes hbytes

theorem writeReliable_ok {m : Messages} {w : Written} {i : Nat} (h : Inv m) (hi : i ∈ m.list)
    (hw : w.message.buffsize = 1390) :
    Ensures .storage (fun r => r.1.message.buffsize = 1390) (writeReliable m w i) := by
  unfold writeReliable
  split
  · apply (bytes_ensures h hi).bind
    intro bytes _
    dsimp only
    split
    · exact ensures_ok hw
    · split
      · split
        · exact ensures_error (by decide)
        · exact (writeOrStop_buffsize _ _).bind fun out hout => ensures_ok (hout.trans hw)
      · exact (writeOrStop_buffsize _ _).bind fun out hout => ensures_ok (hout.trans hw)
  · exact ensures_ok hw

theorem svWriteReliableMessages_ok {client : Client} (h : ClientInv client) (buffSize : Nat) :
    Ensures .storage ClientInv (svWriteReliableMessages client buffSize) := by
  unfold svWriteReliableMessages
  dsimp only
  split
  · exact ensures_ok h
  · split
    · exact ensures_ok h
    · apply (sweep_kept (fun w => w.message.buffsize = 1390) h.messages (nodup_of_inv h.messages)
        (fun _ hi => hi) h.setup fun m w i hm hi hw => writeReliable_ok hm hi hw).bind
      rintro ⟨w, m⟩ ⟨hw, hkept, _⟩
      have hclient : ClientInv
          { control := setChannelMessage client.control w.message, messages := m } :=
        ⟨hkept.inv, hw⟩
      dsimp only
      split
      · exact (dropMessages_ok hclient .zombie).mono fun _ hr => hr.1
      · split
        · exact ensures_error (by decide)
        · exact ensures_ok hclient

/-! ## The datagram -/

theorem writeOrStop_ok (buf : Sizebuf) (data : List UInt8) :
    Ensures .storage (fun _ => True) (writeOrStop buf data) :=
  (writeOrStop_buffsize buf data).mono fun _ _ => trivial

theorem writeOrStop_fits {buf : Sizebuf} {data : List UInt8}
    (h : buf.cursize + data.length ≤ buf.maxsize) :
    writeOrStop buf data = .ok { buf with data := buf.data ++ data } := by
  rw [writeOrStop, szWrite_of_fits h]

theorem compressBuffer_ok (zlib : Zlib) (input : List UInt8) (out : Sizebuf) :
    Ensures .storage (fun _ => True) (compressBuffer zlib input out) := by
  unfold compressBuffer
  dsimp only
  split
  · exact ensures_ok trivial
  · split
    · exact ensures_ok trivial
    · split
      · exact ensures_error (by decide)
      · apply (writeOrStop_ok _ _).bind
        intro out _
        apply (writeOrStop_ok _ _).bind
        intro out _
        exact ensures_ok trivial

/-- How long a stream may be that replaces a message in the whole datagram. -/
def streamRoom (length : Nat) : Nat := min 1390 (length - 1) - 3

/-- A whole datagram takes the header and the stream, which are shorter than the input. -/
theorem compressBuffer_whole (zlib : Zlib) (input : List UInt8) {out : Sizebuf}
    (hempty : out.data = []) (hmaxsize : out.maxsize = 1390) :
    Ensures .storage (fun r => ∀ out', r = some out' → ∃ stream,
        zlib.deflate input (streamRoom input.length) = some stream ∧
        stream.length + 3 < input.length ∧ stream.length + 3 ≤ 1390 ∧
        out' = { out with data := svcCpacket :: (shortBytes stream.length ++ stream) })
      (compressBuffer zlib input out) := by
  unfold compressBuffer
  dsimp only
  split
  · exact ensures_ok fun _ h => by cases h
  · rename_i hlong
    have hcursize : out.cursize = 0 := by rw [Sizebuf.cursize, hempty]; rfl
    have havail : ((min ((out.maxsize : Int) - out.cursize) (input.length - 1) - 3) %
        2 ^ 32).toNat = streamRoom input.length := by
      rw [hmaxsize, hcursize, streamRoom]
      omega
    rw [havail]
    split
    · exact ensures_ok fun _ h => by cases h
    · rename_i stream hstream
      have hle := zlib.deflate_le _ _ _ hstream
      have hroom : stream.length + 3 < input.length ∧ stream.length + 3 ≤ 1390 := by
        unfold streamRoom at hle
        omega
      split
      · exact ensures_error (by decide)
      · have hshort : (shortBytes stream.length).length = 2 := rfl
        rw [writeOrStop_fits (by rw [hcursize, hmaxsize]; simp)]
        change Ensures _ _ (writeOrStop _ _ >>= _)
        rw [writeOrStop_fits (by
          simp only [Sizebuf.cursize, hempty, List.nil_append, List.length_singleton, hmaxsize]
          omega)]
        refine ensures_ok ?_
        intro out' hout
        refine ⟨stream, hstream, hroom.1, hroom.2, ?_⟩
        rw [← Option.some.inj hout]
        simp only [hempty, List.nil_append, List.cons_append]

theorem bytes_storage {m : Messages} {i : Nat} {bytes : List UInt8} (h : m.bytes i = .ok bytes) :
    (bytes.length : Int) = (m.nodes i).cursize ∧
      ∃ storage, m.storage i = some storage ∧ bytes.length ≤ storage.length := by
  unfold Messages.bytes at h
  split at h
  · rename_i storage hstorage
    split at h
    · rename_i hsize
      cases h
      rw [List.length_take]
      exact ⟨by omega, storage, hstorage, Nat.min_le_right _ _⟩
    · cases h
  · cases h

/-- Compressing the reliable message leaves a block only where it leaves a long message. -/
def Harmless (zlib : Zlib) (rmessage : Option Nat) (m : Messages) : Prop :=
  ∀ i, rmessage = some i → m.byteAt i 0 ≠ svcCpacket → ∀ bytes, m.bytes i = .ok bytes →
    ∀ stream, zlib.deflate bytes (streamRoom bytes.length) = some stream →
      bytes.length ≤ msgMaxSizeBeforeMalloc ∨ msgMaxSizeBeforeMalloc < stream.length + 3

/-- The reliable message is still in the list, and compressing it is harmless. -/
structure Compressible (zlib : Zlib) (rmessage : Option Nat) (m : Messages) : Prop where
  queued : ∀ i, rmessage = some i → i ∈ m.list
  harmless : Harmless zlib rmessage m

structure DraftInv (d : Draft) : Prop where
  messages : Inv d.messages
  setup : d.control.netchan.message.buffsize = 1390
  empty : d.msg.data = []
  buffsize : d.msg.buffsize = 1390

/-- A message overwritten by a shorter one of the same kind of size. -/
theorem overwrite_ok {m : Messages} (h : Inv m) {i : Nat} (hi : i ∈ m.list)
    {bytes : List UInt8} (hbytes : m.bytes i = .ok bytes) (new : List UInt8) (hshorter : new.length ≤ bytes.length)
    (hsame : bytes.length ≤ msgMaxSizeBeforeMalloc ∨ msgMaxSizeBeforeMalloc < new.length)
    (hint16 : new.length < 2 ^ 15) :
    ∃ m', m.write i 0 new = .ok m' ∧ Inv (m'.setCursize i (int16 new.length)) ∧
      m'.list = m.list ∧ ∀ k < new.length,
        (m'.setCursize i (int16 new.length)).byteAt i k = new.getD k 0 := by
  obtain ⟨hcursize, storage, hstorage, hle⟩ := bytes_storage hbytes
  obtain ⟨m', hwrite, hinv, hlist, _, hnodes, storage', hstorage', hnew⟩ :=
    write_ok h 0 new hi ⟨storage, hstorage, by omega⟩
  obtain ⟨hdata, hcursize', _⟩ := hnodes i
  refine ⟨m', hwrite, inv_setCursize hinv ?_, hlist, ?_⟩
  · have hn := hinv.stored i (by rw [hlist]; exact hi)
    unfold NodeStored at hn ⊢
    rw [int16_of_lt hint16]
    cases hd : (m'.nodes i).data with
    | localbuff =>
      simp only [hd] at hn ⊢
      omega
    | malloced block =>
      simp only [hd] at hn ⊢
      obtain ⟨hlong, contents, hcontents, hfits⟩ := hn
      exact ⟨by omega, contents, hcontents, by omega⟩
  · intro k hk
    have hkeep : (m'.setCursize i (int16 new.length)).storage i = m'.storage i := by
      simp only [Messages.storage, Messages.setCursize, Function.update_self]
    rw [List.take_zero, List.nil_append] at hnew
    exact byteAt_of_storage (hkeep.trans hnew) hk

/-- Compressing the reliable message keeps the storage. -/
theorem compressReliable_ok {zlib : Zlib} {rmessage : Option Nat} {d : Draft}
    (h : DraftInv d) (hharmless : Compressible zlib rmessage d.messages) :
    Ensures .storage (fun r => ∀ d', r = some d' → DraftInv d' ∧
      Compressible zlib rmessage d'.messages) (compressReliable zlib rmessage d) := by
  unfold compressReliable
  dsimp only
  split
  · rename_i i
    have hi := hharmless.queued i rfl
    split
    · exact ensures_ok fun _ hd => by cases hd
    · rename_i hplain
      apply (bytes_ensures h.messages hi).bind
      intro bytes hbytes
      have hwhole := compressBuffer_whole zlib bytes
        (show { d.msg with maxsize := d.msg.buffsize }.data = [] from h.empty) h.buffsize
      apply hwhole.bind
      rintro (_ | out) hout
      · exact ensures_ok fun _ hd => by cases hd
      · obtain ⟨stream, hstream, hshorter, hfits, hdata⟩ := hout out rfl
        have hlen : out.data.length = stream.length + 3 := by
          rw [hdata]
          simp only [List.length_cons, List.length_append, shortBytes, List.length_nil]
          omega
        obtain ⟨m', hwrite, hinv, hlist, hread⟩ := overwrite_ok h.messages hi hbytes
          out.data (by omega)
          (by rw [hlen]; exact hharmless.harmless i rfl hplain bytes hbytes stream hstream) (by omega)
        dsimp only
        rw [hwrite]
        refine ensures_ok ?_
        rintro d' ⟨⟩
        refine ⟨⟨hinv, h.setup, rfl, ?_⟩, ?_, ?_⟩
        · rw [hdata]
          exact h.buffsize
        · rintro j ⟨⟩
          exact hlist ▸ hi
        · rintro j ⟨⟩ hplain'
          refine absurd ?_ hplain'
          refine (hread 0 (by omega)).trans ?_
          rw [hdata]
          rfl
  · split
    · have hwhole := compressBuffer_whole zlib d.control.netchan.reliable
        (show { d.msg with maxsize := d.msg.buffsize }.data = [] from h.empty) h.buffsize
      apply hwhole.bind
      rintro (_ | out) hout
      · exact ensures_ok fun _ hd => by cases hd
      · obtain ⟨stream, _, _, _, hdata⟩ := hout out rfl
        refine ensures_ok ?_
        rintro d' ⟨⟩
        refine ⟨⟨h.messages, h.setup, rfl, ?_⟩, hharmless⟩
        rw [hdata]
        exact h.buffsize
    · exact ensures_ok fun _ hd => by cases hd

theorem exists_unreliableSize {m : Messages} (h : Inv m) {l : List Nat}
    (hl : ∀ i ∈ l, i ∈ m.list) : ∃ size, unreliableSize m l = .ok size := by
  induction l with
  | nil => exact ⟨0, rfl⟩
  | cons i rest ih =>
    obtain ⟨size, hsize⟩ := ih fun j hj => hl j (List.mem_cons_of_mem i hj)
    obtain ⟨bytes, hbytes, _⟩ := inv_bytes h (hl i List.mem_cons_self)
    unfold unreliableSize
    rw [hsize, hbytes]
    split <;> exact ⟨_, rfl⟩

theorem appendUnreliable_ok {m : Messages} (h : Inv m) {l : List Nat} (hl : ∀ i ∈ l, i ∈ m.list)
    (frame : List UInt8) : Ensures .storage (fun _ => True) (appendUnreliable m frame l) := by
  induction l generalizing frame with
  | nil => exact ensures_ok trivial
  | cons i rest ih =>
    have hrest : ∀ j ∈ rest, j ∈ m.list := fun j hj => hl j (List.mem_cons_of_mem i hj)
    unfold appendUnreliable
    split
    · exact ih hrest frame
    · apply (bytes_ensures h (hl i List.mem_cons_self)).bind
      intro bytes _
      split
      · exact ensures_ok trivial
      · exact ih hrest _

theorem noteLayout_netchan (m : Messages) (i : Nat) (control : Control) :
    (noteLayout m i control).netchan = control.netchan := by
  unfold noteLayout
  split <;> rfl

/-- After the frame only the list and the channel's set-up matter. -/
structure DraftEnd (d : Draft) : Prop where
  messages : Inv d.messages
  setup : d.control.netchan.message.buffsize = 1390

/-- A frame that did not fit leaves everything for the next attempt. -/
def Attempted (zlib : Zlib) (rmessage : Option Nat) (compress : Bool) (r : Draft × Bool) : Prop :=
  DraftEnd r.1 ∧ (r.2 = false → DraftInv r.1 ∧
    (compress = true → Compressible zlib rmessage r.1.messages))

theorem putPlain_ok {zlib : Zlib} {rmessage : Option Nat} {compress : Bool} {d : Draft}
    (h : DraftInv d)
    (hharmless : compress = true → Compressible zlib rmessage d.messages) (frame : List UInt8) :
    Ensures .storage (Attempted zlib rmessage compress) (putPlain frame d) := by
  unfold putPlain
  split
  · apply (writeOrStop_ok _ _).bind
    intro msg _
    exact ensures_ok ⟨⟨h.messages, h.setup⟩, fun hdone => by cases hdone⟩
  · exact ensures_ok ⟨⟨h.messages, h.setup⟩, fun _ => ⟨h, hharmless⟩⟩

/-- Compressing the frame keeps the storage. -/
theorem putCompressed_ok {zlib : Zlib} {rmessage : Option Nat} {compress : Bool} {d : Draft}
    (h : DraftInv d)
    (hharmless : compress = true → Compressible zlib rmessage d.messages) (frame : List UInt8) :
    Ensures .storage (Attempted zlib rmessage compress) (putCompressed zlib frame d) := by
  unfold putCompressed
  apply (appendUnreliable_ok h.messages (fun _ hi => hi) frame).bind
  rintro ⟨whole, stopAt⟩ -
  apply (compressBuffer_ok zlib whole d.msg).bind
  rintro (_ | msg) -
  · apply (compressBuffer_ok zlib frame d.msg).bind
    rintro (_ | msg) -
    · exact putPlain_ok h hharmless frame
    · exact ensures_ok ⟨⟨h.messages, h.setup⟩, fun hdone => by cases hdone⟩
  · apply (sweep_kept (fun c : Control => c.netchan.message.buffsize = 1390) h.messages
      (nodup_of_inv h.messages) (fun _ hi => hi) h.setup ?_).bind
    · rintro ⟨control, messages⟩ ⟨hsetup, hkept, _⟩
      exact ensures_ok ⟨⟨hkept.inv, hsetup⟩, fun hdone => by cases hdone⟩
    · intro m control i _ _ hsetup
      unfold deleteUntil
      split
      · exact ensures_ok hsetup
      · split
        · exact ensures_ok hsetup
        · refine ensures_ok ?_
          rw [noteLayout_netchan]
          exact hsetup

theorem putFrame_ok {env : Env} {rmessage : Option Nat} {d : Draft} (h : DraftInv d)
    (hharmless : env.compress = true → Compressible env.zlib rmessage d.messages)
    (frame : List UInt8) :
    Ensures .storage (Attempted env.zlib rmessage env.compress) (putFrame env rmessage frame d) := by
  unfold putFrame
  split
  · rename_i hcompress
    obtain ⟨rest, hrest⟩ := exists_unreliableSize h.messages fun _ hi => hi
    simp only [hrest, bind, Except.bind]
    split
    · apply (compressReliable_ok h (hharmless hcompress)).bind
      rintro (_ | d') hd
      · exact putCompressed_ok h hharmless frame
      · obtain ⟨h', hharmless'⟩ := hd d' rfl
        dsimp only
        split
        · exact putCompressed_ok h' (fun _ => hharmless') frame
        · exact putPlain_ok h' (fun _ => hharmless') frame
    · exact putPlain_ok h hharmless frame
  · exact putPlain_ok h hharmless frame

theorem putAttempt_ok {env : Env} {rmessage : Option Nat} {d : Draft} (h : DraftInv d)
    (hharmless : env.compress = true → Compressible env.zlib rmessage d.messages)
    (frame : Option (List UInt8)) :
    Ensures .storage (Attempted env.zlib rmessage env.compress)
      (putAttempt env rmessage d frame) := by
  cases frame with
  | none => exact ensures_ok ⟨⟨h.messages, h.setup⟩, fun _ => ⟨h, hharmless⟩⟩
  | some frame => exact putFrame_ok h hharmless frame

theorem retryframe_ok {σ : Type} {env : Env} {write : σ → Nat → Option (Frame σ)} {rmessage : Option Nat}
    (fuel : Nat) {memory : σ} {newEntities : Nat} {reduced : Bool} {d : Draft}
    (h : DraftInv d)
    (hharmless : env.compress = true → Compressible env.zlib rmessage d.messages) :
    Ensures .storage (fun r => DraftEnd r.2)
      (retryframe env write rmessage fuel memory newEntities reduced d) := by
  induction fuel generalizing memory newEntities reduced d with
  | zero => exact ensures_error (by decide)
  | succ fuel ih =>
    unfold retryframe
    cases write memory newEntities with
    | none => exact ensures_error (by decide)
    | some frame =>
      apply (putAttempt_ok h hharmless frame.bytes).bind
      rintro ⟨d', done⟩ ⟨hend, hretry⟩
      dsimp only
      split
      · exact ensures_ok hend
      · rename_i hdone
        obtain ⟨h', hharmless'⟩ := hretry (by simpa using hdone)
        split
        · exact ih h' hharmless'
        · exact ensures_ok hend

/-- The first frame that does not overflow `frame_buf`. -/
def firstFrame {σ : Type} (write : σ → Nat → Option (Frame σ)) :
    Nat → σ → Nat → Bool → Option (List UInt8)
  | 0, _, _, _ => none
  | fuel + 1, memory, newEntities, reduced =>
    match write memory newEntities with
    | none => none
    | some frame =>
      match frame.bytes with
      | some bytes => some bytes
      | none =>
        if frame.newEntities ≠ 0 then
          firstFrame write fuel frame.memory (if reduced then 0 else frame.newEntities / 2) true
        else none

theorem putPlain_of_budget {rate size : Nat} {frame : List UInt8} {d : Draft}
    (h : DraftInv d) (hbudget : overBudget rate size d.msg = false)
    (hsize : frame.length ≤ size) :
    Ensures .storage (fun r => DraftEnd r.1 ∧ r.2 = true) (putPlain frame d) := by
  unfold overBudget at hbudget
  have hfits : frame.length ≤ d.msg.maxsize := by
    simp only [decide_eq_false_iff_not, not_or] at hbudget
    omega
  rw [putPlain, if_pos hfits]
  apply (writeOrStop_ok _ _).bind
  intro msg _
  exact ensures_ok ⟨⟨h.messages, h.setup⟩, rfl⟩

/-- Only the first frame that does not overflow decides whether the reliable message
is compressed. -/
theorem retryframe_first {σ : Type} {env : Env} {write : σ → Nat → Option (Frame σ)}
    {rmessage : Option Nat} (fuel : Nat) {memory : σ} {newEntities : Nat} {reduced : Bool}
    {d : Draft} (h : DraftInv d)
    (hharmless : env.compress = true → ∀ frame rest,
      firstFrame write fuel memory newEntities reduced = some frame →
      unreliableSize d.messages d.messages.list = .ok rest →
      overBudget env.rate (frame.length + rest) d.msg = true →
      Compressible env.zlib rmessage d.messages) :
    Ensures .storage (fun r => DraftEnd r.2)
      (retryframe env write rmessage fuel memory newEntities reduced d) := by
  induction fuel generalizing memory newEntities reduced with
  | zero => exact ensures_error (by decide)
  | succ fuel ih =>
    obtain ⟨rest, hrest⟩ := exists_unreliableSize h.messages fun _ hi => hi
    unfold firstFrame at hharmless
    cases hwrite : write memory newEntities with
    | none =>
      unfold retryframe
      rw [hwrite]
      exact ensures_error (by decide)
    | some attempt =>
      cases hbytes : attempt.bytes with
      | none =>
        simp only [hwrite, hbytes] at hharmless
        unfold retryframe
        rw [hwrite]
        change Ensures _ _ (putAttempt env rmessage d attempt.bytes >>= _)
        rw [hbytes]
        change Ensures _ _ (if attempt.newEntities ≠ 0 then _ else _)
        by_cases hmore : attempt.newEntities ≠ 0
        · rw [if_pos hmore]
          simp only [if_pos hmore] at hharmless
          exact ih hharmless
        · rw [if_neg hmore]
          exact ensures_ok ⟨h.messages, h.setup⟩
      | some frame =>
        simp only [hwrite, hbytes] at hharmless
        by_cases hover : env.compress = true →
            overBudget env.rate (frame.length + rest) d.msg = true
        · exact retryframe_ok (fuel + 1) h fun hcompress =>
            hharmless hcompress frame rest rfl hrest (hover hcompress)
        · -- Within the budget the frame fits as it is, and the loop ends.
          obtain ⟨hcompress, hover⟩ := Classical.not_imp.mp hover
          have hbudget : overBudget env.rate (frame.length + rest) d.msg = false := by
            simpa using hover
          have hput : putAttempt env rmessage d (some frame) = putPlain frame d := by
            simp only [putAttempt, putFrame, hcompress, if_true, hrest, bind, Except.bind, hbudget,
              Bool.false_eq_true, if_false]
          unfold retryframe
          rw [hwrite]
          change Ensures _ _ (putAttempt env rmessage d attempt.bytes >>= _)
          rw [hbytes, hput]
          apply (putPlain_of_budget h hbudget (Nat.le_add_right _ _)).bind
          rintro ⟨d', done⟩ ⟨hend, hdone⟩
          dsimp only at hdone ⊢
          rw [hdone]
          exact ensures_ok hend

theorem reserve_ok {client : Client} (h : ClientInv client) :
    Ensures .storage (fun r => r.1.data = [] ∧ r.1.buffsize = 1390 ∧
      (∀ i, r.2 = some i → i ∈ client.messages.list) ∧ reserve client = .ok r) (reserve client) := by
  have hok : ∃ r, reserve client = .ok r ∧ r.1.data = [] ∧ r.1.buffsize = 1390 ∧
      ∀ i, r.2 = some i → i ∈ client.messages.list := by
    unfold reserve
    dsimp only
    split
    · split
      · exact ⟨_, rfl, rfl, h.setup, fun _ hi => by cases hi⟩
      · exact ⟨_, rfl, rfl, h.setup, fun _ hi => by cases hi⟩
    · split
      · exact ⟨_, rfl, rfl, h.setup, fun _ hi => by cases hi⟩
      · rename_i i hfirst
        have hi : i ∈ client.messages.list := List.mem_of_find?_eq_some hfirst
        obtain ⟨bytes, hbytes, _⟩ := inv_bytes h.messages hi
        rw [hbytes]
        refine ⟨_, rfl, rfl, h.setup, ?_⟩
        rintro j ⟨⟩
        exact hi
  obtain ⟨r, hr, hempty, hbuffsize, hqueued⟩ := hok
  exact ensures_of_eq_ok hr ⟨hempty, hbuffsize, hqueued, hr⟩

/-! ## A sound that is registered -/

theorem length_soundMessage (index : Nat) : (soundMessage index).data.length = 21 := by
  have : (Bytes.ascii "world/watr_un.wav").length = 17 := by decide
  simp only [soundMessage, shortBytes, List.length_cons, List.length_append, List.length_nil, this]

/-- Building the frame sends the configstring of the sound to the client. -/
def Registers (forceReconnect : Bool) (registered : Option Nat) (client : Client) : Prop :=
  client.control.nodata = false ∧ registered.isSome ∧
    refusesMessage forceReconnect client true = false

/-- A message more would clear the list. -/
def Full (client : Client) : Prop := maxMessagesPerList - 1 ≤ nextIndex client.messages

instance (forceReconnect : Bool) (registered : Option Nat) (client : Client) :
    Decidable (Registers forceReconnect registered client) :=
  inferInstanceAs (Decidable (_ ∧ _))

instance (client : Client) : Decidable (Full client) := inferInstanceAs (Decidable (_ ≤ _))

/-- One reliable message more. -/
structure Appended (client c : Client) (data : List UInt8) : Prop where
  control : c.control = client.control
  allocated : c.messages.allocated = client.messages.allocated
  list : c.messages.list = client.messages.list ++ [nextIndex client.messages]
  own : c.messages.bytes (nextIndex client.messages) = .ok data
  reliable : (c.messages.nodes (nextIndex client.messages)).reliable = true
  nodes : ∀ i ∈ client.messages.list, c.messages.nodes i = client.messages.nodes i
  storage : ∀ i ∈ client.messages.list, c.messages.storage i = client.messages.storage i

theorem Appended.others {client c : Client} {data : List UInt8} (h : Appended client c data) {i : Nat}
    (hi : i ∈ client.messages.list) : c.messages.bytes i = client.messages.bytes i :=
  bytes_congr (h.nodes i hi) (h.storage i hi)

/-- The list is full and is cleared. -/
structure Cleared (client c : Client) : Prop where
  control : c.control = { client.control with overflowed := true }
  allocated : c.messages.allocated = client.messages.allocated
  nodes : c.messages.nodes = client.messages.nodes
  list : c.messages.list = []

/-- What building the frame does to the list. -/
inductive Effect (forceReconnect : Bool) (registered : Option Nat) (client c : Client) : Prop where
  | same (unchanged : c = client) (silent : ¬Registers forceReconnect registered client)
  | cleared (cleared : Cleared client c) (registers : Registers forceReconnect registered client)
      (full : Full client)
  | appended (index : Nat) (added : Appended client c (soundMessage index).data)
      (registers : Registers forceReconnect registered client) (room : ¬Full client)

theorem overflow_effect {client : Client} (h : ClientInv client) :
    ∃ c, overflow client = .ok c ∧ ClientInv c ∧ Cleared client c := by
  obtain ⟨m, hclear, hkept, hempty⟩ := svClearMessageList_ok h.messages
  refine ⟨{ client with messages := m, control := { client.control with overflowed := true } }, ?_,
    ⟨hkept.inv, h.setup⟩, rfl, hkept.allocated, hkept.nodes, hempty⟩
  simp only [overflow, hclear, bind, Except.bind]

/-- The configstring fits into the node and is neither a layout nor padded. -/
theorem queueMessage_sound {client : Client} (h : ClientInv client)
    (hallocated : client.messages.allocated = true) (index : Nat) (hroom : ¬Full client) :
    ∃ c, queueMessage client (soundMessage index).data true = .ok c ∧ ClientInv c ∧
      Appended client c (soundMessage index).data := by
  have hlength := length_soundMessage index
  generalize hdata : (soundMessage index).data = data at hlength
  have hfirst : data.getD 0 0 = svcConfigstring := by rw [← hdata]; rfl
  have hlast : data.getD 20 0 = 0 := by
    rw [← hdata]
    rfl
  let i := nextIndex client.messages
  let m := (msgEndWrite { client.messages with list := client.messages.list ++ [i] } i data).setReliable
    i true
  have hlocal : ¬data.length > msgMaxSizeBeforeMalloc := by
    rw [hlength]
    decide
  have hother : ∀ j ∈ client.messages.list, j ≠ i := fun j hj => Nat.ne_of_lt (lt_nextIndex h.messages j hj)
  have hinv : Inv m :=
    inv_setReliable (inv_msgEndWrite h.messages hallocated (by rw [hlength]; decide)) i true
  obtain ⟨⟨rest, hwritten⟩, hsize⟩ := msgEndWrite_storage
    { client.messages with list := client.messages.list ++ [i] } i data
  rw [int16_of_lt (by rw [hlength]; decide)] at hsize
  have hstorage : m.storage i = some (data ++ rest) := by
    rw [← hwritten]
    simp only [m, Messages.storage, Messages.setReliable, Function.update_self]
  have hcursize : (m.nodes i).cursize = data.length := by
    rw [← hsize]
    simp only [m, Messages.setReliable, Function.update_self]
  have hnodes : ∀ j ∈ client.messages.list, m.nodes j = client.messages.nodes j := by
    intro j hj
    simp only [m, Messages.setReliable, msgEndWrite, if_neg hlocal, Function.update_of_ne (hother j hj)]
  have hheap : m.heap = client.messages.heap := by
    simp only [m, Messages.setReliable, msgEndWrite, if_neg hlocal]
  have hkeep : ∀ j ∈ client.messages.list, m.storage j = client.messages.storage j := by
    intro j hj
    simp only [Messages.storage, hnodes j hj, hheap]
  refine ⟨{ client with messages := m }, ?_, ⟨hinv, h.setup⟩, rfl, ?_, ?_,
    bytes_of_storage hstorage hcursize, ?_, hnodes, hkeep⟩
  · have hsmall : ¬((msgEndWrite { client.messages with list := client.messages.list ++ [i] } i
        data).nodes i).cursize ≥ client.control.netchan.message.buffsize := by
      rw [hsize, h.setup, hlength]
      decide
    have hplain : dropOtherLayouts m i = .ok m := by
      rw [dropOtherLayouts, byteAt_of_storage hstorage (by omega), hfirst]
      rfl
    have hunpadded : padModelskin client.control.state m i = .ok m := by
      rw [padModelskin, hcursize, hlength]
      have hend : m.byteAt i 20 = 0 := by
        rw [byteAt_of_storage hstorage (by omega), hlast]
      split
      · rw [if_neg (by decide)]
        exact if_neg (by rw [show ((21 : Nat) - 1 : Int).toNat = 20 from rfl, hend]; decide)
      · rfl
    simp only [queueMessage]
    rw [if_neg (by exact hroom), if_neg hsmall]
    change (dropOtherLayouts m i >>= _) = _
    rw [hplain]
    change (padModelskin client.control.state m i >>= _) = _
    rw [hunpadded]
    rfl
  · simp only [m, Messages.setReliable, msgEndWrite, if_neg hlocal]
  · simp only [m, i, Messages.setReliable, msgEndWrite, if_neg hlocal]
  · simp only [m, i, Messages.setReliable, Function.update_self]

/-- What building the frame does to the messages. -/
theorem svBuildClientFrame_effect {env : Env} {client : Client} (h : ClientInv client)
    (sent : client.control.nodata = false) :
    ∃ c, svBuildClientFrame env client = .ok c ∧ ClientInv c ∧
      Effect env.forceReconnect env.registered client c := by
  cases hindex : env.registered with
  | none =>
    exact ⟨client, by simp only [svBuildClientFrame, hindex], h,
      .same rfl fun r => Bool.false_ne_true r.2.1⟩
  | some index =>
    have hadd := @svAddMessageSingle_other env.forceReconnect client (soundMessage index) true
      (show svcConfigstring ≠ svcLayout by decide)
    simp only [svBuildClientFrame, hindex, hadd]
    cases hrefused : refusesMessage env.forceReconnect client true with
    | true => exact ⟨client, rfl, h, .same rfl fun r => Bool.false_ne_true (r.2.2.symm.trans hrefused)⟩
    | false =>
      have hregisters : Registers env.forceReconnect (some index) client := ⟨sent, rfl, hrefused⟩
      have hallocated : client.messages.allocated = true := by
        simp only [refusesMessage, Bool.or_eq_false_iff] at hrefused
        simpa using hrefused.1.2.1
      simp only [Bool.false_eq_true, if_false]
      by_cases hfull : Full client
      · obtain ⟨c, hrun, hinv, hcleared⟩ := overflow_effect h
        exact ⟨c, (if_pos hfull).trans hrun, hinv, .cleared hcleared hregisters hfull⟩
      · obtain ⟨c, hrun, hinv, hadded⟩ := queueMessage_sound h hallocated index hfull
        exact ⟨c, hrun, hinv, .appended index hadded hregisters hfull⟩

theorem unreliableSize_append {m : Messages} (l : List Nat) {i : Nat}
    (reliable : (m.nodes i).reliable = true) : unreliableSize m (l ++ [i]) = unreliableSize m l := by
  induction l with
  | nil => simp only [List.nil_append, unreliableSize, reliable, if_true]
  | cons j l ih => simp only [List.cons_append, unreliableSize, ih]

theorem unreliableSize_congr {m m' : Messages} {l : List Nat} (nodes : ∀ i ∈ l, m'.nodes i = m.nodes i)
    (storage : ∀ i ∈ l, m'.storage i = m.storage i) : unreliableSize m' l = unreliableSize m l := by
  induction l with
  | nil => rfl
  | cons j l ih =>
    obtain ⟨hnode, hnodes⟩ := List.forall_mem_cons.mp nodes
    obtain ⟨hfirst, hrest⟩ := List.forall_mem_cons.mp storage
    simp only [unreliableSize, hnode, bytes_congr hnode hfirst, ih hnodes hrest]

theorem Appended.unreliableSize {client c : Client} {data : List UInt8} (h : Appended client c data) :
    unreliableSize c.messages c.messages.list =
      ClientDatagram.unreliableSize client.messages client.messages.list := by
  rw [h.list, unreliableSize_append _ h.reliable, unreliableSize_congr h.nodes h.storage]

/-- Where the first frame that does not overflow is over the budget, the reliable
message the datagram must leave room for is not compressed out of its block, and is not one
that was cleared with the list while the frame was built. -/
def DatagramFits {σ : Type} (env : Env) (write : σ → Nat → Option (Frame σ)) (fuel : Nat) (memory : σ)
    (client : Client) : Prop :=
  client.control.nodata = false → env.compress = true →
  ∀ msg rmessage frame rest, reserve client = .ok (msg, rmessage) →
  firstFrame write fuel memory noLimit false = some frame →
  unreliableSize client.messages client.messages.list = .ok rest →
  if Registers env.forceReconnect env.registered client ∧ Full client then
    overBudget env.rate frame.length msg = true → rmessage = none
  else
    overBudget env.rate (frame.length + rest) msg = true →
      Harmless env.zlib rmessage client.messages

theorem Compressible.of_none {zlib : Zlib} (m : Messages) : Compressible zlib none m :=
  ⟨nofun, nofun⟩

theorem Effect.compressible {σ : Type} {env : Env} {write : σ → Nat → Option (Frame σ)} {fuel : Nat}
    {memory : σ} {client c : Client} (h : ClientInv client)
    (heffect : Effect env.forceReconnect env.registered client c)
    (hfits : DatagramFits env write fuel memory client) (hnodata : client.control.nodata = false)
    (hcompress : env.compress = true) {msg : Sizebuf} {rmessage : Option Nat} {frame : List UInt8}
    {rest : Nat} (hreserve : reserve client = .ok (msg, rmessage))
    (hqueued : ∀ i, rmessage = some i → i ∈ client.messages.list)
    (hframe : firstFrame write fuel memory noLimit false = some frame)
    (hrest : unreliableSize c.messages c.messages.list = .ok rest)
    (hover : overBudget env.rate (frame.length + rest) msg = true) :
    Compressible env.zlib rmessage c.messages := by
  obtain ⟨size, hsize⟩ := exists_unreliableSize h.messages fun i (hi : i ∈ client.messages.list) => hi
  have hfits := hfits hnodata hcompress msg rmessage frame size hreserve hframe hsize
  cases heffect with
  | same hsame hsilent =>
    subst hsame
    rw [if_neg fun both => hsilent both.1] at hfits
    cases hsize.symm.trans hrest
    exact ⟨hqueued, hfits hover⟩
  | cleared hcleared hregisters hfull =>
    rw [if_pos ⟨hregisters, hfull⟩] at hfits
    rw [hcleared.list] at hrest
    cases hrest
    rw [hfits hover]
    exact .of_none _
  | appended index hadded hregisters hroom =>
    rw [if_neg fun both => hroom both.2] at hfits
    rw [hadded.unreliableSize] at hrest
    cases hsize.symm.trans hrest
    refine ⟨fun i hi => ?_, fun i hi hplain bytes hbytes => ?_⟩
    · rw [hadded.list]
      exact List.mem_append_left _ (hqueued i hi)
    · rw [hadded.others (hqueued i hi)] at hbytes
      refine hfits hover i hi ?_ bytes hbytes
      rwa [Messages.byteAt, ← hadded.storage i (hqueued i hi)]

/-- Writing the frame keeps the storage of the messages. -/
theorem frameDatagram_ok {σ : Type} {env : Env} {write : σ → Nat → Option (Frame σ)} {fuel : Nat}
    {memory : σ} {client : Client} (h : ClientInv client)
    (hfits : DatagramFits env write fuel memory client) :
    Ensures .storage (fun r => DraftEnd r.2) (frameDatagram env write fuel memory client) := by
  unfold frameDatagram
  apply (reserve_ok h).bind
  rintro ⟨msg, rmessage⟩ ⟨hempty, hbuffsize, hqueued, hreserve⟩
  dsimp only at hempty hbuffsize hqueued ⊢
  split
  · exact ensures_ok ⟨h.messages, h.setup⟩
  · rename_i hnodata
    have hnodata : client.control.nodata = false := by simpa using hnodata
    obtain ⟨c, hbuilt, hinv, heffect⟩ := @svBuildClientFrame_effect env client h hnodata
    rw [hbuilt]
    have hdraft : DraftInv ⟨c.messages, c.control, msg⟩ :=
      ⟨hinv.messages, hinv.setup, hempty, hbuffsize⟩
    apply (retryframe_first fuel hdraft fun hcompress frame rest hframe hrest hover =>
      heffect.compressible h hfits hnodata hcompress hreserve hqueued hframe hrest hover).bind
    rintro ⟨memory', d⟩ hend
    refine ensures_ok ?_
    dsimp only
    split
    · exact ⟨hend.messages, hend.setup⟩
    · exact hend

theorem fillPass_ok {chosen : Messages → Nat → Bool}
    {note : Messages → Nat → Control → Control} {d : Draft} (h : DraftEnd d)
    (hnote : ∀ m i control, (note m i control).netchan = control.netchan) :
    Ensures .storage DraftEnd (fillPass chosen note d) := by
  unfold fillPass
  apply (sweep_kept (fun acc : Sizebuf × Control => acc.2.netchan.message.buffsize = 1390)
    h.messages (nodup_of_inv h.messages) (fun _ hi => hi) h.setup ?_).bind
  · rintro ⟨⟨msg, control⟩, messages⟩ ⟨hsetup, hkept, _⟩
    exact ensures_ok ⟨hkept.inv, hsetup⟩
  · rintro m ⟨msg, control⟩ i hm hi hsetup
    unfold fill
    dsimp only
    split
    · exact ensures_ok hsetup
    · apply (bytes_ensures hm hi).bind
      intro bytes _
      split
      · exact ensures_ok hsetup
      · apply (writeOrStop_ok _ _).bind
        intro msg' _
        refine ensures_ok ?_
        rw [hnote]
        exact hsetup

theorem fillUnreliable_ok {env : Env} {d : Draft} (h : DraftEnd d) :
    Ensures .storage DraftEnd (fillUnreliable env d) := by
  unfold fillUnreliable
  split
  · apply (fillPass_ok h fun _ _ _ => rfl).bind
    intro d' hend
    split
    · exact fillPass_ok hend noteLayout_netchan
    · exact ensures_ok hend
  · exact ensures_ok h

theorem sweep_nukeUnreliable_ok (kept : UInt8 → Bool) {m : Messages} {control : Control}
    (h : Inv m) (hsetup : control.netchan.message.buffsize = 1390) :
    Ensures .storage (fun r => ClientInv { control := r.1, messages := r.2 })
      (sweep (nukeUnreliable kept) m.list control m) := by
  refine (sweep_kept (fun c : Control => c.netchan.message.buffsize = 1390) h (nodup_of_inv h)
    (fun _ hi => hi) hsetup ?_).mono fun r hr => ⟨hr.2.1.inv, hr.1⟩
  intro m control i _ _ hsetup
  unfold nukeUnreliable
  split
  · exact ensures_ok hsetup
  · split <;> exact ensures_ok hsetup

theorem svSendClientDatagram_ok {σ : Type} {env : Env} {write : σ → Nat → Option (Frame σ)} {fuel : Nat}
    {memory : σ} {client : Client} (h : ClientInv client)
    (hfits : DatagramFits env write fuel memory client) :
    Ensures .storage (fun r => ClientInv r.2.1)
      (svSendClientDatagram env write fuel memory client) := by
  unfold svSendClientDatagram
  dsimp only
  split
  · apply (sweep_nukeUnreliable_ok _ h.messages h.setup).bind
    rintro ⟨control, messages⟩ hclient
    exact ensures_ok hclient
  · apply (frameDatagram_ok h hfits).bind
    rintro ⟨memory', d⟩ hend
    apply (fillUnreliable_ok hend).bind
    intro d' hend'
    split
    · exact ensures_error (by decide)
    · apply (sweep_nukeUnreliable_ok _ hend'.messages hend'.setup).bind
      rintro ⟨control, messages⟩ hclient
      apply (svWriteReliableMessages_ok hclient _).bind
      intro client' hclient'
      exact ensures_ok hclient'

/-! ## Runs -/

/-- `update` is everything other code does to a client; it never changes the size of
the channel's buffer. The frames of a datagram are any that depend on the attempt. -/
inductive Op where
  | connect (control : Control) (setup : control.netchan.message.buffsize = 1390)
  | drop (state : ClientState)
  | update (control : Control) (setup : control.netchan.message.buffsize = 1390)
  | add (forceReconnect : Bool) (msg : Msgbuff) (reliable : Bool)
  | delete (i : Nat)
  | clear
  | writeReliable (buffSize : Nat)
  | datagram (env : Env) (frames : Nat → Nat → Option (Frame Nat)) (fuel : Nat)

def perform (client : Client) : Op → Except Stop Client
  | .connect control _ => connect client control
  | .drop state => dropMessages client state
  | .update control _ => .ok { client with control }
  | .add forceReconnect msg reliable => svAddMessageSingle forceReconnect client msg reliable
  | .delete i =>
    if i ∈ client.messages.list then do
      let messages ← svDeleteMessage client.messages i
      .ok { client with messages }
    else .ok client
  | .clear => do
    let messages ← svClearMessageList client.messages
    .ok { client with messages }
  | .writeReliable buffSize => svWriteReliableMessages client buffSize
  | .datagram env frames fuel => do
    let (_, client, _) ← svSendClientDatagram env frames fuel 0 client
    .ok client

/-- Nothing more happens after a stop. -/
def step (s : Except Stop Client) (op : Op) : Except Stop Client := s >>= fun client =>
  perform client op

/-- Every message of the client is where its size says, and the program did not free
or write anything else. -/
def Sound : Except Stop Client → Prop := Ensures .storage fun client => Stored client.messages

/-- A message fits where it is put, and compression does not take it from its block. -/
def Fits (s : Except Stop Client) (op : Op) : Prop :=
  match s, op with
  | .ok client, .add forceReconnect msg reliable => AddFits forceReconnect client msg reliable
  | .ok client, .datagram env frames fuel => DatagramFits env frames fuel 0 client
  | _, _ => True

/-- Every operation that fits keeps the storage of the messages. -/
theorem inv_step (s : Except Stop Client) (op : Op) (h : Ensures .storage ClientInv s)
    (hfits : Fits s op) : Ensures .storage ClientInv (step s op) := by
  cases s with
  | error e => exact h
  | ok client =>
    change ClientInv client at h
    change Ensures .storage ClientInv (perform client op)
    cases op with
    | connect control setup => exact clientInv_connect h setup
    | drop state => exact (dropMessages_ok h state).mono fun _ hr => hr.1
    | update control setup => exact ensures_ok ⟨h.messages, setup⟩
    | add forceReconnect msg reliable => exact svAddMessageSingle_ok h hfits
    | delete i =>
      by_cases hi : i ∈ client.messages.list
      · obtain ⟨m, hdelete, hkept, _⟩ := svDeleteMessage_ok h.messages hi
        simp only [perform, if_pos hi, hdelete]
        exact ensures_ok ⟨hkept.inv, h.setup⟩
      · simp only [perform, if_neg hi]
        exact ensures_ok h
    | clear =>
      obtain ⟨m, hclear, hkept, _⟩ := svClearMessageList_ok h.messages
      simp only [perform, hclear]
      exact ensures_ok ⟨hkept.inv, h.setup⟩
    | writeReliable buffSize => exact svWriteReliableMessages_ok h buffSize
    | datagram env frames fuel =>
      apply (svSendClientDatagram_ok h hfits).bind
      rintro ⟨_, client', _⟩ hclient'
      exact ensures_ok hclient'

theorem clientInv_new {control : Control}
    (setup : control.netchan.message.buffsize = 1390) : ClientInv { control } :=
  ⟨inv_begin false, setup⟩

/-- In every run in which each message fits, all messages are stored as their sizes
say, and nothing but their blocks is freed. -/
theorem run_sound (control : Control) (setup : control.netchan.message.buffsize = 1390)
    (ops : List Op) (messages_fit : AllSteps step Fits (.ok { control }) ops) :
    Sound (run step (.ok { control }) ops) :=
  (invariant_run inv_step (ensures_ok (clientInv_new setup)) messages_fit).mono
    fun _ hclient => stored_of_inv hclient.messages

private def exampleControl (state : ClientState) : Control where
  state := state
  netchan :=
    { sock := .server, lastReceived := 0, lastSent := 0, qport := 7, protocol := 34
      message := { allowoverflow := true, maxsize := 1390, buffsize := 1390 } }

/-- A model skin whose path has this many characters. -/
private def modelskin (length : Nat) : Msgbuff where
  data := svcConfigstring :: shortBytes 929 ++ List.replicate length 97 ++ [0, 3]
  written := by simp

private def connected : Op := .connect (exampleControl .connected) rfl

/-- A message of 66 bytes is padded to the whole `localbuff`, then sent. -/
theorem run_sound_example :
    Sound (run step (.ok { control := exampleControl .free })
      [connected, .add false (modelskin 61) true, .writeReliable 1390]) := by
  apply run_sound (exampleControl .free) rfl
  refine ⟨trivial, ?_, trivial, trivial⟩
  intro _ control msg' hlayout _
  cases (show some ((exampleControl .connected, modelskin 61) : Control × Msgbuff) =
    some (control, msg') from hlayout)
  exact ⟨by decide, Or.inr (Or.inr (Or.inl (by decide)))⟩

/-- The padding of a model skin of 67 bytes is written past its `localbuff`. -/
theorem padding_overruns :
    ¬ Sound (run step (.ok { control := exampleControl .free })
      [connected, .add false (modelskin 62) true]) := by
  have herror : run step (.ok { control := exampleControl .free })
      [connected, .add false (modelskin 62) true] = .error .storage := by
    rfl
  rw [herror]
  exact fun h => h rfl

end MessageStorage
