import Kpded2.MessageStorage

/-!
# Loops over a message list

What a loop needs of the messages is less than that they are stored as their sizes say: they can
be read, and what is freed is a block that belongs to one of them. `SV_SendClientDatagram` keeps
this even where it has compressed a message in place.
-/
namespace MessageLoops
open MessageList MessageStorage Outcome OwnedHeap

variable {m m' : Messages} {i j : Nat}

structure Readable (m : Messages) : Prop where
  nodup : m.list.Nodup
  owns : Owns m.heap (owner m)
  bytes : ∀ i ∈ m.list, ∃ bytes, m.bytes i = .ok bytes
  block : ∀ i ∈ m.list, (m.nodes i).cursize > msgMaxSizeBeforeMalloc →
    ∃ block, (m.nodes i).data = .malloced block

theorem readable_of_inv (h : Inv m) : Readable m where
  nodup := nodup_of_inv h
  owns := h.owns
  bytes := fun i hi => by
    obtain ⟨bytes, hbytes, -⟩ := inv_bytes h hi
    exact ⟨bytes, hbytes⟩
  block := fun i hi long => by
    obtain ⟨block, -, hdata, -⟩ := ((stored_of_inv h).long_iff i hi).mp long
    exact ⟨block, hdata⟩

/-- Messages have been deleted, and nothing else has happened. -/
structure Fewer (m m' : Messages) : Prop where
  readable : Readable m'
  nodes : m'.nodes = m.nodes
  allocated : m'.allocated = m.allocated
  sub : ∀ i ∈ m'.list, i ∈ m.list
  bytes : ∀ i ∈ m'.list, m'.bytes i = m.bytes i

theorem Fewer.refl (h : Readable m) : Fewer m m :=
  ⟨h, rfl, rfl, fun _ hi => hi, fun _ _ => rfl⟩

theorem Fewer.trans {a b c : Messages} (h : Fewer a b) (k : Fewer b c) : Fewer a c where
  readable := k.readable
  nodes := k.nodes.trans h.nodes
  allocated := k.allocated.trans h.allocated
  sub := fun i hi => h.sub i (k.sub i hi)
  bytes := fun i hi => (k.bytes i hi).trans (h.bytes i (k.sub i hi))

theorem readable_of_owner {list : List Nat} {heap : OwnedHeap.Heap (List UInt8)} (h : Readable m)
    (nodup : list.Nodup) (sub : ∀ j ∈ list, j ∈ m.list)
    (owns : Owns heap (owner { m with heap, list }))
    (storage : ∀ j ∈ list, ({ m with heap, list } : Messages).storage j = m.storage j) :
    Fewer m { m with heap, list } where
  readable :=
    { nodup, owns
      bytes := fun j hj => by
        rw [@bytes_congr m { m with heap, list } j rfl (storage j hj)]
        exact h.bytes j (sub j hj)
      block := fun j hj => h.block j (sub j hj) }
  nodes := rfl
  allocated := rfl
  sub := sub
  bytes := fun j hj => bytes_congr rfl (storage j hj)

/-- A message that is deleted leaves the others readable. -/
theorem svDeleteMessage_readable (h : Readable m) (hi : i ∈ m.list) :
    ∃ m', svDeleteMessage m i = .ok m' ∧ Fewer m m' ∧ m'.list = m.list.erase i := by
  have nodup : (m.list.erase i).Nodup := h.nodup.erase i
  have sub : ∀ j ∈ m.list.erase i, j ∈ m.list := fun j hj => List.mem_of_mem_erase hj
  have owner_le : ∀ (heap : OwnedHeap.Heap (List UInt8)) j b,
      owner { m with heap, list := m.list.erase i } j = some b → owner m j = some b := by
    intro heap j b hj
    rw [owner_erase h.nodup] at hj
    by_cases same : j = i
    · rw [same, Function.update_self] at hj
      cases hj
    · rwa [Function.update_of_ne same] at hj
  by_cases long : (m.nodes i).cursize > msgMaxSizeBeforeMalloc
  · obtain ⟨block, hdata⟩ := h.block i hi long
    have hown : owner m i = some block := by rw [owner_of_mem hi, hdata]
    obtain ⟨heap, hfree⟩ := Heap.exists_free (h.owns.live i block hown)
    refine ⟨{ m with heap, list := m.list.erase i }, ?_,
      readable_of_owner h nodup sub ?_ ?_, rfl⟩
    · rw [svDeleteMessage, if_pos long, hdata]
      simp only [hfree]
    · rw [owner_erase h.nodup]
      exact h.owns.free hown hfree
    · intro j hj
      simp only [Messages.storage]
      cases hdataj : (m.nodes j).data with
      | localbuff => rfl
      | malloced b =>
        have other : b ≠ block := by
          rintro rfl
          have hownj : owner m j = some b := by rw [owner_of_mem (sub j hj), hdataj]
          exact (h.nodup.mem_erase_iff.mp hj).1 (h.owns.exclusive j i b hownj hown)
        change heap.blocks b = m.heap.blocks b
        rw [Heap.free_eq_some hfree, Function.update_of_ne other]
  · refine ⟨{ m with list := m.list.erase i }, if_neg long,
      readable_of_owner h nodup sub (h.owns.of_le (owner_le m.heap)) fun _ _ => rfl, rfl⟩

/-- A message has been overwritten by a shorter one. -/
structure Overwritten (m : Messages) (i : Nat) (new : List UInt8) (m' : Messages) : Prop where
  readable : Readable m'
  list : m'.list = m.list
  allocated : m'.allocated = m.allocated
  reliable : ∀ j, (m'.nodes j).reliable = (m.nodes j).reliable
  own : m'.bytes i = .ok new
  others : ∀ j ∈ m.list, j ≠ i → m'.bytes j = m.bytes j

/-- Only the contents of one message and its size have changed. -/
theorem overwritten_of_storage {new rest : List UInt8} (h : Readable m) (list : m'.list = m.list)
    (allocated : m'.allocated = m.allocated) (nodes : ∀ j, j ≠ i → m'.nodes j = m.nodes j)
    (data : (m'.nodes i).data = (m.nodes i).data)
    (reliable : (m'.nodes i).reliable = (m.nodes i).reliable)
    (cursize : (m'.nodes i).cursize = new.length) (shorter : (new.length : Int) ≤ (m.nodes i).cursize)
    (heap : ∀ b, (m'.heap.blocks b).isSome = (m.heap.blocks b).isSome)
    (own : m'.storage i = some (new ++ rest))
    (others : ∀ j ∈ m.list, j ≠ i → m'.storage j = m.storage j) : Overwritten m i new m' := by
  have written := bytes_of_storage own cursize
  have same : ∀ j, (m'.nodes j).data = (m.nodes j).data := fun j => by
    by_cases hj : j = i
    · rw [hj, data]
    · rw [nodes j hj]
  have unchanged : ∀ j ∈ m.list, j ≠ i → m'.bytes j = m.bytes j :=
    fun j hj other => bytes_congr (nodes j other) (others j hj other)
  have owners : owner m' = owner m := by
    funext j
    simp only [owner, list, same]
  refine ⟨⟨list ▸ h.nodup, ?_, fun j hj => ?_, fun j hj long => ?_⟩, list, allocated, fun j => ?_,
    written, unchanged⟩
  · rw [owners]
    exact h.owns.of_isSome heap
  · rw [list] at hj
    by_cases hji : j = i
    · exact ⟨new, hji ▸ written⟩
    · rw [unchanged j hj hji]
      exact h.bytes j hj
  · rw [list] at hj
    rw [same]
    refine h.block j hj ?_
    by_cases hji : j = i
    · rw [hji, cursize] at long
      rw [hji]
      omega
    · rwa [nodes j hji] at long
  · by_cases hji : j = i
    · rw [hji, reliable]
    · rw [nodes j hji]

theorem write_overwritten {bytes new : List UInt8} (h : Readable m) (hi : m.list ≠ [] → i ∈ m.list)
    (read : m.bytes i = .ok bytes) (shorter : new.length ≤ bytes.length)
    (small : new.length < 2 ^ 15) :
    ∃ m', m.write i 0 new = .ok m' ∧ Overwritten m i new (m'.setCursize i (int16 new.length)) := by
  obtain ⟨cursize, storage, hstorage, long⟩ := bytes_storage read
  have inside : 0 + new.length ≤ storage.length := by omega
  have fewer : (new.length : Int) ≤ (m.nodes i).cursize := by omega
  have source := hstorage
  simp only [Messages.write, hstorage, if_pos inside]
  simp only [Messages.storage] at source
  cases hdata : (m.nodes i).data with
  | localbuff =>
    refine ⟨_, rfl, @overwritten_of_storage _ _ _ _ (storage.drop (0 + new.length)) h rfl rfl
      (fun j other => ?_) ?_ ?_ ?_ fewer (fun _ => rfl) ?_ fun j hj other => ?_⟩
    · simp only [Messages.setCursize, Function.update_of_ne other]
    · simp only [Messages.setCursize, Function.update_self, hdata]
    · simp only [Messages.setCursize, Function.update_self]
    · simp only [Messages.setCursize, Function.update_self, int16_of_lt small]
    · simp only [Messages.storage, Messages.setCursize, Function.update_self, List.take_zero,
        List.nil_append]
    · simp only [Messages.storage, Messages.setCursize, Function.update_of_ne other]
  | malloced block =>
    simp only [hdata] at source
    obtain ⟨heap, stored⟩ := Heap.exists_store (h := m.heap) (b := block) (by rw [source]; rfl)
      (storage.take 0 ++ new ++ storage.drop (0 + new.length))
    simp only [stored]
    refine ⟨_, rfl, @overwritten_of_storage _ _ _ _ (storage.drop (0 + new.length)) h rfl rfl
      (fun j other => ?_) ?_ ?_ ?_ fewer (Heap.isSome_store stored) ?_ fun j hj other => ?_⟩
    · simp only [Messages.setCursize, Function.update_of_ne other]
    · simp only [Messages.setCursize, Function.update_self]
    · simp only [Messages.setCursize, Function.update_self]
    · simp only [Messages.setCursize, Function.update_self, int16_of_lt small]
    · simp only [Messages.storage, Messages.setCursize, Function.update_self, hdata,
        Heap.store_eq_some stored, List.take_zero, List.nil_append]
    · simp only [Messages.storage, Messages.setCursize, Function.update_of_ne other]
      cases hdataj : (m.nodes j).data with
      | localbuff => rfl
      | malloced b =>
        have different : b ≠ block := by
          rintro rfl
          have ownj : owner m j = some b := by rw [owner_of_mem hj, hdataj]
          have owni : owner m i = some b := by rw [owner_of_mem (hi (List.ne_nil_of_mem hj)), hdata]
          exact other (h.owns.exclusive j i b ownj owni)
        simp only [Heap.store_eq_some stored, Function.update_of_ne different]

/-! ## Rules for `sweep` -/

section Rules
variable {α : Type} {visit : Messages → α → Nat → Except Stop (α × Visit)}
  {I : List Nat → α → Messages → Prop} {Q : α → Messages → Prop}

/-- What a visit leaves to the rest of the loop. -/
def After (I : List Nat → α → Messages → Prop) (Q : α → Messages → Prop) (m : Messages) (i : Nat)
    (rest : List Nat) (r : α × Visit) : Prop :=
  match r.2 with
  | .keep => I rest r.1 m
  | .delete => ∀ m', Fewer m m' → m'.list = m.list.erase i → (∀ j ∈ rest, j ∈ m'.list) →
    I rest r.1 m'
  | .stop => Q r.1 m

theorem sweep_cons {l : List Nat} {acc : α} {r : α × Visit} (h : visit m acc i = .ok r) :
    sweep visit (i :: l) acc m =
      match r.2 with
      | .keep => sweep visit l r.1 m
      | .delete => svDeleteMessage m i >>= sweep visit l r.1
      | .stop => .ok (r.1, m) := by
  obtain ⟨acc', verdict⟩ := r
  rw [sweep, h]
  cases verdict <;> rfl

/-- A loop whose visits all end. -/
theorem sweep_total {l : List Nat} {acc : α} (readable : Readable m) (nodup : l.Nodup)
    (sub : ∀ i ∈ l, i ∈ m.list) (start : I l acc m)
    (visits : ∀ i rest acc m, Readable m → i ∈ m.list → I (i :: rest) acc m →
      ∃ r, visit m acc i = .ok r ∧ After I Q m i rest r)
    (done : ∀ acc m, I [] acc m → Q acc m) :
    ∃ r, sweep visit l acc m = .ok r ∧ Q r.1 r.2 ∧ Fewer m r.2 := by
  induction l generalizing acc m with
  | nil => exact ⟨(acc, m), rfl, done acc m start, Fewer.refl readable⟩
  | cons i rest ih =>
    obtain ⟨hi, hrest⟩ := List.nodup_cons.mp nodup
    have listed : ∀ j ∈ rest, j ∈ m.list := fun j hj => sub j (List.mem_cons_of_mem i hj)
    obtain ⟨⟨acc', verdict⟩, hvisit, after⟩ :=
      visits i rest acc m readable (sub i List.mem_cons_self) start
    rw [sweep_cons hvisit]
    cases verdict with
    | keep => exact ih readable hrest listed after
    | stop => exact ⟨(acc', m), rfl, after, Fewer.refl readable⟩
    | delete =>
      obtain ⟨m', deleted, fewer, list⟩ :=
        svDeleteMessage_readable readable (sub i List.mem_cons_self)
      have still : ∀ j ∈ rest, j ∈ m'.list := by
        intro j hj
        rw [list]
        refine (List.mem_erase_of_ne ?_).mpr (listed j hj)
        rintro rfl
        exact hi hj
      obtain ⟨r, run, post, fewer'⟩ := ih fewer.readable hrest still (after m' fewer list still)
      refine ⟨r, ?_, post, fewer.trans fewer'⟩
      simp only [deleted, bind, Except.bind]
      exact run

end Rules

theorem svClearMessageList_readable (h : Readable m) :
    ∃ m', svClearMessageList m = .ok m' ∧ Fewer m m' := by
  obtain ⟨r, run, -, fewer⟩ := @sweep_total m Unit (fun _ acc _ => .ok (acc, .delete))
    (fun _ _ _ => True) (fun _ _ => True) m.list () h h.nodup (fun _ hi => hi) trivial
    (fun i rest acc m _ _ _ => ⟨(acc, .delete), rfl, fun _ _ _ _ => trivial⟩) fun _ _ _ => trivial
  refine ⟨r.2, ?_, fewer⟩
  simp only [svClearMessageList, run, bind, Except.bind]

/-! ## Queueing -/

theorem getD_last (front : List UInt8) (c : UInt8) :
    (front ++ [c]).getD ((front ++ [c]).length - 1) 0 = c := by
  rw [List.length_append, List.length_singleton, Nat.add_sub_cancel,
    List.getD_append_right _ _ _ _ (Nat.le_refl _), Nat.sub_self]
  rfl

/-- No other message is dropped for the message, and it is not padded. -/
def Plain (data : List UInt8) : Prop :=
  data.getD 0 0 ≠ svcLayout ∧
    (data.getD 0 0 = svcConfigstring →
      data.length ≤ msgMaxSizeBeforeMalloc ∧ data.getD (data.length - 1) 0 ≠ 3)

theorem plain_cons {type : UInt8} (rest : List UInt8) (layout : type ≠ svcLayout)
    (configstring : type ≠ svcConfigstring) : Plain (type :: rest) :=
  ⟨layout, fun h => absurd h configstring⟩

/-- The messages with one more in the next node. -/
def appended (m : Messages) (data : List UInt8) : Messages :=
  msgEndWrite { m with list := m.list ++ [nextIndex m] } (nextIndex m) data

/-- The message is in the next node. -/
structure Ended (client : Client) (data : List UInt8) (m : Messages) : Prop where
  list : m.list = client.messages.list ++ [nextIndex client.messages]
  allocated : m.allocated = client.messages.allocated
  storage : ∃ behind, m.storage (nextIndex client.messages) = some (data ++ behind)
  cursize : (m.nodes (nextIndex client.messages)).cursize = int16 data.length

theorem Ended.setReliable {client : Client} {data : List UInt8} (ended : Ended client data m)
    (reliable : Bool) : Ended client data (m.setReliable (nextIndex client.messages) reliable) where
  list := ended.list
  allocated := ended.allocated
  storage := by
    obtain ⟨behind, storage⟩ := ended.storage
    refine ⟨behind, ?_⟩
    rw [← storage]
    simp only [Messages.storage, Messages.setReliable, Function.update_self]
  cursize := by
    rw [← ended.cursize]
    simp only [Messages.setReliable, Function.update_self]

theorem ended_appended (client : Client) (data : List UInt8) :
    Ended client data (appended client.messages data) := by
  obtain ⟨storage, cursize⟩ := msgEndWrite_storage
    { client.messages with list := client.messages.list ++ [nextIndex client.messages] }
    (nextIndex client.messages) data
  refine ⟨?_, ?_, storage, cursize⟩
  · simp only [appended, msgEndWrite]
    split <;> rfl
  · simp only [appended, msgEndWrite]
    split <;> rfl

theorem Ended.plain {client : Client} {data : List UInt8} (ended : Ended client data m)
    (nonempty : data ≠ []) (plain : Plain data) (state : ClientState) :
    dropOtherLayouts m (nextIndex client.messages) = .ok m ∧
      padModelskin state m (nextIndex client.messages) = .ok m := by
  obtain ⟨behind, storage⟩ := ended.storage
  have positive := List.length_pos_of_ne_nil nonempty
  have first := byteAt_of_storage storage positive
  refine ⟨?_, ?_⟩
  · rw [dropOtherLayouts, first, if_neg plain.1]
  · rw [padModelskin]
    split
    · rename_i index
      simp only [modelskinIndex, Bool.and_eq_true, beq_iff_eq, first] at index
      obtain ⟨short, last⟩ := plain.2 index.1.2
      have max : msgMaxSizeBeforeMalloc = 69 := rfl
      have size : int16 data.length = data.length := int16_of_lt (by omega)
      have lastIndex : ((data.length : Int) - 1).toNat = data.length - 1 := by omega
      rw [ended.cursize, size, if_neg (by omega), lastIndex,
        byteAt_of_storage storage (show data.length - 1 < data.length by omega), if_neg last]
    · exact rfl

/-- The message gets the next node, unless there is none or the channel cannot take it. -/
theorem queueMessage_plain (client : Client) {data : List UInt8} (nonempty : data ≠ [])
    (plain : Plain data) (reliable : Bool) :
    queueMessage client data reliable =
      if nextIndex client.messages ≥ maxMessagesPerList - 1 then overflow client
      else if int16 data.length ≥ client.control.netchan.message.buffsize then
        overflow { client with messages := appended client.messages data }
      else
        .ok { client with
          messages :=
            (appended client.messages data).setReliable (nextIndex client.messages) reliable } := by
  have ended := ended_appended client data
  obtain ⟨others, padded⟩ :=
    (ended.setReliable reliable).plain nonempty plain client.control.state
  simp only [queueMessage, appended] at ended others padded ⊢
  rw [ended.cursize, others]
  change (if _ then _ else if _ then _ else padModelskin _ _ _ >>= _) = _
  rw [padded]
  rfl

end MessageLoops
