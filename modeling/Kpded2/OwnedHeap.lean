import Mathlib.Logic.Equiv.Basic
import Mathlib.Logic.Function.Basic

/-!
# A heap whose blocks have owners

Blocks are numbered in the order of their allocation and a number is never used
again, so a stale pointer can be told from a live one. `Owns h ptr` says that the
pointers `ptr` lead to live blocks and no two of them to the same one;
`NoLeak h ptr` that there are no other live blocks.
-/
namespace OwnedHeap

universe u v
variable {α : Type u} {ι : Type v}

structure Heap (α : Type u) where
  blocks : Nat → Option α
  next : Nat
  fresh : ∀ b, next ≤ b → blocks b = none

def Heap.empty : Heap α := ⟨fun _ => none, 0, fun _ _ => rfl⟩

/-- The new block is number `h.next`. -/
def Heap.alloc (h : Heap α) (a : α) : Heap α where
  blocks := Function.update h.blocks h.next (some a)
  next := h.next + 1
  fresh b hb := by
    rw [Function.update_of_ne (by omega)]
    exact h.fresh b (by omega)

/-- `none`: there is no such block, or it has been freed before. -/
def Heap.free (h : Heap α) (b : Nat) : Option (Heap α) :=
  if (h.blocks b).isSome then
    some
      { blocks := Function.update h.blocks b none
        next := h.next
        fresh := by
          intro c hc
          by_cases hcb : c = b
          · rw [hcb, Function.update_self]
          · rw [Function.update_of_ne hcb]
            exact h.fresh c hc }
  else none

/-- Changes the contents of a live block. -/
def Heap.store (h : Heap α) (b : Nat) (a : α) : Option (Heap α) :=
  if hb : (h.blocks b).isSome then
    some
      { blocks := Function.update h.blocks b (some a)
        next := h.next
        fresh := by
          intro c hc
          have hne : c ≠ b := by
            rintro rfl
            rw [h.fresh c hc] at hb
            cases hb
          rw [Function.update_of_ne hne]
          exact h.fresh c hc }
  else none

structure Owns (h : Heap α) (ptr : ι → Option Nat) : Prop where
  live : ∀ i b, ptr i = some b → (h.blocks b).isSome
  exclusive : ∀ i j b, ptr i = some b → ptr j = some b → i = j

def NoLeak (h : Heap α) (ptr : ι → Option Nat) : Prop :=
  ∀ b, (h.blocks b).isSome → ∃ i, ptr i = some b

theorem Heap.blocks_alloc_next (h : Heap α) (a : α) : (h.alloc a).blocks h.next = some a :=
  Function.update_self ..

theorem Heap.blocks_alloc_of_ne (h : Heap α) {b : Nat} (hb : b ≠ h.next) (a : α) :
    (h.alloc a).blocks b = h.blocks b :=
  Function.update_of_ne hb ..

theorem Heap.lt_next {h : Heap α} {b : Nat} (hb : (h.blocks b).isSome) : b < h.next := by
  by_contra hge
  rw [h.fresh b (by omega)] at hb
  cases hb

theorem Heap.blocks_alloc_of_isSome {h : Heap α} {b : Nat} (hb : (h.blocks b).isSome) (a : α) :
    (h.alloc a).blocks b = h.blocks b :=
  h.blocks_alloc_of_ne (Nat.ne_of_lt (Heap.lt_next hb)) a

theorem Heap.free_eq_some {h h' : Heap α} {b : Nat} (hf : h.free b = some h') :
    h'.blocks = Function.update h.blocks b none := by
  unfold Heap.free at hf
  split at hf
  · rw [← Option.some.inj hf]
  · cases hf

theorem Heap.next_free {h h' : Heap α} {b : Nat} (hf : h.free b = some h') : h'.next = h.next := by
  unfold Heap.free at hf
  split at hf
  · rw [← Option.some.inj hf]
  · cases hf

theorem Heap.exists_free {h : Heap α} {b : Nat} (hb : (h.blocks b).isSome) :
    ∃ h', h.free b = some h' := by
  rw [Heap.free, if_pos hb]
  exact ⟨_, rfl⟩

theorem Heap.store_eq_some {h h' : Heap α} {b : Nat} {a : α} (hs : h.store b a = some h') :
    h'.blocks = Function.update h.blocks b (some a) := by
  unfold Heap.store at hs
  split at hs
  · rw [← Option.some.inj hs]
  · cases hs

theorem Heap.exists_store {h : Heap α} {b : Nat} (hb : (h.blocks b).isSome) (a : α) :
    ∃ h', h.store b a = some h' := by
  rw [Heap.store, dif_pos hb]
  exact ⟨_, rfl⟩

theorem owns_empty : Owns (Heap.empty : Heap α) (fun _ : ι => none) where
  live := fun _ _ hi => by cases hi
  exclusive := fun _ _ _ hi => by cases hi

theorem noLeak_empty : NoLeak (Heap.empty : Heap α) (fun _ : ι => none) := by
  intro b hb
  cases hb

/-- The owner of a new block had none before. -/
theorem Owns.alloc [DecidableEq ι] {h : Heap α} {ptr : ι → Option Nat} (ho : Owns h ptr)
    (i : ι) (a : α) : Owns (h.alloc a) (Function.update ptr i (some h.next)) := by
  have hold : ∀ j b, ptr j = some b → b ≠ h.next := fun j b hj =>
    Nat.ne_of_lt (Heap.lt_next (ho.live j b hj))
  constructor
  · intro j b hj
    by_cases hji : j = i
    · subst hji
      rw [Function.update_self] at hj
      rw [← Option.some.inj hj, Heap.blocks_alloc_next]
      rfl
    · rw [Function.update_of_ne hji] at hj
      rw [Heap.blocks_alloc_of_isSome (ho.live j b hj)]
      exact ho.live j b hj
  · intro j k b hj hk
    by_cases hji : j = i
    · by_cases hki : k = i
      · rw [hji, hki]
      · rw [hji, Function.update_self] at hj
        rw [Function.update_of_ne hki] at hk
        exact absurd (Option.some.inj hj).symm (hold k b hk)
    · rw [Function.update_of_ne hji] at hj
      by_cases hki : k = i
      · rw [hki, Function.update_self] at hk
        exact absurd (Option.some.inj hk).symm (hold j b hj)
      · rw [Function.update_of_ne hki] at hk
        exact ho.exclusive j k b hj hk

theorem NoLeak.alloc [DecidableEq ι] {h : Heap α} {ptr : ι → Option Nat} (hn : NoLeak h ptr)
    {i : ι} (hi : ptr i = none) (a : α) :
    NoLeak (h.alloc a) (Function.update ptr i (some h.next)) := by
  intro b hb
  by_cases hbn : b = h.next
  · exact ⟨i, by rw [hbn, Function.update_self]⟩
  · have hold : (h.blocks b).isSome := by rwa [h.blocks_alloc_of_ne hbn] at hb
    obtain ⟨j, hj⟩ := hn b hold
    have hji : j ≠ i := by
      rintro rfl
      rw [hi] at hj
      cases hj
    exact ⟨j, by rw [Function.update_of_ne hji, hj]⟩

/-- A block is freed through its only owner, which keeps no pointer to it. -/
theorem Owns.free [DecidableEq ι] {h h' : Heap α} {ptr : ι → Option Nat} (ho : Owns h ptr)
    {i : ι} {b : Nat} (hi : ptr i = some b) (hf : h.free b = some h') :
    Owns h' (Function.update ptr i none) := by
  have hptr : ∀ j c, Function.update ptr i none j = some c → j ≠ i ∧ ptr j = some c := by
    intro j c hj
    by_cases hji : j = i
    · rw [hji, Function.update_self] at hj
      cases hj
    · exact ⟨hji, by rwa [Function.update_of_ne hji] at hj⟩
  constructor
  · intro j c hj
    obtain ⟨hji, hjc⟩ := hptr j c hj
    have hcb : c ≠ b := fun heq => hji (ho.exclusive j i b (heq ▸ hjc) hi)
    rw [Heap.free_eq_some hf, Function.update_of_ne hcb]
    exact ho.live j c hjc
  · intro j k c hj hk
    exact ho.exclusive j k c (hptr j c hj).2 (hptr k c hk).2

theorem NoLeak.free [DecidableEq ι] {h h' : Heap α} {ptr : ι → Option Nat} (hn : NoLeak h ptr)
    {i : ι} {b : Nat} (hi : ptr i = some b) (hf : h.free b = some h') :
    NoLeak h' (Function.update ptr i none) := by
  intro c hc
  rw [Heap.free_eq_some hf] at hc
  by_cases hcb : c = b
  · rw [hcb, Function.update_self] at hc
    cases hc
  · rw [Function.update_of_ne hcb] at hc
    obtain ⟨j, hj⟩ := hn c hc
    have hji : j ≠ i := by
      rintro rfl
      exact hcb (Option.some.inj (hj.symm.trans hi))
    exact ⟨j, by rw [Function.update_of_ne hji, hj]⟩

/-- Owners may drop their pointers. -/
theorem Owns.of_le {h : Heap α} {ptr ptr' : ι → Option Nat} (ho : Owns h ptr)
    (hle : ∀ i b, ptr' i = some b → ptr i = some b) : Owns h ptr' where
  live := fun i b hi => ho.live i b (hle i b hi)
  exclusive := fun i j b hi hj => ho.exclusive i j b (hle i b hi) (hle j b hj)

theorem Owns.comp {κ : Type*} {h : Heap α} {ptr : ι → Option Nat} (ho : Owns h ptr) {f : κ → ι}
    (hf : Function.Injective f) : Owns h (ptr ∘ f) where
  live := fun i b hi => ho.live (f i) b hi
  exclusive := fun i j b hi hj => hf (ho.exclusive (f i) (f j) b hi hj)

/-- The pointer of `i` goes over to `j`. -/
theorem Owns.move [DecidableEq ι] {h : Heap α} {ptr : ι → Option Nat} (ho : Owns h ptr) {i j : ι}
    (hj : ptr j = none) :
    Owns h (Function.update (Function.update ptr i none) j (ptr i)) := by
  have hswap : Function.update (Function.update ptr i none) j (ptr i) = ptr ∘ Equiv.swap i j := by
    funext k
    by_cases hkj : k = j
    · rw [hkj, Function.update_self, Function.comp_apply, Equiv.swap_apply_right]
    · rw [Function.update_of_ne hkj]
      by_cases hki : k = i
      · rw [hki, Function.update_self, Function.comp_apply, Equiv.swap_apply_left, hj]
      · rw [Function.update_of_ne hki, Function.comp_apply, Equiv.swap_apply_of_ne_of_ne hki hkj]
  rw [hswap]
  exact ho.comp (Equiv.swap i j).injective

/-- Other contents change nothing about who owns what. -/
theorem Owns.of_isSome {h h' : Heap α} {ptr : ι → Option Nat} (ho : Owns h ptr)
    (hsame : ∀ b, (h'.blocks b).isSome = (h.blocks b).isSome) : Owns h' ptr where
  live := fun i b hi => by rw [hsame b, ho.live i b hi]
  exclusive := ho.exclusive

theorem NoLeak.of_isSome {h h' : Heap α} {ptr : ι → Option Nat} (hn : NoLeak h ptr)
    (hsame : ∀ b, (h'.blocks b).isSome = (h.blocks b).isSome) : NoLeak h' ptr :=
  fun b hb => hn b (by rw [← hsame b, hb])

theorem Heap.isSome_store {h h' : Heap α} {b : Nat} {a : α} (hs : h.store b a = some h')
    (c : Nat) : (h'.blocks c).isSome = (h.blocks c).isSome := by
  have hb : (h.blocks b).isSome := by
    unfold Heap.store at hs
    split at hs
    · assumption
    · cases hs
  rw [Heap.store_eq_some hs]
  by_cases hcb : c = b
  · rw [hcb, Function.update_self, hb]
    rfl
  · rw [Function.update_of_ne hcb]

end OwnedHeap
