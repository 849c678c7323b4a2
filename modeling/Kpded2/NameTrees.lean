import Kpded2.RedBlackDelete
import Kpded2.StepRuns

/-!
# The trees of names

The trees hold the commands, the aliases, the variables and the cached files under their names: a
pointer is put under a name, looked for and taken out again. Next to the memory stand the nodes that
the allocator has handed out and not got back.
-/
namespace NameTrees
open ColouredTree
open ColouredTree.Coloured (toList)
open RedBlack StepRuns

variable {K D : Type}

structure State (K D : Type) where
  memory : Memory K D
  live : List Nat

/-- A node that the allocator would return, and what is found in a freed one, come with the
operation. -/
inductive Op (K D : Type) where
  | put (key : K) (value : D) (z : Nat)
  | delete (key : K) (junk : Junk K D)

/-- `rbinit`, in a memory with anything in it but `RBNULL`. -/
def rbInit (m : Memory K D) : Memory K D :=
  { m with
    child := fun side => Function.update (m.child side) rbnull rbnull
    colour := Function.update m.colour rbnull .black
    root := rbnull }

/-- `newitem = rbsearch (key, rb); *newitem = value;` -/
def put (cmp : K → K → Ordering) (fuel : Nat) (key : K) (value : D) (z : Nat) (s : State K D) :
    Option (State K D) := do
  let (x, m) ← rbSearch cmp fuel key z s.memory
  some ⟨m.setData x (some value), if x ∈ s.live then s.live else x :: s.live⟩

def delete (cmp : K → K → Ordering) (fuel : Nat) (key : K) (junk : Junk K D) (s : State K D) :
    Option (State K D) := do
  let (y, m) ← rbDelete cmp fuel key junk s.memory
  some ⟨m, s.live.filter (· ≠ y)⟩

def step (cmp : K → K → Ordering) (fuel : Nat) (s : Option (State K D)) (op : Op K D) :
    Option (State K D) :=
  match op with
  | .put key value z => s.bind (put cmp fuel key value z)
  | .delete key junk => s.bind (delete cmp fuel key junk)

/-- The allocator does not return a node that is in use. -/
def Allocates (s : Option (State K D)) : Op K D → Prop
  | .put _ _ z => z ≠ rbnull ∧ ∀ state ∈ s, z ∉ state.live
  | .delete _ _ => True

instance (s : Option (State K D)) : (op : Op K D) → Decidable (Allocates s op)
  | .put _ _ z => inferInstanceAs (Decidable (z ≠ rbnull ∧ ∀ state ∈ s, z ∉ state.live))
  | .delete _ _ => inferInstanceAs (Decidable True)

/-! ## What the trees are for -/

/-- What is under each name. -/
abbrev Directory (K D : Type) := K → Option D

def change (cmp : K → K → Ordering) (f : Directory K D) : Op K D → Directory K D
  | .put key value _ => fun k => if cmp k key = .eq then some value else f k
  | .delete key _ => fun k => if cmp k key = .eq then none else f k

/-- Every name is found with what is under it, and no other one is. -/
def Finds (cmp : K → K → Ordering) (fuel : Nat) (m : Memory K D) (f : Directory K D) : Prop :=
  ∀ key, ∃ r, rbFind cmp fuel key m = some r ∧ r.bind m.data = f key ∧ r.isSome = (f key).isSome

/-! ## Entries -/

/-- The entry of a name. -/
def valueOf (cmp : K → K → Ordering) (key : K) (entries : List (K × Option D)) : Option D :=
  (entries.find? fun e => cmp key e.1 = .eq).bind Prod.snd

section
variable {cmp : K → K → Ordering} [Std.TransCmp cmp] {e₁ e₂ entries : List (K × Option D)}
  {key k : K} {d : Option D}

/-- Entries in the order of their names. -/
abbrev Sorted (cmp : K → K → Ordering) (entries : List (K × Option D)) : Prop :=
  entries.Pairwise fun e f => cmp e.1 f.1 = .lt

omit [Std.TransCmp cmp] in
theorem valueOf_none (other : ∀ e ∈ entries, cmp key e.1 ≠ .eq) :
    valueOf cmp key entries = none := by
  have nothing : entries.find? (fun e => cmp key e.1 = .eq) = none :=
    List.find?_eq_none.mpr fun e listed same => other e listed (of_decide_eq_true same)
  rw [valueOf, nothing, Option.bind_none]

/-- Only one entry is of the name. -/
theorem others_named (sorted : Sorted cmp (e₁ ++ (k, d) :: e₂)) (same : cmp key k = .eq) :
    ∀ e, e ∈ e₁ ∨ e ∈ e₂ → cmp key e.1 ≠ .eq := by
  intro e listed here
  have equal : cmp e.1 k = .eq := Std.TransCmp.eq_trans (Std.OrientedCmp.eq_symm here) same
  obtain ⟨-, behind, front⟩ := List.pairwise_append.mp sorted
  rcases listed with low | high
  · have less := front e low (k, d) List.mem_cons_self
    rw [equal] at less
    cases less
  · have less := (List.pairwise_cons.mp behind).1 e high
    rw [Std.OrientedCmp.eq_symm equal] at less
    cases less

theorem valueOf_here (sorted : Sorted cmp (e₁ ++ (k, d) :: e₂)) (same : cmp key k = .eq) :
    valueOf cmp key (e₁ ++ (k, d) :: e₂) = d := by
  have nothing : e₁.find? (fun e => cmp key e.1 = .eq) = none :=
    List.find?_eq_none.mpr fun e listed here =>
      others_named sorted same e (Or.inl listed) (of_decide_eq_true here)
  rw [valueOf, List.find?_append, nothing, Option.none_or, List.find?_cons]
  simp only [same, decide_true, Option.bind_some]

theorem valueOf_gone (sorted : Sorted cmp (e₁ ++ (k, d) :: e₂)) (same : cmp key k = .eq) :
    valueOf cmp key (e₁ ++ e₂) = none :=
  valueOf_none fun e listed => others_named sorted same e (List.mem_append.mp listed)

omit [Std.TransCmp cmp] in
theorem valueOf_skip (other : cmp key k ≠ .eq) :
    valueOf cmp key (e₁ ++ (k, d) :: e₂) = valueOf cmp key (e₁ ++ e₂) := by
  rw [valueOf, valueOf, List.find?_append, List.find?_append, List.find?_cons]
  simp only [other, decide_false]

end

/-! ## Every run -/

/-- The tree in the memory has the live nodes, and is the directory; `n` is as many nodes as
there may be. -/
structure Holds (cmp : K → K → Ordering) (s : State K D) (t : Coloured Nat) (f : Directory K D)
    (n : Nat) : Prop where
  valid : Valid cmp s.memory t
  live : ∀ a, a ∈ t.toList ↔ a ∈ s.live
  filled : ∀ a ∈ t.toList, (s.memory.data a).isSome
  shows : ∀ key, f key = valueOf cmp key (entries s.memory t.toList)
  size : t.toList.length ≤ n

section
variable {cmp : K → K → Ordering} [Std.TransCmp cmp] {s : State K D} {t : Coloured Nat}
  {f : Directory K D} {n x z : Nat} {fuel : Nat} {m m' : Memory K D} {key : K} {value : D}

omit [Std.TransCmp cmp] in
theorem Holds.room (holds : Holds cmp s t f n) (enough : 2 * Nat.log2 (n + 1) < fuel) :
    t.height < fuel :=
  holds.valid.room holds.size enough

/-- The entries after a value has been put into a node. -/
theorem entries_setData {l r : List Nat} {d : Option D} (nodup : (l ++ x :: r).Nodup)
    (others : ∀ a, a ∈ l ∨ a ∈ r → m'.key a = m.key a ∧ m'.data a = m.data a) :
    entries (m'.setData x d) (l ++ x :: r) = entries m l ++ (m'.key x, d) :: entries m r := by
  obtain ⟨-, -, outl, outr, -⟩ := nodup_middle.mp nodup
  have same : ∀ a ≠ x, a ∈ l ∨ a ∈ r →
      (m'.setData x d).key a = m.key a ∧ (m'.setData x d).data a = m.data a := fun a other listed =>
    ⟨(others a listed).1, (Function.update_of_ne other ..).trans (others a listed).2⟩
  rw [entries_append, entries_congr fun a listed =>
    same a (ne_of_mem_of_not_mem listed outl) (Or.inl listed)]
  refine congrArg (entries m l ++ ·) ?_
  change ((m'.setData x d).key x, (m'.setData x d).data x) :: entries (m'.setData x d) r = _
  rw [Memory.data_setData, entries_congr fun a listed =>
    same a (ne_of_mem_of_not_mem listed outr) (Or.inr listed)]
  exact rfl

/-- A name that is put is held, and so are the others. -/
theorem Holds.put (holds : Holds cmp s t f n) (key : K) (value : D) (real : z ≠ rbnull)
    (fresh : z ∉ s.live) (enough : 2 * Nat.log2 (n + 1) < fuel) :
    ∃ s' t', put cmp fuel key value z s = some s' ∧
      Holds cmp s' t' (change cmp f (.put key value z)) (n + 1) := by
  have fresh' : z ∉ t.toList := fun listed => fresh ((holds.live z).mp listed)
  rcases rbSearch_spec holds.valid key fresh' real (holds.room enough) with
    ⟨x, listed, same, found⟩ | ⟨m', t', added, valid, other, ⟨l, r, old, new⟩, keys, data⟩
  · refine ⟨⟨s.memory.setData x (some value), s.live⟩, t, ?_, ?_⟩
    · have used : x ∈ s.live := (holds.live x).mp listed
      simp only [NameTrees.put, found, Option.bind_eq_bind, Option.bind_some, used, if_true]
    · obtain ⟨l, r, split⟩ := List.append_of_mem listed
      have nodup := holds.valid.here.nodup
      have before := holds.valid.ascending
      rw [ascending_iff, split, entries_append] at before
      rw [fill, split] at nodup
      have after := entries_setData (m := s.memory) (d := some value) nodup fun a _ => ⟨rfl, rfl⟩
      have sorted := (holds.valid.setData x (some value)).ascending
      rw [ascending_iff, split, after] at sorted
      refine ⟨holds.valid.setData x _, holds.live, fun a ina => ?_, fun k => ?_,
        Nat.le_succ_of_le holds.size⟩
      · by_cases here : a = x
        · rw [here]
          exact congrArg Option.isSome (Memory.data_setData ..)
        · exact (congrArg Option.isSome (Function.update_of_ne here ..)).trans (holds.filled a ina)
      · rw [split, after]
        simp only [change]
        split
        · rename_i named
          rw [valueOf_here sorted (Std.TransCmp.eq_trans named same)]
        · rename_i other
          have skip : cmp k (s.memory.key x) ≠ .eq := fun here =>
            other (Std.TransCmp.eq_trans here (Std.OrientedCmp.eq_symm same))
          rw [valueOf_skip skip, holds.shows k, split, entries_append]
          exact valueOf_skip skip
  · have nodup := valid.here.nodup
    rw [fill, new] at nodup
    obtain ⟨-, -, outl, outr, -⟩ := nodup_middle.mp nodup
    have others : ∀ a, a ∈ l ∨ a ∈ r → m'.key a = s.memory.key a ∧ m'.data a = s.memory.data a := by
      intro a listed
      have notZ : a ≠ z := by
        rintro rfl
        exact listed.elim outl outr
      rw [keys, data, Function.update_of_ne notZ, Function.update_of_ne notZ]
      exact ⟨rfl, rfl⟩
    have keyZ : m'.key z = key := by rw [keys, Function.update_self]
    have after := entries_setData (d := some value) nodup others
    rw [keyZ] at after
    have sorted := (valid.setData z (some value)).ascending
    rw [ascending_iff, new, after] at sorted
    refine ⟨⟨m'.setData z (some value), z :: s.live⟩, t', ?_, valid.setData z _, fun a => ?_,
      fun a ina => ?_, fun k => ?_, ?_⟩
    · simp only [NameTrees.put, added, Option.bind_eq_bind, Option.bind_some, fresh, if_false]
    · rw [List.mem_cons, ← holds.live a, old, new, List.mem_append, List.mem_append, List.mem_cons]
      tauto
    · by_cases here : a = z
      · rw [here]
        exact congrArg Option.isSome (Memory.data_setData ..)
      · have listed : a ∈ l ∨ a ∈ r := by
          rw [new, List.mem_append, List.mem_cons] at ina
          exact ina.imp_right fun tail => tail.resolve_left here
        refine (congrArg Option.isSome (Function.update_of_ne here ..)).trans ?_
        rw [(others a listed).2]
        exact holds.filled a (by rwa [old, List.mem_append])
    · rw [new, after]
      simp only [change]
      split
      · rename_i named
        rw [valueOf_here sorted named]
      · rename_i other
        rw [valueOf_skip other, holds.shows k, old, entries_append]
    · have grown : t'.toList.length = t.toList.length + 1 := by
        rw [new, old, List.length_append, List.length_append, List.length_cons, Nat.add_assoc]
      rw [grown]
      exact Nat.succ_le_succ holds.size

/-- A name that is deleted is not held any more, and the others are. -/
theorem Holds.delete (holds : Holds cmp s t f n) (key : K) (junk : Junk K D)
    (enough : 2 * Nat.log2 (n + 1) < fuel) :
    ∃ s' t', delete cmp fuel key junk s = some s' ∧
      Holds cmp s' t' (change cmp f (.delete key junk)) n := by
  rcases rbDelete_spec holds.valid key junk (holds.room enough) with
    ⟨x, listed, same, y, m', t', deleted, taken, -⟩ | ⟨other, deleted⟩
  · obtain ⟨valid, ⟨l₁, l₂, old, new⟩, ⟨e₁, e₂, before, after⟩, kept⟩ := taken
    have nodup := holds.valid.here.nodup
    rw [fill, old] at nodup
    obtain ⟨-, -, out₁, out₂, -⟩ := nodup_middle.mp nodup
    have sorted := holds.valid.ascending
    rw [ascending_iff, before] at sorted
    refine ⟨⟨m', s.live.filter (· ≠ y)⟩, t', ?_, valid, fun a => ?_, ?_, fun k => ?_, ?_⟩
    · simp only [NameTrees.delete, deleted, Option.bind_eq_bind, Option.bind_some]
    · rw [List.mem_filter, ← holds.live a, old, new, List.mem_append, List.mem_append,
        List.mem_cons, decide_eq_true_eq]
      constructor
      · intro left
        refine ⟨left.imp_right Or.inr, ?_⟩
        rintro rfl
        exact left.elim out₁ out₂
      · rintro ⟨l | rfl | r, different⟩
        · exact Or.inl l
        · exact absurd rfl different
        · exact Or.inr r
    · have everyOld : ∀ e ∈ entries s.memory t.toList, e.2.isSome := by
        intro e ine
        obtain ⟨a, ina, rfl⟩ := List.mem_map.mp ine
        exact holds.filled a ina
      intro a ina
      have ine : (m'.key a, m'.data a) ∈ entries m' t'.toList := List.mem_map_of_mem ina
      rw [after, List.mem_append] at ine
      refine everyOld (m'.key a, m'.data a) ?_
      rw [before, List.mem_append]
      exact ine.imp_right (List.mem_cons_of_mem _)
    · rw [after]
      simp only [change]
      split
      · rename_i named
        rw [valueOf_gone sorted (Std.TransCmp.eq_trans named same)]
      · rename_i different
        have skip : cmp k (s.memory.key x) ≠ .eq := fun here =>
          different (Std.TransCmp.eq_trans here (Std.OrientedCmp.eq_symm same))
        rw [holds.shows k, before, valueOf_skip skip]
    · refine Nat.le_trans ?_ holds.size
      rw [old, new, List.length_append, List.length_append, List.length_cons]
      exact Nat.add_le_add_left (Nat.le_succ _) _
  · refine ⟨⟨s.memory, s.live.filter (· ≠ rbnull)⟩, t, ?_, holds.valid, fun a => ?_, holds.filled,
      fun k => ?_, holds.size⟩
    · simp only [NameTrees.delete, deleted, Option.bind_eq_bind, Option.bind_some]
    · rw [List.mem_filter, ← holds.live a, decide_eq_true_eq]
      exact ⟨fun listed => ⟨listed, holds.valid.here.tree.ne_rbnull a listed⟩, And.left⟩
    · simp only [change]
      split
      · rename_i named
        refine (valueOf_none fun e ine here => ?_).symm
        obtain ⟨a, ina, rfl⟩ := List.mem_map.mp ine
        exact other a ina (Std.TransCmp.eq_trans (Std.OrientedCmp.eq_symm named) here)
      · exact holds.shows k

/-- What is found is the directory. -/
theorem Holds.finds (holds : Holds cmp s t f n) (enough : 2 * Nat.log2 (n + 1) < fuel) :
    Finds cmp fuel s.memory f := by
  intro key
  rcases rbFind_spec holds.valid key (holds.room enough) with
    ⟨x, listed, same, found⟩ | ⟨other, found⟩
  · obtain ⟨l, r, split⟩ := List.append_of_mem listed
    have sorted := holds.valid.ascending
    rw [ascending_iff, split, entries_append] at sorted
    have here : f key = s.memory.data x := by
      rw [holds.shows key, split, entries_append]
      exact valueOf_here sorted same
    exact ⟨some x, found, here.symm, by rw [here, holds.filled x listed, Option.isSome_some]⟩
  · have nothing : f key = none := by
      rw [holds.shows key]
      refine valueOf_none fun e ine here => ?_
      obtain ⟨a, ina, rfl⟩ := List.mem_map.mp ine
      exact other a ina here
    exact ⟨none, found, nothing.symm, congrArg Option.isSome nothing.symm⟩

omit [Std.TransCmp cmp] in
theorem rbInit_holds (m : Memory K D) : Holds cmp ⟨rbInit m, []⟩ .nil (fun _ => none) 0 where
  valid :=
    { here := ⟨trivial, rfl, trivial, List.nodup_nil⟩
      null := by simp only [rbInit, Function.update_self]
      nil := by simp only [rbInit, Function.update_self]
      ascending := List.Pairwise.nil
      balanced := ⟨0, .nil⟩ }
  live _ := Iff.rfl
  filled := List.forall_mem_nil _
  shows _ := rfl
  size := Nat.le_refl 0

/-- After every run of calls the tree holds what they leave. -/
theorem run_holds (holds : Holds cmp s t f n) (ops : List (Op K D))
    (allocated : AllSteps (step cmp fuel) Allocates (some s) ops)
    (enough : 2 * Nat.log2 (n + ops.length + 1) < fuel) :
    ∃ s' t', run (step cmp fuel) (some s) ops = some s' ∧
      Holds cmp s' t' (run (change cmp) f ops) (n + ops.length) := by
  induction ops generalizing s t f n with
  | nil => exact ⟨s, t, rfl, holds⟩
  | cons op ops ih =>
    obtain ⟨allowed, later⟩ := allocated
    rw [List.length_cons, Nat.add_comm ops.length, ← Nat.add_assoc] at enough ⊢
    have now : 2 * Nat.log2 (n + 1) < fuel := by
      refine Nat.lt_of_le_of_lt (Nat.mul_le_mul_left 2 ?_) enough
      rw [Nat.log2_eq_log_two, Nat.log2_eq_log_two]
      exact Nat.log_mono_right (by omega)
    have one : ∃ s' t', step cmp fuel (some s) op = some s' ∧
        Holds cmp s' t' (change cmp f op) (n + 1) := by
      cases op with
      | put key value z => exact holds.put key value allowed.1 (allowed.2 s rfl) now
      | delete key junk =>
        obtain ⟨s', t', stepped, holds'⟩ := holds.delete key junk now
        exact ⟨s', t', stepped, { holds' with size := Nat.le_succ_of_le holds'.size }⟩
    obtain ⟨s', t', stepped, holds'⟩ := one
    rw [run_cons, run_cons, stepped]
    rw [stepped] at later
    exact ih holds' later enough

/-- Whatever is put in and taken out, what is looked up afterwards is what was put in last, and no
walk through the tree takes longer than twice the logarithm of the number of operations. -/
theorem names_found (m : Memory K D) (ops : List (Op K D))
    (allocated : AllSteps (step cmp fuel) Allocates (some ⟨rbInit m, []⟩) ops)
    (enough : 2 * Nat.log2 (ops.length + 1) < fuel) :
    ∃ s, run (step cmp fuel) (some ⟨rbInit m, []⟩) ops = some s ∧
      Finds cmp fuel s.memory (run (change cmp) (fun _ => none) ops) := by
  obtain ⟨s, t, ran, holds⟩ := run_holds (rbInit_holds m) ops allocated (by rwa [Nat.zero_add])
  rw [Nat.zero_add] at holds
  exact ⟨s, ran, holds.finds enough⟩

end

/-! The name that is taken out is at the top of the tree, and its node takes over another name. -/

private def ruined : Junk Nat String := ⟨fun _ => 7, 7, .red, 7, some "freed"⟩

private def anyMemory : Memory Nat String :=
  ⟨fun _ _ => 7, fun _ => 7, fun _ => .red, fun _ => 7, fun _ => none, 7⟩

private def someOps : List (Op Nat String) :=
  [.put 4 "map" 1, .put 2 "kick" 2, .put 9 "say" 3, .delete 4 ruined, .put 5 "quit" 3]

theorem names_found_taken : ∃ s,
    run (step compare 6) (some ⟨rbInit anyMemory, []⟩) someOps = some s ∧
      Finds compare 6 s.memory (run (change compare) (fun _ => none) someOps) :=
  names_found anyMemory someOps (by decide +kernel) (by decide)

end NameTrees
