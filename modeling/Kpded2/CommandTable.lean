import Kpded2.NameTrees

/-!
# The commands in their list and in their tree

A command is put into a list, and its address into a tree under its name. The list is walked when
one is removed, and the tree looked up when one is executed. A name that is added again takes the
old command away first. Which names are variables comes with the operation, and so does what the
allocator returns.
-/
namespace CommandTable
open RedBlack NameTrees StepRuns

variable {K F : Type}

/-- `heap` is what stands at the addresses of commands: their names and functions. -/
structure Table (K F : Type) where
  cmdtree : State K Nat
  heap : Nat → Option (K × F)
  cmdFunctions : List Nat

inductive Op (K F : Type) where
  | add (cmdName : K) (function : F) (isVariable : Bool) (junk : Junk K Nat) (cmd z : Nat)
  | remove (cmdName : K) (junk : Junk K Nat)

/-- The loop of `Cmd_RemoveCommand`. Nothing comes back if a command that was freed is met. -/
def findCommand (cmp : K → K → Ordering) (heap : Nat → Option (K × F)) (cmdName : K) :
    List Nat → Option (Option (Nat × K))
  | [] => some none
  | cmd :: rest => do
    let (name, _) ← heap cmd
    if cmp cmdName name = .eq then some (some (cmd, name)) else findCommand cmp heap cmdName rest

def cmdRemoveCommand (cmp : K → K → Ordering) (fuel : Nat) (cmdName : K) (junk : Junk K Nat)
    (s : Table K F) : Option (Table K F) := do
  match ← findCommand cmp s.heap cmdName s.cmdFunctions with
  | none => some s
  | some (cmd, name) =>
    let cmdtree ← NameTrees.delete cmp fuel name junk s.cmdtree
    some ⟨cmdtree, Function.update s.heap cmd none, s.cmdFunctions.erase cmd⟩

/-- An old command of the name is taken away. -/
def makeRoom (cmp : K → K → Ordering) (fuel : Nat) (cmdName : K) (junk : Junk K Nat)
    (s : Table K F) : Option (Table K F) := do
  let found ← rbFind cmp fuel cmdName s.cmdtree.memory
  if found.isSome then cmdRemoveCommand cmp fuel cmdName junk s else some s

def cmdAddCommand (cmp : K → K → Ordering) (fuel : Nat) (cmdName : K) (function : F)
    (isVariable : Bool) (junk : Junk K Nat) (cmd z : Nat) (s : Table K F) :
    Option (Table K F) := do
  if isVariable then some s
  else
    let s ← makeRoom cmp fuel cmdName junk s
    let cmdtree ← NameTrees.put cmp fuel cmdName cmd z s.cmdtree
    some ⟨cmdtree, Function.update s.heap cmd (some (cmdName, function)), cmd :: s.cmdFunctions⟩

/-- What `Cmd_ExecuteString` finds to execute. Nothing comes back if it is a command that was
freed. -/
def lookUp (cmp : K → K → Ordering) (fuel : Nat) (cmdName : K) (s : Table K F) :
    Option (Option F) := do
  match ← rbFind cmp fuel cmdName s.cmdtree.memory with
  | none => some none
  | some x =>
    let cmd ← s.cmdtree.memory.data x
    let (_, function) ← s.heap cmd
    some (some function)

def step (cmp : K → K → Ordering) (fuel : Nat) (s : Option (Table K F)) (op : Op K F) :
    Option (Table K F) :=
  match op with
  | .add cmdName function isVariable junk cmd z =>
    s.bind (cmdAddCommand cmp fuel cmdName function isVariable junk cmd z)
  | .remove cmdName junk => s.bind (cmdRemoveCommand cmp fuel cmdName junk)

/-- Neither the new command nor the new node stands where something is in use. -/
def Allocates (cmp : K → K → Ordering) (fuel : Nat) (s : Option (Table K F)) : Op K F → Prop
  | .add cmdName _ isVariable junk cmd z => isVariable = false → z ≠ rbnull ∧
    ∀ room ∈ s.bind (makeRoom cmp fuel cmdName junk),
      z ∉ room.cmdtree.live ∧ cmd ∉ room.cmdFunctions
  | .remove _ _ => True

instance (cmp : K → K → Ordering) (fuel : Nat) (s : Option (Table K F)) :
    (op : Op K F) → Decidable (Allocates cmp fuel s op)
  | .add cmdName _ isVariable junk cmd z => inferInstanceAs (Decidable (isVariable = false →
    z ≠ rbnull ∧
    ∀ room ∈ s.bind (makeRoom cmp fuel cmdName junk),
      z ∉ room.cmdtree.live ∧ cmd ∉ room.cmdFunctions))
  | .remove _ _ => inferInstanceAs (Decidable True)

def empty (m : Memory K Nat) (heap : Nat → Option (K × F)) : Table K F :=
  ⟨⟨rbInit m, []⟩, heap, []⟩

/-- The functions under their names. -/
def change (cmp : K → K → Ordering) (g : Directory K F) : Op K F → Directory K F
  | .add cmdName function isVariable _ _ _ =>
    if isVariable then g else fun key => if cmp key cmdName = .eq then some function else g key
  | .remove cmdName _ => fun key => if cmp key cmdName = .eq then none else g key

/-! ## List, tree and directory -/

/-- `f` is what the tree has, and `g` what is under the names. -/
structure Agrees (cmp : K → K → Ordering) (s : Table K F) (f : Directory K Nat)
    (g : Directory K F) : Prop where
  nodup : s.cmdFunctions.Nodup
  listed : ∀ cmd ∈ s.cmdFunctions, ∃ name function, s.heap cmd = some (name, function) ∧
    f name = some cmd
  under : ∀ key cmd, f key = some cmd → cmd ∈ s.cmdFunctions ∧
    ∃ name function, s.heap cmd = some (name, function) ∧ cmp key name = .eq
  shows : ∀ key, g key = (f key).bind fun cmd => (s.heap cmd).map Prod.snd
  same : ∀ key key', cmp key key' = .eq → f key = f key'

/-- Without the command of a name. -/
def without {D : Type} (cmp : K → K → Ordering) (cmdName : K) (f : Directory K D) : Directory K D :=
  fun key => if cmp key cmdName = .eq then none else f key

section
variable {cmp : K → K → Ordering} [Std.TransCmp cmp] {s : Table K F} {f : Directory K Nat}
  {g : Directory K F} {cmdName : K} {fuel n : Nat}

omit [Std.TransCmp cmp] in
/-- The search of the list finds what the tree holds. -/
theorem Agrees.findCommand (agrees : Agrees cmp s f g) (cmdName : K) :
    ∃ r, findCommand cmp s.heap cmdName s.cmdFunctions = some r ∧ r.map Prod.fst = f cmdName ∧
      ∀ cmd name, r = some (cmd, name) → cmd ∈ s.cmdFunctions ∧ cmp cmdName name = .eq ∧
        ∃ function, s.heap cmd = some (name, function) := by
  have searched : ∀ cmds : List Nat, (∀ cmd ∈ cmds, cmd ∈ s.cmdFunctions) →
      (∃ r, CommandTable.findCommand cmp s.heap cmdName cmds = some r ∧
        ((r = none ∧ ∀ cmd ∈ cmds, f cmdName ≠ some cmd) ∨ ∃ cmd name function,
          r = some (cmd, name) ∧ f cmdName = some cmd ∧ cmd ∈ s.cmdFunctions ∧
            cmp cmdName name = .eq ∧ s.heap cmd = some (name, function))) := by
    intro cmds inside
    induction cmds with
    | nil => exact ⟨none, rfl, Or.inl ⟨rfl, List.forall_mem_nil _⟩⟩
    | cons cmd cmds ih =>
      obtain ⟨name, function, stands, put⟩ := agrees.listed cmd (inside cmd List.mem_cons_self)
      by_cases here : cmp cmdName name = .eq
      · refine ⟨some (cmd, name), ?_, Or.inr ⟨cmd, name, function, rfl, ?_,
          inside cmd List.mem_cons_self, here, stands⟩⟩
        · simp only [CommandTable.findCommand, stands, Option.bind_eq_bind, Option.bind_some,
            if_pos here]
        · rw [agrees.same cmdName name here, put]
      · obtain ⟨r, found, result⟩ := ih fun c listed => inside c (List.mem_cons_of_mem _ listed)
        refine ⟨r, ?_, result.imp_left fun ⟨nothing, absent⟩ => ⟨nothing, fun c listed => ?_⟩⟩
        · simp only [CommandTable.findCommand, stands, Option.bind_eq_bind, Option.bind_some,
            if_neg here, found]
        · rcases List.mem_cons.mp listed with rfl | later
          · intro under
            obtain ⟨-, name', function', stands', same⟩ := agrees.under cmdName c under
            obtain ⟨rfl, -⟩ := Prod.mk.inj (Option.some.inj (stands.symm.trans stands'))
            exact here same
          · exact absent c later
  obtain ⟨r, found, ⟨rfl, absent⟩ | ⟨cmd, name, function, rfl, under, listed, same, stands⟩⟩ :=
    searched s.cmdFunctions fun _ listed => listed
  · refine ⟨none, found, ?_, by rintro cmd name ⟨⟩⟩
    cases under : f cmdName with
    | none => rfl
    | some cmd => exact absurd under (absent cmd (agrees.under cmdName cmd under).1)
  · refine ⟨some (cmd, name), found, under.symm, ?_⟩
    rintro _ _ ⟨⟩
    exact ⟨listed, same, function, stands⟩

theorem equal_iff {a b c : K} (same : cmp a b = .eq) : cmp c a = .eq ↔ cmp c b = .eq :=
  ⟨fun equal => Std.TransCmp.eq_trans equal same,
    fun equal => Std.TransCmp.eq_trans equal (Std.OrientedCmp.eq_symm same)⟩

theorem without_same {D : Type} {f : Directory K D} {key key' : K}
    (respects : ∀ a b, cmp a b = .eq → f a = f b) (same : cmp key key' = .eq) :
    without cmp cmdName f key = without cmp cmdName f key' := by
  have swap : cmp key cmdName = .eq ↔ cmp key' cmdName = .eq :=
    ⟨fun equal => Std.TransCmp.eq_trans (Std.OrientedCmp.eq_symm same) equal,
      fun equal => Std.TransCmp.eq_trans same equal⟩
  simp only [without, swap, respects key key' same]

/-- A command is taken out of the list, of the tree and of the heap. -/
theorem Agrees.take (agrees : Agrees cmp s f g) {cmd : Nat} {name : K} {function : F}
    {cmdtree : State K Nat} (listed : cmd ∈ s.cmdFunctions)
    (stands : s.heap cmd = some (name, function)) (same : cmp cmdName name = .eq) :
    Agrees cmp ⟨cmdtree, Function.update s.heap cmd none, s.cmdFunctions.erase cmd⟩
      (without cmp name f) (without cmp cmdName g) := by
  have put : f name = some cmd := by
    obtain ⟨name', function', stands', put⟩ := agrees.listed cmd listed
    obtain ⟨rfl, -⟩ := Prod.mk.inj (Option.some.inj (stands.symm.trans stands'))
    exact put
  have other : ∀ key, cmp key name ≠ .eq → f key ≠ some cmd := by
    intro key different under
    obtain ⟨-, name', function', stands', same'⟩ := agrees.under key cmd under
    obtain ⟨rfl, -⟩ := Prod.mk.inj (Option.some.inj (stands.symm.trans stands'))
    exact different same'
  refine ⟨agrees.nodup.erase cmd, fun c inside => ?_, fun key c under => ?_, fun key => ?_,
    fun key key' => without_same agrees.same⟩
  · obtain ⟨different, inside⟩ := (agrees.nodup.mem_erase_iff).mp inside
    obtain ⟨name', function', stands', put'⟩ := agrees.listed c inside
    refine ⟨name', function', (Function.update_of_ne different ..).trans stands',
      (if_neg ?_).trans put'⟩
    intro equal
    exact different (Option.some.inj ((put'.symm.trans (agrees.same name' name equal)).trans put))
  · rw [without] at under
    split at under
    · cases under
    · rename_i different
      obtain ⟨inside, name', function', stands', same'⟩ := agrees.under key c under
      have notCmd : c ≠ cmd := fun is => other key different (is ▸ under)
      exact ⟨(agrees.nodup.mem_erase_iff).mpr ⟨notCmd, inside⟩, name', function',
        (Function.update_of_ne notCmd ..).trans stands', same'⟩
  · by_cases equal : cmp key name = .eq
    · rw [without, if_pos ((equal_iff same).mpr equal), without, if_pos equal, Option.bind_none]
    · rw [without, if_neg fun is => equal ((equal_iff same).mp is), without, if_neg equal,
        agrees.shows key]
      cases under : f key with
      | none => rfl
      | some c =>
        have notCmd : c ≠ cmd := fun is => other key equal (is ▸ under)
        rw [Option.bind_some, Option.bind_some]
        exact congrArg (Option.map Prod.snd) (Function.update_of_ne notCmd ..).symm

omit [Std.TransCmp cmp] in
theorem Agrees.without_absent (agrees : Agrees cmp s f g) (absent : f cmdName = none) :
    without cmp cmdName g = g := by
  funext key
  rw [without]
  split
  · rename_i equal
    rw [agrees.shows key, agrees.same key cmdName equal, absent, Option.bind_none]
  · rfl

theorem cmdRemoveCommand_spec {t : ColouredTree.Coloured Nat} (holds : Holds cmp s.cmdtree t f n)
    (agrees : Agrees cmp s f g) (cmdName : K) (junk : Junk K Nat)
    (enough : 2 * Nat.log2 (n + 1) < fuel) :
    ∃ s' t' f', cmdRemoveCommand cmp fuel cmdName junk s = some s' ∧
      Holds cmp s'.cmdtree t' f' n ∧ Agrees cmp s' f' (without cmp cmdName g) ∧
        f' cmdName = none := by
  obtain ⟨r, found, under, command⟩ := agrees.findCommand cmdName
  cases r with
  | none =>
    have absent : f cmdName = none := under.symm
    refine ⟨s, t, f, ?_, holds, ?_, absent⟩
    rotate_left
    · rwa [agrees.without_absent absent]
    simp only [cmdRemoveCommand, found, Option.bind_eq_bind, Option.bind_some]
  | some r =>
    obtain ⟨cmd, name⟩ := r
    obtain ⟨listed, same, function, stands⟩ := command cmd name rfl
    obtain ⟨cmdtree, t', deleted, holds'⟩ := holds.delete name junk enough
    refine ⟨_, t', without cmp name f, ?_, holds', agrees.take listed stands same, if_pos same⟩
    simp only [cmdRemoveCommand, found, Option.bind_eq_bind, Option.bind_some, deleted]

theorem makeRoom_spec {t : ColouredTree.Coloured Nat} (holds : Holds cmp s.cmdtree t f n)
    (agrees : Agrees cmp s f g) (cmdName : K) (junk : Junk K Nat)
    (enough : 2 * Nat.log2 (n + 1) < fuel) :
    ∃ s' t' f', makeRoom cmp fuel cmdName junk s = some s' ∧
      Holds cmp s'.cmdtree t' f' n ∧ Agrees cmp s' f' (without cmp cmdName g) ∧
        f' cmdName = none := by
  obtain ⟨r, found, -, there⟩ := holds.finds enough cmdName
  by_cases old : r.isSome = true
  · obtain ⟨s', t', f', removed, result⟩ := cmdRemoveCommand_spec holds agrees cmdName junk enough
    refine ⟨s', t', f', ?_, result⟩
    simp only [makeRoom, found, Option.bind_eq_bind, Option.bind_some, old, if_true, removed]
  · have absent : f cmdName = none := by
      rw [there] at old
      exact Option.not_isSome_iff_eq_none.mp old
    refine ⟨s, t, f, ?_, holds, by rwa [agrees.without_absent absent], absent⟩
    simp only [makeRoom, found, Option.bind_eq_bind, Option.bind_some, old, Bool.false_eq_true,
      if_false]

/-- A new command is put into the list, the tree and the heap. -/
theorem Agrees.put (agrees : Agrees cmp s f (without cmp cmdName g)) (absent : f cmdName = none)
    {cmd z : Nat} {function : F} {cmdtree : State K Nat} (fresh : cmd ∉ s.cmdFunctions) :
    Agrees cmp ⟨cmdtree, Function.update s.heap cmd (some (cmdName, function)),
        cmd :: s.cmdFunctions⟩
      (NameTrees.change cmp f (.put cmdName cmd z))
      fun key => if cmp key cmdName = .eq then some function else g key := by
  have stands : ∀ c ∈ s.cmdFunctions,
      Function.update s.heap cmd (some (cmdName, function)) c = s.heap c := fun c inside =>
    Function.update_of_ne (ne_of_mem_of_not_mem inside fresh) ..
  have new : Function.update s.heap cmd (some (cmdName, function)) cmd =
      some (cmdName, function) := Function.update_self ..
  refine ⟨List.nodup_cons.mpr ⟨fresh, agrees.nodup⟩, fun c inside => ?_, fun key c under => ?_,
    fun key => ?_, fun key key' same => ?_⟩
  · rcases List.mem_cons.mp inside with rfl | inside
    · exact ⟨cmdName, function, new, if_pos Std.ReflCmp.compare_self⟩
    · obtain ⟨name, function', stands', put⟩ := agrees.listed c inside
      refine ⟨name, function', (stands c inside).trans stands', (if_neg ?_).trans put⟩
      intro equal
      rw [agrees.same name cmdName equal, absent] at put
      cases put
  · simp only [NameTrees.change] at under
    split at under
    · rename_i equal
      cases under
      exact ⟨List.mem_cons_self, cmdName, function, new, equal⟩
    · obtain ⟨inside, name, function', stands', same⟩ := agrees.under key c under
      exact ⟨List.mem_cons_of_mem _ inside, name, function', (stands c inside).trans stands', same⟩
  · simp only [NameTrees.change]
    split
    · rw [Option.bind_some, new, Option.map_some]
    · rename_i different
      have before := agrees.shows key
      rw [without, if_neg different] at before
      rw [before]
      cases under : f key with
      | none => rfl
      | some c =>
        rw [Option.bind_some, Option.bind_some, stands c (agrees.under key c under).1]
  · have swap : cmp key cmdName = .eq ↔ cmp key' cmdName = .eq :=
      ⟨fun equal => Std.TransCmp.eq_trans (Std.OrientedCmp.eq_symm same) equal,
        fun equal => Std.TransCmp.eq_trans same equal⟩
    simp only [NameTrees.change, swap, agrees.same key key' same]

/-- A call makes of the tree and of the list the same table. -/
theorem step_agrees {t : ColouredTree.Coloured Nat} (holds : Holds cmp s.cmdtree t f n)
    (agrees : Agrees cmp s f g) (op : Op K F) (allocated : Allocates cmp fuel (some s) op)
    (enough : 2 * Nat.log2 (n + 1) < fuel) :
    ∃ s' t' f', step cmp fuel (some s) op = some s' ∧ Holds cmp s'.cmdtree t' f' (n + 1) ∧
      Agrees cmp s' f' (change cmp g op) := by
  cases op with
  | remove cmdName junk =>
    obtain ⟨s', t', f', removed, holds', agrees', -⟩ :=
      cmdRemoveCommand_spec holds agrees cmdName junk enough
    exact ⟨s', t', f', removed, { holds' with size := Nat.le_succ_of_le holds'.size }, agrees'⟩
  | add cmdName function isVariable junk cmd z =>
    cases isVariable with
    | true =>
      exact ⟨s, t, f, rfl, { holds with size := Nat.le_succ_of_le holds.size }, agrees⟩
    | false =>
      obtain ⟨s₁, t₁, f₁, room, holds₁, agrees₁, absent⟩ :=
        makeRoom_spec holds agrees cmdName junk enough
      obtain ⟨real, fresh⟩ := allocated rfl
      obtain ⟨freshZ, freshCmd⟩ := fresh s₁ room
      obtain ⟨cmdtree, t', put, holds'⟩ := holds₁.put cmdName cmd real freshZ enough
      refine ⟨_, t', _, ?_, holds', agrees₁.put absent freshCmd⟩
      simp only [step, cmdAddCommand, Bool.false_eq_true, if_false, room, Option.bind_eq_bind,
        Option.bind_some, put]

theorem lookUp_spec {t : ColouredTree.Coloured Nat} (holds : Holds cmp s.cmdtree t f n)
    (agrees : Agrees cmp s f g) (enough : 2 * Nat.log2 (n + 1) < fuel) (cmdName : K) :
    lookUp cmp fuel cmdName s = some (g cmdName) := by
  obtain ⟨r, found, data, there⟩ := holds.finds enough cmdName
  rw [agrees.shows cmdName]
  cases r with
  | none =>
    rw [← data]
    simp only [lookUp, found, Option.bind_eq_bind, Option.bind_some, Option.bind_none]
  | some x =>
    obtain ⟨cmd, under⟩ := Option.isSome_iff_exists.mp there.symm
    obtain ⟨-, name, function, stands, -⟩ := agrees.under cmdName cmd under
    rw [Option.bind_some, under] at data
    simp only [lookUp, found, Option.bind_eq_bind, Option.bind_some, data, stands, under,
      Option.map_some]

/-- After every run of calls the tree and the list are one table. -/
theorem run_agrees {t : ColouredTree.Coloured Nat} (holds : Holds cmp s.cmdtree t f n)
    (agrees : Agrees cmp s f g) (ops : List (Op K F))
    (allocated : AllSteps (step cmp fuel) (Allocates cmp fuel) (some s) ops)
    (enough : 2 * Nat.log2 (n + ops.length + 1) < fuel) :
    ∃ s' t' f', run (step cmp fuel) (some s) ops = some s' ∧
      Holds cmp s'.cmdtree t' f' (n + ops.length) ∧ Agrees cmp s' f' (run (change cmp) g ops) := by
  induction ops generalizing s t f g n with
  | nil => exact ⟨s, t, f, rfl, holds, agrees⟩
  | cons op ops ih =>
    obtain ⟨now, later⟩ := allocated
    rw [List.length_cons, Nat.add_comm ops.length, ← Nat.add_assoc] at enough ⊢
    obtain ⟨s', t', f', stepped, holds', agrees'⟩ := step_agrees holds agrees op now (by
      refine Nat.lt_of_le_of_lt (Nat.mul_le_mul_left 2 ?_) enough
      rw [Nat.log2_eq_log_two, Nat.log2_eq_log_two]
      exact Nat.log_mono_right (by omega))
    rw [run_cons, run_cons, stepped]
    rw [stepped] at later
    exact ih holds' agrees' later enough

/-- Whatever is added and removed, a name executes what was added last under it and not removed
since, which is what the list has as well, and no command that was freed is met. -/
theorem commands_agree (m : Memory K Nat) (heap : Nat → Option (K × F)) (ops : List (Op K F))
    (allocated : AllSteps (step cmp fuel) (Allocates cmp fuel) (some (empty m heap)) ops)
    (enough : 2 * Nat.log2 (ops.length + 1) < fuel) :
    ∃ s, run (step cmp fuel) (some (empty m heap)) ops = some s ∧ ∀ cmdName,
      lookUp cmp fuel cmdName s = some (run (change cmp) (fun _ => none) ops cmdName) ∧
      ∃ r, findCommand cmp s.heap cmdName s.cmdFunctions = some r ∧
        (r.bind fun c => (s.heap c.1).map Prod.snd) =
          run (change cmp) (fun _ => none) ops cmdName := by
  have start : Agrees cmp (empty m heap) (fun _ => none) (fun _ => none) :=
    ⟨List.nodup_nil, List.forall_mem_nil _, by rintro key cmd ⟨⟩, fun _ => rfl, fun _ _ _ => rfl⟩
  obtain ⟨s, t, f, ran, holds, agrees⟩ :=
    run_agrees (rbInit_holds m) start ops allocated (by rwa [Nat.zero_add])
  rw [Nat.zero_add] at holds
  refine ⟨s, ran, fun cmdName => ⟨lookUp_spec holds agrees enough cmdName, ?_⟩⟩
  obtain ⟨r, found, under, -⟩ := agrees.findCommand cmdName
  refine ⟨r, found, ?_⟩
  rw [agrees.shows cmdName, ← under]
  cases r with
  | none => rfl
  | some c => rfl

end

/-! A command is added again, and gets the node of the old one back. -/

private def leftInNode : Junk Nat Nat := ⟨fun _ => 5, 5, .red, 5, some 5⟩

private def untouched : Memory Nat Nat :=
  ⟨fun _ _ => 0, fun _ => 0, fun _ => .red, fun _ => 0, fun _ => none, 9⟩

private def added : List (Op Nat String) :=
  [.add 4 "map" false leftInNode 20 1, .add 2 "kick" false leftInNode 21 2,
    .add 4 "gamemap" false leftInNode 22 1, .remove 2 leftInNode,
    .add 7 "rate" true leftInNode 22 1]

theorem commands_agree_again :
    ∃ s, run (step compare 6) (some (empty untouched fun _ => none)) added = some s ∧ ∀ cmdName,
      lookUp compare 6 cmdName s = some (run (change compare) (fun _ => none) added cmdName) ∧
      ∃ r, findCommand compare s.heap cmdName s.cmdFunctions = some r ∧
        (r.bind fun c => (s.heap c.1).map Prod.snd) =
          run (change compare) (fun _ => none) added cmdName :=
  commands_agree untouched (fun _ => none) added (by decide +kernel) (by decide)

end CommandTable
