import Kpded2.NameTrees

/-!
# The names in order

A list of the names is read from the first node on, each time with the node that comes next. The
names of a pak file are listed so; the cache of files is emptied so, while its nodes are taken out
of the tree one by one.
-/
namespace NameLists
open ColouredTree
open ColouredTree.Coloured (toList)
open RedBlack NameTrees StepRuns

variable {K D : Type}

/-- The loop of `FS_ListPakFiles`; `keep` is what directory and wildcard ask of a name. -/
def listFrom (fuel : Nat) (keep : K → Bool) (numfiles : Nat) (m : Memory K D) :
    Nat → Nat → Nat → Option (List K)
  | 0, _, _ => none
  | steps + 1, nextp, nfiles => do
    let (key, nextp) ← rbReadlist fuel m nextp
    match key with
    | none => some []
    | some key =>
      if nfiles < numfiles then
        if keep key then
          let list ← listFrom fuel keep numfiles m steps nextp (nfiles + 1)
          some (key :: list)
        else listFrom fuel keep numfiles m steps nextp nfiles
      else some []

def fsListPakFiles (fuel steps : Nat) (keep : K → Bool) (numfiles : Nat) (m : Memory K D) :
    Option (List K) := do
  let nextp ← rbOpenlist fuel m
  listFrom fuel keep numfiles m steps nextp 0

/-- The loop of `RB_Purge`, and what it frees. -/
def purgeFrom (cmp : K → K → Ordering) (fuel : Nat) (junk : Nat → Junk K D) :
    Nat → Nat → Memory K D → Option (List D × Memory K D)
  | 0, _, _ => none
  | steps + 1, nextp, m => do
    let (val, nextp) ← rbReadlist fuel m nextp
    match val with
    | none => some ([], m)
    | some val =>
      let data ← rbFind cmp fuel val m
      -- a null pointer is not followed
      let x ← data
      let (_, m') ← rbDelete cmp fuel val (junk steps) m
      let (freed, m') ← purgeFrom cmp fuel junk steps nextp m'
      some ((m.data x).toList ++ freed, m')

/-- `RB_Purge`, up to `rbdestroy`. -/
def rbPurge (cmp : K → K → Ordering) (fuel steps : Nat) (junk : Nat → Junk K D) (m : Memory K D) :
    Option (List D × Memory K D) := do
  let nextp ← rbOpenlist fuel m
  purgeFrom cmp fuel junk steps nextp m

/-! ## From node to node -/

section
variable {cmp : K → K → Ordering} {m : Memory K D} {t : Coloured Nat} {x : Nat} {l rest : List Nat}
  {fuel : Nat}

theorem rbOpenlist_spec (valid : Valid cmp m t) (enough : t.height < fuel) :
    rbOpenlist fuel m = some (t.toList.headD rbnull) := by
  have root : m.root = rootOf t := valid.here.hole
  cases t with
  | nil =>
    obtain ⟨fuel, rfl⟩ := Nat.exists_eq_add_one_of_ne_zero (Nat.ne_zero_of_lt enough)
    rw [rbOpenlist, root]
    exact if_neg (not_not.mpr valid.nil)
  | node c l x r =>
    have room : l.height < fuel :=
      Nat.lt_of_le_of_lt (Nat.le_trans (Nat.le_max_left ..) (Nat.le_succ _)) enough
    obtain ⟨path, c', y, r', found, -, same, front⟩ := goLeft_spec valid.here room
    rw [rbOpenlist, root, rootOf, found]
    have first : (Coloured.node c l x r).toList = y :: (r'.toList ++ after path) := by
      change (fill [] (Coloured.node c l x r)).toList = _
      rw [← same, toList_fill, front, before, toList, List.nil_append, toList, List.nil_append,
        List.cons_append]
    rw [first, List.headD_cons]

/-- What comes behind a node, whatever stands before it. -/
theorem rbSuccessor_listed (valid : Valid cmp m t) (split : t.toList = l ++ x :: rest)
    (enough : t.height < fuel) : rbSuccessor fuel m x = some (rest.headD rbnull) := by
  have listed : x ∈ t.toList := by
    rw [split]
    exact List.mem_append_right _ List.mem_cons_self
  obtain ⟨path, c, left, right, filled⟩ := exists_place listed []
  change fill path _ = t at filled
  subst filled
  have nodup := valid.here.nodup
  rw [fill, split] at nodup
  obtain ⟨-, -, outl, outr, -⟩ := nodup_middle.mp nodup
  have same : l ++ x :: rest =
      (before path ++ left.toList) ++ x :: (right.toList ++ after path) := by
    rw [← split, toList_fill, toList]
    simp only [List.append_assoc, List.cons_append]
  obtain ⟨-, -, behind⟩ := (List.append_cons_inj_of_notMem outl outr).mp same
  rw [rbSuccessor_spec (at_fill.mpr valid.here) enough, behind]

theorem rbReadlist_listed (valid : Valid cmp m t) (split : t.toList = l ++ x :: rest)
    (enough : t.height < fuel) :
    rbReadlist fuel m x = some (some (m.key x), rest.headD rbnull) := by
  have real : x ≠ rbnull := valid.here.tree.ne_rbnull x (by
    rw [split]
    exact List.mem_append_right _ List.mem_cons_self)
  rw [rbReadlist, if_pos real, rbSuccessor_listed valid split enough, Option.map_some]

/-- The walk lists the names from a node on in their order. -/
theorem listFrom_spec (valid : Valid cmp m t) (enough : t.height < fuel) (keep : K → Bool)
    (numfiles nfiles : Nat) {steps : Nat} (split : t.toList = l ++ rest)
    (long : rest.length < steps) :
    listFrom fuel keep numfiles m steps (rest.headD rbnull) nfiles =
      some (((rest.map m.key).filter keep).take (numfiles - nfiles)) := by
  induction rest generalizing l nfiles steps with
  | nil =>
    obtain ⟨steps, rfl⟩ := Nat.exists_eq_add_one_of_ne_zero (Nat.ne_zero_of_lt long)
    have ended : rbReadlist fuel m rbnull = some (none, rbnull) := if_neg (not_not.mpr rfl)
    rw [List.map_nil, List.filter_nil, List.take_nil]
    simp only [listFrom, List.headD_nil, ended, Option.bind_eq_bind, Option.bind_some]
  | cons x rest ih =>
    obtain ⟨steps, rfl⟩ := Nat.exists_eq_add_one_of_ne_zero (Nat.ne_zero_of_lt long)
    have next : ∀ nfiles, listFrom fuel keep numfiles m steps (rest.headD rbnull) nfiles =
        some (((rest.map m.key).filter keep).take (numfiles - nfiles)) := fun nfiles =>
      ih (l := l ++ [x]) nfiles (by rw [split, List.append_assoc, List.singleton_append])
        (Nat.lt_of_succ_lt_succ long)
    simp only [listFrom, List.headD_cons, rbReadlist_listed valid split enough, Option.bind_eq_bind,
      Option.bind_some, next, List.map_cons, List.filter_cons]
    by_cases room : nfiles < numfiles
    · rw [if_pos room]
      cases kept : keep (m.key x) with
      | false => simp only [Bool.false_eq_true, if_false]
      | true =>
        obtain ⟨more, left⟩ := Nat.exists_eq_add_one_of_ne_zero (Nat.sub_ne_zero_of_lt room)
        have fewer : numfiles - (nfiles + 1) = more := by omega
        simp only [if_true, left, fewer, List.take_succ_cons]
    · rw [if_neg room, Nat.sub_eq_zero_of_le (Nat.le_of_not_lt room), List.take_zero]

end

section
variable {cmp : K → K → Ordering} [Std.TransCmp cmp] {m : Memory K D} {t : Coloured Nat} {x : Nat}
  {rest : List Nat} {fuel : Nat}

/-- The first node of the list is the node that is taken out, and the next one stays where it is. -/
theorem first_taken (valid : Valid cmp m t) (first : t.toList = x :: rest)
    (junk : Junk K D) (enough : t.height < fuel) :
    rbFind cmp fuel (m.key x) m = some (some x) ∧
      ∃ m' t', rbDelete cmp fuel (m.key x) junk m = some (x, m') ∧ Valid cmp m' t' ∧
        t'.toList = rest ∧ ∀ a ∈ rest, m'.key a = m.key a ∧ m'.data a = m.data a := by
  have listed : x ∈ t.toList := by
    rw [first]
    exact List.mem_cons_self
  have only : ∀ a ∈ t.toList, cmp (m.key x) (m.key a) = .eq → a = x := by
    intro a ina same
    rw [first] at ina
    cases ina with
    | head => rfl
    | tail _ later =>
      have ascending := valid.ascending
      rw [Ascending, first] at ascending
      have less := (List.pairwise_cons.mp ascending).1 a later
      rw [same] at less
      cases less
  constructor
  · rcases rbFind_spec valid (m.key x) enough with ⟨a, ina, same, found⟩ | ⟨other, -⟩
    · rw [found, only a ina same]
    · exact absurd Std.ReflCmp.compare_self (other x listed)
  · rcases rbDelete_spec valid (m.key x) junk enough with
      ⟨a, ina, same, y, m', t', deleted, taken, own⟩ | ⟨other, -⟩
    · obtain rfl := only a ina same
      obtain rfl := own rest first
      obtain ⟨l₁, l₂, old, new⟩ := taken.nodes
      have nodup := valid.here.nodup
      rw [fill, first, List.nodup_cons] at nodup
      have here : [] ++ y :: rest = l₁ ++ y :: l₂ := by rw [← old, first, List.nil_append]
      obtain ⟨rfl, -, rfl⟩ :=
        (List.append_cons_inj_of_notMem List.not_mem_nil nodup.1).mp here
      rw [List.nil_append] at new
      exact ⟨m', t', deleted, taken.valid, new, fun a later =>
        taken.kept a (by rwa [new]) (ne_of_mem_of_not_mem later nodup.1)⟩
    · exact absurd Std.ReflCmp.compare_self (other x listed)

/-- The walk frees the data of every node once. -/
theorem purgeFrom_spec (valid : Valid cmp m t) (junk : Nat → Junk K D) {nodes : List Nat}
    (listed : t.toList = nodes) {n steps : Nat} (few : nodes.length ≤ n)
    (enough : 2 * Nat.log2 (n + 1) < fuel) (long : nodes.length < steps) :
    ∃ m', purgeFrom cmp fuel junk steps (nodes.headD rbnull) m =
      some (nodes.filterMap m.data, m') ∧ Valid cmp m' .nil := by
  obtain ⟨steps, rfl⟩ := Nat.exists_eq_add_one_of_ne_zero (Nat.ne_zero_of_lt long)
  induction nodes generalizing t m steps with
  | nil =>
    have ended : rbReadlist fuel m rbnull = some (none, rbnull) := if_neg (not_not.mpr rfl)
    have none : t = .nil := by
      cases t with
      | nil => rfl
      | node => exact absurd listed (List.append_ne_nil_of_right_ne_nil _ (List.cons_ne_nil _ _))
    refine ⟨m, ?_, none ▸ valid⟩
    simp only [purgeFrom, List.headD_nil, ended, Option.bind_eq_bind, Option.bind_some,
      List.filterMap_nil]
  | cons x rest ih =>
    have room := valid.room (by rwa [listed]) enough
    obtain ⟨found, m₁, t₁, deleted, valid₁, listed₁, same⟩ :=
      first_taken valid listed (junk steps) room
    have read := rbReadlist_listed (l := []) valid listed room
    have shorter : rest.length < steps := Nat.lt_of_succ_lt_succ long
    obtain ⟨steps, rfl⟩ := Nat.exists_eq_add_one_of_ne_zero (Nat.ne_zero_of_lt shorter)
    obtain ⟨m', ran, done⟩ :=
      ih valid₁ listed₁ (Nat.le_of_succ_le few) steps shorter
    have freed : rest.filterMap m₁.data = rest.filterMap m.data :=
      List.filterMap_congr fun a later => (same a later).2
    refine ⟨m', ?_, done⟩
    rw [purgeFrom]
    simp only [List.headD_cons, read, Option.bind_eq_bind, Option.bind_some, found, deleted, ran,
      freed]
    cases held : m.data x with
    | none => rw [List.filterMap_cons_none held, Option.toList_none, List.nil_append]
    | some d => rw [List.filterMap_cons_some held, Option.toList_some, List.singleton_append]

end

/-! ## After every run -/

/-- The names in their order, each once. -/
structure Names (cmp : K → K → Ordering) (f : Directory K D) (names : List K) : Prop where
  ascending : names.Pairwise fun a b => cmp a b = .lt
  complete : ∀ key, (f key).isSome ↔ ∃ name ∈ names, cmp key name = .eq

section
variable {cmp : K → K → Ordering} [Std.TransCmp cmp] {s : State K D} {t : Coloured Nat}
  {f : Directory K D} {n fuel steps : Nat}

theorem under_key (holds : Holds cmp s t f n) {x : Nat} (listed : x ∈ t.toList) :
    f (s.memory.key x) = s.memory.data x := by
  obtain ⟨l, r, split⟩ := List.append_of_mem listed
  have sorted := holds.valid.ascending
  rw [ascending_iff, split, entries_append] at sorted
  rw [holds.shows, split, entries_append]
  exact valueOf_here sorted Std.ReflCmp.compare_self

theorem names_ordered (holds : Holds cmp s t f n) : Names cmp f (t.toList.map s.memory.key) where
  ascending := List.pairwise_map.mpr holds.valid.ascending
  complete key := by
    constructor
    · intro there
      by_contra nowhere
      rw [holds.shows, valueOf_none fun e ine same => nowhere ?_] at there
      · cases there
      · obtain ⟨a, ina, rfl⟩ := List.mem_map.mp ine
        exact ⟨s.memory.key a, List.mem_map_of_mem ina, same⟩
    · rintro ⟨name, listed, same⟩
      obtain ⟨x, inx, rfl⟩ := List.mem_map.mp listed
      obtain ⟨l, r, split⟩ := List.append_of_mem inx
      have sorted := holds.valid.ascending
      rw [ascending_iff, split, entries_append] at sorted
      rw [holds.shows, split, entries_append]
      exact (congrArg Option.isSome (valueOf_here sorted same)).trans (holds.filled x inx)

theorem freed_names (holds : Holds cmp s t f n) :
    (t.toList.filterMap s.memory.data).map some = (t.toList.map s.memory.key).map f := by
  have held : ∀ nodes : List Nat, (∀ a ∈ nodes, (s.memory.data a).isSome) →
      (nodes.filterMap s.memory.data).map some = nodes.map s.memory.data := by
    intro nodes filled
    induction nodes with
    | nil => rfl
    | cons a rest ih =>
      obtain ⟨d, here⟩ := Option.isSome_iff_exists.mp (filled a List.mem_cons_self)
      rw [List.filterMap_cons_some here, List.map_cons, List.map_cons, here,
        ih fun b later => filled b (List.mem_cons_of_mem _ later)]
  rw [held _ holds.filled, List.map_map]
  exact List.map_congr_left fun x listed => (under_key holds listed).symm

/-- The list of a pak file has the names that are kept, in order, and each of them once. -/
theorem names_listed (m : Memory K D) (ops : List (Op K D))
    (allocated : AllSteps (step cmp fuel) Allocates (some ⟨rbInit m, []⟩) ops)
    (enough : 2 * Nat.log2 (ops.length + 1) < fuel) (long : ops.length < steps) :
    ∃ s names, run (step cmp fuel) (some ⟨rbInit m, []⟩) ops = some s ∧
      Names cmp (run (change cmp) (fun _ => none) ops) names ∧
      ∀ keep numfiles, fsListPakFiles fuel steps keep numfiles s.memory =
        some ((names.filter keep).take numfiles) := by
  obtain ⟨s, t, ran, holds⟩ := run_holds (rbInit_holds m) ops allocated (by rwa [Nat.zero_add])
  rw [Nat.zero_add] at holds
  have room := holds.room enough
  refine ⟨s, t.toList.map s.memory.key, ran, names_ordered holds, fun keep numfiles => ?_⟩
  rw [fsListPakFiles, rbOpenlist_spec holds.valid room]
  exact listFrom_spec holds.valid room keep numfiles 0 (l := []) rfl
    (Nat.lt_of_le_of_lt holds.size long)

/-- The cache frees what is under each of its names, once, and leaves an empty tree, whatever is
found in the nodes that are freed on the way. -/
theorem cache_purged (m : Memory K D) (ops : List (Op K D))
    (allocated : AllSteps (step cmp fuel) Allocates (some ⟨rbInit m, []⟩) ops)
    (enough : 2 * Nat.log2 (ops.length + 1) < fuel) (long : ops.length < steps)
    (junk : Nat → Junk K D) :
    ∃ s names freed m', run (step cmp fuel) (some ⟨rbInit m, []⟩) ops = some s ∧
      Names cmp (run (change cmp) (fun _ => none) ops) names ∧
      rbPurge cmp fuel steps junk s.memory = some (freed, m') ∧
      freed.map some = names.map (run (change cmp) (fun _ => none) ops) ∧ m'.root = rbnull := by
  obtain ⟨s, t, ran, holds⟩ := run_holds (rbInit_holds m) ops allocated (by rwa [Nat.zero_add])
  rw [Nat.zero_add] at holds
  obtain ⟨m', purged, valid⟩ := purgeFrom_spec holds.valid junk rfl holds.size enough
    (Nat.lt_of_le_of_lt holds.size long)
  refine ⟨s, t.toList.map s.memory.key, t.toList.filterMap s.memory.data, m', ran,
    names_ordered holds, ?_, freed_names holds, valid.here.hole⟩
  rw [rbPurge, rbOpenlist_spec holds.valid (holds.room enough)]
  exact purged

end

private def leftThere : Junk Nat String := ⟨fun _ => 3, 1, .red, 9, none⟩

private def clean : Memory Nat String :=
  ⟨fun _ _ => 0, fun _ => 0, fun _ => .black, fun _ => 0, fun _ => none, 0⟩

private def cached : List (Op Nat String) :=
  [.put 5 "pics" 1, .put 3 "maps" 2, .put 8 "sound" 3, .put 4 "models" 4, .delete 5 leftThere]

theorem names_listed_four : ∃ s names,
    run (step compare 6) (some ⟨rbInit clean, []⟩) cached = some s ∧
      Names compare (run (change compare) (fun _ => none) cached) names ∧
      ∀ keep numfiles, fsListPakFiles 6 6 keep numfiles s.memory =
        some ((names.filter keep).take numfiles) :=
  names_listed clean cached (by decide +kernel) (by decide) (by decide)

theorem cache_purged_four : ∃ s names freed m',
    run (step compare 6) (some ⟨rbInit clean, []⟩) cached = some s ∧
      Names compare (run (change compare) (fun _ => none) cached) names ∧
      rbPurge compare 6 6 (fun _ => leftThere) s.memory = some (freed, m') ∧
      freed.map some = names.map (run (change compare) (fun _ => none) cached) ∧
      m'.root = rbnull :=
  cache_purged clean cached (by decide +kernel) (by decide) (by decide) fun _ => leftThere

end NameLists
