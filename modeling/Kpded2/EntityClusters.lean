import Kpded2.BoxLeafs

/-!
# The clusters of an entity

What `SV_LinkEdict` stores of the leafs that an entity's box touches, and the test that
`SV_BuildClientFrame` makes with it. The leaf list, the cluster list and the top node stand in for
the walk without limits.
-/
namespace EntityClusters
open BspLoad BoxLeafs

def maxTotalEntLeafs : Nat := 128
def maxEntClusters : Nat := 16

/-- The part of an entity that the link sets; `clusternums` has the first `num_clusters` entries. -/
structure Linked where
  numClusters : Int
  clusternums : List Int
  headnode : Int
  areanum : Int
  areanum2 : Int

/-- Doors may straddle two areas. -/
def setArea (ent : Linked) (area : Int) : Linked :=
  if area = 0 then ent
  else if ent.areanum ≠ 0 ∧ ent.areanum ≠ area then { ent with areanum2 := area }
  else { ent with areanum := area }

/-- The loop over the clusters; `seen` are those in front. -/
def setClusters (topnode : Int) : List Int → List Int → Linked → Linked
  | _, [], ent => ent
  | seen, cluster :: rest, ent =>
    if cluster = -1 ∨ cluster ∈ seen then setClusters topnode (seen ++ [cluster]) rest ent
    else if ent.numClusters = maxEntClusters then { ent with numClusters := -1, headnode := topnode }
    else setClusters topnode (seen ++ [cluster]) rest
      { ent with numClusters := ent.numClusters + 1, clusternums := ent.clusternums ++ [cluster] }

/-- "link to PVS leafs". -/
def linkLeafs (tree : Int → CNode) (side : CNode → Nat) (cluster area : Int → Int) (fuel : Nat)
    (world : Int) (ent : Linked) : Option Linked :=
  (boxLeafnumsHeadnode tree side (some maxTotalEntLeafs) fuel world).map fun w =>
    let ent := { ent with numClusters := 0, clusternums := [], areanum := 0, areanum2 := 0 }
    let ent := (w.leafList.map area).foldl setArea ent
    if w.leafList.length ≥ maxTotalEntLeafs then { ent with numClusters := -1, headnode := w.topnode }
    else setClusters w.topnode [] (w.leafList.map cluster) ent

/-- The cluster test for an entity that is no beam. -/
def clusterTest (tree : Int → CNode) (cluster : Int → Int) (visible : Int → Bool) (fuel : Nat)
    (ent : Linked) : Option Bool :=
  if ent.numClusters = -1 then headnodeVisible tree cluster visible fuel ent.headnode
  else some (ent.clusternums.any visible)

variable {tree : Int → CNode} {side : CNode → Nat} {cluster area : Int → Int} {world : Int}

theorem clusters_setArea (ent : Linked) (area : Int) :
    (setArea ent area).numClusters = ent.numClusters ∧
      (setArea ent area).clusternums = ent.clusternums := by
  simp only [setArea]
  split
  · exact ⟨rfl, rfl⟩
  split
  · exact ⟨rfl, rfl⟩
  · exact ⟨rfl, rfl⟩

theorem clusters_setAreas (areas : List Int) (ent : Linked) :
    (areas.foldl setArea ent).numClusters = ent.numClusters ∧
      (areas.foldl setArea ent).clusternums = ent.clusternums := by
  induction areas generalizing ent with
  | nil => exact ⟨rfl, rfl⟩
  | cons area areas ih =>
    rw [List.foldl_cons, (ih _).1, (ih _).2]
    exact clusters_setArea ent area

/-- The count is that of the list, which has every cluster so far. -/
structure Holds (seen : List Int) (ent : Linked) : Prop where
  count : ent.numClusters = ent.clusternums.length
  few : ent.clusternums.length ≤ seen.length
  all : ∀ c ∈ seen, c ≠ -1 → c ∈ ent.clusternums

/-- Every cluster is stored, or there are several and the top node is. -/
theorem setClusters_spec (topnode : Int) {seen rest : List Int} {ent : Linked}
    (h : Holds seen ent) : Holds (seen ++ rest) (setClusters topnode seen rest ent) ∨
      (setClusters topnode seen rest ent).numClusters = -1 ∧
        (setClusters topnode seen rest ent).headnode = topnode ∧ 1 < (seen ++ rest).length := by
  induction rest generalizing seen ent with
  | nil =>
    rw [List.append_nil]
    exact .inl h
  | cons c rest ih =>
    have split : seen ++ c :: rest = seen ++ [c] ++ rest := by
      rw [List.append_assoc, List.singleton_append]
    have longer : (seen ++ [c]).length = seen.length + 1 := by
      rw [List.length_append, List.length_singleton]
    have few := h.few
    rw [split]
    simp only [setClusters]
    split
    · rename_i known
      refine ih ⟨h.count, by omega, fun other hother set => ?_⟩
      rcases List.mem_append.mp hother with old | new
      · exact h.all other old set
      · rw [List.mem_singleton.mp new] at set ⊢
        exact h.all c (known.resolve_left set) set
    split
    · rename_i full
      refine .inr ⟨rfl, rfl, ?_⟩
      have count := h.count.symm.trans full
      have max : maxEntClusters = 16 := rfl
      rw [List.length_append]
      omega
    · refine ih ⟨?_, ?_, fun other hother set => ?_⟩
      · simp only [List.length_append, List.length_singleton, h.count]
        omega
      · simp only [List.length_append, List.length_singleton]
        omega
      · rcases List.mem_append.mp hother with old | new
        · exact List.mem_append_left [c] (h.all other old set)
        · exact List.mem_append_right _ new

/-- Whatever side of each node the box is on. -/
theorem accepted_of_touched (finite : Acc (Child tree) world) (side : CNode → Nat)
    (cluster area : Int → Int) (visible : Int → Bool) (old : Linked) :
    ∃ enough, ∀ fuel ≥ enough, ∃ all ent accepted,
      boxLeafnumsHeadnode tree side none fuel world = some all ∧
      linkLeafs tree side cluster area fuel world old = some ent ∧
      clusterTest tree cluster visible fuel ent = some accepted ∧
      ((∃ leaf ∈ all.leafList, cluster leaf ≠ -1 ∧ visible (cluster leaf) = true) →
        accepted = true) := by
  obtain ⟨enough, henough⟩ := exists_enough finite
  refine ⟨enough, fun fuel more => ?_⟩
  have henough := henough.mono more
  obtain ⟨list, hlist⟩ := exists_touched side henough
  obtain ⟨top, unlimited, -⟩ := boxLeafnumsHeadnode_eq hlist none
  obtain ⟨topnode, limitedRun, htop⟩ := boxLeafnumsHeadnode_eq hlist (some maxTotalEntLeafs)
  -- the top node stands for the list if there is more than one leaf
  have byHeadnode : ∀ ent : Linked, ent.numClusters = -1 → ent.headnode = topnode →
      1 < list.length → ∃ accepted, clusterTest tree cluster visible fuel ent = some accepted ∧
        ((∃ leaf ∈ list, cluster leaf ≠ -1 ∧ visible (cluster leaf) = true) → accepted = true) := by
    intro ent count headnode several
    rcases htop with ⟨-, one⟩ | ⟨-, under, depth, htouched⟩
    · omega
    · obtain ⟨seen, hseen⟩ := exists_headnodeVisible cluster visible (henough.under under)
      refine ⟨seen, by rw [clusterTest, if_pos count, headnode, hseen], ?_⟩
      rintro ⟨leaf, hleaf, inside, sees⟩
      exact headnodeVisible_of_below hseen (below_of_touched htouched hleaf) inside sees
  let ent₀ : Linked := { old with numClusters := 0, clusternums := [], areanum := 0, areanum2 := 0 }
  let limitedLeafs := list.take maxTotalEntLeafs
  let ent₁ := (limitedLeafs.map area).foldl setArea ent₀
  have linked : linkLeafs tree side cluster area fuel world old = some
      (if limitedLeafs.length ≥ maxTotalEntLeafs then
        { ent₁ with numClusters := -1, headnode := topnode }
      else setClusters topnode [] (limitedLeafs.map cluster) ent₁) := by
    rw [linkLeafs, limitedRun]
    rfl
  have finish : ∀ ent, linkLeafs tree side cluster area fuel world old = some ent →
      (∃ accepted, clusterTest tree cluster visible fuel ent = some accepted ∧
        ((∃ leaf ∈ list, cluster leaf ≠ -1 ∧ visible (cluster leaf) = true) → accepted = true)) →
      ∃ all ent accepted, boxLeafnumsHeadnode tree side none fuel world = some all ∧
        linkLeafs tree side cluster area fuel world old = some ent ∧
        clusterTest tree cluster visible fuel ent = some accepted ∧
        ((∃ leaf ∈ all.leafList, cluster leaf ≠ -1 ∧ visible (cluster leaf) = true) →
          accepted = true) := fun ent hent ⟨accepted, htest, sees⟩ =>
    ⟨_, ent, accepted, unlimited, hent, htest, sees⟩
  by_cases full : limitedLeafs.length ≥ maxTotalEntLeafs
  · rw [if_pos full] at linked
    refine finish _ linked (byHeadnode _ rfl rfl ?_)
    have length : limitedLeafs.length = min maxTotalEntLeafs list.length := List.length_take
    have max : maxTotalEntLeafs = 128 := rfl
    omega
  · rw [if_neg full] at linked
    have length : limitedLeafs.length = min maxTotalEntLeafs list.length := List.length_take
    have all : limitedLeafs = list := List.take_of_length_le (by omega)
    rw [all] at linked
    have start : Holds [] ent₁ := by
      obtain ⟨count, clusternums⟩ := clusters_setAreas (limitedLeafs.map area) ent₀
      refine ⟨?_, ?_, by rintro c ⟨⟩⟩
      · rw [count, clusternums]
        rfl
      · rw [clusternums]
    refine finish _ linked ?_
    rcases @setClusters_spec topnode [] (list.map cluster) _ start with
      holds | ⟨count, headnode, several⟩
    · rw [List.nil_append] at holds
      refine ⟨_, if_neg ?_, ?_⟩
      · rw [holds.count]
        omega
      · rintro ⟨leaf, hleaf, inside, sees⟩
        exact List.any_eq_true.mpr
          ⟨cluster leaf, holds.all _ (List.mem_map_of_mem hleaf) inside, sees⟩
    · rw [List.nil_append, List.length_map] at several
      exact byHeadnode _ count headnode several

/-- The tables of a map, as far as the walks read them. -/
structure Bsp where
  nodes : Int → CNode
  planes : Int → CPlane
  leafs : Int → CLeaf

def boxSide (bsp : Bsp) (absmin absmax : Vec3) (node : CNode) : Nat :=
  boxOnPlaneSide absmin absmax (bsp.planes node.plane)

def leafCluster (bsp : Bsp) (leaf : Int) : Int := (bsp.leafs leaf).cluster
def leafArea (bsp : Bsp) (leaf : Int) : Int := (bsp.leafs leaf).area

/-- In a tree without cycles the walks end, and an entity is accepted if some leaf that the walk
without a limit reaches is in a cluster that can be seen. -/
theorem visible_accepted (bsp : Bsp) (finite : Acc (Child bsp.nodes) world) (absmin absmax : Vec3)
    (visible : Int → Bool) (old : Linked) : ∃ enough, ∀ fuel ≥ enough, ∃ all ent accepted,
      boxLeafnumsHeadnode bsp.nodes (boxSide bsp absmin absmax) none fuel world = some all ∧
      linkLeafs bsp.nodes (boxSide bsp absmin absmax) (leafCluster bsp) (leafArea bsp) fuel world old =
        some ent ∧
      clusterTest bsp.nodes (leafCluster bsp) visible fuel ent = some accepted ∧
      ((∃ leaf ∈ all.leafList, leafCluster bsp leaf ≠ -1 ∧ visible (leafCluster bsp leaf) = true) →
        accepted = true) :=
  accepted_of_touched finite (boxSide bsp absmin absmax) (leafCluster bsp) (leafArea bsp) visible old

/-- A node between two leafs. -/
private def oneNode : Bsp where
  nodes _ := ⟨0, (-1, -2)⟩
  planes _ := ⟨[0x3F800000, 0, 0], 0, 0, 0⟩
  leafs leaf := ⟨0, leaf, 1, 0, 0⟩

private theorem finite_oneNode : Acc (Child oneNode.nodes) 0 :=
  acc_of_leafs (by decide) (by decide)

theorem visible_accepted_oneNode : ∃ enough, ∀ fuel ≥ enough, ∃ all ent accepted,
    boxLeafnumsHeadnode oneNode.nodes (boxSide oneNode (fun _ => -1) fun _ => 1) none fuel 0 =
      some all ∧
    linkLeafs oneNode.nodes (boxSide oneNode (fun _ => -1) fun _ => 1) (leafCluster oneNode)
      (leafArea oneNode) fuel 0 ⟨0, [], 0, 0, 0⟩ = some ent ∧
    clusterTest oneNode.nodes (leafCluster oneNode) (fun cluster => cluster = 1) fuel ent =
      some accepted ∧
    ((∃ leaf ∈ all.leafList, leafCluster oneNode leaf ≠ -1 ∧ decide (leafCluster oneNode leaf = 1)) →
      accepted = true) :=
  visible_accepted oneNode finite_oneNode (fun _ => -1) (fun _ => 1) (fun cluster => cluster = 1)
    ⟨0, [], 0, 0, 0⟩

end EntityClusters
