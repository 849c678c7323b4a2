import Kpded2.EntityClusters

/-!
# The cluster of a beam

`SV_BuildClientFrame` tests a beam by `clusternums[0]` alone and does not ask `num_clusters`
whether a link has stored anything there. The array keeps its entries from link to link; a link
writes the clusters it stores over the first of them, and none if it goes by the headnode or
touches no cluster.
-/
namespace BeamClusters
open BspLoad BoxLeafs EntityClusters

/-- An entity with the whole of its array `clusternums`; `linked` has the entries that the last
link has stored. -/
structure Entity where
  linked : Linked
  clusternums : Nat → Int

/-- The clusters that are stored go over the first entries. -/
def writeClusters (stored : List Int) (old : Nat → Int) : Nat → Int :=
  fun i => (stored[i]?).getD (old i)

variable (tree : Int → CNode) (cluster area : Int → Int) (fuel : Nat) (world : Int)

/-- `side` is where the box is now. -/
def svLinkEdict (side : CNode → Nat) (ent : Entity) : Option Entity :=
  (linkLeafs tree side cluster area fuel world ent.linked).map fun linked =>
    ⟨linked, writeClusters linked.clusternums ent.clusternums⟩

def links : List (CNode → Nat) → Entity → Option Entity
  | [], ent => some ent
  | side :: history, ent => (svLinkEdict tree cluster area fuel world side ent).bind (links history)

/-- The cluster whose bit is tested for a beam. -/
def beamCluster (ent : Entity) : Int := ent.clusternums 0

variable {tree cluster area fuel world}

/-! ## The first entry -/

/-- Clusters are stored behind those that are there. -/
theorem setClusters_prefix (topnode : Int) (seen rest : List Int) (ent : Linked) :
    ent.clusternums <+: (setClusters topnode seen rest ent).clusternums := by
  induction rest generalizing seen ent with
  | nil => exact List.prefix_refl _
  | cons c rest ih =>
    simp only [setClusters]
    split
    · exact ih _ _
    split
    · exact List.prefix_refl _
    · refine List.IsPrefix.trans ?_ (ih _ _)
      exact List.prefix_append ent.clusternums [c]

/-- The first that is stored is the first of a visible leaf. -/
theorem setClusters_first (topnode : Int) {seen rest : List Int} {ent : Linked}
    (unseen : ∀ c ∈ seen, c = -1) (empty : ent.clusternums = []) (none : ent.numClusters = 0) :
    (setClusters topnode seen rest ent).clusternums[0]? = rest.find? (· ≠ -1) := by
  induction rest generalizing seen with
  | nil => rw [setClusters, empty, List.find?_nil, List.getElem?_nil]
  | cons c rest ih =>
    by_cases solid : c = -1
    · have hskip : (c :: rest).find? (· ≠ -1) = rest.find? (· ≠ -1) := by simp [solid]
      have hmore : ∀ x ∈ seen ++ [c], x = -1 := by
        intro x hx
        rcases List.mem_append.mp hx with hx | hx
        · exact unseen x hx
        · exact (List.mem_singleton.mp hx).trans solid
      rw [setClusters, if_pos (.inl solid), ih hmore, hskip]
    · have hnew : ¬(c = -1 ∨ c ∈ seen) := not_or.mpr ⟨solid, fun h => solid (unseen c h)⟩
      have hroom : ent.numClusters ≠ maxEntClusters := by
        rw [none]
        decide
      have hfound : (c :: rest).find? (· ≠ -1) = some c := by simp [solid]
      obtain ⟨tail, htail⟩ := setClusters_prefix topnode (seen ++ [c]) rest
        { ent with numClusters := ent.numClusters + 1, clusternums := ent.clusternums ++ [c] }
      rw [setClusters, if_neg hnew, if_neg hroom, hfound, ← htail, empty]
      exact rfl

/-- What a link writes to the first entry: the first cluster of the list, or nothing if the list is
full. -/
theorem linkLeafs_first {side : CNode → Nat} {old : Linked} {leafs : List Int} {topnode : Int}
    (run : boxLeafnumsHeadnode tree side (some maxTotalEntLeafs) fuel world = some ⟨leafs, topnode⟩) :
    ∃ ent, linkLeafs tree side cluster area fuel world old = some ent ∧
      (leafs.length ≥ maxTotalEntLeafs → ent.clusternums[0]? = none) ∧
      (leafs.length < maxTotalEntLeafs →
        ent.clusternums[0]? = (leafs.map cluster).find? (· ≠ -1)) := by
  rw [linkLeafs, run, Option.map_some]
  refine ⟨_, rfl, ?_⟩
  obtain ⟨count, clusternums⟩ := clusters_setAreas (leafs.map area)
    { old with numClusters := 0, clusternums := [], areanum := 0, areanum2 := 0 }
  dsimp only
  split
  · next full =>
    refine ⟨fun _ => ?_, fun room => absurd full (Nat.not_le.mpr room)⟩
    rw [clusternums]
    exact rfl
  · next room =>
    refine ⟨fun full => absurd full room, fun _ => ?_⟩
    refine setClusters_first topnode ?_ clusternums count
    rintro c ⟨⟩

/-- The first visible cluster is stored, or the entry stays as it was. -/
theorem svLinkEdict_cases {side : CNode → Nat} {list : List Int}
    (hlist : touched tree side fuel world = some list) (ent : Entity) :
    ∃ after, svLinkEdict tree cluster area fuel world side ent = some after ∧
      ((list.length < maxTotalEntLeafs ∧ ∃ leaf ∈ list, cluster leaf ≠ -1) →
        beamCluster after ∈ list.map cluster) ∧
      (¬(list.length < maxTotalEntLeafs ∧ ∃ leaf ∈ list, cluster leaf ≠ -1) →
        beamCluster after = beamCluster ent) := by
  obtain ⟨topnode, run, -⟩ := boxLeafnumsHeadnode_eq hlist (some maxTotalEntLeafs)
  have hlength : (list.take maxTotalEntLeafs).length = min maxTotalEntLeafs list.length :=
    List.length_take
  obtain ⟨linked, hlinked, hfull, hroom⟩ :=
    @linkLeafs_first tree cluster area fuel world side ent.linked (list.take maxTotalEntLeafs) _ run
  have hstored : list.length < maxTotalEntLeafs →
      linked.clusternums[0]? = (list.map cluster).find? (· ≠ -1) := by
    intro room
    have hall : list.take maxTotalEntLeafs = list := List.take_of_length_le (by omega)
    rw [hall] at hroom
    exact hroom room
  refine ⟨_, by rw [svLinkEdict, hlinked, Option.map_some], ?_, ?_⟩
  · rintro ⟨room, leaf, hleaf, inside⟩
    obtain ⟨c, hc⟩ : ∃ c, (list.map cluster).find? (· ≠ -1) = some c := by
      rw [← Option.isSome_iff_exists, List.find?_isSome]
      exact ⟨cluster leaf, List.mem_map_of_mem hleaf, by simpa using inside⟩
    simp only [beamCluster, writeClusters, hstored room, hc, Option.getD_some]
    exact List.mem_of_find?_eq_some hc
  · intro idle
    have hnone : linked.clusternums[0]? = none := by
      by_cases room : list.length < maxTotalEntLeafs
      · rw [hstored room, List.find?_eq_none]
        intro c hc
        obtain ⟨leaf, hleaf, rfl⟩ := List.mem_map.mp hc
        have hsolid : ¬cluster leaf ≠ -1 := fun inside => idle ⟨room, leaf, hleaf, inside⟩
        simpa using hsolid
      · exact hfull (by omega)
    simp only [beamCluster, writeClusters, hnone, Option.getD_none]

/-! ## Histories -/

/-- However often the entity was linked before, linking it ends. -/
theorem links_run {enough : Nat} (henough : Enough tree enough world) (more : fuel ≥ enough)
    (history : List (CNode → Nat)) (ent : Entity) :
    ∃ after, links tree cluster area fuel world history ent = some after := by
  induction history generalizing ent with
  | nil => exact ⟨ent, rfl⟩
  | cons side history ih =>
    obtain ⟨list, hlist⟩ := exists_touched side (henough.mono more)
    obtain ⟨between, hlink, -⟩ := @svLinkEdict_cases tree cluster area fuel world side list hlist ent
    rw [links, hlink, Option.bind_some]
    exact ih between

theorem links_concat (history : List (CNode → Nat)) (side : CNode → Nat) (ent : Entity) :
    links tree cluster area fuel world (history ++ [side]) ent =
      (links tree cluster area fuel world history ent).bind
        (svLinkEdict tree cluster area fuel world side) := by
  induction history generalizing ent with
  | nil =>
    rw [List.nil_append, links, links, Option.bind_some]
    exact Option.bind_fun_some _
  | cons first history ih =>
    rw [List.cons_append, links, links, Option.bind_assoc]
    congr 1
    funext between
    exact ih between

/-- Whatever links an entity has behind it: after one more, `clusternums[0]` is the cluster of a
leaf that the box touches now, exactly if the list of the leafs had room and one of them is in a
cluster, or the entry that was there is the cluster of such a leaf. -/
theorem beam_cluster_iff (finite : Acc (Child tree) world) (cluster area : Int → Int)
    (history : List (CNode → Nat)) (side : CNode → Nat) (ent : Entity) :
    ∃ enough, ∀ fuel ≥ enough, ∃ all before after,
      boxLeafnumsHeadnode tree side none fuel world = some all ∧
      links tree cluster area fuel world history ent = some before ∧
      links tree cluster area fuel world (history ++ [side]) ent = some after ∧
      (beamCluster after ∈ all.leafList.map cluster ↔
        all.leafList.length < maxTotalEntLeafs ∧ (∃ leaf ∈ all.leafList, cluster leaf ≠ -1) ∨
          beamCluster before ∈ all.leafList.map cluster) := by
  obtain ⟨enough, henough⟩ := exists_enough finite
  refine ⟨enough, fun fuel more => ?_⟩
  obtain ⟨list, hlist⟩ := exists_touched side (henough.mono more)
  obtain ⟨topnode, unlimited, -⟩ := boxLeafnumsHeadnode_eq hlist none
  obtain ⟨before, hbefore⟩ := @links_run tree cluster area fuel world _ henough more history ent
  obtain ⟨after, hafter, fresh, stale⟩ :=
    @svLinkEdict_cases tree cluster area fuel world side list hlist before
  refine ⟨_, before, after, unlimited, hbefore, ?_, ?_⟩
  · rw [links_concat, hbefore, Option.bind_some, hafter]
  · by_cases writes : list.length < maxTotalEntLeafs ∧ ∃ leaf ∈ list, cluster leaf ≠ -1
    · exact iff_of_true (fresh writes) (.inl writes)
    · rw [stale writes]
      exact (or_iff_right writes).symm

/-- A node between a leaf in cluster 5 and a solid one. -/
private def threshold (_ : Int) : CNode := ⟨0, (-1, -2)⟩

private def openSide (leaf : Int) : Int := if leaf = 0 then 5 else -1

private theorem finite_threshold : Acc (Child threshold) 0 :=
  acc_of_leafs (by decide) (by decide)

private def laser : Entity := ⟨⟨0, [], 0, 0, 0⟩, fun _ => 0⟩

theorem beam_cluster_iff_threshold : ∃ enough, ∀ fuel ≥ enough, ∃ all before after,
    boxLeafnumsHeadnode threshold (fun _ => 1) none fuel 0 = some all ∧
    links threshold openSide id fuel 0 [fun _ => 2] laser = some before ∧
    links threshold openSide id fuel 0 [fun _ => 2, fun _ => 1] laser = some after ∧
    (beamCluster after ∈ all.leafList.map openSide ↔
      all.leafList.length < maxTotalEntLeafs ∧ (∃ leaf ∈ all.leafList, openSide leaf ≠ -1) ∨
        beamCluster before ∈ all.leafList.map openSide) :=
  beam_cluster_iff finite_threshold openSide id [fun _ => 2] (fun _ => 1) laser

/-- A beam that moves into solid is tested by the cluster that it has left. -/
theorem beam_keeps_cluster : ∃ all after,
    boxLeafnumsHeadnode threshold (fun _ => 2) none 5 0 = some all ∧
    links threshold openSide id 5 0 [fun _ => 1, fun _ => 2] laser = some after ∧
    beamCluster after ∉ all.leafList.map openSide :=
  ⟨_, _, rfl, rfl, by decide⟩

end BeamClusters
