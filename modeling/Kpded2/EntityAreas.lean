import Kpded2.EntityClusters

/-!
# The areas of an entity

A door may reach into two areas, and `SV_LinkEdict` keeps two. It looks for them in the list of
the leafs that the box touches, which ends at `MAX_TOTAL_ENT_LEAFS`; the headnode that is kept for
a list that is full has no part in the test of the areas.
-/
namespace EntityAreas
open BspLoad BoxLeafs EntityClusters

/-- The test of `SV_BuildClientFrame`; `connected` are the areas that are connected to the
client's. -/
def areaTest (connected : Int → Bool) (ent : Linked) : Bool :=
  connected ent.areanum || (ent.areanum2 ≠ 0 && connected ent.areanum2)

/-- The leafs lie in two areas besides the area 0. -/
def TwoAreas (area : Int → Int) (leafs : List Int) : Prop :=
  ∃ a b, ∀ leaf ∈ leafs, area leaf = 0 ∨ area leaf = a ∨ area leaf = b

/-- The areas of the leafs are recorded, and the test lets pass what reaches into an area that is
connected. -/
def Recorded (area : Int → Int) (leafs : List Int) (ent : Linked) : Prop :=
  (∀ leaf ∈ leafs, area leaf ≠ 0 → area leaf = ent.areanum ∨ area leaf = ent.areanum2) ∧
  ∀ connected, (∃ leaf ∈ leafs, area leaf ≠ 0 ∧ connected (area leaf) = true) →
    areaTest connected ent = true

/-- Each area comes up among the first leafs of the walk. -/
def Early (area : Int → Int) (leafs : List Int) : Prop :=
  ∀ leaf ∈ leafs, area leaf ≠ 0 → area leaf ∈ (leafs.take maxTotalEntLeafs).map area

/-! ## The loop over the areas -/

/-- What the loop has recorded of the areas so far. -/
structure Areas (seen : List Int) (ent : Linked) : Prop where
  all : ∀ area ∈ seen, area ≠ 0 → area = ent.areanum ∨ area = ent.areanum2
  first : ent.areanum ≠ 0 → ent.areanum ∈ seen
  second : ent.areanum2 ≠ 0 → ent.areanum2 ∈ seen ∧ ent.areanum ≠ 0 ∧ ent.areanum ≠ ent.areanum2

theorem areas_setArea {a b : Int} {seen : List Int} {ent : Linked} (h : Areas seen ent)
    (area : Int) (two : ∀ x ∈ seen ++ [area], x = 0 ∨ x = a ∨ x = b) :
    Areas (seen ++ [area]) (setArea ent area) := by
  have hmore : ∀ x ∈ seen, x ∈ seen ++ [area] := fun x hx => List.mem_append_left _ hx
  have hlast : area ∈ seen ++ [area] := List.mem_append_right _ List.mem_cons_self
  simp only [setArea]
  split
  · next zero =>
    refine ⟨?_, fun set => hmore _ (h.first set), fun set => ?_⟩
    · intro x hx nonzero
      rcases List.mem_append.mp hx with hx | hx
      · exact h.all x hx nonzero
      · exact absurd ((List.mem_singleton.mp hx).trans zero) nonzero
    · obtain ⟨hseen, rest⟩ := h.second set
      exact ⟨hmore _ hseen, rest⟩
  · next nonzero =>
    split
    · next other =>
      obtain ⟨hfirst, hother⟩ := other
      refine ⟨?_, fun set => hmore _ (h.first set), fun _ => ⟨hlast, hfirst, hother⟩⟩
      intro x hx hx0
      rcases List.mem_append.mp hx with hx | hx
      · rcases h.all x hx hx0 with rfl | rfl
        · exact .inl rfl
        · -- a third area besides the first and this one
          obtain ⟨-, -, apart⟩ := h.second hx0
          have h₁ := two _ (hmore _ (h.first hfirst))
          have h₂ := two _ (hmore _ hx)
          have h₃ := two _ hlast
          dsimp only
          omega
      · exact .inr (List.mem_singleton.mp hx)
    · next same =>
      have hsame : ent.areanum = 0 ∨ ent.areanum = area := by omega
      have hnone : ent.areanum = 0 → ent.areanum2 = 0 := by
        intro zero
        by_contra set
        exact (h.second set).2.1 zero
      refine ⟨?_, fun _ => hlast, ?_⟩
      · intro x hx hx0
        rcases List.mem_append.mp hx with hx | hx
        · have := h.all x hx hx0
          dsimp only
          omega
        · exact .inl (List.mem_singleton.mp hx)
      · intro set
        obtain ⟨hseen, hfirst, apart⟩ := h.second set
        refine ⟨hmore _ hseen, nonzero, ?_⟩
        rwa [← hsame.resolve_left hfirst]

theorem areas_setAreas {a b : Int} (areas : List Int) {seen : List Int} {ent : Linked}
    (h : Areas seen ent) (two : ∀ x ∈ seen ++ areas, x = 0 ∨ x = a ∨ x = b) :
    Areas (seen ++ areas) (areas.foldl setArea ent) := by
  induction areas generalizing seen ent with
  | nil =>
    rw [List.append_nil]
    exact h
  | cons area areas ih =>
    have hsplit : seen ++ area :: areas = (seen ++ [area]) ++ areas := by simp
    rw [hsplit] at two ⊢
    exact ih (areas_setArea h area fun x hx => two x (List.mem_append_left _ hx)) two

theorem areas_setClusters (topnode : Int) (seen rest : List Int) (ent : Linked) :
    (setClusters topnode seen rest ent).areanum = ent.areanum ∧
      (setClusters topnode seen rest ent).areanum2 = ent.areanum2 := by
  induction rest generalizing seen ent with
  | nil => exact ⟨rfl, rfl⟩
  | cons cluster rest ih =>
    simp only [setClusters]
    split
    · exact ih _ _
    split
    · exact ⟨rfl, rfl⟩
    · exact ih _ _

theorem areaTest_iff (connected : Int → Bool) (ent : Linked) :
    areaTest connected ent = true ↔ connected ent.areanum = true ∨
      ent.areanum2 ≠ 0 ∧ connected ent.areanum2 = true := by
  simp [areaTest]

/-- The leafs of the walk are recorded exactly if their areas come up early. -/
theorem recorded_iff {area : Int → Int} {leafs : List Int} {ent : Linked}
    (h : Areas ((leafs.take maxTotalEntLeafs).map area) ent) :
    Recorded area leafs ent ↔ Early area leafs := by
  constructor
  · rintro ⟨hall, -⟩ leaf hleaf nonzero
    rcases hall leaf hleaf nonzero with hfirst | hsecond
    · rw [hfirst] at nonzero ⊢
      exact h.first nonzero
    · rw [hsecond] at nonzero ⊢
      exact (h.second nonzero).1
  · intro early
    have hall : ∀ leaf ∈ leafs, area leaf ≠ 0 → area leaf = ent.areanum ∨ area leaf = ent.areanum2 :=
      fun leaf hleaf nonzero => h.all _ (early leaf hleaf nonzero) nonzero
    refine ⟨hall, ?_⟩
    rintro connected ⟨leaf, hleaf, nonzero, sees⟩
    rw [areaTest_iff]
    rcases hall leaf hleaf nonzero with hfirst | hsecond
    · rw [hfirst] at sees
      exact .inl sees
    · rw [hsecond] at sees nonzero
      exact .inr ⟨nonzero, sees⟩

variable {tree : Int → CNode} {world : Int}

/-- A link stores the areas of the leafs in its list. -/
theorem linkLeafs_areas {side : CNode → Nat} {cluster area : Int → Int} {fuel : Nat} {old : Linked}
    {w : Walk} (run : boxLeafnumsHeadnode tree side (some maxTotalEntLeafs) fuel world = some w)
    (two : TwoAreas area w.leafList) :
    ∃ ent, linkLeafs tree side cluster area fuel world old = some ent ∧
      Areas (w.leafList.map area) ent := by
  obtain ⟨a, b, hab⟩ := two
  let cleared : Linked := { old with numClusters := 0, clusternums := [], areanum := 0, areanum2 := 0 }
  have hareas : Areas (w.leafList.map area) ((w.leafList.map area).foldl setArea cleared) := by
    have empty : Areas [] cleared := by
      constructor
      · rintro x ⟨⟩
      · intro set
        exact absurd rfl set
      · intro set
        exact absurd rfl set
    have two : ∀ x ∈ [] ++ w.leafList.map area, x = 0 ∨ x = a ∨ x = b := by
      intro x hx
      obtain ⟨leaf, hleaf, rfl⟩ := List.mem_map.mp hx
      exact hab leaf hleaf
    exact areas_setAreas (w.leafList.map area) empty two
  rw [linkLeafs, run, Option.map_some]
  refine ⟨_, rfl, ?_⟩
  dsimp only
  split
  · exact ⟨hareas.all, hareas.first, hareas.second⟩
  · obtain ⟨hfirst, hsecond⟩ := areas_setClusters w.topnode [] (w.leafList.map cluster)
      ((w.leafList.map area).foldl setArea cleared)
    constructor
    · rw [hfirst, hsecond]
      exact hareas.all
    · rw [hfirst]
      exact hareas.first
    · rw [hfirst, hsecond]
      exact hareas.second

/-- In a tree without cycles the link of an entity that touches at most two areas records them,
exactly if each comes up among the first `MAX_TOTAL_ENT_LEAFS` leafs of the walk. -/
theorem linkLeafs_areas_iff (finite : Acc (Child tree) world) (side : CNode → Nat)
    (cluster area : Int → Int) (old : Linked) : ∃ enough, ∀ fuel ≥ enough, ∃ all,
      boxLeafnumsHeadnode tree side none fuel world = some all ∧
      (TwoAreas area all.leafList →
        ∃ ent, linkLeafs tree side cluster area fuel world old = some ent ∧
          (Recorded area all.leafList ent ↔ Early area all.leafList)) := by
  obtain ⟨enough, henough⟩ := exists_enough finite
  refine ⟨enough, fun fuel more => ?_⟩
  obtain ⟨list, hlist⟩ := exists_touched side (henough.mono more)
  obtain ⟨top, unlimited, -⟩ := boxLeafnumsHeadnode_eq hlist none
  obtain ⟨topnode, limitedRun, -⟩ := boxLeafnumsHeadnode_eq hlist (some maxTotalEntLeafs)
  refine ⟨_, unlimited, ?_⟩
  rintro ⟨a, b, hab⟩
  have two : TwoAreas area (list.take maxTotalEntLeafs) :=
    ⟨a, b, fun leaf hleaf => hab leaf (List.mem_of_mem_take hleaf)⟩
  obtain ⟨ent, hlink, hareas⟩ := @linkLeafs_areas tree world side cluster area fuel old _ limitedRun two
  exact ⟨ent, hlink, recorded_iff hareas⟩

/-- A node between two leafs in two areas. -/
private def doorway (_ : Int) : CNode := ⟨0, (-1, -2)⟩

private theorem finite_doorway : Acc (Child doorway) 0 :=
  acc_of_leafs (by decide) (by decide)

theorem linkLeafs_areas_iff_doorway : ∃ enough, ∀ fuel ≥ enough, ∃ all,
    boxLeafnumsHeadnode doorway (fun _ => 3) none fuel 0 = some all ∧
    (TwoAreas (fun leaf => leaf + 1) all.leafList →
      ∃ ent, linkLeafs doorway (fun _ => 3) id (fun leaf => leaf + 1) fuel 0 ⟨0, [], 0, 0, 0⟩ =
          some ent ∧
        (Recorded (fun leaf => leaf + 1) all.leafList ent ↔
          Early (fun leaf => leaf + 1) all.leafList)) :=
  linkLeafs_areas_iff finite_doorway (fun _ => 3) id (fun leaf => leaf + 1) ⟨0, [], 0, 0, 0⟩

/-- A row of nodes with a leaf each; the last has two. -/
private def row (num : Int) : CNode := ⟨0, (-1 - num, if num = 127 then -129 else num + 1)⟩

/-- The last leaf of the row lies behind a door. -/
private def behindDoor (leaf : Int) : Int := if leaf = 128 then 2 else 1

/-- The last of 129 leafs is not looked at, so its area is lost. -/
theorem row_area_lost : ∃ all ent, boxLeafnumsHeadnode row (fun _ => 3) none 200 0 = some all ∧
    linkLeafs row (fun _ => 3) id behindDoor 200 0 ⟨0, [], 0, 0, 0⟩ = some ent ∧
    TwoAreas behindDoor all.leafList ∧ ¬Recorded behindDoor all.leafList ent := by
  have hlist : touched row (fun _ => 3) 200 0 = some ((List.range 129).map Int.ofNat) := by
    decide +kernel
  obtain ⟨top, unlimited, -⟩ := boxLeafnumsHeadnode_eq hlist none
  obtain ⟨topnode, limitedRun, -⟩ := boxLeafnumsHeadnode_eq hlist (some maxTotalEntLeafs)
  have areas : ∀ leaf : Int, behindDoor leaf = 0 ∨ behindDoor leaf = 1 ∨ behindDoor leaf = 2 := by
    intro leaf
    simp only [behindDoor]
    split
    · exact .inr (.inr rfl)
    · exact .inr (.inl rfl)
  obtain ⟨ent, hlink, hareas⟩ := @linkLeafs_areas row 0 (fun _ => 3) id behindDoor 200
    ⟨0, [], 0, 0, 0⟩ _ limitedRun ⟨1, 2, fun leaf _ => areas leaf⟩
  refine ⟨_, ent, unlimited, hlink, ⟨1, 2, fun leaf _ => areas leaf⟩, ?_⟩
  intro recorded
  have early := (recorded_iff hareas).mp recorded 128 (by decide +kernel) (by decide)
  exact absurd early (by decide +kernel)

end EntityAreas
