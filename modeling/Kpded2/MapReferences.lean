import Mathlib.Data.Int.Interval
import Mathlib.Data.Set.Finite.Lattice
import Kpded2.BoxLeafs
import Kpded2.CollisionMap
import Kpded2.GraphFlood

/-!
# References between the tables of a map

The loaders check the size of each lump and copy what one table says of another as it is in the
file. What a load that completes leaves is as sound as the file: the references of the tables in the
file decide whether those of the model stay inside the tables and whether the walks end.
-/
namespace MapReferences
open BspLoad CollisionMap BoxLeafs
open Outcome (exists_of_bind_eq_ok exists_of_toBool)

/-! ## What a load copies -/

def lumpRecords (file : List UInt8) (i size : Nat) : List (List UInt8) :=
  records size ((lump file i).filelen / size) (((lump file i).bytes).getD [])

/-- What the lumps of a file say. -/
structure Lumps where
  surfaces : Nat
  leafs : List CLeaf
  leafbrushes : List Nat
  planes : List (Option CPlane)
  brushes : List CBrush
  brushsides : List (List UInt8)
  headnodes : List Int
  nodes : List CNode
  areas : List CArea
  areaportals : List AreaPortal

def readLumps (file : List UInt8) : Lumps where
  surfaces := (lumpRecords file 5 76).length
  leafs := (lumpRecords file 8 28).map parseLeaf
  leafbrushes := (lumpRecords file 10 2).map (uint16At · 0)
  planes := (lumpRecords file 1 20).map parsePlane
  brushes := (lumpRecords file 14 12).map parseBrush
  brushsides := lumpRecords file 15 4
  headnodes := (lumpRecords file 13 48).map fun r => (parseModel r).headnode
  nodes := (lumpRecords file 4 28).map parseNode
  areas := (lumpRecords file 17 8).map parseArea
  areaportals := (lumpRecords file 18 8).map parseAreaPortal

variable {α : Type} {size : Nat} {inRange : Nat → Bool} {l : Lump}

theorem map_some_reduceOption {entries : List (Option α)} (all : ∀ e ∈ entries, e.isSome) :
    entries.reduceOption.map some = entries := by
  induction entries with
  | nil => rfl
  | cons e entries ih =>
    obtain ⟨a, rfl⟩ := Option.isSome_iff_exists.mp (all e List.mem_cons_self)
    rw [List.reduceOption_cons_of_some, List.map_cons,
      ih fun e' he' => all e' (List.mem_cons_of_mem _ he')]

/-- A loader that completes has parsed every record of its lump. -/
theorem view_of_loadRecords {parse : List UInt8 → Option α} {t u : Table α}
    (h : loadRecords size inRange parse l t = .ok u) :
    inRange (l.filelen / size) = true ∧
      u.view.map some = (records size (l.filelen / size) (l.bytes.getD [])).map parse := by
  simp only [loadRecords] at h
  split at h
  · cases h
  split at h
  swap
  · cases h
  rename_i range
  cases hbytes : l.bytes with
  | none =>
    rw [hbytes] at h
    cases h
  | some bytes =>
    rw [hbytes] at h
    simp only at h
    split at h
    swap
    · cases h
    rename_i all
    cases h
    let entries := (records size (l.filelen / size) bytes).map parse
    have each : ∀ e ∈ entries, e.isSome := List.all_eq_true.mp all
    have same : entries.takeWhile Option.isSome = entries := List.takeWhile_eq_self_iff.mpr each
    have count : l.filelen / size = entries.reduceOption.length := by
      have length := congrArg List.length (map_some_reduceOption each)
      rw [List.length_map] at length
      rw [length]
      simp [entries, records]
    refine ⟨range, ?_⟩
    change ((t.overwrite (l.filelen / size) (entries.takeWhile Option.isSome).reduceOption).view).map
      some = entries
    rw [same, count, Table.view_overwrite, map_some_reduceOption each]

theorem view_of_loadRecords_total {f : List UInt8 → α} {t u : Table α}
    (h : loadRecords size inRange (fun r => some (f r)) l t = .ok u) :
    u.view = (records size (l.filelen / size) (l.bytes.getD [])).map f := by
  have whole := (view_of_loadRecords h).2
  have split : (fun r => some (f r)) = some ∘ f := rfl
  rw [split, ← List.map_map] at whole
  exact List.map_injective_iff.mpr (Option.some_injective α) whole

theorem exists_of_onTable {get : Tables → Table α} {set : Tables → Table α → Tables}
    {load : Table α → Except (Stop (Table α)) (Table α)} {s t : Tables}
    (h : onTable get set load s = .ok t) : ∃ u, load (get s) = .ok u ∧ t = set s u := by
  cases hload : load (get s) with
  | ok u =>
    simp only [onTable, hload] at h
    cases h
    exact ⟨u, rfl, rfl⟩
  | error e =>
    simp only [onTable, hload] at h
    cases e with
    | drop left => cases h
    | fault => cases h

/-- The model has the tables of the file. -/
structure Copies (lumps : Lumps) (v : View) : Prop where
  surfaces : v.surfaces.length = lumps.surfaces
  someSurface : 1 ≤ lumps.surfaces
  someNode : 1 ≤ lumps.nodes.length
  leafs : v.leafs = lumps.leafs
  leafbrushes : v.leafbrushes = lumps.leafbrushes
  planes : v.planes.map some = lumps.planes
  brushes : v.brushes = lumps.brushes
  brushsides : v.brushsides.map some = lumps.brushsides.map (parseBrushSide lumps.surfaces)
  headnodes : v.cmodels.map CModel.headnode = lumps.headnodes
  nodes : v.nodes = lumps.nodes
  areas : v.areas = lumps.areas
  areaportals : v.areaportals = lumps.areaportals

/-- The tables hold what the lumps of the file say. -/
theorem copies_loadLumps {file : List UInt8} {overridden : Bool} {s t : Tables}
    (h : loadLumps file overridden s = .ok t) : Copies (readLumps file) t.view := by
  obtain ⟨_, h1, h⟩ := exists_of_bind_eq_ok h
  obtain ⟨surfaces, hsurfaces, rfl⟩ := exists_of_onTable h1
  obtain ⟨_, h2, h⟩ := exists_of_bind_eq_ok h
  obtain ⟨_, h2, hcheck⟩ := exists_of_bind_eq_ok h2
  obtain ⟨leafs, hleafs, rfl⟩ := exists_of_onTable h2
  obtain ⟨-, hcheck⟩ := checkLeafs_ok hcheck _ rfl
  rw [hcheck] at h
  obtain ⟨_, h3, h⟩ := exists_of_bind_eq_ok h
  obtain ⟨leafbrushes, hleafbrushes, rfl⟩ := exists_of_onTable h3
  obtain ⟨_, h4, h⟩ := exists_of_bind_eq_ok h
  obtain ⟨planes, hplanes, rfl⟩ := exists_of_onTable h4
  obtain ⟨_, h5, h⟩ := exists_of_bind_eq_ok h
  obtain ⟨brushes, hbrushes, rfl⟩ := exists_of_onTable h5
  obtain ⟨_, h6, h⟩ := exists_of_bind_eq_ok h
  obtain ⟨brushsides, hbrushsides, rfl⟩ := exists_of_onTable h6
  obtain ⟨_, h7, h⟩ := exists_of_bind_eq_ok h
  obtain ⟨cmodels, hcmodels, rfl⟩ := exists_of_onTable h7
  obtain ⟨_, h8, h⟩ := exists_of_bind_eq_ok h
  obtain ⟨nodes, hnodes, rfl⟩ := exists_of_onTable h8
  obtain ⟨_, h9, h⟩ := exists_of_bind_eq_ok h
  obtain ⟨areas, hareas, rfl⟩ := exists_of_onTable h9
  obtain ⟨_, h10, h⟩ := exists_of_bind_eq_ok h
  obtain ⟨areaportals, hareaportals, rfl⟩ := exists_of_onTable h10
  obtain ⟨u, h11, h⟩ := exists_of_bind_eq_ok h
  obtain ⟨visibility, -, hu⟩ := exists_of_onTable h11
  have surfaceCount : surfaces.count = (readLumps file).surfaces := by
    rw [count_eq_length_view, view_of_loadRecords_total hsurfaces, List.length_map]
    rfl
  have copies : Copies (readLumps file) u.view := by
    rw [hu]
    constructor
    · exact (count_eq_length_view surfaces).symm.trans surfaceCount
    · have range := (view_of_loadRecords hsurfaces).1
      rw [Bool.and_eq_true, decide_eq_true_eq] at range
      simpa [readLumps, lumpRecords, records] using range.1
    · have range := (view_of_loadRecords hnodes).1
      rw [Bool.and_eq_true, decide_eq_true_eq] at range
      simpa [readLumps, lumpRecords, records] using range.1
    · exact view_of_loadRecords_total hleafs
    · exact view_of_loadRecords_total hleafbrushes
    · exact (view_of_loadRecords hplanes).2
    · exact view_of_loadRecords_total hbrushes
    · have sides : brushsides.view.map some =
          (lumpRecords file 15 4).map (parseBrushSide surfaces.count) :=
        (view_of_loadRecords hbrushsides).2
      change brushsides.view.map some =
        (lumpRecords file 15 4).map (parseBrushSide (readLumps file).surfaces)
      rw [← surfaceCount]
      exact sides
    · change cmodels.view.map CModel.headnode = _
      rw [view_of_loadRecords_total hcmodels, List.map_map]
      rfl
    · exact view_of_loadRecords_total hnodes
    · exact view_of_loadRecords_total hareas
    · exact view_of_loadRecords_total hareaportals
  cases overridden with
  | true =>
    cases h
    exact copies
  | false =>
    have h : cmodLoadEntityString (lump file 0) u = .ok t := h
    obtain ⟨entitystring, -, rfl⟩ := exists_of_onTable h
    exact ⟨copies.surfaces, copies.someSurface, copies.someNode, copies.leafs, copies.leafbrushes, copies.planes, copies.brushes,
      copies.brushsides, copies.headnodes, copies.nodes, copies.areas, copies.areaportals⟩

theorem tables_of_loadFile {w : Disk} {file : List UInt8} {overridden : Bool} {name : List UInt8}
    {s t : State} (h : loadFile w file overridden name s = .ok t) :
    lumpsInBounds file = true ∧ ∃ u, loadLumps file overridden s.tables = .ok u ∧
      cmInitBoxHull (terminateEntities u) = .ok t.tables := by
  simp only [loadFile] at h
  split at h
  · cases h
  split at h
  · cases h
  rename_i inBounds
  split at h
  · cases h
  split at h
  · rename_i tables hload
    cases h
    obtain ⟨u, hu, hhull⟩ := exists_of_bind_eq_ok hload
    exact ⟨Classical.not_not.mp inBounds, u, hu, hhull⟩
  · cases h
  · cases h

theorem copies_loadFile {w : Disk} {file : List UInt8} {overridden : Bool} {name : List UInt8}
    {s t : State} (h : loadFile w file overridden name s = .ok t) :
    Copies (readLumps file) t.tables.view ∧ ∃ before, cmInitBoxHull before = .ok t.tables := by
  obtain ⟨-, u, hu, hhull⟩ := tables_of_loadFile h
  refine ⟨?_, _, hhull⟩
  rw [(cmInitBoxHull_ok hhull).1, view_terminateEntities]
  exact copies_loadLumps hu

/-- The counts that a load leaves, and the bytes of the visibility. -/
structure Counts (file : List UInt8) (v : View) : Prop where
  models : 1 ≤ v.cmodels.length ∧ v.cmodels.length < maxMapModels
  clusters : v.numclusters = countClusters v.leafs
  visibility : v.visibility = ((lump file 3).bytes).getD []

theorem view_of_loadBytes {max : Nat} {t u : Table UInt8} (h : loadBytes max l t = .ok u) :
    u.view = l.bytes.getD [] := by
  simp only [loadBytes] at h
  split at h
  · cases h
  cases hbytes : l.bytes with
  | none =>
    rw [hbytes] at h
    cases h
  | some bytes =>
    rw [hbytes] at h
    cases h
    exact Table.view_overwrite t bytes

theorem numclusters_of_checkLeafs {s t : Tables} (h : checkLeafs s = .ok t) :
    t.leafs = s.leafs ∧ t.numclusters = countClusters s.leafs.view := by
  simp only [checkLeafs] at h
  split at h
  · cases h
  split at h
  · cases h
  cases h
  exact ⟨rfl, rfl⟩

/-- The counts are those of the lumps in the file. -/
theorem counts_loadLumps {file : List UInt8} {overridden : Bool} {s t : Tables}
    (h : loadLumps file overridden s = .ok t) : Counts file t.view := by
  obtain ⟨_, -, h⟩ := exists_of_bind_eq_ok h
  obtain ⟨checked, h2, h⟩ := exists_of_bind_eq_ok h
  obtain ⟨_, -, hcheck⟩ := exists_of_bind_eq_ok h2
  have clusters : checked.numclusters = countClusters checked.leafs.view := by
    obtain ⟨leafs, numclusters⟩ := numclusters_of_checkLeafs hcheck
    rw [leafs, numclusters]
  obtain ⟨_, h3, h⟩ := exists_of_bind_eq_ok h
  obtain ⟨leafbrushes, -, rfl⟩ := exists_of_onTable h3
  obtain ⟨_, h4, h⟩ := exists_of_bind_eq_ok h
  obtain ⟨planes, -, rfl⟩ := exists_of_onTable h4
  obtain ⟨_, h5, h⟩ := exists_of_bind_eq_ok h
  obtain ⟨brushes, -, rfl⟩ := exists_of_onTable h5
  obtain ⟨_, h6, h⟩ := exists_of_bind_eq_ok h
  obtain ⟨brushsides, -, rfl⟩ := exists_of_onTable h6
  obtain ⟨_, h7, h⟩ := exists_of_bind_eq_ok h
  obtain ⟨cmodels, hcmodels, rfl⟩ := exists_of_onTable h7
  obtain ⟨_, h8, h⟩ := exists_of_bind_eq_ok h
  obtain ⟨nodes, -, rfl⟩ := exists_of_onTable h8
  obtain ⟨_, h9, h⟩ := exists_of_bind_eq_ok h
  obtain ⟨areas, -, rfl⟩ := exists_of_onTable h9
  obtain ⟨_, h10, h⟩ := exists_of_bind_eq_ok h
  obtain ⟨areaportals, -, rfl⟩ := exists_of_onTable h10
  obtain ⟨u, h11, h⟩ := exists_of_bind_eq_ok h
  obtain ⟨visibility, hvisibility, hu⟩ := exists_of_onTable h11
  have counts : Counts file u.view := by
    rw [hu]
    constructor
    · have range := (view_of_loadRecords hcmodels).1
      rw [Bool.and_eq_true, decide_eq_true_eq, decide_eq_true_eq] at range
      have length : cmodels.view.length = (lump file 13).filelen / 48 := by
        rw [view_of_loadRecords_total hcmodels]
        simp [records]
      change 1 ≤ cmodels.view.length ∧ cmodels.view.length < maxMapModels
      rw [length]
      exact range
    · exact clusters
    · exact view_of_loadBytes hvisibility
  cases overridden with
  | true =>
    cases h
    exact counts
  | false =>
    have h : cmodLoadEntityString (lump file 0) u = .ok t := h
    obtain ⟨entitystring, -, rfl⟩ := exists_of_onTable h
    exact ⟨counts.models, counts.clusters, counts.visibility⟩

theorem counts_loadFile {w : Disk} {file : List UInt8} {overridden : Bool} {name : List UInt8}
    {s t : State} (h : loadFile w file overridden name s = .ok t) : Counts file t.tables.view := by
  obtain ⟨-, u, hu, hhull⟩ := tables_of_loadFile h
  rw [(cmInitBoxHull_ok hhull).1, view_terminateEntities]
  exact counts_loadLumps hu

/-! ## Sound references -/

def maxMapLeafs : Nat := 65536

/-- `num` entries from `first` on, if there are any. -/
def Span (first num : Int) (count : Nat) : Prop := num ≤ 0 ∨ 0 ≤ first ∧ first + num ≤ count

/-- The number of a node, or of a leaf if it is below zero. -/
def NodeOrLeaf (numnodes numleafs : Nat) (num : Int) : Prop := -(numleafs : Int) ≤ num ∧ num < numnodes

def ListChild (nodes : List CNode) (m n : Int) : Prop :=
  ∃ node, 0 ≤ n ∧ nodes[n.toNat]? = some node ∧ (m = node.children.1 ∨ m = node.children.2)

/-- No node below this one is on a cycle. -/
def NoCycle (r : Int → Int → Prop) (num : Int) : Prop :=
  ∀ n, Relation.ReflTransGen r n num → ¬Relation.TransGen r n n

/-- The tables of the model refer to entries in use, no headnode has a cycle below it, and the box
hull fits the arrays. -/
structure WellFormed (t : Tables) : Prop where
  nodePlane : ∀ node ∈ t.nodes.view, 0 ≤ node.plane ∧ node.plane < t.planes.count
  child : ∀ node ∈ t.nodes.view, NodeOrLeaf t.nodes.count t.leafs.count node.children.1 ∧
    NodeOrLeaf t.nodes.count t.leafs.count node.children.2
  leafBrushes : ∀ leaf ∈ t.leafs.view,
    Span leaf.firstleafbrush leaf.numleafbrushes t.leafbrushes.count
  leafBrush : ∀ brush ∈ t.leafbrushes.view, brush < t.brushes.count
  brushSides : ∀ brush ∈ t.brushes.view, Span brush.firstbrushside brush.numsides t.brushsides.count
  sidePlane : ∀ side ∈ t.brushsides.view, side.plane < t.planes.count
  sideSurface : ∀ side ∈ t.brushsides.view, ∀ surface, side.surface = some surface →
    surface < t.surfaces.count
  areaPortals : ∀ area ∈ t.areas.view,
    Span area.firstareaportal area.numareaportals t.areaportals.count
  otherArea : ∀ portal ∈ t.areaportals.view, 0 ≤ portal.otherarea ∧ portal.otherarea < t.areas.count
  headnode : ∀ model ∈ t.cmodels.view, NodeOrLeaf t.nodes.count t.leafs.count model.headnode
  acyclic : ∀ model ∈ t.cmodels.view, NoCycle (ListChild t.nodes.view) model.headnode
  boxHull : t.nodes.count + 6 ≤ maxMapNodes ∧ t.brushes.count + 1 ≤ maxMapBrushes ∧
    t.leafbrushes.count + 1 ≤ maxMapLeafbrushes ∧ t.brushsides.count + 6 ≤ maxMapBrushsides ∧
    t.planes.count + 12 ≤ maxMapPlanes ∧ t.leafs.count + 1 ≤ maxMapLeafs

def treeOf (t : Tables) (n : Int) : CNode := t.nodes.entry n.toNat
def planeOf (t : Tables) (node : CNode) : CPlane := t.planes.entry node.plane.toNat

/-- `CM_PointLeafnum` starts from node 0. -/
def PointLeafnumEnds (t : Tables) : Prop := ∀ p : Vec3, ∃ fuel leaf,
  pointLeafnumR (treeOf t) (fun node => behind p (planeOf t node)) fuel 0 = some leaf ∧
    0 ≤ leaf ∧ leaf < t.leafs.count

/-- `CM_BoxLeafnums` starts from the headnode of the world. -/
def BoxLeafnumsEnds (t : Tables) : Prop := ∀ (mins maxs : Vec3) (maxcount : Nat),
  ∀ world ∈ t.cmodels.view.head?, ∃ fuel w,
    boxLeafnumsHeadnode (treeOf t) (fun node => boxOnPlaneSide mins maxs (planeOf t node))
      (some maxcount) fuel world.headnode = some w ∧
    ∀ leaf ∈ w.leafList, 0 ≤ leaf ∧ leaf < t.leafs.count

structure Right (t : Tables) : Prop where
  wellFormed : WellFormed t
  point : PointLeafnumEnds t
  box : BoxLeafnumsEnds t

/-- Where a node leads a point. -/
def PointChild (nodes : List CNode) (planes : List (Option CPlane)) (p : Vec3) (m n : Int) : Prop :=
  ∃ node plane, 0 ≤ n ∧ nodes[n.toNat]? = some node ∧ planes[node.plane.toNat]? = some (some plane) ∧
    m = if behind p plane then node.children.2 else node.children.1

/-- The same of the file. The texinfo numbers are checked by the loader, and so is most of the
room for the box hull; node 0 need not be below a headnode. -/
structure Sound (lumps : Lumps) : Prop where
  nodePlane : ∀ node ∈ lumps.nodes, 0 ≤ node.plane ∧ node.plane < lumps.planes.length
  child : ∀ node ∈ lumps.nodes,
    NodeOrLeaf lumps.nodes.length lumps.leafs.length node.children.1 ∧
      NodeOrLeaf lumps.nodes.length lumps.leafs.length node.children.2
  leafBrushes : ∀ leaf ∈ lumps.leafs,
    Span leaf.firstleafbrush leaf.numleafbrushes lumps.leafbrushes.length
  leafBrush : ∀ brush ∈ lumps.leafbrushes, brush < lumps.brushes.length
  brushSides : ∀ brush ∈ lumps.brushes,
    Span brush.firstbrushside brush.numsides lumps.brushsides.length
  sidePlane : ∀ r ∈ lumps.brushsides, uint16At r 0 < lumps.planes.length
  areaPortals : ∀ area ∈ lumps.areas,
    Span area.firstareaportal area.numareaportals lumps.areaportals.length
  otherArea : ∀ portal ∈ lumps.areaportals,
    0 ≤ portal.otherarea ∧ portal.otherarea < lumps.areas.length
  headnode : ∀ num ∈ lumps.headnodes, NodeOrLeaf lumps.nodes.length lumps.leafs.length num
  acyclic : ∀ num ∈ lumps.headnodes, NoCycle (ListChild lumps.nodes) num
  leafs : lumps.leafs.length < maxMapLeafs
  point : ∀ p, NoCycle (PointChild lumps.nodes lumps.planes p) 0

/-! ## Walks -/

section Walks
variable {t : Tables} {num leaf m n : Int}

theorem view_getElem? {t : Table α} {i : Nat} (h : i < t.count) : t.view[i]? = some (t.entry i) := by
  rw [Table.view, List.getElem?_map, List.getElem?_range h, Option.map_some]

theorem treeOf_eq (inside : 0 ≤ n) (below : n < t.nodes.count) :
    t.nodes.view[n.toNat]? = some (treeOf t n) :=
  view_getElem? (by omega)

theorem mem_treeOf (inside : 0 ≤ n) (below : n < t.nodes.count) : treeOf t n ∈ t.nodes.view :=
  List.mem_of_getElem? (treeOf_eq inside below)

/-- A child of a node in use is a node or a leaf in use. -/
theorem WellFormed.nodeOrLeaf (h : WellFormed t) (edge : ListChild t.nodes.view m n) :
    NodeOrLeaf t.nodes.count t.leafs.count m := by
  obtain ⟨node, -, hnode, rfl | rfl⟩ := edge
  · exact (h.child node (List.mem_of_getElem? hnode)).1
  · exact (h.child node (List.mem_of_getElem? hnode)).2

theorem finite_nodeOrLeaf (numnodes numleafs : Nat) :
    {num | NodeOrLeaf numnodes numleafs num}.Finite :=
  (Finset.Ico (-(numleafs : Int)) numnodes).finite_toSet.subset fun _ h =>
    Finset.mem_coe.mpr (Finset.mem_Ico.mpr h)

/-- Below a node in use there are only nodes and leafs in use, so an endless descent is a cycle. -/
theorem acc_of_noCycle {numnodes numleafs : Nat} {r : Int → Int → Prop}
    (inside : ∀ m n, r m n → NodeOrLeaf numnodes numleafs m)
    (start : NodeOrLeaf numnodes numleafs num) (acyclic : NoCycle r num) : Acc r num := by
  refine GraphFlood.acc_of_acyclic ((finite_nodeOrLeaf numnodes numleafs).subset ?_) acyclic
  intro n under
  rcases under.cases_head with rfl | ⟨m, edge, -⟩
  · exact start
  · exact inside n m edge

theorem WellFormed.acc_child (h : WellFormed t) (finite : Acc (ListChild t.nodes.view) num)
    (start : NodeOrLeaf t.nodes.count t.leafs.count num) : Acc (Child (treeOf t)) num := by
  induction finite with
  | intro n _ ih =>
    refine ⟨n, fun m edge => ?_⟩
    have listed : ListChild t.nodes.view m n := ⟨treeOf t n, edge.1, treeOf_eq edge.1 start.2, edge.2⟩
    exact ih m listed (h.nodeOrLeaf listed)

theorem WellFormed.leaf_below (h : WellFormed t) (below : Below (treeOf t) num leaf)
    (start : NodeOrLeaf t.nodes.count t.leafs.count num) : 0 ≤ leaf ∧ leaf < t.leafs.count := by
  induction below with
  | leaf outside =>
    have low := start.1
    omega
  | front inside _ ih => exact ih (h.child _ (mem_treeOf inside start.2)).1
  | back inside _ ih => exact ih (h.child _ (mem_treeOf inside start.2)).2

theorem WellFormed.boxLeafnumsEnds (h : WellFormed t) : BoxLeafnumsEnds t := by
  intro mins maxs maxcount world hworld
  have hmodel : world ∈ t.cmodels.view := List.mem_of_mem_head? hworld
  have start := h.headnode world hmodel
  have finite := h.acc_child
    (acc_of_noCycle (fun m n => h.nodeOrLeaf) start (h.acyclic world hmodel)) start
  obtain ⟨fuel, enough⟩ := exists_enough finite
  obtain ⟨list, hlist⟩ := exists_touched (fun node => boxOnPlaneSide mins maxs (planeOf t node)) enough
  obtain ⟨topnode, run, -⟩ := boxLeafnumsHeadnode_eq hlist (some maxcount)
  refine ⟨fuel, _, run, fun leaf hleaf => ?_⟩
  exact h.leaf_below (below_of_touched hlist (List.mem_of_mem_take hleaf)) start

/-- One step of a point. -/
theorem WellFormed.pointChild_iff (h : WellFormed t) (p : Vec3) (inside : 0 ≤ n)
    (below : n < t.nodes.count) : PointChild t.nodes.view (t.planes.view.map some) p m n ↔
      m = if behind p (planeOf t (treeOf t n)) then (treeOf t n).children.2
        else (treeOf t n).children.1 := by
  have hplane := h.nodePlane _ (mem_treeOf inside below)
  have plane : (t.planes.view.map some)[(treeOf t n).plane.toNat]? =
      some (some (planeOf t (treeOf t n))) := by
    rw [List.getElem?_map, view_getElem? (by omega)]
    rfl
  constructor
  · rintro ⟨node, plane', -, hnode, hplane', rfl⟩
    obtain rfl := Option.some.inj ((treeOf_eq inside below).symm.trans hnode)
    obtain rfl := Option.some.inj (Option.some.inj (plane.symm.trans hplane'))
    rfl
  · exact fun same => ⟨_, _, inside, treeOf_eq inside below, plane, same⟩

theorem WellFormed.point_nodeOrLeaf (h : WellFormed t) {p : Vec3}
    (edge : PointChild t.nodes.view (t.planes.view.map some) p m n) :
    NodeOrLeaf t.nodes.count t.leafs.count m := by
  obtain ⟨node, plane, inside, hnode, -, rfl⟩ := edge
  refine h.nodeOrLeaf ⟨node, inside, hnode, ?_⟩
  split
  · exact .inr rfl
  · exact .inl rfl

theorem WellFormed.exists_pointLeafnum (h : WellFormed t) {p : Vec3}
    (finite : Acc (PointChild t.nodes.view (t.planes.view.map some) p) num)
    (start : NodeOrLeaf t.nodes.count t.leafs.count num) : ∃ fuel leaf,
      pointLeafnumR (treeOf t) (fun node => behind p (planeOf t node)) fuel num = some leaf ∧
        0 ≤ leaf ∧ leaf < t.leafs.count := by
  induction finite with
  | intro n _ ih =>
    by_cases outside : n < 0
    · have low := start.1
      exact ⟨1, -1 - n, if_pos outside, by omega, by omega⟩
    have inside : 0 ≤ n := Int.not_lt.mp outside
    have edge := (h.pointChild_iff p inside start.2).mpr rfl
    obtain ⟨fuel, leaf, run, range⟩ := ih _ edge (h.point_nodeOrLeaf edge)
    refine ⟨fuel + 1, leaf, ?_, range⟩
    simp only [pointLeafnumR, if_neg outside]
    split at run
    · rename_i back
      rw [if_pos back, run]
    · rename_i front
      rw [if_neg front, run]

/-- From each node on its way the walk of a point is shorter. -/
theorem WellFormed.shorter (h : WellFormed t) {p : Vec3}
    (path : Relation.TransGen (PointChild t.nodes.view (t.planes.view.map some) p) m n) {fuel : Nat}
    (run : pointLeafnumR (treeOf t) (fun node => behind p (planeOf t node)) fuel n = some leaf) :
    ∃ less < fuel,
      pointLeafnumR (treeOf t) (fun node => behind p (planeOf t node)) less m = some leaf := by
  have one : ∀ {m n : Int} {fuel : Nat}, PointChild t.nodes.view (t.planes.view.map some) p m n →
      pointLeafnumR (treeOf t) (fun node => behind p (planeOf t node)) fuel n = some leaf →
        ∃ less < fuel,
          pointLeafnumR (treeOf t) (fun node => behind p (planeOf t node)) less m = some leaf := by
    intro m n fuel edge run
    cases fuel with
    | zero => cases run
    | succ fuel =>
      have ⟨node, _, inside, hnode, _, _⟩ := edge
      have below : n < t.nodes.count := by
        have less := (List.getElem?_eq_some_iff.mp hnode).1
        rw [← count_eq_length_view] at less
        omega
      have same := (h.pointChild_iff p inside below).mp edge
      refine ⟨fuel, Nat.lt_succ_self fuel, ?_⟩
      simp only [pointLeafnumR, if_neg (Int.not_lt.mpr inside)] at run
      rw [same]
      split
      · rename_i back
        rw [if_pos back] at run
        exact run
      · rename_i front
        rw [if_neg front] at run
        exact run
  induction path using Relation.TransGen.head_induction_on with
  | single edge => exact one edge run
  | head edge _ ih =>
    obtain ⟨less, hless, run'⟩ := ih
    obtain ⟨lesser, hlesser, run''⟩ := one edge run'
    exact ⟨lesser, Nat.lt_trans hlesser hless, run''⟩

end Walks

/-! ## The model is as sound as the file -/

/-- The room that `CM_InitBoxHull` checks; it does not look at the leafs. -/
theorem room_of_cmInitBoxHull {s t : Tables} (h : cmInitBoxHull s = .ok t) :
    t.nodes.count + 6 ≤ maxMapNodes ∧ t.brushes.count + 1 ≤ maxMapBrushes ∧
      t.leafbrushes.count + 1 ≤ maxMapLeafbrushes ∧ t.brushsides.count + 6 ≤ maxMapBrushsides ∧
      t.planes.count + 12 ≤ maxMapPlanes := by
  simp only [cmInitBoxHull] at h
  split at h
  · cases h
  · rename_i room
    cases h
    simp only [Table.behind]
    omega

theorem length_view (t : Table α) : t.view.length = t.count := (count_eq_length_view t).symm

theorem parseBrushSide_spec {numtexinfo : Nat} {r : List UInt8} {side : CBrushSide}
    (someSurface : 1 ≤ numtexinfo) (h : parseBrushSide numtexinfo r = some side) : side.plane = uint16At r 0 ∧
      ∀ surface, side.surface = some surface → surface < numtexinfo := by
  simp only [parseBrushSide] at h
  split at h
  · cases h
  · rename_i less
    cases h
    refine ⟨rfl, ?_⟩
    rintro _ ⟨⟩
    omega

/-- The tables are right exactly when the lumps refer to what they hold. -/
theorem right_iff_sound {lumps : Lumps} {t : Tables} (copies : Copies lumps t.view)
    (room : t.nodes.count + 6 ≤ maxMapNodes ∧ t.brushes.count + 1 ≤ maxMapBrushes ∧
      t.leafbrushes.count + 1 ≤ maxMapLeafbrushes ∧ t.brushsides.count + 6 ≤ maxMapBrushsides ∧
      t.planes.count + 12 ≤ maxMapPlanes) : Right t ↔ Sound lumps := by
  obtain ⟨surfaces, leafs, leafbrushes, planes, brushes, brushsides, headnodes, nodes, areas,
    areaportals⟩ := lumps
  obtain ⟨rfl, someSurface, someNode, rfl, rfl, rfl, rfl, hsides, rfl, rfl, rfl, rfl⟩ := copies
  have sideCount : t.brushsides.count = brushsides.length := by
    have lengths := congrArg List.length hsides
    rw [List.length_map, List.length_map] at lengths
    exact (length_view _).symm.trans lengths
  have planeCount : (t.view.planes.map some).length = t.planes.count := by
    rw [List.length_map]
    exact length_view _
  have fromRecord : ∀ side ∈ t.brushsides.view, ∃ r ∈ brushsides,
      parseBrushSide t.view.surfaces.length r = some side := by
    intro side hside
    have mapped : some side ∈ t.view.brushsides.map some := List.mem_map_of_mem hside
    rw [hsides] at mapped
    exact List.mem_map.mp mapped
  have nodeCount : t.view.nodes.length = t.nodes.count := length_view _
  have leafCount : t.view.leafs.length = t.leafs.count := length_view _
  constructor
  · rintro ⟨h, point, -⟩
    refine ⟨?_, ?_, ?_, ?_, ?_, ?_, ?_, ?_, ?_, ?_, ?_, ?_⟩
    · rw [planeCount]
      exact h.nodePlane
    · rw [nodeCount, leafCount]
      exact h.child
    · exact fun leaf hleaf => (length_view t.leafbrushes).symm ▸ h.leafBrushes leaf hleaf
    · exact fun brush hbrush => (length_view t.brushes).symm ▸ h.leafBrush brush hbrush
    · exact fun brush hbrush => sideCount ▸ h.brushSides brush hbrush
    · intro r hr
      have mapped : parseBrushSide t.view.surfaces.length r ∈ t.view.brushsides.map some := by
        rw [hsides]
        exact List.mem_map_of_mem hr
      obtain ⟨side, hside, same⟩ := List.mem_map.mp mapped
      rw [planeCount, ← (parseBrushSide_spec someSurface same.symm).1]
      exact h.sidePlane side hside
    · exact fun area harea => (length_view t.areaportals).symm ▸ h.areaPortals area harea
    · exact fun portal hportal => (length_view t.areas).symm ▸ h.otherArea portal hportal
    · rw [nodeCount, leafCount]
      exact List.forall_mem_map.mpr h.headnode
    · exact List.forall_mem_map.mpr h.acyclic
    · have fits := h.boxHull
      change t.view.leafs.length < maxMapLeafs
      omega
    · intro p n under cycle
      obtain ⟨fuel, leaf, run, -⟩ := point p
      have passes : ∃ fuel,
          pointLeafnumR (treeOf t) (fun node => behind p (planeOf t node)) fuel n = some leaf := by
        rcases Relation.reflTransGen_iff_eq_or_transGen.mp under with rfl | path
        · exact ⟨fuel, run⟩
        · obtain ⟨less, -, run'⟩ := h.shorter path run
          exact ⟨less, run'⟩
      obtain ⟨start, hstart⟩ := passes
      induction start using Nat.strong_induction_on with
      | _ start ih =>
        obtain ⟨less, hless, run'⟩ := h.shorter cycle hstart
        exact ih less hless run'
  · intro h
    have wellFormed : WellFormed t := by
      refine ⟨?_, ?_, ?_, ?_, ?_, ?_, ?_, ?_, ?_, ?_, ?_, ?_⟩
      · rw [← planeCount]
        exact h.nodePlane
      · rw [← nodeCount, ← leafCount]
        exact h.child
      · exact fun leaf hleaf => length_view t.leafbrushes ▸ h.leafBrushes leaf hleaf
      · exact fun brush hbrush => length_view t.brushes ▸ h.leafBrush brush hbrush
      · exact fun brush hbrush => sideCount ▸ h.brushSides brush hbrush
      · intro side hside
        obtain ⟨r, hr, parsed⟩ := fromRecord side hside
        rw [(parseBrushSide_spec someSurface parsed).1, ← planeCount]
        exact h.sidePlane r hr
      · intro side hside
        obtain ⟨r, -, parsed⟩ := fromRecord side hside
        rw [← length_view]
        exact (parseBrushSide_spec someSurface parsed).2
      · exact fun area harea => length_view t.areaportals ▸ h.areaPortals area harea
      · exact fun portal hportal => length_view t.areas ▸ h.otherArea portal hportal
      · rw [← nodeCount, ← leafCount]
        exact List.forall_mem_map.mp h.headnode
      · exact List.forall_mem_map.mp h.acyclic
      · have few : t.view.leafs.length < maxMapLeafs := h.leafs
        omega
    have start : NodeOrLeaf t.nodes.count t.leafs.count 0 := by
      have someNode : 1 ≤ t.view.nodes.length := someNode
      simp only [NodeOrLeaf]
      omega
    refine ⟨wellFormed, fun p => ?_, wellFormed.boxLeafnumsEnds⟩
    exact wellFormed.exists_pointLeafnum
      (acc_of_noCycle (fun m n => wellFormed.point_nodeOrLeaf) start (h.point p)) start

/-- A load that completes leaves a sound model just when the tables of the file are sound. -/
theorem loaded_right_iff {w : Disk} {file : List UInt8} {overridden : Bool} {name : List UInt8}
    {s t : State} (h : loadFile w file overridden name s = .ok t) :
    Right t.tables ↔ Sound (readLumps file) := by
  obtain ⟨copies, before, hull⟩ := copies_loadFile h
  exact right_iff_sound copies (room_of_cmInitBoxHull hull)

private def littleWord (n : Nat) : List UInt8 := [0, 8, 16, 24].map fun k => UInt8.ofNat (n / 2 ^ k)

/-- One of everything that a map needs, and a node that is its own child. -/
private def cyclicLump : Nat → List UInt8
  | 1 => List.replicate 20 0
  | 4 => List.replicate 28 0
  | 5 => List.replicate 76 0
  | 8 => littleWord 1 ++ List.replicate 52 0
  | 10 => List.replicate 2 0
  | 13 => List.replicate 48 0
  | _ => []

private def cyclicBsp : List UInt8 :=
  let offset (i : Nat) : Nat := headerSize + ((List.range i).map fun j => (cyclicLump j).length).sum
  littleWord 0 ++ littleWord 38 ++
    (List.range numLumps).flatMap (fun i => littleWord (offset i) ++ littleWord (cyclicLump i).length) ++
    (List.range numLumps).flatMap cyclicLump

private def bareDisk : Disk := ⟨fun _ => none, fun _ => 0⟩

theorem loadFile_cyclicBsp : ∃ t, loadFile bareDisk cyclicBsp false [] initial = .ok t := by
  have completes : (loadFile bareDisk cyclicBsp false [] initial).toBool = true := by decide +kernel
  exact exists_of_toBool completes

theorem loaded_right_iff_cyclicBsp : ∃ t, loadFile bareDisk cyclicBsp false [] initial = .ok t ∧
    (Right t.tables ↔ Sound (readLumps cyclicBsp)) := by
  obtain ⟨t, ht⟩ := loadFile_cyclicBsp
  exact ⟨t, ht, loaded_right_iff ht⟩

/-- The walk of a point never leaves node 0. -/
theorem cyclic_map_loads : ¬∀ (w : Disk) (file : List UInt8) (overridden : Bool) (name : List UInt8)
    (s t : State), loadFile w file overridden name s = .ok t → Right t.tables := by
  intro h
  obtain ⟨t, ht⟩ := loadFile_cyclicBsp
  have wellFormed := (h _ _ _ _ _ t ht).wellFormed
  obtain ⟨copies, -⟩ := copies_loadFile ht
  have node : ((readLumps cyclicBsp).nodes)[0]?.map CNode.children = some (0, 0) := by decide +kernel
  obtain ⟨node, hnode, children⟩ := Option.map_eq_some_iff.mp node
  have headnodes : (readLumps cyclicBsp).headnodes = [0] := by decide +kernel
  have loop : ListChild t.tables.nodes.view 0 0 := by
    refine ⟨node, Int.le_refl 0, ?_, .inl ?_⟩
    · exact (congrArg (fun nodes : List CNode => nodes[0]?) copies.nodes).trans hnode
    · rw [children]
  have zero : (0 : Int) ∈ t.tables.cmodels.view.map CModel.headnode := by
    have same : t.tables.cmodels.view.map CModel.headnode = [0] := copies.headnodes.trans headnodes
    rw [same]
    exact List.mem_singleton_self 0
  obtain ⟨model, hmodel, hzero⟩ := List.mem_map.mp zero
  have acyclic := wellFormed.acyclic model hmodel
  rw [hzero] at acyclic
  exact acyclic 0 .refl (.single loop)

end MapReferences
