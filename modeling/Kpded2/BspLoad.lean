import Mathlib.Algebra.Order.Ring.Int
import Mathlib.Data.List.Basic
import Mathlib.Data.List.ReduceOption
import Mathlib.Data.List.TakeWhile
import Kpded2.Bytes

/-!
# The tables of a BSP file

The collision model is a number of static arrays, each with a count of the entries
in use. The loaders overwrite them lump by lump; one that gives up with `ERR_DROP`
leaves behind what it has already written. A fault is an access outside the file.
`map_fastplanes`, a second copy of the planes, is left out.
-/
namespace BspLoad

variable {α : Type}

inductive Stop (τ : Type)
  | drop (left : τ)
  | fault

/-! ## Arrays -/

/-- An array with the count of its entries in use. -/
structure Table (α : Type) where
  count : Nat
  entry : Nat → α

def Table.view (t : Table α) : List α := (List.range t.count).map t.entry

/-- The first entries written over. -/
def Table.overwrite (t : Table α) (count : Nat) (entries : List α) : Table α where
  count := count
  entry i := (entries[i]?).getD (t.entry i)

/-- Entries changed behind those in use. -/
def Table.behind (t : Table α) (changes : List (α → α)) : Table α where
  count := t.count
  entry i := if i < t.count then t.entry i
    else ((changes[i - t.count]?).map fun f => f (t.entry i)).getD (t.entry i)

theorem Table.view_overwrite (t : Table α) (entries : List α) :
    (t.overwrite entries.length entries).view = entries := by
  refine List.ext_getElem (by simp [Table.view, Table.overwrite]) ?_
  intro i h _
  have hi : i < entries.length := by simpa [Table.view, Table.overwrite] using h
  simp [Table.view, Table.overwrite, List.getElem?_eq_getElem hi]

theorem Table.view_behind (t : Table α) (changes : List (α → α)) :
    (t.behind changes).view = t.view := by
  refine List.map_congr_left ?_
  intro i hi
  exact if_pos (List.mem_range.mp hi)

/-! ## Reading the file -/

def byteAt (bytes : List UInt8) (i : Nat) : Nat := ((bytes[i]?).getD 0).toNat

def uint16At (bytes : List UInt8) (i : Nat) : Nat := byteAt bytes i + 256 * byteAt bytes (i + 1)

def uint32At (bytes : List UInt8) (i : Nat) : Nat :=
  uint16At bytes i + 65536 * uint16At bytes (i + 2)

def int16At (bytes : List UInt8) (i : Nat) : Int :=
  let n := uint16At bytes i
  if n < 32768 then n else n - 65536

def int32At (bytes : List UInt8) (i : Nat) : Int :=
  let n := uint32At bytes i
  if n < 2147483648 then n else n - 4294967296

def floatAt (bytes : List UInt8) (i : Nat) : UInt32 := UInt32.ofNat (uint32At bytes i)

/-- `bytes` is missing if a part of the lump lies outside the file. -/
structure Lump where
  filelen : Nat
  bytes : Option (List UInt8)

def lumpOf (file : List UInt8) (fileofs filelen : Nat) : Lump where
  filelen := filelen
  bytes := if fileofs + filelen ≤ file.length then some ((file.drop fileofs).take filelen) else none

def records (size count : Nat) (bytes : List UInt8) : List (List UInt8) :=
  (List.range count).map fun i => (bytes.drop (size * i)).take size

/-- What the loaders of tables have in common: `inRange` limits the number of
entries, and `parse` gives up on a bad entry once those before it are written (what it has
written of the bad entry itself is left out). -/
def loadRecords (size : Nat) (inRange : Nat → Bool) (parse : List UInt8 → Option α) (l : Lump)
    (t : Table α) : Except (Stop (Table α)) (Table α) :=
  if l.filelen % size ≠ 0 then .error (.drop t)
  else if inRange (l.filelen / size) then
    match l.bytes with
    | none => .error .fault
    | some bytes =>
      let entries := (records size (l.filelen / size) bytes).map parse
      let written := t.overwrite (l.filelen / size) (entries.takeWhile Option.isSome).reduceOption
      if entries.all Option.isSome then .ok written else .error (.drop written)
  else .error (.drop t)

/-- If a loader completes, it does so whatever was in the table, with the same entries. -/
theorem loadRecords_ok {size : Nat} {inRange : Nat → Bool} {parse : List UInt8 → Option α}
    {l : Lump} {t u : Table α} (h : loadRecords size inRange parse l t = .ok u) :
    ∃ entries, ∀ t', loadRecords size inRange parse l t' =
      .ok (t'.overwrite entries.length entries) := by
  simp only [loadRecords] at h
  split at h
  · cases h
  rename_i hsize
  split at h
  swap
  · cases h
  rename_i hrange
  cases hbytes : l.bytes with
  | none =>
    rw [hbytes] at h
    cases h
  | some bytes =>
    rw [hbytes] at h
    simp only at h
    split at h
    swap
    · cases h
    rename_i hall
    let entries := (records size (l.filelen / size) bytes).map parse
    have hsome : ∀ e ∈ entries, e.isSome := List.all_eq_true.mp hall
    have hwhile : entries.takeWhile Option.isSome = entries := List.takeWhile_eq_self_iff.mpr hsome
    have hlength : entries.reduceOption.length = l.filelen / size := by
      have hevery : entries.reduceOption.length = entries.length := by
        rw [List.reduceOption_length_eq_iff]
        exact hsome
      rw [hevery]
      simp [entries, records]
    refine ⟨entries.reduceOption, fun t' => ?_⟩
    simp only [loadRecords, if_neg hsize, if_pos hrange, hbytes, if_pos hall, hlength]
    rw [show (List.takeWhile Option.isSome (List.map parse
      (records size (l.filelen / size) bytes))) = entries from hwhile]

/-! ## The collision model -/

structure CModel where
  mins : List Float32
  maxs : List Float32
  origin : List Float32
  headnode : Int

/-- The two names are `c.name` and `rname`. -/
structure MapSurface where
  name : List UInt8
  rname : List UInt8
  flags : Int
  value : Int

/-- The floats of a plane are kept as the words of the file. -/
structure CPlane where
  normal : List UInt32
  dist : UInt32
  type : Nat
  signbits : Nat

/-- The plane is an index of `map_planes`. -/
structure CNode where
  plane : Int
  children : Int × Int

/-- `none` is `nullsurface`. -/
structure CBrushSide where
  plane : Nat
  surface : Option Nat

structure CBrush where
  contents : Int
  numsides : Int
  firstbrushside : Int

structure CLeaf where
  contents : Int
  cluster : Int
  area : Int
  firstleafbrush : Nat
  numleafbrushes : Nat

structure CArea where
  numareaportals : Int
  firstareaportal : Int

structure AreaPortal where
  portalnum : Int
  otherarea : Int

structure Tables where
  surfaces : Table MapSurface
  leafs : Table CLeaf
  leafbrushes : Table Nat
  planes : Table CPlane
  brushes : Table CBrush
  brushsides : Table CBrushSide
  cmodels : Table CModel
  nodes : Table CNode
  areas : Table CArea
  areaportals : Table AreaPortal
  visibility : Table UInt8
  entitystring : Table UInt8
  numclusters : Int
  emptyleaf : Int
  boxHeadnode : Nat

def maxMapModels : Nat := 1024
def maxMapBrushes : Nat := 8192
def maxMapEntstring : Nat := 262144
def maxMapTexinfo : Nat := 8192
def maxMapAreas : Nat := 256
def maxMapPlanes : Nat := 65536
def maxMapNodes : Nat := 65536
def maxMapBrushsides : Nat := 65536
def maxMapLeafbrushes : Nat := 65536
def maxMapVisibility : Nat := 1048576

def contentsSolid : Int := 1
def contentsMonster : Int := 33554432

/-! ## The loaders -/

/-- A loader of one table within the collision model. -/
def onTable (get : Tables → Table α) (set : Tables → Table α → Tables)
    (load : Table α → Except (Stop (Table α)) (Table α)) (s : Tables) :
    Except (Stop Tables) Tables :=
  match load (get s) with
  | .ok t => .ok (set s t)
  | .error (.drop t) => .error (.drop (set s t))
  | .error .fault => .error .fault

/-- `strncpy` into a field that ends with a zero. -/
def strncpyField (size : Nat) (text : List UInt8) : List UInt8 :=
  (text.takeWhile (· ≠ 0)).take (size - 1)

def parseModel (r : List UInt8) : CModel where
  -- the box is a pixel larger than in the file
  mins := [0, 4, 8].map fun i => Float32.ofBits (floatAt r i) - 1
  maxs := [12, 16, 20].map fun i => Float32.ofBits (floatAt r i) + 1
  origin := [24, 28, 32].map fun i => Float32.ofBits (floatAt r i)
  headnode := int32At r 36

def cmodLoadSubmodels (l : Lump) : Tables → Except (Stop Tables) Tables :=
  onTable Tables.cmodels (fun s cmodels => { s with cmodels })
    (loadRecords 48 (fun count => 1 ≤ count && count < maxMapModels)
      (fun r => some (parseModel r)) l)

def parseSurface (r : List UInt8) : MapSurface where
  name := strncpyField 16 ((r.drop 40).take 32)
  rname := strncpyField 32 ((r.drop 40).take 32)
  flags := int32At r 32
  value := int32At r 36

def cmodLoadSurfaces (l : Lump) : Tables → Except (Stop Tables) Tables :=
  onTable Tables.surfaces (fun s surfaces => { s with surfaces })
    (loadRecords 76 (fun count => 1 ≤ count && count ≤ maxMapTexinfo)
      (fun r => some (parseSurface r)) l)

def parseNode (r : List UInt8) : CNode where
  plane := int32At r 0
  children := (int32At r 4, int32At r 8)

def cmodLoadNodes (l : Lump) : Tables → Except (Stop Tables) Tables :=
  onTable Tables.nodes (fun s nodes => { s with nodes })
    (loadRecords 28 (fun count => 1 ≤ count && count ≤ maxMapNodes)
      (fun r => some (parseNode r)) l)

def parseBrush (r : List UInt8) : CBrush where
  firstbrushside := int32At r 0
  numsides := int32At r 4
  contents := int32At r 8

def cmodLoadBrushes (l : Lump) : Tables → Except (Stop Tables) Tables :=
  onTable Tables.brushes (fun s brushes => { s with brushes })
    (loadRecords 12 (fun count => count ≤ maxMapBrushes) (fun r => some (parseBrush r)) l)

def parseLeaf (r : List UInt8) : CLeaf where
  contents := int32At r 0
  cluster := int16At r 4
  area := int16At r 6
  firstleafbrush := uint16At r 24
  numleafbrushes := uint16At r 26

/-- The first leaf behind leaf 0 that has no contents. -/
def findEmptyleaf (leafs : List CLeaf) : Int :=
  match leafs.tail.findIdx? fun leaf => leaf.contents == 0 with
  | some i => (i + 1 : Nat)
  | none => -1

def countClusters (leafs : List CLeaf) : Int :=
  leafs.foldl (fun numclusters leaf =>
    if leaf.cluster ≥ numclusters then leaf.cluster + 1 else numclusters) 0

/-- What follows the loop over the leafs. -/
def checkLeafs (s : Tables) : Except (Stop Tables) Tables :=
  let leafs := s.leafs.view
  let counted := { s with numclusters := countClusters leafs }
  if (leafs.head?.map CLeaf.contents) ≠ some contentsSolid then .error (.drop counted)
  else
    let found := { counted with emptyleaf := findEmptyleaf leafs }
    if found.emptyleaf = -1 then .error (.drop found) else .ok found

def cmodLoadLeafs (l : Lump) (s : Tables) : Except (Stop Tables) Tables := do
  let s ← onTable Tables.leafs (fun s leafs => { s with leafs })
    (loadRecords 28 (fun count => 1 ≤ count && count ≤ maxMapPlanes)
      (fun r => some (parseLeaf r)) l) s
  checkLeafs s

/-- `FLOAT_LT_ZERO` compares the word of the float. -/
def floatLtZero (word : UInt32) : Bool := word > 0x80000000

def parsePlane (r : List UInt8) : Option CPlane :=
  let normal := [0, 4, 8].map (floatAt r)
  let bit (j : Nat) : Nat := if floatLtZero (floatAt r (4 * j)) then 2 ^ j else 0
  if uint32At r 16 > 5 then none
  else some { normal, dist := floatAt r 12, type := uint32At r 16, signbits := bit 0 + bit 1 + bit 2 }

def cmodLoadPlanes (l : Lump) : Tables → Except (Stop Tables) Tables :=
  onTable Tables.planes (fun s planes => { s with planes })
    (loadRecords 20 (fun count => 1 ≤ count && count ≤ maxMapPlanes) parsePlane l)

def cmodLoadLeafBrushes (l : Lump) : Tables → Except (Stop Tables) Tables :=
  onTable Tables.leafbrushes (fun s leafbrushes => { s with leafbrushes })
    (loadRecords 2 (fun count => 1 ≤ count && count < maxMapLeafbrushes)
      (fun r => some (uint16At r 0)) l)

def parseBrushSide (numtexinfo : Nat) (r : List UInt8) : Option CBrushSide :=
  let j := int16At r 2
  if j ≥ numtexinfo then none else some { plane := uint16At r 0, surface := some j.toNat }

def cmodLoadBrushSides (l : Lump) (s : Tables) : Except (Stop Tables) Tables :=
  onTable Tables.brushsides (fun s brushsides => { s with brushsides })
    (loadRecords 4 (fun count => count ≤ maxMapBrushsides) (parseBrushSide s.surfaces.count) l) s

def parseArea (r : List UInt8) : CArea where
  numareaportals := int32At r 0
  firstareaportal := int32At r 4

def cmodLoadAreas (l : Lump) : Tables → Except (Stop Tables) Tables :=
  onTable Tables.areas (fun s areas => { s with areas })
    (loadRecords 8 (fun count => count ≤ maxMapAreas) (fun r => some (parseArea r)) l)

def parseAreaPortal (r : List UInt8) : AreaPortal where
  portalnum := int32At r 0
  otherarea := int32At r 4

def cmodLoadAreaPortals (l : Lump) : Tables → Except (Stop Tables) Tables :=
  onTable Tables.areaportals (fun s areaportals => { s with areaportals })
    (loadRecords 8 (fun count => count ≤ maxMapAreas) (fun r => some (parseAreaPortal r)) l)

/-- The two loaders of bytes, which set the count before they check it. -/
def loadBytes (max : Nat) (l : Lump) (t : Table UInt8) :
    Except (Stop (Table UInt8)) (Table UInt8) :=
  if l.filelen > max then .error (.drop { t with count := l.filelen })
  else match l.bytes with
    | none => .error .fault
    | some bytes => .ok (t.overwrite bytes.length bytes)

def cmodLoadVisibility (l : Lump) : Tables → Except (Stop Tables) Tables :=
  onTable Tables.visibility (fun s visibility => { s with visibility })
    (loadBytes maxMapVisibility l)

def cmodLoadEntityString (l : Lump) : Tables → Except (Stop Tables) Tables :=
  onTable Tables.entitystring (fun s entitystring => { s with entitystring })
    (loadBytes maxMapEntstring l)

/-! ## The box hull -/

/-- A plane of the box hull, on the positive or the negative side of an axis. -/
def boxPlane (axis : Nat) (negative : Bool) (p : CPlane) : CPlane where
  normal := [0, 1, 2].map fun j =>
    if j = axis then (if negative then 0xBF800000 else 0x3F800000) else 0
  dist := p.dist
  type := if negative then 3 + axis else axis
  signbits := 0

/-- The hull of a box, behind the entries of the map. -/
def cmInitBoxHull (s : Tables) : Except (Stop Tables) Tables :=
  let s := { s with boxHeadnode := s.nodes.count }
  if s.nodes.count + 6 > maxMapNodes ∨ s.brushes.count + 1 > maxMapBrushes ∨
      s.leafbrushes.count + 1 > maxMapLeafbrushes ∨ s.brushsides.count + 6 > maxMapBrushsides ∨
      s.planes.count + 12 > maxMapPlanes then .error (.drop s)
  else
    let side (i : Nat) : CBrushSide → CBrushSide := fun _ =>
      { plane := s.planes.count + i * 2 + i % 2, surface := none }
    let node (i : Nat) : CNode → CNode := fun _ =>
      let box : Int := -1 - s.emptyleaf
      let next : Int := if i ≠ 5 then s.nodes.count + i + 1 else -1 - s.leafs.count
      { plane := s.planes.count + i * 2, children := if i % 2 = 0 then (box, next) else (next, box) }
    .ok { s with
      brushes := s.brushes.behind
        [fun _ => { contents := contentsMonster, numsides := 6, firstbrushside := s.brushsides.count }]
      leafs := s.leafs.behind [fun leaf => { leaf with
        contents := contentsMonster, firstleafbrush := s.leafbrushes.count, numleafbrushes := 1 }]
      leafbrushes := s.leafbrushes.behind [fun _ => s.brushes.count % 65536]
      brushsides := s.brushsides.behind ((List.range 6).map side)
      nodes := s.nodes.behind ((List.range 6).map node)
      planes := s.planes.behind ((List.range 12).map fun i => boxPlane (i / 4) (i % 2 = 1)) }

/-! ## What a completed load leaves -/

/-- Everything of the collision model that is in use. -/
structure View where
  surfaces : List MapSurface
  leafs : List CLeaf
  leafbrushes : List Nat
  planes : List CPlane
  brushes : List CBrush
  brushsides : List CBrushSide
  cmodels : List CModel
  nodes : List CNode
  areas : List CArea
  areaportals : List AreaPortal
  visibility : List UInt8
  entitystring : List UInt8
  numclusters : Int
  emptyleaf : Int

def Tables.view (s : Tables) : View where
  surfaces := s.surfaces.view
  leafs := s.leafs.view
  leafbrushes := s.leafbrushes.view
  planes := s.planes.view
  brushes := s.brushes.view
  brushsides := s.brushsides.view
  cmodels := s.cmodels.view
  nodes := s.nodes.view
  areas := s.areas.view
  areaportals := s.areaportals.view
  visibility := s.visibility.view
  entitystring := s.entitystring.view
  numclusters := s.numclusters
  emptyleaf := s.emptyleaf

/-- `f` writes these entries into the table, whatever was there. -/
def Writes (f : Tables → Except (Stop Tables) Tables) (get : Tables → Table α)
    (set : Tables → Table α → Tables) (entries : List α) : Prop :=
  ∀ s, f s = .ok (set s ((get s).overwrite entries.length entries))

theorem writes_of_ok {size : Nat} {inRange : Nat → Bool} {parse : List UInt8 → Option α} {l : Lump}
    {get : Tables → Table α} {set : Tables → Table α → Tables} {s t : Tables}
    (h : onTable get set (loadRecords size inRange parse l) s = .ok t) :
    ∃ entries, Writes (onTable get set (loadRecords size inRange parse l)) get set entries := by
  cases hload : loadRecords size inRange parse l (get s) with
  | ok u =>
    obtain ⟨entries, hentries⟩ := loadRecords_ok hload
    exact ⟨entries, fun s' => by simp only [onTable, hentries]⟩
  | error e =>
    simp only [onTable, hload] at h
    cases e with
    | drop left => cases h
    | fault => cases h

theorem writes_of_loadBytes {max : Nat} {l : Lump} {get : Tables → Table UInt8}
    {set : Tables → Table UInt8 → Tables} {s t : Tables}
    (h : onTable get set (loadBytes max l) s = .ok t) :
    ∃ bytes, Writes (onTable get set (loadBytes max l)) get set bytes := by
  by_cases hmax : l.filelen > max
  · simp only [onTable, loadBytes, if_pos hmax] at h
    cases h
  · cases hbytes : l.bytes with
    | none =>
      simp only [onTable, loadBytes, if_neg hmax, hbytes] at h
      cases h
    | some bytes =>
      exact ⟨bytes, fun s' => by simp only [onTable, loadBytes, if_neg hmax, hbytes]⟩

/-- The check of the leafs looks at nothing else. -/
theorem checkLeafs_ok {s t : Tables} (h : checkLeafs s = .ok t) (s' : Tables)
    (hleafs : s'.leafs.view = s.leafs.view) :
    checkLeafs s' = .ok { s' with numclusters := t.numclusters, emptyleaf := t.emptyleaf } ∧
      t = { s with numclusters := t.numclusters, emptyleaf := t.emptyleaf } := by
  simp only [checkLeafs] at h ⊢
  rw [hleafs]
  split at h
  · cases h
  split at h
  · cases h
  rename_i hsolid hempty
  rw [if_neg hsolid, if_neg hempty, ← Except.ok.inj h]
  exact ⟨rfl, rfl⟩

theorem count_eq_length_view (t : Table α) : t.count = t.view.length := by
  simp [Table.view]

/-- The room for the box hull depends on the counts, and the hull is not part of the map. -/
theorem cmInitBoxHull_ok {s t : Tables} (h : cmInitBoxHull s = .ok t) :
    t.view = s.view ∧ ∀ s', s'.view = s.view → ∃ t', cmInitBoxHull s' = .ok t' ∧ t'.view = s'.view := by
  have hview : ∀ {s t : Tables}, cmInitBoxHull s = .ok t → t.view = s.view := by
    intro s t h
    simp only [cmInitBoxHull] at h
    split at h
    · cases h
    · rw [← Except.ok.inj h]
      simp only [Tables.view, Table.view_behind]
  refine ⟨hview h, fun s' hs' => ?_⟩
  have hroom : ∃ t', cmInitBoxHull s' = .ok t' := by
    have hnodes : s'.nodes.count = s.nodes.count := by
      rw [count_eq_length_view, count_eq_length_view]
      exact congrArg (fun v : View => v.nodes.length) hs'
    have hbrushes : s'.brushes.count = s.brushes.count := by
      rw [count_eq_length_view, count_eq_length_view]
      exact congrArg (fun v : View => v.brushes.length) hs'
    have hleafbrushes : s'.leafbrushes.count = s.leafbrushes.count := by
      rw [count_eq_length_view, count_eq_length_view]
      exact congrArg (fun v : View => v.leafbrushes.length) hs'
    have hbrushsides : s'.brushsides.count = s.brushsides.count := by
      rw [count_eq_length_view, count_eq_length_view]
      exact congrArg (fun v : View => v.brushsides.length) hs'
    have hplanes : s'.planes.count = s.planes.count := by
      rw [count_eq_length_view, count_eq_length_view]
      exact congrArg (fun v : View => v.planes.length) hs'
    simp only [cmInitBoxHull, hnodes, hbrushes, hleafbrushes, hbrushsides, hplanes] at h ⊢
    split at h
    · cases h
    · rename_i hroom
      rw [if_neg hroom]
      exact ⟨_, rfl⟩
  obtain ⟨t', ht'⟩ := hroom
  exact ⟨t', ht', hview ht'⟩

end BspLoad
