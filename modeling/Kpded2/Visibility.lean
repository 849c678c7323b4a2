import Kpded2.MapReferences

/-!
# The visibility rows of a map

The visibility lump begins with a table of offsets, two for each cluster, and the rows are run-length
coded behind it. The clusters are numbered by the leafs, and no loader compares the two.
-/
namespace Visibility
open BspLoad CollisionMap MapReferences
open Outcome (exists_of_toBool)

/-! ## Run-length codes -/

/-- A byte that stands for itself, or a zero with the length of a run of zeros. -/
inductive Code
  | literal (b : UInt8) (nonzero : b ≠ 0)
  | zeros (count : UInt8)

def Code.bytes : Code → List UInt8
  | .literal b _ => [b]
  | .zeros count => [0, count]

def Code.expand : Code → List UInt8
  | .literal b _ => [b]
  | .zeros count => List.replicate count.toNat 0

/-- The bytes begin with codes for at least `row` bytes. -/
def Coded (row : Nat) (bytes : List UInt8) : Prop :=
  ∃ codes : List Code, codes.flatMap Code.bytes <+: bytes ∧ row ≤ (codes.flatMap Code.expand).length

/-! ## The decoder -/

def rowSize (numclusters : Int) : Nat := ((numclusters + 7) / 8).toNat

/-- A run that is longer than what is left of the row. -/
def clip (row : Nat) (out : List UInt8) (c : Nat) : Nat :=
  if out.length + c > row then row - out.length else c

/-- The loop of `CM_DecompressVis`; it fails if it reads a byte that is not there. -/
def decompress (row : Nat) : List UInt8 → List UInt8 → Option (List UInt8)
  | [], _ => none
  | b :: bytes, out =>
    if b ≠ 0 then
      if (out ++ [b]).length < row then decompress row bytes (out ++ [b]) else some (out ++ [b])
    else
      match bytes with
      | [] => none
      | c :: bytes =>
        let written := out ++ List.replicate (clip row out c.toNat) 0
        if written.length < row then decompress row bytes written else some written

/-- `numvisibility` is the length of the bytes that were loaded. -/
def cmDecompressVis (visibility : List UInt8) (ofs : Int) (row : Nat) : Option (List UInt8) :=
  if visibility.length = 0 then some (List.replicate row 0xff)
  else if ofs < 0 then none
  else decompress row (visibility.drop ofs.toNat) []

def dvisPvs : Nat := 0
def dvisPhs : Nat := 1

/-- Where the table has the offset of a row. -/
def bitofsPlace (cluster : Int) (which : Nat) : Int := 4 + 8 * cluster + 4 * which

def bitofs (visibility : List UInt8) (cluster : Int) (which : Nat) : Option Int :=
  if 0 ≤ bitofsPlace cluster which ∧ bitofsPlace cluster which + 4 ≤ visibility.length then
    some (int32At visibility (bitofsPlace cluster which).toNat)
  else none

def clusterRow (which : Nat) (v : View) (cluster : Int) : Option (List UInt8) :=
  if cluster = -1 then some (List.replicate (rowSize v.numclusters) 0)
  else do
    let ofs ← bitofs v.visibility cluster which
    cmDecompressVis v.visibility ofs (rowSize v.numclusters)

def cmClusterPvs : View → Int → Option (List UInt8) := clusterRow dvisPvs
def cmClusterPhs : View → Int → Option (List UInt8) := clusterRow dvisPhs

/-! ## What the decoder needs -/

theorem decompress_literal {b : UInt8} (nonzero : b ≠ 0) (row : Nat) (bytes out : List UInt8) :
    decompress row (b :: bytes) out =
      if (out ++ [b]).length < row then decompress row bytes (out ++ [b]) else some (out ++ [b]) := by
  cases bytes with
  | nil => simp only [decompress, if_pos nonzero]
  | cons => simp only [decompress, if_pos nonzero]

theorem length_clipped {row : Nat} {out : List UInt8} (room : out.length ≤ row) (c : Nat) :
    (out ++ List.replicate (clip row out c) 0).length = min row (out.length + c) := by
  simp only [clip, List.length_append, List.length_replicate]
  split
  · omega
  · omega

/-- The decoder writes the whole row and nothing behind it. -/
theorem length_of_decompress {row : Nat} {bytes out written : List UInt8} (room : out.length < row)
    (h : decompress row bytes out = some written) : written.length = row := by
  fun_induction decompress row bytes out with
  | case1 => cases h
  | case2 b bytes out nonzero more ih => exact ih more h
  | case3 b bytes out nonzero full =>
    cases h
    rw [List.length_append, List.length_singleton] at full ⊢
    omega
  | case4 => cases h
  | case5 b out zero c bytes written' more ih => exact ih more h
  | case6 b out zero c bytes written' full =>
    obtain rfl := Option.some.inj h
    have length : written'.length = _ := length_clipped (Nat.le_of_lt room) c.toNat
    omega

theorem coded_cons {row : Nat} {bytes : List UInt8} (code : Code)
    (h : row ≤ code.expand.length ∨ Coded (row - code.expand.length) bytes) :
    Coded row (code.bytes ++ bytes) := by
  rcases h with enough | ⟨codes, codesPrefix, more⟩
  · exact ⟨[code], by simp, by simpa using enough⟩
  · refine ⟨code :: codes, ?_, ?_⟩
    · rw [List.flatMap_cons]
      exact (List.prefix_append_right_inj code.bytes).mpr codesPrefix
    · rw [List.flatMap_cons, List.length_append]
      omega

/-- A row that is decompressed was coded for its length. -/
theorem coded_of_decompress {row : Nat} {bytes out written : List UInt8} (room : out.length < row)
    (h : decompress row bytes out = some written) : Coded (row - out.length) bytes := by
  fun_induction decompress row bytes out with
  | case1 => cases h
  | case2 b bytes out nonzero more ih =>
    have coded := ih more h
    rw [List.length_append, List.length_singleton] at coded
    refine coded_cons (.literal b nonzero) (.inr ?_)
    simpa only [Code.expand, List.length_singleton, Nat.sub_sub] using coded
  | case3 b bytes out nonzero full =>
    rw [List.length_append, List.length_singleton] at full
    refine coded_cons (.literal b nonzero) (.inl ?_)
    simp only [Code.expand, List.length_singleton]
    omega
  | case4 => cases h
  | case5 b out zero c bytes written' more ih =>
    have coded := ih more h
    have length : written'.length = _ := length_clipped (Nat.le_of_lt room) c.toNat
    obtain rfl : b = 0 := Classical.not_not.mp zero
    refine coded_cons (.zeros c) (.inr ?_)
    simp only [Code.expand, List.length_replicate]
    rw [show row - out.length - c.toNat = row - written'.length by omega]
    exact coded
  | case6 b out zero c bytes written' full =>
    have length : written'.length = _ := length_clipped (Nat.le_of_lt room) c.toNat
    obtain rfl : b = 0 := Classical.not_not.mp zero
    refine coded_cons (.zeros c) (.inl ?_)
    simp only [Code.expand, List.length_replicate]
    omega

/-- Codes for the rest of the row are all the decoder needs. -/
theorem decompress_of_coded {row : Nat} (codes : List Code) {bytes out : List UInt8}
    (room : out.length < row) (codesPrefix : codes.flatMap Code.bytes <+: bytes)
    (enough : row - out.length ≤ (codes.flatMap Code.expand).length) :
    ∃ written, decompress row bytes out = some written := by
  induction codes generalizing bytes out with
  | nil =>
    rw [List.flatMap_nil, List.length_nil] at enough
    omega
  | cons code codes ih =>
    obtain ⟨behind, rfl⟩ := codesPrefix
    rw [List.flatMap_cons, List.length_append] at enough
    cases code with
    | literal b nonzero =>
      simp only [List.flatMap_cons, Code.bytes, List.cons_append, List.nil_append,
        decompress_literal nonzero]
      split
      · rename_i more
        refine ih more (List.prefix_append _ _) ?_
        simp only [Code.expand, List.length_append, List.length_singleton] at enough ⊢
        omega
      · exact ⟨_, rfl⟩
    | zeros c =>
      simp only [List.flatMap_cons, Code.bytes, List.cons_append, List.nil_append, decompress,
        ne_eq, not_true_eq_false, if_false]
      split
      · rename_i more
        refine ih more (List.prefix_append _ _) ?_
        have length := length_clipped (Nat.le_of_lt room) c.toNat
        simp only [Code.expand, List.length_replicate] at enough
        omega
      · exact ⟨_, rfl⟩

theorem decompress_iff {row : Nat} (room : 0 < row) (bytes : List UInt8) :
    (∃ written, decompress row bytes [] = some written ∧ written.length = row) ↔
      Coded row bytes := by
  constructor
  · rintro ⟨written, h, -⟩
    exact coded_of_decompress room h
  · rintro ⟨codes, codesPrefix, enough⟩
    obtain ⟨written, h⟩ := @decompress_of_coded row codes bytes [] room codesPrefix enough
    exact ⟨written, h, @length_of_decompress row bytes [] written room h⟩

/-! ## The clusters of a map -/

theorem lt_countClusters {leafs : List CLeaf} {leaf : CLeaf} (h : leaf ∈ leafs) :
    leaf.cluster < countClusters leafs := by
  have counted : ∀ (leafs : List CLeaf) (n : Int),
      let most := leafs.foldl (fun numclusters leaf =>
        if leaf.cluster ≥ numclusters then leaf.cluster + 1 else numclusters) n
      n ≤ most ∧ ∀ leaf ∈ leafs, leaf.cluster < most := by
    intro leafs
    induction leafs with
    | nil => exact fun n => ⟨Int.le_refl n, fun leaf h => absurd h List.not_mem_nil⟩
    | cons first leafs ih =>
      intro n
      obtain ⟨grows, bound⟩ := ih (if first.cluster ≥ n then first.cluster + 1 else n)
      simp only [List.foldl_cons]
      have step : n ≤ (if first.cluster ≥ n then first.cluster + 1 else n) ∧
          first.cluster < (if first.cluster ≥ n then first.cluster + 1 else n) := by
        split
        · omega
        · omega
      refine ⟨step.1.trans grows, fun leaf h => ?_⟩
      rcases List.mem_cons.mp h with rfl | h
      · exact Int.lt_of_lt_of_le step.2 grows
      · exact bound leaf h
  exact (counted leafs 0).2 leaf h

/-- The call returns, reads nothing but the bytes of the lump and writes the whole row. -/
def Served (v : View) (served : Option (List UInt8)) : Prop :=
  ∃ written, served = some written ∧ written.length = rowSize v.numclusters

/-- The table has an entry for the cluster, and codes for the whole row are where it says. -/
def RowInLump (visibility : List UInt8) (row : Nat) (cluster : Int) (which : Nat) : Prop :=
  cluster = -1 ∨ (0 ≤ bitofsPlace cluster which ∧
    bitofsPlace cluster which + 4 ≤ visibility.length ∧
    0 ≤ int32At visibility (bitofsPlace cluster which).toNat ∧
    Coded row (visibility.drop (int32At visibility (bitofsPlace cluster which).toNat).toNat))

/-- A row is served exactly if it is coded inside the lump. -/
theorem served_iff {v : View} {cluster : Int} (known : cluster < v.numclusters) {which : Nat}
    (half : which ≤ 1) : Served v (clusterRow which v cluster) ↔
      RowInLump v.visibility (rowSize v.numclusters) cluster which := by
  by_cases outside : cluster = -1
  · simp only [Served, RowInLump, clusterRow, if_pos outside]
    exact iff_of_true ⟨_, rfl, List.length_replicate⟩ (.inl outside)
  by_cases entry : 0 ≤ bitofsPlace cluster which ∧
      bitofsPlace cluster which + 4 ≤ v.visibility.length
  · have room : 0 < rowSize v.numclusters := by
      have place := entry.1
      simp only [bitofsPlace] at place
      simp only [rowSize]
      omega
    have loaded : v.visibility.length ≠ 0 := by omega
    simp only [Served, RowInLump, clusterRow, outside, if_false, bitofs, if_pos entry,
      Option.bind_eq_bind, Option.bind_some, cmDecompressVis, loaded, false_or]
    generalize int32At v.visibility (bitofsPlace cluster which).toNat = ofs
    by_cases negative : ofs < 0
    · rw [if_pos negative]
      constructor
      · rintro ⟨_, h, -⟩
        cases h
      · rintro ⟨-, -, offset, -⟩
        omega
    · rw [if_neg negative, decompress_iff room]
      exact ⟨fun coded => ⟨entry.1, entry.2, Int.not_lt.mp negative, coded⟩,
        fun inLump => inLump.2.2.2⟩
  · simp only [Served, RowInLump, clusterRow, if_neg outside, bitofs, if_neg entry]
    constructor
    · rintro ⟨_, h, -⟩
      cases h
    · rintro (h | ⟨place, inside, -⟩)
      · exact absurd h outside
      · exact absurd ⟨place, inside⟩ entry

/-! ## The lumps of a map -/

/-- The lump lies inside the bytes of the file. -/
def InsideFile (file : List UInt8) (i : Nat) : Prop :=
  0 ≤ fileofs file i ∧ 0 ≤ filelen file i ∧ fileofs file i + filelen file i ≤ file.length

theorem insideFile_iff {file : List UInt8} (intLength : file.length < 2147483648)
    (inBounds : lumpsInBounds file = true) {i : Nat} (lumps : i < numLumps) (used : i ≠ 16) :
    InsideFile file i ↔ fileofs file i + filelen file i < 2147483648 := by
  have each := List.all_eq_true.mp inBounds i (List.mem_range.mpr lumps)
  simp only [Bool.or_eq_true, beq_iff_eq, used, false_or, Bool.and_eq_true,
    decide_eq_true_eq] at each
  simp only [boundsSum] at each
  simp only [InsideFile]
  constructor
  · rintro ⟨-, -, inside⟩
    omega
  · intro noWrap
    omega

/-- A lump that the check lets pass is inside the file unless its bounds add up to more than an
`int` holds, and a row of a cluster is inside the visibility only if the file has put it there. -/
theorem loadedVisibility_iff {file : List UInt8} (intLength : file.length < 2147483648) :
    (lumpsInBounds file = true → ∀ i < numLumps, i ≠ 16 →
      (InsideFile file i ↔ fileofs file i + filelen file i < 2147483648)) ∧
    ∀ (w : Disk) (overridden : Bool) (name : List UInt8) (s t : State),
      loadFile w file overridden name s = .ok t → ∀ leaf ∈ t.tables.view.leafs,
        (Served t.tables.view (cmClusterPvs t.tables.view leaf.cluster) ↔
          RowInLump (((lump file 3).bytes).getD []) (rowSize t.tables.view.numclusters)
            leaf.cluster dvisPvs) ∧
        (Served t.tables.view (cmClusterPhs t.tables.view leaf.cluster) ↔
          RowInLump (((lump file 3).bytes).getD []) (rowSize t.tables.view.numclusters)
            leaf.cluster dvisPhs) := by
  constructor
  · exact fun inBounds i lumps used => insideFile_iff intLength inBounds lumps used
  · intro w overridden name s t h leaf leafs
    have counts := counts_loadFile h
    have known : leaf.cluster < t.tables.view.numclusters := by
      rw [counts.clusters]
      exact lt_countClusters leafs
    rw [← counts.visibility]
    exact ⟨served_iff known (Nat.zero_le 1), served_iff known (Nat.le_refl 1)⟩

private def intWord (n : Nat) : List UInt8 := [0, 8, 16, 24].map fun k => UInt8.ofNat (n / 2 ^ k)

/-- One of everything that a map needs, and two leafs in cluster 0. -/
private def clusterLump (visibility : List UInt8) : Nat → List UInt8
  | 1 => List.replicate 20 0
  | 3 => visibility
  | 4 => List.replicate 28 0
  | 5 => List.replicate 76 0
  | 8 => intWord 1 ++ List.replicate 52 0
  | 10 => List.replicate 2 0
  | 13 => List.replicate 48 0
  | _ => []

/-- Lump 2 is the one that no loader reads. -/
private def clusterBsp (visibility : List UInt8) (vertexes : Nat) : List UInt8 :=
  let content := clusterLump visibility
  let offset (i : Nat) : Nat := headerSize + ((List.range i).map fun j => (content j).length).sum
  intWord 0 ++ intWord 38 ++
    (List.range numLumps).flatMap (fun i =>
      if i = 2 then intWord vertexes ++ intWord vertexes
      else intWord (offset i) ++ intWord (content i).length) ++
    (List.range numLumps).flatMap content

private def noDisk : Disk := ⟨fun _ => none, fun _ => 0⟩

/-- Both rows of cluster 0 at byte 12. -/
private def rowsAtTwelve : List UInt8 := intWord 1 ++ intWord 12 ++ intWord 12

theorem loadedVisibility_iff_oneRow :
    let file := clusterBsp (rowsAtTwelve ++ [1]) 0
    ∃ t, loadFile noDisk file false [] initial = .ok t ∧
      (InsideFile file 2 ↔ fileofs file 2 + filelen file 2 < 2147483648) ∧
      ∀ leaf ∈ t.tables.view.leafs,
        (Served t.tables.view (cmClusterPvs t.tables.view leaf.cluster) ↔
          RowInLump (((lump file 3).bytes).getD []) (rowSize t.tables.view.numclusters)
            leaf.cluster dvisPvs) := by
  have completes : (loadFile noDisk (clusterBsp (rowsAtTwelve ++ [1]) 0) false [] initial).toBool =
      true := by
    decide +kernel
  obtain ⟨t, ht⟩ := exists_of_toBool completes
  obtain ⟨lumps, rows⟩ :=
    @loadedVisibility_iff (clusterBsp (rowsAtTwelve ++ [1]) 0) (by decide +kernel)
  exact ⟨t, ht, lumps (tables_of_loadFile ht).1 2 (by decide) (by decide),
    fun leaf leafs => (rows _ _ _ _ t ht leaf leafs).1⟩

/-- The rows are behind the last byte of the visibility, and lump 2 wraps around. -/
theorem crafted_map_loads :
    let file := clusterBsp rowsAtTwelve 2147483647
    ∃ t, loadFile noDisk file false [] initial = .ok t ∧ ¬InsideFile file 2 ∧
      ∃ leaf ∈ t.tables.view.leafs, cmClusterPvs t.tables.view leaf.cluster = none ∧
        cmClusterPhs t.tables.view leaf.cluster = none := by
  have completes : (loadFile noDisk (clusterBsp rowsAtTwelve 2147483647) false [] initial).toBool =
      true := by
    decide +kernel
  obtain ⟨t, ht⟩ := exists_of_toBool completes
  have visibility : t.tables.view.visibility = rowsAtTwelve := by
    rw [(counts_loadFile ht).visibility]
    decide +kernel
  obtain ⟨copies, -⟩ := copies_loadFile ht
  have clusters : (readLumps (clusterBsp rowsAtTwelve 2147483647)).leafs.map CLeaf.cluster =
      [0, 0] := by
    decide +kernel
  rw [← copies.leafs] at clusters
  have zero : (0 : Int) ∈ t.tables.view.leafs.map CLeaf.cluster := by
    rw [clusters]
    exact List.mem_cons_self
  obtain ⟨leaf, leafs, cluster⟩ := List.mem_map.mp zero
  refine ⟨t, ht, ?_, leaf, leafs, ?_⟩
  · have bounds : fileofs (clusterBsp rowsAtTwelve 2147483647) 2 +
        filelen (clusterBsp rowsAtTwelve 2147483647) 2 = 4294967294 := by
      decide +kernel
    have length : (clusterBsp rowsAtTwelve 2147483647).length < 1000 := by decide +kernel
    rintro ⟨-, -, inside⟩
    omega
  · simp only [cmClusterPvs, cmClusterPhs, clusterRow, cluster, visibility]
    constructor
    · rfl
    · rfl

end Visibility
