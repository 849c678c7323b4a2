import Kpded2.BspLoad

/-!
# Loading a pak file

`FS_LoadPackFile` for files that end in `pak`: a header, and somewhere in the file a directory of
entries, each with the place of a file. A place is checked by its end alone, a sum of two 32-bit
numbers. The tree over the names, made of the same entries, is left out, and nothing is printed.
-/
namespace PackFiles
open Bytes BspLoad

def wordAt (bytes : List UInt8) (i : Nat) : UInt32 := UInt32.ofNat (uint32At bytes i)

/-- `IDPAKHEADER` -/
def idPakHeader : UInt32 := 0x4B434150

structure Header where
  ident : UInt32
  dirofs : UInt32
  dirlen : UInt32

def headerOf (file : List UInt8) : Header := ⟨wordAt file 0, wordAt file 4, wordAt file 8⟩

/-- `PACKFILE_NAMELEN` -/
def packfileNamelen : Nat := 56

/-- `sizeof(dpackfile_t)` -/
def entrySize : Nat := 64

/-- `packfile_t`, the name lowered. -/
structure PackFile where
  name : List UInt8
  filepos : UInt32
  filelen : UInt32
  deriving DecidableEq

def packFileOf (dinfo : List UInt8) : PackFile where
  name := ((dinfo.take packfileNamelen).takeWhile (· ≠ 0)).map toLower
  filepos := wordAt dinfo packfileNamelen
  filelen := wordAt dinfo (packfileNamelen + 4)

structure Pack where
  filename : List UInt8
  numfiles : Nat
  files : List PackFile
  deriving DecidableEq

def maxOspath : Nat := 128

/-- The fatal errors of `FS_LoadPackFile`, each with what its text shows beside the path. -/
inductive Fatal where
  | noHeader
  | notValid
  | dirlen (dirlen : UInt32)
  | readDirectory (dirofs dirlen : UInt32)
  | illegalOffset (name : List UInt8) (filepos pakLen : UInt32)
  deriving DecidableEq

/-- `file` is what `fopen` gives. A pack without entries is not an error, but there is no pack. -/
def fsLoadPackFile (packfile : List UInt8) (file : Option (List UInt8)) :
    Except Fatal (Option Pack) :=
  match file with
  | none => .ok none
  | some file =>
    let pakLen := UInt32.ofNat file.length
    let header := headerOf file
    if file.length < 12 then .error .noHeader
    else if header.ident ≠ idPakHeader then .error .notValid
    else if header.dirlen.toNat % entrySize ≠ 0 then .error (.dirlen header.dirlen)
    else
      let numpackfiles := header.dirlen.toNat / entrySize
      if numpackfiles = 0 then .ok none
      else
        let dinfo := (file.drop header.dirofs.toNat).take header.dirlen.toNat
        if dinfo.length ≠ header.dirlen.toNat then
          .error (.readDirectory header.dirofs header.dirlen)
        else
          let info := (records entrySize numpackfiles dinfo).map packFileOf
          match info.find? fun f => f.filepos + f.filelen ≥ pakLen with
          | some f => .error (.illegalOffset f.name f.filepos pakLen)
          | none => .ok (some ⟨packfile.take (maxOspath - 1), numpackfiles, info⟩)

/-! ## What belongs to a good pak -/

/-- The header is one of a pak, and its directory has entries and lies in the file. -/
structure ValidPak (file : List UInt8) : Prop where
  header : 12 ≤ file.length
  ident : (headerOf file).ident = idPakHeader
  whole : (headerOf file).dirlen.toNat % entrySize = 0
  entries : (headerOf file).dirlen ≠ 0
  inside : (headerOf file).dirofs.toNat + (headerOf file).dirlen.toNat ≤ file.length

def directory (file : List UInt8) : List PackFile :=
  let header := headerOf file
  (records entrySize (header.dirlen.toNat / entrySize)
    ((file.drop header.dirofs.toNat).take header.dirlen.toNat)).map packFileOf

/-- Where the bytes of an entry end. -/
def PackFile.fileEnd (f : PackFile) : Nat := f.filepos.toNat + f.filelen.toNat

def Inside (file : List UInt8) (f : PackFile) : Prop :=
  ∀ i, f.filepos.toNat ≤ i → i < f.fileEnd → i < file.length

/-- What the loader compares. -/
def Refused (file : List UInt8) (f : PackFile) : Prop :=
  file.length % 2 ^ 32 ≤ f.fileEnd % 2 ^ 32

instance (file : List UInt8) (f : PackFile) : Decidable (Refused file f) :=
  inferInstanceAs (Decidable (_ ≤ _))

theorem refused_iff (file : List UInt8) (f : PackFile) :
    f.filepos + f.filelen ≥ UInt32.ofNat file.length ↔ Refused file f := by
  simp only [ge_iff_le, UInt32.le_iff_toNat_le, UInt32.toNat_add, UInt32.toNat_ofNat', Refused,
    PackFile.fileEnd]

theorem inside_iff (file : List UInt8) (f : PackFile) :
    Inside file f ↔ f.filelen = 0 ∨ f.fileEnd ≤ file.length := by
  have hzero : f.filelen = 0 ↔ f.filelen.toNat = 0 := by
    rw [← UInt32.toNat_inj]
    rfl
  rw [hzero]
  constructor
  · intro inside
    by_cases hlen : f.filelen.toNat = 0
    · exact Or.inl hlen
    · have hlast := inside (f.fileEnd - 1) (by simp only [PackFile.fileEnd]; omega)
        (by simp only [PackFile.fileEnd]; omega)
      exact Or.inr (by omega)
  · rintro (hlen | hend) i hlo hhi
    · simp only [PackFile.fileEnd] at hhi
      omega
    · omega

/-- The loader goes through a valid pak to its end. -/
theorem fsLoadPackFile_of_valid (packfile : List UInt8) {file : List UInt8}
    (valid : ValidPak file) :
    fsLoadPackFile packfile (some file) =
      match (directory file).find? fun f => f.filepos + f.filelen ≥ UInt32.ofNat file.length with
      | some f => .error (.illegalOffset f.name f.filepos (UInt32.ofNat file.length))
      | none => .ok (some ⟨packfile.take (maxOspath - 1),
          (headerOf file).dirlen.toNat / entrySize, directory file⟩) := by
  have hcount : (headerOf file).dirlen.toNat / entrySize ≠ 0 := by
    have hpos : (headerOf file).dirlen.toNat ≠ 0 := fun h => valid.entries (UInt32.toNat_inj.mp h)
    have hwhole := valid.whole
    simp only [entrySize] at hwhole ⊢
    omega
  have hread : ((file.drop (headerOf file).dirofs.toNat).take
      (headerOf file).dirlen.toNat).length = (headerOf file).dirlen.toNat := by
    have hinside := valid.inside
    rw [List.length_take, List.length_drop]
    omega
  have hheader := valid.header
  simp only [fsLoadPackFile, if_neg (show ¬file.length < 12 by omega), valid.ident, ne_eq,
    not_true_eq_false, if_false, valid.whole, hcount, hread]
  rfl

/-- A pack is loaded only from a valid file. -/
theorem fsLoadPackFile_valid {packfile : List UInt8} {file : List UInt8} {pack : Pack}
    (loaded : fsLoadPackFile packfile (some file) = .ok (some pack)) : ValidPak file := by
  simp only [fsLoadPackFile] at loaded
  split at loaded
  · cases loaded
  rename_i header
  split at loaded
  · cases loaded
  rename_i ident
  split at loaded
  · cases loaded
  rename_i whole
  split at loaded
  · cases loaded
  rename_i count
  split at loaded
  · cases loaded
  rename_i read
  refine ⟨by omega, not_not.mp ident, not_not.mp whole, ?_, ?_⟩
  · intro hzero
    rw [hzero] at count
    exact count rfl
  · have hlength := not_not.mp read
    have hpos : (headerOf file).dirlen.toNat ≠ 0 := by
      intro hzero
      rw [hzero] at count
      exact count rfl
    rw [List.length_take, List.length_drop] at hlength
    omega

theorem fsLoadPackFile_eq_some_iff (packfile file : List UInt8) :
    (∃ pack, fsLoadPackFile packfile (some file) = .ok (some pack)) ↔
      ValidPak file ∧ ∀ f ∈ directory file, ¬Refused file f := by
  constructor
  · rintro ⟨pack, loaded⟩
    have valid := fsLoadPackFile_valid loaded
    refine ⟨valid, fun f hf => ?_⟩
    rw [fsLoadPackFile_of_valid packfile valid] at loaded
    split at loaded
    · cases loaded
    rename_i hnone
    intro refused
    exact List.find?_eq_none.mp hnone f hf (decide_eq_true ((refused_iff file f).mpr refused))
  · rintro ⟨valid, accepted⟩
    rw [fsLoadPackFile_of_valid packfile valid]
    have hnone : (directory file).find?
        (fun f => f.filepos + f.filelen ≥ UInt32.ofNat file.length) = none := by
      refine List.find?_eq_none.mpr fun f hf htrue => ?_
      exact accepted f hf ((refused_iff file f).mp (of_decide_eq_true htrue))
    rw [hnone]
    exact ⟨_, rfl⟩

theorem files_of_loaded {packfile file : List UInt8} {pack : Pack}
    (loaded : fsLoadPackFile packfile (some file) = .ok (some pack)) :
    pack.files = directory file := by
  rw [fsLoadPackFile_of_valid packfile (fsLoadPackFile_valid loaded)] at loaded
  split at loaded
  · cases loaded
  · cases loaded
    rfl

/-! ## Which paks are judged rightly -/

/-- What is wanted of the loader for one content: a pack means that all bytes of the entries are
there, and a good pak gives a pack. -/
structure Judged (file : List UInt8) : Prop where
  sound : ∀ packfile pack, fsLoadPackFile packfile (some file) = .ok (some pack) →
    ∀ f ∈ pack.files, Inside file f
  complete : ValidPak file → (∀ f ∈ directory file, Inside file f) →
    ∀ packfile, ∃ pack, fsLoadPackFile packfile (some file) = .ok (some pack)

/-- The entry ends past the file, at a number that 32 bits do not hold. -/
def Wraps (file : List UInt8) (f : PackFile) : Prop :=
  file.length < f.fileEnd ∧ 2 ^ 32 ≤ f.fileEnd

/-- The entry ends with the file, or is empty and stands there or further on. The length of a file
of 4 GiB or more is itself compared modulo 2^32. -/
def AtEnd (file : List UInt8) (f : PackFile) : Prop :=
  if file.length < 2 ^ 32 then
    f.fileEnd = file.length ∨ (f.filelen = 0 ∧ file.length ≤ f.filepos.toNat)
  else Refused file f

/-- A wrapped end is not the only fault of the pak, and an entry at the end of the file does not
stand in a pak without fault. -/
structure Plain (file : List UInt8) : Prop where
  wraps : (∃ f ∈ directory file, Wraps file f) → ∃ f ∈ directory file, Refused file f
  atEnd : (∃ f ∈ directory file, AtEnd file f) → ∃ f ∈ directory file, ¬Inside file f

theorem fileEnd_of_empty {f : PackFile} (empty : f.filelen = 0) :
    f.fileEnd = f.filepos.toNat := by
  rw [PackFile.fileEnd, empty]
  rfl

theorem Wraps.not_inside {file : List UInt8} {f : PackFile} (wraps : Wraps file f) :
    ¬Inside file f := by
  intro inside
  rcases (inside_iff file f).mp inside with empty | hend
  · have hpos := f.filepos.toNat_lt
    have hend := fileEnd_of_empty empty
    have hwrap := wraps.2
    omega
  · exact Nat.not_lt_of_le hend wraps.1

/-- An entry past the end is refused, unless its end wraps around. -/
theorem wraps_or_refused {file : List UInt8} {f : PackFile} (outside : ¬Inside file f) :
    Wraps file f ∨ Refused file f := by
  have hpast : file.length < f.fileEnd := by
    by_contra hle
    exact outside ((inside_iff file f).mpr (Or.inr (Nat.le_of_not_lt hle)))
  by_cases hwrap : 2 ^ 32 ≤ f.fileEnd
  · exact Or.inl ⟨hpast, hwrap⟩
  · refine Or.inr ?_
    have hmod := Nat.mod_le file.length (2 ^ 32)
    rw [Refused, Nat.mod_eq_of_lt (Nat.lt_of_not_le hwrap)]
    omega

theorem AtEnd.refused {file : List UInt8} {f : PackFile} (atEnd : AtEnd file f) :
    Refused file f := by
  rw [AtEnd] at atEnd
  split at atEnd
  · rename_i hsmall
    rw [Refused]
    rcases atEnd with hend | ⟨empty, hpos⟩
    · rw [hend]
    · have hlt := f.filepos.toNat_lt
      rw [fileEnd_of_empty empty, Nat.mod_eq_of_lt hsmall, Nat.mod_eq_of_lt hlt]
      exact hpos
  · exact atEnd

theorem atEnd_of_refused {file : List UInt8} {f : PackFile} (inside : Inside file f)
    (refused : Refused file f) : AtEnd file f := by
  rw [AtEnd]
  split
  · rename_i hsmall
    rw [Refused, Nat.mod_eq_of_lt hsmall] at refused
    rcases (inside_iff file f).mp inside with empty | hend
    · have hlt := f.filepos.toNat_lt
      rw [fileEnd_of_empty empty, Nat.mod_eq_of_lt hlt] at refused
      exact Or.inr ⟨empty, refused⟩
    · rw [Nat.mod_eq_of_lt (Nat.lt_of_le_of_lt hend hsmall)] at refused
      exact Or.inl (Nat.le_antisymm hend refused)
  · exact refused

/-- A pak is judged rightly exactly if it is not a valid one, or none of its entries has an end
that the comparison gets wrong in a way that counts. -/
theorem judged_iff (file : List UInt8) : Judged file ↔ (ValidPak file → Plain file) := by
  constructor
  · intro judged valid
    have loads (accepted : ∀ f ∈ directory file, ¬Refused file f) :=
      (fsLoadPackFile_eq_some_iff [] file).mpr ⟨valid, accepted⟩
    constructor
    · rintro ⟨f, hf, wraps⟩
      by_contra none
      obtain ⟨pack, loaded⟩ := loads fun g hg refused => none ⟨g, hg, refused⟩
      rw [← files_of_loaded loaded] at hf
      exact wraps.not_inside (judged.sound [] pack loaded f hf)
    · rintro ⟨f, hf, atEnd⟩
      by_contra none
      have inside : ∀ g ∈ directory file, Inside file g := by
        intro g hg
        by_contra outside
        exact none ⟨g, hg, outside⟩
      have loaded := judged.complete valid inside []
      exact ((fsLoadPackFile_eq_some_iff [] file).mp loaded).2 f hf atEnd.refused
  · intro plain
    constructor
    · intro packfile pack loaded f hf
      obtain ⟨valid, accepted⟩ := (fsLoadPackFile_eq_some_iff packfile file).mp ⟨pack, loaded⟩
      rw [files_of_loaded loaded] at hf
      by_contra outside
      rcases wraps_or_refused outside with wraps | refused
      · obtain ⟨g, hg, refused⟩ := (plain valid).wraps ⟨f, hf, wraps⟩
        exact accepted g hg refused
      · exact accepted f hf refused
    · intro valid inside packfile
      refine (fsLoadPackFile_eq_some_iff packfile file).mpr ⟨valid, fun f hf refused => ?_⟩
      obtain ⟨g, hg, outside⟩ :=
        (plain valid).atEnd ⟨f, hf, atEnd_of_refused (inside f hf) refused⟩
      exact outside (inside g hg)

/-- A pak with the directory right behind the header, and one entry. -/
def onePak (filepos filelen : List UInt8) : List UInt8 :=
  [80, 65, 67, 75, 12, 0, 0, 0, 64, 0, 0, 0] ++ (97 :: List.replicate 55 0) ++ filepos ++ filelen

/-- An entry of two bytes at 2^32 - 1 is accepted in a file of 76 bytes, and one that is the file
itself is refused. -/
theorem ends_misjudged :
    ¬Judged (onePak [255, 255, 255, 255] [2, 0, 0, 0]) ∧
      ¬Judged (onePak [0, 0, 0, 0] [76, 0, 0, 0]) := by
  constructor
  · intro judged
    have loaded : fsLoadPackFile [] (some (onePak [255, 255, 255, 255] [2, 0, 0, 0])) =
        .ok (some ⟨[], 1, [⟨[97], 4294967295, 2⟩]⟩) := by decide +kernel
    have inside := judged.sound [] _ loaded ⟨[97], 4294967295, 2⟩ List.mem_cons_self
    exact absurd (inside 4294967295 (by decide +kernel) (by decide +kernel)) (by decide +kernel)
  · intro judged
    have valid : ValidPak (onePak [0, 0, 0, 0] [76, 0, 0, 0]) := by
      constructor <;> decide +kernel
    have entries : directory (onePak [0, 0, 0, 0] [76, 0, 0, 0]) = [⟨[97], 0, 76⟩] := by
      decide +kernel
    have inside : ∀ f ∈ directory (onePak [0, 0, 0, 0] [76, 0, 0, 0]),
        Inside (onePak [0, 0, 0, 0] [76, 0, 0, 0]) f := by
      rw [entries]
      intro f hf
      rw [List.mem_singleton.mp hf, inside_iff]
      exact Or.inr (by decide +kernel)
    obtain ⟨pack, loaded⟩ := judged.complete valid inside []
    have refused : fsLoadPackFile [] (some (onePak [0, 0, 0, 0] [76, 0, 0, 0])) =
        .error (.illegalOffset [97] 0 76) := by decide +kernel
    rw [refused] at loaded
    cases loaded

end PackFiles
