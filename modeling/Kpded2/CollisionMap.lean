import Kpded2.BspLoad
import Kpded2.Outcome
import Kpded2.StepRuns

/-!
# Loading a map, with overrides and a cache of one

`CM_LoadMap` as the KINGPIN build has it. A file "<map>.override" names another map in
its first line and replaces the entity string; the name that is remembered for the
next call is the one of the file that was read. The flood numbers of the areas, which
`FloodAreaConnections` works out from the area portals and `portalopen`, are left out.
-/
namespace CollisionMap

open Bytes BspLoad
open Outcome (bind_of_ok exists_of_bind_eq_ok)

def maxQpath : Nat := 64

/-- A name that fits a `MAX_QPATH` buffer. -/
abbrev QPath := { name : List UInt8 // name.length < maxQpath }

/-- The files, and the checksum of their contents. -/
structure Disk where
  file : List UInt8 → Option (List UInt8)
  blockChecksum : List UInt8 → UInt32

structure Request where
  name : QPath
  clientload : Bool
  flushmap : Bool
  developer : Bool

structure State where
  tables : Tables
  lastChecksum : UInt32
  mapName : List UInt8
  portalopen : Nat → Bool

/-- The first test of `CM_LoadMap`. -/
def rightVersion (s : State) (q : Request) : Bool :=
  s.mapName == q.name.val && (q.clientload || !q.flushmap)

/-- "free old stuff". -/
def freeOldStuff (s : State) : State :=
  { s with
    mapName := []
    tables := { s.tables with
      planes := { s.tables.planes with count := 0 }
      nodes := { s.tables.nodes with count := 0 }
      leafs := { s.tables.leafs with count := 0 }
      cmodels := { s.tables.cmodels with count := 0 }
      visibility := { s.tables.visibility with count := 0 }
      entitystring := ({ s.tables.entitystring with count := 0 }).behind [fun _ => 0] } }

/-- No map at all. -/
def nullMap (s : State) : State :=
  { s with
    lastChecksum := 0
    tables := { s.tables with
      leafs := { s.tables.leafs with count := 1 }
      areas := { s.tables.areas with count := 1 }
      numclusters := 1 } }

def overrideName (name : List UInt8) : List UInt8 := comSprintf maxQpath (name ++ ascii ".override")

def sourceName (source : List UInt8) : List UInt8 :=
  comSprintf maxQpath (ascii "maps/" ++ source ++ ascii ".bsp")

/-- The name of the source map and the entity string. A script without a newline is
searched for one behind its end. -/
def parseOverride (script : List UInt8) : Except (Stop Unit) (List UInt8 × List UInt8) :=
  if script = [] then .error (.drop ())
  else if script = ascii "/" then .error .fault
  else if ¬ ascii "//" <+: script then .error (.drop ())
  else
    let line := script.takeWhile fun c => c ≠ 13 && c ≠ 10 && c ≠ 0
    match script.drop line.length with
    | [] => .error .fault
    | 0 :: _ => .error (.drop ())
    | _ :: entities =>
      if entities = [] ∨ maxMapEntstring ≤ entities.length then .error (.drop ())
      else .ok (line.drop 2, entities)

def readOverride (w : Disk) (q : Request) :
    Except (Stop Unit) (List UInt8 × Option (List UInt8)) :=
  if q.clientload then .ok (q.name.val, none)
  else match w.file (overrideName q.name.val) with
    | none => .ok (q.name.val, none)
    | some script => do
      let (source, entities) ← parseOverride script
      return (sourceName source, some entities)

/-- `override_bits & 4`: the entity string of the override file. -/
def storeEntities (entities : Option (List UInt8)) (s : State) : State :=
  match entities with
  | none => s
  | some entities => { s with tables := { s.tables with
      entitystring := s.tables.entitystring.overwrite entities.length entities } }

/-- The sum of a lump's bounds is a 32 bit one. -/
def boundsSum (a b : Int) : Int := (a + b + 2147483648) % 4294967296 - 2147483648

def numLumps : Nat := 19
def headerSize : Nat := 160

def fileofs (file : List UInt8) (i : Nat) : Int := int32At file (8 + 8 * i)
def filelen (file : List UInt8) (i : Nat) : Int := int32At file (12 + 8 * i)

/-- Lump 16 is unused and not looked at. -/
def lumpsInBounds (file : List UInt8) : Bool :=
  (List.range numLumps).all fun i => i == 16 ||
    (fileofs file i ≥ 0 && filelen file i ≥ 0 &&
      boundsSum (fileofs file i) (filelen file i) ≤ file.length)

def bspversion : Int := 38

def lump (file : List UInt8) (i : Nat) : Lump :=
  lumpOf file (fileofs file i).toNat (filelen file i).toNat

/-- The loaders in the order of the source; the entities are not read if an override
has brought them. -/
def loadLumps (file : List UInt8) (overridden : Bool) (s : Tables) :
    Except (Stop Tables) Tables := do
  let s ← cmodLoadSurfaces (lump file 5) s
  let s ← cmodLoadLeafs (lump file 8) s
  let s ← cmodLoadLeafBrushes (lump file 10) s
  let s ← cmodLoadPlanes (lump file 1) s
  let s ← cmodLoadBrushes (lump file 14) s
  let s ← cmodLoadBrushSides (lump file 15) s
  let s ← cmodLoadSubmodels (lump file 13) s
  let s ← cmodLoadNodes (lump file 4) s
  let s ← cmodLoadAreas (lump file 17) s
  let s ← cmodLoadAreaPortals (lump file 18) s
  let s ← cmodLoadVisibility (lump file 3) s
  if overridden then return s else cmodLoadEntityString (lump file 0) s

def terminateEntities (s : Tables) : Tables :=
  if s.entitystring.count < maxMapEntstring then
    { s with entitystring := s.entitystring.behind [fun _ => 0] }
  else s

/-- From the file on. -/
def loadFile (w : Disk) (file : List UInt8) (overridden : Bool) (name : List UInt8) (s : State) :
    Except (Stop State) State :=
  let s := { s with lastChecksum := w.blockChecksum file }
  if file.length < headerSize then .error .fault
  else if ¬ lumpsInBounds file then .error (.drop s)
  else if int32At file 4 ≠ bspversion then .error (.drop s)
  else
    match loadLumps file overridden s.tables >>= fun t => cmInitBoxHull (terminateEntities t) with
    | .ok tables => .ok { s with tables, portalopen := fun _ => false, mapName := name }
    | .error (.drop tables) => .error (.drop { s with tables })
    | .error .fault => .error .fault

/-- `CM_LoadMap` past the first test. -/
def freshLoad (w : Disk) (q : Request) (s : State) : Except (Stop State) State :=
  let s := freeOldStuff s
  if q.name.val = [] then .ok (nullMap s)
  else match readOverride w q with
    | .error (.drop ()) => .error (.drop s)
    | .error .fault => .error .fault
    | .ok (name, entities) =>
      let s := storeEntities entities s
      match w.file name with
      | none => if q.developer && q.clientload then .ok (nullMap s) else .error (.drop s)
      | some file => loadFile w file entities.isSome name s

/-- The checksum that the caller gets is `lastChecksum`. -/
def cmLoadMap (w : Disk) (q : Request) (s : State) : Except (Stop State) State :=
  if rightVersion s q then
    .ok (if q.clientload then s else { s with portalopen := fun _ => false })
  else freshLoad w q s

/-! ## A load that completes does so from every state -/

theorem cmodLoadBrushSides_ok {l : Lump} {s t : Tables} (h : cmodLoadBrushSides l s = .ok t) :
    ∃ entries : List CBrushSide, ∀ s', s'.surfaces.count = s.surfaces.count →
      cmodLoadBrushSides l s' =
        .ok { s' with brushsides := s'.brushsides.overwrite entries.length entries } := by
  obtain ⟨entries, hentries⟩ := writes_of_ok h
  refine ⟨entries, fun s' hs' => ?_⟩
  rw [cmodLoadBrushSides, hs']
  exact hentries s'

theorem cmodLoadLeafs_ok {l : Lump} {s t : Tables} (h : cmodLoadLeafs l s = .ok t) :
    ∃ entries numclusters emptyleaf, ∀ s', cmodLoadLeafs l s' = .ok { s' with
      leafs := s'.leafs.overwrite entries.length entries, numclusters, emptyleaf } := by
  obtain ⟨u, hu, hcheck⟩ := exists_of_bind_eq_ok h
  obtain ⟨entries, hentries⟩ := writes_of_ok hu
  obtain rfl := Except.ok.inj ((hentries s).symm.trans hu)
  refine ⟨entries, t.numclusters, t.emptyleaf, fun s' => ?_⟩
  have hcheck' := (checkLeafs_ok hcheck
    { s' with leafs := s'.leafs.overwrite entries.length entries }
    ((Table.view_overwrite _ _).trans (Table.view_overwrite _ _).symm)).1
  simp only [cmodLoadLeafs, hentries s', bind, Except.bind]
  exact hcheck'

/-- What is read of the lumps does not depend on the tables before. -/
theorem loadLumps_ok {file : List UInt8} {overridden : Bool} {s t : Tables}
    (h : loadLumps file overridden s = .ok t) (s' : Tables)
    (hentities : overridden = true → s'.entitystring.view = s.entitystring.view) :
    ∃ t', loadLumps file overridden s' = .ok t' ∧ t'.view = t.view := by
  have hwhole := h
  obtain ⟨_, h1, h⟩ := exists_of_bind_eq_ok h
  obtain ⟨surfaces, hsurfaces⟩ := writes_of_ok h1
  obtain rfl := Except.ok.inj ((hsurfaces s).symm.trans h1)
  obtain ⟨_, h2, h⟩ := exists_of_bind_eq_ok h
  obtain ⟨leafs, numclusters, emptyleaf, hleafs⟩ := cmodLoadLeafs_ok h2
  obtain rfl := Except.ok.inj ((hleafs _).symm.trans h2)
  obtain ⟨_, h3, h⟩ := exists_of_bind_eq_ok h
  obtain ⟨leafbrushes, hleafbrushes⟩ := writes_of_ok h3
  obtain rfl := Except.ok.inj ((hleafbrushes _).symm.trans h3)
  obtain ⟨_, h4, h⟩ := exists_of_bind_eq_ok h
  obtain ⟨planes, hplanes⟩ := writes_of_ok h4
  obtain rfl := Except.ok.inj ((hplanes _).symm.trans h4)
  obtain ⟨_, h5, h⟩ := exists_of_bind_eq_ok h
  obtain ⟨brushes, hbrushes⟩ := writes_of_ok h5
  obtain rfl := Except.ok.inj ((hbrushes _).symm.trans h5)
  obtain ⟨_, h6, h⟩ := exists_of_bind_eq_ok h
  obtain ⟨brushsides, hbrushsides⟩ := cmodLoadBrushSides_ok h6
  obtain rfl := Except.ok.inj ((hbrushsides _ rfl).symm.trans h6)
  obtain ⟨_, h7, h⟩ := exists_of_bind_eq_ok h
  obtain ⟨cmodels, hcmodels⟩ := writes_of_ok h7
  obtain rfl := Except.ok.inj ((hcmodels _).symm.trans h7)
  obtain ⟨_, h8, h⟩ := exists_of_bind_eq_ok h
  obtain ⟨nodes, hnodes⟩ := writes_of_ok h8
  obtain rfl := Except.ok.inj ((hnodes _).symm.trans h8)
  obtain ⟨_, h9, h⟩ := exists_of_bind_eq_ok h
  obtain ⟨areas, hareas⟩ := writes_of_ok h9
  obtain rfl := Except.ok.inj ((hareas _).symm.trans h9)
  obtain ⟨_, h10, h⟩ := exists_of_bind_eq_ok h
  obtain ⟨areaportals, hareaportals⟩ := writes_of_ok h10
  obtain rfl := Except.ok.inj ((hareaportals _).symm.trans h10)
  obtain ⟨_, h11, h⟩ := exists_of_bind_eq_ok h
  obtain ⟨visibility, hvisibility⟩ := writes_of_loadBytes h11
  obtain rfl := Except.ok.inj ((hvisibility _).symm.trans h11)
  have hrun : ∀ u, loadLumps file overridden u =
      (if overridden then fun u => .ok u else cmodLoadEntityString (lump file 0))
      { u with
        surfaces := u.surfaces.overwrite surfaces.length surfaces
        leafs := u.leafs.overwrite leafs.length leafs
        leafbrushes := u.leafbrushes.overwrite leafbrushes.length leafbrushes
        planes := u.planes.overwrite planes.length planes
        brushes := u.brushes.overwrite brushes.length brushes
        brushsides := u.brushsides.overwrite brushsides.length brushsides
        cmodels := u.cmodels.overwrite cmodels.length cmodels
        nodes := u.nodes.overwrite nodes.length nodes
        areas := u.areas.overwrite areas.length areas
        areaportals := u.areaportals.overwrite areaportals.length areaportals
        visibility := u.visibility.overwrite visibility.length visibility
        numclusters, emptyleaf } := by
    intro u
    refine bind_of_ok (hsurfaces u) (bind_of_ok (hleafs _) (bind_of_ok (hleafbrushes _) ?_))
    refine bind_of_ok (hplanes _) (bind_of_ok (hbrushes _) (bind_of_ok (hbrushsides _ rfl) ?_))
    refine bind_of_ok (hcmodels _) (bind_of_ok (hnodes _) (bind_of_ok (hareas _) ?_))
    refine bind_of_ok (hareaportals _) (bind_of_ok (hvisibility _) ?_)
    cases overridden with
    | true => rfl
    | false => rfl
  cases overridden with
  | true =>
    refine ⟨_, hrun s', ?_⟩
    rw [← Except.ok.inj ((hrun s).symm.trans hwhole)]
    simp only [Tables.view, Table.view_overwrite, hentities rfl]
  | false =>
    simp only [Bool.false_eq_true, if_false] at hrun
    have hlast := (hrun s).symm.trans hwhole
    obtain ⟨entities, hread⟩ := writes_of_loadBytes hlast
    refine ⟨_, (hrun s').trans (hread _), ?_⟩
    rw [← Except.ok.inj ((hread _).symm.trans hlast)]
    simp only [Tables.view, Table.view_overwrite]

theorem view_terminateEntities (s : Tables) : (terminateEntities s).view = s.view := by
  simp only [terminateEntities]
  split
  · simp only [Tables.view, Table.view_behind]
  · rfl

/-- What a load leaves does not depend on what was loaded before. -/
theorem loadFile_ok {w : Disk} {file : List UInt8} {overridden : Bool} {name : List UInt8}
    {s t : State} (h : loadFile w file overridden name s = .ok t) (s' : State)
    (hentities : overridden = true → s'.tables.entitystring.view = s.tables.entitystring.view) :
    ∃ t', loadFile w file overridden name s' = .ok t' ∧ t'.tables.view = t.tables.view ∧
      t'.lastChecksum = t.lastChecksum ∧ t'.portalopen = t.portalopen := by
  simp only [loadFile] at h ⊢
  split at h
  · cases h
  split at h
  · cases h
  split at h
  · cases h
  rename_i hlength hbounds hversion
  rw [if_neg hlength, if_neg hbounds, if_neg hversion]
  cases hload : loadLumps file overridden s.tables >>= fun t => cmInitBoxHull (terminateEntities t) with
  | error e =>
    rw [hload] at h
    cases e with
    | drop left => cases h
    | fault => cases h
  | ok tables =>
    rw [hload] at h
    obtain ⟨u, hu, hhull⟩ := exists_of_bind_eq_ok hload
    obtain ⟨u', hu', hview⟩ := loadLumps_ok hu s'.tables hentities
    obtain ⟨hsame, hhull'⟩ := cmInitBoxHull_ok hhull
    obtain ⟨tables', htables', hview'⟩ := hhull' (terminateEntities u')
      (by rw [view_terminateEntities, view_terminateEntities, hview])
    rw [hu']
    simp only [bind, Except.bind, htables']
    refine ⟨_, rfl, ?_⟩
    rw [← Except.ok.inj h]
    refine ⟨?_, rfl, rfl⟩
    simp only [hview', hsame, view_terminateEntities, hview]

/-! ## The cache of one -/

structure Loaded where
  model : View
  checksum : UInt32
  portalopen : Nat → Bool

/-- The collision model with its entity string, and the checksum. -/
def State.loaded (s : State) : Loaded := ⟨s.tables.view, s.lastChecksum, s.portalopen⟩

/-- What a request comes to: a map file, with the entity string of an override or its own. -/
inductive Wanted
  | noMap
  | file (name : List UInt8) (entities : Option (List UInt8))
  | failure

def wanted (w : Disk) (q : Request) : Wanted :=
  if q.name.val = [] then .noMap
  else match readOverride w q with
    | .ok (name, entities) =>
      if w.file name = none ∧ (q.developer && q.clientload) then .noMap else .file name entities
    | .error _ => .failure

/-- `filled` is the request that the last load completed, if it did complete. -/
structure Run where
  state : State
  filled : Option Request

/-- A run ends at a fault. -/
def step (w : Disk) (run : Option Run) (q : Request) : Option Run := do
  let r ← run
  match cmLoadMap w q r.state with
  | .ok state => some { state, filled := if rightVersion r.state q then r.filled else some q }
  | .error (.drop state) => some { state, filled := none }
  | .error .fault => none

/-- If the cache is used, it was filled for the same file and entity string. -/
def AsksForTheSame (w : Disk) (run : Option Run) (q : Request) : Prop :=
  ∀ r, run = some r → rightVersion r.state q = true →
    ∃ filler, r.filled = some filler ∧ wanted w q = wanted w filler

/-- If the cache is used, it holds what a fresh load brings. -/
def RightVersion (w : Disk) (run : Option Run) (q : Request) : Prop :=
  ∀ r, run = some r → rightVersion r.state q = true →
    ∃ s t, cmLoadMap w q r.state = .ok s ∧ freshLoad w q r.state = .ok t ∧ s.loaded = t.loaded

theorem storeEntities_view (entities : Option (List UInt8)) (s s' : State)
    (h : entities.isSome = true) :
    (storeEntities entities s').tables.entitystring.view =
      (storeEntities entities s).tables.entitystring.view := by
  cases entities with
  | none => cases h
  | some entities => simp only [storeEntities, Table.view_overwrite]

theorem freshLoad_noMap {w : Disk} {q : Request} (h : wanted w q = .noMap) (s : State) :
    freshLoad w q s = .ok (nullMap (freeOldStuff s)) := by
  simp only [wanted] at h
  simp only [freshLoad]
  by_cases hname : q.name.val = []
  · rw [if_pos hname]
  rw [if_neg hname] at h ⊢
  cases hoverride : readOverride w q with
  | error e =>
    rw [hoverride] at h
    cases h
  | ok found =>
    obtain ⟨name, entities⟩ := found
    rw [hoverride] at h
    simp only at h ⊢
    split at h
    · rename_i hmissing
      have hclient : q.clientload = true := (Bool.and_eq_true_iff.mp hmissing.2).2
      simp only [readOverride, hclient, if_true] at hoverride
      obtain ⟨-, rfl⟩ := Prod.mk.inj (Except.ok.inj hoverride)
      rw [hmissing.1]
      simp only [if_pos hmissing.2, storeEntities]
    · cases h

/-- A first load of a file, step by step. -/
theorem freshLoad_file {w : Disk} {q : Request} {name : List UInt8} {entities : Option (List UInt8)}
    (h : wanted w q = .file name entities) (s : State) :
    freshLoad w q s = match w.file name with
      | none => .error (.drop (storeEntities entities (freeOldStuff s)))
      | some file =>
        loadFile w file entities.isSome name (storeEntities entities (freeOldStuff s)) := by
  simp only [wanted] at h
  simp only [freshLoad]
  by_cases hname : q.name.val = []
  · rw [if_pos hname] at h
    cases h
  rw [if_neg hname] at h ⊢
  cases hoverride : readOverride w q with
  | error e =>
    rw [hoverride] at h
    cases h
  | ok found =>
    rw [hoverride] at h
    simp only at h ⊢
    split at h
    · cases h
    rename_i hfound
    obtain ⟨rfl, rfl⟩ := Wanted.file.inj h
    cases hfile : w.file found.1 with
    | none =>
      have hstrict : ¬ (q.developer && q.clientload) = true := fun hlax => hfound ⟨hfile, hlax⟩
      simp only [if_neg hstrict]
    | some file => rfl

theorem freshLoad_failure {w : Disk} {q : Request} (h : wanted w q = .failure) (s t : State) :
    freshLoad w q s ≠ .ok t := by
  simp only [wanted] at h
  simp only [freshLoad]
  split at h
  · cases h
  rename_i hname
  rw [if_neg hname]
  cases hoverride : readOverride w q with
  | ok found =>
    rw [hoverride] at h
    simp only at h
    split at h
    · cases h
    · cases h
  | error e =>
    intro hok
    cases e with
    | drop left => cases hok
    | fault => cases hok

/-- Requests that come to the same load the same. -/
theorem freshLoad_congr {w : Disk} {q q' : Request} (h : wanted w q = wanted w q') {s t : State}
    (hload : freshLoad w q' s = .ok t) : freshLoad w q s = .ok t := by
  cases hwanted : wanted w q' with
  | noMap =>
    rw [freshLoad_noMap (h.trans hwanted), ← freshLoad_noMap hwanted]
    exact hload
  | file name entities =>
    rw [freshLoad_file (h.trans hwanted), ← freshLoad_file hwanted]
    exact hload
  | failure => exact absurd hload (freshLoad_failure hwanted s t)

/-- A load that is done again changes nothing. -/
theorem freshLoad_again {w : Disk} {q : Request} {s t : State} (h : freshLoad w q s = .ok t) :
    ∃ t', freshLoad w q t = .ok t' ∧ t'.loaded = t.loaded := by
  cases hwanted : wanted w q with
  | noMap =>
    rw [freshLoad_noMap hwanted] at h ⊢
    refine ⟨_, rfl, ?_⟩
    rw [← Except.ok.inj h]
    rfl
  | file name entities =>
    rw [freshLoad_file hwanted] at h ⊢
    cases hfile : w.file name with
    | none =>
      rw [hfile] at h
      cases h
    | some file =>
      rw [hfile] at h
      obtain ⟨t', ht', hmodel, hchecksum, hportals⟩ := loadFile_ok h
        (storeEntities entities (freeOldStuff t)) (storeEntities_view entities _ _)
      exact ⟨t', ht', by simp only [State.loaded, hmodel, hchecksum, hportals]⟩
  | failure => exact absurd h (freshLoad_failure hwanted s t)

structure Inv (w : Disk) (r : Run) : Prop where
  filled : ∀ filler, r.filled = some filler →
    ∃ t, freshLoad w filler r.state = .ok t ∧ t.loaded = r.state.loaded
  portals : r.state.portalopen = fun _ => false

/-- Every outcome but a fault leaves the portals as they were, or closed. -/
def KeepsPortals (s : State) : Except (Stop State) State → Prop
  | .ok t => t.portalopen = s.portalopen ∨ t.portalopen = fun _ => false
  | .error (.drop t) => t.portalopen = s.portalopen
  | .error .fault => True

theorem keepsPortals_loadFile (w : Disk) (file : List UInt8) (overridden : Bool) (name : List UInt8)
    (s : State) : KeepsPortals s (loadFile w file overridden name s) := by
  simp only [loadFile]
  split
  · exact trivial
  split
  · exact rfl
  split
  · exact rfl
  cases loadLumps file overridden s.tables >>= fun t => cmInitBoxHull (terminateEntities t) with
  | ok tables => exact Or.inr rfl
  | error e =>
    cases e with
    | drop left => exact rfl
    | fault => exact trivial

/-- A load leaves the portals as they were, or closes all of them. -/
theorem keepsPortals_freshLoad (w : Disk) (q : Request) (s : State) :
    KeepsPortals s (freshLoad w q s) := by
  cases hwanted : wanted w q with
  | noMap =>
    rw [freshLoad_noMap hwanted]
    exact Or.inl rfl
  | file name entities =>
    have hstore : (storeEntities entities (freeOldStuff s)).portalopen = s.portalopen := by
      cases entities with
      | none => rfl
      | some entities => rfl
    rw [freshLoad_file hwanted]
    cases w.file name with
    | none => exact hstore
    | some file =>
      have hkeeps := keepsPortals_loadFile w file entities.isSome name
        (storeEntities entities (freeOldStuff s))
      simp only [KeepsPortals, hstore] at hkeeps ⊢
      exact hkeeps
  | failure =>
    simp only [wanted] at hwanted
    simp only [freshLoad]
    split at hwanted
    · cases hwanted
    rename_i hname
    rw [if_neg hname]
    cases hoverride : readOverride w q with
    | ok found =>
      rw [hoverride] at hwanted
      simp only at hwanted
      split at hwanted
      · cases hwanted
      · cases hwanted
    | error e =>
      cases e with
      | drop left => exact rfl
      | fault => exact trivial

/-- A request that succeeds leaves what a first load would have left. -/
theorem inv_step {w : Disk} {r r' : Run} (h : Inv w r) (q : Request)
    (hstep : step w (some r) q = some r') : Inv w r' := by
  simp only [step, Option.bind_eq_bind, Option.bind_some] at hstep
  by_cases hcached : rightVersion r.state q = true
  · simp only [cmLoadMap, hcached, if_true] at hstep
    obtain rfl := Option.some.inj hstep
    have hsame : (if q.clientload then r.state else { r.state with portalopen := fun _ => false }) =
        r.state := by
      split
      · rfl
      · rw [← h.portals]
    rw [hsame]
    exact h
  · have hfresh : cmLoadMap w q r.state = freshLoad w q r.state := by
      simp only [cmLoadMap, hcached, Bool.false_eq_true, if_false]
    have hportals := keepsPortals_freshLoad w q r.state
    rw [hfresh] at hstep
    cases hload : freshLoad w q r.state with
    | ok state =>
      rw [hload] at hstep hportals
      obtain rfl := Option.some.inj hstep
      constructor
      · intro filler hfiller
        simp only [hcached, Bool.false_eq_true, if_false] at hfiller
        obtain rfl := Option.some.inj hfiller
        exact freshLoad_again hload
      · exact hportals.elim (fun heq => heq.trans h.portals) id
    | error e =>
      rw [hload] at hstep hportals
      cases e with
      | fault => cases hstep
      | drop left =>
        obtain rfl := Option.some.inj hstep
        constructor
        · intro filler hfiller
          cases hfiller
        · exact hportals.trans h.portals

/-- The static variables of the program. -/
def initial : State where
  tables :=
    { surfaces := ⟨0, fun _ => ⟨[], [], 0, 0⟩⟩
      leafs := ⟨1, fun _ => ⟨0, 0, 0, 0, 0⟩⟩
      leafbrushes := ⟨0, fun _ => 0⟩
      planes := ⟨0, fun _ => ⟨[0, 0, 0], 0, 0, 0⟩⟩
      brushes := ⟨0, fun _ => ⟨0, 0, 0⟩⟩
      brushsides := ⟨0, fun _ => ⟨0, none⟩⟩
      cmodels := ⟨0, fun _ => ⟨[], [], [], 0⟩⟩
      nodes := ⟨0, fun _ => ⟨0, (0, 0)⟩⟩
      areas := ⟨1, fun _ => ⟨0, 0⟩⟩
      areaportals := ⟨0, fun _ => ⟨0, 0⟩⟩
      visibility := ⟨0, fun _ => 0⟩
      entitystring := ⟨0, fun _ => 0⟩
      numclusters := 1
      emptyleaf := 0
      boxHeadnode := 0 }
  lastChecksum := 0
  mapName := []
  portalopen := fun _ => false

/-- The program starts without a map, as a request for none leaves it. -/
def start : Run where
  state := initial
  filled := some ⟨⟨[], by decide⟩, false, false, false⟩

/-- Nothing is loaded yet. -/
theorem inv_start (w : Disk) : Inv w start where
  filled := by
    intro filler hfiller
    obtain rfl := Option.some.inj hfiller
    exact ⟨_, freshLoad_noMap rfl initial, rfl⟩
  portals := rfl

def RunInv (w : Disk) (run : Option Run) : Prop := ∀ r, run = some r → Inv w r

/-- A run that has failed stays so, and one that has not keeps the invariant. -/
theorem runInv_step (w : Disk) (run : Option Run) (q : Request) (h : RunInv w run) :
    RunInv w (step w run q) := by
  intro r' hr'
  cases run with
  | none => cases hr'
  | some r => exact inv_step (h r rfl) q hr'

theorem rightVersion_of_asksForTheSame (w : Disk) (run : Option Run) (q : Request)
    (h : RunInv w run) (hsame : AsksForTheSame w run q) : RightVersion w run q := by
  intro r hr hcached
  obtain ⟨filler, hfilled, hwanted⟩ := hsame r hr hcached
  obtain ⟨t, ht, hloaded⟩ := (h r hr).filled filler hfilled
  have hhit : cmLoadMap w q r.state =
      .ok (if q.clientload then r.state else { r.state with portalopen := fun _ => false }) := by
    simp only [cmLoadMap, hcached, if_true]
  refine ⟨_, t, hhit, freshLoad_congr hwanted ht, ?_⟩
  rw [hloaded]
  split
  · rfl
  · rw [← (h r hr).portals]

/-- In every run in which the cache is only asked for what it was filled with, it holds
what a fresh load brings. -/
theorem allSteps_rightVersion (w : Disk) (requests : List Request)
    (same : StepRuns.AllSteps (step w) (AsksForTheSame w) (some start) requests) :
    StepRuns.AllSteps (step w) (RightVersion w) (some start) requests := by
  have hstart : RunInv w (some start) := by
    intro r hr
    rw [← Option.some.inj hr]
    exact inv_start w
  exact StepRuns.allSteps_of_invariant (runInv_step w) (rightVersion_of_asksForTheSame w) hstart same

/-! ## An override that names another map -/

private def word (n : Nat) : List UInt8 :=
  [0, 8, 16, 24].map fun k => UInt8.ofNat (n / 2 ^ k)

/-- One solid leaf, an empty one, and one of everything else that a map cannot be without. -/
private def exampleLump : Nat → List UInt8
  | 0 => ascii "own"
  | 1 => List.replicate 20 0
  | 4 => List.replicate 28 0
  | 5 => List.replicate 76 0
  | 8 => word 1 ++ List.replicate 52 0
  | 10 => List.replicate 2 0
  | 13 => List.replicate 48 0
  | _ => []

private def exampleBsp : List UInt8 :=
  let offset (i : Nat) : Nat := headerSize + ((List.range i).map fun j => (exampleLump j).length).sum
  word 0 ++ word 38 ++
    (List.range numLumps).flatMap (fun i => word (offset i) ++ word (exampleLump i).length) ++
    (List.range numLumps).flatMap exampleLump

private def exampleDisk : Disk where
  file name :=
    if name = ascii "maps/b.bsp" then some exampleBsp
    else if name = ascii "maps/a.bsp.override" then some (ascii "//b\nother")
    else none
  blockChecksum := fun _ => 7

private def requestOf (name : List UInt8) (h : name.length < maxQpath) : Request :=
  ⟨⟨name, h⟩, false, false, false⟩

private def exampleA : Request := requestOf (ascii "maps/a.bsp") (by decide)
private def exampleB : Request := requestOf (ascii "maps/b.bsp") (by decide)

private def entitiesOf : Except (Stop State) State → List UInt8
  | .ok s => s.tables.entitystring.view
  | .error _ => []

theorem example_completes : ∃ s, freshLoad exampleDisk exampleB initial = .ok s := by
  have completes : (freshLoad exampleDisk exampleB initial).toBool = true := by decide +kernel
  exact Outcome.exists_of_toBool completes

/-- The same map twice. -/
theorem allSteps_rightVersion_example :
    StepRuns.AllSteps (step exampleDisk) (RightVersion exampleDisk) (some start)
      [exampleB, exampleB] := by
  refine allSteps_rightVersion exampleDisk _ ⟨?_, ?_, trivial⟩
  · rintro r ⟨rfl⟩ hcached
    cases hcached
  · intro r hr _
    obtain ⟨s, hs⟩ := example_completes
    have hmiss : rightVersion start.state exampleB = false := rfl
    have hfilled : step exampleDisk (some start) exampleB = some ⟨s, some exampleB⟩ := by
      simp only [step, Option.bind_eq_bind, Option.bind_some, cmLoadMap, hmiss, Bool.false_eq_true,
        if_false, show freshLoad exampleDisk exampleB start.state = .ok s from hs]
    rw [hfilled] at hr
    rw [← Option.some.inj hr]
    exact ⟨exampleB, rfl, rfl⟩

theorem example_cached : ∃ r, step exampleDisk (some start) exampleA = some r ∧
    rightVersion r.state exampleB = true ∧
    entitiesOf (cmLoadMap exampleDisk exampleB r.state) = ascii "other" ∧
    entitiesOf (freshLoad exampleDisk exampleB r.state) = ascii "own" := by
  have hrun : ((step exampleDisk (some start) exampleA).map fun r =>
      (rightVersion r.state exampleB, entitiesOf (cmLoadMap exampleDisk exampleB r.state),
        entitiesOf (freshLoad exampleDisk exampleB r.state))) =
      some (true, ascii "other", ascii "own") := by
    decide +kernel
  obtain ⟨r, hr, hvalues⟩ := Option.map_eq_some_iff.mp hrun
  obtain ⟨hcached, hvalues⟩ := Prod.mk.inj hvalues
  exact ⟨r, hr, hcached, Prod.mk.inj hvalues⟩

/-- Map "b" after the override of map "a" that names it: "b" keeps the entities of the override. -/
theorem override_keeps_entities :
    ¬ StepRuns.AllSteps (step exampleDisk) (RightVersion exampleDisk) (some start)
      [exampleA, exampleB] := by
  rintro ⟨-, hright, -⟩
  obtain ⟨r, hr, hcached, hother, hown⟩ := example_cached
  obtain ⟨s, t, hs, ht, hloaded⟩ := hright r hr hcached
  rw [hs] at hother
  rw [ht] at hown
  have hsame : s.tables.entitystring.view = t.tables.entitystring.view :=
    congrArg (fun l : Loaded => l.model.entitystring) hloaded
  have hdistinct : ascii "other" ≠ ascii "own" := by decide
  exact hdistinct (hother.symm.trans (hsame.trans hown))

end CollisionMap
