import Mathlib.Data.List.Perm.Basic
import Kpded2.Downloads
import Kpded2.Outcome

/-!
# References to cache entries

The count of an entry is the number of clients whose download uses it. What the functions of the
cache need is a count for each address; what those of a client need is the count for the others.
-/
namespace DownloadReferences
open DownloadCache Downloads Outcome

/-! ## Counts -/

structure Counted (count : Nat → Nat) (downloads : List Entry) : Prop where
  nodup : (addresses downloads).Nodup
  refc : ∀ d ∈ downloads, d.refc = count d.address
  present : ∀ a, count a ≠ 0 → a ∈ addresses downloads

/-- The entry is the same, and has not been restarted. -/
structure Same (d d' : Entry) : Prop where
  address : d'.address = d.address
  name : d'.name = d.name
  mtime : d'.mtime = d.mtime
  size : d'.size = d.size
  offset : d'.offset = d.offset
  running : d'.running = true → d.running = true
  compsize : d.running = false → d'.compsize = d.compsize

/-- Entries that are in use by others stay. -/
def Kept (others : Nat → Nat) (downloads downloads' : List Entry) : Prop :=
  ∀ d ∈ downloads, others d.address ≠ 0 → ∃ d' ∈ downloads', Same d d'

variable {count others : Nat → Nat} {downloads downloads' : List Entry} {a : Nat} {d : Entry}

theorem Same.refl (d : Entry) : Same d d := ⟨rfl, rfl, rfl, rfl, rfl, id, fun _ => rfl⟩

theorem Same.trans {d d' d'' : Entry} (h : Same d d') (k : Same d' d'') : Same d d'' where
  address := k.address.trans h.address
  name := k.name.trans h.name
  mtime := k.mtime.trans h.mtime
  size := k.size.trans h.size
  offset := k.offset.trans h.offset
  running := fun running => h.running (k.running running)
  compsize := fun ended => (k.compsize (by
    by_contra running
    exact absurd (h.running (Bool.eq_true_of_not_eq_false running)) (ended ▸ Bool.false_ne_true))).trans
    (h.compsize ended)

theorem Kept.refl (others : Nat → Nat) (downloads : List Entry) : Kept others downloads downloads :=
  fun d hd _ => ⟨d, hd, Same.refl d⟩

theorem Kept.trans {l m n : List Entry} (h : Kept others l m) (k : Kept others m n) :
    Kept others l n := by
  intro d hd used
  obtain ⟨d', hd', same⟩ := h d hd used
  obtain ⟨d'', hd'', same'⟩ := k d' hd' (by rwa [same.address])
  exact ⟨d'', hd'', same.trans same'⟩

theorem mem_addresses : a ∈ addresses downloads ↔ ∃ d ∈ downloads, d.address = a := List.mem_map

theorem entryAt_of_mem (h : a ∈ addresses downloads) : ∃ d ∈ downloads, d.address = a ∧
    entryAt downloads a = .ok d := by
  obtain ⟨d, hd, same⟩ := mem_addresses.mp h
  cases found : find downloads a with
  | none =>
    have different := List.find?_eq_none.mp found d hd
    simp [same] at different
  | some e =>
    have address := List.find?_some found
    refine ⟨e, List.mem_of_find?_eq_some found, by simpa using address, ?_⟩
    simp only [entryAt, found]

/-- Entries are changed, but neither their addresses nor their counts. -/
theorem Counted.map (h : Counted count downloads) {f : Entry → Entry}
    (address : ∀ d, (f d).address = d.address) (refc : ∀ d, (f d).refc = d.refc) :
    Counted count (downloads.map f) := by
  have same : addresses (downloads.map f) = addresses downloads := by
    simp only [addresses, List.map_map]
    exact List.map_congr_left fun d _ => address d
  constructor
  · rw [same]
    exact h.nodup
  · intro d hd
    obtain ⟨e, he, rfl⟩ := List.mem_map.mp hd
    rw [refc, address]
    exact h.refc e he
  · intro a used
    rw [same]
    exact h.present a used

theorem Kept.map {f : Entry → Entry} (same : ∀ d, Same d (f d)) :
    Kept others downloads (downloads.map f) :=
  fun d hd _ => ⟨f d, List.mem_map_of_mem hd, same d⟩

theorem same_settle (d : Entry) : Same d (settle d) := by
  simp only [settle, finish]
  split
  · split
    · exact Same.refl d
    · exact ⟨rfl, rfl, rfl, rfl, rfl, id, fun _ => rfl⟩
  · exact Same.refl d

theorem refc_settle (d : Entry) : (settle d).refc = d.refc := by
  simp only [settle, finish]
  split
  · split <;> rfl
  · rfl

theorem same_endThread (result : Option (List UInt8)) (d : Entry) :
    Same d (endThread result d) ∧ (endThread result d).refc = d.refc := by
  simp only [endThread]
  split
  · rename_i running
    have busy : d.running = false → ∀ n : Nat, n = d.compsize :=
      fun ended => absurd (ended.symm.trans running) Bool.false_ne_true
    split
    · exact ⟨⟨rfl, rfl, rfl, rfl, rfl, fun _ => running, fun ended => busy ended _⟩, rfl⟩
    · exact ⟨⟨rfl, rfl, rfl, rfl, rfl, fun _ => running, fun _ => rfl⟩, rfl⟩
  · exact ⟨Same.refl d, rfl⟩

theorem same_update {f : Entry → Entry} (h : ∀ d, Same d (f d) ∧ (f d).refc = d.refc) (a : Nat) :
    ∀ d : Entry, Same d (if d.address = a then f d else d) ∧
      (if d.address = a then f d else d).refc = d.refc := by
  intro d
  split
  · exact h d
  · exact ⟨Same.refl d, rfl⟩

theorem Counted.update (h : Counted count downloads) {f : Entry → Entry}
    (same : ∀ d, Same d (f d) ∧ (f d).refc = d.refc) (a : Nat) :
    Counted count (update a f downloads) :=
  h.map (fun d => (same_update same a d).1.address) fun d => (same_update same a d).2

theorem Kept.update {f : Entry → Entry} (same : ∀ d, Same d (f d) ∧ (f d).refc = d.refc) (a : Nat) :
    Kept others downloads (update a f downloads) :=
  Kept.map fun d => (same_update same a d).1

/-- An entry that is used is not cleared. -/
theorem Counted.clear (h : Counted count downloads) : Counted count (clearCachedDownloads downloads) ∧
    Kept count downloads (clearCachedDownloads downloads) := by
  have stays : ∀ d ∈ downloads, count d.address ≠ 0 → d ∈ clearCachedDownloads downloads := by
    intro d hd used
    refine List.mem_filter.mpr ⟨hd, ?_⟩
    have := h.refc d hd
    simp only [ne_eq, decide_not, Bool.not_eq_true', decide_eq_false_iff_not]
    omega
  refine ⟨⟨?_, ?_, ?_⟩, fun d hd used => ⟨d, stays d hd used, Same.refl d⟩⟩
  · exact (List.filter_sublist.map _).nodup h.nodup
  · exact fun d hd => h.refc d (List.mem_of_mem_filter hd)
  · intro a used
    obtain ⟨d, hd, rfl⟩ := mem_addresses.mp (h.present a used)
    exact mem_addresses.mpr ⟨d, stays d hd used, rfl⟩

/-! ## Acquiring and releasing -/

variable {front back : List Entry} {d' : Entry} {n : Nat}

theorem addresses_ne (h : Counted count (front ++ d :: back)) :
    ∀ e ∈ front ++ back, e.address ≠ d.address := by
  have nodup := h.nodup
  rw [addresses, List.map_append, List.map_cons, List.nodup_middle] at nodup
  intro e he same
  refine (List.nodup_cons.mp nodup).1 ?_
  rw [← List.map_append]
  exact List.mem_map.mpr ⟨e, he, same⟩

theorem refc_others (h : Counted count (front ++ d :: back)) {e : Entry} (he : e ∈ front ++ back) :
    e.refc = Function.update count d.address n e.address := by
  rw [Function.update_of_ne (addresses_ne h e he)]
  refine h.refc e ?_
  rcases List.mem_append.mp he with he | he
  · exact List.mem_append_left _ he
  · exact List.mem_append_right _ (List.mem_cons_of_mem d he)

/-- The count of one entry changes. -/
theorem Counted.replace (h : Counted count (front ++ d :: back)) (same : d'.address = d.address)
    (refc : d'.refc = n) :
    Counted (Function.update count d.address n) (front ++ d' :: back) := by
  have kept : addresses (front ++ d' :: back) = addresses (front ++ d :: back) := by
    simp only [addresses, List.map_append, List.map_cons, same]
  refine ⟨?_, fun e he => ?_, fun b hb => ?_⟩
  · rw [kept]
    exact h.nodup
  · rcases List.mem_append.mp he with he | he
    · exact refc_others h (List.mem_append_left _ he)
    · rcases List.mem_cons.mp he with rfl | he
      · rw [same, Function.update_self, refc]
      · exact refc_others h (List.mem_append_right _ he)
  · rw [kept]
    by_cases hbd : b = d.address
    · rw [hbd]
      exact List.mem_map_of_mem (List.mem_append_right _ List.mem_cons_self)
    · rw [Function.update_of_ne hbd] at hb
      exact h.present b hb

/-- An entry that is no longer used is freed. -/
theorem Counted.remove (h : Counted count (front ++ d :: back)) :
    Counted (Function.update count d.address 0) (front ++ back) := by
  refine ⟨?_, fun e he => refc_others h he, fun b hb => ?_⟩
  · have nodup := h.nodup
    rw [addresses, List.map_append, List.map_cons, List.nodup_middle, ← List.map_append] at nodup
    exact (List.nodup_cons.mp nodup).2
  · by_cases hbd : b = d.address
    · rw [hbd, Function.update_self] at hb
      exact absurd rfl hb
    · rw [Function.update_of_ne hbd] at hb
      obtain ⟨e, he, rfl⟩ := mem_addresses.mp (h.present b hb)
      refine mem_addresses.mpr ⟨e, ?_, rfl⟩
      rcases List.mem_append.mp he with he | he
      · exact List.mem_append_left _ he
      · rcases List.mem_cons.mp he with rfl | he
        · exact absurd rfl hbd
        · exact List.mem_append_right _ he

theorem Kept.replace (same : others d.address ≠ 0 → Same d d') :
    Kept others (front ++ d :: back) (front ++ d' :: back) := by
  intro e he used
  rcases List.mem_append.mp he with he | he
  · exact ⟨e, List.mem_append_left _ he, Same.refl e⟩
  · rcases List.mem_cons.mp he with rfl | he
    · exact ⟨d', List.mem_append_right _ List.mem_cons_self, same used⟩
    · exact ⟨e, List.mem_append_right _ (List.mem_cons_of_mem _ he), Same.refl e⟩

theorem Kept.remove (unused : others d.address = 0) :
    Kept others (front ++ d :: back) (front ++ back) := by
  intro e he used
  rcases List.mem_append.mp he with he | he
  · exact ⟨e, List.mem_append_left _ he, Same.refl e⟩
  · rcases List.mem_cons.mp he with rfl | he
    · exact absurd unused used
    · exact ⟨e, List.mem_append_right _ he, Same.refl e⟩

theorem exists_split (h : a ∈ addresses downloads) :
    ∃ front d back, downloads = front ++ d :: back ∧ d.address = a ∧ a ∉ addresses front := by
  induction downloads with
  | nil => cases h
  | cons e rest ih =>
    by_cases same : e.address = a
    · exact ⟨[], e, rest, rfl, same, List.not_mem_nil⟩
    · rcases List.mem_cons.mp h with rfl | hmem
      · exact absurd rfl same
      obtain ⟨front, d, back, rfl, address, fresh⟩ := ih hmem
      refine ⟨e :: front, d, back, rfl, address, fun hmem => ?_⟩
      rcases List.mem_cons.mp hmem with rfl | hmem
      · exact same rfl
      · exact fresh hmem

theorem releaseCachedDownload_append (fresh : a ∉ addresses front) (same : d.address = a) :
    releaseCachedDownload a (front ++ d :: back) = front ++
      if d.refc - 1 = 0 ∧ d.compbuf.isSome ∧ d.offset ≠ 0 then back
      else { d with refc := d.refc - 1 } :: back := by
  induction front with
  | nil =>
    simp only [List.nil_append, releaseCachedDownload, if_pos same]
  | cons e front ih =>
    have different : e.address ≠ a := fun same => fresh (same ▸ List.mem_cons_self)
    rw [List.cons_append, releaseCachedDownload, if_neg different,
      ih fun hmem => fresh (List.mem_cons_of_mem _ hmem)]
    rfl

/-- One user less. -/
theorem Counted.release (h : Counted count downloads) (used : count a ≠ 0) :
    Counted (Function.update count a (count a - 1)) (releaseCachedDownload a downloads) ∧
      ∀ others : Nat → Nat, others a < count a →
        Kept others downloads (releaseCachedDownload a downloads) := by
  obtain ⟨front, d, back, rfl, rfl, fresh⟩ := exists_split (h.present a used)
  have refc : d.refc = count d.address := h.refc d (List.mem_append_right _ List.mem_cons_self)
  rw [releaseCachedDownload_append fresh rfl]
  split
  · rename_i freed
    have last : count d.address - 1 = 0 := by omega
    rw [last]
    refine ⟨h.remove, fun others fewer => Kept.remove ?_⟩
    omega
  · refine ⟨h.replace rfl ?_, fun others _ => Kept.replace fun _ => ⟨rfl, rfl, rfl, rfl, rfl, id, fun _ => rfl⟩⟩
    change d.refc - 1 = _
    omega

/-- What the loop of `NewCachedDownload` returns. -/
theorem lookup_spec {w : Wanted} {r : Option Nat × List Entry} (h : lookup w downloads = some r) :
    (r.1 = none ∧ r.2 = downloads) ∨ ∃ front d back, downloads = front ++ d :: back ∧
      r.1 = some d.address ∧ (r.2 = front ++ share d :: back ∨
        (r.2 = front ++ restart w d :: back ∧ d.refc = 0)) := by
  induction downloads generalizing r with
  | nil => cases h
  | cons e rest ih =>
    simp only [lookup] at h
    split at h
    · obtain ⟨r', found, rfl⟩ := Option.map_eq_some_iff.mp h
      rcases ih found with ⟨none, same⟩ | ⟨front, d, back, rfl, address, result⟩
      · exact .inl ⟨none, congrArg _ same⟩
      · refine .inr ⟨e :: front, d, back, rfl, address, ?_⟩
        exact result.imp (congrArg _) fun restarted => ⟨congrArg _ restarted.1, restarted.2⟩
    · cases h
      exact .inr ⟨[], e, rest, rfl, rfl, .inl rfl⟩
    · rename_i restarts
      cases h
      refine .inr ⟨[], e, rest, rfl, rfl, .inr ⟨rfl, ?_⟩⟩
      simp only [visit] at restarts
      split at restarts
      · cases restarts
      split at restarts
      · split at restarts
        · split at restarts
          · cases restarts
          · split at restarts
            · rename_i unused
              exact unused.1
            · cases restarts
        · cases restarts
      · split at restarts
        · split at restarts <;> cases restarts
        · cases restarts
    · cases h
      exact .inl ⟨rfl, rfl⟩

/-- The counts with one user more, if an entry was found. -/
def acquire (count : Nat → Nat) : Option Nat → Nat → Nat
  | none => count
  | some a => Function.update count a (count a + 1)

theorem Counted.acquire (h : Counted count downloads) (alloc : Allocator) (w : Wanted) :
    Counted (acquire count (newCachedDownload alloc w downloads).1)
        (newCachedDownload alloc w downloads).2 ∧
      Kept count downloads (newCachedDownload alloc w downloads).2 := by
  simp only [newCachedDownload]
  split
  · rename_i r found
    obtain ⟨o, l⟩ := r
    rcases lookup_spec found with ⟨none, same⟩ | ⟨front, d, back, rfl, address, result⟩
    · simp only at none same
      rw [none, same]
      exact ⟨h, Kept.refl _ _⟩
    · have refc : d.refc = count d.address := h.refc d (List.mem_append_right _ List.mem_cons_self)
      simp only at address result
      rw [address]
      rcases result with rfl | ⟨rfl, unused⟩
      · refine ⟨h.replace rfl ?_, Kept.replace fun _ => ⟨rfl, rfl, rfl, rfl, rfl, id, fun _ => rfl⟩⟩
        change d.refc + 1 = _
        omega
      · refine ⟨h.replace rfl ?_, Kept.replace fun used => ?_⟩
        · change 1 = _
          omega
        · omega
  · have fresh : alloc.pick (addresses downloads) ∉ addresses downloads := alloc.pick_notMem _
    have zero : count (alloc.pick (addresses downloads)) = 0 := by
      by_contra used
      exact fresh (h.present _ used)
    refine ⟨⟨List.nodup_cons.mpr ⟨fresh, h.nodup⟩, fun e he => ?_, fun b hb => ?_⟩,
      fun e he _ => ⟨e, List.mem_cons_of_mem _ he, Same.refl e⟩⟩
    · rcases List.mem_cons.mp he with rfl | he
      · change 1 = _
        simp only [DownloadReferences.acquire, create, Function.update_self, zero]
        rfl
      · have different : e.address ≠ alloc.pick (addresses downloads) :=
          fun same => fresh (mem_addresses.mpr ⟨e, he, same⟩)
        simp only [DownloadReferences.acquire, Function.update_of_ne different]
        exact h.refc e he
    · by_cases same : b = alloc.pick (addresses downloads)
      · rw [same]
        exact List.mem_cons_self
      · simp only [DownloadReferences.acquire, Function.update_of_ne same] at hb
        exact List.mem_cons_of_mem _ (h.present b hb)

/-! ## One client -/

variable {c : Client}

/-- The counts are those of the others and of this client, whose stream is open if it uses one. -/
structure Held (others : Nat → Nat) (c : Client) (downloads : List Entry) : Prop where
  live : c.live = true
  counted : Counted (acquire others c.downloadcache) downloads
  owned : c.downloadcache.isSome → c.download.isSome

/-- A step of this client. -/
structure Good (others : Nat → Nat) (downloads : List Entry) (c : Client)
    (downloads' : List Entry) : Prop where
  held : Held others c downloads'
  kept : Kept others downloads downloads'

theorem Held.good (h : Held others c downloads) : Good others downloads c downloads :=
  ⟨h, Kept.refl _ _⟩

theorem Held.of_eq {c' : Client} (h : Held others c downloads)
    (cache : c'.downloadcache = c.downloadcache) (stream : c.download.isSome → c'.download.isSome)
    (live : c'.live = c.live) : Held others c' downloads where
  live := live.trans h.live
  counted := by
    rw [cache]
    exact h.counted
  owned := by
    rw [cache]
    exact fun used => stream (h.owned used)

theorem Good.trans {l m n : List Entry} {c' : Client} (h : Good others l c m)
    (k : Good others m c' n) : Good others l c' n :=
  ⟨k.held, h.kept.trans k.kept⟩

theorem Counted.release_own (h : Counted (DownloadReferences.acquire others (some a)) downloads) :
    Counted others (releaseCachedDownload a downloads) ∧
      Kept others downloads (releaseCachedDownload a downloads) := by
  have own : DownloadReferences.acquire others (some a) a = others a + 1 := Function.update_self _ _ _
  have fewer : others a < DownloadReferences.acquire others (some a) a := by
    rw [own]
    exact Nat.lt_succ_self _
  obtain ⟨counted, kept⟩ := h.release (Nat.ne_zero_of_lt fewer)
  refine ⟨?_, kept others fewer⟩
  rwa [own, DownloadReferences.acquire, Function.update_idem, Nat.add_sub_cancel,
    Function.update_eq_self] at counted

theorem entryAt_of_held (h : Held others c downloads) (cache : c.downloadcache = some a) :
    ∃ d ∈ downloads, d.address = a ∧ entryAt downloads a = .ok d := by
  refine entryAt_of_mem (h.counted.present a ?_)
  rw [cache, acquire, Function.update_self]
  exact Nat.succ_ne_zero _

/-- A download that is closed gives its reference back. -/
theorem svCloseDownload_held (h : Held others c downloads) :
    Good others downloads (svCloseDownload c downloads).1 (svCloseDownload c downloads).2 ∧
      (svCloseDownload c downloads).1.downloadcache = none ∧
        (svCloseDownload c downloads).1.download = none := by
  have counted := h.counted
  have owned := h.owned
  simp only [svCloseDownload]
  cases stream : c.download with
  | none =>
    have unused : c.downloadcache = none := by
      rw [stream] at owned
      cases cache : c.downloadcache with
      | none => rfl
      | some a => exact absurd (owned (by rw [cache]; rfl)) Bool.false_ne_true
    exact ⟨h.good, unused, stream⟩
  | some f =>
    cases cache : c.downloadcache with
    | none =>
      rw [cache] at counted
      exact ⟨⟨⟨h.live, counted, fun used => by cases used⟩, Kept.refl _ _⟩, rfl, rfl⟩
    | some a =>
      rw [cache] at counted
      obtain ⟨released, kept⟩ := counted.release_own
      exact ⟨⟨⟨h.live, released, fun used => by cases used⟩, kept⟩, rfl, rfl⟩

theorem fseek_ensures {how : Reading} {pos : Nat} (h : Held others c downloads) :
    Ensures .dangling (fun c' => Held others c' downloads) (fseek how c pos) := by
  simp only [fseek]
  split
  · exact ensures_error (by rintro ⟨⟩)
  · exact ensures_ok (h.of_eq rfl (fun _ => rfl) rfl)

theorem startDownload_ensures {how : Reading} (h : Held others c downloads) :
    Ensures .dangling (fun r => Good others downloads r.1 r.2) (startDownload how c downloads) := by
  simp only [startDownload]
  cases cache : c.downloadcache with
  | none => exact ensures_ok h.good
  | some a =>
    obtain ⟨d, -, -, found⟩ := entryAt_of_held h cache
    simp only [found, bind, Except.bind]
    split
    · exact ensures_ok (Held.good (h.of_eq cache.symm id rfl))
    · have counted := h.counted
      rw [cache] at counted
      obtain ⟨released, kept⟩ := counted.release_own
      cases stream : c.download with
      | none =>
        simp only [fseek]
        exact ensures_error (by rintro ⟨⟩)
      | some f =>
        simp only [fseek]
        exact ensures_ok ⟨⟨h.live, released, fun _ => rfl⟩, kept⟩

theorem compressedBytes_ensures (d : Entry) (pos r : Nat) :
    Ensures .dangling (fun _ => True) (compressedBytes d pos r) := by
  simp only [compressedBytes]
  split
  · exact ensures_error (by rintro ⟨⟩)
  · split
    · exact ensures_ok trivial
    · exact ensures_error (by rintro ⟨⟩)

theorem fsRead_ensures (how : Reading) (r : Nat) (f : Stream) :
    Ensures .dangling (fun _ => True) (fsRead how r f) := by
  simp only [fsRead]
  split
  · exact ensures_ok trivial
  · split
    · exact ensures_error (by rintro ⟨⟩)
    · exact ensures_ok trivial

theorem makeChunk_ensures {how : Reading} {start : Bool} {r : Nat} (h : Held others c downloads) :
    Ensures .dangling (fun r => Held others r.1 downloads) (makeChunk how start r c downloads) := by
  simp only [makeChunk]
  split
  · rename_i a extended cache
    obtain ⟨d, -, -, found⟩ := entryAt_of_held h cache
    simp only [found, bind, Except.bind]
    exact (compressedBytes_ensures d _ _).bind fun _ _ => ensures_ok h
  · simp only [streamOf]
    split
    · exact ensures_error (by rintro ⟨⟩)
    · exact (fsRead_ensures how r _).bind fun _ _ => ensures_ok (h.of_eq rfl (fun _ => rfl) rfl)

theorem finishChunk_good {r : Nat} {sent : Chunk} (h : Held others c downloads) :
    Good others downloads (finishChunk r c downloads sent).1 (finishChunk r c downloads sent).2.1 := by
  have advanced : Held others (advance r c) downloads := h.of_eq rfl id rfl
  simp only [finishChunk]
  split
  · exact advanced.good
  · exact (svCloseDownload_held advanced).1

theorem sendChunk_ensures {how : Reading} {start : Bool} (h : Held others c downloads) :
    Ensures .dangling (fun r => Good others downloads r.1 r.2.1)
      (sendChunk how start c downloads) := by
  simp only [sendChunk]
  split
  · exact ensures_ok h.good
  · refine (makeChunk_ensures h).bind ?_
    rintro ⟨c', sent⟩ held
    exact ensures_ok (finishChunk_good held)

theorem pushDownload_ensures {how : Reading} {start : Bool} (h : Held others c downloads) :
    Ensures .dangling (fun r => Good others downloads r.1 r.2.1)
      (pushDownload how start c downloads) := by
  simp only [pushDownload]
  split
  · refine (startDownload_ensures h).bind ?_
    rintro ⟨c', downloads'⟩ good
    exact (sendChunk_ensures good.held).mono fun r sent => good.trans sent
  · exact sendChunk_ensures h

theorem seekTo_ensures {how : Reading} {offset : Nat} (h : Held others c downloads) :
    Ensures .dangling (fun c' => Held others c' downloads) (seekTo how c offset) := by
  simp only [seekTo]
  split
  · exact ensures_ok h
  · split
    · exact fseek_ensures (h.of_eq rfl id rfl)
    · exact ensures_ok (h.of_eq rfl id rfl)

theorem nextLoop_ensures (requests : List Request) (h : Held others c downloads) :
    Ensures .dangling (fun r => Good others downloads r.1 r.2.1) (nextLoop requests c downloads) := by
  induction requests generalizing c downloads with
  | nil => exact ensures_ok h.good
  | cons q rest ih =>
    simp only [nextLoop]
    split
    · exact ensures_ok h.good
    split
    · exact ensures_ok h.good
    split
    · exact ensures_ok h.good
    refine (seekTo_ensures h).bind fun c' held => ?_
    refine (pushDownload_ensures held).bind ?_
    rintro ⟨c'', downloads', sent⟩ good
    simp only
    split
    · exact ensures_ok good
    · refine (ih good.held).bind ?_
      rintro ⟨c₂, downloads₂, more⟩ later
      exact ensures_ok (good.trans later)

theorem waits_ensures (h : Held others c downloads) :
    Ensures .dangling (fun _ => True) (waits c downloads) := by
  simp only [waits]
  cases cache : c.downloadcache with
  | none => exact ensures_ok trivial
  | some a =>
    obtain ⟨d, -, -, found⟩ := entryAt_of_held h cache
    simp only [found, bind, Except.bind]
    exact ensures_ok trivial

theorem svNextPushDownload_ensures (requests : List Request) (h : Held others c downloads) :
    Ensures .dangling (fun r => Good others downloads r.1 r.2.1)
      (svNextPushDownload requests c downloads) := by
  simp only [svNextPushDownload]
  split
  · exact ensures_ok h.good
  · refine (waits_ensures h).bind fun waiting _ => ?_
    split
    · exact ensures_ok h.good
    · exact nextLoop_ensures requests h

theorem Held.settle (h : Held others c downloads) (a : Nat) :
    Good others downloads c (update a settle downloads) where
  held := ⟨h.live, h.counted.update (fun d => ⟨same_settle d, refc_settle d⟩) a, h.owned⟩
  kept := Kept.update (fun d => ⟨same_settle d, refc_settle d⟩) a

theorem pushWhenReady_ensures {how : Reading} (h : Held others c downloads) :
    Ensures .dangling (fun r => Good others downloads r.1 r.2.1)
      (pushWhenReady how c downloads) := by
  simp only [pushWhenReady]
  cases cache : c.downloadcache with
  | none => exact pushDownload_ensures h
  | some a =>
    obtain ⟨d, -, -, found⟩ := entryAt_of_held h cache
    simp only [cachedDownloadReady, found, bind, Except.bind]
    have settled := h.settle a
    split
    · exact (pushDownload_ensures settled.held).mono fun r good => settled.trans good
    · exact ensures_ok settled

theorem svFrame_ensures {how : Reading} (h : Held others c downloads) :
    Ensures .dangling (fun r => Good others downloads r.1 r.2.1) (svFrame how c downloads) := by
  simp only [svFrame]
  refine (waits_ensures h).bind fun waiting _ => ?_
  split
  · exact pushWhenReady_ensures h
  · exact ensures_ok h.good

/-- The counts of the others and of a client that has been given an entry. -/
def Given (others : Nat → Nat) (downloads : List Entry) (r : Option Nat × List Entry) : Prop :=
  Counted (acquire others r.1) r.2 ∧ Kept others downloads r.2

theorem compressDownload_given {alloc : Allocator} {b : Begin} (counted : Counted others downloads) :
    Given others downloads (compressDownload alloc b c downloads) := by
  simp only [compressDownload]
  split
  · exact counted.acquire alloc _
  · exact ⟨counted, Kept.refl _ _⟩

theorem precacheDownload_given {alloc : Allocator} {b : Begin} {r : Option Nat × List Entry}
    (h : Given others downloads r) : Given others downloads (precacheDownload alloc b c r) := by
  simp only [precacheDownload]
  split
  · rename_i without
    obtain ⟨counted, kept⟩ := h
    rw [Option.isNone_iff_eq_none.mp without.1] at counted
    obtain ⟨counted', kept'⟩ := Counted.acquire counted alloc (wanted b c false)
    exact ⟨counted', kept.trans kept'⟩
  · exact h

/-- A client without an entry gets one. -/
theorem cacheDownload_good {alloc : Allocator} {b : Begin} (h : Held others c downloads)
    (unused : c.downloadcache = none) (stream : c.download.isSome) :
    Good others downloads { c with downloadcache := (cacheDownload alloc b c downloads).1 }
      (cacheDownload alloc b c downloads).2 := by
  have counted := h.counted
  rw [unused] at counted
  obtain ⟨counted', kept⟩ := precacheDownload_given (compressDownload_given counted)
  exact ⟨⟨h.live, counted', fun _ => stream⟩, kept⟩

/-- A new download holds one reference, and the old one is given back. -/
theorem svBeginDownload_ensures {alloc : Allocator} {b : Begin} (h : Held others c downloads) :
    Ensures .dangling (fun r => Good others downloads r.1 r.2.1)
      (svBeginDownload alloc b c downloads) := by
  have closed := svCloseDownload_held (h.of_eq rfl id rfl : Held others { c with downloadid := b.downloadid }
    downloads)
  simp only [svBeginDownload]
  obtain ⟨good, unused, -⟩ := closed
  generalize svCloseDownload { c with downloadid := b.downloadid } downloads = r at good unused ⊢
  obtain ⟨c', downloads'⟩ := r
  simp only at good unused ⊢
  have same (size : Int) : Good others downloads { c' with downloadsize := size } downloads' :=
    ⟨good.held.of_eq rfl id rfl, good.kept⟩
  cases b.fsLoadFile with
  | none => exact ensures_ok (same _)
  | some size =>
    simp only
    split
    · exact ensures_ok (same _)
    · split
      · exact ensures_ok (same _)
      · rename_i f _
        have opened : Held others (openDownload b f { c' with downloadsize := size }) downloads' :=
          good.held.of_eq rfl (fun _ => rfl) rfl
        have cached := @cacheDownload_good others downloads' _ alloc b opened unused rfl
        refine (pushWhenReady_ensures cached.held).mono fun r pushed => ?_
        exact ⟨pushed.held, (good.kept.trans cached.kept).trans pushed.kept⟩

/-! ## The server -/

/-- The number of clients whose download uses an entry. -/
def users (clients : List Client) (a : Nat) : Nat :=
  clients.countP fun c => c.downloadcache = some a

variable {clients : List Client} {s : State} {slot : Nat}

theorem users_cons (c : Client) (clients : List Client) :
    users (c :: clients) = acquire (users clients) c.downloadcache := by
  funext b
  simp only [users, List.countP_cons, decide_eq_true_eq]
  cases c.downloadcache with
  | none => rfl
  | some a =>
    by_cases same : b = a
    · simp only [same, acquire, Function.update_self, if_true]
      rfl
    · simp only [acquire, Function.update_of_ne same, Option.some.injEq, Ne.symm same, if_false,
        Nat.add_zero]
      rfl

theorem users_set (inside : slot < clients.length) (c : Client) :
    users (clients.set slot c) = acquire (users (clients.eraseIdx slot)) c.downloadcache := by
  rw [← users_cons]
  funext b
  exact (List.set_perm_cons_eraseIdx inside c).countP_eq _

theorem users_of_getElem (h : clients[slot]? = some c) :
    users clients = acquire (users (clients.eraseIdx slot)) c.downloadcache := by
  obtain ⟨inside, rfl⟩ := List.getElem?_eq_some_iff.mp h
  rw [← users_cons]
  funext b
  exact (List.getElem_cons_eraseIdx_perm inside).symm.countP_eq _

structure Inv (s : State) : Prop where
  counted : Counted (users s.clients) s.downloads
  owned : ∀ c ∈ s.clients, c.downloadcache.isSome → c.download.isSome
  idle : ∀ c ∈ s.clients, c.live = false → c.download = none

/-- The uses of those that a step does not act for. -/
def bystanders (s : State) : Event → Nat → Nat
  | .begin slot _ | .next slot _ | .frame slot _ | .close slot | .clean slot | .connect slot _
  | .unpatch slot | .change slot _ => users (s.clients.eraseIdx slot)
  | .thread .. | .poll | .clear => users s.clients
  | .shutdown _ => fun _ => 0

theorem Inv.unused (h : Inv s) (hc : c ∈ s.clients) (closed : c.download = none) :
    c.downloadcache = none := by
  have owned := h.owned c hc
  rw [closed] at owned
  cases cache : c.downloadcache with
  | none => rfl
  | some a => exact absurd (owned (by rw [cache]; rfl)) Bool.false_ne_true

theorem Inv.held (h : Inv s) (found : s.clients[slot]? = some c) (live : c.live = true) :
    Held (users (s.clients.eraseIdx slot)) c s.downloads where
  live := live
  counted := by
    rw [← users_of_getElem found]
    exact h.counted
  owned := h.owned c (List.mem_of_getElem? found)

/-- A client is stored whose count, stream and state are in order. -/
theorem Inv.store (h : Inv s) (found : s.clients[slot]? = some c)
    {r : Client × List Entry × List Chunk}
    (counted : Counted (acquire (users (s.clients.eraseIdx slot)) r.1.downloadcache) r.2.1)
    (owned : r.1.downloadcache.isSome → r.1.download.isSome)
    (idle : r.1.live = false → r.1.download = none) : Inv (s.store slot r) where
  counted := by
    obtain ⟨inside, -⟩ := List.getElem?_eq_some_iff.mp found
    simp only [State.store]
    rw [users_set inside]
    exact counted
  owned := by
    intro d hd
    rcases List.mem_or_eq_of_mem_set hd with hd | rfl
    · exact h.owned d hd
    · exact owned
  idle := by
    intro d hd
    rcases List.mem_or_eq_of_mem_set hd with hd | rfl
    · exact h.idle d hd
    · exact idle

/-- A step of one client that keeps its counts keeps those of the server. -/
theorem Inv.act (h : Inv s) {f : Client → List Entry → Except Stop (Client × List Entry × List Chunk)}
    (good : ∀ c, Held (users (s.clients.eraseIdx slot)) c s.downloads →
      Ensures .dangling (fun r => Counted (acquire (users (s.clients.eraseIdx slot)) r.1.downloadcache)
          r.2.1 ∧ (r.1.downloadcache.isSome → r.1.download.isSome) ∧
        (r.1.live = false → r.1.download = none) ∧
          Kept (users (s.clients.eraseIdx slot)) s.downloads r.2.1) (f c s.downloads)) :
    Ensures .dangling (fun s' => Inv s' ∧
      Kept (users (s.clients.eraseIdx slot)) s.downloads s'.downloads) (s.act slot f) := by
  simp only [State.act]
  cases found : s.clients[slot]? with
  | none => exact ensures_ok ⟨h, Kept.refl _ _⟩
  | some c =>
    simp only
    split
    · rename_i live
      have result := good c (h.held found live)
      cases outcome : f c s.downloads with
      | error stop =>
        rw [outcome] at result
        exact result
      | ok r =>
        rw [outcome] at result
        obtain ⟨counted, owned, idle, kept⟩ := result
        exact ⟨h.store found counted owned idle, kept⟩
    · exact ensures_ok ⟨h, Kept.refl _ _⟩

theorem Inv.act_good (h : Inv s)
    {f : Client → List Entry → Except Stop (Client × List Entry × List Chunk)}
    (good : ∀ {c}, Held (users (s.clients.eraseIdx slot)) c s.downloads →
      Ensures .dangling (fun r => Good (users (s.clients.eraseIdx slot)) s.downloads r.1 r.2.1)
        (f c s.downloads)) :
    Ensures .dangling (fun s' => Inv s' ∧
      Kept (users (s.clients.eraseIdx slot)) s.downloads s'.downloads) (s.act slot f) := by
  refine h.act fun c held => (good held).mono fun r result => ?_
  exact ⟨result.held.counted, result.held.owned,
    fun dead => absurd (result.held.live.symm.trans dead) Bool.noConfusion, result.kept⟩

theorem counted_cleanAll {l : List Client} (counted : Counted (users l) downloads)
    (owned : ∀ c ∈ l, c.downloadcache.isSome → c.download.isSome)
    (idle : ∀ c ∈ l, c.live = false → c.downloadcache = none) :
    Counted (fun _ => 0) (cleanAll l downloads) := by
  induction l generalizing downloads with
  | nil => exact counted
  | cons c rest ih =>
    rw [users_cons] at counted
    refine ih ?_ (fun d hd => owned d (List.mem_cons_of_mem c hd))
      fun d hd => idle d (List.mem_cons_of_mem c hd)
    split
    · rename_i live
      obtain ⟨good, unused, -⟩ :=
        svCloseDownload_held (⟨live, counted, owned c List.mem_cons_self⟩ : Held (users rest) c downloads)
      have left := good.held.counted
      rw [unused] at left
      exact left
    · rename_i dead
      rw [idle c List.mem_cons_self (Bool.eq_false_iff.mpr dead)] at counted
      exact counted

theorem users_eq_count (clients : List Client) (a : Nat) :
    users clients a = (clients.map Client.downloadcache).count (some a) := by
  rw [users, List.count, List.countP_map]
  refine List.countP_congr fun c _ => ?_
  simp

theorem moveStream_spec (downloads : List Entry) (address pos : Nat) (c : Client) :
    (moveStream downloads address pos c).downloadcache = c.downloadcache ∧
      (moveStream downloads address pos c).download.isSome = c.download.isSome ∧
        (moveStream downloads address pos c).live = c.live := by
  simp only [moveStream]
  split
  · exact ⟨rfl, Option.isSome_map, rfl⟩
  · exact ⟨rfl, rfl, rfl⟩

/-- A thread that ends changes no reference. -/
theorem inv_thread (h : Inv s) (address : Nat) (result : Option (List UInt8)) (positions : Nat → Nat) :
    Inv { s with
      clients := s.clients.mapIdx fun slot c => moveStream s.downloads address (positions slot) c
      downloads := update address (endThread result) s.downloads } := by
  have moved : ∀ c ∈ s.clients.mapIdx fun slot c => moveStream s.downloads address (positions slot) c,
      ∃ c' ∈ s.clients, c.downloadcache = c'.downloadcache ∧
        c.download.isSome = c'.download.isSome ∧ c.live = c'.live := by
    intro c hc
    obtain ⟨i, hi, rfl⟩ := List.mem_mapIdx.mp hc
    exact ⟨_, List.getElem_mem hi, moveStream_spec _ _ _ _⟩
  have same : users (s.clients.mapIdx fun slot c => moveStream s.downloads address (positions slot) c) =
      users s.clients := by
    funext a
    rw [users_eq_count, users_eq_count]
    refine congrArg (List.count (some a)) (List.ext_getElem (by simp) fun i hi hi' => ?_)
    simp only [List.getElem_mapIdx, List.getElem_map]
    exact (moveStream_spec _ _ _ _).1
  constructor
  · simp only [same]
    exact h.counted.update (same_endThread result) address
  · intro c hc used
    obtain ⟨c', hc', cache, stream, -⟩ := moved c hc
    rw [stream]
    exact h.owned c' hc' (cache ▸ used)
  · intro c hc dead
    obtain ⟨c', hc', -, stream, live⟩ := moved c hc
    have closed := h.idle c' hc' (live ▸ dead)
    rw [closed] at stream
    exact Option.isNone_iff_eq_none.mp (by simpa using stream)

/-- One step: no freed entry is used, and what others use stays. -/
theorem step_ensures (alloc : Allocator) (h : Inv s) (e : Event) :
    Ensures .dangling (fun s' => Inv s' ∧ Kept (bystanders s e) s.downloads s'.downloads)
      (step alloc s e) := by
  cases e with
  | begin slot b => exact h.act_good svBeginDownload_ensures
  | next slot requests => exact h.act_good (svNextPushDownload_ensures requests)
  | frame slot how => exact h.act_good svFrame_ensures
  | close slot =>
    simp only [step, bystanders]
    exact h.act_good fun held => ensures_ok (svCloseDownload_held held).1
  | clean slot =>
    simp only [step, bystanders]
    refine h.act fun c held => ensures_ok ?_
    obtain ⟨good, -, closed⟩ := svCloseDownload_held held
    exact ⟨good.held.counted, good.held.owned, fun _ => closed, good.kept⟩
  | unpatch slot =>
    simp only [step, bystanders]
    exact h.act_good fun held => ensures_ok (Held.good (held.of_eq rfl id rfl))
  | change slot contents =>
    simp only [step, bystanders]
    refine h.act_good fun held => ensures_ok (Held.good (held.of_eq rfl (fun used => ?_) rfl))
    rwa [Option.isSome_map]
  | connect slot patched =>
    simp only [step]
    cases found : s.clients[slot]? with
    | none => exact ensures_ok ⟨h, Kept.refl _ _⟩
    | some c =>
      have hc := List.mem_of_getElem? found
      cases stream : c.download with
      | none =>
        have counted := h.counted
        rw [users_of_getElem found, h.unused hc stream] at counted
        simp only [stream, Option.isSome_none, Bool.false_eq_true, if_false]
        exact ensures_ok ⟨h.store found counted (by rintro ⟨⟩) (by rintro ⟨⟩), Kept.refl _ _⟩
      | some f =>
        have live : c.live = true := by
          cases dead : c.live with
          | true => rfl
          | false =>
            have closed := h.idle c hc dead
            rw [stream] at closed
            cases closed
        obtain ⟨good, unused, -⟩ := svCloseDownload_held (h.held found live)
        have counted := good.held.counted
        rw [unused] at counted
        simp only [stream, Option.isSome_some, if_true]
        exact ensures_ok ⟨h.store found counted (by rintro ⟨⟩) (by rintro ⟨⟩), good.kept⟩
  | thread address result positions =>
    exact ensures_ok ⟨inv_thread h address result positions,
      Kept.update (same_endThread result) address⟩
  | poll =>
    exact ensures_ok ⟨⟨h.counted.map (fun d => (same_settle d).address) refc_settle, h.owned, h.idle⟩,
      Kept.map same_settle⟩
  | clear => exact ensures_ok ⟨⟨h.counted.clear.1, h.owned, h.idle⟩, h.counted.clear.2⟩
  | shutdown maxclients =>
    have none_of : ∀ c ∈ List.replicate maxclients ({} : Client), c = {} :=
      fun c hc => List.eq_of_mem_replicate hc
    have zero : users (List.replicate maxclients ({} : Client)) = fun _ => 0 := by
      funext a
      exact List.countP_eq_zero.mpr fun c hc => by simp [none_of c hc]
    refine ensures_ok ⟨⟨?_, fun c hc => ?_, fun c hc => ?_⟩, fun d _ busy => absurd rfl busy⟩
    · simp only [zero]
      exact counted_cleanAll h.counted h.owned fun c hc dead => h.unused hc (h.idle c hc dead)
    · rw [none_of c hc]
      rintro ⟨⟩
    · rw [none_of c hc]
      exact fun _ => rfl

def start (maxclients : Nat) : State where
  clients := List.replicate maxclients {}

/-- Nobody downloads. -/
theorem inv_start (maxclients : Nat) : Inv (start maxclients) := by
  have none_of : ∀ c ∈ List.replicate maxclients ({} : Client), c = {} :=
    fun c hc => List.eq_of_mem_replicate hc
  refine ⟨⟨List.nodup_nil, List.forall_mem_nil _, fun a used => absurd ?_ used⟩, fun c hc => ?_,
    fun c hc => ?_⟩
  · exact List.countP_eq_zero.mpr fun c hc => by simp [none_of c hc]
  · rw [none_of c hc]
    rintro ⟨⟩
  · rw [none_of c hc]
    exact fun _ => rfl

/-- No run reaches an entry that has been freed. -/
theorem run_ensures (alloc : Allocator) (events : List Event) (h : Inv s) :
    Ensures .dangling Inv (run alloc s events) := by
  induction events generalizing s with
  | nil => exact ensures_ok h
  | cons e events ih => exact (step_ensures alloc h e).bind fun s' result => ih result.1

/-- In every run the count of an entry is the number of its users, every client's entry is there, and
no step frees or restarts one that is used by a client it does not act for. -/
theorem run_references (alloc : Allocator) (maxclients : Nat) (events : List Event) :
    Ensures .dangling (fun s => Inv s ∧ ∀ e, Ensures .dangling
      (fun s' => Inv s' ∧ Kept (bystanders s e) s.downloads s'.downloads) (step alloc s e))
        (run alloc (start maxclients) events) :=
  (run_ensures alloc events (inv_start maxclients)).mono fun _ h => ⟨h, step_ensures alloc h⟩

end DownloadReferences
