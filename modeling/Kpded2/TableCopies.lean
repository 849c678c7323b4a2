import Kpded2.Configstrings

/-!
# Copies of the table

A client has a table of its own and copies each string that it is sent to the place of its index.
Two tables show the same string at a place if they agree on all bytes up to the end of the string;
what is left of older strings behind the end does not count.
-/
namespace TableCopies
open Configstrings

/-- `strcpy (table + start, s)` -/
def copy (t : Table) (start : Nat) (s : List UInt8) : Table :=
  fun k => if start ≤ k ∧ k ≤ start + s.length then byteAt s (k - start) else t k

/-- There is no end of a string from `start` up to `p`. -/
def Reaches (t : Table) (start p : Nat) : Prop := start ≤ p ∧ ∀ q, start ≤ q → q < p → t q ≠ 0

/-- The index whose bytes `p` is one of. -/
def slotOf (p : Nat) : Nat := p / maxQpath

/-- The byte is not behind the end of the string of its own index. -/
def Visible (t : Table) (p : Nat) : Prop := Reaches t (place (slotOf p)) p

/-- `c` shows the string that `t` has at `start`. -/
def Shows (t c : Table) (start : Nat) : Prop := ∀ p < tableSize, Reaches t start p → c p = t p

/-! ## Strings and bytes -/

variable {t t' c c' : Table} {start p q : Nat} {s : List UInt8}

theorem reaches_self (t : Table) (p : Nat) : Reaches t p p :=
  ⟨Nat.le_refl p, fun _ low high => absurd low (Nat.not_le_of_lt high)⟩

theorem Reaches.before (reaches : Reaches t start p) (low : start ≤ q) (high : q ≤ p) :
    Reaches t start q :=
  ⟨low, fun k above below => reaches.2 k above (Nat.lt_of_lt_of_le below high)⟩

theorem Reaches.behind (reaches : Reaches t start p) (low : start ≤ q) (high : q ≤ p) :
    Reaches t q p :=
  ⟨high, fun k above below => reaches.2 k (Nat.le_trans low above) below⟩

theorem Reaches.trans (first : Reaches t start q) (second : Reaches t q p) : Reaches t start p := by
  refine ⟨Nat.le_trans first.1 second.1, fun k above below => ?_⟩
  rcases Nat.lt_or_ge k q with before | behind
  · exact first.2 k above before
  · exact second.2 k behind below

theorem place_slotOf (p : Nat) : place (slotOf p) ≤ p := Nat.mul_div_le p maxQpath

theorem lt_place_slotOf (p : Nat) : p < place (slotOf p + 1) :=
  Nat.lt_mul_div_succ p (by decide)

theorem slotOf_place (index : Nat) : slotOf (place index) = index :=
  Nat.mul_div_cancel_left index (by decide)

theorem place_succ (index : Nat) : place (index + 1) = place index + maxQpath :=
  Nat.mul_succ maxQpath index

theorem place_mono {i j : Nat} (le : i ≤ j) : place i ≤ place j := Nat.mul_le_mul_left maxQpath le

theorem place_lt {i j : Nat} (lt : i < j) : place i < place j :=
  Nat.mul_lt_mul_of_pos_left lt (by decide)

theorem le_slotOf {index : Nat} (le : place index ≤ p) : index ≤ slotOf p := by
  have mono : slotOf (place index) ≤ slotOf p := Nat.div_le_div_right le
  rwa [slotOf_place] at mono

/-- A byte that is reached from a place is visible. -/
theorem visible_of_reaches {index : Nat} (reaches : Reaches t (place index) p) : Visible t p :=
  reaches.behind (place_mono (le_slotOf reaches.1)) (place_slotOf p)

theorem visible_place (t : Table) (index : Nat) : Visible t (place index) := by
  rw [Visible, slotOf_place]
  exact reaches_self t (place index)

theorem copy_inside (inside : start ≤ p ∧ p ≤ start + s.length) :
    copy t start s p = byteAt s (p - start) :=
  if_pos inside

theorem copy_outside (outside : ¬(start ≤ p ∧ p ≤ start + s.length)) : copy t start s p = t p :=
  if_neg outside

theorem byteAt_end (s : List UInt8) : byteAt s s.length = 0 := by
  induction s with
  | nil => exact rfl
  | cons b s ih => exact ih

theorem byteAt_succ (b : UInt8) (s : List UInt8) (k : Nat) : byteAt (b :: s) (k + 1) = byteAt s k :=
  List.getD_cons_succ

theorem byteAt_take {k n : Nat} (s : List UInt8) (front : k < n) :
    byteAt (s.take n) k = byteAt s k := by
  induction s generalizing k n with
  | nil => rw [List.take_nil]
  | cons b s ih =>
    obtain ⟨n, rfl⟩ := Nat.exists_eq_succ_of_ne_zero (Nat.ne_of_gt (Nat.zero_lt_of_lt front))
    cases k with
    | zero => exact rfl
    | succ k =>
      rw [List.take_succ_cons, byteAt_succ, byteAt_succ]
      exact ih (Nat.lt_of_succ_lt_succ front)

theorem byteAt_nonzero {k : Nat} (nonzero : 0 ∉ s) (inside : k < s.length) : byteAt s k ≠ 0 := by
  induction s generalizing k with
  | nil => exact absurd inside (Nat.not_lt_zero k)
  | cons b s ih =>
    rw [List.mem_cons, not_or] at nonzero
    cases k with
    | zero => exact Ne.symm nonzero.1
    | succ k =>
      rw [byteAt_succ]
      exact ih nonzero.2 (Nat.lt_of_succ_lt_succ inside)

/-- The string in the `n` bytes from `start` on. -/
def runAt (t : Table) (start n : Nat) : List UInt8 :=
  ((List.range' start n).map t).takeWhile (· ≠ 0)

theorem runAt_end {n : Nat} (stops : t start = 0) : runAt t start (n + 1) = [] := by
  simp only [runAt, List.range'_succ, List.map_cons, List.takeWhile_cons, stops, ne_eq,
    not_true_eq_false, decide_false, Bool.false_eq_true, if_false]

theorem runAt_more {n : Nat} (more : t start ≠ 0) :
    runAt t start (n + 1) = t start :: runAt t (start + 1) n := by
  simp only [runAt, List.range'_succ, List.map_cons, List.takeWhile_cons, ne_eq, more,
    not_false_eq_true, decide_true, if_true]

theorem reaches_succ (more : t start ≠ 0) (low : start < p) :
    Reaches t start p ↔ Reaches t (start + 1) p := by
  constructor
  · exact fun reaches => reaches.behind (Nat.le_succ start) low
  · intro reaches
    refine Reaches.trans ⟨Nat.le_succ start, fun q above below => ?_⟩ reaches
    rw [Nat.le_antisymm (Nat.le_of_lt_succ below) above]
    exact more

/-- A run of bytes reads its slots up to the first terminator. -/
theorem runAt_spec (t : Table) (n start p : Nat) (low : start ≤ p) (high : p < start + n) :
    (Reaches t start p ↔ p ≤ start + (runAt t start n).length) ∧
      (p ≤ start + (runAt t start n).length → t p = byteAt (runAt t start n) (p - start)) := by
  induction n generalizing start with
  | zero => exact absurd high (Nat.not_lt.mpr low)
  | succ n ih =>
    by_cases stops : t start = 0
    · rw [runAt_end stops]
      rcases Nat.eq_or_lt_of_le low with same | behind
      · subst same
        refine ⟨⟨fun _ => Nat.le_refl _, fun _ => reaches_self t start⟩, fun _ => ?_⟩
        rw [Nat.sub_self]
        exact stops
      · have far : ¬p ≤ start + ([] : List UInt8).length := Nat.not_le.mpr behind
        refine ⟨⟨fun reaches => ?_, fun le => absurd le far⟩, fun le => absurd le far⟩
        exact absurd stops (reaches.2 start (Nat.le_refl start) behind)
    · rw [runAt_more stops, List.length_cons]
      rcases Nat.eq_or_lt_of_le low with same | behind
      · subst same
        refine ⟨⟨fun _ => Nat.le_add_right _ _, fun _ => reaches_self t start⟩, fun _ => ?_⟩
        rw [Nat.sub_self]
        exact rfl
      · obtain ⟨reaches, byte⟩ := ih (start + 1) behind (by omega)
        have ends : p ≤ start + ((runAt t (start + 1) n).length + 1) ↔
            p ≤ start + 1 + (runAt t (start + 1) n).length := by omega
        rw [reaches_succ stops behind, ends]
        refine ⟨reaches, fun le => ?_⟩
        obtain ⟨k, rfl⟩ := Nat.exists_eq_add_of_lt behind
        have shift : start + k + 1 - start = k + 1 := by omega
        have shifted : start + k + 1 - (start + 1) = k := by omega
        rw [shift, byteAt_succ, byte le, shifted]

/-- The string at a place ends at the first zero that is reached. -/
theorem reaches_iff (inside : p < tableSize) :
    Reaches t start p ↔ start ≤ p ∧ p ≤ start + (stringAt t start).length := by
  constructor
  · intro reaches
    have spec := runAt_spec t (tableSize - start) start p reaches.1 (by have := reaches.1; omega)
    exact ⟨reaches.1, spec.1.mp reaches⟩
  · rintro ⟨low, high⟩
    exact (runAt_spec t (tableSize - start) start p low (by omega)).1.mpr high

theorem stringAt_byte (inside : p < tableSize) (low : start ≤ p)
    (high : p ≤ start + (stringAt t start).length) :
    t p = byteAt (stringAt t start) (p - start) :=
  (runAt_spec t (tableSize - start) start p low (by omega)).2 high

theorem stringAt_nonzero (t : Table) (start : Nat) : 0 ∉ stringAt t start := by
  intro zero
  have kept := List.mem_takeWhile_imp zero
  exact of_decide_eq_true kept rfl

theorem stringAt_eq_nil (inside : start < tableSize) : stringAt t start = [] ↔ t start = 0 := by
  have room : tableSize - start = tableSize - start - 1 + 1 := by omega
  change runAt t start (tableSize - start) = [] ↔ _
  rw [room]
  by_cases stops : t start = 0
  · exact iff_of_true (runAt_end stops) stops
  · rw [runAt_more stops]
    exact iff_of_false (List.cons_ne_nil _ _) stops

theorem runAt_congr (t c : Table) (n start : Nat)
    (same : ∀ p < start + n, Reaches t start p → c p = t p) : runAt c start n = runAt t start n := by
  induction n generalizing start with
  | zero => exact rfl
  | succ n ih =>
    have here := same start (by omega) (reaches_self t start)
    by_cases stops : t start = 0
    · rw [runAt_end stops, runAt_end (here.trans stops)]
    · rw [runAt_more stops, runAt_more (by rwa [here]), here]
      refine congrArg (t start :: ·) (ih (start + 1) fun p inside reaches => ?_)
      exact same p (by omega) ((reaches_succ stops reaches.1).mpr reaches)

theorem stringAt_of_shows (inside : start ≤ tableSize) (shows : Shows t c start) :
    stringAt c start = stringAt t start :=
  runAt_congr t c (tableSize - start) start fun p below =>
    shows p (by omega)

/-! ## Copying from the table itself -/

/-- The bytes of a string of the table become those of the table. -/
theorem runAt_of_same (nonzero : 0 ∉ s) (same : ∀ k ≤ s.length, t (start + k) = byteAt s k) {n : Nat}
    (room : s.length < n) : runAt t start n = s := by
  induction s generalizing start n with
  | nil =>
    obtain ⟨n, rfl⟩ := Nat.exists_eq_add_of_lt room
    exact runAt_end (same 0 (Nat.le_refl 0))
  | cons b s ih =>
    obtain ⟨first, others⟩ := not_or.mp (List.mem_cons.not.mp nonzero)
    obtain ⟨n, rfl⟩ : ∃ k, n = k + 1 := ⟨n - 1, by omega⟩
    have here : t start = b := same 0 (Nat.zero_le _)
    have next : runAt t (start + 1) n = s := by
      refine ih others (fun k inside => ?_) (Nat.lt_of_succ_lt_succ room)
      rw [Nat.add_assoc, Nat.add_comm 1 k, same (k + 1) (Nat.succ_le_succ inside), byteAt_succ]
    rw [runAt_more (here.trans_ne (Ne.symm first)), here, next]

/-- A string that is copied to the end of another one. -/
theorem stringAt_appended (nonzero : 0 ∉ s)
    (room : start + (stringAt t start).length + s.length < tableSize) :
    stringAt (copy t (start + (stringAt t start).length) s) start = stringAt t start ++ s := by
  have whole : 0 ∉ stringAt t start ++ s := by
    rw [List.mem_append, not_or]
    exact ⟨stringAt_nonzero t start, nonzero⟩
  refine runAt_of_same whole (fun k inside => ?_) (by rw [List.length_append]; omega)
  rw [List.length_append] at inside
  rcases Nat.lt_or_ge k (stringAt t start).length with before | behind
  · have same : t (start + k) = byteAt (stringAt t start) (start + k - start) :=
      stringAt_byte (by omega) (Nat.le_add_right _ _) (by omega)
    rw [copy_outside (by omega), same, Nat.add_sub_cancel_left]
    simp only [byteAt, List.append_assoc, List.getD_eq_getElem?_getD,
      List.getElem?_append_left before]
  · have shift : start + k - (start + (stringAt t start).length) = k - (stringAt t start).length := by
      omega
    rw [copy_inside ⟨by omega, by omega⟩, shift]
    simp only [byteAt, List.append_assoc, List.getD_eq_getElem?_getD,
      List.getElem?_append_right behind]

theorem copy_reached (inside : p < tableSize) (reaches : Reaches t start p) :
    copy c start (stringAt t start) p = t p := by
  have within := (reaches_iff inside).mp reaches
  rw [copy_inside within, stringAt_byte inside within.1 within.2]

theorem copy_agrees (inside : p < tableSize) (same : c p = t p) :
    copy c start (stringAt t start) p = t p := by
  by_cases within : start ≤ p ∧ p ≤ start + (stringAt t start).length
  · exact copy_reached inside ((reaches_iff inside).mpr within)
  · rw [copy_outside within, same]

/-! ## Following a change -/

/-- The table changes from `t` to `t'`, and the copy from `c` to `c'`. The bytes of `Told` are those
of a string that the copy was sent; the changes in `Silent` it does not get to know. -/
structure Follows (Silent Told : Nat → Prop) (t t' c c' : Table) : Prop where
  told : ∀ p < tableSize, Told p → c' p = t' p
  kept : ∀ p, ¬Told p → c' p = c p
  spreads : ∀ q p, p < tableSize → Told q → Reaches t' q p → Told p
  frame : ∀ p < tableSize, ¬Silent p → Visible t' p → ¬Told p → t' p = t p

/-- The copy agrees with what is visible at an index. -/
def Agrees (t c : Table) (index : Nat) : Prop :=
  ∀ p < tableSize, slotOf p = index → Visible t p → c p = t p

variable {Silent Told : Nat → Prop} {index : Nat}

theorem Follows.shows_told (follows : Follows Silent Told t t' c c') (told : Told start) :
    Shows t' c' start :=
  fun p inside reaches => follows.told p inside (follows.spreads start p inside told reaches)

theorem Follows.shows (follows : Follows Silent Told t t' c c') (known : ∀ p, ¬Silent p)
    (shows : Shows t c (place index)) : Shows t' c' (place index) := by
  intro p inside reaches
  by_cases told : Told p
  · exact follows.told p inside told
  · -- nothing on the way to `p` was told, or `p` would have been
    have same : ∀ q, place index ≤ q → q ≤ p → t' q = t q := by
      intro q low high
      have here := reaches.before low high
      refine follows.frame q (Nat.lt_of_le_of_lt high inside) (known q) (visible_of_reaches here) ?_
      exact fun toldHere => told (follows.spreads q p inside toldHere (reaches.behind low high))
    have before : Reaches t (place index) p := by
      refine ⟨reaches.1, fun q low high => ?_⟩
      rw [← same q low (Nat.le_of_lt high)]
      exact reaches.2 q low high
    rw [follows.kept p told, shows p inside before, same p reaches.1 (Nat.le_refl p)]

theorem Follows.agrees (follows : Follows Silent Told t t' c c')
    (known : ∀ p, slotOf p = index → ¬Silent p) (agrees : Agrees t c index) :
    Agrees t' c' index := by
  intro p inside slot visible
  by_cases told : Told p
  · exact follows.told p inside told
  · have same : ∀ q, place index ≤ q → q ≤ p → t' q = t q := by
      intro q low high
      have slotHere : slotOf q = index :=
        Nat.le_antisymm (slot ▸ Nat.div_le_div_right high) (le_slotOf low)
      have here : Visible t' q := by
        rw [Visible, slotHere, ← slot]
        exact visible.before (slot ▸ low) high
      refine follows.frame q (Nat.lt_of_le_of_lt high inside) (known q slotHere) here ?_
      intro toldHere
      exact told (follows.spreads q p inside toldHere (visible.behind (slot ▸ low) high))
    have before : Visible t p := by
      refine ⟨visible.1, fun q low high => ?_⟩
      rw [← same q (slot ▸ low) (Nat.le_of_lt high)]
      exact visible.2 q low high
    rw [follows.kept p told, agrees p inside slot before,
      same p (slot ▸ place_slotOf p) (Nat.le_refl p)]

/-- Where a string is empty, the copy has none either. -/
theorem Follows.empty (follows : Follows Silent Told t t' c c') (inside : place index < tableSize)
    (known : ¬Silent (place index)) (empty : t (place index) = 0 → c (place index) = 0)
    (stops : t' (place index) = 0) : c' (place index) = 0 := by
  by_cases told : Told (place index)
  · rw [follows.told _ inside told, stops]
  · have same := follows.frame _ inside known (visible_place t' index) told
    rw [follows.kept _ told]
    exact empty (same.symm.trans stops)

/-- A string that is appended at the end of another one is reached with it. -/
theorem reaches_appended (nonzero : 0 ∉ s) (inside : start + (stringAt t start).length < tableSize)
    (low : start ≤ p) (high : p ≤ start + (stringAt t start).length + s.length) :
    Reaches (copy t (start + (stringAt t start).length) s) start p := by
  have ends := (reaches_iff inside).mpr ⟨Nat.le_add_right _ _, Nat.le_refl _⟩
  refine ⟨low, fun q above below => ?_⟩
  rcases Nat.lt_or_ge q (start + (stringAt t start).length) with before | behind
  · rw [copy_outside fun within => absurd within.1 (Nat.not_le.mpr before)]
    exact ends.2 q above before
  · rw [copy_inside ⟨behind, Nat.le_trans (Nat.le_of_lt below) high⟩]
    exact byteAt_nonzero nonzero (by omega)

/-- The string that was stored is sent. -/
theorem follows_copy (s : List UInt8) (start : Nat)
    (holds : ∀ p < tableSize, start ≤ p → p ≤ start + s.length → t' p = byteAt s (p - start))
    (frame : ∀ p < tableSize, ¬Silent p → Visible t' p → ¬(start ≤ p ∧ p ≤ start + s.length) →
      t' p = t p) :
    Follows Silent (fun p => start ≤ p ∧ p ≤ start + s.length) t t' c (copy c start s) where
  told := fun p inside within =>
    (copy_inside within).trans (holds p inside within.1 within.2).symm
  kept := fun _ outside => copy_outside outside
  spreads := by
    intro q p inside within reaches
    refine ⟨within.1.trans reaches.1, Nat.not_lt.mp fun behind => ?_⟩
    -- the end of the string stands between them
    have stops := holds (start + s.length) (Nat.lt_trans behind inside) (Nat.le_add_right _ _)
      (Nat.le_refl _)
    rw [Nat.add_sub_cancel_left, byteAt_end] at stops
    exact reaches.2 (start + s.length) within.2 behind stops
  frame := frame

theorem follows_silent
    (frame : ∀ p < tableSize, ¬Silent p → Visible t' p → t' p = t p) :
    Follows Silent (fun _ => False) t t' c c where
  told := fun _ _ told => told.elim
  kept := fun _ _ => rfl
  spreads := fun _ _ _ told _ => told
  frame := fun p inside known visible _ => frame p inside known visible

end TableCopies
