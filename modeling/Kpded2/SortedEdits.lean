import Mathlib.Data.List.Basic

/-!
# Sorted lists and the commands between them

Two lists sorted by a numeric key are compared by one merge, which says of every
key whether its entry is removed, changed or added. An encoder may leave out an
addition, and leaves out a change that the reader's copy already shows. `patch`
is the reader: it merges the commands into its own copy of the old list.
-/
namespace SortedEdits

universe u v w
variable {E : Type u} {W : Type v} {D : Type w}

inductive Edit (E : Type u) where
  | remove (old : E)
  | change (old new : E)
  | add (new : E)

def Edit.key (key : E → Nat) : Edit E → Nat
  | .remove old => key old
  | .change _ new => key new
  | .add new => key new

def edits (key : E → Nat) : List E → List E → List (Edit E)
  | [], new => new.map .add
  | old, [] => old.map .remove
  | o :: old, n :: new =>
    if key n = key o then .change o n :: edits key old new
    else if key n < key o then .add n :: edits key (o :: old) new
    else .remove o :: edits key old (n :: new)
termination_by old new => old.length + new.length

inductive Command (D : Type w) where
  | remove (number : Nat)
  | update (number : Nat) (delta : D)
  deriving DecidableEq

def Command.number : Command D → Nat
  | .remove number => number
  | .update number _ => number

/-- How a reader holds entries: their number, what an update makes of one, what
becomes of one that is not mentioned, and what an unknown one starts from. -/
structure Reader (W : Type v) (D : Type w) where
  numberOf : W → Nat
  apply : W → D → W
  carry : W → W
  baseline : Nat → W

def patch (reader : Reader W D) : List (Command D) → List W → List W
  | [], old => old.map reader.carry
  | .remove _ :: cs, [] => patch reader cs []
  | .update number delta :: cs, [] =>
    reader.apply (reader.baseline number) delta :: patch reader cs []
  | c :: cs, o :: old =>
    if reader.numberOf o < c.number then reader.carry o :: patch reader (c :: cs) old
    else if reader.numberOf o = c.number then
      match c with
      | .remove _ => patch reader cs old
      | .update _ delta => reader.apply o delta :: patch reader cs old
    else
      match c with
      | .remove _ => patch reader cs (o :: old)
      | .update number delta =>
        reader.apply (reader.baseline number) delta :: patch reader cs (o :: old)
termination_by cs old => cs.length + old.length

/-- What may stand for one edit, and the new entry it leaves. -/
inductive Encodes (reader : Reader W D) (key : E → Nat) (view : E → W) :
    Edit E → List (Command D) → List E → Prop where
  | remove (o : E) : Encodes reader key view (.remove o) [.remove (key o)] []
  | unchanged (o n : E) (same : reader.carry (view o) = view n) :
      Encodes reader key view (.change o n) [] [n]
  | change (o n : E) (delta : D) (base : reader.apply (view o) delta = view n) :
      Encodes reader key view (.change o n) [.update (key n) delta] [n]
  | suppressed (n : E) : Encodes reader key view (.add n) [] []
  | add (n : E) (delta : D) (base : reader.apply (reader.baseline (key n)) delta = view n) :
      Encodes reader key view (.add n) [.update (key n) delta] [n]

inductive EncodesAll (reader : Reader W D) (key : E → Nat) (view : E → W) :
    List (Edit E) → List (Command D) → List E → Prop where
  | nil : EncodesAll reader key view [] [] []
  | cons {e : Edit E} {es : List (Edit E)} {c cs : List (Command D)} {k kept : List E}
      (first : Encodes reader key view e c k) (rest : EncodesAll reader key view es cs kept) :
      EncodesAll reader key view (e :: es) (c ++ cs) (k ++ kept)

def Sorted (key : E → Nat) (xs : List E) : Prop := xs.Pairwise fun a b => key a < key b

instance (key : E → Nat) (xs : List E) : Decidable (Sorted key xs) :=
  inferInstanceAs (Decidable (xs.Pairwise _))

/-! ## The edits are sorted -/

theorem edits_nil_right (key : E → Nat) (old : List E) :
    edits key old [] = old.map .remove := by
  cases old <;> simp [edits]

theorem edits_change {key : E → Nat} {o n : E} {old new : List E} (h : key n = key o) :
    edits key (o :: old) (n :: new) = .change o n :: edits key old new := by
  rw [edits, if_pos h]

theorem edits_add {key : E → Nat} {n : E} {old new : List E} (h : ∀ o ∈ old, key n < key o) :
    edits key old (n :: new) = .add n :: edits key old new := by
  cases old with
  | nil => simp [edits]
  | cons o old =>
    have hlt := h o List.mem_cons_self
    rw [edits, if_neg (by omega), if_pos hlt]

theorem edits_remove {key : E → Nat} {o : E} {old new : List E} (h : ∀ n ∈ new, key o < key n) :
    edits key (o :: old) new = .remove o :: edits key old new := by
  cases new with
  | nil => simp [edits_nil_right]
  | cons n new =>
    have hlt := h n List.mem_cons_self
    rw [edits, if_neg (by omega), if_neg (by omega)]

/-- A lower bound of both lists bounds every edit. -/
theorem lt_key_of_mem_edits {key : E → Nat} {bound : Nat} (old new : List E)
    (hold : ∀ o ∈ old, bound < key o) (hnew : ∀ n ∈ new, bound < key n) :
    ∀ e ∈ edits key old new, bound < e.key key := by
  induction old, new using edits.induct key with
  | case1 new =>
    intro e he
    rw [edits] at he
    obtain ⟨n, hn, rfl⟩ := List.mem_map.mp he
    exact hnew n hn
  | case2 old =>
    intro e he
    rw [edits_nil_right] at he
    obtain ⟨o, ho, rfl⟩ := List.mem_map.mp he
    exact hold o ho
  | case3 o old n new heq ih =>
    intro e he
    rw [edits, if_pos heq] at he
    rcases List.mem_cons.mp he with rfl | he
    · exact hnew n List.mem_cons_self
    · exact ih (fun x hx => hold x (List.mem_cons_of_mem _ hx))
        (fun x hx => hnew x (List.mem_cons_of_mem _ hx)) e he
  | case4 o old n new hne hlt ih =>
    intro e he
    rw [edits, if_neg hne, if_pos hlt] at he
    rcases List.mem_cons.mp he with rfl | he
    · exact hnew n List.mem_cons_self
    · exact ih hold (fun x hx => hnew x (List.mem_cons_of_mem _ hx)) e he
  | case5 o old n new hne hlt ih =>
    intro e he
    rw [edits, if_neg hne, if_neg hlt] at he
    rcases List.mem_cons.mp he with rfl | he
    · exact hold o List.mem_cons_self
    · exact ih (fun x hx => hold x (List.mem_cons_of_mem _ hx)) hnew e he

/-- The edits come in the order of their keys. -/
theorem sorted_edits {key : E → Nat} {old new : List E} (hold : Sorted key old)
    (hnew : Sorted key new) : (edits key old new).Pairwise fun a b => a.key key < b.key key := by
  induction old, new using edits.induct key with
  | case1 new =>
    rw [edits]
    exact List.pairwise_map.mpr hnew
  | case2 old =>
    rw [edits_nil_right]
    exact List.pairwise_map.mpr hold
  | case3 o old n new heq ih =>
    obtain ⟨ho, hold⟩ := List.pairwise_cons.mp hold
    obtain ⟨hn, hnew⟩ := List.pairwise_cons.mp hnew
    rw [edits, if_pos heq, List.pairwise_cons]
    exact ⟨lt_key_of_mem_edits old new (fun x hx => by rw [Edit.key, heq]; exact ho x hx) hn,
      ih hold hnew⟩
  | case4 o old n new hne hlt ih =>
    obtain ⟨hn, hnew⟩ := List.pairwise_cons.mp hnew
    rw [edits, if_neg hne, if_pos hlt, List.pairwise_cons]
    refine ⟨lt_key_of_mem_edits (o :: old) new ?_ hn, ih hold hnew⟩
    intro x hx
    rcases List.mem_cons.mp hx with rfl | hx
    · exact hlt
    · exact Nat.lt_trans hlt ((List.pairwise_cons.mp hold).1 x hx)
  | case5 o old n new hne hlt ih =>
    obtain ⟨ho, hold⟩ := List.pairwise_cons.mp hold
    rw [edits, if_neg hne, if_neg hlt, List.pairwise_cons]
    refine ⟨lt_key_of_mem_edits old (n :: new) ho ?_, ih hold hnew⟩
    intro x hx
    have hon : key o < key n := by omega
    rcases List.mem_cons.mp hx with rfl | hx
    · exact hon
    · exact Nat.lt_trans hon ((List.pairwise_cons.mp hnew).1 x hx)

/-! ## What the commands do -/

section Reading
variable {reader : Reader W D} {key : E → Nat} {view : E → W}

theorem Encodes.number_eq {e : Edit E} {c : List (Command D)} {k : List E}
    (h : Encodes reader key view e c k) : ∀ x ∈ c, x.number = e.key key := by
  cases h <;> simp [Command.number, Edit.key]

theorem EncodesAll.number_mem {es : List (Edit E)} {cs : List (Command D)} {kept : List E}
    (h : EncodesAll reader key view es cs kept) :
    ∀ x ∈ cs, ∃ e ∈ es, x.number = e.key key := by
  induction h with
  | nil => simp
  | cons first _ ih =>
    intro x hx
    rcases List.mem_append.mp hx with hx | hx
    · exact ⟨_, List.mem_cons_self, first.number_eq x hx⟩
    · obtain ⟨e, he, heq⟩ := ih x hx
      exact ⟨e, List.mem_cons_of_mem _ he, heq⟩

/-- The numbers on the commands increase strictly. -/
theorem EncodesAll.sorted {es : List (Edit E)} {cs : List (Command D)} {kept : List E}
    (h : EncodesAll reader key view es cs kept)
    (hes : es.Pairwise fun a b => a.key key < b.key key) :
    cs.Pairwise fun a b => a.number < b.number := by
  induction h with
  | nil => exact List.Pairwise.nil
  | @cons e es c cs k kept first rest ih =>
    obtain ⟨he, hes⟩ := List.pairwise_cons.mp hes
    rw [List.pairwise_append]
    refine ⟨?_, ih hes, ?_⟩
    · cases first <;> simp
    · intro x hx y hy
      obtain ⟨e', he', hnum⟩ := rest.number_mem y hy
      rw [first.number_eq x hx, hnum]
      exact he e' he'

/-- An old entry below every command is carried over. -/
theorem patch_carry {o : W} {old : List W} {cs : List (Command D)}
    (h : ∀ c ∈ cs, reader.numberOf o < c.number) :
    patch reader cs (o :: old) = reader.carry o :: patch reader cs old := by
  cases cs with
  | nil => simp [patch]
  | cons c cs =>
    have hc := h c List.mem_cons_self
    cases c <;> simp [patch, hc]

/-- Merging the commands into the old list gives the entries that were kept. -/
theorem patch_encodes (numbered : ∀ e, reader.numberOf (view e) = key e) {old new : List E}
    (hold : Sorted key old) (hnew : Sorted key new) {cs : List (Command D)} {kept : List E}
    (h : EncodesAll reader key view (edits key old new) cs kept) :
    patch reader cs (old.map view) = kept.map view := by
  induction old, new using edits.induct key generalizing cs kept with
  | case1 new =>
    rw [edits] at h
    clear hnew
    induction new generalizing cs kept with
    | nil =>
      cases h
      simp [patch]
    | cons n new ih =>
      cases h with
      | cons first rest =>
        cases first with
        | suppressed => exact ih rest
        | add _ delta base => simpa [patch, base] using ih rest
  | case2 old hne =>
    rw [edits_nil_right] at h
    clear hold hne
    induction old generalizing cs kept with
    | nil =>
      cases h
      simp [patch]
    | cons o old ih =>
      cases h with
      | cons first rest =>
        cases first with
        | remove => simpa [patch, Command.number, numbered] using ih rest
  | case3 o old n new heq ih =>
    have hsorted := sorted_edits hold hnew
    rw [edits, if_pos heq] at h hsorted
    have hlt := (List.pairwise_cons.mp hsorted).1
    have hrest := @ih (List.pairwise_cons.mp hold).2 (List.pairwise_cons.mp hnew).2
    cases h with
    | cons first rest =>
      cases first with
      | unchanged _ _ same =>
        rw [List.map_cons, List.nil_append, patch_carry, hrest rest, same]
        · rfl
        · intro c hc
          obtain ⟨e, he, hnum⟩ := rest.number_mem c hc
          rw [numbered, hnum, ← heq]
          exact hlt e he
      | change _ _ delta base =>
        simp [patch, Command.number, numbered, heq, base, hrest rest]
  | case4 o old n new hne hlt ih =>
    rw [edits, if_neg hne, if_pos hlt] at h
    have hrest := @ih hold (List.pairwise_cons.mp hnew).2
    have hle : ¬ key o < key n := by omega
    have hne' : key o ≠ key n := fun h => hne h.symm
    cases h with
    | cons first rest =>
      cases first with
      | suppressed => exact hrest rest
      | add _ delta base =>
        have hold' := hrest rest
        rw [List.map_cons] at hold'
        simp [patch, Command.number, numbered, hle, hne', base, hold']
  | case5 o old n new hne hlt ih =>
    rw [edits, if_neg hne, if_neg hlt] at h
    have hrest := @ih (List.pairwise_cons.mp hold).2 hnew
    cases h with
    | cons first rest =>
      cases first with
      | remove => simpa [patch, Command.number, numbered] using hrest rest

end Reading

/-! ## Additions -/

/-- The new entries whose key the old list does not have. -/
def additions (key : E → Nat) (old new : List E) : List E :=
  new.filter fun n => !old.any fun o => key o == key n

def Edit.added : Edit E → Option E
  | .add new => some new
  | _ => none

theorem additions_nil (key : E → Nat) (new : List E) : additions key [] new = new := by
  simp [additions]

/-- An old entry that no new one shares does not matter. -/
theorem additions_cons_of_ne {key : E → Nat} {o : E} {old new : List E}
    (h : ∀ n ∈ new, key o ≠ key n) : additions key (o :: old) new = additions key old new := by
  apply List.filter_congr
  intro n hn
  simp [h n hn]

theorem filterMap_added_edits {key : E → Nat} {old new : List E} (hold : Sorted key old)
    (hnew : Sorted key new) : (edits key old new).filterMap Edit.added = additions key old new := by
  induction old, new using edits.induct key with
  | case1 new =>
    rw [edits, additions_nil, List.filterMap_map]
    exact List.filterMap_some
  | case2 old =>
    rw [edits_nil_right, List.filterMap_map]
    simp [additions, Function.comp_def, Edit.added]
  | case3 o old n new heq ih =>
    obtain ⟨hn, hnew'⟩ := List.pairwise_cons.mp hnew
    have hrest := ih (List.pairwise_cons.mp hold).2 hnew'
    have hskip : additions key (o :: old) (n :: new) = additions key (o :: old) new := by
      simp [additions, heq]
    rw [edits, if_pos heq, hskip, additions_cons_of_ne, ← hrest]
    · rfl
    · intro x hx
      have := hn x hx
      omega
  | case4 o old n new hne hlt ih =>
    have hrest := ih hold (List.pairwise_cons.mp hnew).2
    have hfresh : additions key (o :: old) (n :: new) = n :: additions key (o :: old) new := by
      rw [additions, List.filter_cons_of_pos]
      · rfl
      · simp only [Bool.not_eq_true', List.any_eq_false, beq_iff_eq]
        intro x hx
        rcases List.mem_cons.mp hx with rfl | hx
        · exact fun h => hne h.symm
        · have := (List.pairwise_cons.mp hold).1 x hx
          omega
    rw [edits, if_neg hne, if_pos hlt, hfresh, ← hrest]
    rfl
  | case5 o old n new hne hlt ih =>
    have hrest := ih (List.pairwise_cons.mp hold).2 hnew
    rw [edits, if_neg hne, if_neg hlt, additions_cons_of_ne, ← hrest]
    · rfl
    · intro x hx
      rcases List.mem_cons.mp hx with rfl | hx
      · exact fun h => hne h.symm
      · have := (List.pairwise_cons.mp hnew).1 x hx
        omega

end SortedEdits
