import Kpded2.Cvar

/-!
# The values of the console variables

A variable as its readers see it: its flags, its string and its latched string. Each setter
changes the entry of one variable; what it may change it to is said here, apart from the blocks
that hold the strings.
-/
namespace CvarValues
open Bytes OwnedHeap Cvar

variable {κ : Type}

structure Value where
  flags : UInt32
  string : List UInt8
  latched : Option (List UInt8)
  deriving DecidableEq

def readLatched (heap : Heap (List UInt8)) : Option Nat → Option (Option (List UInt8))
  | none => some none
  | some b => (heap.blocks b).map some

def valueOf (heap : Heap (List UInt8)) (var : Var κ) : Option Value :=
  (heap.blocks var.string).bind fun string =>
    (readLatched heap var.latchedString).map fun latched => ⟨var.flags, string, latched⟩

def values (s : State κ) (name : List UInt8) : Option Value := (s.vars name).bind (valueOf s.heap)

variable {s t : State κ} {name value : List UInt8} {var var' : Var κ} {p : Program κ}

theorem readLatched_congr {heap heap' : Heap (List UInt8)} {latched : Option Nat}
    (same : ∀ b, latched = some b → heap'.blocks b = heap.blocks b) :
    readLatched heap' latched = readLatched heap latched := by
  cases latched with
  | none => rfl
  | some b => rw [readLatched, readLatched, same b rfl]

theorem readLatched_alloc (heap : Heap (List UInt8)) (a : List UInt8) :
    readLatched (heap.alloc a) (some heap.next) = some (some a) := by
  rw [readLatched, Heap.blocks_alloc_next]
  rfl

theorem valueOf_eq {heap : Heap (List UInt8)} {text : List UInt8} {latched : Option (List UInt8)}
    (string : heap.blocks var.string = some text)
    (hlatched : readLatched heap var.latchedString = some latched) :
    valueOf heap var = some ⟨var.flags, text, latched⟩ := by
  rw [valueOf, string, hlatched]
  rfl

theorem valueOf_flags {heap : Heap (List UInt8)} {v : Value} (h : valueOf heap var = some v)
    (flags : UInt32) : valueOf heap { var with flags } = some { v with flags } := by
  obtain ⟨old, string, rest⟩ := Option.bind_eq_some_iff.mp h
  obtain ⟨latched, hlatched, rfl⟩ := Option.map_eq_some_iff.mp rest
  exact valueOf_eq string hlatched

theorem valueOf_congr {heap heap' : Heap (List UInt8)}
    (same : ∀ field b, var.pointer field = some b → heap'.blocks b = heap.blocks b) :
    valueOf heap' var = valueOf heap var := by
  have string := same .string var.string rfl
  have latched : readLatched heap' var.latchedString = readLatched heap var.latchedString :=
    readLatched_congr fun b hb => same .latchedString b hb
  rw [valueOf, valueOf, string, latched]

/-- Every variable has a value. -/
theorem exists_value (h : Inv s) (hvar : s.vars name = some var) :
    ∃ old latched, values s name = some ⟨var.flags, old, latched⟩ ∧
      s.heap.blocks var.string = some old ∧ readLatched s.heap var.latchedString = some latched := by
  obtain ⟨old, hold⟩ := h.live_string hvar
  have read : ∃ latched, readLatched s.heap var.latchedString = some latched := by
    cases hlatched : var.latchedString with
    | none => exact ⟨none, rfl⟩
    | some b =>
      obtain ⟨text, htext⟩ := h.live_latched hvar hlatched
      exact ⟨some text, by rw [readLatched, htext]; rfl⟩
  obtain ⟨latched, hlatched⟩ := read
  refine ⟨old, latched, ?_, hold, hlatched⟩
  simp only [values, hvar, Option.bind_some, valueOf_eq hold hlatched]

/-- A string is not where another slot points. -/
theorem apart (h : Inv s) {other : List UInt8} {field : Field} {slot : Slot} {b c : Nat}
    (hc : pointers s (other, field) = some c) (hb : slots s slot = some b)
    (ne : slot ≠ .inl (other, field)) : c ≠ b := by
  rintro rfl
  exact ne (h.owns.exclusive slot (.inl (other, field)) c hb hc)

theorem pointer_of_var (hvar : s.vars name = some var) {field : Field} {b : Nat}
    (hb : var.pointer field = some b) : pointers s (name, field) = some b :=
  (pointers_of_var hvar field).trans hb

theorem latched_of_var (hvar : s.vars name = some var) {b : Nat} (hb : var.latchedString = some b) :
    pointers s (name, .latchedString) = some b :=
  (pointers_of_var hvar .latchedString).trans hb

theorem ne_slot {other : List UInt8} (ne : other ≠ name) (field field' : Field) :
    (Sum.inl (name, field) : Slot) ≠ .inl (other, field') :=
  fun same => ne (Prod.ext_iff.mp (Sum.inl.inj same)).1.symm

theorem valueOf_alloc (h : Inv s) (hvar : s.vars name = some var) (a : List UInt8) :
    valueOf (s.heap.alloc a) var = valueOf s.heap var := by
  refine valueOf_congr fun field b hb => Heap.blocks_alloc_of_isSome ?_ a
  exact h.owns.live (.inl (name, field)) b (pointer_of_var hvar hb)

/-- A block that is not the variable's changes. -/
theorem valueOf_update (h : Inv s) {other : List UInt8} (hvar : s.vars other = some var)
    {heap : Heap (List UInt8)} {b : Nat} {x : Option (List UInt8)}
    (hheap : heap.blocks = Function.update s.heap.blocks b x) {slot : Slot}
    (hb : slots s slot = some b) (ne : ∀ field, slot ≠ .inl (other, field)) :
    valueOf heap var = valueOf s.heap var := by
  refine valueOf_congr fun field c hc => ?_
  rw [hheap]
  exact Function.update_of_ne (apart h (pointer_of_var hvar hc) hb (ne field)) _ _

/-- A variable is stored, the others are where they were. -/
theorem values_stored {v : Value} (vars : t.vars = Function.update s.vars name (some var'))
    (same : ∀ other var, other ≠ name → s.vars other = some var →
      valueOf t.heap var = valueOf s.heap var) (own : valueOf t.heap var' = some v) :
    values t = Function.update (values s) name (some v) := by
  funext other
  by_cases here : other = name
  · subst here
    simp only [values, vars, Function.update_self, Option.bind_some, own]
  · simp only [values, vars, Function.update_of_ne here]
    cases hvar : s.vars other with
    | none => rfl
    | some var => exact same other var here hvar

/-- Nothing is stored. -/
theorem values_same (vars : t.vars = s.vars)
    (same : ∀ other var, s.vars other = some var → valueOf t.heap var = valueOf s.heap var) :
    values t = values s := by
  funext other
  simp only [values, vars]
  cases hvar : s.vars other with
  | none => rfl
  | some var => exact same other var hvar

theorem values_push (s : State κ) (tasks : List (Cvar.Task κ)) : values (s.push tasks) = values s := rfl

/-! ## Values without the characters of an info string -/

def infoFlags (flags : UInt32) : Bool := hasFlags flags (cvarUserinfo ||| cvarServerinfo)

/-- What the flags ask of a string. -/
def Sound (flags : UInt32) (text : List UInt8) : Prop :=
  infoFlags flags = true → cvarInfoValidate text = true

theorem cvarInfoValidate_of_subset {text more : List UInt8} (inside : text ⊆ more)
    (h : cvarInfoValidate more = true) : cvarInfoValidate text = true := by
  simp only [cvarInfoValidate, Bool.not_eq_true', Bool.or_eq_false_iff, List.contains_eq_mem,
    decide_eq_false_iff_not] at h ⊢
  exact ⟨⟨fun hc => h.1.1 (inside hc), fun hc => h.1.2 (inside hc)⟩, fun hc => h.2 (inside hc)⟩

/-- The characters of a text are those of the value that is given, or the text is clean. -/
def From (value text : List UInt8) : Prop := text ⊆ value ∨ cvarInfoValidate text = true

theorem From.valid {text : List UInt8} (made : From value text)
    (h : cvarInfoValidate value = true) : cvarInfoValidate text = true := by
  rcases made with inside | clean
  · exact cvarInfoValidate_of_subset inside h
  · exact clean

theorem from_cutStartTime (overwrites : List UInt8 → Bool) (value : List UInt8) :
    From value (cutStartTime overwrites value) := by
  rw [cutStartTime]
  split
  · exact .inl (List.Subset.refl _)
  · rename_i before hbefore
    dsimp only
    split
    · split
      · -- a part of "ime"
        exact .inr (cvarInfoValidate_of_subset (List.take_subset _ _) (by decide))
      · refine .inl fun c hc => ?_
        have inside := (List.dropWhile_suffix _).subset (List.mem_reverse.mp hc)
        have behind : c ∈ value.reverse.dropWhile (· ≠ 64) := by
          rw [hbefore]
          exact List.mem_cons_of_mem _ inside
        exact List.mem_reverse.mp ((List.dropWhile_suffix _).subset behind)
    · exact .inl (List.Subset.refl _)

/-- What `Cvar_Set2` stores. -/
def storedValue (overwrites : List UInt8 → Bool) (name value : List UInt8) : List UInt8 :=
  if name = ascii "hostname" then cutStartTime overwrites value else value

theorem from_storedValue (overwrites : List UInt8 → Bool) (name value : List UInt8) :
    From value (storedValue overwrites name value) := by
  rw [storedValue]
  split
  · exact from_cutStartTime overwrites value
  · exact .inl (List.Subset.refl _)

theorem clientdirValue_subset (p : Program κ) (name value : List UInt8) :
    clientdirValue p name value ⊆ value := by
  rw [clientdirValue]
  split
  · exact List.nil_subset _
  · exact List.Subset.refl _

/-! ## Setters -/

theorem update_value {v : Value} (hv : values s name = some v) :
    Function.update (values s) name (some v) = values s := by
  rw [← hv, Function.update_eq_self]

/-- A plain assignment stores the value, or what is left of it in `hostname`. -/
theorem values_setString (h : Inv s) (hvar : s.vars name = some var) {argv : Bool}
    (set : setString p name var value argv s = some t) :
    ∃ v overwrites, values s name = some v ∧ values t =
      Function.update (values s) name (some { v with string := storedValue overwrites name value }) := by
  obtain ⟨old, latched, hv, hold, hlatched⟩ := exists_value h hvar
  refine ⟨_, fun time => argv && p.tokenizes s time, hv, ?_⟩
  simp only [setString, hold, Option.bind_eq_bind, Option.bind_some] at set
  have stored : (if name = ascii "hostname" then
      cutStartTime (fun time => argv && p.tokenizes s time) value else value) =
        storedValue (fun time => argv && p.tokenizes s time) name value := rfl
  rw [stored] at set
  generalize storedValue _ name value = text at set ⊢
  have owner : slots s (.inl (name, .string)) = some var.string := pointers_of_var hvar .string
  split at set
  · rename_i same
    cases set
    rw [same, update_value hv]
  split at set
  · obtain ⟨heap, hstore, rest⟩ := Option.bind_eq_some_iff.mp set
    cases rest
    have blocks := Heap.store_eq_some hstore
    have own : heap.blocks var.string = some text := by
      rw [blocks, Function.update_self]
    have kept : readLatched heap var.latchedString = some latched := by
      refine (readLatched_congr fun b hb => ?_).trans hlatched
      rw [blocks]
      exact Function.update_of_ne (apart h (latched_of_var hvar hb) owner (by simp)) _ _
    refine values_stored rfl (fun other var' ne hother =>
      valueOf_update h hother blocks owner (ne_slot ne _)) ?_
    exact valueOf_eq own kept
  · obtain ⟨calls, -, rest⟩ := Option.bind_eq_some_iff.mp set
    cases rest
    have kept : readLatched (s.heap.alloc text) var.latchedString = some latched := by
      refine (readLatched_congr fun b hb => Heap.blocks_alloc_of_isSome ?_ text).trans hlatched
      exact h.owns.live (.inl (name, .latchedString)) b (latched_of_var hvar hb)
    refine values_stored rfl (fun other var' _ hother => valueOf_alloc h hother text) ?_
    exact valueOf_eq (s.heap.blocks_alloc_next text) kept

theorem values_fsSetGamedir (p : Program κ) (dir : List UInt8) (s : State κ) :
    values (fsSetGamedir p dir s) = values s := by
  simp only [fsSetGamedir]
  split
  · rfl
  · split <;> rfl

/-- A block of the variable is freed and a new one allocated. -/
theorem valueOf_freed_alloc (h : Inv s) {other : List UInt8} (hvar : s.vars other = some var)
    {heap : Heap (List UInt8)} {b : Nat} (freed : s.heap.free b = some heap) {slot : Slot}
    (hb : slots s slot = some b) (ne : ∀ field, slot ≠ .inl (other, field)) (a : List UInt8) :
    valueOf (heap.alloc a) var = valueOf s.heap var := by
  refine valueOf_congr fun field c hc => ?_
  have hpointer := pointer_of_var hvar hc
  have live := h.owns.live (.inl (other, field)) c hpointer
  have kept : heap.blocks c = s.heap.blocks c := by
    rw [Heap.free_eq_some freed]
    exact Function.update_of_ne (apart h hpointer hb (ne field)) _ _
  rw [← kept] at live ⊢
  exact Heap.blocks_alloc_of_isSome live a

/-- `Cvar_Set2` for a latched variable. -/
theorem values_setLatched (h : Inv s) (hvar : s.vars name = some var)
    (meets : ¬ReplacesLatched s var value) (set : setLatched p name var value s = some t) :
    ∃ v, values s name = some v ∧ (values t = values s ∨
      s.serverState ≠ 0 ∧
        values t = Function.update (values s) name (some { v with latched := some value }) ∨
      s.serverState = 0 ∧
        values t = Function.update (values s) name (some { v with string := value })) := by
  obtain ⟨old, latched, hv, hold, hlatched⟩ := exists_value h hvar
  refine ⟨_, hv, ?_⟩
  have owner : slots s (.inl (name, .string)) = some var.string := pointers_of_var hvar .string
  cases hpointer : var.latchedString with
  | some b =>
    obtain ⟨text, htext⟩ := h.live_latched hvar hpointer
    have ownerLatched : slots s (.inl (name, .latchedString)) = some b := latched_of_var hvar hpointer
    simp only [setLatched, hpointer, htext, Option.bind_eq_bind, Option.bind_some] at set
    split at set
    · cases set
      exact .inl rfl
    · rename_i other
      have running : s.serverState ≠ 0 := fun dead => meets ⟨dead, b, text, hpointer, htext, other⟩
      obtain ⟨heap, freed, rest⟩ := Option.bind_eq_some_iff.mp set
      simp only [storeLatched, if_pos running] at rest
      cases rest
      refine .inr (.inl ⟨running, ?_⟩)
      refine values_stored rfl (fun other var' ne hother =>
        valueOf_freed_alloc h hother freed ownerLatched (ne_slot ne _) value) ?_
      have own : (heap.alloc value).blocks var.string = some old := by
        have kept : heap.blocks var.string = some old := by
          rw [Heap.free_eq_some freed]
          exact (Function.update_of_ne (apart h owner ownerLatched (by simp)) _ _).trans hold
        rw [Heap.blocks_alloc_of_isSome (by rw [kept]; rfl), kept]
      exact valueOf_eq own (readLatched_alloc heap value)
  | none =>
    rw [hpointer] at hlatched
    cases hlatched
    simp only [setLatched, hpointer, hold, Option.bind_eq_bind, Option.bind_some] at set
    split at set
    · cases set
      exact .inl rfl
    by_cases dead : s.serverState = 0
    · refine .inr (.inr ⟨dead, ?_⟩)
      rw [storeLatched, if_neg (not_not.mpr dead)] at set
      obtain ⟨heap, freed, rest⟩ := Option.bind_eq_some_iff.mp set
      have stored : values (({ s with heap := heap.alloc value } : State κ).setVar name
          { var with string := heap.next }) =
            Function.update (values s) name (some ⟨var.flags, value, none⟩) := by
        refine values_stored rfl (fun other var' ne hother =>
          valueOf_freed_alloc h hother freed owner (ne_slot ne _) value) ?_
        refine valueOf_eq (heap.blocks_alloc_next value) ?_
        rw [hpointer]
        rfl
      split at rest
      · cases rest
        rw [values_fsSetGamedir]
        exact stored
      · cases rest
        exact stored
    · refine .inr (.inl ⟨dead, ?_⟩)
      rw [storeLatched, if_pos dead] at set
      cases set
      refine values_stored rfl (fun other var' _ hother => valueOf_alloc h hother value) ?_
      have own : (s.heap.alloc value).blocks var.string = some old := by
        rw [Heap.blocks_alloc_of_isSome (by rw [hold]; rfl), hold]
      exact valueOf_eq own (readLatched_alloc s.heap value)

theorem values_cvarAdd (h : Inv s) (name value : List UInt8) (flags : UInt32) :
    values (cvarAdd name value flags s) =
      Function.update (values s) name (some ⟨flags, value, none⟩) := by
  refine values_stored rfl (fun other var' _ hother => valueOf_alloc h hother value) ?_
  exact valueOf_eq (s.heap.blocks_alloc_next value) rfl

/-- What `Cvar_Get` may make of an entry. -/
inductive GetEntry (name : List UInt8) (value : Option (List UInt8)) (flags : UInt32) :
    Option Value → Option Value → Prop
  | same (e : Option Value) : GetEntry name value flags e e
  | flagged (v : Value) : GetEntry name value flags (some v) (some { v with flags := v.flags ||| flags })
  | created (text : List UInt8) (given : value = some text) (sound : Sound flags text) :
      GetEntry name value flags none (some ⟨flags, text, none⟩)

/-- `Cvar_Get` changes the entry of one variable. -/
theorem values_cvarGet (h : Inv s) (name : List UInt8) (value : Option (List UInt8))
    (flags : UInt32) : ∃ after, GetEntry name value flags (values s name) after ∧
      values (cvarGet name value flags s) = Function.update (values s) name after := by
  have same : ∃ after, GetEntry name value flags (values s name) after ∧
      values s = Function.update (values s) name after :=
    ⟨values s name, .same _, (Function.update_eq_self name (values s)).symm⟩
  simp only [cvarGet]
  split
  · exact same
  cases hvar : s.vars name with
  | some var =>
    obtain ⟨old, latched, hv, hold, hlatched⟩ := exists_value h hvar
    have flagged : values (s.setVar name { var with flags := var.flags ||| flags }) =
        Function.update (values s) name (some ⟨var.flags ||| flags, old, latched⟩) :=
      values_stored rfl (fun _ _ _ _ => rfl) (valueOf_eq hold hlatched)
    refine ⟨some ⟨var.flags ||| flags, old, latched⟩, hv ▸ .flagged _, ?_⟩
    cases value with
    | none => exact flagged
    | some value =>
      simp only
      split
      · exact flagged
      · exact flagged
  | none =>
    have unset : values s name = none := by
      simp only [values, hvar, Option.bind_none]
    cases value with
    | none => exact same
    | some value =>
      simp only
      split
      · exact same
      · rename_i valid
        refine ⟨_, unset ▸ .created value rfl fun info => ?_, values_cvarAdd h name value flags⟩
        simpa [show hasFlags flags (cvarUserinfo ||| cvarServerinfo) = true from info] using valid

/-- What `Cvar_FullSet` may make of an entry before its callback. -/
inductive FullSetEntry (name value : List UInt8) (flags : UInt32) : Option Value → Option Value → Prop
  | assigned (v : Value) : FullSetEntry name value flags (some v) (some { v with string := value })
  | new (after : Option Value) (got : GetEntry name (some value) flags none after) :
      FullSetEntry name value flags none after

/-- `Cvar_FullSet` changes the entry of one variable. -/
theorem values_cvarFullSet (h : Inv s) {flags : UInt32}
    (set : cvarFullSet p name value flags s = some t) :
    ∃ after, FullSetEntry name value flags (values s name) after ∧
      values t = Function.update (values s) name after := by
  cases hvar : s.vars name with
  | none =>
    obtain ⟨after, got, hafter⟩ := values_cvarGet h name (some value) flags
    have unset : values s name = none := by
      simp only [values, hvar, Option.bind_none]
    rw [unset] at got ⊢
    simp only [cvarFullSet, hvar] at set
    cases set
    exact ⟨after, .new after got, hafter⟩
  | some var =>
    obtain ⟨old, latched, hv, hold, hlatched⟩ := exists_value h hvar
    simp only [cvarFullSet, hvar] at set
    obtain ⟨calls, -, rest⟩ := Option.bind_eq_some_iff.mp set
    cases rest
    rw [hv]
    refine ⟨_, .assigned _, values_stored rfl
      (fun other var' _ hother => valueOf_alloc h hother value) ?_⟩
    have kept : readLatched (s.heap.alloc value) var.latchedString = some latched := by
      refine (readLatched_congr fun b hb => Heap.blocks_alloc_of_isSome ?_ value).trans hlatched
      exact h.owns.live (.inl (name, .latchedString)) b (latched_of_var hvar hb)
    exact valueOf_eq (s.heap.blocks_alloc_next value) kept

theorem values_forgetLatched (h : Inv s) (hvar : s.vars name = some var) {b : Nat}
    (hlatched : var.latchedString = some b) {heap : Heap (List UInt8)}
    (freed : s.heap.free b = some heap) : ∃ v, values s name = some v ∧
      values (({ s with heap } : State κ).setVar name { var with latchedString := none }) =
        Function.update (values s) name (some { v with latched := none }) := by
  obtain ⟨old, latched, hv, hold, -⟩ := exists_value h hvar
  refine ⟨_, hv, ?_⟩
  have owner : slots s (.inl (name, .string)) = some var.string := pointers_of_var hvar .string
  have ownerLatched : slots s (.inl (name, .latchedString)) = some b := latched_of_var hvar hlatched
  have blocks := Heap.free_eq_some freed
  refine values_stored rfl (fun other var' ne hother =>
    valueOf_update h hother blocks ownerLatched (ne_slot ne _)) ?_
  have own : heap.blocks var.string = some old := by
    rw [blocks]
    exact (Function.update_of_ne (apart h owner ownerLatched (by simp)) _ _).trans hold
  exact valueOf_eq own rfl

/-- What `Cvar_Set2` may make of an entry. -/
inductive Set2Entry (name value : List UInt8) (force : Bool) (serverState : Nat) :
    Option Value → Option Value → Prop
  | same (e : Option Value) : Set2Entry name value force serverState e e
  | new (after : Option Value) (got : GetEntry name (some value) 0 none after) :
      Set2Entry name value force serverState none after
  | assigned (v : Value) (text : List UInt8) (sound : Sound v.flags value) (made : From value text)
      (free : force = true ∨
        hasFlags v.flags cvarNoset = false ∧ hasFlags v.flags cvarLatch = false) :
      Set2Entry name value force serverState (some v)
        (some { v with string := text, latched := if force then none else v.latched })
  | latched (v : Value) (text : List UInt8) (sound : Sound v.flags value) (inside : text ⊆ value)
      (latch : hasFlags v.flags cvarLatch = true) (free : hasFlags v.flags cvarNoset = false)
      (running : serverState ≠ 0) :
      Set2Entry name value force serverState (some v) (some { v with latched := some text })
  | replaced (v : Value) (text : List UInt8) (sound : Sound v.flags value) (inside : text ⊆ value)
      (free : hasFlags v.flags cvarNoset = false) (dead : serverState = 0) :
      Set2Entry name value force serverState (some v) (some { v with string := text })

/-- `Cvar_Set2` changes the entry of one variable. -/
theorem values_cvarSet2 (h : Inv s) {force : Bool}
    (meets : force = false → ¬LeavesDangling p name value s)
    {argv : Bool} (set : cvarSet2 p name value force argv s = some t) :
    ∃ after, Set2Entry name value force s.serverState (values s name) after ∧
      values t = Function.update (values s) name after := by
  have same : ∃ after, Set2Entry name value force s.serverState (values s name) after ∧
      values s = Function.update (values s) name after :=
    ⟨values s name, .same _, (Function.update_eq_self name (values s)).symm⟩
  simp only [cvarSet2] at set
  split at set
  · cases set
    exact same
  rename_i writable
  cases hvar : s.vars name with
  | none =>
    rw [hvar] at set
    cases set
    obtain ⟨after, got, hafter⟩ := values_cvarGet h name (some value) 0
    have unset : values s name = none := by
      simp only [values, hvar, Option.bind_none]
    rw [unset] at got ⊢
    exact ⟨after, .new after got, hafter⟩
  | some var =>
    obtain ⟨old, latched, hv, hold, hlatched⟩ := exists_value h hvar
    simp only [hvar] at set
    split at set
    · cases set
      exact same
    rename_i valid
    have sound : Sound var.flags value := by
      intro info
      simpa [show hasFlags var.flags (cvarUserinfo ||| cvarServerinfo) = true from info] using valid
    have inside := clientdirValue_subset p name value
    have made : ∀ overwrites, From value (storedValue overwrites name (clientdirValue p name value)) :=
      fun overwrites => (from_storedValue overwrites name _).imp_left fun h => List.Subset.trans h inside
    rw [hv]
    split at set
    · rename_i forced
      subst forced
      cases hpointer : var.latchedString with
      | none =>
        rw [hpointer] at hlatched set
        cases hlatched
        obtain ⟨v, overwrites, hv', assigned⟩ := values_setString h hvar set
        cases hv.symm.trans hv'
        exact ⟨_, .assigned _ _ sound (made overwrites) (.inl rfl), assigned⟩
      | some b =>
        obtain ⟨heap, freed, forgot⟩ := inv_forgetLatched h hvar hpointer
        obtain ⟨v, hv', forgotten⟩ := values_forgetLatched h hvar hpointer freed
        cases hv.symm.trans hv'
        simp only [hpointer, freed, Option.bind_eq_bind, Option.bind_some] at set
        obtain ⟨v, overwrites, hv', assigned⟩ := values_setString forgot (Function.update_self ..) set
        rw [forgotten, Function.update_self] at hv'
        cases hv'
        rw [forgotten, Function.update_idem] at assigned
        exact ⟨_, .assigned _ _ sound (made overwrites) (.inl rfl), assigned⟩
    · rename_i unforced
      have unforced : force = false := Bool.eq_false_iff.mpr unforced
      split at set
      · cases set
        rw [← hv]
        exact same
      rename_i free
      have free : hasFlags var.flags cvarNoset = false := Bool.eq_false_iff.mpr free
      split at set
      · rename_i latch
        have intact : ¬ReplacesLatched s var (clientdirValue p name value) := fun replaces =>
          meets unforced ⟨fun hdollar => writable ⟨hdollar, unforced⟩, var, hvar,
            Bool.eq_false_iff.mpr valid, free, latch, replaces⟩
        obtain ⟨v, hv', changed⟩ := values_setLatched h hvar intact set
        cases hv.symm.trans hv'
        rcases changed with unchanged | ⟨running, changed⟩ | ⟨dead, changed⟩
        · exact ⟨_, .same _, unchanged.trans (update_value hv).symm⟩
        · exact ⟨_, .latched _ _ sound inside latch free running, changed⟩
        · exact ⟨_, .replaced _ _ sound inside free dead, changed⟩
      · rename_i unlatched
        obtain ⟨v, overwrites, hv', assigned⟩ := values_setString h hvar set
        cases hv.symm.trans hv'
        have kept := @Set2Entry.assigned name value force s.serverState ⟨var.flags, old, latched⟩ _ sound
          (made overwrites) (.inr ⟨free, Bool.eq_false_iff.mpr unlatched⟩)
        rw [unforced] at kept ⊢
        exact ⟨_, kept, assigned⟩

/-! ## Steps -/

abbrev Values := List UInt8 → Option Value

/-- What a task may make of the values. -/
inductive Change (serverState : Nat) : Cvar.Task κ → Values → Values → Prop
  | same {task : Cvar.Task κ} (f : Values)
      (quiet : ∀ name value flags, task ≠ .call (.fullSet name value flags)) :
      Change serverState task f f
  | get {name : List UInt8} {value : Option (List UInt8)} {flags : UInt32} {f : Values}
      {after : Option Value} (entry : GetEntry name value flags (f name) after) :
      Change serverState (.call (.get name value flags)) f (Function.update f name after)
  | set2 {name value : List UInt8} {force argv : Bool} {f : Values} {after : Option Value}
      (entry : Set2Entry name value force serverState (f name) after) :
      Change serverState (.call (.set2 name value force argv)) f (Function.update f name after)
  | fullSet {name value : List UInt8} {flags : UInt32} {f : Values} {after : Option Value}
      (entry : FullSetEntry name value flags (f name) after) :
      Change serverState (.call (.fullSet name value flags)) f (Function.update f name after)
  | clientdir {value : List UInt8} {f : Values} {after : Option Value}
      (given : value = [] ∨ ∃ v, f (ascii "gamedir") = some v ∧ v.string = value)
      (entry : FullSetEntry (ascii "clientdir") value cvarLatch (f (ascii "clientdir")) after) :
      Change serverState .setClientdir f (Function.update f (ascii "clientdir") after)
  | fullSetRest {name : List UInt8} {oldString : Nat} {flags : UInt32} {f : Values} {v : Value}
      (hv : f name = some v) : Change serverState (.fullSetRest name oldString flags) f
        (Function.update f name (some { v with flags }))
  | latched {name text : List UInt8} {names : List (List UInt8)} {f : Values} {v : Value}
      (hv : f name = some v) (held : v.latched = some text) :
      Change serverState (.latchedVars (name :: names)) f
        (Function.update f name (some { v with string := text, latched := none }))

/-- No variable points at the block. -/
def Stray (s : State κ) (b : Nat) : Prop :=
  ∀ heap other var, s.heap.free b = some heap → s.vars other = some var →
    valueOf heap var = valueOf s.heap var

/-- The old string that a task holds may go. -/
theorem stray_held (h : Inv s) {task : Cvar.Task κ} {agenda : List (Cvar.Task κ)} {b : Nat}
    (hagenda : s.agenda = task :: agenda) (hheld : task.held = some b) :
    Stray { s with agenda } b := by
  intro heap other var freed hvar
  have owner : slots s (.inr b) = some b := by
    refine if_pos ?_
    simp only [held, hagenda, List.filterMap_cons, hheld, List.mem_cons, true_or]
  exact valueOf_update h hvar (Heap.free_eq_some freed) owner fun field => by simp

theorem values_setChanged (h : Inv s) {changed : κ}
    (set : performCall p (.setChanged name changed) s = some t) : values t = values s := by
  cases hvar : s.vars name with
  | none =>
    simp only [performCall, hvar] at set
    cases set
    rfl
  | some var =>
    simp only [performCall, hvar] at set
    cases set
    obtain ⟨old, latched, hv, hold, hlatched⟩ := exists_value h hvar
    have stored : values (s.setVar name { var with changed := some changed }) =
        Function.update (values s) name (some ⟨var.flags, old, latched⟩) :=
      values_stored rfl (fun _ _ _ _ => rfl) (valueOf_eq hold hlatched)
    rw [stored, update_value hv]

/-- What a call may make of the values. -/
theorem change_performCall (h : Inv s) {c : Call κ}
    (meets : ∀ name value argv, c = .set2 name value false argv → ¬LeavesDangling p name value s)
    (set : performCall p c s = some t) :
    Change s.serverState (.call c) (values s) (values t) := by
  cases c with
  | get name value flags =>
    cases set
    obtain ⟨after, entry, hafter⟩ := values_cvarGet h name value flags
    exact hafter ▸ .get entry
  | set2 name value force argv =>
    have intact : force = false → ¬LeavesDangling p name value s := by
      rintro rfl
      exact meets name value argv rfl
    obtain ⟨after, entry, hafter⟩ := values_cvarSet2 h intact set
    exact hafter ▸ .set2 entry
  | fullSet name value flags =>
    obtain ⟨after, entry, hafter⟩ := values_cvarFullSet h set
    exact hafter ▸ .fullSet entry
  | getLatchedVars =>
    cases set
    exact .same _ (by simp)
  | setServerState state =>
    cases set
    exact .same _ (by simp)
  | setChanged name changed =>
    rw [values_setChanged h set]
    exact .same _ (by simp)

theorem change_setClientdir (h : Inv s) (set : setClientdir p s = some t) :
    Change s.serverState (.setClientdir : Cvar.Task κ) (values s) (values t) := by
  have full : ∃ value, cvarFullSet p (ascii "clientdir") value cvarLatch s = some t ∧
      (value = [] ∨ ∃ v, values s (ascii "gamedir") = some v ∧ v.string = value) := by
    simp only [setClientdir] at set
    split at set
    · rename_i var hvar
      obtain ⟨gamedir, read, hfull⟩ := Option.bind_eq_some_iff.mp set
      obtain ⟨old, latched, hv, hold, -⟩ := exists_value h hvar
      exact ⟨gamedir, hfull, .inr ⟨_, hv, Option.some.inj (hold.symm.trans read)⟩⟩
    · exact ⟨[], set, .inl rfl⟩
  obtain ⟨value, full, given⟩ := full
  obtain ⟨after, entry, hafter⟩ := values_cvarFullSet h full
  exact hafter ▸ .clientdir given entry

theorem values_set2Rest {oldString : Option Nat} (stray : ∀ b, oldString = some b → Stray s b)
    (set : set2Rest name oldString s = some t) : values t = values s := by
  simp only [set2Rest] at set
  cases oldString with
  | none =>
    cases set
    split <;> rfl
  | some b =>
    obtain ⟨heap, freed, rest⟩ := Option.map_eq_some_iff.mp set
    have freed : s.heap.free b = some heap := by
      split at freed <;> exact freed
    rw [← rest]
    refine values_same (by split <;> rfl) fun other var hvar => ?_
    exact stray b rfl heap other var freed hvar

/-- The flags of the variable are set. -/
theorem change_fullSetRest {oldString : Nat} {flags : UInt32}
    (valued : ∀ var, s.vars name = some var →
      ∃ old latched, values s name = some ⟨var.flags, old, latched⟩) (stray : Stray s oldString) (set : fullSetRest name oldString flags s = some t) :
    Change s.serverState (.fullSetRest name oldString flags : Cvar.Task κ) (values s) (values t) := by
  simp only [fullSetRest] at set
  obtain ⟨heap, freed, rest⟩ := Option.bind_eq_some_iff.mp set
  have elsewhere : ∀ other var, s.vars other = some var → valueOf heap var = valueOf s.heap var :=
    fun other var hvar => stray heap other var freed hvar
  cases hvar : s.vars name with
  | none =>
    simp only [hvar] at rest
    cases rest
    have kept : values ({ s with heap } : State κ) = values s := values_same rfl elsewhere
    rw [kept]
    exact .same _ (by simp)
  | some var =>
    simp only [hvar] at rest
    cases rest
    obtain ⟨old, latched, hv⟩ := valued var hvar
    have own : valueOf heap var = some ⟨var.flags, old, latched⟩ := by
      rw [elsewhere name var hvar, ← hv, values, hvar, Option.bind_some]
    have stored : values (({ s with heap } : State κ).setVar name { var with flags }) =
        Function.update (values s) name (some ⟨flags, old, latched⟩) :=
      values_stored rfl (fun other var _ hother => elsewhere other var hother)
        (valueOf_flags own flags)
    exact stored ▸ .fullSetRest hv

/-- A latched string becomes the string of its variable. -/
theorem change_latchedVars (h : Inv s) {names : List (List UInt8)}
    (set : latchedVars p names s = some t) :
    Change s.serverState (.latchedVars names : Cvar.Task κ) (values s) (values t) := by
  cases names with
  | nil =>
    cases set
    exact .same _ (by simp)
  | cons name names =>
    simp only [latchedVars] at set
    cases hvar : s.vars name with
    | none =>
      simp only [hvar] at set
      cases set
      exact .same _ (by simp)
    | some var =>
      obtain ⟨old, latched, hv, -, hlatched⟩ := exists_value h hvar
      simp only [hvar] at set
      cases hpointer : var.latchedString with
      | none =>
        simp only [hpointer] at set
        cases set
        exact .same _ (by simp)
      | some b =>
        simp only [hpointer] at set
        obtain ⟨text, htext, rest⟩ := Option.bind_eq_some_iff.mp set
        obtain ⟨calls, -, rest⟩ := Option.bind_eq_some_iff.mp rest
        cases rest
        rw [hpointer, readLatched] at hlatched
        obtain ⟨text', htext', rfl⟩ := Option.map_eq_some_iff.mp hlatched
        obtain rfl := Option.some.inj (htext.symm.trans htext')
        have stored : values (s.setVar name { var with string := b, latchedString := none }) =
            Function.update (values s) name (some ⟨var.flags, text, none⟩) :=
          values_stored rfl (fun _ _ _ _ => rfl) (valueOf_eq htext rfl)
        rw [values_push, stored]
        exact .latched hv rfl

theorem values_latchedRest {oldString : Nat} (stray : Stray s oldString)
    (set : latchedRest p name oldString s = some t) : values t = values s := by
  simp only [latchedRest] at set
  obtain ⟨heap, freed, rest⟩ := Option.bind_eq_some_iff.mp set
  have elsewhere : values ({ s with heap } : State κ) = values s :=
    values_same rfl fun other var hvar => stray heap other var freed hvar
  split at rest
  · split at rest
    · obtain ⟨dir, -, rest⟩ := Option.bind_eq_some_iff.mp rest
      cases rest
      rw [values_fsSetGamedir, elsewhere]
    · cases rest
      exact elsewhere
  · cases rest
    exact elsewhere

/-- A step makes of the values what its task may make of them. -/
theorem values_step (h : Inv s) (meets : Meets p s) {task : Cvar.Task κ}
    {agenda : List (Cvar.Task κ)} (hagenda : s.agenda = task :: agenda) (hstep : step p s = some t) :
    Change s.serverState task (values s) (values t) := by
  simp only [step, hagenda] at hstep
  have popped : task.held = none → Inv { s with agenda } := h.pop hagenda
  have stray : ∀ b, task.held = some b → Stray { s with agenda } b := fun b => stray_held h hagenda
  cases task with
  | call c =>
    refine change_performCall (popped rfl) ?_ hstep
    rintro name value argv rfl
    exact meets name value argv agenda hagenda
  | setClientdir => exact change_setClientdir (s := { s with agenda }) (popped rfl) hstep
  | set2Rest name oldString =>
    have kept : values t = values s := values_set2Rest (s := { s with agenda }) stray hstep
    rw [kept]
    exact .same _ (by simp)
  | fullSetRest name oldString flags =>
    refine change_fullSetRest (s := { s with agenda }) (fun var hvar => ?_) (stray oldString rfl) hstep
    obtain ⟨old, latched, hv, -, -⟩ := exists_value h hvar
    exact ⟨old, latched, hv⟩
  | latchedVars names => exact change_latchedVars (s := { s with agenda }) (popped rfl) hstep
  | latchedRest name oldString =>
    have kept : values t = values s := values_latchedRest (s := { s with agenda }) (stray oldString rfl) hstep
    rw [kept]
    exact .same _ (by simp)

end CvarValues
