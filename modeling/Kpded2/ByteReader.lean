import Mathlib.Data.List.Basic
import Mathlib.Logic.Function.Basic
import Mathlib.Order.Fin.Basic

/-!
# Readers of byte strings

A reader takes bytes from the front and leaves the rest; it fails at the end of the
input. `Reads p bytes a` says that `p` reads exactly `bytes`, whatever follows, and
returns `a`.
-/
namespace ByteReader

variable {α β : Type}

abbrev Reader (α : Type) := StateT (List UInt8) Option α

def Reads (p : Reader α) (bytes : List UInt8) (a : α) : Prop :=
  ∀ rest, p.run (bytes ++ rest) = some (a, rest)

theorem reads_pure (a : α) : Reads (pure a) [] a := fun _ => rfl

theorem Reads.bind {p : Reader α} {f : α → Reader β} {xs ys : List UInt8} {a : α} {b : β}
    (hp : Reads p xs a) (hf : Reads (f a) ys b) : Reads (p >>= f) (xs ++ ys) b := by
  intro rest
  rw [StateT.run_bind, List.append_assoc, hp (ys ++ rest)]
  exact hf rest

theorem Reads.last {p : Reader α} {f : α → β} {xs : List UInt8} {a : α} (hp : Reads p xs a) :
    Reads (p >>= fun a => pure (f a)) xs (f a) := by
  have hread := hp.bind (f := fun a => pure (f a)) (reads_pure (f a))
  rwa [List.append_nil] at hread

theorem Reads.map {p : Reader α} {f : α → β} {xs : List UInt8} {a : α} (hp : Reads p xs a) :
    Reads (f <$> p) xs (f a) := by
  intro rest
  rw [StateT.run_map, hp rest]
  rfl

/-- What a reader reads cannot be taken for something else, or for a part of it. -/
theorem Reads.unique {p : Reader α} {xs ys rest rest' : List UInt8} {a b : α} (hx : Reads p xs a)
    (hy : Reads p ys b) (h : xs ++ rest = ys ++ rest') : a = b ∧ rest = rest' := by
  have hread := hx rest
  rw [h, hy rest'] at hread
  obtain ⟨hvalue, hrest⟩ := Prod.mk.inj (Option.some.inj hread)
  exact ⟨hvalue.symm, hrest.symm⟩

def readByte : Reader UInt8 := fun
  | [] => none
  | b :: rest => some (b, rest)

theorem reads_readByte (b : UInt8) : Reads readByte [b] b := fun _ => rfl

/-- `count` things one after the other. -/
def readMany (p : Reader α) : Nat → Reader (List α)
  | 0 => pure []
  | count + 1 => do
    let a ← p
    let as ← readMany p count
    pure (a :: as)

theorem reads_readMany {p : Reader α} {ι : Type} {bytes : ι → List UInt8} {value : ι → α}
    (h : ∀ i, Reads p (bytes i) (value i)) (is : List ι) :
    Reads (readMany p is.length) (is.flatMap bytes) (is.map value) := by
  induction is with
  | nil => exact reads_pure []
  | cons i is ih => exact (h i).bind ih.last

/-- One reader for each element of a list. -/
def readEach {ι : Type} (p : ι → Reader α) : List ι → Reader (List α)
  | [] => pure []
  | i :: is => do
    let a ← p i
    let as ← readEach p is
    pure (a :: as)

theorem reads_readEach {ι : Type} {p : ι → Reader α} {bytes : ι → List UInt8} {value : ι → α}
    (h : ∀ i, Reads (p i) (bytes i) (value i)) (is : List ι) :
    Reads (readEach p is) (is.flatMap bytes) (is.map value) := by
  induction is with
  | nil => exact reads_pure []
  | cons i is ih => exact (h i).bind ih.last

theorem readEach_map {ι κ : Type} (p : ι → Reader α) (f : κ → ι) (is : List κ) :
    readEach p (is.map f) = readEach (fun i => p (f i)) is := by
  induction is with
  | nil => rfl
  | cons i is ih => simp only [List.map_cons, readEach, ih]

/-- A new value for each of the positions of a vector, read with the old one in hand. -/
def readOver {n : Nat} (p : α → Reader α) : List (Fin n) → Vector α n → Reader (Vector α n)
  | [], v => pure v
  | i :: is, v => do
    let a ← p v[i]
    readOver p is (v.set i.val a i.isLt)

theorem getElem_set_fin {n : Nat} (v : Vector α n) (i j : Fin n) (a : α) :
    (v.set i.val a i.isLt)[j] = if i = j then a else v[j] := by
  simp only [Fin.getElem_fin, Vector.getElem_set, Fin.ext_iff]

/-- A list of fields is read back field by field, and the others are kept. -/
theorem reads_readOver {n : Nat} {p : α → Reader α} {bytes : Fin n → List UInt8}
    {value : Fin n → α} {v : Vector α n} {is : List (Fin n)} (nodup : is.Nodup)
    (h : ∀ i ∈ is, Reads (p v[i]) (bytes i) (value i)) :
    Reads (readOver p is v) (is.flatMap bytes)
      (Vector.ofFn fun j => if j ∈ is then value j else v[j]) := by
  induction is generalizing v with
  | nil =>
    have hsame : (Vector.ofFn fun j : Fin n => if j ∈ [] then value j else v[j]) = v := by
      ext j hj
      simp
    rw [hsame]
    exact reads_pure v
  | cons i is ih =>
    obtain ⟨hi, hnodup⟩ := List.nodup_cons.mp nodup
    have hrest : ∀ j ∈ is, Reads (p (v.set i.val (value i) i.isLt)[j]) (bytes j) (value j) := by
      intro j hj
      have hne : i ≠ j := fun heq => hi (heq ▸ hj)
      rw [getElem_set_fin, if_neg hne]
      exact h j (List.mem_cons_of_mem i hj)
    have hvalue : (Vector.ofFn fun j =>
          if j ∈ is then value j else (v.set i.val (value i) i.isLt)[j]) =
        Vector.ofFn fun j => if j ∈ i :: is then value j else v[j] := by
      refine congrArg Vector.ofFn (funext fun j => ?_)
      rw [getElem_set_fin]
      by_cases heq : i = j
      · subst heq
        simp
      · simp [heq, Ne.symm heq]
    rw [List.flatMap_cons, ← hvalue]
    exact (h i List.mem_cons_self).bind (ih hnodup hrest)

/-- A new value for each of the members of a family, read with the old one in hand. -/
def readFamily {ι : Type} [DecidableEq ι] {V : ι → Type} (p : (i : ι) → V i → Reader (V i)) :
    List ι → ((i : ι) → V i) → Reader ((i : ι) → V i)
  | [], v => pure v
  | i :: is, v => do
    let a ← p i (v i)
    readFamily p is (Function.update v i a)

theorem reads_readFamily {ι : Type} [DecidableEq ι] {V : ι → Type}
    {p : (i : ι) → V i → Reader (V i)} {bytes : ι → List UInt8} {v value : (i : ι) → V i}
    {is : List ι} (nodup : is.Nodup) (h : ∀ i ∈ is, Reads (p i (v i)) (bytes i) (value i)) :
    Reads (readFamily p is v) (is.flatMap bytes) (fun i => if i ∈ is then value i else v i) := by
  induction is generalizing v with
  | nil => exact reads_pure v
  | cons i is ih =>
    obtain ⟨hi, hnodup⟩ := List.nodup_cons.mp nodup
    have hrest : ∀ j ∈ is, Reads (p j (Function.update v i (value i) j)) (bytes j) (value j) := by
      intro j hj
      have hne : j ≠ i := fun heq => hi (heq ▸ hj)
      rw [Function.update_of_ne hne]
      exact h j (List.mem_cons_of_mem i hj)
    have hvalue : (fun j => if j ∈ is then value j else Function.update v i (value i) j) =
        fun j => if j ∈ i :: is then value j else v j := by
      funext j
      by_cases heq : j = i
      · subst heq
        simp [hi]
      · simp [heq]
    rw [List.flatMap_cons, ← hvalue]
    exact (h i List.mem_cons_self).bind (ih hnodup hrest)

end ByteReader
