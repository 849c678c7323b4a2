import Mathlib.Data.List.Basic

/-!
# Outcomes of fallible code

`Ensures bad Post x`: the computation `x` either returns a value with `Post`, or
stops with an error other than `bad`. `Returns Post x` allows every error. `Agrees R x y`:
both return values that `R` relates, or both stop with the same error.
-/
namespace Outcome

universe u
variable {ε α β : Type u} {bad : ε} {Post : α → Prop} {Next : β → Prop}

def Ensures (bad : ε) (Post : α → Prop) : Except ε α → Prop
  | .ok a => Post a
  | .error e => e ≠ bad

theorem ensures_ok {a : α} (h : Post a) : Ensures bad Post (.ok a) := h

theorem ensures_error {e : ε} (h : e ≠ bad) : Ensures bad Post (.error e) := h

theorem Ensures.bind {x : Except ε α} {f : α → Except ε β} (hx : Ensures bad Post x)
    (hf : ∀ a, Post a → Ensures bad Next (f a)) : Ensures bad Next (x >>= f) := by
  cases x with
  | ok a => exact hf a hx
  | error e => exact hx

theorem Ensures.mono {x : Except ε α} {Weaker : α → Prop} (hx : Ensures bad Post x)
    (h : ∀ a, Post a → Weaker a) : Ensures bad Weaker x := by
  cases x with
  | ok a => exact h a hx
  | error e => exact hx

theorem ensures_of_eq_ok {x : Except ε α} {a : α} (hx : x = .ok a) (h : Post a) :
    Ensures bad Post x := by
  rw [hx]
  exact h

def Returns (Post : α → Prop) : Except ε α → Prop
  | .ok a => Post a
  | .error _ => True

theorem returns_ok {a : α} (h : Post a) : Returns Post (.ok a : Except ε α) := h

theorem returns_error (e : ε) : Returns Post (.error e) := trivial

theorem returns_any (x : Except ε α) : Returns (fun _ => True) x := by
  cases x <;> exact trivial

theorem Returns.bind {x : Except ε α} {f : α → Except ε β} (hx : Returns Post x)
    (hf : ∀ a, Post a → Returns Next (f a)) : Returns Next (x >>= f) := by
  cases x with
  | ok a => exact hf a hx
  | error e => exact trivial

theorem Returns.mono {x : Except ε α} {Weaker : α → Prop} (hx : Returns Post x)
    (h : ∀ a, Post a → Weaker a) : Returns Weaker x := by
  cases x with
  | ok a => exact h a hx
  | error e => exact trivial

theorem Ensures.returns {x : Except ε α} (hx : Ensures bad Post x) : Returns Post x := by
  cases x with
  | ok a => exact hx
  | error e => exact trivial

theorem exists_of_toBool {x : Except ε α} (h : x.toBool = true) : ∃ a, x = .ok a := by
  cases x with
  | ok a => exact ⟨a, rfl⟩
  | error e => cases h

theorem exists_of_bind_eq_ok {x : Except ε α} {f : α → Except ε β} {b : β}
    (h : x >>= f = .ok b) : ∃ a, x = .ok a ∧ f a = .ok b := by
  cases x with
  | ok a => exact ⟨a, rfl, h⟩
  | error e => cases h

theorem bind_of_ok {x : Except ε α} {f : α → Except ε β} {a : α} {y : Except ε β} (hx : x = .ok a)
    (hf : f a = y) : x >>= f = y := by
  rw [hx]
  exact hf

theorem bind_of_error {x : Except ε α} {f : α → Except ε β} {e : ε} (hx : x = .error e) :
    x >>= f = .error e := by
  rw [hx]
  rfl

section Agreement

variable {α' β' : Type u} {R : α → α' → Prop} {S : β → β' → Prop}

def Agrees (R : α → α' → Prop) : Except ε α → Except ε α' → Prop
  | .ok a, .ok b => R a b
  | .error e, .error e' => e = e'
  | _, _ => False

theorem agrees_ok {a : α} {b : α'} (h : R a b) : Agrees R (.ok a : Except ε α) (.ok b) := h

theorem agrees_error (e : ε) : Agrees R (.error e) (.error e) := rfl

/-- The same computation on both sides. -/
theorem agrees_self (x : Except ε α) : Agrees (· = ·) x x := by
  cases x <;> exact rfl

theorem Agrees.bind {x : Except ε α} {y : Except ε α'} {f : α → Except ε β} {g : α' → Except ε β'}
    (h : Agrees R x y) (hf : ∀ a b, R a b → Agrees S (f a) (g b)) :
    Agrees S (x >>= f) (y >>= g) := by
  cases x with
  | ok a =>
    cases y with
    | ok b => exact hf a b h
    | error e => exact h.elim
  | error e =>
    cases y with
    | ok b => exact h.elim
    | error e' => exact h

theorem Agrees.mono {x : Except ε α} {y : Except ε α'} {R' : α → α' → Prop} (h : Agrees R x y)
    (weaker : ∀ a b, R a b → R' a b) : Agrees R' x y := by
  cases x with
  | ok a =>
    cases y with
    | ok b => exact weaker a b h
    | error e => exact h.elim
  | error e =>
    cases y with
    | ok b => exact h.elim
    | error e' => exact h

/-- What the second side returns, told of the first. -/
theorem Agrees.returns {x : Except ε α} {y : Except ε α'} {Post : α → Prop} {Post' : α' → Prop}
    (h : Agrees R x y) (hy : Returns Post' y) (post : ∀ a b, R a b → Post' b → Post a) :
    Returns Post x := by
  cases x with
  | ok a =>
    cases y with
    | ok b => exact post a b h hy
    | error e => exact h.elim
  | error e => exact trivial

theorem Agrees.returns_right {x : Except ε α} {y : Except ε α'} {Post : α' → Prop}
    (h : Agrees R x y) (post : ∀ a b, R a b → Post b) : Returns Post y := by
  cases x with
  | ok a =>
    cases y with
    | ok b => exact post a b h
    | error e => exact trivial
  | error e =>
    cases y with
    | ok b => exact h.elim
    | error e' => exact trivial

end Agreement

end Outcome
