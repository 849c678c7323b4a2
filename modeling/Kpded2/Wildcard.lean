import Mathlib.Algebra.Order.BigOperators.Group.List
import Mathlib.Algebra.Order.Ring.Nat
import Mathlib.Data.List.Infix
import Mathlib.Data.List.TakeWhile

/-!
# Wildcards

`wildcardfit` walks through a wildcard and a string side by side. An asterisk first takes the marks
behind it, and then looks for a place in the string from which the rest of the wildcard fits, with
`wildcardfit` itself; then it goes on from there. Here the two pointers are what is left of both
strings. `Com_ValidWildcard` is asked before a wildcard from outside is tried.
-/
namespace Wildcard

def star : UInt8 := 42
def question : UInt8 := 63
def opening : UInt8 := 91
def closing : UInt8 := 93
def bang : UInt8 := 33
def dash : UInt8 := 45

/-- A `char` is signed. -/
def value (c : UInt8) : Int := c.toInt8.toInt

/-- The loop of `set`, with the character that stands before `wildcard`. What comes back is `fit`,
and the wildcard from the closing bracket on. -/
def setLoop (test : UInt8) : Bool → Bool → UInt8 → List UInt8 → Bool × List UInt8
  | fit, _, _, [] => (fit, [])
  | fit, atBeginning, _, [c] =>
    if c = closing ∧ ¬atBeginning then (fit, [c]) else (fit || c = test, [])
  | fit, atBeginning, previous, c :: next :: rest =>
    if c = closing ∧ ¬atBeginning then (fit, c :: next :: rest)
    else if fit then setLoop test true false c (next :: rest)
    else if c = dash ∧ value previous < value next ∧ next ≠ closing ∧ ¬atBeginning then
      if value previous ≤ value test ∧ value test ≤ value next then
        setLoop test true false next rest
      else setLoop test false false c (next :: rest)
    else setLoop test (c = test) false c (next :: rest)

/-- `set`, for a string that is not empty. -/
def scanSet (wildcard : List UInt8) (test : UInt8) : Bool × List UInt8 :=
  match wildcard with
  | c :: rest =>
    if c = bang then
      let (fit, wildcard) := setLoop test false true c rest
      (!fit, wildcard)
    else setLoop test false true opening (c :: rest)
  | [] => (false, [])

/-- Past a leading `!` and a `]` straight after it there is a `]`. -/
def closed (wildcard : List UInt8) : Bool :=
  let close := if wildcard.head? = some bang then wildcard.tail else wildcard
  let close := if close.head? = some closing then close.tail else close
  close.contains closing

/-- The marks behind an asterisk. -/
def skipMarks : List UInt8 → List UInt8 → List UInt8 × List UInt8
  | c :: wildcard, t :: test =>
    if c = question then skipMarks wildcard test
    else if c = star then skipMarks wildcard (t :: test)
    else (c :: wildcard, t :: test)
  | wildcard, test => (wildcard, test)

def eraseStars (wildcard : List UInt8) : List UInt8 := wildcard.dropWhile (· = star)

/-- The next place, if not this one, at which the rest of the wildcard fits. Where its first
character is not found, it is not tried. -/
def seek (fits : List UInt8 → Bool) (first : Option UInt8) : List UInt8 → Bool × List UInt8
  | [] => (false, [])
  | c :: test =>
    if first ≠ some c ∧ first ≠ some opening then seek fits first test
    else if fits (c :: test) then (true, c :: test)
    else seek fits first test

/-- `asterisk`, once the marks are skipped. -/
def asterisk (fits : List UInt8 → Bool) (wildcard test : List UInt8) : Bool × List UInt8 :=
  if test = [] then (wildcard = [], [])
  else
    let (fit, test) := if fits test then (true, test) else seek fits wildcard.head? test.tail
    (fit || test = [] && wildcard = [], test)

theorem length_setLoop (test : UInt8) (fit atBeginning : Bool) (previous : UInt8)
    (wildcard : List UInt8) :
    (setLoop test fit atBeginning previous wildcard).2.length ≤ wildcard.length := by
  fun_induction setLoop test fit atBeginning previous wildcard <;> grind

theorem length_scanSet (wildcard : List UInt8) (test : UInt8) :
    (scanSet wildcard test).2.length ≤ wildcard.length := by
  cases wildcard with
  | nil => exact Nat.le_refl 0
  | cons c rest =>
    rw [scanSet]
    split
    · exact Nat.le_succ_of_le (length_setLoop test false true c rest)
    · exact length_setLoop test false true opening (c :: rest)

theorem length_skipMarks (wildcard test : List UInt8) :
    (skipMarks wildcard test).1.length ≤ wildcard.length := by
  fun_induction skipMarks wildcard test <;> grind

theorem length_eraseStars (wildcard : List UInt8) :
    (eraseStars wildcard).length ≤ wildcard.length :=
  (List.dropWhile_sublist _).length_le

def wildcardfit : List UInt8 → List UInt8 → Bool
  | [], test => test = []
  | c :: wildcard, [] => eraseStars (c :: wildcard) = []
  | c :: wildcard, t :: test =>
    if c = opening then
      if closed wildcard then
        let r := scanSet wildcard t
        -- the closing bracket is still there
        have _shorter : r.2.length - 1 < wildcard.length + 1 :=
          Nat.lt_succ_of_le (Nat.le_trans (Nat.sub_le _ _) (length_scanSet wildcard t))
        if r.1 then wildcardfit r.2.tail test else false
      else false
    else if c = question then wildcardfit wildcard test
    else if c = star then
      let p := skipMarks wildcard (t :: test)
      have _shorter : (eraseStars p.1).length < wildcard.length + 1 :=
        Nat.lt_succ_of_le
          (Nat.le_trans (length_eraseStars p.1) (length_skipMarks wildcard (t :: test)))
      let r := asterisk (fun s => wildcardfit (eraseStars p.1) s) (eraseStars p.1) p.2
      if r.1 then wildcardfit (eraseStars p.1) r.2 else false
    else if c = t then wildcardfit wildcard test
    else false
termination_by wildcard => wildcard.length
decreasing_by all_goals simp only [List.length_cons, List.length_tail]; omega

/-! ## What a wildcard means -/

/-- The characters of a set: a dash between a lower and a higher one stands for all between. -/
def SetHas (body : List UInt8) (c : UInt8) : Prop :=
  (∃ front lo hi back, body = front ++ lo :: dash :: hi :: back ∧ value lo < value hi ∧
    value lo ≤ value c ∧ value c ≤ value hi) ∨
  ∃ front back, body = front ++ c :: back ∧
    ¬(c = dash ∧ ∃ lo ∈ front.getLast?, ∃ hi ∈ back.head?, value lo < value hi)

inductive Matches : List UInt8 → List UInt8 → Prop
  | nil : Matches [] []
  | star {wildcard s : List UInt8} (skipped : List UInt8) : Matches wildcard s →
    Matches (star :: wildcard) (skipped ++ s)
  | question {wildcard s : List UInt8} (c : UInt8) : Matches wildcard s →
    Matches (question :: wildcard) (c :: s)
  | inside {wildcard s body : List UInt8} {first c : UInt8} : first ≠ bang → closing ∉ body →
    SetHas (first :: body) c → Matches wildcard s →
    Matches (opening :: first :: (body ++ closing :: wildcard)) (c :: s)
  | outside {wildcard s body : List UInt8} {first c : UInt8} : closing ∉ body →
    ¬SetHas (first :: body) c → Matches wildcard s →
    Matches (opening :: bang :: first :: (body ++ closing :: wildcard)) (c :: s)
  | same {wildcard s : List UInt8} {c : UInt8} : c ≠ star → c ≠ question → c ≠ opening →
    Matches wildcard s → Matches (c :: wildcard) (c :: s)

/-- From some place on. -/
def Somewhere (wildcard test : List UInt8) : Prop := ∃ s, s <:+ test ∧ Matches wildcard s

section
variable {wildcard test s body : List UInt8} {c t first : UInt8}

theorem matches_nil : Matches [] test ↔ test = [] := by
  constructor
  · rintro ⟨⟩
    rfl
  · rintro rfl
    exact .nil

theorem matches_star : Matches (star :: wildcard) test ↔ Somewhere wildcard test := by
  constructor
  · intro fits
    generalize whole : star :: wildcard = w at fits
    cases fits with
    | nil => cases whole
    | star skipped fits =>
      obtain ⟨-, rfl⟩ := List.cons.inj whole
      exact ⟨_, List.suffix_append .., fits⟩
    | question => exact absurd (List.cons.inj whole).1 (by decide)
    | inside => exact absurd (List.cons.inj whole).1 (by decide)
    | outside => exact absurd (List.cons.inj whole).1 (by decide)
    | same other => exact absurd (List.cons.inj whole).1.symm other
  · rintro ⟨s, ⟨skipped, rfl⟩, fits⟩
    exact .star skipped fits

theorem matches_question :
    Matches (question :: wildcard) (t :: test) ↔ Matches wildcard test := by
  constructor
  · intro fits
    generalize whole : question :: wildcard = w at fits
    generalize string : t :: test = s at fits
    cases fits with
    | nil => cases whole
    | star => exact absurd (List.cons.inj whole).1 (by decide)
    | question c fits =>
      obtain ⟨-, rfl⟩ := List.cons.inj whole
      obtain ⟨-, rfl⟩ := List.cons.inj string
      exact fits
    | inside => exact absurd (List.cons.inj whole).1 (by decide)
    | outside => exact absurd (List.cons.inj whole).1 (by decide)
    | same _ other => exact absurd (List.cons.inj whole).1.symm other
  · exact .question t

theorem matches_same (notStar : c ≠ star) (notQuestion : c ≠ question) (notOpening : c ≠ opening) :
    Matches (c :: wildcard) (t :: test) ↔ c = t ∧ Matches wildcard test := by
  constructor
  · intro fits
    generalize whole : c :: wildcard = w at fits
    generalize string : t :: test = s at fits
    cases fits with
    | nil => cases whole
    | star => exact absurd (List.cons.inj whole).1 notStar
    | question => exact absurd (List.cons.inj whole).1 notQuestion
    | inside => exact absurd (List.cons.inj whole).1 notOpening
    | outside => exact absurd (List.cons.inj whole).1 notOpening
    | same _ _ _ fits =>
      obtain ⟨rfl, rfl⟩ := List.cons.inj whole
      obtain ⟨rfl, rfl⟩ := List.cons.inj string
      exact ⟨rfl, fits⟩
  · rintro ⟨rfl, fits⟩
    exact .same notStar notQuestion notOpening fits

theorem eraseStars_star : eraseStars (star :: wildcard) = eraseStars wildcard :=
  List.dropWhile_cons_of_pos (by decide)

theorem eraseStars_other (other : c ≠ star) : eraseStars (c :: wildcard) = c :: wildcard :=
  List.dropWhile_cons_of_neg (by simpa using other)

theorem matches_end : Matches wildcard [] ↔ eraseStars wildcard = [] := by
  induction wildcard with
  | nil => exact ⟨fun _ => rfl, fun _ => .nil⟩
  | cons c wildcard ih =>
    by_cases mark : c = star
    · subst mark
      rw [matches_star, eraseStars_star, ← ih]
      constructor
      · rintro ⟨s, suffix, fits⟩
        rwa [List.suffix_nil.mp suffix] at fits
      · exact fun fits => ⟨[], List.suffix_rfl, fits⟩
    · rw [eraseStars_other mark]
      constructor
      · intro fits
        generalize whole : c :: wildcard = w at fits
        generalize ended : [] = s at fits
        cases fits with
        | nil => cases whole
        | star => exact absurd (List.cons.inj whole).1 mark
        | question => cases ended
        | inside => cases ended
        | outside => cases ended
        | same => cases ended
      · rintro ⟨⟩

/-! ## Sets -/

/-- What the loop looks for behind `previous`. -/
def HasFrom (previous : UInt8) (body : List UInt8) (c : UInt8) : Prop :=
  (∃ front lo hi back, previous :: body = front ++ lo :: dash :: hi :: back ∧
    value lo < value hi ∧ value lo ≤ value c ∧ value c ≤ value hi) ∨
  ∃ front back, body = front ++ c :: back ∧
    ¬(c = dash ∧ ∃ lo ∈ (previous :: front).getLast?, ∃ hi ∈ back.head?, value lo < value hi)

theorem setHas_cons : SetHas (first :: body) c ↔ first = c ∨ HasFrom first body c := by
  constructor
  · rintro (spans | ⟨front, back, whole, single⟩)
    · exact Or.inr (Or.inl spans)
    · cases front with
      | nil => exact Or.inl (List.cons.inj whole).1
      | cons a front =>
        obtain ⟨rfl, rfl⟩ := List.cons.inj whole
        exact Or.inr (Or.inr ⟨front, back, rfl, single⟩)
  · rintro (rfl | spans | ⟨front, back, whole, single⟩)
    · exact Or.inr ⟨[], body, rfl, by rintro ⟨-, lo, ⟨⟩, -⟩⟩
    · exact Or.inl spans
    · exact Or.inr ⟨first :: front, back, congrArg _ whole, single⟩

theorem hasFrom_nil (previous : UInt8) : ¬HasFrom previous [] t := by
  rintro (⟨front, lo, hi, back, whole, -⟩ | ⟨front, back, whole, -⟩)
  · have short := congrArg List.length whole
    rw [List.length_append] at short
    simp only [List.length_cons, List.length_nil] at short
    omega
  · exact absurd whole.symm (List.append_ne_nil_of_right_ne_nil _ (List.cons_ne_nil _ _))

/-- What the first character of a set adds to it. -/
theorem hasFrom_cons (previous : UInt8) : HasFrom previous (c :: body) t ↔
    (c = dash ∧ ∃ hi ∈ body.head?, value previous < value hi ∧ value previous ≤ value t ∧
      value t ≤ value hi) ∨
    (c = t ∧ ¬(c = dash ∧ ∃ hi ∈ body.head?, value previous < value hi)) ∨ HasFrom c body t := by
  constructor
  · rintro (⟨front, lo, hi, back, whole, spans⟩ | ⟨front, back, whole, single⟩)
    · cases front with
      | nil =>
        obtain ⟨rfl, tail⟩ := List.cons.inj whole
        obtain ⟨rfl, rfl⟩ := List.cons.inj tail
        exact Or.inl ⟨rfl, hi, rfl, spans⟩
      | cons a front =>
        exact Or.inr (Or.inr (Or.inl ⟨front, lo, hi, back, (List.cons.inj whole).2, spans⟩))
    · cases front with
      | nil =>
        obtain ⟨rfl, rfl⟩ := List.cons.inj whole
        exact Or.inr (Or.inl ⟨rfl, fun ⟨isDash, hi, first, less⟩ =>
          single ⟨isDash, previous, rfl, hi, first, less⟩⟩)
      | cons a front =>
        obtain ⟨rfl, rfl⟩ := List.cons.inj whole
        exact Or.inr (Or.inr (Or.inr ⟨front, back, rfl, single⟩))
  · rintro (⟨rfl, hi, first, spans⟩ | ⟨rfl, single⟩ | ⟨front, lo, hi, back, whole, spans⟩ |
      ⟨front, back, rfl, single⟩)
    · obtain ⟨back, rfl⟩ : ∃ back, body = hi :: back := by
        cases body with
        | nil => cases first
        | cons b back => exact ⟨back, by rw [Option.mem_some_iff.mp first]⟩
      exact Or.inl ⟨[], previous, hi, back, rfl, spans⟩
    · refine Or.inr ⟨[], body, rfl, ?_⟩
      rintro ⟨isDash, lo, last, hi, first, less⟩
      rw [← Option.mem_some_iff.mp last] at less
      exact single ⟨isDash, hi, first, less⟩
    · exact Or.inl ⟨previous :: front, lo, hi, back, congrArg _ whole, spans⟩
    · exact Or.inr ⟨c :: front, back, rfl, single⟩

theorem setLoop_fits (previous : UInt8) (notIn : closing ∉ body) :
    setLoop t true false previous (body ++ closing :: wildcard) = (true, closing :: wildcard) := by
  induction body generalizing previous with
  | nil =>
    cases wildcard with
    | nil => exact if_pos ⟨rfl, Bool.false_ne_true⟩
    | cons => exact if_pos ⟨rfl, Bool.false_ne_true⟩
  | cons c body ih =>
    have notC : c ≠ closing := fun same => notIn (same ▸ List.mem_cons_self)
    obtain ⟨next, rest, tail⟩ := List.exists_cons_of_ne_nil
      (List.append_ne_nil_of_right_ne_nil body (List.cons_ne_nil closing wildcard))
    rw [List.cons_append, ← ih c (fun listed => notIn (List.mem_cons_of_mem _ listed)), tail]
    simp only [setLoop, notC, false_and, if_false, if_true]

/-- A character that is compared, and not a dash between others. -/
theorem setLoop_single (previous : UInt8) (notIn : closing ∉ c :: body)
    (single : ¬(c = dash ∧ ∃ hi ∈ body.head?, value previous < value hi)) :
    setLoop t false false previous (c :: (body ++ closing :: wildcard)) =
      setLoop t (c = t) false c (body ++ closing :: wildcard) := by
  have notC : c ≠ closing := fun same => notIn (same ▸ List.mem_cons_self)
  cases body with
  | nil =>
    simp only [List.nil_append, setLoop, notC, false_and, Bool.false_eq_true, if_false, ne_eq,
      not_true_eq_false, and_false]
  | cons next body =>
    have unspanned : ¬(c = dash ∧ value previous < value next ∧ next ≠ closing ∧ ¬False) :=
      fun spans => single ⟨spans.1, next, rfl, spans.2.1⟩
    simp only [List.cons_append, setLoop, notC, false_and, Bool.false_eq_true, if_false]
    exact if_neg unspanned

/-- The loop over a set ends behind it, and tells whether the character is in it. -/
theorem setLoop_spec (previous : UInt8) (notIn : closing ∉ body) :
    ∃ fit, setLoop t false false previous (body ++ closing :: wildcard) =
      (fit, closing :: wildcard) ∧ (fit = true ↔ HasFrom previous body t) := by
  induction body generalizing previous with
  | nil =>
    refine ⟨false, ?_, ?_⟩
    · cases wildcard with
      | nil => exact if_pos ⟨rfl, Bool.false_ne_true⟩
      | cons => exact if_pos ⟨rfl, Bool.false_ne_true⟩
    · exact ⟨fun fits => absurd fits Bool.false_ne_true,
        fun has => absurd has (hasFrom_nil previous)⟩
  | cons c body ih =>
    have notIn' : closing ∉ body := fun listed => notIn (List.mem_cons_of_mem _ listed)
    obtain ⟨fit, looped, later⟩ := ih c notIn'
    rw [List.cons_append, hasFrom_cons]
    by_cases spans : c = dash ∧ ∃ hi ∈ body.head?, value previous < value hi
    · obtain ⟨rfl, hi, first, less⟩ := spans
      obtain ⟨back, rfl⟩ : ∃ back, body = hi :: back := by
        cases body with
        | nil => cases first
        | cons b back => exact ⟨back, by rw [Option.mem_some_iff.mp first]⟩
      have notHi : hi ≠ closing := fun same => notIn' (same ▸ List.mem_cons_self)
      have spanned : setLoop t false false previous (dash :: (hi :: back ++ closing :: wildcard)) =
          if value previous ≤ value t ∧ value t ≤ value hi then (true, closing :: wildcard)
          else setLoop t false false dash (hi :: back ++ closing :: wildcard) := by
        have fits : setLoop t true false hi (back ++ closing :: wildcard) =
            (true, closing :: wildcard) :=
          setLoop_fits hi fun listed => notIn' (List.mem_cons_of_mem _ listed)
        rw [← fits]
        have notDash : dash ≠ closing := by decide
        simp only [List.cons_append, setLoop, notDash, false_and, Bool.false_eq_true, if_false]
        exact if_pos ⟨trivial, less, notHi, not_false⟩
      rw [spanned]
      by_cases between : value previous ≤ value t ∧ value t ≤ value hi
      · rw [if_pos between]
        exact ⟨true, rfl, fun _ => Or.inl ⟨rfl, hi, rfl, less, between⟩, fun _ => rfl⟩
      · rw [if_neg between, looped]
        refine ⟨fit, rfl, later.trans ⟨fun has => Or.inr (Or.inr has), ?_⟩⟩
        rintro (⟨-, hi', first', -, between'⟩ | ⟨-, single⟩ | has)
        · rw [← Option.mem_some_iff.mp first'] at between'
          exact absurd between' between
        · exact absurd ⟨rfl, hi, rfl, less⟩ single
        · exact has
    · rw [setLoop_single previous notIn spans]
      by_cases same : c = t
      · rw [decide_eq_true same, setLoop_fits c notIn']
        exact ⟨true, rfl, fun _ => Or.inr (Or.inl ⟨same, spans⟩), fun _ => rfl⟩
      · rw [decide_eq_false same, looped]
        refine ⟨fit, rfl, later.trans ⟨fun has => Or.inr (Or.inr has), ?_⟩⟩
        rintro (⟨isDash, hi, first, less, -⟩ | ⟨here, -⟩ | has)
        · exact absurd ⟨isDash, hi, first, less⟩ spans
        · exact absurd here same
        · exact has

theorem setLoop_beginning (previous : UInt8) (notIn : closing ∉ body) :
    ∃ fit, setLoop t false true previous (first :: (body ++ closing :: wildcard)) =
      (fit, closing :: wildcard) ∧ (fit = true ↔ SetHas (first :: body) t) := by
  have begun : setLoop t false true previous (first :: (body ++ closing :: wildcard)) =
      setLoop t (first = t) false first (body ++ closing :: wildcard) := by
    obtain ⟨next, rest, tail⟩ := List.exists_cons_of_ne_nil
      (List.append_ne_nil_of_right_ne_nil body (List.cons_ne_nil closing wildcard))
    rw [tail]
    simp only [setLoop, not_true_eq_false, and_false, Bool.false_eq_true, if_false]
  rw [begun, setHas_cons]
  by_cases same : first = t
  · rw [decide_eq_true same, setLoop_fits first notIn]
    exact ⟨true, rfl, fun _ => Or.inl same, fun _ => rfl⟩
  · obtain ⟨fit, looped, later⟩ : ∃ fit, setLoop t false false first (body ++ closing :: wildcard) =
        (fit, closing :: wildcard) ∧ (fit = true ↔ HasFrom first body t) :=
      setLoop_spec first notIn
    rw [decide_eq_false same, looped]
    exact ⟨fit, rfl, later.trans (or_iff_right same).symm⟩

theorem scanSet_inside (plain : first ≠ bang) (notIn : closing ∉ body) :
    ∃ fit, scanSet (first :: (body ++ closing :: wildcard)) t = (fit, closing :: wildcard) ∧
      (fit = true ↔ SetHas (first :: body) t) := by
  rw [scanSet, if_neg plain]
  exact setLoop_beginning opening notIn

theorem scanSet_outside (notIn : closing ∉ body) :
    ∃ fit, scanSet (bang :: first :: (body ++ closing :: wildcard)) t = (fit, closing :: wildcard) ∧
      (fit = true ↔ ¬SetHas (first :: body) t) := by
  obtain ⟨fit, looped, has⟩ : ∃ fit,
      setLoop t false true bang (first :: (body ++ closing :: wildcard)) =
        (fit, closing :: wildcard) ∧ (fit = true ↔ SetHas (first :: body) t) :=
    setLoop_beginning bang notIn
  refine ⟨!fit, ?_, ?_⟩
  · rw [scanSet, if_pos rfl, looped]
  · rw [← has, Bool.not_eq_true', Bool.not_eq_true]

theorem contains_closing :
    (if wildcard.head? = some closing then wildcard.tail else wildcard).contains closing = true ↔
      ∃ first body rest, closing ∉ body ∧ wildcard = first :: (body ++ closing :: rest) := by
  cases wildcard with
  | nil =>
    constructor
    · rintro ⟨⟩
    · rintro ⟨first, body, rest, -, ⟨⟩⟩
  | cons first tail =>
    have behind : (if (first :: tail).head? = some closing then (first :: tail).tail
        else first :: tail).contains closing = true ↔ closing ∈ tail := by
      rw [List.contains_iff_mem]
      split
      · exact Iff.rfl
      · rename_i other
        refine ⟨fun listed => (List.mem_cons.mp listed).resolve_left fun same => other ?_,
          List.mem_cons_of_mem first⟩
        exact congrArg some same.symm
    rw [behind]
    constructor
    · intro listed
      obtain ⟨body, rest, rfl, notIn⟩ := List.eq_append_cons_of_mem listed
      exact ⟨first, body, rest, notIn, rfl⟩
    · rintro ⟨first', body, rest, -, whole⟩
      rw [(List.cons.inj whole).2]
      exact List.mem_append_right _ List.mem_cons_self

theorem closed_iff : closed wildcard = true ↔ ∃ first body rest, closing ∉ body ∧
    (first ≠ bang ∧ wildcard = first :: (body ++ closing :: rest) ∨
      wildcard = bang :: first :: (body ++ closing :: rest)) := by
  rw [closed, contains_closing]
  constructor
  · rintro ⟨first, body, rest, notIn, whole⟩
    split at whole
    · rename_i negated
      refine ⟨first, body, rest, notIn, Or.inr ?_⟩
      rw [← whole]
      exact (List.cons_head?_tail negated).symm
    · rename_i plain
      refine ⟨first, body, rest, notIn, Or.inl ⟨?_, whole⟩⟩
      rintro rfl
      rw [whole] at plain
      exact plain rfl
  · rintro ⟨first, body, rest, notIn, ⟨plain, rfl⟩ | rfl⟩
    · refine ⟨first, body, rest, notIn, if_neg fun negated => plain ?_⟩
      exact Option.some.inj negated
    · exact ⟨first, body, rest, notIn, if_pos rfl⟩

/-! ## Asterisks -/

theorem somewhere_star : Somewhere (star :: wildcard) test ↔ Somewhere wildcard test := by
  constructor
  · rintro ⟨s, suffix, fits⟩
    obtain ⟨s', suffix', fits'⟩ := matches_star.mp fits
    exact ⟨s', suffix'.trans suffix, fits'⟩
  · rintro ⟨s, suffix, fits⟩
    exact ⟨s, suffix, matches_star.mpr ⟨s, List.suffix_rfl, fits⟩⟩

theorem somewhere_question :
    Somewhere (question :: wildcard) (t :: test) ↔ Somewhere wildcard test := by
  constructor
  · rintro ⟨s, ⟨skipped, whole⟩, fits⟩
    cases s with
    | nil => exact absurd (matches_end.mp fits) (List.cons_ne_nil _ _)
    | cons c s =>
      refine ⟨s, ?_, matches_question.mp fits⟩
      cases skipped with
      | nil =>
        rw [List.nil_append] at whole
        rw [(List.cons.inj whole).2]
      | cons a skipped =>
        rw [← (List.cons.inj whole).2]
        exact ⟨skipped ++ [c], (List.append_cons skipped c s).symm⟩
  · rintro ⟨s, ⟨skipped, rfl⟩, fits⟩
    obtain ⟨front, c, whole⟩ : ∃ front c, t :: skipped = front ++ [c] :=
      ⟨_, _, (List.dropLast_append_getLast (List.cons_ne_nil t skipped)).symm⟩
    refine ⟨c :: s, ⟨front, ?_⟩, .question c fits⟩
    rw [← List.cons_append, whole, List.append_assoc, List.singleton_append]

theorem somewhere_skipMarks (wildcard test : List UInt8) :
    Somewhere (skipMarks wildcard test).1 (skipMarks wildcard test).2 ↔
      Somewhere wildcard test := by
  fun_induction skipMarks wildcard test with
  | case1 wildcard t test ih => rw [ih, somewhere_question]
  | case2 wildcard t test _ ih => rw [ih, somewhere_star]
  | case3 => exact Iff.rfl
  | case4 => exact Iff.rfl

theorem head_skipMarks (wildcard test : List UInt8) (more : (skipMarks wildcard test).2 ≠ []) :
    (skipMarks wildcard test).1.head? ≠ some question ∧
      (skipMarks wildcard test).1.head? ≠ some star := by
  fun_induction skipMarks wildcard test with
  | case1 wildcard t test ih => exact ih more
  | case2 wildcard t test _ ih => exact ih more
  | case3 c wildcard t test notQuestion notStar =>
    exact ⟨fun same => notQuestion (Option.some.inj same),
      fun same => notStar (Option.some.inj same)⟩
  | case4 wildcard test ended =>
    cases wildcard with
    | nil => exact ⟨nofun, nofun⟩
    | cons c wildcard =>
      cases test with
      | nil => exact absurd rfl more
      | cons t test => exact absurd rfl (ended c wildcard t test rfl)

theorem somewhere_eraseStars :
    Somewhere (eraseStars wildcard) test ↔ Somewhere wildcard test := by
  induction wildcard with
  | nil => exact Iff.rfl
  | cons c wildcard ih =>
    by_cases mark : c = star
    · rw [mark, eraseStars_star, ih, somewhere_star]
    · rw [eraseStars_other mark]

theorem head_eraseStars (wildcard : List UInt8) : (eraseStars wildcard).head? ≠ some star := by
  induction wildcard with
  | nil => exact nofun
  | cons c wildcard ih =>
    by_cases mark : c = star
    · rw [mark, eraseStars_star]
      exact ih
    · rw [eraseStars_other mark]
      exact fun same => mark (Option.some.inj same)

theorem eraseStars_of_head (other : wildcard.head? ≠ some star) :
    eraseStars wildcard = wildcard := by
  cases wildcard with
  | nil => rfl
  | cons c wildcard => exact eraseStars_other fun same => other (congrArg some same)

/-- A place at which the rest fits is only passed where its first character is not found. -/
theorem seek_spec {fits : List UInt8 → Bool} (whole : ∀ s, fits s = true ↔ Matches wildcard s)
    (notStar : wildcard.head? ≠ some star) (notQuestion : wildcard.head? ≠ some question)
    (test : List UInt8) :
    (∃ s, s <:+ test ∧ s ≠ [] ∧ fits s = true ∧ seek fits wildcard.head? test = (true, s)) ∨
      (∀ s, s <:+ test → s ≠ [] → ¬Matches wildcard s) ∧
        seek fits wildcard.head? test = (false, []) := by
  induction test with
  | nil => exact Or.inr ⟨fun s suffix some => absurd (List.suffix_nil.mp suffix) some, rfl⟩
  | cons c test ih =>
    have next : ¬Matches wildcard (c :: test) →
        seek fits wildcard.head? (c :: test) = seek fits wildcard.head? test →
        (∃ s, s <:+ c :: test ∧ s ≠ [] ∧ fits s = true ∧
          seek fits wildcard.head? (c :: test) = (true, s)) ∨
        (∀ s, s <:+ c :: test → s ≠ [] → ¬Matches wildcard s) ∧
          seek fits wildcard.head? (c :: test) = (false, []) := by
      intro notHere same
      rw [same]
      rcases ih with ⟨s, suffix, some, here, found⟩ | ⟨nowhere, found⟩
      · exact Or.inl ⟨s, suffix.trans (List.suffix_cons c test), some, here, found⟩
      · refine Or.inr ⟨fun s suffix some => ?_, found⟩
        rcases List.suffix_cons_iff.mp suffix with rfl | later
        · exact notHere
        · exact nowhere s later some
    by_cases passed : wildcard.head? ≠ some c ∧ wildcard.head? ≠ some opening
    · refine next (fun here => ?_) (if_pos passed)
      cases wildcard with
      | nil => exact absurd (matches_nil.mp here) (List.cons_ne_nil _ _)
      | cons w wildcard =>
        have notS : w ≠ star := fun same => notStar (congrArg some same)
        have notQ : w ≠ question := fun same => notQuestion (congrArg some same)
        have notO : w ≠ opening := fun same => passed.2 (congrArg some same)
        exact passed.1 (congrArg some ((matches_same notS notQ notO).mp here).1)
    · by_cases here : fits (c :: test) = true
      · refine Or.inl ⟨c :: test, List.suffix_rfl, List.cons_ne_nil _ _, here, ?_⟩
        rw [seek, if_neg passed, if_pos here]
      · refine next (fun matching => here ((whole _).mpr matching)) ?_
        rw [seek, if_neg passed, if_neg here]

/-- An asterisk is passed at some place where the rest may begin. -/
theorem asterisk_spec {fits : List UInt8 → Bool} (whole : ∀ s, fits s = true ↔ Matches wildcard s)
    (notStar : wildcard.head? ≠ some star)
    (notQuestion : test ≠ [] → wildcard.head? ≠ some question) :
    ((asterisk fits wildcard test).1 = true ∧ fits (asterisk fits wildcard test).2 = true) ↔
      Somewhere wildcard test := by
  have atEnd : Matches wildcard [] ↔ wildcard = [] := by
    rw [matches_end, eraseStars_of_head notStar]
  rw [asterisk]
  by_cases ended : test = []
  · subst ended
    rw [if_pos rfl, whole, atEnd, decide_eq_true_eq, and_self]
    constructor
    · rintro rfl
      exact ⟨[], List.suffix_rfl, .nil⟩
    · rintro ⟨s, suffix, fits⟩
      rw [List.suffix_nil.mp suffix] at fits
      exact atEnd.mp fits
  · rw [if_neg ended]
    by_cases here : fits test = true
    · simp only [here, if_true, Bool.true_or, true_and]
      exact ⟨fun _ => ⟨test, List.suffix_rfl, (whole test).mp here⟩, fun _ => trivial⟩
    · obtain ⟨c, rest, rfl⟩ := List.exists_cons_of_ne_nil ended
      simp only [here, if_false, List.tail_cons, Bool.false_eq_true]
      rcases seek_spec whole notStar (notQuestion ended) rest with
        ⟨s, suffix, -, there, found⟩ | ⟨nowhere, found⟩
      · simp only [found, Bool.true_or, there, true_and]
        exact ⟨fun _ => ⟨s, suffix.trans (List.suffix_cons c rest), (whole s).mp there⟩,
          fun _ => trivial⟩
      · simp only [found, Bool.false_or, decide_true, Bool.true_and, decide_eq_true_eq, whole,
          atEnd, and_self]
        constructor
        · rintro rfl
          exact ⟨[], List.nil_suffix, .nil⟩
        · rintro ⟨s, suffix, fits⟩
          cases s with
          | nil => exact atEnd.mp fits
          | cons a s =>
            rcases List.suffix_cons_iff.mp suffix with same | later
            · rw [same] at fits
              exact absurd ((whole _).mpr fits) here
            · exact absurd fits (nowhere _ later (List.cons_ne_nil a s))

end

/-- A set that is closed matches one character. -/
theorem matches_opening {wildcard test : List UInt8} {t : UInt8} :
    Matches (opening :: wildcard) (t :: test) ↔
      closed wildcard = true ∧ (scanSet wildcard t).1 = true ∧
        Matches (scanSet wildcard t).2.tail test := by
  constructor
  · intro fits
    generalize whole : opening :: wildcard = w at fits
    generalize string : t :: test = s at fits
    cases fits with
    | nil => cases whole
    | star => exact absurd (List.cons.inj whole).1 (by decide)
    | question => exact absurd (List.cons.inj whole).1 (by decide)
    | inside plain notIn has fits =>
      obtain ⟨-, rfl⟩ := List.cons.inj whole
      obtain ⟨rfl, rfl⟩ := List.cons.inj string
      obtain ⟨fit, scanned, fine⟩ := scanSet_inside plain notIn
      rw [scanned]
      exact ⟨closed_iff.mpr ⟨_, _, _, notIn, Or.inl ⟨plain, rfl⟩⟩, fine.mpr has, fits⟩
    | outside notIn has fits =>
      obtain ⟨-, rfl⟩ := List.cons.inj whole
      obtain ⟨rfl, rfl⟩ := List.cons.inj string
      obtain ⟨fit, scanned, fine⟩ := scanSet_outside notIn
      rw [scanned]
      exact ⟨closed_iff.mpr ⟨_, _, _, notIn, Or.inr rfl⟩, fine.mpr has, fits⟩
    | same _ _ other => exact absurd (List.cons.inj whole).1.symm other
  · rintro ⟨close, fit, fits⟩
    obtain ⟨first, body, rest, notIn, ⟨plain, rfl⟩ | rfl⟩ := closed_iff.mp close
    · obtain ⟨fit', scanned, fine⟩ := scanSet_inside plain notIn
      rw [scanned] at fit fits
      exact .inside plain notIn (fine.mp fit) fits
    · obtain ⟨fit', scanned, fine⟩ := scanSet_outside notIn
      rw [scanned] at fit fits
      exact .outside notIn (fine.mp fit) fits

/-- What fits is what the wildcard means. -/
theorem wildcardfit_iff (wildcard test : List UInt8) :
    wildcardfit wildcard test = true ↔ Matches wildcard test := by
  induction size : wildcard.length using Nat.strong_induction_on generalizing wildcard test with
  | _ n ih =>
    cases wildcard with
    | nil => rw [wildcardfit, matches_nil, decide_eq_true_eq]
    | cons c wildcard =>
      have shorter : ∀ rest : List UInt8, rest.length ≤ wildcard.length →
          ∀ s, wildcardfit rest s = true ↔ Matches rest s := fun rest less s =>
        ih rest.length (size ▸ Nat.lt_succ_of_le less) rest s rfl
      cases test with
      | nil => rw [wildcardfit, matches_end, decide_eq_true_eq]
      | cons t test =>
        rw [wildcardfit]
        by_cases isOpening : c = opening
        · subst isOpening
          have fewer : (scanSet wildcard t).2.tail.length ≤ wildcard.length := by
            rw [List.length_tail]
            exact Nat.le_trans (Nat.sub_le _ _) (length_scanSet wildcard t)
          rw [if_pos rfl, matches_opening, ← shorter _ fewer]
          by_cases close : closed wildcard = true <;>
            by_cases fit : (scanSet wildcard t).1 = true <;> simp [close, fit]
        rw [if_neg isOpening]
        by_cases isQuestion : c = question
        · rw [if_pos isQuestion, isQuestion, matches_question]
          exact shorter wildcard (Nat.le_refl _) test
        rw [if_neg isQuestion]
        by_cases isStar : c = star
        · have fewer := Nat.le_trans (length_eraseStars (skipMarks wildcard (t :: test)).1)
            (length_skipMarks wildcard (t :: test))
          have plain : (skipMarks wildcard (t :: test)).2 ≠ [] →
              (eraseStars (skipMarks wildcard (t :: test)).1).head? ≠ some question := by
            intro more
            obtain ⟨notQuestion, notStar⟩ := head_skipMarks wildcard (t :: test) more
            rwa [eraseStars_of_head notStar]
          have sought := asterisk_spec (shorter _ fewer) (head_eraseStars _) plain
          rw [if_pos isStar, isStar, matches_star, ← somewhere_skipMarks, ← somewhere_eraseStars,
            ← sought]
          dsimp only
          split <;> simp_all
        rw [if_neg isStar, matches_same isStar isQuestion isOpening]
        by_cases same : c = t
        · rw [if_pos same, shorter wildcard (Nat.le_refl _)]
          exact (and_iff_right same).symm
        · rw [if_neg same]
          exact ⟨fun fits => absurd fits Bool.false_ne_true, fun fits => absurd fits.1 same⟩

/-! ## How often `wildcardfit` is called -/

/-- The places that are tried. -/
def tried (fits : List UInt8 → Bool) (first : Option UInt8) : List UInt8 → List (List UInt8)
  | [] => []
  | c :: test =>
    if first ≠ some c ∧ first ≠ some opening then tried fits first test
    else if fits (c :: test) then [c :: test]
    else (c :: test) :: tried fits first test

/-- The places at which `asterisk` calls `wildcardfit`. -/
def places (fits : List UInt8 → Bool) (wildcard test : List UInt8) : List (List UInt8) :=
  if test = [] then []
  else if fits test then [test]
  else test :: tried fits wildcard.head? test.tail

/-- The calls that come from one call, itself not counted. -/
def calls : List UInt8 → List UInt8 → Nat
  | [], _ => 0
  | _ :: _, [] => 0
  | c :: wildcard, t :: test =>
    if c = opening then
      if closed wildcard then
        let r := scanSet wildcard t
        have _shorter : r.2.length - 1 < wildcard.length + 1 :=
          Nat.lt_succ_of_le (Nat.le_trans (Nat.sub_le _ _) (length_scanSet wildcard t))
        if r.1 then calls r.2.tail test else 0
      else 0
    else if c = question then calls wildcard test
    else if c = star then
      let p := skipMarks wildcard (t :: test)
      have _shorter : (eraseStars p.1).length < wildcard.length + 1 :=
        Nat.lt_succ_of_le
          (Nat.le_trans (length_eraseStars p.1) (length_skipMarks wildcard (t :: test)))
      let r := asterisk (fun s => wildcardfit (eraseStars p.1) s) (eraseStars p.1) p.2
      ((places (fun s => wildcardfit (eraseStars p.1) s) (eraseStars p.1) p.2).map
        fun s => 1 + calls (eraseStars p.1) s).sum +
      if r.1 then calls (eraseStars p.1) r.2 else 0
    else if c = t then calls wildcard test
    else 0
termination_by wildcard => wildcard.length
decreasing_by all_goals simp only [List.length_cons, List.length_tail]; omega

/-- What `strchr` points to, and nothing for a null pointer. -/
def strchr (c : UInt8) (s : List UInt8) : List UInt8 := s.dropWhile (· ≠ c)

theorem length_strchr (c : UInt8) (s : List UInt8) : (strchr c s).length ≤ s.length :=
  (List.dropWhile_sublist _).length_le

/-- `MAX_QPATH` -/
def maxQpath : Nat := 64

/-- The loop of `Com_ValidWildcard`. -/
def validFrom (nstars : Nat) : List UInt8 → Bool
  | [] => true
  | c :: rest =>
    if c = star then if nstars + 1 > 4 then false else validFrom (nstars + 1) rest
    else if c = opening then
      let close := strchr closing rest
      have _shorter : close.length - 1 < rest.length + 1 :=
        Nat.lt_succ_of_le (Nat.le_trans (Nat.sub_le _ _) (length_strchr closing rest))
      if close = [] then false else validFrom nstars close.tail
    else validFrom nstars rest
termination_by pattern => pattern.length
decreasing_by all_goals simp only [List.length_cons, List.length_tail]; omega

def comValidWildcard (pattern : List UInt8) : Bool :=
  decide (pattern.length < maxQpath) && validFrom 0 pattern

section
variable {wildcard test rest body : List UInt8} {c t : UInt8} {n k : Nat}

theorem validFrom_star :
    validFrom n (star :: rest) = true ↔ n < 4 ∧ validFrom (n + 1) rest = true := by
  rw [validFrom, if_pos rfl]
  split
  · rename_i many
    exact ⟨fun fits => absurd fits Bool.false_ne_true, fun fits => absurd fits.1 (by omega)⟩
  · rename_i few
    exact (and_iff_right (by omega)).symm

theorem validFrom_other (notStar : c ≠ star) (notOpening : c ≠ opening) :
    validFrom n (c :: rest) = validFrom n rest := by
  rw [validFrom, if_neg notStar, if_neg notOpening]

theorem validFrom_strchr : validFrom n (opening :: wildcard) =
    if strchr closing wildcard = [] then false else validFrom n (strchr closing wildcard).tail := by
  have notStar : opening ≠ star := by decide
  rw [validFrom, if_neg notStar, if_pos rfl]

theorem validFrom_opening (notIn : closing ∉ body) :
    validFrom n (opening :: (body ++ closing :: rest)) = validFrom n rest := by
  have close : strchr closing (body ++ closing :: rest) = closing :: rest := by
    rw [strchr, List.dropWhile_append_of_pos fun a listed =>
      decide_eq_true (ne_of_mem_of_not_mem listed notIn)]
    exact List.dropWhile_cons_of_neg (by simp)
  rw [validFrom_strchr, close]
  exact if_neg (List.cons_ne_nil _ _)

theorem validFrom_open_closing (valid : validFrom n (opening :: wildcard) = true) :
    ∃ body rest, closing ∉ body ∧ wildcard = body ++ closing :: rest ∧
      validFrom n rest = true := by
  by_cases listed : closing ∈ wildcard
  · obtain ⟨body, rest, rfl, notIn⟩ := List.eq_append_cons_of_mem listed
    rw [validFrom_opening notIn] at valid
    exact ⟨body, rest, notIn, rfl, valid⟩
  · have close : strchr closing wildcard = [] :=
      List.dropWhile_eq_nil_iff.mpr fun a there =>
        decide_eq_true (ne_of_mem_of_not_mem there listed)
    rw [validFrom_strchr, close, if_pos rfl] at valid
    exact absurd valid Bool.false_ne_true

/-- Fewer asterisks may have been counted. -/
theorem validFrom_mono (valid : validFrom (n + k) wildcard = true) :
    validFrom n wildcard = true := by
  induction size : wildcard.length using Nat.strong_induction_on generalizing wildcard n with
  | _ length ih =>
    cases wildcard with
    | nil => rw [validFrom]
    | cons c wildcard =>
      subst size
      by_cases isStar : c = star
      · subst isStar
        rw [validFrom_star] at valid ⊢
        refine ⟨by omega, ih _ (Nat.lt_succ_self _) ?_ rfl⟩
        rw [Nat.add_right_comm]
        exact valid.2
      by_cases isOpening : c = opening
      · subst isOpening
        obtain ⟨body, rest, notIn, rfl, later⟩ := validFrom_open_closing valid
        rw [validFrom_opening notIn]
        exact ih _ (by grind) later rfl
      rw [validFrom_other isStar isOpening] at valid ⊢
      exact ih _ (Nat.lt_succ_self _) valid rfl

/-- The end of a set may be found too early, and what is left of the set is then looked through. -/
theorem validFrom_behind (notIn : closing ∉ body)
    (valid : validFrom n (body ++ closing :: rest) = true) : validFrom n rest = true := by
  have notStar : closing ≠ star := by decide
  have notOpening : closing ≠ opening := by decide
  induction body generalizing n with
  | nil => rwa [List.nil_append, validFrom_other notStar notOpening] at valid
  | cons c body ih =>
    have notIn' : closing ∉ body := fun listed => notIn (List.mem_cons_of_mem _ listed)
    rw [List.cons_append] at valid
    by_cases isStar : c = star
    · rw [isStar, validFrom_star] at valid
      exact validFrom_mono (k := 1) (ih notIn' valid.2)
    by_cases isOpening : c = opening
    · rwa [isOpening, validFrom_opening notIn'] at valid
    rw [validFrom_other isStar isOpening] at valid
    exact ih notIn' valid

theorem validFrom_scanSet (close : closed wildcard = true)
    (valid : validFrom n (opening :: wildcard) = true) :
    validFrom n (scanSet wildcard t).2.tail = true := by
  have early : ∀ (front : List UInt8) {body rest : List UInt8} {first : UInt8},
      closing ∉ front → closing ∉ body →
      validFrom n (opening :: (front ++ first :: (body ++ closing :: rest))) = true →
      validFrom n rest = true := by
    intro front body rest first notFront notIn valid
    by_cases isClosing : first = closing
    · rw [isClosing, validFrom_opening notFront] at valid
      exact validFrom_behind notIn valid
    · have both : closing ∉ front ++ first :: body := by
        rw [List.mem_append, List.mem_cons]
        rintro (low | same | high)
        · exact notFront low
        · exact isClosing same.symm
        · exact notIn high
      have joined : front ++ first :: (body ++ closing :: rest) =
          (front ++ first :: body) ++ closing :: rest := by
        rw [List.append_assoc, List.cons_append]
      rwa [joined, validFrom_opening both] at valid
  obtain ⟨first, body, rest, notIn, ⟨plain, rfl⟩ | rfl⟩ := closed_iff.mp close
  · obtain ⟨fit, scanned, -⟩ : ∃ fit, scanSet (first :: (body ++ closing :: rest)) t =
        (fit, closing :: rest) ∧ (fit = true ↔ SetHas (first :: body) t) :=
      scanSet_inside plain notIn
    rw [scanned]
    exact early [] List.not_mem_nil notIn valid
  · obtain ⟨fit, scanned, -⟩ : ∃ fit, scanSet (bang :: first :: (body ++ closing :: rest)) t =
        (fit, closing :: rest) ∧ (fit = true ↔ ¬SetHas (first :: body) t) :=
      scanSet_outside notIn
    rw [scanned]
    exact early [bang] (by decide) notIn valid

theorem validFrom_skipMarks (wildcard test : List UInt8)
    (valid : validFrom n wildcard = true) :
    validFrom n (skipMarks wildcard test).1 = true := by
  fun_induction skipMarks wildcard test with
  | case1 wildcard t test ih =>
    exact ih ((validFrom_other (by decide) (by decide)).symm.trans valid)
  | case2 wildcard t test _ ih => exact ih (validFrom_mono (k := 1) (validFrom_star.mp valid).2)
  | case3 => exact valid
  | case4 => exact valid

theorem validFrom_eraseStars (valid : validFrom n wildcard = true) :
    validFrom n (eraseStars wildcard) = true := by
  induction wildcard with
  | nil => exact valid
  | cons c wildcard ih =>
    by_cases mark : c = star
    · subst mark
      rw [eraseStars_star]
      exact ih (validFrom_mono (k := 1) (validFrom_star.mp valid).2)
    · rwa [eraseStars_other mark]

theorem tried_bound (fits : List UInt8 → Bool) (first : Option UInt8) (test : List UInt8) :
    (tried fits first test).length ≤ test.length ∧
      ∀ s ∈ tried fits first test, s.length ≤ test.length := by
  induction test with
  | nil => exact ⟨Nat.le_refl 0, List.forall_mem_nil _⟩
  | cons c test ih =>
    obtain ⟨few, short⟩ := ih
    rw [tried]
    split
    · exact ⟨Nat.le_succ_of_le few, fun s listed => Nat.le_succ_of_le (short s listed)⟩
    split
    · refine ⟨Nat.succ_le_succ (Nat.zero_le _), fun s listed => ?_⟩
      rw [List.mem_singleton.mp listed]
    · refine ⟨Nat.succ_le_succ few, fun s listed => ?_⟩
      rcases List.mem_cons.mp listed with rfl | later
      · exact Nat.le_refl _
      · exact Nat.le_succ_of_le (short s later)

theorem places_bound (fits : List UInt8 → Bool) (wildcard test : List UInt8) :
    (places fits wildcard test).length ≤ test.length ∧
      ∀ s ∈ places fits wildcard test, s.length ≤ test.length := by
  rw [places]
  split
  · exact ⟨Nat.zero_le _, List.forall_mem_nil _⟩
  · rename_i some
    obtain ⟨c, test, rfl⟩ := List.exists_cons_of_ne_nil some
    obtain ⟨few, short⟩ := tried_bound fits wildcard.head? test
    split
    · refine ⟨Nat.succ_le_succ (Nat.zero_le _), fun s listed => ?_⟩
      rw [List.mem_singleton.mp listed]
    · refine ⟨Nat.succ_le_succ few, fun s listed => ?_⟩
      rcases List.mem_cons.mp listed with rfl | later
      · exact Nat.le_refl _
      · exact Nat.le_succ_of_le (short s later)

theorem length_skipMarks_test (wildcard test : List UInt8) :
    (skipMarks wildcard test).2.length ≤ test.length := by
  fun_induction skipMarks wildcard test <;> grind

theorem length_asterisk (fits : List UInt8 → Bool) (wildcard test : List UInt8) :
    (asterisk fits wildcard test).2.length ≤ test.length := by
  have sought : ∀ first (s : List UInt8), (seek fits first s).2.length ≤ s.length := by
    intro first s
    induction s with
    | nil => exact Nat.le_refl 0
    | cons c s ih =>
      rw [seek]
      split
      · exact Nat.le_succ_of_le ih
      split
      · exact Nat.le_refl _
      · exact Nat.le_succ_of_le ih
  rw [asterisk]
  split
  · exact Nat.zero_le _
  · dsimp only
    split
    · exact Nat.le_refl _
    · refine Nat.le_trans (sought _ _) ?_
      rw [List.length_tail]
      exact Nat.sub_le _ _

/-- Each asterisk that is left multiplies the calls by the places that there are. -/
theorem calls_bound (valid : validFrom n wildcard = true) (left : n + k = 4) :
    1 + calls wildcard test ≤ (test.length + 1) ^ k := by
  induction size : wildcard.length using Nat.strong_induction_on generalizing wildcard test n k with
  | _ length ih =>
    have positive : 1 ≤ (test.length + 1) ^ k := Nat.one_le_pow _ _ (Nat.succ_pos _)
    cases wildcard with
    | nil => rwa [calls]
    | cons c wildcard =>
      cases test with
      | nil => rwa [calls]
      | cons t test =>
        subst size
        have further : ∀ {rest : List UInt8}, rest.length ≤ wildcard.length →
            validFrom n rest = true → 1 + calls rest test ≤ ((t :: test).length + 1) ^ k :=
          fun fewer valid => Nat.le_trans (ih _ (Nat.lt_succ_of_le fewer) valid left rfl)
            (Nat.pow_le_pow_left (Nat.le_succ _) k)
        rw [calls]
        by_cases isOpening : c = opening
        · subst isOpening
          rw [if_pos rfl]
          split
          · rename_i close
            dsimp only
            split
            · refine further ?_ (validFrom_scanSet close valid)
              rw [List.length_tail]
              exact Nat.le_trans (Nat.sub_le _ _) (length_scanSet wildcard t)
            · exact positive
          · exact positive
        rw [if_neg isOpening]
        by_cases isStar : c = star
        · subst isStar
          have notQuestion : star ≠ question := by decide
          obtain ⟨less, later⟩ := validFrom_star.mp valid
          obtain ⟨k, rfl⟩ := Nat.exists_eq_add_one_of_ne_zero (show k ≠ 0 by omega)
          have fewer := Nat.le_trans (length_eraseStars (skipMarks wildcard (t :: test)).1)
            (length_skipMarks wildcard (t :: test))
          have short := length_skipMarks_test wildcard (t :: test)
          have each : ∀ s : List UInt8, s.length ≤ (t :: test).length →
              1 + calls (eraseStars (skipMarks wildcard (t :: test)).1) s ≤
                ((t :: test).length + 1) ^ k := fun s shorter =>
            Nat.le_trans (ih _ (Nat.lt_succ_of_le fewer)
                (validFrom_eraseStars (validFrom_skipMarks _ _ later)) (by omega) rfl)
              (Nat.pow_le_pow_left (Nat.succ_le_succ shorter) k)
          rw [if_neg notQuestion, if_pos rfl, Nat.pow_succ']
          dsimp only
          generalize (fun s => wildcardfit (eraseStars (skipMarks wildcard (t :: test)).1) s) = fits
          generalize eraseStars (skipMarks wildcard (t :: test)).1 = behind at each ⊢
          generalize (skipMarks wildcard (t :: test)).2 = there at short ⊢
          have sum : ((places fits behind there).map fun s => 1 + calls behind s).sum ≤
              (t :: test).length * ((t :: test).length + 1) ^ k := by
            obtain ⟨few, inside⟩ := places_bound fits behind there
            refine Nat.le_trans (List.sum_le_card_nsmul _ _ fun x listed => ?_)
              (Nat.mul_le_mul_right _ (Nat.le_trans (Nat.le_of_eq (List.length_map _))
                (Nat.le_trans few short)))
            obtain ⟨s, ins, rfl⟩ := List.mem_map.mp listed
            exact each s (Nat.le_trans (inside s ins) short)
          have found := each _ (Nat.le_trans (length_asterisk fits behind there) short)
          have rest : 1 + (if (asterisk fits behind there).1 then
              calls behind (asterisk fits behind there).2 else 0) ≤
                ((t :: test).length + 1) ^ k := by
            split
            · exact found
            · exact Nat.le_trans (Nat.le_add_right _ _) found
          rw [Nat.succ_mul]
          omega
        rw [validFrom_other isStar isOpening] at valid
        by_cases isQuestion : c = question
        · rw [if_pos isQuestion]
          exact further (Nat.le_refl _) valid
        rw [if_neg isQuestion, if_neg isStar]
        split
        · exact further (Nat.le_refl _) valid
        · exact positive

end

/-- A valid wildcard is tried at no more than the fourth power of the places that there are. -/
theorem calls_lt_of_comValidWildcard {wildcard : List UInt8}
    (valid : comValidWildcard wildcard = true) (test : List UInt8) :
    calls wildcard test < (test.length + 1) ^ 4 := by
  rw [comValidWildcard, Bool.and_eq_true] at valid
  have bound : 1 + calls wildcard test ≤ (test.length + 1) ^ 4 := calls_bound valid.2 rfl
  omega

theorem calls_lt_of_comValidWildcard_stars :
    calls [star, 97, star, opening, 98, closing] [97, 97, 97] < 4 ^ 4 :=
  calls_lt_of_comValidWildcard
    (by simp [comValidWildcard, validFrom, strchr, maxQpath, star, opening, closing]) [97, 97, 97]

end Wildcard
