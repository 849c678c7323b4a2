import Mathlib.Algebra.Order.Ring.Nat
import Mathlib.Data.UInt
import Kpded2.StepRuns

/-!
# The random numbers

`mersennetwister.c` keeps `N` = 624 words, and one more that is read but never used. They are
tempered one after the other, and when none is left, `reloadMT` makes the next ones in place out of
them, `M` = 397 ahead. A pointer into the words is its index, and a run stops at an index that is
not one of the 625.
-/
namespace MersenneTwister
open StepRuns

structure Generator where
  state : List UInt32
  next : Nat
  left : Int

def hiBit (u : UInt32) : UInt32 := u &&& 0x80000000
def loBit (u : UInt32) : UInt32 := u &&& 0x00000001
def loBits (u : UInt32) : UInt32 := u &&& 0x7FFFFFFF
def mixBits (u v : UInt32) : UInt32 := hiBit u ||| loBits v

def twist (m s0 s1 : UInt32) : UInt32 :=
  m ^^^ (mixBits s0 s1 >>> 1) ^^^ (if loBit s1 ≠ 0 then 0x9908B0DF else 0)

def temper (y : UInt32) : UInt32 :=
  let y := y ^^^ (y >>> 11)
  let y := y ^^^ ((y <<< 7) &&& 0x9D2C5680)
  let y := y ^^^ ((y <<< 15) &&& 0xEFC60000)
  y ^^^ (y >>> 18)

def store (state : List UInt32) (p : Nat) (x : UInt32) : Option (List UInt32) :=
  if p < state.length then some (state.set p x) else none

def seedFrom (x : UInt32) (state : List UInt32) (s : Nat) : Nat → Option (List UInt32)
  | 0 => some state
  | j + 1 => do
    let state ← store state s (x * 69069)
    seedFrom (x * 69069) state (s + 1) j

def seedMT (seed : UInt32) (g : Generator) : Option Generator := do
  let state ← store g.state 0 (seed ||| 1)
  let state ← seedFrom (seed ||| 1) state 1 623
  return { g with state := state, left := 0 }

/-- The pointers of `reloadMT`, and the two words that it holds. -/
structure Walk where
  state : List UInt32
  p0 : Nat
  p2 : Nat
  pM : Nat
  s0 : UInt32
  s1 : UInt32

def turn (w : Walk) : Option Walk := do
  let m ← w.state[w.pM]?
  let state ← store w.state w.p0 (twist m w.s0 w.s1)
  let s2 ← state[w.p2]?
  return ⟨state, w.p0 + 1, w.p2 + 1, w.pM + 1, w.s1, s2⟩

def turns : Nat → Walk → Option Walk
  | 0, w => some w
  | j + 1, w => do
    let w ← turn w
    turns j w

def reloadMT (g : Generator) : Option (UInt32 × Generator) := do
  let g ← if g.left < -1 then seedMT 4357 g else some g
  let s0 ← g.state[0]?
  let s1 ← g.state[1]?
  let w ← turns 227 ⟨g.state, 0, 2, 397, s0, s1⟩
  let w ← turns 396 { w with pM := 0 }
  let s1 ← w.state[0]?
  let m ← w.state[w.pM]?
  let state ← store w.state w.p0 (twist m w.s0 s1)
  return (temper s1, ⟨state, 1, 623⟩)

def randomMT (g : Generator) : Option (UInt32 × Generator) :=
  let left := g.left - 1
  if left < 0 then reloadMT { g with left := left }
  else do
    let y ← g.state[g.next]?
    return (temper y, { g with next := g.next + 1, left := left })

inductive Call where
  | seedMT (seed : UInt32)
  | randomMT

def step (s : Option (Generator × List UInt32)) (call : Call) : Option (Generator × List UInt32) :=
  s.bind fun (g, drawn) =>
    match call with
    | .seedMT seed => (seedMT seed g).map fun g => (g, drawn)
    | .randomMT => (randomMT g).map fun (y, g) => (g, drawn ++ [y])

def unseeded : Generator := ⟨List.replicate 625 0, 0, -1⟩

/-! The numbers as a sequence, with nothing stored. -/

def word (seed : UInt32) (n : Nat) : UInt32 :=
  if n < 624 then (seed ||| 1) * 69069 ^ n
  else twist (word seed (n - 227)) (word seed (n - 624)) (word seed (n - 623))
termination_by n
decreasing_by all_goals omega

def number (seed : UInt32) (k : Nat) : UInt32 := temper (word seed (624 + k))

structure Sequence where
  seed : UInt32
  count : Nat
  drawn : List UInt32

def Sequence.step (s : Sequence) : Call → Sequence
  | .seedMT seed => { s with seed := seed, count := 0 }
  | .randomMT => { s with count := s.count + 1, drawn := s.drawn ++ [number s.seed s.count] }

theorem word_seed (seed : UInt32) {n : Nat} (first : n < 624) :
    word seed n = (seed ||| 1) * 69069 ^ n := by
  rw [word, if_pos first]

theorem word_twist (seed : UInt32) (n : Nat) :
    word seed (n + 624) = twist (word seed (n + 397)) (word seed n) (word seed (n + 1)) := by
  rw [word, if_neg (Nat.not_lt.mpr (Nat.le_add_left 624 n)), Nat.add_sub_cancel,
    show n + 624 - 227 = n + 397 by omega, show n + 624 - 623 = n + 1 by omega]

/-- The first `i` words are already those that are `N` further on. -/
structure Holds (seed : UInt32) (base i : Nat) (state : List UInt32) : Prop where
  size : state.length = 625
  words : ∀ j, j < 624 → state[j]? = some (word seed (base + j + if j < i then 624 else 0))

section
variable {seed : UInt32} {base i : Nat} {state : List UInt32}

theorem store_size (size : state.length = 625) {p : Nat} (inside : p < 625) (x : UInt32) :
    store state p x = some (state.set p x) :=
  if_pos (by omega)

theorem Holds.store (holds : Holds seed base i state) (inside : i < 624) {x : UInt32}
    (next : x = word seed (base + i + 624)) :
    ∃ state', store state i x = some state' ∧ Holds seed base (i + 1) state' := by
  have room : i < state.length := by
    rw [holds.size]
    omega
  refine ⟨state.set i x, if_pos room, (List.length_set ..).trans holds.size, fun j less => ?_⟩
  by_cases same : j = i
  · rw [same, List.getElem?_set_self room, if_pos (Nat.lt_succ_self i), next]
  · rw [List.getElem?_set_ne (Ne.symm same), holds.words j less]
    by_cases before : j < i
    · rw [if_pos before, if_pos (Nat.lt_succ_of_lt before)]
    · rw [if_neg before, if_neg (by omega)]

theorem Holds.ahead (holds : Holds seed base i state) {j : Nat} (less : j < 624)
    (ahead : i ≤ j) : state[j]? = some (word seed (base + j)) := by
  rw [holds.words j less, if_neg (Nat.not_lt.mpr ahead), Nat.add_zero]

theorem Holds.behind (holds : Holds seed base i state) {j : Nat} (less : j < 624)
    (behind : j < i) : state[j]? = some (word seed (base + j + 624)) := by
  rw [holds.words j less, if_pos behind]

theorem Holds.reloaded (holds : Holds seed base 624 state) : Holds seed (base + 624) 0 state := by
  refine ⟨holds.size, fun j less => ?_⟩
  rw [holds.behind less less, if_neg (Nat.not_lt_zero j), Nat.add_right_comm]
  rfl

theorem seedFrom_spec (seed : UInt32) (state : List UInt32) (s j : Nat)
    (size : state.length = 625) (whole : s + j = 623)
    (first : ∀ k, k ≤ s → state[k]? = some (word seed k)) :
    ∃ state', seedFrom (word seed s) state (s + 1) j = some state' ∧ Holds seed 0 0 state' := by
  induction j generalizing state s with
  | zero =>
    refine ⟨state, rfl, size, fun k less => ?_⟩
    rw [if_neg (Nat.not_lt_zero k), Nat.add_zero, Nat.zero_add]
    exact first k (by omega)
  | succ j ih =>
    have next : word seed s * 69069 = word seed (s + 1) := by
      rw [word_seed seed (by omega), word_seed seed (by omega), UInt32.pow_succ, UInt32.mul_assoc]
    have room : s + 1 < state.length := by omega
    rw [seedFrom, next, store_size size (by omega), Option.bind_eq_bind, Option.bind_some]
    refine ih (state.set (s + 1) (word seed (s + 1))) (s + 1)
      ((List.length_set ..).trans size) (by omega) fun k upTo => ?_
    by_cases same : k = s + 1
    · rw [same, List.getElem?_set_self room]
    · rw [List.getElem?_set_ne (Ne.symm same)]
      exact first k (by omega)

theorem seedMT_spec (seed : UInt32) {g : Generator} (size : g.state.length = 625) :
    ∃ state, seedMT seed g = some { g with state := state, left := 0 } ∧ Holds seed 0 0 state := by
  have zeroth : word seed 0 = seed ||| 1 := by
    rw [word_seed seed (by decide), UInt32.pow_zero, UInt32.mul_one]
  obtain ⟨state, seeded, holds⟩ := seedFrom_spec seed (g.state.set 0 (seed ||| 1)) 0 623
    ((List.length_set ..).trans size) rfl (by
      intro k least
      rw [Nat.le_zero.mp least, List.getElem?_set_self (by omega), zeroth])
  rw [zeroth] at seeded
  refine ⟨state, ?_, holds⟩
  rw [seedMT, store_size size (by decide)]
  simp only [Option.bind_eq_bind, Option.bind_some, seeded, Option.pure_def]

/-- Before turn `i` the two words are the old ones at `i` and behind it. -/
structure Walks (seed : UInt32) (base i : Nat) (w : Walk) : Prop where
  holds : Holds seed base i w.state
  p0 : w.p0 = i
  p2 : w.p2 = i + 2
  old : w.s0 = word seed (base + i)
  young : i < 623 → w.s1 = word seed (base + i + 1)

theorem turn_spec {w : Walk} (walks : Walks seed base i w) (inside : i < 623)
    (far : w.state[w.pM]? = some (word seed (base + i + 397))) :
    ∃ w', turn w = some w' ∧ Walks seed base (i + 1) w' ∧ w'.pM = w.pM + 1 := by
  have next : twist (word seed (base + i + 397)) w.s0 w.s1 = word seed (base + i + 624) := by
    rw [word_twist, walks.old, walks.young inside]
  obtain ⟨state, stored, holds⟩ := walks.holds.store (by omega) next
  have room : i + 2 < state.length := by
    rw [holds.size]
    omega
  have read : state[w.p2]? = some (state[i + 2]) := by
    rw [walks.p2]
    exact List.getElem?_eq_getElem room
  refine ⟨⟨state, w.p0 + 1, w.p2 + 1, w.pM + 1, w.s1, state[i + 2]⟩, ?_,
    ⟨holds, congrArg (· + 1) walks.p0, congrArg (· + 1) walks.p2, walks.young inside,
      fun less => ?_⟩, rfl⟩
  · simp only [turn, far, walks.p0, stored, read, Option.bind_eq_bind, Option.bind_some,
      Option.pure_def]
  · have ahead := holds.ahead (j := i + 2) (by omega) (by omega)
    rw [List.getElem?_eq_getElem room] at ahead
    exact Option.some.inj ahead

theorem turns_spec {n k : Nat} {w : Walk} (walks : Walks seed base i w) (pM : w.pM = k)
    (inside : i + n ≤ 623)
    (far : ∀ j state, j < n → Holds seed base (i + j) state →
      state[k + j]? = some (word seed (base + (i + j) + 397))) :
    ∃ w', turns n w = some w' ∧ Walks seed base (i + n) w' ∧ w'.pM = k + n := by
  induction n generalizing w i k with
  | zero => exact ⟨w, rfl, walks, pM⟩
  | succ n ih =>
    have first := far 0 w.state (Nat.zero_lt_succ n) walks.holds
    rw [← pM] at first
    obtain ⟨w', turned, walks', pM'⟩ := turn_spec walks (by omega) first
    rw [pM] at pM'
    obtain ⟨w'', rest, walks'', pM''⟩ := ih walks' pM' (by omega) fun j state less holds => by
      rw [Nat.add_assoc, Nat.add_comm 1] at holds
      rw [Nat.add_assoc k, Nat.add_assoc i, Nat.add_comm 1]
      exact far (j + 1) state (Nat.succ_lt_succ less) holds
    refine ⟨w'', ?_, ?_, ?_⟩
    · rw [turns, turned]
      exact rest
    · rwa [Nat.add_assoc, Nat.add_comm 1] at walks''
    · rw [pM'', Nat.add_assoc, Nat.add_comm 1]

/-- A reload replaces all the words by those that are `N` further on. -/
theorem reloadMT_spec {g : Generator} (holds : Holds seed base 0 g.state) (left : -1 ≤ g.left) :
    ∃ state, reloadMT g = some (temper (word seed (base + 624)), ⟨state, 1, 623⟩) ∧
      Holds seed (base + 624) 0 state := by
  have start : Walks seed base 0 ⟨g.state, 0, 2, 397, word seed base, word seed (base + 1)⟩ :=
    ⟨holds, rfl, rfl, rfl, fun _ => rfl⟩
  obtain ⟨w, walked, walks, pM⟩ := turns_spec (n := 227) (k := 397) start rfl (by decide)
    fun j state less holds => by
      rw [holds.ahead (by omega) (by omega)]
      exact congrArg (fun k => some (word seed k)) (by omega)
  have restart : Walks seed base (0 + 227) { w with pM := 0 } :=
    ⟨walks.holds, walks.p0, walks.p2, walks.old, walks.young⟩
  obtain ⟨v, walked', walks', pM'⟩ := turns_spec (n := 396) (k := 0) restart rfl (by decide)
    fun j state less holds => by
      rw [holds.behind (by omega) (by omega)]
      exact congrArg (fun k => some (word seed k)) (by omega)
  have zeroth := walks'.holds.behind (j := 0) (by decide) (by decide)
  have far := walks'.holds.behind (j := 396) (by decide) (by decide)
  have last : twist (word seed (base + 396 + 624)) v.s0 (word seed (base + 0 + 624)) =
      word seed (base + 623 + 624) := by
    rw [walks'.old]
    exact (word_twist seed (base + 623)).symm
  obtain ⟨state, stored, holds'⟩ := walks'.holds.store (by decide) last
  refine ⟨state, ?_, holds'.reloaded⟩
  have seeded : ¬g.left < -1 := by omega
  have s0 := holds.ahead (j := 0) (by decide) (by decide)
  have s1 := holds.ahead (j := 1) (by decide) (by decide)
  have p0 : v.p0 = 623 := walks'.p0
  have pM'' : v.pM = 396 := pM'
  simp only [reloadMT, if_neg seeded, Option.bind_eq_bind, Option.bind_some, s0, s1, Nat.add_zero,
    walked, walked', zeroth, pM'', far, p0, stored, Option.pure_def]

theorem reloadMT_unseeded {g g' : Generator} (left : g.left < -1)
    (seeded : seedMT 4357 g = some g') (left' : ¬g'.left < -1) : reloadMT g = reloadMT g' := by
  simp only [reloadMT, if_pos left, if_neg left', seeded, Option.bind_eq_bind, Option.bind_some]

end

/-- `count` numbers were drawn since the seed. -/
inductive Follows : Generator → UInt32 → Nat → Prop
  | unseeded {state : List UInt32} {next : Nat} (size : state.length = 625) :
      Follows ⟨state, next, -1⟩ 4357 0
  | seeded {state : List UInt32} {next left count : Nat} {seed : UInt32}
      (rest : 0 < left → next + left = 624) (holds : Holds seed (count + left) 0 state) :
      Follows ⟨state, next, left⟩ seed count

theorem Follows.size {g : Generator} {seed : UInt32} {count : Nat}
    (follows : Follows g seed count) : g.state.length = 625 := by
  cases follows with
  | unseeded size => exact size
  | seeded _ holds => exact holds.size

theorem seedMT_follows (seed : UInt32) {g : Generator} (size : g.state.length = 625) :
    ∃ g', seedMT seed g = some g' ∧ Follows g' seed 0 := by
  obtain ⟨state, seeded, holds⟩ := seedMT_spec seed size
  have none : 0 < 0 → g.next + 0 = 624 := fun more => absurd more (Nat.lt_irrefl 0)
  exact ⟨⟨state, g.next, 0⟩, seeded, .seeded none holds⟩

theorem reloadMT_follows {g : Generator} {seed : UInt32} {count : Nat}
    (holds : Holds seed count 0 g.state) (left : -1 ≤ g.left) :
    ∃ g', reloadMT g = some (number seed count, g') ∧ Follows g' seed (count + 1) := by
  obtain ⟨state, reloaded, holds'⟩ := reloadMT_spec holds left
  have further : Holds seed (count + 1 + 623) 0 state := by
    rwa [Nat.add_assoc]
  refine ⟨⟨state, 1, 623⟩, ?_, .seeded (fun _ => rfl) further⟩
  rw [reloaded, number, Nat.add_comm 624]

/-- A number that is drawn is the next one of the recurrence. -/
theorem randomMT_follows {g : Generator} {seed : UInt32} {count : Nat}
    (follows : Follows g seed count) :
    ∃ g', randomMT g = some (number seed count, g') ∧ Follows g' seed (count + 1) := by
  cases follows with
  | @unseeded state next size =>
    obtain ⟨state', seeded, holds⟩ := seedMT_spec 4357 (g := ⟨state, next, -2⟩) size
    obtain ⟨g', reloaded, follows'⟩ :=
      reloadMT_follows (g := ⟨state', next, 0⟩) holds (show (-1 : Int) ≤ 0 by decide)
    refine ⟨g', ?_, follows'⟩
    rw [← reloaded]
    exact reloadMT_unseeded (g := ⟨state, next, -2⟩) (show (-2 : Int) < -1 by decide) seeded
      (show ¬(0 : Int) < -1 by decide)
  | @seeded state next left count seed rest holds =>
    cases left with
    | zero =>
      exact reloadMT_follows (g := ⟨state, next, -1⟩) holds (Int.le_refl (-1))
    | succ left =>
      have place := rest (Nat.succ_pos left)
      have stored := holds.ahead (j := next) (by omega) (Nat.zero_le next)
      have more : ¬((left : Int) + 1 - 1 < 0) := by omega
      refine ⟨⟨state, next + 1, left⟩, ?_, .seeded (fun _ => by omega) ?_⟩
      · rw [randomMT, Int.natCast_succ, if_neg more]
        simp only [stored, Option.bind_eq_bind, Option.bind_some, Option.pure_def]
        rw [number, show count + (left + 1) + next = 624 + count by omega,
          show (left : Int) + 1 - 1 = left by omega]
      · rwa [Nat.add_assoc, Nat.add_comm 1]

/-- One call follows the recurrence. -/
theorem step_follows {g : Generator} {s : Sequence} (follows : Follows g s.seed s.count)
    (call : Call) : ∃ g', step (some (g, s.drawn)) call = some (g', (s.step call).drawn) ∧
      Follows g' (s.step call).seed (s.step call).count := by
  cases call with
  | seedMT seed =>
    obtain ⟨g', seeded, follows'⟩ := seedMT_follows seed follows.size
    exact ⟨g', by simp only [step, seeded, Option.bind_some, Option.map_some, Sequence.step],
      follows'⟩
  | randomMT =>
    obtain ⟨g', taken, follows'⟩ := randomMT_follows follows
    exact ⟨g', by simp only [step, taken, Option.bind_some, Option.map_some, Sequence.step],
      follows'⟩

/-- Every list of calls follows the recurrence. -/
theorem run_follows {g : Generator} {s : Sequence} (follows : Follows g s.seed s.count)
    (calls : List Call) :
    ∃ g', run step (some (g, s.drawn)) calls = some (g', (run Sequence.step s calls).drawn) ∧
      Follows g' (run Sequence.step s calls).seed (run Sequence.step s calls).count := by
  induction calls generalizing g s with
  | nil => exact ⟨g, rfl, follows⟩
  | cons call calls ih =>
    obtain ⟨g', stepped, follows'⟩ := step_follows follows call
    rw [run_cons, run_cons, stepped]
    exact ih follows'

/-- The words are never left, and the numbers drawn are those of the sequence since the last seed,
which is 4357 before the first. -/
theorem numbers_drawn (calls : List Call) :
    ∃ g, run step (some (unseeded, [])) calls =
      some (g, (run Sequence.step ⟨4357, 0, []⟩ calls).drawn) := by
  obtain ⟨g, ran, -⟩ := run_follows (s := ⟨4357, 0, []⟩) (.unseeded List.length_replicate) calls
  exact ⟨g, ran⟩

/-! The numbers give the words away, and 624 words give all that follow. -/

theorem xor_shiftRight_injective {w s : Nat} (pos : 0 < s) :
    Function.Injective fun x : BitVec w => x ^^^ (x >>> s) := by
  intro x y same
  have bit (i : Nat) : x.getLsbD i = y.getLsbD i := by
    induction left : w - i using Nat.strong_induction_on generalizing i with
    | _ n ih =>
      by_cases less : i < w
      · have here := congrArg (fun v : BitVec w => v.getLsbD i) same
        have above := ih (w - (s + i)) (by omega) (s + i) rfl
        simpa only [BitVec.getLsbD_xor, BitVec.getLsbD_ushiftRight, above,
          Bool.xor_left_inj] using here
      · rw [BitVec.getLsbD_of_ge x i (Nat.not_lt.mp less),
          BitVec.getLsbD_of_ge y i (Nat.not_lt.mp less)]
  exact BitVec.eq_of_getLsbD_eq fun i _ => bit i

theorem xor_shiftLeft_injective {w s : Nat} (mask : BitVec w) (pos : 0 < s) :
    Function.Injective fun x : BitVec w => x ^^^ ((x <<< s) &&& mask) := by
  intro x y same
  have bit (i : Nat) : x.getLsbD i = y.getLsbD i := by
    induction i using Nat.strong_induction_on with
    | _ i ih =>
      have here := congrArg (fun v : BitVec w => v.getLsbD i) same
      have below : (x <<< s).getLsbD i = (y <<< s).getLsbD i := by
        rw [BitVec.getLsbD_shiftLeft, BitVec.getLsbD_shiftLeft]
        by_cases low : i < s
        · simp only [low, decide_true, Bool.not_true, Bool.and_false, Bool.false_and]
        · rw [ih (i - s) (by omega)]
      simpa only [BitVec.getLsbD_xor, BitVec.getLsbD_and, below, Bool.xor_left_inj] using here
  exact BitVec.eq_of_getLsbD_eq fun i _ => bit i

theorem temper_injective : Function.Injective temper := by
  intro x y same
  have bits := congrArg UInt32.toBitVec same
  simp only [temper, UInt32.toBitVec_xor, UInt32.toBitVec_shiftRight, UInt32.toBitVec_shiftLeft,
    UInt32.toBitVec_and] at bits
  have third := xor_shiftRight_injective (by decide) bits
  have second := xor_shiftLeft_injective _ (by decide) third
  have first := xor_shiftLeft_injective _ (by decide) second
  exact UInt32.toBitVec_inj.mp (xor_shiftRight_injective (by decide) first)

theorem words_agree {seed seed' : UInt32} {a b : Nat}
    (same : ∀ i, i < 624 → word seed (a + i) = word seed' (b + i)) (i : Nat) :
    word seed (a + i) = word seed' (b + i) := by
  induction i using Nat.strong_induction_on with
  | _ i ih =>
    by_cases first : i < 624
    · exact same i first
    · obtain ⟨k, rfl⟩ := Nat.exists_eq_add_of_le (Nat.not_lt.mp first)
      rw [Nat.add_comm 624, ← Nat.add_assoc, ← Nat.add_assoc, word_twist, word_twist,
        Nat.add_assoc a, Nat.add_assoc b, Nat.add_assoc a, Nat.add_assoc b, ih (k + 397) (by omega),
        ih k (by omega), ih (k + 1) (by omega)]

theorem numbers_agree {seed seed' : UInt32} {a b : Nat}
    (same : ∀ i, i < 624 → number seed (a + i) = number seed' (b + i)) (i : Nat) :
    number seed (a + i) = number seed' (b + i) := by
  have words := words_agree (a := 624 + a) (b := 624 + b) fun j less => by
    have tempered := temper_injective (same j less)
    rwa [← Nat.add_assoc, ← Nat.add_assoc] at tempered
  rw [number, number, ← Nat.add_assoc, ← Nat.add_assoc, words i]

def numbers (n : Nat) (g : Generator) : Option (List UInt32) :=
  (run step (some (g, [])) (List.replicate n .randomMT)).map Prod.snd

def Reached (g : Generator) : Prop :=
  ∃ calls drawn, run step (some (unseeded, [])) calls = some (g, drawn)

/-- So many calls draw so many numbers in order. -/
theorem run_randomMT (n : Nat) (s : Sequence) :
    (run Sequence.step s (List.replicate n .randomMT)).drawn =
      s.drawn ++ (List.range n).map fun i => number s.seed (s.count + i) := by
  induction n generalizing s with
  | zero => exact (List.append_nil s.drawn).symm
  | succ n ih =>
    rw [List.replicate_succ, run_cons, ih, List.range_succ_eq_map, List.map_cons, List.map_map,
      Sequence.step, List.append_assoc]
    refine congrArg (fun rest => s.drawn ++ (number s.seed s.count :: rest)) ?_
    refine List.map_congr_left fun i _ => congrArg (number s.seed) ?_
    exact Nat.add_right_comm s.count 1 i

theorem Follows.numbers {g : Generator} {seed : UInt32} {count : Nat}
    (follows : Follows g seed count) (n : Nat) :
    numbers n g = some ((List.range n).map fun i => number seed (count + i)) := by
  obtain ⟨g', ran, -⟩ :=
    run_follows (s := ⟨seed, count, []⟩) follows (List.replicate n .randomMT)
  rw [MersenneTwister.numbers, ran, Option.map_some, run_randomMT, List.nil_append]

theorem Reached.follows {g : Generator} (reached : Reached g) :
    ∃ seed count, Follows g seed count := by
  obtain ⟨calls, drawn, ran⟩ := reached
  obtain ⟨g', ran', follows⟩ :=
    run_follows (s := ⟨4357, 0, []⟩) (.unseeded List.length_replicate) calls
  obtain ⟨rfl, -⟩ := Prod.mk.inj (Option.some.inj (ran.symm.trans ran'))
  exact ⟨_, _, follows⟩

/-- Whoever has seen 624 numbers in a row knows all that come until the next seed. -/
theorem numbers_predicted {g g' : Generator} (reached : Reached g) (reached' : Reached g')
    (same : numbers 624 g = numbers 624 g') (n : Nat) : numbers n g = numbers n g' := by
  obtain ⟨seed, count, follows⟩ := reached.follows
  obtain ⟨seed', count', follows'⟩ := reached'.follows
  rw [follows.numbers, follows'.numbers] at same
  have each := List.map_inj_left.mp (Option.some.inj same)
  rw [follows.numbers, follows'.numbers]
  refine congrArg some (List.map_congr_left fun i _ => numbers_agree (fun j less => ?_) i)
  exact each j (List.mem_range.mpr less)

theorem seedMT_reached {seed : UInt32} {g : Generator} (seeded : seedMT seed unseeded = some g) :
    Reached g :=
  ⟨[.seedMT seed], [], by simp only [run_cons, run_nil, step, Option.bind_some, seeded,
    Option.map_some]⟩

theorem seedMT_left {seed : UInt32} {g g' : Generator} (seeded : seedMT seed g = some g') :
    g'.left = 0 := by
  simp only [seedMT, Option.bind_eq_bind, Option.bind_eq_some_iff, Option.pure_def] at seeded
  obtain ⟨_, -, state, -, last⟩ := seeded
  rw [← Option.some.inj last]

/-- A generator that nobody has seeded behaves as one seeded with 4357. -/
theorem numbers_predicted_unseeded :
    ∃ g, seedMT 4357 unseeded = some g ∧ g ≠ unseeded ∧ numbers 1000 unseeded = numbers 1000 g := by
  obtain ⟨g, seeded, follows⟩ := seedMT_follows 4357 (g := unseeded) List.length_replicate
  have fresh : Follows unseeded 4357 0 := .unseeded List.length_replicate
  refine ⟨g, seeded, fun same => ?_, numbers_predicted ⟨[], [], rfl⟩ (seedMT_reached seeded) ?_ 1000⟩
  · have left := seedMT_left seeded
    rw [same] at left
    cases left
  · rw [fresh.numbers, follows.numbers]

end MersenneTwister
