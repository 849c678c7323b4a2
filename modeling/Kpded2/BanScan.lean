import Kpded2.UserinfoBans

/-!
# The scan for userinfo bans

`SV_UserinfoValidate` and `SV_CheckUserinfoBans` scan the same string, the second with two
buffers of 64 bytes and no check of its own. Here the scan keeps what it writes into them, the
pairs that it asks `VarBanMatch` about and whether it reports a malformed string.
-/
namespace BanScan
open Bytes InfoString UserinfoBans

/-- What a call does: the pairs that it tests, in order, and the match with its key. -/
structure Scan where
  tested : List Pair := []
  found : Option (Banmatch × List UInt8) := none
  malformed : Bool := false

/-- `Q_strncpy` into a buffer: `len` bytes and a terminator behind them. `none` is a write
outside the buffer. -/
def qStrncpy (size : Nat) (src : List UInt8) (len : Nat) : Option (List UInt8) :=
  if len < size then some (src.take len) else none

variable (floats : Floats) (bans : List Varban)

/-- The loop; `s` is the string from where it has come. -/
def scan (key : List UInt8) (waitForKey : Bool) (s : List UInt8) : Option Scan :=
  match s with
  | [] => some {}
  | _ :: s =>
    match _h : s.drop (upToBackslash s).length with
    | [] => some { malformed := true }
    | _ :: p =>
      match qStrncpy maxInfoValue s (upToBackslash s).length with
      | none => none
      | some myKey =>
        let s := p.drop (upToBackslash p).length
        match qStrncpy maxInfoValue p
            (if s = [] then maxInfoValue - 1 else (upToBackslash p).length) with
        | none => none
        | some value =>
          if waitForKey then scan key (myKey ≠ key) s
          else match varBanMatch floats bans myKey value with
            | some found => some { tested := [(myKey, value)], found := some (found, myKey) }
            | none => (scan key false s).map fun r => { r with tested := (myKey, value) :: r.tested }
termination_by s.length
decreasing_by
  all_goals
    have hlength := congrArg List.length _h
    simp only [List.length_drop, List.length_cons] at hlength ⊢
    omega

def checkUserinfoBans (userinfo key : List UInt8) : Option Scan :=
  if bans = [] then some {} else scan floats bans key (key ≠ []) userinfo

/-! ## The grammar -/

/-- A sequence of pairs with short keys and values; the last value is not empty. -/
def Grammar (s : List UInt8) : Prop :=
  ∃ pairs, s = render pairs ∧ (∀ p ∈ pairs, ShortPair p) ∧ EndsWithValue pairs

theorem svUserinfoValidate_iff (s : List UInt8) : svUserinfoValidate s = true ↔ Grammar s := by
  constructor
  · exact exists_pairs_of_svUserinfoValidate
  · rintro ⟨pairs, rfl, short, ends⟩
    exact svUserinfoValidate_render pairs short ends

/-! ## The scan of pairs -/

variable {floats bans} {key : List UInt8} {pairs : List Pair} {p : Pair}

theorem scan_nil (wait : Bool) : scan floats bans key wait [] = some {} := by
  rw [scan]

theorem qStrncpy_of_lt {size len : Nat} (src : List UInt8) (h : len < size) :
    qStrncpy size src len = some (src.take len) :=
  if_pos h

/-- One turn of the loop at a pair that is short enough. -/
theorem scan_render_cons (own : ShortPair p) (pairs : List Pair) (wait : Bool) :
    scan floats bans key wait (render (p :: pairs)) =
      if wait then scan floats bans key (p.1 ≠ key) (render pairs)
      else match banOf floats bans p with
        | some found => some { tested := [p], found := some (found, p.1) }
        | none => (scan floats bans key false (render pairs)).map fun r =>
            { r with tested := p :: r.tested } := by
  have hkey : upToBackslash (p.1 ++ backslash :: (p.2 ++ render pairs)) = p.1 :=
    upToBackslash_append own.noBackslash.1 (Or.inr ⟨_, rfl⟩)
  have hvalue := upToBackslash_append own.noBackslash.2 (render_eq_nil_or pairs)
  have hdrop : (p.1 ++ backslash :: (p.2 ++ render pairs)).drop
      (upToBackslash (p.1 ++ backslash :: (p.2 ++ render pairs))).length =
        backslash :: (p.2 ++ render pairs) := by
    rw [hkey, List.drop_left]
  have first : qStrncpy maxInfoValue (p.1 ++ backslash :: (p.2 ++ render pairs)) p.1.length =
      some p.1 := by
    rw [qStrncpy_of_lt _ (show p.1.length < maxInfoValue from own.shortKey), List.take_left]
  have second : qStrncpy maxInfoValue (p.2 ++ render pairs)
      (if render pairs = [] then maxInfoValue - 1 else p.2.length) = some p.2 := by
    split
    · rename_i last
      have short := own.shortValue
      rw [last, List.append_nil, qStrncpy_of_lt _ (by decide), List.take_of_length_le (by omega)]
    · rw [qStrncpy_of_lt _ own.shortValue, List.take_left]
  rw [render_cons, scan]
  split
  · rename_i none
    rw [hdrop] at none
    cases none
  · rename_i some
    rw [hdrop] at some
    cases some
    simp only [hkey, hvalue, List.drop_left, first, second]
    rfl

/-- What is tested and found among the pairs. -/
def Tests (floats : Floats) (bans : List Varban) (pairs : List Pair) (r : Scan) : Prop :=
  r.malformed = false ∧
    ((r.found = none ∧ r.tested = pairs ∧ ∀ p ∈ pairs, banOf floats bans p = none) ∨
      ∃ front p behind found, pairs = front ++ p :: behind ∧ r.tested = front ++ [p] ∧
        r.found = some (found, p.1) ∧ banOf floats bans p = some found ∧
        ∀ q ∈ front, banOf floats bans q = none)

theorem Tests.cons {r : Scan} (h : Tests floats bans pairs r) (free : banOf floats bans p = none) :
    Tests floats bans (p :: pairs) { r with tested := p :: r.tested } := by
  refine ⟨h.1, ?_⟩
  rcases h.2 with ⟨found, tested, others⟩ | ⟨front, q, behind, found, rfl, tested, hfound, banned, others⟩
  · left
    refine ⟨found, congrArg _ tested, fun q hq => ?_⟩
    rcases List.mem_cons.mp hq with rfl | hq
    · exact free
    · exact others q hq
  · right
    refine ⟨p :: front, q, behind, found, rfl, congrArg _ tested, hfound, banned, fun q' hq => ?_⟩
    rcases List.mem_cons.mp hq with rfl | hq
    · exact free
    · exact others q' hq

theorem scan_render_false (short : ∀ p ∈ pairs, ShortPair p) :
    ∃ r, scan floats bans key false (render pairs) = some r ∧ Tests floats bans pairs r := by
  induction pairs with
  | nil => exact ⟨{}, scan_nil false, rfl, Or.inl ⟨rfl, rfl, List.forall_mem_nil _⟩⟩
  | cons p pairs ih =>
    rw [scan_render_cons (short p List.mem_cons_self) pairs false]
    obtain ⟨r, hr, tests⟩ := ih fun q hq => short q (List.mem_cons_of_mem p hq)
    cases banned : banOf floats bans p with
    | none =>
      refine ⟨{ r with tested := p :: r.tested }, ?_, tests.cons banned⟩
      simp only [Bool.false_eq_true, if_false, hr, Option.map_some]
    | some found =>
      exact ⟨_, rfl, rfl, Or.inr ⟨[], p, pairs, found, rfl, rfl, rfl, banned,
        List.forall_mem_nil _⟩⟩

theorem scan_render_true (short : ∀ p ∈ pairs, ShortPair p) :
    ∃ r, scan floats bans key true (render pairs) = some r ∧
      Tests floats bans (pairs.dropWhile fun p => p.1 ≠ key).tail r := by
  induction pairs with
  | nil => exact ⟨{}, scan_nil true, rfl, Or.inl ⟨rfl, rfl, List.forall_mem_nil _⟩⟩
  | cons p pairs ih =>
    have others := fun q hq => short q (List.mem_cons_of_mem p hq)
    rw [scan_render_cons (short p List.mem_cons_self) pairs true, if_pos rfl]
    by_cases same : p.1 = key
    · rw [List.dropWhile_cons_of_neg (by simpa using same), List.tail_cons]
      simp only [same, ne_eq, not_true_eq_false, decide_false]
      exact scan_render_false others
    · rw [List.dropWhile_cons_of_pos (by simpa using same)]
      simp only [same, ne_eq, not_false_eq_true, decide_true]
      exact ih others

/-- The pairs behind the resume key are tested in order, up to the first that matches; without a
ban there is nothing to test. -/
theorem checkUserinfoBans_render (short : ∀ p ∈ pairs, ShortPair p) :
    ∃ r, checkUserinfoBans floats bans (render pairs) key = some r ∧
      (bans = [] → r.malformed = false ∧ r.tested = [] ∧ r.found = none) ∧
      (bans ≠ [] → Tests floats bans (after key pairs) r) := by
  by_cases none : bans = []
  · exact ⟨{}, if_pos none, fun _ => ⟨rfl, rfl, rfl⟩, fun some => absurd none some⟩
  · rw [checkUserinfoBans, if_neg none]
    by_cases empty : key = []
    · obtain ⟨r, hr, tests⟩ := @scan_render_false floats bans key pairs short
      refine ⟨r, ?_, fun none' => absurd none' none, fun _ => ?_⟩
      · rw [← hr]
        simp only [empty, ne_eq, not_true_eq_false, decide_false]
      · rw [after, if_pos empty]
        exact tests
    · obtain ⟨r, hr, tests⟩ := @scan_render_true floats bans key pairs short
      refine ⟨r, ?_, fun none' => absurd none' none, fun _ => ?_⟩
      · rw [← hr]
        simp only [empty, ne_eq, not_false_eq_true, decide_true]
      · rw [after, if_neg empty]
        exact tests

theorem take_upToBackslash (s : List UInt8) : s.take (upToBackslash s).length = upToBackslash s :=
  (List.prefix_iff_eq_take.mp (List.takeWhile_prefix _)).symm

/-- The last value is cut, as the others end before a backslash. -/
theorem take_lastValue (p : List UInt8) :
    p.take (if p.drop (upToBackslash p).length = [] then maxInfoValue - 1
      else (upToBackslash p).length) =
      if p.drop (upToBackslash p).length = [] then (upToBackslash p).take (maxInfoValue - 1)
      else upToBackslash p := by
  split
  · rename_i last
    have whole : upToBackslash p = p := by
      have short := List.drop_eq_nil_iff.mp last
      rw [← take_upToBackslash, List.take_of_length_le short]
    rw [whole]
  · exact take_upToBackslash p

theorem qStrncpy_some {size len : Nat} {src dst : List UInt8} (h : qStrncpy size src len = some dst) :
    dst = src.take len := by
  rw [qStrncpy] at h
  split at h
  · exact (Option.some.inj h).symm
  · cases h

theorem checkScan_of_none {s : List UInt8} {wait : Bool} (h : splitPair s.tail = none) :
    checkScan floats bans key wait s = none := by
  rw [checkScan]
  split
  · rfl
  · rename_i some
    rw [h] at some
    cases some

/-- Where the buffers hold, the scan finds what `svCheckUserinfoBans` finds. -/
theorem scan_found (wait : Bool) (s : List UInt8) {r : Scan}
    (h : scan floats bans key wait s = some r) : r.found = checkScan floats bans key wait s := by
  induction hlength : s.length using Nat.strong_induction_on generalizing s wait r with
  | _ n ih =>
    cases s with
    | nil =>
      rw [scan_nil] at h
      obtain rfl := Option.some.inj h
      exact (checkScan_render_nil wait).symm
    | cons c s =>
      cases hdrop : s.drop (upToBackslash s).length with
      | nil =>
        have unsplit : splitPair (c :: s).tail = none := by
          simp only [List.tail_cons, splitPair, hdrop]
        rw [scan] at h
        rw [checkScan_of_none unsplit]
        split at h
        · obtain rfl := Option.some.inj h
          rfl
        · rename_i more
          rw [hdrop] at more
          cases more
      | cons d p =>
        have split : splitPair (c :: s).tail = some ((upToBackslash s, upToBackslash p),
            p.drop (upToBackslash p).length) := by
          simp only [List.tail_cons, splitPair, hdrop]
        have shorter : (p.drop (upToBackslash p).length).length < n := by
          have := splitPair_length split
          simp only [List.tail_cons, List.length_cons] at this hlength
          omega
        rw [checkScan_of_split split]
        rw [scan] at h
        split at h
        · rename_i none
          rw [hdrop] at none
          cases none
        · rename_i d' p' more
          rw [hdrop] at more
          cases more
          split at h
          · cases h
          · rename_i myKey hkey
            simp only at h
            split at h
            · cases h
            · rename_i value hvalue
              have hvalue := qStrncpy_some hvalue
              rw [take_lastValue] at hvalue
              have hkey := qStrncpy_some hkey
              rw [take_upToBackslash] at hkey
              subst hkey hvalue
              cases wait with
              | true =>
                simp only [if_true] at h ⊢
                exact ih _ shorter _ _ h rfl
              | false =>
                simp only [Bool.false_eq_true, if_false] at h ⊢
                cases tested : varBanMatch floats bans (upToBackslash s)
                    (if p.drop (upToBackslash p).length = [] then
                      (upToBackslash p).take (maxInfoValue - 1)
                    else upToBackslash p) with
                | some found =>
                  rw [tested] at h
                  obtain rfl := Option.some.inj h
                  rfl
                | none =>
                  rw [tested] at h
                  obtain ⟨r', hr', rfl⟩ := Option.map_eq_some_iff.mp h
                  have rest : r'.found = _ := ih _ shorter _ _ hr' rfl
                  exact rest

theorem checkUserinfoBans_found {userinfo : List UInt8} {r : Scan}
    (h : checkUserinfoBans floats bans userinfo key = some r) :
    r.found = svCheckUserinfoBans floats bans userinfo key := by
  rw [checkUserinfoBans] at h
  rw [svCheckUserinfoBans]
  split at h
  · obtain rfl := Option.some.inj h
    rename_i none
    rw [if_pos none]
  · rename_i some
    rw [if_neg some]
    exact scan_found _ userinfo h

/-- A userinfo that passes the check is scanned inside the buffers, and what is found is what
`svCheckUserinfoBans` finds. -/
theorem checkUserinfoBans_of_valid {userinfo : List UInt8} (valid : svUserinfoValidate userinfo = true) :
    ∃ r, checkUserinfoBans floats bans userinfo key = some r ∧
      r.found = svCheckUserinfoBans floats bans userinfo key := by
  obtain ⟨pairs, rfl, short, -⟩ := exists_pairs_of_svUserinfoValidate valid
  obtain ⟨r, scanned, -⟩ := @checkUserinfoBans_render floats bans key pairs short
  exact ⟨r, scanned, checkUserinfoBans_found scanned⟩

/-- The two scanners agree on the grammar: a string is accepted if and only if it is a sequence of
short pairs that ends with a value, and then the scan for bans stays inside its buffers. -/
theorem bans_scanned (floats : Floats) (bans : List Varban) (key s : List UInt8) :
    (svUserinfoValidate s = true ↔ Grammar s) ∧
      (svUserinfoValidate s = true → ∃ r, checkUserinfoBans floats bans s key = some r ∧
        (bans = [] → r.malformed = false ∧ r.tested = [] ∧ r.found = none) ∧
        (bans ≠ [] → Tests floats bans (after key (infoPairs s)) r)) := by
  refine ⟨svUserinfoValidate_iff s, fun valid => ?_⟩
  obtain ⟨pairs, rfl, short, -⟩ := exists_pairs_of_svUserinfoValidate valid
  rw [infoPairs_render pairs fun p hp => (short p hp).noBackslash]
  exact checkUserinfoBans_render short

private def countless : Floats where
  Float := Nat
  zero := 0
  strtod s := (0, s.length)
  less _ _ := false
  equal _ _ := true

private def banFov : List Varban :=
  [{ varname := ascii "fov"
     list := [{ matchvalue := ascii "*", message := [], blockmethod := .logonly }] }]

/-- A pair behind the one that matches is not tested by the same call. -/
theorem behind_match_untested : ¬∀ (floats : Floats) (bans : List Varban) (key s : List UInt8),
    svUserinfoValidate s = true → ∃ r, checkUserinfoBans floats bans s key = some r ∧
      r.malformed = false ∧ r.tested = after key (infoPairs s) := by
  intro claim
  obtain ⟨r, hr, -, tested⟩ := claim countless banFov []
    (render [(ascii "fov", ascii "90"), (ascii "hand", ascii "0")]) (by decide +kernel)
  have short : ∀ p ∈ [(ascii "fov", ascii "90"), (ascii "hand", ascii "0")], ShortPair p := by
    intro p hp
    have either : p = (ascii "fov", ascii "90") ∨ p = (ascii "hand", ascii "0") := by simpa using hp
    rcases either with rfl | rfl
    · exact ⟨⟨by decide, by decide⟩, by decide, by decide⟩
    · exact ⟨⟨by decide, by decide⟩, by decide, by decide⟩
  have first := @scan_render_cons countless banFov [] _ (short _ List.mem_cons_self)
    [(ascii "hand", ascii "0")] false
  rw [infoPairs_render _ fun p hp => (short p hp).noBackslash] at tested
  have same : checkUserinfoBans countless banFov
      (render [(ascii "fov", ascii "90"), (ascii "hand", ascii "0")]) [] =
        some { tested := [(ascii "fov", ascii "90")],
               found := some (⟨ascii "*", [], .logonly⟩, ascii "fov") } := first
  rw [same] at hr
  obtain rfl := Option.some.inj hr
  exact absurd (congrArg List.length tested) (by decide)

end BanScan
