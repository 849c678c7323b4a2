import Kpded2.InfoString

/-!
# Userinfo bans

`SV_UserInfoBanned` asks `SV_CheckUserinfoBans` for one match after the other. What it passes on
is the key of the last match, and the search goes on behind the first pair that has this key. The
comparison of numbers is a parameter; the calls that the loop makes are recorded as actions.
-/
namespace UserinfoBans
open Bytes InfoString

inductive Blockmethod where
  | kick | blackhole | logonly | message | stuff | exec
  deriving DecidableEq

structure Banmatch where
  matchvalue : List UInt8
  message : List UInt8
  blockmethod : Blockmethod

structure Varban where
  varname : List UInt8
  list : List Banmatch

/-- `float`, and `strtod` with the number of bytes that it reads. -/
structure Floats where
  Float : Type
  zero : Float
  strtod : List UInt8 → Float × Nat
  less : Float → Float → Bool
  equal : Float → Float → Bool

variable (floats : Floats)

def varBanNumeric (s : List UInt8) : Option floats.Float :=
  if s = [] then some floats.zero
  else
    let (v, consumed) := floats.strtod s
    let rest := (s.drop consumed).dropWhile fun c => c = 32 ∨ c = 9
    if rest = s ∨ rest ≠ [] then none else some v

/-- The comparison of two numbers, if both are numbers. -/
def comparesAs (compare : floats.Float → floats.Float → Bool) (result operand : List UInt8)
    (negated : Bool) : Bool :=
  match varBanNumeric floats result, varBanNumeric floats operand with
  | some a, some b => compare a b != negated
  | _, _ => false

/-- One turn of the inner loop of `VarBanMatch`. -/
def matchesValue (matchvalue result : List UInt8) : Bool :=
  let negated := matchvalue.head? = some 33
  let matchvalue := if negated then matchvalue.tail else matchvalue
  match matchvalue with
  | 42 :: _ => (result ≠ []) != negated
  | 62 :: d :: rest =>
    comparesAs floats (fun a b => floats.less b a) result (d :: rest) negated
  | 60 :: d :: rest => comparesAs floats floats.less result (d :: rest) negated
  | 61 :: d :: rest => comparesAs floats floats.equal result (d :: rest) negated
  | 126 :: d :: rest => decide ((d :: rest) <:+: result) != negated
  | 35 :: d :: rest => sameIgnoringCase (d :: rest) result != negated
  | matchvalue => sameIgnoringCase matchvalue result != negated

def varBanMatch (bans : List Varban) (var result : List UInt8) : Option Banmatch :=
  (bans.find? fun ban => sameIgnoringCase ban.varname var).bind fun ban =>
    ban.list.find? fun m => matchesValue floats m.matchvalue result

/-- The loop of `SV_CheckUserinfoBans`, with the key of the match. -/
def checkScan (bans : List Varban) (key : List UInt8) (waitForKey : Bool) (s : List UInt8) :
    Option (Banmatch × List UInt8) :=
  match _h : splitPair s.tail with
  | none => none
  | some ((myKey, p), rest) =>
    let value := if rest = [] then p.take (maxInfoValue - 1) else p
    if waitForKey then checkScan bans key (myKey ≠ key) rest
    else match varBanMatch floats bans myKey value with
      | some found => some (found, myKey)
      | none => checkScan bans key false rest
termination_by s.length
decreasing_by
  all_goals
    have hlt := splitPair_length _h
    simp only [List.length_tail] at hlt
    omega

def svCheckUserinfoBans (bans : List Varban) (userinfo key : List UInt8) :
    Option (Banmatch × List UInt8) :=
  if bans = [] then none else checkScan floats bans key (key ≠ []) userinfo

inductive Action where
  | clientPrintf (text : List UInt8)
  | stufftext (text : List UInt8)
  | log (key value : List UInt8)
  | addText (text : List UInt8)
  | banDrop (key : List UInt8) (ban : Banmatch) (value : List UInt8)

/-- The methods of the `default` branch. -/
def Blockmethod.drops : Blockmethod → Bool
  | .kick | .blackhole => true
  | _ => false

def actionOf (userinfo key : List UInt8) (found : Banmatch) : Action :=
  match found.blockmethod with
  | .message => .clientPrintf (found.message ++ [newline])
  | .stuff => .stufftext (found.message ++ [newline])
  | .logonly => .log key (infoValueForKey userinfo key)
  | .exec => .addText (found.message ++ [newline])
  | .kick | .blackhole => .banDrop key found (infoValueForKey userinfo key)

/-- The loop of `SV_UserInfoBanned`, if it ends within the number of turns. -/
def bannedLoop (bans : List Varban) (userinfo : List UInt8) :
    Nat → List UInt8 → Option (List Action × Bool)
  | 0, _ => none
  | fuel + 1, key =>
    match svCheckUserinfoBans floats bans userinfo key with
    | none => some ([], false)
    | some (found, key) =>
      if found.blockmethod.drops then some ([actionOf userinfo key found], true)
      else (bannedLoop bans userinfo fuel key).map fun r => (actionOf userinfo key found :: r.1, r.2)

def svUserInfoBanned (bans : List Varban) (userinfo : List UInt8) (fuel : Nat) :
    Option (List Action × Bool) :=
  bannedLoop floats bans userinfo fuel []

/-- Some number of turns is enough. -/
def Terminates (bans : List Varban) (userinfo : List UInt8) : Prop :=
  ∃ fuel, (svUserInfoBanned floats bans userinfo fuel).isSome

/-! ## The search on pairs -/

variable {floats} {bans : List Varban} {pairs front behind : List Pair} {p : Pair}
  {key : List UInt8} {found : Banmatch}

/-- The pairs that are asked for. -/
def after (key : List UInt8) (pairs : List Pair) : List Pair :=
  if key = [] then pairs else (pairs.dropWhile fun p => p.1 ≠ key).tail

variable (floats bans) in
def banOf (p : Pair) : Option Banmatch := varBanMatch floats bans p.1 p.2

variable (floats bans) in
def firstMatch (pairs : List Pair) : Option (Banmatch × List UInt8) :=
  pairs.findSome? fun p => (banOf floats bans p).map fun found => (found, p.1)

theorem checkScan_of_split {s rest : List UInt8} {wait : Bool} (h : splitPair s.tail = some (p, rest)) :
    checkScan floats bans key wait s =
      if wait then checkScan floats bans key (p.1 ≠ key) rest
      else match varBanMatch floats bans p.1 (if rest = [] then p.2.take (maxInfoValue - 1) else p.2) with
        | some found => some (found, p.1)
        | none => checkScan floats bans key false rest := by
  rw [checkScan]
  split
  · rename_i none
    rw [h] at none
    cases none
  · rename_i some
    rw [h] at some
    cases some
    rfl

theorem checkScan_render_nil (wait : Bool) : checkScan floats bans key wait (render []) = none := by
  rw [checkScan]
  rfl

theorem splitPair_render_tail (hp : NoBackslash p) (pairs : List Pair) :
    splitPair (render (p :: pairs)).tail = some (p, render pairs) := by
  rw [tail_render_cons]
  exact splitPair_render p hp pairs

theorem checkScan_render_false (hpairs : ∀ p ∈ pairs, ShortPair p) :
    checkScan floats bans key false (render pairs) = firstMatch floats bans pairs := by
  induction pairs with
  | nil => exact checkScan_render_nil false
  | cons p pairs ih =>
    have own := hpairs p List.mem_cons_self
    have whole : (if render pairs = [] then p.2.take (maxInfoValue - 1) else p.2) = p.2 := by
      split
      · refine List.take_of_length_le ?_
        have := own.shortValue
        omega
      · rfl
    rw [checkScan_of_split (splitPair_render_tail own.noBackslash pairs), whole]
    simp only [Bool.false_eq_true, if_false, firstMatch, List.findSome?_cons, banOf]
    cases varBanMatch floats bans p.1 p.2 with
    | some found => rfl
    | none => exact ih fun q hq => hpairs q (List.mem_cons_of_mem p hq)

theorem checkScan_render_true (hpairs : ∀ p ∈ pairs, ShortPair p) :
    checkScan floats bans key true (render pairs) =
      firstMatch floats bans (pairs.dropWhile fun p => p.1 ≠ key).tail := by
  induction pairs with
  | nil => exact checkScan_render_nil true
  | cons p pairs ih =>
    have others := fun q hq => hpairs q (List.mem_cons_of_mem p hq)
    rw [checkScan_of_split (splitPair_render_tail (hpairs p List.mem_cons_self).noBackslash pairs),
      if_pos rfl]
    by_cases same : p.1 = key
    · rw [List.dropWhile_cons_of_neg (by simpa using same), List.tail_cons]
      simp only [same, ne_eq, not_true_eq_false, decide_false]
      exact checkScan_render_false others
    · rw [List.dropWhile_cons_of_pos (by simpa using same)]
      simp only [same, ne_eq, not_false_eq_true, decide_true]
      exact ih others

/-- What is asked for next. -/
theorem svCheckUserinfoBans_render (nonempty : bans ≠ []) (hpairs : ∀ p ∈ pairs, ShortPair p) :
    svCheckUserinfoBans floats bans (render pairs) key =
      firstMatch floats bans (after key pairs) := by
  simp only [svCheckUserinfoBans, nonempty, if_false, after]
  by_cases empty : key = []
  · simp only [empty, ne_eq, not_true_eq_false, decide_false, if_true]
    exact checkScan_render_false hpairs
  · simp only [empty, ne_eq, not_false_eq_true, decide_true, if_false]
    exact checkScan_render_true hpairs

/-! ## When the loop ends -/

theorem firstMatch_eq_none (h : firstMatch floats bans pairs = none) :
    ∀ p ∈ pairs, banOf floats bans p = none := by
  intro p hp
  have unmatched := List.findSome?_eq_none_iff.mp h p hp
  rwa [Option.map_eq_none_iff] at unmatched

theorem firstMatch_eq_some (h : firstMatch floats bans pairs = some (found, key)) :
    ∃ front p behind, pairs = front ++ p :: behind ∧ banOf floats bans p = some found ∧
      p.1 = key ∧ ∀ q ∈ front, banOf floats bans q = none := by
  obtain ⟨front, p, behind, split, own, others⟩ := List.findSome?_eq_some_iff.mp h
  obtain ⟨found', banned, same⟩ := Option.map_eq_some_iff.mp own
  cases same
  refine ⟨front, p, behind, split, banned, rfl, fun q hq => ?_⟩
  have unmatched := others q hq
  rwa [Option.map_eq_none_iff] at unmatched

/-- A match that drops the client. -/
def Drops (floats : Floats) (bans : List Varban) (p : Pair) : Prop :=
  ∃ found, banOf floats bans p = some found ∧ found.blockmethod.drops = true

/-- Up to the first match that drops the client, each has a key that is not empty and that no pair
before it has. -/
def Advances (floats : Floats) (bans : List Varban) (pairs : List Pair) : Prop :=
  ∀ front p behind found, pairs = front ++ p :: behind → banOf floats bans p = some found →
    found.blockmethod.drops = false → (∀ q ∈ front, ¬Drops floats bans q) →
    p.1 ≠ [] ∧ p.1 ∉ front.map Prod.fst

theorem after_of_notMem (nonempty : key ≠ []) (first : key ∉ front.map Prod.fst) (h : p.1 = key) :
    after key (front ++ p :: behind) = behind := by
  have skipped : ∀ q ∈ front, decide (q.1 ≠ key) = true := by
    intro q hq
    have different : q.1 ≠ key := fun same => first (List.mem_map.mpr ⟨q, hq, same⟩)
    simpa using different
  rw [after, if_neg nonempty, List.dropWhile_append_of_pos skipped,
    List.dropWhile_cons_of_neg (by simpa using h)]
  rfl

/-- The loop ends if no ban is met that keeps the position. -/
theorem bannedLoop_isSome (nonempty : bans ≠ []) (hpairs : ∀ p ∈ pairs, ShortPair p)
    (advances : Advances floats bans pairs) {done rest : List Pair} (split : pairs = done ++ rest)
    (drops : ∀ q ∈ done, ¬Drops floats bans q) (searches : after key pairs = rest) :
    ∃ fuel, (bannedLoop floats bans (render pairs) fuel key).isSome := by
  induction length : rest.length using Nat.strong_induction_on generalizing done rest key with
  | _ n ih =>
    have asked := @svCheckUserinfoBans_render floats bans pairs key nonempty hpairs
    rw [searches] at asked
    cases next : firstMatch floats bans rest with
    | none =>
      refine ⟨1, ?_⟩
      rw [bannedLoop, asked, next]
      rfl
    | some result =>
      obtain ⟨found, key'⟩ := result
      obtain ⟨front, p, behind, rfl, banned, rfl, unmatched⟩ := firstMatch_eq_some next
      cases dropped : found.blockmethod.drops with
      | true =>
        refine ⟨1, ?_⟩
        rw [bannedLoop, asked, next]
        simp only [dropped, if_true, Option.isSome_some]
      | false =>
        rw [← List.append_assoc] at split
        have passed : ∀ q ∈ done ++ front, ¬Drops floats bans q := by
          intro q hq
          rcases List.mem_append.mp hq with hq | hq
          · exact drops q hq
          · rintro ⟨found', matched, -⟩
            exact Option.some_ne_none _ (matched.symm.trans (unmatched q hq))
        obtain ⟨named, fresh⟩ := advances _ p behind found split banned dropped passed
        have searches' : after p.1 pairs = behind := by
          rw [split]
          exact after_of_notMem named fresh rfl
        have shorter : behind.length < n := by
          rw [← length, List.length_append, List.length_cons]
          omega
        obtain ⟨fuel, ends⟩ := ih _ shorter (List.append_cons _ _ _ ▸ split) (fun q hq => by
          rcases List.mem_append.mp hq with hq | hq
          · exact passed q hq
          · obtain rfl := List.mem_singleton.mp hq
            rintro ⟨found', matched, dropped'⟩
            cases banned.symm.trans matched
            exact Bool.false_ne_true (dropped.symm.trans dropped')) searches' rfl
        refine ⟨fuel + 1, ?_⟩
        rw [bannedLoop, asked, next]
        simp only [dropped, Bool.false_eq_true, if_false, Option.isSome_map]
        exact ends

/-- A search that begins before a pair comes to it or to a match before it. -/
theorem after_of_mem (h : key = [] ∨ key ∈ front.map Prod.fst) :
    ∃ skipped kept, front = skipped ++ kept ∧
      after key (front ++ p :: behind) = kept ++ p :: behind := by
  rcases h with rfl | h
  · exact ⟨[], front, rfl, if_pos rfl⟩
  by_cases empty : key = []
  · exact ⟨[], front, rfl, if_pos empty⟩
  rw [after, if_neg empty]
  induction front with
  | nil => cases h
  | cons q front ih =>
    by_cases same : q.1 = key
    · refine ⟨[q], front, rfl, ?_⟩
      rw [List.cons_append, List.dropWhile_cons_of_neg (by simpa using same)]
      rfl
    · have later : key ∈ front.map Prod.fst := by
        rcases List.mem_cons.mp h with rfl | later
        · exact absurd rfl same
        · exact later
      obtain ⟨skipped, kept, split, tail⟩ := ih later
      refine ⟨q :: skipped, kept, congrArg _ split, ?_⟩
      rw [List.cons_append, List.dropWhile_cons_of_pos (by simpa using same)]
      exact tail

/-- The loop goes round for ever at a ban that does not drop, if it comes back to it. -/
theorem bannedLoop_none (nonempty : bans ≠ []) (hpairs : ∀ q ∈ front ++ p :: behind, ShortPair q)
    (banned : banOf floats bans p = some found) (stays : found.blockmethod.drops = false)
    (drops : ∀ q ∈ front, ¬Drops floats bans q) (back : p.1 = [] ∨ p.1 ∈ front.map Prod.fst)
    (fuel : Nat) (h : key = [] ∨ key ∈ front.map Prod.fst) :
    bannedLoop floats bans (render (front ++ p :: behind)) fuel key = none := by
  induction fuel generalizing key with
  | zero => rfl
  | succ fuel ih =>
    obtain ⟨skipped, kept, rfl, searches⟩ := @after_of_mem front behind p key h
    have asked := @svCheckUserinfoBans_render floats bans _ key nonempty hpairs
    rw [searches] at asked
    cases next : firstMatch floats bans (kept ++ p :: behind) with
    | none =>
      have unmatched := firstMatch_eq_none next p (List.mem_append_right _ List.mem_cons_self)
      exact absurd (banned.symm.trans unmatched) (Option.some_ne_none _)
    | some result =>
      obtain ⟨found', key'⟩ := result
      obtain ⟨front', q, behind', split, matched, rfl, unmatched⟩ := firstMatch_eq_some next
      have within : q = p ∨ q ∈ kept := by
        rcases List.append_eq_append_iff.mp split with ⟨more, rfl, same⟩ | ⟨more, rfl, same⟩
        · cases more with
          | nil => exact .inl (List.cons.inj same).1.symm
          | cons c more =>
            rw [List.cons_append] at same
            obtain ⟨rfl, -⟩ := List.cons.inj same
            have := unmatched p (List.mem_append_right _ List.mem_cons_self)
            exact absurd (banned.symm.trans this) (Option.some_ne_none _)
        · cases more with
          | nil => exact .inl (List.cons.inj same).1
          | cons c more =>
            obtain ⟨rfl, -⟩ := List.cons.inj same
            exact .inr (List.mem_append_right _ List.mem_cons_self)
      have dropped : found'.blockmethod.drops = false := by
        rcases within with rfl | hq
        · cases banned.symm.trans matched
          exact stays
        · exact Bool.eq_false_iff.mpr fun dropped =>
            drops q (List.mem_append_right _ hq) ⟨found', matched, dropped⟩
      have returns : q.1 = [] ∨ q.1 ∈ (skipped ++ kept).map Prod.fst := by
        rcases within with rfl | hq
        · exact back
        · exact .inr (List.mem_map.mpr ⟨q, List.mem_append_right _ hq, rfl⟩)
      rw [bannedLoop, asked, next]
      simp only [dropped, Bool.false_eq_true, if_false, ih returns, Option.map_none]

/-- When the loop ends, for every string that `SV_UserinfoValidate` accepts. -/
theorem terminates_iff {userinfo : List UInt8} (valid : svUserinfoValidate userinfo = true)
    (nonempty : bans ≠ []) :
    Terminates floats bans userinfo ↔ Advances floats bans (infoPairs userinfo) := by
  obtain ⟨pairs, rfl, hpairs, -⟩ := exists_pairs_of_svUserinfoValidate valid
  rw [infoPairs_render pairs fun p hp => (hpairs p hp).noBackslash]
  constructor
  · rintro ⟨fuel, ends⟩ front p behind found rfl banned stays drops
    by_contra bad
    have back : p.1 = [] ∨ p.1 ∈ front.map Prod.fst := by
      by_contra neither
      rw [not_or] at neither
      exact bad neither
    rw [svUserInfoBanned, bannedLoop_none nonempty hpairs banned stays drops back fuel (.inl rfl)] at ends
    cases ends
  · intro advances
    exact bannedLoop_isSome nonempty hpairs advances rfl (List.forall_mem_nil _) (if_pos rfl)

private def naturals : Floats where
  Float := Nat
  zero := 0
  strtod s := (s.length, s.length)
  less a b := decide (a < b)
  equal a b := decide (a = b)

/-- Any name is logged. -/
private def logName : List Varban :=
  [{ varname := ascii "name"
     list := [{ matchvalue := ascii "*", message := [], blockmethod := .logonly }] }]

theorem terminates_iff_name : Terminates naturals logName (ascii "\\name\\rob") ↔
    Advances naturals logName (infoPairs (ascii "\\name\\rob")) :=
  terminates_iff (by decide +kernel) (List.cons_ne_nil _ _)

private def named (value : String) : Pair := (ascii "name", ascii value)

/-- A key that is sent twice is found again and again. -/
theorem never_returns : ¬∀ (floats : Floats) (bans : List Varban) (userinfo : List UInt8),
    svUserinfoValidate userinfo = true → bans ≠ [] → Terminates floats bans userinfo := by
  intro h
  obtain ⟨fuel, ends⟩ := h naturals logName (render ([named "a"] ++ named "b" :: []))
    (by decide +kernel) (List.cons_ne_nil _ _)
  have short : ∀ q ∈ [named "a"] ++ named "b" :: [], ShortPair q := by
    intro q hq
    have either : q = named "a" ∨ q = named "b" := by simpa using hq
    rcases either with rfl | rfl
    · exact ⟨⟨by decide, by decide⟩, by decide, by decide⟩
    · exact ⟨⟨by decide, by decide⟩, by decide, by decide⟩
  have stays : ∀ q ∈ [named "a"], ¬Drops naturals logName q := by
    intro q hq
    obtain rfl := List.mem_singleton.mp hq
    rintro ⟨found, matched, dropped⟩
    have logged : banOf naturals logName (named "a") =
        some { matchvalue := ascii "*", message := [], blockmethod := .logonly } := rfl
    cases logged.symm.trans matched
    cases dropped
  have never := @bannedLoop_none naturals logName [named "a"] [] (named "b") []
    { matchvalue := ascii "*", message := [], blockmethod := .logonly } (List.cons_ne_nil _ _) short
    rfl rfl stays (.inr (List.mem_singleton.mpr rfl)) fuel (.inl rfl)
  rw [svUserInfoBanned, never] at ends
  cases ends

end UserinfoBans
