import Kpded2.CommandTokens

/-!
# The tokens of a line

`COM_Parse` leaves its pointer behind a terminator where a quotation is not closed. Here a line is
read as a string, in which there is nothing behind the end: which tokens it has, and whether a
quotation is open at the end.
-/
namespace LineTokens
open Bytes CommandArgs CommandTokens StepLoop

/-! ## Texts -/

/-- The text from its first token on. -/
def startOf : Bool → List UInt8 → List UInt8
  | _, [] => []
  | comment, c :: rest =>
    if comment then startOf (c != newline) rest
    else if blank c then startOf false rest
    else if c = slash ∧ rest.head? = some slash then startOf true rest
    else c :: rest

/-- The first token and what is behind it, which there is not if the token is a quotation that is
not closed. -/
def firstToken (text : List UInt8) : Option (List UInt8 × Option (List UInt8)) :=
  match startOf false text with
  | [] => none
  | c :: rest =>
    if c = quote then
      if quote ∈ rest then
        some (rest.takeWhile (· ≠ quote), some ((rest.dropWhile (· ≠ quote)).drop 1))
      else some (rest, none)
    else some ((c :: rest).takeWhile (!blank ·), some ((c :: rest).dropWhile (!blank ·)))

/-- Where `COM_Parse` leaves its pointer, with `more` behind the terminator. -/
def pointer (more : List UInt8) : Option (List UInt8) → List UInt8
  | none => more
  | some behind => behind ++ 0 :: more

variable {text more : List UInt8}

/-- Where the scan for a token stops in a line. -/
theorem skipWhite_text (nonzero : 0 ∉ text) (comment : Bool) :
    skipWhite comment (text ++ 0 :: more) = some (match startOf comment text with
      | [] => none
      | c :: rest => some (c :: rest ++ 0 :: more)) := by
  induction text generalizing comment with
  | nil => cases comment <;> rfl
  | cons c rest ih =>
    obtain ⟨first, others⟩ := not_or.mp (List.mem_cons.not.mp nonzero)
    have next := fun comment => ih others comment
    simp only [List.cons_append] at next
    simp only [List.cons_append, skipWhite, startOf, if_neg (Ne.symm first)]
    cases comment with
    | true => exact next _
    | false =>
      simp only [Bool.false_eq_true, if_false]
      by_cases white : blank c = true
      · rw [if_pos white, if_pos white]
        exact next _
      · rw [if_neg white, if_neg white]
        by_cases slashed : c = slash
        · cases rest with
          | nil =>
            have apart : (0 : UInt8) ≠ slash := by decide
            simp only [slashed, if_true, List.nil_append, apart, if_false, List.head?_nil, true_and]
            rfl
          | cons d rest =>
            by_cases commented : d = slash
            · simp only [slashed, commented, if_true, List.cons_append, List.head?_cons, and_self]
              rw [← commented, ← List.cons_append]
              exact next _
            · simp only [slashed, commented, if_true, if_false, List.cons_append, List.head?_cons,
                Option.some.injEq, and_false]
        · simp only [slashed, if_false, false_and]

theorem quoted_closed (nonzero : 0 ∉ text) (closed : quote ∈ text) :
    quoted (text ++ 0 :: more) = some (text.takeWhile (· ≠ quote),
      (text.dropWhile (· ≠ quote)).drop 1 ++ 0 :: more) := by
  induction text with
  | nil => cases closed
  | cons c rest ih =>
    obtain ⟨first, others⟩ := not_or.mp (List.mem_cons.not.mp nonzero)
    by_cases ends : c = quote
    · simp [quoted, ends]
    · have later := ih others ((List.mem_cons.mp closed).resolve_left (Ne.symm ends))
      simp [quoted, ends, Ne.symm first, later]

theorem quoted_unclosed (nonzero : 0 ∉ text) (unclosed : quote ∉ text) :
    quoted (text ++ 0 :: more) = some (text, more) := by
  induction text with
  | nil => rfl
  | cons c rest ih =>
    obtain ⟨first, others⟩ := not_or.mp (List.mem_cons.not.mp nonzero)
    obtain ⟨ends, absent⟩ := not_or.mp (List.mem_cons.not.mp unclosed)
    simp [quoted, Ne.symm ends, Ne.symm first, ih others absent]

theorem word_text (nonzero : 0 ∉ text) : word (text ++ 0 :: more) =
    some (text.takeWhile (!blank ·), text.dropWhile (!blank ·) ++ 0 :: more) := by
  induction text with
  | nil => rfl
  | cons c rest ih =>
    obtain ⟨-, others⟩ := not_or.mp (List.mem_cons.not.mp nonzero)
    by_cases white : blank c = true
    · simp [word, white]
    · simp [word, white, ih others]

theorem startOf_suffix (comment : Bool) (text : List UInt8) : startOf comment text <:+ text := by
  induction text generalizing comment with
  | nil => cases comment <;> exact List.suffix_refl _
  | cons c rest ih =>
    have next := fun comment => (ih comment).trans (List.suffix_cons c rest)
    simp only [startOf]
    split
    · exact next _
    · split
      · exact next _
      · split
        · exact next _
        · exact List.suffix_refl _

theorem startOf_letter {comment : Bool} {c : UInt8} {rest : List UInt8}
    (start : startOf comment text = c :: rest) : blank c = false := by
  induction text generalizing comment with
  | nil => cases comment <;> cases start
  | cons d others ih =>
    simp only [startOf] at start
    split at start
    · exact ih start
    · split at start
      · exact ih start
      · rename_i letter
        split at start
        · exact ih start
        · cases start
          exact Bool.eq_false_iff.mpr letter

/-- `COM_Parse` in memory that goes on behind the terminator. -/
theorem comParse_text (nonzero : 0 ∉ text) (more : List UInt8) :
    comParse (text ++ 0 :: more) = some (match firstToken text with
      | none => (comToken [], none)
      | some (token, behind) => (comToken token, some (pointer more behind))) := by
  have start : 0 ∉ startOf false text := fun zero => nonzero ((startOf_suffix false text).mem zero)
  simp only [comParse, skipWhite_text nonzero, firstToken, Option.bind_eq_bind, Option.bind_some]
  cases same : startOf false text with
  | nil => rfl
  | cons c rest =>
    rw [same] at start
    simp only
    by_cases quoting : c = quote
    · have others := (not_or.mp (List.mem_cons.not.mp start)).2
      have read : readToken (c :: rest ++ 0 :: more) = quoted (rest ++ 0 :: more) := by
        simp only [readToken, List.cons_append, List.head?_cons, quoting, if_true, List.tail_cons]
      rw [read, if_pos quoting]
      by_cases closed : quote ∈ rest
      · rw [quoted_closed others closed, if_pos closed]
        rfl
      · rw [quoted_unclosed others closed, if_neg closed]
        rfl
    · have read : readToken (c :: rest ++ 0 :: more) = word (c :: rest ++ 0 :: more) := by
        simp only [readToken, List.cons_append, List.head?_cons, Option.some.injEq, quoting, if_false]
      rw [read, word_text start, if_neg quoting]
      rfl

/-- What is behind a token is a smaller part of the text. -/
theorem firstToken_behind {token behind : List UInt8}
    (first : firstToken text = some (token, some behind)) :
    behind <:+ text ∧ behind.length < text.length := by
  have suffix := startOf_suffix false text
  simp only [firstToken] at first
  split at first
  · cases first
  · rename_i c rest start
    have letter := startOf_letter start
    rw [start] at suffix
    have part : behind <:+ rest := by
      split at first
      · split at first
        · cases first
          exact (List.drop_suffix _ _).trans (List.dropWhile_suffix _)
        · cases first
      · cases first
        rw [List.dropWhile_cons_of_pos (by rw [letter]; rfl)]
        exact List.dropWhile_suffix _
    exact ⟨part.trans ((List.suffix_cons c rest).trans suffix),
      Nat.lt_of_lt_of_le (Nat.lt_succ_of_le part.length_le) suffix.length_le⟩

/-! ## Lines -/

/-- The tokens up to a newline between two of them, and whether the last one is a quotation that is
not closed. -/
def lineTokens (text : List UInt8) : List (List UInt8) × Bool :=
  match _line : text.dropWhile lineBlank with
  | [] => ([], false)
  | c :: rest =>
    if c = newline then ([], false)
    else match _first : firstToken (c :: rest) with
      | none => ([], false)
      | some (token, none) => ([token], true)
      | some (token, some behind) => ((token :: (lineTokens behind).1), (lineTokens behind).2)
termination_by text.length
decreasing_by
  all_goals
    have shorter := (firstToken_behind _first).2
    have part := (@List.dropWhile_suffix _ text lineBlank).length_le
    rw [_line] at part
    exact Nat.lt_of_lt_of_le shorter part

/-- What `cmd_buffer` gets of a token. -/
def stored (token : List UInt8) : List UInt8 := (comToken token).val

/-- A quotation that is left open at the end of the line is not reached: the tokens up to it do not
fit into `cmd_buffer`. -/
def ClosedLine (line : List UInt8) : Prop :=
  (lineTokens line).2 = true →
    2 * maxStringChars ≤ storage (((lineTokens line).1.map stored).take maxStringTokens)

instance (line : List UInt8) : Decidable (ClosedLine line) := inferInstanceAs (Decidable (_ → _))

/-- The tokens that are still to be stored fill `cmd_buffer` up. -/
def Overflows (tokens : Tokens) (text : List UInt8) : Prop :=
  2 * maxStringChars ≤ storage (tokens.argv.argv ++
    ((lineTokens text).1.map stored).take (maxStringTokens - tokens.argv.argv.length))

theorem lineTokens_end (line : text.dropWhile lineBlank = [] ∨
    ∃ rest, text.dropWhile lineBlank = newline :: rest) : lineTokens text = ([], false) := by
  rw [lineTokens]
  split
  · rfl
  · rename_i c rest same
    rcases line with line | ⟨rest', line⟩
    · cases same.symm.trans line
    · cases same.symm.trans line
      rw [if_pos rfl]

section Line
variable {c : UInt8} {rest : List UInt8} (line : text.dropWhile lineBlank = c :: rest)
  (goes : c ≠ newline)
include line goes

theorem lineTokens_none (first : firstToken (c :: rest) = none) : lineTokens text = ([], false) := by
  rw [lineTokens]
  split
  · rfl
  · rename_i c' rest' same
    cases line.symm.trans same
    rw [if_neg goes]
    split <;> simp_all

theorem lineTokens_unclosed {token : List UInt8} (first : firstToken (c :: rest) = some (token, none)) :
    lineTokens text = ([token], true) := by
  rw [lineTokens]
  split
  · simp_all
  · rename_i c' rest' same
    cases line.symm.trans same
    rw [if_neg goes]
    split <;> simp_all

theorem lineTokens_closed {token behind : List UInt8}
    (first : firstToken (c :: rest) = some (token, some behind)) :
    lineTokens text = (token :: (lineTokens behind).1, (lineTokens behind).2) := by
  rw [lineTokens]
  split
  · simp_all
  · rename_i c' rest' same
    cases line.symm.trans same
    rw [if_neg goes]
    split <;> simp_all

theorem tokenStep_text (nonzero : 0 ∉ text) (tokens : Tokens) : ∃ args,
    tokenStep (tokens, text ++ [0]) = some (match firstToken (c :: rest) with
      | none => .inl { tokens with args }
      | some (token, behind) =>
        storeToken { tokens with args } (comToken token) (pointer [] behind)) := by
  have kept : 0 ∉ c :: rest := fun zero =>
    nonzero ((List.dropWhile_suffix lineBlank).mem (line ▸ zero))
  have first : c ≠ 0 := fun zero => kept (List.mem_cons.mpr (.inl zero.symm))
  obtain ⟨args, read⟩ := cmdArgs_terminated (c :: rest) [] tokens
  have parsed := comParse_text kept []
  rw [List.cons_append] at read parsed
  refine ⟨args, ?_⟩
  simp only [tokenStep, dropWhile_append_cons line [0], if_neg (not_or.mpr ⟨goes, first⟩),
    Option.bind_eq_bind, read, Option.bind_some, parsed]
  cases firstToken (c :: rest) with
  | none => rfl
  | some found => rfl

end Line

theorem tokenStep_end (tokens : Tokens) (line : text.dropWhile lineBlank = [] ∨
    ∃ rest, text.dropWhile lineBlank = newline :: rest) :
    tokenStep (tokens, text ++ [0]) = some (.inl tokens) := by
  rcases line with line | ⟨rest, line⟩
  · have whole : (text ++ [0]).dropWhile lineBlank = [0] := by
      simp only [List.dropWhile_append, line, List.isEmpty_nil, if_true]
      rfl
    simp only [tokenStep, whole, or_true, if_true]
  · simp only [tokenStep, dropWhile_append_cons line [0], true_or, if_true]

section Room
variable {tokens : Tokens} {token behind : List UInt8} {opened : Bool}

theorem overflows_full (room : ¬tokens.argv.argv.length < maxStringTokens) :
    ¬Overflows tokens text := by
  have full := tokens.argv.stored
  rw [Overflows, Nat.sub_eq_zero_of_le (by omega), List.take_zero, List.append_nil]
  exact Nat.not_le.mpr full

theorem left_of_room (room : tokens.argv.argv.length < maxStringTokens) :
    maxStringTokens - tokens.argv.argv.length =
      maxStringTokens - (tokens.argv.argv.length + 1) + 1 := by
  omega

/-- A token that is stored is one of those that were to be stored. -/
theorem overflows_pushToken {args : List UInt8}
    (same : lineTokens text = (token :: (lineTokens behind).1, opened))
    (room : tokens.argv.argv.length < maxStringTokens)
    (fits : (comToken token).val.length + 1 + storage tokens.argv.argv < 2 * maxStringChars) :
    Overflows ⟨pushToken tokens.argv (comToken token) room fits, args⟩ behind ↔
      Overflows tokens text := by
  simp only [Overflows, pushToken, same, left_of_room room, List.map_cons, List.take_succ_cons,
    List.length_append, List.length_singleton, List.append_assoc, List.singleton_append, stored]

theorem overflows_of_token {others : List (List UInt8)}
    (same : lineTokens text = (token :: others, opened))
    (room : tokens.argv.argv.length < maxStringTokens)
    (full : ¬(comToken token).val.length + 1 + storage tokens.argv.argv < 2 * maxStringChars) :
    Overflows tokens text := by
  simp only [Overflows, same, left_of_room room, List.map_cons, List.take_succ_cons, storage_append,
    storage_cons, stored]
  omega

theorem not_overflows_of_last (same : lineTokens text = ([token], opened))
    (fits : (comToken token).val.length + 1 + storage tokens.argv.argv < 2 * maxStringChars) :
    ¬Overflows tokens text := by
  by_cases room : tokens.argv.argv.length < maxStringTokens
  · have needs : storage [(comToken token).val] = (comToken token).val.length + 1 := rfl
    simp only [Overflows, same, left_of_room room, List.map_cons, List.map_nil, List.take_succ_cons,
      List.take_nil, storage_append, stored, needs]
    omega
  · exact overflows_full room

end Room

/-- A line is read to its end and not further, unless the last token is a quotation that is not
closed and is reached before `cmd_buffer` is full. -/
theorem tokenLoop_text (nonzero : 0 ∉ text) (tokens : Tokens) :
    (tokenLoop.run (tokens, text ++ [0])).isSome ↔
      ((lineTokens text).2 = true → Overflows tokens text) := by
  induction length : text.length using Nat.strong_induction_on generalizing text tokens with
  | _ n ih =>
    subst length
    have ended : ∀ {result}, tokenStep (tokens, text ++ [0]) = some (.inl result) →
        (tokenLoop.run (tokens, text ++ [0])).isSome := fun run => by
      rw [run_of_done run]
      rfl
    cases line : text.dropWhile lineBlank with
    | nil =>
      refine iff_of_true (ended (tokenStep_end tokens (.inl line))) ?_
      rw [lineTokens_end (.inl line)]
      rintro ⟨⟩
    | cons c rest =>
      by_cases goes : c = newline
      · subst goes
        refine iff_of_true (ended (tokenStep_end tokens (.inr ⟨rest, line⟩))) ?_
        rw [lineTokens_end (.inr ⟨rest, line⟩)]
        rintro ⟨⟩
      · obtain ⟨args, run⟩ := tokenStep_text line goes nonzero tokens
        cases first : firstToken (c :: rest) with
        | none =>
          rw [first] at run
          refine iff_of_true (ended run) ?_
          rw [lineTokens_none line goes first]
          rintro ⟨⟩
        | some found =>
          obtain ⟨token, behind⟩ := found
          rw [first] at run
          simp only [storeToken] at run
          cases behind with
          | none =>
            have same := lineTokens_unclosed line goes first
            -- the pointer stands behind the terminator
            have fails : ∀ tokens', tokenStep (tokens, text ++ [0]) = some (.inr (tokens', [])) →
                ¬(tokenLoop.run (tokens, text ++ [0])).isSome := fun tokens' run some => by
              rw [run_of_next run, run_of_fail rfl] at some
              cases some
            rw [same]
            split at run
            · rename_i room
              split at run
              · rename_i fits
                exact iff_of_false (fails _ run) fun holds => not_overflows_of_last same fits (holds rfl)
              · rename_i full
                exact iff_of_true (ended run) fun _ => overflows_of_token same room full
            · rename_i room
              exact iff_of_false (fails _ run) fun holds => overflows_full room (holds rfl)
          | some behind =>
            have same := lineTokens_closed line goes first
            obtain ⟨suffix, shorter⟩ := firstToken_behind first
            have part := (@List.dropWhile_suffix _ text lineBlank)
            rw [line] at part
            have kept : 0 ∉ behind := fun zero => nonzero (part.mem (suffix.mem zero))
            have smaller := Nat.lt_of_lt_of_le shorter part.length_le
            have next := fun tokens => ih _ smaller kept tokens rfl
            have opened : (lineTokens text).2 = (lineTokens behind).2 := by rw [same]
            split at run
            · rename_i room
              split at run
              · rename_i fits
                rw [run_of_next run, opened, ← overflows_pushToken same room fits]
                exact next _
              · rename_i full
                exact iff_of_true (ended run) fun _ => overflows_of_token same room full
            · rename_i room
              have full := @overflows_full behind { tokens with args } room
              rw [run_of_next run, opened, iff_false_intro (overflows_full room),
                ← iff_false_intro full]
              exact next _

theorem tokenLoop_line {line : List UInt8} (nonzero : 0 ∉ line) :
    (tokenLoop.run (noTokens, line ++ [0])).isSome ↔ ClosedLine line :=
  tokenLoop_text nonzero noTokens

end LineTokens
