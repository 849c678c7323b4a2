import Kpded2.InsertText

/-!
# What an alias puts in front of the pending commands

`Cmd_Expand_Args` writes the value of an alias piece by piece into a buffer of
`MAX_STRING_CHARS` bytes: what stands before a dollar sign, then what stands for the dollar
sign and the character behind it. It gives up at a piece that does not fit, and what it has
written until then is inserted all the same. That has no newline of its own.
-/
namespace AliasExpansion
open Bytes CommandArgs CommandTokens CommandBuffer ScopedCommands InsertText

variable {σ : Type} {tokens : Tokens}

/-- What `Cmd_Alias_f` stores for the rest of its line. -/
def aliasValue (line : List UInt8) : List UInt8 := line.take (1024 - 2) ++ [newline]

/-- The value with its arguments in place. -/
def expanded (tokens : Tokens) : List UInt8 → List UInt8
  | [] => []
  | [c] => [c]
  | c :: d :: rest =>
    if c = dollar ∧ isArgument d then argument tokens d ++ expanded tokens rest
    else c :: expanded tokens (d :: rest)

/-- `strcat` to the string in a buffer of `size` bytes, unless it leaves the buffer. -/
def strcat (size : Nat) (dst text : List UInt8) : Option (List UInt8) :=
  if dst.length + text.length < size then some (dst ++ text) else none

/-- `Cmd_Expand_Args` with the buffer that it writes to; `dst` is what it has written. -/
def expandInto (size : Nat) (tokens : Tokens) (src dst : List UInt8) (dstavail : Nat) :
    Option (List UInt8) :=
  match h : src.dropWhile (· ≠ dollar) with
  | [] => if dstavail ≤ src.length then some dst else strcat size dst src
  | _ :: after =>
    have : (expansion tokens after).2.length < src.length :=
      Nat.lt_of_le_of_lt (expansion_length tokens after) (length_of_dropWhile h)
    let front := src.takeWhile (· ≠ dollar)
    if dstavail ≤ front.length then some dst
    else
      let dstavail := dstavail - front.length
      let text := (expansion tokens after).1
      match strcat size dst front with
      | none => none
      | some dst =>
        if dstavail ≤ text.length then some dst
        else
          match strcat size dst text with
          | none => none
          | some dst =>
            expandInto size tokens (expansion tokens after).2 dst (dstavail - text.length)
termination_by src.length

/-! ## What is to come of it -/

/-- The expansion stands in front of the pending text as a unit; an expansion that is too long
leaves the commands that will be executed as they are. -/
def Proper (tokens : Tokens) (value : List UInt8) (pending : Pending)
    (result : Except Stop (State σ)) : Prop :=
  if (expanded tokens value).length < maxStringChars then
    (∃ text, expanded tokens value = text ++ [newline]) ∧
      ∃ s, result = .ok s ∧ s.cmdText = commandBuffer (expanded tokens value ++ pending.val)
  else ∃ s, result = .ok s ∧ commands s.cmdText.data = commands pending.val

/-- The pieces of an expansion. -/
def pieces (tokens : Tokens) (src : List UInt8) : List (List UInt8) :=
  match h : src.dropWhile (· ≠ dollar) with
  | [] => [src]
  | _ :: after =>
    have : (expansion tokens after).2.length < src.length :=
      Nat.lt_of_le_of_lt (expansion_length tokens after) (length_of_dropWhile h)
    src.takeWhile (· ≠ dollar) :: (expansion tokens after).1 ::
      pieces tokens (expansion tokens after).2
termination_by src.length

def separates (c : UInt8) : Bool := c == semicolon || c == newline

/-- The whole pieces that fit hold nothing but line ends, and there is room for these. -/
def Harmless (tokens : Tokens) (value : List UInt8) (pending : Pending) : Prop :=
  ∀ front rest, pieces tokens value = front ++ rest → front.flatten.length < maxStringChars →
    front.flatten.all separates ∧
      front.flatten.length + pending.val.length ≤ commandBufferSize

/-- The loop guard does not stop an expansion that fits in front of the pending text; or the
expansion is too long and comes to nothing. -/
def Expands (tokens : Tokens) (value : List UInt8) (pending : Pending) (aliasCount : Nat) : Prop :=
  if (expanded tokens value).length < maxStringChars then
    aliasCount + 1 ≠ aliasLoopCount ∧
      (expanded tokens value).length + pending.val.length ≤ commandBufferSize
  else aliasCount + 1 = aliasLoopCount ∨ Harmless tokens value pending

/-! ## The pieces -/

theorem pieces_last {src : List UInt8} (h : src.dropWhile (· ≠ dollar) = []) :
    pieces tokens src = [src] := by
  rw [pieces]
  split
  · exact rfl
  · next hmore => exact absurd (h.symm.trans hmore) (by simp)

theorem pieces_dollar {src after : List UInt8} {c : UInt8}
    (h : src.dropWhile (· ≠ dollar) = c :: after) :
    pieces tokens src = src.takeWhile (· ≠ dollar) :: (expansion tokens after).1 ::
      pieces tokens (expansion tokens after).2 := by
  rw [pieces]
  split
  · next hlast => exact absurd (hlast.symm.trans h) (by simp)
  · next hmore =>
    obtain ⟨-, rfl⟩ := List.cons.inj (hmore.symm.trans h)
    exact rfl

/-- An expansion goes from dollar sign to dollar sign. -/
theorem dollar_induction (tokens : Tokens) {P : List UInt8 → Prop}
    (last : ∀ src, src.dropWhile (· ≠ dollar) = [] → P src)
    (next : ∀ src c after, src.dropWhile (· ≠ dollar) = c :: after →
      P (expansion tokens after).2 → P src) (src : List UInt8) : P src := by
  induction hlength : src.length using Nat.strongRecOn generalizing src with
  | _ n ih =>
    cases h : src.dropWhile (· ≠ dollar) with
    | nil => exact last src h
    | cons c after =>
      have hless := Nat.lt_of_le_of_lt (expansion_length tokens after) (length_of_dropWhile h)
      exact next src c after h (ih _ (hlength ▸ hless) _ rfl)

theorem expanded_plain {front : List UInt8} (plain : ∀ c ∈ front, c ≠ dollar)
    (rest : List UInt8) : expanded tokens (front ++ rest) = front ++ expanded tokens rest := by
  induction front with
  | nil => exact rfl
  | cons c front ih =>
    have hc := plain c List.mem_cons_self
    have hrest := ih fun d hd => plain d (List.mem_cons_of_mem c hd)
    rw [List.cons_append, List.cons_append, ← hrest]
    cases front ++ rest with
    | nil => exact rfl
    | cons d text => rw [expanded, if_neg fun h => hc h.1]

theorem expanded_dollar (after : List UInt8) :
    expanded tokens (dollar :: after) =
      (expansion tokens after).1 ++ expanded tokens (expansion tokens after).2 := by
  cases after with
  | nil => exact rfl
  | cons c rest =>
    by_cases harg : isArgument c
    · rw [expanded, if_pos ⟨rfl, harg⟩, expansion, if_pos harg]
    · rw [expanded, if_neg fun h => harg h.2, expansion, if_neg harg]
      exact rfl

theorem pieces_flatten (src : List UInt8) :
    (pieces tokens src).flatten = expanded tokens src := by
  induction src using dollar_induction tokens with
  | last src h =>
    have plain : ∀ c ∈ src, c ≠ dollar := by
      simpa using h
    have hplain := @expanded_plain tokens src plain []
    rw [List.append_nil] at hplain
    rw [pieces_last h, List.flatten_singleton, hplain, expanded, List.append_nil]
  | next src c after h ih =>
    have plain : ∀ d ∈ src.takeWhile (· ≠ dollar), d ≠ dollar := by
      intro d hd
      simpa using List.mem_takeWhile_imp hd
    have hc : c = dollar := by
      have hhead := List.head?_dropWhile_not (· ≠ dollar) src
      rw [h] at hhead
      simpa using hhead
    subst hc
    have hsrc : src = src.takeWhile (· ≠ dollar) ++ dollar :: after := by
      rw [← h, List.takeWhile_append_dropWhile]
    rw [pieces_dollar h, List.flatten_cons, List.flatten_cons, ih, ← expanded_dollar]
    conv_rhs => rw [hsrc, expanded_plain plain]

/-- The pieces up to the first that does not fit. -/
def kept (room : Nat) : List (List UInt8) → List UInt8
  | [] => []
  | piece :: rest => if room ≤ piece.length then [] else piece ++ kept (room - piece.length) rest

theorem cmdExpandArgs_kept (src : List UInt8) (dstavail : Nat) :
    cmdExpandArgs tokens src dstavail = kept dstavail (pieces tokens src) := by
  induction src using dollar_induction tokens generalizing dstavail with
  | last src h =>
    rw [cmdExpandArgs, pieces_last h, kept, kept, List.append_nil]
    split
    · exact rfl
    · next hmore => exact absurd (h.symm.trans hmore) (by simp)
  | next src c after h ih =>
    rw [cmdExpandArgs, pieces_dollar h, kept]
    split
    · next hlast => exact absurd (hlast.symm.trans h) (by simp)
    · next _ more hmore =>
      obtain ⟨-, rfl⟩ := List.cons.inj (h.symm.trans hmore)
      by_cases long : dstavail ≤ (src.takeWhile (· ≠ dollar)).length
      · simp only [if_pos long]
      simp only [if_neg long, kept]
      split
      · rw [List.append_nil]
      · rw [ih, List.append_assoc]

/-- `Cmd_Expand_Args` stays inside of its buffer. -/
theorem expandInto_eq (src dst : List UInt8) {size dstavail : Nat} (room : 0 < dstavail)
    (hsize : dst.length + dstavail = size) :
    expandInto size tokens src dst dstavail = some (dst ++ cmdExpandArgs tokens src dstavail) := by
  have hstrcat : ∀ dst text : List UInt8, dst.length + text.length < size →
      strcat size dst text = some (dst ++ text) := fun _ _ fits => if_pos fits
  induction src using dollar_induction tokens generalizing dst dstavail with
  | last src h =>
    rw [cmdExpandArgs_kept, pieces_last h, kept, kept, expandInto]
    split
    · split
      · rw [List.append_nil]
      · rw [hstrcat dst src (by omega), List.append_nil]
    · next hmore => exact absurd (h.symm.trans hmore) (by simp)
  | next src c after h ih =>
    rw [cmdExpandArgs_kept, pieces_dollar h, kept, expandInto]
    split
    · next hlast => exact absurd (hlast.symm.trans h) (by simp)
    · next _ more hmore =>
      obtain ⟨-, rfl⟩ := List.cons.inj (h.symm.trans hmore)
      by_cases long : dstavail ≤ (src.takeWhile (· ≠ dollar)).length
      · simp only [if_pos long, List.append_nil]
      simp only [if_neg long, kept, hstrcat dst (src.takeWhile (· ≠ dollar)) (by omega)]
      by_cases more : dstavail - (src.takeWhile (· ≠ dollar)).length ≤
          (expansion tokens after).1.length
      · simp only [if_pos more, List.append_nil]
      have hfirst : (dst ++ src.takeWhile (· ≠ dollar)).length =
          dst.length + (src.takeWhile (· ≠ dollar)).length := List.length_append
      simp only [if_neg more, hstrcat (dst ++ src.takeWhile (· ≠ dollar)) (expansion tokens after).1
        (by omega)]
      rw [ih _ (by omega) (by rw [List.length_append]; omega), cmdExpandArgs_kept]
      simp only [List.append_assoc]

theorem kept_all {room : Nat} {texts : List (List UInt8)} (fits : texts.flatten.length < room) :
    kept room texts = texts.flatten := by
  induction texts generalizing room with
  | nil => exact rfl
  | cons piece texts ih =>
    rw [List.flatten_cons, List.length_append] at fits
    rw [kept, if_neg (by omega), ih (by omega), List.flatten_cons]

theorem kept_front {room : Nat} (texts : List (List UInt8)) (hroom : 0 < room) :
    ∃ front rest, texts = front ++ rest ∧ front.flatten.length < room ∧
      kept room texts = front.flatten := by
  induction texts generalizing room with
  | nil => exact ⟨[], [], rfl, hroom, rfl⟩
  | cons piece texts ih =>
    by_cases long : room ≤ piece.length
    · exact ⟨[], piece :: texts, rfl, hroom, if_pos long⟩
    · obtain ⟨front, rest, rfl, hfront, hkept⟩ := @ih (room - piece.length) (by omega)
      refine ⟨piece :: front, rest, rfl, ?_, ?_⟩
      · rw [List.flatten_cons, List.length_append]
        omega
      · rw [kept, if_neg long, hkept, List.flatten_cons]

theorem prefix_kept {room : Nat} {front rest : List (List UInt8)}
    (fits : front.flatten.length < room) : front.flatten <+: kept room (front ++ rest) := by
  induction front generalizing room with
  | nil => exact List.nil_prefix
  | cons piece front ih =>
    rw [List.flatten_cons, List.length_append] at fits
    rw [List.cons_append, kept, if_neg (by omega), List.flatten_cons]
    exact List.prefix_append_right_inj piece |>.mpr (ih (by omega))

theorem harmless_iff (value : List UInt8) (pending : Pending) :
    Harmless tokens value pending ↔
      (cmdExpandArgs tokens value maxStringChars).all separates ∧
        (cmdExpandArgs tokens value maxStringChars).length + pending.val.length ≤
          commandBufferSize := by
  rw [cmdExpandArgs_kept]
  constructor
  · intro harmless
    obtain ⟨front, rest, hsplit, hfront, hkept⟩ :=
      @kept_front maxStringChars (pieces tokens value) (by decide)
    rw [hkept]
    exact harmless front rest hsplit hfront
  · rintro ⟨hall, hroom⟩ front rest hsplit hfront
    rw [hsplit] at hall hroom
    have hfront := @prefix_kept maxStringChars front rest hfront
    rw [List.all_eq_true] at hall
    refine ⟨List.all_eq_true.mpr fun c hc => hall c (hfront.subset hc), ?_⟩
    exact (Nat.add_le_add_right hfront.length_le _).trans hroom

/-! ## The commands behind it -/

theorem commands_separates {front : List UInt8} (ends : front.all separates) (more : List UInt8) :
    commands (front ++ more) = commands more := by
  induction front with
  | nil => exact rfl
  | cons c front ih =>
    rw [List.all_cons, Bool.and_eq_true] at ends
    have hend : endsLine (false ^^ (c == quote)) c = true := by
      have hc := ends.1
      simp only [separates, Bool.or_eq_true, beq_iff_eq] at hc
      rcases hc with rfl | rfl
      · decide
      · decide
    rw [← ih ends.2]
    simp only [commands, List.cons_append, commandsFrom, hend, if_true, command, List.nil_append]

theorem count_command (c : UInt8) (line : List UInt8) :
    (command line).flatten.count c = line.count c := by
  simp only [command]
  split
  · next h => rw [h, List.flatten_nil]
  · rw [List.flatten_singleton]

/-- A character that never ends a line is not lost. -/
theorem count_commandsFrom {c : UInt8} (plain : separates c = false) (quotes : Bool)
    (line text : List UInt8) :
    (commandsFrom quotes line text).flatten.count c = line.count c + text.count c := by
  induction text generalizing quotes line with
  | nil => rw [commandsFrom, count_command, List.count_nil, Nat.add_zero]
  | cons d rest ih =>
    simp only [commandsFrom]
    split
    · next hend =>
      have other : d ≠ c := by
        rintro rfl
        simp only [separates, Bool.or_eq_false_iff] at plain
        simp only [endsLine, plain.1, plain.2, Bool.and_false, Bool.or_false] at hend
        exact absurd hend Bool.false_ne_true
      rw [List.flatten_append, List.count_append, count_command, ih, List.count_nil, Nat.zero_add,
        List.count_cons_of_ne other]
    · rw [ih, List.count_append, Nat.add_assoc, ← List.count_append, List.singleton_append]

theorem separates_of_commands {front more : List UInt8}
    (same : commands (front ++ more) = commands more) : front.all separates := by
  rw [List.all_eq_true]
  intro c hc
  by_contra plain
  rw [Bool.not_eq_true] at plain
  have hcount := congrArg (fun lines => lines.flatten.count c) same
  simp only [commands, count_commandsFrom plain, List.count_nil, List.count_append] at hcount
  have hpos := List.count_pos_iff.mpr hc
  omega

/-! ## Executing an alias -/

theorem newline_last (src : List UInt8) (h : src.getLast? = some newline) :
    (expanded tokens src).getLast? = some newline := by
  induction src using expanded.induct with
  | case1 => exact absurd h (by simp)
  | case2 c => exact h
  | case3 c d rest harg ih =>
    have hrest : rest.getLast? = some newline := by
      cases rest with
      | nil =>
        have hd : d = newline := by simpa using h
        rw [hd] at harg
        exact absurd harg.2 (by decide)
      | cons e rest => simpa only [List.getLast?_cons_cons] using h
    rw [expanded, if_pos harg, List.getLast?_append, ih hrest, Option.some_or]
  | case4 c d rest other ih =>
    rw [List.getLast?_cons_cons] at h
    rw [expanded, if_neg other, List.getLast?_cons, ih h, Option.getD_some]

theorem expanded_newline (tokens : Tokens) (line : List UInt8) :
    ∃ text, expanded tokens (aliasValue line) = text ++ [newline] := by
  refine List.getLast?_eq_some_iff.mp (newline_last _ ?_)
  rw [aliasValue, List.getLast?_concat]

theorem callAlias_guarded (value : List UInt8) {s : State σ}
    (last : s.aliasCount + 1 = aliasLoopCount) :
    callAlias tokens value s = .ok { s with aliasCount := s.aliasCount + 1 } := if_pos last

theorem callAlias_inserts (value : List UInt8) {pending : Pending} {s : State σ}
    (goesOn : s.aliasCount + 1 ≠ aliasLoopCount)
    (room : (cmdExpandArgs tokens value maxStringChars).length + pending.val.length ≤
      commandBufferSize) :
    callAlias tokens value { s with cmdText := pending.buffer } =
      .ok { s with
        aliasCount := s.aliasCount + 1
        cmdText := commandBuffer (cmdExpandArgs tokens value maxStringChars ++ pending.val) } := by
  have hshort := cmdExpandArgs_length tokens value (show 0 < maxStringChars by decide)
  have hinsert := (cbufInsertText_commandBuffer pending.val hshort).trans (if_pos room)
  simp only [callAlias, if_neg goesOn, insertAlias, Pending.buffer, hinsert]
  exact rfl

theorem callAlias_overflow (value : List UInt8) {pending : Pending} {s : State σ}
    (goesOn : s.aliasCount + 1 ≠ aliasLoopCount)
    (more : ¬(cmdExpandArgs tokens value maxStringChars).length + pending.val.length ≤
      commandBufferSize) :
    callAlias tokens value { s with cmdText := pending.buffer } = .error .overflow := by
  have hshort := cmdExpandArgs_length tokens value (show 0 < maxStringChars by decide)
  have hinsert := (cbufInsertText_commandBuffer pending.val hshort).trans (if_neg more)
  simp only [callAlias, if_neg goesOn, insertAlias, Pending.buffer, hinsert]
  exact rfl

/-- An expansion that fits. -/
theorem callAlias_short {line : List UInt8}
    (short : (expanded tokens (aliasValue line)).length < maxStringChars) (pending : Pending)
    (s : State σ) :
    Proper tokens (aliasValue line) pending
        (callAlias tokens (aliasValue line) { s with cmdText := pending.buffer }) ↔
      s.aliasCount + 1 ≠ aliasLoopCount ∧
        (expanded tokens (aliasValue line)).length + pending.val.length ≤ commandBufferSize := by
  have hwhole : cmdExpandArgs tokens (aliasValue line) maxStringChars =
      expanded tokens (aliasValue line) := by
    rw [← pieces_flatten] at short
    rw [cmdExpandArgs_kept, kept_all short, pieces_flatten]
  rw [Proper, if_pos short]
  by_cases last : s.aliasCount + 1 = aliasLoopCount
  · have hcall := @callAlias_guarded σ tokens (aliasValue line)
      { s with cmdText := pending.buffer } last
    refine iff_of_false ?_ fun h => h.1 last
    rintro ⟨⟨text, htext⟩, after, hafter, hbuffer⟩
    rw [hcall] at hafter
    obtain rfl := Except.ok.inj hafter
    have hlength := congrArg (fun buf => buf.data.length) hbuffer
    simp only [Pending.buffer, commandBuffer, htext, List.length_append,
      List.length_singleton] at hlength
    omega
  by_cases room : (cmdExpandArgs tokens (aliasValue line) maxStringChars).length +
      pending.val.length ≤ commandBufferSize
  · have hcall := @callAlias_inserts σ tokens (aliasValue line) pending s last room
    rw [hwhole] at room hcall
    exact iff_of_true ⟨expanded_newline tokens line, _, hcall, rfl⟩ ⟨last, room⟩
  · have hcall := @callAlias_overflow σ tokens (aliasValue line) pending s last room
    rw [hwhole] at room
    refine iff_of_false ?_ fun h => room h.2
    rintro ⟨-, after, hafter, -⟩
    rw [hcall] at hafter
    exact absurd hafter (by simp)

/-- An expansion that is too long. -/
theorem callAlias_long {line : List UInt8}
    (long : ¬(expanded tokens (aliasValue line)).length < maxStringChars) (pending : Pending)
    (s : State σ) :
    Proper tokens (aliasValue line) pending
        (callAlias tokens (aliasValue line) { s with cmdText := pending.buffer }) ↔
      s.aliasCount + 1 = aliasLoopCount ∨ Harmless tokens (aliasValue line) pending := by
  rw [Proper, if_neg long, harmless_iff]
  by_cases last : s.aliasCount + 1 = aliasLoopCount
  · have hcall := @callAlias_guarded σ tokens (aliasValue line)
      { s with cmdText := pending.buffer } last
    exact iff_of_true ⟨_, hcall, rfl⟩ (.inl last)
  rw [or_iff_right last]
  by_cases room : (cmdExpandArgs tokens (aliasValue line) maxStringChars).length +
      pending.val.length ≤ commandBufferSize
  · have hcall := @callAlias_inserts σ tokens (aliasValue line) pending s last room
    constructor
    · rintro ⟨after, hafter, hcommands⟩
      rw [hcall] at hafter
      obtain rfl := Except.ok.inj hafter
      exact ⟨separates_of_commands hcommands, room⟩
    · rintro ⟨hseparates, -⟩
      exact ⟨_, hcall, commands_separates hseparates pending.val⟩
  · have hcall := @callAlias_overflow σ tokens (aliasValue line) pending s last room
    refine iff_of_false ?_ fun h => room h.2
    rintro ⟨after, hafter, -⟩
    rw [hcall] at hafter
    exact absurd hafter (by simp)

/-- The alias inserts its whole expansion, or comes to nothing if that is too long, exactly if the
condition holds. -/
theorem callAlias_proper_iff (tokens : Tokens) (line : List UInt8) (pending : Pending)
    (s : State σ) :
    Proper tokens (aliasValue line) pending
        (callAlias tokens (aliasValue line) { s with cmdText := pending.buffer }) ↔
      Expands tokens (aliasValue line) pending s.aliasCount := by
  simp only [Expands]
  split
  · next short => exact callAlias_short short pending s
  · next long => exact callAlias_long long pending s

/-- An alias is executed as a unit exactly if its expansion fits or comes to nothing, and
`Cmd_Expand_Args` writes inside of its buffer. -/
theorem alias_expands_iff (tokens : Tokens) (line : List UInt8) (pending : Pending)
    (s : State σ) :
    (Proper tokens (aliasValue line) pending
        (callAlias tokens (aliasValue line) { s with cmdText := pending.buffer }) ↔
      Expands tokens (aliasValue line) pending s.aliasCount) ∧
    expandInto maxStringChars tokens (aliasValue line) [] maxStringChars =
      some (cmdExpandArgs tokens (aliasValue line) maxStringChars) := by
  refine ⟨callAlias_proper_iff tokens line pending s, ?_⟩
  exact expandInto_eq (aliasValue line) [] (by decide) (by decide)

/-- The arguments of an alias that is called with one word of 340 letters. -/
private def oneWord (word : List UInt8) (long : word.length = 340) : Tokens where
  argv :=
    { argv := [[97], word]
      count := (by decide : 2 ≤ maxStringTokens)
      short := by
        intro arg harg
        rcases List.mem_pair.mp harg with rfl | rfl
        · decide
        · rw [long]
          decide
      stored := by
        simp only [storage, List.map_cons, List.map_nil, List.sum_cons, List.sum_nil, long]
        decide }
  args := word

/-- `say $1$1$1`. -/
private def sayThrice : List UInt8 := [115, 97, 121, 32, 36, 49, 36, 49, 36, 49]

private def atPrompt : State Unit := ⟨commandBuffer [], fun _ => none, 0, false, ()⟩

private theorem expanded_sayThrice (word : List UInt8) (long : word.length = 340) :
    (expanded (oneWord word long) (aliasValue sayThrice)).length = 1025 := by
  have hvalue : aliasValue sayThrice =
      [115, 97, 121, 32] ++ 36 :: 49 :: 36 :: 49 :: 36 :: 49 :: [10] := by decide
  have hargument : ∀ rest, expanded (oneWord word long) (36 :: 49 :: rest) =
      word ++ expanded (oneWord word long) rest := fun rest => if_pos (by decide)
  have plain : ∀ c ∈ ([115, 97, 121, 32] : List UInt8), c ≠ dollar := by
    simp [dollar]
  rw [hvalue, expanded_plain plain, hargument, hargument, hargument]
  simp only [List.length_append, long, expanded, List.length_cons, List.length_nil]

/-- What is written of an expansion that is too long takes up the next command. -/
private theorem fuses (word : List UInt8) (long : word.length = 340) :
    ¬Proper (oneWord word long) (aliasValue sayThrice) ⟨[113, 117, 105, 116, 10], by decide⟩
      (callAlias (oneWord word long) (aliasValue sayThrice)
        { atPrompt with cmdText := commandBuffer [113, 117, 105, 116, 10] }) := by
  intro proper
  have expands := (callAlias_proper_iff (oneWord word long) sayThrice
    ⟨[113, 117, 105, 116, 10], by decide⟩ atPrompt).mp proper
  rw [Expands, expanded_sayThrice, if_neg (by decide)] at expands
  have hpieces := @pieces_dollar (oneWord word long) (aliasValue sayThrice)
    [49, 36, 49, 36, 49, 10] dollar (by decide)
  have hfront : (aliasValue sayThrice).takeWhile (· ≠ dollar) = [115, 97, 121, 32] := by decide
  rw [hfront] at hpieces
  obtain ⟨hseparates, -⟩ := (expands.resolve_left (by decide)) [[115, 97, 121, 32]] _ hpieces
    (by decide)
  exact absurd hseparates (by decide)

theorem long_expansion_fuses :
    ¬Proper (oneWord (List.replicate 340 120) List.length_replicate) (aliasValue sayThrice)
      ⟨[113, 117, 105, 116, 10], by decide⟩
      (callAlias (oneWord (List.replicate 340 120) List.length_replicate) (aliasValue sayThrice)
        { atPrompt with cmdText := commandBuffer [113, 117, 105, 116, 10] }) :=
  fuses (List.replicate 340 120) List.length_replicate

end AliasExpansion
