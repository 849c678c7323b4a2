import Kpded2.LineTokens
import Kpded2.MacroExpansion

/-!
# What a line means by itself

The tokens of a line without macros depend on the line only if no quotation is open at its end. With
macros this is asked of every text that they make of the line, read as a string in which there is
nothing behind the end.
-/
namespace ClosedLines
open Bytes CommandArgs CommandTokens LineTokens MacroExpansion StepLoop

/-! ## The macros of a line -/

/-- A text while its macros are replaced: what has been passed, the rest, and the running length of
`Cmd_MacroExpandString`, which is no less than the text's. -/
structure Passing where
  front : List UInt8
  rest : List UInt8
  len : Nat
  count : Nat := 0
  inquote : Bool := false

/-- The line that is made of the text, or else the text that is left to pass; the inner `none`
discards the line. -/
abbrev Passed := Option (List UInt8) ⊕ Passing

/-- A dollar in front of `rest`. There is no way on where the name of the macro is a quotation that is
not closed: its value would come in front of what is behind the text. -/
def passMacro (cvars : CvarTable) (t : Passing) (rest : List UInt8) : Option Passed :=
  match firstToken rest with
  | none => some (.inr { t with front := t.front ++ [dollar], rest })
  | some (token, behind) =>
    match macroName (stored token) with
    | none => some (.inr { t with front := t.front ++ [dollar], rest })
    | some (name, extra) =>
      let value := cvars.value name ++ extra
      if maxStringChars - 1 ≤ t.len + value.length then some (.inl none)
      else behind.map fun behind =>
        if maxExpansions ≤ t.count + 1 then .inl none
        else .inr { t with
          rest := value ++ behind, len := t.len + value.length, count := t.count + 1 }

/-- The character behind an escaped dollar is passed without a look at it. There is no way on where
the text ends there, and its running length does not. -/
def passEscaped (t : Passing) : List UInt8 → Option Passed
  | [] => if t.len ≤ t.front.length + 1 then some (.inl (some (t.front.dropLast ++ [dollar]))) else none
  | c :: rest => some (.inr { t with front := t.front.dropLast ++ [dollar, c], rest })

/-- The next character of the text is passed. There is no way on where the text ends inside a
quotation, and its running length does not. -/
def pass (cvars : CvarTable) (t : Passing) : Option Passed :=
  if t.len ≤ t.front.length then some (.inl (if t.inquote then none else some (t.front ++ t.rest)))
  else match t.rest with
  | [] =>
    if t.inquote then if t.len ≤ t.front.length + 1 then some (.inl none) else none
    else some (.inl (some t.front))
  | c :: rest =>
    let inquote := t.inquote ^^ (c == quote)
    if inquote ∨ c ≠ dollar then some (.inr { t with front := t.front ++ [c], rest, inquote })
    else if t.front.getLast? = some backslash then passEscaped { t with inquote } rest
    else passMacro cvars { t with inquote } rest

def Passing.left (t : Passing) : Nat :=
  (maxExpansions - t.count) * maxStringChars + (t.len - t.front.length)

theorem pass_left {cvars : CvarTable} {t t' : Passing} (next : pass cvars t = some (.inr t')) :
    t'.left < t.left := by
  have further : t.front.length < t.len → ∀ t' : Passing, t'.count = t.count → t'.len = t.len →
      t'.front.length = t.front.length + 1 → t'.left < t.left := by
    intro inside t' count len front
    simp only [Passing.left, count, len, front]
    omega
  rw [pass] at next
  split at next
  · cases next
  rename_i inside
  have inside := Nat.lt_of_not_le inside
  split at next
  · split at next
    · split at next <;> cases next
    · cases next
  rename_i c rest _
  dsimp only at next
  split at next
  · cases next
    exact further inside _ rfl rfl List.length_append
  split at next
  · rename_i escaped
    cases rest with
    | nil =>
      simp only [passEscaped] at next
      split at next <;> cases next
    | cons d rest =>
      cases next
      have some : t.front ≠ [] := by
        rintro none
        rw [none] at escaped
        cases escaped
      have positive := List.length_pos_iff.mpr some
      refine further inside _ rfl rfl ?_
      simp only [List.length_append, List.length_dropLast, List.length_cons, List.length_nil]
      omega
  · simp only [passMacro] at next
    split at next
    · cases next
      exact further inside _ rfl rfl List.length_append
    split at next
    · cases next
      exact further inside _ rfl rfl List.length_append
    split at next
    · cases next
    rename_i short
    obtain ⟨behind, -, next⟩ := Option.map_eq_some_iff.mp next
    split at next
    · cases next
    rename_i few
    cases next
    simp only [Passing.left, maxExpansions, maxStringChars] at short few ⊢
    omega

def expansion (cvars : CvarTable) : Loop Passing (Option (List UInt8)) where
  step := pass cvars
  left := Passing.left
  step_left _ _ := pass_left

/-- The scan of `Cmd_MacroExpandString` stands where the text has been passed. -/
structure Stands (s : Scan) (t : Passing) (tail : List UInt8) : Prop
    extends Scans s (t.front ++ t.rest) tail where
  i : s.i = t.front.length
  len : s.len = t.len
  count : s.count = t.count
  inquote : s.inquote = t.inquote

/-- The string of the scan is in a buffer with room for it. -/
structure Scanning (s : Scan) (t : Passing) (tail : List UInt8) : Prop
    extends Stands s t tail where
  memory : s.len < s.scan.length
  room : s.len < maxStringChars
  buffer : s.buffer.length = maxStringChars

/-- The line is the text, with anything behind its terminator. -/
def Made : Option (List UInt8) → Option (List UInt8) → Prop
  | none, none => True
  | some text, some line => 0 ∉ text ∧ ∃ tail, line = text ++ 0 :: tail
  | _, _ => False

section Scanning
variable {cvars : CvarTable} {s : Scan} {t t' : Passing} {tail : List UInt8}

theorem Stands.front (h : Stands s t tail) : (t.front ++ t.rest).take s.i = t.front := by
  rw [h.i, List.take_left]

theorem Stands.rest (h : Stands s t tail) : (t.front ++ t.rest).drop s.i = t.rest := by
  rw [h.i, List.drop_left]

theorem Stands.here (h : Stands s t tail) : s.scan[s.i]? = (t.rest ++ 0 :: tail)[0]? := by
  rw [h.scan, h.i, List.append_assoc, List.getElem?_append_right (Nat.le_refl _), Nat.sub_self]

theorem Stands.before (h : Stands s t tail) :
    (0 < s.i ∧ s.scan[s.i - 1]? = some backslash) ↔ t.front.getLast? = some backslash := by
  rw [h.scan, h.i, List.append_assoc, List.getLast?_eq_getElem?]
  constructor
  · rintro ⟨positive, slash⟩
    rwa [List.getElem?_append_left (by omega)] at slash
  · intro slash
    obtain ⟨inside, -⟩ := List.getElem?_eq_some_iff.mp slash
    refine ⟨by omega, ?_⟩
    rwa [List.getElem?_append_left inside]

/-- The next character is passed. -/
theorem Scanning.char (h : Scanning s t tail) {c : UInt8} {rest : List UInt8} (inquote : Bool)
    (same : t.rest = c :: rest) : Scanning { s with inquote, i := s.i + 1 }
      { t with front := t.front ++ [c], rest, inquote } tail := by
  have whole : t.front ++ [c] ++ rest = t.front ++ t.rest := by
    rw [same, List.append_assoc, List.singleton_append]
  refine ⟨⟨⟨?_, ?_, ?_, ?_⟩, ?_, h.len, h.count, rfl⟩, h.memory, h.room, h.buffer⟩
  · rw [whole]
    exact h.scan
  · rw [whole]
    exact h.nonzero
  · rw [whole]
    exact h.length
  · refine .inl ?_
    rw [List.length_append, List.length_append, ← h.i]
    exact Nat.le_add_right _ _
  · rw [List.length_append, ← h.i]
    rfl

theorem length_buffer {scan : List UInt8} {i : Nat} (h : Scanning s t tail)
    (same : scan.length = s.scan.length) :
    ({ s with scan, i } : Scan).buffer.length = maxStringChars := by
  have room := h.buffer
  simp only [Scan.buffer] at room ⊢
  split
  · rename_i first
    rwa [if_pos first] at room
  · rename_i later
    rwa [if_neg later, ← same] at room

/-- The backslash in front of the dollar is dropped, and the scan stands behind the next character. -/
theorem Scanning.escaped (h : Scanning s t tail) {rest : List UInt8} (same : t.rest = dollar :: rest)
    (slash : t.front.getLast? = some backslash) : ∃ s' tail', dropBackslash s = some (.inr s') ∧
      s'.scan = t.front.dropLast ++ dollar :: rest ++ 0 :: tail' ∧ s'.i = s.i + 1 ∧
      s'.len = s.len ∧ s'.inquote = s.inquote ∧
      ∀ c more, rest = c :: more →
        Scanning s' { t with front := t.front.dropLast ++ [dollar, c], rest := more } tail' := by
  have some : t.front ≠ [] := by
    rintro none
    rw [none] at slash
    cases slash
  have positive := List.length_pos_iff.mpr some
  have i := h.i
  have length := h.length
  have memory := h.memory
  have whole : t.front.dropLast ++ dollar :: rest ++ 0 ::
      (tail.take (s.len - (t.front ++ t.rest).length) ++ s.scan.drop s.len) =
        (t.front ++ t.rest).take (s.i - 1) ++ (t.front ++ t.rest).drop s.i ++ 0 ::
          (tail.take (s.len - (t.front ++ t.rest).length) ++ s.scan.drop s.len) := by
    rw [h.rest, i, List.take_append_of_le_length (Nat.sub_le _ _), List.dropLast_eq_take, same]
  have step := dropBackslash_eq h.toScans (by
    rw [i, same, List.length_append, List.length_cons]
    omega) memory
  rw [← whole] at step
  refine ⟨_, _, step, rfl, rfl, rfl, rfl, ?_⟩
  rintro c more rfl
  have size := congrArg List.length h.scan
  simp only [same, List.length_append, List.length_cons] at size length
  have kept : (t.front.dropLast ++ dollar :: (c :: more) ++ 0 ::
      (tail.take (s.len - (t.front ++ t.rest).length) ++ s.scan.drop s.len)).length =
        s.scan.length := by
    simp only [same, List.length_append, List.length_cons, List.length_dropLast, List.length_take,
      List.length_drop]
    omega
  have text : t.front.dropLast ++ [dollar, c] ++ more = t.front.dropLast ++ dollar :: (c :: more) := by
    rw [List.append_assoc]
    rfl
  refine ⟨⟨⟨?_, ?_, ?_, ?_⟩, ?_, h.len, h.count, h.inquote⟩, ?_, h.room, length_buffer h kept⟩
  · rw [text]
  · rw [text]
    intro zero
    refine h.nonzero ?_
    rw [same]
    rcases List.mem_append.mp zero with front | rest
    · exact List.mem_append_left _ ((List.dropLast_sublist _).mem front)
    · exact List.mem_append_right _ rest
  · rw [text]
    simp only [List.length_append, List.length_cons, List.length_dropLast]
    omega
  · refine .inl ?_
    simp only [i, List.length_append, List.length_cons, List.length_dropLast, List.length_nil]
    omega
  · simp only [i, List.length_append, List.length_cons, List.length_dropLast, List.length_nil]
    omega
  · rw [kept]
    exact memory

/-- A value has come in the place of a macro. -/
theorem Scanning.expanded (h : Scanning s t tail) {value behind : List UInt8}
    (string : 0 ∉ value) (nonzero : 0 ∉ behind) (shorter : behind.length + 1 ≤ t.rest.length)
    (fits : s.len + value.length < maxStringChars - 1) :
    Scanning { s with
        scan := t.front ++ (value ++ behind) ++
          0 :: s.buffer.drop ((t.front ++ (value ++ behind)).length + 1)
        len := s.len + value.length
        count := s.count + 1 }
      { t with rest := value ++ behind, len := t.len + value.length, count := t.count + 1 }
      (s.buffer.drop ((t.front ++ (value ++ behind)).length + 1)) := by
  have length := h.length
  have buffer := h.buffer
  have front := h.front
  have absent : 0 ∉ t.front := fun zero => h.nonzero (List.mem_append_left _ zero)
  simp only [List.length_append] at length
  have size : (t.front ++ (value ++ behind) ++
      0 :: s.buffer.drop ((t.front ++ (value ++ behind)).length + 1)).length = maxStringChars := by
    simp only [List.length_append, List.length_cons, List.length_drop, buffer]
    omega
  refine ⟨⟨⟨rfl, ?_, ?_, .inl ?_⟩, h.i, ?_, ?_, h.inquote⟩, ?_, ?_, size⟩
  · simp only [List.mem_append, not_or]
    exact ⟨absent, string, nonzero⟩
  · simp only [List.length_append]
    omega
  · rw [h.i, List.length_append]
    exact Nat.le_add_right _ _
  · exact congrArg (· + value.length) h.len
  · exact congrArg (· + 1) h.count
  · rw [size]
    change s.len + value.length < maxStringChars
    omega
  · change s.len + value.length < maxStringChars
    omega

theorem Stands.macroStep_char (h : Stands s t tail) (cvars : CvarTable)
    (inside : ¬t.len ≤ t.front.length) {c : UInt8} {rest : List UInt8} (same : t.rest = c :: rest) :
    macroStep cvars.value s =
      if (s.inquote ^^ (c == quote)) = true ∨ c ≠ dollar then
        some { s with inquote := s.inquote ^^ (c == quote) }.skip
      else if t.front.getLast? = some backslash then dropBackslash { s with inquote := false }
      else expandMacro cvars.value { s with inquote := false } := by
  have nonzero : c ≠ 0 := by
    rintro rfl
    exact h.nonzero (same ▸ List.mem_append_right _ List.mem_cons_self)
  have before := h.before
  rw [macroStep, if_neg (by rw [h.len, h.i]; exact inside), h.here, same]
  simp only [List.cons_append, List.getElem?_cons_zero, Option.bind_eq_bind, Option.bind_some,
    nonzero, if_false, before]
  by_cases quoting : (s.inquote ^^ (c == quote)) = true
  · rw [if_pos quoting, if_pos (.inl quoting)]
  · rw [if_neg quoting]
    by_cases other : c ≠ dollar
    · rw [if_pos other, if_pos (.inr other)]
    · rw [if_neg other, if_neg (not_or.mpr ⟨quoting, other⟩), Bool.eq_false_iff.mpr quoting]

theorem Scanning.inquote_set (h : Scanning s t tail) (inquote : Bool) :
    Scanning { s with inquote } { t with inquote } tail :=
  ⟨⟨⟨h.scan, h.nonzero, h.length, h.inside⟩, h.i, h.len, h.count, rfl⟩, h.memory, h.room, h.buffer⟩

/-- A dollar that is passed. -/
theorem Scanning.dollar (h : Scanning s t tail) {rest : List UInt8}
    (same : t.rest = dollar :: rest) : ∃ s', s.skip = .inr s' ∧
      Scanning s' { t with front := t.front ++ [Bytes.dollar], rest } tail := by
  have passed := h.char s.inquote same
  exact ⟨_, rfl, ⟨passed.toScans, passed.i, passed.len, passed.count, h.inquote⟩, passed.memory,
    passed.room, passed.buffer⟩

/-- What `expandMacro` makes of the scan is what is made of the text. -/
theorem Scanning.expandMacro (h : Scanning s t tail) {rest : List UInt8} (same : t.rest = Bytes.dollar :: rest) {p : Passed}
    (passed : passMacro cvars t rest = some p) :
    (p = .inl none ∧ CommandTokens.expandMacro cvars.value s = some (.inl none)) ∨
      ∃ t' s' tail', p = .inr t' ∧
        CommandTokens.expandMacro cvars.value s = some (.inr s') ∧ Scanning s' t' tail' := by
  have nonzero : 0 ∉ rest := fun zero => h.nonzero (by
    rw [same]
    exact List.mem_append_right _ (List.mem_cons_of_mem _ zero))
  have memory : s.scan.drop (s.i + 1) = rest ++ 0 :: tail := by
    rw [h.scan, h.i, List.append_assoc, same, ← List.drop_drop, List.drop_left]
    rfl
  obtain ⟨kept, skip, scanning⟩ := h.dollar same
  simp only [CommandTokens.expandMacro, memory, comParse_text nonzero, Option.bind_eq_bind,
    Option.bind_some]
  simp only [passMacro] at passed
  cases first : firstToken rest with
  | none =>
    rw [first] at passed
    cases passed
    exact .inr ⟨_, kept, tail, rfl, congrArg some skip, scanning⟩
  | some found =>
    obtain ⟨token, behind⟩ := found
    rw [first] at passed
    simp only at passed ⊢
    cases named : macroName (stored token) with
    | none =>
      have unnamed : macroName (comToken token).val = none := named
      rw [named] at passed
      cases passed
      refine .inr ⟨_, kept, tail, rfl, ?_, scanning⟩
      rw [unnamed, skip]
    | some parts =>
      obtain ⟨name, extra⟩ := parts
      have same_name : macroName (comToken token).val = some (name, extra) := named
      rw [named] at passed
      simp only [same_name] at passed ⊢
      have len := h.len
      have count := h.count
      by_cases long : maxStringChars - 1 ≤ t.len + (cvars.value name ++ extra).length
      · rw [if_pos long] at passed
        cases passed
        refine .inl ⟨rfl, ?_⟩
        rw [substitute, if_pos (by rw [len]; exact long)]
      · rw [if_neg long] at passed
        obtain ⟨behind, rfl, made⟩ := Option.map_eq_some_iff.mp passed
        obtain ⟨suffix, shorter⟩ := firstToken_behind first
        have absent : 0 ∉ behind := fun zero => nonzero (suffix.mem zero)
        have size : t.rest.length = rest.length + 1 := by rw [same, List.length_cons]
        have string : 0 ∉ cvars.value name ++ extra := by
          have parsed := comParse_text nonzero []
          rw [first] at parsed
          have letters := (comParse_read parsed).nonzero
          exact List.mem_append.not.mpr (not_or.mpr ⟨cvars.terminated name,
            fun zero => letters (macroName_mem same_name 0 zero)⟩)
        have step := @substitute_eq s _ tail h.toScans (cvars.value name ++ extra) behind absent (by
          rw [h.i, List.length_append]
          omega)
        rw [h.front, if_neg (by rw [len]; exact long)] at step
        simp only [pointer]
        split at made
        · rename_i many
          cases made
          rw [if_pos (by rw [count]; exact many)] at step
          exact .inl ⟨rfl, step⟩
        · rename_i few
          cases made
          rw [if_neg (by rw [count]; exact few)] at step
          have scanning := h.expanded string absent (by omega) (by
            rw [len]
            exact Nat.lt_of_not_le long)
          exact .inr ⟨_, _, _, rfl, step, scanning⟩

/-- The text ends where the scan stands. -/
theorem Stands.macroStep_end (h : Stands s t tail) (cvars : CvarTable)
    (inside : ¬t.len ≤ t.front.length) (same : t.rest = []) : macroStep cvars.value s =
      if s.inquote then some s.skip else some (.inl (some s.scan)) := by
  have plain : (s.inquote ^^ ((0 : UInt8) == quote)) = s.inquote := Bool.xor_false _
  rw [macroStep, if_neg (by rw [h.len, h.i]; exact inside), h.here, same]
  simp only [List.nil_append, List.getElem?_cons_zero, Option.bind_eq_bind, Option.bind_some, plain,
    if_true]

theorem macroStep_over (ended : s.len ≤ s.i) :
    macroStep cvars.value s = some (.inl (if s.inquote then none else some s.scan)) :=
  if_pos ended

/-- What is made of the text in one pass is what the scan makes of the string. -/
theorem Scanning.pass (h : Scanning s t tail) {p : Passed} (passed : pass cvars t = some p) :
    (∃ made r, p = .inl made ∧ (macroLoop cvars.value).run s = some r ∧ Made made r) ∨
      ∃ t' s' tail', p = .inr t' ∧ macroStep cvars.value s = some (.inr s') ∧
        Scanning s' t' tail' := by
  have len := h.len
  have i := h.i
  simp only [ClosedLines.pass] at passed
  split at passed
  · rename_i ended
    cases passed
    refine .inl ⟨_, _, rfl, run_of_done (macroStep_over (by rw [len, i]; exact ended)), ?_⟩
    rw [h.inquote]
    cases t.inquote with
    | true => exact trivial
    | false => exact ⟨h.nonzero, tail, h.scan⟩
  rename_i inside
  split at passed
  · rename_i same
    have step := h.macroStep_end cvars inside same
    rw [h.inquote] at step
    split at passed
    · rename_i opened
      split at passed
      · rename_i last
        cases passed
        rw [if_pos opened] at step
        -- the terminator is passed as a character of the quotation
        refine .inl ⟨_, none, rfl, ?_, trivial⟩
        rw [run_of_next step, run_of_done (macroStep_over (by
          change s.len ≤ s.i + 1
          rw [len, i]
          exact last))]
        change some (if s.inquote = true then none else some s.scan) = some none
        rw [h.inquote, if_pos opened]
      · cases passed
    · rename_i closed
      cases passed
      rw [if_neg closed] at step
      refine .inl ⟨_, _, rfl, run_of_done step, ?_⟩
      have whole : t.front ++ t.rest = t.front := by rw [same, List.append_nil]
      exact ⟨whole ▸ h.nonzero, tail, whole ▸ h.scan⟩
  · rename_i c rest same
    have step := h.macroStep_char cvars inside same
    rw [h.inquote] at step
    split at passed
    · rename_i plain
      cases passed
      rw [if_pos plain] at step
      exact .inr ⟨_, _, tail, rfl, step, h.char _ same⟩
    · rename_i special
      obtain ⟨outside, dollars⟩ := not_or.mp special
      obtain rfl := not_not.mp dollars
      have outside := Bool.eq_false_iff.mpr outside
      have set := h.inquote_set false
      rw [if_neg special] at step
      rw [outside] at passed
      split at passed
      · rename_i slash
        obtain ⟨s', tail', drop, scan, next, sameLen, sameQuote, scanning⟩ := set.escaped same slash
        rw [if_pos slash, drop] at step
        cases rest with
        | nil =>
          simp only [passEscaped] at passed
          split at passed
          · rename_i last
            cases passed
            -- the dollar was the last character
            refine .inl ⟨_, some s'.scan, rfl, ?_, ?_, tail', scan⟩
            · rw [run_of_next step, run_of_done (macroStep_over (by
                rw [sameLen, next]
                change s.len ≤ s.i + 1
                rw [len, i]
                exact last)), sameQuote]
              rfl
            · intro zero
              refine h.nonzero ?_
              rw [same]
              rcases List.mem_append.mp zero with front | rest
              · exact List.mem_append_left _ ((List.dropLast_sublist _).mem front)
              · exact List.mem_append_right _ rest
          · cases passed
        | cons d rest =>
          cases passed
          exact .inr ⟨_, s', tail', rfl, step, scanning d rest rfl⟩
      · rename_i unescaped
        rw [if_neg unescaped] at step
        rcases set.expandMacro same passed with ⟨rfl, discards⟩ | ⟨t', s', tail', rfl, goes, scanning⟩
        · exact .inl ⟨_, none, rfl, run_of_done (step.trans discards), trivial⟩
        · exact .inr ⟨t', s', tail', rfl, step.trans goes, scanning⟩

/-- The two scans end together, and with the same text. -/
theorem Scanning.run (h : Scanning s t tail) {made : Option (List UInt8)}
    (run : (expansion cvars).run t = some made) :
    ∃ r, (macroLoop cvars.value).run s = some r ∧ Made made r := by
  induction t using (expansion cvars).induction generalizing s tail with
  | pass t ih =>
    cases step : (expansion cvars).step t with
    | none =>
      rw [run_of_fail step] at run
      cases run
    | some p =>
      rcases h.pass step with ⟨made', r, rfl, ran, agrees⟩ | ⟨t', s', tail', rfl, next, scanning⟩
      · rw [run_of_done step] at run
        cases run
        exact ⟨r, ran, agrees⟩
      · rw [run_of_next step] at run
        obtain ⟨r, ran, agrees⟩ := ih t' step scanning run
        exact ⟨r, (run_of_next next).trans ran, agrees⟩

theorem Scanning.reached (h : Scanning s t tail) (reaches : (expansion cvars).Reaches t t') :
    ∃ s' tail', Scanning s' t' tail' := by
  induction reaches with
  | refl => exact ⟨s, tail, h⟩
  | tail _ next ih =>
    obtain ⟨s', tail', scanning⟩ := ih
    rcases scanning.pass next with ⟨_, _, ended, -, -⟩ | ⟨_, s'', tail'', same, -, later⟩
    · cases ended
    · cases same
      exact ⟨s'', tail'', later⟩

/-- The scan of a text with nothing behind its terminator. -/
def Passing.bare (t : Passing) : Scan where
  scan := t.front ++ t.rest ++ [0]
  expanded := []
  len := t.len
  i := t.front.length
  count := t.count
  inquote := t.inquote

theorem Scanning.bare (h : Scanning s t tail) : Stands t.bare t [] := by
  refine ⟨⟨rfl, h.nonzero, h.length.trans (Nat.le_of_eq h.len), .inl ?_⟩, rfl, rfl, rfl, rfl⟩
  change t.front.length ≤ (t.front ++ t.rest).length
  rw [List.length_append]
  exact Nat.le_add_right _ _

/-- A name that is not ended inside the line leaves it. -/
theorem expandMacro_bare {rest : List UInt8} (nonzero : 0 ∉ rest)
    (memory : s.scan.drop (s.i + 1) = rest ++ [0]) (len : s.len = t.len)
    (stuck : passMacro cvars t rest = none) :
    CommandTokens.expandMacro cvars.value s = none := by
  simp only [passMacro] at stuck
  simp only [CommandTokens.expandMacro, memory, comParse_text nonzero, Option.bind_eq_bind,
    Option.bind_some]
  cases first : firstToken rest with
  | none =>
    rw [first] at stuck
    cases stuck
  | some found =>
    obtain ⟨token, behind⟩ := found
    rw [first] at stuck
    simp only at stuck ⊢
    cases named : macroName (stored token) with
    | none =>
      rw [named] at stuck
      cases stuck
    | some parts =>
      obtain ⟨name, extra⟩ := parts
      have same : macroName (comToken token).val = some (name, extra) := named
      rw [named] at stuck
      simp only [same] at stuck ⊢
      split at stuck
      · cases stuck
      · rename_i fits
        cases Option.map_eq_none_iff.mp stuck
        simp only [pointer, substitute, len, if_neg fits, cString, Option.bind_eq_bind,
          Option.bind_none]

/-- Where there is no way on, the scan goes on behind the terminator. -/
theorem Scanning.run_bare (h : Scanning s t tail) (stuck : ClosedLines.pass cvars t = none) :
    (macroLoop cvars.value).run t.bare = none := by
  have stands := h.bare
  have len := stands.len
  have i := stands.i
  simp only [ClosedLines.pass] at stuck
  split at stuck
  · cases stuck
  rename_i inside
  split at stuck
  · rename_i same
    split at stuck
    · rename_i opened
      split at stuck
      · cases stuck
      rename_i further
      have step := stands.macroStep_end cvars inside same
      rw [stands.inquote, if_pos opened] at step
      refine (run_of_next step).trans (run_of_fail ?_)
      change macroStep cvars.value { t.bare with i := t.bare.i + 1 } = none
      have ended : t.bare.scan[t.bare.i + 1]? = none := by
        refine List.getElem?_eq_none ?_
        rw [stands.scan, i, same, List.append_nil, List.length_append]
        exact Nat.le_refl _
      rw [macroStep, if_neg (by rw [i]; exact further)]
      simp only [ended, Option.bind_eq_bind, Option.bind_none]
    · cases stuck
  · rename_i c rest same
    have step := stands.macroStep_char cvars inside same
    rw [stands.inquote] at step
    split at stuck
    · cases stuck
    rename_i special
    obtain ⟨outside, dollars⟩ := not_or.mp special
    obtain rfl := not_not.mp dollars
    rw [if_neg special] at step
    rw [Bool.eq_false_iff.mpr outside] at stuck
    refine run_of_fail (step.trans ?_)
    split at stuck
    · rename_i slash
      rw [if_pos slash]
      cases rest with
      | nil =>
        simp only [passEscaped] at stuck
        split at stuck
        · cases stuck
        rename_i further
        refine if_pos ?_
        change t.bare.scan.length ≤ t.len
        rw [stands.scan, same, List.length_append, List.length_append]
        change t.front.length + 1 + 1 ≤ t.len
        omega
      | cons d rest => cases stuck
    · rename_i unescaped
      rw [if_neg unescaped]
      have nonzero : 0 ∉ rest := fun zero => h.nonzero (by
        rw [same]
        exact List.mem_append_right _ (List.mem_cons_of_mem _ zero))
      refine @expandMacro_bare cvars _ { t with inquote := false } rest nonzero ?_ len stuck
      change t.bare.scan.drop (t.bare.i + 1) = rest ++ [0]
      rw [stands.scan, i, List.append_assoc, same, ← List.drop_drop, List.drop_left]
      rfl

end Scanning

/-! ## A line and what follows it -/

/-- What a line means depends on the line only, not on what follows it nor on what the static buffer
of `Cmd_MacroExpandString` holds. -/
def DependsOnLine (cvars : CvarTable) (line : List UInt8) (macroExpand : Bool) : Prop :=
  ∀ expanded expanded' rest rest', expanded.length = maxStringChars →
    expanded'.length = maxStringChars →
    cmdTokenizeString cvars.value expanded (line ++ 0 :: rest) macroExpand =
      cmdTokenizeString cvars.value expanded' (line ++ 0 :: rest') macroExpand

def HasMacros (line : List UInt8) (macroExpand : Bool) : Prop := macroExpand = true ∧ dollar ∈ line

instance (line : List UInt8) (macroExpand : Bool) : Decidable (HasMacros line macroExpand) :=
  inferInstanceAs (Decidable (_ ∧ _))

def whole (line : List UInt8) : Passing where
  front := []
  rest := line
  len := line.length

/-- There is a way through the macros of the line, and if a line is made of it, this is closed. -/
def ClosedExpansion (cvars : CvarTable) (line : List UInt8) : Prop :=
  ∃ made ∈ (expansion cvars).run (whole line), ∀ text ∈ made, ClosedLine text

/-- No quotation of the line, nor of what its macros make of it, is open at the end. A line that is
too long for macros is discarded. -/
def ClosedText (cvars : CvarTable) (line : List UInt8) (macroExpand : Bool) : Prop :=
  (HasMacros line macroExpand → line.length < maxStringChars → ClosedExpansion cvars line) ∧
    (¬HasMacros line macroExpand → ClosedLine line)

/-- Some text that the macros make of the line is not enough: the scan, or the tokenizer, wants a byte
behind its terminator. -/
def ReadsBehind (cvars : CvarTable) (line : List UInt8) : Prop :=
  (∃ t, (expansion cvars).Reaches (whole line) t ∧ (macroLoop cvars.value).run t.bare = none) ∨
    ∃ text, (expansion cvars).run (whole line) = some (some text) ∧
      tokenLoop.run (noTokens, text ++ [0]) = none

instance (cvars : CvarTable) (line : List UInt8) : Decidable (ClosedExpansion cvars line) :=
  inferInstanceAs (Decidable (∃ _, _))

instance (cvars : CvarTable) (line : List UInt8) (macroExpand : Bool) :
    Decidable (ClosedText cvars line macroExpand) :=
  inferInstanceAs (Decidable (_ ∧ _))

variable {cvars : CvarTable} {line : List UInt8} {macroExpand : Bool}

theorem scanning_whole {expanded : List UInt8} (string : 0 ∉ line)
    (short : line.length < maxStringChars) (static : expanded.length = maxStringChars)
    (rest : List UInt8) :
    Scanning { scan := line ++ 0 :: rest, expanded, len := line.length } (whole line) rest := by
  refine ⟨⟨⟨rfl, string, Nat.le_refl _, .inl (Nat.zero_le _)⟩, rfl, rfl, rfl, rfl⟩, ?_, short, static⟩
  change line.length < (line ++ 0 :: rest).length
  rw [List.length_append, List.length_cons]
  omega

theorem tokens_of_closed (string : 0 ∉ line) (closed : ClosedLine line) :
    ∃ tokens, ∀ rest, tokenLoop.run (noTokens, line ++ 0 :: rest) = some tokens := by
  obtain ⟨tokens, run⟩ := Option.isSome_iff_exists.mp ((tokenLoop_line string).mpr closed)
  refine ⟨tokens, fun rest => tokenLoop_prefix run ⟨rest, ?_⟩⟩
  rw [List.append_assoc]
  rfl

theorem cmdTokenizeString_plain (string : 0 ∉ line) (plain : ¬HasMacros line macroExpand)
    (expanded rest : List UInt8) :
    cmdTokenizeString cvars.value expanded (line ++ 0 :: rest) macroExpand =
      tokenLoop.run (noTokens, line ++ 0 :: rest) := by
  cases macroExpand with
  | false => rfl
  | true =>
    have absent : dollar ∉ line := fun found => plain ⟨rfl, found⟩
    simp only [cmdTokenizeString, expandLine, if_true, cString_terminated string,
      Option.bind_eq_bind, Option.bind_some, if_neg absent]

/-- The macros make of the line what is made of its text. -/
theorem expandLine_macros (string : 0 ∉ line) (macros : HasMacros line macroExpand)
    (short : line.length < maxStringChars) {made : Option (List UInt8)}
    (run : (expansion cvars).run (whole line) = some made) {expanded : List UInt8}
    (static : expanded.length = maxStringChars) (rest : List UInt8) :
    ∃ r, expandLine cvars.value expanded (line ++ 0 :: rest) macroExpand = some r ∧ Made made r := by
  obtain ⟨r, ran, agrees⟩ := (scanning_whole string short static rest).run run
  refine ⟨r, ?_, agrees⟩
  simp only [expandLine, macros.1, if_true, cString_terminated string, Option.bind_eq_bind,
    Option.bind_some, macros.2, cmdMacroExpandString, if_neg (Nat.not_le_of_lt short)]
  exact ran

/-- A closed line is read to its terminator and no further. -/
theorem dependsOnLine_of_closed (string : 0 ∉ line) (closed : ClosedText cvars line macroExpand) :
    DependsOnLine cvars line macroExpand := by
  have same {tokens : Option Tokens} (all : ∀ expanded rest, expanded.length = maxStringChars →
      cmdTokenizeString cvars.value expanded (line ++ 0 :: rest) macroExpand = tokens) :
      DependsOnLine cvars line macroExpand := fun expanded expanded' rest rest' static static' =>
    (all expanded rest static).trans (all expanded' rest' static').symm
  by_cases macros : HasMacros line macroExpand
  · by_cases short : line.length < maxStringChars
    · obtain ⟨made, run, ends⟩ := closed.1 macros short
      have expands := fun expanded rest static =>
        @expandLine_macros cvars line macroExpand string macros short made run expanded static rest
      cases made with
      | none =>
        refine @same (some noTokens) fun expanded rest static => ?_
        obtain ⟨r, ran, agrees⟩ := expands expanded rest static
        cases r with
        | none =>
          simp only [cmdTokenizeString, ran, Option.bind_eq_bind, Option.bind_some]
        | some made => exact agrees.elim
      | some text =>
        have nonzero : 0 ∉ text := by
          obtain ⟨r, -, agrees⟩ := expands (List.replicate maxStringChars 0) [] List.length_replicate
          cases r with
          | none => exact agrees.elim
          | some made => exact agrees.1
        obtain ⟨tokens, split⟩ := tokens_of_closed nonzero (ends text rfl)
        refine @same (some tokens) fun expanded rest static => ?_
        obtain ⟨r, ran, agrees⟩ := expands expanded rest static
        cases r with
        | none => exact agrees.elim
        | some made =>
          obtain ⟨-, tail, rfl⟩ := agrees
          simp only [cmdTokenizeString, ran, Option.bind_eq_bind, Option.bind_some]
          exact split tail
    · refine @same (some noTokens) fun expanded rest _ => ?_
      simp only [cmdTokenizeString, expandLine, macros.1, if_true, cString_terminated string,
        Option.bind_eq_bind, Option.bind_some, macros.2, cmdMacroExpandString,
        if_pos (Nat.not_lt.mp short)]
  · obtain ⟨tokens, split⟩ := tokens_of_closed string (closed.2 macros)
    exact @same (some tokens) fun expanded rest _ =>
      (cmdTokenizeString_plain string macros expanded rest).trans (split rest)

theorem closed_of_dependsOnLine (string : 0 ∉ line) (plain : ¬HasMacros line macroExpand)
    (depends : DependsOnLine cvars line macroExpand) : ClosedLine line := by
  obtain ⟨tokens, run⟩ := exists_run (l := tokenLoop) tokenStep_endsTwice
    (show EndsTwice (noTokens, line ++ [0, 0]) from Or.inr ⟨line, rfl⟩)
  have same := depends _ _ [] [0] (@List.length_replicate UInt8 maxStringChars 0)
    (@List.length_replicate UInt8 maxStringChars 0)
  rw [cmdTokenizeString_plain string plain, cmdTokenizeString_plain string plain, run] at same
  refine (tokenLoop_line string).mp ?_
  rw [same]
  rfl

theorem readsBehind_of_open (string : 0 ∉ line) (short : line.length < maxStringChars)
    (opened : ¬ClosedExpansion cvars line) : ReadsBehind cvars line := by
  have scanning := fun rest => @scanning_whole line (List.replicate maxStringChars 0) string short
    List.length_replicate rest
  cases run : (expansion cvars).run (whole line) with
  | none =>
    obtain ⟨t, reaches, stuck⟩ := exists_fail_of_run run
    obtain ⟨s', tail', stands⟩ := (scanning []).reached reaches
    exact .inl ⟨t, reaches, stands.run_bare stuck⟩
  | some made =>
    cases made with
    | none => exact absurd ⟨none, run, by rintro text ⟨⟩⟩ opened
    | some text =>
      obtain ⟨r, -, agrees⟩ := (scanning []).run run
      have nonzero : 0 ∉ text := by
        cases r with
        | none => exact agrees.elim
        | some made => exact agrees.1
      refine .inr ⟨text, run, Option.not_isSome_iff_eq_none.mp fun read => opened ?_⟩
      refine ⟨some text, run, ?_⟩
      rintro _ ⟨⟩
      exact (tokenLoop_line nonzero).mp read

/-- A line means the same whatever follows it if no quotation is open at the end of the line or of what
its macros make of it. Without macros only such a line does; with macros the code reads behind a
terminator in every other line. -/
theorem dependsOnLine_iff (cvars : CvarTable) {line : List UInt8} (string : 0 ∉ line)
    (macroExpand : Bool) :
    (ClosedText cvars line macroExpand → DependsOnLine cvars line macroExpand) ∧
      (¬HasMacros line macroExpand → DependsOnLine cvars line macroExpand →
        ClosedText cvars line macroExpand) ∧
      (HasMacros line macroExpand → ¬ClosedText cvars line macroExpand → ReadsBehind cvars line) := by
  refine ⟨dependsOnLine_of_closed string, fun plain depends => ?_, fun macros opened => ?_⟩
  · exact ⟨fun macros => absurd macros plain, fun _ => closed_of_dependsOnLine string plain depends⟩
  · have opened : ¬(line.length < maxStringChars → ClosedExpansion cvars line) := fun closed =>
      opened ⟨fun _ => closed, fun plain => absurd macros plain⟩
    obtain ⟨short, opened⟩ := Classical.not_imp.mp opened
    exact readsBehind_of_open string short opened

private theorem on_isString (_name : List UInt8) : 0 ∉ ascii "on" := by decide

private def allOn : CvarTable := ⟨fun _ => ascii "on", on_isString⟩

/-- A line with a variable in it, and a quotation. -/
theorem dependsOnLine_example : DependsOnLine allOn (ascii "set sv_x $x \"a b\"") true :=
  (dependsOnLine_iff allOn (by decide) true).1 (by decide +kernel)

/-- Behind the open quote the tokenizer goes on with what is left of a longer line. -/
theorem open_quote_reads_on :
    ¬DependsOnLine allOn (ascii "say \"hi") false ∧ ¬DependsOnLine allOn (ascii "say $\"hi") true := by
  have differs (line : List UInt8) (macroExpand : Bool)
      (h : (cmdTokenizeString allOn.value (List.replicate maxStringChars 0)
          (line ++ 0 :: [0]) macroExpand).map (fun t => t.argv.argv) ≠
        (cmdTokenizeString allOn.value (List.replicate maxStringChars 0)
          (line ++ 0 :: (ascii "there" ++ [0])) macroExpand).map fun t => t.argv.argv) :
      ¬DependsOnLine allOn line macroExpand := fun depends =>
    h (congrArg _ (depends _ _ _ _ List.length_replicate List.length_replicate))
  exact ⟨differs _ _ (by decide +kernel), differs _ _ (by decide +kernel)⟩

end ClosedLines
