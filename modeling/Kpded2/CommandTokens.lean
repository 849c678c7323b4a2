import Mathlib.Data.List.DropRight
import Kpded2.CommandArgs
import Kpded2.StepLoop

/-!
# `Cmd_TokenizeString`

The tokenizer walks raw pointers through a line, so here a string is memory: the
bytes from the pointer on, with the terminator and what follows it. Reading past the
last byte that is there returns `none`. `char` is signed.
-/
namespace CommandTokens
open Bytes CommandArgs StepLoop

def slash : UInt8 := 47
def openBrace : UInt8 := 123
def closeBrace : UInt8 := 125

/-- `c <= ' '`, which also holds for the bytes from 128 on. -/
def blank (c : UInt8) : Bool := decide (c ≤ 32 ∨ 128 ≤ c)

/-! ## `COM_Parse` -/

/-- Skips blanks and comments; the inner `none` is the terminator. -/
def skipWhite : Bool → List UInt8 → Option (Option (List UInt8))
  | _, [] => none
  | comment, c :: rest =>
    if c = 0 then some none
    else if comment then skipWhite (c != newline) rest
    else if blank c then skipWhite false rest
    else if c = slash then
      match rest with
      | [] => none
      | d :: _ => if d = slash then skipWhite true rest else some (some (c :: rest))
    else some (some (c :: rest))

/-- Up to and including the closing quote or a terminator. -/
def quoted : List UInt8 → Option (List UInt8 × List UInt8)
  | [] => none
  | c :: rest =>
    if c = quote ∨ c = 0 then some ([], rest)
    else (quoted rest).map fun (token, next) => (c :: token, next)

def word : List UInt8 → Option (List UInt8 × List UInt8)
  | [] => none
  | c :: rest =>
    if blank c then some ([], c :: rest)
    else (word rest).map fun (token, next) => (c :: token, next)

abbrev Token := { token : List UInt8 // token.length < maxTokenChars }

/-- A token that does not fit becomes empty. -/
def comToken (token : List UInt8) : Token :=
  if h : token.length < maxTokenChars then ⟨token, h⟩ else ⟨[], by decide⟩

def readToken (start : List UInt8) : Option (List UInt8 × List UInt8) :=
  if start.head? = some quote then quoted start.tail else word start

/-- The token and where the pointer stands behind it; `none` is a null pointer. -/
def comParse (data : List UInt8) : Option (Token × Option (List UInt8)) := do
  match ← skipWhite false data with
  | none => some (comToken [], none)
  | some start => do
    let (token, next) ← readToken start
    some (comToken token, some next)

/-! ## `Cmd_MacroExpandString` -/

/-- The string in front of the first terminator. -/
def cString : List UInt8 → Option (List UInt8)
  | [] => none
  | c :: rest => if c = 0 then some [] else (cString rest).map (c :: ·)

/-- The name of the variable and what follows it, for `{name}extra`. -/
def macroName (token : List UInt8) : Option (List UInt8 × List UInt8) :=
  if token.head? = some openBrace then
    if closeBrace ∈ token then
      some ((token.takeWhile (· ≠ closeBrace)).drop 1, (token.dropWhile (· ≠ closeBrace)).drop 1)
    else none
  else some (token, [])

/-- `expanded` is what the static buffer holds before the first expansion; from then on
`scan` is that buffer. -/
structure Scan where
  scan : List UInt8
  expanded : List UInt8
  len : Nat
  i : Nat := 0
  count : Nat := 0
  inquote : Bool := false

def Scan.buffer (s : Scan) : List UInt8 := if s.count = 0 then s.expanded else s.scan

def maxExpansions : Nat := 100

/-- The line that the loop returns, or else the next pass; the inner `none` discards
the line. -/
abbrev Progress := Option (List UInt8) ⊕ Scan

def Scan.skip (s : Scan) : Progress := .inr { s with i := s.i + 1 }

/-- `memmove (scan + i - 1, scan + i, len - i + 1)`. -/
def dropBackslash (s : Scan) : Option Progress :=
  if s.scan.length ≤ s.len then none
  else
    some (.inr { s with
      scan := s.scan.take (s.i - 1) ++ (s.scan.drop s.i).take (s.len - s.i + 1) ++
        s.scan.drop s.len
      i := s.i + 1 })

/-- The text in `temporary`: `strncpy` fills up with zeros. -/
def spliced (front value : List UInt8) : List UInt8 :=
  if 0 ∈ front then front.takeWhile (· ≠ 0) else front ++ value

/-- Puts `value` in the place of the macro, in front of `start`. -/
def substitute (s : Scan) (value start : List UInt8) : Option Progress :=
  let len := s.len + value.length
  if maxStringChars - 1 ≤ len then some (.inl none)
  else do
    let tail ← cString start
    if maxStringChars ≤ s.i + value.length + tail.length then none
    else
      let text := spliced (s.scan.take s.i) (value ++ tail)
      if maxExpansions ≤ s.count + 1 then some (.inl none)
      else
        some (.inr { s with
          scan := text ++ 0 :: s.buffer.drop (text.length + 1)
          len := len
          count := s.count + 1 })

/-- A macro at `i`. -/
def expandMacro (cvars : List UInt8 → List UInt8) (s : Scan) : Option Progress := do
  match ← comParse (s.scan.drop (s.i + 1)) with
  | (_, none) => some s.skip
  | (token, some start) =>
    match macroName token with
    | none => some s.skip
    | some (name, extra) => substitute s (cvars name ++ extra) start

/-- One pass of the loop of `Cmd_MacroExpandString`. -/
def macroStep (cvars : List UInt8 → List UInt8) (s : Scan) : Option Progress :=
  if s.len ≤ s.i then some (.inl (if s.inquote then none else some s.scan))
  else do
    let c ← s.scan[s.i]?
    let inquote := s.inquote ^^ (c == quote)
    if inquote then some { s with inquote }.skip
    else if c = 0 then some (.inl (some s.scan))
    else if c ≠ dollar then some { s with inquote }.skip
    else if 0 < s.i ∧ s.scan[s.i - 1]? = some backslash then dropBackslash { s with inquote }
    else expandMacro cvars { s with inquote }

/-- An expansion makes the line at most 1022 bytes long. -/
def Scan.left (s : Scan) : Nat := (maxExpansions - s.count) * maxStringChars + (s.len - s.i)

theorem substitute_left {s s' : Scan} {value start : List UInt8}
    (h : substitute s value start = some (.inr s')) : s'.left < s.left := by
  simp only [substitute, Option.bind_eq_bind] at h
  split at h
  · cases h
  · rename_i hlen
    obtain ⟨tail, _, h⟩ := Option.bind_eq_some_iff.mp h
    split at h
    · cases h
    · split at h
      · cases h
      · rename_i hcount
        cases h
        simp only [Scan.left, maxExpansions, maxStringChars] at hlen hcount ⊢
        omega

/-- Every pass of the expansion leaves less to do. -/
theorem macroStep_left {cvars : List UInt8 → List UInt8} {s s' : Scan}
    (h : macroStep cvars s = some (.inr s')) : s'.left < s.left := by
  have hskip : s.i < s.len → ∀ t : Scan, t.count = s.count → t.len = s.len → t.i = s.i + 1 →
      t.left < s.left := by
    intro hlt t hcount hlen hi
    simp only [Scan.left, hcount, hlen, hi]
    omega
  simp only [macroStep, Option.bind_eq_bind] at h
  split at h
  · split at h <;> cases h
  · rename_i hlt
    have hlt : s.i < s.len := Nat.lt_of_not_le hlt
    obtain ⟨c, _, h⟩ := Option.bind_eq_some_iff.mp h
    split at h
    · cases h
      exact hskip hlt _ rfl rfl rfl
    · split at h
      · cases h
      · split at h
        · cases h
          exact hskip hlt _ rfl rfl rfl
        · split at h
          · simp only [dropBackslash] at h
            split at h
            · cases h
            · cases h
              exact hskip hlt _ rfl rfl rfl
          · simp only [expandMacro, Option.bind_eq_bind] at h
            obtain ⟨⟨token, next⟩, _, h⟩ := Option.bind_eq_some_iff.mp h
            cases next with
            | none =>
              cases h
              exact hskip hlt _ rfl rfl rfl
            | some start =>
              dsimp only at h
              split at h
              · cases h
                exact hskip hlt _ rfl rfl rfl
              · have hless := substitute_left h
                exact hless

def macroLoop (cvars : List UInt8 → List UInt8) : Loop Scan (Option (List UInt8)) where
  step := macroStep cvars
  left := Scan.left
  step_left _ _ := macroStep_left

def cmdMacroExpandString (cvars : List UInt8 → List UInt8) (expanded text : List UInt8) :
    Option (Option (List UInt8)) := do
  let s ← cString text
  if maxStringChars ≤ s.length then some none
  else (macroLoop cvars).run { scan := text, expanded, len := s.length }

/-! ## The tokens of a line -/

structure Tokens where
  argv : TokenList
  args : List UInt8

/-- `strncpy` into `cmd_args`, then the blanks at the end are taken off. -/
def copyArgs : Nat → List UInt8 → Option (List UInt8)
  | 0, _ => some []
  | _ + 1, [] => none
  | room + 1, c :: rest => if c = 0 then some [] else (copyArgs room rest).map (c :: ·)

def cmdArgs (tokens : Tokens) (text : List UInt8) : Option (List UInt8) :=
  if cmdArgc tokens.argv = 1 then
    (copyArgs (maxStringChars - 1) text).map fun args => args.rdropWhile blank
  else some tokens.args

def noTokens : Tokens := ⟨⟨[], by decide, by simp, by decide⟩, []⟩

/-- A token behind the last one. -/
def pushToken (argv : TokenList) (token : Token) (room : argv.argv.length < maxStringTokens)
    (fits : token.val.length + 1 + storage argv.argv < 2 * maxStringChars) : TokenList where
  argv := argv.argv ++ [token.val]
  count := by
    rw [List.length_append, List.length_singleton]
    exact room
  short := by
    intro arg harg
    rcases List.mem_append.mp harg with harg | harg
    · exact argv.short arg harg
    · exact List.mem_singleton.mp harg ▸ token.property
  stored := by
    rw [storage_append, storage_cons]
    exact (by omega : storage argv.argv + token.val.length + 1 < 2 * maxStringChars)

/-! ## Where the pointers go -/

theorem skipWhite_length {comment : Bool} {data start : List UInt8}
    (h : skipWhite comment data = some (some start)) : start.length ≤ data.length := by
  induction data generalizing comment with
  | nil => cases h
  | cons c rest ih =>
    simp only [skipWhite] at h
    split at h
    · cases h
    · split at h
      · exact Nat.le_succ_of_le (ih h)
      · split at h
        · exact Nat.le_succ_of_le (ih h)
        · split at h
          · split at h
            · cases h
            · split at h
              · exact Nat.le_succ_of_le (ih h)
              · cases h
                exact Nat.le_refl _
          · cases h
            exact Nat.le_refl _

/-- Where the scan for the start of a token ends, memory behind it plays no part. -/
theorem skipWhite_append {comment : Bool} {data : List UInt8} {r : Option (List UInt8)}
    (h : skipWhite comment data = some r) (more : List UInt8) :
    skipWhite comment (data ++ more) = some (r.map (· ++ more)) := by
  induction data generalizing comment with
  | nil => cases h
  | cons c rest ih =>
    simp only [List.cons_append, skipWhite] at h ⊢
    by_cases hz : c = 0
    · simp only [hz, if_true, Option.some.injEq] at h ⊢
      simp [← h]
    · simp only [hz, if_false] at h ⊢
      cases comment with
      | true => exact ih h
      | false =>
        by_cases hblank : blank c = true
        · simp only [hblank, if_true, Bool.false_eq_true, if_false] at h ⊢
          exact ih h
        · simp only [hblank, Bool.false_eq_true, if_false] at h ⊢
          by_cases hslash : c = slash
          · simp only [hslash, if_true] at h ⊢
            cases rest with
            | nil => cases h
            | cons d rest =>
              by_cases hcomment : d = slash
              · simp only [hcomment, if_true, List.cons_append] at h ih ⊢
                exact ih h
              · simp only [hcomment, if_false, Option.some.injEq, List.cons_append] at h ⊢
                simp [← h]
          · simp only [hslash, if_false, Option.some.injEq] at h ⊢
            simp [← h]

theorem quoted_length {data token next : List UInt8} (h : quoted data = some (token, next)) :
    next.length < data.length := by
  induction data generalizing token with
  | nil => cases h
  | cons c rest ih =>
    simp only [quoted] at h
    split at h
    · cases h
      exact Nat.lt_succ_self _
    · obtain ⟨⟨token', next'⟩, hrest, heq⟩ := Option.map_eq_some_iff.mp h
      cases heq
      exact Nat.lt_succ_of_lt (ih hrest)

theorem quoted_append {data token next : List UInt8} (h : quoted data = some (token, next))
    (more : List UInt8) : quoted (data ++ more) = some (token, next ++ more) := by
  induction data generalizing token with
  | nil => cases h
  | cons c rest ih =>
    simp only [List.cons_append, quoted] at h ⊢
    split at h
    · rename_i hend
      cases h
      rw [if_pos hend]
    · rename_i hend
      obtain ⟨⟨token', next'⟩, hrest, heq⟩ := Option.map_eq_some_iff.mp h
      cases heq
      rw [if_neg hend, ih hrest, Option.map_some]

theorem word_length {data token next : List UInt8} (h : word data = some (token, next)) :
    next.length + token.length = data.length := by
  induction data generalizing token with
  | nil => cases h
  | cons c rest ih =>
    simp only [word] at h
    split at h
    · cases h
      rfl
    · obtain ⟨⟨token', next'⟩, hrest, heq⟩ := Option.map_eq_some_iff.mp h
      obtain ⟨rfl, rfl⟩ := Prod.mk.inj heq
      have hlen := ih hrest
      simp only [List.length_cons] at hlen ⊢
      omega

theorem word_append {data token next : List UInt8} (h : word data = some (token, next))
    (more : List UInt8) : word (data ++ more) = some (token, next ++ more) := by
  induction data generalizing token with
  | nil => cases h
  | cons c rest ih =>
    simp only [List.cons_append, word] at h ⊢
    split at h
    · rename_i hend
      cases h
      rw [if_pos hend, List.cons_append]
    · rename_i hend
      obtain ⟨⟨token', next'⟩, hrest, heq⟩ := Option.map_eq_some_iff.mp h
      cases heq
      rw [if_neg hend, ih hrest, Option.map_some]

/-- The scan ends at a byte that is not blank. -/
theorem skipWhite_start {comment : Bool} {data start : List UInt8}
    (h : skipWhite comment data = some (some start)) :
    ∃ c rest, start = c :: rest ∧ blank c = false ∧ c ≠ 0 := by
  induction data generalizing comment with
  | nil => cases h
  | cons c rest ih =>
    simp only [skipWhite] at h
    split at h
    · cases h
    · rename_i hz
      split at h
      · exact ih h
      · split at h
        · exact ih h
        · rename_i hblank
          have hblank : blank c = false := by simpa using hblank
          split at h
          · split at h
            · cases h
            · split at h
              · exact ih h
              · cases h
                exact ⟨c, _, rfl, hblank, hz⟩
          · cases h
            exact ⟨c, rest, rfl, hblank, hz⟩

theorem comParse_eq_some {data : List UInt8} {token : Token} {next : Option (List UInt8)}
    (h : comParse data = some (token, next)) :
    (skipWhite false data = some none ∧ next = none ∧ token = comToken []) ∨
    ∃ start raw rest, skipWhite false data = some (some start) ∧ next = some rest ∧
      token = comToken raw ∧ readToken start = some (raw, rest) := by
  simp only [comParse, Option.bind_eq_bind] at h
  obtain ⟨start, hskip, h⟩ := Option.bind_eq_some_iff.mp h
  cases start with
  | none =>
    cases h
    exact Or.inl ⟨hskip, rfl, rfl⟩
  | some start =>
    dsimp only at h
    obtain ⟨⟨raw, rest⟩, hread, h⟩ := Option.bind_eq_some_iff.mp h
    cases h
    exact Or.inr ⟨start, raw, rest, hskip, rfl, rfl, hread⟩

/-- `COM_Parse` always moves on. -/
theorem comParse_length {data next : List UInt8} {token : Token}
    (h : comParse data = some (token, some next)) : next.length < data.length := by
  rcases comParse_eq_some h with ⟨_, hnext, _⟩ | ⟨start, raw, rest, hskip, hnext, _, hread⟩
  · cases hnext
  · cases hnext
    have hle := skipWhite_length hskip
    obtain ⟨c, tail, rfl, hblank, _⟩ := skipWhite_start hskip
    by_cases hquote : c = quote
    · simp only [readToken, List.head?_cons, hquote, if_true, List.tail_cons] at hread
      have hlt := quoted_length hread
      simp only [List.length_cons] at hle
      omega
    · simp only [readToken, List.head?_cons, Option.some.injEq, hquote, if_false, word, hblank,
        Bool.false_eq_true] at hread
      obtain ⟨⟨raw', rest'⟩, hword, heq⟩ := Option.map_eq_some_iff.mp hread
      obtain ⟨rfl, rfl⟩ := Prod.mk.inj heq
      have hlen := word_length hword
      simp only [List.length_cons] at hle ⊢
      omega

/-- Memory behind the place where the pointer ends up plays no part. -/
theorem comParse_append {data : List UInt8} {token : Token} {next : Option (List UInt8)}
    (h : comParse data = some (token, next)) (more : List UInt8) :
    comParse (data ++ more) = some (token, next.map (· ++ more)) := by
  rcases comParse_eq_some h with ⟨hskip, rfl, rfl⟩ | ⟨start, raw, rest, hskip, rfl, rfl, hread⟩
  · simp [comParse, skipWhite_append hskip more]
  · obtain ⟨c, tail, rfl, _, _⟩ := skipWhite_start hskip
    have hread' : readToken (c :: tail ++ more) = some (raw, rest ++ more) := by
      by_cases hquote : c = quote
      · simp only [readToken, List.head?_cons, List.cons_append, hquote, if_true,
          List.tail_cons] at hread ⊢
        exact quoted_append hread more
      · simp only [readToken, List.head?_cons, List.cons_append, Option.some.injEq, hquote,
          if_false] at hread ⊢
        exact word_append hread more
    simp only [comParse, skipWhite_append hskip more, Option.bind_eq_bind, Option.bind_some,
      Option.map_some, hread']

theorem cString_terminated {text : List UInt8} (nonzero : 0 ∉ text) (behind : List UInt8) :
    cString (text ++ 0 :: behind) = some text := by
  induction text with
  | nil => rfl
  | cons c rest ih =>
    rw [List.mem_cons, not_or] at nonzero
    rw [List.cons_append, cString, if_neg (Ne.symm nonzero.1), ih nonzero.2]
    rfl

theorem copyArgs_append {room : Nat} {data args : List UInt8} (h : copyArgs room data = some args)
    (more : List UInt8) : copyArgs room (data ++ more) = some args := by
  induction data generalizing room args with
  | nil =>
    cases room with
    | zero => simpa [copyArgs] using h
    | succ room => cases h
  | cons c rest ih =>
    cases room with
    | zero => simpa [copyArgs] using h
    | succ room =>
      simp only [List.cons_append, copyArgs] at h ⊢
      split at h
      · rename_i hz
        cases h
        rw [if_pos hz]
      · rename_i hz
        obtain ⟨s', hrest, rfl⟩ := Option.map_eq_some_iff.mp h
        rw [if_neg hz, ih hrest, Option.map_some]

/-! ## The loop -/

def lineBlank (c : UInt8) : Bool := decide (c = 9 ∨ c = space)

/-- Without room for another token it is passed over; without room in `cmd_buffer` the
rest of the line is. -/
def storeToken (tokens : Tokens) (token : Token) (next : List UInt8) :
    Tokens ⊕ Tokens × List UInt8 :=
  if hroom : tokens.argv.argv.length < maxStringTokens then
    if hfits : token.val.length + 1 + storage tokens.argv.argv < 2 * maxStringChars then
      .inr (⟨pushToken tokens.argv token hroom hfits, tokens.args⟩, next)
    else .inl tokens
  else .inr (tokens, next)

/-- One pass of the loop of `Cmd_TokenizeString`. -/
def tokenStep (s : Tokens × List UInt8) : Option (Tokens ⊕ Tokens × List UInt8) :=
  match s.2.dropWhile lineBlank with
  | [] => none
  | c :: rest =>
    if c = newline ∨ c = 0 then some (.inl s.1)
    else do
      let args ← cmdArgs s.1 (c :: rest)
      match ← comParse (c :: rest) with
      | (_, none) => some (.inl { s.1 with args })
      | (token, some next) => some (storeToken { s.1 with args } token next)

theorem storeToken_next {tokens tokens' : Tokens} {token : Token} {next text : List UInt8}
    (h : storeToken tokens token next = .inr (tokens', text)) : text = next := by
  simp only [storeToken] at h
  split at h
  · split at h
    · cases h
      rfl
    · cases h
  · cases h
    rfl

theorem tokenStep_left {s s' : Tokens × List UInt8} (h : tokenStep s = some (.inr s')) :
    s'.2.length < s.2.length := by
  have hsuffix := (List.dropWhile_suffix (l := s.2) lineBlank).length_le
  simp only [tokenStep, Option.bind_eq_bind] at h
  split at h
  · cases h
  · rename_i c rest htext
    rw [htext] at hsuffix
    split at h
    · cases h
    · obtain ⟨args, _, h⟩ := Option.bind_eq_some_iff.mp h
      obtain ⟨⟨token, next⟩, hparse, h⟩ := Option.bind_eq_some_iff.mp h
      cases next with
      | none => cases h
      | some next =>
        have hnext := storeToken_next (Option.some.inj h)
        have hlt := comParse_length hparse
        rw [hnext]
        omega

def tokenLoop : Loop (Tokens × List UInt8) Tokens where
  step := tokenStep
  left s := s.2.length
  step_left _ _ := tokenStep_left

/-- The line to be split, or none if it is discarded. -/
def expandLine (cvars : List UInt8 → List UInt8) (expanded text : List UInt8)
    (macroExpand : Bool) : Option (Option (List UInt8)) :=
  if macroExpand then do
    let s ← cString text
    if dollar ∈ s then cmdMacroExpandString cvars expanded text else some (some text)
  else some (some text)

def cmdTokenizeString (cvars : List UInt8 → List UInt8) (expanded text : List UInt8)
    (macroExpand : Bool) : Option Tokens := do
  match ← expandLine cvars expanded text macroExpand with
  | none => some noTokens
  | some line => tokenLoop.run (noTokens, line)

/-! ## The tokens are strings -/

theorem quoted_string {data token next : List UInt8} (h : quoted data = some (token, next)) :
    0 ∉ token := by
  induction data generalizing token with
  | nil => cases h
  | cons c rest ih =>
    simp only [quoted] at h
    split at h
    · cases h
      exact List.not_mem_nil
    · rename_i inside
      obtain ⟨⟨token', next'⟩, hrest, heq⟩ := Option.map_eq_some_iff.mp h
      cases heq
      exact List.not_mem_cons_of_ne_of_not_mem (fun zero => inside (Or.inr zero.symm)) (ih hrest)

theorem word_string {data token next : List UInt8} (h : word data = some (token, next)) :
    0 ∉ token := by
  induction data generalizing token with
  | nil => cases h
  | cons c rest ih =>
    simp only [word] at h
    split at h
    · cases h
      exact List.not_mem_nil
    · rename_i inside
      obtain ⟨⟨token', next'⟩, hrest, heq⟩ := Option.map_eq_some_iff.mp h
      cases heq
      refine List.not_mem_cons_of_ne_of_not_mem (fun zero => inside ?_) (ih hrest)
      rw [← zero]
      rfl

theorem comToken_string {raw : List UInt8} (h : 0 ∉ raw) : 0 ∉ (comToken raw).val := by
  rw [comToken]
  split
  · exact h
  · exact List.not_mem_nil

theorem comParse_string {data : List UInt8} {token : Token} {next : Option (List UInt8)}
    (h : comParse data = some (token, next)) : 0 ∉ token.val := by
  rcases comParse_eq_some h with ⟨-, -, rfl⟩ | ⟨start, raw, rest, -, -, rfl, hread⟩
  · exact comToken_string List.not_mem_nil
  · refine comToken_string ?_
    rw [readToken] at hread
    split at hread
    · exact quoted_string hread
    · exact word_string hread

/-- No token has a terminator in it. -/
def Strings (tokens : Tokens) : Prop := ∀ arg ∈ tokens.argv.argv, 0 ∉ arg

theorem strings_storeToken {tokens : Tokens} (strings : Strings tokens) {token : Token}
    (string : 0 ∉ token.val) (next : List UInt8) :
    Sum.elim Strings (fun s => Strings s.1) (storeToken tokens token next) := by
  simp only [storeToken]
  split
  · split
    · intro arg harg
      rcases List.mem_append.mp harg with harg | harg
      · exact strings arg harg
      · exact List.mem_singleton.mp harg ▸ string
    · exact strings
  · exact strings

theorem strings_tokenStep {s : Tokens × List UInt8} (strings : Strings s.1)
    {p : Tokens ⊕ Tokens × List UInt8} (h : tokenStep s = some p) :
    Sum.elim Strings (fun s => Strings s.1) p := by
  simp only [tokenStep, Option.bind_eq_bind] at h
  split at h
  · cases h
  · split at h
    · cases h
      exact strings
    · obtain ⟨args, -, h⟩ := Option.bind_eq_some_iff.mp h
      obtain ⟨⟨token, next⟩, hparse, h⟩ := Option.bind_eq_some_iff.mp h
      cases next with
      | none =>
        cases h
        exact strings
      | some next =>
        cases h
        exact @strings_storeToken ⟨s.1.argv, args⟩ strings _ (comParse_string hparse) next

/-- What the tokenizer leaves are strings, whatever line it is given. -/
theorem cmdTokenizeString_strings {cvars : List UInt8 → List UInt8} {expanded text : List UInt8}
    {macroExpand : Bool} {tokens : Tokens}
    (h : cmdTokenizeString cvars expanded text macroExpand = some tokens) : Strings tokens := by
  simp only [cmdTokenizeString, Option.bind_eq_bind] at h
  obtain ⟨line, -, h⟩ := Option.bind_eq_some_iff.mp h
  cases line with
  | none =>
    cases h
    exact List.forall_mem_nil _
  | some line =>
    refine run_keeps (I := fun s => Strings s.1) (fun s s' strings step => ?_)
      (fun s result strings step => ?_) (show Strings noTokens from List.forall_mem_nil _) h
    · exact strings_tokenStep strings step
    · exact strings_tokenStep strings step

/-! ## Memory that is not read -/

theorem dropWhile_append_cons {p : UInt8 → Bool} {text rest : List UInt8} {c : UInt8}
    (h : text.dropWhile p = c :: rest) (more : List UInt8) :
    (text ++ more).dropWhile p = c :: (rest ++ more) := by
  simp [List.dropWhile_append, h]

theorem cmdArgs_append {tokens : Tokens} {text args : List UInt8}
    (h : cmdArgs tokens text = some args) (more : List UInt8) :
    cmdArgs tokens (text ++ more) = some args := by
  simp only [cmdArgs] at h ⊢
  split at h
  · rename_i hone
    obtain ⟨copied, hcopied, rfl⟩ := Option.map_eq_some_iff.mp h
    rw [if_pos hone, copyArgs_append hcopied more, Option.map_some]
  · rename_i hone
    rw [if_neg hone, h]

/-- The same tokens, and memory that reaches further. -/
def SameText (s t : Tokens × List UInt8) : Prop := ∃ text, s.2 <+: text ∧ t = (s.1, text)

theorem storeToken_sameText (tokens : Tokens) (token : Token) {next next' : List UInt8}
    (h : next <+: next') :
    Sum.LiftRel Eq SameText (storeToken tokens token next) (storeToken tokens token next') := by
  simp only [storeToken]
  split
  · split
    · exact Sum.LiftRel.inr ⟨next', h, rfl⟩
    · exact Sum.LiftRel.inl rfl
  · exact Sum.LiftRel.inr ⟨next', h, rfl⟩

/-- A pass does the same with memory that reaches further. -/
theorem tokenStep_sameText (s t : Tokens × List UInt8) (p : Tokens ⊕ Tokens × List UInt8)
    (hrel : SameText s t) (h : tokenStep s = some p) :
    ∃ q, tokenStep t = some q ∧ Sum.LiftRel Eq SameText p q := by
  obtain ⟨_, ⟨more, rfl⟩, rfl⟩ := hrel
  simp only [tokenStep, Option.bind_eq_bind] at h ⊢
  split at h
  · cases h
  · rename_i c rest htext
    simp only [dropWhile_append_cons htext more]
    split at h
    · rename_i hend
      cases h
      exact ⟨_, if_pos hend, Sum.LiftRel.inl rfl⟩
    · rename_i hend
      rw [if_neg hend]
      obtain ⟨args, hargs, h⟩ := Option.bind_eq_some_iff.mp h
      obtain ⟨⟨token, next⟩, hparse, h⟩ := Option.bind_eq_some_iff.mp h
      have hargs' := cmdArgs_append hargs more
      have hparse' := comParse_append hparse more
      rw [List.cons_append] at hargs' hparse'
      rw [hargs', Option.bind_some, hparse', Option.bind_some]
      cases next with
      | none =>
        cases h
        exact ⟨_, rfl, Sum.LiftRel.inl rfl⟩
      | some next =>
        cases h
        exact ⟨_, rfl, storeToken_sameText _ token (List.prefix_append next more)⟩

theorem tokenLoop_prefix {tokens result : Tokens} {text text' : List UInt8}
    (h : tokenLoop.run (tokens, text) = some result) (hmore : text <+: text') :
    tokenLoop.run (tokens, text') = some result := by
  obtain ⟨result', hrun, rfl⟩ :=
    run_simulates tokenStep_sameText (show SameText (tokens, text) _ from ⟨text', hmore, rfl⟩) h
  exact hrun

/-! ## Memory with two terminators -/

section Terminated
variable (s more : List UInt8)

theorem skipWhite_terminated (comment : Bool) :
    skipWhite comment (s ++ 0 :: more) = some none ∨
      ∃ s', skipWhite comment (s ++ 0 :: more) = some (some (s' ++ 0 :: more)) := by
  induction s generalizing comment with
  | nil => exact Or.inl rfl
  | cons c s ih =>
    simp only [List.cons_append, skipWhite]
    split
    · exact Or.inl rfl
    · split
      · exact ih _
      · split
        · exact ih _
        · split
          · split
            · rename_i hnil
              simp at hnil
            · split
              · exact ih _
              · exact Or.inr ⟨c :: s, rfl⟩
          · exact Or.inr ⟨c :: s, rfl⟩

theorem quoted_terminated :
    ∃ token next, quoted (s ++ 0 :: more) = some (token, next) ∧
      (next = more ∨ ∃ s', next = s' ++ 0 :: more) := by
  induction s with
  | nil => exact ⟨[], more, rfl, Or.inl rfl⟩
  | cons c s ih =>
    simp only [List.cons_append, quoted]
    split
    · exact ⟨[], _, rfl, Or.inr ⟨s, rfl⟩⟩
    · obtain ⟨token, next, hread, hnext⟩ := ih
      exact ⟨c :: token, next, by rw [hread]; rfl, hnext⟩

theorem word_terminated :
    ∃ token s', word (s ++ 0 :: more) = some (token, s' ++ 0 :: more) := by
  induction s with
  | nil => exact ⟨[], [], rfl⟩
  | cons c s ih =>
    simp only [List.cons_append, word]
    split
    · exact ⟨[], c :: s, rfl⟩
    · obtain ⟨token, s', hread⟩ := ih
      exact ⟨c :: token, s', by rw [hread]; rfl⟩

theorem comParse_terminated :
    ∃ token next, comParse (s ++ 0 :: more) = some (token, next) ∧
      ∀ text, next = some text → text = more ∨ ∃ s', text = s' ++ 0 :: more := by
  rcases skipWhite_terminated s more false with hskip | ⟨s', hskip⟩
  · refine ⟨comToken [], none, ?_, fun _ h => by cases h⟩
    simp [comParse, hskip]
  · obtain ⟨token, next, hread, hnext⟩ : ∃ token next,
        readToken (s' ++ 0 :: more) = some (token, next) ∧
          (next = more ∨ ∃ s', next = s' ++ 0 :: more) := by
      simp only [readToken]
      split
      · cases s' with
        | nil => rename_i hquote; cases hquote
        | cons c s' => exact quoted_terminated s' more
      · obtain ⟨token, s'', hread⟩ := word_terminated s' more
        exact ⟨token, _, hread, Or.inr ⟨s'', rfl⟩⟩
    refine ⟨comToken token, some next, ?_, ?_⟩
    · simp [comParse, hskip, hread]
    · rintro text ⟨⟩
      exact hnext

theorem copyArgs_terminated (room : Nat) : ∃ args, copyArgs room (s ++ 0 :: more) = some args := by
  induction s generalizing room with
  | nil =>
    cases room with
    | zero => exact ⟨[], rfl⟩
    | succ room => exact ⟨[], rfl⟩
  | cons c s ih =>
    cases room with
    | zero => exact ⟨[], rfl⟩
    | succ room =>
      simp only [List.cons_append, copyArgs]
      split
      · exact ⟨[], rfl⟩
      · obtain ⟨args, hargs⟩ := ih room
        exact ⟨c :: args, by rw [hargs]; rfl⟩

theorem cmdArgs_terminated (tokens : Tokens) :
    ∃ args, cmdArgs tokens (s ++ 0 :: more) = some args := by
  simp only [cmdArgs]
  split
  · obtain ⟨args, hargs⟩ := copyArgs_terminated s more (maxStringChars - 1)
    exact ⟨args.rdropWhile blank, by rw [hargs]; rfl⟩
  · exact ⟨_, rfl⟩

end Terminated

/-- Two terminators at the end, or one where the first has been passed. -/
def EndsTwice (s : Tokens × List UInt8) : Prop := s.2 = [0] ∨ ∃ text, s.2 = text ++ [0, 0]

/-- A pass over a line with two terminators does not leave it. -/
theorem tokenStep_endsTwice (s : Tokens × List UInt8) (h : EndsTwice s) :
    ∃ p, tokenStep s = some p ∧ ∀ s', p = .inr s' → EndsTwice s' := by
  obtain ⟨tokens, text⟩ := s
  have hdone : ∀ {c} (rest), text.dropWhile lineBlank = c :: rest → c = newline ∨ c = 0 →
      ∃ p, tokenStep (tokens, text) = some p ∧ ∀ s', p = .inr s' → EndsTwice s' := by
    intro c rest htext hend
    refine ⟨.inl tokens, ?_, fun _ h => by cases h⟩
    simp only [tokenStep, htext, if_pos hend]
  rcases h with rfl | ⟨text, rfl⟩
  · exact hdone [] rfl (Or.inr rfl)
  · have htext : (text ++ [0, 0]).dropWhile lineBlank = text.dropWhile lineBlank ++ [0, 0] := by
      simp only [List.dropWhile_append]
      split
      · rename_i hnil
        rw [List.isEmpty_iff.mp hnil]
        rfl
      · rfl
    cases hline : text.dropWhile lineBlank with
    | nil =>
      rw [hline] at htext
      exact hdone _ htext (Or.inr rfl)
    | cons c rest =>
      rw [hline, List.cons_append] at htext
      by_cases hend : c = newline ∨ c = 0
      · exact hdone _ htext hend
      · obtain ⟨args, hargs⟩ := cmdArgs_terminated (c :: rest) [0] tokens
        obtain ⟨token, next, hparse, hnext⟩ := comParse_terminated (c :: rest) [0]
        rw [List.cons_append] at hargs hparse
        simp only [tokenStep, htext, if_neg hend, Option.bind_eq_bind, hargs, hparse,
          Option.bind_some]
        cases next with
        | none => exact ⟨_, rfl, fun _ h => by cases h⟩
        | some next =>
          refine ⟨_, rfl, ?_⟩
          rintro ⟨tokens', text'⟩ hstore
          obtain rfl := storeToken_next hstore
          exact hnext text' rfl

end CommandTokens
