import Kpded2.CommandTokens

/-!
# What `Cmd_MacroExpandString` returns

The line is passed from the left. A macro is replaced by the value of its variable, which is
scanned again, and an escaped dollar loses its backslash. The running length is only an upper
bound for the line, and a pointer of `COM_Parse` may have passed the terminator: where neither
matters, the line that is returned is the one that these two rules make.
-/
namespace MacroExpansion
open Bytes CommandArgs CommandTokens StepLoop

/-- The values are C strings. -/
structure CvarTable where
  value : List UInt8 → List UInt8
  terminated : ∀ name, 0 ∉ value name

/-- As many quotes have been closed as opened. -/
def Unquoted (done : List UInt8) : Prop := Even (done.count quote)

/-- The line that can be made of `done`, which has been passed, and the rest. A backslash is only
dropped if `unescaping` holds. -/
inductive Expands (cvars : CvarTable) (unescaping : Prop) :
    List UInt8 → List UInt8 → List UInt8 → Prop
  | finish (done : List UInt8) : Expands cvars unescaping done [] done
  | keep {done rest result : List UInt8} {c : UInt8} :
    Expands cvars unescaping (done ++ [c]) rest result →
    Expands cvars unescaping done (c :: rest) result
  | unescape {done rest result : List UInt8} : unescaping → Unquoted done →
    Expands cvars unescaping (done ++ [dollar]) rest result →
    Expands cvars unescaping (done ++ [backslash]) (dollar :: rest) result
  | expand {done rest result behind name extra : List UInt8} {token : Token} :
    Unquoted done → done.getLast? ≠ some backslash →
    comParse (rest ++ [0]) = some (token, some (behind ++ [0])) →
    macroName token = some (name, extra) →
    Expands cvars unescaping done (cvars.value name ++ extra ++ behind) result →
    Expands cvars unescaping done (dollar :: rest) result

/-! ## The parser -/

theorem skipWhite_suffix {comment : Bool} {data start : List UInt8}
    (h : skipWhite comment data = some (some start)) : start <:+ data := by
  induction data generalizing comment with
  | nil => cases h
  | cons c rest ih =>
    have next : start <:+ rest → start <:+ c :: rest := fun h => h.trans (List.suffix_cons c rest)
    simp only [skipWhite] at h
    split at h
    · cases h
    · split at h
      · exact next (ih h)
      · split at h
        · exact next (ih h)
        · split at h
          · split at h
            · cases h
            · split at h
              · exact next (ih h)
              · cases h
                exact List.suffix_refl _
          · cases h
            exact List.suffix_refl _

/-- What has been read, and where the pointer stands. -/
structure Read (data token next : List UInt8) : Prop where
  suffix : next <:+ data
  nonzero : 0 ∉ token
  taken : ∀ c ∈ token, c ∈ data

theorem Read.nil {data next : List UInt8} (suffix : next <:+ data) : Read data [] next :=
  ⟨suffix, List.not_mem_nil, List.forall_mem_nil _⟩

theorem Read.cons {data token next : List UInt8} (read : Read data token next) {c : UInt8}
    (nonzero : c ≠ 0) : Read (c :: data) (c :: token) next where
  suffix := read.suffix.trans (List.suffix_cons c data)
  nonzero := List.not_mem_cons_of_ne_of_not_mem nonzero.symm read.nonzero
  taken := List.forall_mem_cons.mpr
    ⟨List.mem_cons_self, fun d taken => List.mem_cons_of_mem c (read.taken d taken)⟩

theorem Read.of_suffix {data start token next : List UInt8} (read : Read start token next)
    (suffix : start <:+ data) : Read data token next :=
  ⟨read.suffix.trans suffix, read.nonzero, fun c taken => suffix.mem (read.taken c taken)⟩

theorem quoted_read {data token next : List UInt8} (h : quoted data = some (token, next)) :
    Read data token next := by
  induction data generalizing token with
  | nil => cases h
  | cons c rest ih =>
    simp only [quoted] at h
    split at h
    · cases h
      exact .nil (List.suffix_cons _ _)
    · rename_i unclosed
      obtain ⟨⟨token', next'⟩, read, same⟩ := Option.map_eq_some_iff.mp h
      cases same
      exact (ih read).cons fun zero => unclosed (Or.inr zero)

theorem word_read {data token next : List UInt8} (h : word data = some (token, next)) :
    Read data token next ∧ next ≠ [] := by
  induction data generalizing token with
  | nil => cases h
  | cons c rest ih =>
    simp only [word] at h
    split at h
    · cases h
      exact ⟨.nil (List.suffix_refl _), List.cons_ne_nil _ _⟩
    · rename_i letter
      obtain ⟨⟨token', next'⟩, read, same⟩ := Option.map_eq_some_iff.mp h
      obtain ⟨rfl, rfl⟩ := Prod.mk.inj same
      refine ⟨(ih read).1.cons ?_, (ih read).2⟩
      rintro rfl
      exact letter (by decide)

theorem comParse_read {data next : List UInt8} {token : Token}
    (h : comParse data = some (token, some next)) : Read data token.val next := by
  rcases comParse_eq_some h with ⟨-, null, -⟩ | ⟨start, raw, rest, skip, same, rfl, read⟩
  · cases null
  · cases same
    have parts : Read start raw next := by
      rw [readToken] at read
      split at read
      · exact (quoted_read read).of_suffix (List.tail_suffix start)
      · exact (word_read read).1
    have all := parts.of_suffix (skipWhite_suffix skip)
    simp only [comToken]
    split
    · exact all
    · exact .nil all.suffix

/-- Without a quote the pointer does not pass the terminator. -/
theorem comParse_plain {data : List UInt8} (plain : quote ∉ data) (token : Token) :
    comParse (data ++ [0]) ≠ some (token, some []) := by
  intro h
  rcases comParse_eq_some h with ⟨-, null, -⟩ | ⟨start, raw, rest, skip, same, -, read⟩
  · cases null
  · cases same
    have first : ¬start.head? = some quote := by
      intro first
      have found := (skipWhite_suffix skip).mem (List.mem_of_head? first)
      rcases List.mem_append.mp found with found | found
      · exact plain found
      · exact absurd (List.mem_singleton.mp found) (by decide)
    rw [readToken, if_neg first] at read
    exact (word_read read).2 rfl

theorem macroName_mem {token name extra : List UInt8}
    (h : macroName token = some (name, extra)) : ∀ c ∈ extra, c ∈ token := by
  simp only [macroName] at h
  split at h
  · split at h
    · cases h
      exact fun c taken => (List.dropWhile_sublist _).mem (List.mem_of_mem_drop taken)
    · cases h
  · cases h
    exact List.forall_mem_nil _

/-! ## One pass -/

/-- The scan stands at a dollar outside of quotes. -/
def AtDollar (s : Scan) (text : List UInt8) : Prop :=
  s.inquote = false ∧ text[s.i]? = some dollar

def Escaped (s : Scan) (text : List UInt8) : Prop :=
  0 < s.i ∧ text[s.i - 1]? = some backslash

/-- `text` is the string that is scanned, and `tail` what stands behind its terminator. -/
structure Scans (s : Scan) (text tail : List UInt8) : Prop where
  scan : s.scan = text ++ 0 :: tail
  nonzero : 0 ∉ text
  length : text.length ≤ s.len
  inside : s.i ≤ text.length ∨ s.len ≤ s.i

/-- A quote is not open where the string ends before its running length does, nor is the name of a
macro a quotation that is not closed. A quote behind an escaped dollar would be passed over, and so
would the terminator. -/
structure Closed (s : Scan) (text : List UInt8) : Prop where
  ending : s.i = text.length → s.inquote = true → s.len ≤ s.i + 1
  name : AtDollar s text → ¬Escaped s text → ∀ token,
    comParse (text.drop (s.i + 1) ++ [0]) ≠ some (token, some [])
  escape : AtDollar s text → Escaped s text →
    text[s.i + 1]? ≠ some quote ∧ (s.i + 1 = text.length → s.len ≤ s.i + 1)

/-- What a pass does as long as it stays inside the string. -/
inductive Pass (cvars : CvarTable) (s : Scan) (text tail : List UInt8) : Progress → Prop
  | ended : s.len ≤ s.i → Pass cvars s text tail (.inl (if s.inquote then none else some s.scan))
  | terminator : s.i = text.length → s.inquote = false →
    Pass cvars s text tail (.inl (some s.scan))
  | unclosed : s.i = text.length → s.inquote = true → Pass cvars s text tail s.skip
  | char {c : UInt8} : text[s.i]? = some c →
    Pass cvars s text tail { s with inquote := s.inquote ^^ (c == quote) }.skip
  | discard : Pass cvars s text tail (.inl none)
  | escape : AtDollar s text → Escaped s text → s.len < s.scan.length →
    Pass cvars s text tail (.inr { s with
      scan := text.take (s.i - 1) ++ text.drop s.i ++
        0 :: (tail.take (s.len - text.length) ++ s.scan.drop s.len)
      i := s.i + 1 })
  | expand {token : Token} {behind name extra : List UInt8} : AtDollar s text → ¬Escaped s text →
    comParse (text.drop (s.i + 1) ++ [0]) = some (token, some (behind ++ [0])) →
    macroName token = some (name, extra) →
    s.len + (cvars.value name ++ extra).length < maxStringChars - 1 →
    Pass cvars s text tail (.inr { s with
      scan := text.take s.i ++ (cvars.value name ++ extra ++ behind) ++
        0 :: s.buffer.drop ((text.take s.i ++ (cvars.value name ++ extra ++ behind)).length + 1)
      len := s.len + (cvars.value name ++ extra).length
      count := s.count + 1 })

variable {cvars : CvarTable} {s t : Scan} {text tail : List UInt8}

theorem dropBackslash_eq (scans : Scans s text tail) (inside : s.i < text.length)
    (memory : s.len < s.scan.length) : dropBackslash s = some (.inr { s with
      scan := text.take (s.i - 1) ++ text.drop s.i ++
        0 :: (tail.take (s.len - text.length) ++ s.scan.drop s.len)
      i := s.i + 1 }) := by
  have length := scans.length
  rw [dropBackslash, if_neg (Nat.not_le_of_lt memory)]
  have front : s.scan.take (s.i - 1) = text.take (s.i - 1) := by
    rw [scans.scan, List.take_append_of_le_length (by omega)]
  have moved : (s.scan.drop s.i).take (s.len - s.i + 1) =
      text.drop s.i ++ 0 :: tail.take (s.len - text.length) := by
    rw [scans.scan, List.drop_append_of_le_length (by omega), List.take_append,
      List.take_of_length_le (by rw [List.length_drop]; omega), List.length_drop]
    have more : s.len - s.i + 1 - (text.length - s.i) = s.len - text.length + 1 := by omega
    rw [more, List.take_succ_cons]
  rw [front, moved]
  simp only [List.append_assoc, List.cons_append]

theorem dropBackslash_pass (scans : Scans s text tail) (dollar : AtDollar s text)
    (escaped : Escaped s text) (memory : s.len < s.scan.length) :
    ∃ p, dropBackslash s = some p ∧ Pass cvars s text tail p := by
  obtain ⟨inside, -⟩ := List.getElem?_eq_some_iff.mp dollar.2
  exact ⟨_, dropBackslash_eq scans inside memory, .escape dollar escaped memory⟩

/-- A value in the place of a macro, in front of what is behind it in the string. -/
theorem substitute_eq (scans : Scans s text tail) {value behind : List UInt8}
    (nonzero : 0 ∉ behind) (shorter : s.i + behind.length ≤ text.length) :
    substitute s value (behind ++ 0 :: tail) = some (
      if maxStringChars - 1 ≤ s.len + value.length then .inl none
      else if maxExpansions ≤ s.count + 1 then .inl none
      else .inr { s with
        scan := text.take s.i ++ (value ++ behind) ++
          0 :: s.buffer.drop ((text.take s.i ++ (value ++ behind)).length + 1)
        len := s.len + value.length
        count := s.count + 1 }) := by
  have length := scans.length
  have front : s.scan.take s.i = text.take s.i := by
    rw [scans.scan, List.take_append_of_le_length (by omega)]
  have whole : spliced (s.scan.take s.i) (value ++ behind) = text.take s.i ++ (value ++ behind) := by
    rw [front, spliced, if_neg fun zero => scans.nonzero (List.mem_of_mem_take zero)]
  simp only [substitute, Option.bind_eq_bind, cString_terminated nonzero, Option.bind_some, whole]
  by_cases long : maxStringChars - 1 ≤ s.len + value.length
  · rw [if_pos long, if_pos long]
  · rw [if_neg long, if_neg (by omega), if_neg long]
    split <;> rfl

/-- What stands behind the macro, as far as it is in the string. -/
theorem behind_suffix {token : Token} {behind : List UInt8}
    (parsed : comParse (text.drop (s.i + 1) ++ [0]) = some (token, some (behind ++ [0]))) :
    behind <:+ text.drop (s.i + 1) := by
  obtain ⟨front, same⟩ := (comParse_read parsed).suffix
  rw [← List.append_assoc] at same
  exact ⟨front, List.append_cancel_right same⟩

theorem substitute_pass (scans : Scans s text tail) (atDollar : AtDollar s text)
    (unescaped : ¬Escaped s text) {token : Token} {behind name extra : List UInt8}
    (parsed : comParse (text.drop (s.i + 1) ++ [0]) = some (token, some (behind ++ [0])))
    (named : macroName token = some (name, extra)) :
    ∃ p, substitute s (cvars.value name ++ extra) (behind ++ 0 :: tail) = some p ∧
      Pass cvars s text tail p := by
  obtain ⟨inside, -⟩ := List.getElem?_eq_some_iff.mp atDollar.2
  have suffix := behind_suffix parsed
  have shorter := suffix.length_le
  rw [List.length_drop] at shorter
  have nonzero : 0 ∉ behind := fun zero =>
    scans.nonzero (List.mem_of_mem_drop (suffix.mem zero))
  refine ⟨_, substitute_eq scans nonzero (by omega), ?_⟩
  split
  · exact .discard
  · rename_i fits
    split
    · exact .discard
    · exact .expand atDollar unescaped parsed named (Nat.lt_of_not_le fits)

/-- A name that is ended inside the line is expanded. -/
theorem expandMacro_pass (scans : Scans s text tail) (closed : Closed s text)
    (atDollar : AtDollar s text) (unescaped : ¬Escaped s text) :
    ∃ p, expandMacro cvars.value s = some p ∧ Pass cvars s text tail p := by
  obtain ⟨inside, -⟩ := List.getElem?_eq_some_iff.mp atDollar.2
  have memory : s.scan.drop (s.i + 1) = text.drop (s.i + 1) ++ [0] ++ tail := by
    rw [scans.scan, List.drop_append_of_le_length (by omega), List.append_assoc]
    rfl
  have skip : Pass cvars s text tail s.skip := by
    have passed := @Pass.char cvars s text tail dollar atDollar.2
    have plain : (s.inquote ^^ (dollar == quote)) = s.inquote := Bool.xor_false _
    rwa [plain] at passed
  obtain ⟨token, next, parsed, place⟩ := comParse_terminated (text.drop (s.i + 1)) []
  simp only [expandMacro, Option.bind_eq_bind, memory, comParse_append parsed tail,
    Option.bind_some]
  cases next with
  | none => exact ⟨_, rfl, skip⟩
  | some next =>
    rcases place next rfl with rfl | ⟨behind, rfl⟩
    · exact absurd parsed (closed.name atDollar unescaped token)
    · simp only [Option.map_some]
      split
      · exact ⟨_, rfl, skip⟩
      · rename_i name extra named
        have same : behind ++ [0] ++ tail = behind ++ 0 :: tail := List.append_assoc _ _ _
        rw [same]
        exact substitute_pass scans atDollar unescaped parsed named

/-- Every pass over a closed line stays inside of it. -/
theorem macroStep_pass (scans : Scans s text tail) (closed : Closed s text)
    (memory : AtDollar s text → Escaped s text → s.len < s.scan.length) :
    ∃ p, macroStep cvars.value s = some p ∧ Pass cvars s text tail p := by
  by_cases ended : s.len ≤ s.i
  · exact ⟨_, if_pos ended, .ended ended⟩
  · have inside := scans.inside.resolve_right ended
    simp only [macroStep, if_neg ended, Option.bind_eq_bind]
    rcases Nat.lt_or_eq_of_le inside with before | last
    · have char : text[s.i]? = some text[s.i] := List.getElem?_eq_getElem before
      have read : ∀ k, k < text.length → s.scan[k]? = text[k]? := fun k hk => by
        rw [scans.scan, List.getElem?_append_left hk]
      have nonzero : text[s.i] ≠ 0 := fun zero =>
        scans.nonzero (zero ▸ List.getElem_mem before)
      rw [read s.i before, char, Option.bind_some, read (s.i - 1) (by omega)]
      by_cases quoting : (s.inquote ^^ (text[s.i] == quote)) = true
      · exact ⟨_, if_pos quoting, .char char⟩
      · rw [if_neg quoting, if_neg nonzero]
        by_cases other : text[s.i] ≠ dollar
        · exact ⟨_, if_pos other, .char char⟩
        · have same : text[s.i] = dollar := not_not.mp other
          have plain : (s.inquote ^^ (dollar == quote)) = s.inquote := Bool.xor_false _
          rw [if_neg other, same, plain]
          rw [same, plain] at quoting
          have atDollar : AtDollar s text := ⟨Bool.eq_false_iff.mpr quoting, same ▸ char⟩
          by_cases escaped : Escaped s text
          · obtain ⟨p, run, pass⟩ := dropBackslash_pass scans atDollar escaped
              (memory atDollar escaped)
            exact ⟨p, (if_pos escaped).trans run, pass⟩
          · obtain ⟨p, run, pass⟩ := expandMacro_pass scans closed atDollar escaped
            exact ⟨p, (if_neg escaped).trans run, pass⟩
    · have zero : s.scan[s.i]? = some 0 := by
        rw [scans.scan, last, List.getElem?_append_right (Nat.le_refl _), Nat.sub_self]
        rfl
      have same : (s.inquote ^^ ((0 : UInt8) == quote)) = s.inquote := Bool.xor_false _
      rw [zero, Option.bind_some, same]
      by_cases opened : s.inquote = true
      · exact ⟨_, if_pos opened, .unclosed last opened⟩
      · exact ⟨_, (if_neg opened).trans (if_pos rfl),
          .terminator last (Bool.eq_false_iff.mpr opened)⟩

/-! ## What is kept -/

theorem unquoted_concat (done : List UInt8) (c : UInt8) :
    Unquoted (done ++ [c]) ↔ (c = quote ↔ ¬Unquoted done) := by
  rw [Unquoted, Unquoted, List.count_append, List.count_singleton]
  by_cases same : c = quote
  · rw [if_pos (beq_iff_eq.mpr same), Nat.even_add_one, iff_true_left same]
  · rw [if_neg fun h => same (beq_iff_eq.mp h), Nat.add_zero, iff_false_left same, not_not]

/-- The line that is returned can be made of `line` as soon as it can be made of the string that is
scanned. -/
structure Follows (cvars : CvarTable) (line : List UInt8) (s : Scan) (text tail : List UInt8) : Prop
    extends Scans s text tail where
  memory : s.len < s.scan.length
  room : s.len < maxStringChars
  buffer : s.buffer.length = maxStringChars
  inquote : s.inquote = true ↔ ¬Unquoted (text.take s.i)
  expands : ∀ result, Expands cvars True (text.take s.i) (text.drop s.i) result →
    Expands cvars True [] line result

variable {line : List UInt8}

theorem follows_unclosed (follows : Follows cvars line s text tail) (closed : Closed s text)
    (last : s.i = text.length) (opened : s.inquote = true) :
    Follows cvars line { s with i := s.i + 1 } text tail := by
  have whole : text.take (s.i + 1) = text.take s.i := by
    rw [List.take_of_length_le (by omega), List.take_of_length_le (by omega)]
  have nothing : text.drop (s.i + 1) = text.drop s.i := by
    rw [List.drop_eq_nil_of_le (by omega), List.drop_eq_nil_of_le (by omega)]
  refine ⟨⟨follows.scan, follows.nonzero, follows.length, Or.inr (closed.ending last opened)⟩,
    follows.memory, follows.room, follows.buffer, ?_, ?_⟩
  · rw [whole]
    exact follows.inquote
  · rw [whole, nothing]
    exact follows.expands

theorem follows_char (follows : Follows cvars line s text tail) {c : UInt8}
    (char : text[s.i]? = some c) :
    Follows cvars line { s with inquote := s.inquote ^^ (c == quote), i := s.i + 1 } text tail := by
  obtain ⟨inside, same⟩ := List.getElem?_eq_some_iff.mp char
  have taken : text.take (s.i + 1) = text.take s.i ++ [c] := by
    rw [← same, List.take_concat_get' text s.i inside]
  have dropped : text.drop s.i = c :: text.drop (s.i + 1) := by
    rw [← same, List.drop_eq_getElem_cons inside]
  refine ⟨⟨follows.scan, follows.nonzero, follows.length, Or.inl inside⟩, follows.memory,
    follows.room, follows.buffer, ?_, ?_⟩
  · have before := follows.inquote
    rw [taken, unquoted_concat]
    by_cases marks : c = quote
    · rw [beq_iff_eq.mpr marks, Bool.xor_true, iff_true_left marks, not_not, Bool.not_eq_true',
        ← Bool.not_eq_true, before, not_not]
    · rw [beq_false_of_ne marks, Bool.xor_false, before, iff_false_left marks, not_not]
  · intro result later
    rw [taken] at later
    refine follows.expands result ?_
    rw [dropped]
    exact .keep later

theorem escaped_parts (atDollar : AtDollar s text) (escaped : Escaped s text) :
    ∃ front, text.take (s.i - 1) = front ∧ text.take s.i = front ++ [backslash] ∧
      text.drop s.i = dollar :: text.drop (s.i + 1) ∧ s.i = front.length + 1 := by
  obtain ⟨inside, same⟩ := List.getElem?_eq_some_iff.mp atDollar.2
  obtain ⟨before, slash⟩ := List.getElem?_eq_some_iff.mp escaped.2
  have positive := escaped.1
  have next : s.i - 1 + 1 = s.i := by omega
  refine ⟨text.take (s.i - 1), rfl, ?_, ?_, ?_⟩
  · have taken := List.take_concat_get' text (s.i - 1) before
    rw [slash, next] at taken
    exact taken.symm
  · rw [List.drop_eq_getElem_cons inside, same]
  · rw [List.length_take]
    omega

theorem unquoted_of_atDollar (follows : Follows cvars line s text tail)
    (atDollar : AtDollar s text) : Unquoted (text.take s.i) := by
  by_contra quoted
  have opened := follows.inquote.mpr quoted
  rw [atDollar.1] at opened
  cases opened

/-- The backslash is dropped, and the character behind the dollar is passed with it. -/
theorem follows_escape (follows : Follows cvars line s text tail) (closed : Closed s text)
    (atDollar : AtDollar s text) (escaped : Escaped s text) :
    Follows cvars line { s with
      scan := text.take (s.i - 1) ++ text.drop s.i ++
        0 :: (tail.take (s.len - text.length) ++ s.scan.drop s.len)
      i := s.i + 1 } (text.take (s.i - 1) ++ text.drop s.i)
      (tail.take (s.len - text.length) ++ s.scan.drop s.len) := by
  obtain ⟨plain, last⟩ := closed.escape atDollar escaped
  have size := follows.length
  have memory := follows.memory
  have length := congrArg List.length follows.scan
  have unquoted := unquoted_of_atDollar follows atDollar
  have expands := follows.expands
  obtain ⟨inside, -⟩ := List.getElem?_eq_some_iff.mp atDollar.2
  obtain ⟨front, cut, taken, dropped, place⟩ := escaped_parts atDollar escaped
  have left : (text.drop (s.i + 1)).length = text.length - (s.i + 1) := List.length_drop
  have second : (text.drop (s.i + 1))[0]? ≠ some quote := by
    rwa [List.getElem?_drop, Nat.add_zero]
  have shorter : text.length = s.i + 1 + (text.drop (s.i + 1)).length := by omega
  have nonzero : 0 ∉ text.take (s.i - 1) ++ text.drop s.i := by
    rw [List.mem_append, not_or]
    exact ⟨fun zero => follows.nonzero (List.mem_of_mem_take zero),
      fun zero => follows.nonzero (List.mem_of_mem_drop zero)⟩
  rw [cut, dropped] at nonzero ⊢
  rw [taken, dropped] at expands
  rw [taken] at unquoted
  generalize text.drop (s.i + 1) = after at *
  have passed : (front ++ dollar :: after).take (s.i + 1) = front ++ dollar :: after.take 1 := by
    rw [place, List.take_append, List.take_of_length_le (by omega)]
    have two : front.length + 1 + 1 - front.length = 2 := by omega
    rw [two, List.take_succ_cons]
  have remain : (front ++ dollar :: after).drop (s.i + 1) = after.drop 1 := by
    rw [place, List.drop_append, List.drop_eq_nil_of_le (by omega)]
    have two : front.length + 1 + 1 - front.length = 2 := by omega
    rw [two, List.nil_append, List.drop_succ_cons]
  have size' : (front ++ dollar :: after).length = s.i + after.length := by
    rw [List.length_append, List.length_cons, place]
    omega
  have clear : Unquoted front := by
    by_contra quoted
    exact absurd ((unquoted_concat _ _).mp unquoted) fun h => absurd (h.mpr quoted) (by decide)
  have clear' : Unquoted (front ++ [dollar]) :=
    (unquoted_concat _ _).mpr ⟨fun h => absurd h (by decide), fun h => absurd clear h⟩
  have same : (front ++ dollar :: after ++
      0 :: (tail.take (s.len - text.length) ++ s.scan.drop s.len)).length = s.scan.length := by
    simp only [List.length_append, List.length_cons, List.length_take, List.length_drop]
      at length size' ⊢
    omega
  refine ⟨⟨rfl, nonzero, ?_, ?_⟩, ?_, follows.room, ?_, ?_, ?_⟩
  · change (front ++ dollar :: after).length ≤ s.len
    omega
  · change s.i + 1 ≤ (front ++ dollar :: after).length ∨ s.len ≤ s.i + 1
    by_cases alone : after.length = 0
    · exact Or.inr (last (by omega))
    · exact Or.inl (by omega)
  · change s.len < (_ : List UInt8).length
    rw [same]
    exact memory
  · have buffer := follows.buffer
    simp only [Scan.buffer] at buffer ⊢
    split at buffer
    · rw [if_pos ‹_›]
      exact buffer
    · rw [if_neg ‹_›, same]
      exact buffer
  · change s.inquote = true ↔ ¬Unquoted ((front ++ dollar :: after).take (s.i + 1))
    rw [passed, atDollar.1]
    refine iff_of_false Bool.false_ne_true (not_not.mpr ?_)
    cases after with
    | nil => exact clear'
    | cons c rest =>
      have whole : front ++ dollar :: (c :: rest).take 1 = front ++ [dollar] ++ [c] := by
        rw [List.append_assoc]
        rfl
      rw [whole, unquoted_concat]
      exact ⟨fun h => absurd (h ▸ rfl) second, fun h => absurd clear' h⟩
  · intro result later
    change Expands cvars True ((front ++ dollar :: after).take (s.i + 1))
      ((front ++ dollar :: after).drop (s.i + 1)) result at later
    rw [passed, remain] at later
    refine expands result (.unescape trivial clear ?_)
    cases after with
    | nil => exact later
    | cons c rest =>
      refine .keep ?_
      rw [List.append_assoc]
      exact later

theorem follows_expand (follows : Follows cvars line s text tail) (atDollar : AtDollar s text)
    (unescaped : ¬Escaped s text) {token : Token} {behind name extra : List UInt8}
    (parsed : comParse (text.drop (s.i + 1) ++ [0]) = some (token, some (behind ++ [0])))
    (named : macroName token = some (name, extra))
    (fits : s.len + (cvars.value name ++ extra).length < maxStringChars - 1) :
    Follows cvars line { s with
      scan := text.take s.i ++ (cvars.value name ++ extra ++ behind) ++
        0 :: s.buffer.drop ((text.take s.i ++ (cvars.value name ++ extra ++ behind)).length + 1)
      len := s.len + (cvars.value name ++ extra).length
      count := s.count + 1 } (text.take s.i ++ (cvars.value name ++ extra ++ behind))
      (s.buffer.drop ((text.take s.i ++ (cvars.value name ++ extra ++ behind)).length + 1)) := by
  obtain ⟨inside, same⟩ := List.getElem?_eq_some_iff.mp atDollar.2
  have chars : maxStringChars = 1024 := rfl
  have size := follows.length
  have buffer := follows.buffer
  have suffix := behind_suffix parsed
  have shorter := suffix.length_le
  rw [List.length_drop] at shorter
  have front : (text.take s.i).length = s.i := by
    rw [List.length_take]
    omega
  have length : (text.take s.i ++ (cvars.value name ++ extra ++ behind)).length =
      s.i + (cvars.value name ++ extra).length + behind.length := by
    rw [List.length_append, List.length_append, front, Nat.add_assoc]
  have dropped : text.drop s.i = dollar :: text.drop (s.i + 1) := by
    rw [List.drop_eq_getElem_cons inside, same]
  have last : (text.take s.i).getLast? ≠ some backslash := by
    intro escaped
    rw [List.getLast?_eq_getElem?, front] at escaped
    obtain ⟨before, -⟩ := List.getElem?_eq_some_iff.mp escaped
    rw [front] at before
    rw [List.getElem?_take_of_lt before] at escaped
    exact unescaped ⟨by omega, escaped⟩
  have memory : (text.take s.i ++ (cvars.value name ++ extra ++ behind) ++ 0 :: s.buffer.drop
      ((text.take s.i ++ (cvars.value name ++ extra ++ behind)).length + 1)).length =
      maxStringChars := by
    rw [List.length_append, List.length_cons, List.length_drop, length, buffer]
    omega
  refine ⟨⟨rfl, ?_, ?_, Or.inl ?_⟩, ?_, ?_, ?_, ?_, ?_⟩
  · simp only [List.mem_append, not_or]
    exact ⟨fun zero => follows.nonzero (List.mem_of_mem_take zero), ⟨cvars.terminated name,
      fun zero => (comParse_read parsed).nonzero (macroName_mem named 0 zero)⟩,
      fun zero => follows.nonzero (List.mem_of_mem_drop (suffix.mem zero))⟩
  · change _ ≤ s.len + (cvars.value name ++ extra).length
    omega
  · change s.i ≤ _
    omega
  · change s.len + (cvars.value name ++ extra).length < (_ : List UInt8).length
    rw [memory]
    omega
  · change s.len + (cvars.value name ++ extra).length < maxStringChars
    omega
  · exact memory
  · change s.inquote = true ↔
      ¬Unquoted ((text.take s.i ++ (cvars.value name ++ extra ++ behind)).take s.i)
    rw [List.take_left' front]
    exact follows.inquote
  · intro result later
    change Expands cvars True
      ((text.take s.i ++ (cvars.value name ++ extra ++ behind)).take s.i)
      ((text.take s.i ++ (cvars.value name ++ extra ++ behind)).drop s.i) result at later
    rw [List.take_left' front, List.drop_left' front] at later
    refine follows.expands result ?_
    rw [dropped]
    exact .expand (unquoted_of_atDollar follows atDollar) last parsed named later

/-- A pass that ends the scan has come to the end of the string. -/
theorem follows_pass (follows : Follows cvars line s text tail) (closed : Closed s text)
    {p : Progress} (pass : Pass cvars s text tail p) :
    (∀ t, p = .inr t → ∃ text' tail', Follows cvars line t text' tail') ∧
      ∀ out, p = .inl (some out) → out = s.scan ∧ text.length ≤ s.i := by
  cases pass with
  | ended ended =>
    refine ⟨fun t h => (by cases h), fun out h => ?_⟩
    split at h
    · cases h
    · cases h
      exact ⟨rfl, Nat.le_trans follows.length ended⟩
  | terminator last plain =>
    refine ⟨fun t h => (by cases h), fun out h => ?_⟩
    cases h
    exact ⟨rfl, Nat.le_of_eq last.symm⟩
  | unclosed last opened =>
    refine ⟨fun t h => ?_, fun out h => by cases h⟩
    cases h
    exact ⟨text, tail, follows_unclosed follows closed last opened⟩
  | char char =>
    refine ⟨fun t h => ?_, fun out h => by cases h⟩
    cases h
    exact ⟨text, tail, follows_char follows char⟩
  | discard => exact ⟨fun t h => (by cases h), fun out h => by cases h⟩
  | escape atDollar escaped memory =>
    refine ⟨fun t h => ?_, fun out h => by cases h⟩
    cases h
    exact ⟨_, _, follows_escape follows closed atDollar escaped⟩
  | expand atDollar unescaped parsed named fits =>
    refine ⟨fun t h => ?_, fun out h => by cases h⟩
    cases h
    exact ⟨_, _, follows_expand follows atDollar unescaped parsed named fits⟩

/-! ## The whole scan -/

/-- The passes that follow a state. -/
def Reached (cvars : CvarTable) : Scan → Scan → Prop :=
  Relation.ReflTransGen fun s t => macroStep cvars.value s = some (.inr t)

def StaysClosed (s : Scan) : Prop := ∀ text, cString s.scan = some text → Closed s text

theorem closed_of_stays (stays : StaysClosed s) (scans : Scans s text tail) : Closed s text := by
  refine stays text ?_
  rw [scans.scan]
  exact cString_terminated scans.nonzero tail

/-- The scan as it starts. -/
def entry (expanded line rest : List UInt8) : Scan where
  scan := line ++ 0 :: rest
  expanded := expanded
  len := line.length

theorem follows_entry {expanded rest : List UInt8} (string : 0 ∉ line)
    (short : line.length < maxStringChars) (static : expanded.length = maxStringChars) :
    Follows cvars line (entry expanded line rest) line rest where
  scan := rfl
  nonzero := string
  length := Nat.le_refl _
  inside := Or.inl (Nat.zero_le _)
  memory := by
    change line.length < (line ++ 0 :: rest).length
    rw [List.length_append, List.length_cons]
    omega
  room := short
  buffer := static
  inquote := iff_of_false Bool.false_ne_true (not_not.mpr Even.zero)
  expands := fun _ made => made

theorem reached_follows (follows : Follows cvars line s text tail)
    (closed : ∀ t, Reached cvars s t → StaysClosed t) (reached : Reached cvars s t) :
    ∃ text' tail', Follows cvars line t text' tail' := by
  induction reached with
  | refl => exact ⟨text, tail, follows⟩
  | tail before run ih =>
    obtain ⟨text', tail', follows'⟩ := ih
    have here := closed_of_stays (closed _ before) follows'.toScans
    obtain ⟨p, run', pass⟩ := macroStep_pass follows'.toScans here fun _ _ => follows'.memory
    cases Option.some.inj (run.symm.trans run')
    exact (follows_pass follows' here pass).1 _ rfl

/-- The scan of a line that stays closed ends with its expansion. -/
theorem run_follows (follows : Follows cvars line s text tail)
    (closed : ∀ t, Reached cvars s t → StaysClosed t) :
    ∃ r, (macroLoop cvars.value).run s = some r ∧
      ∀ out, r = some out → ∃ result, cString out = some result ∧
        Expands cvars True [] line result := by
  induction s using (macroLoop cvars.value).induction generalizing text tail with
  | pass s ih =>
    have here := closed_of_stays (closed s .refl) follows.toScans
    obtain ⟨p, run, pass⟩ := macroStep_pass follows.toScans here fun _ _ => follows.memory
    obtain ⟨next, done⟩ := follows_pass follows here pass
    cases p with
    | inl r =>
      refine ⟨r, run_of_done run, ?_⟩
      rintro out rfl
      obtain ⟨rfl, last⟩ := done out rfl
      refine ⟨text, ?_, follows.expands text ?_⟩
      · rw [follows.scan]
        exact cString_terminated follows.nonzero tail
      · rw [List.take_of_length_le last, List.drop_eq_nil_of_le last]
        exact .finish text
    | inr t =>
      obtain ⟨text', tail', follows'⟩ := next t rfl
      rw [run_of_next run]
      exact ih t run follows' fun u reached => closed u (.head run reached)

/-- No byte behind the terminator is read: the memory may end right there. -/
def ReadsInside (cvars : CvarTable) (s : Scan) : Prop :=
  ∃ text, cString s.scan = some text ∧
    (macroStep cvars.value { s with scan := text ++ [0], expanded := [] }).isSome

/-- An escape moves as many bytes as the running length says. -/
def ExactEscape (s : Scan) : Prop :=
  ∀ text, cString s.scan = some text → AtDollar s text → Escaped s text → s.len = text.length

theorem readsInside_of_follows (follows : Follows cvars line s text tail) (closed : Closed s text)
    (precise : ExactEscape s) : ReadsInside cvars s := by
  have string : cString s.scan = some text := by
    rw [follows.scan]
    exact cString_terminated follows.nonzero tail
  have shape : Scans { s with scan := text ++ [0], expanded := [] } text [] :=
    ⟨rfl, follows.nonzero, follows.length, follows.inside⟩
  obtain ⟨p, run, -⟩ := @macroStep_pass cvars _ text [] shape
    ⟨closed.ending, closed.name, closed.escape⟩ fun atDollar escaped => by
      change s.len < (text ++ [0]).length
      rw [precise text string atDollar escaped, List.length_append]
      exact Nat.lt_succ_self _
  refine ⟨text, string, ?_⟩
  rw [run]
  rfl

theorem left_of_run {run : Nat → Scan}
    (steps : ∀ n, macroStep cvars.value (run n) = some (.inr (run (n + 1)))) (n : Nat) :
    (run n).left + n ≤ (run 0).left := by
  induction n with
  | zero => exact Nat.le_of_eq (Nat.add_zero _)
  | succ n ih =>
    have less := macroStep_left (steps n)
    omega

/-- There is no scan without an end. Where no quote is left open, the line is expanded without a
byte being read or written outside of the strings' memory, and only an escape whose running length
is too long reads behind a terminator. -/
theorem macroExpand_expands (cvars : CvarTable) {expanded line rest : List UInt8}
    (string : 0 ∉ line) (short : line.length < maxStringChars)
    (static : expanded.length = maxStringChars)
    (closed : ∀ s, Reached cvars (entry expanded line rest) s → StaysClosed s) :
    (∀ run : Nat → Scan, ∃ n, macroStep cvars.value (run n) ≠ some (.inr (run (n + 1)))) ∧
      (∃ r, cmdMacroExpandString cvars.value expanded (line ++ 0 :: rest) = some r ∧
        ∀ out, r = some out → ∃ result, cString out = some result ∧
          Expands cvars True [] line result) ∧
      ((∀ s, Reached cvars (entry expanded line rest) s → ExactEscape s) →
        ∀ s, Reached cvars (entry expanded line rest) s → ReadsInside cvars s) := by
  have follows : Follows cvars line (entry expanded line rest) line rest :=
    follows_entry string short static
  refine ⟨fun run => ?_, ?_, fun precise s reached => ?_⟩
  · by_contra endless
    have bound := @left_of_run cvars run (fun n => not_not.mp (not_exists.mp endless n))
      ((run 0).left + 1)
    omega
  · obtain ⟨r, run, made⟩ := run_follows follows closed
    refine ⟨r, ?_, made⟩
    simp only [cmdMacroExpandString, Option.bind_eq_bind, cString_terminated string,
      Option.bind_some]
    rw [if_neg (Nat.not_le_of_lt short)]
    exact run
  · obtain ⟨text, tail, here⟩ := reached_follows follows closed reached
    exact readsInside_of_follows here (closed_of_stays (closed s reached) here.toScans)
      (precise s reached)

/-! ## Lines without quotes -/

/-- No quote, and no backslash that could escape a dollar. -/
structure PlainText (text : List UInt8) : Prop where
  quote : quote ∉ text
  backslash : backslash ∉ text

theorem closed_of_plain (plain : PlainText text) (outside : s.inquote = false) :
    Closed s text where
  ending := fun _ opened => absurd (outside.symm.trans opened) Bool.false_ne_true
  name := fun _ _ token =>
    comParse_plain (fun found => plain.quote (List.mem_of_mem_drop found)) token
  escape := fun _ escaped => absurd (List.mem_of_getElem? escaped.2) plain.backslash

theorem plain_pass (follows : Follows cvars line s text tail) (plain : PlainText text)
    (outside : s.inquote = false) (values : ∀ name, PlainText (cvars.value name))
    (pass : Pass cvars s text tail (.inr t)) :
    ∃ text' tail', Follows cvars line t text' tail' ∧ PlainText text' ∧ t.inquote = false := by
  generalize same : (Sum.inr t : Progress) = p at pass
  cases pass with
  | ended ended => cases same
  | terminator last plain => cases same
  | discard => cases same
  | unclosed last opened => exact absurd (outside.symm.trans opened) Bool.false_ne_true
  | @char c char =>
    cases same
    refine ⟨text, tail, follows_char follows char, plain, ?_⟩
    have other : c ≠ quote := by
      rintro rfl
      exact plain.quote (List.mem_of_getElem? char)
    change (s.inquote ^^ (c == quote)) = false
    rw [outside, beq_false_of_ne other]
    rfl
  | escape atDollar escaped memory =>
    exact absurd (List.mem_of_getElem? escaped.2) plain.backslash
  | @expand token behind name extra atDollar unescaped parsed named fits =>
    cases same
    refine ⟨_, _, follows_expand follows atDollar unescaped parsed named fits, ?_, outside⟩
    have line : ∀ c ∈ text.drop (s.i + 1) ++ [0], c ∈ text ∨ c = 0 := by
      intro c found
      rcases List.mem_append.mp found with found | found
      · exact Or.inl (List.mem_of_mem_drop found)
      · exact Or.inr (List.mem_singleton.mp found)
    have parts : ∀ c, c ∉ text → c ∉ cvars.value name → c ≠ 0 →
        c ∉ text.take s.i ++ (cvars.value name ++ extra ++ behind) := by
      intro c absent valueless nonzero
      simp only [List.mem_append, not_or]
      refine ⟨fun found => absent (List.mem_of_mem_take found), ⟨valueless, fun found => ?_⟩,
        fun found => absent (List.mem_of_mem_drop ((behind_suffix parsed).mem found))⟩
      rcases line c ((comParse_read parsed).taken c (macroName_mem named c found)) with h | h
      · exact absent h
      · exact nonzero h
    exact ⟨parts _ plain.quote (values name).quote (by decide),
      parts _ plain.backslash (values name).backslash (by decide)⟩

/-- A line without quotes and backslashes stays inside its strings. -/
theorem plain_reached (follows : Follows cvars line s text tail) (plain : PlainText text)
    (outside : s.inquote = false) (values : ∀ name, PlainText (cvars.value name))
    (reached : Reached cvars s t) : StaysClosed t ∧ ExactEscape t := by
  have kept : ∃ text' tail', Follows cvars line t text' tail' ∧ PlainText text' ∧
      t.inquote = false := by
    induction reached with
    | refl => exact ⟨text, tail, follows, plain, outside⟩
    | tail before run ih =>
      obtain ⟨text', tail', follows', plain', outside'⟩ := ih
      obtain ⟨p, run', pass⟩ := macroStep_pass follows'.toScans (closed_of_plain plain' outside')
        fun _ _ => follows'.memory
      cases Option.some.inj (run.symm.trans run')
      exact plain_pass follows' plain' outside' values pass
  obtain ⟨text', tail', follows', plain', outside'⟩ := kept
  have string : cString t.scan = some text' := by
    rw [follows'.scan]
    exact cString_terminated follows'.nonzero tail'
  refine ⟨fun other same => ?_, fun other same _ escaped => ?_⟩
  · cases Option.some.inj (string.symm.trans same)
    exact closed_of_plain plain' outside'
  · cases Option.some.inj (string.symm.trans same)
    exact absurd (List.mem_of_getElem? escaped.2) plain'.backslash

private theorem on_terminated (_name : List UInt8) : 0 ∉ ascii "on" := by decide

private def switchedOn : CvarTable := ⟨fun _ => ascii "on", on_terminated⟩

/-- Both variables of the line are replaced. -/
theorem macroExpand_switchedOn :
    (∃ r, cmdMacroExpandString switchedOn.value (List.replicate 1024 0)
        (ascii "set sv_x $x $y" ++ 0 :: []) = some r ∧
      ∀ out, r = some out → ∃ result, cString out = some result ∧
        Expands switchedOn True [] (ascii "set sv_x $x $y") result) ∧
      ∀ s, Reached switchedOn (entry (List.replicate 1024 0) (ascii "set sv_x $x $y") []) s →
        ReadsInside switchedOn s := by
  have follows : Follows switchedOn (ascii "set sv_x $x $y")
      (entry (List.replicate 1024 0) (ascii "set sv_x $x $y") []) (ascii "set sv_x $x $y") [] :=
    follows_entry (by decide) (by decide) List.length_replicate
  have plain := fun s => @plain_reached switchedOn _ s _ _ _ follows ⟨by decide, by decide⟩ rfl
    fun _ => ⟨show quote ∉ ascii "on" by decide, show backslash ∉ ascii "on" by decide⟩
  obtain ⟨-, expanded, inside⟩ := @macroExpand_expands switchedOn (List.replicate 1024 0)
    (ascii "set sv_x $x $y") [] (by decide) (by decide) List.length_replicate
    fun s reached => (plain s reached).1
  exact ⟨expanded, inside fun s reached => (plain s reached).2⟩

/-! ## Lines on which it goes wrong -/

theorem Expands.passed {unescaping : Prop} {done rest result : List UInt8}
    (expands : Expands cvars unescaping done rest result) (never : ¬unescaping) :
    done <+: result := by
  induction expands with
  | finish done => exact List.prefix_refl _
  | keep _ ih => exact (List.prefix_append _ _).trans ih
  | unescape drops _ _ _ => exact absurd drops never
  | expand _ _ _ _ _ ih => exact ih

theorem Expands.kept {unescaping : Prop} {done rest result : List UInt8} {c : UInt8}
    (expands : Expands cvars unescaping done (c :: rest) result) (never : ¬unescaping)
    (other : c ≠ dollar) : done ++ [c] <+: result := by
  cases expands with
  | keep later => exact later.passed never
  | unescape => exact absurd rfl other
  | expand => exact absurd rfl other

private theorem nothing_terminated (_name : List UInt8) : (0 : UInt8) ∉ [] := List.not_mem_nil

private def unset : CvarTable := ⟨fun _ => [], nothing_terminated⟩

/-- The backslash is not kept, and behind an open quote the scan leaves the line. -/
theorem backslash_dropped :
    (∃ out result, cmdMacroExpandString unset.value (List.replicate 1024 0)
        (ascii "\\$x" ++ 0 :: []) = some (some out) ∧ cString out = some result ∧
      ¬Expands unset False [] (ascii "\\$x") result) ∧
      cmdMacroExpandString unset.value (List.replicate 1024 0) (ascii "$\"x" ++ 0 :: []) = none := by
  refine ⟨⟨ascii "$x" ++ [0, 0], ascii "$x", ?_, rfl, ?_⟩, ?_⟩
  · decide +kernel
  · intro expands
    have front := Expands.kept expands not_false (by decide)
    revert front
    decide
  · decide +kernel

end MacroExpansion
