import Kpded2.CommandBuffer
import Kpded2.Outcome

/-!
# Commands run in between

`Cbuf_ExecuteScoped` puts the pending text aside, runs its own, and puts the pending text back in
front of what that has left. The commands of a buffer are its lines that are not empty.
-/
namespace ScopedCommands
open Bytes CommandArgs CommandTokens SizeBuf CommandBuffer Outcome

variable {σ : Type}

/-! ## The commands of a text -/

def command (line : List UInt8) : List (List UInt8) := if line = [] then [] else [line]

def endsLine (quotes : Bool) (c : UInt8) : Bool := (!quotes && c == semicolon) || c == newline

/-- The commands of a text behind an unfinished line. -/
def commandsFrom (quotes : Bool) (line : List UInt8) : List UInt8 → List (List UInt8)
  | [] => command line
  | c :: rest =>
    let quotes := quotes ^^ (c == quote)
    if endsLine quotes c then command line ++ commandsFrom false [] rest
    else commandsFrom quotes (line ++ [c]) rest

def commands (text : List UInt8) : List (List UInt8) := commandsFrom false [] text

/-- Nothing is unfinished at the end of the text. -/
def finishedFrom (quotes finished : Bool) : List UInt8 → Bool
  | [] => finished
  | c :: rest =>
    let quotes := quotes ^^ (c == quote)
    if endsLine quotes c then finishedFrom false true rest else finishedFrom quotes false rest

def finished (text : List UInt8) : Bool := finishedFrom false true text

variable {text more line : List UInt8} {quotes done : Bool}

theorem commandsFrom_lineEnd (quotes : Bool) (line text : List UInt8) :
    commandsFrom quotes line text = command (line ++ text.take (lineEnd quotes text)) ++
      commands (text.drop (lineEnd quotes text + 1)) := by
  induction text generalizing quotes line with
  | nil => simp [commandsFrom, commands, command]
  | cons c rest ih =>
    simp only [commandsFrom, lineEnd]
    by_cases ends : endsLine (quotes ^^ (c == quote)) c = true
    · rw [if_pos ends, if_pos (show (_ || _) = true from ends)]
      simp [commands]
    · rw [if_neg ends, if_neg (show ¬(_ || _) = true from ends), ih]
      simp

/-- `Cbuf_Execute` takes the first command off the buffer, cut to the length of a line. -/
theorem commands_nextLine (text : List UInt8) : ∃ line,
    (nextLine text).1 = line.take (maxStringChars - 1) ∧
      commands text = command line ++ commands (nextLine text).2 := by
  refine ⟨text.take (lineEnd false text), ?_, commandsFrom_lineEnd false [] text⟩
  rw [List.take_take, Nat.min_comm]
  rfl

theorem commandsFrom_append (h : finishedFrom quotes done text = true)
    (start : done = true → quotes = false ∧ line = []) :
    commandsFrom quotes line (text ++ more) = commandsFrom quotes line text ++ commands more := by
  induction text generalizing quotes done line with
  | nil =>
    obtain ⟨rfl, rfl⟩ := start h
    rfl
  | cons c rest ih =>
    simp only [finishedFrom] at h
    simp only [List.cons_append, commandsFrom]
    split at h
    · rename_i ends
      rw [if_pos ends, if_pos ends, ih h fun _ => ⟨rfl, rfl⟩, List.append_assoc]
    · rename_i goesOn
      rw [if_neg goesOn, if_neg goesOn]
      exact ih h (by rintro ⟨⟩)

theorem commands_append (h : finished text = true) (more : List UInt8) :
    commands (text ++ more) = commands text ++ commands more :=
  commandsFrom_append h fun _ => ⟨rfl, rfl⟩

theorem line_eq_nil (h : commandsFrom quotes line text = []) : line = [] := by
  induction text generalizing quotes line with
  | nil =>
    simp only [commandsFrom, command] at h
    split at h
    · assumption
    · cases h
  | cons c rest ih =>
    simp only [commandsFrom] at h
    split at h
    · have first := (List.append_eq_nil_iff.mp h).1
      simp only [command] at first
      split at first
      · assumption
      · cases first
    · exact absurd (ih h) (List.append_ne_nil_of_right_ne_nil line (List.cons_ne_nil c []))

/-- A text without commands ends a line. -/
theorem finishedFrom_of_nil (h : commandsFrom quotes line text = []) (start : done = false → line ≠ []) :
    finishedFrom quotes done text = true := by
  induction text generalizing quotes done line with
  | nil =>
    by_contra unended
    exact start (Bool.eq_false_iff.mpr unended) (line_eq_nil h)
  | cons c rest ih =>
    simp only [commandsFrom] at h
    simp only [finishedFrom]
    split at h
    · rename_i ends
      rw [if_pos ends]
      exact ih (List.append_eq_nil_iff.mp h).2 (by rintro ⟨⟩)
    · exact absurd (line_eq_nil h) (List.append_ne_nil_of_right_ne_nil line (List.cons_ne_nil c []))

def letter : UInt8 := 120

/-- An unfinished line takes up what comes behind it. -/
theorem finishedFrom_of_append
    (h : commandsFrom quotes line (text ++ [letter]) = commandsFrom quotes line text ++ [[letter]])
    (start : done = false → line ≠ []) : finishedFrom quotes done text = true := by
  induction text generalizing quotes done line with
  | nil =>
    by_contra unended
    have unfinished := start (Bool.eq_false_iff.mpr unended)
    have sizes := congrArg List.length h
    simp [commandsFrom, endsLine, command, unfinished, letter, semicolon, newline] at sizes
  | cons c rest ih =>
    simp only [List.cons_append, commandsFrom] at h
    simp only [finishedFrom]
    split at h
    · rename_i ends
      rw [List.append_assoc] at h
      rw [if_pos ends]
      exact ih (List.append_cancel_left h) (by rintro ⟨⟩)
    · rename_i goesOn
      rw [if_neg goesOn]
      exact ih h fun _ => List.append_ne_nil_of_right_ne_nil line (List.cons_ne_nil c [])

/-! ## The buffer while commands run -/

/-- What `Cbuf_AddText` makes of the contents. -/
def added (data text : List UInt8) : List UInt8 :=
  if data.length + text.length ≥ commandBufferSize then data else data ++ text

theorem cbufAddText_added (data text : List UInt8) :
    cbufAddText (commandBuffer data) text = .ok (commandBuffer (added data text)) := by
  cases text with
  | nil =>
    have same : added data [] = data := by
      rw [added, List.append_nil, ite_self]
    rw [same]
    rfl
  | cons c rest =>
    simp only [cbufAddText, List.isEmpty_cons, Bool.false_eq_true, if_false]
    by_cases full : data.length + (c :: rest).length ≥ commandBufferSize
    · rw [added, if_pos full]
      exact if_pos full
    · rw [added, if_neg full]
      refine (if_neg full).trans ?_
      rw [szWriteText_commandBuffer, if_pos (by omega)]

theorem length_added {data : List UInt8} (fits : data.length ≤ commandBufferSize)
    (text : List UInt8) : (added data text).length ≤ commandBufferSize := by
  rw [added]
  split
  · exact fits
  · rw [List.length_append]
    omega

/-- The text goes in front, unless it fills the buffer alone. -/
theorem cbufInsertText_added {data : List UInt8} (fits : data.length ≤ commandBufferSize)
    (text : List UInt8) : cbufInsertText (commandBuffer data) text =
      if (added [] text ++ data).length ≤ commandBufferSize then
        .ok (commandBuffer (added [] text ++ data))
      else .error .overflow := by
  cases data with
  | nil =>
    have small := length_added (show ([] : List UInt8).length ≤ commandBufferSize from Nat.zero_le _) text
    rw [List.append_nil, if_pos small]
    change (cbufAddText (commandBuffer []) text >>= fun buf => .ok buf) = _
    rw [cbufAddText_added]
    rfl
  | cons c rest =>
    change (cbufAddText (commandBuffer []) text >>= fun buf => szWriteText buf (c :: rest)) = _
    rw [cbufAddText_added, List.length_append]
    exact szWriteText_commandBuffer _ _

/-- The buffer as it was set up. -/
def Sized (s : State σ) : Prop :=
  ∃ data, s.cmdText = commandBuffer data ∧ data.length ≤ commandBufferSize

variable {p : Program σ} {execute : State σ → Except Stop (State σ)} {s : State σ}

theorem sized_addText (h : Sized s) (text : List UInt8) :
    Returns (fun buf => Sized { s with cmdText := buf }) (cbufAddText s.cmdText text) := by
  obtain ⟨data, hdata, fits⟩ := h
  rw [hdata, cbufAddText_added]
  exact ⟨_, rfl, length_added fits text⟩

theorem sized_insertText (h : Sized s) (text : List UInt8) :
    Returns (fun buf => Sized { s with cmdText := buf }) (cbufInsertText s.cmdText text) := by
  obtain ⟨data, hdata, fits⟩ := h
  rw [hdata, cbufInsertText_added fits]
  split
  · rename_i small
    exact ⟨_, rfl, small⟩
  · exact trivial

theorem sized_bufferCall (keeps : ∀ s, Sized s → Returns Sized (execute s)) (h : Sized s)
    (bufferUse : BufferCall) : Returns Sized (bufferCall execute s bufferUse) := by
  cases bufferUse with
  | addText text => exact (sized_addText h text).bind fun _ added => added
  | insertText text => exact (sized_insertText h text).bind fun _ inserted => inserted
  | executeScoped text =>
    have empty : Sized { s with cmdText := szClear s.cmdText } := by
      obtain ⟨data, hdata, -⟩ := h
      exact ⟨[], by rw [hdata]; rfl, Nat.zero_le _⟩
    simp only [bufferCall]
    refine (sized_addText empty text).bind fun buf added => ?_
    refine (sized_addText added [newline]).bind fun buf added => ?_
    refine (keeps _ added).bind fun after sized => ?_
    split
    · exact sized
    · exact (sized_insertText sized _).bind fun _ inserted => inserted

theorem sized_bufferCalls (keeps : ∀ s, Sized s → Returns Sized (execute s)) (h : Sized s)
    (calls : List BufferCall) : Returns Sized (bufferCalls execute calls s) := by
  induction calls generalizing s with
  | nil => exact h
  | cons bufferUse calls ih => exact (sized_bufferCall keeps h bufferUse).bind fun _ after => ih after

theorem sized_executeLine (keeps : ∀ s, Sized s → Returns Sized (execute s)) (h : Sized s) :
    Returns Sized (executeLine p execute s) := by
  obtain ⟨data, hdata, fits⟩ := h
  have rest : (nextLine data).2.length ≤ commandBufferSize := by
    rw [nextLine, List.length_drop]
    omega
  simp only [executeLine, cmdExecuteString, hdata]
  split
  · exact trivial
  · have taken : ∀ t : State σ, t.cmdText = { commandBuffer data with data := (nextLine data).2 } →
        Sized t := fun t same => ⟨_, same, rest⟩
    cases lookup p s.aliases _ with
    | nothing => exact taken _ rfl
    | other => exact taken _ rfl
    | command function => exact sized_bufferCalls keeps (taken _ rfl) _
    | cmdalias value =>
      simp only [call, callAlias]
      split
      · exact taken _ rfl
      · exact (sized_insertText (taken _ rfl) _).bind fun _ inserted => inserted

theorem sized_executeLoop (fuel : Nat) (h : Sized s) : Returns Sized (executeLoop p fuel s) := by
  induction fuel generalizing s with
  | zero =>
    simp only [executeLoop]
    split
    · exact h
    · exact trivial
  | succ fuel ih =>
    simp only [executeLoop]
    split
    · exact h
    · refine (sized_executeLine (fun t sized => @ih { t with aliasCount := 0 } sized) h).bind fun t sized => ?_
      split
      · exact sized
      · exact ih sized

/-! ## `Cbuf_ExecuteScoped` -/

/-- The text runs in a buffer of its own. -/
theorem executeScoped_eq (execute : State σ → Except Stop (State σ)) (s : State σ)
    (pending text : List UInt8) :
    bufferCall execute { s with cmdText := commandBuffer pending } (.executeScoped text) =
      execute { s with cmdText := commandBuffer (added (added [] text) [newline]) } >>= fun s =>
        if pending.isEmpty then .ok s
        else cbufInsertText s.cmdText pending >>= fun cmdText => .ok { s with cmdText } := by
  change (cbufAddText (commandBuffer []) text >>= fun cmdText =>
    cbufAddText cmdText [newline] >>= fun cmdText => execute { s with cmdText } >>= _) = _
  rw [cbufAddText_added]
  change (cbufAddText (commandBuffer (added [] text)) [newline] >>= _) = _
  rw [cbufAddText_added]
  rfl

/-- Whatever a text runs: all but the buffer comes out as if nothing had been pending, and the
commands that were pending come before those that the text has left. -/
def Isolated (pending : List UInt8) : Prop :=
  ∀ (σ : Type) (p : Program σ) (fuel : Nat) (text : List UInt8) (s after : State σ),
    bufferCall (cbufExecute p fuel) { s with cmdText := commandBuffer pending }
        (.executeScoped text) = .ok after →
      ∃ alone, bufferCall (cbufExecute p fuel) { s with cmdText := commandBuffer [] }
          (.executeScoped text) = .ok alone ∧ after = { alone with cmdText := after.cmdText } ∧
        commands after.cmdText.data = commands pending ++ commands alone.cmdText.data

theorem isolated_of_finished {pending : List UInt8} (ends : finished pending = true)
    (room : pending.length < commandBufferSize ∨ commands pending = []) : Isolated pending := by
  intro σ p fuel text s after h
  rw [executeScoped_eq] at h
  cases run : cbufExecute p fuel
      { s with cmdText := commandBuffer (added (added [] text) [newline]) } with
  | error e =>
    rw [run] at h
    cases h
  | ok alone =>
    have sized : Returns Sized (Except.ok alone : Except Stop (State σ)) := by
      rw [← run]
      refine sized_executeLoop fuel ⟨_, rfl, ?_⟩
      exact length_added (length_added (Nat.zero_le _) text) _
    obtain ⟨data, hdata, fits⟩ := sized
    rw [run] at h
    refine ⟨alone, by rw [executeScoped_eq, run]; rfl, ?_⟩
    change (if pending.isEmpty then Except.ok alone else _) = _ at h
    split at h
    · rename_i none
      obtain rfl := List.isEmpty_iff.mp none
      cases h
      exact ⟨rfl, rfl⟩
    · rw [hdata, cbufInsertText_added fits] at h
      split at h
      · cases h
        refine ⟨rfl, ?_⟩
        rw [hdata]
        change commands (added [] pending ++ data) = commands pending ++ commands data
        rw [added, List.length_nil, Nat.zero_add, List.nil_append]
        split
        · have full : ¬pending.length < commandBufferSize := by omega
          rw [room.resolve_left full]
          rfl
        · exact commands_append ends data
      · cases h

/-- The command "w" leaves a letter in the buffer and waits. -/
private def leavesLetter : Program Unit where
  cvars := fun _ _ => []
  expanded := fun _ => []
  behind := fun _ => []
  tokenized := fun _ _ => ()
  commands := fun name =>
    if name = ascii "w" then
      some fun _ aliases _ =>
        { world := (), aliases, calls := [.insertText [letter]], cmdWait := true }
    else none
  otherwise := fun _ _ => ()

theorem exists_tokens_w : ∃ tokens, lineTokens leavesLetter () (ascii "w") = some tokens ∧
    tokens.argv.argv = [ascii "w"] := by
  have h : (lineTokens leavesLetter () (ascii "w")).map (fun t => t.argv.argv) =
      some [ascii "w"] := by
    decide +kernel
  exact Option.map_eq_some_iff.mp h

private def ready (text : List UInt8) : State Unit where
  cmdText := commandBuffer text
  aliases := fun _ => none
  world := ()

theorem cbufExecute_w : cbufExecute leavesLetter 1 (ready (ascii "w\n")) = .ok (ready [letter]) := by
  obtain ⟨tokens, htokens, hargv⟩ := exists_tokens_w
  have hlookup : lookup leavesLetter (fun _ => none) tokens = .command fun _ aliases _ =>
      { world := (), aliases, calls := [.insertText [letter]], cmdWait := true } := by
    simp only [lookup, hargv, leavesLetter, if_true]
  have line : ∀ execute, executeLine leavesLetter execute (ready (ascii "w\n")) =
      .ok { ready [letter] with cmdWait := true } := by
    intro execute
    have first : nextLine (ready (ascii "w\n")).cmdText.data = (ascii "w", []) := by decide
    have split : lineTokens leavesLetter (ready (ascii "w\n")).world (ascii "w") = some tokens := htokens
    have found : lookup leavesLetter (ready (ascii "w\n")).aliases tokens = .command fun _ aliases _ =>
        { world := (), aliases, calls := [.insertText [letter]], cmdWait := true } := hlookup
    simp only [executeLine, first, cmdExecuteString, split, found]
    rfl
  change (executeLine leavesLetter _ (ready (ascii "w\n")) >>= _) = _
  rw [line]
  rfl

theorem length_added_lt (text : List UInt8) : (added [] text).length < commandBufferSize := by
  rw [added]
  split
  · decide
  · rename_i room
    rw [List.length_nil] at room
    rw [List.nil_append]
    omega

theorem executeScoped_w (pending : List UInt8) :
    bufferCall (cbufExecute leavesLetter 1) { ready [] with cmdText := commandBuffer pending }
      (.executeScoped (ascii "w")) = .ok (ready (added [] pending ++ [letter])) := by
  have fits : (added [] pending ++ [letter]).length ≤ commandBufferSize := by
    have := length_added_lt pending
    rw [List.length_append, List.length_singleton]
    omega
  have text : added (added [] (ascii "w")) [newline] = ascii "w\n" := by decide
  rw [executeScoped_eq, text]
  change (cbufExecute leavesLetter 1 (ready (ascii "w\n")) >>= _) = _
  rw [cbufExecute_w]
  change (if pending.isEmpty then Except.ok (ready [letter]) else
    cbufInsertText (commandBuffer [letter]) pending >>= _) = _
  split
  · rename_i none
    obtain rfl := List.isEmpty_iff.mp none
    rfl
  · rw [cbufInsertText_added (by decide), if_pos fits]
    rfl

theorem letter_behind {pending : List UInt8} (isolated : Isolated pending) :
    commands (added [] pending ++ [letter]) = commands pending ++ [[letter]] := by
  obtain ⟨alone, run, -, same⟩ := isolated Unit leavesLetter 1 (ascii "w") (ready []) _
    (executeScoped_w pending)
  rw [executeScoped_w []] at run
  cases run
  exact same

/-- `Cbuf_ExecuteScoped` keeps the pending commands apart and whole just when they end a line and
do not fill the buffer. -/
theorem isolated_iff (pending : List UInt8) : Isolated pending ↔ finished pending = true ∧
    (pending.length < commandBufferSize ∨ commands pending = []) := by
  constructor
  · intro isolated
    have behind := letter_behind isolated
    by_cases full : pending.length ≥ commandBufferSize
    · rw [added, List.length_nil, Nat.zero_add, if_pos full] at behind
      have none : commands pending = [] := by
        have sizes := congrArg List.length behind
        rw [List.length_append] at sizes
        exact List.eq_nil_of_length_eq_zero (Nat.add_right_cancel (sizes.symm.trans (Nat.zero_add 1).symm))
      exact ⟨finishedFrom_of_nil none (by rintro ⟨⟩), .inr none⟩
    · rw [added, List.length_nil, Nat.zero_add, if_neg full, List.nil_append] at behind
      exact ⟨finishedFrom_of_append behind (by rintro ⟨⟩), .inl (Nat.lt_of_not_le full)⟩
  · rintro ⟨ends, room⟩
    exact isolated_of_finished ends room

/-- A command without its newline goes on with what the text has left. -/
theorem unfinished_not_isolated : ¬∀ pending : List UInt8, pending.length ≤ commandBufferSize →
    Isolated pending := by
  intro h
  have behind := letter_behind (h (ascii "say hi") (by decide))
  exact absurd behind (by decide)

end ScopedCommands
