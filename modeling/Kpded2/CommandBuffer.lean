import Mathlib.Logic.Relation
import Kpded2.CommandTokens
import Kpded2.SizeBuf

/-!
# The command buffer

`Cbuf_Execute` takes one line after the other from the front of `cmd_text`. An alias is
expanded in front of the remaining text; `alias_count` is to stop the loops that can
arise so. What the commands and the memory around the line do is left open: a command
may change everything, and use the buffer itself.
-/
namespace CommandBuffer
open Bytes CommandArgs CommandTokens SizeBuf

inductive Stop where
  /-- The fatal overflow of `SZ_GetSpace`. -/
  | overflow
  | outside
  | unfinished
  deriving DecidableEq

def commandBufferSize : Nat := 65536
def aliasLoopCount : Nat := 16

/-- A use of the buffer by a command. -/
inductive BufferCall where
  | addText (text : List UInt8)
  | insertText (text : List UInt8)
  | executeScoped (text : List UInt8)

variable {σ : Type}

abbrev Aliases := List UInt8 → Option (List UInt8)

structure Effect (σ : Type) where
  world : σ
  aliases : Aliases
  calls : List BufferCall := []
  cmdWait : Bool := false

/-- What the interpreter meets. `behind` is the memory behind the line, `tokenized` what
becomes of the memory when a line is tokenized, and `otherwise` is `Cvar_Command` and
what is done with unknown commands. -/
structure Program (σ : Type) where
  cvars : σ → List UInt8 → List UInt8
  expanded : σ → List UInt8
  behind : σ → List UInt8
  tokenized : σ → List UInt8 → σ
  commands : List UInt8 → Option (σ → Aliases → Tokens → Effect σ)
  otherwise : σ → Tokens → σ

structure State (σ : Type) where
  cmdText : Sizebuf
  aliases : Aliases
  aliasCount : Nat := 0
  cmdWait : Bool := false
  world : σ

/-! ## The buffer -/

def szWriteText (buf : Sizebuf) (text : List UInt8) : Except Stop Sizebuf :=
  match szWrite buf text with
  | some buf => .ok buf
  | none => .error .overflow

def cbufAddText (buf : Sizebuf) (text : List UInt8) : Except Stop Sizebuf :=
  if text.isEmpty then .ok buf
  else if buf.cursize + text.length ≥ buf.maxsize then .ok buf
  else szWriteText buf text

/-- The text that does not fit is left out; the text that was there is written back
without looking. -/
def cbufInsertText (buf : Sizebuf) (text : List UInt8) : Except Stop Sizebuf := do
  let temp := buf.data
  let buf ← cbufAddText (if temp.isEmpty then buf else szClear buf) text
  if temp.isEmpty then .ok buf else szWriteText buf temp

/-- Where the first line ends: at a newline, or at a semicolon outside quotes. -/
def lineEnd (quotes : Bool) : List UInt8 → Nat
  | [] => 0
  | c :: rest =>
    let quotes := quotes ^^ (c == quote)
    if (!quotes && c == semicolon) || c == newline then 0 else lineEnd quotes rest + 1

/-- The line, cut to 1023 characters, and what is left of the text. -/
def nextLine (text : List UInt8) : List UInt8 × List UInt8 :=
  let i := lineEnd false text
  (text.take (min i (maxStringChars - 1)), text.drop (i + 1))

/-! ## Aliases -/

def isArgument (c : UInt8) : Bool := decide ((48 ≤ c ∧ c ≤ 57) ∨ c = 42)

/-- `$0` to `$9`, or `$*`. -/
def argument (tokens : Tokens) (c : UInt8) : List UInt8 :=
  if c = 42 then tokens.args else cmdArgv tokens.argv (c.toNat - 48)

/-- What stands for a dollar sign and what follows it, and the rest. -/
def expansion (tokens : Tokens) : List UInt8 → List UInt8 × List UInt8
  | [] => ([dollar], [])
  | c :: rest => if isArgument c then (argument tokens c, rest) else ([dollar], c :: rest)

theorem expansion_length (tokens : Tokens) (after : List UInt8) :
    (expansion tokens after).2.length ≤ after.length := by
  cases after with
  | nil => exact Nat.le_refl _
  | cons c rest =>
    simp only [expansion]
    split
    · exact Nat.le_succ _
    · exact Nat.le_refl _

theorem length_of_dropWhile {src after : List UInt8} {p : UInt8 → Bool} {c : UInt8}
    (h : src.dropWhile p = c :: after) : after.length < src.length := by
  have hle := (List.dropWhile_suffix (l := src) p).length_le
  rw [h] at hle
  exact hle

/-- `Cmd_Expand_Args`; what does not fit into `dstavail` ends the expansion. -/
def cmdExpandArgs (tokens : Tokens) (src : List UInt8) (dstavail : Nat) : List UInt8 :=
  match h : src.dropWhile (· ≠ dollar) with
  | [] => if dstavail ≤ src.length then [] else src
  | _ :: after =>
    have : (expansion tokens after).2.length < src.length :=
      Nat.lt_of_le_of_lt (expansion_length tokens after) (length_of_dropWhile h)
    let front := src.takeWhile (· ≠ dollar)
    if dstavail ≤ front.length then []
    else
      let dstavail := dstavail - front.length
      let text := (expansion tokens after).1
      if dstavail ≤ text.length then front
      else
        front ++ text ++ cmdExpandArgs tokens (expansion tokens after).2 (dstavail - text.length)
termination_by src.length

/-- What a line calls. -/
inductive Callee (σ : Type) where
  | nothing
  | command (function : σ → Aliases → Tokens → Effect σ)
  | cmdalias (value : List UInt8)
  | other

def lookup (p : Program σ) (aliases : Aliases) (tokens : Tokens) : Callee σ :=
  match tokens.argv.argv with
  | [] => .nothing
  | name :: _ =>
    match p.commands name with
    | some function => .command function
    | none =>
      match aliases name with
      | some value => .cmdalias value
      | none => .other

def lineTokens (p : Program σ) (world : σ) (line : List UInt8) : Option Tokens :=
  cmdTokenizeString (p.cvars world) (p.expanded world) (line ++ 0 :: p.behind world) true

/-! ## Executing -/

/-- `execute` is `Cbuf_Execute`, which empties the buffer. -/
def bufferCall (execute : State σ → Except Stop (State σ)) (s : State σ) :
    BufferCall → Except Stop (State σ)
  | .addText text => do
    let cmdText ← cbufAddText s.cmdText text
    .ok { s with cmdText }
  | .insertText text => do
    let cmdText ← cbufInsertText s.cmdText text
    .ok { s with cmdText }
  | .executeScoped text => do
    let pending := s.cmdText.data
    let cmdText ← cbufAddText (szClear s.cmdText) text
    let cmdText ← cbufAddText cmdText [newline]
    let s ← execute { s with cmdText }
    if pending.isEmpty then .ok s
    else do
      let cmdText ← cbufInsertText s.cmdText pending
      .ok { s with cmdText }

def bufferCalls (execute : State σ → Except Stop (State σ)) :
    List BufferCall → State σ → Except Stop (State σ)
  | [], s => .ok s
  | call :: calls, s => do
    let s ← bufferCall execute s call
    bufferCalls execute calls s

def applyEffect (s : State σ) (effect : Effect σ) : State σ :=
  { s with
    world := effect.world
    aliases := effect.aliases
    cmdWait := s.cmdWait || effect.cmdWait }

def insertAlias (tokens : Tokens) (value : List UInt8) (s : State σ) :
    Except Stop (State σ) := do
  let cmdText ← cbufInsertText s.cmdText (cmdExpandArgs tokens value maxStringChars)
  .ok { s with cmdText }

/-- The guard looks for one value of the counter only. -/
def callAlias (tokens : Tokens) (value : List UInt8) (s : State σ) : Except Stop (State σ) :=
  let s := { s with aliasCount := s.aliasCount + 1 }
  if s.aliasCount = aliasLoopCount then .ok s else insertAlias tokens value s

def call (p : Program σ) (execute : State σ → Except Stop (State σ)) (tokens : Tokens)
    (s : State σ) : Callee σ → Except Stop (State σ)
  | .nothing => .ok s
  | .command function =>
    let effect := function s.world s.aliases tokens
    bufferCalls execute effect.calls (applyEffect s effect)
  | .cmdalias value => callAlias tokens value s
  | .other => .ok { s with world := p.otherwise s.world tokens }

def cmdExecuteString (p : Program σ) (execute : State σ → Except Stop (State σ)) (s : State σ)
    (line : List UInt8) : Except Stop (State σ) :=
  match lineTokens p s.world line with
  | none => .error .outside
  | some tokens =>
    call p execute tokens { s with world := p.tokenized s.world line }
      (lookup p s.aliases tokens)

/-- One pass of the loop of `Cbuf_Execute`. -/
def executeLine (p : Program σ) (execute : State σ → Except Stop (State σ)) (s : State σ) :
    Except Stop (State σ) :=
  let (line, rest) := nextLine s.cmdText.data
  cmdExecuteString p execute { s with cmdText := { s.cmdText with data := rest } } line

def executeLoop (p : Program σ) : Nat → State σ → Except Stop (State σ)
  | 0, s => if s.cmdText.data.isEmpty then .ok s else .error .unfinished
  | fuel + 1, s =>
    if s.cmdText.data.isEmpty then .ok s
    else do
      let s ← executeLine p (fun s => executeLoop p fuel { s with aliasCount := 0 }) s
      if s.cmdWait then .ok { s with cmdWait := false } else executeLoop p fuel s

/-- At most `fuel` lines, those of nested calls counted from the start. -/
def cbufExecute (p : Program σ) (fuel : Nat) (s : State σ) : Except Stop (State σ) :=
  executeLoop p fuel { s with aliasCount := 0 }

/-! ## What one line does -/

/-- `cmd_text` with this in it. -/
def commandBuffer (data : List UInt8) : Sizebuf :=
  { szInit commandBufferSize with data := data }

theorem szWriteText_commandBuffer (data text : List UInt8) :
    szWriteText (commandBuffer data) text =
      if data.length + text.length ≤ commandBufferSize then .ok (commandBuffer (data ++ text))
      else .error .overflow := by
  by_cases hfits : data.length + text.length ≤ commandBufferSize
  · have hwrite : szWrite (commandBuffer data) text = some (commandBuffer (data ++ text)) :=
      szWrite_of_fits hfits
    rw [szWriteText, hwrite, if_pos hfits]
  · have hwrite : szWrite (commandBuffer data) text = none :=
      if_pos (Nat.lt_of_not_le hfits)
    rw [szWriteText, hwrite, if_neg hfits]

theorem cbufInsertText_commandBuffer (data : List UInt8) {text : List UInt8}
    (hshort : text.length < maxStringChars) :
    cbufInsertText (commandBuffer data) text =
      if text.length + data.length ≤ commandBufferSize then .ok (commandBuffer (text ++ data))
      else .error .overflow := by
  have hroom : maxStringChars ≤ commandBufferSize := by decide
  have hclear : (if data.isEmpty then commandBuffer data else szClear (commandBuffer data)) =
      commandBuffer [] := by
    cases data <;> rfl
  have hadd : cbufAddText (commandBuffer []) text = .ok (commandBuffer text) := by
    cases text with
    | nil => rfl
    | cons c rest =>
      have hfits : ¬ (commandBuffer []).cursize + (c :: rest).length ≥
          (commandBuffer []).maxsize := by
        change ¬ 0 + (c :: rest).length ≥ commandBufferSize
        omega
      simp only [cbufAddText, List.isEmpty_cons, Bool.false_eq_true, if_false, if_neg hfits,
        szWriteText_commandBuffer, List.length_nil, List.nil_append]
      rw [if_pos (by omega)]
  change (cbufAddText (if data.isEmpty then commandBuffer data else szClear (commandBuffer data))
    text >>= fun buf => if data.isEmpty then .ok buf else szWriteText buf data) = _
  rw [hclear, hadd]
  change (if data.isEmpty then Except.ok (commandBuffer text)
    else szWriteText (commandBuffer text) data) = _
  cases data with
  | nil =>
    have hfits : text.length + ([] : List UInt8).length ≤ commandBufferSize := by
      rw [List.length_nil]
      omega
    rw [List.isEmpty_nil, if_pos rfl, if_pos hfits, List.append_nil]
  | cons c rest =>
    rw [List.isEmpty_cons, if_neg Bool.false_ne_true, szWriteText_commandBuffer]

theorem cmdExpandArgs_length (tokens : Tokens) (src : List UInt8) {dstavail : Nat}
    (h : 0 < dstavail) : (cmdExpandArgs tokens src dstavail).length < dstavail := by
  induction hsrc : src.length using Nat.strongRecOn generalizing src dstavail with
  | _ n ih =>
    rw [cmdExpandArgs]
    split
    · split
      · exact h
      · omega
    · rename_i after hafter
      have hless := Nat.lt_of_le_of_lt (expansion_length tokens after) (length_of_dropWhile hafter)
      dsimp only
      split
      · exact h
      · split
        · omega
        · have hrest := ih (expansion tokens after).2.length (hsrc ▸ hless)
            (expansion tokens after).2 (show 0 < dstavail -
              (src.takeWhile (· ≠ dollar)).length - (expansion tokens after).1.length by omega) rfl
          simp only [List.length_append]
          omega

/-- At most one expansion of 1023 characters comes for each call before the guard. -/
def measure (s : State σ) : Nat :=
  s.cmdText.data.length + (maxStringChars - 1) * (aliasLoopCount - 1 - s.aliasCount)

/-- What a line may call: a command that leaves the buffer alone, and an alias only as long
as the guard has not fired. -/
def Guarded (tokens : Tokens) (s : State σ) : Callee σ → Prop
  | .command function =>
    (function s.world s.aliases tokens).calls = [] ∧
      (function s.world s.aliases tokens).cmdWait = false
  | .cmdalias _ => s.aliasCount < aliasLoopCount
  | _ => True

/-- The expansion of an alias fits in front of the text. -/
def Fits (tokens : Tokens) (s : State σ) : Callee σ → Prop
  | .cmdalias value => s.aliasCount + 1 < aliasLoopCount →
    (cmdExpandArgs tokens value maxStringChars).length + s.cmdText.data.length ≤ commandBufferSize
  | _ => True

/-- The state in which the first line is called. -/
def atLine (p : Program σ) (s : State σ) : State σ :=
  { s with
    cmdText := { s.cmdText with data := (nextLine s.cmdText.data).2 }
    world := p.tokenized s.world (nextLine s.cmdText.data).1 }

/-- The first line can be tokenized, and what it calls is allowed. -/
def LineCalls (p : Program σ) (allowed : Tokens → State σ → Callee σ → Prop) (s : State σ) :
    Prop :=
  ∃ tokens, lineTokens p s.world (nextLine s.cmdText.data).1 = some tokens ∧
    allowed tokens (atLine p s) (lookup p s.aliases tokens)

/-- The condition on the state before a line. -/
def Meets (p : Program σ) : State σ → Prop :=
  LineCalls p fun tokens s callee => Guarded tokens s callee ∧ Fits tokens s callee

/-- The buffer as it was set up, and nobody waits. -/
structure Ready (s : State σ) : Prop where
  buffer : s.cmdText = commandBuffer s.cmdText.data
  awake : s.cmdWait = false

theorem nextLine_length {text : List UInt8} (h : text ≠ []) :
    (nextLine text).2.length < text.length := by
  have hpos := List.length_pos_of_ne_nil h
  simp only [nextLine, List.length_drop]
  omega

/-- A call that fits succeeds, and leaves no more work than before. -/
theorem call_meets (p : Program σ) (execute : State σ → Except Stop (State σ)) (tokens : Tokens)
    {s : State σ} (hready : Ready s) {callee : Callee σ} (hguarded : Guarded tokens s callee)
    (hfits : Fits tokens s callee) :
    ∃ t, call p execute tokens s callee = .ok t ∧ Ready t ∧ measure t ≤ measure s := by
  cases callee with
  | nothing => exact ⟨s, rfl, hready, Nat.le_refl _⟩
  | other => exact ⟨_, rfl, ⟨hready.buffer, hready.awake⟩, Nat.le_refl _⟩
  | command function =>
    obtain ⟨hcalls, hwait⟩ := hguarded
    refine ⟨applyEffect s (function s.world s.aliases tokens), ?_, ⟨hready.buffer, ?_⟩,
      Nat.le_refl _⟩
    · simp only [call, hcalls, bufferCalls]
    · simp only [applyEffect, hready.awake, hwait, Bool.or_self]
  | cmdalias value =>
    have hcount : s.aliasCount < aliasLoopCount := hguarded
    simp only [call, callAlias]
    by_cases hguard : s.aliasCount + 1 = aliasLoopCount
    · refine ⟨_, if_pos hguard, ⟨hready.buffer, hready.awake⟩, ?_⟩
      simp only [measure, maxStringChars, aliasLoopCount] at hguard ⊢
      omega
    · have hmore : s.aliasCount + 1 < aliasLoopCount := by omega
      have hshort := cmdExpandArgs_length tokens value (show 0 < maxStringChars by decide)
      have hinsert : cbufInsertText s.cmdText (cmdExpandArgs tokens value maxStringChars) =
          .ok (commandBuffer (cmdExpandArgs tokens value maxStringChars ++ s.cmdText.data)) := by
        rw [hready.buffer]
        exact (cbufInsertText_commandBuffer _ hshort).trans (if_pos (hfits hmore))
      rw [if_neg hguard]
      simp only [insertAlias, hinsert]
      refine ⟨_, rfl, ⟨rfl, hready.awake⟩, ?_⟩
      simp only [measure, commandBuffer, List.length_append, maxStringChars, aliasLoopCount]
        at hshort hmore ⊢
      omega

theorem executeLine_meets (p : Program σ) (execute : State σ → Except Stop (State σ))
    {s : State σ} (hready : Ready s) (htext : s.cmdText.data ≠ []) (h : Meets p s) :
    ∃ t, executeLine p execute s = .ok t ∧ Ready t ∧ measure t < measure s := by
  obtain ⟨tokens, htokens, hguarded, hfits⟩ := h
  have hshorter := nextLine_length htext
  have hready' : Ready (atLine p s) := by
    refine ⟨?_, hready.awake⟩
    rw [atLine, hready.buffer]
    rfl
  obtain ⟨t, hcall, ht, hmeasure⟩ := call_meets p execute tokens hready' hguarded hfits
  refine ⟨t, ?_, ht, ?_⟩
  · simp only [executeLine, cmdExecuteString, htokens]
    exact hcall
  · simp only [measure, atLine] at hmeasure ⊢
    omega

/-! ## Runs -/

/-- One pass, with whatever number of lines nested calls need. -/
def Pass (p : Program σ) (s t : State σ) : Prop :=
  s.cmdText.data ≠ [] ∧ ∃ fuel, executeLine p (cbufExecute p fuel) s = .ok t

/-- Every line of a run meets the condition. -/
def AllMeet (p : Program σ) (s : State σ) : Prop :=
  ∀ t, Relation.ReflTransGen (Pass p) s t → t.cmdText.data ≠ [] → Meets p t

theorem allMeet_of_empty (p : Program σ) {s : State σ} (h : s.cmdText.data = []) :
    AllMeet p s := by
  intro t ht htext
  rcases ht.cases_head with rfl | ⟨u, ⟨hs, _⟩, _⟩
  · exact absurd h htext
  · exact absurd h hs

/-- A line that meets the condition, and then the lines after it. -/
theorem allMeet_of_pass (p : Program σ) {s t : State σ} (hmeets : Meets p s)
    (hpass : ∀ execute, executeLine p execute s = .ok t) (h : AllMeet p t) : AllMeet p s := by
  intro u hu htext
  rcases hu.cases_head with rfl | ⟨t', ⟨_, fuel, hline⟩, hu⟩
  · exact hmeets
  · obtain rfl := Except.ok.inj ((hpass _).symm.trans hline)
    exact h u hu htext

/-- While every command meets its condition, the loop ends with an empty buffer. -/
theorem executeLoop_returns (p : Program σ) (fuel : Nat) {s : State σ} (hready : Ready s)
    (hmeet : AllMeet p s) (hfuel : measure s ≤ fuel) :
    ∃ t, executeLoop p fuel s = .ok t ∧ t.cmdText.data = [] := by
  induction fuel generalizing s with
  | zero =>
    have hnil : s.cmdText.data = [] := by
      apply List.eq_nil_of_length_eq_zero
      simp only [measure] at hfuel
      omega
    exact ⟨s, by simp [executeLoop, hnil], hnil⟩
  | succ fuel ih =>
    by_cases hnil : s.cmdText.data = []
    · exact ⟨s, by simp [executeLoop, hnil], hnil⟩
    · obtain ⟨t, hpass, ht, hmeasure⟩ := executeLine_meets p (cbufExecute p fuel) hready hnil
        (hmeet s Relation.ReflTransGen.refl hnil)
      have hmeet' : AllMeet p t := fun u hu =>
        hmeet u (Relation.ReflTransGen.head ⟨hnil, fuel, hpass⟩ hu)
      obtain ⟨u, hrun, hdone⟩ := ih ht hmeet' (by omega)
      refine ⟨u, ?_, hdone⟩
      change executeLine p (fun s => executeLoop p fuel { s with aliasCount := 0 }) s = .ok t
        at hpass
      simp only [executeLoop, List.isEmpty_iff, hnil, if_false, hpass, bind, Except.bind,
        ht.awake, Bool.false_eq_true]
      exact hrun

/-- A buffer that leaves room for fifteen expansions never runs full. -/
theorem allMeet_of_room (p : Program σ) {s : State σ} (hready : Ready s)
    (hroom : measure s ≤ commandBufferSize)
    (hguarded : ∀ t, Relation.ReflTransGen (Pass p) s t → t.cmdText.data ≠ [] →
      LineCalls p Guarded t) : AllMeet p s := by
  have hmeets : ∀ t, Relation.ReflTransGen (Pass p) s t → measure t ≤ commandBufferSize →
      t.cmdText.data ≠ [] → Meets p t := by
    intro t ht hmeasure htext
    obtain ⟨tokens, htokens, hcallee⟩ := hguarded t ht htext
    refine ⟨tokens, htokens, hcallee, ?_⟩
    have hshorter := nextLine_length htext
    cases lookup p t.aliases tokens with
    | cmdalias value =>
      intro hmore
      have hexpansion := cmdExpandArgs_length tokens value (show 0 < maxStringChars by decide)
      simp only [measure, atLine, maxStringChars, aliasLoopCount] at hmeasure hmore hexpansion ⊢
      omega
    | _ => trivial
  have hkeeps : ∀ t, Relation.ReflTransGen (Pass p) s t →
      Ready t ∧ measure t ≤ commandBufferSize := by
    intro t ht
    induction ht with
    | refl => exact ⟨hready, hroom⟩
    | tail hst hpass ih =>
      obtain ⟨htext, fuel, hline⟩ := hpass
      obtain ⟨t', hline', hready', hless⟩ :=
        executeLine_meets p (cbufExecute p fuel) ih.1 htext (hmeets _ hst ih.2 htext)
      obtain rfl := Except.ok.inj (hline'.symm.trans hline)
      exact ⟨hready', by omega⟩
  intro t ht htext
  exact hmeets t ht (hkeeps t ht).2 htext

/-- `Cbuf_Execute` empties the buffer after at most as many lines as it has bytes and 15
expansions can bring, if every line meets the condition. -/
theorem cbufExecute_returns (p : Program σ) (s : State σ)
    (buffer : s.cmdText = commandBuffer s.cmdText.data) (awake : s.cmdWait = false)
    (lines_meet : AllMeet p { s with aliasCount := 0 }) (fuel : Nat)
    (enough : s.cmdText.data.length + (maxStringChars - 1) * (aliasLoopCount - 1) ≤ fuel) :
    ∃ t, cbufExecute p fuel s = .ok t ∧ t.cmdText.data = [] :=
  executeLoop_returns p fuel ⟨buffer, awake⟩ lines_meet enough

theorem plain_of_all {text : List UInt8} (h : text.all (· ≠ dollar) = true) :
    ∀ c ∈ text, c ≠ dollar := by
  intro c hc
  simpa using List.all_eq_true.mp h c hc

/-- No commands and no variables. -/
private def aliasesOnly : Program Unit where
  cvars := fun _ _ => []
  expanded := fun _ => []
  behind := fun _ => []
  tokenized := fun _ _ => ()
  commands := fun _ => none
  otherwise := fun _ _ => ()

/-- The alias "a" with this value. -/
private def aliasState (value : List UInt8) (text : List UInt8) (aliasCount : Nat) : State Unit where
  cmdText := commandBuffer text
  aliases := fun name => if name = ascii "a" then some value else none
  aliasCount := aliasCount
  world := ()

theorem exists_tokens_a : ∃ tokens, lineTokens aliasesOnly () (ascii "a") = some tokens ∧
    tokens.argv.argv = [ascii "a"] := by
  have h : (lineTokens aliasesOnly () (ascii "a")).map (fun t => t.argv.argv) =
      some [ascii "a"] := by
    decide +kernel
  exact Option.map_eq_some_iff.mp h

theorem cmdExpandArgs_plain (tokens : Tokens) {src : List UInt8} {dstavail : Nat}
    (hplain : ∀ c ∈ src, c ≠ dollar) (hshort : src.length < dstavail) :
    cmdExpandArgs tokens src dstavail = src := by
  have hnil : src.dropWhile (· ≠ dollar) = [] := by
    rw [List.dropWhile_eq_nil_iff]
    intro c hc
    simpa using hplain c hc
  rw [cmdExpandArgs]
  split
  · rw [if_neg (by omega)]
  · rename_i hcons
    rw [hnil] at hcons
    cases hcons

/-- A line that is "a". -/
theorem executeLine_a (execute : State Unit → Except Stop (State Unit))
    (value rest : List UInt8) {text : List UInt8} (aliasCount : Nat) (hline : nextLine text = (ascii "a", rest))
    (hplain : ∀ c ∈ value, c ≠ dollar) (hshort : value.length < maxStringChars) :
    executeLine aliasesOnly execute (aliasState value text aliasCount) =
      if aliasCount + 1 = aliasLoopCount then .ok (aliasState value rest (aliasCount + 1))
      else if value.length + rest.length ≤ commandBufferSize then
        .ok (aliasState value (value ++ rest) (aliasCount + 1))
      else .error .overflow := by
  obtain ⟨tokens, htokens, hargv⟩ := exists_tokens_a
  have hlookup : lookup aliasesOnly (aliasState value text aliasCount).aliases tokens =
      .cmdalias value := by
    simp only [lookup, hargv, aliasesOnly, aliasState, if_true]
  have hinsert := cbufInsertText_commandBuffer rest hshort
  have hexecute : executeLine aliasesOnly execute (aliasState value text aliasCount) =
      callAlias tokens value (aliasState value rest aliasCount) := by
    change cmdExecuteString aliasesOnly execute
      { aliasState value text aliasCount with
        cmdText := { commandBuffer text with data := (nextLine text).2 } } (nextLine text).1 = _
    simp only [hline, cmdExecuteString]
    change (match lineTokens aliasesOnly () (ascii "a") with
      | none => _
      | some tokens => _) = _
    rw [htokens]
    change call aliasesOnly execute tokens _ (lookup aliasesOnly
      (aliasState value text aliasCount).aliases tokens) = _
    rw [hlookup]
    rfl
  rw [hexecute]
  by_cases hguard : aliasCount + 1 = aliasLoopCount
  · rw [if_pos hguard]
    exact if_pos hguard
  · rw [if_neg hguard]
    refine (if_neg hguard).trans ?_
    change (cbufInsertText (commandBuffer rest) (cmdExpandArgs tokens value maxStringChars) >>=
      fun cmdText => .ok { aliasState value rest (aliasCount + 1) with cmdText }) = _
    rw [cmdExpandArgs_plain tokens hplain hshort, hinsert]
    split <;> rfl

theorem exists_tokens_empty : ∃ tokens, lineTokens aliasesOnly () [] = some tokens ∧
    tokens.argv.argv = [] := by
  have h : (lineTokens aliasesOnly () []).map (fun t => t.argv.argv) = some [] := by
    decide +kernel
  exact Option.map_eq_some_iff.mp h

/-- The empty alias "a", called once. -/
theorem cbufExecute_returns_example : ∃ t,
    cbufExecute aliasesOnly 15347 (aliasState (ascii "\n") (ascii "a\n") 0) = .ok t ∧
      t.cmdText.data = [] := by
  have hline : nextLine (ascii "a\n") = (ascii "a", []) := rfl
  have hfirst := fun execute => executeLine_a execute (ascii "\n") [] 0 hline (plain_of_all rfl)
    (by decide)
  obtain ⟨blank, hblank, hnothing⟩ := exists_tokens_empty
  have hlookup : ∀ aliases, lookup aliasesOnly aliases blank = .nothing := by
    intro aliases
    simp only [lookup, hnothing]
  have hsecond : ∀ execute, executeLine aliasesOnly execute
      (aliasState (ascii "\n") (ascii "\n") 1) = .ok (aliasState (ascii "\n") [] 1) := by
    intro execute
    change (match lineTokens aliasesOnly () [] with
      | none => _
      | some tokens => call aliasesOnly execute tokens (aliasState (ascii "\n") [] 1)
        (lookup aliasesOnly (aliasState (ascii "\n") [] 1).aliases tokens)) = _
    rw [hblank]
    dsimp only
    rw [hlookup]
    rfl
  refine cbufExecute_returns aliasesOnly (aliasState (ascii "\n") (ascii "a\n") 0) rfl rfl ?_ 15347
    (by decide)
  refine allMeet_of_pass aliasesOnly ?_ hfirst (allMeet_of_pass aliasesOnly ?_ hsecond
    (allMeet_of_empty aliasesOnly rfl))
  · obtain ⟨tokens, htokens, hargv⟩ := exists_tokens_a
    refine ⟨tokens, htokens, ?_⟩
    have hlookup : lookup aliasesOnly (aliasState (ascii "\n") (ascii "a\n") 0).aliases tokens =
        .cmdalias (ascii "\n") := by
      simp only [lookup, hargv, aliasesOnly, aliasState, if_true]
    have hexpand : cmdExpandArgs tokens (ascii "\n") maxStringChars = ascii "\n" :=
      cmdExpandArgs_plain tokens (plain_of_all rfl) (by decide)
    rw [hlookup]
    exact ⟨(by decide : 0 < aliasLoopCount), fun _ => by rw [hexpand]; decide⟩
  · refine ⟨blank, hblank, ?_⟩
    rw [hlookup]
    exact ⟨trivial, trivial⟩

/-! ## An alias that calls itself twice -/

/-- "a;a", with the newline that the alias command puts behind it. -/
private def double : List UInt8 := ascii "a;a\n"

/-- Second halves that wait. -/
private def pending : Nat → List UInt8
  | 0 => []
  | m + 1 => ascii "a\n" ++ pending m

theorem length_pending (m : Nat) : (pending m).length = 2 * m := by
  induction m with
  | zero => rfl
  | succ m ih =>
    simp only [pending, List.length_append, ih]
    change 2 + 2 * m = _
    omega

private abbrev doubled (m aliasCount : Nat) : State Unit :=
  aliasState double (double ++ pending m) aliasCount

def Overflows (s : State Unit) : Prop :=
  ∃ fuel, executeLoop aliasesOnly fuel s = .error .overflow

theorem overflows_of_pass {s t : State Unit} (htext : s.cmdText.data ≠ [])
    (hpass : ∀ execute, executeLine aliasesOnly execute s = .ok t) (hawake : t.cmdWait = false)
    (h : Overflows t) : Overflows s := by
  obtain ⟨fuel, hfuel⟩ := h
  refine ⟨fuel + 1, ?_⟩
  simp only [executeLoop, List.isEmpty_iff, htext, if_false, hpass, bind, Except.bind, hawake,
    Bool.false_eq_true, hfuel]

theorem executeLine_doubled (execute : State Unit → Except Stop (State Unit)) (m aliasCount : Nat) :
    executeLine aliasesOnly execute (doubled m aliasCount) =
      if aliasCount + 1 = aliasLoopCount then
        .ok (aliasState double (pending (m + 1)) (aliasCount + 1))
      else if 4 + 2 * (m + 1) ≤ commandBufferSize then .ok (doubled (m + 1) (aliasCount + 1))
      else .error .overflow := by
  have hline := executeLine_a execute double (pending (m + 1)) aliasCount
    (show nextLine (double ++ pending m) = _ from rfl) (plain_of_all rfl) (by decide)
  rw [length_pending] at hline
  exact hline

/-- Once the guard has fired the text grows by two bytes with every line. -/
theorem overflows_doubled (left m aliasCount : Nat) (hleft : 32766 - m = left)
    (hfired : aliasLoopCount ≤ aliasCount) : Overflows (doubled m aliasCount) := by
  have hguard : aliasCount + 1 ≠ aliasLoopCount := by omega
  induction left generalizing m aliasCount with
  | zero =>
    refine ⟨1, ?_⟩
    have hpass := executeLine_doubled
      (fun s => executeLoop aliasesOnly 0 { s with aliasCount := 0 }) m aliasCount
    rw [if_neg hguard, if_neg (by simp only [commandBufferSize]; omega)] at hpass
    have htext : ¬ (doubled m aliasCount).cmdText.data.isEmpty = true := Bool.false_ne_true
    rw [executeLoop, if_neg htext, hpass]
    rfl
  | succ left ih =>
    apply overflows_of_pass (t := doubled (m + 1) (aliasCount + 1))
    · exact List.cons_ne_nil _ _
    · intro execute
      rw [executeLine_doubled, if_neg hguard, if_pos (by simp only [commandBufferSize]; omega)]
    · rfl
    · exact ih (m + 1) (aliasCount + 1) (by omega) (by omega) (by omega)

/-- The calls before the guard fires. -/
theorem overflows_before (left m : Nat) (hleft : m + left = 14) : Overflows (doubled m (m + 1)) := by
  induction left generalizing m with
  | zero =>
    obtain rfl : m = 14 := hleft
    apply overflows_of_pass (t := aliasState double (pending 15) 16)
    · exact List.cons_ne_nil _ _
    · intro execute
      exact executeLine_doubled execute 14 15
    · rfl
    · apply overflows_of_pass (t := doubled 14 17)
      · exact List.cons_ne_nil _ _
      · intro execute
        have hline := executeLine_a execute double (pending 14) 16
          (show nextLine (pending 15) = _ from rfl) (plain_of_all rfl) (by decide)
        rw [length_pending] at hline
        exact hline
      · rfl
      · exact overflows_doubled _ 14 17 rfl (by decide)
  | succ left ih =>
    apply overflows_of_pass (t := doubled (m + 1) (m + 1 + 1))
    · exact List.cons_ne_nil _ _
    · intro execute
      rw [executeLine_doubled, if_neg (by simp only [aliasLoopCount]; omega),
        if_pos (by simp only [commandBufferSize]; omega)]
    · rfl
    · exact ih (m + 1) (by omega)

/-- The alias "a" for "a;a" fills the buffer. -/
theorem double_overflows : ∃ fuel,
    cbufExecute aliasesOnly fuel (aliasState double (ascii "a\n") 0) = .error .overflow := by
  change Overflows (aliasState double (ascii "a\n") 0)
  apply overflows_of_pass (t := doubled 0 1)
  · exact List.cons_ne_nil _ _
  · intro execute
    exact executeLine_a execute double [] 0
      (show nextLine (ascii "a\n") = _ from rfl) (plain_of_all rfl) (by decide)
  · rfl
  · exact overflows_before 14 0 rfl

end CommandBuffer
