import Kpded2.CommandArgs

/-!
# Remote console: `SVC_RemoteCommand`

The privilege level is kept in the local variable `i`, which is 1 for the full
password and 2 for the limited one, and the same variable is the loop counter of
the branch that rebuilds an ordinary command line. The model passes that
variable on exactly as the source does, so the test `i == 2` in front of the
limited-rcon checks reads whatever the loop left in it.
-/
namespace Rcon
open Bytes CommandArgs

structure RateLimit where
  period : Int
  time : Int
  count : Int

def rateLimited (curtime : Int) (limit : RateLimit) (maxCount : Int) : RateLimit × Bool :=
  let diff := curtime - limit.time
  if diff > limit.period ∨ diff < 0 then ({ limit with time := curtime, count := 0 }, false)
  else (limit, decide (limit.count ≥ maxCount))

def rateSample (curtime : Int) (limit : RateLimit) : RateLimit :=
  let diff := curtime - limit.time
  if diff > limit.period ∨ diff < 0 then { limit with time := curtime, count := 1 }
  else { limit with count := limit.count + 1 }

structure Server where
  rconPassword : List UInt8
  lrconPassword : List UInt8
  lrconcmds : List (List UInt8)
  rconRatelimit : Int
  ratelimitBadrcon : RateLimit
  curtime : Int

/-- The raw text after the command name (`Cmd_Args`) of one `addlrconcmd` line,
with the number of its tokens. -/
structure CommandLine where
  argc : Nat
  args : List UInt8

def stripQuotes (s : List UInt8) : List UInt8 :=
  if s.head? = some quote ∧ s.getLast? = some quote then s.dropLast.tail else s

def svAddLrconCmd (lrconcmds : List (List UInt8)) (cmd : CommandLine) : List (List UInt8) :=
  if cmd.argc < 2 then lrconcmds else lrconcmds ++ [stripQuotes cmd.args]

def rconValidate (sv : Server) (argv : TokenList) : Nat :=
  if sv.rconPassword ≠ [] ∧ cmdArgv argv 1 = sv.rconPassword then 1
  else if sv.lrconPassword ≠ [] ∧ cmdArgv argv 1 = sv.lrconPassword then 2
  else 0

/-- `sizeof(remaining)`. -/
def remainingSize : Nat := 2048

/-- The `strcat` loop over the value arguments of a `set` command. -/
def catArgs : List (List UInt8) → List UInt8
  | [] => []
  | [arg] => arg
  | arg :: rest => arg ++ space :: catArgs rest

/-- `set <name> "<value>"`, with the serverinfo flag at the end if it was there. -/
def setLine (name value : List UInt8) (serverinfo : Bool) : List UInt8 :=
  ascii "set " ++ name ++ ascii " \"" ++ value ++ ascii "\"" ++
    (if serverinfo then ascii " s" else [])

/-- One argument as the ordinary branch prints it: quotes are put back around an
argument with a space in it. -/
def quoteToken (arg : List UInt8) : List UInt8 :=
  if space ∈ arg then quote :: arg ++ [quote, space] else arg ++ [space]

/-- The ordinary branch. It returns the loop counter together with the text, and
stops early when the buffer is full. -/
def quoteLoop : List (List UInt8) → Nat → List UInt8 → Nat × List UInt8
  | [], i, remaining => (i, remaining)
  | arg :: rest, i, remaining =>
    let remaining := remaining ++ comSprintf (remainingSize - remaining.length) (quoteToken arg)
    if remaining.length = remainingSize - 1 then (i, remaining)
    else quoteLoop rest (i + 1) remaining

/-- Both reconstructions, with the value of `i` each leaves behind. -/
def rebuildLine (argv : TokenList) (i : Nat) : Nat × List UInt8 :=
  if sameIgnoringCase (cmdArgv argv 2) (ascii "set") then
    let serverinfo := sameIgnoringCase (cmdArgv argv (cmdArgc argv - 1)) (ascii "s")
    let params := if serverinfo then cmdArgc argv - 1 else cmdArgc argv
    let setvar := catArgs ((argv.argv.take params).drop 4)
    (i, comSprintf remainingSize (setLine (cmdArgv argv 3) setvar serverinfo))
  else quoteLoop (argv.argv.drop 2) 2 []

inductive Reply where
  | badPassword
  | lengthExceeded
  | multipleCommands
  | variableExpansion
  | notAllowed (line : List UInt8)
  deriving DecidableEq

/-- The limited-rcon checks; `none` means that the line may be executed. -/
def lrconRefusal (lrconcmds : List (List UInt8)) (line : List UInt8) : Option Reply :=
  if semicolon ∈ line then some .multipleCommands
  else if dollar ∈ line then some .variableExpansion
  else if lrconcmds.any fun name => name.isPrefixOf line then none
  else some (.notAllowed line)

/-- What one request did: the line handed to `Cmd_ExecuteString`, whether the
limited-rcon checks were run on it, and the replies printed. -/
structure Outcome where
  ratelimitBadrcon : RateLimit
  handed : Option (List UInt8) := none
  limited : Bool := false
  replies : List Reply := []

def svcRemoteCommand (sv : Server) (argv : TokenList) : Outcome :=
  let (limit, drop) :=
    if sv.rconRatelimit ≠ 0 then rateLimited sv.curtime sv.ratelimitBadrcon sv.rconRatelimit
    else (sv.ratelimitBadrcon, false)
  if drop then { ratelimitBadrcon := limit }
  else if rconValidate sv argv = 0 then
    { ratelimitBadrcon := rateSample sv.curtime limit, replies := [.badPassword] }
  else
    let (i, remaining) := rebuildLine argv (rconValidate sv argv)
    let tooLong := remaining.length = remainingSize - 1
    let line := if tooLong then [] else remaining
    let replies := if tooLong then [.lengthExceeded] else []
    if i = 2 then
      match lrconRefusal sv.lrconcmds line with
      | some reply =>
        { ratelimitBadrcon := limit, limited := true, replies := replies ++ [reply] }
      | none =>
        { ratelimitBadrcon := limit, handed := some line, limited := true, replies := replies }
    else { ratelimitBadrcon := limit, handed := some line, replies := replies }

/-- The packet is discarded unread because of earlier bad passwords. -/
def rateDropped (sv : Server) : Bool :=
  sv.rconRatelimit ≠ 0 &&
    (rateLimited sv.curtime sv.ratelimitBadrcon sv.rconRatelimit).2

/-! ## The line a request stands for -/

def isSet : List (List UInt8) → Bool
  | [] => false
  | cmd :: _ => sameIgnoringCase cmd (ascii "set")

/-- The trailing `s` of a `set` request. -/
def serverinfoFlag (args : List (List UInt8)) : Bool :=
  sameIgnoringCase (args.getLast?.getD []) (ascii "s")

/-- The command line that the arguments after the password describe. -/
def reconstruct (args : List (List UInt8)) : List UInt8 :=
  if isSet args then
    let values := if serverinfoFlag args then args.dropLast else args
    setLine ((args[1]?).getD []) (catArgs (values.drop 2)) (serverinfoFlag args)
  else args.flatMap quoteToken

def Fits (args : List (List UInt8)) : Prop := (reconstruct args).length < remainingSize - 1

instance (args : List (List UInt8)) : Decidable (Fits args) :=
  inferInstanceAs (Decidable (_ < _))

/-- What a limited administrator may have executed. -/
def Permitted (lrconcmds : List (List UInt8)) (line : List UInt8) : Prop :=
  semicolon ∉ line ∧ dollar ∉ line ∧ ∃ name ∈ lrconcmds, name <+: line

instance (lrconcmds : List (List UInt8)) (line : List UInt8) :
    Decidable (Permitted lrconcmds line) :=
  inferInstanceAs (Decidable (_ ∧ _ ∧ _))

/-- The line that really runs: `Cmd_ExecuteString` returns at once on an empty
one, which is what an over-long request is turned into. -/
def executed (out : Outcome) : Option (List UInt8) := out.handed.filter (· ≠ [])

/-- The access policy of the remote console for one request. -/
structure Policy (sv : Server) (argv : TokenList) : Prop where
  limited : rconValidate sv argv = 2 →
    ∀ line, executed (svcRemoteCommand sv argv) = some line → Permitted sv.lrconcmds line
  full : rconValidate sv argv = 1 → (svcRemoteCommand sv argv).limited = false
  rejected : rconValidate sv argv = 0 → executed (svcRemoteCommand sv argv) = none
  faithful : ∀ line, executed (svcRemoteCommand sv argv) = some line →
    Fits (argv.argv.drop 2) ∧ line = reconstruct (argv.argv.drop 2)

/-! ## The two reconstructions -/

theorem drop_two_eq_nil_or_cons (argv : TokenList) :
    argv.argv.drop 2 = [] ∧ cmdArgv argv 2 = [] ∨
      argv.argv.drop 2 = cmdArgv argv 2 :: argv.argv.drop 3 := by
  by_cases h : 2 < argv.argv.length
  · right
    rw [List.drop_eq_getElem_cons h, cmdArgv, List.getElem?_eq_getElem h]
    rfl
  · left
    have hlen : argv.argv.length ≤ 2 := by omega
    exact ⟨List.drop_eq_nil_of_le hlen, cmdArgv_of_argc_le hlen⟩

theorem isSet_drop_two (argv : TokenList) :
    isSet (argv.argv.drop 2) = sameIgnoringCase (cmdArgv argv 2) (ascii "set") := by
  rcases drop_two_eq_nil_or_cons argv with ⟨hnil, harg⟩ | hcons
  · rw [hnil, harg]
    decide
  · rw [hcons]
    rfl

theorem serverinfoFlag_drop_two {argv : TokenList} (h : isSet (argv.argv.drop 2) = true) :
    sameIgnoringCase (cmdArgv argv (cmdArgc argv - 1)) (ascii "s") =
      serverinfoFlag (argv.argv.drop 2) := by
  have hne : argv.argv.drop 2 ≠ [] := by
    intro hnil
    rw [hnil] at h
    cases h
  have hlen : 2 < argv.argv.length := by
    by_contra hle
    exact hne (List.drop_eq_nil_of_le (by omega))
  have hlast : (argv.argv.drop 2).getLast? = argv.argv[argv.argv.length - 1]? := by
    rw [List.getLast?_drop, if_neg (by omega), List.getLast?_eq_getElem?]
  rw [serverinfoFlag, hlast]
  rfl

theorem rebuildLine_set {argv : TokenList} (i : Nat)
    (h : isSet (argv.argv.drop 2) = true) :
    rebuildLine argv i = (i, comSprintf remainingSize (reconstruct (argv.argv.drop 2))) := by
  have hcmd := (isSet_drop_two argv).symm.trans h
  have hname : cmdArgv argv 3 = ((argv.argv.drop 2)[1]?).getD [] := by
    rw [List.getElem?_drop]
    rfl
  simp only [rebuildLine, if_pos hcmd, reconstruct, if_pos h, serverinfoFlag_drop_two h, hname]
  cases hflag : serverinfoFlag (argv.argv.drop 2) with
  | false =>
    have htake : argv.argv.take (cmdArgc argv) = argv.argv := List.take_length
    simp [htake]
  | true =>
    have hdrop : (argv.argv.drop 2).dropLast.drop 2 =
        (argv.argv.take (cmdArgc argv - 1)).drop 4 := by
      rw [List.dropLast_eq_take, List.length_drop, List.take_drop, List.drop_drop]
      by_cases hlen : 3 ≤ argv.argv.length
      · congr 2
        simp only [cmdArgc]
        omega
      · rw [List.drop_eq_nil_of_le, List.drop_eq_nil_of_le]
        · rw [List.length_take]
          omega
        · rw [List.length_take]
          omega
    simp [hdrop]

theorem quoteLoop_of_fits (args : List (List UInt8)) (i : Nat) (acc : List UInt8)
    (h : (acc ++ args.flatMap quoteToken).length < remainingSize - 1) :
    quoteLoop args i acc = (i + args.length, acc ++ args.flatMap quoteToken) := by
  induction args generalizing i acc with
  | nil => simp [quoteLoop]
  | cons arg rest ih =>
    simp only [List.flatMap_cons, List.length_append] at h
    have hone : comSprintf (remainingSize - acc.length) (quoteToken arg) = quoteToken arg :=
      comSprintf_of_fits (by omega)
    have hmore : (acc ++ quoteToken arg).length ≠ remainingSize - 1 := by
      rw [List.length_append]
      omega
    have htail := ih (i + 1) (acc ++ quoteToken arg) (by
      simp only [List.length_append]
      omega)
    simp only [quoteLoop, hone, if_neg hmore, htail, List.flatMap_cons, List.length_cons,
      List.append_assoc, Prod.mk.injEq, and_true]
    omega

/-- A line that is too long is cut at the end of the buffer. -/
theorem quoteLoop_of_overflow (args : List (List UInt8)) (i : Nat) (acc : List UInt8)
    (hacc : acc.length < remainingSize - 1)
    (h : remainingSize - 1 ≤ (acc ++ args.flatMap quoteToken).length) :
    (quoteLoop args i acc).2.length = remainingSize - 1 := by
  induction args generalizing i acc with
  | nil =>
    simp only [List.flatMap_nil, List.append_nil] at h
    omega
  | cons arg rest ih =>
    simp only [quoteLoop]
    split
    · assumption
    · rename_i hmore
      simp only [List.flatMap_cons, List.length_append] at h hmore
      have hone : comSprintf (remainingSize - acc.length) (quoteToken arg) = quoteToken arg := by
        apply comSprintf_of_fits
        by_contra hbig
        rw [comSprintf_length_of_overflow (by omega)] at hmore
        omega
      have hlt := comSprintf_length_lt (quoteToken arg)
        (show 0 < remainingSize - acc.length by omega)
      rw [hone] at hmore hlt ⊢
      apply ih
      · rw [List.length_append]
        omega
      · simp only [List.length_append]
        omega

theorem quoteLoop_index_le (args : List (List UInt8)) (i : Nat) (acc : List UInt8) :
    i ≤ (quoteLoop args i acc).1 := by
  induction args generalizing i acc with
  | nil => exact Nat.le_refl i
  | cons arg rest ih =>
    simp only [quoteLoop]
    split
    · exact Nat.le_refl i
    · exact Nat.le_trans (Nat.le_succ i) (ih _ _)

theorem quoteToken_length_le (arg : List UInt8) : (quoteToken arg).length ≤ arg.length + 3 := by
  unfold quoteToken
  split <;> simp

theorem quoteToken_ne_nil (arg : List UInt8) : quoteToken arg ≠ [] := by
  unfold quoteToken
  split <;> simp

/-- A first argument that is a token always fits, so the counter moves past 2. -/
theorem quoteLoop_index_of_cons {arg : List UInt8} (rest : List (List UInt8))
    (h : arg.length < maxTokenChars) : 3 ≤ (quoteLoop (arg :: rest) 2 []).1 := by
  have hlen := quoteToken_length_le arg
  have hsize : remainingSize = 2048 ∧ maxTokenChars = 512 := ⟨rfl, rfl⟩
  have hone : comSprintf (remainingSize - 0) (quoteToken arg) = quoteToken arg :=
    comSprintf_of_fits (by omega)
  simp only [quoteLoop, List.length_nil, hone, List.nil_append]
  rw [if_neg (by omega)]
  exact quoteLoop_index_le rest 3 _

/-- The text left in `remaining` is the reconstruction, or fills the buffer. -/
theorem rebuildLine_text (argv : TokenList) (i : Nat) :
    (Fits (argv.argv.drop 2) → (rebuildLine argv i).2 = reconstruct (argv.argv.drop 2)) ∧
    ((rebuildLine argv i).2.length = remainingSize - 1 ↔ ¬ Fits (argv.argv.drop 2)) := by
  have hsize : remainingSize = 2048 := rfl
  suffices h : (Fits (argv.argv.drop 2) →
      (rebuildLine argv i).2 = reconstruct (argv.argv.drop 2)) ∧
      (¬ Fits (argv.argv.drop 2) → (rebuildLine argv i).2.length = remainingSize - 1) by
    refine ⟨h.1, ?_, h.2⟩
    intro hlen hfits
    rw [h.1 hfits] at hlen
    exact Nat.ne_of_lt hfits hlen
  by_cases hset : isSet (argv.argv.drop 2) = true
  · rw [rebuildLine_set i hset]
    constructor
    · intro hfits
      exact comSprintf_of_fits (Nat.lt_of_lt_of_le hfits (by omega))
    · intro hfits
      by_cases hone : (reconstruct (argv.argv.drop 2)).length < remainingSize
      · simp only [comSprintf_of_fits hone]
        simp only [Fits] at hfits
        omega
      · exact comSprintf_length_of_overflow (by omega)
  · have hcmd : ¬ sameIgnoringCase (cmdArgv argv 2) (ascii "set") = true := by
      rwa [← isSet_drop_two argv]
    have hline : reconstruct (argv.argv.drop 2) = (argv.argv.drop 2).flatMap quoteToken := by
      rw [reconstruct, if_neg hset]
    rw [rebuildLine, if_neg hcmd]
    constructor
    · intro hfits
      rw [Fits, hline] at hfits
      rw [quoteLoop_of_fits _ _ _ (by simpa using hfits), hline]
      rfl
    · intro hfits
      rw [Fits, hline] at hfits
      exact quoteLoop_of_overflow _ _ _ (by simp [hsize]) (by simpa using hfits)

/-- What the privilege variable holds when the limited-rcon test reads it. -/
theorem rebuildLine_level (argv : TokenList) (i : Nat) :
    (rebuildLine argv i).1 = 2 ↔
      (isSet (argv.argv.drop 2) = true ∧ i = 2) ∨ argv.argv.drop 2 = [] := by
  rcases drop_two_eq_nil_or_cons argv with ⟨hnil, harg⟩ | hcons
  · have hcmd : ¬ sameIgnoringCase (cmdArgv argv 2) (ascii "set") = true := by
      rw [harg]
      decide
    rw [rebuildLine, if_neg hcmd, hnil]
    simp [quoteLoop]
  · by_cases hset : isSet (argv.argv.drop 2) = true
    · rw [rebuildLine_set i hset]
      simp only [hset, true_and]
      constructor
      · exact Or.inl
      · intro h
        rcases h with h | h
        · exact h
        · rw [h] at hset
          cases hset
    · have hcmd : ¬ sameIgnoringCase (cmdArgv argv 2) (ascii "set") = true := by
        rwa [← isSet_drop_two argv]
      have hmem : cmdArgv argv 2 ∈ argv.argv := by
        apply List.mem_of_mem_drop (i := 2)
        rw [hcons]
        exact List.mem_cons_self
      have hthree := quoteLoop_index_of_cons (argv.argv.drop 3) (argv.short _ hmem)
      rw [rebuildLine, if_neg hcmd, hcons]
      constructor
      · intro h
        omega
      · intro h
        rw [hcons] at hset
        rcases h with ⟨h, _⟩ | h
        · exact absurd h hset
        · cases h

theorem lrconRefusal_eq_none_iff (lrconcmds : List (List UInt8)) (line : List UInt8) :
    lrconRefusal lrconcmds line = none ↔ Permitted lrconcmds line := by
  unfold lrconRefusal Permitted
  by_cases hsemi : semicolon ∈ line
  · simp [hsemi]
  · by_cases hdollar : dollar ∈ line
    · simp [hsemi, hdollar]
    · simp [hsemi, hdollar]

/-- The line as the length check leaves it. -/
def keptLine (args : List (List UInt8)) : List UInt8 :=
  if Fits args then reconstruct args else []

/-- The limited-rcon block is entered with this privilege. -/
def Limited (args : List (List UInt8)) (level : Nat) : Prop :=
  (isSet args = true ∧ level = 2) ∨ args = []

instance (args : List (List UInt8)) (level : Nat) : Decidable (Limited args level) :=
  inferInstanceAs (Decidable (_ ∨ _))

theorem keptLine_eq (argv : TokenList) (i : Nat) :
    (if (rebuildLine argv i).2.length = remainingSize - 1 then []
      else (rebuildLine argv i).2) = keptLine (argv.argv.drop 2) := by
  obtain ⟨htext, hfull⟩ := rebuildLine_text argv i
  by_cases hfits : Fits (argv.argv.drop 2)
  · rw [if_neg (by rw [hfull]; exact not_not_intro hfits), keptLine, if_pos hfits, htext hfits]
  · rw [if_pos (hfull.mpr hfits), keptLine, if_neg hfits]

theorem executed_of_dropped {sv : Server} {argv : TokenList} (h : rateDropped sv = true) :
    (svcRemoteCommand sv argv).handed = none ∧ (svcRemoteCommand sv argv).limited = false := by
  simp only [rateDropped, Bool.and_eq_true, decide_eq_true_eq] at h
  simp [svcRemoteCommand, h.1, h.2]

theorem executed_of_rejected {sv : Server} {argv : TokenList} (h : rconValidate sv argv = 0) :
    (svcRemoteCommand sv argv).handed = none ∧ (svcRemoteCommand sv argv).limited = false := by
  cases hd : rateDropped sv with
  | true => exact executed_of_dropped hd
  | false =>
    unfold svcRemoteCommand
    by_cases hr : sv.rconRatelimit = 0
    · simp [hr, h]
    · simp_all [rateDropped]

/-- An accepted request, in terms of the arguments after the password. -/
theorem outcome_of_accepted {sv : Server} {argv : TokenList} (hd : rateDropped sv = false)
    (h : rconValidate sv argv ≠ 0) :
    ((svcRemoteCommand sv argv).limited = true ↔
      Limited (argv.argv.drop 2) (rconValidate sv argv)) ∧
    (svcRemoteCommand sv argv).handed =
      if Limited (argv.argv.drop 2) (rconValidate sv argv) ∧
        ¬ Permitted sv.lrconcmds (keptLine (argv.argv.drop 2)) then none
      else some (keptLine (argv.argv.drop 2)) := by
  have hdrop : (if sv.rconRatelimit ≠ 0 then
      rateLimited sv.curtime sv.ratelimitBadrcon sv.rconRatelimit
      else (sv.ratelimitBadrcon, false)).2 = false := by
    by_cases hr : sv.rconRatelimit = 0
    · simp [hr]
    · simp_all [rateDropped]
  have hlevel := rebuildLine_level argv (rconValidate sv argv)
  have hline := keptLine_eq argv (rconValidate sv argv)
  unfold svcRemoteCommand
  simp only [hdrop, h, if_false, Bool.false_eq_true, hline]
  by_cases hl : Limited (argv.argv.drop 2) (rconValidate sv argv)
  · have htwo := hlevel.mpr hl
    rw [if_pos htwo]
    cases href : lrconRefusal sv.lrconcmds (keptLine (argv.argv.drop 2)) with
    | none =>
      have hp := (lrconRefusal_eq_none_iff _ _).mp href
      simp [hl, hp]
    | some reply =>
      have hp : ¬ Permitted sv.lrconcmds (keptLine (argv.argv.drop 2)) := by
        rw [← lrconRefusal_eq_none_iff, href]
        simp
      simp [hl, hp]
  · have htwo : ¬ (rebuildLine argv (rconValidate sv argv)).1 = 2 := fun h => hl (hlevel.mp h)
    rw [if_neg htwo]
    simp [hl]

/-! ## The access policy -/

/-- The requests on which the level survives until it is tested, or on which
losing it changes nothing. -/
def LevelKept (sv : Server) (args : List (List UInt8)) (level : Nat) : Prop :=
  rateDropped sv = true ∨ level = 0 ∨ isSet args = true ∨ (level = 1 ∧ args ≠ []) ∨
    (level = 2 ∧ (args = [] ∨ ¬ Fits args ∨ Permitted sv.lrconcmds (reconstruct args)))

/-- The server with the limited commands that a run of `addlrconcmd` lines sets up. -/
def withLrconCmds (sv : Server) (adds : List CommandLine) : Server :=
  { sv with lrconcmds := adds.foldl svAddLrconCmd [] }

theorem rconValidate_cases (sv : Server) (argv : TokenList) :
    rconValidate sv argv = 0 ∨ rconValidate sv argv = 1 ∨ rconValidate sv argv = 2 := by
  unfold rconValidate
  split
  · simp
  · split <;> simp

theorem reconstruct_ne_nil {args : List (List UInt8)} (h : args ≠ []) :
    reconstruct args ≠ [] := by
  unfold reconstruct
  split
  · simp [setLine, ascii]
  · cases args with
    | nil => exact absurd rfl h
    | cons arg rest => simp [quoteToken_ne_nil]

theorem policy_of_nothing_handed {sv : Server} {argv : TokenList}
    (h : (svcRemoteCommand sv argv).handed = none ∧ (svcRemoteCommand sv argv).limited = false) :
    Policy sv argv := by
  have hex : executed (svcRemoteCommand sv argv) = none := by
    rw [executed, h.1]
    rfl
  refine ⟨?_, fun _ => h.2, fun _ => hex, ?_⟩
  · intro _ line hline
    rw [hex] at hline
    cases hline
  · intro line hline
    rw [hex] at hline
    cases hline

theorem keptLine_of_ne_nil {args : List (List UInt8)} (h : keptLine args ≠ []) :
    Fits args ∧ keptLine args = reconstruct args := by
  by_cases hfits : Fits args
  · exact ⟨hfits, if_pos hfits⟩
  · exact absurd (if_neg hfits) h

/-- Whatever is executed is the reconstruction of all the arguments. -/
theorem executed_faithful {sv : Server} {argv : TokenList} {line : List UInt8}
    (hd : rateDropped sv = false) (hlevel : rconValidate sv argv ≠ 0)
    (h : executed (svcRemoteCommand sv argv) = some line) :
    Fits (argv.argv.drop 2) ∧ line = reconstruct (argv.argv.drop 2) ∧
      (Limited (argv.argv.drop 2) (rconValidate sv argv) → Permitted sv.lrconcmds line) := by
  rw [executed, (outcome_of_accepted hd hlevel).2] at h
  split at h
  · cases h
  · rename_i hpass
    obtain ⟨hsome, hne⟩ := Option.filter_eq_some_iff.mp h
    have hline : keptLine (argv.argv.drop 2) = line := Option.some.inj hsome
    have hne' : keptLine (argv.argv.drop 2) ≠ [] := by
      rw [hline]
      simpa using hne
    obtain ⟨hfits, hkept⟩ := keptLine_of_ne_nil hne'
    refine ⟨hfits, hline.symm.trans hkept, ?_⟩
    intro hl
    by_contra hp
    exact hpass ⟨hl, by rwa [hline]⟩

/-- The remote console keeps its access policy on a request exactly when the
privilege level is not lost to the loop counter before it is tested. -/
theorem policy_iff (sv : Server) (adds : List CommandLine) (argv : TokenList) :
    Policy (withLrconCmds sv adds) argv ↔
      LevelKept (withLrconCmds sv adds) (argv.argv.drop 2)
        (rconValidate (withLrconCmds sv adds) argv) := by
  generalize withLrconCmds sv adds = sv
  cases hd : rateDropped sv with
  | true => exact ⟨fun _ => Or.inl hd, fun _ => policy_of_nothing_handed (executed_of_dropped hd)⟩
  | false =>
    rcases rconValidate_cases sv argv with hzero | hone | htwo
    · exact ⟨fun _ => Or.inr (Or.inl hzero),
        fun _ => policy_of_nothing_handed (executed_of_rejected hzero)⟩
    · have hne : rconValidate sv argv ≠ 0 := by omega
      have hlim := (outcome_of_accepted hd hne).1
      constructor
      · intro hp
        by_cases hset : isSet (argv.argv.drop 2) = true
        · exact Or.inr (Or.inr (Or.inl hset))
        · refine Or.inr (Or.inr (Or.inr (Or.inl ⟨hone, ?_⟩)))
          intro hnil
          have htrue := hlim.mpr (Or.inr hnil)
          rw [hp.full hone] at htrue
          cases htrue
      · intro hk
        have hnot : ¬ Limited (argv.argv.drop 2) (rconValidate sv argv) := by
          rintro (⟨_, h⟩ | hnil)
          · omega
          · rcases hk with h | h | h | h | h
            · rw [hd] at h
              cases h
            · omega
            · rw [hnil] at h
              cases h
            · exact h.2 hnil
            · omega
        refine ⟨fun h => by omega, fun _ => ?_, fun h => by omega, ?_⟩
        · cases hl : (svcRemoteCommand sv argv).limited with
          | false => rfl
          | true => exact absurd (hlim.mp hl) hnot
        · intro line hline
          obtain ⟨hfits, heq, _⟩ := executed_faithful hd hne hline
          exact ⟨hfits, heq⟩
    · have hne : rconValidate sv argv ≠ 0 := by omega
      obtain ⟨hlim, hhanded⟩ := outcome_of_accepted hd hne
      constructor
      · intro hp
        by_cases hset : isSet (argv.argv.drop 2) = true
        · exact Or.inr (Or.inr (Or.inl hset))
        · refine Or.inr (Or.inr (Or.inr (Or.inr ⟨htwo, ?_⟩)))
          by_contra hcon
          simp only [not_or, not_not] at hcon
          obtain ⟨hargs, hfits, hperm⟩ := hcon
          have hnot : ¬ Limited (argv.argv.drop 2) (rconValidate sv argv) := by
            rintro (⟨h, _⟩ | h)
            · exact hset h
            · exact hargs h
          have hkept : keptLine (argv.argv.drop 2) = reconstruct (argv.argv.drop 2) :=
            if_pos hfits
          rw [if_neg (fun h => hnot h.1), hkept] at hhanded
          apply hperm
          apply hp.limited htwo
          rw [executed, hhanded]
          simp [Option.filter, reconstruct_ne_nil hargs]
      · intro hk
        refine ⟨?_, fun h => by omega, fun h => by omega, ?_⟩
        · intro _ line hline
          obtain ⟨hfits, heq, hperm⟩ := executed_faithful hd hne hline
          rcases hk with h | h | h | h | h
          · rw [hd] at h
            cases h
          · omega
          · exact hperm (Or.inl ⟨h, htwo⟩)
          · omega
          · rcases h.2 with h | h | h
            · exact hperm (Or.inr h)
            · exact absurd hfits h
            · rwa [heq]
        · intro line hline
          obtain ⟨hfits, heq, _⟩ := executed_faithful hd hne hline
          exact ⟨hfits, heq⟩

private def exampleServer : Server where
  rconPassword := ascii "full"
  lrconPassword := ascii "half"
  lrconcmds := []
  rconRatelimit := 0
  ratelimitBadrcon := ⟨1000, 0, 0⟩
  curtime := 0

private def exampleQuit : TokenList :=
  ⟨[ascii "rcon", ascii "half", ascii "quit"], by decide, by decide, by decide⟩

/-- A limited administrator who may only use `status` has `quit` executed. -/
theorem limited_quit_executed :
    ¬ Policy (withLrconCmds exampleServer [⟨2, ascii "status"⟩]) exampleQuit := by
  intro hp
  have hbad := hp.limited (by decide) (ascii "quit ") (by decide)
  exact absurd hbad (by decide)

end Rcon
