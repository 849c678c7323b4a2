import Kpded2.CommandArgs
import Kpded2.CommandTokens
import Kpded2.Configstrings
import Kpded2.Protocol
import Kpded2.Userinfo
import Mathlib.Data.List.Infix

/-!
# The path of a download

A client names the file that it asks for. `SV_BeginDownload_f` rewrites the name where it stands
and checks it with the length that it keeps on the side, and what passes goes to the file system.
Here the name stands in memory, with whatever is behind it, and a run that leaves the memory fails.
-/
namespace DownloadPath
open Bytes CommandArgs Protocol
open CommandTokens (cString cString_terminated)
open Configstrings (isvalidchar slash)
open Userinfo (stripHighBits atoi lower eq_of_toLower_eq not_mem_lower)

/-! ## Memory -/

def sizeT (n : Int) : Nat := (n % 2 ^ 64).toNat

def memmove (mem : List UInt8) (dst src n : Nat) : Option (List UInt8) :=
  if dst + n ≤ mem.length ∧ src + n ≤ mem.length then
    some (mem.take dst ++ (mem.drop src).take n ++ mem.drop (dst + n))
  else none

/-- Where a pattern that is not empty begins. -/
def strstr (pattern : List UInt8) : List UInt8 → Option Nat
  | [] => none
  | c :: s => if pattern <+: c :: s then some 0 else (strstr pattern s).map (· + 1)

/-- A string with its terminator at the start of memory. -/
def place (mem s : List UInt8) : List UInt8 := s ++ 0 :: mem.drop (s.length + 1)

def stripHighBitsAt (mem : List UInt8) : Option (List UInt8) :=
  (cString mem).map fun s => place mem (stripHighBits s true)

/-! ## The loop -/

def dotSlash : List UInt8 := ascii "./"
def dotDot : List UInt8 := ascii ".."

structure Strip where
  mem : List UInt8
  p : Nat := 0
  length : Nat

/-- The loop for `./`, with as many turns as `turns` allows. -/
def strip : Nat → Strip → Option Strip
  | 0, _ => none
  | turns + 1, s =>
    match cString (s.mem.drop s.p) with
    | none => none
    | some text =>
      match strstr dotSlash text with
      | none => some s
      | some i =>
        let p := s.p + i
        match memmove s.mem p (p + 2) (sizeT (s.length - p - 1)) with
        | none => none
        | some mem => strip turns { mem, p, length := sizeT (s.length - 2) }

/-! ## The request -/

/-- The arguments are strings, as `Cmd_TokenizeString` leaves them, and something is behind them in
`cmd_buffer`. `tempname` is what the array on the stack holds. -/
structure Command where
  args : TokenList
  strings : ∀ arg ∈ args.argv, 0 ∉ arg
  behind : List UInt8
  tempname : List UInt8

/-- From `Cmd_Argv (1)` on. -/
def Command.nameMemory (c : Command) : List UInt8 :=
  match c.args.argv.drop 1 with
  | [] => [0]
  | args => args.flatMap (· ++ [0]) ++ c.behind

structure Request where
  mem : List UInt8
  offset : Int

/-- `fileargc`: the numbers at the end do not belong to the name. -/
def lastName (args : TokenList) : Nat → Nat
  | n + 2 =>
    if (cmdArgv args (n + 2)).all fun c => 48 ≤ c && c ≤ 57 then lastName args (n + 1) else n + 2
  | n => n

/-- Appends one argument in `tempname`, after a space. -/
def appendArg (name arg : List UInt8) : Option (List UInt8) :=
  if name.length + 1 + arg.length < 128 then some (name ++ space :: arg) else none

def joinedName (args : TokenList) (fileargc : Nat) : Option (List UInt8) :=
  if (cmdArgv args 1).length < 128 then
    ((List.range' 2 (fileargc - 1)).map (cmdArgv args)).foldlM appendArg (cmdArgv args 1)
  else none

def blockOffset (args : TokenList) (arg : Nat) : Option Int :=
  if cmdArgc args > arg then
    if atoi (cmdArgv args arg) < 0 ∨ atoi (cmdArgv args arg) ≥ 2 ^ 21 then none
    else some (atoi (cmdArgv args arg) * 1024)
  else some 0

def Command.joinedMemory (c : Command) (fileargc : Nat) : Option (List UInt8) :=
  if fileargc > 1 then (joinedName c.args fileargc).map (place c.tempname) else some c.nameMemory

def Command.joined (c : Command) : Option Request := do
  let fileargc := lastName c.args (cmdArgc c.args - 1)
  let mem ← c.joinedMemory fileargc
  let offset ← blockOffset c.args (fileargc + 2)
  some { mem, offset }

/-- `none` is a jump to `invalid`. -/
def Command.request (build : Build) (c : Command) : Option Request :=
  match build with
  | .kingpin => c.joined
  | .quake2 => some
      { mem := c.nameMemory, offset := if cmdArgc c.args > 2 then atoi (cmdArgv c.args 2) else 0 }

/-! ## The server -/

/-- The variables, the level and the file system. `lastpak` is the name of `lastpakfile`. -/
structure Env where
  spawncount : Int
  players : Int
  dropFile : List UInt8
  refuselimit : Int
  allowDownload : Int
  allowPlayers : Int
  allowModels : Int
  allowSounds : Int
  allowMaps : Int
  allowPics : Int
  allowTextures : Int
  allowOthers : Int
  disallowSpritesHack : Int
  maxDownloadSize : Int
  dlconfigstrings : List (List UInt8)
  lastpak : Option (List UInt8)
  fsLoadFile : List UInt8 → Int
  fsFOpenFile : List UInt8 → Int

structure Client where
  spawncount : Int
  spawning : Bool
  original : Bool
  download : Bool
  downloadpak : Bool

/-- How the command ends. -/
inductive Ending
  | otherLevel
  | unexpected
  | oldMethod
  | http
  | dropFile
  | playerLimit
  | illegalPath
  | illegalOffset
  | badPath
  | sprite
  | loadPak
  | invalid
  | missing
  | inPak
  | tooLarge
  | sizeDiffers (told : List UInt8)
  | complete
  | unopened
  | started

/-- `opened` are the names that are handed to the file system, and `measured` are the names that are
checked or rewritten with the length, each with its length. -/
structure Result where
  ending : Ending
  opened : List (List UInt8) := []
  measured : List (Nat × List UInt8) := []

def Result.after (measured : List (Nat × List UInt8)) (r : Result) : Result :=
  { r with measured := measured ++ r.measured }

def udp (allowed : Int) : Bool := allowed % 2 ≠ 0

def isDownloadable (env : Env) (file : List UInt8) : Bool :=
  (env.dlconfigstrings.takeWhile (· ≠ [])).any (sameIgnoringCase file)

/-- What the directory says: `none` outside of the known ones. -/
def directory (build : Build) (env : Env) (name : List UInt8) : Option Bool :=
  if ascii "players/" <+: name then some (udp env.allowPlayers)
  else if ascii "models/" <+: name ∨ (build = .quake2 ∧ ascii "sprites/" <+: name) then
    some (udp env.allowModels)
  else if ascii "sound/" <+: name then some (udp env.allowSounds)
  else if ascii "maps/" <+: name then some (udp env.allowMaps)
  else if ascii "pics/" <+: name then some (udp env.allowPics)
  else if ascii "env/" <+: name ∨ ascii "textures/" <+: name then
    some (udp (match build with
      | .kingpin => env.allowMaps
      | .quake2 => env.allowTextures))
  else none

def valid (build : Build) (env : Env) (name : List UInt8) : Bool :=
  if env.allowDownload = 0 then false
  else match directory build env name, build with
    | some allowed, _ => allowed
    | none, .kingpin => isDownloadable env name
    | none, .quake2 => env.allowOthers ≠ 0

/-- The string that begins four bytes before the end. -/
def extension (mem : List UInt8) (length : Nat) : Option (List UInt8) := cString (mem.drop (length - 4))

def isPak (build : Build) (env : Env) (mem name : List UInt8) (length : Nat) : Bool :=
  build = .kingpin && env.allowDownload ≠ 0 && (directory build env name).isNone &&
    isDownloadable env name && length = 8 && extension mem length = some (ascii ".pak")

/-- The length with which an extension is replaced. -/
def renamed (build : Build) (name : List UInt8) (length : Nat) : List UInt8 :=
  match name.reverse.findIdx? (· = 46) with
  | none => name
  | some k =>
    name.take (name.length - k) ++
      (ascii (match build with
        | .kingpin => "tm2"
        | .quake2 => "tmp")).take (length - (name.length - k))

/-- From where the file is looked for. -/
def findFile (build : Build) (env : Env) (offset : Int) (name : List UInt8) (length : Nat) :
    Result :=
  let downloadsize := env.fsLoadFile name
  if downloadsize = -1 then { ending := .missing, opened := [name] }
  else if build = .kingpin ∧ env.lastpak.any (isDownloadable env) then
    { ending := .inPak, opened := [name] }
  else if env.maxDownloadSize ≠ 0 ∧ downloadsize > env.maxDownloadSize then
    { ending := .tooLarge, opened := [name] }
  else if offset > downloadsize then
    { ending := .sizeDiffers (renamed build name length), opened := [name]
      measured := [(length, name)] }
  else if offset = downloadsize then { ending := .complete, opened := [name] }
  else if env.fsFOpenFile name = -1 then { ending := .unopened, opened := [name, name] }
  else { ending := .started, opened := [name, name] }

/-- From `Q_strlwr` on. -/
def checkDirectory (build : Build) (env : Env) (cl : Client) (offset : Int) (mem : List UInt8)
    (length : Nat) : Option Result := do
  let name := lower (← cString mem)
  let mem := place mem name
  some (Result.after [(length, name)] (
    if build = .kingpin ∧ isPak build env mem name length = false ∧ cl.downloadpak ∧ ¬cl.download then
      { ending := .loadPak }
    else if valid build env name then findFile build env offset name length
    else { ending := .invalid }))

/-- The last of the refusals for the path. A check that is decided does not read the next byte. -/
def badPath (build : Build) (mem name : List UInt8) (length : Nat) : Option Bool := do
  if length = 0 then some true
  else
    let first ← mem[0]?
    if first = 0 ∨ isvalidchar first = false ∨ backslash ∈ name ∨
        (build = .quake2 ∧ slash ∉ name) then some true
    else
      let last ← mem[length - 1]?
      some (isvalidchar last = false)

def badSprite (build : Build) (env : Env) (cl : Client) (mem : List UInt8) (length : Nat) : Bool :=
  build = .quake2 && cl.original && env.disallowSpritesHack = 1 && 4 ≤ length &&
    (extension mem length).any fun s => sameIgnoringCase s (ascii ".sp2")

/-- The checks behind the loop. -/
def checkPath (build : Build) (env : Env) (cl : Client) (offset : Int) (s : Strip) :
    Option Result := do
  let name ← cString s.mem
  if (strstr dotDot name).isSome then some { ending := .illegalPath }
  else if offset < 0 then some { ending := .illegalOffset }
  else
    let bad ← badPath build s.mem name s.length
    (if bad then some { ending := .badPath }
      else if badSprite build env cl s.mem s.length then some { ending := .sprite }
      else checkDirectory build env cl offset s.mem s.length).map (Result.after [(s.length, name)])

def filterName (turns : Nat) (build : Build) (env : Env) (cl : Client) (r : Request) :
    Option Result := do
  let mem ← stripHighBitsAt r.mem
  let name ← cString mem
  if build = .quake2 ∧ name = ascii "http" then some { ending := .http }
  else if env.dropFile ≠ [] ∧ sameIgnoringCase name env.dropFile then some { ending := .dropFile }
  else if env.refuselimit ≠ 0 ∧ env.players ≥ env.refuselimit then some { ending := .playerLimit }
  else checkPath build env cl r.offset (← strip turns { mem, length := name.length })

def svBeginDownloadF (turns : Nat) (build : Build) (env : Env) (cl : Client) (c : Command) :
    Option Result :=
  if cl.spawncount ≠ env.spawncount then some { ending := .otherLevel }
  else if build = .kingpin ∧ ¬cl.spawning then some { ending := .unexpected }
  else if build = .kingpin ∧ cmdArgv c.args 0 = ascii "download" then some { ending := .oldMethod }
  else match c.request build with
    | none => some { ending := .invalid }
    | some r => filterName turns build env cl r

/-! ## Strings in memory -/

theorem memmove_append {n : Nat} (front gap moved behind : List UInt8) (h : moved.length = n) :
    memmove (front ++ (gap ++ (moved ++ behind))) front.length (front.length + gap.length) n =
      some (front ++ (moved ++ (gap ++ (moved ++ behind)).drop n)) := by
  have inside : front.length + n ≤ (front ++ (gap ++ (moved ++ behind))).length ∧
      front.length + gap.length + n ≤ (front ++ (gap ++ (moved ++ behind))).length := by
    simp only [List.length_append]
    omega
  rw [memmove, if_pos inside, List.take_left, ← List.drop_drop, List.drop_left, List.drop_left,
    ← h, List.take_left, ← List.drop_drop, List.drop_left, List.append_assoc]

variable {pattern s : List UInt8}

theorem strstr_eq_none_iff (some : pattern ≠ []) : strstr pattern s = none ↔ ¬pattern <:+: s := by
  induction s with
  | nil => exact ⟨fun _ found => some (List.infix_nil.mp found), fun _ => rfl⟩
  | cons c s ih =>
    rw [strstr, List.infix_cons_iff, not_or]
    split
    · rename_i here
      constructor
      · rintro ⟨⟩
      · rintro ⟨elsewhere, -⟩
        exact absurd here elsewhere
    · rename_i elsewhere
      rw [Option.map_eq_none_iff, ih]
      exact ⟨fun h => ⟨elsewhere, h⟩, fun h => h.2⟩

/-! ## What the loop leaves -/

/-- The text without the pairs `./` that stand in it, from the left. -/
def withoutDotSlash : List UInt8 → List UInt8
  | c :: d :: s => if c = 46 ∧ d = 47 then withoutDotSlash s else c :: withoutDotSlash (d :: s)
  | s => s

theorem dotSlash_eq : dotSlash = [46, 47] := by
  decide

theorem dotSlash_prefix_iff (c d : UInt8) (s : List UInt8) :
    dotSlash <+: c :: d :: s ↔ c = 46 ∧ d = 47 := by
  rw [dotSlash_eq, List.cons_prefix_cons, List.cons_prefix_cons]
  exact ⟨fun h => ⟨h.1.symm, h.2.1.symm⟩, fun h => ⟨h.1.symm, h.2.symm, List.nil_prefix⟩⟩

theorem not_dotSlash_prefix_singleton (c : UInt8) : ¬dotSlash <+: [c] := by
  rw [dotSlash_eq]
  intro h
  have short := h.length_le
  simp only [List.length_cons, List.length_nil] at short
  omega

theorem withoutDotSlash_of_none (h : strstr dotSlash s = none) : withoutDotSlash s = s := by
  fun_induction withoutDotSlash s with
  | case1 c d s found =>
    rw [strstr, if_pos ((dotSlash_prefix_iff c d s).mpr found)] at h
    cases h
  | case2 c d s other ih =>
    rw [strstr, if_neg (mt (dotSlash_prefix_iff c d s).mp other), Option.map_eq_none_iff] at h
    rw [ih h]
  | case3 s => rfl

theorem withoutDotSlash_of_some {i : Nat} (h : strstr dotSlash s = some i) :
    ∃ front behind, s = front ++ (dotSlash ++ behind) ∧ front.length = i ∧
      withoutDotSlash s = front ++ withoutDotSlash behind := by
  fun_induction withoutDotSlash s generalizing i with
  | case1 c d s found =>
    rw [strstr, if_pos ((dotSlash_prefix_iff c d s).mpr found)] at h
    obtain ⟨rfl, rfl⟩ := found
    cases h
    exact ⟨[], s, rfl, rfl, rfl⟩
  | case2 c d s other ih =>
    rw [strstr, if_neg (mt (dotSlash_prefix_iff c d s).mp other)] at h
    obtain ⟨j, hj, rfl⟩ := Option.map_eq_some_iff.mp h
    obtain ⟨front, behind, hs, hlength, rest⟩ := ih hj
    exact ⟨c :: front, behind, congrArg _ hs, congrArg (· + 1) hlength, congrArg _ rest⟩
  | case3 s short =>
    cases s with
    | nil => cases h
    | cons c s =>
      cases s with
      | nil =>
        rw [strstr, if_neg (not_dotSlash_prefix_singleton c)] at h
        cases h
      | cons d s => exact absurd rfl (short c d s)

theorem not_mem_withoutDotSlash (string : 0 ∉ s) : 0 ∉ withoutDotSlash s := by
  fun_induction withoutDotSlash s with
  | case1 c d s found ih =>
    exact ih fun h => string (List.mem_cons_of_mem c (List.mem_cons_of_mem d h))
  | case2 c d s other ih =>
    rw [List.mem_cons, not_or] at string ⊢
    exact ⟨string.1, ih string.2⟩
  | case3 s => exact string

theorem sizeT_of_lt {n : Nat} {k : Int} (h : k = n) (small : n < 2 ^ 64) : sizeT k = n := by
  rw [sizeT]
  omega

/-- The loop ends, stays in the memory of the name and keeps the length. -/
theorem strip_eq (front text behind : List UInt8) (string : 0 ∉ text)
    (small : front.length + text.length < 2 ^ 64) :
    ∃ p behind', ∀ turns, text.length < turns → strip turns
      { mem := front ++ (text ++ 0 :: behind), p := front.length
        length := front.length + text.length } =
      some { mem := front ++ (withoutDotSlash text ++ 0 :: behind'), p := p
             length := front.length + (withoutDotSlash text).length } := by
  induction hlength : text.length using Nat.strong_induction_on generalizing front text behind with
  | _ n ih =>
    subst hlength
    cases found : strstr dotSlash text with
    | none =>
      refine ⟨front.length, behind, fun turns enough => ?_⟩
      obtain ⟨turns, rfl⟩ := Nat.exists_eq_add_one_of_ne_zero (Nat.ne_zero_of_lt enough)
      rw [strip]
      simp only [List.drop_left, cString_terminated string, found, withoutDotSlash_of_none found]
    | some i =>
      obtain ⟨kept, more, htext, hkept, hwithout⟩ := withoutDotSlash_of_some found
      subst htext hkept
      have two : dotSlash.length = 2 := by decide
      simp only [List.length_append, two] at ih small ⊢
      have count : sizeT (((front.length + (kept.length + (2 + more.length)) : Nat) : Int) -
          ((front.length + kept.length : Nat) : Int) - 1) = more.length + 1 :=
        sizeT_of_lt (by omega) (by omega)
      have rest : sizeT (((front.length + (kept.length + (2 + more.length)) : Nat) : Int) - 2) =
          (front ++ kept).length + more.length := by
        refine sizeT_of_lt ?_ ?_
        · rw [List.length_append]
          omega
        · rw [List.length_append]
          omega
      have moved := memmove_append (front ++ kept) dotSlash (more ++ [0]) behind
        (show (more ++ [0]).length = more.length + 1 from List.length_append)
      simp only [two, List.append_assoc, List.singleton_append, List.length_append] at moved
      have string' : 0 ∉ more := fun h => string (List.mem_append_right _ (List.mem_append_right _ h))
      obtain ⟨p, behind', hrun⟩ := ih more.length (by omega) (front ++ kept) more
        ((dotSlash ++ (more ++ 0 :: behind)).drop (more.length + 1)) string'
        (by rw [List.length_append]; omega) rfl
      refine ⟨p, behind', fun turns enough => ?_⟩
      obtain ⟨turns, rfl⟩ := Nat.exists_eq_add_one_of_ne_zero (Nat.ne_zero_of_lt enough)
      have run := hrun turns (by omega)
      rw [List.append_assoc, List.length_append] at run
      have text := cString_terminated string behind
      simp only [List.append_assoc] at text
      rw [strip]
      simp only [List.append_assoc, List.drop_left, text, found, count, moved, rest, hwithout]
      rw [List.length_append, run]
      simp only [List.append_assoc, List.length_append, Nat.add_assoc]

/-! ## What passes the checks -/

structure SafeName (name : List UInt8) : Prop where
  noDotDot : ¬dotDot <:+: name
  noBackslash : backslash ∉ name
  starts : ∃ c, name.head? = some c ∧ isvalidchar c = true
  ends : ∃ c, name.getLast? = some c ∧ isvalidchar c = true

/-- What goes to the file system is safe, and the length is the length of the name. -/
structure Filtered (r : Result) : Prop where
  opened : ∀ name ∈ r.opened, SafeName name
  measured : ∀ m ∈ r.measured, m.1 = m.2.length

theorem Filtered.of_none (ending : Ending) : Filtered { ending } :=
  ⟨List.forall_mem_nil _, List.forall_mem_nil _⟩

theorem Filtered.after {r : Result} (h : Filtered r) {name : List UInt8} {length : Nat}
    (same : length = name.length) : Filtered (r.after [(length, name)]) := by
  refine ⟨h.opened, fun m hm => ?_⟩
  rcases List.mem_cons.mp hm with rfl | hm
  · exact same
  · exact h.measured m hm

theorem Filtered.of_name {name : List UInt8} (safe : SafeName name) {r : Result}
    (opened : ∀ n ∈ r.opened, n = name) (measured : ∀ m ∈ r.measured, m.1 = m.2.length) :
    Filtered r :=
  ⟨fun n hn => opened n hn ▸ safe, measured⟩

theorem isvalidchar_toLower {c : UInt8} (h : isvalidchar c = true) :
    isvalidchar (toLower c) = true := by
  rw [toLower]
  split
  · rename_i upper
    have lowered : 97 ≤ c + 32 ∧ c + 32 ≤ 122 := by
      obtain ⟨low, high⟩ := upper
      grind
    simp [isvalidchar, lowered]
  · exact h

theorem SafeName.lower {name : List UInt8} (h : SafeName name) : SafeName (lower name) where
  noDotDot := by
    rintro ⟨front, behind, parts⟩
    obtain ⟨begun, behind', rfl, hbegun, -⟩ := List.append_eq_map_iff.mp parts
    obtain ⟨front', dots, rfl, -, hdots⟩ := List.map_eq_append_iff.mp hbegun
    have dots_eq : dots = dotDot := by
      rw [show dotDot = [46, 46] by decide] at hdots ⊢
      obtain ⟨c, rest, rfl, hc, hrest⟩ := List.map_eq_cons_iff.mp hdots
      obtain ⟨d, rest, rfl, hd, hrest⟩ := List.map_eq_cons_iff.mp hrest
      obtain rfl := List.map_eq_nil_iff.mp hrest
      rw [eq_of_toLower_eq (by decide) hc, eq_of_toLower_eq (by decide) hd]
    exact h.noDotDot ⟨front', behind', by rw [dots_eq]⟩
  noBackslash := by
    intro found
    obtain ⟨c, hc, same⟩ := List.mem_map.mp found
    exact h.noBackslash (eq_of_toLower_eq (by decide) same ▸ hc)
  starts := by
    obtain ⟨c, hc, valid⟩ := h.starts
    exact ⟨toLower c, by rw [Userinfo.lower, List.head?_map, hc]; rfl, isvalidchar_toLower valid⟩
  ends := by
    obtain ⟨c, hc, valid⟩ := h.ends
    exact ⟨toLower c, by rw [Userinfo.lower, List.getLast?_map, hc]; rfl, isvalidchar_toLower valid⟩

variable {build : Build} {env : Env} {cl : Client} {offset : Int} {name : List UInt8}

theorem findFile_filtered (safe : SafeName name) :
    Filtered (findFile build env offset name name.length) := by
  have once : ∀ n ∈ [name], n = name := fun n hn => List.mem_singleton.mp hn
  have twice : ∀ n ∈ [name, name], n = name := fun n hn => by simpa using hn
  have unmeasured : ∀ m ∈ ([] : List (Nat × List UInt8)), m.1 = m.2.length := List.forall_mem_nil _
  have measured : ∀ m ∈ [(name.length, name)], m.1 = m.2.length := by
    intro m hm
    rw [List.mem_singleton.mp hm]
  simp only [findFile]
  split
  · exact .of_name safe once unmeasured
  · split
    · exact .of_name safe once unmeasured
    · split
      · exact .of_name safe once unmeasured
      · split
        · exact .of_name safe once measured
        · split
          · exact .of_name safe once unmeasured
          · split
            · exact .of_name safe twice unmeasured
            · exact .of_name safe twice unmeasured

theorem checkDirectory_filtered (safe : SafeName name) (string : 0 ∉ name) (behind : List UInt8) :
    ∃ r, checkDirectory build env cl offset (name ++ 0 :: behind) name.length = some r ∧
      Filtered r := by
  have same : name.length = (lower name).length := (List.length_map toLower).symm
  rw [checkDirectory, cString_terminated string]
  refine ⟨_, rfl, Filtered.after ?_ same⟩
  split
  · exact .of_none .loadPak
  · split
    · rw [same]
      exact findFile_filtered safe.lower
    · exact .of_none .invalid

theorem badPath_total (name behind : List UInt8) :
    ∃ bad, badPath build (name ++ 0 :: behind) name name.length = some bad ∧
      (bad = false → backslash ∉ name ∧ (∃ c, name.head? = some c ∧ isvalidchar c = true) ∧
        ∃ c, name.getLast? = some c ∧ isvalidchar c = true) := by
  cases name with
  | nil => exact ⟨true, rfl, fun h => absurd h (by decide)⟩
  | cons c name =>
    have some : (c :: name).length ≠ 0 := Nat.succ_ne_zero _
    have first : ((c :: name) ++ 0 :: behind)[0]? = Option.some c := rfl
    have last : ((c :: name) ++ 0 :: behind)[(c :: name).length - 1]? = (c :: name).getLast? := by
      rw [List.getElem?_append_left (by simp), List.getLast?_eq_getElem?]
    obtain ⟨d, hd⟩ : ∃ d, (c :: name).getLast? = Option.some d :=
      ⟨_, List.getLast?_eq_some_getLast (List.cons_ne_nil c name)⟩
    rw [badPath, if_neg some, first, last, hd]
    simp only [Option.bind_eq_bind, Option.bind_some]
    split
    · exact ⟨true, rfl, fun h => absurd h (by decide)⟩
    · rename_i good
      rw [not_or, not_or, not_or] at good
      refine ⟨_, rfl, fun valid => ⟨good.2.2.1, ⟨c, rfl, ?_⟩, ⟨d, rfl, ?_⟩⟩⟩
      · simpa using good.2.1
      · simpa using valid

theorem checkPath_filtered (string : 0 ∉ name) (p : Nat) (behind : List UInt8) :
    ∃ r, checkPath build env cl offset { mem := name ++ 0 :: behind, p, length := name.length } =
      some r ∧ Filtered r := by
  rw [checkPath]
  simp only [cString_terminated string, Option.bind_eq_bind, Option.bind_some]
  split
  · exact ⟨_, rfl, .of_none .illegalPath⟩
  · rename_i noDotDot
    split
    · exact ⟨_, rfl, .of_none .illegalOffset⟩
    · obtain ⟨bad, hbad, good⟩ := @badPath_total build name behind
      simp only [hbad, Option.bind_some]
      cases bad with
      | true => exact ⟨_, rfl, (Filtered.of_none .badPath).after rfl⟩
      | false =>
        simp only [Bool.false_eq_true, if_false]
        split
        · exact ⟨_, rfl, (Filtered.of_none .sprite).after rfl⟩
        · obtain ⟨backslash, starts, ends⟩ := good rfl
          have dots : ¬dotDot <:+: name := by
            rw [← strstr_eq_none_iff (by decide)]
            simpa using noDotDot
          obtain ⟨r, hr, filtered⟩ := @checkDirectory_filtered build env cl offset name
            ⟨dots, backslash, starts, ends⟩ string behind
          exact ⟨_, congrArg _ hr, filtered.after rfl⟩

/-- A request stands in memory as a string that is shorter than `2 ^ 64`. -/
def Stands (mem : List UInt8) : Prop :=
  ∃ name behind, mem = name ++ 0 :: behind ∧ 0 ∉ name ∧ name.length < 2 ^ 64

theorem filterName_filtered {r : Request} (stands : Stands r.mem) :
    ∃ turns result, Filtered result ∧
      ∀ n, turns ≤ n → filterName n build env cl r = some result := by
  obtain ⟨name, behind, hmem, string, small⟩ := stands
  have string' : 0 ∉ stripHighBits name true := fun h => string (List.mem_filter.mp h).1
  have shorter : (stripHighBits name true).length ≤ name.length := List.length_filter_le _ _
  obtain ⟨p, behind', hstrip⟩ := strip_eq [] (stripHighBits name true)
    ((name ++ 0 :: behind).drop ((stripHighBits name true).length + 1)) string'
    (by rw [List.length_nil]; omega)
  simp only [List.nil_append, List.length_nil, Nat.zero_add] at hstrip
  obtain ⟨result, hresult, filtered⟩ := @checkPath_filtered build env cl r.offset
    (withoutDotSlash (stripHighBits name true)) (not_mem_withoutDotSlash string') p behind'
  simp only [filterName, stripHighBitsAt, hmem, cString_terminated string, place, Option.map_some,
    Option.bind_eq_bind, Option.bind_some, cString_terminated string']
  split
  · exact ⟨0, _, .of_none .http, fun n _ => rfl⟩
  · split
    · exact ⟨0, _, .of_none .dropFile, fun n _ => rfl⟩
    · split
      · exact ⟨0, _, .of_none .playerLimit, fun n _ => rfl⟩
      · refine ⟨name.length + 1, result, filtered, fun n enough => ?_⟩
        rw [hstrip n (by omega)]
        exact hresult

/-! ## The requests -/

variable {c : Command}

theorem cmdArgv_string (arg : Nat) : 0 ∉ cmdArgv c.args arg := by
  rw [cmdArgv]
  cases h : c.args.argv[arg]? with
  | none => exact List.not_mem_nil
  | some s => exact c.strings s (List.mem_of_getElem? h)

theorem nameMemory_stands : Stands c.nameMemory := by
  rw [Command.nameMemory]
  split
  · exact ⟨[], [], rfl, List.not_mem_nil, by decide⟩
  · rename_i args none
    cases hargs : c.args.argv.drop 1 with
    | nil => exact absurd hargs none
    | cons arg rest =>
      have mem : arg ∈ c.args.argv := List.mem_of_mem_drop (hargs ▸ List.mem_cons_self)
      refine ⟨arg, rest.flatMap (· ++ [0]) ++ c.behind, ?_, c.strings arg mem, ?_⟩
      · simp only [List.flatMap_cons, List.append_assoc, List.cons_append, List.nil_append]
      · exact Nat.lt_trans (c.args.short arg mem) (by decide)

theorem appendArg_string {name arg result : List UInt8} (hname : 0 ∉ name) (harg : 0 ∉ arg)
    (h : appendArg name arg = some result) : 0 ∉ result ∧ result.length < 128 := by
  rw [appendArg] at h
  split at h
  · rename_i fits
    obtain rfl := Option.some.inj h
    constructor
    · rw [List.mem_append, List.mem_cons]
      rintro (found | found | found)
      · exact hname found
      · exact absurd found (by decide)
      · exact harg found
    · rw [List.length_append, List.length_cons]
      omega
  · cases h

theorem joinedName_string {fileargc : Nat} {name : List UInt8}
    (h : joinedName c.args fileargc = some name) : 0 ∉ name ∧ name.length < 128 := by
  rw [joinedName] at h
  split at h
  · rename_i short
    have begun := cmdArgv_string (c := c) 1
    have strings : ∀ arg ∈ (List.range' 2 (fileargc - 1)).map (cmdArgv c.args), 0 ∉ arg := by
      intro arg harg
      obtain ⟨i, -, rfl⟩ := List.mem_map.mp harg
      exact cmdArgv_string i
    generalize cmdArgv c.args 1 = first at h short begun
    generalize (List.range' 2 (fileargc - 1)).map (cmdArgv c.args) = args at h strings
    induction args generalizing first with
    | nil =>
      obtain rfl := Option.some.inj h
      exact ⟨begun, short⟩
    | cons arg args ih =>
      rw [List.foldlM_cons] at h
      obtain ⟨next, hnext, h⟩ := Option.bind_eq_some_iff.mp h
      have appended := appendArg_string begun (strings arg List.mem_cons_self) hnext
      exact ih next appended.2 appended.1 h fun a ha => strings a (List.mem_cons_of_mem arg ha)
  · cases h

theorem request_stands {r : Request} (h : c.request build = some r) : Stands r.mem := by
  cases build with
  | quake2 =>
    obtain rfl := Option.some.inj h
    exact nameMemory_stands
  | kingpin =>
    simp only [Command.request, Command.joined, Option.bind_eq_bind] at h
    obtain ⟨mem, hmem, h⟩ := Option.bind_eq_some_iff.mp h
    obtain ⟨offset, -, h⟩ := Option.bind_eq_some_iff.mp h
    obtain rfl := Option.some.inj h
    rw [Command.joinedMemory] at hmem
    split at hmem
    · obtain ⟨name, hname, rfl⟩ := Option.map_eq_some_iff.mp hmem
      obtain ⟨string, short⟩ := joinedName_string hname
      exact ⟨name, _, rfl, string, Nat.lt_trans short (by decide)⟩
    · obtain rfl := Option.some.inj hmem
      exact nameMemory_stands

/-- Every download command ends, whatever it names: it stays in the memory of the name, hands only
safe names to the file system and checks them with their length. -/
theorem download_filtered (build : Build) (env : Env) (cl : Client) (c : Command) :
    ∃ turns result, Filtered result ∧
      ∀ n, turns ≤ n → svBeginDownloadF n build env cl c = some result := by
  simp only [svBeginDownloadF]
  split
  · exact ⟨0, _, .of_none .otherLevel, fun n _ => rfl⟩
  · split
    · exact ⟨0, _, .of_none .unexpected, fun n _ => rfl⟩
    · split
      · exact ⟨0, _, .of_none .oldMethod, fun n _ => rfl⟩
      · cases request : c.request build with
        | none => exact ⟨0, _, .of_none .invalid, fun n _ => rfl⟩
        | some r => exact filterName_filtered (request_stands request)

/-- A line that a client has sent is split into such a command. -/
theorem exists_command {cvars : List UInt8 → List UInt8} {expanded text : List UInt8}
    {tokens : CommandTokens.Tokens}
    (split : CommandTokens.cmdTokenizeString cvars expanded text false = some tokens)
    (behind tempname : List UInt8) :
    ∃ c : Command, c.args = tokens.argv ∧ c.behind = behind ∧ c.tempname = tempname :=
  ⟨⟨tokens.argv, CommandTokens.cmdTokenizeString_strings split, behind, tempname⟩, rfl, rfl, rfl⟩

/-- A request for a map, whose name is the last argument. -/
example : (Command.mk ⟨[ascii "download", ascii "maps/a.bsp"], by decide, by decide, by decide⟩
    (by decide) [0] []).nameMemory = ascii "maps/a.bsp" ++ [0, 0] := by
  decide +kernel

/-- A pair may form where one was dropped, and stays. -/
example : withoutDotSlash (ascii "maps..//a") = ascii "maps./a" := by
  decide +kernel

end DownloadPath
