import Kpded2.InfoString
import Kpded2.StepRuns

/-!
# The userinfo that the game is handed

`SVC_DirectConnect`, `SV_UserinfoChanged` and `SV_UpdateUserinfo` of the KINGPIN
build: which strings are refused, how the others are rewritten, and what
`ge->ClientConnect` and `ge->ClientUserinfoChanged` get. The search for a slot and the
tests that do not look at the userinfo are inputs, and so are the answers of the game.
-/
namespace Userinfo

open Bytes InfoString

def name : List UInt8 := ascii "name"
def skin : List UInt8 := ascii "skin"
def ip : List UInt8 := ascii "ip"

structure Netadr where
  ip : UInt8 × UInt8 × UInt8 × UInt8
  port : UInt16

def decimal (n : Nat) : List UInt8 := (Nat.toDigits 10 n).map fun c => UInt8.ofNat c.toNat

/-- `%0*d` and `%*d`. -/
def padded (fill : UInt8) (width n : Nat) : List UInt8 :=
  List.replicate (width - (decimal n).length) fill ++ decimal n

/-- Dots between the bytes, a colon before the port. -/
def netAdrToString (a : Netadr) : List UInt8 :=
  decimal a.ip.1.toNat ++ 46 :: decimal a.ip.2.1.toNat ++ 46 :: decimal a.ip.2.2.1.toNat ++
    46 :: decimal a.ip.2.2.2.toNat ++ 58 :: decimal a.port.toNat

inductive SlotState
  | free
  | zombie
  /-- Connected, spawning or spawned. -/
  | connected
  deriving DecidableEq

structure Client where
  state : SlotState
  adr : Netadr
  name : List UInt8
  skin : List UInt8
  badmodel : List UInt8
  userinfo : List UInt8
  rate : Int
  messagelevel : Int

/-- The cvars, the files, the random numbers and the game at the time of a packet.
`stale` is what stands behind the terminator in the buffer of `Info_ValueForKey`. -/
structure Env where
  filterUserinfo : Int
  formatStringHack : Bool
  strictUserinfoCheck : Bool
  uniqueNames : Bool
  noZoom : Bool
  allowAnyModel : Bool
  teamplay : Bool
  password : List UInt8
  reservedPassword : List UInt8
  loadFile : List UInt8 → Int
  rand : Nat → Nat
  stale : List UInt8
  country : Option (List UInt8)
  userInfoBanned : List UInt8 → Bool
  clientConnect : List UInt8 → Bool × List UInt8
  clientUserinfoChanged : List UInt8 → List UInt8

structure State where
  maxclients : Nat
  clients : Nat → Client
  handed : List (Netadr × List UInt8)

/-! ## Rewriting -/

def stripHighBits (s : List UInt8) (highbits : Bool) : List UInt8 :=
  s.filter fun c => 32 ≤ c && c ≤ (if highbits then 127 else 255)

def filterUserinfo (env : Env) (s : List UInt8) : List UInt8 :=
  if env.filterUserinfo ≠ 0 then stripHighBits s (env.filterUserinfo = 2) else s

/-- The percent filter. -/
def formatStringHack (env : Env) (s : List UInt8) : List UInt8 :=
  if env.formatStringHack then s.map fun c => if c = 37 then space else c else s

def isspace (c : UInt8) : Bool := c == 32 || (9 ≤ c && c ≤ 13)

def stringIsWhitespace (s : List UInt8) : Bool := s.all isspace

/-- `strtol` saturates at 64 bits, and the result is cut to 32. -/
def atoi (s : List UInt8) : Int :=
  let s := s.dropWhile isspace
  let (minus, s) := match s with
    | 45 :: rest => (true, rest)
    | 43 :: rest => (false, rest)
    | _ => (false, s)
  let n : Nat := (s.takeWhile fun c => 48 ≤ c && c ≤ 57).foldl (fun n c => 10 * n + (c.toNat - 48)) 0
  let n : Int := if minus then max (-(n : Int)) (-9223372036854775808)
    else min n 9223372036854775807
  (n + 2147483648) % 4294967296 - 2147483648

def otherHasName (s : State) (slot : Nat) (val : List UInt8) : Bool :=
  (List.range s.maxclients).any fun i =>
    i != slot && (s.clients i).state == .connected && (s.clients i).name == val

/-- The first number from 2 on that makes a name which nobody has. -/
def numberedName (s : State) (slot : Nat) (stem : List UInt8) : List UInt8 :=
  let candidate (n : Nat) : List UInt8 := stem ++ padded space 2 (n + 2)
  match (List.range (s.maxclients + 1)).find? fun n => !otherHasName s slot (candidate n) with
  | some n => candidate n
  | none => candidate (s.maxclients + 1)

def svNameClash (env : Env) (s : State) (slot : Nat) (cl : Client) (userinfo : List UInt8) :
    List UInt8 :=
  if env.uniqueNames then
    let val := infoValueForKey userinfo name
    if val = [] then userinfo
    else
      let val := val.take 13
      if otherHasName s slot val then
        let val := if cl.name ≠ [] then cl.name else numberedName s slot (val.take 11)
        infoSetValueForKey userinfo name val
      else userinfo
  else userinfo

def lower (s : List UInt8) : List UInt8 := s.map toLower

/-- `%.3s`. -/
def threeOf (s : List UInt8) : List UInt8 := (s.takeWhile (· ≠ 0)).take 3

def overwriteAt (s : List UInt8) (i : Nat) (new : List UInt8) : List UInt8 :=
  s.take i ++ new ++ s.drop (i + new.length)

def defaultSkin (env : Env) (model : List UInt8) : List UInt8 :=
  if ascii "female" <:+: model then
    ascii "female_chick/" ++ padded 48 3 (1 + env.rand 0 % 22) ++ space ::
      padded 48 3 (12 + env.rand 1 % 10) ++ space :: padded 48 3 (1 + env.rand 2 % 6)
  else
    ascii "male_thug/" ++ padded 48 3 (8 + env.rand 0 % 24) ++ space ::
      padded 48 3 (1 + env.rand 1 % 36) ++ space :: padded 48 3 (1 + env.rand 2 % 17)

/-- One of the three skins behind the model: `part` is "head", "body" or "legs", and
`i` its place behind the slash. The flag says that something has been replaced. -/
def checkSkin (env : Env) (model part : List UInt8) (i : Nat) (buffer : List UInt8 × Bool) :
    List UInt8 × Bool :=
  let file (texture : List UInt8) : Int :=
    env.loadFile (ascii "players/" ++ model ++ [47] ++ part ++ [95] ++ texture ++ ascii ".tga")
  if file (threeOf (buffer.1.drop i)) ≤ 0 ∧ file (ascii "001") > 0 then
    (overwriteAt buffer.1 i (ascii "001"), true)
  else buffer

/-- The bytes behind the last slash of the skin, with what stands behind them in the
buffer. -/
def skinBuffer (env : Env) (val : List UInt8) (slash : Nat) : List UInt8 :=
  val.drop (slash + 1) ++ 0 :: env.stale

def models : List (List UInt8) := [ascii "female_chick", ascii "male_thug", ascii "male_runt"]

/-- The place of the last slash. -/
def lastSlash (val : List UInt8) : Option Nat :=
  (val.reverse.findIdx? fun c => c == 47).map fun i => val.length - 1 - i

/-- Only models that the server has; the userinfo and `badmodel`. -/
def fixSkin (env : Env) (cl : Client) : List UInt8 × List UInt8 :=
  if env.allowAnyModel || env.teamplay then (cl.userinfo, [])
  else
    let val := infoValueForKey cl.userinfo skin
    match lastSlash val with
    | none => (cl.userinfo, [])
    | some slash =>
      let model := lower (val.take slash)
      if model ∈ models then (cl.userinfo, [])
      else if env.loadFile (ascii "players/" ++ model ++ ascii "/head.mdx") ≤ 0 then
        let replacement := if cl.skin ≠ [] then cl.skin else defaultSkin env model
        (infoSetValueForKey cl.userinfo skin replacement, model)
      else
        let buffer := checkSkin env model (ascii "legs") 8 (checkSkin env model (ascii "body") 4
          (checkSkin env model (ascii "head") 0 (skinBuffer env val slash, false)))
        if buffer.2 then
          (infoSetValueForKey cl.userinfo skin (model ++ 47 :: buffer.1.takeWhile (· ≠ 0)), val)
        else (cl.userinfo, [])

def fixFov (env : Env) (userinfo : List UInt8) : List UInt8 :=
  if env.noZoom ∧ atoi (infoValueForKey userinfo (ascii "fov")) < 90 then
    infoSetValueForKey userinfo (ascii "fov") (ascii "90")
  else userinfo

/-- The high bits of the name are masked, and a zero ends it. -/
def maskName (val : List UInt8) : List UInt8 :=
  ((val.take 15).map fun c => c &&& 127).takeWhile (· ≠ 0)

def clientRate (val : List UInt8) : Int :=
  if val = [] then 5000 else max 1000 (min 99000 (atoi val))

/-- The fields that are read from the userinfo. -/
def readFields (cl : Client) : Client :=
  let msg := infoValueForKey cl.userinfo (ascii "msg")
  let val := infoValueForKey cl.userinfo skin
  { cl with
    name := maskName (infoValueForKey cl.userinfo name)
    rate := clientRate (infoValueForKey cl.userinfo (ascii "rate"))
    messagelevel := if msg = [] then cl.messagelevel else max 0 (atoi msg)
    skin := if val = [] then cl.skin else val.take 63 }

def setClient (s : State) (slot : Nat) (cl : Client) : State :=
  { s with clients := Function.update s.clients slot cl }

def svUpdateUserinfo (env : Env) (slot : Nat) (cl : Client) (notifyGame : Bool) (s : State) : State :=
  let (userinfo, badmodel) := fixSkin env cl
  let userinfo := svNameClash env s slot cl (fixFov env userinfo)
  if notifyGame then
    { setClient s slot
        (readFields { cl with badmodel, userinfo := env.clientUserinfoChanged userinfo }) with
      handed := s.handed ++ [(cl.adr, userinfo)] }
  else setClient s slot (readFields { cl with badmodel, userinfo })

/-! ## The two ways in -/

def svKickClient (slot : Nat) (s : State) : State :=
  setClient s slot { s.clients slot with state := .zombie, name := [] }

/-- A name that is empty or blank is put back to the old one, if there is one. -/
def restoreName (cl : Client) : Option (List UInt8) :=
  let val := infoValueForKey cl.userinfo name
  if val = [] ∨ stringIsWhitespace val then
    if cl.name ≠ [] then some (infoSetValueForKey cl.userinfo name cl.name) else none
  else some cl.userinfo

def svUserinfoChanged (env : Env) (slot : Nat) (cl : Client) (s : State) : State :=
  let s := setClient s slot cl
  if 255 ∈ cl.userinfo then svKickClient slot s
  else if svUserinfoValidate cl.userinfo = false then svKickClient slot s
  else if env.strictUserinfoCheck && !infoCheckBytes cl.userinfo then svKickClient slot s
  else
    let cl := { cl with userinfo := filterUserinfo env (formatStringHack env cl.userinfo) }
    match restoreName cl with
    | none => svKickClient slot s
    | some userinfo =>
      let cl := { cl with userinfo }
      if infoKeyExists userinfo ip then svKickClient slot s
      else if env.userInfoBanned userinfo then svKickClient slot s
      else svUpdateUserinfo env slot cl true s

/-- `clc_userinfo`. -/
def readUserinfo (env : Env) (slot : Nat) (text : List UInt8) (s : State) : State :=
  if (s.clients slot).state = .connected then
    svUserinfoChanged env slot
      { s.clients slot with userinfo := text.take (maxInfoString - 1) } s
  else s

structure ConnectPacket where
  adr : Netadr
  userinfo : List UInt8
  slot : Nat
  reconnected : Bool

/-- The slot is cleared; nothing of the client before is left. -/
def newClient (adr : Netadr) (userinfo : List UInt8) : Client where
  state := .connected
  adr := adr
  name := []
  skin := []
  badmodel := []
  userinfo := userinfo
  rate := 0
  messagelevel := 0

def setCountry (env : Env) (userinfo : List UInt8) : List UInt8 :=
  let userinfo := infoRemoveKey userinfo (ascii "country")
  match env.country with
  | none => userinfo
  | some country => infoSetValueForKey userinfo (ascii "country") (country.take 31)

/-- The tests of a userinfo that come with a connect packet. -/
def refusesUserinfo (env : Env) (userinfo : List UInt8) : Bool :=
  maxInfoString - 1 ≤ userinfo.length + 25 || userinfo.isEmpty || !infoValidate userinfo ||
    !svUserinfoValidate userinfo || userinfo.contains 255 ||
    (env.strictUserinfoCheck && !infoCheckBytes userinfo)

/-- The tests after the filter. The version is `unsigned`, so that a negative one passes. -/
def refusesValues (env : Env) (userinfo : List UInt8) : Bool :=
  let version := atoi (infoValueForKey userinfo (ascii "ver")) % 4294967296
  let val := infoValueForKey userinfo name
  let pass := infoValueForKey userinfo (ascii "password")
  version < 120 || val.isEmpty || stringIsWhitespace val ||
    infoKeyExists userinfo ip || (!env.password.isEmpty && (pass.isEmpty || pass != env.password))

def removePassword (env : Env) (userinfo : List UInt8) : List UInt8 :=
  if env.reservedPassword ≠ [] ∧
      infoValueForKey userinfo (ascii "password") = env.reservedPassword then
    infoRemoveKey userinfo (ascii "password")
  else userinfo

/-- What `ge->ClientConnect` is handed. -/
def connectUserinfo (env : Env) (p : ConnectPacket) (s : State) (userinfo : List UInt8) :
    List UInt8 :=
  setCountry env (svNameClash env s p.slot (newClient p.adr userinfo) userinfo)

def svcDirectConnect (env : Env) (p : ConnectPacket) (s : State) : State :=
  let userinfo := p.userinfo.take (maxInfoString - 1)
  if refusesUserinfo env userinfo then s
  else
    let userinfo := filterUserinfo env userinfo
    if refusesValues env userinfo then s
    else
      let userinfo := removePassword env (infoSetValueForKey userinfo ip (netAdrToString p.adr))
      if p.reconnected then
        let userinfo := connectUserinfo env p s userinfo
        let s := { s with handed := s.handed ++ [(p.adr, userinfo)] }
        let (allowed, userinfo) := env.clientConnect userinfo
        if allowed then svUpdateUserinfo env p.slot (newClient p.adr userinfo) true s
        else setClient s p.slot { newClient p.adr [] with state := .free }
      else svUpdateUserinfo env p.slot (newClient p.adr userinfo) false s

inductive Event
  | connect (env : Env) (packet : ConnectPacket)
  | userinfo (env : Env) (slot : Nat) (text : List UInt8)
  | drop (slot : Nat)

def step (s : State) : Event → State
  | .connect env packet => svcDirectConnect env packet s
  | .userinfo env slot text => readUserinfo env slot text s
  | .drop slot => svKickClient slot s

/-! ## Clean strings -/

/-- What the game may be handed for a client with this address. -/
structure Proper (adr u : List UInt8) : Prop where
  wellFormed : svUserinfoValidate u = true
  validated : infoValidate u = true
  address : infoKeyExists u ip = true → infoValueForKey u ip = adr

/-- `allowed` are the addresses that may stand in the string. -/
structure CleanPair (allowed : List UInt8 → Prop) (p : Pair) : Prop where
  short : ShortPair p
  value : p.2 ≠ []
  quotes : quote ∉ p.1 ∧ quote ∉ p.2
  semicolons : semicolon ∉ p.1 ∧ semicolon ∉ p.2
  address : p.1 = ip → allowed p.2
  printable : p.1 = name ∨ p.1 = skin → infoCheckBytes p.2 = true

def Clean (allowed : List UInt8 → Prop) (u : List UInt8) : Prop :=
  ∃ pairs, u = render pairs ∧ ∀ p ∈ pairs, CleanPair allowed p

theorem mem_render {pairs : List Pair} {c : UInt8} (h : c ∈ render pairs) :
    c = backslash ∨ ∃ p ∈ pairs, c ∈ p.1 ∨ c ∈ p.2 := by
  obtain ⟨p, hp, hc⟩ := List.mem_flatMap.mp h
  simp only [renderPair, List.cons_append, List.mem_cons, List.mem_append] at hc
  rcases hc with hc | hc | hc | hc
  · exact Or.inl hc
  · exact Or.inr ⟨p, hp, Or.inl hc⟩
  · exact Or.inl hc
  · exact Or.inr ⟨p, hp, Or.inr hc⟩

/-- A clean string is what the game may be handed. -/
theorem Clean.proper {adr u : List UInt8} (h : Clean (· = adr) u) : Proper adr u := by
  obtain ⟨pairs, rfl, hpairs⟩ := h
  have hslash : ∀ p ∈ pairs, NoBackslash p := fun p hp => (hpairs p hp).short.noBackslash
  constructor
  · refine svUserinfoValidate_render pairs (fun p hp => (hpairs p hp).short) ?_
    intro p hp
    exact (hpairs p (List.mem_of_getLast? hp)).value
  · refine (infoValidate_iff _).mpr ⟨?_, ?_⟩
    · intro hquote
      rcases mem_render hquote with heq | ⟨p, hp, hc⟩
      · cases heq
      · exact hc.elim (hpairs p hp).quotes.1 (hpairs p hp).quotes.2
    · intro hsemicolon
      rcases mem_render hsemicolon with heq | ⟨p, hp, hc⟩
      · cases heq
      · exact hc.elim (hpairs p hp).semicolons.1 (hpairs p hp).semicolons.2
  · intro hexists
    rw [infoKeyExists_render pairs hslash, List.any_eq_true] at hexists
    rw [infoValueForKey_render pairs hslash]
    cases hfind : pairs.find? fun p => p.1 = ip with
    | none =>
      obtain ⟨p, hp, hkey⟩ := hexists
      exact absurd hkey (List.find?_eq_none.mp hfind p hp)
    | some p =>
      have hkey : p.1 = ip := by simpa using List.find?_some hfind
      exact (hpairs p (List.mem_of_find?_eq_some hfind)).address hkey

/-- A string without an address is clean for every one. -/
theorem Clean.of_no_ip {adr u : List UInt8} (h : Clean (fun _ => True) u)
    (hnone : infoKeyExists u ip = false) : Clean (· = adr) u := by
  obtain ⟨pairs, rfl, hpairs⟩ := h
  rw [infoKeyExists_render pairs fun p hp => (hpairs p hp).short.noBackslash] at hnone
  refine ⟨pairs, rfl, fun p hp => { hpairs p hp with address := ?_ }⟩
  intro hkey
  exact absurd hkey (by simpa using List.any_eq_false.mp hnone p hp)

theorem Clean.infoRemoveKey {allowed : List UInt8 → Prop} {u key : List UInt8}
    (h : Clean allowed u) (hkey : backslash ∉ key) : Clean allowed (infoRemoveKey u key) := by
  obtain ⟨pairs, rfl, hpairs⟩ := h
  refine ⟨_, infoRemoveKey_render pairs (fun p hp => (hpairs p hp).short.noBackslash) hkey, ?_⟩
  exact fun p hp => hpairs p (List.mem_of_mem_eraseP hp)

/-- A key that may be set, and its value. -/
structure Settable (allowed : List UInt8 → Prop) (key value : List UInt8) : Prop where
  noBackslash : backslash ∉ key
  noQuote : quote ∉ key
  noSemicolon : semicolon ∉ key
  printableKey : infoCheckBytes key = true
  printable : infoCheckBytes value = true
  address : key = ip → allowed value

theorem render_append (pairs : List Pair) (p : Pair) :
    render (pairs ++ [p]) = render pairs ++ renderPair p := by
  simp [render]

/-- A clean string stays clean when a pair is set. -/
theorem Clean.infoSetValueForKey {allowed : List UInt8 → Prop} {u key value : List UInt8}
    (h : Clean allowed u) (hset : Settable allowed key value) :
    Clean allowed (infoSetValueForKey u key value) := by
  have hremoved := h.infoRemoveKey hset.noBackslash
  simp only [InfoString.infoSetValueForKey, hset.noBackslash, hset.noQuote, hset.noSemicolon,
    false_or]
  split
  · exact h
  rename_i hbackslash
  split
  · exact h
  rename_i hsemicolon
  split
  · exact h
  rename_i hquote
  split
  · exact h
  rename_i hlong
  split
  · exact hremoved
  rename_i hvalue
  have hfits : (backslash :: key ++ backslash :: value).length < maxInfoString := by
    simp only [List.length_append, List.length_cons, maxInfoString, maxInfoKey] at hlong ⊢
    omega
  have hnewi : asciiValues (backslash :: key ++ backslash :: value) = renderPair (key, value) := by
    refine asciiValues_of_printable ?_
    have hslash : InfoString.printable backslash = true := rfl
    simp only [infoCheckBytes, List.all_append, List.all_cons, hslash, Bool.true_and,
      Bool.and_eq_true]
    exact ⟨hset.printableKey, hset.printable⟩
  rw [comSprintf_of_fits hfits, hnewi]
  split
  · exact hremoved
  obtain ⟨pairs, hrender, hpairs⟩ := hremoved
  refine ⟨pairs ++ [(key, value)], ?_, ?_⟩
  · rw [hrender, render_append]
  · intro p hp
    rcases List.mem_append.mp hp with hp | hp
    · exact hpairs p hp
    · obtain rfl := List.mem_singleton.mp hp
      simp only [maxInfoKey] at hlong
      constructor
      · exact ⟨⟨hset.noBackslash, hbackslash⟩, by simp only [maxInfoKey]; omega,
          by simp only [maxInfoValue]; omega⟩
      · exact hvalue
      · exact ⟨hset.noQuote, hquote⟩
      · exact ⟨hset.noSemicolon, hsemicolon⟩
      · exact hset.address
      · exact fun _ => hset.printable

/-! ## Printable values -/

theorem infoCheckBytes_of_subset {s t : List UInt8} (h : infoCheckBytes t = true) (hsub : s ⊆ t) :
    infoCheckBytes s = true :=
  List.all_eq_true.mpr fun c hc => List.all_eq_true.mp h c (hsub hc)

theorem infoCheckBytes_append {s t : List UInt8} (hs : infoCheckBytes s = true)
    (ht : infoCheckBytes t = true) : infoCheckBytes (s ++ t) = true := by
  simp only [infoCheckBytes, List.all_append, Bool.and_eq_true]
  exact ⟨hs, ht⟩

theorem infoCheckBytes_cons {c : UInt8} {s : List UInt8} (hc : InfoString.printable c = true)
    (hs : infoCheckBytes s = true) : infoCheckBytes (c :: s) = true := by
  simp only [infoCheckBytes, List.all_cons, Bool.and_eq_true]
  exact ⟨hc, hs⟩

theorem infoCheckBytes_decimal (n : Nat) : infoCheckBytes (decimal n) = true := by
  refine List.all_eq_true.mpr fun c hc => ?_
  obtain ⟨d, hd, rfl⟩ := List.mem_map.mp hc
  have hdigit := Nat.isDigit_of_mem_toDigits (by decide) (by decide) hd
  have hbounds : 48 ≤ d.toNat ∧ d.toNat ≤ 57 := by
    simpa [Char.isDigit, UInt32.le_iff_toNat_le] using hdigit
  have hbyte : (UInt8.ofNat d.toNat).toNat = d.toNat := by
    rw [UInt8.toNat_ofNat']
    exact Nat.mod_eq_of_lt (by omega)
  simp only [InfoString.printable, Bool.and_eq_true, decide_eq_true_eq, UInt8.le_iff_toNat_le,
    UInt8.lt_iff_toNat_lt, hbyte]
  exact ⟨Nat.le_trans (by decide) hbounds.1, Nat.lt_of_le_of_lt hbounds.2 (by decide)⟩

theorem infoCheckBytes_padded {fill : UInt8} (hfill : InfoString.printable fill = true)
    (width n : Nat) : infoCheckBytes (padded fill width n) = true := by
  refine infoCheckBytes_append ?_ (infoCheckBytes_decimal n)
  refine List.all_eq_true.mpr fun c hc => ?_
  rw [List.eq_of_mem_replicate hc]
  exact hfill

theorem infoCheckBytes_netAdrToString (a : Netadr) : infoCheckBytes (netAdrToString a) = true := by
  have hdot : InfoString.printable 46 = true := rfl
  have hcolon : InfoString.printable 58 = true := rfl
  simp only [netAdrToString, List.append_assoc, List.cons_append]
  refine infoCheckBytes_append (infoCheckBytes_decimal _) (infoCheckBytes_cons hdot ?_)
  refine infoCheckBytes_append (infoCheckBytes_decimal _) (infoCheckBytes_cons hdot ?_)
  refine infoCheckBytes_append (infoCheckBytes_decimal _) (infoCheckBytes_cons hdot ?_)
  exact infoCheckBytes_append (infoCheckBytes_decimal _)
    (infoCheckBytes_cons hcolon (infoCheckBytes_decimal _))

theorem infoCheckBytes_defaultSkin (env : Env) (model : List UInt8) :
    infoCheckBytes (defaultSkin env model) = true := by
  have hspace : InfoString.printable space = true := rfl
  have hzero : InfoString.printable 48 = true := rfl
  have hthree : ∀ {s : List UInt8}, infoCheckBytes s = true → ∀ a b c,
      infoCheckBytes (s ++ padded 48 3 a ++ space :: padded 48 3 b ++ space :: padded 48 3 c) =
        true := by
    intro s hs a b c
    refine infoCheckBytes_append (infoCheckBytes_append (infoCheckBytes_append hs ?_) ?_) ?_
    · exact infoCheckBytes_padded hzero 3 a
    · exact infoCheckBytes_cons hspace (infoCheckBytes_padded hzero 3 b)
    · exact infoCheckBytes_cons hspace (infoCheckBytes_padded hzero 3 c)
  simp only [defaultSkin]
  split
  · exact hthree rfl _ _ _
  · exact hthree rfl _ _ _

theorem printable_toLower {c : UInt8} (h : InfoString.printable c = true) :
    InfoString.printable (toLower c) = true := by
  simp only [toLower]
  split
  · rename_i hupper
    have hc := UInt8.le_iff_toNat_le.mp hupper.2
    have hc' := UInt8.le_iff_toNat_le.mp hupper.1
    have hsum : (c + 32).toNat = c.toNat + 32 := by
      rw [UInt8.toNat_add]
      exact Nat.mod_eq_of_lt (Nat.lt_of_le_of_lt (Nat.add_le_add_right hc 32) (by decide))
    simp only [InfoString.printable, Bool.and_eq_true, decide_eq_true_eq, UInt8.le_iff_toNat_le,
      UInt8.lt_iff_toNat_lt, hsum]
    exact ⟨Nat.le_add_left 32 _, Nat.lt_of_le_of_lt (Nat.add_le_add_right hc 32) (by decide)⟩
  · exact h

theorem infoCheckBytes_lower {s : List UInt8} (h : infoCheckBytes s = true) :
    infoCheckBytes (lower s) = true := by
  refine List.all_eq_true.mpr fun c hc => ?_
  obtain ⟨d, hd, rfl⟩ := List.mem_map.mp hc
  exact printable_toLower (List.all_eq_true.mp h d hd)

/-- A byte that is no letter comes from itself alone. -/
theorem eq_of_toLower_eq {c d : UInt8} (other : d < 65 ∨ (90 < d ∧ d < 97)) (h : toLower c = d) :
    c = d := by
  rw [toLower] at h
  split at h
  · grind
  · exact h

theorem not_mem_lower {s : List UInt8} (string : 0 ∉ s) : 0 ∉ lower s := by
  intro found
  obtain ⟨c, hc, same⟩ := List.mem_map.mp found
  exact string (eq_of_toLower_eq (by decide) same ▸ hc)

/-- Names and skins of a clean string are printable. -/
theorem Clean.infoCheckBytes_value {allowed : List UInt8 → Prop} {u key : List UInt8}
    (h : Clean allowed u) (hkey : key = name ∨ key = skin) :
    infoCheckBytes (infoValueForKey u key) = true := by
  obtain ⟨pairs, rfl, hpairs⟩ := h
  rw [infoValueForKey_render pairs fun p hp => (hpairs p hp).short.noBackslash]
  cases hfind : pairs.find? fun p => p.1 = key with
  | none => rfl
  | some p =>
    have hp : p.1 = key := by simpa using List.find?_some hfind
    exact (hpairs p (List.mem_of_find?_eq_some hfind)).printable (hp ▸ hkey)

/-! ## The steps keep a string clean -/

theorem settable {allowed : List UInt8 → Prop} {key value : List UInt8}
    (hkey : key = name ∨ key = skin ∨ key = ascii "fov" ∨ key = ascii "country")
    (hvalue : infoCheckBytes value = true) : Settable allowed key value := by
  rcases hkey with rfl | rfl | rfl | rfl
  all_goals exact ⟨by decide, by decide, by decide, rfl, hvalue, fun h => absurd h (by decide)⟩

theorem infoCheckBytes_numberedName (s : State) (slot : Nat) {stem : List UInt8}
    (hstem : infoCheckBytes stem = true) : infoCheckBytes (numberedName s slot stem) = true := by
  have hcandidate : ∀ n, infoCheckBytes (stem ++ padded space 2 n) = true := fun n =>
    infoCheckBytes_append hstem (infoCheckBytes_padded rfl 2 n)
  simp only [numberedName]
  split
  · exact hcandidate _
  · exact hcandidate _

theorem clean_svNameClash (env : Env) (s : State) (slot : Nat) (cl : Client)
    (hname : infoCheckBytes cl.name = true) {allowed : List UInt8 → Prop} {u : List UInt8}
    (h : Clean allowed u) : Clean allowed (svNameClash env s slot cl u) := by
  have hval := h.infoCheckBytes_value (Or.inl rfl)
  simp only [svNameClash]
  split
  swap
  · exact h
  split
  · exact h
  split
  swap
  · exact h
  refine h.infoSetValueForKey (settable (Or.inl rfl) ?_)
  split
  · exact hname
  · refine infoCheckBytes_numberedName s slot (infoCheckBytes_of_subset hval ?_)
    exact fun c hc => List.mem_of_mem_take (List.mem_of_mem_take hc)

theorem clean_fixFov (env : Env) {allowed : List UInt8 → Prop} {u : List UInt8}
    (h : Clean allowed u) : Clean allowed (fixFov env u) := by
  simp only [fixFov]
  split
  · exact h.infoSetValueForKey (settable (by simp) rfl)
  · exact h

/-- Printable bytes and zeros. -/
def Blank (s : List UInt8) : Prop := ∀ c ∈ s, c = 0 ∨ InfoString.printable c = true

theorem blank_of_infoCheckBytes {s : List UInt8} (h : infoCheckBytes s = true) : Blank s :=
  fun c hc => Or.inr (List.all_eq_true.mp h c hc)

theorem Blank.infoCheckBytes_takeWhile {s : List UInt8} (h : Blank s) :
    infoCheckBytes (s.takeWhile (· ≠ 0)) = true := by
  refine List.all_eq_true.mpr fun c hc => ?_
  have hnonzero := List.mem_takeWhile_imp hc
  exact (h c (List.takeWhile_subset _ hc)).resolve_left (by simpa using hnonzero)

theorem Blank.overwriteAt {s new : List UInt8} (h : Blank s) (i : Nat) (hnew : Blank new) :
    Blank (overwriteAt s i new) := by
  intro c hc
  simp only [Userinfo.overwriteAt, List.mem_append] at hc
  rcases hc with (hc | hc) | hc
  · exact h c (List.mem_of_mem_take hc)
  · exact hnew c hc
  · exact h c (List.mem_of_mem_drop hc)

theorem blank_checkSkin (env : Env) (model part : List UInt8) (i : Nat)
    {buffer : List UInt8 × Bool} (h : Blank buffer.1) : Blank (checkSkin env model part i buffer).1 := by
  simp only [checkSkin]
  split
  · exact h.overwriteAt i (blank_of_infoCheckBytes rfl)
  · exact h

/-- The check of the skin leaves the string clean. -/
theorem clean_fixSkin (env : Env) (hstale : Blank env.stale) {cl : Client}
    (hskin : infoCheckBytes cl.skin = true) {allowed : List UInt8 → Prop}
    (h : Clean allowed cl.userinfo) : Clean allowed (fixSkin env cl).1 := by
  have hval := h.infoCheckBytes_value (Or.inr rfl)
  simp only [fixSkin]
  split
  · exact h
  cases lastSlash (infoValueForKey cl.userinfo skin) with
  | none => exact h
  | some slash =>
    simp only
    have hmodel : infoCheckBytes (lower ((infoValueForKey cl.userinfo skin).take slash)) = true :=
      infoCheckBytes_lower (infoCheckBytes_of_subset hval fun c hc => List.mem_of_mem_take hc)
    split
    · exact h
    split
    · refine h.infoSetValueForKey (settable (Or.inr (Or.inl rfl)) ?_)
      split
      · exact hskin
      · exact infoCheckBytes_defaultSkin env _
    split
    · refine h.infoSetValueForKey (settable (Or.inr (Or.inl rfl)) ?_)
      refine infoCheckBytes_append hmodel (infoCheckBytes_cons rfl ?_)
      refine Blank.infoCheckBytes_takeWhile ?_
      refine blank_checkSkin env _ _ _ (blank_checkSkin env _ _ _ (blank_checkSkin env _ _ _ ?_))
      intro c hc
      simp only [skinBuffer, List.mem_append, List.mem_cons] at hc
      rcases hc with hc | hc | hc
      · exact Or.inr (List.all_eq_true.mp hval c (List.mem_of_mem_drop hc))
      · exact Or.inl hc
      · exact hstale c hc
    · exact h

/-! ## Accepted strings after the filters -/

/-- Pairs as the first check wants them. -/
def Shaped (u : List UInt8) : Prop := ∃ pairs, u = render pairs ∧ ∀ p ∈ pairs, ShortPair p

theorem shaped_of_svUserinfoValidate {u : List UInt8} (h : svUserinfoValidate u = true) :
    Shaped u := by
  obtain ⟨pairs, hrender, hpairs, -⟩ := exists_pairs_of_svUserinfoValidate h
  exact ⟨pairs, hrender, hpairs⟩

theorem shaped_stripHighBits {u : List UInt8} (h : Shaped u) (highbits : Bool) :
    Shaped (stripHighBits u highbits) := by
  obtain ⟨pairs, rfl, hpairs⟩ := h
  let keep : UInt8 → Bool := fun c => 32 ≤ c && c ≤ (if highbits then 127 else 255)
  have hslash : keep backslash = true := by cases highbits <;> rfl
  refine ⟨pairs.map fun p => (p.1.filter keep, p.2.filter keep), ?_, ?_⟩
  · simp only [stripHighBits, render, List.filter_flatMap, List.flatMap_map]
    refine List.flatMap_congr fun p _ => ?_
    change (renderPair p).filter keep = _
    simp only [renderPair, List.filter_append, List.filter_cons_of_pos hslash, List.cons_append]
  · intro q hq
    obtain ⟨p, hp, rfl⟩ := List.mem_map.mp hq
    have hshort := hpairs p hp
    refine ⟨⟨?_, ?_⟩, ?_, ?_⟩
    · exact fun hmem => hshort.noBackslash.1 (List.mem_of_mem_filter hmem)
    · exact fun hmem => hshort.noBackslash.2 (List.mem_of_mem_filter hmem)
    · exact Nat.lt_of_le_of_lt (List.length_filter_le ..) hshort.shortKey
    · exact Nat.lt_of_le_of_lt (List.length_filter_le ..) hshort.shortValue

theorem shaped_formatStringHack (env : Env) {u : List UInt8} (h : Shaped u) :
    Shaped (formatStringHack env u) := by
  simp only [formatStringHack]
  split
  swap
  · exact h
  obtain ⟨pairs, rfl, hpairs⟩ := h
  let blank : UInt8 → UInt8 := fun c => if c = 37 then space else c
  have hslash : ∀ {t : List UInt8}, backslash ∉ t → backslash ∉ t.map blank := by
    intro t ht hmem
    obtain ⟨c, hc, hblank⟩ := List.mem_map.mp hmem
    by_cases hpercent : c = 37
    · rw [show blank c = space from if_pos hpercent] at hblank
      cases hblank
    · rw [show blank c = c from if_neg hpercent] at hblank
      exact ht (hblank ▸ hc)
  refine ⟨pairs.map fun p => (p.1.map blank, p.2.map blank), ?_, ?_⟩
  · simp only [render, List.map_flatMap, List.flatMap_map]
    refine List.flatMap_congr fun p _ => ?_
    have hkeep : blank backslash = backslash := rfl
    simp only [renderPair, List.map_append, List.map_cons, List.cons_append]
    change blank backslash :: (p.1.map blank ++ blank backslash :: p.2.map blank) = _
    rw [hkeep]
  · intro q hq
    obtain ⟨p, hp, rfl⟩ := List.mem_map.mp hq
    have hshort := hpairs p hp
    exact ⟨⟨hslash hshort.noBackslash.1, hslash hshort.noBackslash.2⟩,
      by simpa using hshort.shortKey, by simpa using hshort.shortValue⟩

theorem shaped_filterUserinfo (env : Env) {u : List UInt8} (h : Shaped u) :
    Shaped (filterUserinfo env u) := by
  simp only [filterUserinfo]
  split
  · exact shaped_stripHighBits h _
  · exact h

theorem infoValidate_filterUserinfo (env : Env) {u : List UInt8} (h : infoValidate u = true) :
    infoValidate (filterUserinfo env u) = true := by
  simp only [filterUserinfo]
  split
  · rw [infoValidate_iff] at h ⊢
    exact ⟨fun hmem => h.1 (List.mem_of_mem_filter hmem),
      fun hmem => h.2 (List.mem_of_mem_filter hmem)⟩
  · exact h

theorem infoValidate_formatStringHack (env : Env) {u : List UInt8} (h : infoValidate u = true) :
    infoValidate (formatStringHack env u) = true := by
  simp only [formatStringHack]
  split
  swap
  · exact h
  rw [infoValidate_iff] at h ⊢
  have hmem : ∀ {d : UInt8}, d ≠ space → d ∈ u.map (fun c => if c = 37 then space else c) → d ∈ u := by
    intro d hd hmap
    obtain ⟨c, hc, heq⟩ := List.mem_map.mp hmap
    split at heq
    · exact absurd heq.symm hd
    · exact heq ▸ hc
  exact ⟨fun hquote => h.1 (hmem (by decide) hquote), fun hsemi => h.2 (hmem (by decide) hsemi)⟩

/-- No empty value, and no bytes in names and skins that `Info_SetValueForKey` would drop or
turn into others. -/
def Harmless (u : List UInt8) : Prop :=
  ∀ p ∈ infoPairs u, p.2 ≠ [] ∧ (p.1 = name ∨ p.1 = skin → infoCheckBytes p.2 = true)

instance (u : List UInt8) : Decidable (Harmless u) :=
  inferInstanceAs (Decidable (∀ p ∈ infoPairs u, _))

theorem clean_of_harmless {u : List UInt8} (hshape : Shaped u) (hvalid : infoValidate u = true)
    (h : Harmless u) : Clean (fun _ => True) u := by
  obtain ⟨pairs, rfl, hpairs⟩ := hshape
  have hsame := infoPairs_render pairs fun p hp => (hpairs p hp).noBackslash
  rw [infoValidate_iff] at hvalid
  have hin : ∀ p ∈ pairs, ∀ c, c ∈ p.1 ∨ c ∈ p.2 → c ∈ render pairs := by
    intro p hp c hc
    refine List.mem_flatMap.mpr ⟨p, hp, ?_⟩
    simp only [renderPair, List.cons_append, List.mem_cons, List.mem_append]
    exact Or.inr (hc.imp id Or.inr)
  refine ⟨pairs, rfl, fun p hp => ?_⟩
  obtain ⟨hvalue, hprintable⟩ := h p (by rw [hsame]; exact hp)
  exact
    { short := hpairs p hp
      value := hvalue
      quotes := ⟨fun hc => hvalid.1 (hin p hp _ (Or.inl hc)), fun hc => hvalid.1 (hin p hp _ (Or.inr hc))⟩
      semicolons :=
        ⟨fun hc => hvalid.2 (hin p hp _ (Or.inl hc)), fun hc => hvalid.2 (hin p hp _ (Or.inr hc))⟩
      address := fun _ => trivial
      printable := hprintable }

/-! ## Runs -/

/-- The game keeps strings clean, the country is printable, and so is what the buffer of
`Info_ValueForKey` has left. -/
structure Tame (env : Env) : Prop where
  stale : Blank env.stale
  country : ∀ country, env.country = some country → infoCheckBytes country = true
  connect : ∀ adr u, Clean (· = adr) u → (env.clientConnect u).1 = true →
    Clean (· = adr) (env.clientConnect u).2
  changed : ∀ adr u, Clean (· = adr) u → Clean (· = adr) (env.clientUserinfoChanged u)

/-- The condition on one packet. -/
def Meets (_ : State) : Event → Prop
  | .connect env packet => Tame env ∧
      (refusesUserinfo env (packet.userinfo.take (maxInfoString - 1)) = false →
        Harmless (filterUserinfo env (packet.userinfo.take (maxInfoString - 1))))
  | .userinfo env _ text => Tame env ∧
      (svUserinfoValidate (text.take (maxInfoString - 1)) = true →
        infoValidate (text.take (maxInfoString - 1)) = true ∧
          Harmless (filterUserinfo env (formatStringHack env (text.take (maxInfoString - 1)))))
  | .drop _ => True

structure Inv (s : State) : Prop where
  names : ∀ slot, infoCheckBytes (s.clients slot).name = true
  skins : ∀ slot, infoCheckBytes (s.clients slot).skin = true
  handed : ∀ h ∈ s.handed, Proper (netAdrToString h.1) h.2

theorem Inv.setClient {s : State} (h : Inv s) (slot : Nat) {cl : Client}
    (hname : infoCheckBytes cl.name = true) (hskin : infoCheckBytes cl.skin = true) :
    Inv (setClient s slot cl) := by
  refine ⟨?_, ?_, h.handed⟩
  · intro other
    simp only [Userinfo.setClient, Function.update_apply]
    split
    · exact hname
    · exact h.names other
  · intro other
    simp only [Userinfo.setClient, Function.update_apply]
    split
    · exact hskin
    · exact h.skins other

/-- Kicking a client hands nothing to the game. -/
theorem inv_svKickClient {s : State} (h : Inv s) (slot : Nat) : Inv (svKickClient slot s) :=
  h.setClient slot rfl (h.skins slot)

theorem infoCheckBytes_maskName {val : List UInt8} (h : infoCheckBytes val = true) :
    infoCheckBytes (maskName val) = true := by
  have hmask : (val.take 15).map (fun c => c &&& 127) = val.take 15 := by
    conv_rhs => rw [← List.map_id (val.take 15)]
    refine List.map_congr_left fun c hc => ?_
    exact and_127_of_lt (printable_lt (List.all_eq_true.mp h c (List.mem_of_mem_take hc)))
  rw [maskName, hmask]
  exact infoCheckBytes_of_subset h fun c hc => List.mem_of_mem_take (List.takeWhile_subset _ hc)

theorem Inv.readFields {s : State} (h : Inv s) (slot : Nat) {cl : Client}
    (hskin : infoCheckBytes cl.skin = true) {allowed : List UInt8 → Prop}
    (hclean : Clean allowed cl.userinfo) : Inv (Userinfo.setClient s slot (readFields cl)) := by
  refine h.setClient slot (infoCheckBytes_maskName (hclean.infoCheckBytes_value (Or.inl rfl))) ?_
  simp only [Userinfo.readFields]
  split
  · exact hskin
  · exact infoCheckBytes_of_subset (hclean.infoCheckBytes_value (Or.inr rfl))
      fun c hc => List.mem_of_mem_take hc

/-- What is stored of a clean userinfo, and handed to the game, is proper. -/
theorem inv_svUpdateUserinfo {env : Env} (htame : Tame env) {s : State} (h : Inv s) (slot : Nat)
    {cl : Client} (hname : infoCheckBytes cl.name = true) (hskin : infoCheckBytes cl.skin = true)
    (hclean : Clean (· = netAdrToString cl.adr) cl.userinfo) (notifyGame : Bool) :
    Inv (svUpdateUserinfo env slot cl notifyGame s) := by
  have hrewritten := clean_svNameClash env s slot cl hname
    (clean_fixFov env (clean_fixSkin env htame.stale hskin hclean))
  simp only [svUpdateUserinfo]
  split
  · let told : Client := { cl with
      badmodel := (fixSkin env cl).2
      userinfo := env.clientUserinfoChanged
        (svNameClash env s slot cl (fixFov env (fixSkin env cl).1)) }
    have hread : Inv (setClient s slot (readFields told)) :=
      h.readFields slot hskin (htame.changed _ _ hrewritten)
    refine ⟨hread.names, hread.skins, ?_⟩
    intro entry hentry
    rcases List.mem_append.mp hentry with hentry | hentry
    · exact h.handed entry hentry
    · rw [List.mem_singleton.mp hentry]
      exact hrewritten.proper
  · exact h.readFields slot hskin hrewritten

theorem clean_restoreName {cl : Client} {userinfo : List UInt8}
    (hname : infoCheckBytes cl.name = true) {allowed : List UInt8 → Prop}
    (hclean : Clean allowed cl.userinfo) (h : restoreName cl = some userinfo) :
    Clean allowed userinfo := by
  simp only [restoreName] at h
  split at h
  · split at h
    · rw [← Option.some.inj h]
      exact hclean.infoSetValueForKey (settable (Or.inl rfl) hname)
    · cases h
  · rw [← Option.some.inj h]
    exact hclean

/-- A userinfo is stored if it passes the checks. -/
theorem inv_svUserinfoChanged {env : Env} (htame : Tame env) {s : State} (h : Inv s) (slot : Nat)
    {cl : Client} (hname : infoCheckBytes cl.name = true) (hskin : infoCheckBytes cl.skin = true)
    (hmeets : svUserinfoValidate cl.userinfo = true → infoValidate cl.userinfo = true ∧
      Harmless (filterUserinfo env (formatStringHack env cl.userinfo))) :
    Inv (svUserinfoChanged env slot cl s) := by
  have hset : Inv (setClient s slot cl) := h.setClient slot hname hskin
  have hkicked := inv_svKickClient hset slot
  simp only [svUserinfoChanged]
  split
  · exact hkicked
  split
  · exact hkicked
  rename_i hshape
  have hshape : svUserinfoValidate cl.userinfo = true := by simpa using hshape
  obtain ⟨hvalid, hharmless⟩ := hmeets hshape
  split
  · exact hkicked
  have hclean : Clean (fun _ => True) (filterUserinfo env (formatStringHack env cl.userinfo)) :=
    clean_of_harmless
      (shaped_filterUserinfo env
        (shaped_formatStringHack env (shaped_of_svUserinfoValidate hshape)))
      (infoValidate_filterUserinfo env (infoValidate_formatStringHack env hvalid)) hharmless
  split
  · exact hkicked
  rename_i userinfo hrestored
  have hfiltered : Clean (fun _ => True) userinfo := by
    refine clean_restoreName ?_ ?_ hrestored
    · exact hname
    · exact hclean
  split
  · exact hkicked
  rename_i hip
  split
  · exact hkicked
  have howned : Clean (· = netAdrToString cl.adr) userinfo :=
    hfiltered.of_no_ip (Bool.eq_false_iff.mpr hip)
  refine inv_svUpdateUserinfo htame hset slot ?_ ?_ ?_ true
  · exact hname
  · exact hskin
  · exact howned

/-- A client may send a userinfo at any time. -/
theorem inv_readUserinfo {env : Env} (htame : Tame env) {s : State} (h : Inv s) (slot : Nat)
    (text : List UInt8)
    (hmeets : svUserinfoValidate (text.take (maxInfoString - 1)) = true →
      infoValidate (text.take (maxInfoString - 1)) = true ∧
        Harmless (filterUserinfo env (formatStringHack env (text.take (maxInfoString - 1))))) :
    Inv (readUserinfo env slot text s) := by
  simp only [readUserinfo]
  split
  · exact inv_svUserinfoChanged htame h slot (h.names slot) (h.skins slot) hmeets
  · exact h

theorem clean_setCountry {env : Env} (htame : Tame env) {allowed : List UInt8 → Prop}
    {u : List UInt8} (h : Clean allowed u) : Clean allowed (setCountry env u) := by
  have hremoved : Clean allowed (infoRemoveKey u (ascii "country")) := h.infoRemoveKey (by decide)
  cases hcountry : env.country with
  | none =>
    simp only [setCountry, hcountry]
    exact hremoved
  | some country =>
    simp only [setCountry, hcountry]
    refine hremoved.infoSetValueForKey (settable (by simp) ?_)
    exact infoCheckBytes_of_subset (htame.country country hcountry) fun c hc =>
      List.mem_of_mem_take hc

theorem clean_removePassword (env : Env) {allowed : List UInt8 → Prop} {u : List UInt8}
    (h : Clean allowed u) : Clean allowed (removePassword env u) := by
  simp only [removePassword]
  split
  · exact h.infoRemoveKey (by decide)
  · exact h

theorem settable_ip (a : Netadr) : Settable (· = netAdrToString a) ip (netAdrToString a) where
  noBackslash := by decide
  noQuote := by decide
  noSemicolon := by decide
  printableKey := rfl
  printable := infoCheckBytes_netAdrToString a
  address := fun _ => rfl

/-- A connect stores a userinfo that passes the checks. -/
theorem inv_svcDirectConnect {env : Env} (htame : Tame env) {s : State} (h : Inv s)
    (p : ConnectPacket)
    (hmeets : refusesUserinfo env (p.userinfo.take (maxInfoString - 1)) = false →
      Harmless (filterUserinfo env (p.userinfo.take (maxInfoString - 1)))) :
    Inv (svcDirectConnect env p s) := by
  simp only [svcDirectConnect]
  split
  · exact h
  rename_i hrefuses
  have haccepted := Bool.eq_false_iff.mpr hrefuses
  split
  · exact h
  rename_i hvalues
  generalize p.userinfo.take (maxInfoString - 1) = text at *
  have hclean : Clean (· = netAdrToString p.adr) (filterUserinfo env text) := by
    have hharmless := hmeets haccepted
    simp only [refusesUserinfo, Bool.or_eq_false_iff, Bool.not_eq_false'] at haccepted
    simp only [refusesValues, Bool.or_eq_true, not_or, Bool.not_eq_true] at hvalues
    refine Clean.of_no_ip (clean_of_harmless ?_ ?_ hharmless) hvalues.1.2
    · exact shaped_filterUserinfo env (shaped_of_svUserinfoValidate haccepted.1.1.2)
    · exact infoValidate_filterUserinfo env haccepted.1.1.1.2
  have hknown := clean_removePassword env (hclean.infoSetValueForKey (settable_ip p.adr))
  generalize removePassword env (infoSetValueForKey (filterUserinfo env text) ip
    (netAdrToString p.adr)) = known at hknown ⊢
  split
  swap
  · refine inv_svUpdateUserinfo htame h p.slot ?_ ?_ ?_ false
    · exact (rfl : infoCheckBytes [] = true)
    · exact (rfl : infoCheckBytes [] = true)
    · exact hknown
  have hoffered : Clean (· = netAdrToString p.adr) (connectUserinfo env p s known) :=
    clean_setCountry htame (clean_svNameClash env s p.slot _ rfl hknown)
  generalize connectUserinfo env p s known = offered at hoffered ⊢
  have hhanded : Inv { s with handed := s.handed ++ [(p.adr, offered)] } := by
    refine ⟨h.names, h.skins, ?_⟩
    intro entry hentry
    rcases List.mem_append.mp hentry with hentry | hentry
    · exact h.handed entry hentry
    · rw [List.mem_singleton.mp hentry]
      exact hoffered.proper
  split
  · rename_i hallowed
    refine inv_svUpdateUserinfo htame hhanded p.slot ?_ ?_ ?_ true
    · exact (rfl : infoCheckBytes [] = true)
    · exact (rfl : infoCheckBytes [] = true)
    · exact htame.connect _ _ hoffered hallowed
  · exact hhanded.setClient p.slot (rfl : infoCheckBytes [] = true) (rfl : infoCheckBytes [] = true)

/-- Every event keeps what is stored and handed over proper. -/
theorem inv_step (s : State) (e : Event) (h : Inv s) (hmeets : Meets s e) : Inv (step s e) := by
  cases e with
  | connect env packet => exact inv_svcDirectConnect hmeets.1 h packet hmeets.2
  | userinfo env slot text => exact inv_readUserinfo hmeets.1 h slot text hmeets.2
  | drop slot => exact inv_svKickClient h slot

/-- An empty server. -/
def start (maxclients : Nat) : State where
  maxclients := maxclients
  clients := fun _ => { newClient ⟨(0, 0, 0, 0), 0⟩ [] with state := .free }
  handed := []

/-- Nothing is stored, and nothing was handed over. -/
theorem inv_start (maxclients : Nat) : Inv (start maxclients) where
  names := fun _ => rfl
  skins := fun _ => rfl
  handed := fun _ hentry => by cases hentry

/-- In every run of packets that meet the condition, whatever the game is handed is valid and
names no address but the client's. -/
theorem run_proper (maxclients : Nat) (events : List Event)
    (harmless : StepRuns.AllSteps step Meets (start maxclients) events) :
    ∀ h ∈ (StepRuns.run step (start maxclients) events).handed,
      Proper (netAdrToString h.1) h.2 :=
  (StepRuns.invariant_run inv_step (inv_start maxclients) harmless).handed

/-! ## Examples -/

/-- All filters off, any model, and a game that changes nothing. -/
private def exampleEnv : Env where
  filterUserinfo := 0
  formatStringHack := false
  strictUserinfoCheck := false
  uniqueNames := true
  noZoom := false
  allowAnyModel := true
  teamplay := false
  password := []
  reservedPassword := []
  loadFile := fun _ => 0
  rand := fun _ => 0
  stale := []
  country := none
  userInfoBanned := fun _ => false
  clientConnect := fun userinfo => (true, userinfo)
  clientUserinfoChanged := id

private def exampleConnect : Event :=
  .connect exampleEnv ⟨⟨(10, 0, 0, 1), 31510⟩, ascii "\\name\\bob\\ver\\121", 0, true⟩

private def exampleUpdate : Event := .userinfo exampleEnv 0 (ascii "\\name\\rob\\fov\\90")

theorem tame_exampleEnv : Tame exampleEnv where
  stale := fun c hc => by cases hc
  country := fun country hcountry => by cases hcountry
  connect := fun _ _ h _ => h
  changed := fun _ _ h => h

/-- A client connects and changes its name. -/
theorem run_proper_example :
    (StepRuns.run step (start 2) [exampleConnect, exampleUpdate]).handed.Forall
      fun h => Proper (netAdrToString h.1) h.2 := by
  refine List.forall_iff_forall_mem.mpr
    (run_proper 2 _ ⟨⟨tame_exampleEnv, ?_⟩, ⟨tame_exampleEnv, ?_⟩, trivial⟩)
  · intro _
    decide +kernel
  · intro _
    decide +kernel

/-- A quote in an update gets to the game. -/
theorem quote_handed :
    ¬ ∀ h ∈ (StepRuns.run step (start 2)
      [exampleConnect, .userinfo exampleEnv 0 (ascii "\\name\\r\"ob")]).handed,
        Proper (netAdrToString h.1) h.2 := by
  intro hproper
  have hquote : (StepRuns.run step (start 2)
      [exampleConnect, .userinfo exampleEnv 0 (ascii "\\name\\r\"ob")]).handed.any
        (fun h => !infoValidate h.2) = true := by
    decide +kernel
  obtain ⟨h, hmem, hbad⟩ := List.any_eq_true.mp hquote
  have hgood := (hproper h hmem).validated
  rw [hgood] at hbad
  cases hbad

end Userinfo
