import Mathlib.Logic.Relation
import Kpded2.MessageLoops
import Kpded2.SkinIndex

/-!
# Changes of model skins

When the skins of a model change in a running level, `SV_SkinIndex` sends their configstring with
the length of a name behind it. A client reads that byte when it is in the game. Before that it
takes it for the type of the next message, which for a length of 3 is `svc_muzzleflash3`, so
`SV_AddMessageSingle` gives that message its three bytes of payload.
-/
namespace ModelskinUpdates
open MessageList MessageLoops MessageStorage Outcome Relation SizeBuf

/-! ## What is sent -/

inductive Call
  | skinIndex (server : SkinIndex.Server) (call : SkinIndex.Call)
  | configstring (table : Configstrings.Table) (call : Configstrings.Call)

/-- The configstring for all clients, and the byte that `SV_SkinIndex` writes behind it. -/
structure Update where
  index : Nat
  val : List UInt8
  len : Option Nat
  deriving DecidableEq

def Update.data (u : Update) : List UInt8 :=
  svcConfigstring :: (shortBytes u.index ++ u.val ++ 0 :: (u.len.map UInt8.ofNat).toList)

theorem Update.data_ne_nil (u : Update) : u.data ≠ [] := List.cons_ne_nil _ _

def Call.update : Call → Option Update
  | .skinIndex server call =>
    (SkinIndex.svSkinIndex server call.modelindex call.name).2.2.map fun u =>
      ⟨csModelskins + u.modelindex, u.skins, some u.len⟩
  | .configstring table call =>
    match Configstrings.pfConfigstring call table with
    | .ok (_, some (index, val)) => some ⟨index, val, none⟩
    | _ => none

/-- Strings end at their first NUL. -/
def Call.Terminated : Call → Prop
  | .skinIndex server call => 0 ∉ call.name ∧ 0 ∉ server.modelskins call.model
  | .configstring _ _ => True

def ofModelskin (index : Int) : Prop :=
  index > csModelskins ∧ index < csModelskins + maxModels

instance (index : Int) : Decidable (ofModelskin index) := inferInstanceAs (Decidable (_ ∧ _))

/-! ## The clients -/

/-- The types that are not needed here, with what is left behind their payload. -/
structure Grammar where
  other : UInt8 → List UInt8 → Option (List UInt8)
  forward : ∀ type s t, other type s = some t → t <:+ s

def readBytes (n : Nat) (s : List UInt8) : Option (List UInt8) :=
  if n ≤ s.length then some (s.drop n) else none

def readString (s : List UInt8) : Option (List UInt8) :=
  if 0 ∈ s then some ((s.dropWhile (· ≠ 0)).drop 1) else none

def readConfigstring (spawned : Bool) : List UInt8 → Option (List UInt8)
  | low :: high :: s =>
    if spawned ∧ ofModelskin (int16 (low.toNat + high.toNat * 2 ^ 8)) then
      (readString s).bind (readBytes 1)
    else readString s
  | _ => none

/-- What follows the payload of a message. -/
def Grammar.payload (g : Grammar) (spawned : Bool) (type : UInt8) (s : List UInt8) :
    Option (List UInt8) :=
  if type = svcNop then some s
  else if type = svcStufftext then readString s
  else if type = svcMuzzleflash3 then readBytes 3 s
  else if type = svcConfigstring then readConfigstring spawned s
  else g.other type s

def Grammar.next (g : Grammar) (spawned : Bool) : List UInt8 → Option (List UInt8)
  | [] => none
  | type :: s => g.payload spawned type s

/-- A client that reads on from `s` comes to `t`. -/
def Grammar.Reaches (g : Grammar) (spawned : Bool) : List UInt8 → List UInt8 → Prop :=
  ReflTransGen fun s t => g.next spawned s = some t

/-- Whatever follows the bytes, the client reads it from its start on. -/
def Grammar.InStep (g : Grammar) (spawned : Bool) (bytes : List UInt8) : Prop :=
  ∀ rest, g.Reaches spawned (bytes ++ rest) rest

variable {g : Grammar} {spawned : Bool} {s t u : List UInt8}

theorem readBytes_suffix {n : Nat} (read : readBytes n s = some t) : t <:+ s := by
  simp only [readBytes, Option.ite_none_right_eq_some, Option.some.injEq] at read
  rw [← read.2]
  exact List.drop_suffix n s

theorem readString_suffix (read : readString s = some t) : t <:+ s := by
  simp only [readString, Option.ite_none_right_eq_some, Option.some.injEq] at read
  rw [← read.2]
  exact (List.drop_suffix 1 _).trans (List.dropWhile_suffix _)

theorem readConfigstring_suffix (read : readConfigstring spawned s = some t) : t <:+ s := by
  rcases s with _ | ⟨low, _ | ⟨high, s⟩⟩
  · cases read
  · cases read
  · have behind : t <:+ s := by
      simp only [readConfigstring] at read
      split at read
      · obtain ⟨u, string, byte⟩ := Option.bind_eq_some_iff.mp read
        exact (readBytes_suffix byte).trans (readString_suffix string)
      · exact readString_suffix read
    exact (behind.trans (List.suffix_cons high s)).trans (List.suffix_cons low _)

theorem payload_suffix {type : UInt8} (read : g.payload spawned type s = some t) : t <:+ s := by
  simp only [Grammar.payload] at read
  split at read
  · cases read
    exact List.suffix_refl s
  split at read
  · exact readString_suffix read
  split at read
  · exact readBytes_suffix read
  split at read
  · exact readConfigstring_suffix read
  · exact g.forward type s t read

theorem next_suffix (read : g.next spawned s = some t) : ∃ type behind, s = type :: behind ∧
    t <:+ behind := by
  cases s with
  | nil => cases read
  | cons type behind => exact ⟨type, behind, rfl, payload_suffix read⟩

theorem next_length (read : g.next spawned s = some t) : t.length < s.length := by
  obtain ⟨type, behind, rfl, suffix⟩ := next_suffix read
  exact Nat.lt_succ_of_le suffix.length_le

theorem reaches_length (reaches : g.Reaches spawned s t) : t.length ≤ s.length := by
  induction reaches with
  | refl => exact Nat.le_refl _
  | tail _ read ih => exact (Nat.le_of_lt (next_length read)).trans ih

/-- A client that has not come to the rest has the next message before it. -/
theorem reaches_next (reaches : g.Reaches spawned s t) (before : t.length < s.length) :
    ∃ u, g.next spawned s = some u ∧ g.Reaches spawned u t := by
  rcases reaches.cases_head with same | ⟨u, read, later⟩
  · rw [same] at before
    exact absurd before (Nat.lt_irrefl _)
  · exact ⟨u, read, later⟩

theorem reaches_from (read : g.next spawned s = some u) (before : t.length < s.length) :
    g.Reaches spawned s t ↔ g.Reaches spawned u t := by
  constructor
  · intro reaches
    obtain ⟨v, hv, later⟩ := reaches_next reaches before
    rw [read] at hv
    cases hv
    exact later
  · exact ReflTransGen.head read

/-- One byte is a message of its own if and only if its type has no payload. -/
theorem reaches_tail (type : UInt8) :
    g.Reaches spawned (type :: t) t ↔ g.payload spawned type t = some t := by
  constructor
  · intro reaches
    obtain ⟨u, read, later⟩ := reaches_next reaches (Nat.lt_succ_self _)
    have suffix := payload_suffix read
    have same : u = t := suffix.eq_of_length_le (reaches_length later)
    rwa [same] at read
  · exact fun read => ReflTransGen.single read

/-! ## Reading a configstring -/

theorem readString_append {text : List UInt8} (terminated : 0 ∉ text) (rest : List UInt8) :
    readString (text ++ 0 :: rest) = some rest := by
  have inside : 0 ∈ text ++ 0 :: rest := List.mem_append_right _ List.mem_cons_self
  have text_drop : text.dropWhile (· ≠ 0) = [] := List.dropWhile_eq_nil_iff.mpr fun c hc => by
    simp only [ne_eq, decide_not, Bool.not_eq_eq_eq_not, Bool.not_true, decide_eq_false_iff_not]
    rintro rfl
    exact terminated hc
  rw [readString, if_pos inside, List.dropWhile_append, text_drop]
  rfl

theorem toNat_shortBytes {index : Nat} (small : index < 2 ^ 15) :
    int16 ((UInt8.ofNat index).toNat + (UInt8.ofNat (index / 2 ^ 8)).toNat * 2 ^ 8) = index := by
  have whole : (UInt8.ofNat index).toNat + (UInt8.ofNat (index / 2 ^ 8)).toNat * 2 ^ 8 = index := by
    simp only [UInt8.toNat_ofNat']
    omega
  rw [whole, int16_of_lt small]

/-- The update is one of a model skin, and its string is stored in one place. -/
structure Update.Proper (u : Update) : Prop where
  modelskin : ofModelskin u.index
  terminated : 0 ∉ u.val
  short : u.val.length < Configstrings.maxQpath

variable {v : Update}

theorem Update.Proper.small (proper : v.Proper) : v.index < 2 ^ 15 := by
  have := proper.modelskin.2
  have range : (csModelskins : Int) + maxModels = 1184 := rfl
  omega

theorem next_data (proper : v.Proper) (rest : List UInt8) :
    g.next spawned (v.data ++ rest) =
      (if spawned then readBytes 1 else some) ((v.len.map UInt8.ofNat).toList ++ rest) := by
  have string := readString_append proper.terminated ((v.len.map UInt8.ofNat).toList ++ rest)
  have modelskin := proper.modelskin
  have configstring (s : List UInt8) :
      g.next spawned (svcConfigstring :: s) = readConfigstring spawned s := rfl
  simp only [Update.data, shortBytes, List.cons_append, List.nil_append, List.append_assoc,
    configstring, readConfigstring, toNat_shortBytes proper.small, string]
  cases spawned with
  | true =>
    rw [if_pos ⟨rfl, modelskin⟩]
    rfl
  | false =>
    rw [if_neg (fun h => Bool.noConfusion h.1)]
    rfl

theorem length_data (v : Update) :
    v.data.length = v.val.length + 4 + (v.len.map UInt8.ofNat).toList.length := by
  simp only [Update.data, shortBytes, List.length_append, List.length_cons, List.length_nil]
  omega

/-- The bytes that fill the payload of `svc_muzzleflash3`, and are messages themselves. -/
def padding : List UInt8 := [svcStufftext, 0, svcNop]

theorem inStep_padding : g.InStep true padding := by
  intro rest
  have stufftext : g.next true (padding ++ rest) = some (svcNop :: rest) :=
    readString_append List.not_mem_nil (svcNop :: rest)
  exact ReflTransGen.head stufftext (ReflTransGen.single rfl)

/-- A client in the game reads the length. -/
theorem inStep_spawned {l : Nat} (proper : v.Proper) (len : v.len = some l) {pad : List UInt8}
    (behind : g.InStep true pad) : g.InStep true (v.data ++ pad) := by
  intro rest
  have read := @next_data g true v proper (pad ++ rest)
  rw [len, ← List.append_assoc] at read
  exact ReflTransGen.head read (behind rest)

/-- Without it he takes the first byte of the next message. -/
theorem not_inStep_spawned (proper : v.Proper) (len : v.len = none) : ¬g.InStep true v.data := by
  intro inStep
  have read := @next_data g true v proper []
  rw [len, List.append_nil] at read
  have reaches := inStep []
  rw [List.append_nil] at reaches
  obtain ⟨u, hu, -⟩ := reaches_next reaches (List.length_pos_of_ne_nil v.data_ne_nil)
  rw [read] at hu
  cases hu

theorem reaches_unspawned {l : Nat} (proper : v.Proper) (len : v.len = some l)
    (pad rest : List UInt8) :
    g.Reaches false (v.data ++ pad ++ rest) rest ↔
      g.Reaches false (UInt8.ofNat l :: (pad ++ rest)) rest := by
  have read := @next_data g false v proper (pad ++ rest)
  rw [len, ← List.append_assoc] at read
  refine reaches_from read ?_
  have := length_data v
  simp only [List.length_append]
  omega

/-- With the padding the length has become a message with its payload. -/
theorem inStep_padded (proper : v.Proper) (len : v.len = some 3) :
    g.InStep false (v.data ++ padding) := fun rest =>
  (reaches_unspawned proper len padding rest).mpr (ReflTransGen.single rfl)

/-- Without padding the length has to be a message of its own. -/
theorem inStep_unpadded {l : Nat} (proper : v.Proper) (len : v.len = some l) :
    g.InStep false v.data ↔ ∀ rest, g.payload false (UInt8.ofNat l) rest = some rest := by
  refine forall_congr' fun rest => ?_
  have reaches := @reaches_unspawned g v l proper len [] rest
  rw [List.append_nil] at reaches
  exact reaches.trans (reaches_tail (UInt8.ofNat l))

/-! ## What is queued -/

variable {m : Messages} {i : Nat} {state : ClientState} {data behind : List UInt8}

def writePadding (m : Messages) (i length : Nat) : Except Stop Messages := do
  let m ← m.write i length padding
  .ok (m.setCursize i (length + 3))

/-- The message of a client that has not spawned is padded if its last byte is 3. -/
theorem padModelskin_eq (storage : m.storage i = some (data ++ behind))
    (cursize : (m.nodes i).cursize = data.length) (three : 3 ≤ data.length) :
    padModelskin state m i =
      if state ≠ .spawned ∧ isModelskin data = true then writePadding m i data.length
      else .ok m := by
  have last : ((data.length : Int) - 1).toNat = data.length - 1 := by omega
  have positive : ¬(data.length : Int) < 1 := by omega
  simp only [padModelskin, modelskinIndex, byteAt_of_storage storage (show 0 < data.length by omega),
    byteAt_of_storage storage (show 1 < data.length by omega),
    byteAt_of_storage storage (show 2 < data.length by omega), cursize, last, if_neg positive,
    byteAt_of_storage storage (show data.length - 1 < data.length by omega), Int.toNat_natCast,
    isModelskin, Bool.and_eq_true, decide_eq_true_eq, beq_iff_eq]
  by_cases index : (state ≠ .spawned ∧ data.getD 0 0 = svcConfigstring) ∧
      int16 ((data.getD 1 0).toNat + (data.getD 2 0).toNat * 2 ^ 8) > csModelskins ∧
      int16 ((data.getD 1 0).toNat + (data.getD 2 0).toNat * 2 ^ 8) < csModelskins + maxModels
  · rw [if_pos index]
    exact if_congr ⟨fun last => ⟨index.1.1, ⟨index.1.2, index.2⟩, last⟩, fun h => h.2.2⟩ rfl rfl
  · rw [if_neg index, if_neg]
    rintro ⟨unspawned, ⟨configstring, range⟩, -⟩
    exact index ⟨⟨unspawned, configstring⟩, range⟩

/-- The message lies in the array of its node. -/
structure Local (m : Messages) (i : Nat) (data behind : List UInt8) : Prop where
  place : (m.nodes i).data = .localbuff
  localbuff : (m.nodes i).localbuff = data ++ behind
  cursize : (m.nodes i).cursize = data.length
  length : data.length + behind.length = msgMaxSizeBeforeMalloc

theorem Local.storage (stored : Local m i data behind) : m.storage i = some (data ++ behind) := by
  simp only [Messages.storage, stored.place, stored.localbuff]

theorem Local.bytes (stored : Local m i data behind) : m.bytes i = .ok data :=
  bytes_of_storage stored.storage stored.cursize

theorem Local.write_padding (stored : Local m i data behind) :
    m.write i data.length padding =
      if data.length + 3 ≤ msgMaxSizeBeforeMalloc then
        .ok { m with
          nodes := Function.update m.nodes i
            { m.nodes i with localbuff := data ++ padding ++ behind.drop 3 } }
      else .error .storage := by
  have length : (data ++ behind).length = msgMaxSizeBeforeMalloc := by
    rw [List.length_append, stored.length]
  have size : padding.length = 3 := rfl
  have front : (data ++ behind).take data.length = data := List.take_left
  have back : (data ++ behind).drop (data.length + 3) = behind.drop 3 := by
    rw [← List.drop_drop, List.drop_left]
  simp only [Messages.write, stored.storage, length, size, stored.place, front, back]

theorem Local.pad (stored : Local m i data behind)
    (room : data.length + 3 ≤ msgMaxSizeBeforeMalloc) :
    ∃ m', writePadding m i data.length = .ok m' ∧ m'.bytes i = .ok (data ++ padding) := by
  have written := stored.write_padding
  rw [if_pos room] at written
  refine ⟨_, by rw [writePadding, written]; rfl, ?_⟩
  refine @bytes_of_storage _ i _ (behind.drop 3) ?_ ?_
  · simp only [Messages.storage, Messages.setCursize, Function.update_self, stored.place]
  · simp only [Messages.setCursize, Function.update_self, List.length_append]
    rfl

theorem Local.no_room (stored : Local m i data behind)
    (long : ¬data.length + 3 ≤ msgMaxSizeBeforeMalloc) :
    writePadding m i data.length = .error .storage := by
  have written := stored.write_padding
  rw [if_neg long] at written
  rw [writePadding, written]
  rfl

/-- The client takes the message. -/
structure Takes (forceReconnect : Bool) (client : Client) : Prop where
  inv : ClientInv client
  accepts : refusesMessage forceReconnect client true = false
  room : nextIndex client.messages < maxMessagesPerList - 1

theorem msgEndWrite_local (node : (m.nodes i).localbuff.length = msgMaxSizeBeforeMalloc)
    (short : data.length ≤ msgMaxSizeBeforeMalloc) :
    Local (msgEndWrite m i data) i data ((m.nodes i).localbuff.drop data.length) := by
  have max : msgMaxSizeBeforeMalloc = 69 := rfl
  simp only [msgEndWrite, if_neg (Nat.not_lt_of_le short)]
  constructor
  · simp only [Function.update_self]
  · simp only [Function.update_self]
  · simp only [Function.update_self]
    exact int16_of_lt (by omega)
  · rw [List.length_drop]
    omega

theorem Local.setReliable (stored : Local m i data behind) (reliable : Bool) :
    Local (m.setReliable i reliable) i data behind := by
  constructor
  · simp only [Messages.setReliable, Function.update_self, stored.place]
  · simp only [Messages.setReliable, Function.update_self, stored.localbuff]
  · simp only [Messages.setReliable, Function.update_self, stored.cursize]
  · exact stored.length

/-- What becomes of the update. -/
theorem svAddMessageSingle_update {forceReconnect : Bool} {client : Client}
    (takes : Takes forceReconnect client) (leftover : List UInt8)
    (short : v.data.length ≤ msgMaxSizeBeforeMalloc) :
    ∃ m behind, Local m (nextIndex client.messages) v.data behind ∧
      svAddMessageSingle forceReconnect client ⟨v.data, leftover, v.data_ne_nil⟩ true =
        (if client.control.state ≠ .spawned ∧ isModelskin v.data = true then
          writePadding m (nextIndex client.messages) v.data.length
        else .ok m) >>= fun messages => .ok { client with messages } := by
  have max : msgMaxSizeBeforeMalloc = 69 := rfl
  let i := nextIndex client.messages
  let m := msgEndWrite { client.messages with list := client.messages.list ++ [i] } i v.data
  have ended : Local m i v.data _ := msgEndWrite_local (takes.inv.messages.localbuff i) short
  have stored := ended.setReliable true
  have fits : ¬(m.nodes i).cursize ≥ client.control.netchan.message.buffsize := by
    rw [ended.cursize, takes.inv.setup]
    omega
  have others : dropOtherLayouts (m.setReliable i true) i = .ok (m.setReliable i true) := by
    have first : (m.setReliable i true).byteAt i 0 = svcConfigstring := by
      rw [byteAt_of_storage stored.storage (List.length_pos_of_ne_nil v.data_ne_nil)]
      rfl
    rw [dropOtherLayouts, first]
    rfl
  have three : 3 ≤ v.data.length := by
    rw [length_data]
    omega
  refine ⟨m.setReliable i true, _, stored, ?_⟩
  have queued : queueMessage client v.data true =
      (dropOtherLayouts (m.setReliable i true) i >>= fun m =>
        padModelskin client.control.state m i >>= fun messages => .ok { client with messages }) := by
    simp only [queueMessage]
    rw [if_neg (Nat.not_le_of_lt takes.room)]
    exact if_neg fits
  have added := @svAddMessageSingle_other forceReconnect client ⟨v.data, leftover, v.data_ne_nil⟩ true
    (show svcConfigstring ≠ svcLayout by decide)
  rw [takes.accepts] at added
  refine added.trans ?_
  change queueMessage client v.data true = _
  rw [queued, others, ← @padModelskin_eq _ _ client.control.state _ _ stored.storage stored.cursize
    three]
  rfl

/-- The queued bytes, which both clients read as one configstring and what follows it. -/
def Kept (g : Grammar) (forceReconnect : Bool) (leftover : List UInt8) (client : Client)
    (u : Update) : Prop :=
  ∃ c q,
    svAddMessageSingle forceReconnect client ⟨u.data, leftover, u.data_ne_nil⟩ true = .ok c ∧
      c.messages.bytes (nextIndex client.messages) = .ok q ∧ g.InStep true q ∧
      (client.control.state ≠ .spawned → g.InStep false q)

/-- The last byte is the length, or the end of the string. -/
theorem last_data (v : Update) :
    v.data.getD (v.data.length - 1) 0 = (v.len.map UInt8.ofNat).getD 0 := by
  rcases hlen : v.len with _ | l
  · have split : v.data = (svcConfigstring :: (shortBytes v.index ++ v.val)) ++ [0] := by
      simp only [Update.data, hlen, Option.map_none, Option.toList_none, List.cons_append]
    rw [split]
    exact getD_last _ _
  · have split : v.data =
        (svcConfigstring :: (shortBytes v.index ++ v.val ++ [0])) ++ [UInt8.ofNat l] := by
      simp only [Update.data, hlen, Option.map_some, Option.toList_some, List.cons_append,
        List.append_assoc, List.nil_append]
    rw [split]
    exact getD_last _ _

theorem isModelskin_data (proper : v.Proper) :
    isModelskin v.data = true ↔ (v.len.map UInt8.ofNat).getD 0 = 3 := by
  have index : int16 ((v.data.getD 1 0).toNat + (v.data.getD 2 0).toNat * 2 ^ 8) = v.index :=
    toNat_shortBytes proper.small
  have range := proper.modelskin
  simp only [isModelskin, index, last_data, Bool.and_eq_true, decide_eq_true_eq, beq_iff_eq]
  exact ⟨fun h => h.2, fun last => ⟨⟨rfl, range⟩, last⟩⟩

/-- The numbers below 256 that are the type of a message without payload. -/
def PayloadFree (g : Grammar) (l : Nat) : Prop :=
  ∀ rest, g.payload false (UInt8.ofNat l) rest = some rest

/-- The padding comes where it is due and has room, or the length is a message already. -/
def Compatible (g : Grammar) (state : ClientState) (skins l : Nat) : Prop :=
  state = .spawned ∨ (if l = 3 then skins ≤ 61 else PayloadFree g l)

variable {forceReconnect : Bool} {client : Client}

/-- Both clients stay in step exactly if the update is compatible with them. -/
theorem kept_iff_compatible {l : Nat} (proper : v.Proper) (len : v.len = some l) (byte : l < 256)
    (takes : Takes forceReconnect client) (leftover : List UInt8) :
    Kept g forceReconnect leftover client v ↔ Compatible g client.control.state v.val.length l := by
  have max : msgMaxSizeBeforeMalloc = 69 := rfl
  have path : Configstrings.maxQpath = 64 := rfl
  have size : v.data.length = v.val.length + 5 := by
    rw [length_data, len]
    rfl
  have short := proper.short
  have guess : isModelskin v.data = true ↔ l = 3 := by
    rw [isModelskin_data proper, len, Option.map_some, Option.getD_some, ← UInt8.toNat_inj,
      UInt8.toNat_ofNat', Nat.mod_eq_of_lt byte]
    rfl
  have inGame : g.InStep true v.data := by
    have read := @inStep_spawned g v l proper len [] fun rest => ReflTransGen.refl
    rwa [List.append_nil] at read
  obtain ⟨m, behind, stored, run⟩ :=
    svAddMessageSingle_update takes leftover (show v.data.length ≤ msgMaxSizeBeforeMalloc by omega)
  by_cases spawned : client.control.state = .spawned
  · rw [if_neg (fun h => h.1 spawned)] at run
    refine iff_of_true ⟨_, v.data, run, stored.bytes, inGame, fun h => absurd spawned h⟩
      (Or.inl spawned)
  rw [Compatible, or_iff_right spawned]
  by_cases three : l = 3
  · rw [if_pos ⟨spawned, guess.mpr three⟩] at run
    rw [if_pos three]
    by_cases room : v.data.length + 3 ≤ msgMaxSizeBeforeMalloc
    · obtain ⟨m', written, bytes⟩ := stored.pad room
      rw [written] at run
      refine iff_of_true ⟨_, _, run, bytes, ?_, fun _ => ?_⟩ (by omega)
      · exact inStep_spawned proper len inStep_padding
      · exact inStep_padded proper (three ▸ len)
    · rw [stored.no_room room] at run
      refine iff_of_false ?_ (by omega)
      rintro ⟨c, q, ok, -⟩
      rw [run] at ok
      cases ok
  · rw [if_neg (fun h => three (guess.mp h.2))] at run
    rw [if_neg three, PayloadFree, ← inStep_unpadded proper len]
    constructor
    · rintro ⟨c, q, ok, bytes, -, outside⟩
      rw [run] at ok
      cases ok
      rw [stored.bytes] at bytes
      cases bytes
      exact outside spawned
    · exact fun outside => ⟨_, v.data, run, stored.bytes, inGame, fun _ => outside⟩

theorem not_kept (proper : v.Proper) (len : v.len = none) (takes : Takes forceReconnect client)
    (leftover : List UInt8) : ¬Kept g forceReconnect leftover client v := by
  have max : msgMaxSizeBeforeMalloc = 69 := rfl
  have path : Configstrings.maxQpath = 64 := rfl
  have size : v.data.length = v.val.length + 4 := by
    rw [length_data, len]
    rfl
  have short := proper.short
  have plain : ¬isModelskin v.data = true := by
    rw [isModelskin_data proper, len]
    decide
  obtain ⟨m, behind, stored, run⟩ :=
    svAddMessageSingle_update takes leftover (show v.data.length ≤ msgMaxSizeBeforeMalloc by omega)
  rw [if_neg (fun h => plain h.2)] at run
  rintro ⟨c, q, ok, bytes, inGame, -⟩
  rw [run] at ok
  cases ok
  rw [stored.bytes] at bytes
  cases bytes
  exact not_inStep_spawned proper len inGame

/-! ## The calls -/

/-- When a call changes the skins of a model so that the clients stay in step. -/
def Call.KeepsStep (g : Grammar) (state : ClientState) : Call → Prop
  | .skinIndex server call =>
    Compatible g state ((server.modelskins call.model).length + call.name.length) call.name.length
  | .configstring _ _ => False

theorem svSkinIndex_update {server : SkinIndex.Server} {call : SkinIndex.Call}
    {u : SkinIndex.Update}
    (h : (SkinIndex.svSkinIndex server call.modelindex call.name).2.2 = some u) :
    u = ⟨call.model, server.modelskins call.model ++ call.skin, call.name.length⟩ ∧
      (server.modelskins call.model).length + call.name.length < Configstrings.maxQpath := by
  simp only [SkinIndex.svSkinIndex] at h
  split at h
  · cases h
  split at h
  · cases h
  split at h
  · cases h
  split at h
  · cases h
  rename_i room
  dsimp only at h
  split at h
  · cases h
  · exact ⟨(Option.some.inj h).symm, Nat.lt_of_not_le room⟩

theorem update_sent {call : Configstrings.Call} {t t' : Configstrings.Table} {index : Nat}
    {sent val : List UInt8}
    (run : Configstrings.update call sent t = .ok (t', some (index, val))) :
    index = call.slot ∧ val = sent := by
  simp only [Configstrings.update] at run
  split at run
  · cases run
  obtain ⟨stored, -, run⟩ := exists_of_bind_eq_ok run
  split at run
  · cases run
  · cases run
    exact ⟨rfl, rfl⟩

/-- The string has been cut to one place. -/
theorem pfConfigstring_sent {call : Configstrings.Call} {t t' : Configstrings.Table} {index : Nat}
    {val : List UInt8}
    (run : Configstrings.pfConfigstring call t = .ok (t', some (index, val)))
    (modelskin : ofModelskin index) :
    val = (call.val.getD []).take (Configstrings.maxQpath - 1) := by
  have range : (index : Int) > 928 ∧ (index : Int) < 1184 := modelskin
  simp only [Configstrings.pfConfigstring] at run
  split at run
  · cases run
  rename_i inRange
  obtain ⟨sent, cut, run⟩ := exists_of_bind_eq_ok run
  have updated : index = call.slot ∧ val = sent := by
    split at run
    · split at run
      · split at run
        · cases run
        · exact update_sent run
      · exact update_sent run
    · split at run
      · cases run
      · exact update_sent run
  obtain ⟨rfl, rfl⟩ := updated
  have whole : (Configstrings.maxConfigstrings : Int) = 3104 := rfl
  have skins : (Configstrings.csPlayerskins : Int) = 1696 := rfl
  have slot : call.slot = call.index.toNat := rfl
  have checked : call.checked = call.val.getD [] := by
    simp only [Configstrings.Call.checked]
    refine if_neg fun h => ?_
    omega
  have bound : call.slot < Configstrings.maxConfigstrings := by omega
  have stored := Configstrings.checkLength_ensures call bound
  rw [cut] at stored
  rw [← checked]
  refine stored.2 ?_ ?_
  · have : Configstrings.csModels = 32 := rfl
    omega
  · have : Configstrings.csGeneral = 2592 := rfl
    omega

/-- An update of a model skin has a string of less than 64 bytes. -/
theorem proper_of_update {call : Call} {u : Update} (terminated : call.Terminated)
    (sent : call.update = some u) (modelskin : ofModelskin u.index) : u.Proper := by
  cases call with
  | skinIndex server call =>
    obtain ⟨w, changed, rfl⟩ := Option.map_eq_some_iff.mp sent
    obtain ⟨rfl, room⟩ := svSkinIndex_update changed
    refine ⟨modelskin, ?_, ?_⟩
    · rw [List.mem_append, not_or]
      exact ⟨terminated.2, Userinfo.not_mem_lower terminated.1⟩
    · rw [List.length_append, SkinIndex.skin_length]
      exact room
  | configstring table call =>
    simp only [Call.update] at sent
    split at sent
    · rename_i t' index val run
      cases sent
      have cut := pfConfigstring_sent run modelskin
      refine ⟨modelskin, ?_, ?_⟩
      · exact fun h => call.terminated (List.mem_of_mem_take (cut ▸ h))
      · have short := List.length_take_le (Configstrings.maxQpath - 1) (call.val.getD [])
        rw [← cut] at short
        exact Nat.lt_succ_of_le short
    · cases sent

/-- The clients stay in step with a change of the skins of a model if and only if `SV_SkinIndex`
made it, and the client is in the game or the length of the name is not misread. -/
theorem kept_iff (g : Grammar) (call : Call) (u : Update) (terminated : call.Terminated)
    (sent : call.update = some u) (modelskin : ofModelskin u.index) (forceReconnect : Bool)
    (leftover : List UInt8) (client : Client) (takes : Takes forceReconnect client) :
    Kept g forceReconnect leftover client u ↔ call.KeepsStep g client.control.state := by
  have proper := proper_of_update terminated sent modelskin
  cases call with
  | skinIndex server call =>
    obtain ⟨w, changed, rfl⟩ := Option.map_eq_some_iff.mp sent
    obtain ⟨rfl, room⟩ := svSkinIndex_update changed
    have byte : call.name.length < 256 :=
      (Nat.lt_of_le_of_lt (Nat.le_add_left _ _) room).trans (by decide)
    have kept := @kept_iff_compatible g _ forceReconnect client _ proper rfl byte takes leftover
    rwa [List.length_append, SkinIndex.skin_length] at kept
  | configstring table call =>
    simp only [Call.update] at sent
    split at sent
    · cases sent
      exact iff_of_false (not_kept proper rfl takes leftover) not_false
    · cases sent

private def bare : Grammar := ⟨fun _ _ => none, fun _ _ _ h => by cases h⟩

private def entered (state : ClientState) : Client where
  control :=
    { state := state
      netchan :=
        { sock := .server, lastReceived := 0, lastSent := 0, qport := 0, protocol := 32
          message := { maxsize := 1390, buffsize := 1390 } } }
  messages := { allocated := true }

private theorem entered_takes {state : ClientState} (above : state = .connected ∨ state = .spawned) :
    Takes false (entered state) where
  inv := ⟨inv_begin true, rfl⟩
  accepts := by
    rcases above with rfl | rfl
    · decide
    · decide
  room := by
    change 1 < 2047
    decide

/-- The first skin of the first model of a running level. -/
private def firstSkin (name : List UInt8) : Call :=
  .skinIndex (SkinIndex.cleared false) ⟨1, name⟩

private theorem firstSkin_update :
    (firstSkin [48, 48, 57]).update = some ⟨929, [48, 48, 57], some 3⟩ := by
  have none : SkinIndex.findSkin [] (Userinfo.lower [48, 48, 57]) 0 = (false, 0) :=
    SkinIndex.findSkin_end (Nat.lt_irrefl 0)
  simp only [firstSkin, Call.update, SkinIndex.svSkinIndex, SkinIndex.cleared, none]
  rfl

theorem kept_iff_first :
    Kept bare false [] (entered .connected) ⟨929, [48, 48, 57], some 3⟩ ↔
      (firstSkin [48, 48, 57]).KeepsStep bare .connected :=
  kept_iff bare (firstSkin [48, 48, 57]) ⟨929, [48, 48, 57], some 3⟩
    ⟨by decide, List.not_mem_nil⟩ firstSkin_update (by decide) false [] (entered .connected) (entered_takes (Or.inl rfl))

/-- The game writes the skins of the first model itself, and the client is in the game. -/
private def rewritten : Call :=
  .configstring (fun _ => 0)
    { index := 929, val := some [48, 48, 57], terminated := by decide }

/-- The length is missing. -/
theorem configstring_misread : rewritten.Terminated ∧
    rewritten.update = some ⟨929, [48, 48, 57], none⟩ ∧ ofModelskin 929 ∧
    Takes false (entered .spawned) ∧
    ¬Kept bare false [] (entered .spawned) ⟨929, [48, 48, 57], none⟩ := by
  have sent : rewritten.update = some ⟨929, [48, 48, 57], none⟩ := by decide
  have takes := entered_takes (Or.inr (Eq.refl ClientState.spawned))
  refine ⟨trivial, sent, by decide, takes, ?_⟩
  exact not_kept (@proper_of_update rewritten _ trivial sent (by decide)) rfl takes []

end ModelskinUpdates
