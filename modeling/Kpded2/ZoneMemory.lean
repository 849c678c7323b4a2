import Kpded2.RingLinks
import Kpded2.StepRuns

/-!
# Zone memory

`Z_TagMalloc`, `Z_Realloc`, `Z_Free` and `Z_FreeTags`: every block has a header that links it
into the ring of `z_chain`. With `z_debug` a block is allocated with a guard byte behind it, and
frees look for corruption. Where `malloc` and `realloc` put a block, and what they leave in it,
is up to them. Sizes are not negative.
-/
namespace ZoneMemory
open RingLinks

variable {Addr : Type} [DecidableEq Addr]

/-! ## The allocator -/

inductive Magic where
  | release
  | debug
  deriving DecidableEq

/-- `size` counts the header; `data` is what follows it. -/
structure Block where
  magic : Magic
  tag : Int
  size : Nat
  data : List UInt8
  deriving DecidableEq

/-- The links of the blocks are those of their headers; `none` is `z_chain`. -/
structure State (Addr : Type) where
  block : Addr → Option Block := fun _ => none
  links : Links (Option Addr) := ⟨fun _ => none, fun _ => none⟩
  count : Int := 0
  bytes : Int := 0
  debug : Bool := false

inductive Report where
  | overrun
  | crazySize
  | corruptAfterFree
  | chainState
  | counters
  deriving DecidableEq

/-- Where a call leads: back with a new state, into a report of corruption, into another fatal
error, or nowhere that the language defines. -/
inductive Result (Addr : Type) where
  | returns (s : State Addr)
  | reports (report : Report)
  | dies
  | undefined

def Result.bind (r : Result Addr) (f : State Addr → Result Addr) : Result Addr :=
  match r with
  | returns s => f s
  | reports report => reports report
  | dies => dies
  | undefined => undefined

/-- The size of a `zhead_t` with 64-bit pointers. -/
def zheadSize : Nat := 32
def guardByte : UInt8 := 0xCC
def maxSize : Nat := 0x40000000
def tagmallocMaxTags : Int := 30

def int16 (n : Int) : Int := n.bmod 65536

/-- The tests that `Z_Verify` and `Z_Free` make of a block of the debug allocator. -/
def checkGuard (b : Block) : Option Report :=
  if b.size = 0 ∨ b.size > maxSize then some .crazySize
  else if b.data.getLast? ≠ some guardByte then some .overrun
  else none

/-- The rest of the walk of `Z_Verify` from `z` on; `i` blocks have been seen. -/
def verifyFrom (s : State Addr) : Nat → Nat → Option Addr → Option Report
  | 0, _, _ => some .chainState
  | _, _, none => none
  | fuel + 1, i, some z =>
    match s.block z with
    | none => some .chainState
    | some b =>
      match if b.magic = .debug then checkGuard b else none with
      | some report => some report
      | none =>
        if (i : Int) > s.count * 2 then some .chainState
        else verifyFrom s fuel (i + 1) (s.links.next (some z))

/-- The walk stops by itself after twice as many blocks as are counted. -/
def zVerify (s : State Addr) : Option Report :=
  verifyFrom s (s.count * 2 + 3).toNat 0 (s.links.next none)

def verified (s : State Addr) : Result Addr :=
  match zVerify s with
  | some report => .reports report
  | none => .returns s

/-- `z->next = z_chain.next; z->prev = &z_chain; z_chain.next->prev = z; z_chain.next = z`. -/
def linkFirst (links : Links (Option Addr)) (z : Addr) : Links (Option Addr) :=
  let links := links.setNext (some z) (links.next none)
  let links := links.setPrev (some z) none
  let links := links.setPrev (links.next none) (some z)
  links.setNext none (some z)

/-- A new block with the header's fields set. -/
def addBlock (s : State Addr) (z : Addr) (b : Block) : State Addr where
  block := Function.update s.block z (some b)
  links := linkFirst s.links z
  count := s.count + 1
  bytes := s.bytes + b.size
  debug := s.debug

/-- `address` is what `malloc` returns, `garbage` what is in the block then. -/
def zTagMallocRelease (s : State Addr) (size : Nat) (tag : Int) (address : Option Addr)
    (garbage : List UInt8) : Result Addr :=
  match address with
  | none => .dies
  | some z => .returns (addBlock s z ⟨.release, int16 tag, size + zheadSize, garbage.take size⟩)

def zTagMallocDebug (s : State Addr) (size : Nat) (tag : Int) (address : Option Addr)
    (garbage : List UInt8) : Result Addr :=
  (verified s).bind fun s =>
    if size = 0 ∧ tag < tagmallocMaxTags then .dies
    else if size + zheadSize > maxSize then .dies
    else
      match address with
      | none => .dies
      | some z => verified (addBlock s z
          ⟨.debug, int16 tag, size + zheadSize + 1, garbage.take size ++ [guardByte]⟩)

/-- The header is copied from `z` to `z'`, and the neighbours are made to point there. -/
def relink (links : Links (Option Addr)) (z z' : Addr) : Links (Option Addr) :=
  let links := (links.setNext (some z') (links.next (some z))).setPrev (some z') (links.prev (some z))
  let links := links.setNext (links.prev (some z')) (some z')
  links.setPrev (links.next (some z')) (some z')

/-- `realloc` moves a block to `address`, keeps what fits in and leaves `garbage` behind it. -/
def zRealloc (s : State Addr) (z : Addr) (size : Nat) (address : Option Addr)
    (garbage : List UInt8) : Result Addr :=
  match s.block z, address with
  | none, _ => .undefined
  | some _, none => .dies
  | some b, some z' =>
    let moved := { b with size := size + zheadSize, data := (b.data ++ garbage).take size }
    .returns
      { s with
        block := Function.update (Function.update s.block z none) z' (some moved)
        links := relink s.links z z'
        bytes := s.bytes + ((size + zheadSize : Nat) - b.size) }

/-- `z->prev->next = z->next; z->next->prev = z->prev`. -/
def unlink (links : Links (Option Addr)) (z : Addr) : Links (Option Addr) :=
  let links := links.setNext (links.prev (some z)) (links.next (some z))
  links.setPrev (links.next (some z)) (links.prev (some z))

def removeBlock (s : State Addr) (z : Addr) (b : Block) : State Addr where
  block := Function.update s.block z none
  links := unlink s.links z
  count := s.count - 1
  bytes := s.bytes - b.size
  debug := s.debug

def zFreeRelease (s : State Addr) (z : Addr) : Result Addr :=
  match s.block z with
  | none => .undefined
  | some b => .returns (removeBlock s z b)

/-- The magic of `z_chain` is 0. -/
def hasMagic (s : State Addr) (node : Option Addr) : Bool := node.any fun z => (s.block z).isSome

def zFreeDebug (s : State Addr) (z : Addr) : Result Addr :=
  (verified s).bind fun s =>
    match s.block z with
    | none => .undefined
    | some b =>
      if b.size = 0 ∨ b.size > maxSize then .reports .crazySize
      else if b.magic = .debug ∧ b.data.getLast? ≠ some guardByte then .reports .overrun
      else if ¬hasMagic s (s.links.next (some z)) then .reports .corruptAfterFree
      else
        let s := removeBlock s z b
        if s.count < 0 ∨ s.bytes < 0 then .reports .counters else verified s

def zFree (s : State Addr) (z : Addr) : Result Addr :=
  if s.debug then zFreeDebug s z else zFreeRelease s z

/-- The rest of the walk of `Z_FreeTags` from `z` on. -/
def freeTagsFrom (tag : Int) : Nat → State Addr → Option Addr → Result Addr
  | 0, _, _ => .undefined
  | _, s, none => .returns s
  | fuel + 1, s, some z =>
    let next := s.links.next (some z)
    match s.block z with
    | none => .undefined
    | some b =>
      if b.tag = tag then (zFree s z).bind fun s => freeTagsFrom tag fuel s next
      else freeTagsFrom tag fuel s next

def zFreeTags (s : State Addr) (tag : Int) : Result Addr :=
  (verified s).bind fun s =>
    (freeTagsFrom tag (s.count + 1).toNat s (s.links.next none)).bind verified

inductive Op (Addr : Type) where
  | tagMalloc (size : Nat) (tag : Int) (address : Option Addr) (garbage : List UInt8)
  | realloc (z : Addr) (size : Nat) (address : Option Addr) (garbage : List UInt8)
  | free (z : Addr)
  | freeTags (tag : Int)
  /-- The owner of a block writes to it. -/
  | write (z : Addr) (data : List UInt8)
  /-- `z_debug` is switched. -/
  | debug (on : Bool)

/-- What the owner of a block may write to: all but the guard. -/
def Block.room (b : Block) : Nat := if b.magic = .debug then b.data.length - 1 else b.data.length

def writeBlock (s : State Addr) (z : Addr) (data : List UInt8) : Result Addr :=
  match s.block z with
  | none => .undefined
  | some b =>
    .returns { s with
      block := Function.update s.block z (some { b with data := data ++ b.data.drop data.length }) }

def apply (s : State Addr) : Op Addr → Result Addr
  | .tagMalloc size tag address garbage =>
    if s.debug then zTagMallocDebug s size tag address garbage
    else zTagMallocRelease s size tag address garbage
  | .realloc z size address garbage => zRealloc s z size address garbage
  | .free z => zFree s z
  | .freeTags tag => zFreeTags s tag
  | .write z data => writeBlock s z data
  | .debug on => .returns { s with debug := on }

def step (r : Result Addr) (op : Op Addr) : Result Addr := r.bind fun s => apply s op

/-! ## What holds after each call -/

def sizeAt (block : Addr → Option Block) (z : Addr) : Int := (block z).elim 0 fun b => (b.size : Int)

def totalSize (block : Addr → Option Block) : List Addr → Int
  | [] => 0
  | z :: l => sizeAt block z + totalSize block l

/-- The chain is a ring of exactly the live blocks, the counters agree with it, and the blocks of
the debug allocator end in their guard. -/
def WellFormed (s : State Addr) : Prop :=
  ∃ l : List Addr, IsRing s.links none (l.map some) ∧ (∀ z, z ∈ l ↔ (s.block z).isSome) ∧
    s.count = l.length ∧ s.bytes = totalSize s.block l ∧
    ∀ z b, s.block z = some b → b.magic = .debug → b.data.getLast? = some guardByte

/-- No corruption is reported, and what a call returns to is well formed. -/
def Sound : Result Addr → Prop
  | .returns s => WellFormed s
  | .dies => True
  | .reports _ => False
  | .undefined => False

/-- What the callers and the C library see to: pointers are live, a block is not allocated over
another, and nobody writes past the end of a block. -/
def Legal (s : State Addr) : Op Addr → Prop
  | .tagMalloc size _ address garbage =>
    (∀ z, address = some z → s.block z = none) ∧ size ≤ garbage.length
  | .realloc z size address garbage =>
    (s.block z).isSome ∧ (∀ z', address = some z' → z' = z ∨ s.block z' = none) ∧
      size ≤ garbage.length
  | .free z => (s.block z).isSome
  | .write z data => ∃ b, s.block z = some b ∧ data.length ≤ b.room
  | .freeTags _ => True
  | .debug _ => True

/-- `Z_FreeDebug` does not mistake the block for a corrupt one: there is an older one behind it,
and it is not too large. -/
def Freeable (s : State Addr) (z : Addr) : Prop :=
  s.links.next (some z) ≠ none ∧ ∀ b, s.block z = some b → b.size ≤ maxSize

/-- The condition on one call. -/
def Meets (s : State Addr) : Op Addr → Prop
  | .tagMalloc size _ _ _ => s.debug → size + zheadSize ≠ maxSize
  | .realloc z _ _ _ => ∀ b, s.block z = some b → b.magic = .release
  | .free z => s.debug → Freeable s z
  | .freeTags tag => s.debug → ∀ z b, s.block z = some b → b.tag = tag → Freeable s z
  | .write _ _ => True
  | .debug _ => True

/-- `P` holds of the state that a call starts from, if there is one. -/
def OnReturn (P : State Addr → Op Addr → Prop) (r : Result Addr) (op : Op Addr) : Prop :=
  ∀ s, r = .returns s → P s op

/-! ## The invariant -/

structure Intact (b : Block) : Prop where
  size : b.size = b.data.length + zheadSize
  guard : b.magic = .debug → b.data.getLast? = some guardByte ∧ b.size ≤ maxSize

structure Inv (s : State Addr) (l : List Addr) : Prop where
  ring : IsRing s.links none (l.map some)
  live : ∀ z, z ∈ l ↔ (s.block z).isSome
  count : s.count = l.length
  bytes : s.bytes = totalSize s.block l
  intact : ∀ z b, s.block z = some b → Intact b

variable {s : State Addr} {l before after : List Addr} {z : Addr} {b : Block}

omit [DecidableEq Addr] in
theorem Inv.wellFormed (h : Inv s l) : WellFormed s :=
  ⟨l, h.ring, h.live, h.count, h.bytes, fun z b hb debug => ((h.intact z b hb).guard debug).1⟩

omit [DecidableEq Addr] in
theorem totalSize_congr {block block' : Addr → Option Block}
    (same : ∀ z ∈ l, sizeAt block' z = sizeAt block z) : totalSize block' l = totalSize block l := by
  induction l with
  | nil => rfl
  | cons z l ih =>
    simp only [totalSize, same z List.mem_cons_self,
      ih fun y hy => same y (List.mem_cons_of_mem z hy)]

theorem totalSize_update {block : Addr → Option Block} (outside : z ∉ l) (value : Option Block) :
    totalSize (Function.update block z value) l = totalSize block l := by
  refine totalSize_congr fun y hy => ?_
  have other : y ≠ z := fun same => outside (same ▸ hy)
  simp only [sizeAt, Function.update_of_ne other]

omit [DecidableEq Addr] in
theorem totalSize_middle (block : Addr → Option Block) :
    totalSize block (before ++ z :: after) = sizeAt block z + totalSize block (before ++ after) := by
  induction before with
  | nil => rfl
  | cons y before ih =>
    simp only [List.cons_append, totalSize, ih]
    omega

omit [DecidableEq Addr] in
theorem totalSize_nonneg (block : Addr → Option Block) (l : List Addr) : 0 ≤ totalSize block l := by
  induction l with
  | nil => exact Int.le_refl 0
  | cons z l ih =>
    have first : 0 ≤ sizeAt block z := by
      cases hz : block z with
      | none => simp [sizeAt, hz]
      | some b => simp [sizeAt, hz]
    exact Int.add_nonneg first ih

omit [DecidableEq Addr] in
theorem Inv.nodup (h : Inv s l) : l.Nodup := (List.nodup_cons.mp h.ring.nodup).2.of_map some

omit [DecidableEq Addr] in
theorem Inv.split (h : Inv s l) (live : (s.block z).isSome) : ∃ before after, l = before ++ z :: after :=
  List.append_of_mem ((h.live z).mpr live)

/-! ## Verification -/

theorem checkGuard_intact (h : Intact b) (debug : b.magic = .debug) : checkGuard b = none := by
  obtain ⟨guard, small⟩ := h.guard debug
  have size := h.size
  simp only [checkGuard, guard]
  rw [if_neg, if_neg]
  · simp
  · simp only [zheadSize] at size
    omega

omit [DecidableEq Addr] in
/-- The check finds nothing in a chain that is intact. -/
theorem verifyFrom_none {rest : List Addr} {node : Option Addr} {fuel i : Nat}
    (joins : Joins s.links node (rest.map some) none)
    (blocks : ∀ z ∈ rest, ∃ b, s.block z = some b ∧ Intact b)
    (seen : (i : Int) + rest.length ≤ s.count) (enough : rest.length < fuel) :
    verifyFrom s fuel i (s.links.next node) = none := by
  induction rest generalizing node fuel i with
  | nil =>
    obtain ⟨fuel, rfl⟩ := Nat.exists_eq_succ_of_ne_zero (Nat.ne_of_gt enough)
    rw [joins.1]
    simp [verifyFrom]
  | cons z rest ih =>
    obtain ⟨fuel, rfl⟩ := Nat.exists_eq_succ_of_ne_zero (Nat.ne_of_gt (Nat.zero_lt_of_lt enough))
    obtain ⟨b, hb, intact⟩ := blocks z List.mem_cons_self
    have check : (if b.magic = .debug then checkGuard b else none) = none := by
      split
      · rename_i debug
        exact checkGuard_intact intact debug
      · rfl
    rw [List.length_cons] at seen enough
    rw [joins.1.1]
    simp only [verifyFrom, hb, check]
    rw [if_neg (by omega)]
    exact ih joins.2 (fun y hy => blocks y (List.mem_cons_of_mem z hy)) (by push_cast; omega)
      (by omega)

omit [DecidableEq Addr] in
theorem Inv.zVerify (h : Inv s l) : zVerify s = none := by
  refine verifyFrom_none h.ring.joins (fun z hz => ?_) (by rw [h.count]; simp) ?_
  · obtain ⟨b, hb⟩ := Option.isSome_iff_exists.mp ((h.live z).mp hz)
    exact ⟨b, hb, h.intact z b hb⟩
  · have := h.count
    omega

omit [DecidableEq Addr] in
theorem Inv.verified (h : Inv s l) : verified s = .returns s := by
  rw [ZoneMemory.verified, h.zVerify]

/-! ## Blocks come and go -/

theorem linkFirst_eq (links : Links (Option Addr)) (z : Addr) :
    linkFirst links z = (links.join none (some z)).join (some z) (links.next none) := by
  simp only [linkFirst, Links.join, Links.setNext, Links.setPrev,
    Function.update_of_ne (Option.some_ne_none z).symm]
  rw [Function.update_comm (Option.some_ne_none z)]

theorem unlink_eq {links : Links (Option Addr)} (other : links.prev (some z) ≠ some z) :
    unlink links z = links.join (links.prev (some z)) (links.next (some z)) := by
  simp only [unlink, Links.join, Links.setNext, Links.setPrev, Function.update_of_ne other.symm]

omit [DecidableEq Addr] in
theorem Inv.prev_ne (h : Inv s (before ++ z :: after)) : s.links.prev (some z) ≠ some z := by
  have ring := h.ring
  rw [List.map_append, List.map_cons] at ring
  intro same
  have mem := ring.neighbours.1
  rw [same] at mem
  have nodup := h.nodup
  rw [List.nodup_middle, List.nodup_cons] at nodup
  simp only [List.mem_cons, reduceCtorEq, List.mem_append, List.mem_map, Option.some.injEq,
    exists_eq_right, false_or] at mem
  exact nodup.1 (List.mem_append.mpr mem)

theorem Inv.addBlock (h : Inv s l) (fresh : s.block z = none) (intact : Intact b) :
    Inv (addBlock s z b) (z :: l) := by
  have outside : z ∉ l := by
    rw [h.live z, fresh]
    exact Bool.false_ne_true
  constructor
  · simp only [ZoneMemory.addBlock, linkFirst_eq, List.map_cons]
    exact h.ring.pushFront (by simpa using outside)
  · intro y
    simp only [ZoneMemory.addBlock, List.mem_cons, Function.update_apply]
    by_cases same : y = z
    · simp [same]
    · simp [same, h.live y]
  · simp [ZoneMemory.addBlock, h.count]
  · simp only [ZoneMemory.addBlock, h.bytes, totalSize, totalSize_update outside, sizeAt,
      Function.update_self, Option.elim_some]
    omega
  · intro y c hc
    simp only [ZoneMemory.addBlock, Function.update_apply] at hc
    split at hc
    · obtain rfl := Option.some.inj hc
      exact intact
    · exact h.intact y c hc

/-- A block that is removed leaves the chain of the others. -/
theorem Inv.removeBlock (h : Inv s (before ++ z :: after)) (hb : s.block z = some b) :
    Inv (removeBlock s z b) (before ++ after) := by
  have ring := h.ring
  rw [List.map_append, List.map_cons] at ring
  have nodup := h.nodup
  rw [List.nodup_middle, List.nodup_cons] at nodup
  constructor
  · simp only [ZoneMemory.removeBlock, unlink_eq h.prev_ne, List.map_append]
    exact ring.unlink
  · intro y
    have live := h.live y
    simp only [ZoneMemory.removeBlock, Function.update_apply]
    by_cases same : y = z
    · simpa [same] using nodup.1
    · simpa [same] using live
  · have := h.count
    simp only [ZoneMemory.removeBlock, List.length_append, List.length_cons] at this ⊢
    omega
  · simp only [ZoneMemory.removeBlock, h.bytes, totalSize_middle, totalSize_update nodup.1, sizeAt, hb,
      Option.elim_some]
    omega
  · intro y c hc
    simp only [ZoneMemory.removeBlock, Function.update_apply] at hc
    split at hc
    · cases hc
    · exact h.intact y c hc

theorem Intact.write (h : Intact b) {data : List UInt8} (room : data.length ≤ b.room) :
    Intact { b with data := data ++ b.data.drop data.length } := by
  have inside : data.length ≤ b.data.length := by
    simp only [Block.room] at room
    split at room <;> omega
  constructor
  · simp only [h.size, List.length_append, List.length_drop]
    omega
  · intro debug
    obtain ⟨guard, small⟩ := h.guard debug
    have some_data : b.data ≠ [] := by
      rintro none
      rw [none] at guard
      cases guard
    have short : data.length < b.data.length := by
      have := List.length_pos_iff.mpr some_data
      simp only [Block.room, if_pos (show b.magic = .debug from debug)] at room
      omega
    refine ⟨?_, small⟩
    rw [List.getLast?_append, List.getLast?_drop, if_neg (by omega), guard]
    rfl

/-- A block is overwritten by another of the same size. -/
theorem Inv.store (h : Inv s l) (hb : s.block z = some b) {c : Block} (size : c.size = b.size)
    (intact : Intact c) : Inv { s with block := Function.update s.block z (some c) } l where
  ring := h.ring
  live := by
    intro y
    rw [h.live y]
    simp only [Function.update_apply]
    by_cases same : y = z
    · simp [same, hb]
    · simp [same]
  count := h.count
  bytes := by
    rw [h.bytes]
    refine (totalSize_congr fun y _ => ?_).symm
    simp only [sizeAt, Function.update_apply]
    split
    · rename_i same
      simp [same, hb, size]
    · rfl
  intact := by
    intro y d hd
    simp only [Function.update_apply] at hd
    split at hd
    · obtain rfl := Option.some.inj hd
      exact intact
    · exact h.intact y d hd

theorem relink_eq {links : Links (Option Addr)} {z' : Addr}
    (other : links.prev (some z) ≠ some z') :
    relink links z z' = (links.join (links.prev (some z)) (some z')).join (some z')
      (links.next (some z)) := by
  simp only [relink, Links.join, Links.setNext, Links.setPrev, Function.update_self,
    Function.update_of_ne other.symm]
  rw [Function.update_comm other.symm]

/-- A block of the release allocator is moved and changes its size. -/
theorem zRealloc_inv (h : Inv s (before ++ z :: after)) (hb : s.block z = some b)
    (release : b.magic = .release) {z' : Addr} (free : z' = z ∨ s.block z' = none) {size : Nat}
    {garbage : List UInt8} (enough : size ≤ garbage.length) :
    ∃ t, zRealloc s z size (some z') garbage = .returns t ∧ Inv t (before ++ z' :: after) := by
  have outside : z ∉ before ++ after := by
    have nodup := h.nodup
    rw [List.nodup_middle, List.nodup_cons] at nodup
    exact nodup.1
  have fresh : z' ∉ before ++ after := by
    rcases free with rfl | free
    · exact outside
    · intro hmem
      have live := (h.live z').mp (List.mem_append.mpr
        ((List.mem_append.mp hmem).imp_right (List.mem_cons_of_mem z)))
      rw [free] at live
      cases live
  have freshNode : some z' ∉ none :: (before.map some ++ after.map some) := by
    rw [← List.map_append]
    simpa using fresh
  have ring := h.ring
  rw [List.map_append, List.map_cons] at ring
  have prev : s.links.prev (some z) ≠ some z' := fun same => freshNode (same ▸ ring.neighbours.1)
  refine ⟨_, by simp only [zRealloc, hb]; rfl, ?_⟩
  constructor
  · simp only [relink_eq prev, List.map_append, List.map_cons]
    exact ring.replace freshNode
  · intro y
    have live := h.live y
    simp only [Function.update_apply]
    by_cases there : y = z'
    · simp [there]
    · by_cases here : y = z
      · subst here
        simpa [there] using outside
      · simpa [there, here] using live
  · simp [h.count]
  · simp only [h.bytes, totalSize_middle, totalSize_update fresh, totalSize_update outside, sizeAt,
      hb, Function.update_self, Option.elim_some]
    omega
  · intro y c hc
    simp only [Function.update_apply] at hc
    split at hc
    · obtain rfl := Option.some.inj hc
      refine ⟨?_, fun debug => ?_⟩
      · simp only [List.length_take, List.length_append]
        omega
      · rw [show b.magic = .debug from debug] at release
        cases release
    · split at hc
      · cases hc
      · exact h.intact y c hc

/-! ## Calls -/

/-- A call ends the program for want of memory or returns with the invariant. -/
def Keeps : Result Addr → Prop
  | .returns s => ∃ l, Inv s l
  | .dies => True
  | .reports _ => False
  | .undefined => False

omit [DecidableEq Addr] in
theorem Keeps.sound {r : Result Addr} (h : Keeps r) : Sound r := by
  cases r with
  | returns s =>
    obtain ⟨l, h⟩ := h
    exact h.wellFormed
  | reports report => exact h
  | dies => trivial
  | undefined => exact h

omit [DecidableEq Addr] in
theorem Inv.keeps_verified (h : Inv s l) : Keeps (ZoneMemory.verified s) := by
  rw [h.verified]
  exact ⟨l, h⟩

theorem zTagMallocRelease_keeps (h : Inv s l) {size : Nat} {tag : Int} {address : Option Addr}
    {garbage : List UInt8} (fresh : ∀ z, address = some z → s.block z = none)
    (enough : size ≤ garbage.length) : Keeps (zTagMallocRelease s size tag address garbage) := by
  cases address with
  | none => trivial
  | some z =>
    refine ⟨z :: l, h.addBlock (fresh z rfl) ⟨?_, ?_⟩⟩
    · simp only [List.length_take, Nat.min_eq_left enough]
    · rintro ⟨⟩

theorem zTagMallocDebug_keeps (h : Inv s l) {size : Nat} {tag : Int} {address : Option Addr}
    {garbage : List UInt8} (fresh : ∀ z, address = some z → s.block z = none)
    (enough : size ≤ garbage.length) (fits : size + zheadSize ≠ maxSize) :
    Keeps (zTagMallocDebug s size tag address garbage) := by
  simp only [zTagMallocDebug, h.verified, Result.bind]
  split
  · trivial
  · split
    · trivial
    · rename_i small
      cases address with
      | none => trivial
      | some z =>
        refine (h.addBlock (fresh z rfl) ⟨?_, fun _ => ⟨?_, ?_⟩⟩).keeps_verified
        · simp only [List.length_append, List.length_take, Nat.min_eq_left enough,
            List.length_singleton]
          omega
        · exact List.getLast?_concat
        · show size + zheadSize + 1 ≤ maxSize
          omega

omit [DecidableEq Addr] in
/-- Behind a block that is not the oldest there is another. -/
theorem Inv.hasMagic_next (h : Inv s (before ++ z :: after))
    (younger : s.links.next (some z) ≠ none) : hasMagic s (s.links.next (some z)) := by
  have ring := h.ring
  rw [List.map_append, List.map_cons] at ring
  have neighbour := ring.neighbours.2
  obtain ⟨y, hy⟩ := Option.ne_none_iff_exists'.mp younger
  rw [hy, ← List.map_append] at neighbour
  have inside : y ∈ before ++ after := by simpa using neighbour
  rw [hy]
  refine (h.live y).mp (List.mem_append.mpr ?_)
  exact (List.mem_append.mp inside).imp_right (List.mem_cons_of_mem z)

omit [DecidableEq Addr] in
theorem Inv.counters (h : Inv s l) : ¬(s.count < 0 ∨ s.bytes < 0) := by
  have total := totalSize_nonneg s.block l
  have := h.count
  have := h.bytes
  omega

theorem zFreeDebug_eq (h : Inv s (before ++ z :: after)) (hb : s.block z = some b)
    (freeable : Freeable s z) : zFreeDebug s z = .returns (removeBlock s z b) := by
  have intact := h.intact z b hb
  have removed := h.removeBlock hb
  have sized : ¬(b.size = 0 ∨ b.size > maxSize) := by
    have size := intact.size
    have small := freeable.2 b hb
    simp only [zheadSize] at size
    omega
  have guard : ¬(b.magic = .debug ∧ b.data.getLast? ≠ some guardByte) :=
    fun ⟨debug, broken⟩ => broken (intact.guard debug).1
  simp only [zFreeDebug, h.verified, Result.bind, hb, if_neg sized, if_neg guard,
    h.hasMagic_next freeable.1, not_true_eq_false, if_false, if_neg removed.counters,
    removed.verified]

/-- The oldest block is taken for a corrupt one: behind it is `z_chain`, which has no magic. -/
theorem zFreeDebug_oldest (h : Inv s (before ++ [z])) (hb : s.block z = some b)
    (small : b.size ≤ maxSize) : zFreeDebug s z = .reports .corruptAfterFree := by
  have intact := h.intact z b hb
  have ring := h.ring
  rw [List.map_append, List.map_cons] at ring
  have next : s.links.next (some z) = none := ring.split.2.2.2
  have sized : ¬(b.size = 0 ∨ b.size > maxSize) := by
    have size := intact.size
    simp only [zheadSize] at size
    omega
  have guard : ¬(b.magic = .debug ∧ b.data.getLast? ≠ some guardByte) :=
    fun ⟨debug, broken⟩ => broken (intact.guard debug).1
  simp [zFreeDebug, h.verified, Result.bind, hb, sized, guard, next, hasMagic]

theorem zFree_eq (h : Inv s (before ++ z :: after)) (hb : s.block z = some b)
    (freeable : s.debug → Freeable s z) : zFree s z = .returns (removeBlock s z b) := by
  simp only [zFree]
  split
  · rename_i debug
    exact zFreeDebug_eq h hb (freeable debug)
  · simp only [zFreeRelease, hb]

/-- Taking a block out does not change what is behind the blocks after it. -/
theorem Inv.freeable_removeBlock (h : Inv s (before ++ z :: after)) {y : Addr} (hy : y ∈ after)
    (freeable : Freeable s y) : Freeable (ZoneMemory.removeBlock s z b) y := by
  have ring := h.ring
  rw [List.map_append, List.map_cons] at ring
  have nodup := h.nodup
  rw [List.nodup_append, List.nodup_cons] at nodup
  have other : some y ≠ s.links.prev (some z) := by
    rw [ring.split.2.2.1]
    intro same
    have last := NodeLinks.getLastD_mem none (before.map some)
    rw [← same] at last
    have inside : y ∈ before := by simpa using last
    exact nodup.2.2 y inside y (List.mem_cons_of_mem z hy) rfl
  refine ⟨?_, fun c hc => ?_⟩
  · simp only [ZoneMemory.removeBlock, unlink_eq h.prev_ne, Links.join, Links.setNext, Links.setPrev,
      Function.update_of_ne other]
    exact freeable.1
  · simp only [ZoneMemory.removeBlock, Function.update_apply] at hc
    split at hc
    · cases hc
    · exact freeable.2 c hc

/-- The walk frees the blocks of its tag one by one; `before` is what it has kept. -/
theorem freeTagsFrom_keeps {tag : Int} {rest : List Addr} {fuel : Nat} {node : Option Addr}
    (h : Inv s (before ++ rest)) (first : node = (rest.map some).headD none)
    (freeable : s.debug → ∀ z ∈ rest, ∀ b, s.block z = some b → b.tag = tag → Freeable s z)
    (enough : rest.length < fuel) : Keeps (freeTagsFrom tag fuel s node) := by
  induction rest generalizing s before fuel node with
  | nil =>
    obtain ⟨fuel, rfl⟩ := Nat.exists_eq_succ_of_ne_zero (Nat.ne_of_gt enough)
    subst first
    exact ⟨before ++ [], h⟩
  | cons z rest ih =>
    obtain ⟨fuel, rfl⟩ := Nat.exists_eq_succ_of_ne_zero (Nat.ne_of_gt (Nat.zero_lt_of_lt enough))
    subst first
    have enough : rest.length < fuel := by simpa using enough
    have ring := h.ring
    rw [List.map_append, List.map_cons] at ring
    have next := ring.split.2.2.2
    have live := (h.live z).mp (List.mem_append_right before List.mem_cons_self)
    obtain ⟨b, hb⟩ := Option.isSome_iff_exists.mp live
    simp only [List.map_cons, List.headD_cons, freeTagsFrom, hb]
    split
    · rename_i tagged
      rw [zFree_eq h hb fun debug => freeable debug z List.mem_cons_self b hb tagged]
      refine ih (h.removeBlock hb) next (fun debug y hy c hc tagged => ?_) enough
      refine h.freeable_removeBlock hy ?_
      refine freeable debug y (List.mem_cons_of_mem z hy) c ?_ tagged
      simp only [removeBlock, Function.update_apply] at hc
      split at hc
      · cases hc
      · exact hc
    · refine @ih s (before ++ [z]) fuel _ ?_ next (fun debug y hy => ?_) enough
      · simpa using h
      · exact freeable debug y (List.mem_cons_of_mem z hy)

theorem zFreeTags_keeps (h : Inv s l) {tag : Int}
    (freeable : s.debug → ∀ z b, s.block z = some b → b.tag = tag → Freeable s z) :
    Keeps (zFreeTags s tag) := by
  have walk : Keeps (freeTagsFrom tag (s.count + 1).toNat s (s.links.next none)) := by
    refine @freeTagsFrom_keeps _ _ s [] tag l _ _ h (joins_first h.ring.joins).1 ?_ ?_
    · exact fun debug z _ b hb tagged => freeable debug z b hb tagged
    · have := h.count
      omega
  simp only [zFreeTags, h.verified, Result.bind]
  cases freed : freeTagsFrom tag (s.count + 1).toNat s (s.links.next none) with
  | returns t =>
    rw [freed] at walk
    obtain ⟨l, walk⟩ := walk
    exact walk.keeps_verified
  | reports report =>
    rw [freed] at walk
    exact walk
  | dies => trivial
  | undefined =>
    rw [freed] at walk
    exact walk

/-! ## Runs -/

/-- Every legal call on the zone keeps its blocks and their guards. -/
theorem apply_keeps (h : Inv s l) {op : Op Addr} (legal : Legal s op) (meets : Meets s op) :
    Keeps (apply s op) := by
  cases op with
  | tagMalloc size tag address garbage =>
    simp only [apply]
    split
    · rename_i debug
      exact zTagMallocDebug_keeps h legal.1 legal.2 (meets debug)
    · exact zTagMallocRelease_keeps h legal.1 legal.2
  | realloc z size address garbage =>
    obtain ⟨live, free, enough⟩ := legal
    obtain ⟨before, after, rfl⟩ := h.split live
    obtain ⟨b, hb⟩ := Option.isSome_iff_exists.mp live
    cases address with
    | none => simp only [apply, zRealloc, hb, Keeps]
    | some z' =>
      obtain ⟨t, moved, inv⟩ := zRealloc_inv h hb (meets b hb) (free z' rfl) enough
      simp only [apply, moved]
      exact ⟨_, inv⟩
  | free z =>
    obtain ⟨before, after, rfl⟩ := h.split legal
    obtain ⟨b, hb⟩ := Option.isSome_iff_exists.mp legal
    simp only [apply, zFree_eq h hb meets]
    exact ⟨_, h.removeBlock hb⟩
  | freeTags tag => exact zFreeTags_keeps h meets
  | write z data =>
    obtain ⟨b, hb, room⟩ := legal
    simp only [apply, writeBlock, hb]
    exact ⟨l, h.store hb rfl ((h.intact z b hb).write room)⟩
  | debug on => exact ⟨l, h.ring, h.live, h.count, h.bytes, h.intact⟩

/-- A legal call keeps the zone. -/
theorem step_keeps {r : Result Addr} {op : Op Addr} (h : Keeps r)
    (ok : OnReturn Legal r op ∧ OnReturn Meets r op) : Keeps (step r op) := by
  cases r with
  | returns s =>
    obtain ⟨l, h⟩ := h
    exact apply_keeps h (ok.1 s rfl) (ok.2 s rfl)
  | reports report => exact h
  | dies => trivial
  | undefined => exact h

omit [DecidableEq Addr] in
/-- At the start the chain is empty. -/
theorem inv_start : Inv ({} : State Addr) [] where
  ring := ⟨⟨rfl, rfl⟩, List.nodup_singleton none⟩
  live := fun z => by simp
  count := rfl
  bytes := rfl
  intact := fun z b hb => by cases hb

/-- From the start on, calls that the callers may make keep the zone well formed and report no
corruption, as long as no block of the debug allocator is reallocated, `Z_FreeDebug` gets neither
the oldest block nor one too large for it, and no allocation is of one byte too many. -/
theorem run_keeps_zone (ops : List (Op Addr))
    (legal : StepRuns.AllSteps step (OnReturn Legal) (.returns {}) ops)
    (meets : StepRuns.AllSteps step (OnReturn Meets) (.returns {}) ops) :
    Sound (StepRuns.run step (.returns {}) ops) := by
  have start : Keeps (Result.returns ({} : State Addr)) := ⟨[], inv_start⟩
  refine (StepRuns.invariant_run (fun r op h ok => step_keeps h ok) start ?_).sound
  exact StepRuns.allSteps_both legal meets

instance (s : State Addr) (op : Op Addr) : Decidable (Legal s op) :=
  match op with
  | .tagMalloc size _ address garbage =>
    inferInstanceAs (Decidable ((∀ z ∈ address, s.block z = none) ∧ size ≤ garbage.length))
  | .realloc z size address garbage =>
    inferInstanceAs (Decidable ((s.block z).isSome ∧
      (∀ z' ∈ address, z' = z ∨ s.block z' = none) ∧ size ≤ garbage.length))
  | .free z => inferInstanceAs (Decidable ((s.block z).isSome = true))
  | .write z data =>
    inferInstanceAs (Decidable (∃ b ∈ s.block z, data.length ≤ b.room))
  | .freeTags _ => inferInstanceAs (Decidable True)
  | .debug _ => inferInstanceAs (Decidable True)

instance (s : State Addr) (z : Addr) : Decidable (Freeable s z) :=
  inferInstanceAs (Decidable (_ ∧ ∀ b ∈ s.block z, _))

instance (P : State Addr → Op Addr → Prop) [∀ s op, Decidable (P s op)] (r : Result Addr)
    (op : Op Addr) : Decidable (OnReturn P r op) :=
  match r with
  | .returns s =>
    decidable_of_iff (P s op) ⟨fun h _ same => Result.returns.inj same ▸ h, fun h => h s rfl⟩
  | .reports _ => isTrue (by rintro s ⟨⟩)
  | .dies => isTrue (by rintro s ⟨⟩)
  | .undefined => isTrue (by rintro s ⟨⟩)

/-- A block is allocated with a guard, made smaller and freed. -/
private def shrunkGuard : List (Op Nat) :=
  [.debug true, .tagMalloc 8 0 (some 1) (List.replicate 8 0),
    .tagMalloc 8 0 (some 2) (List.replicate 8 0), .realloc 2 4 (some 2) (List.replicate 4 0), .free 2]

private def reportOf : Result Addr → Option Report
  | .reports report => some report
  | _ => none

/-- The block has lost its guard byte. -/
theorem shrunk_block_reported : ¬∀ ops : List (Op Nat),
    StepRuns.AllSteps step (OnReturn Legal) (.returns {}) ops →
      Sound (StepRuns.run step (.returns {}) ops) := by
  intro h
  have sound := h shrunkGuard (by decide +kernel)
  have report : reportOf (StepRuns.run step (.returns {}) shrunkGuard) = some .overrun := by
    decide +kernel
  cases result : StepRuns.run step (.returns {}) shrunkGuard with
  | reports =>
    rw [result] at sound
    exact sound
  | returns s => rw [result] at report; cases report
  | dies => rw [result] at report; cases report
  | undefined => rw [result] at report; cases report

theorem run_keeps_zone_mixed : Sound (StepRuns.run step (.returns ({} : State Nat))
    [.tagMalloc 8 0 (some 1) (List.replicate 8 0), .tagMalloc 0 7 (some 2) [],
      .realloc 2 4 (some 3) (List.replicate 4 0), .freeTags 7, .debug true,
      .tagMalloc 8 0 (some 4) (List.replicate 8 0), .write 4 (List.replicate 8 1), .free 4]) := by
  refine run_keeps_zone _ (by decide +kernel) ⟨?_, ?_, ?_, ?_, ?_, ?_, ?_, ?_, trivial⟩
  all_goals
    intro s hs
    cases hs
  · exact fun _ => by decide
  · exact fun _ => by decide
  · exact fun b hb => by cases hb; rfl
  · exact fun debug => by cases debug
  · trivial
  · exact fun _ => by decide
  · trivial
  · exact fun _ => by decide +kernel

end ZoneMemory
