import Mathlib.Algebra.Order.Ring.Rat
import Kpded2.DeltaEntity
import Kpded2.RingLinks
import Kpded2.StepRuns

/-!
# The lists of the area nodes

`SV_LinkEdict` puts an entity into a list of the first area node whose plane its box crosses;
`SV_AreaEdicts` walks down the nodes and looks through their lists. The world is cut in two four
times, so that a query sees few of the lists.

A link stands for a `link_t`, with `null` for the pointer. Coordinates are the rationals that the
floats are, and an infinity is one beyond them; `round` is what a sum is rounded to. Of an entity
only what decides about its place in the lists is here, and no warning is printed.
-/
namespace AreaLinks
open DeltaEntity (Vec3)
open RingLinks StepRuns

/-! ## Links -/

inductive Link where
  | null
  | trigger (node : Nat)
  | solid (node : Nat)
  | edict (ent : Nat)
  deriving DecidableEq

def clearLink (links : Links Link) (l : Link) : Links Link := (links.setNext l l).setPrev l l

def removeLink (links : Links Link) (l : Link) : Links Link :=
  let links := links.setPrev (links.next l) (links.prev l)
  links.setNext (links.prev l) (links.next l)

def insertLinkBefore (links : Links Link) (l before : Link) : Links Link :=
  let links := links.setNext l before
  let links := links.setPrev l (links.prev before)
  let links := links.setNext (links.prev l) l
  links.setPrev (links.next l) l

/-! ## The tree -/

inductive Axis where
  | x
  | y
  deriving DecidableEq

def Axis.get (axis : Axis) (v : Vec3) : Rat :=
  match axis with
  | .x => v.x
  | .y => v.y

def Axis.set (axis : Axis) (v : Vec3) (c : Rat) : Vec3 :=
  match axis with
  | .x => { v with x := c }
  | .y => { v with y := c }

/-- `areanode_t`, with its index in `sv_areanodes`. -/
inductive AreaNode where
  | leaf (node : Nat)
  | split (node : Nat) (axis : Axis) (dist : Rat) (children0 children1 : AreaNode)

def AreaNode.node : AreaNode → Nat
  | .leaf node | .split node _ _ _ _ => node

/-- All nodes, in the order in which they are created. -/
def AreaNode.nodes : AreaNode → List Nat
  | .leaf node => [node]
  | .split node _ _ children0 children1 => node :: (children0.nodes ++ children1.nodes)

section
variable (round : Rat → Rat)

/-- What is left of `AREA_DEPTH`; the node, its links cleared, and `sv_numareanodes`. -/
def svCreateAreaNode : Nat → Vec3 → Vec3 → Nat → Links Link → AreaNode × Nat × Links Link
  | 0, _, _, node, links =>
    (.leaf node, node + 1, clearLink (clearLink links (.trigger node)) (.solid node))
  | depth + 1, mins, maxs, node, links =>
    let links := clearLink (clearLink links (.trigger node)) (.solid node)
    let axis : Axis := if round (maxs.x - mins.x) > round (maxs.y - mins.y) then .x else .y
    let dist := round (1 / 2 * round (axis.get maxs + axis.get mins))
    let (children0, next, links) :=
      svCreateAreaNode depth (axis.set mins dist) maxs (node + 1) links
    let (children1, next, links) := svCreateAreaNode depth mins (axis.set maxs dist) next links
    (.split node axis dist children0 children1, next, links)

def areaDepth : Nat := 4

/-! ## Linking -/

inductive Solid where
  | not
  | trigger
  | bbox
  | bsp
  deriving DecidableEq

structure Edict where
  inuse : Bool
  solid : Solid
  origin : Vec3
  angles : Vec3
  mins : Vec3
  maxs : Vec3
  absmin : Vec3
  absmax : Vec3

structure State where
  tree : AreaNode
  links : Links Link
  edicts : Nat → Edict

/-- `SV_ClearWorld`. -/
def svClearWorld (mins maxs : Vec3) (edicts : Nat → Edict) : State :=
  let links : Links Link := ⟨fun _ => .null, fun _ => .null⟩
  let (tree, _, links) := svCreateAreaNode round areaDepth mins maxs 0 links
  { tree, links, edicts }

def svUnlinkEdict (s : State) (ent : Nat) : State :=
  if s.links.prev (.edict ent) = .null then s
  else
    let links := removeLink s.links (.edict ent)
    { s with links := (links.setPrev (.edict ent) .null).setNext (.edict ent) .null }

def sum (a b : Vec3) : Vec3 := ⟨round (a.x + b.x), round (a.y + b.y), round (a.z + b.z)⟩

def all (c : Rat) : Vec3 := ⟨c, c, c⟩

/-- The largest coordinate of the box, without its sign. -/
def reach (ent : Edict) : Rat :=
  [ent.mins.x, ent.maxs.x, ent.mins.y, ent.maxs.y, ent.mins.z, ent.maxs.z].foldl
    (fun m c => if |c| > m then |c| else m) 0

/-- Set the abs box; it is an epsilon larger than the entity. -/
def setAbsBox (ent : Edict) : Edict :=
  let (absmin, absmax) :=
    if ent.solid = .bsp ∧ ent.angles ≠ ⟨0, 0, 0⟩ then
      (sum round ent.origin (all (-reach ent)), sum round ent.origin (all (reach ent)))
    else (sum round ent.origin ent.mins, sum round ent.origin ent.maxs)
  { ent with absmin := sum round absmin (all (-1)), absmax := sum round absmax (all 1) }

/-- Find the first node that the box crosses. -/
def crossed (absmin absmax : Vec3) : AreaNode → Nat
  | .leaf node => node
  | .split node axis dist children0 children1 =>
    if axis.get absmin > dist then crossed absmin absmax children0
    else if axis.get absmax < dist then crossed absmin absmax children1
    else node

def listOf (tree : AreaNode) (ent : Edict) : Link :=
  let node := crossed ent.absmin ent.absmax tree
  if ent.solid = .trigger then .trigger node else .solid node

/-- Entity 0 is the world. -/
def svLinkEdict (s : State) (ent : Nat) : State :=
  let s := svUnlinkEdict s ent
  if ent = 0 then s
  else if !(s.edicts ent).inuse then s
  else
    let edict := setAbsBox round (s.edicts ent)
    let s := { s with edicts := Function.update s.edicts ent edict }
    if edict.solid = .not then s
    else { s with links := insertLinkBefore s.links (.edict ent) (listOf s.tree edict) }

end

/-! ## Asking -/

inductive AreaType where
  | solid
  | triggers
  deriving DecidableEq

structure Query where
  mins : Vec3
  maxs : Vec3
  areaType : AreaType
  maxcount : Nat

def touching (q : Query) (check : Edict) : Bool :=
  !(check.absmin.x > q.maxs.x || check.absmin.y > q.maxs.y || check.absmin.z > q.maxs.z ||
    check.absmax.x < q.mins.x || check.absmax.y < q.mins.y || check.absmax.z < q.mins.z)

def start (areaType : AreaType) (node : Nat) : Link :=
  match areaType with
  | .solid => .solid node
  | .triggers => .trigger node

/-- The loop over a list, and whether it has returned. `EDICT_FROM_AREA` of a link that is no
entity's is no entity. -/
def touchLinked (s : State) (q : Query) (start : Link) :
    Nat → Link → List Nat → Option (Bool × List Nat)
  | 0, _, _ => none
  | fuel + 1, l, list =>
    if l = start then some (false, list)
    else
      match l with
      | .edict ent =>
        if (s.edicts ent).solid = .not then touchLinked s q start fuel (s.links.next l) list
        else if !touching q (s.edicts ent) then touchLinked s q start fuel (s.links.next l) list
        else if list.length = q.maxcount then some (true, list)
        else touchLinked s q start fuel (s.links.next l) (list ++ [ent])
      | _ => none

def svAreaEdictsR (s : State) (q : Query) (fuel : Nat) : AreaNode → List Nat → Option (List Nat)
  | .leaf node, list => do
    let (_, list) ← touchLinked s q (start q.areaType node) fuel
      (s.links.next (start q.areaType node)) list
    pure list
  | .split node axis dist children0 children1, list => do
    let (returned, list) ← touchLinked s q (start q.areaType node) fuel
      (s.links.next (start q.areaType node)) list
    if returned then pure list
    else
      let list ← if axis.get q.maxs > dist then svAreaEdictsR s q fuel children0 list else pure list
      if axis.get q.mins < dist then svAreaEdictsR s q fuel children1 list else pure list

def svAreaEdicts (s : State) (q : Query) (fuel : Nat) : Option (List Nat) :=
  svAreaEdictsR s q fuel s.tree []

/-! ## Runs -/

inductive Op where
  | link (ent : Nat)
  | unlink (ent : Nat)
  | change (ent : Nat) (edict : Edict)

def Linked (s : State) (ent : Nat) : Prop := s.links.prev (.edict ent) ≠ .null

instance (s : State) (ent : Nat) : Decidable (Linked s ent) := inferInstanceAs (Decidable (_ ≠ _))

/-- While an entity is in a list, the game leaves its abs box and its solid type alone. -/
def Allowed (s : State) : Op → Prop
  | .change ent edict => Linked s ent → edict.absmin = (s.edicts ent).absmin ∧
    edict.absmax = (s.edicts ent).absmax ∧ edict.solid = (s.edicts ent).solid
  | _ => True

def step (round : Rat → Rat) (s : State) : Op → State
  | .link ent => svLinkEdict round s ent
  | .unlink ent => svUnlinkEdict s ent
  | .change ent edict => { s with edicts := Function.update s.edicts ent edict }

/-! ## The operations on the links -/

theorem removeLink_eq {links : Links Link} {l : Link} (outside : links.next l ≠ l) :
    removeLink links l = links.join (links.prev l) (links.next l) := by
  have prev : (links.setPrev (links.next l) (links.prev l)).prev l = links.prev l :=
    Function.update_of_ne (Ne.symm outside) _ _
  unfold removeLink
  simp only [prev]
  rfl

theorem insertLinkBefore_eq {links : Links Link} {l before : Link}
    (outside : links.prev before ≠ l) :
    insertLinkBefore links l before = (links.join (links.prev before) l).join l before := by
  have prev : (links.setNext l before).prev before = links.prev before := rfl
  have last : ((links.setNext l before).setPrev l (links.prev before)).prev l =
      links.prev before := Function.update_self _ _ _
  have next : (((links.setNext l before).setPrev l (links.prev before)).setNext
      (links.prev before) l).next l = before :=
    (Function.update_of_ne (Ne.symm outside) _ _).trans (Function.update_self _ _ _)
  have swap : Function.update (Function.update links.next l before) (links.prev before) l =
      Function.update (Function.update links.next (links.prev before) l) l before :=
    Function.update_comm (Ne.symm outside) _ _ _
  simp only [insertLinkBefore, prev, last, next]
  simp only [Links.join, Links.setNext, Links.setPrev, swap]

/-! ## The nodes -/

/-- The heads of the lists. -/
def Head (tree : AreaNode) (l : Link) : Prop :=
  ∃ node ∈ tree.nodes, ∃ areaType, l = start areaType node

theorem crossed_mem (absmin absmax : Vec3) (tree : AreaNode) :
    crossed absmin absmax tree ∈ tree.nodes := by
  induction tree with
  | leaf node => exact List.mem_singleton_self node
  | split node axis dist children0 children1 ih0 ih1 =>
    simp only [crossed, AreaNode.nodes]
    split
    · exact List.mem_cons_of_mem node (List.mem_append_left _ ih0)
    · split
      · exact List.mem_cons_of_mem node (List.mem_append_right _ ih1)
      · exact List.mem_cons_self

/-- The type of the list an entity goes into. -/
def typeOf (ent : Edict) : AreaType := if ent.solid = .trigger then .triggers else .solid

theorem listOf_eq (tree : AreaNode) (ent : Edict) :
    listOf tree ent = start (typeOf ent) (crossed ent.absmin ent.absmax tree) := by
  unfold listOf typeOf
  split
  · rfl
  · rfl

theorem listOf_head (tree : AreaNode) (ent : Edict) : Head tree (listOf tree ent) :=
  ⟨_, crossed_mem ent.absmin ent.absmax tree, typeOf ent, listOf_eq tree ent⟩

theorem start_ne_edict (areaType : AreaType) (node ent : Nat) : start areaType node ≠ .edict ent := by
  cases areaType <;> exact Link.noConfusion

theorem start_ne_null (areaType : AreaType) (node : Nat) : start areaType node ≠ .null := by
  cases areaType <;> exact Link.noConfusion

theorem start_inj {areaType areaType' : AreaType} {node node' : Nat}
    (same : start areaType node = start areaType' node') : areaType = areaType' ∧ node = node' := by
  cases areaType <;> cases areaType' <;> simp_all [start]

theorem Head.ne_edict {tree : AreaNode} {l : Link} (head : Head tree l) (ent : Nat) :
    l ≠ .edict ent := by
  obtain ⟨node, -, areaType, rfl⟩ := head
  exact start_ne_edict areaType node ent

theorem Head.ne_null {tree : AreaNode} {l : Link} (head : Head tree l) : l ≠ .null := by
  obtain ⟨node, -, areaType, rfl⟩ := head
  exact start_ne_null areaType node

/-- What `SV_CreateAreaNode` leaves: fresh nodes whose lists are empty, all else as it was. -/
structure Created (links links' : Links Link) (node next : Nat) (tree : AreaNode) : Prop where
  fresh : ∀ n ∈ tree.nodes, node ≤ n ∧ n < next
  nodup : tree.nodes.Nodup
  empty : ∀ l, Head tree l → links'.next l = l ∧ links'.prev l = l
  kept : ∀ l, ¬Head tree l → links'.next l = links.next l ∧ links'.prev l = links.prev l

/-- The lists of a node, cleared. -/
def clearNode (links : Links Link) (node : Nat) : Links Link :=
  clearLink (clearLink links (.trigger node)) (.solid node)

theorem clearLink_next (links : Links Link) (l m : Link) :
    (clearLink links l).next m = if m = l then l else links.next m := by
  simp only [clearLink, Links.setNext, Links.setPrev, Function.update_apply]

theorem clearLink_prev (links : Links Link) (l m : Link) :
    (clearLink links l).prev m = if m = l then l else links.prev m := by
  simp only [clearLink, Links.setNext, Links.setPrev, Function.update_apply]

theorem clearNode_start (links : Links Link) (areaType : AreaType) (node : Nat) :
    (clearNode links node).next (start areaType node) = start areaType node ∧
      (clearNode links node).prev (start areaType node) = start areaType node := by
  cases areaType <;> simp [clearNode, start, clearLink_next, clearLink_prev]

theorem clearNode_other (links : Links Link) {l : Link} {node : Nat}
    (other : ∀ areaType, l ≠ start areaType node) :
    (clearNode links node).next l = links.next l ∧
      (clearNode links node).prev l = links.prev l := by
  have trigger := other .triggers
  have solid := other .solid
  simp only [start] at trigger solid
  simp [clearNode, clearLink_next, clearLink_prev, trigger, solid]

theorem head_split {node : Nat} {axis : Axis} {dist : Rat} {children0 children1 : AreaNode}
    {l : Link} : Head (.split node axis dist children0 children1) l ↔
      (∃ areaType, l = start areaType node) ∨ Head children0 l ∨ Head children1 l := by
  simp only [Head, AreaNode.nodes, List.mem_cons, List.mem_append]
  constructor
  · rintro ⟨n, rfl | inner | inner, type⟩
    · exact .inl type
    · exact .inr (.inl ⟨n, inner, type⟩)
    · exact .inr (.inr ⟨n, inner, type⟩)
  · rintro (type | ⟨n, inner, type⟩ | ⟨n, inner, type⟩)
    · exact ⟨node, .inl rfl, type⟩
    · exact ⟨n, .inr (.inl inner), type⟩
    · exact ⟨n, .inr (.inr inner), type⟩

theorem created_leaf (links : Links Link) (node : Nat) :
    Created links (clearNode links node) node (node + 1) (.leaf node) where
  fresh n hn := by
    obtain rfl := List.mem_singleton.mp hn
    omega
  nodup := List.nodup_singleton node
  empty l hl := by
    obtain ⟨n, hn, areaType, rfl⟩ := hl
    obtain rfl := List.mem_singleton.mp hn
    exact clearNode_start links areaType n
  kept l hl := clearNode_other links fun areaType same =>
    hl ⟨node, List.mem_singleton_self node, areaType, same⟩

/-- The nodes of the halves are other than their parent and than one another. -/
theorem created_split {links links0 links1 : Links Link} {node next0 next1 : Nat} {axis : Axis}
    {dist : Rat} {children0 children1 : AreaNode}
    (half0 : Created (clearNode links node) links0 (node + 1) next0 children0)
    (half1 : Created links0 links1 next0 next1 children1) (up : next0 ≤ next1)
    (up0 : node + 1 ≤ next0) :
    Created links links1 node next1 (.split node axis dist children0 children1) where
  fresh n hn := by
    simp only [AreaNode.nodes, List.mem_cons, List.mem_append] at hn
    rcases hn with rfl | hn | hn
    · omega
    · have := half0.fresh n hn
      omega
    · have := half1.fresh n hn
      omega
  nodup := by
    simp only [AreaNode.nodes, List.nodup_cons, List.mem_append, not_or]
    refine ⟨⟨fun hn => ?_, fun hn => ?_⟩, half0.nodup.append half1.nodup fun n hn hn' => ?_⟩
    · have := half0.fresh node hn
      omega
    · have := half1.fresh node hn
      omega
    · have := half0.fresh n hn
      have := half1.fresh n hn'
      omega
  empty l hl := by
    by_cases inner1 : Head children1 l
    · exact half1.empty l inner1
    · obtain ⟨keptNext, keptPrev⟩ := half1.kept l inner1
      rw [keptNext, keptPrev]
      by_cases inner0 : Head children0 l
      · exact half0.empty l inner0
      · obtain ⟨keptNext, keptPrev⟩ := half0.kept l inner0
        rw [keptNext, keptPrev]
        rcases head_split.mp hl with ⟨areaType, rfl⟩ | inner | inner
        · exact clearNode_start links areaType node
        · exact absurd inner inner0
        · exact absurd inner inner1
  kept l hl := by
    simp only [head_split, not_or, not_exists] at hl
    obtain ⟨other, other0, other1⟩ := hl
    obtain ⟨keptNext, keptPrev⟩ := half1.kept l other1
    obtain ⟨keptNext0, keptPrev0⟩ := half0.kept l other0
    rw [keptNext, keptPrev, keptNext0, keptPrev0]
    exact clearNode_other links other

/-- There are twice as many nodes at each depth. -/
theorem svCreateAreaNode_created (round : Rat → Rat) (depth : Nat) (mins maxs : Vec3) (node : Nat)
    (links : Links Link) :
    let made := svCreateAreaNode round depth mins maxs node links
    Created links made.2.2 node made.2.1 made.1 ∧ made.2.1 + 1 = node + 2 ^ (depth + 1) := by
  induction depth generalizing mins maxs node links with
  | zero => exact ⟨created_leaf links node, rfl⟩
  | succ depth ih =>
    simp only [svCreateAreaNode]
    generalize (if round (maxs.x - mins.x) > round (maxs.y - mins.y) then Axis.x else Axis.y) = axis
    generalize round (1 / 2 * round (axis.get maxs + axis.get mins)) = dist
    have half0 := ih (axis.set mins dist) maxs (node + 1)
      (clearLink (clearLink links (.trigger node)) (.solid node))
    generalize svCreateAreaNode round depth (axis.set mins dist) maxs (node + 1)
      (clearLink (clearLink links (.trigger node)) (.solid node)) = made0 at half0 ⊢
    obtain ⟨tree0, next0, links0⟩ := made0
    obtain ⟨created0, count0⟩ := half0
    simp only at created0 count0 ⊢
    have half1 := ih mins (axis.set maxs dist) next0 links0
    generalize svCreateAreaNode round depth mins (axis.set maxs dist) next0 links0 =
      made1 at half1 ⊢
    obtain ⟨tree1, next1, links1⟩ := made1
    obtain ⟨created1, count1⟩ := half1
    simp only at created1 count1 ⊢
    have more : 1 ≤ 2 ^ depth := Nat.one_le_two_pow
    exact ⟨created_split created0 created1 (by omega) (by omega), by omega⟩

/-! ## The lists -/

/-- `members` are the entities of each list: those that belong there. No other has links. -/
structure Placed (s : State) (members : Link → List Nat) : Prop where
  rings : Rings s.links (Head s.tree) fun head => (members head).map .edict
  home : ∀ head, Head s.tree head → ∀ ent ∈ members head,
    head = listOf s.tree (s.edicts ent) ∧ (s.edicts ent).solid ≠ .not
  free : ∀ ent, (∀ head, Head s.tree head → ent ∉ members head) → ¬Linked s ent

theorem Head.edict_mem {tree : AreaNode} {head : Link} (hhead : Head tree head) {ent : Nat}
    {l : List Nat} : Link.edict ent ∈ head :: l.map .edict ↔ ent ∈ l := by
  simp [Ne.symm (hhead.ne_edict ent)]

section
variable {s : State} {members : Link → List Nat} {head head' : Link} {ent : Nat}

theorem Placed.nodup (h : Placed s members) (hhead : Head s.tree head) : (members head).Nodup :=
  (List.nodup_cons.mp (h.rings.ring head hhead).nodup).2.of_map

theorem Placed.one_home (h : Placed s members) (hhead : Head s.tree head)
    (hhead' : Head s.tree head') (hmem : ent ∈ members head) (hmem' : ent ∈ members head') :
    head = head' :=
  (h.home head hhead ent hmem).1.trans (h.home head' hhead' ent hmem').1.symm

/-- A list around one of its entities. -/
theorem Placed.around (h : Placed s members) (hhead : Head s.tree head) (hmem : ent ∈ members head) :
    ∃ before after, members head = before ++ ent :: after ∧ ent ∉ before ++ after ∧
      s.links.prev (.edict ent) ∈ head :: (before ++ after).map .edict ∧
      s.links.next (.edict ent) ∈ head :: (before ++ after).map .edict := by
  obtain ⟨before, after, parts⟩ := List.append_of_mem hmem
  have ring := h.rings.ring head hhead
  have nodup := h.nodup hhead
  rw [parts, List.map_append, List.map_cons] at ring
  rw [parts, List.nodup_middle] at nodup
  refine ⟨before, after, parts, (List.nodup_cons.mp nodup).1, ?_⟩
  rw [List.map_append]
  exact ring.neighbours

/-- An entity of a list has links. -/
theorem Placed.linked_of_mem (h : Placed s members) (hhead : Head s.tree head)
    (hmem : ent ∈ members head) : Linked s ent := by
  obtain ⟨before, after, -, -, prev, -⟩ := h.around hhead hmem
  intro null
  rw [null] at prev
  rcases List.mem_cons.mp prev with same | prev
  · exact hhead.ne_null same.symm
  · obtain ⟨other, -, same⟩ := List.mem_map.mp prev
    exact Link.noConfusion same

theorem Placed.linked_iff (h : Placed s members) :
    Linked s ent ↔ ∃ head, Head s.tree head ∧ ent ∈ members head := by
  constructor
  · intro linked
    by_contra none
    exact h.free ent (fun head hhead hmem => none ⟨head, hhead, hmem⟩) linked
  · rintro ⟨head, hhead, hmem⟩
    exact h.linked_of_mem hhead hmem

/-! ## What the operations do to the lists -/

theorem map_update (members : Link → List Nat) (head : Link) (l : List Nat) :
    (fun other => (Function.update members head l other).map Link.edict) =
      Function.update (fun other => (members other).map Link.edict) head (l.map .edict) := by
  funext other
  by_cases same : other = head
  · subst same
    simp only [Function.update_self]
  · simp only [Function.update_of_ne same]

theorem mem_pushed {x : Nat} : x ∈ Function.update members head (members head ++ [ent]) head' ↔
    x ∈ members head' ∨ head' = head ∧ x = ent := by
  by_cases same : head' = head
  · subst same
    simp only [Function.update_self, List.mem_append, List.mem_singleton, true_and]
  · simp only [Function.update_of_ne same, same, false_and, or_false]

theorem Placed.mem_removed (h : Placed s members) (hhead : Head s.tree head)
    (hhead' : Head s.tree head') {before after : List Nat}
    (parts : members head = before ++ ent :: after) (gone : ent ∉ before ++ after) {x : Nat} :
    x ∈ Function.update members head (before ++ after) head' ↔ x ∈ members head' ∧ x ≠ ent := by
  by_cases same : head' = head
  · subst same
    rw [Function.update_self, parts, List.mem_append, List.mem_append, List.mem_cons]
    rw [List.mem_append] at gone
    constructor
    · intro hx
      exact ⟨hx.imp_right .inr, fun same => gone (same ▸ hx)⟩
    · rintro ⟨hx | rfl | hx, other⟩
      · exact .inl hx
      · exact absurd rfl other
      · exact .inr hx
  · rw [Function.update_of_ne same]
    have hmem : ent ∈ members head := parts ▸ List.mem_append_right before List.mem_cons_self
    constructor
    · intro hx
      exact ⟨hx, fun old => same (h.one_home hhead' hhead (old ▸ hx) hmem)⟩
    · exact And.left

theorem svUnlinkEdict_tree (s : State) (ent : Nat) : (svUnlinkEdict s ent).tree = s.tree := by
  unfold svUnlinkEdict
  split
  · rfl
  · rfl

theorem svUnlinkEdict_edicts (s : State) (ent : Nat) :
    (svUnlinkEdict s ent).edicts = s.edicts := by
  unfold svUnlinkEdict
  split
  · rfl
  · rfl

/-- An entity is taken out of its list, and has no links then. -/
theorem Placed.removed (h : Placed s members) (hhead : Head s.tree head)
    (hmem : ent ∈ members head) : ∃ members', Placed (svUnlinkEdict s ent) members' ∧
      ∀ head', Head s.tree head' → ∀ x, x ∈ members' head' ↔ x ∈ members head' ∧ x ≠ ent := by
  obtain ⟨before, after, parts, gone, prev, next⟩ := h.around hhead hmem
  have mems : ∀ head', Head s.tree head' → ∀ x,
      x ∈ Function.update members head (before ++ after) head' ↔ x ∈ members head' ∧ x ≠ ent :=
    fun head' hhead' x => h.mem_removed hhead hhead' parts gone
  have outside : ∀ head', Head s.tree head' →
      Link.edict ent ∉ head' :: (Function.update members head (before ++ after) head').map .edict :=
    fun head' hhead' hx => ((mems head' hhead' ent).mp (hhead'.edict_mem.mp hx)).2 rfl
  have joined : removeLink s.links (.edict ent) =
      s.links.join (s.links.prev (.edict ent)) (s.links.next (.edict ent)) :=
    removeLink_eq fun same => gone (hhead.edict_mem.mp (same ▸ next))
  unfold svUnlinkEdict
  rw [if_neg (h.linked_of_mem hhead hmem), joined]
  refine ⟨_, ⟨?_, ?_, ?_⟩, mems⟩
  · have rings := @Rings.unlink _ _ _ (before.map Link.edict) (after.map .edict) _ _ _ (.edict ent)
      h.rings hhead (by simp only [parts, List.map_append, List.map_cons])
    rw [← List.map_append, ← map_update] at rings
    exact (rings.setPrev_outside outside).setNext_outside outside
  · intro head' hhead' x hx
    exact h.home head' hhead' x ((mems head' hhead' x).mp hx).1
  · intro x hx linked
    by_cases same : x = ent
    · subst same
      exact linked (Function.update_self _ _ _)
    · have notEnt : Link.edict x ≠ .edict ent := fun equal => same (Link.edict.inj equal)
      have notNext : Link.edict x ≠ s.links.next (.edict ent) := by
        intro isNext
        refine hx head hhead ?_
        rw [Function.update_self]
        exact hhead.edict_mem.mp (isNext ▸ next)
      refine h.free x (fun head' hhead' old => ?_) fun null => linked ?_
      · exact hx head' hhead' ((mems head' hhead' x).mpr ⟨old, same⟩)
      · exact (Function.update_of_ne notEnt _ _).trans
          ((Function.update_of_ne notNext _ _).trans null)

/-- The others stay linked. -/
theorem Placed.unlink (h : Placed s members) (ent : Nat) :
    ∃ members', Placed (svUnlinkEdict s ent) members' ∧
      ∀ x, Linked (svUnlinkEdict s ent) x ↔ Linked s x ∧ x ≠ ent := by
  by_cases linked : Linked s ent
  · obtain ⟨head, hhead, hmem⟩ := h.linked_iff.mp linked
    obtain ⟨members', placed, mems⟩ := h.removed hhead hmem
    refine ⟨members', placed, fun x => ?_⟩
    rw [placed.linked_iff, h.linked_iff, svUnlinkEdict_tree]
    constructor
    · rintro ⟨head', hhead', hx⟩
      obtain ⟨old, other⟩ := (mems head' hhead' x).mp hx
      exact ⟨⟨head', hhead', old⟩, other⟩
    · rintro ⟨⟨head', hhead', old⟩, other⟩
      exact ⟨head', hhead', (mems head' hhead' x).mpr ⟨old, other⟩⟩
  · unfold svUnlinkEdict
    rw [if_pos (not_not.mp linked)]
    refine ⟨members, h, fun x => ?_⟩
    constructor
    · intro old
      exact ⟨old, fun same => linked (same ▸ old)⟩
    · exact And.left

theorem setAbsBox_solid (round : Rat → Rat) (ent : Edict) :
    (setAbsBox round ent).solid = ent.solid := rfl

/-- An entity can change where that is allowed. -/
theorem Placed.change (h : Placed s members) {edict : Edict}
    (allowed : Allowed s (.change ent edict)) :
    Placed { s with edicts := Function.update s.edicts ent edict } members where
  rings := h.rings
  home head hhead x hx := by
    obtain ⟨belongs, there⟩ := h.home head hhead x hx
    by_cases same : x = ent
    · subst same
      obtain ⟨absmin, absmax, solid⟩ := allowed (h.linked_of_mem hhead hx)
      simp only [Function.update_self, listOf, absmin, absmax, solid]
      exact ⟨belongs, there⟩
    · simp only [Function.update_of_ne same]
      exact ⟨belongs, there⟩
  free := h.free

/-- An entity in no list goes to the end of the one where it belongs. -/
theorem Placed.insert (h : Placed s members) (out : ¬Linked s ent)
    (there : (s.edicts ent).solid ≠ .not) (belongs : head = listOf s.tree (s.edicts ent)) :
    Placed { s with links := insertLinkBefore s.links (.edict ent) head }
      (Function.update members head (members head ++ [ent])) := by
  have hhead : Head s.tree head := belongs ▸ listOf_head s.tree (s.edicts ent)
  have fresh : ∀ head, Head s.tree head → Link.edict ent ∉ head :: (members head).map .edict :=
    fun head hhead hmem => out (h.linked_of_mem hhead (hhead.edict_mem.mp hmem))
  have last : s.links.prev head ∈ head :: (members head).map .edict := by
    rw [(joins_last (h.rings.ring head hhead).joins).2]
    exact NodeLinks.getLastD_mem head _
  have inserted : insertLinkBefore s.links (.edict ent) head =
      (s.links.join (s.links.prev head) (.edict ent)).join (.edict ent) head :=
    insertLinkBefore_eq fun same => fresh head hhead (same ▸ last)
  rw [inserted]
  refine ⟨?_, ?_, ?_⟩
  · have rings := h.rings.pushBack hhead fresh
    rw [map_update, List.map_append]
    exact rings
  · intro head' hhead' x hx
    rcases mem_pushed.mp hx with old | ⟨rfl, rfl⟩
    · exact h.home head' hhead' x old
    · exact ⟨belongs, there⟩
  · intro x hx linked
    have notEnt : Link.edict x ≠ .edict ent := fun same =>
      hx head hhead (mem_pushed.mpr (.inr ⟨rfl, Link.edict.inj same⟩))
    refine h.free x (fun head' hhead' old => ?_) fun null => linked ?_
    · exact hx head' hhead' (mem_pushed.mpr (.inl old))
    · exact (Function.update_of_ne (hhead.ne_edict x).symm _ _).trans
        ((Function.update_of_ne notEnt _ _).trans null)

/-- When `SV_LinkEdict` puts an entity into a list. -/
def Admitted (s : State) (ent : Nat) : Prop :=
  ent ≠ 0 ∧ (s.edicts ent).inuse = true ∧ (s.edicts ent).solid ≠ .not

theorem Placed.admit (h : Placed s members) (out : ¬Linked s ent) {edict : Edict}
    (now : s.edicts ent = edict) (there : edict.solid ≠ .not) :
    ∃ members', Placed { s with
        links := insertLinkBefore s.links (.edict ent) (listOf s.tree edict) } members' ∧
      ∀ x, Linked { s with
        links := insertLinkBefore s.links (.edict ent) (listOf s.tree edict) } x ↔
          Linked s x ∨ x = ent := by
  subst now
  have placed := h.insert out there rfl
  refine ⟨_, placed, fun x => ?_⟩
  rw [placed.linked_iff, h.linked_iff]
  constructor
  · rintro ⟨head', hhead', hx⟩
    rcases mem_pushed.mp hx with old | ⟨-, same⟩
    · exact .inl ⟨head', hhead', old⟩
    · exact .inr same
  · rintro (⟨head', hhead', old⟩ | same)
    · exact ⟨head', hhead', mem_pushed.mpr (.inl old)⟩
    · exact ⟨_, listOf_head s.tree (s.edicts ent), mem_pushed.mpr (.inr ⟨rfl, same⟩)⟩

/-- An entity that may be linked is, and the others stay where they are. -/
theorem Placed.link (h : Placed s members) (round : Rat → Rat) (ent : Nat) :
    ∃ members', Placed (svLinkEdict round s ent) members' ∧
      ∀ x, Linked (svLinkEdict round s ent) x ↔ if x = ent then Admitted s ent else Linked s x := by
  obtain ⟨members', placed, unlinked⟩ := h.unlink ent
  have out : ¬Linked (svUnlinkEdict s ent) ent := fun linked => ((unlinked ent).mp linked).2 rfl
  have edicts := svUnlinkEdict_edicts s ent
  have absent : ¬Admitted s ent → ∀ x, Linked (svUnlinkEdict s ent) x ↔
      if x = ent then Admitted s ent else Linked s x := by
    intro refused x
    rw [unlinked]
    by_cases same : x = ent
    · simp only [same, ne_eq, not_true_eq_false, and_false, if_true, refused]
    · simp only [same, ne_eq, not_false_eq_true, and_true, if_false]
  unfold svLinkEdict
  simp only
  split
  · next world => exact ⟨members', placed, absent fun admitted => admitted.1 world⟩
  · next world =>
    split
    · next unused =>
      refine ⟨members', placed, absent fun admitted => ?_⟩
      rw [edicts, admitted.2.1] at unused
      exact Bool.noConfusion unused
    · next used =>
      have changed := @Placed.change _ _ ent placed
        (setAbsBox round ((svUnlinkEdict s ent).edicts ent)) fun linked => absurd linked out
      split
      · next empty =>
        refine ⟨members', changed, absent fun admitted => ?_⟩
        rw [edicts, setAbsBox_solid] at empty
        exact admitted.2.2 empty
      · next there =>
        have admitted : Admitted s ent := by
          rw [edicts, Bool.not_eq_true', Bool.not_eq_false] at used
          refine ⟨world, used, ?_⟩
          rw [← edicts, ← setAbsBox_solid round]
          exact there
        obtain ⟨members'', placed', linked⟩ :=
          changed.admit out (Function.update_self ent _ (svUnlinkEdict s ent).edicts) there
        refine ⟨members'', placed', fun x => ?_⟩
        rw [linked]
        have kept := unlinked x
        by_cases same : x = ent
        · simp only [same, or_true, if_true, admitted]
        · simp only [same, or_false, if_false]
          exact kept.trans (and_iff_left same)

/-! ## What a query finds -/

/-- The boxes meet. -/
def Touches (mins maxs : Vec3) (ent : Edict) : Prop :=
  (ent.absmin.x ≤ maxs.x ∧ mins.x ≤ ent.absmax.x) ∧
    (ent.absmin.y ≤ maxs.y ∧ mins.y ≤ ent.absmax.y) ∧
    (ent.absmin.z ≤ maxs.z ∧ mins.z ≤ ent.absmax.z)

theorem touching_iff {q : Query} {check : Edict} :
    touching q check = true ↔ Touches q.mins q.maxs check := by
  simp only [touching, Touches, Bool.not_eq_true', Bool.or_eq_false_iff, decide_eq_false_iff_not,
    gt_iff_lt, not_lt]
  constructor
  · rintro ⟨⟨⟨⟨⟨x, y⟩, z⟩, x'⟩, y'⟩, z'⟩
    exact ⟨⟨x, x'⟩, ⟨y, y'⟩, z, z'⟩
  · rintro ⟨⟨x, x'⟩, ⟨y, y'⟩, z, z'⟩
    exact ⟨⟨⟨⟨⟨x, y⟩, z⟩, x'⟩, y'⟩, z'⟩

theorem Touches.axis {mins maxs : Vec3} {check : Edict} (touches : Touches mins maxs check)
    (axis : Axis) : axis.get check.absmin ≤ axis.get maxs ∧ axis.get mins ≤ axis.get check.absmax := by
  cases axis with
  | x => exact touches.1
  | y => exact touches.2.1

/-- The touching entities of the lists that a query looks through. -/
def found (members : Link → List Nat) (q : Query) (touches : Nat → Bool) : AreaNode → List Nat
  | .leaf node => (members (start q.areaType node)).filter touches
  | .split node axis dist children0 children1 =>
    (members (start q.areaType node)).filter touches ++
      (if axis.get q.maxs > dist then found members q touches children0 else []) ++
      (if axis.get q.mins < dist then found members q touches children1 else [])

/-- What is found does not depend on the room for it. -/
theorem found_maxcount (members : Link → List Nat) (q : Query) (maxcount : Nat)
    (touches : Nat → Bool) (tree : AreaNode) :
    found members { q with maxcount } touches tree = found members q touches tree := by
  induction tree with
  | leaf node => rfl
  | split node axis dist children0 children1 ih0 ih1 => simp only [found, ih0, ih1]

/-- Nothing is found twice or outside the lists. -/
theorem found_sublist (members : Link → List Nat) (q : Query) (touches : Nat → Bool)
    (tree : AreaNode) : List.Sublist (found members q touches tree)
      ((tree.nodes.flatMap fun node => members (start q.areaType node)).filter touches) := by
  induction tree with
  | leaf node =>
    simp only [found, AreaNode.nodes, List.flatMap_cons, List.flatMap_nil, List.append_nil]
    exact List.Sublist.refl _
  | split node axis dist children0 children1 ih0 ih1 =>
    simp only [found, AreaNode.nodes, List.flatMap_cons, List.flatMap_append, List.filter_append,
      List.append_assoc]
    refine List.Sublist.append_left (List.Sublist.append ?_ ?_) _
    · split
      · exact ih0
      · exact List.nil_sublist _
    · split
      · exact ih1
      · exact List.nil_sublist _

/-- A touching entity is in a list that is looked through. Where the walk of `SV_LinkEdict` turns
off, the query goes there as well, as it reaches beyond the plane. -/
theorem mem_found {members : Link → List Nat} {q : Query} {touches : Nat → Bool} {ent : Nat}
    {edict : Edict} (touch : Touches q.mins q.maxs edict) (counted : touches ent = true)
    {tree : AreaNode}
    (there : ent ∈ members (start q.areaType (crossed edict.absmin edict.absmax tree))) :
    ent ∈ found members q touches tree := by
  induction tree with
  | leaf node => exact List.mem_filter.mpr ⟨there, counted⟩
  | split node axis dist children0 children1 ih0 ih1 =>
    obtain ⟨low, high⟩ := touch.axis axis
    simp only [crossed] at there
    simp only [found, List.mem_append]
    split at there
    · next above =>
      have reaches : axis.get q.maxs > dist := lt_of_lt_of_le above low
      rw [if_pos reaches]
      exact .inl (.inr (ih0 there))
    · split at there
      · next below =>
        have reaches : axis.get q.mins < dist := lt_of_le_of_lt high below
        rw [if_pos reaches]
        exact .inr (ih1 there)
      · exact .inl (.inl (List.mem_filter.mpr ⟨there, counted⟩))

def touched (s : State) (q : Query) (ent : Nat) : Bool := touching q (s.edicts ent)

/-- The loop over the rest of a list, with room for what it finds. -/
theorem touchLinked_joins {q : Query} {fuel : Nat} {a : Link} {rest list : List Nat}
    (joins : Joins s.links a (rest.map .edict) head) (notEdict : ∀ ent, head ≠ .edict ent)
    (there : ∀ ent ∈ rest, (s.edicts ent).solid ≠ .not) (enough : rest.length < fuel)
    (room : list.length + (rest.filter (touched s q)).length ≤ q.maxcount) :
    touchLinked s q head fuel (s.links.next a) list =
      some (false, list ++ rest.filter (touched s q)) := by
  induction rest generalizing a fuel list with
  | nil =>
    obtain ⟨fuel, rfl⟩ := Nat.exists_eq_succ_of_ne_zero (Nat.ne_of_gt enough)
    rw [joins.1, List.filter_nil, List.append_nil]
    unfold touchLinked
    exact if_pos rfl
  | cons ent rest ih =>
    obtain ⟨fuel, rfl⟩ := Nat.exists_eq_succ_of_ne_zero (Nat.ne_of_gt (Nat.zero_lt_of_lt enough))
    have enough' : rest.length < fuel := Nat.lt_of_succ_lt_succ enough
    have there' : ∀ ent ∈ rest, (s.edicts ent).solid ≠ .not :=
      fun x hx => there x (List.mem_cons_of_mem ent hx)
    rw [joins.1.1]
    unfold touchLinked
    rw [if_neg (notEdict ent).symm]
    simp only [there ent List.mem_cons_self, if_false]
    by_cases touch : touched s q ent = true
    · rw [List.filter_cons_of_pos touch] at room ⊢
      rw [List.length_cons] at room
      have notFull : list.length ≠ q.maxcount := by omega
      unfold touched at touch
      simp only [touch, Bool.not_true, Bool.false_eq_true, if_false, notFull]
      rw [ih joins.2 there' enough' (by rw [List.length_append, List.length_singleton]; omega)]
      rw [List.append_assoc, List.singleton_append]
    · rw [List.filter_cons_of_neg touch] at room ⊢
      unfold touched at touch
      rw [Bool.not_eq_true] at touch
      simp only [touch, Bool.not_false, if_true]
      exact ih joins.2 there' enough' room

theorem Placed.touchLinked_eq (h : Placed s members) {q : Query} {node fuel : Nat}
    {list : List Nat} (hnode : node ∈ s.tree.nodes)
    (enough : (members (start q.areaType node)).length < fuel)
    (room : list.length + ((members (start q.areaType node)).filter (touched s q)).length ≤
      q.maxcount) :
    touchLinked s q (start q.areaType node) fuel (s.links.next (start q.areaType node)) list =
      some (false, list ++ (members (start q.areaType node)).filter (touched s q)) := by
  have hhead : Head s.tree (start q.areaType node) := ⟨node, hnode, q.areaType, rfl⟩
  exact touchLinked_joins (h.rings.ring _ hhead).joins hhead.ne_edict
    (fun ent hmem => (h.home _ hhead ent hmem).2) enough room

/-- The query below a node, with room for what it finds. -/
theorem Placed.svAreaEdictsR_eq (h : Placed s members) {q : Query} {fuel : Nat} {tree : AreaNode}
    {list : List Nat} (part : ∀ node ∈ tree.nodes, node ∈ s.tree.nodes)
    (enough : ∀ node ∈ tree.nodes, (members (start q.areaType node)).length < fuel)
    (room : list.length + (found members q (touched s q) tree).length ≤ q.maxcount) :
    svAreaEdictsR s q fuel tree list = some (list ++ found members q (touched s q) tree) := by
  induction tree generalizing list with
  | leaf node =>
    have self : node ∈ (AreaNode.leaf node).nodes := List.mem_singleton_self node
    simp only [found] at room ⊢
    unfold svAreaEdictsR
    rw [h.touchLinked_eq (part node self) (enough node self) room]
    rfl
  | split node axis dist children0 children1 ih0 ih1 =>
    simp only [AreaNode.nodes, List.mem_cons, List.mem_append] at part enough
    simp only [found, List.length_append] at room ⊢
    unfold svAreaEdictsR
    rw [h.touchLinked_eq (part node (.inl rfl)) (enough node (.inl rfl)) (by omega)]
    have below1 : ∀ seen : List Nat, seen.length +
        (if axis.get q.mins < dist then found members q (touched s q) children1 else []).length ≤
          q.maxcount →
        (if axis.get q.mins < dist then svAreaEdictsR s q fuel children1 seen else pure seen) =
          some (seen ++
            if axis.get q.mins < dist then found members q (touched s q) children1 else []) := by
      intro seen room
      by_cases reaches : axis.get q.mins < dist
      · simp only [reaches, if_true] at room ⊢
        exact ih1 (fun n hn => part n (.inr (.inr hn))) (fun n hn => enough n (.inr (.inr hn))) room
      · simp only [reaches, if_false, List.append_nil]
        rfl
    simp only [Option.bind_eq_bind, Option.bind_some, Bool.false_eq_true, if_false]
    by_cases reaches : axis.get q.maxs > dist
    · simp only [reaches, if_true] at room ⊢
      rw [ih0 (fun n hn => part n (.inr (.inl hn))) (fun n hn => enough n (.inr (.inl hn)))
        (by rw [List.length_append]; omega)]
      simp only [Option.bind_some]
      rw [below1 _ (by rw [List.length_append, List.length_append]; omega)]
      simp only [List.append_assoc]
    · simp only [reaches, if_false, List.append_nil] at room ⊢
      simp only [Option.pure_def, Option.bind_some]
      rw [List.length_nil] at room
      refine (below1 _ (by rw [List.length_append]; omega)).trans ?_
      rw [List.append_assoc]

end

/-! ## Whole runs -/

theorem svLinkEdict_tree (round : Rat → Rat) (s : State) (ent : Nat) :
    (svLinkEdict round s ent).tree = s.tree := by
  unfold svLinkEdict
  simp only
  split
  · exact svUnlinkEdict_tree s ent
  · split
    · exact svUnlinkEdict_tree s ent
    · split
      · exact svUnlinkEdict_tree s ent
      · exact svUnlinkEdict_tree s ent

/-- The invariant of the runs. -/
structure Inv (s : State) : Prop where
  nodup : s.tree.nodes.Nodup
  placed : ∃ members, Placed s members

theorem svClearWorld_unlinked (round : Rat → Rat) (mins maxs : Vec3) (edicts : Nat → Edict)
    (ent : Nat) : ¬Linked (svClearWorld round mins maxs edicts) ent := by
  obtain ⟨created, -⟩ := svCreateAreaNode_created round areaDepth mins maxs 0
    ⟨fun _ => .null, fun _ => .null⟩
  exact fun linked => linked (created.kept (.edict ent) fun hhead => hhead.ne_edict ent rfl).2

/-- `SV_ClearWorld` leaves no entity linked. -/
theorem svClearWorld_inv (round : Rat → Rat) (mins maxs : Vec3) (edicts : Nat → Edict) :
    Inv (svClearWorld round mins maxs edicts) := by
  obtain ⟨created, -⟩ := svCreateAreaNode_created round areaDepth mins maxs 0
    ⟨fun _ => .null, fun _ => .null⟩
  refine ⟨created.nodup, fun _ => [], ⟨?_, ?_, ?_⟩⟩
  · exact rings_nil created.empty
  · rintro head - ent hmem
    exact absurd hmem List.not_mem_nil
  · rintro ent -
    exact svClearWorld_unlinked round mins maxs edicts ent

/-- Linking, unlinking and changing an entity keep the invariant. -/
theorem step_inv (round : Rat → Rat) (s : State) (op : Op) (h : Inv s) (allowed : Allowed s op) :
    Inv (step round s op) := by
  obtain ⟨nodup, members, placed⟩ := h
  cases op with
  | link ent =>
    obtain ⟨members', placed', -⟩ := placed.link round ent
    refine ⟨?_, members', placed'⟩
    rw [step, svLinkEdict_tree]
    exact nodup
  | unlink ent =>
    obtain ⟨members', placed', -⟩ := placed.unlink ent
    refine ⟨?_, members', placed'⟩
    rw [step, svUnlinkEdict_tree]
    exact nodup
  | change ent edict => exact ⟨nodup, members, placed.change allowed⟩

/-- The lists are rings, and what is linked is in exactly one of them. -/
structure InLists (s : State) (members : Link → List Nat) : Prop where
  ring : ∀ head, Head s.tree head → IsRing s.links head ((members head).map .edict)
  one : ∀ ent, Linked s ent → ∃! head, Head s.tree head ∧ ent ∈ members head
  only : ∀ head ent, Head s.tree head → ent ∈ members head → Linked s ent

theorem Placed.inLists {s : State} {members : Link → List Nat} (h : Placed s members) :
    InLists s members where
  ring := h.rings.ring
  one ent linked := by
    obtain ⟨head, hhead, hmem⟩ := h.linked_iff.mp linked
    refine ⟨head, ⟨hhead, hmem⟩, ?_⟩
    rintro head' ⟨hhead', hmem'⟩
    exact h.one_home hhead' hhead hmem' hmem
  only _ _ := h.linked_of_mem

/-- The entities a query asks for. -/
def Wanted (s : State) (mins maxs : Vec3) (areaType : AreaType) (ent : Nat) : Prop :=
  Linked s ent ∧ typeOf (s.edicts ent) = areaType ∧ Touches mins maxs (s.edicts ent)

section
variable {s : State} {members : Link → List Nat}

theorem Placed.mem_found_iff (h : Placed s members) (q : Query) (ent : Nat) :
    ent ∈ found members q (touched s q) s.tree ↔ Wanted s q.mins q.maxs q.areaType ent := by
  constructor
  · intro hmem
    obtain ⟨seen, touch⟩ := List.mem_filter.mp ((found_sublist _ _ _ _).subset hmem)
    obtain ⟨node, hnode, hmem⟩ := List.mem_flatMap.mp seen
    have hhead : Head s.tree (start q.areaType node) := ⟨node, hnode, q.areaType, rfl⟩
    refine ⟨h.linked_of_mem hhead hmem, ?_, touching_iff.mp touch⟩
    have belongs := (h.home _ hhead ent hmem).1
    rw [listOf_eq] at belongs
    exact (start_inj belongs).1.symm
  · rintro ⟨linked, type, touch⟩
    obtain ⟨head, hhead, hmem⟩ := h.linked_iff.mp linked
    have belongs := (h.home head hhead ent hmem).1
    rw [listOf_eq, type] at belongs
    exact mem_found touch (touching_iff.mpr touch) (belongs ▸ hmem)

theorem Placed.found_nodup (h : Placed s members) (nodup : s.tree.nodes.Nodup) (q : Query) :
    (found members q (touched s q) s.tree).Nodup := by
  refine List.Nodup.sublist (found_sublist _ _ _ _) (List.Nodup.filter _ ?_)
  refine List.nodup_flatMap.mpr ⟨fun node hnode => ?_, ?_⟩
  · exact h.nodup ⟨node, hnode, q.areaType, rfl⟩
  · refine List.Pairwise.imp_of_mem ?_ nodup
    intro node node' hnode hnode' different ent hmem hmem'
    have same := h.one_home ⟨node, hnode, q.areaType, rfl⟩ ⟨node', hnode', q.areaType, rfl⟩ hmem hmem'
    exact different (start_inj same).2

/-- A query with room for all it finds. -/
theorem Placed.svAreaEdicts_eq (h : Placed s members) (q : Query)
    (room : (found members q (touched s q) s.tree).length ≤ q.maxcount) :
    ∃ enough, ∀ fuel, enough ≤ fuel →
      svAreaEdicts s q fuel = some (found members q (touched s q) s.tree) := by
  refine ⟨(s.tree.nodes.flatMap fun node => members (start q.areaType node)).length + 1,
    fun fuel enough => ?_⟩
  refine h.svAreaEdictsR_eq (fun node hnode => hnode) (fun node hnode => ?_) ?_
  · have part : List.Sublist (members (start q.areaType node))
        (s.tree.nodes.flatMap fun node => members (start q.areaType node)) :=
      List.sublist_flatten_of_mem (List.mem_map_of_mem hnode)
    exact Nat.lt_of_lt_of_le (Nat.lt_succ_of_le part.length_le) enough
  · rw [List.length_nil, Nat.zero_add]
    exact room

end

/-- After every run: the lists, what linking and unlinking change, and what a query returns. -/
theorem linked_once_and_found (round : Rat → Rat) (mins maxs : Vec3) (edicts : Nat → Edict)
    (ops : List Op)
    (allowed : AllSteps (step round) Allowed (svClearWorld round mins maxs edicts) ops) :
    let s := run (step round) (svClearWorld round mins maxs edicts) ops
    (∃ members, InLists s members) ∧
      (∀ ent x, Linked (svLinkEdict round s ent) x ↔
        if x = ent then Admitted s ent else Linked s x) ∧
      (∀ ent x, Linked (svUnlinkEdict s ent) x ↔ Linked s x ∧ x ≠ ent) ∧
      ∀ mins maxs areaType, ∃ list : List Nat, list.Nodup ∧
        (∀ ent, ent ∈ list ↔ Wanted s mins maxs areaType ent) ∧
        ∀ maxcount, list.length ≤ maxcount → ∃ enough, ∀ fuel, enough ≤ fuel →
          svAreaEdicts s { mins, maxs, areaType, maxcount } fuel = some list := by
  intro s
  have inv : Inv s := invariant_run (step_inv round) (svClearWorld_inv round mins maxs edicts) allowed
  obtain ⟨nodup, members, placed⟩ := inv
  refine ⟨⟨members, placed.inLists⟩, fun ent => ?_, fun ent => ?_, fun mins maxs areaType => ?_⟩
  · obtain ⟨-, -, linked⟩ := placed.link round ent
    exact linked
  · obtain ⟨-, -, linked⟩ := placed.unlink ent
    exact linked
  · let asked : Query := { mins, maxs, areaType, maxcount := 0 }
    refine ⟨found members asked (touched s asked) s.tree, placed.found_nodup nodup asked,
      placed.mem_found_iff asked, fun maxcount room => ?_⟩
    have same := found_maxcount members asked maxcount (touched s asked) s.tree
    obtain ⟨enough, result⟩ := placed.svAreaEdicts_eq { asked with maxcount } (same ▸ room)
    exact ⟨enough, fun fuel hfuel => (result fuel hfuel).trans (congrArg some same)⟩

private def crate : Edict where
  inuse := true
  solid := .bbox
  origin := ⟨32, -32, 24⟩
  angles := ⟨0, 0, 0⟩
  mins := ⟨-16, -16, -24⟩
  maxs := ⟨16, 16, 32⟩
  absmin := ⟨0, 0, 0⟩
  absmax := ⟨0, 0, 0⟩

/-- A crate is placed, moved and placed again. -/
theorem linked_once_and_found_crate :
    let s := run (step id) (svClearWorld id (all (-1024)) (all 1024) fun _ => crate)
      [.change 1 { crate with solid := .trigger }, .link 1, .unlink 1, .link 2, .link 1]
    (∃ members, InLists s members) ∧
      ∃ list : List Nat, ∀ ent, ent ∈ list ↔ Wanted s (all 0) (all 64) .triggers ent := by
  obtain ⟨lists, -, -, asked⟩ := linked_once_and_found id (all (-1024)) (all 1024) (fun _ => crate)
    [.change 1 { crate with solid := .trigger }, .link 1, .unlink 1, .link 2, .link 1]
    ⟨fun linked => absurd linked (svClearWorld_unlinked id _ _ _ 1),
      trivial, trivial, trivial, trivial, trivial⟩
  obtain ⟨list, -, wanted, -⟩ := asked (all 0) (all 64) .triggers
  exact ⟨lists, list, wanted⟩

end AreaLinks
