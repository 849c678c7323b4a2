import Kpded2.RedBlack

/-!
# Deleting from a red-black tree

A node with two children stays where it is and gets the key of its successor, which is taken out
instead and freed.
-/
namespace RedBlack
open ColouredTree
open ColouredTree.Coloured (toList)

variable {K D : Type}

/-! ## Deleting -/

/-- The same nodes in the same order, and balanced again. -/
structure Restored (m m' : Memory K D) (nodes : List Nat) (t : Coloured Nat) : Prop where
  here : At m' [] t
  toList : t.toList = nodes
  balanced : ∃ n, Balanced t .black n
  key : m'.key = m.key
  data : m'.data = m.data
  null : SameNode m m' rbnull

theorem Restored.of_same {m m₁ m' : Memory K D} {nodes nodes₁ : List Nat} {t : Coloured Nat}
    (restored : Restored m₁ m' nodes₁ t) (same : nodes₁ = nodes) (key : m₁.key = m.key)
    (data : m₁.data = m.data) (null : SameNode m m₁ rbnull) : Restored m m' nodes t :=
  ⟨restored.here, restored.toList.trans same, restored.balanced, restored.key.trans key,
    restored.data.trans data, null.trans restored.null⟩

section
variable {m : Memory K D} {path rest : List (Frame Nat)} {t a b w near far : Coloured Nat}
  {side s : Side} {n k p x v : Nat} {c c' : Colour} {fuel : Nat}

/-- The loop ends at the root and at a red node. -/
theorem deleteFix_stop (here : At m path t) (null : m.colour rbnull = .black)
    (stop : path = [] ∨ t.colour = .red) (balanced : Balanced (t.paint .black) .black k)
    (fits : Fits path .black k) :
    ∃ m' t', deleteFix (fuel + 1) m (rootOf t) = some m' ∧
      Restored m m' (fill path t).toList t' := by
  have ends : ¬(rootOf t ≠ m.root ∧ m.colour (rootOf t) = .black) := by
    rintro ⟨deep, black⟩
    rcases stop with rfl | red
    · exact deep here.hole.symm
    · rw [here.tree.colour null, red] at black
      cases black
  refine ⟨m.setColour (rootOf t) .black, fill path (t.paint .black), if_neg ends,
    at_fill.mp (here.paint .black), toList_fill_congr path (toList_paint _ t), fits.fill balanced,
    rfl, rfl, rfl, ?_, fun _ => rfl⟩
  rw [setColour_colour]
  split
  · exact null.symm
  · exact rfl

theorem Around.sibling_ne (here : Around m (⟨s, c, p, join side c' near x far⟩ :: rest)) :
    x ≠ rbnull := (linked_join.mp here.2.2.2.2.1).1

/-- The sibling is red: after a rotation it is a black one. -/
theorem rotate_sibling
    (here : At m (⟨side, .black, p, join side .red near x far⟩ :: rest) t) :
    let m' := rotate side ((m.setColour x .black).setColour p .red) p
    At m' (⟨side, .red, p, near⟩ :: ⟨side, .black, x, far⟩ :: rest) t ∧ SameNode m m' rbnull := by
  have realP : p ≠ rbnull := here.around.1
  have realX := here.around.sibling_ne
  have sibling := here.paint_sibling .black
  rw [rootOf_join, paint_join] at sibling
  obtain ⟨turned, null⟩ := (at_cons.mp (sibling.paint_parent .red)).rotate
  exact ⟨at_cons.mpr (at_cons.mpr turned), ((sameNode_setColour _ realX.symm).trans
    (sameNode_setColour _ realP.symm)).trans null⟩

/-- The nephew on the near side is red: it is brought to the far side. -/
theorem rotate_nephew
    (here : At m (⟨side, c, p, join side .black (join side .red a v b) x far⟩ :: rest) t) :
    let m' := rotate side.other ((m.setColour v .black).setColour x .red) x
    At m' (⟨side, c, p, join side .black a v (join side .red b x far)⟩ :: rest) t ∧
      SameNode m m' rbnull := by
  have realX := here.around.sibling_ne
  have nephew := at_cons (f := ⟨side, .black, x, far⟩).mpr (at_turn.mp here)
  have realV : v ≠ rbnull := (linked_join.mp nephew.tree).1
  have painted := nephew.paint .black
  rw [rootOf_join, paint_join] at painted
  have lifted := at_cons.mp (painted.paint_parent .red)
  dsimp only at lifted
  rw [← join_other side .red, ← join_other side .black] at lifted
  obtain ⟨turned, null⟩ := lifted.rotate
  rw [join_other, join_other] at turned
  have back := at_turn.mp turned
  rw [Side.other_other] at back
  exact ⟨back, ((sameNode_setColour _ realV.symm).trans
    (sameNode_setColour _ realX.symm)).trans null⟩

/-- The nephew on the far side is red: its parent is brought up. -/
theorem rotate_parent
    (here : At m (⟨side, c, p, join side .black near x (join s .red a v b)⟩ :: rest) t) :
    let m' := rotate side (((m.setColour x c).setColour p .black).setColour v .black) p
    At m' rest (join side c (join side .black t p near) x (join s .black a v b)) ∧
      SameNode m m' rbnull := by
  have realX := here.around.sibling_ne
  have realP : p ≠ rbnull := here.around.1
  have sibling := here.paint_sibling c
  rw [rootOf_join, paint_join] at sibling
  have sister := at_turn.mp (sibling.paint_parent .black)
  rw [← join_other side c] at sister
  have nephew := at_cons (f := ⟨side.other, c, x, near⟩).mpr sister
  have realV : v ≠ rbnull := (linked_join.mp nephew.tree).1
  have painted := nephew.paint .black
  rw [rootOf_join, paint_join] at painted
  have lifted := at_cons.mp painted
  dsimp only at lifted
  rw [join_other] at lifted
  have back := at_turn.mp lifted
  rw [Side.other_other] at back
  obtain ⟨turned, null⟩ := (at_cons.mp back).rotate
  exact ⟨turned, (((sameNode_setColour _ realX.symm).trans (sameNode_setColour _ realP.symm)).trans
    (sameNode_setColour _ realV.symm)).trans null⟩

theorem At.up_eq {m₁ : Memory K D} (here : At m₁ path t) (null : SameNode m m₁ rbnull)
    (up : m.up (rootOf t) = parentOf path) : m₁.up (rootOf t) = parentOf path := by
  cases t with
  | nil => exact null.1.trans up
  | node c l x r => exact here.tree.2.1

@[simp] theorem liftSibling_key : (liftSibling side m x).key = m.key := by
  unfold liftSibling
  dsimp only
  split
  · rw [rotate_key, setColour_key, setColour_key]
  · exact rfl

@[simp] theorem liftSibling_data : (liftSibling side m x).data = m.data := by
  unfold liftSibling
  dsimp only
  split
  · rw [rotate_data, setColour_data, setColour_data]
  · exact rfl

@[simp] theorem straighten_key : (straighten side m x).key = m.key := by
  unfold straighten
  split
  · rw [rotate_key, setColour_key, setColour_key]
  · exact rfl

@[simp] theorem straighten_data : (straighten side m x).data = m.data := by
  unfold straighten
  split
  · rw [rotate_data, setColour_data, setColour_data]
  · exact rfl

@[simp] theorem raiseSibling_key : (raiseSibling side m x).key = m.key := by
  simp only [raiseSibling, rotate_key, setColour_key]

@[simp] theorem raiseSibling_data : (raiseSibling side m x).data = m.data := by
  simp only [raiseSibling, rotate_data, setColour_data]

/-- A sibling as high as this is a node. -/
theorem Balanced.exists_join (balanced : Balanced w .black (n + 1)) (side : Side) :
    ∃ a x b ca cb, w = join side .black a x b ∧ Balanced a ca n ∧ Balanced b cb n := by
  cases balanced with
  | @black l r v cl cr _ left right =>
    cases side with
    | left => exact ⟨l, v, r, cl, cr, rfl, left, right⟩
    | right => exact ⟨r, v, l, cr, cl, rfl, right, left⟩

theorem exists_red (balanced : Balanced w c n) (red : w.colour = .red) (side : Side) :
    ∃ a x b, w = join side .red a x b ∧ Balanced a .black n ∧ Balanced b .black n := by
  cases balanced with
  | nil => cases red
  | black => cases red
  | @red l r v _ left right =>
    cases side with
    | left => exact ⟨l, v, r, rfl, left, right⟩
    | right => exact ⟨r, v, l, rfl, right, left⟩

/-- Behind the first case the sibling is black. -/
theorem liftSibling_spec (here : At m (⟨side, c, p, w⟩ :: rest) t) (null : m.colour rbnull = .black)
    (up : m.up (rootOf t) = p) (fits : Fits (⟨side, c, p, w⟩ :: rest) .black (n + 1)) :
    let m₁ := liftSibling side m (rootOf t)
    ∃ c₁ a x b ca cb rest₁, At m₁ (⟨side, c₁, p, join side .black a x b⟩ :: rest₁) t ∧
      SameNode m m₁ rbnull ∧ Balanced a ca n ∧ Balanced b cb n ∧
      Fits (⟨side, c₁, p, join side .black a x b⟩ :: rest₁) .black (n + 1) ∧
      (c₁ = .black → rest₁ = rest) ∧
      (fill (⟨side, c₁, p, join side .black a x b⟩ :: rest₁) t).toList =
        (fill (⟨side, c, p, w⟩ :: rest) t).toList := by
  have beside : m.child side.other p = rootOf w := here.around.2.2.2.1
  have colour : m.colour (rootOf w) = w.colour := here.around.2.2.2.2.1.colour null
  unfold liftSibling
  simp only [up, beside, colour]
  by_cases red : w.colour = .red
  · rw [if_pos red]
    cases fits with
    | red black _ =>
      rw [black.colour] at red
      cases red
    | black sibling top =>
      obtain ⟨near, x, far, rfl, balNear, balFar⟩ := exists_red sibling red side
      obtain ⟨a, y, b, ca, cb, rfl, balA, balB⟩ := Balanced.exists_join balNear side
      rw [rootOf_join]
      obtain ⟨turned, null⟩ := rotate_sibling here
      refine ⟨.red, a, y, b, ca, cb, _, turned, null, balA, balB,
        .red balNear (.black balFar top), nofun, ?_⟩
      exact toList_fill_congr rest (toList_rotate side .black .red .black .red t _ far p x)
  · rw [if_neg red]
    have sibling : Balanced w .black (n + 1) := by
      cases fits with
      | red black _ => exact black
      | @black _ _ _ _ _ c' _ sibling _ =>
        cases c' with
        | black => exact sibling
        | red => exact absurd sibling.colour red
    obtain ⟨a, x, b, ca, cb, rfl, balA, balB⟩ := Balanced.exists_join sibling side
    exact ⟨c, a, x, b, ca, cb, rest, here, ⟨rfl, rfl, fun _ => rfl⟩, balA, balB, fits,
      fun _ => rfl, rfl⟩

/-- Another node of the same colour instead of the parent. -/
theorem Fits.replace (side : Side) (x : Nat) (fits : Fits (⟨s, c, p, w⟩ :: rest) .black n)
    (balA : Balanced a .black n) (balB : Balanced b .black n) :
    ∃ k, Balanced (join side c a x b) c k ∧ Fits rest c k := by
  cases fits with
  | red _ top => exact ⟨n, balA.join_red balB, top⟩
  | black _ top => exact ⟨n + 1, balA.join_black balB, top⟩

theorem raiseSibling_eq
    (here : At m (⟨side, c, p, join side .black near x (join s .red a v b)⟩ :: rest) t)
    (up : m.up (rootOf t) = p) : raiseSibling side m (rootOf t) =
      rotate side (((m.setColour x c).setColour p .black).setColour v .black) p := by
  obtain ⟨-, -, colour, beside, sibling, -, -⟩ := here.around
  obtain ⟨-, -, -, -, far, -, -⟩ := linked_join.mp sibling
  dsimp only at colour beside
  rw [rootOf_join] at beside far
  simp only [raiseSibling, setColour_up, setColour_child, up, beside, colour, far]

theorem raiseSibling_spec {cn : Colour}
    (here : At m (⟨side, c, p, join side .black near x (join side .red a v b)⟩ :: rest) t)
    (up : m.up (rootOf t) = p) (balT : Balanced t .black n) (balN : Balanced near cn n)
    (balF : Balanced (join side .red a v b) .red n)
    (fits : Fits (⟨side, c, p, join side .black near x (join side .red a v b)⟩ :: rest) .black
      (n + 1)) :
    let m' := raiseSibling side m (rootOf t)
    ∃ u k, At m' rest u ∧ SameNode m m' rbnull ∧ Balanced u c k ∧ Fits rest c k ∧
      u.toList = (join side c t p (join side .black near x (join side .red a v b))).toList := by
  obtain ⟨turned, null⟩ := rotate_parent here
  rw [raiseSibling_eq here up]
  obtain ⟨-, balA, balB⟩ := balF.of_red
  have low : Balanced (join side .black t p near) .black (n + 1) := balT.join_black balN
  have high : Balanced (join side .black a v b) .black (n + 1) := balA.join_black balB
  obtain ⟨k, balanced, top⟩ := Fits.replace side x fits low high
  refine ⟨_, k, turned, null, balanced, top, ?_⟩
  refine (toList_join_congr side c c x rfl ?_).trans
    (toList_rotate side c .black c .black t near _ p x)
  exact toList_repaint side .black .red a b v

/-- With a red nephew, the tree is balanced again after at most two rotations. -/
theorem nephew_spec {ca cb : Colour}
    (here : At m (⟨side, c, p, join side .black a x b⟩ :: rest) t) (null : m.colour rbnull = .black)
    (up : m.up (rootOf t) = p) (balT : Balanced t .black n) (balA : Balanced a ca n)
    (balB : Balanced b cb n)
    (fits : Fits (⟨side, c, p, join side .black a x b⟩ :: rest) .black (n + 1))
    (nephew : ¬(ca = .black ∧ cb = .black)) :
    let m' := raiseSibling side (straighten side m x) (rootOf t)
    ∃ u k, At m' rest u ∧ SameNode m m' rbnull ∧ Balanced u c k ∧ Fits rest c k ∧
      u.toList = (join side c t p (join side .black a x b)).toList := by
  obtain ⟨-, -, -, near, far, linkedA, linkedB⟩ := linked_join.mp here.around.2.2.2.2.1
  have colourB : m.colour (m.child side.other x) = cb := by
    rw [far, linkedB.colour null, balB.colour]
  cases cb with
  | red =>
    have straight : straighten side m x = m := by
      refine if_neg ?_
      rw [colourB]
      decide
    obtain ⟨a', v, b', rfl, -, -⟩ := exists_red balB balB.colour side
    rw [straight]
    exact raiseSibling_spec here up balT balA balB fits
  | black =>
    have red : ca = .red := by
      cases ca with
      | black => exact absurd ⟨rfl, rfl⟩ nephew
      | red => rfl
    subst red
    obtain ⟨a', v, b', rfl, balA', balB'⟩ := exists_red balA balA.colour side
    rw [rootOf_join] at near
    have straight : straighten side m x =
        rotate side.other ((m.setColour v .black).setColour x .red) x := by
      rw [straighten, if_pos colourB, near]
    obtain ⟨turned, same⟩ := rotate_nephew here
    rw [← straight] at turned same
    have balF : Balanced (join side .red b' x b) .red n := balB'.join_red balB
    obtain ⟨u, k, at', null', balanced, top, list⟩ := raiseSibling_spec turned
      (turned.up_eq same up) balT balA' balF (by
        cases fits with
        | red _ top => exact .red (balA'.join_black balF) top
        | black _ top => exact .black (balA'.join_black balF) top)
    refine ⟨u, k, at', same.trans null', balanced, top, list.trans ?_⟩
    exact toList_join_congr side c c p rfl
      (toList_rotate side .black .red .black .red a' b' b v x).symm

/-- The loop ends, and the tree is balanced again. -/
theorem deleteFix_spec (here : At m path t) (null : m.colour rbnull = .black)
    (up : m.up (rootOf t) = parentOf path) (balanced : Balanced t .black n)
    (fits : Fits path .black (n + 1)) (enough : path.length < fuel) :
    ∃ m' t', deleteFix fuel m (rootOf t) = some m' ∧
      Restored m m' (fill path t).toList t' := by
  induction fuel generalizing m path t n with
  | zero => exact absurd enough (Nat.not_lt_zero _)
  | succ fuel ih =>
    cases path with
    | nil =>
      obtain ⟨k, painted⟩ := balanced.paint_black
      exact deleteFix_stop here null (Or.inl rfl) painted .top
    | cons f rest =>
      obtain ⟨side, c, p, w⟩ := f
      have room : rest.length < fuel := Nat.lt_of_succ_lt_succ enough
      obtain ⟨fuel, rfl⟩ : ∃ k, fuel = k + 1 :=
        Nat.exists_eq_succ_of_ne_zero (Nat.ne_zero_of_lt room)
      have parent : m.up (rootOf t) = p := up
      have black : m.colour (rootOf t) = .black := (here.tree.colour null).trans balanced.colour
      have different : rootOf t ≠ rootOf w := by
        have real : rootOf w ≠ rbnull := by
          intro none
          rw [here.around.2.2.2.2.1.rootOf_eq_rbnull] at none
          subst none
          cases fits with
          | red sibling _ => cases sibling
          | black sibling _ => cases sibling
        intro same
        exact here.rootOf_ne (same ▸ real) same
      have sideEq := here.side_eq different
      rw [deleteFix, if_pos ⟨here.ne_root (List.cons_ne_nil _ _), black⟩]
      simp only [parent, sideEq]
      obtain ⟨c₁, a, x, b, ca, cb, rest₁, lifted, same, balA, balB, fits₁, short, list⟩ :=
        liftSibling_spec here null parent fits
      have key : (liftSibling side m (rootOf t)).key = m.key := liftSibling_key
      have data : (liftSibling side m (rootOf t)).data = m.data := liftSibling_data
      generalize liftSibling side m (rootOf t) = m₁ at lifted same key data
      have null₁ : m₁.colour rbnull = .black := same.2.1.trans null
      have up₁ : m₁.up (rootOf t) = p := lifted.up_eq same up
      have sibling := lifted.around
      obtain ⟨-, -, -, beside, linked, -, -⟩ := sibling
      obtain ⟨-, -, -, nearA, farB, linkedA, linkedB⟩ := linked_join.mp linked
      dsimp only at beside
      rw [rootOf_join] at beside
      simp only [up₁, beside, nearA, farB, linkedA.colour null₁, linkedB.colour null₁,
        balA.colour, balB.colour]
      by_cases nephews : ca = .black ∧ cb = .black
      · rw [if_pos nephews]
        obtain ⟨rfl, rfl⟩ := nephews
        have painted := lifted.paint_sibling .red
        rw [rootOf_join, paint_join] at painted
        have moved := at_cons.mp painted
        dsimp only at moved
        have same₂ : SameNode m (m₁.setColour x .red) rbnull :=
          same.trans (sameNode_setColour _ (linked_join.mp linked).1.symm)
        have node : Balanced (join side .black t p (join side .red a x b)) .black (n + 1) :=
          balanced.join_black (balA.join_red balB)
        have list₂ : (fill rest₁ (join side c₁ t p (join side .red a x b))).toList =
            (fill (⟨side, c, p, w⟩ :: rest) t).toList := by
          rw [← list]
          exact toList_fill_congr rest₁ (toList_join_congr side c₁ c₁ p rfl (toList_repaint ..))
        have real : rootOf (join side c₁ t p (join side .red a x b)) ≠ rbnull := by
          rw [rootOf_join]
          exact here.around.1
        obtain ⟨m', t', ran, restored⟩ : ∃ m' t', deleteFix (fuel + 1) (m₁.setColour x .red)
            (rootOf (join side c₁ t p (join side .red a x b))) = some m' ∧
            Restored (m₁.setColour x .red) m'
              (fill rest₁ (join side c₁ t p (join side .red a x b))).toList t' := by
          cases fits₁ with
          | red _ top =>
            refine deleteFix_stop moved (same₂.2.1.trans null) (Or.inr (colour_join ..)) ?_
              top.relax
            rw [paint_join]
            exact node
          | black _ top =>
            obtain rfl := short rfl
            exact ih moved (same₂.2.1.trans null) (moved.up real) node top room
        rw [rootOf_join] at ran
        exact ⟨m', t', ran, restored.of_same list₂ key data same₂⟩
      · rw [if_neg nephews]
        obtain ⟨u, k, raised, same₂, balU, top, list₂⟩ :=
          nephew_spec lifted null₁ up₁ balanced balA balB fits₁ nephews
        have key₂ : (raiseSibling side (straighten side m₁ x) (rootOf t)).key = m.key := by
          rw [raiseSibling_key, straighten_key, key]
        have data₂ : (raiseSibling side (straighten side m₁ x) (rootOf t)).data = m.data := by
          rw [raiseSibling_data, straighten_data, data]
        generalize raiseSibling side (straighten side m₁ x) (rootOf t) = m₂ at *
        obtain ⟨k', whole⟩ := top.fill balU
        have all := at_fill.mp raised
        obtain ⟨k'', painted⟩ := whole.paint_black
        obtain ⟨m', t', ran, restored⟩ : ∃ m' t',
            deleteFix (fuel + 1) m₂ (rootOf (fill rest₁ u)) = some m' ∧
              Restored m₂ m' (fill rest₁ u).toList t' :=
          deleteFix_stop all ((same.trans same₂).2.1.trans null) (Or.inl rfl) painted .top
        refine ⟨m', t', by rwa [← all.hole] at ran, restored.of_same ?_ key₂ data₂
          (same.trans same₂)⟩
        exact (toList_fill_congr rest₁ list₂).trans list

end

/-! ## The next node -/

section
variable {m : Memory K D} {path rest : List (Frame Nat)} {t l r : Coloured Nat} {x y z : Nat}
  {c : Colour} {fuel : Nat}

theorem goLeft_spec (here : At m path (.node c l x r)) (enough : l.height < fuel) :
    ∃ path' c' y r', goLeft m fuel x = some y ∧ At m path' (.node c' .nil y r') ∧
      fill path' (.node c' .nil y r') = fill path (.node c l x r) ∧ before path' = before path := by
  induction l generalizing path c x r fuel with
  | nil =>
    obtain ⟨fuel, rfl⟩ := Nat.exists_eq_add_one_of_ne_zero (Nat.ne_zero_of_lt enough)
    exact ⟨path, c, x, r, if_neg (not_not.mpr here.tree.2.2.2.1), here, rfl, rfl⟩
  | node c' l' x' r' left right =>
    obtain ⟨fuel, rfl⟩ := Nat.exists_eq_add_one_of_ne_zero (Nat.ne_zero_of_lt enough)
    have link : m.child .left x = x' := here.tree.2.2.2.1
    have real : x' ≠ rbnull := here.tree.2.2.2.2.2.1.1
    have below : At m (⟨.left, c, x, r⟩ :: path) (.node c' l' x' r') := at_cons.mpr here
    obtain ⟨path', c'', y, r'', found, there, same, front⟩ := left below
      (Nat.lt_of_le_of_lt (Nat.le_max_left _ _) (Nat.lt_of_succ_lt_succ enough))
    refine ⟨path', c'', y, r'', ?_, there, same, front⟩
    rw [goLeft, link, if_pos real, found]

theorem climb_spec (here : At m path t) (real : rootOf t ≠ rbnull) (enough : path.length < fuel) :
    climb m fuel (rootOf t) (parentOf path) = some ((after path).headD rbnull) := by
  induction path generalizing t fuel with
  | nil =>
    obtain ⟨fuel, rfl⟩ := Nat.exists_eq_add_one_of_ne_zero (Nat.ne_zero_of_lt enough)
    exact if_neg fun goes => goes.1 rfl
  | cons f rest ih =>
    obtain ⟨fuel, rfl⟩ := Nat.exists_eq_add_one_of_ne_zero (Nat.ne_zero_of_lt enough)
    obtain ⟨side, c, v, sibling⟩ := f
    obtain ⟨realV, up, -, beside, -⟩ := here.around
    have link := here.hole
    cases side with
    | left => exact if_neg fun goes => here.rootOf_ne real (goes.2.trans beside)
    | right =>
      have above := ih (at_cons.mp here) (by rwa [rootOf_join]) (Nat.lt_of_succ_lt_succ enough)
      rw [rootOf_join] at above
      refine (if_pos ⟨realV, link.symm⟩).trans ?_
      change climb m fuel v (m.up v) = _
      rw [show m.up v = parentOf rest from up]
      exact above

/-- The nodes behind this one, and the first of them. -/
theorem rbSuccessor_spec (here : At m path (.node c l x r))
    (enough : (fill path (.node c l x r)).height < fuel) :
    rbSuccessor fuel m x = some ((r.toList ++ after path).headD rbnull) := by
  have deep := height_fill path (.node c l x r)
  obtain ⟨real, up, -, -, link, -, further⟩ := here.tree
  unfold rbSuccessor
  cases r with
  | nil =>
    have none : m.child .right x = rbnull := link
    rw [if_neg (not_not.mpr none), up]
    exact climb_spec here real (by omega)
  | node c' l' x' r' =>
    have below : At m (⟨.right, c, x, l⟩ :: path) (.node c' l' x' r') := at_cons.mpr here
    have room : l'.height < fuel := by
      simp only [Coloured.height] at deep
      omega
    obtain ⟨path', c'', y, r'', found, -, same, front⟩ := goLeft_spec below room
    rw [if_pos (ne_of_eq_of_ne link further.1), link]
    refine found.trans ?_
    have lists := congrArg toList same
    rw [toList_fill, toList_fill, front, List.append_assoc, List.append_assoc,
      List.append_cancel_left_eq] at lists
    change _ ++ _ = _ ++ after path at lists
    rw [← lists]
    exact rfl

end

/-! ## Taking a node out -/

section
variable {cmp : K → K → Ordering} {m m' : Memory K D} {key : K} {path rest : List (Frame Nat)}
  {t l r : Coloured Nat} {x y z n k : Nat} {c : Colour} {fuel : Nat}

/-- The only subtree of a node. -/
def childOf (l r : Coloured Nat) : Coloured Nat :=
  match l with
  | .nil => r
  | .node .. => l

theorem toList_childOf (one : l = .nil ∨ r = .nil) :
    (childOf l r).toList = l.toList ++ r.toList := by
  cases l with
  | nil => exact rfl
  | node c l' x r' =>
    have none : r = .nil := one.resolve_left nofun
    rw [none]
    exact (List.append_nil _).symm

/-- What the memory is like when `y` has been taken out, and its only subtree is in its place. -/
structure Spliced (m m' : Memory K D) (path : List (Frame Nat)) (s : Coloured Nat) : Prop where
  here : At m' path s
  up : m'.up (rootOf s) = parentOf path
  colour : m'.colour = m.colour
  nil : m'.child .left rbnull = m.child .left rbnull
  key : m'.key = m.key
  data : m'.data = m.data

theorem Linked.childOf {parent : Nat} (left : Linked m parent l) (right : Linked m parent r) :
    Linked m parent (childOf l r) := by
  cases l with
  | nil => exact right
  | node => exact left

/-- The only subtree of a node takes its place. -/
theorem splice (here : At m path (.node c l y r)) (one : l = .nil ∨ r = .nil) :
    Spliced m ((m.setUp (rootOf (childOf l r)) (m.up y)).setLink y (rootOf (childOf l r))) path
      (childOf l r) := by
  obtain ⟨real, up, -, -, -, left, right⟩ := here.tree
  obtain ⟨tree, outside, away⟩ := nodup_fill.mp here.nodup
  have linked := left.childOf right
  have list := toList_childOf one
  obtain ⟨-, -, outl, outr, -⟩ := nodup_middle.mp tree
  generalize childOf l r = s at *
  have outY : y ∉ s.toList := by
    rw [list, List.mem_append]
    exact not_or.mpr ⟨outl, outr⟩
  have nodup : s.toList.Nodup := by
    rw [list]
    exact (List.nodup_cons.mp (List.nodup_middle.mp tree)).2
  have away' : ∀ z ∈ s.toList, z ∉ ColouredTree.around path := by
    intro z listed
    rw [list, List.mem_append] at listed
    refine away z (List.mem_append.mpr (listed.imp_right fun inr => ?_))
    exact List.mem_cons_of_mem _ inr
  have notRoot : ∀ z ≠ rbnull, z ∉ s.toList → z ≠ rootOf s := by
    rintro z realZ free rfl
    exact free (rootOf_mem realZ)
  have same₁ : ∀ z ≠ rootOf s, SameNode m (m.setUp (rootOf s) (m.up y)) z := fun z other =>
    ⟨setUp_up.trans (if_neg other), rfl, fun _ => rfl⟩
  have around₁ : Around (m.setUp (rootOf s) (m.up y)) path :=
    here.around.same rfl fun z listed => same₁ z (notRoot z (here.around.ne_rbnull z listed)
      fun ins => away' z ins listed)
  have relinked : (m.setUp (rootOf s) (m.up y)).setLink y (rootOf s) =
      setHole (m.setUp (rootOf s) (m.up y)) (rootOf s) path := by
    refine setLink_eq real ?_ ?_ around₁ (away y (List.mem_append_right _ List.mem_cons_self))
    · exact (setUp_up.trans (if_neg (notRoot y real outY))).trans up
    · cases path <;> exact here.hole
  have up' : (setHole (m.setUp (rootOf s) (m.up y)) (rootOf s) path).up (rootOf s) =
      parentOf path := by
    rw [setHole_up]
    exact (setUp_up.trans (if_pos rfl)).trans up
  rw [relinked]
  refine ⟨⟨?_, hole_setHole, around_setHole around₁ outside, ?_⟩, up', setHole_colour, ?_,
    setHole_key, setHole_data⟩
  · refine linked.reparent nodup (fun _ => up') (fun z _ other => ?_) fun z listed =>
      ⟨?_, fun s => ?_⟩
    · rw [setHole_up]
      exact setUp_up.trans (if_neg other)
    · rw [setHole_colour]
      exact rfl
    · exact setHole_child (away' z listed)
  · exact nodup_fill.mpr ⟨nodup, outside, away'⟩
  · exact setHole_child fun listed => here.around.ne_rbnull _ listed rfl

theorem At.same_links (here : At m path t) (child : m'.child = m.child) (up : m'.up = m.up)
    (colour : m'.colour = m.colour) (root : m'.root = m.root) : At m' path t := by
  have same : ∀ z, SameNode m m' z := fun z =>
    ⟨congrFun up z, congrFun colour z, fun s => congrFun (congrFun child s) z⟩
  exact ⟨here.tree.congr fun z _ => same z, (hole_same root fun z _ => same z).trans here.hole,
    here.around.same root fun z _ => same z, here.nodup⟩

theorem copyKey_links (m : Memory K D) (y z : Nat) :
    (copyKey m y z).child = m.child ∧ (copyKey m y z).up = m.up ∧
      (copyKey m y z).colour = m.colour ∧ (copyKey m y z).root = m.root := by
  unfold copyKey
  split
  · exact ⟨rfl, rfl, rfl, rfl⟩
  · exact ⟨rfl, rfl, rfl, rfl⟩

theorem copyKey_self (m : Memory K D) (y : Nat) : copyKey m y y = m :=
  if_neg (not_not.mpr rfl)

theorem copyKey_key (other : y ≠ z) : (copyKey m y z).key = Function.update m.key z (m.key y) := by
  rw [copyKey, if_pos other]

theorem copyKey_data (other : y ≠ z) :
    (copyKey m y z).data = Function.update m.data z (m.data y) := by
  rw [copyKey, if_pos other]

/-- A node with only one subtree, and what is left of the tree without the node. -/
theorem fits_childOf (balanced : Balanced (fill path (.node c l y r)) .black k)
    (one : l = .nil ∨ r = .nil) :
    (c = .red ∧ childOf l r = .nil ∧ Fits path .black 0) ∨
      c = .black ∧ Fits path .black 1 ∧
        (childOf l r = .nil ∨ Balanced (childOf l r) .red 0) := by
  obtain ⟨c', n, node, fits⟩ := fits_of_fill balanced
  have only : ∀ {cl cr : Colour} {n : Nat}, Balanced l cl n → Balanced r cr n →
      n = 0 ∧ ∃ c', Balanced (childOf l r) c' 0 := by
    intro cl cr n balL balR
    rcases one with rfl | rfl
    · cases balL
      exact ⟨rfl, _, balR⟩
    · cases balR
      cases l with
      | nil => exact ⟨rfl, _, .nil⟩
      | node => exact ⟨rfl, _, balL⟩
  cases node with
  | red left right =>
    refine Or.inl ⟨rfl, ?_, ?_⟩
    · rcases one with rfl | rfl
      · cases left
        cases right
        exact rfl
      · cases right
        cases left
        exact rfl
    · obtain ⟨rfl, -⟩ := only left right
      exact fits.relax
  | black left right =>
    obtain ⟨rfl, c', whole⟩ := only left right
    refine Or.inr ⟨rfl, fits, ?_⟩
    cases c' with
    | red => exact Or.inr whole
    | black =>
      refine Or.inl ?_
      generalize childOf l r = s at whole
      cases whole
      exact rfl

theorem restore {s : Coloured Nat} (here : At m path s) (null : m.colour rbnull = .black)
    (up : m.up (rootOf s) = parentOf path)
    (fits : (c = .red ∧ s = .nil ∧ Fits path .black 0) ∨
      c = .black ∧ Fits path .black 1 ∧ (s = .nil ∨ Balanced s .red 0))
    (enough : path.length < fuel) :
    ∃ m' t', (if c = .black then deleteFix fuel m (rootOf s) else some m) = some m' ∧
      Restored m m' (fill path s).toList t' := by
  rcases fits with ⟨rfl, rfl, fits⟩ | ⟨rfl, fits, rfl | red⟩
  · exact ⟨m, _, if_neg (by decide), at_fill.mp here, rfl, fits.fill .nil, rfl, rfl, rfl, rfl,
      fun _ => rfl⟩
  · rw [if_pos rfl]
    exact deleteFix_spec here null up .nil fits enough
  · rw [if_pos rfl]
    obtain ⟨fuel, rfl⟩ := Nat.exists_eq_add_one_of_ne_zero (Nat.ne_zero_of_lt enough)
    exact deleteFix_stop here null (Or.inr red.colour) red.blacken fits

end

/-- The keys in the tree, with their data. -/
def entries (m : Memory K D) (nodes : List Nat) : List (K × Option D) :=
  nodes.map fun a => (m.key a, m.data a)

section
variable {cmp : K → K → Ordering} {m m' : Memory K D} {key : K} {path rest : List (Frame Nat)}
  {t l r : Coloured Nat} {x y z n k : Nat} {c : Colour} {fuel : Nat} {nodes : List Nat}

theorem ascending_iff : Ascending cmp m nodes ↔
    (entries m nodes).Pairwise fun e f => cmp e.1 f.1 = .lt := by
  rw [Ascending, entries, List.pairwise_map]

theorem entries_append (m : Memory K D) (l₁ l₂ : List Nat) :
    entries m (l₁ ++ l₂) = entries m l₁ ++ entries m l₂ := List.map_append

theorem entries_congr (same : ∀ a ∈ nodes, m'.key a = m.key a ∧ m'.data a = m.data a) :
    entries m' nodes = entries m nodes :=
  List.map_congr_left fun a listed => Prod.ext (same a listed).1 (same a listed).2

theorem Valid.setData (valid : Valid cmp m t) (x : Nat) (d : Option D) :
    Valid cmp (m.setData x d) t :=
  ⟨valid.here.same_links rfl rfl rfl rfl, valid.null, valid.nil, valid.ascending, valid.balanced⟩

/-- The tree is no deeper than its number of nodes allows. -/
theorem Valid.room (valid : Valid cmp m t) {size : Nat} (few : t.toList.length ≤ size)
    (enough : 2 * Nat.log2 (size + 1) < fuel) : t.height < fuel := by
  obtain ⟨k, balanced⟩ := valid.balanced
  refine Nat.lt_of_le_of_lt balanced.height_log (Nat.lt_of_le_of_lt ?_ enough)
  rw [Nat.log2_eq_log_two, Nat.log2_eq_log_two]
  exact Nat.mul_le_mul_left 2 (Nat.log_mono_right (Nat.succ_le_succ few))

theorem unlink_eq (here : At m path (.node c l y r)) (one : l = .nil ∨ r = .nil) :
    unlink m y = (rootOf (childOf l r),
      (m.setUp (rootOf (childOf l r)) (m.up y)).setLink y (rootOf (childOf l r))) := by
  obtain ⟨-, -, -, left, right, linkedL, -⟩ := here.tree
  have only : (if m.child .left y ≠ rbnull then m.child .left y else m.child .right y) =
      rootOf (childOf l r) := by
    rw [left, right]
    cases l with
    | nil => exact if_neg fun real => real rfl
    | node => exact if_pos linkedL.1
  simp only [unlink, only]

/-- `y` is gone, and what it held is in `z`; the other nodes hold what they held. -/
structure Moved (m m' : Memory K D) (y z : Nat) : Prop where
  other : ∀ a, a ≠ y → a ≠ z → m'.key a = m.key a ∧ m'.data a = m.data a
  here : y ≠ z → m'.key z = m.key y ∧ m'.data z = m.data y

theorem moved_copyKey (m : Memory K D) (y z : Nat) : Moved m (copyKey m y z) y z := by
  refine ⟨fun a _ other => ?_, fun different => ?_⟩
  · by_cases same : y = z
    · rw [same, copyKey_self]
      exact ⟨rfl, rfl⟩
    · rw [copyKey_key same, copyKey_data same]
      exact ⟨Function.update_of_ne other .., Function.update_of_ne other ..⟩
  · rw [copyKey_key different, copyKey_data different]
    exact ⟨Function.update_self .., Function.update_self ..⟩

/-- What a freed node holds does not matter. -/
theorem Moved.rbFree {m₁ m₂ : Memory K D} (moved : Moved m m₁ y z) (key : m₂.key = m₁.key)
    (data : m₂.data = m₁.data) (junk : Junk K D) : Moved m (rbFree m₂ y junk) y z := by
  have away : ∀ a ≠ y, (RedBlack.rbFree m₂ y junk).key a = m₁.key a ∧
      (RedBlack.rbFree m₂ y junk).data a = m₁.data a := fun a other =>
    ⟨(Function.update_of_ne other ..).trans (congrFun key a),
      (Function.update_of_ne other ..).trans (congrFun data a)⟩
  refine ⟨fun a notY notZ => ?_, fun different => ?_⟩
  · rw [(away a notY).1, (away a notY).2]
    exact moved.other a notY notZ
  · rw [(away z different.symm).1, (away z different.symm).2]
    exact moved.here different

theorem Moved.kept (moved : Moved m m' y z) {a : Nat} (notY : a ≠ y) (notZ : a ≠ z ∨ y = z) :
    m'.key a = m.key a ∧ m'.data a = m.data a := by
  rcases notZ with notZ | rfl
  · exact moved.other a notY notZ
  · exact moved.other a notY notY

/-- The entry of `z` is gone from the list, whether `y` is `z` or the node behind it. -/
theorem Moved.entries {l₁ l₂ : List Nat} (moved : Moved m m' y z) (nodup : (l₁ ++ y :: l₂).Nodup)
    (place : y = z ∨ ∃ front, l₁ = front ++ [z]) :
    ∃ e₁ e₂, entries m (l₁ ++ y :: l₂) = e₁ ++ (m.key z, m.data z) :: e₂ ∧
      entries m' (l₁ ++ l₂) = e₁ ++ e₂ := by
  obtain ⟨-, -, out₁, out₂, -⟩ := nodup_middle.mp nodup
  rcases place with rfl | ⟨front, rfl⟩
  · refine ⟨RedBlack.entries m l₁, RedBlack.entries m l₂, ?_, ?_⟩
    · rw [entries_append]
      exact rfl
    · rw [← entries_append]
      refine entries_congr fun a listed => moved.kept ?_ (Or.inr rfl)
      rintro rfl
      exact (List.mem_append.mp listed).elim out₁ out₂
  · have different : y ≠ z := fun same =>
      out₁ (same ▸ List.mem_append_right _ List.mem_cons_self)
    rw [List.append_assoc, List.singleton_append] at nodup ⊢
    obtain ⟨-, -, outFront, outBehind, -⟩ := nodup_middle.mp nodup
    have others : ∀ a, a ∈ front ∨ a ∈ l₂ → m'.key a = m.key a ∧ m'.data a = m.data a := by
      intro a listed
      refine moved.kept ?_ (Or.inl ?_)
      · rintro rfl
        exact listed.elim (fun inside => out₁ (List.mem_append_left _ inside)) out₂
      · rintro rfl
        exact listed.elim outFront fun inside => outBehind (List.mem_cons_of_mem _ inside)
    obtain ⟨keyZ, dataZ⟩ := moved.here different
    refine ⟨RedBlack.entries m front, (m.key y, m.data y) :: RedBlack.entries m l₂, ?_, ?_⟩
    · rw [entries_append]
      exact rfl
    · rw [List.append_assoc, List.singleton_append, entries_append,
        entries_congr fun a listed => others a (Or.inl listed)]
      refine congrArg (RedBlack.entries m front ++ ·) ?_
      change (m'.key z, m'.data z) :: RedBlack.entries m' l₂ = _
      rw [keyZ, dataZ, entries_congr fun a listed => others a (Or.inr listed)]

/-- A freed node is not in the tree any more. -/
theorem At.rbFree (here : At m [] t) (out : y ∉ t.toList) (junk : Junk K D) :
    At (rbFree m y junk) [] t := by
  refine ⟨here.tree.congr fun a listed => ?_, here.hole, trivial, here.nodup⟩
  have other : a ≠ y := ne_of_mem_of_not_mem listed out
  exact ⟨Function.update_of_ne other .., Function.update_of_ne other .., fun _ =>
    Function.update_of_ne other ..⟩

/-- What is left when `y` is taken out, its key is kept in `z`, and `y` is freed. -/
structure TakenOut (cmp : K → K → Ordering) (m m' : Memory K D) (t t' : Coloured Nat) (y z : Nat) :
    Prop where
  valid : Valid cmp m' t'
  nodes : ∃ l₁ l₂, t.toList = l₁ ++ y :: l₂ ∧ t'.toList = l₁ ++ l₂
  entries : ∃ e₁ e₂, entries m t.toList = e₁ ++ (m.key z, m.data z) :: e₂ ∧
    entries m' t'.toList = e₁ ++ e₂
  kept : ∀ a ∈ t'.toList, a ≠ z → m'.key a = m.key a ∧ m'.data a = m.data a

/-- A node with at most one subtree is taken out, its data kept in `z`, and the tree balanced. -/
theorem takeOut (valid : Valid cmp m t) (filled : fill path (.node c l y r) = t)
    (one : l = .nil ∨ r = .nil) (junk : Junk K D) (enough : t.height < fuel)
    (place : y = z ∨ ∃ front, before path = front ++ [z] ∧ l = .nil) :
    ∃ m₃ t', fixIfBlack fuel (copyKey (unlink m y).2 y z) y (unlink m y).1 = some m₃ ∧
      TakenOut cmp m (rbFree m₃ y junk) t t' y z := by
  subst filled
  have here := at_fill.mpr valid.here
  have deep := height_fill path (.node c l y r)
  obtain ⟨k, balanced⟩ := valid.balanced
  have spliced := splice here one
  rw [unlink_eq here one]
  dsimp only
  generalize ((m.setUp (rootOf (childOf l r)) (m.up y)).setLink y (rootOf (childOf l r))) = m₁ at *
  obtain ⟨child, up, colour, root⟩ := copyKey_links m₁ y z
  have colourY : (copyKey m₁ y z).colour y = c := by
    rw [colour, spliced.colour]
    exact here.tree.2.2.1
  obtain ⟨m₃, t', fixed, restored⟩ := restore (spliced.here.same_links child up colour root)
    (by rw [colour, spliced.colour, valid.null]) (by rw [up, spliced.up])
    (fits_childOf balanced one) (Nat.lt_of_le_of_lt (Nat.le_of_add_right_le deep) enough)
  rw [fixIfBlack, colourY]
  have nodes : (fill path (.node c l y r)).toList = (before path ++ l.toList) ++
      y :: (r.toList ++ after path) := by
    rw [toList_fill, toList]
    simp only [List.append_assoc, List.cons_append]
  have nodes' : t'.toList = (before path ++ l.toList) ++ (r.toList ++ after path) := by
    rw [restored.toList, toList_fill, toList_childOf one]
    simp only [List.append_assoc]
  have place' : y = z ∨ ∃ front, before path ++ l.toList = front ++ [z] := by
    rcases place with same | ⟨front, last, rfl⟩
    · exact Or.inl same
    · exact Or.inr ⟨front, (List.append_nil _).trans last⟩
  generalize before path ++ l.toList = l₁ at nodes nodes' place'
  generalize r.toList ++ after path = l₂ at nodes nodes'
  have nodup : (l₁ ++ y :: l₂).Nodup := nodes ▸ valid.here.nodup
  have out : y ∉ t'.toList := by
    obtain ⟨-, -, out₁, out₂, -⟩ := nodup_middle.mp nodup
    rw [nodes', List.mem_append]
    exact fun listed => listed.elim out₁ out₂
  have moved : Moved m (rbFree m₃ y junk) y z := by
    have copied := moved_copyKey m₁ y z
    have before : Moved m (copyKey m₁ y z) y z := by
      refine ⟨fun a notY notZ => ?_, fun different => ?_⟩
      · rw [← spliced.key, ← spliced.data]
        exact copied.other a notY notZ
      · rw [← spliced.key, ← spliced.data]
        exact copied.here different
    exact before.rbFree restored.key restored.data junk
  have split := moved.entries nodup place'
  have realY : rbnull ≠ y := here.tree.1.symm
  rw [← nodes, ← nodes'] at split
  refine ⟨m₃, t', fixed, ⟨⟨restored.here.rbFree out junk, ?_, ?_, ?_, restored.balanced⟩,
    ⟨l₁, l₂, nodes, nodes'⟩, split, fun a listed notZ =>
      moved.other a (ne_of_mem_of_not_mem listed out) notZ⟩⟩
  · refine (Function.update_of_ne realY ..).trans ?_
    rw [restored.null.2.1, colour, spliced.colour, valid.null]
  · refine (Function.update_of_ne realY ..).trans ?_
    rw [restored.null.2.2, child, spliced.nil, valid.nil]
  · obtain ⟨e₁, e₂, whole, rest⟩ := split
    have ascending := ascending_iff.mp valid.ascending
    rw [whole] at ascending
    rw [ascending_iff, rest]
    exact ascending.sublist (List.Sublist.append_left (List.sublist_cons_self _ _) _)

end

section
variable {cmp : K → K → Ordering} {m m' : Memory K D} {key : K} {path rest : List (Frame Nat)}
  {t l r : Coloured Nat} {x y z n k : Nat} {c : Colour} {fuel : Nat} {nodes : List Nat}

/-- What is taken out is the node, or its successor after what that held has been moved. -/
theorem deleteNode_spec (valid : Valid cmp m t) (filled : fill path (.node c l z r) = t)
    (junk : Junk K D) (enough : t.height < fuel) :
    ∃ y m' t', deleteNode fuel m z junk = some (y, m') ∧ TakenOut cmp m m' t t' y z ∧
      (l = .nil → y = z) := by
  have here : At m path (.node c l z r) := at_fill.mpr (filled ▸ valid.here)
  obtain ⟨-, -, -, left, right, linkedL, linkedR⟩ := here.tree
  have deep := height_fill path (.node c l z r)
  rw [filled] at deep
  have finish : ∀ {y : Nat} {m₃ : Memory K D}, splicedNode fuel m z = some y →
      fixIfBlack fuel (copyKey (unlink m y).2 y z) y (unlink m y).1 = some m₃ →
      deleteNode fuel m z junk = some (y, rbFree m₃ y junk) := by
    intro y m₃ chosen fixed
    simp only [deleteNode, chosen, Option.bind_eq_bind, Option.bind_some, fixed]
  by_cases one : l = .nil ∨ r = .nil
  · obtain ⟨m₃, t', fixed, taken⟩ := takeOut valid filled one junk enough (Or.inl rfl)
    refine ⟨z, _, t', finish (if_pos ?_) fixed, taken, fun _ => rfl⟩
    rw [left, right, linkedL.rootOf_eq_rbnull, linkedR.rootOf_eq_rbnull]
    exact one
  · cases r with
    | nil => exact absurd (Or.inr rfl) one
    | node c' l' x' r' =>
      have below : At m (⟨.right, c, z, l⟩ :: path) (.node c' l' x' r') := at_cons.mpr here
      have room : l'.height < fuel := by
        simp only [Coloured.height] at deep
        omega
      obtain ⟨path', c'', y, r'', found, -, same, front⟩ := goLeft_spec below room
      have filled' : fill path' (.node c'' .nil y r'') = t := same.trans filled
      obtain ⟨m₃, t', fixed, taken⟩ := takeOut (z := z) valid filled' (Or.inl rfl) junk enough
        (Or.inr ⟨before path ++ l.toList, front, rfl⟩)
      refine ⟨y, _, t', finish ?_ fixed, taken, fun none => absurd (Or.inl none) one⟩
      have two : ¬(m.child .left z = rbnull ∨ m.child .right z = rbnull) := by
        rw [left, right, linkedL.rootOf_eq_rbnull, linkedR.rootOf_eq_rbnull]
        exact one
      rw [splicedNode, if_neg two, rbSuccessor, if_pos (not_or.mp two).2, right]
      exact found

variable [Std.TransCmp cmp]

/-- The first node of the key's is taken out, and nothing happens if there is none. -/
theorem rbDelete_spec (valid : Valid cmp m t) (key : K) (junk : Junk K D)
    (enough : t.height < fuel) :
    (∃ x ∈ t.toList, cmp key (m.key x) = .eq ∧ ∃ y m' t',
      rbDelete cmp fuel key junk m = some (y, m') ∧ TakenOut cmp m m' t t' y x ∧
        ∀ rest, t.toList = x :: rest → y = x) ∨
    (∀ a ∈ t.toList, cmp key (m.key a) ≠ .eq) ∧
      rbDelete cmp fuel key junk m = some (rbnull, m) := by
  obtain ⟨found, walked, result⟩ := valid.walkDown key enough
  have deleted : rbDelete cmp fuel key junk m =
      if found.1 = rbnull then some (rbnull, m) else deleteNode fuel m found.1 junk := by
    simp only [rbDelete, rbTraverse, walked, Option.bind_eq_bind, Option.bind_some, Bool.not_false,
      Bool.or_true, if_true]
  rw [deleted]
  cases result with
  | @found path c l r x filled same =>
    have listed : x ∈ t.toList := by
      rw [← filled]
      exact mem_fill.mpr (Or.inl (List.mem_append_right _ List.mem_cons_self))
    obtain ⟨y, m', t', ran, taken, own⟩ := deleteNode_spec valid filled junk enough
    refine Or.inl ⟨x, listed, same, y, m', t', ?_, taken, fun rest first => own ?_⟩
    · rw [if_neg (valid.here.tree.ne_rbnull x listed)]
      exact ran
    · have arranged : t.toList = (before path ++ l.toList) ++ x :: (r.toList ++ after path) := by
        rw [← filled, toList_fill, toList]
        simp only [List.append_assoc, List.cons_append]
      have nodup := valid.here.nodup
      rw [fill, arranged, nodup_middle] at nodup
      rw [arranged] at first
      cases front : before path ++ l.toList with
      | nil =>
        have none : l.toList = [] := (List.append_eq_nil_iff.mp front).2
        cases l with
        | nil => rfl
        | node => exact absurd none (List.append_ne_nil_of_right_ne_nil _ (List.cons_ne_nil _ _))
      | cons a front' =>
        rw [front] at first nodup
        obtain ⟨rfl, -⟩ := List.cons.inj first
        exact absurd List.mem_cons_self nodup.2.2.1
  | missed filled leads =>
    subst filled
    exact Or.inr ⟨leads.ne, rfl⟩

end

end RedBlack
