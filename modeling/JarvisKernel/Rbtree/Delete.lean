import JarvisKernel.Rbtree.Insert

set_option relaxedAutoImplicit false
set_option autoImplicit false

/-!
# Deletion from the red-black tree

`rbtree_delete` on the represented tree. The fix-up loop works on a subtree that is one black node
short. That subtree may be empty, and then the loop finds its way up through `nil->parent`, which the
unlinking code has set; no rotation of the loop changes this field.

## Main results

* `Jarvis.RBTree.deleteFixupLoop_spec` — the fix-up loop returns, and painting the node it ends with
  makes the tree a red-black tree.
* `Jarvis.RBTree.takePlace_spec` — the successor takes the place of the deleted node.
* `Jarvis.RBTree.rbtreeDelete_spec` — `rbtree_delete` removes the node and nothing else.
-/

namespace Jarvis.RBTree

open RedBlack

variable {t t' : RBTree} {p q r x y z w : ℕ} {c c' : Color} {d e : Side} {T L S s u : RedBlack.Tree ℕ}
  {ch : Side → RedBlack.Tree ℕ} {f : Frame ℕ} {ctx rest : List (Frame ℕ)} {n fuel : ℕ}

/-! ## The point of view -/

/-- From a subtree to its sibling. -/
lemma At.sibling (h : At t q x T (⟨d, c, p, s⟩ :: ctx)) :
    At t p (t.child d.flip p) s (⟨d.flip, c, p, T⟩ :: ctx) := by
  have hdown := h.up.down d.flip
  rw [branch_flip, Side.flip_flip, branch_self] at hdown
  exact hdown

/-- The pointer to a subtree depends on the subtree and `nil` only. -/
lemma Rep.pointer_eq (h : Rep t q p T) (h' : Rep t' r x T) (hnil : t'.nil = t.nil) : x = p := by
  cases T with
  | leaf =>
    rw [Rep] at h h'
    rw [h', hnil, h]
  | node c y ch => rw [h'.1, h.1]

/-- The parent field at the pointer of a subtree, also when the subtree is empty. -/
lemma At.parent_eq (h : At t q x T ctx) (hnil : T = .leaf → t.parent t.nil = q) :
    t.parent x = q := by
  cases T with
  | leaf =>
    obtain rfl : x = t.nil := h.rep
    exact hnil rfl
  | node c y ch =>
    obtain ⟨rfl, -, -, -, hq⟩ := h.node
    exact hq

/-- The pointer of a subtree is not a node above it. -/
lemma At.notMem_ctxNodes (h : At t q x T ctx) : x ∉ ctxNodes ctx := by
  intro hx
  rcases (h.rep.pointer h.nil_ne).2 with ⟨hxn, -⟩ | ⟨hxT, -⟩
  · exact (h.above.ne hx).2 hxn
  · exact Multiset.disjoint_left.1 (Multiset.nodup_add.1 h.nodup).2.2 hxT hx

/-- The root is the topmost node of a context. -/
lemma RepCtx.root_mem (h : RepCtx t q p (f :: ctx)) : t.root ∈ ctxNodes (f :: ctx) := by
  induction ctx generalizing q p f with
  | nil =>
    obtain ⟨-, -, -, -, -, -, -, hroot⟩ := h
    rw [hroot]
    simp
  | cons g ctx ih =>
    obtain ⟨-, -, -, -, -, -, hctx⟩ := h
    rw [ctxNodes_cons]
    exact Multiset.mem_cons_of_mem (Multiset.mem_add.2 (.inr (ih hctx)))

/-- The loop test `x != tree->root`. -/
lemma At.eq_root_iff (h : At t q x T ctx) : x = t.root ↔ ctx = [] := by
  cases ctx with
  | nil =>
    obtain ⟨-, hroot⟩ := h.above
    simp [hroot]
  | cons f ctx =>
    simp only [reduceCtorEq, iff_false]
    intro hx
    apply h.notMem_ctxNodes
    rw [hx]
    exact h.above.root_mem

/-- Painting a subtree black, also when it is empty. -/
lemma At.paintBlack (h : At t q x T ctx) : At (t.withColor x .black) q x (T.paint .black) ctx := by
  cases T with
  | leaf =>
    obtain rfl : x = t.nil := h.rep
    refine ⟨rfl, ?_, h.nodup, h.nil_ne, if_pos rfl⟩
    refine h.above.congr rfl rfl fun r hr => ⟨if_neg (h.above.ne hr).2, rfl, fun _ => rfl⟩
  | node c y ch =>
    obtain ⟨rfl, -⟩ := h.node
    exact h.withColor .black

/-- The pointer of an empty subtree is not the pointer of its sibling, if that is a node. -/
lemma At.ne_sibling_node (h : At t q x T (⟨d, c, p, .node c' w ch⟩ :: ctx)) :
    t.child d.flip p ≠ x := by
  have hw := h.sibling
  obtain ⟨hp, -, hwn, -, -⟩ := hw.node
  intro hx
  rcases (h.rep.pointer h.nil_ne).2 with ⟨hxn, -⟩ | ⟨-, hxn⟩
  · exact hwn (hp.symm.trans (hx.trans hxn))
  · exact h.ne_sibling hxn hx

/-! ## The fix-up loop -/

/-- Case 1: a red sibling becomes the grandparent, and a nephew the sibling. -/
lemma deleteFixupRedSibling_spec (h : At t q x T (⟨d, c, p, .node .red w ch⟩ :: rest))
    (hxq : t.parent x = q) :
    ∃ t', t.deleteFixupRedSibling d x w = some (t', t'.child d.flip p) ∧
      At t' p x T (⟨d, .red, p, ch d⟩ :: ⟨d, .black, w, ch d.flip⟩ :: rest) ∧ t'.parent x = p ∧
      t'.nil = t.nil ∧ t'.key = t.key := by
  obtain ⟨rfl, hp0, -, -, -⟩ := h.frame
  have hx0 := (h.rep.pointer h.nil_ne).1
  obtain ⟨-, hw0, -, hwc, -⟩ := h.sibling.node
  -- the parent becomes red and the sibling black
  have h₁ := (h.sibling.withColor .black).up.withColor .red
  rw [branch_flip_eq, ← branch_eta d ch] at h₁
  obtain ⟨t', hrot, h₂, hnil, hkey, hpnil⟩ := h₁.rotate
  have h₃ := (h₂.down d)
  rw [branch_self, branch_flip] at h₃
  have h₄ := h₃.down d
  rw [branch_self, branch_flip] at h₄
  have hxe : t'.child d q = x := h.rep.pointer_eq h₄.rep hnil
  rw [hxe] at h₄
  have hxp : t'.parent x = q := by
    refine h₄.parent_eq fun hT => ?_
    subst hT
    obtain rfl : x = t.nil := h.rep
    rw [hnil]
    exact hpnil.trans hxq
  refine ⟨t', ?_, h₄, hxp, hnil, hkey⟩
  simp [deleteFixupRedSibling, colorOf_of_ne hw0, hwc, setColor_of_ne hw0, parentOf_of_ne hx0, hxq,
    setColor_of_ne hp0, hrot, hxp, childOf_of_ne hp0]

/-- The test for case 2. -/
lemma bothBlack_spec (h : At t q p (.node c w ch) ctx) (d : Side) :
    t.bothBlack d w =
      some (decide ((ch d).color = .black ∧ (ch d.flip).color = .black)) := by
  obtain ⟨-, hw0, -, -, -⟩ := h.node
  have hcol : ∀ e, t.colorOf (t.child e w) = some (ch e).color := by
    intro e
    have hdown := (h.down e).rep
    rw [colorOf_of_ne (hdown.pointer h.nil_ne).1, hdown.color h.nil_black]
  simp only [bothBlack, childOf_of_ne hw0, hcol, Option.bind_eq_bind, Option.bind_some]
  by_cases hd : (ch d).color = .black
  · simp [hd]
  · simp [hd]

/-- Case 3 does not apply when the outer nephew is red. -/
lemma deleteFixupInner_of_outer (h : At t q x T (⟨d, c, p, .node .black w ch⟩ :: rest))
    (hout : (ch d.flip).color = .red) : t.deleteFixupInner d x w = some (t, w) := by
  obtain ⟨-, hw0, -, -, -⟩ := h.sibling.node
  have hdown := (h.sibling.down d.flip).rep
  have hcol := hdown.color h.nil_black
  rw [hout] at hcol
  simp [deleteFixupInner, childOf_of_ne hw0, colorOf_of_ne (hdown.pointer h.nil_ne).1, hcol]

/-- Case 3: a rotation at the sibling makes the outer nephew red. -/
lemma deleteFixupInner_spec {v : ℕ} {ch' : Side → RedBlack.Tree ℕ}
    (h : At t q x T (⟨d, c, p, .node .black w ch⟩ :: rest)) (hxq : t.parent x = q)
    (hin : ch d = .node .red v ch') (hout : (ch d.flip).color = .black) :
    ∃ t', t.deleteFixupInner d x w = some (t', v) ∧
      At t' p x T (⟨d, c, p, .node .black v (branch d (ch' d)
        (.node .red w (branch d (ch' d.flip) (ch d.flip))))⟩ :: rest) ∧ t'.parent x = p ∧
      t'.nil = t.nil ∧ t'.key = t.key := by
  obtain ⟨rfl, hp0, -, -, -⟩ := h.frame
  have hx0 := (h.rep.pointer h.nil_ne).1
  obtain ⟨-, hw0, -, -, -⟩ := h.sibling.node
  have hdown := (h.sibling.down d.flip).rep
  have hcol := hdown.color h.nil_black
  rw [hout] at hcol
  -- the inner nephew becomes black and the sibling red
  have hv := h.sibling.down d
  rw [hin] at hv
  obtain ⟨hvp, hv0, -, -, -⟩ := hv.node
  have h₁ := (hv.withColor .black).up.withColor .red
  rw [← branch_flip_eq, ← branch_eta d ch', ← branch_flip_eq d] at h₁
  obtain ⟨t', hrot, h₂, hnil, hkey, hpnil⟩ := h₁.rotate
  have h₃ := h₂.sibling
  simp only [Side.flip_flip, branch_flip_eq] at h₃
  have hxe : t'.child d q = x := h.rep.pointer_eq h₃.rep hnil
  rw [hxe] at h₃
  have hxp : t'.parent x = q := by
    refine h₃.parent_eq fun hT => ?_
    subst hT
    obtain rfl : x = t.nil := h.rep
    rw [hnil]
    exact hpnil.trans hxq
  obtain ⟨hvq, -⟩ := h₃.sibling.node
  refine ⟨t', ?_, h₃, hxp, hnil, hkey⟩
  simp [deleteFixupInner, childOf_of_ne hw0, colorOf_of_ne (hdown.pointer h.nil_ne).1, hcol, hvp,
    setColor_of_ne hv0, setColor_of_ne hw0, hrot, parentOf_of_ne hx0, hxp, childOf_of_ne hp0, hvq]

/-- Case 4: a rotation at the parent, and the loop is sent to the root. -/
lemma deleteFixupOuter_spec (h : At t q x T (⟨d, c, p, .node .black w ch⟩ :: rest))
    (hxq : t.parent x = q) (hout : (ch d.flip).color = .red) :
    ∃ t', t.deleteFixupOuter d x w = some (t', t'.root) ∧
      At t' t'.nil t'.root (plug (.node c w (branch d (.node .black p (branch d T (ch d)))
        ((ch d.flip).paint .black))) rest) [] ∧
      t'.nil = t.nil ∧ t'.key = t.key := by
  obtain ⟨rfl, hp0, -, hpc, -⟩ := h.frame
  have hx0 := (h.rep.pointer h.nil_ne).1
  obtain ⟨-, hw0, -, -, -⟩ := h.sibling.node
  cases hv : ch d.flip with
  | leaf =>
    rw [hv] at hout
    simp at hout
  | node cv v ch' =>
    have h₁ := (h.sibling.withColor c).sibling
    rw [Side.flip_flip] at h₁
    have h₂ := (h₁.up.withColor .black).down d.flip
    rw [branch_flip, Side.flip_flip, branch_self] at h₂
    have h₃ := h₂.down d.flip
    rw [hv] at h₃
    obtain ⟨hvp, hv0, -, -, -⟩ := h₃.node
    have h₄ := (h₃.withColor .black).up.up
    simp only [Side.flip_flip, branch_flip_eq] at h₄
    obtain ⟨t', hrot, h₅, hnil, hkey, -⟩ := h₄.rotate
    refine ⟨t', ?_, h₅.top, hnil, hkey⟩
    have hvp' : t.child d.flip w = v := hvp
    simp [deleteFixupOuter, parentOf_of_ne hx0, hxq, colorOf_of_ne hp0, hpc, setColor_of_ne hw0,
      setColor_of_ne hp0, childOf_of_ne hw0, hvp', setColor_of_ne hv0, hrot]

/-- What the loop leaves behind: painting the node it ends with repairs the tree, whose nodes have
kept their order. -/
def Repaired (t : RBTree) (l : List ℕ) (r : Option (RBTree × ℕ)) : Prop :=
  ∃ t' q' x' T' ctx', r = some (t', x') ∧ At t' q' x' T' ctx' ∧
    IsRedBlack (plug (T'.paint .black) ctx') ∧ inorder (plug T' ctx') = l ∧
    t'.nil = t.nil ∧ t'.key = t.key

/-- The loop ends at the root and at a red node. -/
lemma deleteFixupLoop_done (h : At t q x T ctx) (hrr : NoRedRed (T.paint .black))
    (hn : BlackHeight T n) (hfit : Fits ctx (n + 1) .black) (hdone : ctx = [] ∨ T.color = .red)
    (fuel : ℕ) : Repaired t (inorder (plug T ctx)) (deleteFixupLoop (fuel + 1) t x) := by
  refine ⟨t, q, x, T, ctx, ?_, h, delete_finish hrr hn hfit hdone, rfl, rfl, rfl⟩
  have hx0 := (h.rep.pointer h.nil_ne).1
  have hcol := h.rep.color h.nil_black
  by_cases hroot : x = t.root
  · simp [deleteFixupLoop, hroot]
  · rcases hdone with hctx | hred
    · exact absurd (h.eq_root_iff.2 hctx) hroot
    · rw [hred] at hcol
      simp [deleteFixupLoop, hroot, colorOf_of_ne hx0, hcol]

/-- The loop ends after case 4. -/
lemma deleteFixupLoop_root (h : At t t.nil t.root T []) (hrb : IsRedBlack T) (fuel : ℕ) :
    Repaired t (inorder T) (deleteFixupLoop (fuel + 1) t t.root) := by
  obtain ⟨n, hn⟩ := hrb.height
  exact deleteFixupLoop_done h hrb.noRedRed.paint_black hn rfl (.inl rfl) fuel

/-- `Repaired` does not depend on how the memory was before. -/
lemma Repaired.of_eq {l l' : List ℕ} {o : Option (RBTree × ℕ)} (h : Repaired t' l' o) (hl : l' = l)
    (hnil : t'.nil = t.nil) (hkey : t'.key = t.key) : Repaired t l o := by
  obtain ⟨t₁, q₁, x₁, T₁, ctx₁, hr, h₁, hrb, hord, hnil₁, hkey₁⟩ := h
  exact ⟨t₁, q₁, x₁, T₁, ctx₁, hr, h₁, hrb, hord.trans hl, hnil₁.trans hnil, hkey₁.trans hkey⟩

/-- Cases 3 and 4, and the test that ends the loop after them. -/
lemma deleteFixupOuter_loop (h : At t q x T (⟨d, c, p, .node .black w ch⟩ :: rest))
    (hxq : t.parent x = q) (hrr : NoRedRed T) (hn : BlackHeight T n)
    (hfit : Fits (⟨d, c, p, .node .black w ch⟩ :: rest) (n + 1) .black)
    (hout : (ch d.flip).color = .red) (fuel : ℕ) :
    Repaired t (inorder (plug T (⟨d, c, p, .node .black w ch⟩ :: rest)))
      ((t.deleteFixupOuter d x w).bind fun a => deleteFixupLoop (fuel + 1) a.1 a.2) := by
  obtain ⟨t₁, hcode, h₁, hnil, hkey⟩ := deleteFixupOuter_spec h hxq hout
  rw [hcode]
  refine (deleteFixupLoop_root h₁ (delete_outer hrr hn hfit hout) fuel).of_eq ?_ hnil hkey
  refine inorder_plug_congr ?_ rest
  cases d <;> simp [inorder, branch, inorder_paint, Side.flip]

/-- One iteration with a black sibling, and the loop after it: the subtree at the parent is next, or
the loop ends. -/
lemma deleteFixupBlackSibling_loop (h : At t q x T (⟨d, c, p, .node .black w ch⟩ :: rest))
    (hxq : t.parent x = q) (hrr : NoRedRed T) (hn : BlackHeight T n)
    (hfit : Fits (⟨d, c, p, .node .black w ch⟩ :: rest) (n + 1) .black) (fuel : ℕ)
    (hnext : ∀ t' q' T', At t' q' p T' rest → t'.parent p = q' → NoRedRed (T'.paint .black) →
      BlackHeight T' (n + c.weight) → Fits rest (n + c.weight + 1) .black → T'.color = c →
      Repaired t' (inorder (plug T' rest)) (deleteFixupLoop (fuel + 1) t' p)) :
    Repaired t (inorder (plug T (⟨d, c, p, .node .black w ch⟩ :: rest)))
      ((t.deleteFixupBlackSibling d x w).bind fun a => deleteFixupLoop (fuel + 1) a.1 a.2) := by
  have hx0 := (h.rep.pointer h.nil_ne).1
  obtain ⟨-, hw0, -, -, -⟩ := h.sibling.node
  have hboth := bothBlack_spec h.sibling d
  by_cases hblack : (ch d).color = .black ∧ (ch d.flip).color = .black
  · -- case 2
    obtain ⟨rfl, -⟩ := h.frame
    obtain ⟨hrr', hn', hfit'⟩ := delete_recolor hrr hn hfit ((Side.forall_iff d).2 hblack)
    have h₁ := (h.sibling.withColor .red).up
    rw [branch_flip_eq] at h₁
    obtain ⟨-, -, -, -, hpar⟩ := h₁.node
    have hcode : t.deleteFixupBlackSibling d x w = some (t.withColor w .red, q) := by
      simp [deleteFixupBlackSibling, hboth, hblack, setColor_of_ne hw0, parentOf_of_ne hx0, hxq]
    rw [hcode, Option.bind_some]
    refine (hnext _ _ _ h₁ hpar hrr' hn' hfit' rfl).of_eq ?_ rfl rfl
    refine inorder_plug_congr ?_ rest
    cases d <;> simp [inorder, branch]
  · have hcode : t.deleteFixupBlackSibling d x w =
        (t.deleteFixupInner d x w).bind fun a => a.1.deleteFixupOuter d x a.2 := by
      simp [deleteFixupBlackSibling, hboth, hblack]
    rw [hcode]
    by_cases hout : (ch d.flip).color = .red
    · rw [deleteFixupInner_of_outer h hout, Option.bind_some]
      exact deleteFixupOuter_loop h hxq hrr hn hfit hout fuel
    · -- the inner nephew is red
      replace hout := Color.ne_red_iff.1 hout
      cases hin : ch d with
      | leaf => simp [hin, hout] at hblack
      | node cv v ch' =>
        obtain rfl : cv = .red := by
          cases cv with
          | red => rfl
          | black => simp [hin, hout] at hblack
        obtain ⟨t₁, hcode₁, h₁, hxp, hnil, hkey⟩ := deleteFixupInner_spec h hxq hin hout
        rw [hcode₁, Option.bind_some]
        refine (deleteFixupOuter_loop h₁ hxp hrr hn (delete_inner hfit hin hout) (by simp)
          fuel).of_eq ?_ hnil hkey
        refine inorder_plug_congr ?_ rest
        cases d <;> simp_all [inorder, branch, Side.flip]

/-- The deletion fix-up loop ends, with the same nodes in the same order, and painting the node it
ends with makes the tree a red-black tree.

**Proof sketch.** Induction on the fuel. At the root and at a red node the loop ends. Elsewhere the
short subtree has a sibling. If that is black, the iteration ends the loop or moves one level up. If it
is red, case 1 puts a red parent above the subtree, so that case 2, which moves to that parent, ends
the loop too. -/
lemma deleteFixupLoop_spec (h : At t q x T ctx) (hxq : t.parent x = q)
    (hrr : NoRedRed (T.paint .black)) (hn : BlackHeight T n) (hfit : Fits ctx (n + 1) .black)
    (hfuel : ctx.length + 1 < fuel) :
    Repaired t (inorder (plug T ctx)) (deleteFixupLoop fuel t x) := by
  induction fuel generalizing t q x T ctx n with
  | zero => omega
  | succ fuel ih =>
    by_cases hdone : ctx = [] ∨ T.color = .red
    · exact deleteFixupLoop_done h hrr hn hfit hdone fuel
    obtain ⟨hctx, hT⟩ := not_or.1 hdone
    replace hT := Color.ne_red_iff.1 hT
    rw [Tree.paint_black hT] at hrr
    obtain ⟨fuel, rfl⟩ : ∃ k, fuel = k + 1 := ⟨fuel - 1, by omega⟩
    rcases ctx with _ | ⟨⟨d, c, p, s⟩, rest⟩
    · exact absurd rfl hctx
    obtain ⟨cs, w, ch, rfl⟩ := exists_sibling hfit
    have hx0 := (h.rep.pointer h.nil_ne).1
    have hxroot : x ≠ t.root := fun hx => hctx (h.eq_root_iff.1 hx)
    have hxc := h.rep.color h.nil_black
    rw [hT] at hxc
    have hside := h.side_eq h.ne_sibling_node
    obtain ⟨rfl, hp0, -, -, -⟩ := h.frame
    obtain ⟨hwp, hw0, -, hwc, -⟩ := h.sibling.node
    have hstep : deleteFixupLoop (fuel + 1 + 1) t x =
        ((t.deleteFixupRedSibling d x w).bind fun a => a.1.deleteFixupBlackSibling d x a.2).bind
          fun a => deleteFixupLoop (fuel + 1) a.1 a.2 := by
      rw [deleteFixupLoop]
      simp [hxroot, colorOf_of_ne hx0, hxc, parentOf_of_ne hx0, hxq, childOf_of_ne hp0, hside,
        deleteFixupBranch, hwp]
    rw [hstep]
    simp only [List.length_cons] at hfuel
    cases cs with
    | black =>
      have hcode : t.deleteFixupRedSibling d x w = some (t, w) := by
        simp [deleteFixupRedSibling, colorOf_of_ne hw0, hwc]
      rw [hcode, Option.bind_some]
      refine deleteFixupBlackSibling_loop h hxq hrr hn hfit fuel fun t' q' T' h' hp' hrr' hn' hf' _ => ?_
      exact ih h' hp' hrr' hn' hf' (by omega)
    | red =>
      obtain ⟨rfl, hcol, hfit₁⟩ := delete_red_sibling hfit
      obtain ⟨t₁, hcode, h₁, hxp, hnil, hkey⟩ := deleteFixupRedSibling_spec h hxq
      rw [hcode, Option.bind_some]
      obtain ⟨cs, v, ch', hs⟩ := exists_sibling hfit₁
      rw [hs] at h₁ hfit₁ hcol
      rw [Tree.color_node] at hcol
      subst hcol
      obtain ⟨hvp, -⟩ := h₁.sibling.node
      rw [hvp]
      refine (deleteFixupBlackSibling_loop h₁ hxp hrr hn hfit₁ fuel
        fun t' q' T' h' hp' hrr' hn' hf' hc' => ?_).of_eq ?_ hnil hkey
      · exact deleteFixupLoop_done h' hrr' hn' hf' (.inr hc') fuel
      · refine inorder_plug_congr ?_ rest
        rw [← hs]
        cases d <;> simp [inorder, branch, Side.flip]

/-- `rbtree_delete_fixup` repairs a tree with a short subtree. -/
lemma rbtreeDeleteFixup_spec (h : At t q x T ctx) (hxq : t.parent x = q)
    (hrr : NoRedRed (T.paint .black)) (hn : BlackHeight T n) (hfit : Fits ctx (n + 1) .black)
    (hfuel : ctx.length + 1 < loopFuel) :
    ∃ t' T', t.rbtreeDeleteFixup x = some t' ∧ At t' t'.nil t'.root T' [] ∧ IsRedBlack T' ∧
      inorder T' = inorder (plug T ctx) ∧ t'.nil = t.nil ∧ t'.key = t.key := by
  obtain ⟨t₁, q₁, x₁, T₁, ctx₁, hloop, h₁, hrb, hord, hnil, hkey⟩ :=
    deleteFixupLoop_spec h hxq hrr hn hfit hfuel
  refine ⟨t₁.withColor x₁ .black, _, ?_, h₁.paintBlack.top, hrb, ?_, hnil, hkey⟩
  · have hx0 := (h₁.rep.pointer h₁.nil_ne).1
    simp [rbtreeDeleteFixup, hloop, setColor_of_ne hx0]
  · rw [← hord]
    exact inorder_plug_congr (inorder_paint .black T₁) ctx₁

/-! ## Unlinking -/

/-- From a subtree down to the hole of a context. -/
lemma At.descend (h : At t q p (plug T rest) ctx) : ∃ q' p', At t q' p' T (rest ++ ctx) := by
  induction rest generalizing T with
  | nil => exact ⟨q, p, h⟩
  | cons f rest ih =>
    rcases f with ⟨d, c, x, s⟩
    obtain ⟨q', p', h'⟩ := ih h
    have hdown := h'.down d
    rw [branch_self, branch_flip] at hdown
    exact ⟨_, _, hdown⟩

/-- From the hole of a context up to the subtree. -/
lemma At.ascend (h : At t q p T (rest ++ ctx)) : ∃ q' p', At t q' p' (plug T rest) ctx := by
  obtain ⟨q', p', h'⟩ := h.linked.ascend
  exact ⟨q', p', h'.at h.nil_black⟩

/-- Going down on side `d` finds the last node on that side. -/
lemma extremum_spec (h : At t q p (.node c p ch) ctx) (hfuel : (nodes (.node c p ch)).card < fuel) :
    ∃ q' cy y ch' rest, t.extremum d fuel p = some y ∧ At t q' y (.node cy y ch') (rest ++ ctx) ∧
      ch' d = .leaf ∧ (∀ f ∈ rest, f.side = d) ∧
      plug (.node cy y ch') rest = .node c p ch := by
  induction fuel generalizing q p c ch ctx with
  | zero => omega
  | succ fuel ih =>
    obtain ⟨-, hp0, -, -, -⟩ := h.node
    have hdown := h.down d
    cases hd : ch d with
    | leaf =>
      refine ⟨q, c, p, ch, [], ?_, h, hd, by simp, rfl⟩
      rw [hd] at hdown
      have hnil : t.child d p = t.nil := hdown.rep
      simp [extremum, childOf_of_ne hp0, hnil]
    | node c' y ch' =>
      rw [hd] at hdown
      obtain ⟨hy, -, hyn, -, -⟩ := hdown.node
      rw [hy] at hdown
      rw [nodes_node d, Multiset.card_cons, Multiset.card_add, hd] at hfuel
      obtain ⟨q', cy, y', ch'', rest, hcode, h', hleaf, hside, hplug⟩ := ih hdown (by omega)
      refine ⟨q', cy, y', ch'', rest ++ [⟨d, c, p, ch d.flip⟩], ?_, ?_, hleaf, ?_, ?_⟩
      · simp [extremum, childOf_of_ne hp0, hy, hyn, hcode]
      · rw [List.append_assoc]
        exact h'
      · intro f hf
        rcases List.mem_append.1 hf with hf | hf
        · exact hside f hf
        · rw [List.mem_singleton.1 hf]
      · rw [plug_append, hplug, ← hd, plug_cons, plug_nil, branch_eta]

/-- The node `z` leaves its place to the subtree at `x`. -/
lemma transplant_spec (hctx : RepCtx t q z ctx) (hzq : t.parent z = q) (hz : z ≠ 0)
    (hzn : z ≠ t.nil) (hS : Rep t r x S) (hnil : t.nil ≠ 0) (hblack : t.color t.nil = .black)
    (hnd : (z ::ₘ (nodes S + ctxNodes ctx)).Nodup) :
    ∃ t', t.transplant z x = some t' ∧ At t' q x S ctx ∧ t'.parent x = q ∧ t'.nil = t.nil ∧
      t'.key = t.key ∧ t'.color = t.color ∧ (∀ u, u ≠ x → t'.parent u = t.parent u) ∧
      ∀ u ∉ ctxNodes ctx, ∀ d, t'.child d u = t.child d u := by
  obtain ⟨hzS, hnd⟩ := Multiset.nodup_cons.1 hnd
  obtain ⟨hzS, hzc⟩ := not_or.1 fun h => hzS (Multiset.mem_add.2 h)
  obtain ⟨hndS, hndc, hdis⟩ := Multiset.nodup_add.1 hnd
  obtain ⟨hx0, hxcase⟩ := hS.pointer hnil
  have hxz : x ≠ z := by
    rintro rfl
    rcases hxcase with ⟨hxn, -⟩ | ⟨hxS, -⟩
    · exact hzn hxn
    · exact hzS hxS
  have hxc : x ∉ ctxNodes ctx := by
    intro hmem
    rcases hxcase with ⟨hxn, -⟩ | ⟨hxS, -⟩
    · exact (hctx.ne hmem).2 hxn
    · exact Multiset.disjoint_left.1 hdis hxS hmem
  obtain ⟨t₁, hcode, hctx₁, hnil₁, hkey₁, hcol₁, hpar₁, hchild₁⟩ :=
    replaceChild_spec hctx hzq hz hzn hzc hndc hnil x
  have hpar : ∀ u, u ≠ x → (t₁.withParent x q).parent u = t.parent u := by
    intro u hu
    rw [← hpar₁]
    exact if_neg hu
  refine ⟨t₁.withParent x q, ?_, ⟨?_, ?_, hnd, ?_, ?_⟩, if_pos rfl, hnil₁, hkey₁, hcol₁, hpar,
    hchild₁⟩
  · simp [transplant, hcode, parentOf_of_ne hz, hpar₁, hzq, setParent_of_ne hx0]
  · refine hS.reparent hndS hnil₁ (fun _ => if_pos rfl) fun u hu => ⟨?_, ?_, hpar u⟩
    · exact congrFun hcol₁ u
    · exact hchild₁ u fun hmem => Multiset.disjoint_left.1 hdis hu hmem
  · refine hctx₁.congr rfl rfl fun u hu => ⟨rfl, if_neg ?_, fun _ => rfl⟩
    rintro rfl
    exact hxc hu
  · show t₁.nil ≠ 0
    rw [hnil₁]
    exact hnil
  · show t₁.color t₁.nil = .black
    rw [hnil₁, hcol₁]
    exact hblack

/-- A node with at most one child leaves its place to that child. -/
lemma deleteByChild_spec (h : At t q z (.node c z ch) ctx) (d : Side) :
    ∃ t' x, t.deleteByChild d z = some (t', x) ∧ At t' q x (ch d) ctx ∧ t'.parent x = q ∧
      t'.nil = t.nil ∧ t'.key = t.key := by
  obtain ⟨-, hz0, hzn, -, hzq⟩ := h.node
  have hnd := h.nodup
  rw [nodes_node d.flip, Side.flip_flip, Multiset.cons_add, Multiset.nodup_cons,
    Multiset.add_assoc] at hnd
  obtain ⟨hz, hnd⟩ := hnd
  have hle : nodes (ch d) + ctxNodes ctx ≤ nodes (ch d.flip) + (nodes (ch d) + ctxNodes ctx) :=
    Multiset.le_add_left _ _
  have hnd' : (z ::ₘ (nodes (ch d) + ctxNodes ctx)).Nodup :=
    Multiset.nodup_cons.2 ⟨fun hm => hz (Multiset.mem_of_le hle hm), Multiset.nodup_of_le hle hnd⟩
  obtain ⟨t', hcode, h', hx, hnil, hkey, -⟩ := transplant_spec h.above hzq hz0 hzn (h.down d).rep
    h.nil_ne h.nil_black hnd'
  exact ⟨t', _, by simp [deleteByChild, childOf_of_ne hz0, hcode], h', hx, hnil, hkey⟩

/-- The successor `y` of `z` is out of its place, and has the right subtree it will have in the place
of `z`. -/
structure Detached (t : RBTree) (q z y : ℕ) (c : Color) (L S : RedBlack.Tree ℕ) (ctx : List (Frame ℕ)) :
    Prop where
  above : RepCtx t q z ctx
  parent : t.parent z = q
  color : t.color z = c
  left : Rep t z (t.child .left z) L
  right : Rep t y (t.child .right y) S
  nodup : (z ::ₘ y ::ₘ (nodes L + nodes S + ctxNodes ctx)).Nodup
  ne : z ≠ 0 ∧ z ≠ t.nil ∧ y ≠ 0 ∧ y ≠ t.nil
  nil_ne : t.nil ≠ 0
  nil_black : t.color t.nil = .black

/-- What is written when the successor takes the place of `z`, behind the transplantation. -/
lemma takePlace_eq {t₁ : RBTree} {l : ℕ} (hz0 : z ≠ 0) (hy0 : y ≠ 0) (hl0 : l ≠ 0)
    (hcode : t.replaceChild z y = some t₁) (hparent : t₁.parent z = q) (hcolor : t₁.color z = c)
    (hl : t₁.child .left z = l) :
    t.takePlace z y =
      some ((((t₁.withParent y q).withChild .left y l).withParent l y).withColor y c) := by
  have hzl : (t₁.withParent y q).child .left z = l := hl
  have hyl : ((t₁.withParent y q).withChild .left y l).child .left y = l := if_pos ⟨rfl, rfl⟩
  have hzc : (((t₁.withParent y q).withChild .left y l).withParent l y).color z = c := hcolor
  simp [takePlace, transplant, hcode, parentOf_of_ne hz0, hparent, setParent_of_ne hy0,
    childOf_of_ne hz0, hzl, setChild_of_ne hy0, childOf_of_ne hy0, hyl, setParent_of_ne hl0,
    colorOf_of_ne hz0, hzc, setColor_of_ne hy0]

/-- The successor takes the place of `z`, with the colour of `z`. -/
lemma takePlace_spec (h : Detached t q z y c L S ctx) (hL : L ≠ .leaf) :
    ∃ t', t.takePlace z y = some t' ∧ At t' q y (.node c y (branch .left L S)) ctx ∧
      t'.nil = t.nil ∧ t'.key = t.key ∧ t'.parent t.nil = t.parent t.nil := by
  obtain ⟨hz0, hzn, hy0, hyn⟩ := h.ne
  have hnd := h.nodup
  simp only [Multiset.nodup_cons, Multiset.mem_cons, Multiset.mem_add, Multiset.nodup_add,
    Multiset.disjoint_add_left, not_or] at hnd
  obtain ⟨⟨hzy, ⟨hzL, hzS⟩, hzc⟩, ⟨⟨hyL, hyS⟩, hyc⟩, ⟨hndL, hndS, hLS⟩, hndc, hLc, hSc⟩ := hnd
  obtain ⟨l, hl⟩ : ∃ l, t.child .left z = l := ⟨_, rfl⟩
  have hleft := h.left
  rw [hl] at hleft
  obtain ⟨hlL, hl0, hln⟩ := hleft.pointer_mem hL
  have hly : l ≠ y := fun he => hyL (he ▸ hlL)
  have hlS : l ∉ nodes S := fun hm => Multiset.disjoint_left.1 hLS hlL hm
  have hlc : l ∉ ctxNodes ctx := fun hm => Multiset.disjoint_left.1 hLc hlL hm
  obtain ⟨t₁, hcode₁, hctx₁, hnil₁, hkey₁, hcol₁, hpar₁, hchild₁⟩ :=
    replaceChild_spec h.above h.parent hz0 hzn hzc hndc h.nil_ne y
  set t₂ := (((t₁.withParent y q).withChild .left y l).withParent l y).withColor y c with ht₂
  have hcol : ∀ r, r ≠ y → t₂.color r = t.color r := by
    intro r hr
    rw [← hcol₁]
    exact if_neg hr
  have hpar : ∀ r, r ≠ l → r ≠ y → t₂.parent r = t.parent r := by
    intro r hrl hry
    rw [← hpar₁]
    exact (if_neg hrl).trans (if_neg hry)
  have hchild : ∀ r, r ≠ y → r ∉ ctxNodes ctx → ∀ d, t₂.child d r = t.child d r := by
    intro r hry hrc d
    rw [← hchild₁ r hrc]
    exact if_neg fun h' => hry h'.2
  have hright : t₂.child .right y = t.child .right y := by
    rw [← hchild₁ y hyc]
    show (if Side.right = .left ∧ y = y then l else t₁.child .right y) = t₁.child .right y
    simp
  refine ⟨t₂, ?_, ⟨⟨rfl, hy0, ?_, if_pos rfl, ?_, (Side.forall_iff .left).2 ⟨?_, ?_⟩⟩, ?_, ?_, ?_, ?_⟩,
    hnil₁, hkey₁, hpar t.nil hln.symm hyn.symm⟩
  · exact takePlace_eq hz0 hy0 hl0 hcode₁ (by rw [hpar₁, h.parent]) (by rw [hcol₁, h.color])
      ((hchild₁ z hzc .left).trans hl)
  · show y ≠ t₁.nil
    rw [hnil₁]
    exact hyn
  · exact (if_neg hly.symm).trans (if_pos rfl)
  · have hyl : t₂.child .left y = l := if_pos ⟨rfl, rfl⟩
    rw [branch_self, hyl]
    refine hleft.reparent hndL hnil₁ (fun _ => if_pos rfl) fun r hr => ?_
    have hry : r ≠ y := fun he => hyL (he ▸ hr)
    have hrc : r ∉ ctxNodes ctx := fun hm => Multiset.disjoint_left.1 hLc hr hm
    exact ⟨hcol r hry, hchild r hry hrc, fun hrl => hpar r hrl hry⟩
  · rw [branch_flip, Side.flip, hright]
    refine h.right.congr hnil₁ fun r hr => ?_
    have hry : r ≠ y := fun he => hyS (he ▸ hr)
    have hrl : r ≠ l := fun he => hlS (he ▸ hr)
    have hrc : r ∉ ctxNodes ctx := fun hm => Multiset.disjoint_left.1 hSc hr hm
    exact ⟨hcol r hry, hpar r hrl hry, hchild r hry hrc⟩
  · refine hctx₁.congr rfl rfl fun r hr => ?_
    have hry : r ≠ y := fun he => hyc (he ▸ hr)
    have hrl : r ≠ l := fun he => hlc (he ▸ hr)
    exact ⟨if_neg hry, (if_neg hrl).trans (if_neg hry), fun d => if_neg fun h' => hry h'.2⟩
  · rw [nodes_node_branch, Multiset.cons_add]
    exact (Multiset.nodup_cons.1 h.nodup).2
  · show t₁.nil ≠ 0
    rw [hnil₁]
    exact h.nil_ne
  · have hyn' : t₁.nil ≠ y := by rw [hnil₁]; exact hyn.symm
    show (if t₁.nil = y then c else t₁.color t₁.nil) = .black
    rw [if_neg hyn', hcol₁, hnil₁]
    exact h.nil_black

/-- The node above the hole of a context that ends below `y`. -/
def holeParent (y : ℕ) : List (Frame ℕ) → ℕ
  | [] => y
  | f :: _ => f.elem

/-- The parent of a subtree is the node above the hole. -/
lemma At.eq_holeParent (h : At t q x T (rest ++ ⟨d, c, y, s⟩ :: ctx)) : q = holeParent y rest := by
  cases rest with
  | nil => exact h.frame.1
  | cons f rest => exact h.above.1

variable (rest) in
/-- The nodes of a tree around the node `z` and its successor `y`. -/
lemma nodup_successor {cy : Color} {ch' : Side → RedBlack.Tree ℕ} (hleaf : ch' .left = .leaf)
    (hnd : (nodes (.node cy y ch') + ctxNodes (rest ++ ⟨.right, c, z, L⟩ :: ctx)).Nodup) :
    (z ::ₘ y ::ₘ (nodes L + nodes (plug (ch' .right) rest) + ctxNodes ctx)).Nodup := by
  have heq : z ::ₘ y ::ₘ (nodes L + nodes (plug (ch' .right) rest) + ctxNodes ctx) =
      nodes (.node cy y ch') + ctxNodes (rest ++ ⟨.right, c, z, L⟩ :: ctx) := by
    ext a
    rw [nodes_node .left, hleaf, Side.flip, nodes_plug, ctxNodes_append, ctxNodes_cons]
    simp only [Multiset.count_cons, Multiset.count_add, nodes_leaf, Multiset.count_zero]
    omega
  rw [heq]
  exact hnd

/-- The right child of `z` is its successor: nothing but `nil->parent` can change. -/
lemma detachSuccessor_child {cy : Color} {ch' : Side → RedBlack.Tree ℕ}
    (h : At t q y (.node cy y ch') (⟨.right, c, z, L⟩ :: ctx)) (hleaf : ch' .left = .leaf) :
    ∃ t', t.detachSuccessor z y (t.child .right y) = some t' ∧
      Detached t' (t.parent z) z y c L (ch' .right) ctx ∧
      (ch' .right = .leaf → t'.parent t.nil = y) ∧ t'.nil = t.nil ∧ t'.key = t.key := by
  obtain ⟨rfl, hz0, hzn, hzc, -⟩ := h.frame
  obtain ⟨-, hy0, hyn, -, hyq⟩ := h.node
  have hx := h.down .right
  have hxc := hx.notMem_ctxNodes
  set x := t.child .right y with hxdef
  have hx0 := (hx.rep.pointer h.nil_ne).1
  have hnd := nodup_successor [] hleaf h.nodup
  rw [plug_nil] at hnd
  have hagree : ∀ r ∈ ctxNodes (⟨.right, c, q, L⟩ :: ctx), Agree t (t.withParent x y) r := by
    intro r hr
    refine ⟨rfl, if_neg ?_, fun _ => rfl⟩
    rintro rfl
    apply hxc
    rw [ctxNodes_cons]
    exact Multiset.mem_cons_of_mem (Multiset.mem_add.2 (.inr hr))
  have hzx : (t.withParent x y).parent q = t.parent q := (hagree q (by simp)).parent
  refine ⟨t.withParent x y, ?_, ⟨?_, hzx, hzc, ?_, ?_, hnd, ⟨hz0, hzn, hy0, hyn⟩, h.nil_ne,
    h.nil_black⟩, ?_, rfl, rfl⟩
  · simp [detachSuccessor, parentOf_of_ne hy0, hyq, setParent_of_ne hx0]
  · exact h.up.above.congr rfl rfl fun r hr => hagree r (by simp [hr])
  · exact h.sibling.rep.congr rfl fun r hr => hagree r (by simp [hr])
  · refine hx.rep.reparent (Multiset.nodup_add.1 hx.nodup).1 rfl (fun _ => if_pos rfl) fun r hr => ?_
    exact ⟨rfl, fun _ => rfl, fun hrx => if_neg hrx⟩
  · intro hl
    have hrep := hx.rep
    rw [hl] at hrep
    exact if_pos hrep.symm

/-- What is written when a successor deeper in the right subtree takes that subtree over, behind the
transplantation. -/
lemma detachSuccessor_eq {t₁ : RBTree} (hz0 : z ≠ 0) (hy0 : y ≠ 0) (hp0 : p ≠ 0) (hne : t.parent y ≠ z)
    (hcode : t.transplant y x = some t₁) (hp : t₁.child .right z = p) :
    t.detachSuccessor z y x = some ((t₁.withChild .right y p).withParent p y) := by
  have hyr : (t₁.withChild .right y p).child .right y = p := if_pos ⟨rfl, rfl⟩
  simp [detachSuccessor, parentOf_of_ne hy0, hne, hcode, childOf_of_ne hz0, hp,
    setChild_of_ne hy0, childOf_of_ne hy0, hyr, setParent_of_ne hp0]

/-- The successor of `z` is deeper in its right subtree: it leaves its place to its right child. -/
lemma detachSuccessor_deep {cy : Color} {ch' : Side → RedBlack.Tree ℕ}
    (h : At t q y (.node cy y ch') (f :: rest ++ ⟨.right, c, z, L⟩ :: ctx))
    (hleaf : ch' .left = .leaf) :
    ∃ t', t.detachSuccessor z y (t.child .right y) = some t' ∧
      Detached t' (t.parent z) z y c L (plug (ch' .right) (f :: rest)) ctx ∧
      (ch' .right = .leaf → t'.parent t.nil = f.elem) ∧ t'.nil = t.nil ∧ t'.key = t.key := by
  obtain ⟨-, hy0, hyn, -, hyq⟩ := h.node
  have hqf : q = f.elem := h.above.1
  have hnd := nodup_successor _ hleaf h.nodup
  obtain ⟨hzmem, hnd'⟩ := Multiset.nodup_cons.1 hnd
  have hqz : q ≠ z := by
    rintro rfl
    apply hzmem
    rw [hqf, nodes_plug, ctxNodes_cons]
    simp
  have hx := h.down .right
  -- `y` leaves its place
  have hndx : (y ::ₘ (nodes (ch' .right) +
      ctxNodes (f :: rest ++ ⟨.right, c, z, L⟩ :: ctx))).Nodup := by
    have hndy := h.nodup
    rw [nodes_node .left, hleaf, nodes_leaf, Multiset.zero_add, Multiset.cons_add] at hndy
    exact hndy
  obtain ⟨t₁, hcode, h₁, hxq, hnil₁, hkey₁, hcol₁, hpar₁, hchild₁⟩ := transplant_spec h.above hyq hy0
    hyn hx.rep h.nil_ne h.nil_black hndx
  have hyctx := (Multiset.nodup_cons.1 hndx).1
  obtain ⟨q₂, p₂, h₂⟩ := h₁.ascend
  obtain ⟨hqz₂, hz0, hzn, hzc, hzp⟩ := h₂.frame
  -- the right subtree of `z` is at `p₂`, a node
  obtain ⟨-, hp0, hpn⟩ := h₂.rep.pointer_mem (plug_ne_leaf (by simp) rest)
  have hndS := (Multiset.nodup_add.1 h₂.nodup)
  have hpc := h₂.notMem_ctxNodes
  have hyc : y ∉ ctxNodes (⟨.right, c, z, L⟩ :: ctx) := by
    intro hm
    apply hyctx
    rw [ctxNodes_append]
    exact Multiset.mem_add.2 (.inr (Multiset.mem_add.2 (.inr hm)))
  have hyS : y ∉ nodes (plug (ch' .right) (f :: rest)) := by
    intro hm
    apply (Multiset.nodup_cons.1 hnd').1
    simp [hm]
  set t₃ := (t₁.withChild .right y p₂).withParent p₂ y with ht₃
  have hagree : ∀ r ∈ ctxNodes (⟨.right, c, z, L⟩ :: ctx), Agree t₁ t₃ r := by
    intro r hr
    have hry : r ≠ y := fun he => hyc (he ▸ hr)
    have hrp : r ≠ p₂ := fun he => hpc (he ▸ hr)
    exact ⟨rfl, if_neg hrp, fun d => if_neg fun h' => hry h'.2⟩
  have hzx : z ≠ t.child .right y := by
    intro he
    apply h₁.notMem_ctxNodes
    rw [← he, ctxNodes_append]
    simp
  have hzpar : t₃.parent z = t.parent z :=
    ((hagree z (by simp)).parent).trans (hpar₁ z hzx)
  have hyr : t₃.child .right y = p₂ := if_pos ⟨rfl, rfl⟩
  refine ⟨t₃, ?_, ⟨?_, hzpar, hzc, ?_, ?_, hnd, ⟨hz0, ?_, hy0, ?_⟩, h₁.nil_ne, h₁.nil_black⟩, ?_,
    hnil₁, hkey₁⟩
  · exact detachSuccessor_eq hz0 hy0 hp0 (by rwa [hyq]) hcode hzp
  · have habove := h₂.up.above
    rw [hpar₁ z hzx] at habove
    exact habove.congr rfl rfl fun r hr => hagree r (by simp [hr])
  · have hleft := h₂.sibling.rep
    rw [← (hagree z (by simp)).child] at hleft
    exact hleft.congr rfl fun r hr => hagree r (by simp [hr])
  · rw [hyr]
    refine h₂.rep.reparent hndS.1 rfl (fun _ => if_pos rfl) fun r hr => ?_
    have hry : r ≠ y := fun he => hyS (he ▸ hr)
    exact ⟨rfl, fun d => if_neg fun h' => hry h'.2, fun hrp => if_neg hrp⟩
  · exact hzn
  · show y ≠ t₁.nil
    rw [hnil₁]
    exact hyn
  · intro hl
    have hxn : t.child .right y = t.nil := by
      have hrep := hx.rep
      rw [hl] at hrep
      exact hrep
    rw [hxn] at hxq
    rw [← hqf, ← hxq, ← hnil₁]
    exact if_neg hpn.symm

/-- The successor of `z`, in either place, gives up its place. -/
lemma detachSuccessor_spec {cy : Color} {ch' : Side → RedBlack.Tree ℕ}
    (h : At t q y (.node cy y ch') (rest ++ ⟨.right, c, z, L⟩ :: ctx)) (hleaf : ch' .left = .leaf) :
    ∃ t', t.detachSuccessor z y (t.child .right y) = some t' ∧
      Detached t' (t.parent z) z y c L (plug (ch' .right) rest) ctx ∧
      (ch' .right = .leaf → t'.parent t.nil = holeParent y rest) ∧
      t'.nil = t.nil ∧ t'.key = t.key := by
  cases rest with
  | nil => exact detachSuccessor_child h hleaf
  | cons f rest => exact detachSuccessor_deep h hleaf

/-- The tree after the unlinking of `z`: the place that is now filled by the subtree `R` was that of a
node of the given colour. -/
structure Unlinked (t t' : RBTree) (z x q : ℕ) (color : Color) (T R : RedBlack.Tree ℕ)
    (ctx : List (Frame ℕ)) : Prop where
  at_hole : At t' q x R ctx
  parent : t'.parent x = q
  short : ∃ n, NoRedRed R ∧ BlackHeight R n ∧ Fits ctx (n + color.weight) color ∧
    (color = .red → R.color = .black)
  order : ∃ l l', inorder T = l ++ z :: l' ∧ inorder (plug R ctx) = l ++ l'
  nil_eq : t'.nil = t.nil
  key_eq : t'.key = t.key

/-- Unlinking a node with at most one child. -/
lemma deleteByChild_unlinked (h : At t q z (.node c z ch) ctx)
    (hrb : IsRedBlack (plug (.node c z ch) ctx)) (hleaf : ch d.flip = .leaf) :
    ∃ t' x, t.deleteByChild d z = some (t', x) ∧
      Unlinked t t' z x q c (plug (.node c z ch) ctx) (ch d) ctx := by
  obtain ⟨t', x, hcode, h', hxq, hnil, hkey⟩ := deleteByChild_spec h d
  refine ⟨t', x, hcode, h', hxq, exists_short_of_delete hrb d, ?_, hnil, hkey⟩
  cases d with
  | left =>
    rw [Side.flip] at hleaf
    refine ⟨before ctx ++ inorder (ch .left), after ctx, ?_, ?_⟩
    · rw [inorder_plug, inorder, hleaf]
      simp [inorder]
    · rw [inorder_plug]
  | right =>
    rw [Side.flip] at hleaf
    refine ⟨before ctx, inorder (ch .right) ++ after ctx, ?_, ?_⟩
    · rw [inorder_plug, inorder, hleaf]
      simp [inorder]
    · rw [inorder_plug, List.append_assoc]

/-- Unlinking a node with two children: its successor takes its place. -/
lemma deleteSuccessor_unlinked (h : At t q z (.node c z ch) ctx)
    (hrb : IsRedBlack (plug (.node c z ch) ctx)) (hL : ch .left ≠ .leaf) (hR : ch .right ≠ .leaf)
    (hfuel : (nodes (.node c z ch)).card < loopFuel) :
    ∃ y t₁ t' q' R ctx', t.rbtreeMinimum (t.child .right z) = some y ∧ y ≠ 0 ∧
      t.detachSuccessor z y (t.child .right y) = some t₁ ∧ t₁.takePlace z y = some t' ∧
      Unlinked t t' z (t.child .right y) q' (t.color y) (plug (.node c z ch) ctx) R ctx' := by
  obtain ⟨-, hz0, hzn, -, hzq⟩ := h.node
  have hr : At t z (t.child .right z) (ch .right) (⟨.right, c, z, ch .left⟩ :: ctx) :=
    h.down .right
  rw [nodes_node .right, Multiset.card_cons, Multiset.card_add] at hfuel
  cases hch : ch .right with
  | leaf => exact absurd hch hR
  | node c' r ch' =>
    rw [hch] at hr hfuel
    obtain ⟨hrp, -⟩ := hr.node
    rw [hrp] at hr
    obtain ⟨q', cy, y, chy, rest, hmin, hy, hleaf, hside, hplug⟩ :=
      extremum_spec (d := .left) hr (show _ < loopFuel by omega)
    obtain ⟨-, hy0, -, hyc, -⟩ := hy.node
    have hx := hy.down .right
    obtain ⟨t₁, hdet, hd, hpnil₁, hnil₁, hkey₁⟩ := detachSuccessor_spec hy hleaf
    obtain ⟨t', htake, h', hnil, hkey, hpnil⟩ := takePlace_spec hd hL
    -- look at the subtree that fills the place of `y`
    have hdown : At t' y (t'.child .right y) (plug (chy .right) rest)
        (⟨.right, c, y, ch .left⟩ :: ctx) := h'.down .right
    obtain ⟨q₂, p₂, h₂⟩ := hdown.descend
    have hq₂ := h₂.eq_holeParent
    have hp₂ : p₂ = t.child .right y := hx.rep.pointer_eq h₂.rep (hnil.trans hnil₁)
    rw [hp₂] at h₂
    have hfull : plug (.node c z ch) ctx =
        plug (.node cy y chy) (rest ++ ⟨.right, c, z, ch .left⟩ :: ctx) := by
      rw [plug_append, hplug, ← hch, plug_cons]
      exact congrArg (fun b => plug (.node c z b) ctx) (branch_eta .right ch).symm
    refine ⟨y, t₁, t', q₂, chy .right, _, ?_, hy0, hdet, htake, h₂, ?_, ?_, ?_, hnil.trans hnil₁,
      hkey.trans hkey₁⟩
    · rw [hrp]
      exact hmin
    · refine h₂.parent_eq fun hl => ?_
      rw [hnil, hpnil, hnil₁, hpnil₁ hl, hq₂]
    · rw [hfull] at hrb
      obtain ⟨n, hrr, hn, hfit, hblack⟩ := exists_short_of_delete hrb .right
      rw [hyc]
      exact ⟨n, hrr, hn, hfit.replace_elem y, hblack⟩
    · refine ⟨before ctx ++ inorder (ch .left), y :: inorder (plug (chy .right) rest) ++ after ctx,
        ?_, ?_⟩
      · have hright : inorder (ch .right) = y :: inorder (plug (chy .right) rest) := by
          rw [hch, ← hplug, inorder_plug, inorder_plug, before_eq_nil hside, inorder, hleaf]
          simp [inorder]
        rw [inorder_plug, inorder, hright]
        simp
      · rw [plug_append, plug_cons, inorder_plug]
        simp [inorder, branch]

/-- `rbtree_delete` takes a node out, and the fix-up starts where a node is missing. -/
lemma deleteUnlink_spec (h : At t q z (.node c z ch) ctx)
    (hrb : IsRedBlack (plug (.node c z ch) ctx)) (hfuel : (nodes (.node c z ch)).card < loopFuel) :
    ∃ t' x q' color R ctx', t.deleteUnlink z = some (t', x, color) ∧
      Unlinked t t' z x q' color (plug (.node c z ch) ctx) R ctx' := by
  obtain ⟨-, hz0, -, hzc, -⟩ := h.node
  have hnil : ∀ d, t.child d z = t.nil ↔ ch d = .leaf := by
    intro d
    rcases ((h.down d).rep.pointer h.nil_ne).2 with ⟨hp, hl⟩ | ⟨hm, hp⟩
    · simp [hp, hl]
    · refine iff_of_false hp fun hl => ?_
      rw [hl] at hm
      simp at hm
  by_cases hL : ch .left = .leaf
  · obtain ⟨t', x, hcode, hun⟩ := deleteByChild_unlinked (d := .right) h hrb hL
    refine ⟨t', x, q, c, _, ctx, ?_, hun⟩
    simp [deleteUnlink, childOf_of_ne hz0, (hnil .left).2 hL, hcode, colorOf_of_ne hz0, hzc]
  · have hLn : t.child .left z ≠ t.nil := mt (hnil .left).1 hL
    by_cases hR : ch .right = .leaf
    · obtain ⟨t', x, hcode, hun⟩ := deleteByChild_unlinked (d := .left) h hrb hR
      refine ⟨t', x, q, c, _, ctx, ?_, hun⟩
      simp [deleteUnlink, childOf_of_ne hz0, hLn, (hnil .right).2 hR, hcode, colorOf_of_ne hz0, hzc]
    · have hRn : t.child .right z ≠ t.nil := mt (hnil .right).1 hR
      obtain ⟨y, t₁, t', q', R, ctx', hmin, hy0, hdet, htake, hun⟩ :=
        deleteSuccessor_unlinked h hrb hL hR hfuel
      refine ⟨t', _, q', _, R, ctx', ?_, hun⟩
      simp [deleteUnlink, childOf_of_ne hz0, hLn, hRn, hmin, childOf_of_ne hy0, hdet, htake,
        colorOf_of_ne hy0]

/-! ## The whole function -/

/-- `rbtree_delete` of a node of the tree returns a red-black tree without that node, in order of the
keys. -/
lemma rbtreeDelete_spec (h : At t t.nil t.root T []) (hrb : IsRedBlack T) (hs : Sorted t T)
    (hzT : z ∈ nodes T) (hfuel : (nodes T).card + 1 < loopFuel) :
    ∃ t' T', t.rbtreeDelete z = some t' ∧ At t' t'.nil t'.root T' [] ∧ IsRedBlack T' ∧
      Sorted t' T' ∧ nodes T = z ::ₘ nodes T' ∧ t'.nil = t.nil ∧ t'.key = t.key := by
  obtain ⟨c, ch, ctx, rfl⟩ := exists_plug_of_mem hzT
  obtain ⟨q, p, hz⟩ := h.descend
  obtain ⟨rfl, -⟩ := hz.node
  rw [List.append_nil] at hz
  have hcard : (nodes (.node c p ch)).card ≤ (nodes (plug (.node c p ch) ctx)).card := by
    rw [nodes_plug, Multiset.card_add]
    omega
  obtain ⟨t₁, x, q₁, color, R, ctx₁, hcode, hun⟩ := deleteUnlink_spec hz hrb (by omega)
  obtain ⟨n, hrr, hn, hfit, hred⟩ := hun.short
  obtain ⟨l, l', hord, hord'⟩ := hun.order
  -- what the fix-up, if there is one, leaves behind
  obtain ⟨t', T', hdel, h', hrb', hin, hnil, hkey⟩ : ∃ t' T', t.rbtreeDelete p = some t' ∧
      At t' t'.nil t'.root T' [] ∧ IsRedBlack T' ∧ inorder T' = inorder (plug R ctx₁) ∧
      t'.nil = t₁.nil ∧ t'.key = t₁.key := by
    cases color with
    | red =>
      refine ⟨t₁, _, by simp [rbtreeDelete, hcode], hun.at_hole.top, ?_, rfl, rfl, rfl⟩
      refine isRedBlack_plug_iff.2 ⟨n, hrr, hn, ?_⟩
      rw [hred rfl]
      exact hfit.black
    | black =>
      have hlen : ctx₁.length + 1 < loopFuel := by
        have hle := length_le_card_ctxNodes ctx₁
        have hsum : (nodes (plug R ctx₁)).card + 1 = (nodes (plug (.node c p ch) ctx)).card := by
          simp only [nodes, Multiset.coe_card, hord, hord', List.length_append, List.length_cons]
          omega
        rw [nodes_plug, Multiset.card_add] at hsum
        omega
      obtain ⟨t', T', hfix, hrest⟩ := rbtreeDeleteFixup_spec hun.at_hole hun.parent hrr.paint_black hn
        hfit hlen
      exact ⟨t', T', by simp [rbtreeDelete, hcode, hfix], hrest⟩
  have hin' : inorder T' = l ++ l' := hin.trans hord'
  have hkey' : t'.key = t.key := hkey.trans hun.key_eq
  refine ⟨t', T', hdel, h', hrb', ?_, ?_, hnil.trans hun.nil_eq, hkey'⟩
  · rw [Sorted, hin', hkey']
    rw [Sorted, hord] at hs
    refine hs.sublist ?_
    simp
  · rw [nodes, nodes, hord, hin', Multiset.cons_coe, Multiset.coe_eq_coe]
    exact List.perm_middle

end Jarvis.RBTree
