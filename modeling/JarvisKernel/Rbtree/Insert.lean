import JarvisKernel.Rbtree.Rep

set_option relaxedAutoImplicit false
set_option autoImplicit false

/-!
# Insertion

`rbtree_insert` puts a node below the leaf that its key leads to, and `rbtree_insert_fixup` repairs
the colours. The fix-up loop works on a red subtree that fits its context but for the colour of its
root; an iteration with a red uncle moves it two levels up, any other iteration ends the loop.

## Main results

* `Jarvis.RBTree.insertFixupLoop_spec` — the loop ends with the same nodes in the same order, and
  painting the root black makes the tree a red-black tree.
* `Jarvis.RBTree.insertDescend_spec` — the descent ends at a leaf that the key belongs at.
* `Jarvis.RBTree.rbtreeInsert_spec` — the whole function.
-/

namespace Jarvis.RBTree

open RedBlack

variable {t t' : RBTree} {p q r x y z g : ℕ} {c c' : Color} {d e : Side} {T s u : RedBlack.Tree ℕ}
  {ch : Side → RedBlack.Tree ℕ} {f : Frame ℕ} {ctx rest : List (Frame ℕ)} {n fuel : ℕ}

/-- The tree seen from its root. -/
lemma At.top (h : At t q p T ctx) : At t t.nil t.root (plug T ctx) [] := by
  induction ctx generalizing q p T with
  | nil =>
    obtain ⟨rfl, hroot⟩ := h.above
    rw [hroot]
    exact h
  | cons f ctx ih =>
    rcases f with ⟨d, c, x, s⟩
    exact ih h.up

/-- The test `p == p->parent->left` finds the side of the subtree. -/
lemma At.side_eq (h : At t q p T (⟨d, c, x, s⟩ :: ctx)) (hsib : t.child d.flip x ≠ p) :
    (if p = t.child .left x then Side.left else Side.right) = d := by
  obtain ⟨-, -, -, -, hchild⟩ := h.frame
  cases d with
  | left => rw [if_pos hchild.symm]
  | right =>
    rw [Side.flip] at hsib
    rw [if_neg hsib.symm]

/-! ## The fix-up loop -/

/-- Case 1: the parent and the uncle become black, the grandparent red, and it is next. -/
lemma insertFixupBranch_recolor
    (h : At t q z T (⟨d, .red, p, s⟩ :: ⟨e, .black, g, u⟩ :: rest)) (hz : z ≠ 0)
    (hu : u.color = .red) (hzq : t.parent z = q) :
    ∃ t' q', t.insertFixupBranch e z = some (t', g) ∧
      At t' q' g (.node .red g (branch e (.node .black p (branch d T s)) (u.paint .black))) rest ∧
      t'.nil = t.nil ∧ t'.key = t.key := by
  obtain ⟨rfl, hp0, -, -, -⟩ := h.frame
  have hup := h.up
  obtain ⟨hg, hg0, -, -, -⟩ := hup.frame
  cases u with
  | leaf => simp at hu
  | node cu y uch =>
    rw [Tree.color_node] at hu
    subst hu
    have h₁ := (hup.withColor .black).up
    have h₂ := h₁.down e.flip
    rw [branch_flip] at h₂
    obtain ⟨hy, hy0, -, hyc, -⟩ := h₂.node
    have hyc' : t.color y = .red := by
      have hd := hup.up.down e.flip
      rw [branch_flip] at hd
      exact hd.node.2.2.2.1
    have h₃ := (h₂.withColor .black).up
    have h₄ := h₃.withColor .red
    simp only [Side.flip_flip, branch_self, branch_flip_eq] at h₄
    refine ⟨_, _, ?_, h₄, rfl, rfl⟩
    have hyg : t.child e.flip g = y := hy
    simp [insertFixupBranch, grandparentOf, parentOf_of_ne hz, hzq, parentOf_of_ne hp0, hg,
      childOf_of_ne hg0, hyg, colorOf_of_ne hy0, hyc', setColor_of_ne hp0, setColor_of_ne hy0,
      setColor_of_ne hg0]

/-- Case 3: one rotation at the grandparent. -/
lemma insertFixupOuter_spec
    (h : At t q z T (⟨e, .red, p, s⟩ :: ⟨e, .black, g, u⟩ :: rest)) (hz : z ≠ 0)
    (hzq : t.parent z = q) :
    ∃ t' q', t.insertFixupOuter e z = some (t', z) ∧
      At t' q' p (.node .black p (branch e T (.node .red g (branch e s u)))) rest ∧
      t'.nil = t.nil ∧ t'.key = t.key := by
  obtain ⟨rfl, hp0, -, -, -⟩ := h.frame
  have hup := h.up
  obtain ⟨hg, hg0, -, -, -⟩ := hup.frame
  have h₁ := (hup.withColor .black).up.withColor .red
  rw [← branch_flip_eq, ← branch_flip_eq e s T] at h₁
  obtain ⟨t', hrot, h₂, hnil, hkey, -⟩ := h₁.rotate
  simp only [branch_flip_eq] at h₂
  refine ⟨t', _, ?_, h₂, hnil, hkey⟩
  simp [insertFixupOuter, grandparentOf, parentOf_of_ne hz, hzq, parentOf_of_ne hp0, hg,
    setColor_of_ne hp0, setColor_of_ne hg0, hrot]

/-- Case 2 does not apply to an outer grandchild. -/
lemma insertFixupInner_of_outer (h : At t q z T (⟨e, c, p, s⟩ :: ctx)) (hz : z ≠ 0)
    (hzn : z ≠ t.nil) (hzq : t.parent z = q) : t.insertFixupInner e z = some (t, z) := by
  obtain ⟨rfl, hp0, -, -, -⟩ := h.frame
  have hsib := h.ne_sibling hzn
  simp [insertFixupInner, parentOf_of_ne hz, hzq, childOf_of_ne hp0, hsib.symm]

/-- Case 2: a rotation at the parent makes it the outer grandchild. -/
lemma insertFixupInner_spec (h : At t q z (.node .red z ch) (⟨e.flip, .red, p, s⟩ :: ctx)) :
    ∃ t' q', t.insertFixupInner e z = some (t', p) ∧
      At t' q' p (.node .red p (branch e s (ch e))) (⟨e, .red, z, ch e.flip⟩ :: ctx) ∧
      t'.nil = t.nil ∧ t'.key = t.key := by
  obtain ⟨rfl, hp0, -, -, hchild⟩ := h.frame
  obtain ⟨-, hz0, -, -, hzq⟩ := h.node
  have h₁ := h.up
  simp only [branch_flip_eq] at h₁
  rw [← branch_eta e ch] at h₁
  obtain ⟨t', hrot, h₂, hnil, hkey, -⟩ := h₁.rotate
  have h₃ := h₂.down e
  rw [branch_self, branch_flip] at h₃
  obtain ⟨hpp, -⟩ := h₃.node
  rw [hpp] at h₃
  refine ⟨t', _, ?_, h₃, hnil, hkey⟩
  simp [insertFixupInner, parentOf_of_ne hz0, hzq, childOf_of_ne hp0, hchild, hrot]

/-- A black parent ends the loop. -/
lemma insertFixupLoop_of_black (h : At t q z T (⟨d, .black, p, s⟩ :: ctx)) (hz : z ≠ 0)
    (hzq : t.parent z = q) (fuel : ℕ) : insertFixupLoop (fuel + 1) t z = some t := by
  obtain ⟨rfl, hq0, -, hqc, -⟩ := h.frame
  simp [insertFixupLoop, parentOf_of_ne hz, hzq, colorOf_of_ne hq0, hqc]

/-- Case 3, and the test that ends the loop after it. -/
lemma insertFixupOuter_loop
    (h : At t q z (.node .red z ch) (⟨e, .red, p, s⟩ :: ⟨e, .black, g, u⟩ :: rest))
    (hrb : IsRedBlack (plug (.node .black p (branch e (.node .red z ch)
      (.node .red g (branch e s u)))) rest)) (fuel : ℕ) :
    ∃ t' T', ((t.insertFixupOuter e z).bind fun x => insertFixupLoop (fuel + 1) x.1 x.2) =
        some t' ∧ At t' t'.nil t'.root T' [] ∧ T' ≠ .leaf ∧ IsRedBlack (T'.paint .black) ∧
      inorder T' =
        inorder (plug (.node .red z ch) (⟨e, .red, p, s⟩ :: ⟨e, .black, g, u⟩ :: rest)) ∧
      t'.nil = t.nil ∧ t'.key = t.key := by
  obtain ⟨-, hz0, -, -, hzq⟩ := h.node
  obtain ⟨t₁, q₁, hout, h₁, hnil₁, hkey₁⟩ := insertFixupOuter_spec h hz0 hzq
  have h₂ := h₁.down e
  rw [branch_self, branch_flip] at h₂
  obtain ⟨hz, -, -, -, hzp⟩ := h₂.node
  rw [hz] at h₂
  refine ⟨t₁, _, ?_, h₁.top, plug_ne_leaf (by simp) rest, ?_, ?_, hnil₁, hkey₁⟩
  · rw [hout, Option.bind_some]
    exact insertFixupLoop_of_black h₂ hz0 hzp fuel
  · rw [Tree.paint_black hrb.root]
    exact hrb
  · refine inorder_plug_congr ?_ rest
    cases e <;> simp [inorder, branch]

/-- The insertion fix-up loop ends with the same nodes in the same order, and painting the root black
makes the tree a red-black tree.

**Proof sketch.** Induction on the fuel. Below a black node or at the root the loop ends. Below a red
node there is a black grandparent. A red uncle gives a red subtree two levels higher, which fits its
context again; with a black uncle the iteration leaves a red-black tree and a black parent, so the next
test ends the loop. -/
lemma insertFixupLoop_spec (h : At t q z (.node .red z ch) ctx) (hrr : NoRedRed (.node .red z ch))
    (hn : BlackHeight (.node .red z ch) n) (hfit : Fits ctx n .black) (hfuel : ctx.length < fuel) :
    ∃ t' T', insertFixupLoop fuel t z = some t' ∧ At t' t'.nil t'.root T' [] ∧ T' ≠ .leaf ∧
      IsRedBlack (T'.paint .black) ∧ inorder T' = inorder (plug (.node .red z ch) ctx) ∧
      t'.nil = t.nil ∧ t'.key = t.key := by
  induction fuel generalizing t q z ch ctx n with
  | zero => omega
  | succ fuel ih =>
    obtain ⟨-, hz0, hzn, -, hzq⟩ := h.node
    rcases ctx with _ | ⟨⟨d, c, p, s⟩, ctx⟩
    · obtain ⟨rfl, -⟩ := h.above
      refine ⟨t, _, ?_, h.top, by simp, isRedBlack_paint hrr hn, rfl, rfl, rfl⟩
      simp [insertFixupLoop, parentOf_of_ne hz0, hzq, colorOf_of_ne h.nil_ne, h.nil_black]
    · cases c with
      | black =>
        have hrb := insert_finish hrr hn hfit rfl
        refine ⟨t, _, insertFixupLoop_of_black h hz0 hzq fuel, h.top, ?_, ?_, rfl, rfl, rfl⟩
        · exact plug_ne_leaf (by simp) _
        · rw [Tree.paint_black hrb.root]
          exact hrb
      | red =>
        obtain ⟨e, g, u, rest, rfl⟩ := exists_grandparent hfit
        simp only [List.length_cons] at hfuel
        obtain ⟨rfl, hq0, hqn, hqc, -⟩ := h.frame
        obtain ⟨hpg, hg0, -, -, -⟩ := h.up.frame
        have hside := h.up.side_eq (h.up.ne_sibling hqn)
        have hstep : insertFixupLoop (fuel + 1) t z =
            (t.insertFixupBranch e z).bind fun x => insertFixupLoop fuel x.1 x.2 := by
          simp [insertFixupLoop, parentOf_of_ne hz0, hzq, colorOf_of_ne hq0, hqc,
            parentOf_of_ne hq0, hpg, childOf_of_ne hg0, hside]
        rw [hstep]
        by_cases hu : u.color = .red
        · obtain ⟨t₁, q₁, hbr, h₁, hnil₁, hkey₁⟩ := insertFixupBranch_recolor h hz0 hu hzq
          obtain ⟨hrr₁, hn₁, hfit₁⟩ := insert_recolor hrr hn hfit hu
          obtain ⟨t', T', hloop, h', hne, hrb, hord, hnil, hkey⟩ := ih h₁ hrr₁ hn₁ hfit₁ (by omega)
          refine ⟨t', T', ?_, h', hne, hrb, hord.trans ?_, hnil.trans hnil₁, hkey.trans hkey₁⟩
          · rw [hbr]
            exact hloop
          · refine inorder_plug_congr ?_ rest
            cases d <;> cases e <;> simp [inorder, branch, inorder_paint]
        · replace hu := Color.ne_red_iff.1 hu
          obtain ⟨fuel, rfl⟩ : ∃ k, fuel = k + 1 := ⟨fuel - 1, by omega⟩
          have hbranch : t.insertFixupBranch e z =
              (t.insertFixupInner e z).bind fun x => x.1.insertFixupOuter e x.2 := by
            have huc : t.color (t.child e.flip g) = .black := by
              have hdown := h.up.up.down e.flip
              rw [branch_flip] at hdown
              rw [hdown.rep.color h.nil_black, hu]
            have hu0 : t.child e.flip g ≠ 0 := by
              have hdown := h.up.up.down e.flip
              exact (hdown.rep.pointer h.nil_ne).1
            simp [insertFixupBranch, grandparentOf, parentOf_of_ne hz0, hzq, parentOf_of_ne hq0, hpg,
              childOf_of_ne hg0, colorOf_of_ne hu0, huc]
          rw [hbranch]
          rcases Side.eq_or_eq_flip e d with rfl | rfl
          · rw [insertFixupInner_of_outer h hz0 hzn hzq, Option.bind_some]
            exact insertFixupOuter_loop h (insert_outer hrr hn hfit hu) fuel
          · obtain ⟨t₁, q₁, hin, h₁, hnil₁, hkey₁⟩ := insertFixupInner_spec h
            rw [hin, Option.bind_some]
            obtain ⟨t', T', hloop, h', hne, hrb, hord, hnil, hkey⟩ :=
              insertFixupOuter_loop h₁ (insert_inner hrr hn hfit hu) fuel
            refine ⟨t', T', hloop, h', hne, hrb, hord.trans ?_, hnil.trans hnil₁, hkey.trans hkey₁⟩
            refine inorder_plug_congr ?_ rest
            cases e <;> simp [inorder, branch, Side.flip]

/-! ## The descent -/

/-- The nodes of the tree are in non-decreasing order of their keys. -/
def Sorted (t : RBTree) (T : RedBlack.Tree ℕ) : Prop :=
  (inorder T).Pairwise fun a b => t.key a ≤ t.key b

/-- The key of `z` belongs in the hole of the context: the keys before the hole are not larger, those
after it are not smaller, and the test that `rbtree_insert` makes at the parent finds the side. -/
structure Belongs (t : RBTree) (z : ℕ) (ctx : List (Frame ℕ)) : Prop where
  before : ∀ r ∈ before ctx, t.key r ≤ t.key z
  after : ∀ r ∈ after ctx, t.key z ≤ t.key r
  side : ∀ d c x s rest, ctx = ⟨d, c, x, s⟩ :: rest → (t.key z < t.key x ↔ d = .left)

/-- One step of the descent. -/
lemma Belongs.down (h : Belongs t z ctx) (hs : Sorted t (plug (.node c x ch) ctx)) (d : Side)
    (hd : t.key z < t.key x ↔ d = .left) : Belongs t z (⟨d, c, x, ch d.flip⟩ :: ctx) := by
  rw [Sorted, inorder_plug] at hs
  have hnode := (List.pairwise_append.1 (List.pairwise_append.1 hs).1).2.1
  rw [inorder, List.pairwise_append, List.pairwise_cons] at hnode
  obtain ⟨-, ⟨hright, -⟩, hleft⟩ := hnode
  cases d with
  | left =>
    have hlt := hd.2 rfl
    refine ⟨h.before, fun r hr => ?_, fun d' c' x' s' rest' he => ?_⟩
    · simp only [RedBlack.after, List.cons_append, List.mem_cons, List.mem_append] at hr
      rcases hr with rfl | hr | hr
      · exact hlt.le
      · exact hlt.le.trans (hright r hr)
      · exact h.after r hr
    · obtain ⟨⟨rfl, -, rfl, -⟩, -⟩ : (Side.left = d' ∧ c = c' ∧ x = x' ∧ _) ∧ _ := by
        simpa using he
      exact hd
  | right =>
    have hle : t.key x ≤ t.key z := by
      by_contra hlt
      exact absurd (hd.1 (by omega)) (by simp)
    refine ⟨fun r hr => ?_, h.after, fun d' c' x' s' rest' he => ?_⟩
    · simp only [RedBlack.before, List.mem_append, List.mem_singleton] at hr
      rcases hr with hr | hr | rfl
      · exact h.before r hr
      · exact (hleft r hr x (by simp)).trans hle
      · exact hle
    · obtain ⟨⟨rfl, -, rfl, -⟩, -⟩ : (Side.right = d' ∧ c = c' ∧ x = x' ∧ _) ∧ _ := by
        simpa using he
      exact hd

/-- The descent ends at a leaf that the key of `z` belongs at. -/
lemma insertDescend_spec (h : At t q x T ctx) (hz : z ≠ 0) (hs : Sorted t (plug T ctx))
    (hb : Belongs t z ctx) (hfuel : (nodes T).card < fuel) :
    ∃ q' ctx', t.insertDescend z fuel q x = some q' ∧ At t q' t.nil .leaf ctx' ∧
      plug .leaf ctx' = plug T ctx ∧ Belongs t z ctx' := by
  induction fuel generalizing q x T ctx with
  | zero => omega
  | succ fuel ih =>
    cases T with
    | leaf =>
      obtain rfl : x = t.nil := h.rep
      exact ⟨q, ctx, by simp [insertDescend], h, rfl, hb⟩
    | node c y ch =>
      obtain ⟨rfl, hx0, hxn, -, -⟩ := h.node
      -- the side that the test chooses
      obtain ⟨d, hd⟩ : ∃ d, (t.key z < t.key x ↔ d = Side.left) := by
        by_cases hlt : t.key z < t.key x
        · exact ⟨.left, by simp [hlt]⟩
        · exact ⟨.right, by simp [hlt]⟩
      have hcode : t.insertDescend z (fuel + 1) q x = t.insertDescend z fuel x (t.child d x) := by
        cases d with
        | left =>
          have hlt := hd.2 rfl
          simp [insertDescend, hxn, keyOf_of_ne hz, keyOf_of_ne hx0, childOf_of_ne hx0, hlt]
        | right =>
          have hlt : ¬ t.key z < t.key x := by simp [hd]
          simp [insertDescend, hxn, keyOf_of_ne hz, keyOf_of_ne hx0, childOf_of_ne hx0, hlt]
      have hplug : plug (ch d) (⟨d, c, x, ch d.flip⟩ :: ctx) = plug (.node c x ch) ctx := by
        rw [plug_cons, branch_eta]
      rw [nodes_node d, Multiset.card_cons, Multiset.card_add] at hfuel
      obtain ⟨q', ctx', hdesc, h', hpl, hb'⟩ := ih (h.down d) (by rw [hplug]; exact hs)
        (hb.down hs d hd) (by omega)
      exact ⟨q', ctx', hcode.trans hdesc, h', hpl.trans hplug, hb'⟩

/-! ## The whole function -/

/-- `z` is put in the hole that the descent has found. -/
lemma insertBelow_spec (h : RepCtx t q p ctx) (hnd : (ctxNodes ctx).Nodup) (hz : z ≠ 0)
    (hb : Belongs t z ctx) :
    ∃ t', t.insertBelow q z = some t' ∧ RepCtx t' q z ctx ∧ t'.nil = t.nil ∧ t'.key = t.key ∧
      t'.color = t.color ∧ t'.parent = t.parent := by
  cases ctx with
  | nil =>
    obtain ⟨rfl, -⟩ := h
    exact ⟨{ t with root := z }, by simp [insertBelow], ⟨rfl, rfl⟩, rfl, rfl, rfl, rfl⟩
  | cons f ctx =>
    rcases f with ⟨d, c, x, s⟩
    obtain ⟨hqx, h0, hn, -⟩ := id h
    have hside := hb.side d c x s ctx rfl
    refine ⟨t.withChild d x z, ?_, h.withChild hnd z, rfl, rfl, rfl, rfl⟩
    have hqx' : q = x := hqx
    subst hqx'
    cases d with
    | left =>
      have hlt := hside.2 rfl
      simp [insertBelow, hn, keyOf_of_ne hz, keyOf_of_ne h0, hlt, setChild_of_ne h0]
    | right =>
      have hlt : ¬ t.key z < t.key q := by simp [hside]
      simp [insertBelow, hn, keyOf_of_ne hz, keyOf_of_ne h0, hlt, setChild_of_ne h0]

/-- A new red node without children stands in the hole before the fix-up. -/
lemma insertLink_spec (h : At t q t.nil .leaf ctx) (hz : z ≠ 0) (hzn : z ≠ t.nil)
    (hzc : z ∉ ctxNodes ctx) (hb : Belongs t z ctx) :
    ∃ t', (do
        let t ← t.setParent z q
        let t ← t.insertBelow q z
        let t ← t.setChild .left z t.nil
        let t ← t.setChild .right z t.nil
        t.setColor z .red) = some t' ∧
      At t' q z (.node .red z fun _ => .leaf) ctx ∧ t'.nil = t.nil ∧ t'.key = t.key := by
  have hnd : (ctxNodes ctx).Nodup := by simpa using h.nodup
  have hne : ∀ r ∈ ctxNodes ctx, r ≠ z := by
    rintro r hr rfl
    exact hzc hr
  have hctx₁ : RepCtx (t.withParent z q) q t.nil ctx :=
    h.above.congr rfl rfl fun r hr => ⟨rfl, if_neg (hne r hr), fun _ => rfl⟩
  obtain ⟨t₂, hbelow, hctx₂, hnil₂, hkey₂, hcol₂, hpar₂⟩ := insertBelow_spec hctx₁ hnd hz
    ⟨hb.before, hb.after, hb.side⟩
  set t₃ := ((t₂.withChild .left z t₂.nil).withChild .right z t₂.nil).withColor z .red with ht₃
  have hnil₂' : t₂.nil = t.nil := hnil₂
  refine ⟨t₃, ?_, ⟨⟨rfl, hz, ?_, if_pos rfl, ?_, fun d => ?_⟩, ?_, ?_, ?_, ?_⟩, hnil₂, hkey₂⟩
  · simp only [setParent_of_ne hz, setChild_of_ne hz, setColor_of_ne hz, Option.bind_eq_bind,
      Option.bind_some, hbelow]
    rfl
  · show z ≠ t₂.nil
    rw [hnil₂']
    exact hzn
  · show t₂.parent z = q
    rw [hpar₂]
    exact if_pos rfl
  · show t₃.child d z = t₂.nil
    cases d with
    | left =>
      show (if Side.left = .right ∧ z = z then t₂.nil else
        if Side.left = .left ∧ z = z then t₂.nil else t₂.child .left z) = t₂.nil
      simp
    | right => exact if_pos ⟨rfl, rfl⟩
  · refine hctx₂.congr rfl rfl fun r hr => ⟨if_neg (hne r hr), rfl, fun d => ?_⟩
    exact (if_neg fun h' => hne r hr h'.2).trans (if_neg fun h' => hne r hr h'.2)
  · rw [nodes_node .left, nodes_leaf]
    simp only [Multiset.cons_add, Multiset.zero_add, Multiset.nodup_cons]
    exact ⟨hzc, hnd⟩
  · show t₂.nil ≠ 0
    rw [hnil₂']
    exact h.nil_ne
  · have hzn' : t₂.nil ≠ z := by rw [hnil₂']; exact hzn.symm
    show (if t₂.nil = z then Color.red else t₂.color t₂.nil) = .black
    rw [if_neg hzn', hcol₂, hnil₂']
    exact h.nil_black

/-- `rbtree_insert` of a node that is not in the tree returns a red-black tree with that node added, in
order of the keys. -/
lemma rbtreeInsert_spec (h : At t t.nil t.root T []) (hrb : IsRedBlack T) (hs : Sorted t T)
    (hz : z ≠ 0) (hzn : z ≠ t.nil) (hzT : z ∉ nodes T) (hfuel : (nodes T).card + 1 < loopFuel) :
    ∃ t' T', t.rbtreeInsert z = some t' ∧ At t' t'.nil t'.root T' [] ∧ IsRedBlack T' ∧
      Sorted t' T' ∧ nodes T' = z ::ₘ nodes T ∧ t'.nil = t.nil ∧ t'.key = t.key := by
  obtain ⟨q, ctx, hdesc, h₁, hplug, hb⟩ := insertDescend_spec h hz hs
    ⟨by simp [before], by simp [after], by simp⟩ (show (nodes T).card < loopFuel by omega)
  rw [plug_nil] at hplug
  have hnodes : nodes T = ctxNodes ctx := by
    rw [← hplug, nodes_plug, nodes_leaf, Multiset.zero_add]
  obtain ⟨t₂, hlink, h₂, hnil₂, hkey₂⟩ := insertLink_spec h₁ hz hzn (hnodes ▸ hzT) hb
  -- the new node fits but for its colour
  rw [← hplug, isRedBlack_plug_iff] at hrb
  obtain ⟨n, -, rfl, hfit⟩ := hrb
  have hrr : NoRedRed (.node .red z fun _ => (.leaf : RedBlack.Tree ℕ)) :=
    ⟨fun _ _ => rfl, fun _ => trivial⟩
  have hbh : BlackHeight (.node .red z fun _ => (.leaf : RedBlack.Tree ℕ)) 0 := ⟨0, rfl, fun _ => rfl⟩
  have hlen : ctx.length < loopFuel := by
    have hle := length_le_card_ctxNodes ctx
    rw [← hnodes] at hle
    omega
  obtain ⟨t₃, T', hloop, h₃, hne, hrb', hord, hnil₃, hkey₃⟩ := insertFixupLoop_spec h₂ hrr hbh hfit
    hlen
  cases T' with
  | leaf => exact absurd rfl hne
  | node c x ch =>
    obtain ⟨hroot, hx0, -, -, -⟩ := h₃.node
    have h₄ := h₃.withColor .black
    have hord' : inorder (.node .black x ch) = before ctx ++ [z] ++ after ctx := by
      rw [inorder_node_color .black c, hord, inorder_plug]
      rfl
    have hkey : t₃.key = t.key := hkey₃.trans hkey₂
    refine ⟨t₃.withColor x .black, _, ?_, h₄, hrb', ?_, ?_, hnil₃.trans hnil₂, hkey⟩
    · have hfix : t₂.rbtreeInsertFixup z = some (t₃.withColor x .black) := by
        simp [rbtreeInsertFixup, hloop, hroot, setColor_of_ne hx0]
      simp only [Option.bind_eq_bind, Option.bind_eq_some_iff] at hlink
      obtain ⟨a, ha, b, hb', e, he, f, hf, hg⟩ := hlink
      simp [rbtreeInsert, hdesc, ha, hb', he, hf, hg, hfix]
    · rw [Sorted, hord']
      have hs' : (before ctx ++ after ctx).Pairwise fun a b => t.key a ≤ t.key b := by
        have hin : inorder T = before ctx ++ after ctx := by
          rw [← hplug, inorder_plug]
          simp [inorder]
        rw [← hin]
        exact hs
      show (before ctx ++ [z] ++ after ctx).Pairwise fun a b => t₃.key a ≤ t₃.key b
      rw [hkey]
      obtain ⟨hb₁, ha₁, hba⟩ := List.pairwise_append.1 hs'
      refine List.pairwise_append.2 ⟨List.pairwise_append.2 ⟨hb₁, by simp, ?_⟩, ha₁, ?_⟩
      · intro r hr r' hr'
        rw [List.mem_singleton.1 hr']
        exact hb.before r hr
      · intro r hr r' hr'
        rcases List.mem_append.1 hr with hr | hr
        · exact hba r hr r' hr'
        · rw [List.mem_singleton.1 hr]
          exact hb.after r' hr'
    · have hperm : nodes (.node .black x ch) =
          ((before ctx ++ [z] ++ after ctx : List ℕ) : Multiset ℕ) := by
        rw [nodes, hord']
      have hold : nodes T = ((before ctx ++ after ctx : List ℕ) : Multiset ℕ) := by
        rw [← hplug, nodes, inorder_plug]
        simp [inorder]
      rw [hperm, hold, Multiset.cons_coe, Multiset.coe_eq_coe]
      simp

end Jarvis.RBTree
