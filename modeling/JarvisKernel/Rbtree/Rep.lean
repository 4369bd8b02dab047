import JarvisKernel.Rbtree.Defs

set_option relaxedAutoImplicit false
set_option autoImplicit false

/-!
# Trees in memory

The memory of the red-black tree represents a tree of node addresses, seen from a subtree and its
context. The functions of the source then act on the abstract tree: moving from a node to its parent
or to a child changes the point of view only, painting a node changes its colour, and a rotation
rotates the subtree. The memory of all other nodes is untouched, since the nodes of a tree are
distinct.

## Main definitions

* `Jarvis.RBTree.Rep`, `Jarvis.RBTree.RepCtx` — a subtree and a context in memory.
* `Jarvis.RBTree.At` — the memory holds a tree, seen from the given subtree.

## Main results

* `Jarvis.RBTree.At.up`, `Jarvis.RBTree.At.down` — moving the point of view.
* `Jarvis.RBTree.At.withColor` — painting.
* `Jarvis.RBTree.At.rotate` — rotations.
* `Jarvis.RBTree.replaceChild_spec` — putting another subtree below a context.
-/

namespace Jarvis.RBTree

open RedBlack

variable {t t' : RBTree} {p q r x y : ℕ} {c c' : Color} {d e : Side} {T a b s : RedBlack.Tree ℕ}
  {ch : Side → RedBlack.Tree ℕ} {f : Frame ℕ} {ctx : List (Frame ℕ)}

/-! ## Field access through pointers that are not null -/

/-- The key of a node is read, if the pointer is not `NULL`. -/
lemma keyOf_of_ne (h : p ≠ 0) : t.keyOf p = some (t.key p) := if_neg h

/-- So is its colour. -/
lemma colorOf_of_ne (h : p ≠ 0) : t.colorOf p = some (t.color p) := if_neg h

/-- And its parent. -/
lemma parentOf_of_ne (h : p ≠ 0) : t.parentOf p = some (t.parent p) := if_neg h

/-- And its child. -/
lemma childOf_of_ne (h : p ≠ 0) : t.childOf d p = some (t.child d p) := if_neg h

/-- A node is painted, if the pointer is not `NULL`. -/
lemma setColor_of_ne (h : p ≠ 0) : t.setColor p c = some (t.withColor p c) := if_neg h

/-- It gets another parent. -/
lemma setParent_of_ne (h : p ≠ 0) : t.setParent p q = some (t.withParent p q) := if_neg h

/-- And another child. -/
lemma setChild_of_ne (h : p ≠ 0) : t.setChild d p q = some (t.withChild d p q) := if_neg h

/-- Painting changes no parent. -/
@[simp] lemma parent_withColor : (t.withColor p c).parent = t.parent := rfl

/-- Nor a child. -/
@[simp] lemma child_withColor : (t.withColor p c).child = t.child := rfl

/-! ## Representation -/

/-- The subtree at `p`, below the parent `q`, is `T`. -/
def Rep (t : RBTree) : ℕ → ℕ → RedBlack.Tree ℕ → Prop
  | _, p, .leaf => p = t.nil
  | q, p, .node c x ch => p = x ∧ x ≠ 0 ∧ x ≠ t.nil ∧ t.color x = c ∧ t.parent x = q ∧
      ∀ d, Rep t x (t.child d x) (ch d)

/-- The nodes above `p`, of which `q` is the first, are the context. -/
def RepCtx (t : RBTree) : ℕ → ℕ → List (Frame ℕ) → Prop
  | q, p, [] => q = t.nil ∧ t.root = p
  | q, p, f :: ctx => q = f.elem ∧ f.elem ≠ 0 ∧ f.elem ≠ t.nil ∧ t.color f.elem = f.color ∧
      t.child f.side f.elem = p ∧ Rep t f.elem (t.child f.side.flip f.elem) f.sibling ∧
      RepCtx t (t.parent f.elem) f.elem ctx

/-- The memory holds the tree `plug T ctx`, with `T` at `p` below `q`. -/
structure At (t : RBTree) (q p : ℕ) (T : RedBlack.Tree ℕ) (ctx : List (Frame ℕ)) : Prop where
  rep : Rep t q p T
  above : RepCtx t q p ctx
  nodup : (nodes T + ctxNodes ctx).Nodup
  nil_ne : t.nil ≠ 0
  nil_black : t.color t.nil = .black

/-- The same, whatever the colour of `nil` is. -/
structure Linked (t : RBTree) (q p : ℕ) (T : RedBlack.Tree ℕ) (ctx : List (Frame ℕ)) : Prop where
  rep : Rep t q p T
  above : RepCtx t q p ctx
  nodup : (nodes T + ctxNodes ctx).Nodup
  nil_ne : t.nil ≠ 0

/-- A tree in memory is linked. -/
lemma At.linked (h : At t q p T ctx) : Linked t q p T ctx := ⟨h.rep, h.above, h.nodup, h.nil_ne⟩

/-- A linked tree is in memory if `nil` is black. -/
lemma Linked.at (h : Linked t q p T ctx) (hnil : t.color t.nil = .black) : At t q p T ctx :=
  ⟨h.rep, h.above, h.nodup, h.nil_ne, hnil⟩

/-- The tree fields of a node are the same. -/
structure Agree (t t' : RBTree) (r : ℕ) : Prop where
  color : t'.color r = t.color r
  parent : t'.parent r = t.parent r
  child : ∀ d, t'.child d r = t.child d r

/-- A subtree is still there if its nodes have not changed. -/
lemma Rep.congr (h : Rep t q p T) (hnil : t'.nil = t.nil) (ha : ∀ r ∈ nodes T, Agree t t' r) :
    Rep t' q p T := by
  induction T generalizing q p with
  | leaf =>
    rw [Rep] at h ⊢
    rw [hnil, h]
  | node c x ch ih =>
    obtain ⟨hp, h0, hn, hc, hq, hch⟩ := h
    have hx := ha x (by rw [nodes_node .left]; simp)
    refine ⟨hp, h0, by rwa [hnil], hx.color.trans hc, hx.parent.trans hq, fun d => ?_⟩
    rw [hx.child d]
    refine ih d (hch d) fun r hr => ha r ?_
    rw [nodes_node d]
    simp [hr]

/-- So is a context. -/
lemma RepCtx.congr (h : RepCtx t q p ctx) (hnil : t'.nil = t.nil) (hroot : t'.root = t.root)
    (ha : ∀ r ∈ ctxNodes ctx, Agree t t' r) : RepCtx t' q p ctx := by
  induction ctx generalizing q p with
  | nil =>
    obtain ⟨hq, hp⟩ := h
    exact ⟨by rw [hnil, hq], by rw [hroot, hp]⟩
  | cons f ctx ih =>
    obtain ⟨hq, h0, hn, hc, hp, hs, hctx⟩ := h
    have hx := ha f.elem (by simp)
    refine ⟨hq, h0, by rwa [hnil], hx.color.trans hc, (hx.child _).trans hp, ?_, ?_⟩
    · rw [hx.child]
      exact hs.congr hnil fun r hr => ha r (by simp [hr])
    · rw [hx.parent]
      exact ih hctx fun r hr => ha r (by simp [hr])

/-- A subtree with a new parent. -/
lemma Rep.reparent (h : Rep t q p T) (hnd : (nodes T).Nodup) (hnil : t'.nil = t.nil)
    (hp : T ≠ .leaf → t'.parent p = r)
    (ha : ∀ z ∈ nodes T, t'.color z = t.color z ∧ (∀ d, t'.child d z = t.child d z) ∧
      (z ≠ p → t'.parent z = t.parent z)) : Rep t' r p T := by
  cases T with
  | leaf =>
    rw [Rep] at h ⊢
    rw [hnil, h]
  | node c x ch =>
    obtain ⟨rfl, h0, hn, hc, hq, hch⟩ := h
    have hx := ha p (by rw [nodes_node .left]; simp)
    refine ⟨rfl, h0, by rwa [hnil], hx.1.trans hc, hp (by simp), fun d => ?_⟩
    rw [hx.2.1 d]
    refine (hch d).congr hnil fun z hz => ?_
    have hz' : z ∈ nodes (.node c p ch) := by rw [nodes_node d]; simp [hz]
    have hzp : z ≠ p := by
      rintro rfl
      rw [nodes_node d, Multiset.nodup_cons] at hnd
      exact hnd.1 (by simp [hz])
    obtain ⟨h₁, h₂, h₃⟩ := ha z hz'
    exact ⟨h₁, h₃ hzp, h₂⟩

/-- Nodes of a tree are neither null nor `nil`. -/
lemma Rep.ne (h : Rep t q p T) (hr : r ∈ nodes T) : r ≠ 0 ∧ r ≠ t.nil := by
  induction T generalizing q p with
  | leaf => simp at hr
  | node c x ch ih =>
    obtain ⟨-, h0, hn, -, -, hch⟩ := h
    rw [nodes_node .left, Multiset.mem_cons, Multiset.mem_add] at hr
    rcases hr with rfl | hr | hr
    · exact ⟨h0, hn⟩
    · exact ih .left (hch .left) hr
    · exact ih .right (hch .right) hr

/-- Nodes of a context are neither null nor `nil`. -/
lemma RepCtx.ne (h : RepCtx t q p ctx) (hr : r ∈ ctxNodes ctx) : r ≠ 0 ∧ r ≠ t.nil := by
  induction ctx generalizing q p with
  | nil => simp at hr
  | cons f ctx ih =>
    obtain ⟨-, h0, hn, -, -, hs, hctx⟩ := h
    rw [ctxNodes_cons, Multiset.mem_cons, Multiset.mem_add] at hr
    rcases hr with rfl | hr | hr
    · exact ⟨h0, hn⟩
    · exact hs.ne hr
    · exact ih hctx hr

/-- The pointer to a subtree is not null, and it is `nil` or a node of the subtree. -/
lemma Rep.pointer (h : Rep t q p T) (hnil : t.nil ≠ 0) :
    p ≠ 0 ∧ (p = t.nil ∧ T = .leaf ∨ p ∈ nodes T ∧ p ≠ t.nil) := by
  cases T with
  | leaf =>
    rw [Rep] at h
    exact ⟨by rwa [h], .inl ⟨h, rfl⟩⟩
  | node c x ch =>
    obtain ⟨rfl, h0, hn, -⟩ := h
    exact ⟨h0, .inr ⟨by rw [nodes_node .left]; simp, hn⟩⟩

/-- The pointer to a subtree that is not empty leads to a node of it. -/
lemma Rep.pointer_mem (h : Rep t q p T) (hT : T ≠ .leaf) : p ∈ nodes T ∧ p ≠ 0 ∧ p ≠ t.nil := by
  cases T with
  | leaf => exact absurd rfl hT
  | node c x ch =>
    obtain ⟨rfl, h0, hn, -⟩ := h
    exact ⟨by rw [nodes_node .left]; simp, h0, hn⟩

/-- The colour of a subtree is the colour at its pointer. -/
lemma Rep.color (h : Rep t q p T) (hnil : t.color t.nil = .black) : t.color p = T.color := by
  cases T with
  | leaf =>
    rw [Rep] at h
    rw [h, hnil]
    rfl
  | node c x ch =>
    obtain ⟨rfl, -, -, hc, -⟩ := h
    exact hc

/-! ## The point of view -/

/-- From a subtree to the subtree of its parent. -/
lemma Linked.up (h : Linked t q p T (⟨d, c, x, s⟩ :: ctx)) :
    Linked t (t.parent x) x (.node c x (branch d T s)) ctx := by
  obtain ⟨hq, h0, hn, hc, hp, hs, hctx⟩ := h.above
  refine ⟨⟨rfl, h0, hn, hc, rfl, (Side.forall_iff d).2 ⟨?_, ?_⟩⟩, hctx, ?_, h.nil_ne⟩
  · rw [branch_self, hp]
    rw [← show q = x from hq]
    exact h.rep
  · rw [branch_flip]
    exact hs
  · have hnd := h.nodup
    rw [ctxNodes_cons, Multiset.add_cons] at hnd
    rw [nodes_node_branch, Multiset.cons_add, Multiset.add_assoc]
    exact hnd

/-- From a subtree to that of its parent. -/
lemma At.up (h : At t q p T (⟨d, c, x, s⟩ :: ctx)) :
    At t (t.parent x) x (.node c x (branch d T s)) ctx := h.linked.up.at h.nil_black

/-- From a subtree to one of its children. -/
lemma Linked.down (h : Linked t q p (.node c x ch) ctx) (d : Side) :
    Linked t x (t.child d x) (ch d) (⟨d, c, x, ch d.flip⟩ :: ctx) := by
  obtain ⟨rfl, h0, hn, hc, hq, hch⟩ := h.rep
  refine ⟨hch d, ⟨rfl, h0, hn, hc, rfl, hch d.flip, ?_⟩, ?_, h.nil_ne⟩
  · rw [hq]
    exact h.above
  · have hnd := h.nodup
    rw [nodes_node d, Multiset.cons_add, Multiset.add_assoc] at hnd
    rw [ctxNodes_cons, Multiset.add_cons]
    exact hnd

/-- From a subtree to a child. -/
lemma At.down (h : At t q p (.node c x ch) ctx) (d : Side) :
    At t x (t.child d x) (ch d) (⟨d, c, x, ch d.flip⟩ :: ctx) := (h.linked.down d).at h.nil_black

/-- From the hole of a context up to the subtree. -/
lemma Linked.ascend {rest : List (Frame ℕ)} (h : Linked t q p T (rest ++ ctx)) :
    ∃ q' p', Linked t q' p' (plug T rest) ctx := by
  induction rest generalizing q p T with
  | nil => exact ⟨q, p, h⟩
  | cons f rest ih =>
    rcases f with ⟨d, c, x, s⟩
    exact ih h.up

/-- The fields of the root of the subtree. -/
lemma At.node (h : At t q p (.node c x ch) ctx) :
    p = x ∧ x ≠ 0 ∧ x ≠ t.nil ∧ t.color x = c ∧ t.parent x = q := by
  obtain ⟨hp, h0, hn, hc, hq, -⟩ := h.rep
  exact ⟨hp, h0, hn, hc, hq⟩

/-- The fields of the parent of the subtree. -/
lemma At.frame (h : At t q p T (⟨d, c, x, s⟩ :: ctx)) :
    q = x ∧ x ≠ 0 ∧ x ≠ t.nil ∧ t.color x = c ∧ t.child d x = p := by
  obtain ⟨rfl, h0, hn, hc, hp, -⟩ := h.above
  exact ⟨rfl, h0, hn, hc, hp⟩

/-- The pointer of the subtree, and that of its sibling, differ. -/
lemma At.ne_sibling (h : At t q p T (⟨d, c, x, s⟩ :: ctx)) (hp : p ≠ t.nil) :
    t.child d.flip x ≠ p := by
  obtain ⟨rfl, -, -, -, -, hs, -⟩ := h.above
  intro he
  rcases (hs.pointer h.nil_ne).2 with ⟨hnil, -⟩ | ⟨hmem, -⟩
  · exact hp (he.symm.trans hnil)
  · rcases (h.rep.pointer h.nil_ne).2 with ⟨hnil, -⟩ | ⟨hmem', -⟩
    · exact hp hnil
    · rw [he] at hmem
      have hdis := (Multiset.nodup_add.1 h.nodup).2.2
      exact Multiset.disjoint_left.1 hdis hmem' (by simp [hmem])

/-! ## Painting -/

/-- Painting the root of the subtree. -/
lemma At.withColor (h : At t q p (.node c x ch) ctx) (c' : Color) :
    At (t.withColor x c') q p (.node c' x ch) ctx := by
  obtain ⟨rfl, h0, hn, hc, hq, hch⟩ := h.rep
  have hnd := h.nodup
  have hagree : ∀ r, r ≠ p → Agree t (t.withColor p c') r := by
    intro r hr
    exact ⟨if_neg hr, rfl, fun _ => rfl⟩
  have hnotin : ∀ d, p ∉ nodes (ch d) + ctxNodes ctx := by
    intro d hmem
    rw [nodes_node d, Multiset.cons_add, Multiset.nodup_cons, Multiset.add_assoc] at hnd
    rcases Multiset.mem_add.1 hmem with hm | hm
    · exact hnd.1 (by simp [hm])
    · exact hnd.1 (by simp [hm])
  refine ⟨⟨rfl, h0, hn, if_pos rfl, hq, fun d => ?_⟩, ?_, ?_, h.nil_ne, ?_⟩
  · refine (hch d).congr rfl fun r hr => hagree r ?_
    rintro rfl
    exact hnotin d (by simp [hr])
  · refine h.above.congr rfl rfl fun r hr => hagree r ?_
    rintro rfl
    exact hnotin .left (by simp [hr])
  · rw [nodes_node .left] at hnd ⊢
    exact hnd
  · exact (if_neg hn.symm).trans h.nil_black

/-! ## Relinking below a context -/

/-- Another pointer in the hole of a context. -/
lemma RepCtx.withChild (h : RepCtx t q p (⟨d, c, x, s⟩ :: ctx))
    (hnd : (ctxNodes (⟨d, c, x, s⟩ :: ctx)).Nodup) (y : ℕ) :
    RepCtx (t.withChild d x y) q y (⟨d, c, x, s⟩ :: ctx) := by
  obtain ⟨hq, h0, hn, hc, hp, hs, hctx⟩ := h
  rw [ctxNodes_cons, Multiset.nodup_cons] at hnd
  have hagree : ∀ r, r ≠ x → Agree t (t.withChild d x y) r := by
    intro r hr
    exact ⟨rfl, rfl, fun e => if_neg fun h' => hr h'.2⟩
  refine ⟨hq, h0, hn, hc, if_pos ⟨rfl, rfl⟩, ?_, ?_⟩
  · have hsib : (t.withChild d x y).child d.flip x = t.child d.flip x := if_neg (by simp)
    show Rep (t.withChild d x y) x ((t.withChild d x y).child d.flip x) s
    rw [hsib]
    refine hs.congr rfl fun r hr => hagree r ?_
    rintro rfl
    exact hnd.1 (by simp [hr])
  · refine hctx.congr rfl rfl fun r hr => hagree r ?_
    rintro rfl
    exact hnd.1 (by simp [hr])

/-- The node `x` is replaced below its parent by `y`. -/
lemma replaceChild_spec (h : RepCtx t q x ctx) (hq : t.parent x = q) (hx : x ≠ 0)
    (hxn : x ≠ t.nil) (hxc : x ∉ ctxNodes ctx) (hnd : (ctxNodes ctx).Nodup) (hnil : t.nil ≠ 0)
    (y : ℕ) :
    ∃ t', t.replaceChild x y = some t' ∧ RepCtx t' q y ctx ∧ t'.nil = t.nil ∧ t'.key = t.key ∧
      t'.color = t.color ∧ t'.parent = t.parent ∧
      ∀ r ∉ ctxNodes ctx, ∀ d, t'.child d r = t.child d r := by
  cases ctx with
  | nil =>
    obtain ⟨rfl, -⟩ := h
    refine ⟨{ t with root := y }, ?_, ⟨rfl, rfl⟩, rfl, rfl, rfl, rfl, fun _ _ _ => rfl⟩
    simp [replaceChild, parentOf_of_ne hx, hq]
  | cons f ctx =>
    rcases f with ⟨d, c, u, s⟩
    obtain ⟨hqu, h0, hn, -, hp, hs, -⟩ := id h
    -- the test `x == x->parent->left` finds the side of the frame
    have hcode : t.replaceChild x y = some (t.withChild d u y) := by
      have hsib : t.child d.flip u ≠ x := by
        intro he
        rcases (hs.pointer hnil).2 with ⟨hsn, -⟩ | ⟨hmem, -⟩
        · exact hxn (he.symm.trans hsn)
        · rw [he] at hmem
          exact hxc (by simp [hmem])
      have hpx : t.parent x = u := hq.trans hqu
      cases d with
      | left =>
        simp only at hp
        simp [replaceChild, parentOf_of_ne hx, hpx, hn, childOf_of_ne h0, hp, setChild_of_ne h0]
      | right =>
        rw [Side.flip] at hsib
        simp [replaceChild, parentOf_of_ne hx, hpx, hn, childOf_of_ne h0, hsib.symm,
          setChild_of_ne h0]
    refine ⟨_, hcode, h.withChild hnd y, rfl, rfl, rfl, rfl, fun r hr e => if_neg fun h' => ?_⟩
    exact hr (by simp [h'.2])

/-! ## Rotations -/

/-- `reparent` changes the parent of its argument, unless that is `nil`. -/
lemma reparent_spec (hp : p ≠ 0) (q : ℕ) :
    ∃ t', t.reparent p q = some t' ∧ t'.nil = t.nil ∧ t'.root = t.root ∧ t'.key = t.key ∧
      t'.color = t.color ∧ t'.child = t.child ∧
      ∀ r, t'.parent r = if r = p ∧ p ≠ t.nil then q else t.parent r := by
  unfold reparent
  by_cases hn : p = t.nil
  · rw [if_pos hn]
    refine ⟨t, rfl, rfl, rfl, rfl, rfl, rfl, fun r => ?_⟩
    rw [if_neg fun h => h.2 hn]
  · rw [if_neg hn, setParent_of_ne hp]
    refine ⟨_, rfl, rfl, rfl, rfl, rfl, rfl, fun r => ?_⟩
    by_cases hr : r = p
    · rw [if_pos ⟨hr, hn⟩]
      exact if_pos hr
    · rw [if_neg fun h => hr h.1]
      exact if_neg hr

/-- The memory after a rotation: `y` is below the context, `x` is below `y`, and the subtree at `m`
is below `x`. -/
lemma rotate_fields {m : ℕ} (hctx : RepCtx t q x ctx) (hq : t.parent x = q)
    (hy : t.child d.flip x = y) (hm : t.child d y = m) (hnil : t.nil ≠ 0) (hx0 : x ≠ 0)
    (hxn : x ≠ t.nil) (hy0 : y ≠ 0) (hm0 : m ≠ 0) (hxy : x ≠ y) (hxm : x ≠ m)
    (hxctx : x ∉ ctxNodes ctx) (hyctx : y ∉ ctxNodes ctx)
    (hmctx : m ∉ ctxNodes ctx) (hnd : (ctxNodes ctx).Nodup) :
    ∃ t', t.rotate d x = some t' ∧ RepCtx t' q y ctx ∧ t'.nil = t.nil ∧ t'.key = t.key ∧
      t'.color = t.color ∧
      (∀ r, t'.parent r = if r = x then y else if r = y then q
        else if r = m ∧ m ≠ t.nil then x else t.parent r) ∧
      ∀ e r, r ∉ ctxNodes ctx → t'.child e r =
        if e = d ∧ r = y then x else if e = d.flip ∧ r = x then m else t.child e r := by
  set t₁ := t.withChild d.flip x m with ht₁
  have hchild₁ : ∀ e r, t₁.child e r = if e = d.flip ∧ r = x then m else t.child e r :=
    fun e r => rfl
  obtain ⟨t₂, hre, hnil₂, hroot₂, hkey₂, hcol₂, hchild₂, hpar₂⟩ := reparent_spec (t := t₁) hm0 x
  set t₃ := t₂.withParent y q with ht₃
  have hpar₃ : ∀ r, t₃.parent r = if r = y then q
      else if r = m ∧ m ≠ t.nil then x else t.parent r := by
    intro r
    show (if r = y then q else t₂.parent r) = _
    rw [hpar₂]
    rfl
  have hnil₃ : t₃.nil = t.nil := hnil₂
  -- nothing of the context has changed so far
  have hctx₃ : RepCtx t₃ q x ctx := by
    refine hctx.congr hnil₂ hroot₂ fun r hr => ⟨?_, ?_, fun e => ?_⟩
    · show t₂.color r = t.color r
      rw [hcol₂]
      rfl
    · have hry : r ≠ y := fun e => hyctx (e ▸ hr)
      have hrm : r ≠ m := fun e => hmctx (e ▸ hr)
      rw [hpar₃, if_neg hry, if_neg fun h' => hrm h'.1]
    · have hrx : r ≠ x := fun e => hxctx (e ▸ hr)
      show t₂.child e r = t.child e r
      rw [hchild₂, hchild₁, if_neg fun h' => hrx h'.2]
  have hparx₃ : t₃.parent x = q := by
    rw [hpar₃, if_neg hxy, if_neg fun h' => hxm h'.1, hq]
  obtain ⟨t₄, hrc, hctx₄, hnil₄, hkey₄, hcol₄, hpar₄, hchild₄⟩ := replaceChild_spec hctx₃ hparx₃ hx0
    (by rw [hnil₃]; exact hxn) hxctx hnd (by rw [hnil₃]; exact hnil) y
  refine ⟨(t₄.withChild d y x).withParent x y, ?_, ?_, hnil₄.trans hnil₃, hkey₄.trans hkey₂, ?_,
    fun r => ?_, fun e r hr => ?_⟩
  · have hm₁ : t₁.child d y = m := by
      rw [hchild₁, if_neg fun h' => d.ne_flip h'.1, hm]
    have hpx₂ : t₂.parentOf x = some q := by
      rw [parentOf_of_ne hx0, hpar₂, if_neg fun h' => hxm h'.1]
      exact congrArg some hq
    simp [RBTree.rotate, childOf_of_ne hx0, hy, childOf_of_ne hy0, hm, setChild_of_ne hx0, ← ht₁,
      hm₁, hre, hpx₂, setParent_of_ne hy0, ← ht₃, hrc, setChild_of_ne hy0, setParent_of_ne hx0]
  · refine hctx₄.congr rfl rfl fun r hr => ⟨rfl, if_neg ?_, fun e => if_neg ?_⟩
    · exact fun e => hxctx (e ▸ hr)
    · exact fun h' => hyctx (h'.2 ▸ hr)
  · show t₄.color = t.color
    rw [hcol₄]
    exact hcol₂
  · show (if r = x then y else t₄.parent r) = _
    rw [hpar₄, hpar₃]
  · show (if e = d ∧ r = y then x else t₄.child e r) = _
    rw [hchild₄ r hr e]
    show (if e = d ∧ r = y then x else t₂.child e r) = _
    rw [hchild₂, hchild₁]

/-- A rotation in memory is a rotation of the subtree. Keys, colours and the fields of other nodes stay.

**Proof sketch.** The subtrees that were not relinked are as they were, because no node of theirs was
assigned to. The middle subtree has a new parent, and `x` and `y` have the fields that were
assigned. -/
lemma Linked.rotate (h : Linked t q p (.node c x (branch d a (.node c' y (branch d b s)))) ctx) :
    ∃ t', t.rotate d x = some t' ∧
      Linked t' q y (.node c' y (branch d (.node c x (branch d a b)) s)) ctx ∧
      t'.nil = t.nil ∧ t'.key = t.key ∧ t'.color = t.color ∧
      ∀ r ∉ nodes (.node c x (branch d a (.node c' y (branch d b s)))) + ctxNodes ctx, Agree t t' r := by
  obtain ⟨rfl, hx0, hxn, hxc, hxq, hch⟩ := h.rep
  have ha := hch d
  have hy := hch d.flip
  rw [branch_self] at ha
  rw [branch_flip] at hy
  obtain ⟨hyp, hy0, hyn, hyc, hyq, hych⟩ := hy
  have hb := hych d
  have hs := hych d.flip
  rw [branch_self] at hb
  rw [branch_flip] at hs
  -- the parts of the tree are disjoint
  have hnd := h.nodup
  simp only [nodes_node_branch, Multiset.cons_add, Multiset.add_cons, Multiset.nodup_cons,
    Multiset.nodup_add, Multiset.disjoint_add_left, Multiset.mem_cons, Multiset.mem_add,
    not_or] at hnd
  obtain ⟨⟨hxy, ⟨hxa, hxb, hxs⟩, hxctx⟩, ⟨⟨hya, hyb, hys⟩, hyctx⟩, ⟨hnda, ⟨hndb, hnds, hbs⟩, hda⟩,
    hndctx, hactx, hbctx, hsctx⟩ := hnd
  -- the middle subtree is at `m`
  obtain ⟨m, hm⟩ : ∃ m, t.child d y = m := ⟨_, rfl⟩
  rw [hm] at hb
  obtain ⟨hm0, hmcase⟩ := hb.pointer h.nil_ne
  have hmne : ∀ r, r ∉ nodes b → r ≠ t.nil → r ≠ m := by
    rintro r hr hrn rfl
    rcases hmcase with ⟨hn, -⟩ | ⟨hmem, -⟩
    · exact hrn hn
    · exact hr hmem
  have hmctx : m ∉ ctxNodes ctx := by
    intro hmem
    rcases hmcase with ⟨hn, -⟩ | ⟨hmb, -⟩
    · exact (h.above.ne hmem).2 hn
    · exact Multiset.disjoint_left.1 hbctx hmb hmem
  obtain ⟨t', hcode, hctx', hnil', hkey', hcol', hpar', hchild'⟩ := rotate_fields h.above hxq hyp hm
    h.nil_ne hx0 hxn hy0 hm0 hxy (hmne p hxb hxn) hxctx hyctx hmctx hndctx
  have hagree : ∀ r, r ≠ p → r ≠ y → r ≠ m → r ∉ ctxNodes ctx → Agree t t' r := by
    intro r hrp hry hrm hrc
    refine ⟨by rw [hcol'], ?_, fun e => ?_⟩
    · rw [hpar', if_neg hrp, if_neg hry, if_neg fun h' => hrm h'.1]
    · rw [hchild' e r hrc, if_neg fun h' => hry h'.2, if_neg fun h' => hrp h'.2]
  refine ⟨t', hcode, ⟨?_, hctx', ?_, ?_⟩, hnil', hkey', hcol', fun r hr => ?_⟩
  · refine ⟨rfl, hy0, by rw [hnil']; exact hyn, by rw [hcol']; exact hyc, ?_,
      (Side.forall_iff d).2 ⟨?_, ?_⟩⟩
    · rw [hpar', if_neg (Ne.symm hxy), if_pos rfl]
    · rw [branch_self, hchild' d y hyctx, if_pos ⟨rfl, rfl⟩]
      refine ⟨rfl, hx0, by rw [hnil']; exact hxn, by rw [hcol']; exact hxc, ?_,
        (Side.forall_iff d).2 ⟨?_, ?_⟩⟩
      · rw [hpar', if_pos rfl]
      · rw [branch_self, hchild' d p hxctx, if_neg fun h' => hxy h'.2,
          if_neg fun h' => d.ne_flip h'.1]
        refine ha.congr hnil' fun r hr => hagree r ?_ ?_ ?_ ?_
        · exact fun e => hxa (e ▸ hr)
        · exact fun e => hya (e ▸ hr)
        · exact hmne r (fun hrb => Multiset.disjoint_left.1 hda hr (by simp [hrb])) (ha.ne hr).2
        · exact fun hrc => Multiset.disjoint_left.1 hactx hr hrc
      · rw [branch_flip, hchild' d.flip p hxctx, if_neg fun h' => hxy h'.2, if_pos ⟨rfl, rfl⟩]
        refine hb.reparent hndb hnil' (fun hleaf => ?_) fun r hr => ?_
        · have hmn : m ≠ t.nil := (hb.pointer_mem hleaf).2.2
          rw [hpar', if_neg (hmne p hxb hxn).symm, if_neg (hmne y hyb hyn).symm, if_pos ⟨rfl, hmn⟩]
        · have hrc : r ∉ ctxNodes ctx := fun hrc => Multiset.disjoint_left.1 hbctx hr hrc
          have hry : r ≠ y := fun e => hyb (e ▸ hr)
          have hrp : r ≠ p := fun e => hxb (e ▸ hr)
          refine ⟨by rw [hcol'], fun e => ?_, fun hrm => ?_⟩
          · rw [hchild' e r hrc, if_neg fun h' => hry h'.2, if_neg fun h' => hrp h'.2]
          · rw [hpar', if_neg hrp, if_neg hry, if_neg fun h' => hrm h'.1]
    · rw [branch_flip, hchild' d.flip y hyctx, if_neg fun h' => d.flip_ne h'.1,
        if_neg fun h' => hxy h'.2.symm]
      refine hs.congr hnil' fun r hr => hagree r ?_ ?_ ?_ ?_
      · exact fun e => hxs (e ▸ hr)
      · exact fun e => hys (e ▸ hr)
      · exact hmne r (fun hrb => Multiset.disjoint_left.1 hbs hrb hr) (hs.ne hr).2
      · exact fun hrc => Multiset.disjoint_left.1 hsctx hr hrc
  · rw [nodes_rotate]
    exact h.nodup
  · rw [hnil']
    exact h.nil_ne
  · simp only [nodes_node_branch, Multiset.cons_add, Multiset.add_cons, Multiset.mem_cons, Multiset.mem_add,
      not_or] at hr
    obtain ⟨hrp, hry, ⟨-, hrb, -⟩, hrctx⟩ := hr
    by_cases hrm : r = m
    · -- this is `nil`, whose parent is not assigned to
      refine ⟨by rw [hcol'], ?_, fun e => ?_⟩
      · have hmn : m = t.nil := by
          by_contra hne
          rcases hmcase with ⟨hn, -⟩ | ⟨hmb, -⟩
          · exact hne hn
          · exact hrb (hrm ▸ hmb)
        rw [hpar', if_neg hrp, if_neg hry, if_neg fun h' => h'.2 hmn]
      · rw [hchild' e r hrctx, if_neg fun h' => hry h'.2, if_neg fun h' => hrp h'.2]
    · exact hagree r hrp hry hrm hrctx

/-- The same for a black `nil`, whose parent field stays. -/
lemma At.rotate (h : At t q p (.node c x (branch d a (.node c' y (branch d b s)))) ctx) :
    ∃ t', t.rotate d x = some t' ∧
      At t' q y (.node c' y (branch d (.node c x (branch d a b)) s)) ctx ∧
      t'.nil = t.nil ∧ t'.key = t.key ∧ t'.parent t.nil = t.parent t.nil := by
  obtain ⟨t', hcode, hlinked, hnil, hkey, hcolor, hothers⟩ := h.linked.rotate
  refine ⟨t', hcode, hlinked.at ?_, hnil, hkey, (hothers t.nil fun hmem => ?_).parent⟩
  · rw [hnil, hcolor]
    exact h.nil_black
  · rcases Multiset.mem_add.1 hmem with hmem | hmem
    · exact (h.rep.ne hmem).2 rfl
    · exact (h.above.ne hmem).2 rfl

end Jarvis.RBTree
