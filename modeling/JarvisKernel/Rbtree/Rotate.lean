import JarvisKernel.Rbtree.Runs

set_option relaxedAutoImplicit false
set_option autoImplicit false

/-!
# Rotations

What the two rotations do to a tree in memory, whatever its colours are, and that they undo each other. A tree in
memory determines the fields of its nodes. So the memory is as it was if the same tree is represented again and
no field of another node was assigned to.

## Main definitions

* `Jarvis.RBTree.WellLinked` — the pointers of the tree agree.
* `Jarvis.RBTree.TakesPlace` — a node is where another one was.
* `Jarvis.RBTree.Rotates` — what is wanted of a rotation.

## Main results

* `Jarvis.RBTree.Linked.rotate_rotate` — a rotation and its opposite.
* `Jarvis.RBTree.rotates_of_wellLinked` — both rotations of the source.
-/

namespace Jarvis.RBTree

open RedBlack

variable {t t' : RBTree} {p p' q q' x y : ℕ} {c c' : Color} {d : Side} {T a b s : RedBlack.Tree ℕ}
  {ctx : List (Frame ℕ)} {l l' : List ℕ}

/-! ## The fields of a represented tree -/

/-- A subtree determines its pointer and the fields of its nodes. -/
lemma Rep.agree (h : Rep t q p T) (h' : Rep t' q p' T) (hnil : t'.nil = t.nil) :
    p' = p ∧ ∀ r ∈ nodes T, Agree t t' r := by
  induction T generalizing q p p' with
  | leaf => exact ⟨h.pointer_eq h' hnil, fun r hr => absurd hr (Multiset.notMem_zero r)⟩
  | node c x ch ih =>
    obtain ⟨rfl, -, -, hc, hq, hch⟩ := h
    obtain ⟨rfl, -, -, hc', hq', hch'⟩ := h'
    have hbelow := fun d => ih d (hch d) (hch' d)
    refine ⟨rfl, fun r hr => ?_⟩
    rw [nodes_node .left, Multiset.mem_cons, Multiset.mem_add] at hr
    rcases hr with rfl | hr | hr
    · exact ⟨hc'.trans hc.symm, hq'.trans hq.symm, fun d => (hbelow d).1⟩
    · exact (hbelow .left).2 r hr
    · exact (hbelow .right).2 r hr

/-- A context determines the node above the hole, the root and the fields of its nodes. -/
lemma RepCtx.agree (h : RepCtx t q p ctx) (h' : RepCtx t' q' p ctx) (hnil : t'.nil = t.nil) :
    q' = q ∧ t'.root = t.root ∧ ∀ r ∈ ctxNodes ctx, Agree t t' r := by
  induction ctx generalizing q q' p with
  | nil =>
    exact ⟨h'.1.trans (hnil.trans h.1.symm), h'.2.trans h.2.symm, fun r hr => absurd hr (Multiset.notMem_zero r)⟩
  | cons f ctx ih =>
    obtain ⟨hq, -, -, hc, hp, hs, hctx⟩ := h
    obtain ⟨hq', -, -, hc', hp', hs', hctx'⟩ := h'
    obtain ⟨hparent, hroot, habove⟩ := ih hctx hctx'
    obtain ⟨hsibling, hbeside⟩ := hs.agree hs' hnil
    refine ⟨hq'.trans hq.symm, hroot, fun r hr => ?_⟩
    rw [ctxNodes_cons, Multiset.mem_cons, Multiset.mem_add] at hr
    rcases hr with rfl | hr | hr
    · exact ⟨hc'.trans hc.symm, hparent, (Side.forall_iff f.side).2 ⟨hp'.trans hp.symm, hsibling⟩⟩
    · exact hbeside r hr
    · exact habove r hr

/-- Memories with the same fields are the same. -/
lemma eq_of_agree (hnil : t'.nil = t.nil) (hroot : t'.root = t.root) (hkey : t'.key = t.key)
    (h : ∀ r, Agree t t' r) : t' = t := by
  obtain ⟨key, color, parent, child, root, nil⟩ := t
  obtain ⟨key', color', parent', child', root', nil'⟩ := t'
  have hcolor : color' = color := funext fun r => (h r).color
  have hparent : parent' = parent := funext fun r => (h r).parent
  have hchild : child' = child := funext fun e => funext fun r => (h r).child e
  subst hcolor hparent hchild hnil hroot hkey
  rfl

/-! ## A rotation and its opposite -/

/-- **A rotation is undone** by the opposite rotation of the node that came up.

**Proof sketch.** The second rotation makes the tree that was there before. Its nodes have the fields that they had,
and neither rotation assigns to other nodes. -/
lemma Linked.rotate_rotate (h : Linked t q p (.node c x (branch d a (.node c' y (branch d b s)))) ctx) :
    ∃ t', t.rotate d x = some t' ∧
      Linked t' q y (.node c' y (branch d (.node c x (branch d a b)) s)) ctx ∧
      t'.nil = t.nil ∧ t'.key = t.key ∧ t'.color = t.color ∧ t'.rotate d.flip y = some t := by
  obtain ⟨t', hcode, hlinked, hnil, hkey, hcolor, hothers⟩ := h.rotate
  refine ⟨t', hcode, hlinked, hnil, hkey, hcolor, ?_⟩
  have hmirror := hlinked
  rw [← branch_flip_eq d s, ← branch_flip_eq d b a] at hmirror
  obtain ⟨t'', hcode', hback, hnil', hkey', hcolor', hothers'⟩ := hmirror.rotate
  rw [branch_flip_eq d, branch_flip_eq d] at hback hothers'
  rw [nodes_rotate] at hothers'
  obtain rfl := h.rep.1
  refine hcode'.trans (congrArg some ?_)
  have hback' : t''.nil = t.nil := hnil'.trans hnil
  obtain ⟨-, hbelow⟩ := h.rep.agree hback.rep hback'
  obtain ⟨-, hroot, habove⟩ := h.above.agree hback.above hback'
  refine eq_of_agree hback' hroot (hkey'.trans hkey) fun r => ?_
  by_cases hr : r ∈ nodes (.node c p (branch d a (.node c' y (branch d b s)))) + ctxNodes ctx
  · rcases Multiset.mem_add.1 hr with hr | hr
    · exact hbelow r hr
    · exact habove r hr
  · have hfirst := hothers r hr
    have hsecond := hothers' r hr
    exact ⟨hsecond.color.trans hfirst.color, hsecond.parent.trans hfirst.parent,
      fun e => (hsecond.child e).trans (hfirst.child e)⟩

/-! ## Well-linked trees -/

/-- The pointers of the tree agree, and lead to every node once. -/
structure WellLinked (t : RBTree) : Prop where
  /-- the traversal ends and meets no node twice -/
  traversal : ∃ l, t.Inorder t.root l ∧ l.Nodup
  nil_ne : t.nil ≠ 0
  ne_null : ∀ x, t.Reachable x → x ≠ 0
  /-- child and parent pointers agree -/
  parent_child : ∀ x, t.Reachable x → ∀ d, t.child d x ≠ t.nil → t.parent (t.child d x) = x
  parent_root : t.root ≠ t.nil → t.parent t.root = t.nil

/-- The node `y` is where `x` was: it is the root, or the child of the parent of `x` on the side of `x`. -/
structure TakesPlace (t t' : RBTree) (x y : ℕ) : Prop where
  parent : t'.parent y = t.parent x
  root : t'.root = if t.root = x then y else t.root
  above : t.root ≠ x → ∃ e, t.child e (t.parent x) = x ∧ t'.child e (t.parent x) = y

/-- What is wanted of a rotation of `x` to the side `d`, with the child `y` on the other side: the child takes the
place of `x`, which becomes its child and gets the subtree that was between them. The tree stays well linked, with
the same nodes in order and the same colours, and `back`, the opposite rotation, restores the memory. -/
structure Rotates (t t' : RBTree) (d : Side) (x y : ℕ) (back : Option RBTree) : Prop where
  up : TakesPlace t t' x y
  down : t'.child d y = x ∧ t'.parent x = y
  between : t'.child d.flip x = t.child d y
  wellLinked : t'.WellLinked
  inorder : ∀ l, t'.Inorder t'.root l ↔ t.Inorder t.root l
  color : t'.color = t.color
  restores : back = some t

/-- A traversal visits the nodes of one list only. -/
lemma Inorder.unique (h : t.Inorder p l) (h' : t.Inorder p l') : l = l' := by
  induction h generalizing l' with
  | nil =>
    cases h' with
    | nil => rfl
    | node hne _ _ => exact absurd rfl hne
  | node hne _ _ ihleft ihright =>
    cases h' with
    | nil => exact absurd rfl hne
    | node _ hleft hright => rw [ihleft hleft, ihright hright]

/-- What is traversed is represented, if the pointers agree. -/
lemma Inorder.exists_rep (hl : t.Inorder p l) (h : t.WellLinked) (hreach : p ≠ t.nil → t.Reachable p)
    (hparent : p ≠ t.nil → t.parent p = q) : ∃ T, Rep t q p T ∧ RedBlack.inorder T = l := by
  induction hl generalizing q with
  | nil => exact ⟨.leaf, rfl, rfl⟩
  | @node x l l' hne _ _ ihleft ihright =>
    have hx := hreach hne
    obtain ⟨L, hL, hinorder⟩ := ihleft (q := x) (fun hd => .child .left hx hd) (h.parent_child x hx .left)
    obtain ⟨R, hR, hinorder'⟩ := ihright (q := x) (fun hd => .child .right hx hd) (h.parent_child x hx .right)
    refine ⟨.node (t.color x) x (branch .left L R), ⟨rfl, h.ne_null x hx, hne, rfl, hparent hne,
      (Side.forall_iff .left).2 ⟨?_, ?_⟩⟩, ?_⟩
    · rw [branch_self]
      exact hL
    · rw [branch_flip]
      exact hR
    · rw [← hinorder, ← hinorder']
      rfl

/-- A well-linked tree is represented. -/
lemma WellLinked.linked (h : t.WellLinked) : ∃ T, Linked t t.nil t.root T [] := by
  obtain ⟨l, hl, hnodup⟩ := h.traversal
  obtain ⟨T, hrep, rfl⟩ := hl.exists_rep h .root h.parent_root
  exact ⟨T, hrep, ⟨rfl, rfl⟩, by simpa [nodes] using hnodup, h.nil_ne⟩

/-- The parent field of a subtree that is not empty. -/
lemma Rep.parent_eq (h : Rep t q p T) (hp : p ≠ t.nil) : t.parent p = q := by
  cases T with
  | leaf => exact absurd h hp
  | node c x ch =>
    obtain ⟨rfl, -, -, -, hq, -⟩ := h
    exact hq

/-- A represented tree is well linked. -/
lemma Linked.wellLinked (h : Linked t t.nil t.root T []) : t.WellLinked where
  traversal := ⟨_, h.rep.inorder, by simpa [nodes] using h.nodup⟩
  nil_ne := h.nil_ne
  ne_null x hx := by
    obtain ⟨q, c, ch, ctx, hat, -⟩ := hx.linked_node h
    exact hat.rep.2.1
  parent_child x hx d hd := by
    obtain ⟨q, c, ch, ctx, hat, -⟩ := hx.linked_node h
    exact (hat.down d).rep.parent_eq hd
  parent_root := h.rep.parent_eq

/-! ## The rotations of the source -/

/-- A subtree with another node at its top, in the same context. -/
lemma Linked.takesPlace (h : Linked t q x T ctx) (h' : Linked t' q y s ctx) (hnil : t'.nil = t.nil)
    (hx : x ∈ nodes T) (hparent : t.parent x = q) (hparent' : t'.parent y = q) : TakesPlace t t' x y := by
  subst hparent
  have habove := h.above
  have habove' := h'.above
  cases ctx with
  | nil =>
    have hroot : t.root = x := habove.2
    exact ⟨hparent', by rw [if_pos hroot, habove'.2], fun hne => absurd hroot hne⟩
  | cons f ctx =>
    have hne : t.root ≠ x := fun hroot =>
      Multiset.disjoint_left.1 (Multiset.nodup_add.1 h.nodup).2.2 (hroot ▸ hx) habove.root_mem
    obtain ⟨hq, -, -, -, hside, -, hctx⟩ := habove
    obtain ⟨-, -, -, -, hside', -, hctx'⟩ := habove'
    refine ⟨hparent', ?_, fun _ => ⟨f.side, ?_, ?_⟩⟩
    · rw [if_neg hne]
      exact (hctx.agree hctx' hnil).2.1
    · rw [hq, hside]
    · rw [hq, hside']

/-- A rotation at a node that has a child on the other side. -/
lemma rotates_rotate (h : t.WellLinked) (hx : t.Reachable x) (d : Side) (hy : t.child d.flip x ≠ t.nil) :
    ∃ t', t.rotate d x = some t' ∧
      Rotates t t' d x (t.child d.flip x) (t'.rotate d.flip (t.child d.flip x)) := by
  obtain ⟨T, hT⟩ := h.linked
  obtain ⟨q, c, ch, ctx, hat, hplug⟩ := hx.linked_node hT
  have hchild := (hat.down d.flip).rep
  cases hnode : ch d.flip with
  | leaf =>
    rw [hnode] at hchild
    exact absurd hchild hy
  | node c' y ch' =>
    rw [hnode] at hchild
    obtain ⟨hup, -, -, -, -, hbelow⟩ := hchild
    rw [← branch_eta d ch, hnode, ← branch_eta d ch'] at hat hplug
    obtain ⟨t', hcode, hlinked, hnil, -, hcolor, hback⟩ := hat.rotate_rotate
    refine ⟨t', hcode, ?_⟩
    rw [hup]
    -- the two nodes at the top, and the subtree between them
    obtain ⟨-, -, -, -, hparent, hsides⟩ := hlinked.rep
    have hdown := hsides d
    rw [branch_self] at hdown
    obtain ⟨hchild', -, -, -, hparent', hsides'⟩ := hdown
    have hbetween := hsides' d.flip
    rw [branch_flip] at hbetween
    have hplace := hat.takesPlace hlinked hnil (hat.rep.pointer_mem (by simp)).1 hat.rep.2.2.2.2.1 hparent
    rw [← List.append_nil ctx] at hlinked
    obtain ⟨q', p', hroot⟩ := hlinked.ascend
    obtain ⟨rfl, rfl⟩ := hroot.above
    refine ⟨hplace, ⟨hchild', hchild' ▸ hparent'⟩, ?_, hroot.wellLinked, fun l => ?_, hcolor, hback⟩
    · exact (hbelow d).pointer_eq hbetween hnil
    · have hinorder := hroot.rep.inorder
      rw [inorder_plug_congr (inorder_rotate d c c' x y _ _ _), hplug] at hinorder
      exact ⟨fun hl => hl.unique hinorder ▸ hT.rep.inorder, fun hl => hl.unique hT.rep.inorder ▸ hinorder⟩

/-- **A left rotation at a node with a right child** lifts the child to the place of the node. It keeps the tree well
linked, the order of its nodes and their colours, and a right rotation of the child restores every pointer. The same
holds with left and right exchanged. -/
theorem rotates_of_wellLinked (h : t.WellLinked) (hx : t.Reachable x) :
    (t.child .right x ≠ t.nil → ∃ t', t.rbtreeLeftRotate x = some t' ∧
        Rotates t t' .left x (t.child .right x) (t'.rbtreeRightRotate (t.child .right x))) ∧
      (t.child .left x ≠ t.nil → ∃ t', t.rbtreeRightRotate x = some t' ∧
        Rotates t t' .right x (t.child .left x) (t'.rbtreeLeftRotate (t.child .left x))) :=
  ⟨rotates_rotate h hx .left, rotates_rotate h hx .right⟩

/-- A tree of two nodes: node 2 is the root, with node 3 on its right. The sentinel is node 1. -/
def twoNodes : RBTree where
  key p := p
  color p := if p = 3 then .red else .black
  parent p := if p = 3 then 2 else 1
  child d p := if d = .right ∧ p = 2 then 3 else 1
  root := 2
  nil := 1

/-- The pointers of the two nodes agree. -/
lemma wellLinked_twoNodes : twoNodes.WellLinked := by
  have hrep : Rep twoNodes 1 2 (.node .black 2 (branch .left .leaf (.node .red 3 fun _ => .leaf))) := by
    refine ⟨rfl, by decide, by decide, rfl, rfl, (Side.forall_iff .left).2 ⟨rfl, ?_⟩⟩
    exact ⟨rfl, by decide, by decide, rfl, rfl, fun d => if_neg (by simp)⟩
  exact Linked.wellLinked ⟨hrep, ⟨rfl, rfl⟩, by decide, by decide⟩

/-- The root is rotated to the left. -/
theorem rotates_of_wellLinked_twoNodes :
    ∃ t', twoNodes.rbtreeLeftRotate 2 = some t' ∧
      Rotates twoNodes t' .left 2 3 (t'.rbtreeRightRotate 3) :=
  (rotates_of_wellLinked wellLinked_twoNodes (.root (by decide))).1 (by decide)

end Jarvis.RBTree
