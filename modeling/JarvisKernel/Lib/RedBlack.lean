import Mathlib.Algebra.Order.Ring.Nat
import Mathlib.Data.Multiset.AddSub
import Mathlib.Data.Multiset.UnionInter
import Mathlib.Tactic.Common

set_option relaxedAutoImplicit false
set_option autoImplicit false

/-!
# Red-black trees and their contexts

Binary trees with coloured nodes over an arbitrary type of elements, the red-black conditions, and
trees with a hole (contexts). The two children of a node are a function of the side they are on, so
that the mirrored cases of the rebalancing algorithms are one case with the side as a parameter.

An algorithm that repairs a tree from the bottom up works on a subtree and its context. What the
context demands of the tree in its hole (`Fits`) does not mention that tree, so a repair step is
proved from the parts it touches: the lemmas `*_insert*` are the steps of the repair after an
insertion, with a red subtree that may stand below a red node, and `*_delete*` those after a
deletion, with a subtree whose black height is one too small.

## Main definitions

* `RedBlack.Tree`, `RedBlack.Frame`, `RedBlack.plug` — trees, contexts, and filling the hole.
* `RedBlack.inorder`, `RedBlack.nodes` — the elements, in order and as a multiset.
* `RedBlack.IsRedBlack` — the red-black conditions.
* `RedBlack.Fits` — a tree of the given black height and root colour may fill the hole.

## Main results

* `RedBlack.isRedBlack_plug_iff` — the conditions split into those of the subtree and the context.
* `RedBlack.insert_recolor`, `RedBlack.insert_outer`, `RedBlack.insert_inner`,
  `RedBlack.insert_finish` — the repair after an insertion.
* `RedBlack.delete_red_sibling`, `RedBlack.delete_recolor`, `RedBlack.delete_inner`,
  `RedBlack.delete_outer`, `RedBlack.delete_finish` — the repair after a deletion.
* `RedBlack.exists_short_of_delete` — what is left of a red-black tree when a node with at most one
  child is taken out.
-/

namespace RedBlack

/-! ## Sides, colours, trees -/

/-- The side of a child. -/
inductive Side
  | left
  | right
  deriving DecidableEq, Repr

/-- The other side. -/
def Side.flip : Side → Side
  | .left => .right
  | .right => .left

/-- The other side of the other side is the side itself. -/
@[simp] lemma Side.flip_flip (d : Side) : d.flip.flip = d := by cases d <;> rfl

/-- The other side is another one. -/
@[simp] lemma Side.flip_ne (d : Side) : d.flip ≠ d := by cases d <;> decide

/-- The same the other way round. -/
@[simp] lemma Side.ne_flip (d : Side) : d ≠ d.flip := by cases d <;> decide

/-- There are two sides. -/
lemma Side.eq_or_eq_flip (d e : Side) : e = d ∨ e = d.flip := by
  cases d <;> cases e <;> simp [Side.flip]

/-- What holds of one side and of the other holds of both. -/
lemma Side.forall_iff (d : Side) {P : Side → Prop} : (∀ e, P e) ↔ P d ∧ P d.flip := by
  refine ⟨fun h => ⟨h d, h d.flip⟩, fun h e => ?_⟩
  rcases Side.eq_or_eq_flip d e with rfl | rfl
  · exact h.1
  · exact h.2

/-- The colour of a node. -/
inductive Color
  | black
  | red
  deriving DecidableEq, Repr

/-- What a node of the colour adds to the black height. -/
def Color.weight : Color → ℕ
  | .black => 1
  | .red => 0

/-- A black node counts. -/
@[simp] lemma Color.weight_black : Color.black.weight = 1 := rfl

/-- A red node does not. -/
@[simp] lemma Color.weight_red : Color.red.weight = 0 := rfl

/-- There are two colours. -/
lemma Color.ne_red_iff {c : Color} : c ≠ .red ↔ c = .black := by cases c <;> simp

/-- Binary trees with coloured nodes. -/
inductive Tree (α : Type*)
  | leaf
  | node (c : Color) (x : α) (child : Side → Tree α)

variable {α : Type*}

/-- The children of a node, given for one side and the other. -/
def branch (d : Side) (s s' : Tree α) : Side → Tree α := fun e => if e = d then s else s'

/-- The subtree on the first side. -/
@[simp] lemma branch_self (d : Side) (s s' : Tree α) : branch d s s' d = s := if_pos rfl

/-- The subtree on the other side. -/
@[simp] lemma branch_flip (d : Side) (s s' : Tree α) : branch d s s' d.flip = s' :=
  if_neg d.flip_ne

/-- Children are put together from those of both sides. -/
lemma branch_eta (d : Side) (ch : Side → Tree α) : branch d (ch d) (ch d.flip) = ch := by
  funext e
  rcases Side.eq_or_eq_flip d e with rfl | rfl <;> simp

/-- Which side comes first does not matter. -/
lemma branch_flip_eq (d : Side) (s s' : Tree α) : branch d.flip s s' = branch d s' s := by
  funext e
  rcases Side.eq_or_eq_flip d e with rfl | rfl
  · have h := branch_flip e.flip s s'
    rw [Side.flip_flip] at h
    rw [h, branch_self]
  · rw [branch_self, branch_flip]

namespace Tree

/-- The colour of the root; leaves are black. -/
def color : Tree α → Color
  | .leaf => .black
  | .node c _ _ => c

/-- The tree with its root coloured. -/
def paint (c : Color) : Tree α → Tree α
  | .leaf => .leaf
  | .node _ x ch => .node c x ch

/-- Leaves are black. -/
@[simp] lemma color_leaf : (leaf : Tree α).color = .black := rfl

/-- The colour of a node. -/
@[simp] lemma color_node (c : Color) (x : α) (ch : Side → Tree α) : (node c x ch).color = c := rfl

/-- A leaf is not painted. -/
@[simp] lemma paint_leaf (c : Color) : (leaf : Tree α).paint c = .leaf := rfl

/-- A node that is painted keeps its element and its children. -/
@[simp] lemma paint_node (c c' : Color) (x : α) (ch : Side → Tree α) :
    (node c x ch).paint c' = node c' x ch := rfl

/-- A tree with a black root is not changed by painting it black. -/
lemma paint_black {t : Tree α} (h : t.color = .black) : t.paint .black = t := by
  cases t with
  | leaf => rfl
  | node c x ch =>
    rw [color_node] at h
    rw [h, paint_node]

end Tree

/-- One node of a context: the side of the hole below it, its colour and element, and the subtree on
the other side. -/
structure Frame (α : Type*) where
  side : Side
  color : Color
  elem : α
  sibling : Tree α

/-- Fill the hole of a context, which is given from the hole upwards. -/
def plug : Tree α → List (Frame α) → Tree α
  | t, [] => t
  | t, f :: ctx => plug (.node f.color f.elem (branch f.side t f.sibling)) ctx

/-- Without a context there is nothing around a tree. -/
@[simp] lemma plug_nil (t : Tree α) : plug t [] = t := rfl

/-- The innermost frame becomes a node around the tree. -/
lemma plug_cons (t : Tree α) (f : Frame α) (ctx : List (Frame α)) :
    plug t (f :: ctx) = plug (.node f.color f.elem (branch f.side t f.sibling)) ctx := rfl

/-- A context in two parts. -/
lemma plug_append (t : Tree α) (ctx ctx' : List (Frame α)) :
    plug t (ctx ++ ctx') = plug (plug t ctx) ctx' := by
  induction ctx generalizing t with
  | nil => rfl
  | cons f ctx ih => exact ih _

/-- A tree with a node in the hole has a root. -/
lemma plug_ne_leaf {t : Tree α} (h : t ≠ .leaf) (ctx : List (Frame α)) : plug t ctx ≠ .leaf := by
  induction ctx generalizing t with
  | nil => exact h
  | cons f ctx ih => exact ih (by simp)

/-! ## Elements -/

/-- The elements in order. -/
def inorder : Tree α → List α
  | .leaf => []
  | .node _ x ch => inorder (ch .left) ++ x :: inorder (ch .right)

/-- The elements of a context that come before the hole. -/
def before : List (Frame α) → List α
  | [] => []
  | f :: ctx =>
    match f.side with
    | .left => before ctx
    | .right => before ctx ++ (inorder f.sibling ++ [f.elem])

/-- The elements of a context that come after the hole. -/
def after : List (Frame α) → List α
  | [] => []
  | f :: ctx =>
    match f.side with
    | .left => f.elem :: inorder f.sibling ++ after ctx
    | .right => after ctx

/-- Nothing comes before a hole on the left of all frames. -/
lemma before_eq_nil {ctx : List (Frame α)} (h : ∀ f ∈ ctx, f.side = .left) : before ctx = [] := by
  induction ctx with
  | nil => rfl
  | cons f ctx ih =>
    have hf : f.side = .left := h f (by simp)
    rw [before, hf]
    exact ih fun g hg => h g (by simp [hg])

/-- The elements in order: those before the hole, those of the tree, and those after the hole. -/
lemma inorder_plug (t : Tree α) (ctx : List (Frame α)) :
    inorder (plug t ctx) = before ctx ++ inorder t ++ after ctx := by
  induction ctx generalizing t with
  | nil => simp [before, after]
  | cons f ctx ih =>
    rw [plug_cons, ih]
    rcases f with ⟨d, c, x, s⟩
    cases d <;> simp [inorder, before, after, branch]

/-- Colours do not change the order. -/
lemma inorder_paint (c : Color) (t : Tree α) : inorder (t.paint c) = inorder t := by
  cases t <;> rfl

/-- The colour of a node does not matter to the order. -/
lemma inorder_node_color (c c' : Color) (x : α) (ch : Side → Tree α) :
    inorder (.node c x ch) = inorder (.node c' x ch) := rfl

/-- Equal orders below give equal orders of the whole tree. -/
lemma inorder_plug_congr {t t' : Tree α} (h : inorder t = inorder t') (ctx : List (Frame α)) :
    inorder (plug t ctx) = inorder (plug t' ctx) := by
  rw [inorder_plug, inorder_plug, h]

/-- The elements of a tree as a multiset. -/
def nodes (t : Tree α) : Multiset α := (inorder t : Multiset α)

/-- The elements of a context as a multiset. -/
def ctxNodes : List (Frame α) → Multiset α
  | [] => 0
  | f :: ctx => f.elem ::ₘ (nodes f.sibling + ctxNodes ctx)

/-- A leaf has no elements. -/
@[simp] lemma nodes_leaf : nodes (.leaf : Tree α) = 0 := rfl

/-- A node has its element and those of both children. -/
lemma nodes_node (d : Side) (c : Color) (x : α) (ch : Side → Tree α) :
    nodes (.node c x ch) = x ::ₘ (nodes (ch d) + nodes (ch d.flip)) := by
  have hleft : nodes (.node c x ch) = x ::ₘ (nodes (ch .left) + nodes (ch .right)) := by
    simp only [nodes, inorder, ← Multiset.coe_add, ← Multiset.cons_coe]
    rw [Multiset.add_cons]
  cases d with
  | left => exact hleft
  | right => rw [hleft, Multiset.add_comm]; rfl

/-- The same for children that are put together. -/
@[simp] lemma nodes_node_branch (d : Side) (c : Color) (x : α) (s s' : Tree α) :
    nodes (.node c x (branch d s s')) = x ::ₘ (nodes s + nodes s') := by
  rw [nodes_node d, branch_self, branch_flip]

/-- A rotation keeps the order. -/
lemma inorder_rotate (d : Side) (c c' : Color) (x y : α) (a b s : Tree α) :
    inorder (.node c' y (branch d (.node c x (branch d a b)) s)) =
      inorder (.node c x (branch d a (.node c' y (branch d b s)))) := by
  cases d <;> simp [inorder, branch]

/-- A rotation keeps the nodes. -/
lemma nodes_rotate (d : Side) (c c' : Color) (x y : α) (a b s : Tree α) :
    nodes (.node c' y (branch d (.node c x (branch d a b)) s)) =
      nodes (.node c x (branch d a (.node c' y (branch d b s)))) := by
  rw [nodes, nodes, inorder_rotate]

/-- A context without frames has no elements. -/
@[simp] lemma ctxNodes_nil : ctxNodes ([] : List (Frame α)) = 0 := rfl

/-- A frame has its element and those of the sibling. -/
@[simp] lemma ctxNodes_cons (f : Frame α) (ctx : List (Frame α)) :
    ctxNodes (f :: ctx) = f.elem ::ₘ (nodes f.sibling + ctxNodes ctx) := rfl

/-- A tree in a context has the elements of both. -/
lemma nodes_plug (t : Tree α) (ctx : List (Frame α)) :
    nodes (plug t ctx) = nodes t + ctxNodes ctx := by
  induction ctx generalizing t with
  | nil => simp
  | cons f ctx ih =>
    rw [plug_cons, ih, nodes_node_branch, ctxNodes_cons, Multiset.cons_add, Multiset.add_cons,
      Multiset.add_assoc]

/-- A context in two parts has the elements of both. -/
lemma ctxNodes_append (ctx ctx' : List (Frame α)) :
    ctxNodes (ctx ++ ctx') = ctxNodes ctx + ctxNodes ctx' := by
  induction ctx with
  | nil => simp
  | cons f ctx ih => rw [List.cons_append, ctxNodes_cons, ih, ctxNodes_cons, Multiset.cons_add,
      Multiset.add_assoc]

/-- A context has at least as many elements as frames. -/
lemma length_le_card_ctxNodes (ctx : List (Frame α)) : ctx.length ≤ (ctxNodes ctx).card := by
  induction ctx with
  | nil => simp
  | cons f ctx ih =>
    rw [List.length_cons, ctxNodes_cons, Multiset.card_cons, Multiset.card_add]
    omega

/-- Every element of a tree is the root of a subtree. -/
lemma exists_plug_of_mem {t : Tree α} {x : α} (h : x ∈ nodes t) :
    ∃ c ch ctx, t = plug (.node c x ch) ctx := by
  induction t with
  | leaf => simp at h
  | node c y ch ih =>
    rw [nodes_node .left, Multiset.mem_cons, Multiset.mem_add] at h
    rcases h with rfl | h | h
    · exact ⟨c, ch, [], rfl⟩
    · obtain ⟨c', ch', ctx, he⟩ := ih .left h
      refine ⟨c', ch', ctx ++ [⟨.left, c, y, ch .right⟩], ?_⟩
      rw [plug_append, ← he, plug_cons, plug_nil]
      exact congrArg (Tree.node c y) (branch_eta .left ch).symm
    · obtain ⟨c', ch', ctx, he⟩ := ih .right h
      refine ⟨c', ch', ctx ++ [⟨.right, c, y, ch .left⟩], ?_⟩
      rw [plug_append, ← he, plug_cons, plug_nil]
      exact congrArg (Tree.node c y) (branch_eta .right ch).symm

/-! ## The red-black conditions -/

/-- All paths from the root to a leaf have `n` black nodes. -/
def BlackHeight : Tree α → ℕ → Prop
  | .leaf, n => n = 0
  | .node c _ ch, n => ∃ k, n = k + c.weight ∧ ∀ d, BlackHeight (ch d) k

/-- No red node has a red child. -/
def NoRedRed : Tree α → Prop
  | .leaf => True
  | .node c _ ch => (c = .red → ∀ d, (ch d).color = .black) ∧ ∀ d, NoRedRed (ch d)

/-- The red-black conditions. -/
structure IsRedBlack (t : Tree α) : Prop where
  root : t.color = .black
  noRedRed : NoRedRed t
  height : ∃ n, BlackHeight t n

/-- A tree of black height `n` with a root of colour `c` may fill the hole. -/
def Fits : List (Frame α) → ℕ → Color → Prop
  | [], _, c => c = .black
  | f :: ctx, n, c => NoRedRed f.sibling ∧ BlackHeight f.sibling n ∧
      (f.color = .red → c = .black ∧ f.sibling.color = .black) ∧
      Fits ctx (n + f.color.weight) f.color

/-- The black height of a node, from that of its children. -/
lemma blackHeight_node (d : Side) {c : Color} {x : α} {s s' : Tree α} {n : ℕ}
    (h : BlackHeight s n) (h' : BlackHeight s' n) :
    BlackHeight (.node c x (branch d s s')) (n + c.weight) := by
  refine ⟨n, rfl, (Side.forall_iff d).2 ⟨?_, ?_⟩⟩
  · rwa [branch_self]
  · rwa [branch_flip]

/-- The children of a node have one black height. -/
lemma BlackHeight.child {c : Color} {x : α} {ch : Side → Tree α} {n k : ℕ}
    (h : BlackHeight (.node c x ch) n) (hn : n = k + c.weight) (d : Side) :
    BlackHeight (ch d) k := by
  obtain ⟨j, hj, hch⟩ := h
  obtain rfl : j = k := by omega
  exact hch d

/-- A node without two red ones in a row, from its children and their colours. -/
lemma noRedRed_node (d : Side) {c : Color} {x : α} {s s' : Tree α} (h : NoRedRed s)
    (h' : NoRedRed s') (hc : c = .red → s.color = .black ∧ s'.color = .black) :
    NoRedRed (.node c x (branch d s s')) := by
  refine ⟨fun hr => (Side.forall_iff d).2 ?_, (Side.forall_iff d).2 ?_⟩
  · rw [branch_self, branch_flip]
    exact hc hr
  · rw [branch_self, branch_flip]
    exact ⟨h, h'⟩

/-- The root may be painted black. -/
lemma NoRedRed.paint_black {t : Tree α} (h : NoRedRed t) : NoRedRed (t.paint .black) := by
  cases t with
  | leaf => exact h
  | node c x ch => exact ⟨by simp, h.2⟩

/-- A hole that takes a red root takes a black one. -/
lemma Fits.black {ctx : List (Frame α)} {n : ℕ} {c : Color} (h : Fits ctx n c) :
    Fits ctx n .black := by
  cases ctx with
  | nil => rfl
  | cons f ctx => exact ⟨h.1, h.2.1, fun hr => ⟨rfl, (h.2.2.1 hr).2⟩, h.2.2.2⟩

/-- The elements of a context do not matter to what it demands. -/
lemma Fits.replace_elem {d : Side} {c c' : Color} {x : α} (y : α) {s : Tree α}
    {ctx ctx' : List (Frame α)} {n : ℕ} (h : Fits (ctx ++ ⟨d, c, x, s⟩ :: ctx') n c') :
    Fits (ctx ++ ⟨d, c, y, s⟩ :: ctx') n c' := by
  induction ctx generalizing n c' with
  | nil => exact h
  | cons f ctx ih => exact ⟨h.1, h.2.1, h.2.2.1, ih h.2.2.2⟩

/-- The red-black conditions of a tree, split at a subtree. -/
lemma isRedBlack_plug_iff {t : Tree α} {ctx : List (Frame α)} :
    IsRedBlack (plug t ctx) ↔ ∃ n, NoRedRed t ∧ BlackHeight t n ∧ Fits ctx n t.color := by
  induction ctx generalizing t with
  | nil =>
    constructor
    · rintro ⟨hroot, hrr, n, hn⟩
      exact ⟨n, hrr, hn, hroot⟩
    · rintro ⟨n, hrr, hn, hroot⟩
      exact ⟨hroot, hrr, n, hn⟩
  | cons f ctx ih =>
    rw [plug_cons, ih]
    constructor
    · rintro ⟨n, hrr, ⟨k, rfl, hch⟩, hfit⟩
      have h₁ := hch f.side
      have h₂ := hch f.side.flip
      have h₃ := hrr.2 f.side
      have h₄ := hrr.2 f.side.flip
      rw [branch_self] at h₁ h₃
      rw [branch_flip] at h₂ h₄
      refine ⟨k, h₃, h₁, h₄, h₂, fun hr => ?_, hfit⟩
      have h₅ := hrr.1 hr f.side
      have h₆ := hrr.1 hr f.side.flip
      rw [branch_self] at h₅
      rw [branch_flip] at h₆
      exact ⟨h₅, h₆⟩
    · rintro ⟨n, hrr, hn, hrr', hn', hred, hfit⟩
      exact ⟨_, noRedRed_node f.side hrr hrr' hred, blackHeight_node f.side hn hn', hfit⟩

/-! ## Repair after an insertion -/

section Insert

variable {d e : Side} {p g : α} {t s u : Tree α} {ctx rest : List (Frame α)} {n : ℕ}

/-- Above a red node stands a black one. -/
lemma exists_grandparent (h : Fits (⟨d, .red, p, s⟩ :: ctx) n .black) :
    ∃ e g u rest, ctx = ⟨e, .black, g, u⟩ :: rest := by
  cases ctx with
  | nil => exact absurd h.2.2.2 (by simp [Fits])
  | cons f rest =>
    rcases f with ⟨e, c, g, u⟩
    cases c with
    | black => exact ⟨e, g, u, rest, rfl⟩
    | red => exact absurd (h.2.2.2.2.2.1 rfl).1 (by simp)

/-- Red uncle: the two children of the grandparent become black and the grandparent red. -/
lemma insert_recolor (ht : NoRedRed t) (hn : BlackHeight t n)
    (h : Fits (⟨d, .red, p, s⟩ :: ⟨e, .black, g, u⟩ :: rest) n .black) (hu : u.color = .red) :
    NoRedRed (.node .red g (branch e (.node .black p (branch d t s)) (u.paint .black))) ∧
      BlackHeight (.node .red g (branch e (.node .black p (branch d t s)) (u.paint .black)))
        (n + 1) ∧ Fits rest (n + 1) .black := by
  obtain ⟨hs, hsn, -, hu', hun, -, hrest⟩ := h
  refine ⟨?_, ?_, hrest⟩
  · refine noRedRed_node e (noRedRed_node d ht hs (by simp)) hu'.paint_black fun _ => ⟨rfl, ?_⟩
    cases u <;> rfl
  · refine blackHeight_node (c := .red) e (blackHeight_node (c := .black) d hn hsn) ?_
    cases u with
    | leaf => simp at hu
    | node c x ch =>
      rw [Tree.color_node] at hu
      subst hu
      exact ⟨n, rfl, fun d => hun.child rfl d⟩

/-- Black uncle, outer grandchild: one rotation. -/
lemma insert_outer (ht : NoRedRed t) (hn : BlackHeight t n)
    (h : Fits (⟨d, .red, p, s⟩ :: ⟨d, .black, g, u⟩ :: rest) n .black) (hu : u.color = .black) :
    IsRedBlack (plug (.node .black p (branch d t (.node .red g (branch d s u)))) rest) := by
  obtain ⟨hs, hsn, hsc, hu', hun, -, hrest⟩ := h
  refine isRedBlack_plug_iff.2 ⟨n + 1, ?_, ?_, hrest⟩
  · exact noRedRed_node d ht (noRedRed_node d hs hu' fun _ => ⟨(hsc rfl).2, hu⟩) (by simp)
  · exact blackHeight_node (c := .black) d hn (blackHeight_node (c := .red) d hsn hun)

/-- Black uncle, inner grandchild: two rotations. -/
lemma insert_inner {z : α} {ch : Side → Tree α} (ht : NoRedRed (.node .red z ch))
    (hn : BlackHeight (.node .red z ch) n)
    (h : Fits (⟨e.flip, .red, p, s⟩ :: ⟨e, .black, g, u⟩ :: rest) n .black)
    (hu : u.color = .black) :
    IsRedBlack (plug (.node .black z (branch e (.node .red p (branch e s (ch e)))
      (.node .red g (branch e (ch e.flip) u)))) rest) := by
  obtain ⟨hs, hsn, hsc, hu', hun, -, hrest⟩ := h
  have hch : ∀ d, BlackHeight (ch d) n := fun d => hn.child rfl d
  refine isRedBlack_plug_iff.2 ⟨n + 1, ?_, ?_, hrest⟩
  · refine noRedRed_node e (noRedRed_node e hs (ht.2 e) fun _ => ?_)
      (noRedRed_node e (ht.2 e.flip) hu' fun _ => ?_) (by simp)
    · exact ⟨(hsc rfl).2, ht.1 rfl e⟩
    · exact ⟨ht.1 rfl e.flip, hu⟩
  · exact blackHeight_node (c := .black) e (blackHeight_node (c := .red) e hsn (hch e))
      (blackHeight_node (c := .red) e (hch e.flip) hun)

/-- Below a black node, or at the root once it is black, a red subtree is in order. -/
lemma insert_finish {f : Frame α} (ht : NoRedRed t) (hn : BlackHeight t n)
    (h : Fits (f :: ctx) n .black) (hf : f.color = .black) : IsRedBlack (plug t (f :: ctx)) := by
  refine isRedBlack_plug_iff.2 ⟨n, ht, hn, h.1, h.2.1, fun hr => ?_, h.2.2.2⟩
  rw [hf] at hr
  simp at hr

/-- The root may be painted black. -/
lemma isRedBlack_paint (ht : NoRedRed t) (hn : BlackHeight t n) : IsRedBlack (t.paint .black) := by
  refine ⟨by cases t <;> rfl, ht.paint_black, ?_⟩
  cases t with
  | leaf => exact ⟨0, rfl⟩
  | node c x ch =>
    obtain ⟨k, -, hch⟩ := hn
    exact ⟨k + 1, k, rfl, hch⟩

end Insert

/-! ## Repair after a deletion -/

section Delete

variable {d : Side} {c : Color} {p y : α} {t : Tree α} {ch : Side → Tree α}
  {ctx rest : List (Frame α)} {n : ℕ}

/-- A child of a node that is taken out fits the hole, up to the colour of the node. -/
lemma exists_short_of_delete (h : IsRedBlack (plug (.node c p ch) ctx)) (d : Side) :
    ∃ n, NoRedRed (ch d) ∧ BlackHeight (ch d) n ∧ Fits ctx (n + c.weight) c ∧
      (c = .red → (ch d).color = .black) := by
  obtain ⟨n, hrr, ⟨k, rfl, hch⟩, hfit⟩ := isRedBlack_plug_iff.1 h
  exact ⟨k, hrr.2 d, hch d, hfit, fun hc => hrr.1 hc d⟩

/-- A hole that wants one black node more than the tree has leaves room for a sibling. -/
lemma exists_sibling {s : Tree α} (h : Fits (⟨d, c, p, s⟩ :: rest) (n + 1) .black) :
    ∃ cs y ch, s = .node cs y ch := by
  cases s with
  | leaf => exact absurd h.2.1 (by simp [BlackHeight])
  | node cs y ch => exact ⟨cs, y, ch, rfl⟩

/-- Red sibling: a rotation makes it the grandparent, and the new sibling is black. -/
lemma delete_red_sibling (h : Fits (⟨d, c, p, .node .red y ch⟩ :: rest) (n + 1) .black) :
    c = .black ∧ (ch d).color = .black ∧
      Fits (⟨d, .red, p, ch d⟩ :: ⟨d, .black, y, ch d.flip⟩ :: rest) (n + 1) .black := by
  obtain ⟨hrr, hn, hred, hrest⟩ := h
  have hc : c = .black := by
    cases c with
    | black => rfl
    | red => exact absurd (hred rfl).2 (by simp)
  subst hc
  have hch : ∀ e, BlackHeight (ch e) (n + 1) := fun e => hn.child rfl e
  refine ⟨rfl, hrr.1 rfl d, hrr.2 d, hch d, fun _ => ⟨rfl, hrr.1 rfl d⟩, hrr.2 d.flip, hch d.flip,
    by simp, ?_⟩
  exact hrest

/-- Black sibling with black children: it becomes red, and the whole subtree is short. -/
lemma delete_recolor (ht : NoRedRed t) (hn : BlackHeight t n)
    (h : Fits (⟨d, c, p, .node .black y ch⟩ :: rest) (n + 1) .black)
    (hch : ∀ e, (ch e).color = .black) :
    NoRedRed ((Tree.node c p (branch d t (.node .red y ch))).paint .black) ∧
      BlackHeight (.node c p (branch d t (.node .red y ch))) (n + c.weight) ∧
      Fits rest (n + c.weight + 1) .black := by
  obtain ⟨hrr, hsn, -, hrest⟩ := h
  have hsib : BlackHeight (.node .red y ch) n := ⟨n, rfl, fun e => hsn.child rfl e⟩
  refine ⟨?_, blackHeight_node d hn hsib, ?_⟩
  · exact noRedRed_node d ht ⟨fun _ => hch, hrr.2⟩ (by simp)
  · rw [Nat.add_right_comm]
    exact hrest.black

/-- Black sibling with a red inner child: a rotation makes the outer child red. -/
lemma delete_inner {v : α} {ch' : Side → Tree α}
    (h : Fits (⟨d, c, p, .node .black y ch⟩ :: rest) (n + 1) .black)
    (hin : ch d = .node .red v ch') (hout : (ch d.flip).color = .black) :
    Fits (⟨d, c, p, .node .black v (branch d (ch' d)
      (.node .red y (branch d (ch' d.flip) (ch d.flip))))⟩ :: rest) (n + 1) .black := by
  obtain ⟨hrr, hsn, -, hrest⟩ := h
  have hrr' := hrr.2 d
  have hbh' : BlackHeight (ch d) n := hsn.child rfl d
  rw [hin] at hrr' hbh'
  have hch' : ∀ e, BlackHeight (ch' e) n := fun e => hbh'.child rfl e
  have hout' : BlackHeight (ch d.flip) n := hsn.child rfl d.flip
  refine ⟨?_, ?_, fun _ => ⟨rfl, rfl⟩, hrest⟩
  · refine noRedRed_node d (hrr'.2 d)
      (noRedRed_node d (hrr'.2 d.flip) (hrr.2 d.flip) fun _ => ⟨hrr'.1 rfl d.flip, hout⟩) (by simp)
  · exact blackHeight_node (c := .black) d (hch' d)
      (blackHeight_node (c := .red) d (hch' d.flip) hout')

/-- Black sibling with a red outer child: a rotation ends the repair. -/
lemma delete_outer (ht : NoRedRed t) (hn : BlackHeight t n)
    (h : Fits (⟨d, c, p, .node .black y ch⟩ :: rest) (n + 1) .black)
    (hout : (ch d.flip).color = .red) :
    IsRedBlack (plug (.node c y (branch d (.node .black p (branch d t (ch d)))
      ((ch d.flip).paint .black))) rest) := by
  obtain ⟨hrr, hsn, -, hrest⟩ := h
  have hin : BlackHeight (ch d) n := hsn.child rfl d
  have hpaint : BlackHeight ((ch d.flip).paint .black) (n + 1) := by
    have hbh : BlackHeight (ch d.flip) n := hsn.child rfl d.flip
    cases hf : ch d.flip with
    | leaf => simp [hf] at hout
    | node c' x ch' =>
      rw [hf] at hout hbh
      rw [Tree.color_node] at hout
      subst hout
      exact ⟨n, rfl, fun e => hbh.child rfl e⟩
  refine isRedBlack_plug_iff.2 ⟨n + 1 + c.weight, ?_, ?_, hrest⟩
  · refine noRedRed_node d (noRedRed_node d ht (hrr.2 d) (by simp)) (hrr.2 d.flip).paint_black
      fun _ => ⟨rfl, ?_⟩
    cases ch d.flip <;> rfl
  · exact blackHeight_node d (blackHeight_node (c := .black) d hn hin) hpaint

/-- A short subtree with a red root is repaired by painting it, and at the root nothing is short. -/
lemma delete_finish (ht : NoRedRed (t.paint .black)) (hn : BlackHeight t n)
    (h : Fits ctx (n + 1) .black) (hdone : ctx = [] ∨ t.color = .red) :
    IsRedBlack (plug (t.paint .black) ctx) := by
  rcases hdone with rfl | hred
  · refine ⟨by cases t <;> rfl, ht, ?_⟩
    cases t with
    | leaf => exact ⟨0, rfl⟩
    | node c x ch =>
      obtain ⟨k, -, hch⟩ := hn
      exact ⟨k + 1, k, rfl, hch⟩
  · cases t with
    | leaf => simp at hred
    | node c x ch =>
      rw [Tree.color_node] at hred
      subst hred
      refine isRedBlack_plug_iff.2 ⟨n + 1, ht, ⟨n, rfl, fun e => hn.child rfl e⟩, h⟩

end Delete

end RedBlack
