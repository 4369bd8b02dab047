import Mathlib.Data.Multiset.Filter
import Mathlib.Data.Fintype.Card
import JarvisKernel.Lib.History
import JarvisKernel.Lib.Run
import JarvisKernel.Rbtree.Delete

set_option relaxedAutoImplicit false
set_option autoImplicit false

/-!
# Runs of the red-black tree

Insertions and deletions in any order, from an initialised tree. A caller inserts a node that is not in
the tree, after giving it a key, and deletes a node that is in the tree. The properties are stated on the
memory: they mention the pointers of the tree, not the tree that the memory represents.

## Main definitions

* `Jarvis.RBTree.Reachable`, `Jarvis.RBTree.BlackPath`, `Jarvis.RBTree.Inorder` — nodes, paths and the
  traversal of a tree in memory.
* `Jarvis.RBTree.IsRedBlackTree` — the red-black conditions in memory.
* `Jarvis.RBTree.Client` — a tree and the nodes its callers have put in it.

## Main results

* `Jarvis.RBTree.isRedBlackTree_of_run` — every run returns and leaves a red-black tree.
* `Jarvis.RBTree.inorder_of_run` — the tree has the nodes that were put in it, with the keys that they were
  given, in order, and a search finds them.
-/

namespace Jarvis.RBTree

open RedBlack

variable {t t' : RBTree} {p q r x y z k : ℕ} {c : Color} {d : Side} {T : RedBlack.Tree ℕ}
  {ch : Side → RedBlack.Tree ℕ} {ctx : List (Frame ℕ)} {m n fuel : ℕ}

/-! ## The tree in memory -/

/-- The nodes that can be reached from the root. -/
inductive Reachable (t : RBTree) : ℕ → Prop
  | root : t.root ≠ t.nil → Reachable t t.root
  | child {x : ℕ} (d : Side) : Reachable t x → t.child d x ≠ t.nil → Reachable t (t.child d x)

/-- A path from `x` down to `nil` meets `n` black nodes. -/
inductive BlackPath (t : RBTree) : ℕ → ℕ → Prop
  | nil : BlackPath t t.nil 0
  | node {x n : ℕ} (d : Side) : x ≠ t.nil → BlackPath t (t.child d x) n →
      BlackPath t x (n + (t.color x).weight)

/-- The in-order traversal of the subtree at `x` visits the nodes of the list. -/
inductive Inorder (t : RBTree) : ℕ → List ℕ → Prop
  | nil : Inorder t t.nil []
  | node {x : ℕ} {l l' : List ℕ} : x ≠ t.nil → Inorder t (t.child .left x) l →
      Inorder t (t.child .right x) l' → Inorder t x (l ++ x :: l')

/-- The nodes that can be reached from the root form a red-black tree. -/
structure IsRedBlackTree (t : RBTree) : Prop where
  /-- the traversal ends and meets no node twice -/
  traversal : ∃ l, t.Inorder t.root l ∧ l.Nodup
  /-- no pointer of the tree is null -/
  ne_null : ∀ x, t.Reachable x → x ≠ 0 ∧ ∀ d, t.child d x ≠ 0
  /-- child and parent pointers agree -/
  parent_child : ∀ x, t.Reachable x → ∀ d, t.child d x ≠ t.nil → t.parent (t.child d x) = x
  parent_root : t.root ≠ t.nil → t.parent t.root = t.nil
  root_black : t.color t.root = .black
  nil_black : t.color t.nil = .black
  no_red_red : ∀ x, t.Reachable x → t.color x = .red → ∀ d, t.color (t.child d x) = .black
  /-- all paths from the root to `nil` have the same number of black nodes -/
  black_height : ∃ n, ∀ m, t.BlackPath t.root m → m = n

/-- A node that can be reached is a node of the represented tree. -/
lemma Reachable.linked_node (hx : t.Reachable x) (h : Linked t t.nil t.root T []) :
    ∃ q c ch ctx, Linked t q x (.node c x ch) ctx ∧ plug (.node c x ch) ctx = T := by
  have hnode : ∀ {q p T' ctx}, Linked t q p T' ctx → p ≠ t.nil → plug T' ctx = T →
      ∃ q c ch ctx, Linked t q p (.node c p ch) ctx ∧ plug (.node c p ch) ctx = T := by
    intro q p T' ctx h' hp hT
    cases T' with
    | leaf => exact absurd h'.rep hp
    | node c y ch =>
      obtain rfl := h'.rep.1
      exact ⟨q, c, ch, ctx, h', hT⟩
  induction hx with
  | root hr => exact hnode h hr rfl
  | child d _ hd ih =>
    obtain ⟨q, c, ch, ctx, hx, hT⟩ := ih
    refine hnode (hx.down d) hd ?_
    rw [plug_cons, branch_eta]
    exact hT

/-- A node that is reached is one of the tree. -/
lemma Reachable.at_node (hx : t.Reachable x) (h : At t t.nil t.root T []) :
    ∃ q c ch ctx, At t q x (.node c x ch) ctx ∧ plug (.node c x ch) ctx = T := by
  obtain ⟨q, c, ch, ctx, hx, hT⟩ := hx.linked_node h.linked
  exact ⟨q, c, ch, ctx, hx.at h.nil_black, hT⟩

/-- All paths below a subtree have its black height. -/
lemma BlackPath.eq_blackHeight (hp : t.BlackPath p m) (h : Rep t q p T) (hn : BlackHeight T n) : m = n := by
  induction hp generalizing q T n with
  | nil =>
    cases T with
    | leaf => exact hn.symm
    | node c y ch => exact absurd h.1.symm h.2.2.1
  | node d hx _ ih =>
    cases T with
    | leaf => exact absurd h hx
    | node c y ch =>
      obtain ⟨rfl, -, -, hc, -, hch⟩ := h
      obtain ⟨k, rfl, hk⟩ := hn
      rw [hc, ih (hch d) (hk d)]

/-- The traversal visits the nodes of the represented tree in order. -/
lemma Rep.inorder (h : Rep t q p T) : t.Inorder p (RedBlack.inorder T) := by
  induction T generalizing q p with
  | leaf =>
    obtain rfl : p = t.nil := h
    exact .nil
  | node c x ch ih =>
    obtain ⟨rfl, -, hn, -, -, hch⟩ := h
    exact .node hn (ih .left (hch .left)) (ih .right (hch .right))

/-- A represented red-black tree meets the conditions in memory. -/
lemma At.isRedBlackTree (h : At t t.nil t.root T []) (hrb : IsRedBlack T) : t.IsRedBlackTree where
  traversal := by
    refine ⟨_, h.rep.inorder, ?_⟩
    simpa [nodes] using h.nodup
  ne_null := by
    intro x hx
    obtain ⟨q, c, ch, ctx, hat, -⟩ := hx.at_node h
    exact ⟨hat.node.2.1, fun d => ((hat.down d).rep.pointer h.nil_ne).1⟩
  parent_child := by
    intro x hx d hd
    obtain ⟨q, c, ch, ctx, hat, -⟩ := hx.at_node h
    refine (hat.down d).parent_eq fun hl => ?_
    have hrep := (hat.down d).rep
    rw [hl] at hrep
    exact absurd hrep hd
  parent_root := by
    intro hr
    refine h.parent_eq fun hl => ?_
    have hrep := h.rep
    rw [hl] at hrep
    exact absurd hrep hr
  root_black := by rw [h.rep.color h.nil_black, hrb.root]
  nil_black := h.nil_black
  no_red_red := by
    intro x hx hc d
    obtain ⟨q, c, ch, ctx, hat, hT⟩ := hx.at_node h
    rw [← hT] at hrb
    obtain ⟨n, hrr, -, -⟩ := isRedBlack_plug_iff.1 hrb
    rw [(hat.down d).rep.color h.nil_black]
    exact hrr.1 (hat.node.2.2.2.1.symm.trans hc) d
  black_height := by
    obtain ⟨n, hn⟩ := hrb.height
    exact ⟨n, fun m hm => hm.eq_blackHeight h.rep hn⟩

/-! ## Search -/

/-- The search loop ends at a node with the key, or at `nil` if there is none. -/
lemma searchLoop_spec (h : Rep t q p T) (hs : Sorted t T)
    (hfuel : (nodes T).card < fuel) :
    ∃ x, t.searchLoop k fuel p = some x ∧
      (x ∈ nodes T ∧ x ≠ t.nil ∧ t.key x = k ∨ x = t.nil ∧ ∀ y ∈ nodes T, t.key y ≠ k) := by
  induction fuel generalizing q p T with
  | zero => omega
  | succ fuel ih =>
    cases T with
    | leaf =>
      obtain rfl : p = t.nil := h
      exact ⟨t.nil, by simp [searchLoop], .inr ⟨rfl, by simp⟩⟩
    | node c x ch =>
      obtain ⟨rfl, hp0, hpn, -, -, hch⟩ := h
      have hs' := hs
      rw [Sorted, RedBlack.inorder, List.pairwise_append, List.pairwise_cons] at hs'
      obtain ⟨hsl, ⟨hpr, hsr⟩, hlp⟩ := hs'
      by_cases hk : k = t.key p
      · refine ⟨p, ?_, .inl ⟨?_, hpn, hk.symm⟩⟩
        · simp [searchLoop, hpn, keyOf_of_ne hp0, hk]
        · rw [nodes_node .left]
          simp
      rw [nodes_node .left, Multiset.card_cons, Multiset.card_add, Side.flip] at hfuel
      by_cases hlt : k < t.key p
      · obtain ⟨x, hcode, hx⟩ := ih (hch .left) hsl (by omega)
        refine ⟨x, by simp [searchLoop, hpn, keyOf_of_ne hp0, hk, hlt, childOf_of_ne hp0, hcode], ?_⟩
        rw [nodes_node .left, Side.flip]
        rcases hx with ⟨hx, hxn, hxk⟩ | ⟨hxn, hall⟩
        · exact .inl ⟨by simp [hx], hxn, hxk⟩
        · refine .inr ⟨hxn, fun y hy => ?_⟩
          rcases Multiset.mem_cons.1 hy with rfl | hy
          · omega
          · rcases Multiset.mem_add.1 hy with hy | hy
            · exact hall y hy
            · have := hpr y (by simpa [nodes] using hy)
              omega
      · obtain ⟨x, hcode, hx⟩ := ih (hch .right) hsr (by omega)
        refine ⟨x, by simp [searchLoop, hpn, keyOf_of_ne hp0, hk, hlt, childOf_of_ne hp0, hcode], ?_⟩
        rw [nodes_node .left, Side.flip]
        rcases hx with ⟨hx, hxn, hxk⟩ | ⟨hxn, hall⟩
        · exact .inl ⟨by simp [hx], hxn, hxk⟩
        · refine .inr ⟨hxn, fun y hy => ?_⟩
          rcases Multiset.mem_cons.1 hy with rfl | hy
          · omega
          · rcases Multiset.mem_add.1 hy with hy | hy
            · have := hlp y (by simpa [nodes] using hy) p (by simp)
              omega
            · exact hall y hy

/-- `rbtree_search` returns a node with the key, or the null pointer if there is none. -/
lemma rbtreeSearch_spec (h : At t t.nil t.root T []) (hs : Sorted t T)
    (hfuel : (nodes T).card < loopFuel) (k : ℕ) :
    (∃ x ∈ nodes T, t.key x = k ∧ t.rbtreeSearch k = some x) ∨
      ((∀ x ∈ nodes T, t.key x ≠ k) ∧ t.rbtreeSearch k = some 0) := by
  obtain ⟨x, hcode, ⟨hx, hxn, hxk⟩ | ⟨hxn, hall⟩⟩ := searchLoop_spec (k := k) h.rep hs hfuel
  · exact .inl ⟨x, hx, hxk, by simp [rbtreeSearch, hcode, hxn]⟩
  · exact .inr ⟨hall, by simp [rbtreeSearch, hcode, hxn]⟩

/-! ## Runs -/

/-- A tree, and the nodes that its callers have inserted and not deleted since. -/
structure Client where
  tree : RBTree
  live : List ℕ

/-- An operation on the tree. The caller of `rbtree_insert` has assigned the key of the node. -/
inductive Op
  | insert (node key : ℕ)
  | delete (node : ℕ)

/-- Whether an operation inserts the node. -/
def Op.inserts (z : ℕ) : Op → Bool
  | .insert y _ => y == z
  | .delete _ => false

/-- The memory after `p->key = k`. -/
def withKey (t : RBTree) (p k : ℕ) : RBTree :=
  { t with key := fun r => if r = p then k else t.key r }

namespace Client

/-- The effect of an operation; `none` if it does not return. -/
def step (s : Client) : Op → Option Client
  | .insert z key => ((s.tree.withKey z key).rbtreeInsert z).map fun t => ⟨t, z :: s.live⟩
  | .delete z => (s.tree.rbtreeDelete z).map fun t => ⟨t, s.live.erase z⟩

/-- The callers' rule: a node that is inserted is an object of its own and not in the tree, and one that
is deleted is in the tree. -/
def Allowed (s : Client) : Op → Prop
  | .insert z _ => z ≠ 0 ∧ z < 2 ^ 32 ∧ z ≠ s.tree.nil ∧ z ∉ s.live
  | .delete z => z ∈ s.live

instance (s : Client) : (op : Op) → Decidable (s.Allowed op)
  | .insert z _ => inferInstanceAs (Decidable (z ≠ 0 ∧ z < 2 ^ 32 ∧ z ≠ s.tree.nil ∧ z ∉ s.live))
  | .delete z => inferInstanceAs (Decidable (z ∈ s.live))

/-- The memory represents a sorted red-black tree of the live nodes. -/
structure Valid (s : Client) (T : RedBlack.Tree ℕ) : Prop where
  at_root : At s.tree s.tree.nil s.tree.root T []
  redBlack : IsRedBlack T
  sorted : Sorted s.tree T
  nodes_eq : nodes T = (s.live : Multiset ℕ)
  nil_lt : s.tree.nil < 2 ^ 32
  live_lt : ∀ z ∈ s.live, z < 2 ^ 32

variable {s : Client}

/-- There are fewer nodes than addresses, as 0 and `nil` are none. -/
lemma Valid.card_lt (h : Valid s T) : (nodes T).card + 1 < loopFuel := by
  have hnd : (0 :: s.tree.nil :: s.live).Nodup := by
    have hlive : s.live.Nodup := by
      rw [← Multiset.coe_nodup, ← h.nodes_eq]
      simpa using h.at_root.nodup
    have hne : ∀ z ∈ s.live, z ≠ 0 ∧ z ≠ s.tree.nil := by
      intro z hz
      refine h.at_root.rep.ne ?_
      rw [h.nodes_eq]
      exact hz
    have h0 : 0 ∉ s.live := fun hz => (hne 0 hz).1 rfl
    have hn : s.tree.nil ∉ s.live := fun hz => (hne _ hz).2 rfl
    simp [hlive, h0, hn, h.at_root.nil_ne.symm]
  have hsub : 0 :: s.tree.nil :: s.live ⊆ List.range (2 ^ 32) := by
    intro z hz
    rw [List.mem_range]
    simp only [List.mem_cons] at hz
    rcases hz with rfl | rfl | hz
    · exact Nat.two_pow_pos 32
    · exact h.nil_lt
    · exact h.live_lt z hz
  have hlen := (hnd.subperm hsub).length_le
  rw [List.length_range, List.length_cons, List.length_cons] at hlen
  rw [h.nodes_eq, Multiset.coe_card, loopFuel]
  omega

/-- Assigning the key of a node that is not in the tree. -/
lemma Valid.withKey (h : Valid s T) (hz : z ∉ s.live) (k : ℕ) :
    Valid { s with tree := s.tree.withKey z k } T := by
  have hrep : At (s.tree.withKey z k) s.tree.nil s.tree.root T [] :=
    ⟨h.at_root.rep.congr rfl fun _ _ => ⟨rfl, rfl, fun _ => rfl⟩, ⟨rfl, rfl⟩, h.at_root.nodup,
      h.at_root.nil_ne, h.at_root.nil_black⟩
  refine ⟨hrep, h.redBlack, ?_, h.nodes_eq, h.nil_lt, h.live_lt⟩
  have hkey : ∀ r ∈ RedBlack.inorder T, (s.tree.withKey z k).key r = s.tree.key r := by
    intro r hr
    refine if_neg ?_
    rintro rfl
    apply hz
    rw [← Multiset.mem_coe, ← h.nodes_eq]
    exact hr
  refine List.Pairwise.imp_of_mem (fun {a b} ha hb hab => ?_) h.sorted
  rw [hkey a ha, hkey b hb]
  exact hab

/-- Each live node has the key that it was given when it was inserted last. -/
def Keyed (ops : List Op) (s : Client) : Prop :=
  ∀ z ∈ s.live, History.last (Op.inserts z) ops = some (.insert z (s.tree.key z))

/-- Every allowed operation returns and keeps the tree valid. A node that is live afterwards was inserted by it
with the key that it has, or was live before with the same key. -/
lemma Valid.step (h : Valid s T) {op : Op} (hop : s.Allowed op) :
    ∃ s' T', s.step op = some s' ∧ Valid s' T' ∧ ∀ r ∈ s'.live,
      op = .insert r (s'.tree.key r) ∨ op.inserts r = false ∧ r ∈ s.live ∧ s'.tree.key r = s.tree.key r := by
  cases op with
  | insert z k =>
    obtain ⟨hz0, hzlt, hzn, hzl⟩ := hop
    have h₁ := h.withKey hzl k
    have hzT : z ∉ nodes T := by
      rw [h.nodes_eq]
      exact hzl
    obtain ⟨t', T', hcode, hat, hrb, hs, hnodes, hnil, hkey⟩ := rbtreeInsert_spec h₁.at_root h₁.redBlack
      h₁.sorted hz0 hzn hzT h.card_lt
    refine ⟨⟨t', z :: s.live⟩, T', ?_, ⟨hat, hrb, hs, ?_, ?_, ?_⟩, ?_⟩
    · rw [Client.step, hcode]
      rfl
    · rw [hnodes, h.nodes_eq]
      rfl
    · exact hnil ▸ h.nil_lt
    · intro r hr
      rcases List.mem_cons.1 hr with rfl | hr
      · exact hzlt
      · exact h.live_lt r hr
    · intro r hr
      rw [hkey]
      rcases List.mem_cons.1 hr with rfl | hr
      · left
        rw [show (s.tree.withKey r k).key r = k from if_pos rfl]
      · have hrz : r ≠ z := fun hrz => hzl (hrz ▸ hr)
        exact .inr ⟨beq_eq_false_iff_ne.2 hrz.symm, hr, if_neg hrz⟩
  | delete z =>
    have hzT : z ∈ nodes T := by
      rw [h.nodes_eq]
      exact hop
    obtain ⟨t', T', hcode, hat, hrb, hs, hnodes, hnil, hkey⟩ := rbtreeDelete_spec h.at_root h.redBlack
      h.sorted hzT h.card_lt
    refine ⟨⟨t', s.live.erase z⟩, T', ?_, ⟨hat, hrb, hs, ?_, ?_, ?_⟩, ?_⟩
    · rw [Client.step, hcode]
      rfl
    · rw [← Multiset.coe_erase, ← h.nodes_eq, hnodes, Multiset.erase_cons_head]
    · exact hnil ▸ h.nil_lt
    · exact fun r hr => h.live_lt r (List.mem_of_mem_erase hr)
    · exact fun r hr => .inr ⟨rfl, List.mem_of_mem_erase hr, by rw [hkey]⟩

/-- One more operation keeps the keys that the live nodes were given. -/
lemma Keyed.concat {s' : Client} {ops : List Op} {op : Op} (h : Keyed ops s)
    (hlive : ∀ r ∈ s'.live, op = .insert r (s'.tree.key r) ∨
      op.inserts r = false ∧ r ∈ s.live ∧ s'.tree.key r = s.tree.key r) : Keyed (ops ++ [op]) s' := by
  intro r hr
  rw [History.last_concat]
  rcases hlive r hr with hop | ⟨hop, hold, hkey⟩
  · have hins : op.inserts r = true := by
      rw [hop]
      exact beq_self_eq_true r
    rw [if_pos hins]
    exact congrArg some hop
  · rw [hop, if_neg Bool.false_ne_true, hkey]
    exact h r hold

/-- An initialised tree is valid and empty. -/
lemma valid_rbtreeInit {t₀ : RBTree} {nil : ℕ} (h : t₀.rbtreeInit nil = some t)
    (hnil : nil < 2 ^ 32) : Valid ⟨t, []⟩ .leaf := by
  have hn0 : nil ≠ 0 := by
    rintro rfl
    simp [rbtreeInit, setColor] at h
  simp only [rbtreeInit, setColor_of_ne hn0, Option.bind_eq_bind, Option.bind_some,
    Option.pure_def] at h
  simp only [show ({ t₀ with nil := nil } : RBTree).withColor nil .black =
    { t₀ with nil := nil, color := fun r => if r = nil then .black else t₀.color r } from rfl,
    setChild_of_ne hn0, Option.bind_some, setParent_of_ne hn0, RBTree.withChild, RBTree.withParent,
    Option.some.injEq] at h
  subst h
  exact ⟨⟨rfl, ⟨rfl, rfl⟩, by simp, hn0, if_pos rfl⟩, ⟨rfl, trivial, 0, rfl⟩, .nil, rfl, hnil,
    by simp⟩

/-- Every run of allowed operations returns and leaves a valid tree, whose nodes have the keys that they were
given. -/
lemma valid_of_run {t₀ : RBTree} {nil : ℕ} (h : t₀.rbtreeInit nil = some t) (hnil : nil < 2 ^ 32)
    {ops : List Op} (hops : Run.Follows step Allowed ⟨t, []⟩ ops) :
    ∃ s T, Run.exec step ⟨t, []⟩ ops = some s ∧ Valid s T ∧ Keyed ops s := by
  have hstep : ∀ ops s op, (∃ T, Valid s T) ∧ Keyed ops s → Allowed s op → ∃ s', step s op = some s' ∧
      (∃ T, Valid s' T) ∧ Keyed (ops ++ [op]) s' := by
    rintro ops s op ⟨⟨T, hs⟩, hkeyed⟩ hop
    obtain ⟨s', T', hcode, hs', hlive⟩ := hs.step hop
    exact ⟨s', hcode, ⟨T', hs'⟩, hkeyed.concat hlive⟩
  have hinit : (∃ T, Valid ⟨t, []⟩ T) ∧ Keyed [] ⟨t, []⟩ :=
    ⟨⟨.leaf, valid_rbtreeInit h hnil⟩, fun z hz => absurd hz List.not_mem_nil⟩
  obtain ⟨s, hexec, ⟨T, hs⟩, hkeyed⟩ := Run.exec_of_step_history hstep hinit hops
  exact ⟨s, T, hexec, hs, hkeyed⟩

end Client

/-- Every run of insertions and deletions from an initialised tree returns and leaves a red-black
tree: the loops end, and no null pointer is followed. -/
theorem isRedBlackTree_of_run {t₀ : RBTree} {nil : ℕ} (h : t₀.rbtreeInit nil = some t)
    (hnil : nil < 2 ^ 32) {ops : List Op}
    (hops : Run.Follows Client.step Client.Allowed ⟨t, []⟩ ops) :
    ∃ s, Run.exec Client.step ⟨t, []⟩ ops = some s ∧ s.tree.IsRedBlackTree := by
  obtain ⟨s, T, hexec, hs, -⟩ := Client.valid_of_run h hnil hops
  exact ⟨s, hexec, hs.at_root.isRedBlackTree hs.redBlack⟩

/-- A memory before anything is stored in it. -/
def blank : RBTree := ⟨fun _ => 0, fun _ => .red, fun _ => 0, fun _ _ => 0, 0, 0⟩

/-- Insertions with equal keys, then the deletion of the root, of an inner node and of a leaf. -/
def mixedOps : List Op :=
  [.insert 1 50, .insert 2 30, .insert 3 70, .insert 4 30, .insert 5 60, .insert 6 80, .insert 7 30,
    .delete 1, .delete 2, .delete 6, .insert 1 10]

/-- The mixed run leaves a red-black tree. -/
theorem isRedBlackTree_of_run_mixedOps :
    ∃ t, blank.rbtreeInit 9 = some t ∧ Run.Follows Client.step Client.Allowed ⟨t, []⟩ mixedOps ∧
      ∃ s, Run.exec Client.step ⟨t, []⟩ mixedOps = some s ∧ s.tree.IsRedBlackTree := by
  refine ⟨_, rfl, by decide +kernel, ?_⟩
  exact isRedBlackTree_of_run (show blank.rbtreeInit 9 = some _ from rfl) (by decide)
    (by decide +kernel)

/-- After every run of insertions and deletions from an initialised tree the traversal lists the live
nodes, each once, in non-decreasing order of their keys. Each of them has the key that the run gave it when it
inserted it last, and a search returns a live node with the key if there is one and the null pointer
otherwise. -/
theorem inorder_of_run {t₀ : RBTree} {nil : ℕ} (h : t₀.rbtreeInit nil = some t)
    (hnil : nil < 2 ^ 32) {ops : List Op}
    (hops : Run.Follows Client.step Client.Allowed ⟨t, []⟩ ops) :
    ∃ s, Run.exec Client.step ⟨t, []⟩ ops = some s ∧
      (∃ l, s.tree.Inorder s.tree.root l ∧ l.Perm s.live ∧ l.Nodup ∧
        l.Pairwise fun a b => s.tree.key a ≤ s.tree.key b) ∧
      (∀ z ∈ s.live, History.last (Op.inserts z) ops = some (.insert z (s.tree.key z))) ∧
      ∀ k, (∃ x ∈ s.live, s.tree.key x = k ∧ s.tree.rbtreeSearch k = some x) ∨
        ((∀ x ∈ s.live, s.tree.key x ≠ k) ∧ s.tree.rbtreeSearch k = some 0) := by
  obtain ⟨s, T, hexec, hs, hkeyed⟩ := Client.valid_of_run h hnil hops
  refine ⟨s, hexec, ⟨_, hs.at_root.rep.inorder, ?_, ?_, hs.sorted⟩, hkeyed, fun k => ?_⟩
  · exact Multiset.coe_eq_coe.1 hs.nodes_eq
  · simpa [nodes] using hs.at_root.nodup
  · have hcard := hs.card_lt
    have hsearch := rbtreeSearch_spec hs.at_root hs.sorted (by omega) k
    simp only [hs.nodes_eq, Multiset.mem_coe] at hsearch
    exact hsearch

/-- The mixed run leaves its live nodes in order, with their keys. -/
theorem inorder_of_run_mixedOps :
    ∃ t, blank.rbtreeInit 9 = some t ∧ Run.Follows Client.step Client.Allowed ⟨t, []⟩ mixedOps ∧
      ∃ s, Run.exec Client.step ⟨t, []⟩ mixedOps = some s ∧
        (∃ l, s.tree.Inorder s.tree.root l ∧ l.Perm s.live ∧ l.Nodup ∧
          l.Pairwise fun a b => s.tree.key a ≤ s.tree.key b) ∧
        (∀ z ∈ s.live, History.last (Op.inserts z) mixedOps = some (.insert z (s.tree.key z))) ∧
        ∀ k, (∃ x ∈ s.live, s.tree.key x = k ∧ s.tree.rbtreeSearch k = some x) ∨
          ((∀ x ∈ s.live, s.tree.key x ≠ k) ∧ s.tree.rbtreeSearch k = some 0) := by
  refine ⟨_, rfl, by decide +kernel, ?_⟩
  exact inorder_of_run (show blank.rbtreeInit 9 = some _ from rfl) (by decide) (by decide +kernel)

end Jarvis.RBTree
