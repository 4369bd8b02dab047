import JarvisKernel.Lib.RedBlack

set_option relaxedAutoImplicit false
set_option autoImplicit false

/-!
# The kernel's red-black tree

The functions of `src/kernel/kerstd/rbtree.c` on a memory of nodes. The memory has one map for each
field of `struct RBTNode`; the fields `left` and `right` are one map with the side as an argument, so
that a function of the source and its mirror image are one definition. The field `data` is not used
by the functions and is left out.

Reading or writing a field through the null pointer, which is 0, has no result, and neither has a
loop that does not end.

## Main definitions

* `Jarvis.RBTree` — the tree header and the memory of its nodes.
* `Jarvis.RBTree.rbtreeInit`, `rbtreeSearch`, `rbtreeInsert`, `rbtreeDelete`, `rbtreeMinimum`,
  `rbtreeMaximum` — the functions of the interface.
* `Jarvis.RBTree.rbtreeLeftRotate`, `rbtreeRightRotate`, `rbtreeInsertFixup`,
  `rbtreeDeleteFixup` — the static functions.
-/

namespace Jarvis

open RedBlack

/-- `RBTree` and the fields of all nodes. -/
structure RBTree where
  key : ℕ → ℕ
  color : ℕ → Color
  parent : ℕ → ℕ
  child : Side → ℕ → ℕ
  root : ℕ
  nil : ℕ

namespace RBTree

/-! ## Field access -/

/-- `p->key`. -/
def keyOf (t : RBTree) (p : ℕ) : Option ℕ := if p = 0 then none else some (t.key p)

/-- `p->color`. -/
def colorOf (t : RBTree) (p : ℕ) : Option Color := if p = 0 then none else some (t.color p)

/-- `p->parent`. -/
def parentOf (t : RBTree) (p : ℕ) : Option ℕ := if p = 0 then none else some (t.parent p)

/-- `p->left` or `p->right`. -/
def childOf (t : RBTree) (d : Side) (p : ℕ) : Option ℕ :=
  if p = 0 then none else some (t.child d p)

/-- The memory after `p->color = c`. -/
def withColor (t : RBTree) (p : ℕ) (c : Color) : RBTree :=
  { t with color := fun r => if r = p then c else t.color r }

/-- The memory after `p->parent = q`. -/
def withParent (t : RBTree) (p q : ℕ) : RBTree :=
  { t with parent := fun r => if r = p then q else t.parent r }

/-- The memory after `p->left = q` or `p->right = q`. -/
def withChild (t : RBTree) (d : Side) (p q : ℕ) : RBTree :=
  { t with child := fun e r => if e = d ∧ r = p then q else t.child e r }

/-- `p->color = c`. -/
def setColor (t : RBTree) (p : ℕ) (c : Color) : Option RBTree :=
  if p = 0 then none else some (t.withColor p c)

/-- `p->parent = q`. -/
def setParent (t : RBTree) (p q : ℕ) : Option RBTree :=
  if p = 0 then none else some (t.withParent p q)

/-- `p->left = q` or `p->right = q`. -/
def setChild (t : RBTree) (d : Side) (p q : ℕ) : Option RBTree :=
  if p = 0 then none else some (t.withChild d p q)

/-- A bound on the iterations of a loop: there are only `2 ^ 32` addresses. -/
def loopFuel : ℕ := 2 ^ 32

/-! ## Rotations -/

/-- Put `y` in the place of `x` below the parent of `x`:
`if (x->parent == nil) root = y; else if (x == x->parent->left) x->parent->left = y;
else x->parent->right = y;`. -/
def replaceChild (t : RBTree) (x y : ℕ) : Option RBTree := do
  let p ← t.parentOf x
  if p = t.nil then return { t with root := y }
  else
    let l ← t.childOf .left p
    if x = l then t.setChild .left p y else t.setChild .right p y

/-- `if (c != nil) c->parent = x;`. -/
def reparent (t : RBTree) (c x : ℕ) : Option RBTree :=
  if c = t.nil then some t else t.setParent c x

/-- The rotation of `x` towards side `d`. -/
def rotate (t : RBTree) (d : Side) (x : ℕ) : Option RBTree := do
  let y ← t.childOf d.flip x
  let t ← t.setChild d.flip x (← t.childOf d y)
  let t ← t.reparent (← t.childOf d y) x
  let t ← t.setParent y (← t.parentOf x)
  let t ← t.replaceChild x y
  let t ← t.setChild d y x
  t.setParent x y

/-- `rbtree_left_rotate`. -/
def rbtreeLeftRotate (t : RBTree) (x : ℕ) : Option RBTree := t.rotate .left x

/-- `rbtree_right_rotate`. -/
def rbtreeRightRotate (t : RBTree) (y : ℕ) : Option RBTree := t.rotate .right y

/-! ## Insertion -/

/-- `z->parent->parent`. -/
def grandparentOf (t : RBTree) (z : ℕ) : Option ℕ := do t.parentOf (← t.parentOf z)

/-- Case 2 of the insertion fix-up: an inner grandchild is rotated outwards. -/
def insertFixupInner (t : RBTree) (d : Side) (z : ℕ) : Option (RBTree × ℕ) := do
  if z = (← t.childOf d.flip (← t.parentOf z)) then
    let z ← t.parentOf z
    return (← t.rotate d z, z)
  else return (t, z)

/-- Case 3 of the insertion fix-up: an outer grandchild. -/
def insertFixupOuter (t : RBTree) (d : Side) (z : ℕ) : Option (RBTree × ℕ) := do
  let t ← t.setColor (← t.parentOf z) .black
  let t ← t.setColor (← t.grandparentOf z) .red
  return (← t.rotate d.flip (← t.grandparentOf z), z)

/-- The body of the insertion fix-up loop when the parent of `z` is on side `d`. -/
def insertFixupBranch (t : RBTree) (d : Side) (z : ℕ) : Option (RBTree × ℕ) := do
  let y ← t.childOf d.flip (← t.grandparentOf z)
  if (← t.colorOf y) = .red then
    let t ← t.setColor (← t.parentOf z) .black
    let t ← t.setColor y .black
    let t ← t.setColor (← t.grandparentOf z) .red
    return (t, ← t.grandparentOf z)
  else
    let (t, z) ← t.insertFixupInner d z
    t.insertFixupOuter d z

/-- The loop of `rbtree_insert_fixup`. -/
def insertFixupLoop : ℕ → RBTree → ℕ → Option RBTree
  | 0, _, _ => none
  | fuel + 1, t, z => do
    let p ← t.parentOf z
    if (← t.colorOf p) = .red then
      let l ← t.childOf .left (← t.parentOf p)
      let (t, z) ← t.insertFixupBranch (if p = l then .left else .right) z
      insertFixupLoop fuel t z
    else return t

/-- `rbtree_insert_fixup`. -/
def rbtreeInsertFixup (t : RBTree) (z : ℕ) : Option RBTree := do
  let t ← insertFixupLoop loopFuel t z
  t.setColor t.root .black

/-- The descent of `rbtree_insert`: the node below which `z` goes, `nil` if there is none. -/
def insertDescend (t : RBTree) (z : ℕ) : ℕ → ℕ → ℕ → Option ℕ
  | 0, _, _ => none
  | fuel + 1, y, x =>
    if x ≠ t.nil then do
      if (← t.keyOf z) < (← t.keyOf x) then insertDescend t z fuel x (← t.childOf .left x)
      else insertDescend t z fuel x (← t.childOf .right x)
    else some y

/-- The place of `z` below `y`: `if (y == nil) root = z; else if (z->key < y->key) y->left = z;
else y->right = z;`. -/
def insertBelow (t : RBTree) (y z : ℕ) : Option RBTree := do
  if y = t.nil then return { t with root := z }
  else if (← t.keyOf z) < (← t.keyOf y) then t.setChild .left y z
  else t.setChild .right y z

/-- `rbtree_insert`. -/
def rbtreeInsert (t : RBTree) (z : ℕ) : Option RBTree := do
  let y ← t.insertDescend z loopFuel t.nil t.root
  let t ← t.setParent z y
  let t ← t.insertBelow y z
  let t ← t.setChild .left z t.nil
  let t ← t.setChild .right z t.nil
  let t ← t.setColor z .red
  t.rbtreeInsertFixup z

/-! ## Deletion -/

/-- Case 1 of the deletion fix-up: a red sibling is rotated up. -/
def deleteFixupRedSibling (t : RBTree) (d : Side) (x w : ℕ) : Option (RBTree × ℕ) := do
  if (← t.colorOf w) = .red then
    let t ← t.setColor w .black
    let t ← t.setColor (← t.parentOf x) .red
    let t ← t.rotate d (← t.parentOf x)
    return (t, ← t.childOf d.flip (← t.parentOf x))
  else return (t, w)

/-- `w->left->color == RB_BLACK && w->right->color == RB_BLACK`, or its mirror image. -/
def bothBlack (t : RBTree) (d : Side) (w : ℕ) : Option Bool := do
  if (← t.colorOf (← t.childOf d w)) = .black then
    return decide ((← t.colorOf (← t.childOf d.flip w)) = .black)
  else return false

/-- Case 3 of the deletion fix-up: a red inner nephew is rotated outwards. -/
def deleteFixupInner (t : RBTree) (d : Side) (x w : ℕ) : Option (RBTree × ℕ) := do
  if (← t.colorOf (← t.childOf d.flip w)) = .black then
    let t ← t.setColor (← t.childOf d w) .black
    let t ← t.setColor w .red
    let t ← t.rotate d.flip w
    return (t, ← t.childOf d.flip (← t.parentOf x))
  else return (t, w)

/-- Case 4 of the deletion fix-up: the outer nephew is red. -/
def deleteFixupOuter (t : RBTree) (d : Side) (x w : ℕ) : Option (RBTree × ℕ) := do
  let t ← t.setColor w (← t.colorOf (← t.parentOf x))
  let t ← t.setColor (← t.parentOf x) .black
  let t ← t.setColor (← t.childOf d.flip w) .black
  let t ← t.rotate d (← t.parentOf x)
  return (t, t.root)

/-- Cases 2, 3 and 4 of the deletion fix-up, with a black sibling `w`. -/
def deleteFixupBlackSibling (t : RBTree) (d : Side) (x w : ℕ) : Option (RBTree × ℕ) := do
  if (← t.bothBlack d w) then
    let t ← t.setColor w .red
    return (t, ← t.parentOf x)
  else
    let (t, w) ← t.deleteFixupInner d x w
    t.deleteFixupOuter d x w

/-- The body of the deletion fix-up loop when `x` is on side `d` of its parent. -/
def deleteFixupBranch (t : RBTree) (d : Side) (x : ℕ) : Option (RBTree × ℕ) := do
  let w ← t.childOf d.flip (← t.parentOf x)
  let (t, w) ← t.deleteFixupRedSibling d x w
  t.deleteFixupBlackSibling d x w

/-- The loop of `rbtree_delete_fixup`, with the `x` it ends with. -/
def deleteFixupLoop : ℕ → RBTree → ℕ → Option (RBTree × ℕ)
  | 0, _, _ => none
  | fuel + 1, t, x =>
    if x = t.root then some (t, x) else do
      if (← t.colorOf x) = .black then
        let l ← t.childOf .left (← t.parentOf x)
        let (t, x) ← t.deleteFixupBranch (if x = l then .left else .right) x
        deleteFixupLoop fuel t x
      else return (t, x)

/-- `rbtree_delete_fixup`. -/
def rbtreeDeleteFixup (t : RBTree) (x : ℕ) : Option RBTree := do
  let (t, x) ← deleteFixupLoop loopFuel t x
  t.setColor x .black

/-- `rbtree_minimum` and `rbtree_maximum`: go down on side `d` as far as possible. -/
def extremum (t : RBTree) (d : Side) : ℕ → ℕ → Option ℕ
  | 0, _ => none
  | fuel + 1, node => do
    let c ← t.childOf d node
    if c ≠ t.nil then extremum t d fuel c else return node

/-- `rbtree_minimum`. -/
def rbtreeMinimum (t : RBTree) (node : ℕ) : Option ℕ := t.extremum .left loopFuel node

/-- `rbtree_maximum`. -/
def rbtreeMaximum (t : RBTree) (node : ℕ) : Option ℕ := t.extremum .right loopFuel node

/-- `z` leaves its place to `x`, and then `x->parent = z->parent;`. -/
def transplant (t : RBTree) (z x : ℕ) : Option RBTree := do
  let t ← t.replaceChild z x
  t.setParent x (← t.parentOf z)

/-- A node with at most one child, which is on side `d`, is replaced by that child. -/
def deleteByChild (t : RBTree) (d : Side) (z : ℕ) : Option (RBTree × ℕ) := do
  let x ← t.childOf d z
  let t ← t.transplant z x
  return (t, x)

/-- The successor `y` of `z` leaves its place to its right child `x` and takes over the right subtree
of `z`. -/
def detachSuccessor (t : RBTree) (z y x : ℕ) : Option RBTree := do
  if (← t.parentOf y) = z then t.setParent x y
  else
    let t ← t.transplant y x
    let t ← t.setChild .right y (← t.childOf .right z)
    t.setParent (← t.childOf .right y) y

/-- The successor `y` takes the place of `z`: its parent, its left subtree and its colour. -/
def takePlace (t : RBTree) (z y : ℕ) : Option RBTree := do
  let t ← t.transplant z y
  let t ← t.setChild .left y (← t.childOf .left z)
  let t ← t.setParent (← t.childOf .left y) y
  t.setColor y (← t.colorOf z)

/-- The part of `rbtree_delete` that takes `z` out: the tree, `x`, and `y_original_color`. -/
def deleteUnlink (t : RBTree) (z : ℕ) : Option (RBTree × ℕ × Color) := do
  let l ← t.childOf .left z
  let r ← t.childOf .right z
  if l = t.nil then
    let (t', x) ← t.deleteByChild .right z
    return (t', x, ← t.colorOf z)
  else if r = t.nil then
    let (t', x) ← t.deleteByChild .left z
    return (t', x, ← t.colorOf z)
  else
    let y ← t.rbtreeMinimum r
    let x ← t.childOf .right y
    let t' ← t.detachSuccessor z y x
    return (← t'.takePlace z y, x, ← t.colorOf y)

/-- `rbtree_delete`. -/
def rbtreeDelete (t : RBTree) (z : ℕ) : Option RBTree := do
  let (t, x, color) ← t.deleteUnlink z
  if color = .black then t.rbtreeDeleteFixup x else return t

/-! ## Initialisation and search -/

/-- `rbtree_init`, with `nil` the node that `malloc` returns; the rest of the memory is as it was. -/
def rbtreeInit (t : RBTree) (nil : ℕ) : Option RBTree := do
  let t := { t with nil := nil }
  let t ← t.setColor t.nil .black
  let t ← t.setChild .left t.nil 0
  let t ← t.setChild .right t.nil 0
  let t ← t.setParent t.nil 0
  return { t with root := t.nil }

/-- The loop of `rbtree_search`. -/
def searchLoop (t : RBTree) (key : ℕ) : ℕ → ℕ → Option ℕ
  | 0, _ => none
  | fuel + 1, current =>
    if current = t.nil then some current else do
      let k ← t.keyOf current
      if key = k then return current
      else if key < k then searchLoop t key fuel (← t.childOf .left current)
      else searchLoop t key fuel (← t.childOf .right current)

/-- `rbtree_search`; 0 is the null pointer. -/
def rbtreeSearch (t : RBTree) (key : ℕ) : Option ℕ := do
  let current ← t.searchLoop key loopFuel t.root
  return if current = t.nil then 0 else current

end RBTree

end Jarvis
