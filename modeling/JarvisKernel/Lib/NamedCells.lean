import Mathlib.Logic.Function.Basic
import Mathlib.Tactic.Common

set_option relaxedAutoImplicit false
set_option autoImplicit false

/-!
# Memory that is seen through slots

A table of slots, each of which may name a resource, and a memory that gives every resource its cells. What
a slot shows is the cells of the resource that it names. If no other slot names the resource, a cell that is
written changes in one slot only, and a resource that no slot names can be filled without anyone seeing it.

## Main definitions

* `NamedCells.view` — what a slot shows.
* `NamedCells.write` — the memory after a cell was written.

## Main results

* `NamedCells.view_write` — a cell of a resource that one slot names.
* `NamedCells.view_fill`, `NamedCells.view_put` — a resource that no slot names is filled, and put in a slot.
-/

namespace NamedCells

variable {S R C V : Type*} {m m' : S → Option R} {cells cells' : R → C → V} {s : S} {r : R}

/-- What a slot shows in a cell: nothing if it names no resource. -/
def view (m : S → Option R) (cells : R → C → V) (s : S) (c : C) : Option V :=
  (m s).map fun r => cells r c

/-- A slot that names something shows its cells. -/
lemma view_of_some (hs : m s = some r) (c : C) : view m cells s c = some (cells r c) := by
  rw [view, hs]
  rfl

/-- A slot that names nothing shows none. -/
lemma view_of_none (hs : m s = none) : view m cells s = fun _ => none := by
  funext c
  rw [view, hs]
  rfl

/-- A slot shows the same if it names the same resource, with the same cells. -/
lemma view_congr (hm : m' s = m s) (hc : ∀ r, m s = some r → cells' r = cells r) :
    view m' cells' s = view m cells s := by
  funext c
  rw [view, view, hm]
  cases hs : m s with
  | none => rfl
  | some r => rw [Option.map_some, Option.map_some, hc r hs]

section Slots

variable [DecidableEq S]

/-- A slot that is made to name a resource shows it, and the other slots show what they showed. -/
lemma view_put (s : S) (r : R) :
    view (Function.update m s (some r)) cells =
      Function.update (view m cells) s fun c => some (cells r c) := by
  funext s'
  by_cases hs : s' = s
  · subst hs
    rw [Function.update_self]
    funext c
    exact view_of_some (Function.update_self ..) c
  · rw [Function.update_of_ne hs]
    exact view_congr (Function.update_of_ne hs _ _) fun _ _ => rfl

end Slots

variable [DecidableEq R]

/-- A resource that no slot names may be filled. -/
lemma view_fill (hr : ∀ s, m s ≠ some r) (k : C → V) :
    view m (Function.update cells r k) = view m cells := by
  funext s
  refine view_congr rfl fun x hx => Function.update_of_ne ?_ _ _
  rintro rfl
  exact hr s hx

/-- The memory after a cell was written. -/
def write [DecidableEq C] (cells : R → C → V) (r : R) (c : C) (x : V) : R → C → V :=
  Function.update cells r (Function.update (cells r) c x)

/-- A cell of a resource that only one slot names changes in that slot only. -/
lemma view_write [DecidableEq S] [DecidableEq C] (hs : m s = some r) (hone : ∀ s', m s' = some r → s' = s) (c : C) (x : V) :
    view m (write cells r c x) =
      Function.update (view m cells) s (Function.update (view m cells s) c (some x)) := by
  funext s'
  by_cases h : s' = s
  · subst h
    rw [Function.update_self]
    funext c'
    rw [view_of_some hs, write, Function.update_self]
    by_cases hc : c' = c
    · rw [hc, Function.update_self, Function.update_self]
    · rw [Function.update_of_ne hc, Function.update_of_ne hc, view_of_some hs]
  · rw [Function.update_of_ne h]
    refine view_congr rfl fun y hy => Function.update_of_ne ?_ _ _
    rintro rfl
    exact h (hone s' hy)

end NamedCells
