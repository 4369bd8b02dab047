import Mathlib.Algebra.BigOperators.Group.Finset.Piecewise
import Mathlib.Algebra.Order.Ring.Nat
import Mathlib.Tactic.Common

set_option relaxedAutoImplicit false
set_option autoImplicit false

/-!
# Counting

What happens to a sum of counts, and to the number of elements with a property, if one element changes.

## Main results

* `Counting.sum_eq_add_one` — one count is greater by one.
* `Counting.card_filter_eq_add_one` — one more element has the property.
-/

namespace Counting

variable {α : Type*} [DecidableEq α] {s : Finset α} {a : α}

/-- A sum of counts, if one of them is greater by one. -/
lemma sum_eq_add_one {f g : α → ℕ} (ha : a ∈ s) (hone : f a = g a + 1)
    (hother : ∀ x ∈ s, x ≠ a → f x = g x) : ∑ x ∈ s, f x = ∑ x ∈ s, g x + 1 := by
  have hrest : ∑ x ∈ s.erase a, f x = ∑ x ∈ s.erase a, g x := by
    apply Finset.sum_congr rfl
    intro x hx
    exact hother x (Finset.mem_of_mem_erase hx) (Finset.ne_of_mem_erase hx)
  rw [← Finset.add_sum_erase s f ha, ← Finset.add_sum_erase s g ha, hrest, hone]
  omega

/-- The number of elements with a property, if one more has it. -/
lemma card_filter_eq_add_one {p q : α → Prop} [DecidablePred p] [DecidablePred q] (ha : a ∈ s)
    (hp : p a) (hq : ¬ q a) (hother : ∀ x ∈ s, x ≠ a → (p x ↔ q x)) :
    (s.filter p).card = (s.filter q).card + 1 := by
  rw [Finset.card_filter, Finset.card_filter]
  apply sum_eq_add_one ha
  · rw [if_pos hp, if_neg hq]
  · intro x hx hxa
    simp only [hother x hx hxa]

end Counting
