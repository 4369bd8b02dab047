import Mathlib.Algebra.Order.Ring.Nat
import Mathlib.Tactic.Common

set_option relaxedAutoImplicit false
set_option autoImplicit false

/-!
# 32-bit unsigned arithmetic on natural numbers

Machine words are natural numbers below `2 ^ 32`; addition, subtraction and multiplication are
reduced modulo `2 ^ 32`, as C does for `uint32_t`. The second operand, which is often a literal, comes
first in the sums: terms that only differ by an operation are then told apart without unfolding the
remainder.

## Main definitions

* `Word32.add`, `Word32.sub`, `Word32.mul` — the wrapping operations.
-/

namespace Word32

/-- `a + b` on `uint32_t`. -/
def add (a b : ℕ) : ℕ := (b + a) % 2 ^ 32

/-- `a - b` on `uint32_t`. -/
def sub (a b : ℕ) : ℕ := (2 ^ 32 - b % 2 ^ 32 + a) % 2 ^ 32

/-- `a * b` on `uint32_t`. -/
def mul (a b : ℕ) : ℕ := (a * b) % 2 ^ 32

/-- Addition that does not overflow. -/
lemma add_of_lt {a b : ℕ} (h : a + b < 2 ^ 32) : add a b = a + b := by
  rw [add, Nat.add_comm, Nat.mod_eq_of_lt h]

/-- Subtraction that does not borrow. -/
lemma sub_of_le {a b : ℕ} (ha : a < 2 ^ 32) (h : b ≤ a) : sub a b = a - b := by
  unfold sub
  omega

/-- Subtraction that borrows. -/
lemma sub_of_lt {a b : ℕ} (hb : b < 2 ^ 32) (h : a < b) : sub a b = a + 2 ^ 32 - b := by
  unfold sub
  omega

end Word32
