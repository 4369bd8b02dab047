import Mathlib.Algebra.Order.Ring.Nat
import Mathlib.Logic.Function.Basic
import Mathlib.Tactic.Common

set_option relaxedAutoImplicit false
set_option autoImplicit false

/-!
# Ring buffers with one empty slot

A queue in a table of `n` slots with two indices, as C programs keep it: the indices move with
`(i + 1) % n`, equal indices mean that the queue is empty, and the queue is full when the second index is
one before the first, so that one slot always stays empty.

## Main definitions

* `RingBuffer.contents` — the queue that a table and two indices stand for.

## Main results

* `RingBuffer.contents_eq_nil_iff`, `RingBuffer.full_iff` — the tests for an empty and for a full queue.
* `RingBuffer.contents_push`, `RingBuffer.contents_pop` — the two operations refine those of a queue.
-/

namespace RingBuffer

variable {α : Type*} {n start stop : ℕ} {slots : ℕ → α}

/-- The number of elements between two indices. -/
def size (n start stop : ℕ) : ℕ := if start ≤ stop then stop - start else stop + n - start

/-- The queue: the slots from `start` on, up to the one before `stop`. -/
def contents (n : ℕ) (slots : ℕ → α) (start stop : ℕ) : List α :=
  (List.range (size n start stop)).map fun i => slots ((start + i) % n)

/-- An index that has passed the end of the table at most once. -/
lemma mod_of_lt_two_mul {a : ℕ} (h : a < 2 * n) : a % n = if a < n then a else a - n := by
  split_ifs with ha
  · exact Nat.mod_eq_of_lt ha
  · rw [Nat.mod_eq_sub_mod (by omega), Nat.mod_eq_of_lt (by omega)]

/-- The index after `i`. -/
lemma succ_mod (hi : start < n) : (start + 1) % n = if start + 1 = n then 0 else start + 1 := by
  rw [mod_of_lt_two_mul (by omega)]
  split_ifs <;> omega

/-- The contents have the size of the buffer. -/
@[simp] lemma length_contents : (contents n slots start stop).length = size n start stop := by
  simp [contents]

/-- The queue is empty if the indices are equal. -/
lemma contents_eq_nil_iff (hstart : start < n) :
    contents n slots start stop = [] ↔ start = stop := by
  rw [← List.length_eq_zero_iff, length_contents, size]
  split_ifs <;> omega

/-- There is no room for one more element if the second index is one before the first. -/
lemma full_iff (hstart : start < n) (hstop : stop < n) :
    (stop + 1) % n = start ↔ (contents n slots start stop).length = n - 1 := by
  rw [succ_mod hstop, length_contents, size]
  split_ifs <;> omega

/-- Storing an element at the second index and moving that index appends the element. -/
lemma contents_push (slots : ℕ → α) (hstart : start < n) (hstop : stop < n)
    (hfull : (stop + 1) % n ≠ start) (x : α) :
    contents n (Function.update slots stop x) start ((stop + 1) % n) =
      contents n slots start stop ++ [x] := by
  have hsize : size n start ((stop + 1) % n) = size n start stop + 1 := by
    rw [succ_mod hstop] at hfull ⊢
    unfold size
    split_ifs at hfull ⊢ <;> omega
  have hlt : start + size n start stop < 2 * n := by
    unfold size
    split_ifs <;> omega
  have hlast : (start + size n start stop) % n = stop := by
    rw [mod_of_lt_two_mul hlt]
    unfold size
    split_ifs <;> omega
  rw [contents, hsize, List.range_succ, List.map_append]
  congr 1
  · apply List.map_congr_left
    intro i hi
    have hne : (start + i) % n ≠ stop := by
      rw [List.mem_range] at hi
      rw [mod_of_lt_two_mul (by omega)]
      unfold size at hi
      split_ifs at hi ⊢ <;> omega
    simp [hne]
  · simp [hlast]

/-- Reading the slot at the first index and moving that index takes the first element. -/
lemma contents_pop (slots : ℕ → α) (hstart : start < n) (hstop : stop < n) (hne : start ≠ stop) :
    contents n slots start stop = slots start :: contents n slots ((start + 1) % n) stop := by
  have hsize : size n start stop = size n ((start + 1) % n) stop + 1 := by
    rw [succ_mod hstart]
    unfold size
    split_ifs <;> omega
  rw [contents, hsize, List.range_succ_eq_map, List.map_cons, List.map_map]
  congr 1
  · simp [Nat.mod_eq_of_lt hstart]
  · apply List.map_congr_left
    intro i _
    simp only [Function.comp, Nat.mod_add_mod]
    congr 2
    omega

end RingBuffer
