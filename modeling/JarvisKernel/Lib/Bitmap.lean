import Mathlib.Algebra.Order.Ring.Nat
import Mathlib.Data.Finset.Card
import Mathlib.Data.Finset.Range
import Mathlib.Logic.Function.Basic
import Mathlib.Tactic.Common

set_option relaxedAutoImplicit false
set_option autoImplicit false

/-!
# Bitmaps in tables of machine words

A bitmap stored in a table of `w`-bit words: bit `i` is bit `i % w` of word `i / w`, tested, set
and cleared with the mask `1 << (i % w)`, as C programs do.

## Main definitions

* `Bitmap.test`, `Bitmap.set`, `Bitmap.clear` — the three mask operations.
* `Bitmap.card` — the number of set bits among the first `n`.

## Main results

* `Bitmap.test_set`, `Bitmap.test_clear` — an operation changes the addressed bit and no other.
* `Bitmap.card_set`, `Bitmap.card_clear` — the count moves by one.
-/

namespace Bitmap

variable {w : ℕ}

/-- `table[i / w] & (1 << (i % w))`, as a truth value. -/
def test (b : ℕ → BitVec w) (i : ℕ) : Bool := b (i / w) &&& (1#w <<< (i % w)) != 0#w

/-- `table[i / w] |= (1 << (i % w))`. -/
def set (b : ℕ → BitVec w) (i : ℕ) : ℕ → BitVec w :=
  Function.update b (i / w) (b (i / w) ||| (1#w <<< (i % w)))

/-- `table[i / w] &= ~(1 << (i % w))`. -/
def clear (b : ℕ → BitVec w) (i : ℕ) : ℕ → BitVec w :=
  Function.update b (i / w) (b (i / w) &&& ~~~(1#w <<< (i % w)))

/-- The number of set bits among the first `n`. -/
def card (b : ℕ → BitVec w) (n : ℕ) : ℕ := ((Finset.range n).filter fun i => test b i).card

/-- Bit `j` of the mask `1 << i`. -/
lemma getLsbD_one_shiftLeft {i j : ℕ} (hi : i < w) :
    (1#w <<< i).getLsbD j = decide (j = i) := by
  rw [BitVec.getLsbD_shiftLeft, BitVec.getLsbD_one]
  by_cases h : j = i
  · subst h
    simp [hi, Nat.zero_lt_of_lt hi]
  · simp only [h, decide_false, Bool.and_eq_false_iff, decide_eq_false_iff_not, Bool.not_eq_false',
      decide_eq_true_eq]
    by_cases hj : j < i
    · exact .inl (.inr hj)
    · exact .inr (.inr (by omega))

/-- The mask test reads the addressed bit of the addressed word. -/
lemma test_eq_getLsbD [NeZero w] (b : ℕ → BitVec w) (i : ℕ) :
    test b i = (b (i / w)).getLsbD (i % w) := by
  have hi : i % w < w := Nat.mod_lt _ (Nat.pos_of_neZero w)
  have hbit : ∀ j, (b (i / w) &&& (1#w <<< (i % w))).getLsbD j =
      ((b (i / w)).getLsbD j && decide (j = i % w)) := by
    intro j
    rw [BitVec.getLsbD_and, getLsbD_one_shiftLeft hi]
  rw [test]
  cases hb : (b (i / w)).getLsbD (i % w) with
  | false =>
    have hz : b (i / w) &&& (1#w <<< (i % w)) = 0#w := by
      apply BitVec.eq_of_getLsbD_eq
      intro j _
      rw [hbit, BitVec.getLsbD_zero]
      by_cases h : j = i % w
      · simp [h, hb]
      · simp [h]
    simp [hz]
  | true =>
    have hnz : b (i / w) &&& (1#w <<< (i % w)) ≠ 0#w := by
      intro hz
      have := hbit (i % w)
      simp [hz, hb] at this
    simpa using hnz

/-- Two bit numbers with the same word and the same bit in it are equal. -/
lemma eq_of_div_mod_eq {i j : ℕ} (hd : i / w = j / w) (hm : i % w = j % w) : i = j := by
  rw [← Nat.div_add_mod i w, ← Nat.div_add_mod j w, hd, hm]

/-- Setting a bit sets it and leaves the others. -/
@[simp] lemma test_set [NeZero w] (b : ℕ → BitVec w) (i j : ℕ) :
    test (set b i) j = (decide (j = i) || test b j) := by
  have hi : i % w < w := Nat.mod_lt _ (Nat.pos_of_neZero w)
  rw [test_eq_getLsbD, test_eq_getLsbD, set]
  by_cases hd : j / w = i / w
  · rw [hd, Function.update_self, BitVec.getLsbD_or, getLsbD_one_shiftLeft hi, Bool.or_comm]
    congr 1
    by_cases h : j = i
    · simp [h]
    · have hm : j % w ≠ i % w := fun hm => h (eq_of_div_mod_eq hd hm)
      simp [h, hm]
  · have h : j ≠ i := fun h => hd (by rw [h])
    rw [Function.update_of_ne hd]
    simp [h]

/-- Clearing a bit clears it and leaves the others. -/
@[simp] lemma test_clear [NeZero w] (b : ℕ → BitVec w) (i j : ℕ) :
    test (clear b i) j = (!decide (j = i) && test b j) := by
  have hi : i % w < w := Nat.mod_lt _ (Nat.pos_of_neZero w)
  have hj : j % w < w := Nat.mod_lt _ (Nat.pos_of_neZero w)
  rw [test_eq_getLsbD, test_eq_getLsbD, clear]
  by_cases hd : j / w = i / w
  · rw [hd, Function.update_self, BitVec.getLsbD_and, BitVec.getLsbD_not,
      getLsbD_one_shiftLeft hi, Bool.and_comm]
    congr 1
    by_cases h : j = i
    · simp [h]
    · have hm : j % w ≠ i % w := fun hm => h (eq_of_div_mod_eq hd hm)
      simp [h, hm, hj]
  · have h : j ≠ i := fun h => hd (by rw [h])
    rw [Function.update_of_ne hd]
    simp [h]

/-- The empty bitmap has no set bit. -/
@[simp] lemma test_zero (i : ℕ) : test (fun _ => 0#w) i = false := by simp [test]

/-- Setting a clear bit in range adds one to the count. -/
lemma card_set [NeZero w] {b : ℕ → BitVec w} {i n : ℕ} (hi : i < n) (hb : test b i = false) :
    card (set b i) n = card b n + 1 := by
  have hins : ((Finset.range n).filter fun j => test (set b i) j) =
      insert i ((Finset.range n).filter fun j => test b j) := by
    ext j
    simp only [test_set, Finset.mem_filter, Finset.mem_range, Finset.mem_insert,
      Bool.or_eq_true, decide_eq_true_eq]
    constructor
    · rintro ⟨hj, rfl | h⟩
      · exact .inl rfl
      · exact .inr ⟨hj, h⟩
    · rintro (rfl | ⟨hj, h⟩)
      · exact ⟨hi, .inl rfl⟩
      · exact ⟨hj, .inr h⟩
  rw [card, hins, Finset.card_insert_of_notMem (by simp [hb])]
  rfl

/-- Clearing a set bit in range takes one from the count. -/
lemma card_clear [NeZero w] {b : ℕ → BitVec w} {i n : ℕ} (hi : i < n) (hb : test b i = true) :
    card (clear b i) n + 1 = card b n := by
  have her : ((Finset.range n).filter fun j => test (clear b i) j) =
      ((Finset.range n).filter fun j => test b j).erase i := by
    ext j
    simp only [test_clear, Finset.mem_filter, Finset.mem_range, Finset.mem_erase,
      Bool.and_eq_true, Bool.not_eq_true', decide_eq_false_iff_not]
    tauto
  have hmem : i ∈ (Finset.range n).filter fun j => test b j := by simp [hi, hb]
  rw [card, her]
  exact Finset.card_erase_add_one hmem

/-- There are at most `n` set bits among the first `n`. -/
lemma card_le (b : ℕ → BitVec w) (n : ℕ) : card b n ≤ n :=
  (Finset.card_filter_le _ _).trans (Finset.card_range n).le

/-- If the first `n` bits are set, they are `n`. -/
lemma card_eq {b : ℕ → BitVec w} {n : ℕ} (h : ∀ i < n, test b i = true) : card b n = n := by
  have hall : (Finset.range n).filter (fun i => test b i) = Finset.range n := by
    refine Finset.filter_true_of_mem fun i hi => ?_
    exact h i (Finset.mem_range.1 hi)
  rw [card, hall, Finset.card_range]

end Bitmap
