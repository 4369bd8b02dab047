import Mathlib.Algebra.Order.Ring.Nat
import Mathlib.Logic.Function.Basic
import Mathlib.Tactic.Common

set_option relaxedAutoImplicit false
set_option autoImplicit false

/-!
# Loops over tables

The loop that closes a gap in a table: every entry behind the gap is copied to the place before it. And
the loop that stores a row of entries.

## Main definitions

* `Table.moveDown` — the loop that closes a gap.
* `Table.toList` — the first entries, as a list.

## Main results

* `Table.moveDown_apply` — where the entries are afterwards.
* `Table.foldl_update_apply` — the entries after a row was stored.
* `Table.foldl_update_key` — the entries after some with different keys were stored.
* `Table.toList_update`, `Table.toList_moveDown` — a new entry behind the others, and a gap that is closed.
-/

namespace Table

variable {α : Type*}

/-- Copy the `count` entries after entry `i` to the places before them, in order. -/
def moveDown (entries : ℕ → α) : ℕ → ℕ → ℕ → α
  | 0, _ => entries
  | count + 1, i => moveDown (Function.update entries i (entries (i + 1))) count (i + 1)

/-- The entries from `i` on are those that came after them, as far as the loop went. -/
lemma moveDown_apply (entries : ℕ → α) (count i k : ℕ) :
    moveDown entries count i k = if i ≤ k ∧ k < i + count then entries (k + 1) else entries k := by
  induction count generalizing entries i with
  | zero =>
    rw [moveDown, if_neg]
    omega
  | succ count ih =>
    rw [moveDown, ih]
    by_cases hk : i + 1 ≤ k ∧ k < i + 1 + count
    · rw [if_pos hk, if_pos (by omega), Function.update_of_ne (by omega)]
    · rw [if_neg hk]
      by_cases hki : k = i
      · rw [hki, Function.update_self, if_pos (by omega)]
      · rw [Function.update_of_ne hki, if_neg (by omega)]

/-- After storing `value i` at place `start + i`, for all `i` below `count`. -/
lemma foldl_update_apply {place : ℕ → ℕ} {start count : ℕ} (entries : ℕ → α) (value : ℕ → α)
    (hplace : ∀ i < count, place i = start + i) (k : ℕ) :
    (List.range count).foldl (fun e i => Function.update e (place i) (value i)) entries k =
      if start ≤ k ∧ k < start + count then value (k - start) else entries k := by
  induction count with
  | zero =>
    rw [if_neg (by omega)]
    rfl
  | succ count ih =>
    rw [List.range_succ, List.foldl_append, List.foldl_cons, List.foldl_nil, hplace count (by omega)]
    by_cases hk : k = start + count
    · rw [hk, Function.update_self, if_pos (by omega)]
      congr 1
      omega
    · rw [Function.update_of_ne hk, ih fun i hi => hplace i (by omega)]
      by_cases hlow : start ≤ k ∧ k < start + count
      · rw [if_pos hlow, if_pos (by omega)]
      · rw [if_neg hlow, if_neg (by omega)]

/-- Entries at other places are not stored to. -/
lemma foldl_update_of_ne (place : ℕ → ℕ) (value : ℕ → α) (k : ℕ) (is : List ℕ) (entries : ℕ → α)
    (hplace : ∀ i ∈ is, k ≠ place i) :
    is.foldl (fun e i => Function.update e (place i) (value i)) entries k = entries k := by
  induction is generalizing entries with
  | nil => rfl
  | cons i is ih =>
    rw [List.foldl_cons, ih _ fun j hj => hplace j (List.mem_cons_of_mem i hj)]
    exact Function.update_of_ne (hplace i List.mem_cons_self) _ _

/-- After storing the value of every element of a list at its key, if the keys are different. -/
lemma foldl_update_key {ε κ : Type*} [DecidableEq κ] (key : ε → κ) (value : ε → α) {l : List ε}
    (hnodup : (l.map key).Nodup) (entries : κ → α) (k : κ) :
    (∀ e ∈ l, key e = k → l.foldl (fun t e => Function.update t (key e) (value e)) entries k = value e) ∧
      ((∀ e ∈ l, key e ≠ k) → l.foldl (fun t e => Function.update t (key e) (value e)) entries k = entries k) := by
  induction l generalizing entries with
  | nil => exact ⟨fun e he => absurd he List.not_mem_nil, fun _ => rfl⟩
  | cons e l ih =>
    rw [List.map_cons, List.nodup_cons] at hnodup
    obtain ⟨hmem, hnot⟩ := ih hnodup.2 (Function.update entries (key e) (value e))
    refine ⟨fun e' he' hkey => ?_, fun h => ?_⟩
    · rcases List.mem_cons.1 he' with rfl | he'
      · have hothers : ∀ e ∈ l, key e ≠ k := fun e he heq =>
          hnodup.1 (List.mem_map.2 ⟨e, he, heq.trans hkey.symm⟩)
        rw [List.foldl_cons, hnot hothers, ← hkey, Function.update_self]
      · exact hmem e' he' hkey
    · rw [List.foldl_cons, hnot fun e' he' => h e' (List.mem_cons_of_mem e he')]
      exact Function.update_of_ne (h e List.mem_cons_self).symm _ _

/-! ## Tables as lists -/

/-- The first `n` entries. -/
def toList (entries : ℕ → α) (n : ℕ) : List α := (List.range n).map entries

variable {entries entries' : ℕ → α} {n : ℕ}

/-- The list has one element for each entry. -/
@[simp] lemma length_toList (entries : ℕ → α) (n : ℕ) : (toList entries n).length = n := by
  simp [toList]

/-- They are the entries. -/
lemma getElem?_toList {i : ℕ} (hi : i < n) : (toList entries n)[i]? = some (entries i) := by
  simp [toList, hi]

/-- The list depends on the entries only. -/
lemma toList_congr (h : ∀ i < n, entries i = entries' i) : toList entries n = toList entries' n :=
  List.map_congr_left fun i hi => h i (List.mem_range.1 hi)

/-- A new entry behind the others. -/
lemma toList_update (entries : ℕ → α) (n : ℕ) (a : α) :
    toList (Function.update entries n a) (n + 1) = toList entries n ++ [a] := by
  have hold : toList (Function.update entries n a) n = toList entries n :=
    toList_congr fun i hi => Function.update_of_ne hi.ne _ _
  rw [toList, List.range_succ, List.map_append, List.map_singleton, Function.update_self]
  exact congrArg (· ++ [a]) hold

/-- A gap that is closed. -/
lemma toList_moveDown {i : ℕ} (hi : i < n) :
    toList (moveDown entries (n - 1 - i) i) (n - 1) = (toList entries n).eraseIdx i := by
  apply List.ext_getElem?
  intro k
  rw [List.getElem?_eraseIdx]
  by_cases hk : k < n - 1
  · rw [getElem?_toList hk, moveDown_apply]
    by_cases hki : k < i
    · rw [if_neg (by omega), if_pos hki, getElem?_toList (by omega)]
    · rw [if_pos (by omega), if_neg hki, getElem?_toList (by omega)]
  · rw [List.getElem?_eq_none (by simpa using hk)]
    split_ifs <;> exact (List.getElem?_eq_none (by rw [length_toList]; omega)).symm

/-- A search in the table is one in the list. -/
lemma find?_range (p : α → Bool) (entries : ℕ → α) (n : ℕ) :
    ((List.range n).find? fun i => p (entries i)) = (toList entries n).findIdx? p := by
  rw [toList]
  induction n with
  | zero => rfl
  | succ n ih =>
    rw [List.range_succ, List.map_append, List.find?_append, List.findIdx?_append, ih, List.length_map,
      List.length_range, List.map_singleton, List.find?_singleton, List.findIdx?_singleton]
    cases p (entries n) <;> simp

end Table
