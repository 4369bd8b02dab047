import JarvisKernel.Lib.Table

set_option relaxedAutoImplicit false
set_option autoImplicit false

/-!
# Tables with keys

The first entries of a table, each with a key. If the keys are distinct, then an entry is found under its
key. A new entry is stored behind the others, and an entry is removed by moving those behind it down.

## Main definitions

* `KeyedTable.find` — the first entry with a key.
* `KeyedTable.Distinct` — no two entries have the same key.
* `KeyedTable.Mem` — the entries.
* `KeyedTable.erase` — the table without an entry.

## Main results

* `KeyedTable.Distinct.find_eq_some_iff` — entries are found under their keys.
* `KeyedTable.Distinct.concat`, `KeyedTable.mem_concat` — a new entry.
* `KeyedTable.Distinct.erase`, `KeyedTable.Distinct.mem_erase_iff` — removing an entry.
-/

namespace KeyedTable

variable {α κ : Type*} [DecidableEq κ] (key : α → κ)

/-- The first of `n` entries with a key. -/
def find (entries : ℕ → α) (n : ℕ) (k : κ) : Option ℕ :=
  (List.range n).find? fun i => decide (key (entries i) = k)

omit [DecidableEq κ] in
/-- No two of `n` entries have the same key. -/
def Distinct (entries : ℕ → α) (n : ℕ) : Prop :=
  ∀ i < n, ∀ j < n, key (entries i) = key (entries j) → i = j

omit [DecidableEq κ] in
/-- One of `n` entries. -/
def Mem (entries : ℕ → α) (n : ℕ) (a : α) : Prop := ∃ i < n, entries i = a

omit [DecidableEq κ] in
/-- The table without entry `i`; `last` is left in the place behind the last one. -/
def erase (entries : ℕ → α) (n i : ℕ) (last : α) : ℕ → α :=
  Function.update (Table.moveDown entries (n - 1 - i) i) (n - 1) last

variable {key} {entries : ℕ → α} {n i : ℕ} {k : κ} {a b last : α}

/-- Nothing is found exactly if no entry has the key. -/
lemma find_eq_none_iff : find key entries n k = none ↔ ∀ i < n, key (entries i) ≠ k := by
  rw [find, List.find?_eq_none]
  constructor
  · intro h i hi heq
    exact h i (List.mem_range.2 hi) (decide_eq_true heq)
  · intro h i hi heq
    exact h i (List.mem_range.1 hi) (of_decide_eq_true heq)

/-- What is found is an entry with the key. -/
lemma find_spec (h : find key entries n k = some i) : i < n ∧ key (entries i) = k := by
  refine ⟨List.mem_range.1 (List.mem_of_find?_eq_some h), ?_⟩
  have hkey := List.find?_some h
  exact of_decide_eq_true hkey

/-- **Entries are found under their keys.** -/
lemma Distinct.find_eq_some_iff (h : Distinct key entries n) :
    find key entries n k = some i ↔ i < n ∧ key (entries i) = k := by
  refine ⟨find_spec, fun ⟨hi, hkey⟩ => ?_⟩
  cases hfind : find key entries n k with
  | none => exact absurd hkey (find_eq_none_iff.1 hfind i hi)
  | some j =>
    obtain ⟨hj, hkeyj⟩ := find_spec hfind
    rw [h j hj i hi (hkeyj.trans hkey.symm)]

omit [DecidableEq κ] in
/-- A new entry with a new key. -/
lemma Distinct.concat (h : Distinct key entries n) (hnew : ∀ i < n, key (entries i) ≠ key a) :
    Distinct key (Function.update entries n a) (n + 1) := by
  intro i hi j hj heq
  rcases Nat.lt_succ_iff_lt_or_eq.1 hi with hi | rfl
  · rcases Nat.lt_succ_iff_lt_or_eq.1 hj with hj | rfl
    · rw [Function.update_of_ne hi.ne, Function.update_of_ne hj.ne] at heq
      exact h i hi j hj heq
    · rw [Function.update_of_ne hi.ne, Function.update_self] at heq
      exact absurd heq (hnew i hi)
  · rcases Nat.lt_succ_iff_lt_or_eq.1 hj with hj | rfl
    · rw [Function.update_of_ne hj.ne, Function.update_self] at heq
      exact absurd heq.symm (hnew j hj)
    · rfl

/-- A new entry is added to the table. -/
lemma mem_concat : Mem (Function.update entries n a) (n + 1) b ↔ Mem entries n b ∨ b = a := by
  constructor
  · rintro ⟨i, hi, hb⟩
    rcases Nat.lt_succ_iff_lt_or_eq.1 hi with hi | rfl
    · rw [Function.update_of_ne hi.ne] at hb
      exact .inl ⟨i, hi, hb⟩
    · rw [Function.update_self] at hb
      exact .inr hb.symm
  · rintro (⟨i, hi, hb⟩ | rfl)
    · exact ⟨i, hi.trans (Nat.lt_succ_self n), by rw [Function.update_of_ne hi.ne, hb]⟩
    · exact ⟨n, Nat.lt_succ_self n, Function.update_self ..⟩

/-- Where the entries come from when one is removed. -/
lemma erase_apply {j : ℕ} (hj : j < n - 1) :
    erase entries n i last j = entries (if i ≤ j then j + 1 else j) := by
  rw [erase, Function.update_of_ne hj.ne, Table.moveDown_apply]
  by_cases hle : i ≤ j
  · rw [if_pos (by omega), if_pos hle]
  · rw [if_neg (by omega), if_neg hle]

omit [DecidableEq κ] in
/-- Erasing keeps the keys different. -/
lemma Distinct.erase (h : Distinct key entries n) (i : ℕ) (last : α) :
    Distinct key (erase entries n i last) (n - 1) := by
  intro j hj j' hj' heq
  rw [erase_apply hj, erase_apply hj'] at heq
  have hsame := h _ (by split_ifs <;> omega) _ (by split_ifs <;> omega) heq
  split_ifs at hsame <;> omega

/-- What is left is every entry but the erased one. -/
lemma mem_erase_iff (hi : i < n) :
    Mem (erase entries n i last) (n - 1) b ↔ ∃ j < n, j ≠ i ∧ entries j = b := by
  constructor
  · rintro ⟨j, hj, hb⟩
    rw [erase_apply hj] at hb
    exact ⟨_, by split_ifs <;> omega, by split_ifs <;> omega, hb⟩
  · rintro ⟨j, hj, hne, hb⟩
    rcases Nat.lt_or_ge j i with hlt | hge
    · exact ⟨j, by omega, by rw [erase_apply (by omega), if_neg (by omega), hb]⟩
    · refine ⟨j - 1, by omega, ?_⟩
      rw [erase_apply (by omega), if_pos (by omega), Nat.sub_add_cancel (by omega), hb]

omit [DecidableEq κ] in
/-- **Removing an entry** leaves those with other keys. -/
lemma Distinct.mem_erase_iff (h : Distinct key entries n) (hi : i < n) (last : α) :
    Mem (KeyedTable.erase entries n i last) (n - 1) b ↔ Mem entries n b ∧ key b ≠ key (entries i) := by
  rw [KeyedTable.mem_erase_iff hi]
  constructor
  · rintro ⟨j, hj, hne, rfl⟩
    exact ⟨⟨j, hj, rfl⟩, fun heq => hne (h j hj i hi heq)⟩
  · rintro ⟨⟨j, hj, rfl⟩, hne⟩
    exact ⟨j, hj, fun heq => hne (heq ▸ rfl), rfl⟩

end KeyedTable
