import Mathlib.Algebra.Order.Ring.Nat
import Mathlib.Data.List.MinMax
import Mathlib.Tactic.Common

set_option relaxedAutoImplicit false
set_option autoImplicit false

/-!
# The best match of a table

A loop over a table that keeps the entry with the greatest weight among those that match. An entry that is
as good as an earlier one does not replace it.

## Main definitions

* `BestMatch.scan` — the loop.
* `BestMatch.Best` — the first of the entries with the greatest weight.

## Main results

* `BestMatch.scan_cases` — what the loop finds.
* `BestMatch.argmax_eq_scan` — it finds the argument of the maximum of the matches.
* `BestMatch.exists_append_of_mem_argmin` — the first of the smallest matches of a list.
-/

namespace BestMatch

variable (p : ℕ → Prop) [DecidablePred p] (weight : ℕ → ℕ)

/-- One round: the entry replaces the best one so far if it matches and has a greater weight. -/
def step (best : Option ℕ × ℕ) (i : ℕ) : Option ℕ × ℕ :=
  if p i ∧ best.2 < weight i then (some i, weight i) else best

/-- The loop over the first `n` entries, with the weight of the best one. -/
def scan (n : ℕ) : Option ℕ × ℕ := (List.range n).foldl (step p weight) (none, 0)

omit [DecidablePred p] in
/-- Entry `i` matches, none has a greater weight, and the earlier ones have a smaller weight. -/
structure Best (n i : ℕ) : Prop where
  lt : i < n
  isMatch : p i
  weight_le : ∀ j < n, p j → weight j ≤ weight i
  weight_lt : ∀ j < i, p j → weight j < weight i

variable {p weight} {n i j : ℕ}

omit [DecidablePred p] in
/-- There is one best match at most. -/
lemma Best.unique (hi : Best p weight n i) (hj : Best p weight n j) : i = j := by
  rcases Nat.lt_trichotomy i j with hlt | heq | hlt
  · exact absurd (hj.weight_lt i hlt hi.isMatch) (Nat.not_lt.2 (hi.weight_le j hj.lt hj.isMatch))
  · exact heq
  · exact absurd (hi.weight_lt j hlt hj.isMatch) (Nat.not_lt.2 (hj.weight_le i hi.lt hi.isMatch))

/-- One more entry is looked at. -/
lemma scan_succ (n : ℕ) : scan p weight (n + 1) = step p weight (scan p weight n) n := by
  rw [scan, List.range_succ, List.foldl_append]
  rfl

/-- **What the loop finds**, if weights are positive: nothing, or the best match. -/
lemma scan_cases (hpos : ∀ i, p i → 0 < weight i) (n : ℕ) :
    (scan p weight n = (none, 0) ∧ ∀ i < n, ¬ p i) ∨
      ∃ i, scan p weight n = (some i, weight i) ∧ Best p weight n i := by
  induction n with
  | zero => exact .inl ⟨rfl, fun i hi => absurd hi (Nat.not_lt_zero i)⟩
  | succ n ih =>
    rw [scan_succ]
    rcases ih with ⟨hscan, hnone⟩ | ⟨i, hscan, hbest⟩
    · rw [hscan, step]
      by_cases hn : p n
      · rw [if_pos ⟨hn, hpos n hn⟩]
        refine .inr ⟨n, rfl, Nat.lt_succ_self n, hn, fun j hj hp => ?_, fun j hj hp => absurd hp (hnone j hj)⟩
        rcases Nat.lt_succ_iff_lt_or_eq.1 hj with hlt | rfl
        · exact absurd hp (hnone j hlt)
        · exact le_rfl
      · rw [if_neg fun h => hn h.1]
        refine .inl ⟨rfl, fun j hj => ?_⟩
        rcases Nat.lt_succ_iff_lt_or_eq.1 hj with hlt | rfl
        · exact hnone j hlt
        · exact hn
    · rw [hscan, step]
      by_cases hn : p n ∧ weight i < weight n
      · rw [if_pos hn]
        have hlt : ∀ j < n, p j → weight j < weight n := fun j hj hp =>
          lt_of_le_of_lt (hbest.weight_le j hj hp) hn.2
        refine .inr ⟨n, rfl, Nat.lt_succ_self n, hn.1, fun j hj hp => ?_, hlt⟩
        rcases Nat.lt_succ_iff_lt_or_eq.1 hj with hj | rfl
        · exact (hlt j hj hp).le
        · exact le_rfl
      · rw [if_neg hn]
        refine .inr ⟨i, rfl, Nat.lt_succ_of_lt hbest.lt, hbest.isMatch, fun j hj hp => ?_, hbest.weight_lt⟩
        rcases Nat.lt_succ_iff_lt_or_eq.1 hj with hj | rfl
        · exact hbest.weight_le j hj hp
        · exact Nat.not_lt.1 fun hlt => hn ⟨hp, hlt⟩

/-! ## Lists -/

/-- **The loop finds the argument of the maximum** of the matches. -/
lemma argmax_eq_scan {α : Type*} {q : α → Bool} {w : α → ℕ} {f : ℕ → α} (hq : ∀ i < n, q (f i) = true ↔ p i)
    (hw : ∀ i < n, w (f i) = weight i) (hpos : ∀ i, p i → 0 < weight i) :
    (((List.range n).map f).filter q).argmax w = (scan p weight n).1.map f := by
  induction n with
  | zero => rfl
  | succ n ih =>
    have hold := ih (fun i hi => hq i (hi.trans n.lt_succ_self)) fun i hi => hw i (hi.trans n.lt_succ_self)
    rw [List.range_succ, List.map_append, List.map_singleton, List.filter_append, List.filter_singleton, scan_succ,
      step]
    by_cases hn : p n
    · rw [(hq n n.lt_succ_self).2 hn]
      show ((_ ++ [f n] : List α)).argmax w = _
      rw [List.argmax_concat, hold]
      rcases scan_cases hpos n with ⟨hscan, -⟩ | ⟨i, hscan, hbest⟩
      · rw [hscan, if_pos ⟨hn, hpos n hn⟩]
        rfl
      · rw [hscan]
        have hlt : w (f i) < w (f n) ↔ weight i < weight n := by
          rw [hw i (hbest.lt.trans n.lt_succ_self), hw n n.lt_succ_self]
        by_cases hgreater : weight i < weight n
        · rw [if_pos ⟨hn, hgreater⟩]
          exact if_pos (hlt.2 hgreater)
        · rw [if_neg fun h => hgreater h.2]
          exact if_neg fun h => hgreater (hlt.1 h)
    · have hfalse : q (f n) = false := Bool.eq_false_iff.2 fun h => hn ((hq n n.lt_succ_self).1 h)
      rw [if_neg fun h => hn h.1, hfalse, ← hold]
      exact congrArg (List.argmax w) (List.append_nil _)

/-- The first of the smallest matches of a list: the matches before it are greater, and none is smaller. -/
lemma exists_append_of_mem_argmin {α β : Type*} [DecidableEq α] [LinearOrder β] {f : α → β} {q : α → Bool}
    {l : List α} {b : α} (hb : b ∈ (l.filter q).argmin f) :
    ∃ l₁ l₂, l = l₁ ++ b :: l₂ ∧ q b ∧ (∀ a ∈ l₁, q a → f b < f a) ∧ ∀ a ∈ l₂, q a → f b ≤ f a := by
  obtain ⟨hmem, hle, hindex⟩ := List.mem_argmin_iff.1 hb
  obtain ⟨hbl, hq⟩ := List.mem_filter.1 hmem
  obtain ⟨l₁, l₂, rfl, hnot⟩ := List.eq_append_cons_of_mem hbl
  have hsplit : (l₁ ++ b :: l₂).filter q = l₁.filter q ++ b :: l₂.filter q := by
    rw [List.filter_append, List.filter_cons_of_pos hq]
  rw [hsplit] at hle hindex
  refine ⟨l₁, l₂, rfl, hq, fun a ha hqa => ?_, fun a ha hqa => ?_⟩
  · have hal : a ∈ l₁.filter q := List.mem_filter.2 ⟨ha, hqa⟩
    have hbl₁ : b ∉ l₁.filter q := fun hbl => hnot (List.mem_filter.1 hbl).1
    refine Std.not_le.1 fun hba => ?_
    have hidx := hindex a (List.mem_append_left _ hal) hba
    rw [List.idxOf_append_of_notMem hbl₁, List.idxOf_append_of_mem hal] at hidx
    exact absurd (List.idxOf_lt_length_iff.2 hal) (Nat.not_lt.2 (le_of_add_le_left hidx))
  · exact hle a (List.mem_append_right _ (List.mem_cons_of_mem _ (List.mem_filter.2 ⟨ha, hqa⟩)))

end BestMatch