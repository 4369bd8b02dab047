import Mathlib.Algebra.Order.Ring.Nat
import Mathlib.Tactic.Common

set_option relaxedAutoImplicit false
set_option autoImplicit false

/-!
# Polling

A loop that polls until something is done, or has failed, or a counter has expired. The counter is compared
with 0 and decremented after every poll that is not the last one, so that a counter of `n` makes `n + 1`
polls. Polls have numbers.

## Main definitions

* `Poll.wait` — the loop.
* `Poll.DoneAt`, `Poll.FailedAt`, `Poll.Silent` — how it can end.

## Main results

* `Poll.wait_cases` — how it ends.
* `Poll.DoneAt.unique`, `Poll.FailedAt.not_doneAt`, `Poll.Silent.not_doneAt` — it ends in one way.
-/

namespace Poll

/-- How a loop has ended: it was done at a poll with some of the counter left, it has failed at a poll, or
the counter has expired. -/
inductive Outcome where
  | done (poll left : ℕ)
  | failed (poll : ℕ)
  | expired

variable (done failed : ℕ → Prop)

/-- The loop, from poll `i` on. -/
def wait [DecidablePred done] [DecidablePred failed] : ℕ → ℕ → Outcome
  | 0, i => if done i then .done i 0 else .expired
  | left + 1, i =>
    if done i then .done i (left + 1) else if failed i then .failed i else wait left (i + 1)

/-- Nothing was done and nothing has failed from poll `i` up to poll `j`. -/
def Quiet (i j : ℕ) : Prop := ∀ k, i ≤ k → k < j → ¬ done k ∧ ¬ failed k

/-- Poll `j` is the first one that is done. -/
structure DoneAt (i j : ℕ) : Prop where
  le : i ≤ j
  isDone : done j
  quiet : Quiet done failed i j

/-- Poll `j` is the first one that has failed, and it is not done. -/
structure FailedAt (i j : ℕ) : Prop where
  le : i ≤ j
  notDone : ¬ done j
  hasFailed : failed j
  quiet : Quiet done failed i j

/-- None of `n + 1` polls is done, and none but the last one may have failed. -/
structure Silent (i n : ℕ) : Prop where
  notDone : ¬ done (i + n)
  quiet : Quiet done failed i (i + n)

variable {done failed} {i j k n : ℕ}

/-- One more round in which nothing happens. -/
lemma Quiet.cons (h : Quiet done failed (i + 1) j) (hdone : ¬ done i) (hfailed : ¬ failed i) :
    Quiet done failed i j := by
  intro k hk hlt
  rcases Nat.eq_or_lt_of_le hk with rfl | hk
  · exact ⟨hdone, hfailed⟩
  · exact h k hk hlt

variable (done failed) in
/-- **How the loop ends.** -/
lemma wait_cases [DecidablePred done] [DecidablePred failed] (left i : ℕ) :
    (∃ j ≤ i + left, DoneAt done failed i j ∧ wait done failed left i = .done j (i + left - j)) ∨
      (∃ j < i + left, FailedAt done failed i j ∧ wait done failed left i = .failed j) ∨
      Silent done failed i left ∧ wait done failed left i = .expired := by
  have hquiet : Quiet done failed i i := fun k hk hlt => absurd hlt (not_lt.2 hk)
  induction left generalizing i with
  | zero =>
    rw [wait]
    split_ifs with hdone
    · exact .inl ⟨i, le_rfl, ⟨le_rfl, hdone, hquiet⟩, by rw [Nat.add_zero, Nat.sub_self]⟩
    · exact .inr (.inr ⟨⟨hdone, hquiet⟩, rfl⟩)
  | succ left ih =>
    rw [wait]
    split_ifs with hdone hfailed
    · exact .inl ⟨i, Nat.le_add_right _ _, ⟨le_rfl, hdone, hquiet⟩, by rw [Nat.add_sub_cancel_left]⟩
    · exact .inr (.inl ⟨i, by omega, ⟨le_rfl, hdone, hfailed, hquiet⟩, rfl⟩)
    · have hsum : i + (left + 1) = i + 1 + left := by omega
      rw [hsum]
      have hnext : Quiet done failed (i + 1) (i + 1) := fun k hk hlt => absurd hlt (not_lt.2 hk)
      rcases ih (i + 1) hnext with ⟨j, hj, hat, hres⟩ | ⟨j, hj, hat, hres⟩ | ⟨hsilent, hres⟩
      · exact .inl ⟨j, hj, ⟨by have := hat.le; omega, hat.isDone, hat.quiet.cons hdone hfailed⟩, hres⟩
      · exact .inr (.inl ⟨j, hj,
          ⟨by have := hat.le; omega, hat.notDone, hat.hasFailed, hat.quiet.cons hdone hfailed⟩, hres⟩)
      · refine .inr (.inr ⟨⟨?_, ?_⟩, hres⟩)
        · rw [hsum]
          exact hsilent.notDone
        · rw [hsum]
          exact hsilent.quiet.cons hdone hfailed

/-- There is one first poll that is done. -/
lemma DoneAt.unique (hj : DoneAt done failed i j) (hk : DoneAt done failed i k) : j = k := by
  rcases Nat.lt_trichotomy j k with hlt | heq | hlt
  · exact absurd hj.isDone (hk.quiet j hj.le hlt).1
  · exact heq
  · exact absurd hk.isDone (hj.quiet k hk.le hlt).1

/-- If a poll has failed, none is the first one that is done. -/
lemma FailedAt.not_doneAt (hj : FailedAt done failed i j) (k : ℕ) : ¬ DoneAt done failed i k := by
  intro hk
  rcases Nat.lt_trichotomy j k with hlt | rfl | hlt
  · exact (hk.quiet j hj.le hlt).2 hj.hasFailed
  · exact hj.notDone hk.isDone
  · exact (hj.quiet k hk.le hlt).1 hk.isDone

/-- If the counter expires, none of the polls is done. -/
lemma Silent.not_doneAt (h : Silent done failed i n) (hk : k ≤ i + n) : ¬ DoneAt done failed i k := by
  intro hat
  rcases Nat.eq_or_lt_of_le hk with rfl | hlt
  · exact h.notDone hat.isDone
  · exact (h.quiet k hat.le hlt).1 hat.isDone

/-- No failure before the end of a silent stretch. -/
lemma Silent.not_failedAt (h : Silent done failed i n) (hk : k < i + n) : ¬ FailedAt done failed i k :=
  fun hat => (h.quiet k hat.le hk).2 hat.hasFailed

end Poll
