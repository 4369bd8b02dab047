import Mathlib.Data.List.TakeWhile
import Mathlib.Tactic.Common

set_option relaxedAutoImplicit false
set_option autoImplicit false

/-!
# Words of a list

The words of a list are the maximal runs of elements that are not the separator and not empty. They do not
depend on how many separators stand before, between and behind them.

## Main definitions

* `Words.words` — the words, in order.

## Main results

* `Words.words_append_cons` — the words on both sides of a separator.
* `Words.words_cons` — the first word, and the others.
* `Words.words_flatMap` — words with a separator before each are found again.
-/

namespace Words

variable {α : Type*} [DecidableEq α]

/-- The maximal runs between separators, without the empty ones. -/
def words (sep : α) (l : List α) : List (List α) := (l.splitOn sep).filter fun w => w ≠ []

variable {sep c : α} {l w : List α}

/-- The words on both sides of a separator. -/
lemma words_append_cons (sep : α) (l l' : List α) :
    words sep (l ++ sep :: l') = words sep l ++ words sep l' := by
  rw [words, List.splitOn_append_cons_self, List.filter_append]
  rfl

/-- A list without separators is a word, unless it is empty. -/
lemma words_of_notMem (h : sep ∉ w) : words sep w = if w = [] then [] else [w] := by
  rw [words, List.splitOn_eq_singleton h]
  split_ifs with hw
  · rw [hw]
    rfl
  · exact List.filter_eq_self.2 fun v hv => by simpa [List.mem_singleton.1 hv] using hw

/-- The empty text has no words. -/
lemma words_nil (sep : α) : words sep [] = [] := by
  rw [words_of_notMem List.not_mem_nil, if_pos rfl]

/-- A separator in front is passed over. -/
lemma words_cons_sep (sep : α) (l : List α) : words sep (sep :: l) = words sep l := by
  have happend := words_append_cons sep [] l
  rwa [words_nil] at happend

/-- Any number of separators in front is passed over. -/
lemma words_dropWhile (sep : α) (l : List α) : words sep (l.dropWhile (· = sep)) = words sep l := by
  induction l with
  | nil => rfl
  | cons c l ih =>
    rw [List.dropWhile_cons]
    by_cases hc : c = sep
    · rw [if_pos (decide_eq_true hc), ih, hc, words_cons_sep]
    · rw [if_neg (by simpa using hc)]

/-- The first word, if there is no separator in front, and the words behind it. -/
lemma words_cons (hc : c ≠ sep) (l : List α) :
    words sep (c :: l) =
      (c :: l).takeWhile (· ≠ sep) :: words sep (((c :: l).dropWhile (· ≠ sep)).dropWhile (· = sep)) := by
  have htake : (c :: l).takeWhile (· ≠ sep) ≠ [] := by simp [hc]
  have hnot : sep ∉ (c :: l).takeWhile (· ≠ sep) := by
    intro hmem
    simpa using List.mem_takeWhile_imp hmem
  rw [words_dropWhile]
  conv_lhs => rw [← List.takeWhile_append_dropWhile (p := fun x => decide (x ≠ sep)) (l := c :: l)]
  cases hrest : (c :: l).dropWhile (· ≠ sep) with
  | nil => rw [List.append_nil, words_of_notMem hnot, if_neg htake, words_nil]
  | cons b rest =>
    -- the run ends at a separator
    have hb : b = sep := by
      have hhead := List.head?_dropWhile_not (fun x => decide (x ≠ sep)) (c :: l)
      rw [hrest] at hhead
      simpa using hhead
    rw [hb, words_append_cons, words_of_notMem hnot, if_neg htake, words_cons_sep]
    rfl

/-- A word is not empty and has no separator. -/
lemma of_mem_words (h : w ∈ words sep l) : w ≠ [] ∧ sep ∉ w := by
  induction hn : l.length using Nat.strong_induction_on generalizing l with
  | _ n ih =>
    cases l with
    | nil =>
      rw [words_nil] at h
      exact absurd h List.not_mem_nil
    | cons c l =>
      by_cases hc : c = sep
      · rw [hc, words_cons_sep] at h
        exact ih l.length (by simp [← hn]) h rfl
      · rw [words_cons hc, List.mem_cons] at h
        rcases h with rfl | h
        · refine ⟨by simp [hc], fun hmem => ?_⟩
          simpa using List.mem_takeWhile_imp hmem
        · rw [words_dropWhile] at h
          refine ih _ ?_ h rfl
          rw [List.dropWhile_cons, if_pos (by simpa using hc), ← hn, List.length_cons]
          exact Nat.lt_succ_of_le (List.length_dropWhile_le _ l)

/-- A word is not longer than the list. -/
lemma length_le_of_mem_words (h : w ∈ words sep l) : w.length ≤ l.length := by
  induction hn : l.length using Nat.strong_induction_on generalizing l with
  | _ n ih =>
    cases l with
    | nil =>
      rw [words_nil] at h
      exact absurd h List.not_mem_nil
    | cons c l =>
      rw [List.length_cons] at hn
      by_cases hc : c = sep
      · rw [hc, words_cons_sep] at h
        have hle := ih l.length (by omega) h rfl
        omega
      · rw [words_cons hc, List.mem_cons] at h
        rcases h with rfl | h
        · have hle := (List.takeWhile_sublist (l := c :: l) fun d => decide (d ≠ sep)).length_le
          rw [List.length_cons] at hle
          omega
        · rw [words_dropWhile] at h
          have hdrop : ((c :: l).dropWhile fun d => decide (d ≠ sep)).length ≤ l.length := by
            rw [List.dropWhile_cons, if_pos (by simpa using hc)]
            exact List.length_dropWhile_le _ l
          have hle := ih _ (by omega) h rfl
          omega

/-- Words with a separator before each of them are found again. -/
lemma words_flatMap {ws : List (List α)} (h : ∀ w ∈ ws, w ≠ [] ∧ sep ∉ w) :
    words sep (ws.flatMap fun w => sep :: w) = ws := by
  induction ws with
  | nil => exact words_nil sep
  | cons w ws ih =>
    obtain ⟨hne, hnot⟩ := h w List.mem_cons_self
    have hrest := ih fun v hv => h v (List.mem_cons_of_mem w hv)
    rw [List.flatMap_cons, List.cons_append, words_cons_sep]
    cases ws with
    | nil => rw [List.flatMap_nil, List.append_nil, words_of_notMem hnot, if_neg hne]
    | cons v vs =>
      rw [List.flatMap_cons, List.cons_append, words_cons_sep] at hrest
      rw [List.flatMap_cons, List.cons_append, words_append_cons, words_of_notMem hnot, if_neg hne,
        hrest]
      rfl

end Words
