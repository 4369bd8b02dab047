import Mathlib.Data.List.Basic
import Mathlib.Tactic.Common

set_option relaxedAutoImplicit false
set_option autoImplicit false

/-!
# The last event of a kind

A history is the list of the events so far, in order. What a component knows about a kind of events is
often the last one of the kind.

## Main definitions

* `History.last` — the last event of a kind.

## Main results

* `History.last_concat` — one more event.
* `History.last_eq_some_iff` — the event is in the history, and no event of the kind is behind it.
* `History.last_of_subkind` — the last event is also the last one of a smaller kind.
-/

namespace History

variable {α : Type*}

/-- The last event of a kind. -/
def last (p : α → Bool) (h : List α) : Option α := (h.filter p).getLast?

variable {p q : α → Bool} {h : List α} {c : α}

/-- Nothing has happened yet. -/
lemma last_nil (p : α → Bool) : last p [] = none := rfl

/-- One more event. -/
lemma last_concat (p : α → Bool) (h : List α) (c : α) :
    last p (h ++ [c]) = if p c then some c else last p h := by
  rw [last, List.filter_append, List.filter_singleton]
  cases p c with
  | true => exact List.getLast?_concat
  | false => exact congrArg List.getLast? (List.append_nil _)

/-- Nothing of the kind has happened if it holds for no event. -/
lemma last_eq_none_iff : last p h = none ↔ ∀ x ∈ h, ¬ p x = true := by
  rw [last, List.getLast?_eq_none_iff, List.filter_eq_nil_iff]

/-- **The last event** is in the history, and no event of the kind is behind it. -/
lemma last_eq_some_iff :
    last p h = some c ↔
      p c = true ∧ ∃ before behind, h = before ++ c :: behind ∧ ∀ x ∈ behind, ¬ p x = true := by
  rw [last, List.getLast?_eq_some_iff]
  constructor
  · rintro ⟨others, hfilter⟩
    obtain ⟨before, rest, rfl, -, hrest⟩ := List.filter_eq_append_iff.1 hfilter
    obtain ⟨skipped, behind, rfl, -, hc, hbehind⟩ := List.filter_eq_cons_iff.1 hrest
    exact ⟨hc, before ++ skipped, behind, by rw [List.append_assoc], List.filter_eq_nil_iff.1 hbehind⟩
  · rintro ⟨hc, before, behind, rfl, hbehind⟩
    exact ⟨before.filter p, by rw [List.filter_append, List.filter_cons_of_pos hc,
      List.filter_eq_nil_iff.2 hbehind]⟩

/-- The last event is also the last one of a smaller kind that it is of. -/
lemma last_of_subkind (hpq : ∀ x, q x = true → p x = true) (hlast : last p h = some c) (hc : q c = true) :
    last q h = some c := by
  obtain ⟨-, before, behind, hsplit, hbehind⟩ := last_eq_some_iff.1 hlast
  exact last_eq_some_iff.2 ⟨hc, before, behind, hsplit, fun x hx hq => hbehind x hx (hpq x hq)⟩

/-- If there is no event of the kind, then there is none of a smaller kind. -/
lemma last_eq_none_of_subkind (hpq : ∀ x, q x = true → p x = true) (hlast : last p h = none) :
    last q h = none := by
  rw [last_eq_none_iff] at hlast ⊢
  exact fun x hx hq => hlast x hx (hpq x hq)

end History
