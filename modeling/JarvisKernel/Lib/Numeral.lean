import Mathlib.Data.Nat.Digits.Defs
import Mathlib.Tactic.Common

set_option relaxedAutoImplicit false
set_option autoImplicit false

/-!
# Numerals

A numeral is a text of digits, the highest first. Which characters are digits, and what their values are, is
a parameter.

## Main definitions

* `Numeral.parse` — the number that a numeral stands for.
* `Numeral.lowDigits` — the digits of a number, the lowest first.

## Main results

* `Numeral.lowDigits_eq` — one division gives one digit.
* `Numeral.length_lowDigits_le` — how many digits a number has.
* `Numeral.parse_lowDigits` — the digits of a number, put in order, are a numeral for it.
* `Numeral.parse_singleton_lt` — one character stands for a number below the base.
-/

namespace Numeral

variable {α : Type*} (value : α → Option ℕ) (base : ℕ)

/-- The number of a text before which the number `n` was read. -/
def parseFrom (n : ℕ) (text : List α) : Option ℕ :=
  text.foldlM (fun n c => ((value c).filter (· < base)).map (n * base + ·)) n

/-- The number that a text stands for, if it is a numeral. -/
def parse (text : List α) : Option ℕ := if text.isEmpty then none else parseFrom value base 0 text

/-- The digits of a number, the lowest first. The number 0 has one. -/
def lowDigits (n : ℕ) : List ℕ := if n = 0 then [0] else Nat.digits base n

variable {value base} {encode : ℕ → α} {c : α} {n d : ℕ} {ds : List ℕ}

/-- There is a digit, also for 0. -/
lemma lowDigits_ne_nil (base n : ℕ) : lowDigits base n ≠ [] := by
  rw [lowDigits]
  split_ifs with hzero
  · exact List.cons_ne_nil 0 []
  · exact Nat.digits_ne_nil_iff_ne_zero.2 hzero

/-- The digits are below the base. -/
lemma lt_of_mem_lowDigits (hbase : 1 < base) (hd : d ∈ lowDigits base n) : d < base := by
  rw [lowDigits] at hd
  split_ifs at hd with hzero
  · obtain rfl := List.mem_singleton.1 hd
    omega
  · exact Nat.digits_lt_base hbase hd

/-- The digits are those of the number. -/
lemma ofDigits_lowDigits (base n : ℕ) : Nat.ofDigits base (lowDigits base n) = n := by
  rw [lowDigits]
  split_ifs with hzero
  · rw [Nat.ofDigits_singleton, hzero]
  · exact Nat.ofDigits_digits base n

/-- **One division** gives the lowest digit, and there are more if the quotient is not 0. -/
lemma lowDigits_eq (hbase : 1 < base) (n : ℕ) :
    lowDigits base n = n % base :: if 0 < n / base then lowDigits base (n / base) else [] := by
  rcases Nat.eq_zero_or_pos n with rfl | hpos
  · rw [lowDigits, if_pos rfl, Nat.zero_mod, Nat.zero_div, if_neg (lt_irrefl 0)]
  · rw [lowDigits, if_neg hpos.ne', Nat.digits_def' hbase hpos]
    congr 1
    split_ifs with hmore
    · rw [lowDigits, if_neg hmore.ne']
    · rw [Nat.eq_zero_of_not_pos hmore, Nat.digits_zero]

/-- A number below a power of the base has no more digits than the exponent says. -/
lemma length_lowDigits_le {k : ℕ} (hbase : 1 < base) (h : n < base ^ (k + 1)) :
    (lowDigits base n).length ≤ k + 1 := by
  induction k generalizing n with
  | zero =>
    have hquot : n / base = 0 := Nat.div_eq_of_lt (by rwa [Nat.zero_add, Nat.pow_one] at h)
    rw [lowDigits_eq hbase, hquot, if_neg (Nat.lt_irrefl 0), List.length_singleton]
  | succ k ih =>
    rw [lowDigits_eq hbase, List.length_cons]
    split_ifs
    · exact Nat.succ_le_succ (ih (Nat.div_lt_of_lt_mul (by rwa [← Nat.pow_succ'])))
    · exact Nat.succ_le_succ (Nat.zero_le _)

/-- The empty text is no number. -/
lemma parse_nil : parse value base [] = none := rfl

/-- A text is read from its start. -/
lemma parseFrom_append (n : ℕ) (s t : List α) :
    parseFrom value base n (s ++ t) = (parseFrom value base n s).bind fun m => parseFrom value base m t :=
  List.foldlM_append

/-- Digits, put in order, are a numeral. -/
lemma parseFrom_reverse (h : ∀ d < base, value (encode d) = some d) (hds : ∀ d ∈ ds, d < base) :
    parseFrom value base 0 (ds.map encode).reverse = some (Nat.ofDigits base ds) := by
  induction ds with
  | nil => rfl
  | cons d ds ih =>
    have hd : d < base := hds d List.mem_cons_self
    rw [List.map_cons, List.reverse_cons, parseFrom_append,
      ih fun e he => hds e (List.mem_cons_of_mem d he), Option.bind_some, parseFrom, List.foldlM_cons,
      h d hd, Option.filter_some, if_pos (decide_eq_true hd), Nat.ofDigits_cons]
    simp [Nat.mul_comm, Nat.add_comm]

/-- **The digits of a number**, put in order, are a numeral for it. -/
lemma parse_lowDigits (hbase : 1 < base) (h : ∀ d < base, value (encode d) = some d) (n : ℕ) :
    parse value base ((lowDigits base n).map encode).reverse = some n := by
  have hne : ((lowDigits base n).map encode).reverse.isEmpty = false := by
    rw [List.isEmpty_reverse, List.isEmpty_map, List.isEmpty_eq_false_iff]
    exact lowDigits_ne_nil base n
  rw [parse, hne, if_neg Bool.false_ne_true,
    parseFrom_reverse h fun d hd => lt_of_mem_lowDigits hbase hd, ofDigits_lowDigits]

/-- One character stands for a number below the base. -/
lemma parse_singleton_lt (h : parse value base [c] = some n) : n < base := by
  cases hvalue : value c with
  | none => simp [parse, parseFrom, hvalue] at h
  | some d =>
    by_cases hd : d < base
    · have heq : d = n := by simpa [parse, parseFrom, hvalue, hd, Option.filter] using h
      exact heq ▸ hd
    · simp [parse, parseFrom, hvalue, hd, Option.filter] at h

end Numeral
