import Mathlib.Algebra.Order.Ring.Nat
import Mathlib.Data.Int.Notation
import Mathlib.Tactic.Common

set_option relaxedAutoImplicit false
set_option autoImplicit false

/-!
# Strings

The string functions of `src/kernel/string.c`. A C string is the list of its bytes before the terminating
one. What is in memory at the string is a function of the place, with zeros from the end of the string on.

## Main definitions

* `Jarvis.CString` — the bytes of a string.
* `Jarvis.TextAt` — a text with its end is in memory.
* `Jarvis.strncmp` — comparing the first bytes of two strings.
* `Jarvis.snprintf` — printing with a format, as far as there is room.

## Main results

* `Jarvis.strncmp_eq_zero_iff`, `Jarvis.strncmp_eq_zero_iff_prefix` — what `strncmp` compares.
* `Jarvis.snprintf_eq_take` — a format without `%d` is copied.
-/

namespace Jarvis

/-- The bytes of a C string, without the terminating one. -/
abbrev CString := List UInt8

/-- The memory at a C string, as far as its end. -/
def CString.bytes (text : CString) : ℕ → BitVec 8 := fun k => (text.getD k 0).toBitVec

/-- A text is in memory from place `p` on, with the character that ends it. -/
def TextAt (mem : ℕ → BitVec 8) (p : ℕ) : List (BitVec 8) → Prop
  | [] => mem p = 0
  | c :: text => mem p = c ∧ c ≠ 0 ∧ TextAt mem (p + 1) text

/-- `strncmp`. -/
def strncmp (s₁ s₂ : ℕ → BitVec 8) : ℕ → ℤ
  | 0 => 0
  | n + 1 =>
    if s₁ 0 ≠ 0 ∧ s₂ 0 ≠ 0 ∧ s₁ 0 = s₂ 0 then strncmp (fun k => s₁ (k + 1)) (fun k => s₂ (k + 1)) n
    else (s₁ 0).toNat - (s₂ 0).toNat

/-- The digits that `snprintf` puts for a number whose sign was taken off, with as many rounds as a 32-bit
number needs. -/
def putDigits : ℕ → ℤ → CString
  | 0, _ => []
  | rounds + 1, num =>
    (if 0 < num.tdiv 10 then putDigits rounds (num.tdiv 10) else []) ++ [UInt8.ofInt (48 + num.tmod 10)]

/-- The loop of `snprintf`, from an argument on and behind what is printed. Only `%d` is a directive. -/
def snprintfLoop (size : ℕ) (args : ℕ → BitVec 32) : CString → ℕ → CString → CString
  | [], _, out => out
  | c :: format, arg, out =>
    if size - 1 ≤ out.length then out
    else
      match c, format with
      | 37, 100 :: rest =>
        let num := args arg
        let sign : CString := if num.slt 0 then [45] else []
        let digits := putDigits 10 (if num.slt 0 then -num else num).toInt
        if size - 1 ≤ (out ++ sign).length + digits.length then out ++ sign
        else snprintfLoop size args rest (arg + 1) (out ++ sign ++ digits)
      | c, format => snprintfLoop size args format arg (out ++ [c])

/-- `snprintf`, with the words of its further arguments. Nothing is written to a buffer of size 0. -/
def snprintf (size : ℕ) (format : CString) (args : ℕ → BitVec 32) : Option CString :=
  if size = 0 then none else some (snprintfLoop size args format 0 [])

example : snprintf 16 [104, 100, 97, 37, 100] (fun _ => 12) = some [104, 100, 97, 49, 50] := by decide

/-- A byte of the text. -/
lemma CString.bytes_of_lt {text : CString} {k : ℕ} (h : k < text.length) :
    text.bytes k = (text[k]).toBitVec := by
  rw [CString.bytes, List.getD_eq_getElem?_getD, List.getElem?_eq_getElem h, Option.getD_some]

/-- The terminator behind it. -/
lemma CString.bytes_length (text : CString) : text.bytes text.length = 0 := by
  rw [CString.bytes, List.getD_eq_getElem?_getD, List.getElem?_eq_none le_rfl]
  rfl

/-- The bytes of a string with their end are a text in memory. -/
lemma textAt_of_bytes {mem : ℕ → BitVec 8} {p : ℕ} {text : CString} (htext : 0 ∉ text)
    (h : ∀ k ≤ text.length, mem (p + k) = text.bytes k) : TextAt mem p (text.map UInt8.toBitVec) := by
  induction text generalizing p with
  | nil => exact h 0 (Nat.le_refl 0)
  | cons c text ih =>
    rw [List.mem_cons, not_or] at htext
    refine ⟨h 0 (Nat.zero_le _), fun hzero => htext.1 (UInt8.toBitVec_inj.1 hzero).symm, ih htext.2 fun k hk => ?_⟩
    have hbyte := h (k + 1) (by rw [List.length_cons]; omega)
    rwa [← Nat.add_assoc, Nat.add_right_comm] at hbyte

/-- **`strncmp`** finds no difference up to the given length, or the end of the first string. -/
lemma strncmp_eq_zero_iff (s₁ s₂ : ℕ → BitVec 8) (n : ℕ) :
    strncmp s₁ s₂ n = 0 ↔ ∀ k < n, (∀ j < k, s₁ j ≠ 0) → s₁ k = s₂ k := by
  induction n generalizing s₁ s₂ with
  | zero => exact iff_of_true rfl fun k hk => absurd hk (Nat.not_lt_zero k)
  | succ n ih =>
    rw [strncmp]
    split_ifs with hgo
    · obtain ⟨hne, -, heq⟩ := hgo
      rw [ih]
      constructor
      · intro h k hk hbefore
        cases k with
        | zero => exact heq
        | succ k => exact h k (Nat.lt_of_succ_lt_succ hk) fun j hj => hbefore (j + 1) (by omega)
      · intro h k hk hbefore
        refine h (k + 1) (by omega) fun j hj => ?_
        cases j with
        | zero => exact hne
        | succ j => exact hbefore j (by omega)
    · constructor
      · intro hdiff k hk hbefore
        have heq : s₁ 0 = s₂ 0 := by
          apply BitVec.eq_of_toNat_eq
          omega
        cases k with
        | zero => exact heq
        | succ k =>
          -- the strings end here
          have hne := hbefore 0 (Nat.succ_pos k)
          exact absurd ⟨hne, heq ▸ hne, heq⟩ hgo
      · intro h
        rw [h 0 (Nat.succ_pos n) fun j hj => absurd hj (Nat.not_lt_zero j), Int.sub_self]

/-- **`strncmp` with a whole text** finds out if a string begins with it. -/
lemma strncmp_eq_zero_iff_prefix {text : CString} (htext : 0 ∉ text) (s : CString) :
    strncmp s.bytes text.bytes text.length = 0 ↔ text <+: s := by
  have hne : ∀ k < text.length, text.bytes k ≠ 0 := by
    intro k hk hzero
    rw [CString.bytes_of_lt hk] at hzero
    have hbyte : text[k] = 0 := UInt8.toBitVec_inj.1 hzero
    exact htext (hbyte ▸ List.getElem_mem hk)
  rw [strncmp_eq_zero_iff, List.prefix_iff_getElem]
  constructor
  · intro h
    have hsame : ∀ k < text.length, s.bytes k = text.bytes k := by
      intro k
      induction k using Nat.strong_induction_on with
      | _ k ih =>
        intro hk
        refine h k hk fun j hj => ?_
        rw [ih j hj (hj.trans hk)]
        exact hne j (hj.trans hk)
    have hle : text.length ≤ s.length := by
      by_contra hlt
      have hend := hsame s.length (by omega)
      rw [CString.bytes_length] at hend
      exact hne s.length (by omega) hend.symm
    refine ⟨hle, fun k hk => ?_⟩
    have hbyte := hsame k hk
    rw [CString.bytes_of_lt hk, CString.bytes_of_lt (hk.trans_le hle)] at hbyte
    exact (UInt8.toBitVec_inj.1 hbyte).symm
  · rintro ⟨hle, h⟩ k hk -
    rw [CString.bytes_of_lt hk, CString.bytes_of_lt (hk.trans_le hle), h k hk]

/-- The loop copies a format without directives, as far as there is room. -/
lemma snprintfLoop_eq_take {format : CString} (h : ¬ [37, 100] <:+: format) (size : ℕ)
    (args : ℕ → BitVec 32) (arg : ℕ) (out : CString) :
    snprintfLoop size args format arg out = out ++ format.take (size - 1 - out.length) := by
  induction format generalizing out with
  | nil => rw [snprintfLoop, List.take_nil, List.append_nil]
  | cons c format ih =>
    rw [snprintfLoop]
    · split_ifs with hfull
      · rw [Nat.sub_eq_zero_of_le hfull, List.take_zero, List.append_nil]
      · have hroom : size - 1 - out.length = size - 1 - (out ++ [c]).length + 1 := by
          rw [List.length_append, List.length_singleton]
          omega
        rw [hroom, List.take_succ_cons, ih (fun hin => h (List.infix_cons hin)), List.append_assoc]
        rfl
    · -- there is no directive here
      rintro rest rfl rfl
      exact h (List.IsPrefix.isInfix ⟨rest, rfl⟩)

/-- **`snprintf` copies a format without `%d`**, whatever other directives it has. -/
lemma snprintf_eq_take {size : ℕ} {format : CString} (hsize : size ≠ 0) (h : ¬ [37, 100] <:+: format)
    (args : ℕ → BitVec 32) : snprintf size format args = some (format.take (size - 1)) := by
  rw [snprintf, if_neg hsize, snprintfLoop_eq_take h]
  rfl

end Jarvis
