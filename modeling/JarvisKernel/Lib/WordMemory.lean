import Mathlib.Data.BitVec
import Mathlib.Tactic.Common

set_option relaxedAutoImplicit false
set_option autoImplicit false

/-!
# Words in a memory of bytes

A memory of bytes at addresses of any width, in which words of 32 bits are stored with the lowest byte first.
Addresses wrap around. A list of words that lie side by side is what a stack that grows downwards holds at
its stack pointer: storing a word below the list pushes it.

## Main definitions

* `WordMemory.readWord`, `WordMemory.writeWord` — one word.
* `WordMemory.Holds` — the words of a list lie side by side from an address on.
* `WordMemory.Agree` — two memories have the same bytes in a range.

## Main results

* `WordMemory.Holds.push` — storing a word below a list of words.
* `WordMemory.Holds.of_agree` — the frame rule.
* `WordMemory.holds_append` — a list of words in two parts.
-/

namespace WordMemory

variable {w : ℕ} {mem mem' : BitVec w → BitVec 8} {a b : BitVec w} {v : BitVec 32}
  {l l₁ l₂ : List (BitVec 32)} {n : ℕ}

/-! ## Addresses -/

/-- The address `n` bytes behind another one. -/
def offset (a : BitVec w) (n : ℕ) : BitVec w := a + BitVec.ofNat w n

/-- Nothing is added. -/
@[simp] lemma offset_zero (a : BitVec w) : offset a 0 = a := by simp [offset]

/-- Two offsets add up. -/
@[simp] lemma offset_offset (a : BitVec w) (m n : ℕ) : offset (offset a m) n = offset a (m + n) := by
  rw [offset, offset, offset, BitVec.add_assoc, BitVec.ofNat_add]

/-- The distance of an address from one that lies before it. -/
lemma toNat_offset_sub (a : BitVec w) (hn : n < 2 ^ w) : (offset a n - a).toNat = n := by
  rw [offset, add_sub_cancel_left]
  exact Nat.mod_eq_of_lt hn

/-! ## One word -/

/-- The word at an address. -/
def readWord (mem : BitVec w → BitVec 8) (a : BitVec w) : BitVec 32 :=
  mem (offset a 3) ++ mem (offset a 2) ++ mem (offset a 1) ++ mem (offset a 0)

/-- The memory after a word was stored at an address. -/
def writeWord (mem : BitVec w → BitVec 8) (a : BitVec w) (v : BitVec 32) : BitVec w → BitVec 8 :=
  fun b => if (b - a).toNat < 4 then v.extractLsb' (8 * (b - a).toNat) 8 else mem b

/-- The word that was stored is read back. -/
lemma readWord_writeWord (hw : 4 ≤ 2 ^ w) : readWord (writeWord mem a v) a = v := by
  have hbyte : ∀ k < 4, writeWord mem a v (offset a k) = v.extractLsb' (8 * k) 8 := by
    intro k hk
    rw [writeWord, toNat_offset_sub a (by omega), if_pos hk]
  rw [readWord, hbyte 3 (by decide), hbyte 2 (by decide), hbyte 1 (by decide), hbyte 0 (by decide)]
  rw [BitVec.extractLsb'_append_extractLsb'_eq_extractLsb' (by decide),
    BitVec.extractLsb'_append_extractLsb'_eq_extractLsb' (by decide),
    BitVec.extractLsb'_append_extractLsb'_eq_extractLsb' (by decide)]
  simp

/-- A byte behind the word that was stored is not changed. -/
lemma writeWord_offset (hn : 4 ≤ n) (hw : n < 2 ^ w) :
    writeWord mem a v (offset a n) = mem (offset a n) := by
  rw [writeWord, toNat_offset_sub a hw, if_neg (by omega)]

/-! ## Lists of words -/

/-- The words of a list lie side by side from an address on. -/
def Holds (mem : BitVec w → BitVec 8) : BitVec w → List (BitVec 32) → Prop
  | _, [] => True
  | a, v :: l => readWord mem a = v ∧ Holds mem (offset a 4) l

/-- No words are held anywhere. -/
@[simp] lemma holds_nil : Holds mem a [] := trivial

/-- The first word, and the others behind it. -/
@[simp] lemma holds_cons : Holds mem a (v :: l) ↔ readWord mem a = v ∧ Holds mem (offset a 4) l := Iff.rfl

/-- A list of words in two parts. -/
lemma holds_append :
    Holds mem a (l₁ ++ l₂) ↔ Holds mem a l₁ ∧ Holds mem (offset a (4 * l₁.length)) l₂ := by
  induction l₁ generalizing a with
  | nil => simp
  | cons v l₁ ih =>
    rw [List.cons_append, holds_cons, holds_cons, ih, offset_offset, List.length_cons,
      show 4 + 4 * l₁.length = 4 * (l₁.length + 1) by omega, and_assoc]

/-- A word of a list is read at its place. -/
lemma Holds.read (h : Holds mem a (l₁ ++ v :: l₂)) : readWord mem (offset a (4 * l₁.length)) = v :=
  (holds_append.1 h).2.1

/-- There are words of any number at an address. -/
lemma exists_holds (mem : BitVec w → BitVec 8) (a : BitVec w) (n : ℕ) :
    ∃ l, l.length = n ∧ Holds mem a l := by
  induction n generalizing a with
  | zero => exact ⟨[], rfl, trivial⟩
  | succ n ih =>
    obtain ⟨l, hl, hholds⟩ := ih (offset a 4)
    exact ⟨readWord mem a :: l, congrArg (· + 1) hl, rfl, hholds⟩

/-- The words at an address are determined by their number. -/
lemma Holds.unique (h₁ : Holds mem a l₁) (h₂ : Holds mem a l₂) (hlen : l₁.length = l₂.length) :
    l₁ = l₂ := by
  induction l₁ generalizing a l₂ with
  | nil => exact (List.length_eq_zero_iff.1 hlen.symm).symm
  | cons v l₁ ih =>
    cases l₂ with
    | nil => simp at hlen
    | cons v' l₂ =>
      obtain ⟨rfl, h₁⟩ := h₁
      obtain ⟨rfl, h₂⟩ := h₂
      rw [ih h₁ h₂ (Nat.succ.inj hlen)]

/-- The memories have the same `n` bytes from an address on. -/
def Agree (mem mem' : BitVec w → BitVec 8) (a : BitVec w) (n : ℕ) : Prop :=
  ∀ k < n, mem' (offset a k) = mem (offset a k)

/-- What a list of words reads of the memory. -/
lemma Holds.of_agree (h : Holds mem a l) (hagree : Agree mem mem' a (4 * l.length)) :
    Holds mem' a l := by
  induction l generalizing a with
  | nil => trivial
  | cons v l ih =>
    rw [List.length_cons] at hagree
    obtain ⟨hv, hl⟩ := h
    refine ⟨?_, ih hl fun k hk => ?_⟩
    · rw [readWord, hagree 3 (by omega), hagree 2 (by omega), hagree 1 (by omega), hagree 0 (by omega)]
      exact hv
    · rw [offset_offset]
      exact hagree (4 + k) (by omega)

/-- Storing a word below a list of words pushes it. -/
lemma Holds.push (h : Holds mem a l) (hl : 4 * (l.length + 1) ≤ 2 ^ w) (v : BitVec 32) :
    Holds (writeWord mem (a - BitVec.ofNat w 4) v) (a - BitVec.ofNat w 4) (v :: l) := by
  have hback : offset (a - BitVec.ofNat w 4) 4 = a := by
    rw [offset, BitVec.sub_add_cancel]
  refine ⟨readWord_writeWord (by omega), ?_⟩
  rw [hback]
  refine h.of_agree fun k hk => ?_
  have hbyte : offset a k = offset (a - BitVec.ofNat w 4) (4 + k) := by
    rw [← offset_offset, hback]
  rw [hbyte, writeWord_offset (by omega) (by omega)]

end WordMemory
