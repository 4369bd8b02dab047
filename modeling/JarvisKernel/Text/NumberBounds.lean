import JarvisKernel.Text.IntToString
import Mathlib.Algebra.GroupWithZero.Divisibility

set_option relaxedAutoImplicit false
set_option autoImplicit false

/-!
# What `int_to_string` accesses

The buffer that `handler_printf` passes has 64 bytes. The sign and the padding on the left are put before its
start, the precision and the padding on the right may go beyond its end, and the digits of a number that stays
negative are looked up before the start of the table.

## Main definitions

* `Jarvis.NumBuffer.StaysInside` — what is wanted of the accesses and of the text.
* `Jarvis.digitCount` — the number of digits that are put.
* `Jarvis.TextFits`, `Jarvis.WritesFit` — the conditions on the arguments.

## Main results

* `Jarvis.NumBuffer.digitLoop_trace` — what the loop of the digits accesses.
* `Jarvis.intToString_writes_iff` — when the writes are in the buffer.
* `Jarvis.staysInside_iff` — when the accesses are as is wanted.
-/

namespace Jarvis

/-- What is wanted: all writes are in the 64 bytes of the buffer, only the 32 digits of the table are looked up,
and the text, which has the returned length, starts at the start of the buffer and ends there, unless nothing is
written at all. -/
structure NumBuffer.StaysInside (b : NumBuffer) (length : ℤ) : Prop where
  writes : ∀ p ∈ b.writes, 0 ≤ p ∧ p < 64
  indices : ∀ i ∈ b.indices, 0 ≤ i ∧ i < 32
  text : ∀ k, 0 ≤ k → k < length → b.bytes k ≠ 0
  terminated : if b.writes = [] then length = 0 else 0 ≤ length ∧ b.bytes length = 0

/-- The length of the prefix that the flag `#` asks for. -/
def prefixLength (num : ℤ) (base : ℕ) (flags : BitVec 32) : ℤ :=
  if flags &&& 0x10 ≠ 0 ∧ num ≠ 0 then if base = 8 then 1 else if base = 16 then 2 else 0 else 0

/-- The number of digits that are put without a precision. A negative number has one. -/
def digitCount (base : ℕ) (num : ℤ) : ℕ := if 0 ≤ num then (Numeral.lowDigits base num.toNat).length else 1

/-- The number of digits that are put. -/
def putCount (base : ℕ) (num precision : ℤ) : ℕ := max (digitCount base num) precision.toNat

/-- The condition: nothing is put, or there is neither a sign nor padding on the left, the digits of a number
that stays negative are in the table, and what is put has 63 characters at most. -/
def TextFits (num : BitVec 32) (base : ℕ) (uppercase : Bool) (width precision : ℤ) (flags : BitVec 32) : Prop :=
  num = 0 ∧ precision = 0 ∨
    ¬ (num.slt 0 ∧ base = 10) ∧ flags &&& 0x02 = 0 ∧ flags &&& 0x04 = 0 ∧
      (num.slt 0 → uppercase ∨ (base : ℤ) ^ putCount base num.toInt precision ∣ num.toInt) ∧
      (flags &&& 0x01 ≠ 0 ∨ width ≤ prefixLength num.toInt base flags + putCount base num.toInt precision) ∧
      width ≤ 63 ∧ prefixLength num.toInt base flags + putCount base num.toInt precision ≤ 63

/-- The condition for the writes alone: nothing is put, or there is neither a sign nor padding on the left, and what is
put has 63 characters at most. -/
def WritesFit (num : BitVec 32) (base : ℕ) (width precision : ℤ) (flags : BitVec 32) : Prop :=
  num = 0 ∧ precision = 0 ∨
    ¬ (num.slt 0 ∧ base = 10) ∧ flags &&& 0x02 = 0 ∧ flags &&& 0x04 = 0 ∧
      (flags &&& 0x01 ≠ 0 ∨ width ≤ prefixLength num.toInt base flags + putCount base num.toInt precision) ∧
      width ≤ 63 ∧ prefixLength num.toInt base flags + putCount base num.toInt precision ≤ 63

instance (num : BitVec 32) (base : ℕ) (width precision : ℤ) (flags : BitVec 32) :
    Decidable (WritesFit num base width precision flags) := by
  unfold WritesFit
  infer_instance

/-! ## The digits -/

/-- The index in the table of the lowest digit of a number. -/
def digitIndex (base : ℕ) (uppercase : Bool) (num : ℤ) : ℤ :=
  if uppercase then num.tmod base + 16 else num.tmod base

/-- The indices of the lowest digits of a number. -/
def digitIndices (base : ℕ) (uppercase : Bool) : ℕ → ℤ → List ℤ
  | 0, _ => []
  | count + 1, num => digitIndex base uppercase num :: digitIndices base uppercase count (num.tdiv base)

section Digits

variable {base count : ℕ} {uppercase : Bool} {num : ℤ}

/-- One division takes one digit. -/
lemma digitCount_eq (hbase : 2 ≤ base) (num : ℤ) :
    digitCount base num = if 0 < num.tdiv base then digitCount base (num.tdiv base) + 1 else 1 := by
  rcases le_or_gt 0 num with hnonneg | hneg
  · obtain ⟨n, rfl⟩ := Int.eq_ofNat_of_zero_le hnonneg
    have hdiv : ((n : ℤ).tdiv base) = ((n / base : ℕ) : ℤ) := rfl
    rw [hdiv, digitCount, if_pos hnonneg, Int.toNat_natCast, Numeral.lowDigits_eq (by omega), List.length_cons]
    by_cases hmore : 0 < n / base
    · rw [if_pos hmore, if_pos (by exact_mod_cast hmore), digitCount, if_pos (Int.natCast_nonneg _),
        Int.toNat_natCast]
    · rw [if_neg hmore, if_neg (by exact_mod_cast hmore), List.length_nil]
  · have hquot := NumBuffer.tdiv_nonpos base hneg.le
    rw [digitCount, if_neg (not_le.2 hneg), if_neg (not_lt.2 hquot)]

/-- There is one digit at least. -/
lemma digitCount_pos (hbase : 2 ≤ base) (num : ℤ) : 0 < digitCount base num := by
  rw [digitCount_eq hbase]
  split_ifs <;> omega

/-- The digits of a number that is not negative are in the table. -/
lemma digitIndex_of_nonneg (hbase : 2 ≤ base) (hle : base ≤ 16) (hnum : 0 ≤ num) :
    0 ≤ digitIndex base uppercase num ∧ digitIndex base uppercase num < 32 := by
  have hpos : (0 : ℤ) < base := by omega
  have hnonneg := Int.tmod_nonneg (base : ℤ) hnum
  have hlt := Int.tmod_lt_of_pos num hpos
  rw [digitIndex]
  split_ifs <;> omega

/-- With upper-case digits every digit is looked up in the table. -/
lemma digitIndex_of_uppercase (hbase : 2 ≤ base) (hle : base ≤ 16) (num : ℤ) :
    0 ≤ digitIndex base true num ∧ digitIndex base true num < 32 := by
  have hpos : (0 : ℤ) < base := by omega
  have hgt := Int.lt_tmod_of_pos num hpos
  have hlt := Int.tmod_lt_of_pos num hpos
  rw [digitIndex, if_pos rfl]
  omega

/-- The digits of a negative number are in the table if the other digits are looked up, or if they are all 0. -/
lemma digitIndices_iff (hbase : 2 ≤ base) (hle : base ≤ 16) (count : ℕ) (num : ℤ) :
    (∀ i ∈ digitIndices base uppercase count num, 0 ≤ i ∧ i < 32) ↔
      (num < 0 → uppercase ∨ (base : ℤ) ^ count ∣ num) := by
  induction count generalizing num with
  | zero => simp [digitIndices]
  | succ count ih =>
    have hpos : (0 : ℤ) < base := by omega
    rw [digitIndices, List.forall_mem_cons, ih]
    rcases le_or_gt 0 num with hnonneg | hneg
    · have hquot := Int.tdiv_nonneg hnonneg hpos.le
      exact iff_of_true ⟨digitIndex_of_nonneg hbase hle hnonneg, fun h => absurd h (not_lt.2 hquot)⟩
        fun h => absurd h (not_lt.2 hnonneg)
    · cases uppercase with
      | true => exact iff_of_true ⟨digitIndex_of_uppercase hbase hle num, fun _ => .inl rfl⟩ fun _ => .inl rfl
      | false =>
        have hquot := NumBuffer.tdiv_nonpos base hneg.le
        have hmod : num.tmod base ≤ 0 := by
          have hopposite := Int.tmod_nonneg (base : ℤ) (show 0 ≤ -num by omega)
          rw [Int.neg_tmod] at hopposite
          omega
        have hlower := Int.lt_tmod_of_pos num hpos
        simp only [digitIndex, Bool.false_eq_true, if_false, false_or, hneg, true_imp_iff]
        constructor
        · rintro ⟨⟨hzero, -⟩, hrest⟩
          have hsplit := Int.mul_tdiv_cancel_of_tmod_eq_zero (le_antisymm hmod hzero)
          rw [← hsplit, pow_succ']
          refine mul_dvd_mul_left _ (hrest ?_)
          by_contra hnot
          rw [le_antisymm hquot (not_lt.1 hnot), mul_zero] at hsplit
          omega
        · intro hdvd
          have hbasedvd : (base : ℤ) ∣ num := (dvd_pow_self _ count.succ_ne_zero).trans hdvd
          have hzero := Int.tmod_eq_zero_of_dvd hbasedvd
          refine ⟨by omega, fun _ => ?_⟩
          rw [← Int.mul_tdiv_cancel_of_tmod_eq_zero hzero, pow_succ'] at hdvd
          exact (mul_dvd_mul_iff_left hpos.ne').1 hdvd

/-- All 32 entries of the table are characters. -/
lemma digitAt_ne_zero (stack : ℤ → BitVec 8) {i : ℤ} (hi : 0 ≤ i ∧ i < 32) : digitAt stack i ≠ 0 := by
  have htable : ∀ k < 32, digitTable.getD k 0 ≠ 0 := by decide
  rw [digitAt, if_pos (by omega)]
  exact htable _ (by omega)

end Digits

namespace NumBuffer

variable {stack : ℤ → BitVec 8} {base rounds : ℕ} {num prefixLen precision p start : ℤ} {uppercase : Bool}
  {b : NumBuffer} {flags : BitVec 32}

/-! ## What is written -/

/-- The bytes from place `p` on are characters, as far as place `q`. -/
def Filled (b : NumBuffer) (p q : ℤ) : Prop := ∀ k, p ≤ k → k < q → b.bytes k ≠ 0

/-- What a step does: it writes places from `p` on before `q`, all of them if `p ≤ q`, and looks up digits. -/
structure Writes (b b' : NumBuffer) (p q : ℤ) (indices : List ℤ) : Prop where
  writes : ∀ k, k ∈ b'.writes ↔ k ∈ b.writes ∨ p ≤ k ∧ k < q
  indices : b'.indices = b.indices ++ indices
  others : ∀ k, ¬ (p ≤ k ∧ k < q) → b'.bytes k = b.bytes k

/-- Nothing is written from a place to itself. -/
lemma writes_refl (b : NumBuffer) (p : ℤ) : Writes b b p p [] where
  writes _ := ⟨.inl, fun h => h.elim id fun hk => absurd hk.2 (not_lt.2 hk.1)⟩
  indices := (List.append_nil _).symm
  others _ _ := rfl

/-- One character is put at its place. -/
lemma writes_put (b : NumBuffer) (p : ℤ) (c : BitVec 8) : Writes b (b.put p c) p (p + 1) [] where
  writes k := by
    have hplace : k = p ↔ p ≤ k ∧ k < p + 1 := by omega
    rw [put, List.mem_append, List.mem_singleton, hplace]
  indices := (List.append_nil _).symm
  others k hk := Function.update_of_ne (by omega) _ _

/-- A character that is put behind others continues them. -/
lemma Filled.put {q : ℤ} {c : BitVec 8} (h : b.Filled p q) (hc : c ≠ 0) : (b.put q c).Filled p (q + 1) := by
  intro k hk hk'
  rcases eq_or_ne k q with rfl | hne
  · have hself : (b.put k c).bytes k = c := Function.update_self _ _ _
    rwa [hself]
  · have hother : (b.put q c).bytes k = b.bytes k := Function.update_of_ne hne _ _
    rw [hother]
    exact h k hk (by omega)

/-- Places that follow each other. -/
lemma Writes.trans {b₁ b₂ : NumBuffer} {q r : ℤ} {is js : List ℤ} (h₁ : Writes b b₁ p q is)
    (h₂ : Writes b₁ b₂ q r js) (hpq : p ≤ q) (hqr : q ≤ r) : Writes b b₂ p r (is ++ js) where
  writes k := by
    have hplace : (p ≤ k ∧ k < q ∨ q ≤ k ∧ k < r) ↔ p ≤ k ∧ k < r := by omega
    rw [h₂.writes, h₁.writes, or_assoc, hplace]
  indices := by rw [h₂.indices, h₁.indices, List.append_assoc]
  others k hk := by rw [h₂.others k (by omega), h₁.others k (by omega)]

/-- Places before each other, as the padding on the left writes them. -/
lemma Writes.trans_left {b₁ b₂ : NumBuffer} {q r : ℤ} {is js : List ℤ} (h₁ : Writes b b₁ q r is)
    (h₂ : Writes b₁ b₂ p q js) (hpq : p ≤ q) (hqr : q ≤ r) : Writes b b₂ p r (is ++ js) where
  writes k := by
    have hplace : (q ≤ k ∧ k < r ∨ p ≤ k ∧ k < q) ↔ p ≤ k ∧ k < r := by omega
    rw [h₂.writes, h₁.writes, or_assoc, hplace]
  indices := by rw [h₂.indices, h₁.indices, List.append_assoc]
  others k hk := by rw [h₂.others k (by omega), h₁.others k (by omega)]

/-- The round of one digit. -/
lemma writes_putDigit (stack : ℤ → BitVec 8) (base : ℕ) (uppercase : Bool) (num p : ℤ) (b : NumBuffer) :
    Writes b (b.putDigit stack uppercase p (num.tmod base)) p (p + 1) [digitIndex base uppercase num] where
  writes := (writes_put b p 0).writes
  indices := rfl
  others k hk := Function.update_of_ne (by omega) _ _

/-- **The loop of the digits** puts as many of them as there are, or as the precision asks for.

**Proof sketch.** Each round divides the number by the base. If the number is used up, the rounds for the
precision are left. -/
lemma digitLoop_trace {r : NumBuffer × ℤ} (hbase : 2 ≤ base)
    (h : digitLoop stack base uppercase prefixLen precision rounds num p b = some r) {count : ℕ}
    (hcount : count = max (digitCount base num) (precision - (p - prefixLen)).toNat) :
    r.2 = p + count ∧ Writes b r.1 p r.2 (digitIndices base uppercase count num) ∧
      ((∀ i ∈ digitIndices base uppercase count num, 0 ≤ i ∧ i < 32) → r.1.Filled p r.2) := by
  induction rounds generalizing num p b count with
  | zero => simp [digitLoop] at h
  | succ rounds ih =>
    have hput := writes_putDigit stack base uppercase num p b
    have hself : (b.putDigit stack uppercase p (num.tmod base)).bytes p =
        digitAt stack (digitIndex base uppercase num) := Function.update_self _ _ _
    have hdigits := digitCount_eq hbase num
    have hpos := digitCount_pos hbase (num.tdiv base)
    rw [digitLoop] at h
    split_ifs at h with hmore
    · obtain ⟨rest, rfl⟩ : ∃ rest, count = rest + 1 := ⟨count - 1, by split_ifs at hdigits <;> omega⟩
      have hrest : rest = max (digitCount base (num.tdiv base)) (precision - (p + 1 - prefixLen)).toNat := by
        have hone : ¬ 0 < num.tdiv base → digitCount base (num.tdiv base) = 1 := fun hquot => by
          have hquot' := NumBuffer.tdiv_nonpos base (not_lt.1 hquot)
          rw [digitCount_eq hbase, if_neg (not_lt.2 hquot')]
        split_ifs at hdigits with hquot
        · omega
        · have := hone hquot
          omega
      obtain ⟨hend, hwrites, hfilled⟩ := ih h hrest
      refine ⟨by push_cast; omega, hput.trans hwrites (by omega) (by omega), fun hindices k hk hk' => ?_⟩
      rw [digitIndices, List.forall_mem_cons] at hindices
      rcases eq_or_lt_of_le hk with rfl | hlt
      · rw [hwrites.others _ (by omega), hself]
        exact digitAt_ne_zero stack hindices.1
      · exact hfilled hindices.2 k hlt hk'
    · obtain rfl := Option.some.inj h
      have hone : count = 1 := by
        rw [if_neg (fun hquot => hmore (.inl hquot))] at hdigits
        omega
      subst hone
      refine ⟨rfl, hput, fun hindices k hk hk' => ?_⟩
      rw [digitIndices, List.forall_mem_cons] at hindices
      obtain rfl : k = p := by omega
      rw [hself]
      exact digitAt_ne_zero stack hindices.1

/-! ## Behind the digits -/

/-- The padding on the left is put before the start. -/
lemma padLeft_writes (c : BitVec 8) (pad : ℕ) (start : ℤ) (b : NumBuffer) :
    (b.padLeft c pad start).2 = start - pad ∧ Writes b (b.padLeft c pad start).1 (start - pad) start [] := by
  induction pad generalizing start b with
  | zero =>
    rw [padLeft, Nat.cast_zero, sub_zero]
    exact ⟨rfl, writes_refl b start⟩
  | succ pad ih =>
    obtain ⟨hstart, hwrites⟩ := ih (start - 1) (b.put (start - 1) c)
    have hput := writes_put b (start - 1) c
    have hplace : start - 1 - (pad : ℤ) = start - (pad + 1 : ℕ) := by push_cast; omega
    rw [sub_add_cancel] at hput
    rw [hplace] at hstart hwrites
    exact ⟨hstart, hput.trans_left hwrites (by push_cast; omega) (by omega)⟩

/-- The number of characters of a sign. -/
def signLength (negative : Bool) (flags : BitVec 32) : ℤ :=
  if negative ∨ flags &&& 0x02 ≠ 0 ∨ flags &&& 0x04 ≠ 0 then 1 else 0

/-- A sign has no or one character. -/
lemma signLength_nonneg (negative : Bool) (flags : BitVec 32) : 0 ≤ signLength negative flags := by
  rw [signLength]
  split_ifs <;> omega

/-- It is put before the start, too. -/
lemma putSign_writes (b : NumBuffer) (negative : Bool) (flags : BitVec 32) (start : ℤ) :
    (b.putSign negative flags start).2 = start - signLength negative flags ∧
      Writes b (b.putSign negative flags start).1 (start - signLength negative flags) start [] := by
  have hput : ∀ c, Writes b (b.put (start - 1) c) (start - 1) start [] := fun c => by
    have hput := writes_put b (start - 1) c
    rwa [sub_add_cancel] at hput
  rw [putSign]
  split_ifs with hneg hplus hblank
  · rw [signLength, if_pos (.inl hneg)]
    exact ⟨rfl, hput 45⟩
  · rw [signLength, if_pos (.inr (.inl hplus))]
    exact ⟨rfl, hput 43⟩
  · rw [signLength, if_pos (.inr (.inr hblank))]
    exact ⟨rfl, hput 32⟩
  · rw [signLength, if_neg (by tauto), sub_zero]
    exact ⟨rfl, writes_refl b start⟩

/-- The padding on the right is put behind the text, which goes on with it. -/
lemma padRight_writes (pad : ℕ) (p : ℤ) (b : NumBuffer) :
    (b.padRight pad p).2 = p + pad ∧ Writes b (b.padRight pad p).1 p (p + pad) [] ∧
      (b.padRight pad p).1.Filled p (p + pad) := by
  induction pad generalizing p b with
  | zero =>
    rw [padRight, Nat.cast_zero, add_zero]
    exact ⟨rfl, writes_refl b p, fun k hk hk' => absurd hk' (not_lt.2 hk)⟩
  | succ pad ih =>
    obtain ⟨hend, hwrites, hfilled⟩ := ih (p + 1) (b.put p 32)
    have hplace : p + 1 + (pad : ℤ) = p + (pad + 1 : ℕ) := by push_cast; omega
    rw [hplace] at hend hwrites hfilled
    refine ⟨hend, (writes_put b p 32).trans hwrites (by omega) (by push_cast; omega), fun k hk hk' => ?_⟩
    rcases eq_or_lt_of_le hk with rfl | hlt
    · have hself : (b.put p 32).bytes p = 32 := Function.update_self _ _ _
      rw [padRight, hwrites.others _ (by omega), hself]
      decide
    · exact hfilled k hlt hk'

/-- Reversing writes nothing but the places that are reversed. -/
lemma reverseLoop_writes (rounds : ℕ) (left right : ℤ) (b : NumBuffer) :
    (∀ k ∈ b.writes, k ∈ (b.reverseLoop rounds left right).writes) ∧
      (∀ k ∈ (b.reverseLoop rounds left right).writes, k ∈ b.writes ∨ left ≤ k ∧ k ≤ right) ∧
      (b.reverseLoop rounds left right).indices = b.indices := by
  induction rounds generalizing left right b with
  | zero => exact ⟨fun _ => id, fun _ => .inl, rfl⟩
  | succ rounds ih =>
    rw [reverseLoop]
    split_ifs with hlt
    · obtain ⟨hkept, hnew, hindices⟩ :=
        ih (left + 1) (right - 1) ((b.put left (b.bytes right)).put right (b.bytes left))
      have hmem : ∀ k, k ∈ ((b.put left (b.bytes right)).put right (b.bytes left)).writes ↔
          k ∈ b.writes ∨ k = left ∨ k = right := fun k => by
        rw [put, put, List.mem_append, List.mem_append, List.mem_singleton, List.mem_singleton, or_assoc]
      refine ⟨fun k hk => hkept k ((hmem k).2 (.inl hk)), fun k hk => ?_, hindices⟩
      rcases hnew k hk with h | h
      · rcases (hmem k).1 h with h | rfl | rfl
        · exact .inl h
        · exact .inr ⟨le_rfl, hlt.le⟩
        · exact .inr ⟨hlt.le, le_rfl⟩
      · exact .inr (by omega)
    · exact ⟨fun _ => id, fun _ => .inl, rfl⟩

/-- The padding that is asked for behind a text that ends at `p`. -/
def padding (width p : ℤ) : ℤ := if p < width then width - p else 0

/-- How far the text reaches before the start of the buffer. -/
def before (negative : Bool) (width : ℤ) (flags : BitVec 32) (p : ℤ) : ℤ :=
  signLength negative flags + if flags &&& 0x01 = 0 then padding width p else 0

/-- Where the text ends. -/
def textEnd (width : ℤ) (flags : BitVec 32) (p : ℤ) : ℤ := p + if flags &&& 0x01 = 0 then 0 else padding width p

/-- There is no negative padding. -/
lemma padding_nonneg (width p : ℤ) : 0 ≤ padding width p := by
  rw [padding]
  split_ifs <;> omega

/-- **Behind the digits**, before they are reversed: the padding and the sign are put before the start of the
buffer, or the padding behind the digits. -/
lemma finish_eq (b : NumBuffer) (negative : Bool) (width prefixLen : ℤ) (flags : BitVec 32) (p : ℤ) :
    ∃ b' : NumBuffer,
      (∀ k, k ∈ b'.writes ↔
        k ∈ b.writes ∨ (-before negative width flags p ≤ k ∧ k < 0) ∨ p ≤ k ∧ k < textEnd width flags p) ∧
      b'.indices = b.indices ∧
      (∀ k, 0 ≤ k → k < p → b'.bytes k = b.bytes k) ∧
      (0 ≤ p → b'.Filled p (textEnd width flags p)) ∧
      b.finish negative width prefixLen flags p =
        (((b'.reverseLoop
            (p - 1 - (-before negative width flags p + signLength negative flags + prefixLen)).toNat
            (-before negative width flags p + signLength negative flags + prefixLen) (p - 1)).put
          (textEnd width flags p) 0), textEnd width flags p + before negative width flags p) := by
  have hpad := padding_nonneg width p
  have hsign := signLength_nonneg negative flags
  rw [before, textEnd]
  have hpadding : (if p < width then width - p else 0) = padding width p := rfl
  have hlength : (if negative = true ∨ flags &&& 0x02 ≠ 0 ∨ flags &&& 0x04 ≠ 0 then (1 : ℤ) else 0) =
      signLength negative flags := rfl
  by_cases hright : flags &&& 0x01 = 0
  · have hnot : ¬ (flags &&& 0x01 ≠ 0 ∧ 0 < padding width p) := fun h => h.1 hright
    obtain ⟨hstart₁, hwrites₁⟩ :=
      padLeft_writes (if flags &&& 0x08 ≠ 0 then 48 else 32) (padding width p).toNat 0 b
    obtain ⟨padded, hpadded⟩ :
        ∃ r, r = b.padLeft (if flags &&& 0x08 ≠ 0 then 48 else 32) (padding width p).toNat 0 := ⟨_, rfl⟩
    rw [← hpadded] at hstart₁ hwrites₁
    obtain ⟨hstart₂, hwrites₂⟩ := putSign_writes padded.1 negative flags padded.2
    obtain ⟨signed, hsigned⟩ : ∃ r, r = padded.1.putSign negative flags padded.2 := ⟨_, rfl⟩
    rw [← hsigned, hstart₁] at hstart₂ hwrites₂
    have hwrites := hwrites₁.trans_left hwrites₂ (by omega) (by omega)
    have hplace : -(signLength negative flags + padding width p) = signed.2 := by omega
    rw [← hstart₂] at hwrites
    rw [if_pos hright, if_pos hright, add_zero, hplace]
    refine ⟨signed.1, fun k => ?_, ?_, fun k hk _ => ?_, fun _ k hk hk' => absurd hk' (not_lt.2 hk), ?_⟩
    · have hnone : ¬ (p ≤ k ∧ k < p) := fun hk => absurd hk.2 (not_lt.2 hk.1)
      rw [hwrites.writes, or_iff_left hnone]
    · rw [hwrites.indices, List.append_nil, List.append_nil]
    · exact hwrites.others k fun h => absurd hk (not_le.2 h.2)
    · simp only [finish, hpadding, hlength, if_pos hright, if_neg hnot, ← hpadded, ← hsigned, sub_zero]
      rw [← hplace, sub_neg_eq_add]
  · obtain ⟨hstart₁, hwrites₁⟩ := putSign_writes b negative flags 0
    obtain ⟨signed, hsigned⟩ : ∃ r, r = b.putSign negative flags 0 := ⟨_, rfl⟩
    rw [← hsigned] at hstart₁ hwrites₁
    obtain ⟨hend, hwrites₂, hfilled⟩ := padRight_writes (padding width p).toNat p signed.1
    rw [Int.toNat_of_nonneg hpad] at hend hwrites₂ hfilled
    have hended : (if flags &&& 0x01 ≠ 0 ∧ 0 < padding width p then
        signed.1.padRight (padding width p).toNat p else (signed.1, p)) =
          signed.1.padRight (padding width p).toNat p := by
      by_cases hpos : 0 < padding width p
      · rw [if_pos ⟨hright, hpos⟩]
      · have hzero : (padding width p).toNat = 0 := by omega
        rw [if_neg fun h => hpos h.2, hzero, padRight]
    have hback : p + padding width p - (if flags &&& 0x01 ≠ 0 ∧ 0 < padding width p then padding width p else 0) =
        p := by
      split_ifs with hpos
      · omega
      · have hzero : ¬ 0 < padding width p := fun h => hpos ⟨hright, h⟩
        omega
    have hplace : -signLength negative flags = signed.2 := by omega
    rw [zero_sub] at hstart₁ hwrites₁
    rw [if_neg hright, if_neg hright, add_zero]
    refine ⟨(signed.1.padRight (padding width p).toNat p).1, fun k => ?_, ?_, fun k hk hk' => ?_,
      fun _ => hfilled, ?_⟩
    · rw [hwrites₂.writes, hwrites₁.writes, or_assoc]
    · rw [hwrites₂.indices, hwrites₁.indices, List.append_nil, List.append_nil]
    · rw [hwrites₂.others k (by omega), hwrites₁.others k (by omega)]
    · simp only [finish, hpadding, hlength, if_neg hright, ← hsigned, hended, hend, hback]
      rw [← hplace, sub_neg_eq_add]

/-- The text does not start behind the start of the buffer. -/
lemma before_nonneg (negative : Bool) (width : ℤ) (flags : BitVec 32) (p : ℤ) :
    0 ≤ before negative width flags p := by
  have hpad := padding_nonneg width p
  have hsign := signLength_nonneg negative flags
  rw [before]
  split_ifs <;> omega

/-- It does not end before the digits do. -/
lemma le_textEnd (width : ℤ) (flags : BitVec 32) (p : ℤ) : p ≤ textEnd width flags p := by
  have hpad := padding_nonneg width p
  rw [textEnd]
  split_ifs <;> omega

/-- **Behind the digits**: the writes are in the buffer if nothing is put before its start, and the text ends in it.

**Proof sketch.** The first place of the text and its end are written. If the text starts at the start, the
places that are reversed are those of the digits. -/
lemma finish_writes_iff (negative : Bool) (width : ℤ) (flags : BitVec 32) (hp : 0 ≤ p) (hlead : 0 ≤ prefixLen)
    (hwrites : ∀ k, k ∈ b.writes ↔ 0 ≤ k ∧ k < p) :
    (∀ k ∈ (b.finish negative width prefixLen flags p).1.writes, 0 ≤ k ∧ k < 64) ↔
      before negative width flags p = 0 ∧ textEnd width flags p ≤ 63 := by
  have hbefore := before_nonneg negative width flags p
  have hsign := signLength_nonneg negative flags
  have hend := le_textEnd width flags p
  obtain ⟨b', hwrites', -, -, -, hfinish⟩ := finish_eq b negative width prefixLen flags p
  rw [hfinish]
  dsimp only
  generalize hleft : -before negative width flags p + signLength negative flags + prefixLen = left
  obtain ⟨hkept, hnew, -⟩ := reverseLoop_writes (p - 1 - left).toNat left (p - 1) b'
  have hmem : ∀ k, k ∈ ((b'.reverseLoop (p - 1 - left).toNat left (p - 1)).put (textEnd width flags p) 0).writes ↔
      k ∈ (b'.reverseLoop (p - 1 - left).toNat left (p - 1)).writes ∨ k = textEnd width flags p := fun k => by
    rw [put, List.mem_append, List.mem_singleton]
  constructor
  · intro h
    constructor
    · by_contra hpos
      have hfirst := hkept _ ((hwrites' (-before negative width flags p)).2 (.inr (.inl (by omega))))
      have := h _ ((hmem _).2 (.inl hfirst))
      omega
    · have := h _ ((hmem _).2 (.inr rfl))
      omega
  · rintro ⟨hzero, hle⟩ k hk
    rcases (hmem k).1 hk with hk | rfl
    · rcases hnew k hk with hk | hk
      · rw [hwrites', hwrites, hzero] at hk
        omega
      · omega
    · omega

/-- **Behind the digits**: the accesses are as is wanted if the digits are in the table and the writes are in the
buffer. -/
lemma finish_staysInside_iff (negative : Bool) (width : ℤ) (flags : BitVec 32) (hp : 0 ≤ p)
    (hlead : 0 ≤ prefixLen) (hwrites : ∀ k, k ∈ b.writes ↔ 0 ≤ k ∧ k < p)
    (hfilled : (∀ i ∈ b.indices, 0 ≤ i ∧ i < 32) → b.Filled 0 p) :
    (b.finish negative width prefixLen flags p).1.StaysInside (b.finish negative width prefixLen flags p).2 ↔
      (∀ i ∈ b.indices, 0 ≤ i ∧ i < 32) ∧ before negative width flags p = 0 ∧ textEnd width flags p ≤ 63 := by
  have hsign := signLength_nonneg negative flags
  have hend := le_textEnd width flags p
  rw [← finish_writes_iff negative width flags hp hlead hwrites]
  obtain ⟨b', -, hindices', hothers, hpadded, hfinish⟩ := finish_eq b negative width prefixLen flags p
  have hall : (b.finish negative width prefixLen flags p).1.indices = b.indices := by
    rw [hfinish, put, (reverseLoop_writes _ _ _ _).2.2, hindices']
  constructor
  · exact fun h => ⟨fun i hi => h.indices i (hall ▸ hi), h.writes⟩
  · rintro ⟨hinside, hin⟩
    obtain ⟨hzero, -⟩ := (finish_writes_iff negative width flags hp hlead hwrites).1 hin
    have hchars : b'.Filled 0 (textEnd width flags p) := fun k hk hk' => by
      rcases lt_or_ge k p with hlt | hge
      · rw [hothers k hk hlt]
        exact hfilled hinside k hk hlt
      · exact hpadded hp k hge hk'
    refine ⟨hin, fun i hi => hinside i (hall ▸ hi), ?_, ?_⟩
    · rw [hfinish, hzero, add_zero]
      intro k hk hk'
      rw [put]
      dsimp only
      rw [Function.update_of_ne hk'.ne, reverseLoop_bytes (by omega)]
      split_ifs with hplace
      · exact hchars _ (by omega) (by omega)
      · exact hchars k hk hk'
    · rw [hfinish, hzero, add_zero, if_neg]
      · exact ⟨hp.trans hend, Function.update_self _ _ _⟩
      · rw [put]
        exact List.append_ne_nil_of_right_ne_nil _ (List.cons_ne_nil _ _)

/-- The prefix is put at the start of the buffer. -/
lemma putPrefix_writes (b : NumBuffer) (num : ℤ) (base : ℕ) (uppercase : Bool) (flags : BitVec 32) :
    (b.putPrefix num base uppercase flags).2 = prefixLength num base flags ∧
      Writes b (b.putPrefix num base uppercase flags).1 0 (prefixLength num base flags) [] ∧
      (b.putPrefix num base uppercase flags).1.Filled 0 (prefixLength num base flags) := by
  have hempty : b.Filled 0 0 := fun k hk hk' => absurd hk' (not_lt.2 hk)
  have hzero := hempty.put (c := 48) (by decide)
  have hletter : (if uppercase then (88 : BitVec 8) else 120) ≠ 0 := by cases uppercase <;> decide
  rw [putPrefix, prefixLength]
  by_cases hflag : flags &&& 0x10 ≠ 0 ∧ num ≠ 0
  · rw [if_pos hflag, if_pos hflag]
    by_cases height : base = 8
    · rw [if_pos height, if_pos height]
      exact ⟨rfl, writes_put b 0 48, hzero⟩
    · rw [if_neg height, if_neg height]
      by_cases hsixteen : base = 16
      · rw [if_pos hsixteen, if_pos hsixteen]
        exact ⟨rfl, (writes_put b 0 48).trans (writes_put _ 1 _) (by omega) (by omega), hzero.put hletter⟩
      · rw [if_neg hsixteen, if_neg hsixteen]
        exact ⟨rfl, writes_refl b 0, hempty⟩
  · rw [if_neg hflag, if_neg hflag]
    exact ⟨rfl, writes_refl b 0, hempty⟩

/-- It has no negative length. -/
lemma prefixLength_nonneg (num : ℤ) (base : ℕ) (flags : BitVec 32) : 0 ≤ prefixLength num base flags := by
  rw [prefixLength]
  split_ifs <;> omega

end NumBuffer

variable {stack bytes : ℤ → BitVec 8} {base : ℕ} {num : BitVec 32} {uppercase : Bool} {width precision : ℤ}
  {flags : BitVec 32}

/-- The condition for the writes in terms of where the text starts and ends. -/
lemma writesFit_iff (hnone : ¬ (num = 0 ∧ precision = 0)) (hnegative : ¬ (num.slt 0 ∧ base = 10)) :
    WritesFit num base width precision flags ↔
      NumBuffer.before false width flags
          (prefixLength num.toInt base flags + putCount base num.toInt precision) = 0 ∧
        NumBuffer.textEnd width flags
          (prefixLength num.toInt base flags + putCount base num.toInt precision) ≤ 63 := by
  rw [WritesFit, or_iff_right hnone, and_iff_right hnegative]
  generalize prefixLength num.toInt base flags + putCount base num.toInt precision = p
  have hpad := NumBuffer.padding_nonneg width p
  have hsign := NumBuffer.signLength_nonneg false flags
  have hsigned : NumBuffer.signLength false flags = 0 ↔ flags &&& 0x02 = 0 ∧ flags &&& 0x04 = 0 := by
    rw [NumBuffer.signLength]
    by_cases hsome : (false : Bool) = true ∨ flags &&& 0x02 ≠ 0 ∨ flags &&& 0x04 ≠ 0
    · rw [if_pos hsome]
      exact iff_of_false one_ne_zero fun hnot => hsome.elim Bool.false_ne_true (·.elim (· hnot.1) (· hnot.2))
    · rw [if_neg hsome]
      rw [not_or, not_or, not_not, not_not] at hsome
      exact iff_of_true rfl hsome.2
  rw [NumBuffer.before, NumBuffer.textEnd]
  rw [NumBuffer.padding] at *
  by_cases hright : flags &&& 0x01 = 0
  · have hzero : NumBuffer.signLength false flags + (if p < width then width - p else 0) = 0 ↔
        (flags &&& 0x02 = 0 ∧ flags &&& 0x04 = 0) ∧ width ≤ p := by
      rw [← hsigned]
      split_ifs <;> omega
    rw [if_pos hright, if_pos hright, hzero]
    constructor
    · rintro ⟨hplus, hblank, hwidth, -, hp⟩
      exact ⟨⟨⟨hplus, hblank⟩, hwidth.resolve_left (not_not.2 hright)⟩, by omega⟩
    · rintro ⟨⟨⟨hplus, hblank⟩, hwidth⟩, hp⟩
      exact ⟨hplus, hblank, .inr hwidth, by omega, by omega⟩
  · rw [if_neg hright, if_neg hright, add_zero, hsigned]
    constructor
    · rintro ⟨hplus, hblank, -, hwidth, hp⟩
      exact ⟨⟨hplus, hblank⟩, by split_ifs <;> omega⟩
    · rintro ⟨⟨hplus, hblank⟩, hend⟩
      split_ifs at hend with hlt
      · exact ⟨hplus, hblank, .inl hright, by omega, by omega⟩
      · exact ⟨hplus, hblank, .inl hright, by omega, by omega⟩

/-- The text fits if its digits are in the table and its writes are in the buffer. -/
lemma textFits_iff (hnone : ¬ (num = 0 ∧ precision = 0)) :
    TextFits num base uppercase width precision flags ↔
      (num.slt 0 → uppercase ∨ (base : ℤ) ^ putCount base num.toInt precision ∣ num.toInt) ∧
        WritesFit num base width precision flags := by
  rw [TextFits, WritesFit, or_iff_right hnone, or_iff_right hnone]
  constructor
  · rintro ⟨hnegative, hplus, hblank, htable, hrest⟩
    exact ⟨htable, hnegative, hplus, hblank, hrest⟩
  · rintro ⟨htable, hnegative, hplus, hblank, hrest⟩
    exact ⟨hnegative, hplus, hblank, htable, hrest⟩

/-- Up to the end of the digits, `int_to_string` has written the places of the prefix and of the digits. -/
lemma intToString_finish (hbase : 2 ≤ base) {r : NumBuffer × ℤ} (hnone : ¬ (num = 0 ∧ precision = 0))
    (hr : intToString stack num ⟨bytes, [], []⟩ base uppercase width precision flags = some r) :
    ∃ (negative : Bool) (m p : ℤ) (b : NumBuffer), negative = decide (num.slt 0 = true ∧ base = 10) ∧
      m = (if negative then -num else num).toInt ∧
      p = prefixLength m base flags + putCount base m precision ∧ (∀ k, k ∈ b.writes ↔ 0 ≤ k ∧ k < p) ∧
      b.indices = digitIndices base uppercase (putCount base m precision) m ∧
      ((∀ i ∈ b.indices, 0 ≤ i ∧ i < 32) → b.Filled 0 p) ∧
      r = b.finish negative width (prefixLength m base flags) flags p := by
  rw [intToString, if_neg hnone] at hr
  obtain ⟨negative, hnegative⟩ : ∃ negative : Bool, negative = decide (num.slt 0 = true ∧ base = 10) := ⟨_, rfl⟩
  obtain ⟨m, hm⟩ : ∃ m, m = (if negative then -num else num).toInt := ⟨_, rfl⟩
  dsimp only at hr
  rw [← hnegative, ← hm] at hr
  obtain ⟨hstart, hwrites, hfilled⟩ := NumBuffer.putPrefix_writes ⟨bytes, [], []⟩ m base uppercase flags
  have hlead := NumBuffer.prefixLength_nonneg m base flags
  obtain ⟨loop, hloop, rfl⟩ := Option.map_eq_some_iff.1 hr
  rw [hstart] at hloop
  have hcount : putCount base m precision =
      max (digitCount base m) (precision - (prefixLength m base flags - prefixLength m base flags)).toNat := by
    rw [putCount, sub_self, sub_zero]
  obtain ⟨hend, hwrites', hfilled'⟩ := NumBuffer.digitLoop_trace hbase hloop hcount
  have hboth := hwrites.trans hwrites' hlead (by omega)
  have hindices : loop.1.indices = digitIndices base uppercase (putCount base m precision) m := by
    rw [hboth.indices, List.nil_append, List.nil_append]
  refine ⟨negative, m, loop.2, loop.1, hnegative, hm, hend, fun k => ?_, hindices, fun hinside k hk hk' => ?_, ?_⟩
  · rw [hboth.writes]
    exact or_iff_right List.not_mem_nil
  · rcases lt_or_ge k (prefixLength m base flags) with hlt | hge'
    · rw [hwrites'.others k (by omega)]
      exact hfilled k hk hlt
    · exact hfilled' (hindices ▸ hinside) k hge' hk'
  · rw [hstart]

/-- What is put has one place before the start of the buffer at least, or starts there and ends in the buffer. -/
lemma before_eq_zero_iff {negative : Bool} (hnone : ¬ (num = 0 ∧ precision = 0)) {m p : ℤ}
    (hnegative : negative = decide (num.slt 0 = true ∧ base = 10)) (hm : m = (if negative then -num else num).toInt)
    (hp : p = prefixLength m base flags + putCount base m precision) :
    NumBuffer.before negative width flags p = 0 ∧ NumBuffer.textEnd width flags p ≤ 63 ↔
      WritesFit num base width precision flags := by
  cases negative with
  | true =>
    have hslt : num.slt 0 = true ∧ base = 10 := of_decide_eq_true hnegative.symm
    have hpad := NumBuffer.padding_nonneg width p
    refine iff_of_false (fun h => ?_) ?_
    · have hbefore := h.1
      rw [NumBuffer.before, NumBuffer.signLength, if_pos (.inl rfl)] at hbefore
      split_ifs at hbefore <;> omega
    · rw [WritesFit, or_iff_right hnone]
      exact fun h => h.1 hslt
  | false =>
    rw [if_neg Bool.false_ne_true] at hm
    subst hm hp
    exact (writesFit_iff hnone (of_decide_eq_false hnegative.symm)).symm

/-- **The writes of `int_to_string` are in the buffer** if and only if what is put fits. -/
lemma intToString_writes_iff (hbase : 2 ≤ base) {r : NumBuffer × ℤ}
    (hr : intToString stack num ⟨bytes, [], []⟩ base uppercase width precision flags = some r) :
    (∀ p ∈ r.1.writes, 0 ≤ p ∧ p < 64) ↔ WritesFit num base width precision flags := by
  by_cases hnone : num = 0 ∧ precision = 0
  · rw [intToString, if_pos hnone] at hr
    obtain rfl := Option.some.inj hr
    exact iff_of_true (fun p hp => absurd hp List.not_mem_nil) (.inl hnone)
  · obtain ⟨negative, m, p, b, hnegative, hm, hp, hwrites, -, -, rfl⟩ := intToString_finish hbase hnone hr
    have hlead := NumBuffer.prefixLength_nonneg m base flags
    rw [NumBuffer.finish_writes_iff negative width flags (by omega) hlead hwrites,
      before_eq_zero_iff hnone hnegative hm hp]

/-- **`int_to_string` stays inside the buffer** of 64 bytes and inside its table of digits, and leaves the text
from the start of the buffer on, if and only if the text fits.

**Proof sketch.** The loop of the digits puts `putCount` of them. -/
theorem staysInside_iff (hbase : base = 8 ∨ base = 10 ∨ base = 16) :
    (∃ r, intToString stack num ⟨bytes, [], []⟩ base uppercase width precision flags = some r ∧
        r.1.StaysInside r.2) ↔
      TextFits num base uppercase width precision flags := by
  have hge : 2 ≤ base := by omega
  have hle : base ≤ 16 := by omega
  obtain ⟨r, hr⟩ := Option.isSome_iff_exists.1
    (intToString_isSome hge stack num ⟨bytes, [], []⟩ uppercase width precision flags)
  rw [hr]
  simp only [Option.some.injEq, exists_eq_left']
  by_cases hnone : num = 0 ∧ precision = 0
  · rw [intToString, if_pos hnone] at hr
    obtain rfl := Option.some.inj hr
    exact iff_of_true ⟨fun p hp => absurd hp List.not_mem_nil, fun i hi => absurd hi List.not_mem_nil,
      fun k hk hk' => absurd hk' (not_lt.2 hk), rfl⟩ (.inl hnone)
  · obtain ⟨negative, m, p, b, hnegative, hm, hp, hwrites, hindices, hfilled, rfl⟩ :=
      intToString_finish hge hnone hr
    have hlead := NumBuffer.prefixLength_nonneg m base flags
    rw [NumBuffer.finish_staysInside_iff negative width flags (by omega) hlead hwrites hfilled,
      before_eq_zero_iff hnone hnegative hm hp, hindices, digitIndices_iff hge hle, textFits_iff hnone]
    -- a number that is put without its sign is not negative
    cases negative with
    | true =>
      have hslt : num.slt 0 = true ∧ base = 10 := of_decide_eq_true hnegative.symm
      have hnot : ¬ WritesFit num base width precision flags := by
        rw [WritesFit, or_iff_right hnone]
        exact fun h => h.1 hslt
      exact iff_of_false (fun h => hnot h.2) fun h => hnot h.2
    | false =>
      rw [if_neg Bool.false_ne_true] at hm
      subst hm
      have hneg : num.slt 0 = true ↔ num.toInt < 0 := BitVec.slt_iff_toInt_lt
      rw [hneg]

/-- In the process list, `%5d` puts the blanks before the number 7 before the start of the buffer. -/
theorem not_staysInside : ¬ ∃ r, intToString (fun _ => 0) 7 ⟨fun _ => 0, [], []⟩ 10 false 5 1 0 = some r ∧
    r.1.StaysInside r.2 := by
  rintro ⟨r, hr, h⟩
  have hwrites : (intToString (fun _ => 0) 7 ⟨fun _ => 0, [], []⟩ 10 false 5 1 0).map (·.1.writes) =
      some [0, -1, -2, -3, -4, -4, 0, -3, -1, 1] := by decide
  rw [hr, Option.map_some] at hwrites
  have := h.writes (-1) (by rw [Option.some.inj hwrites]; decide)
  omega

/-- A number without flags and width. -/
theorem staysInside_iff_seven :
    (∃ r, intToString (fun _ => 0) 7 ⟨fun _ => 0, [], []⟩ 10 false 0 1 0 = some r ∧ r.1.StaysInside r.2) ↔
      TextFits 7 10 false 0 1 0 :=
  staysInside_iff (.inr (.inl rfl))

end Jarvis
