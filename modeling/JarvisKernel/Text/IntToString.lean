import JarvisKernel.Lib.Numeral
import Mathlib.Logic.Function.Basic
import Mathlib.Tactic.Linarith

set_option relaxedAutoImplicit false
set_option autoImplicit false

/-!
# Numbers as text

`int_to_string` of `src/kernel/string.c`. The digits are put into the buffer from its start on, the lowest
first, and are reversed at the end; padding and the sign are put before the start of the buffer. A number
stays negative if it is the least one or the base is not 10, and then only one digit is put, from a place
before the table of digits.

## Main definitions

* `Jarvis.NumBuffer` — the buffer, and what of it is accessed.
* `Jarvis.intToString` — the function.
* `Jarvis.lowChars` — the characters that the loop puts.

## Main results

* `Jarvis.intToString_isSome` — the function returns.
* `Jarvis.intToString_plain` — the text without flags and width.
-/

namespace Jarvis

/-- A buffer for the text of a number: the bytes at the places from its start on, before it as well. The
places that are written, and the places that are read in the table of digits, are kept. -/
structure NumBuffer where
  bytes : ℤ → BitVec 8
  writes : List ℤ
  indices : List ℤ

/-- The table of digits: `0123456789abcdef0123456789ABCDEF` with its end. -/
def digitTable : List (BitVec 8) :=
  [48, 49, 50, 51, 52, 53, 54, 55, 56, 57, 97, 98, 99, 100, 101, 102,
    48, 49, 50, 51, 52, 53, 54, 55, 56, 57, 65, 66, 67, 68, 69, 70, 0]

/-- What is read at an index of the table, which has other bytes of the stack before and behind it. -/
def digitAt (stack : ℤ → BitVec 8) (i : ℤ) : BitVec 8 :=
  if 0 ≤ i ∧ i < 33 then digitTable.getD i.toNat 0 else stack i

namespace NumBuffer

/-- Writing one byte. -/
def put (b : NumBuffer) (p : ℤ) (c : BitVec 8) : NumBuffer :=
  { b with bytes := Function.update b.bytes p c, writes := b.writes ++ [p] }

/-- Writing one digit, with the index that is read. -/
def putDigit (stack : ℤ → BitVec 8) (uppercase : Bool) (b : NumBuffer) (p digit : ℤ) : NumBuffer :=
  let i := if uppercase then digit + 16 else digit
  { b.put p (digitAt stack i) with indices := b.indices ++ [i] }

/-- The prefix that the flag `#` asks for, and its length. -/
def putPrefix (b : NumBuffer) (num : ℤ) (base : ℕ) (uppercase : Bool) (flags : BitVec 32) : NumBuffer × ℤ :=
  if flags &&& 0x10 ≠ 0 ∧ num ≠ 0 then
    if base = 8 then (b.put 0 48, 1)
    else if base = 16 then ((b.put 0 48).put 1 (if uppercase then 88 else 120), 2)
    else (b, 0)
  else (b, 0)

/-- The loop that puts the digits from place `p` on, the lowest first, with the place behind them. -/
def digitLoop (stack : ℤ → BitVec 8) (base : ℕ) (uppercase : Bool) (prefixLen precision : ℤ) :
    ℕ → ℤ → ℤ → NumBuffer → Option (NumBuffer × ℤ)
  | 0, _, _, _ => none
  | rounds + 1, num, p, b =>
    let b := b.putDigit stack uppercase p (num.tmod base)
    let num := num.tdiv base
    if 0 < num ∨ p + 1 - prefixLen < precision then
      digitLoop stack base uppercase prefixLen precision rounds num (p + 1) b
    else some (b, p + 1)

/-- The loops that pad on the left, with the new start. -/
def padLeft (c : BitVec 8) : ℕ → ℤ → NumBuffer → NumBuffer × ℤ
  | 0, start, b => (b, start)
  | pad + 1, start, b => padLeft c pad (start - 1) (b.put (start - 1) c)

/-- The sign, with the new start. -/
def putSign (b : NumBuffer) (negative : Bool) (flags : BitVec 32) (start : ℤ) : NumBuffer × ℤ :=
  if negative then (b.put (start - 1) 45, start - 1)
  else if flags &&& 0x02 ≠ 0 then (b.put (start - 1) 43, start - 1)
  else if flags &&& 0x04 ≠ 0 then (b.put (start - 1) 32, start - 1)
  else (b, start)

/-- The loop that pads on the right, with the new end. -/
def padRight : ℕ → ℤ → NumBuffer → NumBuffer × ℤ
  | 0, p, b => (b, p)
  | pad + 1, p, b => padRight pad (p + 1) (b.put p 32)

/-- The loop that reverses the bytes from `left` to `right`. -/
def reverseLoop : ℕ → ℤ → ℤ → NumBuffer → NumBuffer
  | 0, _, _, b => b
  | rounds + 1, left, right, b =>
    if left < right then
      reverseLoop rounds (left + 1) (right - 1) ((b.put left (b.bytes right)).put right (b.bytes left))
    else b

/-- What is done behind the loop of the digits, which has ended at `p`. The length of the text is returned. -/
def finish (b : NumBuffer) (negative : Bool) (width prefixLen : ℤ) (flags : BitVec 32) (p : ℤ) :
    NumBuffer × ℤ :=
  let pad := if p < width then width - p else 0
  let padded :=
    if flags &&& 0x01 = 0 then b.padLeft (if flags &&& 0x08 ≠ 0 then 48 else 32) pad.toNat 0 else (b, 0)
  let signed := padded.1.putSign negative flags padded.2
  let ended := if flags &&& 0x01 ≠ 0 ∧ 0 < pad then signed.1.padRight pad.toNat p else (signed.1, p)
  let left :=
    signed.2 + (if negative ∨ flags &&& 0x02 ≠ 0 ∨ flags &&& 0x04 ≠ 0 then 1 else 0) + prefixLen
  let right := ended.2 - (if flags &&& 0x01 ≠ 0 ∧ 0 < pad then pad else 0) - 1
  ((ended.1.reverseLoop (right - left).toNat left right).put ended.2 0, ended.2 - signed.2)

end NumBuffer

/-- `int_to_string`, with the buffer that it leaves and the length that it returns. -/
def intToString (stack : ℤ → BitVec 8) (num : BitVec 32) (buffer : NumBuffer) (base : ℕ) (uppercase : Bool)
    (width precision : ℤ) (flags : BitVec 32) : Option (NumBuffer × ℤ) :=
  if num = 0 ∧ precision = 0 then some (buffer, 0)
  else
    let negative : Bool := num.slt 0 ∧ base = 10
    let num := (if negative then -num else num).toInt
    let prefixed := buffer.putPrefix num base uppercase flags
    (NumBuffer.digitLoop stack base uppercase prefixed.2 precision (32 + precision.toNat) num prefixed.2
      prefixed.1).map fun r => r.1.finish negative width prefixed.2 flags r.2

-- the sign of -42 is before the start of the buffer
example : (intToString (fun _ => 0) (-42) ⟨fun _ => 0, [], []⟩ 10 false 0 1 0).map
    (fun r => ([r.1.bytes (-1), r.1.bytes 0, r.1.bytes 1], r.2)) = some ([45, 52, 50], 3) := by
  decide

/-! ## The text of a number -/

/-- A text in the bytes from place `p` on. -/
def placed (bytes : ℤ → BitVec 8) (p : ℤ) (text : List (BitVec 8)) : ℤ → BitVec 8 := fun k =>
  if p ≤ k ∧ k < p + text.length then text.getD (k - p).toNat 0 else bytes k

/-- The character of a digit. -/
def digitChar (uppercase : Bool) (d : ℕ) : BitVec 8 := digitTable.getD (if uppercase then d + 16 else d) 0

/-- The characters that the loop of the digits puts for a number, the lowest one first. For a negative number
it is one, and may be from outside the table. -/
def lowChars (stack : ℤ → BitVec 8) (base : ℕ) (uppercase : Bool) (num : ℤ) : List (BitVec 8) :=
  if 0 ≤ num then (Numeral.lowDigits base num.toNat).map (digitChar uppercase)
  else [digitAt stack (if uppercase then num.tmod base + 16 else num.tmod base)]

/-- The number whose digits are put: without its sign if the base is 10. -/
def putNumber (base : ℕ) (num : BitVec 32) : ℤ := (if num.slt 0 ∧ base = 10 then -num else num).toInt

/-- A character, and the text behind it. -/
lemma placed_update (bytes : ℤ → BitVec 8) (p : ℤ) (c : BitVec 8) (text : List (BitVec 8)) :
    placed (Function.update bytes p c) (p + 1) text = placed bytes p (c :: text) := by
  funext k
  rw [placed, placed, List.length_cons]
  push_cast
  rcases lt_trichotomy k p with hlt | rfl | hlt
  · rw [if_neg (by omega), if_neg (by omega), Function.update_of_ne hlt.ne]
  · rw [if_neg (by omega), if_pos (by omega), Function.update_self, Int.sub_self]
    rfl
  · have hindex : (k - p).toNat = (k - (p + 1)).toNat + 1 := by omega
    rw [hindex, List.getD_cons_succ, Function.update_of_ne hlt.ne']
    exact if_congr (by omega) rfl rfl

/-- No text changes nothing. -/
lemma placed_nil (bytes : ℤ → BitVec 8) (p : ℤ) : placed bytes p [] = bytes := by
  funext k
  rw [placed, if_neg (by simp)]

/-- The index of a digit is in the table. -/
lemma digitAt_of_lt {d : ℕ} (hd : d < 16) (stack : ℤ → BitVec 8) (uppercase : Bool) :
    digitAt stack (if uppercase then (d : ℤ) + 16 else d) = digitChar uppercase d := by
  rw [digitAt, digitChar]
  cases uppercase with
  | false => rw [if_pos (by simp; omega)]; rfl
  | true => rw [if_pos (by simp; omega)]; rfl

namespace NumBuffer

variable {stack : ℤ → BitVec 8} {base rounds : ℕ} {num prefixLen precision p : ℤ} {uppercase : Bool}
  {b : NumBuffer}

/-! ## The loops -/

/-- A number that is not positive stays so when it is divided. -/
lemma tdiv_nonpos (base : ℕ) (hnum : num ≤ 0) : num.tdiv base ≤ 0 := by
  have hneg : (-num).tdiv base = -num.tdiv base := Int.neg_tdiv num base
  have hnonneg : 0 ≤ (-num).tdiv base := Int.tdiv_nonneg (Int.neg_nonneg_of_nonpos hnum) (Int.natCast_nonneg base)
  omega

/-- One division takes a bit at least. -/
lemma tdiv_lt_pow (hbase : 2 ≤ base) (hnum : num < 2 ^ (rounds + 1)) : num.tdiv base < 2 ^ rounds := by
  have hpow : (0 : ℤ) < 2 ^ rounds := by positivity
  rcases le_or_gt num 0 with hnonpos | hpos
  · exact (tdiv_nonpos base hnonpos).trans_lt hpow
  · rw [Int.tdiv_eq_ediv_of_nonneg hpos.le]
    refine Int.ediv_lt_of_lt_mul (by omega) (hnum.trans_le ?_)
    rw [pow_succ]
    exact mul_le_mul_of_nonneg_left (by exact_mod_cast hbase) hpow.le

/-- The loop of the digits ends after as many rounds as the number has bits, if the precision does not ask
for more of them. -/
lemma digitLoop_isSome (hbase : 2 ≤ base) (hnum : num < 2 ^ rounds)
    (hprecision : precision + prefixLen - p ≤ rounds + 1) :
    (digitLoop stack base uppercase prefixLen precision (rounds + 1) num p b).isSome := by
  induction rounds generalizing num p b with
  | zero =>
    have hquot : num.tdiv base ≤ 0 := tdiv_nonpos base (by omega)
    rw [digitLoop, if_neg]
    · rfl
    · push_cast at hprecision
      omega
  | succ rounds ih =>
    rw [digitLoop]
    split_ifs with hmore
    · exact ih (tdiv_lt_pow hbase hnum) (by push_cast at hprecision ⊢; omega)
    · rfl

/-- **The loop of the digits** puts the digits, if the precision does not ask for more.

**Proof sketch.** Each round divides the number by the base, and a negative quotient or 0 ends the loop. -/
lemma digitLoop_bytes {r : NumBuffer × ℤ} (hbase : 2 ≤ base) (hle : base ≤ 16)
    (hprecision : precision ≤ p + 1 - prefixLen)
    (h : digitLoop stack base uppercase prefixLen precision rounds num p b = some r) :
    r.1.bytes = placed b.bytes p (lowChars stack base uppercase num) ∧
      r.2 = p + (lowChars stack base uppercase num).length := by
  induction rounds generalizing num p b with
  | zero => simp [digitLoop] at h
  | succ rounds ih =>
    rw [digitLoop] at h
    have hbytes : (b.putDigit stack uppercase p (num.tmod base)).bytes =
        Function.update b.bytes p (digitAt stack (if uppercase then num.tmod base + 16 else num.tmod base)) :=
      rfl
    rcases le_or_gt 0 num with hnonneg | hneg
    · obtain ⟨n, rfl⟩ := Int.eq_ofNat_of_zero_le hnonneg
      have hmod : ((n : ℤ).tmod base) = ((n % base : ℕ) : ℤ) := rfl
      have hdiv : ((n : ℤ).tdiv base) = ((n / base : ℕ) : ℤ) := rfl
      have hlt : n % base < base := Nat.mod_lt n (by omega)
      rw [hmod, digitAt_of_lt (hlt.trans_le hle)] at hbytes
      rw [hdiv, hmod] at h
      have hchars : lowChars stack base uppercase n = digitChar uppercase (n % base) ::
          if 0 < n / base then lowChars stack base uppercase ((n / base : ℕ) : ℤ) else [] := by
        rw [lowChars, if_pos hnonneg, Int.toNat_natCast, Numeral.lowDigits_eq (by omega), List.map_cons]
        congr 1
        split_ifs with hmore
        · rw [lowChars, if_pos (Int.natCast_nonneg _), Int.toNat_natCast]
        · rfl
      rw [hchars]
      by_cases hmore : 0 < n / base
      · rw [if_pos (.inl (by exact_mod_cast hmore))] at h
        obtain ⟨hbytes', hend⟩ := ih (by omega) h
        rw [if_pos hmore, hbytes', hend, hbytes, placed_update, List.length_cons]
        exact ⟨rfl, by push_cast; omega⟩
      · rw [if_neg (by push Not; exact ⟨by exact_mod_cast not_lt.1 hmore, hprecision⟩)] at h
        obtain rfl := Option.some.inj h
        rw [if_neg hmore, hbytes, ← placed_update, placed_nil]
        exact ⟨rfl, rfl⟩
    · have hquot : num.tdiv base ≤ 0 := tdiv_nonpos base hneg.le
      rw [if_neg (by omega)] at h
      obtain rfl := Option.some.inj h
      rw [lowChars, if_neg (not_le.2 hneg), hbytes, ← placed_update, placed_nil]
      exact ⟨rfl, rfl⟩

/-- **The loop that reverses** the bytes from `left` to `right`. -/
lemma reverseLoop_bytes {left right : ℤ} (hrounds : right - left ≤ 2 * rounds) (k : ℤ) :
    (b.reverseLoop rounds left right).bytes k =
      if left ≤ k ∧ k ≤ right then b.bytes (left + right - k) else b.bytes k := by
  induction rounds generalizing left right b with
  | zero =>
    rw [reverseLoop]
    split_ifs with hk
    · congr 1
      omega
    · rfl
  | succ rounds ih =>
    rw [reverseLoop]
    split_ifs with hlt hk hk
    · rw [ih (by push_cast at hrounds; omega)]
      have hbytes : ∀ j, ((b.put left (b.bytes right)).put right (b.bytes left)).bytes j =
          if j = right then b.bytes left else if j = left then b.bytes right else b.bytes j := by
        intro j
        rw [put, put]
        dsimp only
        rw [Function.update_apply, Function.update_apply]
      rw [hbytes, hbytes]
      split_ifs <;> (congr 1; omega)
    · rw [ih (by push_cast at hrounds; omega), if_neg (by omega)]
      rw [put, put]
      dsimp only
      rw [Function.update_of_ne (by omega), Function.update_of_ne (by omega)]
    · congr 1
      omega
    · rfl

end NumBuffer

variable {stack : ℤ → BitVec 8} {base : ℕ} {num : BitVec 32} {buffer : NumBuffer} {uppercase : Bool}
  {width precision : ℤ} {flags : BitVec 32}

/-- A 32-bit number is below `2^31` and more. -/
lemma toInt_lt_pow (x : BitVec 32) (k : ℕ) : x.toInt < 2 ^ (31 + k) := by
  have hlt : x.toInt < 2 ^ 31 := BitVec.toInt_lt
  have hpow : (2 : ℤ) ^ 31 ≤ 2 ^ (31 + k) := pow_le_pow_right₀ (by decide) (Nat.le_add_right 31 k)
  exact hlt.trans_le hpow

/-- **The function returns**, whatever flags, width and precision it is given. -/
lemma intToString_isSome (hbase : 2 ≤ base) (stack : ℤ → BitVec 8) (num : BitVec 32) (buffer : NumBuffer)
    (uppercase : Bool) (width precision : ℤ) (flags : BitVec 32) :
    (intToString stack num buffer base uppercase width precision flags).isSome := by
  rw [intToString]
  split_ifs with hnone
  · rfl
  · rw [Option.isSome_map]
    have hrounds : 32 + precision.toNat = 31 + precision.toNat + 1 := by omega
    rw [hrounds]
    exact NumBuffer.digitLoop_isSome hbase (toInt_lt_pow _ _) (by push_cast; omega)

/-! ## Without flags and width -/

/-- Behind the loop of the digits, if there are no flags and there is no width: the sign is put before the
start, the digits are reversed, and the text ends behind them. -/
lemma finish_plain (b : NumBuffer) (negative : Bool) {p : ℤ} (hp : 0 ≤ p) :
    b.finish negative 0 0 0 p =
      (((if negative then b.put (-1) 45 else b).reverseLoop (p - 1).toNat 0 (p - 1)).put p 0,
        p + if negative then 1 else 0) := by
  have hnot : ¬ p < 0 := not_lt.2 hp
  cases negative with
  | false => simp [NumBuffer.finish, hnot, NumBuffer.padLeft, NumBuffer.putSign]
  | true => simp [NumBuffer.finish, hnot, NumBuffer.padLeft, NumBuffer.putSign]

/-- Reversing a text in its place. -/
lemma reverseLoop_placed {b : NumBuffer} {bytes : ℤ → BitVec 8} {text : List (BitVec 8)}
    (h : ∀ k, 0 ≤ k → b.bytes k = placed bytes 0 text k) (rounds : ℕ) (hrounds : text.length ≤ rounds + 1) :
    (List.range text.length).map (fun i : ℕ => (b.reverseLoop rounds 0 (text.length - 1)).bytes i) =
      text.reverse := by
  apply List.ext_getElem
  · simp
  · intro i hi hi'
    rw [List.length_reverse] at hi'
    rw [List.getElem_map, List.getElem_range, NumBuffer.reverseLoop_bytes (by omega), if_pos (by omega),
      h _ (by omega), placed, if_pos (by omega), List.getElem_reverse]
    have hindex : ((0 : ℤ) + (text.length - 1) - i - 0).toNat = text.length - 1 - i := by omega
    rw [hindex, List.getD_eq_getElem?_getD, List.getElem?_eq_getElem (by omega), Option.getD_some]

/-- **The text of a number** without flags and width: it has the characters that the loop has put, the highest
one first, and ends behind them. The length counts the sign before the start as well. -/
lemma intToString_plain (hbase : 2 ≤ base) (hle : base ≤ 16) (stack : ℤ → BitVec 8) (num : BitVec 32)
    (uppercase : Bool) (buffer : NumBuffer) :
    ∃ (b : NumBuffer) (chars : List (BitVec 8)),
      chars = lowChars stack base uppercase (putNumber base num) ∧
        intToString stack num buffer base uppercase 0 1 0 =
          some (b, (chars.length : ℤ) + if num.slt 0 ∧ base = 10 then 1 else 0) ∧
        (List.range chars.length).map (fun i : ℕ => b.bytes i) = chars.reverse ∧
        b.bytes chars.length = 0 := by
  have hstart : ∀ m : ℤ, buffer.putPrefix m base uppercase 0 = (buffer, 0) := fun m => by
    rw [NumBuffer.putPrefix, if_neg (by simp)]
  have hsome : (NumBuffer.digitLoop stack base uppercase 0 1 33 (putNumber base num) 0 buffer).isSome :=
    NumBuffer.digitLoop_isSome hbase (toInt_lt_pow _ 1) (by norm_num)
  obtain ⟨r, hr⟩ := Option.isSome_iff_exists.1 hsome
  obtain ⟨hbytes, hend⟩ := NumBuffer.digitLoop_bytes hbase hle (by norm_num) hr
  generalize hchars : lowChars stack base uppercase (putNumber base num) = chars at hbytes hend
  rw [Int.zero_add] at hend
  obtain ⟨negative, hnegative⟩ : ∃ negative : Bool, negative = decide (num.slt 0 = true ∧ base = 10) := ⟨_, rfl⟩
  have hsigned : ∀ k, 0 ≤ k →
      (if negative then r.1.put (-1) 45 else r.1).bytes k = placed buffer.bytes 0 chars k := by
    intro k hk
    rw [← hbytes]
    cases negative with
    | false => rfl
    | true => exact Function.update_of_ne (by omega) _ _
  refine ⟨((if negative then r.1.put (-1) 45 else r.1).reverseLoop (r.2 - 1).toNat 0 (r.2 - 1)).put r.2 0,
    chars, rfl, ?_, ?_, ?_⟩
  · have hnumber : (if negative then -num else num).toInt = putNumber base num := by
      rw [putNumber, hnegative]
      simp only [decide_eq_true_eq]
    rw [intToString, if_neg (by simp)]
    simp only [← hnegative, hstart, hnumber]
    rw [show 32 + (1 : ℤ).toNat = 33 from rfl, hr, Option.map_some, finish_plain _ _ (by omega), hend,
      hnegative]
    simp only [decide_eq_true_eq]
  · rw [← reverseLoop_placed hsigned (r.2 - 1).toNat (by omega), hend]
    refine List.map_congr_left fun i hi => ?_
    exact Function.update_of_ne (by have := List.mem_range.1 hi; omega) _ _
  · rw [hend]
    exact Function.update_self _ _ _

end Jarvis
