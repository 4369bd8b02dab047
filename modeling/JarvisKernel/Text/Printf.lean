import JarvisKernel.Lib.ByteBuffer
import JarvisKernel.Text.IntToString
import JarvisKernel.Text.Strings

set_option relaxedAutoImplicit false
set_option autoImplicit false

/-!
# Printing with a format

`handler_printf` of `src/kernel/kerio.c`, which `kernel_printf` and `printf` call. A number is put into a
buffer by `int_to_string`, which returns the length with the sign, and is printed from the start of the
buffer on, where the sign is not. Numbers without a sign are given to it as numbers with one.

## Main definitions

* `Jarvis.PrintfCall` — what a call is given.
* `Jarvis.PrintfCall.handlerPrintf` — the function.
* `Jarvis.Conversion.ParsesBack` — what is wanted of the text of a number.

## Main results

* `Jarvis.PrintfCall.printfRound_at` — what a conversion of a number prints.
* `Jarvis.Conversion.parsesBack_iff` — when its text is what is wanted.
* `Jarvis.PrintfCall.printsBack_iff` — the same for a conversion in a format, and for a call.
-/

namespace Jarvis

/-- What a call is given: the memory at the format and at the arguments, the strings that pointers lead to,
and what is on the stack around the table of digits at each place of the format. -/
structure PrintfCall where
  format : ℕ → BitVec 8
  args : ℕ → BitVec 8
  strings : ℕ → CString
  stack : ℕ → ℤ → BitVec 8

/-- How far a call has come in the format and in the arguments, the buffer for numbers, and the characters
that were printed. The buffer has 64 bytes on the stack, at the places from 0 to 63. The bytes at other places are
those around it: a write there is followed here, but not what it does to the addresses that the functions return to
and to the variables of the call. So what is said of a call is meant for calls that write in the buffer. -/
structure PrintfState where
  format : ℕ
  args : ℕ
  smallBuffer : ℤ → BitVec 8
  out : List (BitVec 8)

/-- A result of `int` arithmetic. -/
def int32 (x : ℤ) : ℤ := x.bmod (2 ^ 32)

/-- The flag that a character stands for. -/
def flagOf (c : BitVec 8) : Option (BitVec 32) :=
  if c = 45 then some 0x01
  else if c = 43 then some 0x02
  else if c = 32 then some 0x04
  else if c = 35 then some 0x10
  else if c = 48 then some 0x08
  else none

namespace PrintfState

/-- `print_char`. The end of a string prints nothing. -/
def printChar (s : PrintfState) (c : BitVec 8) : PrintfState := if c = 0 then s else { s with out := s.out ++ [c] }

/-- A loop of `print_char`. -/
def printChars (s : PrintfState) (text : List (BitVec 8)) : PrintfState := text.foldl printChar s

end PrintfState

namespace PrintfCall

variable (c : PrintfCall)

/-- The flags from place `p` of the format on, with the place behind them. -/
def parseFlags : ℕ → ℕ → BitVec 32 → Option (ℕ × BitVec 32)
  | 0, _, _ => none
  | rounds + 1, p, flags =>
    match flagOf (c.format p) with
    | some flag => parseFlags rounds (p + 1) (flags ||| flag)
    | none => some (p, flags)

/-- The number from place `p` of the format on, with the place behind it. -/
def parseNumber : ℕ → ℕ → ℤ → Option (ℕ × ℤ)
  | 0, _, _ => none
  | rounds + 1, p, n =>
    if 48 ≤ c.format p ∧ c.format p ≤ 57 then
      parseNumber rounds (p + 1) (int32 (int32 (n * 10) + ((c.format p).toNat - 48)))
    else some (p, n)

/-- The precision, which is negative if there is none. -/
def parsePrecision (rounds p : ℕ) : Option (ℕ × ℤ) :=
  if c.format p = 46 then c.parseNumber rounds (p + 1) 0 else some (p, -1)

/-- The next argument of 32 bits. -/
def nextWord (s : PrintfState) : BitVec 32 := BitVec.ofNat 32 (ByteBuffer.get32 c.args s.args)

/-- Printing a number from the start of the buffer of 64 bytes, as many characters as `int_to_string` returns. -/
def printNumber (s : PrintfState) (num : BitVec 32) (base : ℕ) (uppercase : Bool) (width precision : ℤ)
    (flags : BitVec 32) : Option PrintfState :=
  (intToString (c.stack s.format) num ⟨s.smallBuffer, [], []⟩ base uppercase width precision flags).map fun r =>
    { s with smallBuffer := r.1.bytes }.printChars ((List.range r.2.toNat).map fun i : ℕ => r.1.bytes i)

/-- The conversions `d`, `i`, `u`, `o`, `x` and `X`. -/
def convertNumber (s : PrintfState) (base : ℕ) (uppercase : Bool) (width precision : ℤ) (flags : BitVec 32) :
    Option PrintfState :=
  c.printNumber { s with args := s.args + 4 } (c.nextWord s) base uppercase width
    (if precision < 0 then 1 else precision) flags

/-- The conversion `c`. -/
def convertChar (s : PrintfState) (width : ℤ) (flags : BitVec 32) : PrintfState :=
  let char := c.args s.args
  let s := { s with args := s.args + 1 }
  let s :=
    if flags &&& 0x01 = 0 then
      s.printChars (List.replicate (width - 1).toNat (if flags &&& 0x08 ≠ 0 then 48 else 32))
    else s
  let s := s.printChar char
  if flags &&& 0x01 ≠ 0 then s.printChars (List.replicate (width - 1).toNat 32) else s

/-- The conversion `s`. The width is compared with the length as an unsigned number. -/
def convertString (s : PrintfState) (width precision : ℤ) (flags : BitVec 32) : PrintfState :=
  let str := c.strings (ByteBuffer.get32 c.args s.args)
  let s := { s with args := s.args + 4 }
  let len := if 0 ≤ precision ∧ precision < str.length then precision.toNat else str.length
  let pad := (width % 2 ^ 32).toNat - len
  let s :=
    if flags &&& 0x01 = 0 then
      s.printChars (List.replicate pad (if flags &&& 0x08 ≠ 0 then 48 else 32))
    else s
  let s := s.printChars ((str.take len).map UInt8.toBitVec)
  if flags &&& 0x01 ≠ 0 then s.printChars (List.replicate pad 32) else s

/-- The conversion `p`. -/
def convertPointer (s : PrintfState) (width : ℤ) : Option PrintfState :=
  c.printNumber ({ s with args := s.args + 4 }.printChars [48, 120]) (c.nextWord s) 16 false
    (int32 (width - 2)) 1 0

/-- The conversion that the format has at its place. An unknown one is printed. -/
def convert (s : PrintfState) (width precision : ℤ) (flags : BitVec 32) : Option PrintfState :=
  let letter := c.format s.format
  if letter = 100 ∨ letter = 105 then c.convertNumber s 10 false width precision flags
  else if letter = 117 then c.convertNumber s 10 false width precision flags
  else if letter = 111 then c.convertNumber s 8 false width precision flags
  else if letter = 120 then c.convertNumber s 16 false width precision flags
  else if letter = 88 then c.convertNumber s 16 true width precision flags
  else if letter = 99 then some (c.convertChar s width flags)
  else if letter = 115 then some (c.convertString s width precision flags)
  else if letter = 112 then c.convertPointer s width
  else if letter = 37 then some (s.printChar 37)
  else some (s.printChar letter)

/-- One round of the loop: a character that is printed, or a conversion. -/
def printfRound (rounds : ℕ) (s : PrintfState) : Option PrintfState :=
  if c.format s.format ≠ 37 then some { s.printChar (c.format s.format) with format := s.format + 1 }
  else
    (c.parseFlags rounds (s.format + 1) 0).bind fun flags =>
      (c.parseNumber rounds flags.1 0).bind fun width =>
        (c.parsePrecision rounds width.1).bind fun precision =>
          (c.convert { s with format := precision.1 } width.2 precision.2 flags.2).map fun t =>
            { t with format := t.format + 1 }

/-- The loop over the format, as far as the character that ends it. -/
def printfLoop : ℕ → PrintfState → Option PrintfState
  | 0, _ => none
  | rounds + 1, s =>
    if c.format s.format = 0 then some s else (c.printfRound (rounds + 1) s).bind (printfLoop rounds)

/-- `handler_printf`, with a bound for the rounds of its loops. -/
def handlerPrintf (rounds : ℕ) (smallBuffer : ℤ → BitVec 8) : Option PrintfState :=
  c.printfLoop rounds ⟨0, 0, smallBuffer, []⟩

end PrintfCall

/-! ## What is wanted -/

/-- The value of a character as a digit. -/
def digitValue (c : BitVec 8) : Option ℕ :=
  if 48 ≤ c ∧ c ≤ 57 then some (c.toNat - 48)
  else if 97 ≤ c ∧ c ≤ 102 then some (c.toNat - 87)
  else if 65 ≤ c ∧ c ≤ 70 then some (c.toNat - 55)
  else none

/-- The conversions of signed and unsigned numbers. -/
inductive Conversion where
  | d
  | u
  | o
  | x
  deriving DecidableEq

namespace Conversion

/-- The letter of a conversion. -/
def letter : Conversion → BitVec 8
  | d => 100
  | u => 117
  | o => 111
  | x => 120

/-- The base of the numerals of a conversion. -/
def base : Conversion → ℕ
  | d => 10
  | u => 10
  | o => 8
  | x => 16

/-- A text is a numeral for the number, with a `-` if the conversion is signed and the number is negative. -/
def ParsesBack (conversion : Conversion) (v : BitVec 32) (text : List (BitVec 8)) : Prop :=
  if conversion = d ∧ v.slt 0 then
    text.head? = some 45 ∧ Numeral.parse digitValue 10 text.tail = some v.toInt.natAbs
  else Numeral.parse digitValue conversion.base text = some v.toNat

end Conversion

namespace PrintfCall

/-- The format has a conversion without flags, width and precision at its place, and `v` is the next
argument. -/
structure At (c : PrintfCall) (s : PrintfState) (conversion : Conversion) (v : BitVec 32) : Prop where
  percent : c.format s.format = 37
  letter : c.format (s.format + 1) = conversion.letter
  arg : c.nextWord s = v

/-- The conversion at the place of the format prints a text that is a numeral for `v`. -/
def PrintsBack (c : PrintfCall) (s : PrintfState) (conversion : Conversion) (v : BitVec 32) : Prop :=
  ∃ t text, (∀ rounds, c.printfRound (rounds + 1) s = some t) ∧ t.out = s.out ++ text ∧
    conversion.ParsesBack v text

/-- The call prints a text that is a numeral for `v`. -/
def CallPrintsBack (c : PrintfCall) (smallBuffer : ℤ → BitVec 8) (conversion : Conversion) (v : BitVec 32) :
    Prop :=
  ∃ rounds t, c.handlerPrintf rounds smallBuffer = some t ∧ conversion.ParsesBack v t.out

end PrintfCall

/-! ## What is printed -/

/-- The characters that are printed for an argument. -/
def numberText (stack : ℤ → BitVec 8) (base : ℕ) (v : BitVec 32) : List (BitVec 8) :=
  (lowChars stack base false (putNumber base v)).reverse.filter (· ≠ 0)

/-- Each conversion has a base above one. -/
lemma Conversion.one_lt_base (conversion : Conversion) : 1 < conversion.base := by
  cases conversion <;> decide

/-- And of at most 16. -/
lemma Conversion.base_le (conversion : Conversion) : conversion.base ≤ 16 := by
  cases conversion <;> decide

/-- The letter is no flag, no digit and no point. -/
lemma Conversion.letter_spec (conversion : Conversion) :
    flagOf conversion.letter = none ∧ ¬ (48 ≤ conversion.letter ∧ conversion.letter ≤ 57) ∧
      conversion.letter ≠ 46 := by
  cases conversion <;> decide

/-- Printing a text puts its characters out, without terminators. -/
lemma PrintfState.printChars_eq (s : PrintfState) (text : List (BitVec 8)) :
    s.printChars text = { s with out := s.out ++ text.filter (· ≠ 0) } := by
  induction text generalizing s with
  | nil => simp [printChars]
  | cons c text ih =>
    have hcons : s.printChars (c :: text) = (s.printChar c).printChars text := rfl
    rw [hcons, ih, printChar]
    by_cases hzero : c = 0
    · rw [if_pos hzero, List.filter_cons_of_neg (by simp [hzero])]
    · rw [if_neg hzero, List.filter_cons_of_pos (by simpa using hzero), List.append_assoc]
      rfl

namespace PrintfCall

variable {c : PrintfCall} {s : PrintfState} {conversion : Conversion} {v : BitVec 32}

/-- A number is printed with the characters that `int_to_string` has put at the start of the buffer. What it
counts for the sign is the end of the text, which prints nothing. -/
lemma printNumber_plain (base : ℕ) (hbase : 2 ≤ base) (hle : base ≤ 16) (c : PrintfCall) (s : PrintfState)
    (num : BitVec 32) :
    ∃ bytes, c.printNumber s num base false 0 1 0 =
      some { s with smallBuffer := bytes, out := s.out ++ numberText (c.stack s.format) base num } := by
  obtain ⟨b, chars, hchars, hres, htext, hend⟩ :=
    intToString_plain hbase hle (c.stack s.format) num false ⟨s.smallBuffer, [], []⟩
  refine ⟨b.bytes, ?_⟩
  rw [printNumber, hres, Option.map_some, PrintfState.printChars_eq, numberText, ← hchars]
  dsimp only
  split_ifs with hsign
  · have hlength : ((chars.length : ℤ) + 1).toNat = chars.length + 1 := by omega
    rw [hlength, List.range_succ, List.map_append, htext, List.filter_append, List.map_singleton, hend]
    simp
  · have hlength : ((chars.length : ℤ) + 0).toNat = chars.length := by omega
    rw [hlength, htext]

/-- **A conversion without flags, width and precision** prints the characters of its number. -/
lemma printfRound_at (h : c.At s conversion v) :
    ∃ bytes, ∀ rounds, c.printfRound (rounds + 1) s =
      some ⟨s.format + 2, s.args + 4, bytes,
        s.out ++ numberText (c.stack (s.format + 1)) conversion.base v⟩ := by
  obtain ⟨bytes, hprint⟩ := printNumber_plain conversion.base conversion.one_lt_base conversion.base_le c
    ⟨s.format + 1, s.args + 4, s.smallBuffer, s.out⟩ v
  obtain ⟨hflag, hdigit, hpoint⟩ := conversion.letter_spec
  refine ⟨bytes, fun rounds => ?_⟩
  have hflags : c.parseFlags (rounds + 1) (s.format + 1) 0 = some (s.format + 1, 0) := by
    rw [parseFlags, h.letter, hflag]
  have hwidth : c.parseNumber (rounds + 1) (s.format + 1) 0 = some (s.format + 1, 0) := by
    rw [parseNumber, h.letter, if_neg hdigit]
  have hprecision : c.parsePrecision (rounds + 1) (s.format + 1) = some (s.format + 1, -1) := by
    rw [parsePrecision, h.letter, if_neg hpoint]
  have hconvert : c.convert { s with format := s.format + 1 } 0 (-1) 0 =
      c.convertNumber { s with format := s.format + 1 } conversion.base false 0 (-1) 0 := by
    rw [convert]
    dsimp only
    rw [h.letter]
    cases conversion <;> rfl
  have harg : c.nextWord { s with format := s.format + 1 } = v := h.arg
  rw [printfRound, if_neg (by simp [h.percent]), hflags, Option.bind_some]
  dsimp only
  rw [hwidth, Option.bind_some]
  dsimp only
  rw [hprecision, Option.bind_some]
  dsimp only
  rw [hconvert, convertNumber, harg, if_pos (by decide), hprint]
  rfl

end PrintfCall

/-! ## When it is a numeral for the argument -/

section Text

variable {stack : ℤ → BitVec 8} {base : ℕ} {v : BitVec 32} {conversion : Conversion}

/-- Below `2 ^ 31` the number is what it is. -/
lemma putNumber_of_lt (h : v.toNat < 2 ^ 31) (base : ℕ) : putNumber base v = v.toNat := by
  have hint : v.toInt = v.toNat := by
    rw [BitVec.toInt_eq_toNat_cond, if_pos (by omega)]
  rw [putNumber, if_neg, hint]
  rw [BitVec.slt_iff_toInt_lt, hint]
  simp

/-- From `2 ^ 31` on it is negative, and only in base 10 the sign is taken off, which does not work for the
least number. -/
lemma putNumber_of_le (h : 2 ^ 31 ≤ v.toNat) (base : ℕ) :
    putNumber base v =
      if base = 10 ∧ v.toNat ≠ 2 ^ 31 then 2 ^ 32 - (v.toNat : ℤ) else (v.toNat : ℤ) - 2 ^ 32 := by
  have hlt := v.isLt
  have hint : v.toInt = v.toNat - 2 ^ 32 := by
    rw [BitVec.toInt_eq_toNat_cond, if_neg (by omega)]
    norm_num
  have hslt : v.slt 0 = true := by
    rw [BitVec.slt_iff_toInt_lt, hint]
    simp
    omega
  have hneg : (-v).toInt =
      if v.toNat = 2 ^ 31 then (v.toNat : ℤ) - 2 ^ 32 else 2 ^ 32 - (v.toNat : ℤ) := by
    rw [BitVec.toInt_eq_toNat_cond, BitVec.toNat_neg, Nat.mod_eq_of_lt (by omega)]
    split_ifs <;> omega
  rw [putNumber]
  by_cases hbase : base = 10
  · rw [if_pos ⟨hslt, hbase⟩, hneg]
    split_ifs <;> first | rfl | omega
  · rw [if_neg (fun hnot => hbase hnot.2), if_neg (fun hnot => hbase hnot.1), hint]

/-- A digit is neither a terminator nor a sign. -/
lemma digitChar_ne {d : ℕ} (hd : d < 16) : digitChar false d ≠ 0 ∧ digitChar false d ≠ 45 := by
  revert hd d
  decide

/-- Its value is the digit. -/
lemma digitValue_digitChar {d : ℕ} (hd : d < 16) : digitValue (digitChar false d) = some d := by
  revert hd d
  decide

/-- The text of a number that is not negative has its digits. -/
lemma numberText_of_nonneg (hbase : 1 < base) (hle : base ≤ 16) (h : 0 ≤ putNumber base v) :
    numberText stack base v =
      ((Numeral.lowDigits base (putNumber base v).toNat).map (digitChar false)).reverse := by
  rw [numberText, lowChars, if_pos h, List.filter_eq_self]
  intro c hc
  rw [List.mem_reverse] at hc
  obtain ⟨d, hd, rfl⟩ := List.mem_map.1 hc
  exact decide_eq_true (digitChar_ne ((Numeral.lt_of_mem_lowDigits hbase hd).trans_le hle)).1

/-- The text of a number that is negative has one character at most. -/
lemma numberText_of_neg (stack : ℤ → BitVec 8) (h : putNumber base v < 0) :
    (numberText stack base v).length ≤ 1 := by
  rw [numberText, lowChars, if_neg (not_le.2 h)]
  exact List.length_filter_le _ _

/-- The text of a number that is not negative reads as this number. -/
lemma parse_numberText (hbase : 1 < base) (hle : base ≤ 16) (h : 0 ≤ putNumber base v) :
    Numeral.parse digitValue base (numberText stack base v) = some (putNumber base v).toNat := by
  rw [numberText_of_nonneg hbase hle h]
  exact Numeral.parse_lowDigits hbase (fun d hd => digitValue_digitChar (hd.trans_le hle)) _

/-- A text with one character at most is a numeral for a small number only. -/
lemma parse_lt_of_length_le {text : List (BitVec 8)} {n : ℕ} (hlength : text.length ≤ 1)
    (h : Numeral.parse digitValue base text = some n) : n < base := by
  match text with
  | [] => simp [Numeral.parse_nil] at h
  | [c] => exact Numeral.parse_singleton_lt h
  | _ :: _ :: _ => simp at hlength

namespace Conversion

/-- The text of a number from `2 ^ 31` on is no numeral for it.

**Proof sketch.** Without the sign it is a numeral for another number, and it has no sign. If the number stays
negative, the text has one character at most. -/
lemma not_parsesBack (h : 2 ^ 31 ≤ v.toNat) :
    ¬ conversion.ParsesBack v (numberText stack conversion.base v) := by
  intro hparses
  have hput := putNumber_of_le h conversion.base
  rw [ParsesBack] at hparses
  rcases lt_or_ge (putNumber conversion.base v) 0 with hneg | hnonneg
  · have hlength := numberText_of_neg stack hneg
    split_ifs at hparses with hsigned
    · have htail : (numberText stack conversion.base v).tail = [] := by
        rw [← List.length_eq_zero_iff, List.length_tail]
        omega
      rw [htail, Numeral.parse_nil] at hparses
      exact absurd hparses.2 (by simp)
    · have hlt := parse_lt_of_length_le hlength hparses
      have hle := conversion.base_le
      omega
  · split_ifs at hparses with hsigned
    · rw [numberText_of_nonneg conversion.one_lt_base conversion.base_le hnonneg] at hparses
      have hmem := List.mem_of_head? hparses.1
      rw [List.mem_reverse] at hmem
      obtain ⟨d, hd, heq⟩ := List.mem_map.1 hmem
      have hlt := (Numeral.lt_of_mem_lowDigits conversion.one_lt_base hd).trans_le conversion.base_le
      exact (digitChar_ne hlt).2 heq
    · rw [parse_numberText conversion.one_lt_base conversion.base_le hnonneg, Option.some.injEq] at hparses
      split_ifs at hput <;> omega

/-- **The text of a number is a numeral for it** exactly if the number is below `2 ^ 31`. -/
lemma parsesBack_iff (stack : ℤ → BitVec 8) (conversion : Conversion) (v : BitVec 32) :
    conversion.ParsesBack v (numberText stack conversion.base v) ↔ v.toNat < 2 ^ 31 := by
  constructor
  · intro hparses
    by_contra hlt
    exact not_parsesBack (not_lt.1 hlt) hparses
  · intro hlt
    have hput := putNumber_of_lt hlt conversion.base
    have hslt : ¬ (conversion = d ∧ v.slt 0 = true) := by
      rw [BitVec.slt_iff_toInt_lt, BitVec.toInt_eq_toNat_cond, if_pos (by omega)]
      simp
    rw [ParsesBack, if_neg hslt, parse_numberText conversion.one_lt_base conversion.base_le (by omega), hput,
      Int.toNat_natCast]

end Conversion

end Text

namespace PrintfCall

variable {c : PrintfCall} {s : PrintfState} {conversion : Conversion} {v : BitVec 32}

/-- A call that has only the conversion in its format prints the text of the number, and returns after the
round that finds the end of the format. -/
lemma handlerPrintf_eq {smallBuffer : ℤ → BitVec 8} (h : c.At ⟨0, 0, smallBuffer, []⟩ conversion v)
    (hend : c.format 2 = 0) :
    ∃ t, (∀ rounds, c.handlerPrintf rounds smallBuffer = if 2 ≤ rounds then some t else none) ∧
      t.out = numberText (c.stack 1) conversion.base v := by
  obtain ⟨bytes, hround⟩ := printfRound_at h
  refine ⟨⟨2, 4, bytes, numberText (c.stack 1) conversion.base v⟩, fun rounds => ?_, rfl⟩
  have hpercent : c.format 0 = 37 := h.percent
  match rounds with
  | 0 => rfl
  | 1 =>
    rw [handlerPrintf, printfLoop, if_neg (by simp [hpercent]), hround, Option.bind_some, if_neg (by decide)]
    rfl
  | rounds + 2 =>
    rw [handlerPrintf, printfLoop, if_neg (by simp [hpercent]), hround, Option.bind_some, printfLoop,
      if_pos hend, if_pos (Nat.le_add_left 2 rounds)]
    rfl

/-- **A number is printed as a numeral for it** exactly if it is below `2 ^ 31`, by a conversion at any place
of a format, and by a call that has only the conversion in its format. -/
theorem printsBack_iff (c : PrintfCall) (conversion : Conversion) (v : BitVec 32) :
    (∀ s, c.At s conversion v → (c.PrintsBack s conversion v ↔ v.toNat < 2 ^ 31)) ∧
      ∀ smallBuffer, c.At ⟨0, 0, smallBuffer, []⟩ conversion v → c.format 2 = 0 →
        (c.CallPrintsBack smallBuffer conversion v ↔ v.toNat < 2 ^ 31) := by
  constructor
  · intro s h
    obtain ⟨bytes, hround⟩ := printfRound_at h
    rw [← conversion.parsesBack_iff (c.stack (s.format + 1)) v]
    constructor
    · rintro ⟨t, text, hres, hout, hparses⟩
      obtain rfl := Option.some.inj ((hres 0).symm.trans (hround 0))
      rwa [List.append_cancel_left hout]
    · intro hparses
      exact ⟨_, _, hround, rfl, hparses⟩
  · intro smallBuffer h hend
    obtain ⟨t, hres, hout⟩ := handlerPrintf_eq h hend
    rw [← conversion.parsesBack_iff (c.stack 1) v, ← hout]
    constructor
    · rintro ⟨rounds, t', hres', hparses⟩
      rw [hres rounds] at hres'
      split_ifs at hres'
      obtain rfl := Option.some.inj hres'
      exact hparses
    · intro hparses
      exact ⟨2, t, hres 2, hparses⟩

/-- The call `printf("%d", v)`. -/
def printDecimal (v : BitVec 32) : PrintfCall where
  format := CString.bytes [37, 100]
  args := ByteBuffer.set32 (fun _ => 0) 0 v.toNat
  strings := fun _ => []
  stack := fun _ _ => 0

/-- The number 42 is printed as it is. -/
theorem printsBack_iff_decimal :
    (printDecimal 42).PrintsBack ⟨0, 0, fun _ => 0, []⟩ .d 42 ∧
      (printDecimal 42).CallPrintsBack (fun _ => 0) .d 42 := by
  have hat : (printDecimal 42).At ⟨0, 0, fun _ => 0, []⟩ .d 42 := ⟨by decide, by decide, by decide⟩
  have hiff := printsBack_iff (printDecimal 42) .d 42
  exact ⟨(hiff.1 _ hat).2 (by decide), (hiff.2 _ hat (by decide)).2 (by decide)⟩

/-- The number -5 is printed without its sign. -/
theorem not_printsBack :
    ((printDecimal (-5)).handlerPrintf 2 fun _ => 0).map PrintfState.out = some [53] ∧
      ¬ (printDecimal (-5)).CallPrintsBack (fun _ => 0) .d (-5) := by
  have hat : (printDecimal (-5)).At ⟨0, 0, fun _ => 0, []⟩ .d (-5) := ⟨by decide, by decide, by decide⟩
  refine ⟨by decide, ?_⟩
  rintro ⟨rounds, t, hres, hparses⟩
  obtain ⟨t', hres', hout⟩ := handlerPrintf_eq hat (by decide)
  rw [hres' rounds] at hres
  split_ifs at hres
  obtain rfl := Option.some.inj hres
  rw [hout] at hparses
  exact absurd ((Conversion.parsesBack_iff _ .d (-5)).1 hparses) (by decide)

end PrintfCall

end Jarvis
