import JarvisKernel.Text.NumberBounds
import JarvisKernel.Text.Strings
import Mathlib.Data.List.GetD
import Mathlib.Tactic.IntervalCases

set_option relaxedAutoImplicit false
set_option autoImplicit false

/-!
# What `snprintf` writes

`snprintf` of `src/kernel/string.c` with the buffer that it writes and the number of characters that it returns.
The digits of a number are counted by one loop and filled in by another one, from the last place to the left.
The number of characters is counted as an unsigned number and returned as a number with a sign.

## Main definitions

* `Jarvis.SnprintfState` — how far a call has come.
* `Jarvis.snprintfBuffer` — the function.
* `Jarvis.NumBuffer.Leaves` — the string that a call leaves, and the places that it writes.

## Main results

* `Jarvis.countDigits_eq`, `Jarvis.fillDigits_spec` — the two loops agree on the digits.
* `Jarvis.formatLoop_holds` — the loop puts the string that `snprintf` gives.
* `Jarvis.snprintfBuffer_leaves` — what a call leaves and returns.
-/

namespace Jarvis

/-! ## The function -/

/-- The loop that counts the digits of a number. -/
def countDigits : ℕ → ℤ → Option ℕ
  | 0, _ => none
  | rounds + 1, temp =>
    if 0 < temp.tdiv 10 then (countDigits rounds (temp.tdiv 10)).map (· + 1) else some 1

/-- The loop that fills in the digits of a number before place `p`, with the place of the first one. -/
def fillDigits : ℕ → ℤ → ℤ → NumBuffer → Option (NumBuffer × ℤ)
  | 0, _, _, _ => none
  | rounds + 1, num, p, b =>
    let b := b.put (p - 1) (UInt8.ofInt (48 + num.tmod 10)).toBitVec
    if 0 < num.tdiv 10 then fillDigits rounds (num.tdiv 10) (p - 1) b else some (b, p - 1)

/-- How far a call has come in the buffer and in the arguments. -/
structure SnprintfState where
  buffer : NumBuffer
  p : ℤ
  written : BitVec 32
  arg : ℕ

namespace SnprintfState

/-- A character is put into the buffer. -/
def put (s : SnprintfState) (c : UInt8) : SnprintfState :=
  { s with buffer := s.buffer.put s.p c.toBitVec, p := s.p + 1, written := s.written + 1 }

end SnprintfState

/-- The loop over the format. -/
def formatLoop (size : BitVec 32) (args : ℕ → BitVec 32) : CString → SnprintfState → Option SnprintfState
  | [], s => some s
  | c :: format, s =>
    if size - 1 ≤ s.written then some s
    else
      match c, format with
      | 37, 100 :: rest =>
        let num := args s.arg
        let s := { s with arg := s.arg + 1 }
        let s := if num.slt 0 then s.put 45 else s
        let num := (if num.slt 0 then -num else num).toInt
        (countDigits 10 num).bind fun digits =>
          if size - 1 ≤ s.written + BitVec.ofNat 32 digits then some s
          else
            (fillDigits 10 num (s.p + digits) s.buffer).bind fun filled =>
              formatLoop size args rest
                { s with
                  buffer := filled.1, p := filled.2 + digits, written := s.written + BitVec.ofNat 32 digits }
      | c, format => formatLoop size args format (s.put c)

/-- `snprintf`, with the buffer that it leaves and the number that it returns. -/
def snprintfBuffer (size : BitVec 32) (format : CString) (args : ℕ → BitVec 32) (buffer : NumBuffer) :
    Option (NumBuffer × ℤ) :=
  if size = 0 then some (buffer, 0)
  else (formatLoop size args format ⟨buffer, 0, 0, 0⟩).map fun s => (s.buffer.put s.p 0, s.written.toInt)

/-- What a call leaves: a string at the start of the buffer, with its end, and nothing that is written at other
places than those of the buffer. -/
structure NumBuffer.Leaves (b : NumBuffer) (size : ℕ) (text : CString) : Prop where
  writes : ∀ p ∈ b.writes, 0 ≤ p ∧ p < size
  chars : ∀ k (h : k < text.length), b.bytes k = text[k].toBitVec ∧ text[k] ≠ 0
  terminated : b.bytes text.length = 0
  length : text.length < size

/-! ## The digits -/

section Digits

variable {rounds : ℕ} {num p : ℤ} {b : NumBuffer}

/-- There are at most as many digits as rounds. -/
lemma putDigits_length_le (rounds : ℕ) (num : ℤ) : (putDigits rounds num).length ≤ rounds := by
  induction rounds generalizing num with
  | zero => exact Nat.le_refl _
  | succ rounds ih =>
    rw [putDigits, List.length_append, List.length_singleton]
    split_ifs
    · exact Nat.succ_le_succ (ih _)
    · exact Nat.succ_le_succ (Nat.zero_le _)

/-- A division by ten takes a digit away. -/
lemma tdiv_ten_lt (h : num < 10 ^ (rounds + 1)) : num.tdiv 10 < 10 ^ rounds := by
  have hpow : (0 : ℤ) < 10 ^ rounds := by positivity
  rcases le_or_gt num 0 with hnonpos | hpos
  · exact (NumBuffer.tdiv_nonpos 10 hnonpos).trans_lt hpow
  · rw [Int.tdiv_eq_ediv_of_nonneg hpos.le]
    refine Int.ediv_lt_of_lt_mul (by omega) ?_
    rwa [← pow_succ]

/-- The number of digits that are counted is the number of those that are put. -/
lemma countDigits_eq (h : num < 10 ^ (rounds + 1)) :
    countDigits (rounds + 1) num = some (putDigits (rounds + 1) num).length := by
  induction rounds generalizing num with
  | zero =>
    have hquot : ¬ 0 < num.tdiv 10 := by
      have := tdiv_ten_lt h
      omega
    rw [countDigits, putDigits, if_neg hquot, if_neg hquot]
    rfl
  | succ rounds ih =>
    rw [countDigits, putDigits]
    split_ifs with hquot
    · rw [ih (tdiv_ten_lt h), Option.map_some, List.length_append, List.length_singleton]
    · rfl

/-- The digits `text` are in the buffer before a place, and nothing else is written. -/
structure FilledIn (b b' : NumBuffer) (p : ℤ) (text : CString) : Prop where
  writes : b.Writes b' (p - text.length) p []
  chars : ∀ k < text.length, b'.bytes (p - text.length + k) = text.bytes k

/-- The last digit that is filled in. -/
lemma filledIn_put (b : NumBuffer) (p : ℤ) (c : UInt8) : FilledIn b (b.put (p - 1) c.toBitVec) p [c] where
  writes := by
    have hput := NumBuffer.writes_put b (p - 1) c.toBitVec
    rwa [sub_add_cancel] at hput
  chars k hk := by
    obtain rfl : k = 0 := Nat.lt_one_iff.1 hk
    rw [List.length_singleton, Nat.cast_one, Nat.cast_zero, add_zero]
    exact Function.update_self _ _ _

/-- Digits that are filled in before others. -/
lemma FilledIn.trans {b₁ b₂ : NumBuffer} {text text' : CString} (h : FilledIn b b₁ p text')
    (h' : FilledIn b₁ b₂ (p - text'.length) text) : FilledIn b b₂ p (text ++ text') where
  writes := by
    have hplace : p - text'.length - text.length = p - (text ++ text').length := by
      rw [List.length_append]
      push_cast
      omega
    exact hplace ▸ h.writes.trans_left h'.writes (by omega) (by omega)
  chars k hk := by
    rw [List.length_append] at hk ⊢
    push_cast
    rcases lt_or_ge k text.length with hlt | hge
    · rw [CString.bytes, List.getD_append _ _ _ _ hlt, ← CString.bytes, ← h'.chars k hlt]
      congr 1
      omega
    · rw [CString.bytes, List.getD_append_right _ _ _ _ hge, ← CString.bytes, h'.writes.others _ (by omega),
        ← h.chars (k - text.length) (by omega)]
      congr 1
      omega

/-- **The digits are filled in** before a place.

**Proof sketch.** Each round puts the lowest digit, and the others are put before it. -/
lemma fillDigits_spec (h : num < 10 ^ (rounds + 1)) :
    ∃ b', fillDigits (rounds + 1) num p b = some (b', p - (putDigits (rounds + 1) num).length) ∧
      FilledIn b b' p (putDigits (rounds + 1) num) := by
  induction rounds generalizing num p b with
  | zero =>
    have hquot : ¬ 0 < num.tdiv 10 := by
      have := tdiv_ten_lt h
      omega
    rw [fillDigits, putDigits, if_neg hquot, if_neg hquot]
    exact ⟨_, rfl, filledIn_put b p _⟩
  | succ rounds ih =>
    rw [fillDigits, putDigits]
    split_ifs with hquot
    · obtain ⟨b', hfill, hfilled⟩ := ih (p := p - 1) (b := b.put (p - 1) (UInt8.ofInt (48 + num.tmod 10)).toBitVec)
        (tdiv_ten_lt h)
      refine ⟨b', ?_, (filledIn_put b p _).trans hfilled⟩
      rw [hfill, List.length_append, List.length_singleton]
      push_cast
      congr 2
      omega
    · exact ⟨_, rfl, filledIn_put b p _⟩

end Digits

/-! ## The loop over the format -/

namespace SnprintfState

/-- The string `out` is in the buffer as far as the place of the state, and nothing else is written. -/
structure Holds (out : CString) (s : SnprintfState) : Prop where
  place : s.p = out.length
  written : s.written.toNat = out.length
  chars : ∀ k < out.length, s.buffer.bytes k = out.bytes k
  writes : ∀ q ∈ s.buffer.writes, 0 ≤ q ∧ q < out.length

variable {out text : CString} {s : SnprintfState}

/-- More characters behind the string. -/
lemma Holds.append {b : NumBuffer} (h : s.Holds out) (hfilled : FilledIn s.buffer b (s.p + text.length) text)
    (hlength : out.length + text.length < 2 ^ 32) (arg : ℕ) :
    Holds (out ++ text) ⟨b, s.p + text.length, s.written + BitVec.ofNat 32 text.length, arg⟩ where
  place := by
    rw [List.length_append, h.place]
    push_cast
    rfl
  written := by
    rw [BitVec.toNat_add, BitVec.toNat_ofNat, h.written, List.length_append, Nat.add_mod_mod,
      Nat.mod_eq_of_lt hlength]
  chars k hk := by
    have hplace := h.place
    rw [List.length_append] at hk
    rcases lt_or_ge k out.length with hlt | hge
    · rw [hfilled.writes.others _ (by omega), h.chars k hlt, CString.bytes, CString.bytes,
        List.getD_append _ _ _ _ hlt]
    · have hchar := hfilled.chars (k - out.length) (by omega)
      rw [CString.bytes, List.getD_append_right _ _ _ _ hge, ← CString.bytes, ← hchar]
      congr 1
      omega
  writes q hq := by
    have hplace := h.place
    rw [List.length_append]
    rcases (hfilled.writes.writes q).1 hq with hq | hq
    · have := h.writes q hq
      push_cast
      omega
    · push_cast
      omega

/-- One more character is held as long as the length fits into 32 bits. -/
lemma Holds.put (h : s.Holds out) (hlength : out.length + 1 < 2 ^ 32) (c : UInt8) : (s.put c).Holds (out ++ [c]) := by
  have hfilled := filledIn_put s.buffer (s.p + 1) c
  rw [add_sub_cancel_right] at hfilled
  exact Holds.append h (show FilledIn s.buffer _ (s.p + ([c] : CString).length) [c] from hfilled) hlength s.arg

/-- Fetching an argument writes nothing. -/
lemma Holds.setArg (h : s.Holds out) (arg : ℕ) : Holds out { s with arg := arg } :=
  ⟨h.place, h.written, h.chars, h.writes⟩

/-- Whether there is room for more characters. -/
lemma Holds.le_iff {size : BitVec 32} (hsize : size ≠ 0) (h : s.Holds out) {count : ℕ}
    (hlength : out.length + count < 2 ^ 32) :
    size - 1 ≤ s.written + BitVec.ofNat 32 count ↔ size.toNat - 1 ≤ out.length + count := by
  have hpos : size.toNat ≠ 0 := fun hzero => hsize (BitVec.eq_of_toNat_eq hzero)
  have hpred : (size - 1).toNat = size.toNat - 1 := by
    rw [BitVec.toNat_sub_of_le (BitVec.le_def.2 (by simp; omega))]
    rfl
  rw [BitVec.le_def, hpred, BitVec.toNat_add, BitVec.toNat_ofNat, Nat.add_mod_mod, h.written,
    Nat.mod_eq_of_lt hlength]

/-- The sign of a number. -/
lemma Holds.sign (h : s.Holds out) (hlength : out.length + 1 < 2 ^ 32) (negative : Bool) :
    Holds (out ++ if negative then [45] else []) (if negative then s.put 45 else s) := by
  cases negative with
  | true => exact h.put hlength 45
  | false =>
    rw [if_neg Bool.false_ne_true, if_neg Bool.false_ne_true, List.append_nil]
    exact h

end SnprintfState

/-- The sign is at most one character. -/
lemma length_sign_le (negative : Bool) : (if negative then ([45] : CString) else []).length ≤ 1 := by
  cases negative <;> decide

/-- A directive puts 11 characters at most. -/
lemma length_directive_le (num : BitVec 32) (i : ℤ) (out : CString) :
    (out ++ if num.slt 0 then ([45] : CString) else []).length + (putDigits 10 i).length ≤ out.length + 11 := by
  have hsign := length_sign_le (num.slt 0)
  have hdigits := putDigits_length_le 10 i
  rw [List.length_append]
  omega

/-- A 32-bit number has at most ten digits. -/
lemma toInt_lt_ten_pow (x : BitVec 32) : x.toInt < 10 ^ (9 + 1) :=
  (BitVec.toInt_lt (x := x)).trans_le (by norm_num)

/-- Without room the loops end. -/
lemma snprintfLoop_full {size : ℕ} {out : CString} (h : size - 1 ≤ out.length) (args : ℕ → BitVec 32)
    (format : CString) (arg : ℕ) : snprintfLoop size args format arg out = out := by
  cases format with
  | nil => rw [snprintfLoop]
  | cons c format =>
    rw [snprintfLoop.eq_def]
    exact if_pos h

/-- With a full buffer the rest of the format writes nothing. -/
lemma formatLoop_full {size : BitVec 32} {s : SnprintfState} (h : size - 1 ≤ s.written) (args : ℕ → BitVec 32)
    (format : CString) : formatLoop size args format s = some s := by
  cases format with
  | nil => rw [formatLoop]
  | cons c format =>
    rw [formatLoop.eq_def]
    exact if_pos h

/-- **The loop over the format** puts the string that `snprintf` gives, if the number of characters does not
overflow.

**Proof sketch.** By induction on the format, with the two cases of a directive. -/
lemma formatLoop_holds {size : BitVec 32} (hsize : size ≠ 0) (args : ℕ → BitVec 32) {format out : CString}
    {s : SnprintfState} {arg : ℕ} (harg : s.arg = arg) (h : s.Holds out)
    (hroom : size.toNat + 11 ≤ 2 ^ 32 ∨ out.length + 11 * format.length + 11 < 2 ^ 32) :
    ∃ s', formatLoop size args format s = some s' ∧
      s'.Holds (snprintfLoop size.toNat args format arg out) := by
  have hfull : ∀ out : CString, ∀ s : SnprintfState, s.Holds out →
      (size - 1 ≤ s.written ↔ size.toNat - 1 ≤ out.length) := fun out s h => by
    have hlt : out.length + 0 < 2 ^ 32 := h.written ▸ s.written.isLt
    have hiff := h.le_iff hsize hlt
    rwa [BitVec.ofNat_eq_ofNat, BitVec.add_zero] at hiff
  induction format, arg, out using snprintfLoop.induct size.toNat args generalizing s with
  | case1 arg out => exact ⟨s, rfl, h⟩
  | case2 c format arg out hle =>
    rw [formatLoop_full ((hfull out s h).2 hle), snprintfLoop_full hle]
    exact ⟨s, rfl, h⟩
  | case3 arg out hle rest num sign digits =>
    rename_i hbreak
    subst harg
    have hmost : (out ++ sign).length + digits.length ≤ out.length + 11 := length_directive_le num _ out
    rw [List.length_cons, List.length_cons] at hroom
    have hsigned := (h.setArg (s.arg + 1)).sign (by omega) (num.slt 0)
    have hlength : (out ++ sign).length + digits.length < 2 ^ 32 := by omega
    have hnoroom := (hsigned.le_iff hsize hlength).2 hbreak
    rw [formatLoop, snprintfLoop, if_neg hle, if_neg (fun hnot => hle ((hfull out s h).1 hnot))]
    dsimp only
    rw [countDigits_eq (toInt_lt_ten_pow _), Option.bind_some, if_pos hnoroom, if_pos hbreak]
    exact ⟨_, rfl, hsigned⟩
  | case4 arg out hle rest num sign digits =>
    rename_i hgo ih
    subst harg
    have hmost : (out ++ sign).length + digits.length ≤ out.length + 11 := length_directive_le num _ out
    rw [List.length_cons, List.length_cons] at hroom
    have hsigned := (h.setArg (s.arg + 1)).sign (by omega) (num.slt 0)
    have hlength : (out ++ sign).length + digits.length < 2 ^ 32 := by omega
    have hisroom := mt (hsigned.le_iff hsize hlength).1 hgo
    rw [formatLoop, snprintfLoop, if_neg hle, if_neg (fun hnot => hle ((hfull out s h).1 hnot))]
    dsimp only
    obtain ⟨b', hfill, hfilled⟩ := fillDigits_spec (toInt_lt_ten_pow (if num.slt 0 then -num else num))
      (p := (if num.slt 0 then ({ s with arg := s.arg + 1 } : SnprintfState).put 45
        else { s with arg := s.arg + 1 }).p + digits.length)
      (b := (if num.slt 0 then ({ s with arg := s.arg + 1 } : SnprintfState).put 45
        else { s with arg := s.arg + 1 }).buffer)
    rw [countDigits_eq (toInt_lt_ten_pow _), Option.bind_some, if_neg hisroom, if_neg hgo, hfill,
      Option.bind_some]
    dsimp only
    rw [sub_add_cancel]
    refine ih ?_ (hsigned.append hfilled hlength _) ?_
    · split_ifs <;> rfl
    · rw [List.length_append]
      omega
  | case5 arg out hle c format hnot ih =>
    subst harg
    rw [List.length_cons] at hroom
    rw [formatLoop, snprintfLoop, if_neg hle, if_neg (fun hnot => hle ((hfull out s h).1 hnot))]
    · refine ih rfl (h.put (by omega) c) ?_
      rw [List.length_append, List.length_singleton]
      omega
    · exact hnot
    · exact hnot

/-! ## The string -/

section Text

variable {size arg : ℕ} {args : ℕ → BitVec 32} {format out : CString}

/-- The string has room in the buffer, with its end. -/
lemma snprintfLoop_length_le (h : out.length ≤ size - 1) :
    (snprintfLoop size args format arg out).length ≤ size - 1 := by
  induction format, arg, out using snprintfLoop.induct size args with
  | case1 arg out =>
    rw [snprintfLoop]
    exact h
  | case2 c format arg out hle =>
    rw [snprintfLoop_full hle]
    exact h
  | case3 arg out hle rest num sign digits =>
    rename_i hbreak
    have hsign : sign.length ≤ 1 := length_sign_le (num.slt 0)
    rw [snprintfLoop, if_neg hle]
    dsimp only
    rw [if_pos hbreak]
    change (out ++ sign).length ≤ size - 1
    rw [List.length_append]
    omega
  | case4 arg out hle rest num sign digits =>
    rename_i hgo ih
    rw [snprintfLoop, if_neg hle]
    dsimp only
    rw [if_neg hgo]
    refine ih ?_
    rw [List.length_append]
    omega
  | case5 arg out hle c format hnot ih =>
    rw [snprintfLoop, if_neg hle]
    · refine ih ?_
      rw [List.length_append, List.length_singleton]
      omega
    · exact hnot

/-- A digit is a character, also of a number that is negative. -/
lemma ofInt_digit_ne_zero (num : ℤ) : UInt8.ofInt (48 + num.tmod 10) ≠ 0 := by
  have hgt := Int.lt_tmod_of_pos num (show (0 : ℤ) < 10 by decide)
  have hlt := Int.tmod_lt_of_pos num (show (0 : ℤ) < 10 by decide)
  generalize num.tmod 10 = d at *
  interval_cases d <;> decide

/-- The digits are no terminators. -/
lemma putDigits_ne_zero (rounds : ℕ) (num : ℤ) : 0 ∉ putDigits rounds num := by
  induction rounds generalizing num with
  | zero => exact List.not_mem_nil
  | succ rounds ih =>
    rw [putDigits, List.mem_append, List.mem_singleton]
    rintro (hmem | hlast)
    · split_ifs at hmem
      · exact ih _ hmem
      · exact List.not_mem_nil hmem
    · exact ofInt_digit_ne_zero num hlast.symm

/-- The string has no other end. -/
lemma zero_notMem_snprintfLoop (hformat : 0 ∉ format) (h : 0 ∉ out) :
    0 ∉ snprintfLoop size args format arg out := by
  have hsign : ∀ negative : Bool, (0 : UInt8) ∉ if negative then ([45] : CString) else [] := by decide
  induction format, arg, out using snprintfLoop.induct size args with
  | case1 arg out =>
    rw [snprintfLoop]
    exact h
  | case2 c format arg out hle =>
    rw [snprintfLoop_full hle]
    exact h
  | case3 arg out hle rest num sign digits =>
    rename_i hbreak
    rw [snprintfLoop, if_neg hle]
    dsimp only
    rw [if_pos hbreak, List.mem_append, not_or]
    exact ⟨h, hsign _⟩
  | case4 arg out hle rest num sign digits =>
    rename_i hgo ih
    rw [snprintfLoop, if_neg hle]
    dsimp only
    rw [if_neg hgo]
    refine ih (fun hmem => hformat (List.mem_cons_of_mem _ (List.mem_cons_of_mem _ hmem))) ?_
    rw [List.mem_append, List.mem_append, not_or, not_or]
    exact ⟨⟨h, hsign _⟩, putDigits_ne_zero 10 _⟩
  | case5 arg out hle c format hnot ih =>
    rw [snprintfLoop, if_neg hle]
    · refine ih (fun hmem => hformat (List.mem_cons_of_mem _ hmem)) ?_
      rw [List.mem_append, List.mem_singleton, not_or]
      exact ⟨h, fun hzero => hformat (hzero ▸ List.mem_cons_self)⟩
    · exact hnot

end Text

/-- What the buffer has, behind the loop, with the end of the string. -/
lemma SnprintfState.Holds.leaves {size : ℕ} {out : CString} {s : SnprintfState} (h : s.Holds out)
    (hzero : 0 ∉ out) (hlength : out.length < size) : (s.buffer.put s.p 0).Leaves size out where
  writes q hq := by
    have hplace := h.place
    rw [NumBuffer.put, List.mem_append, List.mem_singleton] at hq
    rcases hq with hq | rfl
    · have := h.writes q hq
      omega
    · omega
  chars k hk := by
    have hother : (s.buffer.put s.p 0).bytes k = s.buffer.bytes k :=
      Function.update_of_ne (by rw [h.place]; omega) _ _
    rw [hother, h.chars k hk, CString.bytes_of_lt hk]
    exact ⟨rfl, fun hnot => hzero (hnot ▸ List.getElem_mem hk)⟩
  terminated := by
    rw [← h.place]
    exact Function.update_self _ _ _
  length := hlength

/-- **A call of `snprintf`** leaves the string that the list of its characters is, and returns the number of them
as a number with a sign. The buffer and the format are in memory, without overlap. -/
lemma snprintfBuffer_eq {size : BitVec 32} (hsize : size ≠ 0) {format : CString} (hformat : 0 ∉ format)
    (hmemory : size.toNat + format.length < 2 ^ 32) (args : ℕ → BitVec 32) (bytes : ℤ → BitVec 8) :
    ∃ b, snprintfBuffer size format args ⟨bytes, [], []⟩ =
        some (b, ((snprintfLoop size.toNat args format 0 []).length : ℤ).bmod (2 ^ 32)) ∧
      b.Leaves size.toNat (snprintfLoop size.toNat args format 0 []) := by
  have hpos : size.toNat ≠ 0 := fun hzero => hsize (BitVec.eq_of_toNat_eq hzero)
  have hstart : SnprintfState.Holds [] ⟨⟨bytes, [], []⟩, 0, 0, 0⟩ :=
    ⟨rfl, rfl, fun k hk => absurd hk (Nat.not_lt_zero k), fun q hq => absurd hq List.not_mem_nil⟩
  have hroom : size.toNat + 11 ≤ 2 ^ 32 ∨ ([] : CString).length + 11 * format.length + 11 < 2 ^ 32 := by
    rw [List.length_nil]
    omega
  obtain ⟨s, hloop, hholds⟩ := formatLoop_holds hsize args rfl hstart hroom
  have hle : (snprintfLoop size.toNat args format 0 []).length ≤ size.toNat - 1 :=
    snprintfLoop_length_le (Nat.zero_le _)
  refine ⟨s.buffer.put s.p 0, ?_, hholds.leaves (zero_notMem_snprintfLoop hformat List.not_mem_nil)
    (show (snprintfLoop size.toNat args format 0 []).length < size.toNat by omega)⟩
  rw [snprintfBuffer, if_neg hsize, hloop, Option.map_some, BitVec.toInt_eq_toNat_bmod, hholds.written]

/-- **A call of `snprintf`** writes only to its buffer, leaves a string there with its end, and returns the length
of that string as a number with a sign, which is the length itself below `2 ^ 31`. -/
theorem snprintfBuffer_leaves {size : BitVec 32} (hsize : size ≠ 0) {format : CString} (hformat : 0 ∉ format)
    (hmemory : size.toNat + (format.length + 1) ≤ 2 ^ 32) (args : ℕ → BitVec 32) (bytes : ℤ → BitVec 8) :
    ∃ b r text, snprintfBuffer size format args ⟨bytes, [], []⟩ = some (b, r) ∧ b.Leaves size.toNat text ∧
      snprintf size.toNat format args = some text ∧ r = (text.length : ℤ).bmod (2 ^ 32) ∧
      (text.length < 2 ^ 31 → r = text.length) := by
  have hpos : size.toNat ≠ 0 := fun hzero => hsize (BitVec.eq_of_toNat_eq hzero)
  obtain ⟨b, hcall, hleaves⟩ := snprintfBuffer_eq hsize hformat (by omega) args bytes
  refine ⟨b, _, _, hcall, hleaves, by rw [snprintf, if_neg hpos], rfl, fun hlt => ?_⟩
  exact Int.bmod_eq_of_le (by omega) (by omega)

/-- The format `a%db` with the least number, which has one digit, in a buffer of 4 bytes. -/
theorem snprintfBuffer_leaves_least :
    ∃ b r text, snprintfBuffer 4 [97, 37, 100, 98] (fun _ => 0x80000000) ⟨fun _ => 1, [], []⟩ = some (b, r) ∧
      b.Leaves 4 text ∧ snprintf 4 [97, 37, 100, 98] (fun _ => 0x80000000) = some text ∧
      r = (text.length : ℤ).bmod (2 ^ 32) ∧ (text.length < 2 ^ 31 → r = text.length) :=
  snprintfBuffer_leaves (by decide) (by decide) (by decide) _ _

/-! ## A string that is too long for the returned number -/

/-- A format of directives, with the same number for each of them. -/
lemma snprintfLoop_replicate {size : ℕ} (num : BitVec 32) {length : ℕ}
    (hlength : (if num.slt 0 then 1 else 0) + (putDigits 10 (if num.slt 0 then -num else num).toInt).length =
      length) (n arg : ℕ) (out : CString) (hsize : out.length + length * n < size - 1) :
    (snprintfLoop size (fun _ => num) (List.replicate n [37, 100]).flatten arg out).length =
      out.length + length * n := by
  have hsign : (if num.slt 0 then ([45] : CString) else []).length = if num.slt 0 then 1 else 0 := by
    split_ifs <;> rfl
  induction n generalizing arg out with
  | zero =>
    rw [List.replicate_zero, List.flatten_nil, snprintfLoop, Nat.mul_zero, Nat.add_zero]
  | succ n ih =>
    have hfirst : length * (n + 1) = length * n + length := Nat.mul_succ length n
    have hput : (out ++ (if num.slt 0 then ([45] : CString) else []) ++
        putDigits 10 (if num.slt 0 then -num else num).toInt).length = out.length + length := by
      rw [List.length_append, List.length_append, hsign, Nat.add_assoc, hlength]
    rw [List.replicate_succ, List.flatten_cons, List.cons_append, List.cons_append, List.nil_append,
      snprintfLoop, if_neg (by omega)]
    dsimp only
    rw [if_neg (by rw [List.length_append, hsign]; omega), ih _ _ (by rw [hput]; omega), hput]
    omega

/-- A format of 200000000 directives, with a number of 11 characters for each. -/
theorem not_returnsLength :
    ∃ b r text, snprintfBuffer 3000000000 (List.replicate 200000000 [37, 100]).flatten (fun _ => 0x80000001)
        ⟨fun _ => 0, [], []⟩ = some (b, r) ∧ b.Leaves 3000000000 text ∧ r ≠ text.length := by
  have hformat : (0 : UInt8) ∉ (List.replicate 200000000 [37, 100]).flatten := by
    intro hmem
    obtain ⟨directive, hdirective, hmem⟩ := List.mem_flatten.1 hmem
    rw [List.eq_of_mem_replicate hdirective] at hmem
    exact absurd hmem (by decide)
  have hlength : ((List.replicate 200000000 [37, 100]).flatten : CString).length = 400000000 := by
    rw [List.length_flatten, List.map_replicate, List.sum_replicate_nat]
    rfl
  have hcount : (if (0x80000001 : BitVec 32).slt 0 then 1 else 0) + (putDigits 10
      (if (0x80000001 : BitVec 32).slt 0 then -0x80000001 else 0x80000001 : BitVec 32).toInt).length = 11 := by
    decide
  obtain ⟨b, hcall, hleaves⟩ := snprintfBuffer_eq (show (3000000000 : BitVec 32) ≠ 0 by decide) hformat
    (by rw [hlength]; decide) (fun _ => 0x80000001) (fun _ => 0)
  refine ⟨b, _, _, hcall, hleaves, ?_⟩
  have hsize : (3000000000 : BitVec 32).toNat = 3000000000 := rfl
  rw [hsize, snprintfLoop_replicate 0x80000001 hcount 200000000 0 [] (by decide)]
  decide

end Jarvis
