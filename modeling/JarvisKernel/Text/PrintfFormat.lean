import JarvisKernel.Text.NumberBounds
import JarvisKernel.Text.Printf
import Mathlib.Data.List.TakeWhile

set_option relaxedAutoImplicit false
set_option autoImplicit false

/-!
# What `handler_printf` reads of a format

Behind the letter of a conversion the place in the format is moved on without a check. If the format ends
inside a conversion, the letter is the end of the format, and the loop goes on behind it. Numbers are put into a
buffer of 64 bytes on the stack, and what is behind or before it is written if the text of a number does not fit.

## Main definitions

* `Jarvis.endsInside` — the formats that end inside a conversion.
* `Jarvis.ordinaryChars` — the characters of a format that are in no conversion.
* `Jarvis.PrintfCall.NumbersFit` — the texts of the numbers fit into the buffer.
* `Jarvis.PrintfCall.printfReads`, `Jarvis.PrintfCall.printfWrites`, `Jarvis.PrintfCall.roundTexts` — what is read
  of the format, what is written of the buffer, and what each round of the loop prints.
* `Jarvis.PrintfCall.PrintsFormat` — what is wanted of a call.

## Main results

* `Jarvis.PrintfCall.printfRound_conversion` — what the round of a conversion does.
* `Jarvis.PrintfCall.printfWrites_iff` — when a call writes in the buffer only.
* `Jarvis.PrintfCall.printsFormat_iff` — when a call is as is wanted.
-/

namespace Jarvis

/-! ## Formats -/

/-- The flags of a conversion. -/
def isFlag (c : BitVec 8) : Bool := (flagOf c).isSome

/-- The digits of the width and of the precision. -/
def isDigit (c : BitVec 8) : Bool := 48 ≤ c ∧ c ≤ 57

/-- What of a format is behind a precision. -/
def behindPrecision : List (BitVec 8) → List (BitVec 8)
  | [] => []
  | c :: text => if c = 46 then text.dropWhile isDigit else c :: text

/-- What of a format is behind the flags, the width and the precision of a conversion, from its letter on. -/
def behindOptions (text : List (BitVec 8)) : List (BitVec 8) :=
  behindPrecision ((text.dropWhile isFlag).dropWhile isDigit)

/-- The flags at the start of a conversion. -/
def flagsOf (text : List (BitVec 8)) : BitVec 32 :=
  (text.takeWhile isFlag).foldl (fun flags b => flags ||| (flagOf b).getD 0) 0

/-- The number at the start of a text, as `int` arithmetic computes it. -/
def numberOf (text : List (BitVec 8)) : ℤ :=
  (text.takeWhile isDigit).foldl (fun n b => int32 (int32 (n * 10) + (b.toNat - 48))) 0

/-- The width of a conversion. -/
def widthOf (text : List (BitVec 8)) : ℤ := numberOf (text.dropWhile isFlag)

/-- The precision at the start of a text, negative if there is none. -/
def pointNumber : List (BitVec 8) → ℤ
  | [] => -1
  | b :: text => if b = 46 then numberOf text else -1

/-- The precision of a conversion. -/
def precisionOf (text : List (BitVec 8)) : ℤ := pointNumber ((text.dropWhile isFlag).dropWhile isDigit)

/-- How many bytes of the arguments a conversion takes. -/
def argLength (letter : BitVec 8) : ℕ :=
  if letter = 100 ∨ letter = 105 then 4
  else if letter = 117 then 4
  else if letter = 111 then 4
  else if letter = 120 then 4
  else if letter = 88 then 4
  else if letter = 99 then 1
  else if letter = 115 then 4
  else if letter = 112 then 4
  else 0

/-- What a conversion puts into the buffer for the argument `v` fits. -/
def ConversionFits (letter : BitVec 8) (v : BitVec 32) (width precision : ℤ) (flags : BitVec 32) : Prop :=
  let digits := if precision < 0 then 1 else precision
  if letter = 100 ∨ letter = 105 ∨ letter = 117 then WritesFit v 10 width digits flags
  else if letter = 111 then WritesFit v 8 width digits flags
  else if letter = 120 ∨ letter = 88 then WritesFit v 16 width digits flags
  else if letter = 112 then WritesFit v 16 (int32 (width - 2)) 1 0
  else True

instance (letter : BitVec 8) (v : BitVec 32) (width precision : ℤ) (flags : BitVec 32) :
    Decidable (ConversionFits letter v width precision flags) := by
  unfold ConversionFits
  infer_instance

/-- What is behind a precision is no longer than the text. -/
lemma length_behindPrecision_le (text : List (BitVec 8)) : (behindPrecision text).length ≤ text.length := by
  cases text with
  | nil => exact Nat.le_refl _
  | cons c text =>
    rw [behindPrecision]
    split_ifs
    · exact (List.length_dropWhile_le _ _).trans (Nat.le_succ _)
    · exact Nat.le_refl _

/-- What is behind the options of a conversion is no longer than the text. -/
lemma length_behindOptions_le (text : List (BitVec 8)) : (behindOptions text).length ≤ text.length :=
  (length_behindPrecision_le _).trans ((List.length_dropWhile_le _ _).trans (List.length_dropWhile_le _ _))

/-- The format ends inside a conversion, before its letter. -/
def endsInside : List (BitVec 8) → Bool
  | [] => false
  | c :: text =>
    if c ≠ 37 then endsInside text
    else
      match _h : behindOptions text with
      | [] => true
      | _ :: rest => endsInside rest
termination_by text => text.length
decreasing_by
  · exact Nat.lt_succ_self _
  · have hle := length_behindOptions_le text
    rw [_h, List.length_cons] at hle
    exact Nat.lt_succ_of_lt hle

/-- The characters that are in no conversion, each with its place, for a format from place `p` on. -/
def ordinaryChars (p : ℕ) : List (BitVec 8) → List (ℕ × List (BitVec 8))
  | [] => []
  | c :: text =>
    if c ≠ 37 then (p, [c]) :: ordinaryChars (p + 1) text
    else
      match h : behindOptions text with
      | [] => []
      | _ :: rest => ordinaryChars (p + 1 + (text.length - rest.length)) rest
termination_by text => text.length
decreasing_by
  · exact Nat.lt_succ_self _
  · have hle := length_behindOptions_le text
    rw [h, List.length_cons] at hle
    exact Nat.lt_succ_of_lt hle

/-- The texts of the numbers fit into the buffer, for a format whose first argument is at place `args`. -/
def PrintfCall.NumbersFit (c : PrintfCall) (args : ℕ) : List (BitVec 8) → Prop
  | [] => True
  | b :: text =>
    if b ≠ 37 then c.NumbersFit args text
    else
      match _h : behindOptions text with
      | [] => True
      | letter :: rest =>
        ConversionFits letter (BitVec.ofNat 32 (ByteBuffer.get32 c.args args)) (widthOf text) (precisionOf text)
            (flagsOf text) ∧
          c.NumbersFit (args + argLength letter) rest
termination_by text => text.length
decreasing_by
  · exact Nat.lt_succ_self _
  · have hle := length_behindOptions_le text
    rw [_h, List.length_cons] at hle
    exact Nat.lt_succ_of_lt hle

section Formats

variable {letter : BitVec 8} {text rest : List (BitVec 8)}

/-- A conversion without a letter. -/
lemma endsInside_of_nil (h : behindOptions text = []) : endsInside (37 :: text) = true := by
  rw [endsInside, if_neg (by decide)]
  split
  · rfl
  · next heq => exact absurd (h.symm.trans heq) (List.cons_ne_nil _ _).symm

/-- A conversion with its letter, and the rest of the format. -/
lemma endsInside_of_cons (h : behindOptions text = letter :: rest) :
    endsInside (37 :: text) = endsInside rest := by
  rw [endsInside, if_neg (by decide)]
  split
  · next heq => exact absurd (h.symm.trans heq) (List.cons_ne_nil _ _)
  · next heq => rw [(List.cons.inj (h.symm.trans heq)).2]

/-- A conversion has no ordinary characters. -/
lemma ordinaryChars_of_cons (h : behindOptions text = letter :: rest) (p : ℕ) :
    ordinaryChars p (37 :: text) = ordinaryChars (p + 1 + (text.length - rest.length)) rest := by
  rw [ordinaryChars, if_neg (by decide)]
  split
  · next heq => exact absurd (h.symm.trans heq) (List.cons_ne_nil _ _)
  · next heq => rw [(List.cons.inj (h.symm.trans heq)).2]

/-- A conversion, and the rest of the format. -/
lemma PrintfCall.numbersFit_of_cons (c : PrintfCall) (h : behindOptions text = letter :: rest) (args : ℕ) :
    c.NumbersFit args (37 :: text) ↔
      ConversionFits letter (BitVec.ofNat 32 (ByteBuffer.get32 c.args args)) (widthOf text) (precisionOf text)
          (flagsOf text) ∧
        c.NumbersFit (args + argLength letter) rest := by
  rw [NumbersFit, if_neg (by decide)]
  split
  · next heq => exact absurd (h.symm.trans heq) (List.cons_ne_nil _ _)
  · next heq =>
    obtain ⟨rfl, rfl⟩ := List.cons.inj (h.symm.trans heq)
    rfl

end Formats

namespace PrintfCall

variable (c : PrintfCall)

/-! ## What is read and what is printed -/

/-- The places that a loop reads which goes on behind the characters of a kind. -/
def skipReads (isMore : BitVec 8 → Bool) : ℕ → ℕ → List ℕ
  | 0, _ => []
  | rounds + 1, p => p :: if isMore (c.format p) then skipReads isMore rounds (p + 1) else []

/-- The places of the format that a round of the loop reads. -/
def roundReads (rounds : ℕ) (s : PrintfState) : List ℕ :=
  s.format ::
    if c.format s.format ≠ 37 then []
    else
      c.skipReads isFlag rounds (s.format + 1) ++
        match c.parseFlags rounds (s.format + 1) 0 with
        | none => []
        | some flags =>
          c.skipReads isDigit rounds flags.1 ++
            match c.parseNumber rounds flags.1 0 with
            | none => []
            | some width =>
              width.1 :: (if c.format width.1 = 46 then c.skipReads isDigit rounds (width.1 + 1) else []) ++
                match c.parsePrecision rounds width.1 with
                | none => []
                | some precision => [precision.1]

/-- The places of the format that the loop reads. -/
def printfReads : ℕ → PrintfState → List ℕ
  | 0, _ => []
  | rounds + 1, s =>
    s.format ::
      if c.format s.format = 0 then []
      else
        c.roundReads (rounds + 1) s ++
          match c.printfRound (rounds + 1) s with
          | none => []
          | some t => printfReads rounds t

/-- The places of the buffer that `int_to_string` writes for a number. -/
def numberWrites (s : PrintfState) (num : BitVec 32) (base : ℕ) (uppercase : Bool) (width precision : ℤ)
    (flags : BitVec 32) : List ℤ :=
  match intToString (c.stack s.format) num ⟨s.smallBuffer, [], []⟩ base uppercase width precision flags with
  | none => []
  | some r => r.1.writes

/-- The places of the buffer that a conversion writes. -/
def convertWrites (s : PrintfState) (width precision : ℤ) (flags : BitVec 32) : List ℤ :=
  let letter := c.format s.format
  let digits := if precision < 0 then 1 else precision
  if letter = 100 ∨ letter = 105 ∨ letter = 117 then c.numberWrites s (c.nextWord s) 10 false width digits flags
  else if letter = 111 then c.numberWrites s (c.nextWord s) 8 false width digits flags
  else if letter = 120 ∨ letter = 88 then
    c.numberWrites s (c.nextWord s) 16 (letter = 88) width digits flags
  else if letter = 112 then c.numberWrites s (c.nextWord s) 16 false (int32 (width - 2)) 1 0
  else []

/-- The places of the buffer that a round of the loop writes. -/
def roundWrites (rounds : ℕ) (s : PrintfState) : List ℤ :=
  if c.format s.format ≠ 37 then []
  else
    match c.parseFlags rounds (s.format + 1) 0 with
    | none => []
    | some flags =>
      match c.parseNumber rounds flags.1 0 with
      | none => []
      | some width =>
        match c.parsePrecision rounds width.1 with
        | none => []
        | some precision => c.convertWrites { s with format := precision.1 } width.2 precision.2 flags.2

/-- The places of the buffer that the loop writes. -/
def printfWrites : ℕ → PrintfState → List ℤ
  | 0, _ => []
  | rounds + 1, s =>
    if c.format s.format = 0 then []
    else
      c.roundWrites (rounds + 1) s ++
        match c.printfRound (rounds + 1) s with
        | none => []
        | some t => printfWrites rounds t

/-- What each round of the loop prints, with the place of the format where it starts. -/
def roundTexts : ℕ → PrintfState → List (ℕ × List (BitVec 8))
  | 0, _ => []
  | rounds + 1, s =>
    if c.format s.format = 0 then []
    else
      match c.printfRound (rounds + 1) s with
      | none => []
      | some t => (s.format, t.out.drop s.out.length) :: roundTexts rounds t

/-- The loop returns and reads the format only as far as its end, what is printed is what the rounds print, and those
that are no conversions print the ordinary characters, each once and in order. -/
structure PrintsOrdinary (c : PrintfCall) (text : List (BitVec 8)) (rounds : ℕ) (s t : PrintfState) : Prop where
  returns : c.printfLoop rounds s = some t
  reads : ∀ p ∈ c.printfReads rounds s, p ≤ s.format + text.length
  out : t.out = s.out ++ (c.roundTexts rounds s).flatMap Prod.snd
  ordinary : (c.roundTexts rounds s).filter (fun r => c.format r.1 ≠ 37) = ordinaryChars s.format text

/-- What is wanted of the loop. A number that does not fit into the 64 bytes of the buffer is put over other things on
the stack, which may be the address that the call returns to, or its place in the format. So nothing is wanted of the
rest of such a call, and the writes have to be in the buffer. -/
structure PrintsFormat (c : PrintfCall) (text : List (BitVec 8)) (rounds : ℕ) (s t : PrintfState) : Prop
    extends c.PrintsOrdinary text rounds s t where
  writes : ∀ p ∈ c.printfWrites rounds s, 0 ≤ p ∧ p < 64

/-! ## The loops of a conversion -/

variable {c : PrintfCall} {text : List (BitVec 8)} {p rounds : ℕ}

/-- A loop that goes on behind the characters of a kind, and ends at the first other one. -/
lemma skip_spec {σ : Type} {loop : ℕ → ℕ → σ → Option (ℕ × σ)} {isMore : BitVec 8 → Bool}
    (next : BitVec 8 → σ → σ) (hend : isMore 0 = false) (hzero : ∀ p x, loop 0 p x = none)
    (hstep : ∀ rounds p x, loop (rounds + 1) p x =
      if isMore (c.format p) then loop rounds (p + 1) (next (c.format p) x) else some (p, x))
    (h : TextAt c.format p text) (rounds : ℕ) (x : σ) :
    (text.length < rounds → (loop rounds p x).isSome) ∧
      ∀ r, loop rounds p x = some r → TextAt c.format r.1 (text.dropWhile isMore) ∧
        r.1 + (text.dropWhile isMore).length = p + text.length ∧
        r.2 = (text.takeWhile isMore).foldl (fun x b => next b x) x := by
  induction text generalizing p rounds x with
  | nil =>
    cases rounds with
    | zero => exact ⟨fun hlt => absurd hlt (Nat.not_lt_zero _), fun r hr => by simp [hzero] at hr⟩
    | succ rounds =>
      have hformat : c.format p = 0 := h
      rw [hstep, hformat, hend, if_neg Bool.false_ne_true]
      refine ⟨fun _ => rfl, fun r hr => ?_⟩
      obtain rfl := Option.some.inj hr
      exact ⟨h, rfl, rfl⟩
  | cons b text ih =>
    obtain ⟨hformat, -, hrest⟩ := id h
    cases rounds with
    | zero => exact ⟨fun hlt => absurd hlt (Nat.not_lt_zero _), fun r hr => by simp [hzero] at hr⟩
    | succ rounds =>
      rw [hstep, hformat, List.dropWhile_cons, List.takeWhile_cons, List.length_cons]
      cases isMore b with
      | false =>
        refine ⟨fun _ => rfl, fun r hr => ?_⟩
        obtain rfl := Option.some.inj hr
        exact ⟨h, rfl, rfl⟩
      | true =>
        obtain ⟨hsome, hspec⟩ := ih hrest rounds (next b x)
        refine ⟨fun hlt => hsome (by omega), fun r hr => ?_⟩
        obtain ⟨hat, hplace, hvalue⟩ := hspec r hr
        exact ⟨hat, by simp only [if_true]; omega, hvalue⟩

/-- The loop of the flags. -/
lemma parseFlags_spec (h : TextAt c.format p text) (rounds : ℕ) :
    (text.length < rounds → (c.parseFlags rounds p 0).isSome) ∧
      ∀ r, c.parseFlags rounds p 0 = some r → TextAt c.format r.1 (text.dropWhile isFlag) ∧
        r.1 + (text.dropWhile isFlag).length = p + text.length ∧ r.2 = flagsOf text := by
  refine skip_spec (fun b flags => flags ||| (flagOf b).getD 0) rfl (fun _ _ => rfl) ?_ h rounds 0
  intro rounds p flags
  rw [parseFlags, isFlag]
  cases flagOf (c.format p) with
  | none => rfl
  | some flag => rfl

/-- The loop of the digits of a width or a precision. -/
lemma parseNumber_spec (h : TextAt c.format p text) (rounds : ℕ) :
    (text.length < rounds → (c.parseNumber rounds p 0).isSome) ∧
      ∀ r, c.parseNumber rounds p 0 = some r → TextAt c.format r.1 (text.dropWhile isDigit) ∧
        r.1 + (text.dropWhile isDigit).length = p + text.length ∧ r.2 = numberOf text := by
  refine skip_spec (fun b n => int32 (int32 (n * 10) + (b.toNat - 48))) rfl (fun _ _ => rfl) ?_ h rounds 0
  intro rounds p n
  rw [parseNumber, isDigit]
  simp only [decide_eq_true_eq]

/-- The places that such a loop reads. -/
lemma skipReads_le {isMore : BitVec 8 → Bool} (hend : isMore 0 = false) (h : TextAt c.format p text)
    (rounds : ℕ) : ∀ q ∈ c.skipReads isMore rounds p, q ≤ p + text.length := by
  induction text generalizing p rounds with
  | nil =>
    have hformat : c.format p = 0 := h
    cases rounds with
    | zero => exact fun q hq => absurd hq List.not_mem_nil
    | succ rounds =>
      rw [skipReads, hformat, hend, if_neg Bool.false_ne_true, List.forall_mem_singleton]
      exact Nat.le_add_right _ _
  | cons b text ih =>
    cases rounds with
    | zero => exact fun q hq => absurd hq List.not_mem_nil
    | succ rounds =>
      rw [skipReads, List.forall_mem_cons]
      refine ⟨Nat.le_add_right _ _, fun q hq => ?_⟩
      split_ifs at hq
      · have := ih h.2.2 rounds q hq
        rw [List.length_cons]
        omega
      · exact absurd hq List.not_mem_nil

/-! ## The conversions -/

/-- Something is printed, `n` bytes of the arguments are taken, and the place in the format is kept. -/
structure Prints (n : ℕ) (s t : PrintfState) : Prop where
  format : t.format = s.format
  args : t.args = s.args + n
  out : s.out <+: t.out

/-- One after the other. -/
lemma Prints.trans {m n : ℕ} {s t u : PrintfState} (h : Prints m s t) (h' : Prints n t u) : Prints (m + n) s u :=
  ⟨h'.format.trans h.format, by rw [h'.args, h.args, Nat.add_assoc], h.out.trans h'.out⟩

/-- Taking an argument. -/
lemma prints_arg (s : PrintfState) (n : ℕ) : Prints n s { s with args := s.args + n } :=
  ⟨rfl, rfl, List.prefix_rfl⟩

/-- Printing characters. -/
lemma prints_printChars (s : PrintfState) (chars : List (BitVec 8)) : Prints 0 s (s.printChars chars) := by
  rw [PrintfState.printChars_eq]
  exact ⟨rfl, rfl, List.prefix_append _ _⟩

/-- Printing a character. -/
lemma prints_printChar (s : PrintfState) (char : BitVec 8) : Prints 0 s (s.printChar char) :=
  prints_printChars s [char]

/-- A number is printed, whatever `int_to_string` puts into the buffer for it. -/
lemma printNumber_spec {base : ℕ} (hbase : 2 ≤ base) (c : PrintfCall) (s : PrintfState) (num : BitVec 32)
    (uppercase : Bool) (width precision : ℤ) (flags : BitVec 32) :
    ∃ t, c.printNumber s num base uppercase width precision flags = some t ∧ Prints 0 s t := by
  obtain ⟨r, hr⟩ := Option.isSome_iff_exists.1 (intToString_isSome hbase (c.stack s.format) num
    ⟨s.smallBuffer, [], []⟩ uppercase width precision flags)
  obtain ⟨hformat, hargs, hout⟩ := prints_printChars { s with smallBuffer := r.1.bytes }
    ((List.range r.2.toNat).map fun i : ℕ => r.1.bytes i)
  rw [printNumber, hr, Option.map_some]
  exact ⟨_, rfl, hformat, hargs, hout⟩

/-- The conversions of numbers. -/
lemma convertNumber_spec {base : ℕ} (hbase : 2 ≤ base) (c : PrintfCall) (s : PrintfState) (uppercase : Bool)
    (width precision : ℤ) (flags : BitVec 32) :
    ∃ t, c.convertNumber s base uppercase width precision flags = some t ∧ Prints 4 s t := by
  obtain ⟨t, ht, hprints⟩ := printNumber_spec hbase c { s with args := s.args + 4 } (c.nextWord s) uppercase width
    (if precision < 0 then 1 else precision) flags
  exact ⟨t, ht, (prints_arg s 4).trans hprints⟩

/-- The conversion of a pointer. -/
lemma convertPointer_spec (c : PrintfCall) (s : PrintfState) (width : ℤ) :
    ∃ t, c.convertPointer s width = some t ∧ Prints 4 s t := by
  obtain ⟨t, ht, hprints⟩ := printNumber_spec (show 2 ≤ 16 by decide) c
    ({ s with args := s.args + 4 }.printChars [48, 120]) (c.nextWord s) false (int32 (width - 2)) 1 0
  exact ⟨t, ht, ((prints_arg s 4).trans (prints_printChars _ _)).trans hprints⟩

/-- Padding before and behind what is printed. -/
lemma prints_padded (s : PrintfState) (left right : Prop) [Decidable left] [Decidable right]
    (before chars behind : List (BitVec 8)) :
    Prints 0 s
      (if right then ((if left then s.printChars before else s).printChars chars).printChars behind
        else (if left then s.printChars before else s).printChars chars) := by
  have hleft : Prints 0 s (if left then s.printChars before else s) := by
    split_ifs
    · exact prints_printChars s before
    · exact ⟨rfl, rfl, List.prefix_rfl⟩
  have hchars := hleft.trans (prints_printChars _ chars)
  by_cases hright : right
  · rw [if_pos hright]
    exact hchars.trans (prints_printChars _ behind)
  · rw [if_neg hright]
    exact hchars

/-- The conversion of a character. -/
lemma prints_convertChar (c : PrintfCall) (s : PrintfState) (width : ℤ) (flags : BitVec 32) :
    Prints 1 s (c.convertChar s width flags) :=
  (prints_arg s 1).trans (prints_padded { s with args := s.args + 1 } _ _ _ [c.args s.args] _)

/-- The conversion of a string. -/
lemma prints_convertString (c : PrintfCall) (s : PrintfState) (width precision : ℤ) (flags : BitVec 32) :
    Prints 4 s (c.convertString s width precision flags) :=
  (prints_arg s 4).trans (prints_padded { s with args := s.args + 4 } _ _ _ _ _)

/-- One of two conversions. -/
lemma ite_prints {m n : ℕ} {s : PrintfState} {q : Prop} [Decidable q] {a b : Option PrintfState}
    (ha : ∃ t, a = some t ∧ Prints m s t) (hb : ∃ t, b = some t ∧ Prints n s t) :
    ∃ t, (if q then a else b) = some t ∧ Prints (if q then m else n) s t := by
  by_cases hq : q
  · rwa [if_pos hq, if_pos hq]
  · rwa [if_neg hq, if_neg hq]

/-- A conversion returns, takes its argument, keeps the place in the format, and prints something. -/
lemma convert_spec (c : PrintfCall) (s : PrintfState) (width precision : ℤ) (flags : BitVec 32) :
    ∃ t, c.convert s width precision flags = some t ∧ Prints (argLength (c.format s.format)) s t := by
  rw [convert, argLength]
  apply ite_prints (convertNumber_spec (by decide) c s false width precision flags)
  apply ite_prints (convertNumber_spec (by decide) c s false width precision flags)
  apply ite_prints (convertNumber_spec (by decide) c s false width precision flags)
  apply ite_prints (convertNumber_spec (by decide) c s false width precision flags)
  apply ite_prints (convertNumber_spec (by decide) c s true width precision flags)
  apply ite_prints ⟨_, rfl, prints_convertChar c s width flags⟩
  apply ite_prints ⟨_, rfl, prints_convertString c s width precision flags⟩
  apply ite_prints (convertPointer_spec c s width)
  by_cases hpercent : c.format s.format = 37
  · rw [if_pos hpercent]
    exact ⟨_, rfl, prints_printChar s 37⟩
  · rw [if_neg hpercent]
    exact ⟨_, rfl, prints_printChar s _⟩

/-- What is put for a number is in the buffer if it fits. -/
lemma numberWrites_iff {base : ℕ} (hbase : 2 ≤ base) (c : PrintfCall) (s : PrintfState) (num : BitVec 32)
    (uppercase : Bool) (width precision : ℤ) (flags : BitVec 32) :
    (∀ p ∈ c.numberWrites s num base uppercase width precision flags, 0 ≤ p ∧ p < 64) ↔
      WritesFit num base width precision flags := by
  obtain ⟨r, hr⟩ := Option.isSome_iff_exists.1 (intToString_isSome hbase (c.stack s.format) num
    ⟨s.smallBuffer, [], []⟩ uppercase width precision flags)
  rw [numberWrites, hr]
  exact intToString_writes_iff hbase hr

/-- A conversion writes in the buffer only if what it puts there fits. -/
lemma convertWrites_iff (c : PrintfCall) (s : PrintfState) (width precision : ℤ) (flags : BitVec 32) :
    (∀ p ∈ c.convertWrites s width precision flags, 0 ≤ p ∧ p < 64) ↔
      ConversionFits (c.format s.format) (c.nextWord s) width precision flags := by
  have hnumber := fun base (hbase : 2 ≤ base) => numberWrites_iff hbase c s (c.nextWord s)
  rw [convertWrites, ConversionFits]
  by_cases hdecimal : c.format s.format = 100 ∨ c.format s.format = 105 ∨ c.format s.format = 117
  · rw [if_pos hdecimal, if_pos hdecimal]
    exact hnumber 10 (by decide) _ _ _ _
  rw [if_neg hdecimal, if_neg hdecimal]
  by_cases hoctal : c.format s.format = 111
  · rw [if_pos hoctal, if_pos hoctal]
    exact hnumber 8 (by decide) _ _ _ _
  rw [if_neg hoctal, if_neg hoctal]
  by_cases hhex : c.format s.format = 120 ∨ c.format s.format = 88
  · rw [if_pos hhex, if_pos hhex]
    exact hnumber 16 (by decide) _ _ _ _
  rw [if_neg hhex, if_neg hhex]
  by_cases hpointer : c.format s.format = 112
  · rw [if_pos hpointer, if_pos hpointer]
    exact hnumber 16 (by decide) _ _ _ _
  · rw [if_neg hpointer, if_neg hpointer]
    exact iff_of_true (fun p hp => absurd hp List.not_mem_nil) trivial

/-! ## Rounds -/

/-- The precision, with its point. -/
lemma parsePrecision_spec (h : TextAt c.format p text) (rounds : ℕ) :
    (text.length < rounds → (c.parsePrecision rounds p).isSome) ∧
      ∀ r, c.parsePrecision rounds p = some r → TextAt c.format r.1 (behindPrecision text) ∧
        r.1 + (behindPrecision text).length = p + text.length ∧ r.2 = pointNumber text := by
  rw [parsePrecision]
  cases text with
  | nil =>
    have hformat : c.format p = 0 := h
    rw [hformat, if_neg (by decide)]
    refine ⟨fun _ => rfl, fun r hr => ?_⟩
    obtain rfl := Option.some.inj hr
    exact ⟨h, rfl, rfl⟩
  | cons b text =>
    rw [behindPrecision, pointNumber, h.1]
    split_ifs with hpoint
    · obtain ⟨hsome, hspec⟩ := parseNumber_spec h.2.2 rounds
      rw [List.length_cons]
      refine ⟨fun hlt => hsome (by omega), fun r hr => ?_⟩
      obtain ⟨hat, hplace, hvalue⟩ := hspec r hr
      exact ⟨hat, by omega, hvalue⟩
    · refine ⟨fun _ => rfl, fun r hr => ?_⟩
      obtain rfl := Option.some.inj hr
      exact ⟨h, rfl, rfl⟩

/-- The options of a conversion are parsed, with enough rounds for their loops. -/
lemma options_isSome (h : TextAt c.format p text) (hrounds : text.length < rounds) :
    ∃ flags width precision, c.parseFlags rounds p 0 = some flags ∧ c.parseNumber rounds flags.1 0 = some width ∧
      c.parsePrecision rounds width.1 = some precision := by
  obtain ⟨flags, hflags⟩ := Option.isSome_iff_exists.1 ((parseFlags_spec h rounds).1 hrounds)
  obtain ⟨hat, -⟩ := (parseFlags_spec h rounds).2 flags hflags
  have hle := (List.length_dropWhile_le isFlag text).trans_lt hrounds
  obtain ⟨width, hwidth⟩ := Option.isSome_iff_exists.1 ((parseNumber_spec hat rounds).1 hle)
  obtain ⟨hat', -⟩ := (parseNumber_spec hat rounds).2 width hwidth
  have hle' := (List.length_dropWhile_le isDigit (text.dropWhile isFlag)).trans_lt hle
  obtain ⟨precision, hprecision⟩ := Option.isSome_iff_exists.1 ((parsePrecision_spec hat' rounds).1 hle')
  exact ⟨flags, width, precision, hflags, hwidth, hprecision⟩

/-- Behind the options of a conversion the place is at its letter, and the options are those of the format. -/
lemma options_spec (h : TextAt c.format p text) {flags : ℕ × BitVec 32} {width precision : ℕ × ℤ}
    (hflags : c.parseFlags rounds p 0 = some flags) (hwidth : c.parseNumber rounds flags.1 0 = some width)
    (hprecision : c.parsePrecision rounds width.1 = some precision) :
    TextAt c.format precision.1 (behindOptions text) ∧
      precision.1 + (behindOptions text).length = p + text.length ∧
      flags.2 = flagsOf text ∧ width.2 = widthOf text ∧ precision.2 = precisionOf text := by
  obtain ⟨hat, hplace, hflagsOf⟩ := (parseFlags_spec h rounds).2 flags hflags
  obtain ⟨hat', hplace', hwidthOf⟩ := (parseNumber_spec hat rounds).2 width hwidth
  obtain ⟨hat'', hplace'', hprecisionOf⟩ := (parsePrecision_spec hat' rounds).2 precision hprecision
  exact ⟨hat'', hplace''.trans (hplace'.trans hplace), hflagsOf, hwidthOf, hprecisionOf⟩

/-- The round of a character or a conversion returns. -/
lemma printfRound_isSome {s : PrintfState} (h : TextAt c.format (s.format + 1) text)
    (hrounds : text.length < rounds) : (c.printfRound rounds s).isSome := by
  rw [printfRound]
  split_ifs
  · rfl
  · obtain ⟨flags, width, precision, hflags, hwidth, hprecision⟩ := options_isSome h hrounds
    obtain ⟨t, ht, -⟩ := convert_spec c { s with format := precision.1 } width.2 precision.2 flags.2
    rw [hflags, Option.bind_some, hwidth, Option.bind_some, hprecision, Option.bind_some, ht]
    rfl

/-- **The round of a conversion** comes to the letter behind its options, takes its argument, prints something, and
moves on behind the letter. It writes in the buffer only if what it puts there fits. -/
lemma printfRound_conversion {s t : PrintfState} (hpercent : c.format s.format = 37)
    (h : TextAt c.format (s.format + 1) text) (hround : c.printfRound rounds s = some t) :
    s.out <+: t.out ∧ ∃ p, t.format = p + 1 ∧ TextAt c.format p (behindOptions text) ∧
      p + (behindOptions text).length = s.format + 1 + text.length ∧ t.args = s.args + argLength (c.format p) ∧
      ((∀ q ∈ c.roundWrites rounds s, 0 ≤ q ∧ q < 64) ↔
        ConversionFits (c.format p) (c.nextWord s) (widthOf text) (precisionOf text) (flagsOf text)) := by
  rw [printfRound, if_neg (not_not.2 hpercent)] at hround
  obtain ⟨flags, hflags, hround⟩ := Option.bind_eq_some_iff.1 hround
  obtain ⟨width, hwidth, hround⟩ := Option.bind_eq_some_iff.1 hround
  obtain ⟨precision, hprecision, hround⟩ := Option.bind_eq_some_iff.1 hround
  obtain ⟨t', ht', rfl⟩ := Option.map_eq_some_iff.1 hround
  obtain ⟨t'', ht'', hprints⟩ := convert_spec c { s with format := precision.1 } width.2 precision.2 flags.2
  obtain rfl := Option.some.inj (ht'.symm.trans ht'')
  obtain ⟨hat, hplace, hflagsOf, hwidthOf, hprecisionOf⟩ := options_spec h hflags hwidth hprecision
  refine ⟨hprints.out, precision.1, ?_, hat, hplace, hprints.args, ?_⟩
  · rw [hprints.format]
  · rw [roundWrites, if_neg (not_not.2 hpercent), hflags]
    dsimp only
    rw [hwidth]
    dsimp only
    rw [hprecision, ← hflagsOf, ← hwidthOf, ← hprecisionOf]
    exact convertWrites_iff c { s with format := precision.1 } width.2 precision.2 flags.2

/-- The precision is read as far as the end of the format. -/
lemma precisionReads_le (h : TextAt c.format p text) (rounds : ℕ) :
    ∀ q ∈ p :: (if c.format p = 46 then c.skipReads isDigit rounds (p + 1) else []), q ≤ p + text.length := by
  rw [List.forall_mem_cons]
  refine ⟨Nat.le_add_right _ _, fun q hq => ?_⟩
  split_ifs at hq with hpoint
  · cases text with
    | nil =>
      have hformat : c.format p = 0 := h
      exact absurd (hformat.symm.trans hpoint) (by decide)
    | cons b text =>
      have hle := skipReads_le rfl h.2.2 rounds q hq
      rw [List.length_cons]
      omega
  · exact absurd hq List.not_mem_nil

/-- A round reads no place behind the end of the format. -/
lemma roundReads_le {s : PrintfState} (h : TextAt c.format (s.format + 1) text) (rounds : ℕ) :
    ∀ q ∈ c.roundReads rounds s, q ≤ s.format + 1 + text.length := by
  rw [roundReads, List.forall_mem_cons]
  refine ⟨by omega, ?_⟩
  split_ifs with hpercent
  · exact fun q hq => absurd hq List.not_mem_nil
  · rw [List.forall_mem_append]
    refine ⟨skipReads_le rfl h rounds, ?_⟩
    cases hflags : c.parseFlags rounds (s.format + 1) 0 with
    | none => exact fun q hq => absurd hq List.not_mem_nil
    | some flags =>
      obtain ⟨hat, hplace, -⟩ := (parseFlags_spec h rounds).2 flags hflags
      dsimp only
      rw [List.forall_mem_append, ← hplace]
      refine ⟨skipReads_le rfl hat rounds, ?_⟩
      cases hwidth : c.parseNumber rounds flags.1 0 with
      | none => exact fun q hq => absurd hq List.not_mem_nil
      | some width =>
        obtain ⟨hat', hplace', -⟩ := (parseNumber_spec hat rounds).2 width hwidth
        dsimp only
        rw [List.forall_mem_append, ← hplace']
        refine ⟨precisionReads_le hat' rounds, ?_⟩
        cases hprecision : c.parsePrecision rounds width.1 with
        | none => exact fun q hq => absurd hq List.not_mem_nil
        | some precision =>
          obtain ⟨-, hplace'', -⟩ := (parsePrecision_spec hat' rounds).2 precision hprecision
          rw [List.forall_mem_singleton, ← hplace'']
          exact Nat.le_add_right _ _

/-! ## The loop -/

/-- What is wanted of the loop, from what is wanted of it behind its first round. -/
lemma PrintsOrdinary.cons {s t u : PrintfState} {rest : List (BitVec 8)} (hformat : c.format s.format ≠ 0)
    (hround : c.printfRound (rounds + 1) s = some t) (hout : s.out <+: t.out)
    (hreads : ∀ q ∈ c.roundReads (rounds + 1) s, q ≤ s.format + text.length)
    (hplace : t.format + rest.length = s.format + text.length)
    (hchars : ordinaryChars s.format text =
      [(s.format, t.out.drop s.out.length)].filter (fun r => c.format r.1 ≠ 37) ++ ordinaryChars t.format rest)
    (h : c.PrintsOrdinary rest rounds t u) : c.PrintsOrdinary text (rounds + 1) s u where
  returns := by rw [printfLoop, if_neg hformat, hround, Option.bind_some, h.returns]
  reads := by
    rw [printfReads, if_neg hformat, hround, List.forall_mem_cons, List.forall_mem_append, ← hplace]
    exact ⟨by omega, hplace ▸ hreads, h.reads⟩
  out := by
    obtain ⟨chars, hchars⟩ := hout
    rw [roundTexts, if_neg hformat, hround, h.out, List.flatMap_cons, ← hchars, List.drop_left,
      List.append_assoc]
  ordinary := by
    rw [roundTexts, if_neg hformat, hround, hchars, ← h.ordinary, ← List.filter_append]
    rfl

/-- **A format that does not end inside a conversion** is read as far as its end, with its ordinary characters printed.

**Proof sketch.** By induction on the format: a round takes an ordinary character, or a conversion with its
letter. -/
lemma printsOrdinary (htext : endsInside text = false) {s : PrintfState} (h : TextAt c.format s.format text)
    (hrounds : text.length < rounds) : ∃ t, c.PrintsOrdinary text rounds s t := by
  obtain ⟨rounds, rfl⟩ : ∃ k, rounds = k + 1 := ⟨rounds - 1, by omega⟩
  induction text using endsInside.induct generalizing s rounds with
  | case1 =>
    have hformat : c.format s.format = 0 := h
    refine ⟨s, ?_, ?_, ?_, ?_⟩
    · rw [printfLoop, if_pos hformat]
    · rw [printfReads, if_pos hformat, List.forall_mem_singleton]
      exact Nat.le_refl _
    · rw [roundTexts, if_pos hformat, List.flatMap_nil, List.append_nil]
    · rw [roundTexts, if_pos hformat, ordinaryChars]
      rfl
  | case2 b text hb ih =>
    obtain ⟨hformat, hne, hrest⟩ := h
    rw [endsInside, if_pos hb] at htext
    rw [List.length_cons] at hrounds
    have hround : c.printfRound (rounds + 1) s = some { s.printChar b with format := s.format + 1 } := by
      rw [printfRound, hformat, if_pos hb]
    obtain ⟨k, rfl⟩ : ∃ k, rounds = k + 1 := ⟨rounds - 1, by omega⟩
    obtain ⟨t, ht⟩ := ih htext (s := { s.printChar b with format := s.format + 1 }) hrest k (by omega)
    refine ⟨t, PrintsOrdinary.cons (hformat ▸ hne) hround (prints_printChar s b).out ?_ ?_ ?_ ht⟩
    · rw [roundReads, hformat, if_pos hb, List.forall_mem_singleton]
      omega
    · rw [List.length_cons]
      dsimp only
      omega
    · rw [ordinaryChars, if_pos hb, List.filter_cons_of_pos (by simpa [hformat] using hb), PrintfState.printChar,
        if_neg hne]
      simp
  | case3 b text hb hbehind =>
    obtain rfl := not_not.1 hb
    rw [endsInside_of_nil hbehind] at htext
    exact absurd htext.symm Bool.false_ne_true
  | case4 b text hb letter rest hbehind ih =>
    obtain rfl := not_not.1 hb
    obtain ⟨hpercent, -, hrest⟩ := h
    have hle := length_behindOptions_le text
    rw [endsInside_of_cons hbehind] at htext
    rw [hbehind, List.length_cons] at hle
    rw [List.length_cons] at hrounds
    have hroundSome : (c.printfRound (rounds + 1) s).isSome := printfRound_isSome hrest (by omega)
    obtain ⟨t, ht⟩ := Option.isSome_iff_exists.1 hroundSome
    obtain ⟨hout, p, hp, hat, hplace, -⟩ := printfRound_conversion hpercent hrest ht
    rw [hbehind] at hat hplace
    rw [List.length_cons] at hplace
    obtain ⟨k, rfl⟩ : ∃ k, rounds = k + 1 := ⟨rounds - 1, by omega⟩
    obtain ⟨u, hu⟩ := ih htext (s := t) (hp ▸ hat.2.2) k (by omega)
    refine ⟨u, PrintsOrdinary.cons (by rw [hpercent]; decide) ht hout ?_ ?_ ?_ hu⟩
    · intro q hq
      have := roundReads_le hrest _ q hq
      rw [List.length_cons]
      omega
    · rw [List.length_cons]
      omega
    · have hstart : s.format + 1 + (text.length - rest.length) = t.format := by omega
      rw [ordinaryChars_of_cons hbehind, hstart, List.filter_cons_of_neg (by simp [hpercent])]
      rfl

/-- The first round of a loop that returns. -/
lemma printfLoop_round {s t : PrintfState} (hformat : c.format s.format ≠ 0)
    (hrun : c.printfLoop rounds s = some t) :
    ∃ k u, c.printfRound (k + 1) s = some u ∧ c.printfLoop k u = some t ∧
      (∀ q ∈ c.printfReads k u, q ∈ c.printfReads rounds s) ∧
      c.printfWrites rounds s = c.roundWrites (k + 1) s ++ c.printfWrites k u := by
  cases rounds with
  | zero => simp [printfLoop] at hrun
  | succ k =>
    rw [printfLoop, if_neg hformat] at hrun
    obtain ⟨u, hround, hrest⟩ := Option.bind_eq_some_iff.1 hrun
    refine ⟨k, u, hround, hrest, fun q hq => ?_, ?_⟩
    · rw [printfReads, if_neg hformat, hround]
      exact List.mem_cons_of_mem _ (List.mem_append_right _ hq)
    · rw [printfWrites, if_neg hformat, hround]

/-- A loop that returns reads the place where it starts. -/
lemma mem_printfReads_self {s t : PrintfState} (hrun : c.printfLoop rounds s = some t) :
    s.format ∈ c.printfReads rounds s := by
  cases rounds with
  | zero => simp [printfLoop] at hrun
  | succ k =>
    rw [printfReads]
    exact List.mem_cons_self

/-- **A format that ends inside a conversion** is read behind its end.

**Proof sketch.** By induction on the format, as far as the conversion that it ends in. The round of that one
takes the end of the format as its letter and moves on behind it. -/
lemma mem_printfReads (htext : endsInside text = true) {s t : PrintfState} (h : TextAt c.format s.format text)
    (hrun : c.printfLoop rounds s = some t) : s.format + text.length + 1 ∈ c.printfReads rounds s := by
  induction text using endsInside.induct generalizing s rounds with
  | case1 => simp [endsInside] at htext
  | case2 b text hb ih =>
    obtain ⟨hformat, hne, hrest⟩ := h
    rw [endsInside, if_pos hb] at htext
    obtain ⟨k, u, hround, hrun, hreads, -⟩ := printfLoop_round (hformat ▸ hne) hrun
    rw [printfRound, hformat, if_pos hb] at hround
    obtain rfl := Option.some.inj hround
    have hmem := hreads _ (ih htext hrest hrun)
    rw [List.length_cons]
    rwa [show s.format + 1 + text.length + 1 = s.format + (text.length + 1) + 1 by omega] at hmem
  | case3 b text hb hbehind =>
    obtain rfl := not_not.1 hb
    obtain ⟨hpercent, hne, hrest⟩ := h
    obtain ⟨k, u, hround, hrun, hreads, -⟩ := printfLoop_round (hpercent ▸ hne) hrun
    obtain ⟨-, p, hp, -, hplace, -⟩ := printfRound_conversion hpercent hrest hround
    rw [hbehind, List.length_nil] at hplace
    have hmem := hreads _ (mem_printfReads_self hrun)
    rw [List.length_cons]
    rwa [show u.format = s.format + (text.length + 1) + 1 by omega] at hmem
  | case4 b text hb letter rest hbehind ih =>
    obtain rfl := not_not.1 hb
    obtain ⟨hpercent, hne, hrest⟩ := h
    rw [endsInside_of_cons hbehind] at htext
    obtain ⟨k, u, hround, hrun, hreads, -⟩ := printfLoop_round (hpercent ▸ hne) hrun
    obtain ⟨-, p, hp, hat, hplace, -⟩ := printfRound_conversion hpercent hrest hround
    rw [hbehind] at hat hplace
    rw [List.length_cons] at hplace
    have hmem := hreads _ (ih htext (hp ▸ hat.2.2) hrun)
    rw [List.length_cons]
    rwa [show u.format + rest.length + 1 = s.format + (text.length + 1) + 1 by omega] at hmem

/-- **A call writes in the buffer only**, if its format does not end inside a conversion, exactly if the texts of all
its numbers fit.

**Proof sketch.** By induction on the format: what a round writes depends on its conversion and on its argument, which
is behind those of the conversions before. -/
lemma printfWrites_iff (htext : endsInside text = false) {s t : PrintfState} (h : TextAt c.format s.format text)
    (hrun : c.printfLoop rounds s = some t) :
    (∀ p ∈ c.printfWrites rounds s, 0 ≤ p ∧ p < 64) ↔ c.NumbersFit s.args text := by
  induction text using endsInside.induct generalizing s rounds with
  | case1 =>
    have hformat : c.format s.format = 0 := h
    have hnone : c.printfWrites rounds s = [] := by
      cases rounds with
      | zero => rfl
      | succ rounds => rw [printfWrites, if_pos hformat]
    rw [hnone, NumbersFit]
    exact iff_of_true (fun p hp => absurd hp List.not_mem_nil) trivial
  | case2 b text hb ih =>
    obtain ⟨hformat, hne, hrest⟩ := h
    rw [endsInside, if_pos hb] at htext
    obtain ⟨k, u, hround, hrun, -, hwrites⟩ := printfLoop_round (hformat ▸ hne) hrun
    rw [printfRound, hformat, if_pos hb] at hround
    obtain rfl := Option.some.inj hround
    rw [hwrites, roundWrites, hformat, if_pos hb, List.nil_append, ih htext hrest hrun, NumbersFit, if_pos hb]
    have hargs := (prints_printChar s b).args
    rw [Nat.add_zero] at hargs
    rw [show ({ s.printChar b with format := s.format + 1 } : PrintfState).args = s.args from hargs]
  | case3 b text hb hbehind =>
    obtain rfl := not_not.1 hb
    rw [endsInside_of_nil hbehind] at htext
    exact absurd htext.symm Bool.false_ne_true
  | case4 b text hb letter rest hbehind ih =>
    obtain rfl := not_not.1 hb
    obtain ⟨hpercent, hne, hrest⟩ := h
    rw [endsInside_of_cons hbehind] at htext
    obtain ⟨k, u, hround, hrun, -, hwrites⟩ := printfLoop_round (hpercent ▸ hne) hrun
    obtain ⟨-, p, hp, hat, -, hargs, hfits⟩ := printfRound_conversion hpercent hrest hround
    rw [hbehind] at hat
    rw [hat.1] at hargs hfits
    rw [hwrites, List.forall_mem_append, hfits, ih htext (hp ▸ hat.2.2) hrun, hargs, c.numbersFit_of_cons hbehind]
    rfl

/-- **A call of `handler_printf`** returns, reads its format only as far as its end, and prints the ordinary
characters of it, each once and in order, without writing outside of its buffer, if and only if the format does not
end inside a conversion and the texts of its numbers fit into the buffer. -/
theorem printsFormat_iff (c : PrintfCall) (text : List (BitVec 8)) (smallBuffer : ℤ → BitVec 8)
    (h : TextAt c.format 0 text) :
    (∃ rounds t, c.PrintsFormat text rounds ⟨0, 0, smallBuffer, []⟩ t) ↔
      endsInside text = false ∧ c.NumbersFit 0 text := by
  constructor
  · rintro ⟨rounds, t, hprints⟩
    have hinside : endsInside text = false := by
      by_contra hinside
      have hmem := mem_printfReads (Bool.eq_true_of_not_eq_false hinside) h hprints.returns
      have := hprints.reads _ hmem
      omega
    exact ⟨hinside, (printfWrites_iff hinside h hprints.returns).1 hprints.writes⟩
  · rintro ⟨htext, hfits⟩
    obtain ⟨t, ht⟩ := printsOrdinary htext (s := ⟨0, 0, smallBuffer, []⟩) h (Nat.lt_succ_self _)
    exact ⟨_, t, ht, (printfWrites_iff htext h ht.returns).2 hfits⟩

/-- A call with a format, and with zeros as arguments. -/
def printText (text : CString) : PrintfCall where
  format := text.bytes
  args := fun _ => 0
  strings := fun _ => []
  stack := fun _ _ => 0

/-- The letter of the conversion `%-3d`. -/
lemma behindOptions_width : behindOptions [45, 51, 100, 122] = 100 :: [122] := by decide

/-- The format `a%-3dz`, for the number 0. -/
theorem printsFormat_iff_width :
    ∃ rounds t, (printText [97, 37, 45, 51, 100, 122]).PrintsFormat [97, 37, 45, 51, 100, 122] rounds
      ⟨0, 0, fun _ => 0, []⟩ t := by
  refine (printsFormat_iff _ _ (fun _ => 0) (by simp [TextAt, printText, CString.bytes])).2 ⟨?_, ?_⟩
  · rw [endsInside, if_pos (by decide), endsInside_of_cons behindOptions_width, endsInside, if_pos (by decide),
      endsInside]
  · rw [NumbersFit, if_pos (by decide), numbersFit_of_cons _ behindOptions_width, NumbersFit, if_pos (by decide),
      NumbersFit]
    exact ⟨by decide, trivial⟩

/-- The format `100%` ends inside a conversion. -/
theorem not_printsFormat :
    ¬ ∃ rounds t, (printText [49, 48, 48, 37]).PrintsFormat [49, 48, 48, 37] rounds ⟨0, 0, fun _ => 0, []⟩ t := by
  rintro ⟨rounds, t, hprints⟩
  have hinside : endsInside [49, 48, 48, 37] = true := by
    rw [endsInside, if_pos (by decide), endsInside, if_pos (by decide), endsInside, if_pos (by decide),
      endsInside_of_nil (by decide)]
  have hmem := mem_printfReads hinside (by simp [TextAt, printText, CString.bytes]) hprints.returns
  have := hprints.reads _ hmem
  omega

end PrintfCall

end Jarvis
