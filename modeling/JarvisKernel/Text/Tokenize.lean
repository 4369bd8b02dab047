import JarvisKernel.Lib.Words
import JarvisKernel.Text.Strings
import Mathlib.Data.List.Forall2

set_option relaxedAutoImplicit false
set_option autoImplicit false

/-!
# The words of a line

`strtok` of `src/kernel/string.c`, and `shell_tokenize` and `installer_tokenize`, which cut a line into its words
with it. `strtok` ends a word in the line itself, and keeps where it goes on in a static pointer.

## Main definitions

* `Jarvis.StrtokState` — the memory, the static pointer, and what is accessed.
* `Jarvis.strtok` — the function.
* `Jarvis.shellTokenize`, `Jarvis.installerTokenize` — the words of a line.
* `Jarvis.Tokens` — the words that pointers lead to.

## Main results

* `Jarvis.strtok_spec` — the next word of what is left.
* `Jarvis.tokenizeLoop_spec` — the words that are found.
* `Jarvis.tokenize_words` — what the two functions give for a line.
-/

namespace Jarvis

/-! ## The functions -/

/-- The memory and the static pointer of `strtok`, with the places of strings that are read and written. A null
pointer is `none`. -/
structure StrtokState where
  mem : ℕ → BitVec 8
  last : Option ℕ
  reads : List ℕ
  writes : List ℕ

/-- `strchr`: the first place of a character in a string, which has its end as well. -/
def strchr : CString → BitVec 8 → Option ℕ
  | [], c => if c = 0 then some 0 else none
  | b :: s, c => if b.toBitVec = c then some 0 else (strchr s c).map (· + 1)

namespace StrtokState

/-- Reading a place. -/
def read (s : StrtokState) (p : ℕ) : StrtokState := { s with reads := s.reads ++ [p] }

/-- Writing a place. -/
def write (s : StrtokState) (p : ℕ) (c : BitVec 8) : StrtokState :=
  { s with mem := Function.update s.mem p c, writes := s.writes ++ [p] }

end StrtokState

/-- The loops of `strtok`, from place `p` on: over delimiters, or over other characters. -/
def strtokSkip (delim : CString) (found : Bool) : ℕ → ℕ → StrtokState → Option (ℕ × StrtokState)
  | 0, _, _ => none
  | rounds + 1, p, s =>
    if s.mem p ≠ 0 ∧ (strchr delim (s.mem p)).isSome = found then
      strtokSkip delim found rounds (p + 1) (s.read p)
    else some (p, s.read p)

/-- What `strtok` does from the start of a word on: the character behind the word is overwritten by an end, and
the static pointer leads behind it. -/
def strtokToken (delim : CString) (rounds token : ℕ) (s : StrtokState) : Option (Option ℕ × StrtokState) :=
  (strtokSkip delim false rounds token s).map fun stop =>
    let s := stop.2.read stop.1
    if s.mem stop.1 ≠ 0 then (some token, { s.write stop.1 0 with last := some (stop.1 + 1) })
    else (some token, { s with last := none })

/-- `strtok`, with a bound for the rounds of its loops. -/
def strtok (rounds : ℕ) (str : Option ℕ) (delim : CString) (s : StrtokState) :
    Option (Option ℕ × StrtokState) :=
  match (if str = none then s.last else str) with
  | none => some (none, s)
  | some str =>
    (strtokSkip delim true rounds str s).bind fun start =>
      let s := start.2.read start.1
      if s.mem start.1 = 0 then some (none, { s with last := none })
      else strtokToken delim rounds start.1 s

/-- The loop of the tokenizers, with the words that were found. -/
def tokenizeLoop (fuel maxArgs : ℕ) : ℕ → Option ℕ → List ℕ → StrtokState → Option (List ℕ × StrtokState)
  | 0, _, _, _ => none
  | rounds + 1, token, args, s =>
    match token with
    | none => some (args, s)
    | some t =>
      if args.length < maxArgs then
        (strtok fuel none [32] s).bind fun next =>
          tokenizeLoop fuel maxArgs rounds next.1 (args ++ [t]) next.2
      else some (args, s)

/-- Cutting a line into words: their number, and the pointers to them if there is memory for the pointers. -/
def tokenize (fuel maxArgs : ℕ) (memory : Bool) (line : ℕ) (s : StrtokState) :
    Option (ℕ × Option (List ℕ) × StrtokState) :=
  if memory then
    (strtok fuel (some line) [32] s).bind fun first =>
      (tokenizeLoop fuel maxArgs (maxArgs + 1) first.1 [] first.2).map fun r => (r.1.length, some r.1, r.2)
  else some (0, none, s)

/-- `shell_tokenize`. -/
def shellTokenize (fuel : ℕ) : Bool → ℕ → StrtokState → Option (ℕ × Option (List ℕ) × StrtokState) :=
  tokenize fuel 16

/-- `installer_tokenize`. -/
def installerTokenize (fuel : ℕ) : Bool → ℕ → StrtokState → Option (ℕ × Option (List ℕ) × StrtokState) :=
  tokenize fuel 16

/-! ## What is wanted -/

/-- The pointers lead to the words, which end before place `low`. -/
def Tokens (mem : ℕ → BitVec 8) (low : ℕ) (args : List ℕ) (ws : List (List (BitVec 8))) : Prop :=
  List.Forall₂ (fun t w => t + w.length < low ∧ TextAt mem t w) args ws

/-- What is wanted: as many words as there is room for are found, the pointers lead to them, each with its end, and
nothing outside the line is accessed. -/
structure Tokenizes (text : List (BitVec 8)) (line argc : ℕ) (argv : List ℕ) (s : StrtokState) : Prop where
  count : argc = min 16 (Words.words 32 text).length
  length : argv.length = argc
  args : ∀ i (h : i < argv.length) (h' : i < (Words.words 32 text).length),
    TextAt s.mem argv[i] (Words.words 32 text)[i]
  reads : ∀ p ∈ s.reads, line ≤ p ∧ p ≤ line + text.length
  writes : ∀ p ∈ s.writes, line ≤ p ∧ p ≤ line + text.length

/-- What is left of a line: `strtok` goes on at a place from `low` on, where the text ends before `high`, or there
is nothing left. -/
def Pending (s : StrtokState) (low high : ℕ) (text : List (BitVec 8)) : Prop :=
  match s.last with
  | none => text = []
  | some p => low ≤ p ∧ p + text.length ≤ high ∧ TextAt s.mem p text

/-- What is accessed is in a line, that has places from `low` to `high`. -/
structure Inside (s : StrtokState) (low high : ℕ) : Prop where
  reads : ∀ p ∈ s.reads, low ≤ p ∧ p ≤ high
  writes : ∀ p ∈ s.writes, low ≤ p ∧ p ≤ high

/-! ## Texts in memory -/

section Texts

variable {mem mem' : ℕ → BitVec 8} {p : ℕ} {text text' : List (BitVec 8)}

/-- A text keeps its place if its bytes and its end do. -/
lemma TextAt.congr (h : TextAt mem p text) (hmem : ∀ k, p ≤ k → k ≤ p + text.length → mem' k = mem k) :
    TextAt mem' p text := by
  induction text generalizing p with
  | nil => exact (hmem p (Nat.le_refl p) (Nat.le_refl p)).trans h
  | cons c text ih =>
    obtain ⟨hfirst, hne, hrest⟩ := h
    rw [List.length_cons] at hmem
    refine ⟨(hmem p (Nat.le_refl p) (by omega)).trans hfirst, hne, ih hrest fun k hk hk' => ?_⟩
    exact hmem k (by omega) (by omega)

/-- What is behind the first part of a text. -/
lemma TextAt.drop (h : TextAt mem p (text ++ text')) : TextAt mem (p + text.length) text' := by
  induction text generalizing p with
  | nil => exact h
  | cons c text ih =>
    have hrest := ih h.2.2
    rwa [List.length_cons, show p + (text.length + 1) = p + 1 + text.length by omega]

/-- The first part of a text, if it is ended behind it. -/
lemma TextAt.cut (h : TextAt mem p (text ++ text')) :
    TextAt (Function.update mem (p + text.length) 0) p text := by
  induction text generalizing p with
  | nil => exact Function.update_self _ _ _
  | cons c text ih =>
    obtain ⟨hfirst, hne, hrest⟩ := h
    have hend : p + (c :: text).length = p + 1 + text.length := by
      rw [List.length_cons]
      omega
    rw [hend]
    exact ⟨(Function.update_of_ne (by omega) _ _).trans hfirst, hne, ih hrest⟩

end Texts

/-! ## The next word -/

section Strtok

variable {s : StrtokState} {p low high fuel : ℕ} {text : List (BitVec 8)}

/-- In the string of a blank, a character of a text is found if it is a blank. -/
lemma strchr_blank {c : BitVec 8} (hc : c ≠ 0) : (strchr [32] c).isSome = true ↔ c = 32 := by
  rw [strchr, strchr, if_neg hc]
  by_cases hblank : (32 : UInt8).toBitVec = c
  · rw [if_pos hblank]
    exact iff_of_true rfl hblank.symm
  · rw [if_neg hblank]
    exact iff_of_false Bool.false_ne_true fun hnot => hblank hnot.symm

/-- A read between the bounds stays inside. -/
lemma Inside.read (h : Inside s low high) (hp : low ≤ p ∧ p ≤ high) : Inside (s.read p) low high where
  reads q hq := by
    rcases List.mem_append.1 hq with hq | hq
    · exact h.reads q hq
    · exact List.mem_singleton.1 hq ▸ hp
  writes := h.writes

/-- So does a write. -/
lemma Inside.write (h : Inside s low high) (hp : low ≤ p ∧ p ≤ high) (c : BitVec 8) :
    Inside (s.write p c) low high where
  reads := h.reads
  writes q hq := by
    rcases List.mem_append.1 hq with hq | hq
    · exact h.writes q hq
    · exact List.mem_singleton.1 hq ▸ hp

/-- The saved pointer is no access. -/
lemma Inside.setLast (h : Inside s low high) (last : Option ℕ) : Inside { s with last := last } low high :=
  ⟨h.reads, h.writes⟩

/-- A loop of `strtok` passes over the characters of its kind. -/
lemma strtokSkip_spec {delim : CString} {found : Bool} (kind : BitVec 8 → Bool)
    (hkind : ∀ c, c ≠ 0 → ((strchr delim c).isSome = found ↔ kind c = true)) (h : TextAt s.mem p text)
    (hin : Inside s low high) (hlow : low ≤ p) (hhigh : p + text.length ≤ high) (hfuel : text.length < fuel) :
    ∃ s', strtokSkip delim found fuel p s = some (p + (text.takeWhile kind).length, s') ∧
      s'.mem = s.mem ∧ s'.last = s.last ∧ Inside s' low high := by
  induction text generalizing p s fuel with
  | nil =>
    obtain ⟨fuel, rfl⟩ : ∃ k, fuel = k + 1 := ⟨fuel - 1, by omega⟩
    have hend : s.mem p = 0 := h
    rw [strtokSkip, if_neg (fun hnot => hnot.1 hend)]
    exact ⟨_, rfl, rfl, rfl, hin.read ⟨hlow, by omega⟩⟩
  | cons c text ih =>
    obtain ⟨fuel, rfl⟩ : ∃ k, fuel = k + 1 := ⟨fuel - 1, by omega⟩
    obtain ⟨hfirst, hne, hrest⟩ := h
    rw [List.length_cons] at hhigh hfuel
    have hread : Inside (s.read p) low high := hin.read ⟨hlow, by omega⟩
    rw [strtokSkip, hfirst, List.takeWhile_cons]
    by_cases hc : kind c = true
    · obtain ⟨s', hskip, hmem, hlast, hin'⟩ :=
        ih (p := p + 1) (s := s.read p) hrest hread (by omega) (by omega) (show text.length < fuel by omega)
      rw [if_pos ⟨hne, (hkind c hne).2 hc⟩, if_pos hc, List.length_cons]
      refine ⟨s', ?_, hmem, hlast, hin'⟩
      rw [hskip, show p + 1 + (text.takeWhile kind).length = p + ((text.takeWhile kind).length + 1) by omega]
    · rw [if_neg (fun hnot => hc ((hkind c hne).1 hnot.2)), if_neg hc]
      exact ⟨_, rfl, rfl, rfl, hread⟩

/-- From its first character on, a word is ended and the rest is what is behind it. -/
lemma strtokToken_spec {c : BitVec 8} (hc : c ≠ 32) (h : TextAt s.mem p (c :: text)) (hin : Inside s low high)
    (hlow : low ≤ p) (hhigh : p + (c :: text).length ≤ high) (hfuel : (c :: text).length < fuel) :
    ∃ s' w rest, strtokToken [32] fuel p s = some (some p, s') ∧ (∀ k < p, s'.mem k = s.mem k) ∧
      Inside s' low high ∧ Words.words 32 (c :: text) = w :: Words.words 32 rest ∧ TextAt s'.mem p w ∧
      p + w.length ≤ high ∧ Pending s' (p + w.length + 1) high rest := by
  have hkind : ∀ c, c ≠ 0 → ((strchr [32] c).isSome = false ↔ decide (c ≠ 32) = true) := fun c hc => by
    rw [← Bool.not_eq_true, strchr_blank hc, decide_eq_true_iff]
  obtain ⟨s₁, hskip, hmem, -, hin₁⟩ := strtokSkip_spec _ hkind h hin hlow hhigh hfuel
  have hsplit := List.takeWhile_append_dropWhile (p := fun c => decide (c ≠ (32 : BitVec 8))) (l := c :: text)
  have hwords := Words.words_cons hc text
  rw [Words.words_dropWhile] at hwords
  have hhead := List.head?_dropWhile_not (fun c => decide (c ≠ (32 : BitVec 8))) (c :: text)
  generalize (c :: text).takeWhile (fun c => decide (c ≠ 32)) = w at *
  generalize (c :: text).dropWhile (fun c => decide (c ≠ 32)) = behind at *
  rw [← hsplit, ← hmem] at h
  rw [← hsplit, List.length_append] at hhigh
  have hbehind : TextAt s₁.mem (p + w.length) behind := h.drop
  have hread : Inside (s₁.read (p + w.length)) low high := hin₁.read ⟨by omega, by omega⟩
  rw [strtokToken, hskip, Option.map_some, ← hmem]
  cases behind with
  | nil =>
    have hend : (s₁.read (p + w.length)).mem (p + w.length) = 0 := hbehind
    dsimp only
    rw [if_neg (not_not.2 hend)]
    rw [List.append_nil] at h
    exact ⟨_, w, [], rfl, fun _ _ => rfl, hread.setLast none, hwords, h, by omega, rfl⟩
  | cons d tail =>
    obtain ⟨hd, hne, htail⟩ := hbehind
    have hgo : (s₁.read (p + w.length)).mem (p + w.length) ≠ 0 := fun hnot => hne (hd.symm.trans hnot)
    dsimp only
    rw [List.length_cons] at hhigh
    rw [if_pos hgo]
    refine ⟨_, w, tail, rfl, fun k hk => Function.update_of_ne (by omega) _ _,
      (hread.write ⟨by omega, by omega⟩ 0).setLast _, ?_, h.cut, by omega, by omega, by omega,
      htail.congr fun k hk _ => Function.update_of_ne (by omega) _ _⟩
    have hblank : d = 32 := by simpa using hhead
    rw [hwords, hblank, Words.words_cons_sep]

/-- **The next word** of what is left of a line. What is before it in memory is kept.

**Proof sketch.** The first loop passes over the blanks and the second one over the word. The word is ended in
the line, and the rest is what is behind the blank that was there. -/
lemma strtok_spec {str : Option ℕ} (hp : (if str = none then s.last else str) = some p)
    (h : TextAt s.mem p text) (hin : Inside s low high) (hlow : low ≤ p) (hhigh : p + text.length ≤ high)
    (hfuel : text.length < fuel) :
    ∃ token s', strtok fuel str [32] s = some (token, s') ∧ (∀ k < p, s'.mem k = s.mem k) ∧
      Inside s' low high ∧
      (token = none ∧ Words.words 32 text = [] ∨
        ∃ t w rest, token = some t ∧ Words.words 32 text = w :: Words.words 32 rest ∧ p ≤ t ∧ TextAt s'.mem t w ∧
          t + w.length ≤ high ∧ Pending s' (t + w.length + 1) high rest) := by
  have hkind : ∀ c, c ≠ 0 → ((strchr [32] c).isSome = true ↔ decide (c = 32) = true) := fun c hc => by
    rw [strchr_blank hc, decide_eq_true_iff]
  obtain ⟨s₁, hskip, hmem, -, hin₁⟩ := strtokSkip_spec _ hkind h hin hlow hhigh hfuel
  have hsplit := List.takeWhile_append_dropWhile (p := fun c => decide (c = (32 : BitVec 8))) (l := text)
  have hwords := Words.words_dropWhile 32 text
  have hhead := List.head?_dropWhile_not (fun c => decide (c = (32 : BitVec 8))) text
  generalize text.takeWhile (fun c => decide (c = 32)) = blanks at *
  generalize text.dropWhile (fun c => decide (c = 32)) = behind at *
  rw [← hsplit, ← hmem] at h
  rw [← hsplit, List.length_append] at hhigh hfuel
  have hbehind : TextAt (s₁.read (p + blanks.length)).mem (p + blanks.length) behind := h.drop
  have hread : Inside (s₁.read (p + blanks.length)) low high := hin₁.read ⟨by omega, by omega⟩
  rw [strtok, hp]
  dsimp only
  rw [hskip, Option.bind_some]
  cases behind with
  | nil =>
    have hend : (s₁.read (p + blanks.length)).mem (p + blanks.length) = 0 := hbehind
    dsimp only
    rw [if_pos hend]
    refine ⟨none, _, rfl, fun k _ => congrFun hmem k, hread.setLast none, .inl ⟨rfl, ?_⟩⟩
    rw [← hwords, Words.words_nil]
  | cons c rest =>
    have hgo : (s₁.read (p + blanks.length)).mem (p + blanks.length) ≠ 0 := fun hnot =>
      hbehind.2.1 (hbehind.1.symm.trans hnot)
    have hnot : c ≠ 32 := by simpa using hhead
    obtain ⟨s', w, rest', hword, hkept, hin', hfirst, hat, hle, hpending⟩ :=
      strtokToken_spec hnot hbehind hread (show low ≤ p + blanks.length by omega)
        (show p + blanks.length + (c :: rest).length ≤ high by omega) (show (c :: rest).length < fuel by omega)
    dsimp only
    rw [if_neg hgo, hword]
    refine ⟨_, s', rfl, fun k hk => ?_, hin', .inr ⟨_, w, rest', rfl, ?_, by omega, hat, hle, hpending⟩⟩
    · rw [hkept k (by omega)]
      exact congrFun hmem k
    · rw [← hwords, hfirst]

end Strtok

/-! ## The words of a line -/

section Words

variable {s s' : StrtokState} {low low' high fuel maxArgs : ℕ} {args : List ℕ} {done todo : List (List (BitVec 8))}

/-- Words that are found stay if what is before the place of the next one is kept. -/
lemma Tokens.congr (h : Tokens s.mem low args done) (hmem : ∀ k < low, s'.mem k = s.mem k) (hle : low ≤ low') :
    Tokens s'.mem low' args done :=
  h.imp fun _ _ hw => ⟨hw.1.trans_le hle, hw.2.congr fun k _ hk => hmem k (hk.trans_lt hw.1)⟩

/-- The words that are found next: none, or the first one, which was just cut off, and those of the rest. -/
def Next (s : StrtokState) (low high : ℕ) (token : Option ℕ) (todo : List (List (BitVec 8))) : Prop :=
  token = none ∧ todo = [] ∨
    ∃ t w rest, token = some t ∧ todo = w :: Words.words 32 rest ∧ low ≤ t ∧ TextAt s.mem t w ∧
      t + w.length ≤ high ∧ Pending s (t + w.length + 1) high rest

/-- The next call of `strtok`, for what is left behind a word. -/
lemma next_strtok {rest : List (BitVec 8)} (hpending : Pending s low high rest) {start : ℕ} (hstart : start ≤ low)
    (hin : Inside s start high) (hfuel : high < start + fuel) :
    ∃ token s', strtok fuel none [32] s = some (token, s') ∧ (∀ k < low, s'.mem k = s.mem k) ∧
      Inside s' start high ∧ Next s' low high token (Words.words 32 rest) := by
  rw [Pending] at hpending
  cases hlast : s.last with
  | none =>
    rw [hlast] at hpending
    have hnil : rest = [] := hpending
    rw [strtok, if_pos rfl, hlast]
    exact ⟨none, s, rfl, fun _ _ => rfl, hin, .inl ⟨rfl, by rw [hnil, Words.words_nil]⟩⟩
  | some p =>
    rw [hlast] at hpending
    obtain ⟨hlow, hhigh, hat⟩ := hpending
    have hplace : (if (none : Option ℕ) = none then s.last else none) = some p := hlast
    obtain ⟨token, s', hcall, hkept, hin', hnext⟩ := strtok_spec hplace hat hin (hstart.trans hlow) hhigh
      (show rest.length < fuel by omega)
    refine ⟨token, s', hcall, fun k hk => hkept k (hk.trans_le hlow), hin', hnext.imp_right ?_⟩
    rintro ⟨t, w, rest', htoken, hwords, hle, hword⟩
    exact ⟨t, w, rest', htoken, hwords, hlow.trans hle, hword⟩

/-- **The loop of the tokenizers** finds the words in order, as many as there is room for pointers.

**Proof sketch.** Each round adds the word that was just cut off to those that were found, and cuts the next one
off, which changes nothing before it. -/
lemma tokenizeLoop_spec {rounds start : ℕ} {token : Option ℕ} (hrounds : maxArgs < rounds + args.length)
    (hfuel : high < start + fuel) (hargs : args.length ≤ maxArgs) (h : Tokens s.mem low args done)
    (hnext : Next s low high token todo) (hstart : start ≤ low) (hin : Inside s start high) :
    ∃ args' s' low', tokenizeLoop fuel maxArgs rounds token args s = some (args', s') ∧
      Tokens s'.mem low' args' ((done ++ todo).take maxArgs) ∧ Inside s' start high := by
  induction rounds generalizing token args done todo low s with
  | zero => omega
  | succ rounds ih =>
    have hlength : args.length = done.length := h.length_eq
    rcases hnext with ⟨rfl, rfl⟩ | ⟨t, w, rest, rfl, rfl, hlow, hat, hhigh, hpending⟩
    · refine ⟨args, s, low, rfl, ?_, hin⟩
      rwa [List.append_nil, List.take_of_length_le (hlength ▸ hargs)]
    · rw [tokenizeLoop]
      split_ifs with hroom
      · obtain ⟨token', s', hcall, hkept, hin', hnext'⟩ :=
          next_strtok hpending (show start ≤ t + w.length + 1 by omega) hin hfuel
        have htokens : Tokens s'.mem (t + w.length + 1) (args ++ [t]) (done ++ [w]) := by
          refine List.rel_append (h.congr (fun k hk => hkept k (by omega)) (by omega)) ?_
          exact .cons ⟨Nat.lt_succ_self _, hat.congr fun k _ hk => hkept k (by omega)⟩ .nil
        have hmore : (args ++ [t]).length = args.length + 1 := List.length_append
        obtain ⟨args', s'', low', hloop, htokens', hin''⟩ := ih (show maxArgs < rounds + (args ++ [t]).length by omega)
          (show (args ++ [t]).length ≤ maxArgs by omega) htokens hnext' (by omega) hin'
        rw [hcall, Option.bind_some, hloop]
        refine ⟨args', s'', low', rfl, ?_, hin''⟩
        rwa [List.append_assoc, List.singleton_append] at htokens'
      · refine ⟨args, s, low, rfl, ?_, hin⟩
        rwa [List.take_append_of_le_length (by omega), List.take_of_length_le (by omega)]

/-- A tokenizer finds the words of a line, whatever the static pointer was before. -/
lemma tokenize_spec {mem : ℕ → BitVec 8} {line : ℕ} {text : List (BitVec 8)} (h : TextAt mem line text)
    (last : Option ℕ) (maxArgs : ℕ) (hfuel : text.length < fuel) :
    ∃ argv s' low', tokenize fuel maxArgs true line ⟨mem, last, [], []⟩ = some (argv.length, some argv, s') ∧
      Tokens s'.mem low' argv ((Words.words 32 text).take maxArgs) ∧ Inside s' line (line + text.length) := by
  have hempty : Inside ⟨mem, last, [], []⟩ line (line + text.length) :=
    ⟨fun p hp => absurd hp List.not_mem_nil, fun p hp => absurd hp List.not_mem_nil⟩
  have hplace : (if some line = none then last else some line) = some line := if_neg (by simp)
  obtain ⟨token, s, hcall, -, hin, hnext⟩ := strtok_spec (s := ⟨mem, last, [], []⟩) hplace h hempty
    (Nat.le_refl line) (Nat.le_refl _) hfuel
  have hrounds : maxArgs < maxArgs + 1 + ([] : List ℕ).length := Nat.lt_succ_self _
  have hnothing : Tokens s.mem line [] [] := .nil
  obtain ⟨argv, s', low', hloop, htokens, hin'⟩ := tokenizeLoop_spec hrounds
    (show line + text.length < line + fuel by omega) (Nat.zero_le _) hnothing hnext (Nat.le_refl line) hin
  rw [tokenize, if_pos rfl, hcall, Option.bind_some, hloop, Option.map_some]
  exact ⟨argv, s', low', rfl, htokens, hin'⟩

end Words

/-- **`shell_tokenize` and `installer_tokenize`** find the first 16 words of every line, whatever the static pointer
was before, and access nothing outside the line. -/
theorem tokenize_words {mem : ℕ → BitVec 8} {line : ℕ} {text : List (BitVec 8)} (h : TextAt mem line text)
    (last : Option ℕ) {fuel : ℕ} (hfuel : text.length < fuel) :
    (∃ argc argv s, shellTokenize fuel true line ⟨mem, last, [], []⟩ = some (argc, some argv, s) ∧
        Tokenizes text line argc argv s) ∧
      ∃ argc argv s, installerTokenize fuel true line ⟨mem, last, [], []⟩ = some (argc, some argv, s) ∧
        Tokenizes text line argc argv s := by
  obtain ⟨argv, s, low, hcall, htokens, hin⟩ := tokenize_spec h last 16 hfuel
  have hlength := htokens.length_eq
  rw [List.length_take] at hlength
  have hwords : Tokenizes text line argv.length argv s := by
    refine ⟨hlength, rfl, fun i hi hi' => ?_, hin.reads, hin.writes⟩
    have hget := (List.forall₂_iff_get.1 htokens).2 i hi (by rw [List.length_take]; omega)
    have hword := hget.2
    simpa using hword
  exact ⟨⟨_, argv, s, hcall, hwords⟩, ⟨_, argv, s, hcall, hwords⟩⟩

/-- The line ` ls  d` at place 100, with a static pointer that leads elsewhere. -/
theorem tokenize_words_ls :
    (∃ argc argv s, shellTokenize 7 true 100 ⟨fun k => CString.bytes [32, 108, 115, 32, 32, 100] (k - 100), some 7,
        [], []⟩ = some (argc, some argv, s) ∧ Tokenizes [32, 108, 115, 32, 32, 100] 100 argc argv s) ∧
      ∃ argc argv s, installerTokenize 7 true 100 ⟨fun k => CString.bytes [32, 108, 115, 32, 32, 100] (k - 100),
        some 7, [], []⟩ = some (argc, some argv, s) ∧ Tokenizes [32, 108, 115, 32, 32, 100] 100 argc argv s :=
  tokenize_words (by simp [TextAt, CString.bytes]) (some 7) (by decide)

end Jarvis
