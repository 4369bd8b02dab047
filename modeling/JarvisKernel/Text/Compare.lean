import JarvisKernel.Text.Strings

set_option relaxedAutoImplicit false
set_option autoImplicit false

/-!
# Comparing strings

`strncmp` and `strcmp` of `src/kernel/string.c` with the places of the strings that they read. The loop of
`strncmp` counts `n` down in its condition, and the function finds out by the wrapped value of `n` if all
characters were compared.

## Main definitions

* `Jarvis.StringPair` — the two strings.
* `Jarvis.StringPair.strncmp`, `Jarvis.StringPair.strcmp` — the functions.
* `Jarvis.SignOf` — a number is negative, zero or positive as a text is below, equal to or above another one.
* `Jarvis.ComparesFirst` — what is wanted of a comparison.

## Main results

* `Jarvis.signOf_strncmp` — the comparison without the counter that wraps around.
* `Jarvis.StringPair.strncmpLoop_spec` — the loop refines it.
* `Jarvis.StringPair.strncmp_comparesFirst` — what the function returns and reads.
-/

namespace Jarvis

/-! ## The functions -/

/-- What is in memory from the starts of two strings on. -/
structure StringPair where
  s₁ : ℕ → BitVec 8
  s₂ : ℕ → BitVec 8

/-- What a comparison returns, and the places of both strings that it reads. -/
structure Compared where
  value : ℤ
  reads₁ : List ℕ
  reads₂ : List ℕ
  deriving DecidableEq

namespace StringPair

/-- The difference of the characters at a place, as unsigned bytes. -/
def difference (c : StringPair) (i : ℕ) : ℤ := (c.s₁ i).toNat - (c.s₂ i).toNat

/-- The end of `strncmp`, behind the loop: `n` has wrapped around if all characters were compared. -/
def strncmpEnd (c : StringPair) (i : ℕ) (n : BitVec 32) (reads₁ reads₂ : List ℕ) : Compared :=
  if n = -1 then ⟨0, reads₁, reads₂⟩ else ⟨c.difference i, reads₁ ++ [i], reads₂ ++ [i]⟩

/-- The loop of `strncmp` from place `i` on, with what is left of `n`. -/
def strncmpLoop (c : StringPair) : ℕ → ℕ → BitVec 32 → List ℕ → List ℕ → Option Compared
  | 0, _, _, _, _ => none
  | rounds + 1, i, n, reads₁, reads₂ =>
    -- the condition of the loop counts `n` down also when it is false
    if n = 0 then some (c.strncmpEnd i (n - 1) reads₁ reads₂)
    else if c.s₁ i = 0 then some (c.strncmpEnd i (n - 1) (reads₁ ++ [i]) reads₂)
    else if c.s₂ i = 0 then some (c.strncmpEnd i (n - 1) (reads₁ ++ [i]) (reads₂ ++ [i]))
    else if c.s₁ i ≠ c.s₂ i then some ⟨c.difference i, reads₁ ++ [i], reads₂ ++ [i]⟩
    else c.strncmpLoop rounds (i + 1) (n - 1) (reads₁ ++ [i]) (reads₂ ++ [i])

/-- `strncmp`, with a bound for the rounds of its loop. -/
def strncmp (c : StringPair) (rounds : ℕ) (n : BitVec 32) : Option Compared :=
  if n = 0 then some ⟨0, [], []⟩ else c.strncmpLoop rounds 0 n [] []

/-- `strcmp` from place `i` on, with a bound for the rounds of its loop. -/
def strcmpLoop (c : StringPair) : ℕ → ℕ → Option ℤ
  | 0, _ => none
  | rounds + 1, i =>
    if c.s₁ i ≠ 0 ∧ c.s₁ i = c.s₂ i then c.strcmpLoop rounds (i + 1) else some (c.difference i)

/-- `strcmp`. -/
def strcmp (c : StringPair) (rounds : ℕ) : Option ℤ := c.strcmpLoop rounds 0

-- the length is used up in the very round in which both strings end
example : (strncmp ⟨CString.bytes [97, 98], CString.bytes [97, 98]⟩ 9 2) = some ⟨0, [0, 1], [0, 1]⟩ := by decide

end StringPair

/-! ## What is wanted -/

/-- A number is negative, zero or positive as a text is below, equal to or above another one, in the lexicographic
order of unsigned bytes. -/
structure SignOf (v : ℤ) (text₁ text₂ : List (BitVec 8)) : Prop where
  neg : v < 0 ↔ text₁ < text₂
  zero : v = 0 ↔ text₁ = text₂
  pos : 0 < v ↔ text₂ < text₁

/-- What is wanted of a comparison of the first `n` characters: its sign is that of these texts, and no string is
read behind its end or behind them. -/
structure ComparesFirst (text₁ text₂ : List (BitVec 8)) (n : ℕ) (r : Compared) : Prop where
  sign : SignOf r.value (text₁.take n) (text₂.take n)
  reads₁ : ∀ k ∈ r.reads₁, k ≤ text₁.length ∧ k < n
  reads₂ : ∀ k ∈ r.reads₂, k ≤ text₂.length ∧ k < n

variable {v : ℤ} {b b₁ b₂ : BitVec 8} {text₁ text₂ : List (BitVec 8)} {s₁ s₂ : ℕ → BitVec 8}

/-! ## The order of texts -/

/-- A text equals itself. -/
lemma signOf_self (text : List (BitVec 8)) : SignOf 0 text text where
  neg := iff_of_false (lt_irrefl 0) (List.lt_irrefl text)
  zero := iff_of_true rfl rfl
  pos := iff_of_false (lt_irrefl 0) (List.lt_irrefl text)

/-- Exchanging the texts changes the sign. -/
lemma SignOf.symm (h : SignOf v text₁ text₂) : SignOf (-v) text₂ text₁ where
  neg := by rw [neg_lt_zero, h.pos]
  zero := by rw [neg_eq_zero, h.zero, eq_comm]
  pos := by rw [neg_pos, h.neg]

/-- The same character in front of both texts changes nothing. -/
lemma SignOf.cons (h : SignOf v text₁ text₂) (b : BitVec 8) : SignOf v (b :: text₁) (b :: text₂) where
  neg := by rw [h.neg, List.cons_lt_cons_iff, or_iff_right (BitVec.lt_irrefl b), and_iff_right rfl]
  zero := by rw [h.zero, List.cons_inj_right]
  pos := by rw [h.pos, List.cons_lt_cons_iff, or_iff_right (BitVec.lt_irrefl b), and_iff_right rfl]

/-- Different characters decide. -/
lemma signOf_of_ne (h : b₁ ≠ b₂) (text₁ text₂ : List (BitVec 8)) :
    SignOf (b₁.toNat - b₂.toNat) (b₁ :: text₁) (b₂ :: text₂) := by
  have hne : b₁.toNat ≠ b₂.toNat := fun heq => h (BitVec.eq_of_toNat_eq heq)
  constructor
  · rw [List.cons_lt_cons_iff, or_iff_left fun heq => h heq.1, BitVec.lt_def]
    omega
  · refine iff_of_false (by omega) fun heq => h (List.cons.inj heq).1
  · rw [List.cons_lt_cons_iff, or_iff_left fun heq => h heq.1.symm, BitVec.lt_def]
    omega

/-- A text that ends is below one that goes on, because its end is below every character. -/
lemma signOf_nil_cons (h : b ≠ 0) (text : List (BitVec 8)) :
    SignOf ((0 : BitVec 8).toNat - b.toNat) [] (b :: text) := by
  have hpos : 0 < b.toNat := by
    by_contra hzero
    exact h (BitVec.eq_of_toNat_eq (Nat.eq_zero_of_not_pos hzero))
  have hend : (0 : BitVec 8).toNat = 0 := rfl
  constructor
  · exact iff_of_true (by omega) (List.nil_lt_cons b text)
  · exact iff_of_false (by omega) (List.cons_ne_nil b text).symm
  · exact iff_of_false (by omega) (List.not_lt_nil _)

/-! ## The comparison -/

/-- A text in memory, seen from its second character on. -/
lemma textAt_shift {mem : ℕ → BitVec 8} {p : ℕ} {text : List (BitVec 8)} (h : TextAt mem (p + 1) text) :
    TextAt (fun k => mem (k + 1)) p text := by
  induction text generalizing p with
  | nil => exact h
  | cons b text ih => exact ⟨h.1, h.2.1, ih h.2.2⟩

/-- **`strncmp`** has the sign of the first `n` characters.

**Proof sketch.** Induction on `n`. The first characters are the same, or they differ, or a text ends. -/
lemma signOf_strncmp (h₁ : TextAt s₁ 0 text₁) (h₂ : TextAt s₂ 0 text₂) (n : ℕ) :
    SignOf (strncmp s₁ s₂ n) (text₁.take n) (text₂.take n) := by
  induction n generalizing s₁ s₂ text₁ text₂ with
  | zero => exact signOf_self []
  | succ n ih =>
    rw [strncmp]
    cases text₁ with
    | nil =>
      have hend : s₁ 0 = 0 := h₁
      rw [if_neg fun h => h.1 hend, hend]
      cases text₂ with
      | nil =>
        have hend₂ : s₂ 0 = 0 := h₂
        rw [hend₂]
        exact signOf_self []
      | cons b₂ text₂ =>
        obtain ⟨hb₂, hne₂, -⟩ := h₂
        rw [hb₂]
        exact signOf_nil_cons hne₂ _
    | cons b₁ text₁ =>
      obtain ⟨hb₁, hne₁, hrest₁⟩ := h₁
      rw [hb₁]
      cases text₂ with
      | nil =>
        have hend : s₂ 0 = 0 := h₂
        rw [if_neg fun h => h.2.1 hend, hend, ← neg_sub]
        exact (signOf_nil_cons hne₁ _).symm
      | cons b₂ text₂ =>
        obtain ⟨hb₂, hne₂, hrest₂⟩ := h₂
        rw [hb₂, List.take_succ_cons, List.take_succ_cons]
        split_ifs with hsame
        · obtain rfl := hsame.2.2
          exact (ih (textAt_shift hrest₁) (textAt_shift hrest₂)).cons b₁
        · exact signOf_of_ne (fun heq => hsame ⟨hne₁, hne₂, heq⟩) _ _

namespace StringPair

variable {c : StringPair} {i rounds : ℕ} {n : BitVec 32} {reads₁ reads₂ : List ℕ}

/-- One round without the counter. -/
lemma strncmp_succ (c : StringPair) (i n : ℕ) :
    Jarvis.strncmp (fun k => c.s₁ (i + k)) (fun k => c.s₂ (i + k)) (n + 1) =
      if c.s₁ i ≠ 0 ∧ c.s₂ i ≠ 0 ∧ c.s₁ i = c.s₂ i then
        Jarvis.strncmp (fun k => c.s₁ (i + 1 + k)) (fun k => c.s₂ (i + 1 + k)) n
      else c.difference i := by
  rw [Jarvis.strncmp]
  simp only [Nat.add_right_comm i 1, ← Nat.add_assoc, Nat.add_zero]
  rfl

/-- What the loop gives from place `i` on: the value of the comparison without the counter, and reads up to the
end of the text and of the first `n` characters. -/
structure Loops (c : StringPair) (i n : ℕ) (text₁ text₂ : List (BitVec 8)) (reads₁ reads₂ : List ℕ)
    (r : Compared) : Prop where
  value : r.value = Jarvis.strncmp (fun k => c.s₁ (i + k)) (fun k => c.s₂ (i + k)) n
  reads₁ : ∀ k ∈ r.reads₁, k ∈ reads₁ ∨ k ≤ i + text₁.length ∧ k < i + n
  reads₂ : ∀ k ∈ r.reads₂, k ∈ reads₂ ∨ k ≤ i + text₂.length ∧ k < i + n

/-- The loop ends in a round that reads its own place only. -/
lemma Loops.stop {n : ℕ} {r : Compared} (hn : 0 < n)
    (hvalue : r.value = Jarvis.strncmp (fun k => c.s₁ (i + k)) (fun k => c.s₂ (i + k)) n)
    (hreads₁ : ∀ k ∈ r.reads₁, k ∈ reads₁ ∨ k = i) (hreads₂ : ∀ k ∈ r.reads₂, k ∈ reads₂ ∨ k = i) :
    Loops c i n text₁ text₂ reads₁ reads₂ r where
  value := hvalue
  reads₁ k hk := (hreads₁ k hk).imp_right fun heq => by omega
  reads₂ k hk := (hreads₂ k hk).imp_right fun heq => by omega

/-- What is read from the next round on, seen from this one. -/
lemma mem_next {reads : List ℕ} {k length n : ℕ}
    (h : k ∈ reads ++ [i] ∨ k ≤ i + 1 + length ∧ k < i + 1 + n) :
    k ∈ reads ∨ k ≤ i + (length + 1) ∧ k < i + (n + 1) := by
  rcases h with hmem | hlater
  · rcases List.mem_append.1 hmem with hmem | hmem
    · exact .inl hmem
    · have heq := List.mem_singleton.1 hmem
      exact .inr (by omega)
  · exact .inr (by omega)

/-- The end of `strncmp` if the counter has not wrapped around. -/
lemma strncmpEnd_of_ne (c : StringPair) (i : ℕ) (hn : n ≠ 0) (reads₁ reads₂ : List ℕ) :
    c.strncmpEnd i (n - 1) reads₁ reads₂ = ⟨c.difference i, reads₁ ++ [i], reads₂ ++ [i]⟩ := by
  refine if_neg fun heq => hn ?_
  bv_omega

/-- **The loop of `strncmp`**, whose counter wraps around only if it was used up.

**Proof sketch.** Induction on the rounds. The loop ends with the first text at the latest. -/
lemma strncmpLoop_spec (h₁ : TextAt c.s₁ i text₁) (h₂ : TextAt c.s₂ i text₂) (hrounds : text₁.length < rounds)
    (reads₁ reads₂ : List ℕ) :
    ∃ r, c.strncmpLoop rounds i n reads₁ reads₂ = some r ∧ Loops c i n.toNat text₁ text₂ reads₁ reads₂ r := by
  induction rounds generalizing i n text₁ text₂ reads₁ reads₂ with
  | zero => exact absurd hrounds (Nat.not_lt_zero _)
  | succ rounds ih =>
    rw [strncmpLoop]
    by_cases hn : n = 0
    · subst hn
      rw [if_pos rfl]
      refine ⟨_, rfl, rfl, fun k hk => .inl hk, fun k hk => .inl hk⟩
    · rw [if_neg hn]
      have hpos : 0 < n.toNat := by bv_omega
      have hless : (n - 1).toNat + 1 = n.toNat := by bv_omega
      have hvalue := c.strncmp_succ i (n - 1).toNat
      rw [hless] at hvalue
      cases text₁ with
      | nil =>
        have hend : c.s₁ i = 0 := h₁
        rw [if_pos hend, strncmpEnd_of_ne c i hn]
        rw [if_neg fun h => h.1 hend] at hvalue
        exact ⟨_, rfl, .stop hpos hvalue.symm (by simp) (by simp)⟩
      | cons b₁ text₁ =>
        obtain ⟨hb₁, hne₁, hrest₁⟩ := h₁
        rw [if_neg (hb₁ ▸ hne₁)]
        cases text₂ with
        | nil =>
          have hend : c.s₂ i = 0 := h₂
          rw [if_pos hend, strncmpEnd_of_ne c i hn]
          rw [if_neg fun h => h.2.1 hend] at hvalue
          exact ⟨_, rfl, .stop hpos hvalue.symm (by simp) (by simp)⟩
        | cons b₂ text₂ =>
          obtain ⟨hb₂, hne₂, hrest₂⟩ := h₂
          rw [if_neg (hb₂ ▸ hne₂)]
          by_cases hsame : c.s₁ i = c.s₂ i
          · rw [if_neg (not_not_intro hsame)]
            rw [if_pos ⟨hb₁ ▸ hne₁, hb₂ ▸ hne₂, hsame⟩] at hvalue
            rw [List.length_cons] at hrounds
            obtain ⟨r, hrun, hloops⟩ := ih (n := n - 1) hrest₁ hrest₂ (by omega) (reads₁ ++ [i]) (reads₂ ++ [i])
            refine ⟨r, hrun, hloops.value.trans hvalue.symm, fun k hk => ?_, fun k hk => ?_⟩
            · rw [← hless]
              exact mem_next (hloops.reads₁ k hk)
            · rw [← hless]
              exact mem_next (hloops.reads₂ k hk)
          · rw [if_pos hsame]
            rw [if_neg fun h => hsame h.2.2] at hvalue
            exact ⟨_, rfl, .stop hpos hvalue.symm (by simp) (by simp)⟩

/-- **`strcmp`** is `strncmp` for every length above those of both strings. -/
lemma strcmpLoop_spec (h₁ : TextAt c.s₁ i text₁) (h₂ : TextAt c.s₂ i text₂) (hrounds : text₁.length < rounds)
    {n : ℕ} (hn₁ : text₁.length < n) (hn₂ : text₂.length < n) :
    c.strcmpLoop rounds i = some (Jarvis.strncmp (fun k => c.s₁ (i + k)) (fun k => c.s₂ (i + k)) n) := by
  induction rounds generalizing i n text₁ text₂ with
  | zero => exact absurd hrounds (Nat.not_lt_zero _)
  | succ rounds ih =>
    obtain ⟨n, rfl⟩ : ∃ k, n = k + 1 := ⟨n - 1, by omega⟩
    rw [strcmpLoop, strncmp_succ]
    by_cases hsame : c.s₁ i ≠ 0 ∧ c.s₁ i = c.s₂ i
    · have hne₂ : c.s₂ i ≠ 0 := hsame.2 ▸ hsame.1
      rw [if_pos hsame, if_pos ⟨hsame.1, hne₂, hsame.2⟩]
      cases text₁ with
      | nil => exact absurd h₁ hsame.1
      | cons b₁ text₁ =>
        cases text₂ with
        | nil => exact absurd h₂ hne₂
        | cons b₂ text₂ =>
          rw [List.length_cons] at hrounds hn₁ hn₂
          exact ih h₁.2.2 h₂.2.2 (by omega) (by omega) (by omega)
    · rw [if_neg hsame, if_neg fun h => hsame ⟨h.1, h.2.2⟩]

/-- **`strncmp`** returns a number with the sign of the first `n` characters of both strings, reads neither of them
behind its end or behind these characters, and has the sign of `strcmp` if `n` is above both lengths. -/
theorem strncmp_comparesFirst (h₁ : TextAt c.s₁ 0 text₁) (h₂ : TextAt c.s₂ 0 text₂) (n : BitVec 32)
    (hrounds : text₁.length < rounds) :
    ∃ r v, c.strncmp rounds n = some r ∧ c.strcmp rounds = some v ∧ ComparesFirst text₁ text₂ n.toNat r ∧
      (text₁.length < n.toNat → text₂.length < n.toNat → r.value.sign = v.sign) := by
  -- the loop gives nothing else for length 0
  have hloop : c.strncmp rounds n = c.strncmpLoop rounds 0 n [] [] := by
    rw [strncmp]
    split_ifs with hn
    · obtain ⟨k, rfl⟩ : ∃ k, rounds = k + 1 := ⟨rounds - 1, by omega⟩
      rw [strncmpLoop, if_pos hn, hn]
      rfl
    · rfl
  obtain ⟨r, hrun, hloops⟩ := strncmpLoop_spec (n := n) h₁ h₂ hrounds [] []
  have hcmp := fun m => strcmpLoop_spec (n := m) h₁ h₂ hrounds
  have hsign := signOf_strncmp h₁ h₂ n.toNat
  have hvalue := hloops.value
  simp only [Nat.zero_add] at hvalue hcmp
  refine ⟨r, _, hloop.trans hrun, hcmp (max text₁.length text₂.length + 1) (by omega) (by omega), ⟨?_, ?_, ?_⟩, ?_⟩
  · rw [hvalue]
    exact hsign
  · intro k hk
    simpa using hloops.reads₁ k hk
  · intro k hk
    simpa using hloops.reads₂ k hk
  · intro hn₁ hn₂
    rw [hvalue]
    exact congrArg Int.sign (Option.some.inj ((hcmp n.toNat hn₁ hn₂).symm.trans
      (hcmp (max text₁.length text₂.length + 1) (by omega) (by omega))))

/-- The strings `ab` and `abc`, which agree in two characters. -/
theorem strncmp_comparesFirst_ab :
    ∃ r v, strncmp ⟨CString.bytes [97, 98], CString.bytes [97, 98, 99]⟩ 3 2 = some r ∧
      strcmp ⟨CString.bytes [97, 98], CString.bytes [97, 98, 99]⟩ 3 = some v ∧
        ComparesFirst [97, 98] [97, 98, 99] 2 r ∧
          ((2 : ℕ) < 2 → (3 : ℕ) < 2 → r.value.sign = v.sign) :=
  strncmp_comparesFirst (by simp [TextAt, CString.bytes]) (by simp [TextAt, CString.bytes]) 2 (by decide)

end StringPair

end Jarvis
