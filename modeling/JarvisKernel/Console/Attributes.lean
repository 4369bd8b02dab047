import JarvisKernel.Console.Screen

set_option relaxedAutoImplicit false
set_option autoImplicit false

/-!
# The attributes of the screen

`put_char` merges a character into its cell after it was extended to an `int` with its sign. A byte from 0x80
on is negative, and sets all bits of the attribute. The attribute stays as it is until its line is scrolled off
the screen, which does not happen to the last line: when the screen is scrolled, only its characters are
cleared.

## Main definitions

* `Jarvis.Screen.attributeByte` — the attribute of a cell.
* `Jarvis.ScreenCursor.next`, `Jarvis.ScreenCursor.scrolls` — the cursor, and how often the screen is scrolled.
* `Jarvis.ScreenCursor.LeavesScreen` — every byte from 0x80 on is scrolled off the screen again.

## Main results

* `Jarvis.Screen.attributeByte_printkChar` — what a character does to the attributes.
* `Jarvis.Screen.keepsAttributes_iff` — when printing a string keeps the attributes.
-/

namespace Jarvis

namespace ScreenCursor

/-- Where a character moves the cursor, before it is looked at. -/
def put (cursor : ScreenCursor) (c : BitVec 8) : ScreenCursor :=
  let ⟨x, y⟩ := cursor
  if c = 10 then ⟨0, y + 1⟩
  else if c = 8 then if 0 < x then ⟨x - 1, y⟩ else if 0 < y then ⟨79, y - 1⟩ else ⟨x, y⟩
  else if c = 9 then ⟨(x + 8) &&& ~~~7, y⟩
  else ⟨x + 1, y⟩

/-- Where it is when the end of the screen is looked at. -/
def moved (cursor : ScreenCursor) (c : BitVec 8) : ScreenCursor :=
  if 80 ≤ (cursor.put c).x.toNat then ⟨0, (cursor.put c).y + 1⟩ else cursor.put c

/-- The cursor behind a character. -/
def next (cursor : ScreenCursor) (c : BitVec 8) : ScreenCursor :=
  if 25 ≤ (cursor.moved c).y.toNat then ⟨0, 24⟩ else cursor.moved c

/-- How often a text scrolls the screen. -/
def scrolls : ScreenCursor → List (BitVec 8) → ℕ
  | _, [] => 0
  | cursor, c :: text => (if 25 ≤ (cursor.moved c).y.toNat then 1 else 0) + (cursor.next c).scrolls text

/-- Every byte from 0x80 on is printed above the last line, and its line is scrolled off the screen by what is
printed behind it. -/
def LeavesScreen : ScreenCursor → List (BitVec 8) → Prop
  | _, [] => True
  | cursor, c :: text =>
    (0x80 ≤ c → cursor.y.toNat < 24 ∧ cursor.y.toNat < cursor.scrolls (c :: text)) ∧
      (cursor.next c).LeavesScreen text

end ScreenCursor

namespace Screen

/-- The attribute of a cell. -/
def attributeByte (s : Screen) (i : ℕ) : BitVec 8 := (s.videoMemory i >>> 8).setWidth 8

variable {s : Screen} {x y c : BitVec 8} {A : BitVec 8} {i : ℕ}

/-- The attribute bytes do not depend on the cursor. -/
lemma attributeByte_withCursor (s : Screen) (cursor : ScreenCursor) :
    { s with cursor := cursor }.attributeByte = s.attributeByte := rfl

/-! ## One character -/

/-- A negative character sets all bits of the attribute. -/
lemma merge_attribute (value : BitVec 16) (c : BitVec 8) :
    (((value &&& 0xFF00) ||| c.signExtend 16) >>> 8).setWidth 8 =
      if 0x80 ≤ c then (0xFF : BitVec 8) else (value >>> 8).setWidth 8 := by
  have hmsb : c.msb = true ↔ 0x80 ≤ c := by
    revert c
    decide
  apply BitVec.eq_of_getLsbD_eq
  intro k hk
  have hmask : ∀ k < 8, (0xFF00#16).getLsbD (8 + k) = true ∧ (0xFF#8).getLsbD k = true := by
    decide
  obtain ⟨hhigh, hones⟩ := hmask k hk
  split_ifs with hc
  · rw [BitVec.getLsbD_setWidth, BitVec.getLsbD_ushiftRight, BitVec.getLsbD_or, BitVec.getLsbD_signExtend,
      hmsb.2 hc]
    simp [hones]
    omega
  · have hpos : c.msb = false := by simpa using fun h => hc (hmsb.1 h)
    simp [BitVec.getLsbD_signExtend, hpos, hhigh]

/-- `putChar` sets the attribute byte of its cell to `0xFF` if the character is above 127, and no other
one. -/
lemma attributeByte_putChar (s : Screen) (x y c : BitVec 8) (i : ℕ) :
    (s.putChar x y c).attributeByte i = if i = cellIndex x y ∧ 0x80 ≤ c then 0xFF else s.attributeByte i := by
  have hcell : (s.putChar x y c).videoMemory i = Function.update s.videoMemory (cellIndex x y)
      ((s.videoMemory (cellIndex x y) &&& 0xFF00) ||| c.signExtend 16) i := rfl
  rw [attributeByte, hcell]
  by_cases hi : i = cellIndex x y
  · subst hi
    rw [Function.update_self, merge_attribute]
    simp [attributeByte]
  · rw [Function.update_of_ne hi, if_neg fun h => hi h.1, attributeByte]

/-- Clearing the rest of a line changes characters only. -/
lemma attributeByte_fullRemainderChar (s : Screen) (x y : BitVec 8) :
    (s.fullRemainderChar x y).attributeByte = s.attributeByte := by
  refine foldl_keeps (P := fun t => t.attributeByte = s.attributeByte) (fun t k _ ht => ?_) rfl
  funext i
  rw [attributeByte_putChar, if_neg fun h => absurd h.2 (by decide), ht]

/-! ## Scrolling -/

/-- A line is copied to the line above it. -/
lemma videoMemory_copyLine (hpos : 0 < y.toNat) (i : ℕ) :
    (s.copyLine y).videoMemory i =
      if 80 * (y.toNat - 1) ≤ i ∧ i < 80 * y.toNat then s.videoMemory (i + 80) else s.videoMemory i := by
  have hprev : (y - 1).toNat = y.toNat - 1 := by bv_omega
  suffices hloop : ∀ n ≤ 80, ∀ i, ((List.range n).foldl (copyCell y) s).videoMemory i =
      if 80 * (y.toNat - 1) ≤ i ∧ i < 80 * (y.toNat - 1) + n then s.videoMemory (i + 80)
      else s.videoMemory i by
    rw [copyLine, videoWidth, hloop 80 (Nat.le_refl 80)]
    exact if_congr (by omega) rfl rfl
  intro n
  induction n with
  | zero =>
    intro _ i
    rw [if_neg (by omega)]
    rfl
  | succ n ih =>
    intro hn i
    have hx : (BitVec.ofNat 8 n).toNat = n := by
      rw [BitVec.toNat_ofNat]
      omega
    have hread : cellIndex (BitVec.ofNat 8 n) y = 80 * (y.toNat - 1) + n + 80 := by
      rw [cellIndex, videoWidth, hx]
      omega
    have hwrite : cellIndex (BitVec.ofNat 8 n) (y - 1) = 80 * (y.toNat - 1) + n := by
      rw [cellIndex, videoWidth, hx, hprev]
    rw [List.range_succ, List.foldl_append, List.foldl_cons, List.foldl_nil, copyCell]
    simp only [getBufferValue, setBufferValue]
    rw [hread, hwrite, ih (by omega)]
    by_cases hi : i = 80 * (y.toNat - 1) + n
    · rw [hi, Function.update_self, if_neg (by omega), if_pos (by omega)]
    · rw [Function.update_of_ne hi, ih (by omega)]
      exact if_congr (by omega) rfl rfl

/-- All lines are copied. -/
lemma videoMemory_copyLines (s : Screen) (i : ℕ) :
    s.copyLines.videoMemory i = if i < 1920 then s.videoMemory (i + 80) else s.videoMemory i := by
  suffices hloop : ∀ n ≤ 24, ∀ i,
      ((List.range' 1 n).foldl (fun s y => s.copyLine (BitVec.ofNat 8 y)) s).videoMemory i =
        if i < 80 * n then s.videoMemory (i + 80) else s.videoMemory i from
    hloop 24 (Nat.le_refl 24) i
  intro n
  induction n with
  | zero =>
    intro _ i
    rw [if_neg (by omega)]
    rfl
  | succ n ih =>
    intro hn i
    have hy : (BitVec.ofNat 8 (1 + n)).toNat = n + 1 := by
      rw [BitVec.toNat_ofNat]
      omega
    rw [List.range'_1_concat, List.foldl_append, List.foldl_cons, List.foldl_nil,
      videoMemory_copyLine (by omega), hy, ih (by omega), ih (by omega)]
    split_ifs <;> first | rfl | omega

/-- Scrolling moves the attributes one line up. The last line keeps its own. -/
lemma attributeByte_nextLine (s : Screen) (i : ℕ) :
    s.nextLine.attributeByte i = if i < 1920 then s.attributeByte (i + 80) else s.attributeByte i := by
  have hcleared : s.nextLine.attributeByte = s.copyLines.attributeByte := by
    rw [nextLine, attributeByte_withCursor, attributeByte_fullRemainderChar]
  rw [hcleared, attributeByte, videoMemory_copyLines]
  split_ifs <;> rfl

/-! ## What a character does -/

/-- A character moves the cursor as `ScreenCursor.put` says. -/
lemma cursor_putAndMove (s : Screen) (c : BitVec 8) : (s.putAndMove c).cursor = s.cursor.put c := by
  rcases hcursor : s.cursor with ⟨x, y⟩
  simp only [putAndMove, hcursor, ScreenCursor.put]
  split_ifs with hnewline hback hcolumn hline htab
  · rfl
  · rfl
  · rfl
  · exact hcursor
  · rfl
  · rfl

/-- With the wrap at the end of the line it moves the cursor as `ScreenCursor.moved` says. -/
lemma cursor_wrapCursor (s : Screen) (c : BitVec 8) :
    (s.putAndMove c).wrapCursor.cursor = s.cursor.moved c := by
  rw [wrapCursor, cursor_putAndMove, ScreenCursor.moved, videoWidth]
  split_ifs
  · rfl
  · exact cursor_putAndMove s c

/-- With the scrolling it moves the cursor to `ScreenCursor.next`. -/
lemma cursor_printkChar (s : Screen) (c : BitVec 8) : (s.printkChar c).cursor = s.cursor.next c := by
  rw [printkChar, scroll, ScreenCursor.next, cursor_wrapCursor, videoHeight]
  split_ifs
  · rfl
  · exact cursor_wrapCursor s c

/-- A space is below 128, so that it sets no attribute byte. -/
lemma attributeByte_putSpace (s : Screen) (x y : BitVec 8) :
    (s.putChar x y 32).attributeByte = s.attributeByte := by
  funext i
  rw [attributeByte_putChar, if_neg fun h => absurd h.2 (by decide)]

/-- The control characters change no attribute. -/
lemma attributeByte_control (s : Screen) (hc : c = 10 ∨ c = 8 ∨ c = 9) :
    (s.putAndMove c).attributeByte = s.attributeByte := by
  rcases hcursor : s.cursor with ⟨x, y⟩
  simp only [putAndMove, hcursor]
  split_ifs with hnewline hback hcolumn hline htab
  · exact attributeByte_fullRemainderChar s x y
  · exact attributeByte_putSpace { s with cursor := ⟨x - 1, y⟩ } (x - 1) y
  · exact attributeByte_putSpace { s with cursor := ⟨_, y - 1⟩ } _ (y - 1)
  · rfl
  · rfl
  · simp_all

/-- Only a byte from 0x80 on changes an attribute, that of its cell. -/
lemma attributeByte_putAndMove (s : Screen) (c : BitVec 8) (i : ℕ) :
    (s.putAndMove c).wrapCursor.attributeByte i =
      if i = cellIndex s.cursor.x s.cursor.y ∧ 0x80 ≤ c then 0xFF else s.attributeByte i := by
  have hwrap : ∀ t : Screen, t.wrapCursor.attributeByte = t.attributeByte := fun t => by
    rw [wrapCursor]
    split_ifs <;> rfl
  rw [hwrap]
  by_cases hc : c = 10 ∨ c = 8 ∨ c = 9
  · rw [attributeByte_control s hc, if_neg]
    rintro ⟨-, hhigh⟩
    rcases hc with rfl | rfl | rfl <;> exact absurd hhigh (by decide)
  · push Not at hc
    rw [putAndMove]
    dsimp only
    rw [if_neg hc.1, if_neg hc.2.1, if_neg hc.2.2]
    exact attributeByte_putChar s _ _ c i

/-- **What a character does to the attributes**: those of its cell are set if it is a byte from 0x80 on, and
then they are moved up a line if the screen is scrolled. -/
lemma attributeByte_printkChar (s : Screen) (c : BitVec 8) (i : ℕ) :
    (s.printkChar c).attributeByte i =
      if 25 ≤ (s.cursor.moved c).y.toNat ∧ i < 1920 then (s.putAndMove c).wrapCursor.attributeByte (i + 80)
      else (s.putAndMove c).wrapCursor.attributeByte i := by
  rw [printkChar, scroll, cursor_wrapCursor, videoHeight]
  by_cases hend : 25 ≤ (s.cursor.moved c).y.toNat
  · rw [if_pos hend, attributeByte_nextLine]
    exact if_congr (by simp [hend]) rfl rfl
  · rw [if_neg hend, if_neg fun h => hend h.1]

/-! ## Strings -/

/-- A line of the screen has a cell whose attribute is not `A`. -/
def Disturbed (s : Screen) (A : BitVec 8) (line : ℕ) : Prop :=
  ∃ x < 80, s.attributeByte (80 * line + x) ≠ A

/-- All cells of the screen have the attribute `A`. -/
def Uniform (s : Screen) (A : BitVec 8) : Prop := ∀ i < 2000, s.attributeByte i = A

/-- All lines have the attribute `A` exactly if none is disturbed. -/
lemma uniform_iff : s.Uniform A ↔ ∀ line < 25, ¬ s.Disturbed A line := by
  constructor
  · rintro h line hline ⟨x, hx, hne⟩
    exact hne (h _ (by omega))
  · intro h i hi
    by_contra hne
    refine h (i / 80) (by omega) ⟨i % 80, by omega, ?_⟩
    rwa [Nat.div_add_mod]

/-- A character disturbs its line if it is a byte from 0x80 on, and scrolling moves all lines but the last one
up. -/
lemma disturbed_printkChar (hx : s.cursor.x.toNat < 80) (hA : A ≠ 0xFF) (c : BitVec 8) {line : ℕ}
    (hline : line < 25) :
    (s.printkChar c).Disturbed A line ↔
      if 25 ≤ (s.cursor.moved c).y.toNat ∧ line < 24 then
        s.Disturbed A (line + 1) ∨ 0x80 ≤ c ∧ s.cursor.y.toNat = line + 1
      else s.Disturbed A line ∨ 0x80 ≤ c ∧ s.cursor.y.toNat = line := by
  have hput : ∀ k, (∃ x < 80, (s.putAndMove c).wrapCursor.attributeByte (80 * k + x) ≠ A) ↔
      s.Disturbed A k ∨ 0x80 ≤ c ∧ s.cursor.y.toNat = k := by
    intro k
    constructor
    · rintro ⟨x, hlt, hne⟩
      rw [attributeByte_putAndMove, cellIndex, videoWidth] at hne
      split_ifs at hne with hcell
      · exact .inr ⟨hcell.2, by omega⟩
      · exact .inl ⟨x, hlt, hne⟩
    · rintro (⟨x, hlt, hne⟩ | ⟨hhigh, hk⟩)
      · refine ⟨x, hlt, ?_⟩
        rw [attributeByte_putAndMove]
        split_ifs with hcell
        · exact hA.symm
        · exact hne
      · refine ⟨s.cursor.x.toNat, hx, ?_⟩
        rw [attributeByte_putAndMove, if_pos ⟨by rw [cellIndex, videoWidth, hk], hhigh⟩]
        exact hA.symm
  by_cases hscroll : 25 ≤ (s.cursor.moved c).y.toNat ∧ line < 24
  · rw [if_pos hscroll, ← hput, Disturbed]
    refine exists_congr fun x => and_congr_right fun hlt => ?_
    have hindex : 80 * line + x + 80 = 80 * (line + 1) + x := by omega
    rw [attributeByte_printkChar, if_pos ⟨hscroll.1, by omega⟩, hindex]
  · rw [if_neg hscroll, ← hput, Disturbed]
    refine exists_congr fun x => and_congr_right fun hlt => ?_
    rw [attributeByte_printkChar, if_neg fun h => hscroll ⟨h.1, by omega⟩]

/-- What holds of every line that is disturbed before or by a character. -/
lemma forall_disturbed_iff {P : ℕ → Prop} (hy : s.cursor.y.toNat < 25) :
    (∀ line < 25, s.Disturbed A line ∨ 0x80 ≤ c ∧ s.cursor.y.toNat = line → P line) ↔
      (∀ line < 25, s.Disturbed A line → P line) ∧ (0x80 ≤ c → P s.cursor.y.toNat) := by
  constructor
  · intro hall
    exact ⟨fun line hline hd => hall line hline (.inl hd), fun hhigh => hall _ hy (.inr ⟨hhigh, rfl⟩)⟩
  · rintro ⟨hall, hhigh⟩ line hline (hd | ⟨hc, rfl⟩)
    · exact hall line hline hd
    · exact hhigh hc

/-- **When a text keeps the attributes**: if every line that is disturbed before it, and every line that it
disturbs, is scrolled off the screen.

**Proof sketch.** Induction on the text. Scrolling once takes the first line off the screen, and moves every
other line but the last one closer to it. -/
lemma uniform_foldl_iff (h : s.OnScreen) (hA : A ≠ 0xFF) (text : List (BitVec 8)) :
    (text.foldl printkChar s).Uniform A ↔
      (∀ line < 25, s.Disturbed A line → line < 24 ∧ line < s.cursor.scrolls text) ∧
        s.cursor.LeavesScreen text := by
  induction text generalizing s with
  | nil =>
    rw [List.foldl_nil, uniform_iff, ScreenCursor.LeavesScreen, and_true]
    refine forall₂_congr fun line _ => ?_
    simp [ScreenCursor.scrolls]
  | cons c text ih =>
    rw [List.foldl_cons, ih (h.printkChar c), cursor_printkChar, ScreenCursor.LeavesScreen, ← and_assoc]
    refine and_congr_left fun _ => ?_
    have hy := h.y_lt
    have hchar := fun line (hline : line < 25) => disturbed_printkChar h.x_lt hA c hline
    rw [ScreenCursor.scrolls]
    generalize (s.cursor.next c).scrolls text = later
    rw [← forall_disturbed_iff hy]
    by_cases hscroll : 25 ≤ (s.cursor.moved c).y.toNat
    · simp only [hscroll, true_and, if_true] at hchar ⊢
      constructor
      · intro hall line hline hdisturbed
        have hlast := fun hd => hall 24 (by omega) ((hchar 24 (by omega)).2 hd)
        cases line with
        | zero => omega
        | succ line =>
          by_cases hend : line + 1 = 24
          · rw [hend] at hdisturbed
            exact absurd (hlast (by simpa using hdisturbed)).1 (Nat.lt_irrefl 24)
          · have hbefore := hall line (by omega) ((hchar line (by omega)).2 (by
              rwa [if_pos (by omega)]))
            omega
      · intro hall line hline hdisturbed
        rw [hchar line hline] at hdisturbed
        split_ifs at hdisturbed with hlast
        · have hbelow := hall (line + 1) (by omega) hdisturbed
          omega
        · have hsame := hall line hline hdisturbed
          omega
    · simp only [hscroll, false_and, if_false, Nat.zero_add] at hchar ⊢
      exact forall₂_congr fun line hline => imp_congr_left (hchar line hline)

/-- If all bits of the attributes are set, they stay set. -/
lemma Uniform.printkChar_ones (h : s.Uniform 0xFF) (c : BitVec 8) : (s.printkChar c).Uniform 0xFF := by
  have hput : ∀ i < 2000, (s.putAndMove c).wrapCursor.attributeByte i = 0xFF := by
    intro i hi
    rw [attributeByte_putAndMove, h i hi, ite_self]
  intro i hi
  rw [attributeByte_printkChar]
  split_ifs with hscroll
  · exact hput _ (by omega)
  · exact hput i hi

/-- A screen of attribute `0xFF` keeps it, whatever is printed. -/
lemma Uniform.foldl_ones (h : s.Uniform 0xFF) (text : List (BitVec 8)) :
    (text.foldl printkChar s).Uniform 0xFF := by
  induction text generalizing s with
  | nil => exact h
  | cons c text ih => exact ih (h.printkChar_ones c)

/-- **Printing keeps the attribute** that all cells have exactly if all its bits are set, or every byte from 0x80
on is scrolled off the screen again. -/
theorem keepsAttributes_iff (h : s.OnScreen) (huniform : s.Uniform A) (str : List (BitVec 8)) :
    (s.printk str).Uniform A ↔ A = 0xFF ∨ s.cursor.LeavesScreen (chars str) := by
  by_cases hA : A = 0xFF
  · subst hA
    exact iff_of_true (huniform.foldl_ones _) (.inl rfl)
  · rw [printk, uniform_foldl_iff h hA, or_iff_right hA]
    refine and_iff_right fun line hline hdisturbed => ?_
    exact absurd hdisturbed (uniform_iff.1 huniform line hline)

/-- The attributes of an empty screen are all the same. -/
lemma uniform_start : (start fun _ => 0x0720).Uniform 0x07 := by
  intro i _
  show (0x0720#16 >>> 8).setWidth 8 = 0x07#8
  decide

/-- A letter keeps them. -/
theorem keepsAttributes_iff_letter : ((start fun _ => 0x0720).printk [65]).Uniform 0x07 :=
  (keepsAttributes_iff (onScreen_start fun _ => 0x0720) uniform_start [65]).2
    (.inr ⟨fun h => absurd h (by decide), trivial⟩)

/-- A byte from 0x80 on does not. -/
theorem not_keepsAttributes :
    (start fun _ => 0x0720).Uniform 0x07 ∧ ¬ ((start fun _ => 0x0720).printk [0xE5]).Uniform 0x07 := by
  refine ⟨uniform_start, fun h => ?_⟩
  exact absurd (h 0 (by decide)) (by decide)

end Screen

end Jarvis
