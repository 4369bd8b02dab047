import JarvisKernel.Console.Attributes

set_option relaxedAutoImplicit false
set_option autoImplicit false

/-!
# What is shown before the cursor

The cells of the screen are numbered line by line, so that the cell before the first one of a line is the last
one of the line above. A printed character and a backspace are inverse to each other in these numbers, also at
the end of a line, and when the screen is scrolled all cells keep their distance to the cursor.

## Main definitions

* `Jarvis.Screen.character`, `Jarvis.Screen.place` — the character of a cell, and the cell of the cursor.
* `Jarvis.Screen.Shows` — a text is on the screen, and ends before the cursor.

## Main results

* `Jarvis.Screen.Shows.put`, `Jarvis.Screen.Shows.erase` — what a character and a backspace do to the text.
-/

namespace Jarvis.Screen

/-- The character of a cell. -/
def character (s : Screen) (i : ℕ) : BitVec 8 := (s.videoMemory i).setWidth 8

/-- The cell of the cursor. -/
def place (s : Screen) : ℕ := cellIndex s.cursor.x s.cursor.y

/-- The text is on the screen, and ends before the cursor. -/
structure Shows (s : Screen) (text : List (BitVec 8)) : Prop where
  length_le : text.length ≤ s.place
  cells : ∀ j (h : j < text.length), s.character (s.place - text.length + j) = text[j]

variable {s : Screen} {x y c : BitVec 8} {i : ℕ} {text : List (BitVec 8)}

/-! ## Cells -/

/-- A cell has the character that is put into it. -/
lemma merge_character (value : BitVec 16) (c : BitVec 8) :
    ((value &&& 0xFF00) ||| c.signExtend 16).setWidth 8 = c := by
  apply BitVec.eq_of_getLsbD_eq
  intro k hk
  have hmask : ∀ k < 8, (0xFF00 : BitVec 16).getLsbD k = false := by decide
  rw [BitVec.getLsbD_setWidth, BitVec.getLsbD_or, BitVec.getLsbD_and, hmask k hk, BitVec.getLsbD_signExtend]
  simp [hk, show k < 16 by omega]

/-- `putChar` changes the character of its cell only. -/
lemma character_putChar (s : Screen) (x y c : BitVec 8) (i : ℕ) :
    (s.putChar x y c).character i = if i = cellIndex x y then c else s.character i := by
  have hcell : (s.putChar x y c).videoMemory i = Function.update s.videoMemory (cellIndex x y)
      ((s.videoMemory (cellIndex x y) &&& 0xFF00) ||| c.signExtend 16) i := rfl
  rw [character, hcell]
  by_cases hi : i = cellIndex x y
  · subst hi
    rw [Function.update_self, if_pos rfl, merge_character]
  · rw [Function.update_of_ne hi, if_neg hi, character]

/-- When the screen is scrolled, every line but the last one is that below it. -/
lemma character_nextLine (s : Screen) (hi : i < 1920) : s.nextLine.character i = s.character (i + 80) := by
  have hcleared : ∀ t : Screen, (t.fullRemainderChar 0 (BitVec.ofNat 8 (videoHeight - 1))).videoMemory i =
      t.videoMemory i := by
    intro t
    refine foldl_keeps (P := fun u => u.videoMemory i = t.videoMemory i) (fun u k _ hu => ?_) rfl
    refine (Function.update_of_ne ?_ ..).trans hu
    have hlast : (BitVec.ofNat 8 (videoHeight - 1)).toNat = 24 := by decide
    rw [cellIndex, hlast, videoWidth]
    omega
  have hnext : s.nextLine.videoMemory i =
      (s.copyLines.fullRemainderChar 0 (BitVec.ofNat 8 (videoHeight - 1))).videoMemory i := by
    rw [nextLine]
  rw [character, hnext, hcleared, videoMemory_copyLines, if_pos hi, character]

/-! ## One character -/

/-- A character that is no control character takes the cell of the cursor, and the cursor goes to the next one. At
the end of the screen all cells go one line up. -/
lemma printkChar_plain (h : s.OnScreen) (hc : c ≠ 10 ∧ c ≠ 8 ∧ c ≠ 9) :
    ((s.printkChar c).place = s.place + 1 ∧
        ∀ i, (s.printkChar c).character i = if i = s.place then c else s.character i) ∨
      (s.place = 1999 ∧ (s.printkChar c).place = 1920 ∧
        ∀ i < 1920, (s.printkChar c).character i = if i = 1919 then c else s.character (i + 80)) := by
  obtain ⟨hx, hy, -⟩ := h
  rcases hcursor : s.cursor with ⟨x, y⟩
  rw [hcursor] at hx hy
  dsimp only at hx hy
  have hput : s.putAndMove c = { s.putChar x y c with cursor := ⟨x + 1, y⟩ } := by
    simp only [putAndMove, hcursor]
    rw [if_neg hc.1, if_neg hc.2.1, if_neg hc.2.2]
  have hplace : s.place = 80 * y.toNat + x.toNat := by rw [place, hcursor, cellIndex, videoWidth]
  have hcell : ∀ i, (s.putAndMove c).character i = if i = s.place then c else s.character i := by
    intro i
    rw [hput, place, hcursor]
    exact character_putChar s x y c i
  have hsucc : (x + 1).toNat = x.toNat + 1 := by bv_omega
  have hwrap : (s.putAndMove c).wrapCursor.character = (s.putAndMove c).character := by
    unfold wrapCursor
    split_ifs <;> rfl
  rw [printkChar, scroll, videoHeight]
  by_cases hend : x.toNat = 79
  · have hmoved : (s.putAndMove c).wrapCursor.cursor = ⟨0, y + 1⟩ := by
      rw [wrapCursor, videoWidth, if_pos (by rw [hput]; dsimp only; omega), hput]
    have hline : (y + 1).toNat = y.toNat + 1 := by bv_omega
    rw [hmoved]
    dsimp only
    split_ifs with hbottom
    · -- the cursor leaves the screen
      refine .inr ⟨by omega, rfl, fun i hi => ?_⟩
      rw [character_nextLine _ hi, hwrap, hcell]
      exact if_congr (by omega) rfl rfl
    · refine .inl ⟨?_, fun i => by rw [hwrap, hcell]⟩
      rw [place, hmoved, cellIndex, hline, hplace, videoWidth]
      show 80 * (y.toNat + 1) + 0 = _
      omega
  · have hmoved : (s.putAndMove c).wrapCursor.cursor = ⟨x + 1, y⟩ := by
      rw [wrapCursor, videoWidth, if_neg (by rw [hput]; dsimp only; omega), hput]
    rw [hmoved, if_neg (by dsimp only; omega)]
    refine .inl ⟨?_, fun i => by rw [hwrap, hcell]⟩
    rw [place, hmoved, cellIndex, hsucc, hplace, videoWidth]
    rfl

/-- A backspace clears the cell before the cursor, and goes there. -/
lemma printkChar_backspace (h : s.OnScreen) (hpos : 0 < s.place) :
    (s.printkChar 8).place = s.place - 1 ∧
      ∀ i, (s.printkChar 8).character i = if i = s.place - 1 then 32 else s.character i := by
  obtain ⟨hx, hy, -⟩ := h
  rcases hcursor : s.cursor with ⟨x, y⟩
  rw [hcursor] at hx hy
  dsimp only at hx hy
  have hplace : s.place = 80 * y.toNat + x.toNat := by rw [place, hcursor, cellIndex, videoWidth]
  -- the cell that is cleared is on the screen
  obtain ⟨x', y', hput, hcell, hx', hy'⟩ : ∃ x' y', s.putAndMove 8 =
      { s with cursor := ⟨x', y'⟩ }.putChar x' y' 32 ∧ cellIndex x' y' = s.place - 1 ∧
        x'.toNat < 80 ∧ y'.toNat < 25 := by
    simp only [putAndMove, hcursor]
    rw [if_neg (by decide), if_pos trivial]
    by_cases hcolumn : 0 < x
    · have hprev : (x - 1).toNat = x.toNat - 1 := by bv_omega
      rw [if_pos hcolumn]
      refine ⟨x - 1, y, rfl, ?_, by omega, hy⟩
      rw [cellIndex, hprev, hplace, videoWidth]
      bv_omega
    · have hzero : x.toNat = 0 := by bv_omega
      have hline : 0 < y := by
        rw [BitVec.lt_def]
        show 0 < y.toNat
        omega
      have hprev : (y - 1).toNat = y.toNat - 1 := by bv_omega
      have hlast : (BitVec.ofNat 8 (videoWidth - 1)).toNat = 79 := by decide
      rw [if_neg hcolumn, if_pos hline]
      refine ⟨_, y - 1, rfl, ?_, by omega, by omega⟩
      rw [cellIndex, hprev, hlast, hplace, videoWidth]
      bv_omega
  have hcur : (s.putAndMove 8).cursor = ⟨x', y'⟩ := by rw [hput, cursor_putChar]
  have hwrap : (s.putAndMove 8).wrapCursor = s.putAndMove 8 := by
    rw [wrapCursor, videoWidth, hcur, if_neg (by dsimp only; omega)]
  rw [printkChar, hwrap, scroll, videoHeight, hcur, if_neg (by dsimp only; omega)]
  refine ⟨?_, fun i => ?_⟩
  · rw [place, hcur, hcell]
  · rw [hput, character_putChar, hcell]
    rfl

/-! ## The text before the cursor -/

/-- The empty text is shown by every screen. -/
lemma shows_nil (s : Screen) : s.Shows [] := ⟨Nat.zero_le _, fun _ hj => absurd hj (Nat.not_lt_zero _)⟩

/-- **A character is added to the text before the cursor**, also when the screen is scrolled, as long as the text
has room above the last line. -/
lemma Shows.put (h : s.Shows text) (hon : s.OnScreen) (hc : c ≠ 10 ∧ c ≠ 8 ∧ c ≠ 9)
    (hlength : text.length < 1920) : (s.printkChar c).Shows (text ++ [c]) := by
  have hlast : (text ++ [c]).length = text.length + 1 := List.length_append
  have hget : ∀ j (hj : j < (text ++ [c]).length), j ≠ text.length →
      (text ++ [c])[j] = s.character (s.place - text.length + j) := by
    intro j hj hne
    have hlt : j < text.length := by omega
    rw [List.getElem_append_left hlt, h.cells j hlt]
  have hle := h.length_le
  rcases printkChar_plain hon hc with ⟨hplace, hcell⟩ | ⟨hend, hplace, hcell⟩
  · refine ⟨by omega, fun j hj => ?_⟩
    rw [hplace, hlast, hcell]
    by_cases hj' : j = text.length
    · subst hj'
      rw [List.getElem_concat_length rfl, if_pos (by omega)]
    · rw [if_neg (by omega), hget j hj hj', Nat.add_sub_add_right]
  · refine ⟨by omega, fun j hj => ?_⟩
    rw [hplace, hlast, hcell _ (by omega)]
    by_cases hj' : j = text.length
    · subst hj'
      rw [List.getElem_concat_length rfl, if_pos (by omega)]
    · rw [if_neg (by omega), hget j hj hj']
      congr 1
      omega

/-- **A backspace takes the last character of the text** before the cursor. -/
lemma Shows.erase (h : s.Shows text) (hon : s.OnScreen) (hne : text ≠ []) :
    (s.printkChar 8).Shows text.dropLast := by
  have hlength := List.length_pos_iff.2 hne
  have hle := h.length_le
  obtain ⟨hplace, hcell⟩ := printkChar_backspace hon (by omega)
  refine ⟨?_, fun j hj => ?_⟩
  · rw [List.length_dropLast]
    omega
  · have hshort : text.dropLast.length = text.length - 1 := List.length_dropLast
    rw [hshort] at hj
    rw [hplace, hcell, if_neg (by omega), List.getElem_dropLast, ← h.cells j (by omega)]
    congr 1
    omega

end Jarvis.Screen
