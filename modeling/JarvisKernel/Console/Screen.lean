import Mathlib.Data.List.Basic
import Mathlib.Logic.Function.Basic
import Mathlib.Tactic.Common

set_option relaxedAutoImplicit false
set_option autoImplicit false

/-!
# The screen

The output functions of `src/kernel/kerio.c`. The screen has 25 lines of 80 cells, each with a character and an
attribute byte, and a cursor of two bytes. `printk` moves the cursor with every character and scrolls the
screen when the cursor has left it at the bottom.

## Main definitions

* `Jarvis.Screen` — the video memory and the cursor, and what of the memory is accessed.
* `Jarvis.Screen.printk`, `Jarvis.Screen.clean`, `Jarvis.Screen.setCursorPosition` — the functions.
* `Jarvis.Screen.runStates` — the states between the characters of a sequence of calls.
* `Jarvis.Screen.OnScreen` — the cursor and all accesses are on the screen.

## Main results

* `Jarvis.Screen.OnScreen.printkChar` — one character.
* `Jarvis.Screen.onScreen_of_run` — every sequence of calls.
-/

namespace Jarvis

/-- `ScreenCursor`. -/
structure ScreenCursor where
  x : BitVec 8
  y : BitVec 8
  deriving DecidableEq

/-- The cells of the video memory and the cursor, with the indices of the cells that were read or written and
what was sent to the ports. -/
structure Screen where
  videoMemory : ℕ → BitVec 16
  cursor : ScreenCursor
  accesses : List ℕ
  ports : List (BitVec 16 × BitVec 8)

/-- The characters of a line. -/
def videoWidth : ℕ := 80

/-- The lines of the screen. -/
def videoHeight : ℕ := 25

/-- The index of a cell, which is computed with `int`. -/
def cellIndex (x y : BitVec 8) : ℕ := videoWidth * y.toNat + x.toNat

namespace Screen

/-- `get_buffer_value`. -/
def getBufferValue (s : Screen) (x y : BitVec 8) : BitVec 16 × Screen :=
  (s.videoMemory (cellIndex x y), { s with accesses := s.accesses ++ [cellIndex x y] })

/-- `set_buffer_value`. -/
def setBufferValue (s : Screen) (x y : BitVec 8) (value : BitVec 16) : Screen :=
  { s with
    videoMemory := Function.update s.videoMemory (cellIndex x y) value
    accesses := s.accesses ++ [cellIndex x y] }

/-- `put_char`. The character is a signed byte, and becomes an `int` before it is merged into the cell. -/
def putChar (s : Screen) (x y c : BitVec 8) : Screen :=
  let (value, s) := s.getBufferValue x y
  s.setBufferValue x y ((value &&& 0xFF00) ||| c.signExtend 16)

/-- `full_remainder_char`. -/
def fullRemainderChar (s : Screen) (startX y : BitVec 8) : Screen :=
  (List.range' startX.toNat (videoWidth - startX.toNat)).foldl (fun s x => s.putChar (BitVec.ofNat 8 x) y 32) s

/-- One round of the inner loop of `next_line`, which copies a cell to the line above it. -/
def copyCell (y : BitVec 8) (s : Screen) (x : ℕ) : Screen :=
  let (value, s) := s.getBufferValue (BitVec.ofNat 8 x) y
  s.setBufferValue (BitVec.ofNat 8 x) (y - 1) value

/-- The inner loop of `next_line`. -/
def copyLine (s : Screen) (y : BitVec 8) : Screen := (List.range videoWidth).foldl (copyCell y) s

/-- The outer loop of `next_line`. -/
def copyLines (s : Screen) : Screen :=
  (List.range' 1 (videoHeight - 1)).foldl (fun s y => s.copyLine (BitVec.ofNat 8 y)) s

/-- `next_line`: the lines are copied one line up, and the last line is cleared. -/
def nextLine (s : Screen) : Screen :=
  { s.copyLines.fullRemainderChar 0 (BitVec.ofNat 8 (videoHeight - 1)) with
    cursor := ⟨0, BitVec.ofNat 8 (videoHeight - 1)⟩ }

/-- What `printk` does for a character before it looks at the cursor. -/
def putAndMove (s : Screen) (c : BitVec 8) : Screen :=
  let ⟨x, y⟩ := s.cursor
  if c = 10 then { s.fullRemainderChar x y with cursor := ⟨0, y + 1⟩ }
  else if c = 8 then
    if 0 < x then { s with cursor := ⟨x - 1, y⟩ }.putChar (x - 1) y 32
    else if 0 < y then
      { s with cursor := ⟨BitVec.ofNat 8 (videoWidth - 1), y - 1⟩ }.putChar
        (BitVec.ofNat 8 (videoWidth - 1)) (y - 1) 32
    else s
  else if c = 9 then { s with cursor := ⟨(x + 8) &&& ~~~7, y⟩ }
  else { s.putChar x y c with cursor := ⟨x + 1, y⟩ }

/-- The end of a line. -/
def wrapCursor (s : Screen) : Screen :=
  if videoWidth ≤ s.cursor.x.toNat then { s with cursor := ⟨0, s.cursor.y + 1⟩ } else s

/-- The end of the screen. -/
def scroll (s : Screen) : Screen := if videoHeight ≤ s.cursor.y.toNat then s.nextLine else s

/-- One character of `printk`. -/
def printkChar (s : Screen) (c : BitVec 8) : Screen := (s.putAndMove c).wrapCursor.scroll

/-- The characters of a string, which end at the first 0. -/
def chars (str : List (BitVec 8)) : List (BitVec 8) := str.takeWhile (· ≠ 0)

/-- `printk`. -/
def printk (s : Screen) (str : List (BitVec 8)) : Screen := (chars str).foldl printkChar s

/-- `print_char`. -/
def printChar (s : Screen) (c : BitVec 8) : Screen := s.printk [c, 0]

/-- `clean`. -/
def clean (s : Screen) : Screen :=
  (List.range (videoWidth * videoHeight)).foldl
    (fun s i =>
      { s with
        videoMemory := Function.update s.videoMemory i ((s.videoMemory i &&& 0xFF00) ||| 32)
        accesses := s.accesses ++ [i, i] })
    { s with cursor := ⟨0, 0⟩ }

/-- `set_cursor_position`. -/
def setCursorPosition (s : Screen) (x y : BitVec 8) : Screen :=
  let x := if videoWidth ≤ x.toNat then BitVec.ofNat 8 (videoWidth - 1) else x
  let y := if videoHeight ≤ y.toNat then BitVec.ofNat 8 (videoHeight - 1) else y
  let position := BitVec.ofNat 16 (cellIndex x y)
  { s with
    cursor := ⟨x, y⟩
    ports := s.ports ++ [(0x3D4#16, 0x0F#8), (0x3D5#16, position.setWidth 8),
      (0x3D4#16, 0x0E#8), (0x3D5#16, (position >>> 8).setWidth 8)] }

end Screen

/-- The calls of the output functions. -/
inductive ScreenCall where
  | printk (str : List (BitVec 8))
  | printChar (c : BitVec 8)
  | clean
  | setCursorPosition (x y : BitVec 8)

namespace Screen

/-- One call. -/
def call (s : Screen) : ScreenCall → Screen
  | .printk str => s.printk str
  | .printChar c => s.printChar c
  | .clean => s.clean
  | .setCursorPosition x y => s.setCursorPosition x y

/-- The states during a call: before each character, and at the end. -/
def callStates (s : Screen) : ScreenCall → List Screen
  | .printk str => (chars str).scanl printkChar s
  | .printChar c => (chars [c, 0]).scanl printkChar s
  | .clean => [s, s.clean]
  | .setCursorPosition x y => [s, s.setCursorPosition x y]

/-- The states during a sequence of calls. -/
def runStates : Screen → List ScreenCall → List Screen
  | s, [] => [s]
  | s, c :: cs => s.callStates c ++ (s.call c).runStates cs

/-- The screen before the first call, with the cursor at its start. -/
def start (videoMemory : ℕ → BitVec 16) : Screen := ⟨videoMemory, ⟨0, 0⟩, [], []⟩

-- a tab in the last eight columns goes to the next line
example : ((start fun _ => 0x0720).setCursorPosition 75 3 |>.printk [9]).cursor = ⟨0, 4⟩ := by decide

/-- The cursor is on the screen, and so are all cells that were accessed. -/
structure OnScreen (s : Screen) : Prop where
  x_lt : s.cursor.x.toNat < 80
  y_lt : s.cursor.y.toNat < 25
  accesses_lt : ∀ i ∈ s.accesses, i < 2000

/-- All cells that were accessed are on the screen. -/
def Inside (s : Screen) : Prop := ∀ i ∈ s.accesses, i < 2000

variable {s : Screen} {x y c : BitVec 8}

/-! ## Accesses -/

/-- A place within the lines and columns has a cell on the screen. -/
lemma cellIndex_lt (hx : x.toNat < 80) (hy : y.toNat < 25) : cellIndex x y < 2000 := by
  rw [cellIndex, videoWidth]
  omega

/-- Where the cursor is does not matter for the accesses. -/
lemma Inside.withCursor (h : s.Inside) (cursor : ScreenCursor) : { s with cursor := cursor }.Inside := h

/-- A cell of the screen is read. -/
lemma Inside.getBufferValue (h : s.Inside) (hindex : cellIndex x y < 2000) :
    (s.getBufferValue x y).2.Inside := by
  intro i hi
  rcases List.mem_append.1 hi with hi | hi
  · exact h i hi
  · rwa [List.mem_singleton.1 hi]

/-- A cell of the screen is written. -/
lemma Inside.setBufferValue (h : s.Inside) (hindex : cellIndex x y < 2000) (value : BitVec 16) :
    (s.setBufferValue x y value).Inside := by
  intro i hi
  rcases List.mem_append.1 hi with hi | hi
  · exact h i hi
  · rwa [List.mem_singleton.1 hi]

/-- A character is put in a cell of the screen. -/
lemma Inside.putChar (h : s.Inside) (hindex : cellIndex x y < 2000) (c : BitVec 8) :
    (s.putChar x y c).Inside :=
  (h.getBufferValue hindex).setBufferValue hindex _

/-- It does not move the cursor. -/
@[simp] lemma cursor_putChar (s : Screen) (x y c : BitVec 8) : (s.putChar x y c).cursor = s.cursor := rfl

/-- What each round of a loop keeps, the loop keeps. -/
lemma foldl_keeps {α : Type*} {P : Screen → Prop} {f : Screen → α → Screen} {l : List α}
    (hf : ∀ s, ∀ a ∈ l, P s → P (f s a)) (h : P s) : P (l.foldl f s) := by
  induction l generalizing s with
  | nil => exact h
  | cons a l ih =>
    exact ih (fun s b hb => hf s b (List.mem_cons_of_mem a hb)) (hf s a List.mem_cons_self h)

/-- The rest of a line of the screen is filled with blanks. -/
lemma Inside.fullRemainderChar (h : s.Inside) (hy : y.toNat < 25) : (s.fullRemainderChar x y).Inside := by
  refine foldl_keeps (fun s k hk hs => hs.putChar (cellIndex_lt ?_ hy) 32) h
  obtain ⟨hle, hlt⟩ := List.mem_range'_1.1 hk
  rw [videoWidth] at hlt
  rw [BitVec.toNat_ofNat]
  omega

/-- A line that is not the first one is copied within the screen. -/
lemma Inside.copyLine (h : s.Inside) (hpos : 0 < y.toNat) (hy : y.toNat < 25) : (s.copyLine y).Inside := by
  have hprev : (y - 1).toNat = y.toNat - 1 := by
    rw [BitVec.toNat_sub_of_le (by rw [BitVec.le_def]; exact hpos)]
    rfl
  refine foldl_keeps (fun s k hk hs => ?_) h
  have hk := List.mem_range.1 hk
  rw [videoWidth] at hk
  have hx : (BitVec.ofNat 8 k).toNat < 80 := by
    rw [BitVec.toNat_ofNat]
    omega
  exact (hs.getBufferValue (cellIndex_lt hx hy)).setBufferValue (cellIndex_lt hx (by omega)) _

/-- The lines are copied within the screen. -/
lemma Inside.copyLines (h : s.Inside) : s.copyLines.Inside := by
  refine foldl_keeps (P := Inside) (fun s k hk hs => ?_) h
  obtain ⟨hpos, hlt⟩ := List.mem_range'_1.1 hk
  rw [videoHeight] at hlt
  have hy : (BitVec.ofNat 8 k).toNat = k := by
    rw [BitVec.toNat_ofNat]
    omega
  exact hs.copyLine (by omega) (by omega)

/-- Scrolling accesses the screen only. -/
lemma Inside.nextLine (h : s.Inside) : s.nextLine.Inside := by
  rw [Screen.nextLine]
  exact (h.copyLines.fullRemainderChar (by decide)).withCursor _

/-- It moves the cursor to the start of the last line. -/
lemma cursor_nextLine (s : Screen) : s.nextLine.cursor = ⟨0, 24⟩ := rfl

/-- The screen is cleared without an access outside of it. -/
lemma Inside.clean (h : s.Inside) : s.clean.Inside := by
  rw [Screen.clean]
  refine foldl_keeps (P := Inside) (fun s k hk hs i hi => ?_) h
  rcases List.mem_append.1 hi with hi | hi
  · exact hs i hi
  · have hik : i = k := by simpa using hi
    have hk := List.mem_range.1 hk
    rw [videoWidth, videoHeight] at hk
    omega

/-- The cursor is in the first cell then. -/
lemma cursor_clean (s : Screen) : s.clean.cursor = ⟨0, 0⟩ := by
  rw [Screen.clean]
  exact foldl_keeps (P := fun t => t.cursor = ⟨0, 0⟩) (fun _ _ _ h => h) rfl

/-! ## One character -/

/-- A tab ends at the end of the line at the latest. -/
lemma tab_le (hx : x.toNat < 80) : ((x + 8) &&& ~~~7).toNat ≤ 80 := by
  revert x
  decide

/-- Before it looks at the cursor, `printk` moves it at most one column or one line off the screen. -/
lemma OnScreen.putAndMove (h : s.OnScreen) (c : BitVec 8) :
    (s.putAndMove c).Inside ∧ (s.putAndMove c).cursor.x.toNat ≤ 80 ∧
      (s.putAndMove c).cursor.y.toNat + (s.putAndMove c).cursor.x.toNat / 80 ≤ 25 := by
  obtain ⟨hx, hy, hin⟩ := h
  have hin : s.Inside := hin
  have hindex := cellIndex_lt hx hy
  rcases hcursor : s.cursor with ⟨x, y⟩
  rw [hcursor] at hx hy hindex
  dsimp only at hx hy hindex
  simp only [Screen.putAndMove, hcursor]
  split_ifs with hnewline hback hcolumn hline htab
  · have hsucc : (y + 1).toNat = y.toNat + 1 := by bv_omega
    exact ⟨hin.fullRemainderChar hy, Nat.zero_le 80, by dsimp only; rw [hsucc]; exact hy⟩
  · have hpred : (x - 1).toNat = x.toNat - 1 := by bv_omega
    refine ⟨Inside.putChar (s := { s with cursor := ⟨x - 1, y⟩ }) hin (cellIndex_lt (by omega) hy) 32, ?_, ?_⟩
    · simp only [cursor_putChar]
      omega
    · simp only [cursor_putChar]
      omega
  · have hpred : (y - 1).toNat = y.toNat - 1 := by bv_omega
    refine ⟨Inside.putChar (s := { s with cursor := ⟨_, y - 1⟩ }) hin
      (cellIndex_lt (by decide) (by omega)) 32, ?_, ?_⟩
    · simp only [cursor_putChar]
      decide
    · simp only [cursor_putChar]
      have hlast : (BitVec.ofNat 8 (videoWidth - 1)).toNat = 79 := by decide
      omega
  · rw [hcursor]
    exact ⟨hin, by dsimp only; omega, by dsimp only; omega⟩
  · have htab : ((x + 8) &&& ~~~7).toNat ≤ 80 := tab_le hx
    exact ⟨hin, htab, by dsimp only; omega⟩
  · refine ⟨hin.putChar hindex c, ?_, ?_⟩
    · dsimp only
      bv_omega
    · dsimp only
      have hsucc : (x + 1).toNat = x.toNat + 1 := by bv_omega
      omega

/-- After every character all accesses were to the screen, and the cursor is on it. -/
lemma OnScreen.printkChar (h : s.OnScreen) (c : BitVec 8) : (s.printkChar c).OnScreen := by
  obtain ⟨hin, hx, hy⟩ := h.putAndMove c
  have hwrapped : (s.putAndMove c).wrapCursor.Inside ∧ (s.putAndMove c).wrapCursor.cursor.x.toNat < 80 ∧
      (s.putAndMove c).wrapCursor.cursor.y.toNat ≤ 25 := by
    rw [wrapCursor, videoWidth]
    split_ifs with hend
    · have hsucc : ((s.putAndMove c).cursor.y + 1).toNat = (s.putAndMove c).cursor.y.toNat + 1 := by
        bv_omega
      exact ⟨hin.withCursor _, Nat.zero_lt_succ 79, by dsimp only; omega⟩
    · exact ⟨hin, by omega, by omega⟩
  rw [Screen.printkChar, scroll, videoHeight]
  split_ifs with hend
  · refine ⟨?_, ?_, hwrapped.1.nextLine⟩
    · rw [cursor_nextLine]
      decide
    · rw [cursor_nextLine]
      decide
  · exact ⟨hwrapped.2.1, by omega, hwrapped.1⟩

/-! ## Sequences of calls -/

/-- At the start nothing was accessed. -/
lemma onScreen_start (videoMemory : ℕ → BitVec 16) : (start videoMemory).OnScreen :=
  ⟨Nat.zero_lt_succ 79, Nat.zero_lt_succ 24, by simp [start]⟩

/-- The same after the screen was cleared. -/
lemma OnScreen.clean (h : s.OnScreen) : s.clean.OnScreen := by
  refine ⟨?_, ?_, Inside.clean h.accesses_lt⟩
  · rw [cursor_clean]
    decide
  · rw [cursor_clean]
    decide

/-- And after the cursor was moved. -/
lemma OnScreen.setCursorPosition (h : s.OnScreen) (x y : BitVec 8) : (s.setCursorPosition x y).OnScreen := by
  refine ⟨?_, ?_, h.accesses_lt⟩
  · show (if videoWidth ≤ x.toNat then BitVec.ofNat 8 (videoWidth - 1) else x).toNat < 80
    split_ifs with hx
    · decide
    · exact Nat.lt_of_not_le hx
  · show (if videoHeight ≤ y.toNat then BitVec.ofNat 8 (videoHeight - 1) else y).toNat < 25
    split_ifs with hy
    · decide
    · exact Nat.lt_of_not_le hy

/-- And after a text. -/
lemma OnScreen.printkChars (h : s.OnScreen) (text : List (BitVec 8)) : (text.foldl Screen.printkChar s).OnScreen := by
  induction text generalizing s with
  | nil => exact h
  | cons c text ih => exact ih (h.printkChar c)

/-- And after every call. -/
lemma OnScreen.call (h : s.OnScreen) (c : ScreenCall) : (s.call c).OnScreen := by
  cases c with
  | printk str => exact h.printkChars _
  | printChar c => exact h.printkChars _
  | clean => exact h.clean
  | setCursorPosition x y => exact h.setCursorPosition x y

/-- All states between the characters of a string. -/
lemma OnScreen.of_mem_scanl (h : s.OnScreen) {t : Screen} {text : List (BitVec 8)}
    (ht : t ∈ text.scanl Screen.printkChar s) : t.OnScreen := by
  induction text generalizing s with
  | nil =>
    obtain rfl := List.mem_singleton.1 ht
    exact h
  | cons c text ih =>
    rw [List.scanl_cons] at ht
    rcases List.mem_cons.1 ht with rfl | ht
    · exact h
    · exact ih (h.printkChar c) ht

/-- All states during a call. -/
lemma OnScreen.of_mem_callStates (h : s.OnScreen) {t : Screen} {c : ScreenCall} (ht : t ∈ s.callStates c) :
    t.OnScreen := by
  cases c with
  | printk str => exact h.of_mem_scanl ht
  | printChar c => exact h.of_mem_scanl ht
  | clean =>
    rw [callStates, List.mem_pair] at ht
    rcases ht with ht | ht
    · rwa [ht]
    · rw [ht]
      exact h.clean
  | setCursorPosition x y =>
    rw [callStates, List.mem_pair] at ht
    rcases ht with ht | ht
    · rwa [ht]
    · rw [ht]
      exact h.setCursorPosition x y

/-- All states during a sequence of calls. -/
lemma OnScreen.of_mem_runStates (h : s.OnScreen) {t : Screen} {cs : List ScreenCall}
    (ht : t ∈ s.runStates cs) : t.OnScreen := by
  induction cs generalizing s with
  | nil =>
    obtain rfl := List.mem_singleton.1 ht
    exact h
  | cons c cs ih =>
    rcases List.mem_append.1 ht with ht | ht
    · exact h.of_mem_callStates ht
    · exact ih (h.call c) ht

/-- **The cursor stays on the screen**, and so do all accesses to the video memory, between the characters of
every sequence of calls.

**Proof sketch.** A character moves the cursor to the end of the line or below the last line at most, and both
are looked at before the next character. -/
theorem onScreen_of_run (videoMemory : ℕ → BitVec 16) (cs : List ScreenCall) :
    ∀ t ∈ (start videoMemory).runStates cs, t.OnScreen := fun _ ht =>
  (onScreen_start videoMemory).of_mem_runStates ht

/-- Printing one letter. -/
theorem onScreen_of_run_letter : ((start fun _ => 0x0720).printChar 65).OnScreen :=
  onScreen_of_run (fun _ => 0x0720) [.printChar 65] _
    (List.mem_append_right _ (List.mem_singleton.2 rfl))

end Screen

end Jarvis
