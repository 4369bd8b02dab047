import JarvisKernel.Lib.LineEdit
import JarvisKernel.Text.Strings

set_option relaxedAutoImplicit false
set_option autoImplicit false

/-!
# Reading a line

`shell_read_line` of `src/user/shell/shell.c` and `installer_read_line` of `src/user/installer/installer.c`, which
have the same loop. A round of the loop takes the character that `keyboard_getchar` returns, which is 0 if none
is waiting.

## Main definitions

* `Jarvis.LineReader` — the buffer of a call, and the number of characters in it.
* `Jarvis.LineReader.readRound` — one round of the loop.
* `Jarvis.keyOf` — what a character does to the line.

## Main results

* `Jarvis.LineReader.Holds.readRound` — a round is one key of a line editor.
-/

namespace Jarvis

open LineEdit

/-- The buffer of a call, and the number of characters in it. -/
structure LineReader where
  buffer : ℕ → BitVec 8
  i : ℕ

/-- What a round leaves: the buffer, what the call returns if the round is its last one, and what is printed. -/
structure ReadRound where
  reader : LineReader
  returned : Option ℕ
  echo : List (BitVec 8)

namespace LineReader

/-- The line is ended, and its length is returned. -/
def ret (r : LineReader) (echo : List (BitVec 8)) : ReadRound :=
  ⟨{ r with buffer := Function.update r.buffer r.i 0 }, some r.i, echo⟩

/-- The condition of the loop, which is looked at after a round. -/
def goOn (maxLength : ℕ) (r : LineReader) (echo : List (BitVec 8)) : ReadRound :=
  if r.i < maxLength - 1 then ⟨r, none, echo⟩ else r.ret echo

/-- A round of the loop of `shell_read_line` and `installer_read_line`. -/
def readRound (maxLength : ℕ) (r : LineReader) (c : BitVec 8) : ReadRound :=
  if c = 10 then r.ret []
  else if c = 8 then
    if 0 < r.i then goOn maxLength { r with i := r.i - 1 } [8] else goOn maxLength r []
  else if 0x20 ≤ c.toInt ∧ c.toInt ≤ 0x7E then
    goOn maxLength ⟨Function.update r.buffer r.i c, r.i + 1⟩ [c]
  else goOn maxLength r []

-- the backspace leaves the character in the buffer, and the next one takes its place
example : let r := ((LineReader.mk (fun _ => 0) 0).readRound 9 97).reader
    ((r.readRound 9 8).reader.readRound 9 98).reader.buffer 0 = 98 := by decide

end LineReader

/-- What a character does to the line. -/
def keyOf (c : BitVec 8) : Key (BitVec 8) :=
  if c = 10 then .enter
  else if c = 8 then .erase
  else if 32 ≤ c ∧ c ≤ 126 then .put c
  else .ignore

/-- The characters that can be put. -/
lemma printable_of_put {a c : BitVec 8} (h : keyOf c = .put a) : 32 ≤ a ∧ a ≤ 126 := by
  unfold keyOf at h
  split_ifs at h with henter herase hprint
  obtain rfl := Key.put.inj h
  exact hprint

/-- A printable character is not the end of a string. -/
lemma ne_zero_of_printable {a : BitVec 8} (h : 32 ≤ a ∧ a ≤ 126) : a ≠ 0 := by
  rintro rfl
  exact absurd h (by decide)

/-- Characters are compared as signed bytes. -/
lemma printable_iff (c : BitVec 8) : 0x20 ≤ c.toInt ∧ c.toInt ≤ 0x7E ↔ 32 ≤ c ∧ c ≤ 126 := by
  revert c
  decide

/-- A text in memory, cell by cell. -/
lemma textAt_of_cells {mem : ℕ → BitVec 8} {p : ℕ} {text : List (BitVec 8)} (hne : ∀ a ∈ text, a ≠ 0)
    (hcells : ∀ j (h : j < text.length), mem (p + j) = text[j]) (hend : mem (p + text.length) = 0) :
    TextAt mem p text := by
  induction text generalizing p with
  | nil => exact hend
  | cons a text ih =>
    refine ⟨hcells 0 (Nat.zero_lt_succ _), hne a List.mem_cons_self, ih (fun b hb => ?_) (fun j hj => ?_) ?_⟩
    · exact hne b (List.mem_cons_of_mem a hb)
    · have hcell := hcells (j + 1) (by rw [List.length_cons]; omega)
      rwa [← Nat.add_assoc, Nat.add_right_comm] at hcell
    · rw [List.length_cons] at hend
      rwa [Nat.add_assoc, Nat.add_comm 1]

namespace LineReader

variable {r : LineReader} {line : List (BitVec 8)} {maxLength : ℕ} {c : BitVec 8}

/-- The buffer holds the line. -/
structure Holds (r : LineReader) (typed : List (BitVec 8)) : Prop where
  length : r.i = typed.length
  cells : ∀ j (h : j < typed.length), r.buffer j = typed[j]

/-- The buffer starts with the empty line. -/
lemma holds_nil (buffer : ℕ → BitVec 8) : Holds ⟨buffer, 0⟩ [] := ⟨rfl, fun _ hj => absurd hj (Nat.not_lt_zero _)⟩

/-- A character is taken from its end. -/
lemma Holds.dropLast (h : r.Holds line) : Holds { r with i := r.i - 1 } line.dropLast := by
  refine ⟨?_, fun j hj => ?_⟩
  · rw [List.length_dropLast, ← h.length]
  · rw [List.length_dropLast] at hj
    rw [List.getElem_dropLast]
    exact h.cells j (by omega)

/-- A character is put to its end. -/
lemma Holds.concat (h : r.Holds line) (c : BitVec 8) :
    Holds ⟨Function.update r.buffer r.i c, r.i + 1⟩ (line ++ [c]) := by
  refine ⟨?_, fun j hj => ?_⟩
  · rw [List.length_append, h.length]
    rfl
  · rw [List.length_append, List.length_singleton] at hj
    by_cases hlast : j = line.length
    · subst hlast
      rw [List.getElem_concat_length rfl, ← h.length]
      exact Function.update_self ..
    · rw [List.getElem_append_left (by omega)]
      refine (Function.update_of_ne ?_ ..).trans (h.cells j (by omega))
      rw [h.length]
      exact hlast

/-- A line that is ended is a string in the buffer. -/
lemma Holds.ret (h : r.Holds line) (hne : ∀ a ∈ line, a ≠ 0) (echo : List (BitVec 8)) :
    (r.ret echo).returned = some line.length ∧ TextAt (r.ret echo).reader.buffer 0 line := by
  refine ⟨?_, textAt_of_cells hne (fun j hj => ?_) ?_⟩
  · rw [LineReader.ret, h.length]
  · rw [Nat.zero_add]
    refine (Function.update_of_ne ?_ ..).trans (h.cells j hj)
    rw [h.length]
    omega
  · rw [Nat.zero_add, ← h.length]
    exact Function.update_self ..

/-- What a round does to lines: it edits the line, or it ends it and leaves it as a string in the buffer. -/
def Edits (maxLength : ℕ) (r : ReadRound) (before after : Lines (BitVec 8)) : Prop :=
  (r.returned = none ∧ after.ended = before.ended ∧ r.reader.Holds after.line) ∨
    ∃ line, r.returned = some line.length ∧ after = ⟨before.ended ++ [line], []⟩ ∧ line.length < maxLength ∧
      TextAt r.reader.buffer 0 line

/-- **A round is one key** of a line editor whose lines have one character less than the buffer has places. -/
lemma Holds.readRound {e : Lines (BitVec 8)} (h : r.Holds e.line) (hroom : e.line.length < maxLength - 1)
    (hne : ∀ a ∈ e.line, a ≠ 0) (c : BitVec 8) :
    Edits maxLength (r.readRound maxLength c) e (press (maxLength - 1) e (keyOf c)) := by
  have hstay : ∀ echo, r.goOn maxLength echo = ⟨r, none, echo⟩ := by
    intro echo
    rw [goOn, if_pos]
    rwa [h.length]
  unfold LineReader.readRound keyOf
  split_ifs with henter herase hpos hprint hprint' hprint'
  · obtain ⟨hlength, htext⟩ := h.ret hne []
    exact .inr ⟨e.line, hlength, rfl, by omega, htext⟩
  · refine .inl ?_
    rw [goOn, if_pos (by rw [h.length]; dsimp only; omega)]
    exact ⟨rfl, rfl, h.dropLast⟩
  · -- there is nothing to erase
    have hnil : e.line = [] := List.length_eq_zero_iff.1 (by rw [← h.length]; omega)
    rw [hstay]
    refine .inl ⟨rfl, rfl, ?_⟩
    show r.Holds e.line.dropLast
    rw [hnil] at h ⊢
    exact h
  · have hlonger := h.concat c
    have hzero : ∀ a ∈ e.line ++ [c], a ≠ 0 := by
      intro a ha
      rcases List.mem_append.1 ha with ha | ha
      · exact hne a ha
      · rw [List.mem_singleton.1 ha]
        exact ne_zero_of_printable ((printable_iff c).1 hprint)
    rw [press, goOn]
    dsimp only
    rw [← h.length]
    split_ifs with hmore
    · exact .inl ⟨rfl, rfl, hlonger⟩
    · obtain ⟨hlength, htext⟩ := hlonger.ret hzero [c]
      refine .inr ⟨_, hlength, rfl, ?_, htext⟩
      rw [List.length_append, List.length_singleton]
      omega
  · exact absurd ((printable_iff c).1 hprint) hprint'
  · exact absurd ((printable_iff c).2 hprint') hprint
  · rw [hstay]
    exact .inl ⟨rfl, rfl, h⟩

/-- What a round prints: the character that is put, or a backspace if there is a character to erase. -/
lemma Holds.echo_readRound (h : r.Holds line) (maxLength : ℕ) (c : BitVec 8) :
    (r.readRound maxLength c).echo =
      match keyOf c with
      | .put a => [a]
      | .erase => if line = [] then [] else [8]
      | _ => [] := by
  have hgo : ∀ (t : LineReader) echo, (t.goOn maxLength echo).echo = echo := by
    intro t echo
    rw [goOn]
    split_ifs <;> rfl
  have hpos : 0 < r.i ↔ ¬ line = [] := by
    rw [h.length, List.length_pos_iff]
  unfold LineReader.readRound keyOf
  by_cases henter : c = 10
  · rw [if_pos henter, if_pos henter]
    rfl
  rw [if_neg henter, if_neg henter]
  by_cases herase : c = 8
  · rw [if_pos herase, if_pos herase]
    by_cases hline : line = []
    · rw [if_neg (fun hnot => hpos.1 hnot hline), hgo]
      exact (if_pos hline).symm
    · rw [if_pos (hpos.2 hline), hgo]
      exact (if_neg hline).symm
  rw [if_neg herase, if_neg herase]
  by_cases hprint : 32 ≤ c ∧ c ≤ 126
  · rw [if_pos ((printable_iff c).2 hprint), if_pos hprint, hgo]
  · rw [if_neg (fun hnot => hprint ((printable_iff c).1 hnot)), if_neg hprint, hgo]

end LineReader

end Jarvis
