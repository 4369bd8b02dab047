import JarvisKernel.Console.Shown
import JarvisKernel.Driver.Keyboard
import JarvisKernel.Lib.Run
import JarvisKernel.Shell.Commands

set_option relaxedAutoImplicit false
set_option autoImplicit false

/-!
# A session of the shell

`shell_run` of `src/user/shell/shell.c` with the keyboard and the screen. The loop of `shell_read_line` asks for a
character again and again, and between any two of its rounds there may be keyboard interrupts. A line that is read
is processed at once, and then the next call of `shell_read_line` begins.

What a user has typed is the list of the characters that `keyboard_getchar` has returned. It is a first part of
those that the driver has accepted, so that the results about lines hold for every interleaving of interrupts with
the rounds of the loop.

## Main definitions

* `Jarvis.Shell` — the shell with the keyboard and the screen, and what it has done.
* `Jarvis.Shell.poll`, `Jarvis.Shell.step` — a round of the loop, and the steps of a session.
* `Jarvis.Shell.edited` — the lines that a line editor makes of what was typed.

## Main results

* `Jarvis.Shell.session_of_run` — the shell runs exactly the commands that the typed lines name.
* `Jarvis.Shell.shows_of_run` — the line that is being typed is on the screen.
-/

namespace Jarvis

open LineEdit

/-- `MAX_COMMAND_LENGTH`. -/
def maxCommandLength : ℕ := 256

/-- A line that was processed: whether there was memory for its words, and the command that was run. -/
structure Processed where
  memory : Bool
  execution : Option Execution

/-- The shell: the keyboard, the buffer of the line, the static pointer of `strtok`, the screen, the lines that were
processed, and the number of arrays of words that were not freed. -/
structure Shell where
  keyboard : Keyboard
  reader : LineReader
  strtokLast : Option ℕ
  screen : Screen
  processed : List Processed
  leaked : ℕ

/-- A step: a keyboard interrupt with its scancode, or a round of the loop of `shell_read_line`, and the memory that
`malloc` has if the round ends a line. -/
inductive ShellOp where
  | interrupt (scancode : BitVec 8)
  | poll (memory : Bool)

namespace Screen

/-- Printing a text, character by character. -/
def print (s : Screen) (text : List (BitVec 8)) : Screen := text.foldl printChar s

/-- Printing a text in two pieces. -/
lemma print_append (s : Screen) (text text' : List (BitVec 8)) :
    s.print (text ++ text') = (s.print text).print text' := List.foldl_append

/-- `update_cursor`. -/
def updateCursor (s : Screen) : Screen := s.setCursorPosition s.cursor.x s.cursor.y

end Screen

/-- `shell_print_prompt`. -/
def shellPrintPrompt (s : Screen) : Screen := s.print (ascii "\n" ++ ascii "/" ++ ascii "#> ")

namespace Shell

/-- The shell when it has printed its first prompt. What is in its buffer, in the static pointer and on the screen is
left over from before. -/
def start (keyboardBuffer buffer : ℕ → BitVec 8) (strtokLast : Option ℕ) (screen : Screen) : Shell where
  keyboard := .start keyboardBuffer
  reader := ⟨buffer, 0⟩
  strtokLast := strtokLast
  screen := shellPrintPrompt screen
  processed := []
  leaked := 0

/-- A round of `shell_read_line`; if it returns, the rest of the loop of `shell_run` and the start of the next
call. -/
def poll (texts : ShellTexts) (memory : Bool) (s : Shell) : Option Shell :=
  let round := s.reader.readRound maxCommandLength s.keyboard.driver.keyboardGetchar.2
  let keyboard := s.keyboard.step .getchar
  let screen := s.screen.updateCursor.print round.echo
  match round.returned with
  | none => some { s with keyboard := keyboard, reader := round.reader, screen := screen }
  | some _ =>
    (shellProcessCommand texts maxCommandLength memory 0 ⟨round.reader.buffer, s.strtokLast, [], []⟩).map fun r =>
      { keyboard := keyboard
        reader := ⟨r.strtok.mem, 0⟩
        strtokLast := r.strtok.last
        screen := shellPrintPrompt (screen.print r.out)
        processed := s.processed ++ [⟨memory, r.execution⟩]
        leaked := s.leaked + if r.leaks then 1 else 0 }

/-- A step of a session. -/
def step (texts : ShellTexts) (s : Shell) : ShellOp → Option Shell
  | .interrupt scancode => some { s with keyboard := s.keyboard.step (.interrupt scancode) }
  | .poll memory => s.poll texts memory

/-- The lines that a line editor makes of the characters that were returned. -/
def edited (s : Shell) : Lines (BitVec 8) := edit (maxCommandLength - 1) (s.keyboard.returned.map keyOf)

/-- The line that a processed line was: it ran the command that its words name, if there was memory for them. -/
def Ran (texts : ShellTexts) (line : List (BitVec 8)) (p : Processed) : Prop :=
  p.execution = if p.memory then executionOf texts line else none

/-- The invariant: the buffer holds the line that is being typed, every line that was ended has run its command, and
the arrays that were not freed are those of lines without words. -/
structure Inv (texts : ShellTexts) (s : Shell) : Prop where
  keyboard : s.keyboard.Inv
  holds : s.reader.Holds s.edited.line
  ran : List.Forall₂ (Ran texts) s.edited.ended s.processed
  leaked : s.leaked = s.processed.countP fun p => p.memory && p.execution.isNone

variable {texts : ShellTexts} {s s' : Shell} {memory : Bool}

/-! ## The line that is edited -/

/-- A round is one key, also if no character is waiting. -/
lemma edit_getchar (s : Shell) :
    edit (maxCommandLength - 1) ((s.keyboard.step .getchar).returned.map keyOf) =
      press (maxCommandLength - 1) s.edited (keyOf s.keyboard.driver.keyboardGetchar.2) := by
  simp only [Keyboard.step]
  split_ifs with hzero
  · rw [hzero]
    rfl
  · rw [List.map_append, List.map_singleton, edit_concat]
    rfl

/-- The characters of the line are printable. -/
lemma printable_of_mem_edited (s : Shell) : ∀ a ∈ s.edited.line, 32 ≤ a ∧ a ≤ 126 := by
  refine (forall_mem_of_put fun a ha => ?_).1
  obtain ⟨c, -, hc⟩ := List.mem_map.1 ha
  exact printable_of_put hc

/-- The line that is edited leaves room for its end. -/
lemma length_edited_lt (s : Shell) : s.edited.line.length < maxCommandLength - 1 := length_line_lt (by decide)

/-- The line has no terminator inside. -/
lemma ne_zero_of_mem_edited (s : Shell) : ∀ a ∈ s.edited.line, a ≠ 0 :=
  fun a ha => ne_zero_of_printable (s.printable_of_mem_edited a ha)

/-- What a round does, and what it prints. -/
lemma poll_cases (h : s.Inv texts) (memory : Bool) :
    ∃ s', s.poll texts memory = some s' ∧ s'.Inv texts ∧
      s'.edited = press (maxCommandLength - 1) s.edited (keyOf s.keyboard.driver.keyboardGetchar.2) ∧
      (s'.edited.line = [] ∧ (∃ text, s'.screen = s.screen.updateCursor.print text) ∨
        s'.screen = s.screen.updateCursor.print
          (s.reader.readRound maxCommandLength s.keyboard.driver.keyboardGetchar.2).echo) := by
  obtain ⟨hkey, hholds, hran, hleak⟩ := h
  have hkey' : (s.keyboard.step .getchar).Inv := hkey.step .getchar
  have hedit := s.edit_getchar
  have hround := hholds.readRound s.length_edited_lt s.ne_zero_of_mem_edited s.keyboard.driver.keyboardGetchar.2
  unfold poll
  dsimp only
  rcases hround with ⟨hnone, hended, hholds'⟩ | ⟨line, hsome, hafter, hlength, htext⟩
  · rw [hnone]
    refine ⟨_, rfl, ⟨hkey', ?_, ?_, hleak⟩, hedit, .inr rfl⟩
    · show LineReader.Holds _ (edit _ _).line
      rw [hedit]
      exact hholds'
    · show List.Forall₂ _ (edit _ _).ended _
      rw [hedit, hended]
      exact hran
  · rw [hsome]
    obtain ⟨r, hcall, hexec, hleaks⟩ := shellProcessCommand_spec texts htext s.strtokLast hlength memory
    dsimp only
    rw [hcall, Option.map_some]
    refine ⟨_, rfl, ⟨hkey', ?_, ?_, ?_⟩, hedit, .inl ⟨?_, ?_⟩⟩
    · show LineReader.Holds _ (edit _ _).line
      rw [hedit, hafter]
      exact LineReader.holds_nil _
    · show List.Forall₂ _ (edit _ _).ended _
      rw [hedit, hafter]
      exact List.rel_append hran (.cons hexec .nil)
    · rw [List.countP_append, List.countP_singleton, ← hleak, hleaks]
      dsimp only
      rw [hexec]
      cases memory <;> simp
    · show (edit _ _).line = []
      rw [hedit, hafter]
    · refine ⟨(s.reader.readRound maxCommandLength s.keyboard.driver.keyboardGetchar.2).echo ++ r.out ++
        (ascii "\n" ++ ascii "/" ++ ascii "#> "), ?_⟩
      simp only [shellPrintPrompt, Screen.print_append]

/-- Every step returns and keeps the invariant. -/
lemma Inv.step (h : s.Inv texts) (op : ShellOp) : ∃ s', s.step texts op = some s' ∧ s'.Inv texts := by
  cases op with
  | interrupt scancode =>
    -- an interrupt changes only what is waiting
    have hkey : (s.keyboard.step (.interrupt scancode)).Inv := h.keyboard.step _
    exact ⟨_, rfl, hkey, h.holds, h.ran, h.leaked⟩
  | poll memory =>
    obtain ⟨s', hpoll, hinv, -⟩ := poll_cases h memory
    exact ⟨s', hpoll, hinv⟩

/-- The invariant holds before the first key. -/
lemma inv_start (texts : ShellTexts) (keyboardBuffer buffer : ℕ → BitVec 8) (strtokLast : Option ℕ)
    (screen : Screen) : (start keyboardBuffer buffer strtokLast screen).Inv texts where
  keyboard := Keyboard.inv_start keyboardBuffer
  holds := LineReader.holds_nil buffer
  ran := .nil
  leaked := rfl

/-- **The shell runs exactly the commands that the typed lines name**, in every interleaving of keyboard interrupts
with the rounds of its loop: the characters that it has read are the first of those that the keyboard has accepted,
in order; its buffer holds the line that a line editor with 255 places makes of them; each line that was ended ran
the command that is named by its first word with its first 16 words, whatever was left in memory and in the static
pointer of `strtok` by the lines before; and it has lost one array for each line without words. -/
theorem session_of_run (texts : ShellTexts) (keyboardBuffer buffer : ℕ → BitVec 8) (strtokLast : Option ℕ)
    (screen : Screen) (ops : List ShellOp) :
    ∃ s, Run.exec (step texts) (start keyboardBuffer buffer strtokLast screen) ops = some s ∧
      s.keyboard.Delivers ∧ s.reader.Holds s.edited.line ∧
      List.Forall₂ (Ran texts) s.edited.ended s.processed ∧
      s.leaked = s.processed.countP fun p => p.memory && p.execution.isNone := by
  have hfollows : Run.Follows (step texts) (fun _ _ => True) (start keyboardBuffer buffer strtokLast screen) ops :=
    Run.follows_of_forall fun _ _ _ => trivial
  obtain ⟨s, hrun, hinv⟩ := Run.exec_of_step (I := Inv texts) (fun s op h _ => h.step op)
    (inv_start texts keyboardBuffer buffer strtokLast screen) hfollows
  exact ⟨s, hrun, hinv.keyboard.delivers, hinv.holds, hinv.ran, hinv.leaked⟩

/-! ## The screen -/

/-- The line that is being typed is on the screen, before the cursor. -/
structure ShowsLine (s : Shell) : Prop where
  onScreen : s.screen.OnScreen
  shows : s.screen.Shows s.edited.line

/-- Printing keeps the cursor on the screen. -/
lemma onScreen_print {t : Screen} (h : t.OnScreen) (text : List (BitVec 8)) : (t.print text).OnScreen := by
  unfold Screen.print
  induction text generalizing t with
  | nil => exact h
  | cons c text ih => exact ih (h.printkChars _)

/-- `update_cursor` moves only the cursor of the display. -/
lemma updateCursor_spec {t : Screen} (h : t.OnScreen) :
    t.updateCursor.OnScreen ∧ t.updateCursor.cursor = t.cursor ∧ t.updateCursor.videoMemory = t.videoMemory := by
  refine ⟨h.setCursorPosition _ _, ?_, rfl⟩
  rcases hcursor : t.cursor with ⟨x, y⟩
  obtain ⟨hx, hy, -⟩ := h
  rw [hcursor] at hx hy
  unfold Screen.updateCursor Screen.setCursorPosition
  rw [hcursor]
  dsimp only at hx hy ⊢
  rw [if_neg (by rw [videoWidth]; omega), if_neg (by rw [videoHeight]; omega)]

/-- Moving the hardware cursor keeps what is shown. -/
lemma shows_updateCursor {t : Screen} {text : List (BitVec 8)} (hon : t.OnScreen) (h : t.Shows text) :
    t.updateCursor.Shows text := by
  obtain ⟨-, hcursor, hmem⟩ := updateCursor_spec hon
  have hplace : t.updateCursor.place = t.place := by rw [Screen.place, hcursor, Screen.place]
  refine ⟨hplace ▸ h.length_le, fun j hj => ?_⟩
  rw [hplace, Screen.character, hmem]
  exact h.cells j hj

/-- A character that is not the end of a string is printed. -/
lemma print_singleton {c : BitVec 8} (hc : c ≠ 0) (t : Screen) : t.print [c] = t.printkChar c := by
  show t.printChar c = _
  unfold Screen.printChar Screen.printk Screen.chars
  rw [List.takeWhile_cons_of_pos (by simpa using hc)]
  rfl

/-- What a round prints keeps the line on the screen. -/
lemma shows_echo {t : Screen} (hon : t.OnScreen) (h : t.Shows s.edited.line)
    (hholds : s.reader.Holds s.edited.line) (c : BitVec 8)
    (hline : (press (maxCommandLength - 1) s.edited (keyOf c)).line ≠ []) :
    (t.print (s.reader.readRound maxCommandLength c).echo).Shows
      (press (maxCommandLength - 1) s.edited (keyOf c)).line := by
  have hlength := s.length_edited_lt
  rw [hholds.echo_readRound]
  cases hkey : keyOf c with
  | enter =>
    rw [hkey] at hline
    exact absurd rfl hline
  | erase =>
    dsimp only [press]
    split_ifs with hnil
    · rw [hnil]
      exact Screen.shows_nil _
    · rw [print_singleton (by decide)]
      exact h.erase hon hnil
  | put a =>
    have hprint := printable_of_put hkey
    have hcontrol : a ≠ 10 ∧ a ≠ 8 ∧ a ≠ 9 := by
      refine ⟨?_, ?_, ?_⟩
      all_goals
        rintro rfl
        exact absurd hprint (by decide)
    rw [hkey] at hline
    unfold press at hline ⊢
    dsimp only at hline ⊢
    split_ifs at hline ⊢ with hroom
    · rw [print_singleton (ne_zero_of_printable hprint)]
      refine h.put hon hcontrol ?_
      rw [maxCommandLength] at hlength
      omega
    · exact absurd rfl hline
  | ignore => exact h

/-- Every step keeps the line on the screen. -/
lemma ShowsLine.step (hs : s.ShowsLine) (h : s.Inv texts) {op : ShellOp} (hstep : s.step texts op = some s') :
    s'.ShowsLine := by
  obtain ⟨hon, hshows⟩ := hs
  cases op with
  | interrupt scancode =>
    obtain rfl := Option.some.inj hstep
    exact ⟨hon, hshows⟩
  | poll memory =>
    obtain ⟨hon', -, -⟩ := updateCursor_spec hon
    obtain ⟨s₁, hpoll, -, hedit, hcases⟩ := poll_cases h memory
    obtain rfl : s' = s₁ := Option.some.inj (hstep.symm.trans hpoll)
    rcases hcases with ⟨hnil, text, hscreen⟩ | hscreen
    · refine ⟨?_, ?_⟩
      · rw [hscreen]
        exact onScreen_print hon' text
      · rw [hnil]
        exact Screen.shows_nil _
    · refine ⟨?_, ?_⟩
      · rw [hscreen]
        exact onScreen_print hon' _
      · by_cases hnil : s'.edited.line = []
        · rw [hnil]
          exact Screen.shows_nil _
        · rw [hedit] at hnil ⊢
          rw [hscreen]
          exact shows_echo hon' (shows_updateCursor hon hshows) h.holds _ hnil

/-- The screen shows the empty line at the start. -/
lemma showsLine_start (keyboardBuffer buffer : ℕ → BitVec 8) (strtokLast : Option ℕ) {screen : Screen}
    (hscreen : screen.OnScreen) : (start keyboardBuffer buffer strtokLast screen).ShowsLine := by
  have hnil : (start keyboardBuffer buffer strtokLast screen).edited.line = [] := by
    unfold edited
    rw [show (start keyboardBuffer buffer strtokLast screen).keyboard.returned = [] from rfl, List.map_nil, edit_nil]
  refine ⟨?_, ?_⟩
  · simp only [start, shellPrintPrompt]
    exact onScreen_print hscreen _
  · rw [hnil]
    exact Screen.shows_nil _

/-- **The line that is being typed is on the screen**: in every interleaving of keyboard interrupts with the rounds
of the loop, the cells before the cursor show what is in the buffer, also when the line goes over the end of a line
of the screen, when the screen is scrolled, and when characters are erased across lines. -/
theorem shows_of_run (texts : ShellTexts) (keyboardBuffer buffer : ℕ → BitVec 8) (strtokLast : Option ℕ)
    {screen : Screen} (hscreen : screen.OnScreen) (ops : List ShellOp) :
    ∃ s, Run.exec (step texts) (start keyboardBuffer buffer strtokLast screen) ops = some s ∧
      s.screen.OnScreen ∧ s.reader.i ≤ s.screen.place ∧
      ∀ j < s.reader.i, s.screen.character (s.screen.place - s.reader.i + j) = s.reader.buffer j := by
  have hfollows : Run.Follows (step texts) (fun _ _ => True) (start keyboardBuffer buffer strtokLast screen) ops :=
    Run.follows_of_forall fun _ _ _ => trivial
  obtain ⟨s, hrun, hinv, hon, hshows⟩ := Run.exec_of_step (I := fun s => Inv texts s ∧ s.ShowsLine)
    (fun s op h _ => by
      obtain ⟨s', hstep, hinv⟩ := h.1.step op
      exact ⟨s', hstep, hinv, h.2.step h.1 hstep⟩)
    ⟨inv_start texts keyboardBuffer buffer strtokLast screen,
      showsLine_start keyboardBuffer buffer strtokLast hscreen⟩
    hfollows
  obtain ⟨hlength, hcells⟩ := hinv.holds
  refine ⟨s, hrun, hon, hlength ▸ hshows.length_le, fun j hj => ?_⟩
  rw [hlength] at hj ⊢
  rw [hshows.cells j hj, hcells j hj]

/-- The keys `l` and `s` are pressed on a cleared screen, each before a round of the loop. -/
theorem shows_of_run_ls :
    ∃ s, Run.exec (step ⟨[], [], []⟩) (start (fun _ => 0) (fun _ => 0) none (Screen.start fun _ => 0x0720))
        [.interrupt 0x26, .poll true, .interrupt 0x1F, .poll true] = some s ∧
      s.screen.OnScreen ∧ s.reader.i ≤ s.screen.place ∧
      ∀ j < s.reader.i, s.screen.character (s.screen.place - s.reader.i + j) = s.reader.buffer j :=
  shows_of_run _ _ _ _ (Screen.onScreen_start _) _

end Shell

end Jarvis
