import JarvisKernel.Shell.ReadLine
import JarvisKernel.Text.Compare
import JarvisKernel.Text.Tokenize

set_option relaxedAutoImplicit false
set_option autoImplicit false

/-!
# The commands of the shell

`shell_process_command` and `shell_execute_command` of `src/user/shell/shell.c` with the commands that are built
in. The line is cut into words by `shell_tokenize`, and the first word is compared with the names of the commands
by `strcmp`. The array of the words is freed only if there is a word.

What `ps`, `memory` and `test` print is given, because they print what other parts of the kernel return.

## Main definitions

* `Jarvis.builtinCommands` — the table of commands.
* `Jarvis.shellExecuteCommand`, `Jarvis.shellProcessCommand` — the functions.
* `Jarvis.executionOf` — what is wanted: the command that the words of a line name.

## Main results

* `Jarvis.findCommand_spec` — the search in the table.
* `Jarvis.shellProcessCommand_spec` — a line runs the command that its words name.
-/

namespace Jarvis

/-! ## The commands -/

/-- The characters of a text. -/
def ascii (text : String) : List (BitVec 8) := text.toList.map fun c => BitVec.ofNat 8 c.toNat

/-- What is in memory at a text, with zeros from its end on. -/
def literal (text : String) : ℕ → BitVec 8 := fun k => (ascii text).getD k 0

/-- What a command returns, and what it prints. -/
structure CommandResult where
  value : ℤ
  out : List (BitVec 8)

/-- What the commands print that ask other parts of the kernel. -/
structure ShellTexts where
  ps : List (BitVec 8)
  memory : List (BitVec 8)
  test : List (BitVec 8)

/-- The words of a line, of which the first is the name of the command. -/
abbrev Argv := List (List (BitVec 8))

/-- A command that prints how it is used if its number of words is wrong, and else only a text. -/
def usage (ok : Bool) (wrong right : String) : CommandResult :=
  if ok then ⟨0, ascii right⟩ else ⟨-1, ascii wrong⟩

/-- The names in `builtin_commands`. -/
def builtinNames : List String :=
  ["help", "echo", "ls", "cd", "pwd", "clear", "cat", "mkdir", "rmdir", "touch", "rm", "ps", "memory", "test"]

/-- `shell_cmd_help`. -/
def shellCmdHelp (_ : Argv) : CommandResult :=
  ⟨0, ascii "Available commands:\n" ++ builtinNames.flatMap fun name => ascii " - " ++ ascii name ++ ascii "\n"⟩

/-- The loop of `shell_cmd_echo`. -/
def echoLoop : Argv → List (BitVec 8)
  | [] => []
  | [w] => w
  | w :: ws => w ++ ascii " " ++ echoLoop ws

/-- `shell_cmd_echo`. -/
def shellCmdEcho (argv : Argv) : CommandResult := ⟨0, echoLoop argv.tail ++ ascii "\n"⟩

/-- `shell_cmd_ls`. -/
def shellCmdLs (_ : Argv) : CommandResult := ⟨0, ascii "ls is not implemented yet.\n"⟩

/-- `shell_cmd_cd`. -/
def shellCmdCd (argv : Argv) : CommandResult :=
  usage (argv.length = 2) "Usage: cd directory\n" "cd is not implemented yet.\n"

/-- `shell_cmd_pwd`; nothing changes the current directory. -/
def shellCmdPwd (_ : Argv) : CommandResult := ⟨0, ascii "/" ++ ascii "\n"⟩

/-- `shell_cmd_clear`. -/
def shellCmdClear (_ : Argv) : CommandResult := ⟨0, []⟩

/-- `shell_cmd_cat`. -/
def shellCmdCat (argv : Argv) : CommandResult :=
  usage (2 ≤ argv.length) "Usage: cat file\n" "cat is not implemented yet.\n"

/-- `shell_cmd_mkdir`. -/
def shellCmdMkdir (argv : Argv) : CommandResult :=
  usage (argv.length = 2) "Usage: mkdir directory\n" "mkdir is not implemented yet.\n"

/-- `shell_cmd_rmdir`. -/
def shellCmdRmdir (argv : Argv) : CommandResult :=
  usage (argv.length = 2) "Usage: rmdir directory\n" "rmdir is not implemented yet.\n"

/-- `shell_cmd_touch`. -/
def shellCmdTouch (argv : Argv) : CommandResult :=
  usage (argv.length = 2) "Usage: touch file\n" "touch is not implemented yet.\n"

/-- `shell_cmd_rm`. -/
def shellCmdRm (argv : Argv) : CommandResult :=
  usage (argv.length = 2) "Usage: rm file\n" "rm: Not fully implemented\n"

/-- `shell_cmd_ps`. -/
def shellCmdPs (texts : ShellTexts) (_ : Argv) : CommandResult := ⟨0, texts.ps⟩

/-- `shell_cmd_memory`. -/
def shellCmdMemory (texts : ShellTexts) (_ : Argv) : CommandResult := ⟨0, texts.memory⟩

/-- `test_main`. -/
def testMain (texts : ShellTexts) (_ : Argv) : CommandResult := ⟨0, texts.test⟩

/-- `builtin_commands`. -/
def builtinCommands (texts : ShellTexts) : List (String × (Argv → CommandResult)) :=
  [("help", shellCmdHelp), ("echo", shellCmdEcho), ("ls", shellCmdLs), ("cd", shellCmdCd), ("pwd", shellCmdPwd),
    ("clear", shellCmdClear), ("cat", shellCmdCat), ("mkdir", shellCmdMkdir), ("rmdir", shellCmdRmdir),
    ("touch", shellCmdTouch), ("rm", shellCmdRm), ("ps", shellCmdPs texts), ("memory", shellCmdMemory texts),
    ("test", testMain texts)]

/-! ## Running a line -/

/-- The text that a pointer leads to, with a bound for its length. -/
def textFrom (mem : ℕ → BitVec 8) : ℕ → ℕ → List (BitVec 8)
  | 0, _ => []
  | rounds + 1, p => if mem p = 0 then [] else mem p :: textFrom mem rounds (p + 1)

/-- A command that was run: its name, if there is such a command, the words, and what it did. -/
structure Execution where
  name : Option String
  argv : Argv
  result : CommandResult

/-- The loop of `shell_execute_command`, with a bound for the rounds of `strcmp`. -/
def findCommand {α : Type} (rounds : ℕ) (mem : ℕ → BitVec 8) (word : ℕ) :
    List (String × α) → Option (Option (String × α))
  | [] => some none
  | c :: commands =>
    (StringPair.strcmp ⟨fun k => mem (word + k), literal c.1⟩ rounds).bind fun v =>
      if v = 0 then some (some c) else findCommand rounds mem word commands

/-- What `shell_execute_command` does for the command that was found, or if none was found. -/
def runFound (found : Option (String × (Argv → CommandResult))) (argv : Argv) : Execution :=
  match found with
  | some c => ⟨some c.1, argv, c.2 argv⟩
  | none => ⟨none, argv, ⟨-1, ascii "Command not found: " ++ argv.headD [] ++ ascii "\n"⟩⟩

/-- `shell_execute_command`; it is called with one word at least. -/
def shellExecuteCommand (texts : ShellTexts) (rounds : ℕ) (mem : ℕ → BitVec 8) (argv : List ℕ) :
    Option Execution :=
  (findCommand rounds mem (argv.headD 0) (builtinCommands texts)).map fun found =>
    runFound found (argv.map (textFrom mem rounds))

/-- What `shell_process_command` leaves: the memory and the static pointer of `strtok`, the command that was run,
what was printed, and whether the array of the words is still allocated. -/
structure ProcessedLine where
  strtok : StrtokState
  execution : Option Execution
  out : List (BitVec 8)
  leaks : Bool

/-- `shell_process_command`, with what `malloc` has for the array of the words. -/
def shellProcessCommand (texts : ShellTexts) (rounds : ℕ) (memory : Bool) (line : ℕ) (s : StrtokState) :
    Option ProcessedLine :=
  (shellTokenize rounds memory line s).bind fun r =>
    if r.1 = 0 then some ⟨r.2.2, none, [], r.2.1.isSome⟩
    else
      (shellExecuteCommand texts rounds r.2.2.mem (r.2.1.getD [])).map fun e =>
        ⟨r.2.2, some e, ascii "\n" ++ e.result.out, false⟩

/-! ## What is wanted -/

/-- The command that a line runs: its words are those between blanks, at most 16, and the first one is the name. A
line without words runs none. -/
def executionOf (texts : ShellTexts) (line : List (BitVec 8)) : Option Execution :=
  match (Words.words 32 line).take 16 with
  | [] => none
  | w :: ws => some (runFound ((builtinCommands texts).find? fun c => ascii c.1 = w) (w :: ws))

/-! ## The search in the table -/

section Texts

variable {mem : ℕ → BitVec 8} {p rounds : ℕ} {text : List (BitVec 8)}

/-- A text in memory is read up to its end. -/
lemma textFrom_eq (h : TextAt mem p text) (hrounds : text.length < rounds) : textFrom mem rounds p = text := by
  induction text generalizing p rounds with
  | nil =>
    obtain ⟨rounds, rfl⟩ : ∃ k, rounds = k + 1 := ⟨rounds - 1, by omega⟩
    have hend : mem p = 0 := h
    rw [textFrom, if_pos hend]
  | cons c text ih =>
    obtain ⟨rounds, rfl⟩ : ∃ k, rounds = k + 1 := ⟨rounds - 1, by omega⟩
    obtain ⟨hfirst, hne, hrest⟩ := h
    rw [List.length_cons] at hrounds
    rw [textFrom, hfirst, if_neg hne, ih hrest (by omega)]

/-- A text in memory, seen from a place before it on. -/
lemma textAt_from {q : ℕ} (h : TextAt mem (p + q) text) : TextAt (fun k => mem (p + k)) q text := by
  induction text generalizing q with
  | nil => exact h
  | cons c text ih => exact ⟨h.1, h.2.1, ih h.2.2⟩

/-- The characters of a text without the character 0 are a string. -/
lemma textAt_literal {name : String} (h : 0 ∉ ascii name) : TextAt (literal name) 0 (ascii name) := by
  refine textAt_of_cells (fun a ha => ?_) (fun j hj => ?_) ?_
  · rintro rfl
    exact h ha
  · rw [Nat.zero_add, literal, List.getD_eq_getElem?_getD, List.getElem?_eq_getElem hj, Option.getD_some]
  · rw [Nat.zero_add, literal, List.getD_eq_getElem?_getD, List.getElem?_eq_none (Nat.le_refl _),
      Option.getD_none]

/-- `strcmp` finds two strings equal if their texts are. -/
lemma strcmp_eq_zero_iff {c : StringPair} {text' : List (BitVec 8)} (h₁ : TextAt c.s₁ 0 text)
    (h₂ : TextAt c.s₂ 0 text') (hrounds : text.length < rounds) :
    ∃ v, c.strcmp rounds = some v ∧ (v = 0 ↔ text = text') := by
  set n := max text.length text'.length + 1 with hn
  refine ⟨_, StringPair.strcmpLoop_spec h₁ h₂ hrounds (n := n) (by omega) (by omega), ?_⟩
  simp only [Nat.zero_add]
  have hsign := (signOf_strncmp h₁ h₂ n).zero
  rwa [List.take_of_length_le (by omega), List.take_of_length_le (by omega)] at hsign

/-- **The search in the table** finds the first command whose name the word is. -/
lemma findCommand_spec {α : Type} (h : TextAt mem p text) (hrounds : text.length < rounds)
    {commands : List (String × α)} (hnames : ∀ c ∈ commands, 0 ∉ ascii c.1) :
    findCommand rounds mem p commands = some (commands.find? fun c => ascii c.1 = text) := by
  induction commands with
  | nil => rfl
  | cons c commands ih =>
    have hword : TextAt (fun k => mem (p + k)) 0 text := textAt_from h
    obtain ⟨v, hcall, hzero⟩ := strcmp_eq_zero_iff (c := ⟨fun k => mem (p + k), literal c.1⟩) hword
      (textAt_literal (hnames c List.mem_cons_self)) hrounds
    rw [findCommand, hcall, Option.bind_some]
    split_ifs with hv
    · rw [List.find?_cons_of_pos (by simpa using (hzero.1 hv).symm)]
    · rw [List.find?_cons_of_neg (by simpa using fun heq => hv (hzero.2 heq.symm))]
      exact ih fun d hd => hnames d (List.mem_cons_of_mem c hd)

end Texts

/-! ## A line -/

section Line

variable {mem : ℕ → BitVec 8} {line rounds : ℕ} {text : List (BitVec 8)}

/-- The names of the commands have no terminators. -/
lemma zero_notMem_builtinNames (texts : ShellTexts) : ∀ c ∈ builtinCommands texts, 0 ∉ ascii c.1 := by
  have hnames : ∀ name ∈ builtinNames, 0 ∉ ascii name := by decide
  intro c hc
  exact hnames c.1 (List.mem_map_of_mem hc)

/-- The words that pointers lead to. -/
lemma map_textFrom_eq {low : ℕ} {argv : List ℕ} {ws : Argv} (h : Tokens mem low argv ws)
    (hrounds : ∀ w ∈ ws, w.length < rounds) : argv.map (textFrom mem rounds) = ws := by
  induction h with
  | nil => rfl
  | cons hword htokens ih =>
    rw [List.map_cons, textFrom_eq hword.2 (hrounds _ List.mem_cons_self),
      ih fun w hw => hrounds w (List.mem_cons_of_mem _ hw)]

/-- **A line runs the command that its words name**, and the array of the words stays allocated if there are none.
Without memory for that array, nothing is run. -/
lemma shellProcessCommand_spec (texts : ShellTexts) (h : TextAt mem line text) (last : Option ℕ)
    (hrounds : text.length < rounds) (memory : Bool) :
    ∃ r, shellProcessCommand texts rounds memory line ⟨mem, last, [], []⟩ = some r ∧
      r.execution = (if memory then executionOf texts text else none) ∧
      r.leaks = (memory && (executionOf texts text).isNone) := by
  cases memory with
  | false => exact ⟨⟨⟨mem, last, [], []⟩, none, [], false⟩, rfl, rfl, rfl⟩
  | true =>
    obtain ⟨argv, s, low, htokenize, htokens, -⟩ := tokenize_spec h last 16 hrounds
    have hcut : shellTokenize rounds true line ⟨mem, last, [], []⟩ = some (argv.length, some argv, s) := htokenize
    have hlength : ∀ w ∈ (Words.words 32 text).take 16, w.length < rounds := by
      intro w hw
      exact (Words.length_le_of_mem_words (List.mem_of_mem_take hw)).trans_lt hrounds
    have hargs := map_textFrom_eq htokens hlength
    unfold shellProcessCommand executionOf
    rw [hcut, Option.bind_some]
    dsimp only
    cases argv with
    | nil =>
      rw [← hargs]
      exact ⟨_, rfl, rfl, rfl⟩
    | cons p argv =>
      obtain ⟨w, ws, hword, -, hwords⟩ := List.forall₂_cons_left_iff.1 htokens
      have hw : w.length < rounds := hlength w (by rw [hwords]; exact List.mem_cons_self)
      have hfound := findCommand_spec hword.2 hw (zero_notMem_builtinNames texts)
      rw [if_neg (show ¬ (p :: argv).length = 0 from Nat.succ_ne_zero _)]
      unfold shellExecuteCommand
      rw [Option.getD_some, List.headD_cons, hfound, hargs, Option.map_some, Option.map_some]
      simp only [hwords]
      exact ⟨_, rfl, rfl, rfl⟩

-- the blanks between the words are not printed as they were typed
example : (executionOf ⟨[], [], []⟩ (ascii " echo a   b")).map (·.result.out) = some (ascii "a b\n") := by decide

end Line

end Jarvis
