import JarvisKernel.Installer.SelectDevice
import JarvisKernel.Shell.Commands

set_option relaxedAutoImplicit false
set_option autoImplicit false

/-!
# The commands of the installer

`installer_process_command` and `installer_execute_command` of `src/user/installer/installer.c` with the commands
that are built in. `format` waits for an answer, so it is two definitions: what comes before the answer, and a round of
the loop that waits for it.

The flag that the installation is complete lies in memory behind the 64 bytes of the mount point's name, which
`select-device` fills with `strcpy`. What the VFS does is given.

## Main definitions

* `Jarvis.InstallerKernel` — what the installer uses of the kernel.
* `Jarvis.installerCommands` — the table of commands.
* `Jarvis.installationComplete` — the flag.
* `Jarvis.installerProcessCommand` — a line.
* `Jarvis.InstallerState.Shows` — which device is selected, under which name.
* `Jarvis.InstallerEffect`, `Jarvis.effectOf` — what is wanted of a command.

## Main results

* `Jarvis.Does.run` — what a command does.
* `Jarvis.installerProcessCommand_spec` — a line runs the command that its words name.
-/

namespace Jarvis

/-! ## Data types -/

/-- What the installer uses of the kernel: the block devices, and the VFS with its states `σ`. -/
structure InstallerKernel (P σ : Type) where
  activeBlockDevices : ℕ → P
  numBlockDevices : BitVec 32
  vfsMount : List (BitVec 8) → String → String → σ → σ × ℤ
  vfsMkdir : String → ℕ → σ → σ
  vfsUmount : String → σ → σ

/-- The commands. -/
inductive InstallerCommand
  | help
  | listDevices
  | selectDevice
  | format
  | install
  | reboot
  deriving DecidableEq

/-- `builtin_commands`, with the texts of the help. -/
def installerCommands : List (String × InstallerCommand × String) :=
  [("help", .help, "Show help information"), ("list-devices", .listDevices, "List all available block devices"),
    ("select-device", .selectDevice, "Select target installation device"),
    ("format", .format, "Format selected device to EXT4 format"),
    ("install", .install, "Start system installation"), ("reboot", .reboot, "Reboot system")]

/-- `BUFFER_SIZE`. -/
def bufferSize : ℕ := 1024

/-- `INSTALLER_PROMPT`. -/
def installerPrompt : List (BitVec 8) := ascii "installer> "

/-- `g_installer_state.installation_complete`, behind the 64 bytes of `target_mount_point`. -/
def installationComplete {P : Type} (s : InstallerState P) : ℕ := ByteBuffer.get32 s.targetMountPoint 64

/-- `installer_init`, with what is in memory before. -/
def installerInit (P : Type) (mem : ℕ → BitVec 8) : InstallerState P :=
  ⟨none, ByteBuffer.set32 (Function.update mem 0 0) 64 0⟩

/-- The text that `printf` prints for `%s` with the mount point, and that `vfs_mount` finds. -/
def mountPointText {P : Type} (s : InstallerState P) : List (BitVec 8) :=
  textFrom s.targetMountPoint bufferSize 0

/-- The string of a word. -/
def stringOf (word : List (BitVec 8)) : CString := word.map UInt8.ofBitVec

/-- A command that has returned, or that waits for an answer, with the state it leaves and what it printed. -/
structure InstallerReturn (P σ : Type) where
  value : Option ℤ
  state : InstallerState P
  files : σ
  out : List (BitVec 8)

/-! ## The commands -/

/-- What `printf` prints for `%-15s`. -/
def leftAligned (text : List (BitVec 8)) : List (BitVec 8) := text ++ List.replicate (15 - text.length) 32

/-- `installer_cmd_help`. -/
def installerCmdHelp : CommandResult :=
  ⟨0, ascii "Commands:\n" ++
    installerCommands.flatMap fun c =>
      ascii "  " ++ leftAligned (ascii c.1) ++ ascii " - " ++ ascii c.2.2 ++ ascii "\n"⟩

/-- What `installer_cmd_list_devices` prints. -/
def listDevicesOut (numBlockDevices : BitVec 32) : CommandResult :=
  ⟨0, ascii "Available block devices:\n" ++ ascii "  Device Name\t\tDescription\n" ++
    ascii "  -----------\t\t-----------\n" ++
      (installerCmdListDevices numBlockDevices).zipIdx.flatMap fun d =>
        ascii "  " ++ leftAligned ((d.1.getD []).map UInt8.toBitVec) ++ ascii " IDE hard disk partition " ++
          (sprintfInt (BitVec.ofNat 32 d.2)).map UInt8.toBitVec ++ ascii "\n"⟩

/-- What `installer_cmd_select_device` prints. -/
def selectDeviceOut (numBlockDevices : BitVec 32) : List CString → List (BitVec 8)
  | _ :: name :: _ =>
    if strncmp name.bytes devHda.bytes 8 ≠ 0 then ascii "Invalid device name format, please use /dev/hdaX format\n"
    else if (atoi (name.drop 8)).slt 0 ∨ numBlockDevices ≤ atoi (name.drop 8) then
      ascii "Invalid device index, device does not exist\n"
    else
      ascii "Selected device: " ++ name.map UInt8.toBitVec ++ ascii "\n" ++
        ascii "Next, you can use the 'format' command to format this device as EXT4.\n"
  | _ => ascii "Usage: select-device <device name>\n" ++ ascii "Example: select-device /dev/hda0\n"

/-- What `format` and `install` print if no device is selected. -/
def selectFirst : List (BitVec 8) := ascii "Please first select a device using the 'select-device' command\n"

/-- What `format` asks before an answer. -/
def formatQuestion (name : List (BitVec 8)) : List (BitVec 8) :=
  ascii "Warning: This operation will format device " ++ name ++ ascii ", all data will be erased!\n" ++
    ascii "Are you sure you want to continue? (y/n): "

/-- A round of the loop in `installer_cmd_format`, and the rest of the function if it is the last one. -/
def formatAnswer (name : List (BitVec 8)) (confirm : BitVec 8) : Option CommandResult :=
  if confirm = 121 ∨ confirm = 89 ∨ confirm = 110 ∨ confirm = 78 then
    some (if confirm = 110 ∨ confirm = 78 then ⟨0, [confirm] ++ ascii "\n" ++ ascii "Format operation cancelled\n"⟩
    else
      ⟨0, [confirm] ++ ascii "\n" ++ ascii "Formatting device " ++ name ++ ascii " as EXT4...\n" ++ ascii "....." ++
        ascii "\nDevice formatting completed!\n" ++
        ascii "Now you can use the 'install' command to start installing the system.\n"⟩)
  else none

/-- What `install` prints before the device is mounted. -/
def installStart (name : List (BitVec 8)) : List (BitVec 8) :=
  ascii "Starting installation of Jarvis OS to device " ++ name ++ ascii "...\n" ++
    ascii "Step 1: Mounting target device...\n"

/-- What `install` prints after that. -/
def installRest : List (BitVec 8) :=
  ascii "Step 2: Creating file system structure...\n" ++ ascii "Step 3: Copying kernel files...\n" ++
    ascii "Copying kernel.bin to /target/boot/...\n" ++ ascii "Step 4: Installing GRUB bootloader...\n" ++
    ascii "Creating GRUB configuration file...\n" ++ ascii "Step 5: Completing installation...\n" ++
    ascii "\nJarvis OS installation successful!\n" ++
    ascii "You can use the 'reboot' command to restart the system and then boot from the newly installed " ++
    ascii "system on the hard drive.\n"

/-- The directories that `install` makes. -/
def installDirectories : List String :=
  ["/target/boot", "/target/dev", "/target/etc", "/target/home", "/target/lib", "/target/proc", "/target/sys",
    "/target/usr", "/target/var"]

/-- `installer_cmd_reboot`. -/
def installerCmdReboot : CommandResult :=
  ⟨0, ascii "System will reboot in 5 seconds...\n" ++ ascii "5...\n" ++ ascii "4...\n" ++ ascii "3...\n" ++
    ascii "2...\n" ++ ascii "1...\n" ++ ascii "Rebooting system...\n"⟩

section Commands

variable {P σ : Type} (k : InstallerKernel P σ)

/-- A command that only prints. -/
def printsOnly (r : CommandResult) (s : InstallerState P) (files : σ) : InstallerReturn P σ :=
  ⟨some r.value, s, files, r.out⟩

/-- `installer_cmd_format`, up to the loop that waits for an answer. -/
def installerCmdFormat (s : InstallerState P) (files : σ) : InstallerReturn P σ :=
  if s.targetDevice.isNone then ⟨some (-1), s, files, selectFirst⟩
  else ⟨none, s, files, formatQuestion (mountPointText s)⟩

/-- `installer_cmd_install`. -/
def installerCmdInstall (s : InstallerState P) (files : σ) : InstallerReturn P σ :=
  if s.targetDevice.isNone then ⟨some (-1), s, files, selectFirst⟩
  else
    let start := installStart (mountPointText s)
    match k.vfsMount (mountPointText s) "/target" "ext4" files with
    | (files, mounted) =>
      if mounted ≠ 0 then ⟨some (-1), s, files, start ++ ascii "Failed to mount target device!\n"⟩
      else
        let files := installDirectories.foldl (fun files path => k.vfsMkdir path 0 files) files
        ⟨some 0, { s with targetMountPoint := ByteBuffer.set32 s.targetMountPoint 64 1 }, k.vfsUmount "/target" files,
          start ++ installRest⟩

/-- A call of a handler with the words of a line. -/
def InstallerCommand.run (c : InstallerCommand) (argv : Argv) (s : InstallerState P) (files : σ) :
    InstallerReturn P σ :=
  match c with
  | .help => printsOnly installerCmdHelp s files
  | .listDevices => printsOnly (listDevicesOut k.numBlockDevices) s files
  | .selectDevice =>
    let names := argv.map stringOf
    match installerCmdSelectDevice k.activeBlockDevices k.numBlockDevices names s with
    | (value, s, _) => ⟨some value, s, files, selectDeviceOut k.numBlockDevices names⟩
  | .format => installerCmdFormat s files
  | .install => installerCmdInstall k s files
  | .reboot => printsOnly installerCmdReboot s files

/-- What `installer_execute_command` does for the command that was found, or if none was found. -/
def runInstaller (found : Option InstallerCommand) (argv : Argv) (s : InstallerState P) (files : σ) :
    InstallerReturn P σ :=
  match found with
  | some c => c.run k argv s files
  | none => printsOnly ⟨-1, ascii "Command not found: " ++ argv.headD [] ++ ascii "\n"⟩ s files

/-- `installer_execute_command`; it is called with one word at least. -/
def installerExecuteCommand (mem : ℕ → BitVec 8) (argv : List ℕ) (s : InstallerState P) (files : σ) :
    Option (InstallerReturn P σ) :=
  (findCommand bufferSize mem (argv.headD 0) installerCommands).map fun found =>
    runInstaller k (found.map fun c => c.2.1) (argv.map (textFrom mem bufferSize)) s files

/-- What `installer_process_command` leaves: the memory and the static pointer of `strtok`, what the command did if
one was run, and whether the array of the words stays allocated. -/
structure InstallerLine (P σ : Type) where
  strtok : StrtokState
  ran : Option (InstallerReturn P σ)
  leaks : Bool

/-- `installer_process_command`, with what `malloc` has for the array of the words. -/
def installerProcessCommand (memory : Bool) (line : ℕ) (t : StrtokState) (s : InstallerState P) (files : σ) :
    Option (InstallerLine P σ) :=
  (installerTokenize bufferSize memory line t).bind fun r =>
    if r.1 = 0 then some ⟨r.2.2, none, r.2.1.isSome⟩
    else
      (installerExecuteCommand k r.2.2.mem (r.2.1.getD []) s files).map fun e => ⟨r.2.2, some e, false⟩

end Commands

/-! ## What is wanted -/

/-- What the installer waits for: a line, or an answer, at its start or to the command `format`. -/
inductive InstallerMode
  | prompt
  | confirm (automatic : Bool)
  | ended
  deriving DecidableEq

/-- The device that is selected, with its name, if one is, is what the state says, and the installation is not
complete. -/
structure InstallerState.Shows {P : Type} (s : InstallerState P) (selected : Option (P × List (BitVec 8))) : Prop where
  device : s.targetDevice = selected.map Prod.fst
  name : ∀ d ∈ selected, TextAt s.targetMountPoint 0 d.2 ∧ d.2.length ≤ 64
  running : installationComplete s = 0

/-- What a command does: the device that is selected then, the file systems, what is printed, and what the installer
waits for then. -/
structure InstallerEffect (P σ : Type) where
  selected : Option (P × List (BitVec 8))
  files : σ
  out : List (BitVec 8)
  next : InstallerMode

section Effect

variable {P σ : Type} (k : InstallerKernel P σ)

/-- A name that `select-device` accepts. -/
def InstallerKernel.Accepts (name : List (BitVec 8)) : Prop :=
  devHda <+: stringOf name ∧ 0 ≤ deviceNumber (stringOf name) ∧
    deviceNumber (stringOf name) < k.numBlockDevices.toNat

instance : DecidablePred k.Accepts := fun _ => inferInstanceAs (Decidable (_ ∧ _ ∧ _))

/-- What is wanted of a command with the words of a line. A name of more than 64 characters ends the installer, as it
overwrites the flag that the installation is complete. -/
def effectOf (found : Option InstallerCommand) (argv : Argv) (selected : Option (P × List (BitVec 8))) (files : σ) :
    InstallerEffect P σ :=
  match found, selected, argv with
  | none, _, _ => ⟨selected, files, ascii "Command not found: " ++ argv.headD [] ++ ascii "\n", .prompt⟩
  | some .help, _, _ => ⟨selected, files, installerCmdHelp.out, .prompt⟩
  | some .listDevices, _, _ => ⟨selected, files, (listDevicesOut k.numBlockDevices).out, .prompt⟩
  | some .reboot, _, _ => ⟨selected, files, installerCmdReboot.out, .prompt⟩
  | some .selectDevice, _, _ :: name :: _ =>
    let out := selectDeviceOut k.numBlockDevices (argv.map stringOf)
    if k.Accepts name then
      ⟨some (k.activeBlockDevices (deviceNumber (stringOf name)).toNat, name), files, out,
        if name.length ≤ 64 then .prompt else .ended⟩
    else ⟨selected, files, out, .prompt⟩
  | some .selectDevice, _, _ =>
    ⟨selected, files, selectDeviceOut k.numBlockDevices (argv.map stringOf), .prompt⟩
  | some .format, none, _ => ⟨none, files, selectFirst, .prompt⟩
  | some .format, some d, _ => ⟨some d, files, formatQuestion d.2, .confirm false⟩
  | some .install, none, _ => ⟨none, files, selectFirst, .prompt⟩
  | some .install, some d, _ =>
    match k.vfsMount d.2 "/target" "ext4" files with
    | (files, mounted) =>
      if mounted ≠ 0 then
        ⟨some d, files, installStart d.2 ++ ascii "Failed to mount target device!\n", .prompt⟩
      else
        ⟨some d, k.vfsUmount "/target" (installDirectories.foldl (fun files path => k.vfsMkdir path 0 files) files),
          installStart d.2 ++ installRest, .ended⟩

/-- The command has the wanted effect, with the flag set if and only if the installer is to end. It waits for an answer
only if a device is selected. -/
structure Does (r : InstallerReturn P σ) (e : InstallerEffect P σ) : Prop where
  files : r.files = e.files
  out : r.out = e.out
  waits : r.value = none ↔ e.next = .confirm false
  next : e.next ≠ .confirm true
  asks : e.next = .confirm false → e.selected ≠ none
  complete : installationComplete r.state ≠ 0 ↔ e.next = .ended
  shows : e.next ≠ .ended → r.state.Shows e.selected

end Effect

/-! ## The memory of the state -/

section Memory

variable {P σ : Type} {s : InstallerState P} {selected : Option (P × List (BitVec 8))} {mem : ℕ → BitVec 8}
  {text : List (BitVec 8)} {p : ℕ}

/-- The characters of a text are not 0. -/
lemma TextAt.ne_zero (h : TextAt mem p text) : ∀ a ∈ text, a ≠ 0 := by
  induction text generalizing p with
  | nil => exact fun a ha => absurd ha List.not_mem_nil
  | cons c text ih =>
    obtain ⟨-, hne, hrest⟩ := h
    rintro a (_ | ⟨_, ha⟩)
    · exact hne
    · exact ih hrest a ha

/-- The bytes of the word's string are the word. -/
lemma map_stringOf (word : List (BitVec 8)) : (stringOf word).map UInt8.toBitVec = word := by
  rw [stringOf, List.map_map]
  exact List.map_id word

/-- The string is as long as the word. -/
lemma length_stringOf (word : List (BitVec 8)) : (stringOf word).length = word.length := List.length_map _

/-- The flag is the four bytes behind the name. -/
lemma installationComplete_eq_zero_iff :
    installationComplete s = 0 ↔ ∀ j < 4, s.targetMountPoint (64 + j) = 0 := by
  have hbyte : ∀ b : BitVec 8, b = 0 ↔ b.toNat = 0 := fun b => by
    rw [← BitVec.toNat_inj]
    rfl
  simp only [hbyte, installationComplete, ByteBuffer.get32, ByteBuffer.get16]
  constructor
  · intro h j hj
    obtain rfl | rfl | rfl | rfl : j = 0 ∨ j = 1 ∨ j = 2 ∨ j = 3 := by omega
    all_goals simp only [Nat.add_assoc, Nat.reduceAdd] at h ⊢; omega
  · intro h
    have h₀ := h 0 (by omega)
    have h₁ := h 1 (by omega)
    have h₂ := h 2 (by omega)
    have h₃ := h 3 (by omega)
    simp only [Nat.add_assoc, Nat.reduceAdd] at *
    omega

/-- No device is selected at the start. -/
lemma shows_installerInit (P : Type) (mem : ℕ → BitVec 8) : (installerInit P mem).Shows none where
  device := rfl
  name d hd := absurd hd (by simp)
  running := by
    rw [installationComplete, installerInit]
    exact ByteBuffer.get32_set32

/-- The name of the device that is selected. -/
lemma InstallerState.Shows.mountPointText {d : P × List (BitVec 8)} (h : s.Shows (some d)) :
    mountPointText s = d.2 := by
  obtain ⟨htext, hlength⟩ := h.name d rfl
  exact textFrom_eq htext (by rw [bufferSize]; omega)

end Memory

/-! ## What the commands do -/

section Runs

variable {P σ : Type} {k : InstallerKernel P σ} {s : InstallerState P} {selected : Option (P × List (BitVec 8))}
  {argv : Argv} {files : σ}

/-- Selecting a device under a name: its end is the last character that has room. -/
lemma does_selected (hrunning : installationComplete s = 0) {name : List (BitVec 8)} (hname : ∀ a ∈ name, a ≠ 0)
    (device : P) (out : List (BitVec 8)) :
    Does ⟨some 0, ⟨some device, ByteBuffer.copy s.targetMountPoint 0 (stringOf name).bytes
        ((stringOf name).length + 1)⟩, files, out⟩
      ⟨some (device, name), files, out, if name.length ≤ 64 then .prompt else .ended⟩ := by
  set mem := ByteBuffer.copy s.targetMountPoint 0 (stringOf name).bytes ((stringOf name).length + 1) with hmem
  have hcopied : ∀ j ≤ name.length, mem j = (stringOf name).bytes j := by
    intro j hj
    rw [hmem, ByteBuffer.copy, if_pos (by rw [length_stringOf]; omega)]
    rfl
  have hkept : ∀ j, name.length < j → mem j = s.targetMountPoint j := by
    intro j hj
    rw [hmem, ByteBuffer.copy, if_neg (by rw [length_stringOf]; omega)]
  have hzero : 0 ∉ stringOf name := by
    intro hin
    obtain ⟨a, ha, heq⟩ := List.mem_map.1 hin
    exact hname a ha (congrArg UInt8.toBitVec heq)
  have htext : TextAt mem 0 name := by
    have hbytes : TextAt mem 0 ((stringOf name).map UInt8.toBitVec) := by
      refine textAt_of_bytes hzero fun j hj => ?_
      rw [Nat.zero_add]
      exact hcopied j (by rwa [length_stringOf] at hj)
    rwa [map_stringOf] at hbytes
  have hflag : (∀ j < 4, mem (64 + j) = 0) ↔ name.length ≤ 64 := by
    constructor
    · intro hnew
      by_contra hlong
      -- the first byte of the flag is a character of the name
      have hchar : mem 64 = 0 := hnew 0 (by omega)
      rw [hcopied 64 (by omega), CString.bytes_of_lt (by rw [length_stringOf]; omega)] at hchar
      refine hname _ (List.getElem_mem (show 64 < name.length by omega)) ?_
      simpa [stringOf] using hchar
    · intro hshort j hj
      by_cases hend : name.length = 64 + j
      · rw [← hend, hcopied _ (Nat.le_refl _), ← length_stringOf]
        exact CString.bytes_length _
      · rw [hkept _ (by omega)]
        exact installationComplete_eq_zero_iff.1 hrunning j hj
  rw [← installationComplete_eq_zero_iff (s := ⟨some device, mem⟩)] at hflag
  have hended : (if name.length ≤ 64 then InstallerMode.prompt else .ended) = .ended ↔ ¬ name.length ≤ 64 := by
    split_ifs with hshort
    · simp [hshort]
    · simp [hshort]
  refine ⟨rfl, rfl, ?_, ?_, fun _ => by simp, (not_congr hflag).trans hended.symm, fun hnext => ?_⟩
  · refine iff_of_false (by simp) ?_
    split_ifs <;> simp
  · split_ifs <;> simp
  · have hshort : name.length ≤ 64 := not_not.1 fun hlong => hnext (hended.2 hlong)
    refine ⟨rfl, ?_, hflag.2 hshort⟩
    rintro d ⟨⟩
    exact ⟨htext, hshort⟩

/-- A command that only prints. -/
lemma does_prints (h : s.Shows selected) (value : ℤ) (out : List (BitVec 8)) :
    Does ⟨some value, s, files, out⟩ ⟨selected, files, out, .prompt⟩ where
  files := rfl
  out := rfl
  waits := by simp
  next := by simp
  asks hnot := absurd hnot (by simp)
  complete := iff_of_false (not_not.2 h.running) (by simp)
  shows _ := h

/-- Installing on the device that is selected. -/
lemma does_install {d : P × List (BitVec 8)} (h : s.Shows (some d)) (argv : Argv) (files : σ) :
    Does (installerCmdInstall k s files) (effectOf k (some .install) argv (some d) files) := by
  have hdevice : s.targetDevice.isNone = false := by rw [h.device]; rfl
  rw [installerCmdInstall, hdevice, if_neg (by simp), h.mountPointText, effectOf]
  rcases k.vfsMount d.2 "/target" "ext4" files with ⟨files', mounted⟩
  dsimp only
  split_ifs with hmounted
  · exact does_prints h _ _
  · refine ⟨rfl, rfl, by simp, by simp, fun _ => by simp, iff_of_true ?_ rfl, fun hnext => absurd rfl hnext⟩
    rw [installationComplete, ByteBuffer.get32_set32]
    decide

/-- **What a command does.** -/
lemma Does.run (h : s.Shows selected) (found : Option InstallerCommand) (hargv : ∀ w ∈ argv, ∀ a ∈ w, a ≠ 0)
    (files : σ) : Does (runInstaller k found argv s files) (effectOf k found argv selected files) := by
  cases found with
  | none => exact does_prints h _ _
  | some c =>
    cases c with
    | help => exact does_prints h _ _
    | listDevices => exact does_prints h _ _
    | reboot => exact does_prints h _ _
    | format =>
      show Does (installerCmdFormat s files) _
      have hdevice := h.device
      cases selected with
      | none =>
        rw [installerCmdFormat, if_pos (by rw [hdevice]; rfl)]
        exact does_prints h _ _
      | some d =>
        rw [installerCmdFormat, if_neg (by rw [hdevice]; simp), h.mountPointText]
        exact ⟨rfl, rfl, by simp [effectOf], by simp [effectOf], fun _ => by simp [effectOf],
          iff_of_false (not_not.2 h.running) (by simp [effectOf]), fun _ => h⟩
    | install =>
      show Does (installerCmdInstall k s files) _
      have hdevice := h.device
      cases selected with
      | none =>
        rw [installerCmdInstall, if_pos (by rw [hdevice]; rfl)]
        exact does_prints h _ _
      | some d => exact does_install h argv files
    | selectDevice =>
      rw [runInstaller, InstallerCommand.run]
      dsimp only
      rcases argv with _ | ⟨w, _ | ⟨name, argv⟩⟩
      · exact does_prints h _ _
      · exact does_prints h _ _
      · rw [List.map_cons, List.map_cons, installerCmdSelectDevice_eq, effectOf]
        by_cases haccepts : k.Accepts name
        · rw [if_pos haccepts, if_pos (show _ ∧ _ ∧ _ from haccepts)]
          exact does_selected h.running (hargv name (by simp)) _ _
        · rw [if_neg haccepts, if_neg (show ¬ (_ ∧ _ ∧ _) from haccepts)]
          exact does_prints h _ _

end Runs

/-! ## A line -/

section Line

variable {P σ : Type} {k : InstallerKernel P σ} {mem : ℕ → BitVec 8} {line : ℕ} {text : List (BitVec 8)}

/-- The commands have no terminators. -/
lemma zero_notMem_installerCommands : ∀ c ∈ installerCommands, 0 ∉ ascii c.1 := by decide

/-- The command that the words of a line name, if there is one. -/
def commandOf (word : List (BitVec 8)) : Option InstallerCommand :=
  (installerCommands.find? fun c => ascii c.1 = word).map fun c => c.2.1

/-- What is wanted of a line. A line without words has no effect. -/
def lineEffect (k : InstallerKernel P σ) (text : List (BitVec 8)) (selected : Option (P × List (BitVec 8)))
    (files : σ) : Option (InstallerEffect P σ) :=
  match (Words.words 32 text).take 16 with
  | [] => none
  | w :: ws => some (effectOf k (commandOf w) (w :: ws) selected files)

/-- **A line runs the command that its words name**, and the array of the words stays allocated if there are none.
Without memory for that array, nothing is run. -/
lemma installerProcessCommand_spec (h : TextAt mem line text) (last : Option ℕ) (hlength : text.length < bufferSize)
    (memory : Bool) {s : InstallerState P} {selected : Option (P × List (BitVec 8))} (hs : s.Shows selected)
    (files : σ) :
    ∃ r, installerProcessCommand k memory line ⟨mem, last, [], []⟩ s files = some r ∧
      Option.Rel Does r.ran (if memory then lineEffect k text selected files else none) ∧
      r.leaks = (memory && (lineEffect k text selected files).isNone) := by
  cases memory with
  | false => exact ⟨⟨⟨mem, last, [], []⟩, none, false⟩, rfl, .none, rfl⟩
  | true =>
    obtain ⟨argv, s', low, htokenize, htokens, -⟩ := tokenize_spec h last 16 hlength
    have hcut : installerTokenize bufferSize true line ⟨mem, last, [], []⟩ = some (argv.length, some argv, s') :=
      htokenize
    have hshort : ∀ w ∈ (Words.words 32 text).take 16, w.length < bufferSize := by
      intro w hw
      exact (Words.length_le_of_mem_words (List.mem_of_mem_take hw)).trans_lt hlength
    have hargs := map_textFrom_eq htokens hshort
    have hne : ∀ w ∈ (Words.words 32 text).take 16, ∀ a ∈ w, a ≠ 0 := by
      intro w hw
      obtain ⟨i, hi, rfl⟩ := List.getElem_of_mem hw
      have hword := (List.forall₂_iff_get.1 htokens).2 i (by rw [htokens.length_eq]; exact hi) hi
      exact hword.2.ne_zero
    unfold installerProcessCommand lineEffect
    rw [hcut, Option.bind_some]
    dsimp only
    cases argv with
    | nil =>
      rw [← hargs]
      exact ⟨_, rfl, .none, rfl⟩
    | cons p argv =>
      obtain ⟨w, ws, hword, -, hwords⟩ := List.forall₂_cons_left_iff.1 htokens
      have hw : w.length < bufferSize := hshort w (by rw [hwords]; exact List.mem_cons_self)
      have hfound := findCommand_spec hword.2 hw zero_notMem_installerCommands
      rw [if_neg (show ¬ (p :: argv).length = 0 from Nat.succ_ne_zero _)]
      unfold installerExecuteCommand
      rw [Option.getD_some, List.headD_cons, hfound, hargs, Option.map_some, Option.map_some]
      rw [hwords] at hne
      simp only [hwords, if_true]
      exact ⟨_, rfl, .some (Does.run hs _ hne files), rfl⟩

end Line

end Jarvis
