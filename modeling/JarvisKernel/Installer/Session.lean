import JarvisKernel.Driver.Keyboard
import JarvisKernel.Installer.Dialogue
import JarvisKernel.Lib.Run

set_option relaxedAutoImplicit false
set_option autoImplicit false

/-!
# A session of the installer

`installer_main` and `installer_run` of `src/user/installer/installer.c` with the keyboard. The installer first selects
`/dev/hda0` and asks whether to format it, and then reads lines and processes them until its flag says that the
installation is complete. It asks `keyboard_getchar` for a character again and again, for a line or for an answer, and
between any two of these rounds there may be keyboard interrupts.

## Main definitions

* `Jarvis.Installer` — the installer with the keyboard.
* `Jarvis.Installer.poll`, `Jarvis.Installer.step` — a round of a loop, and the steps of a session.
* `Jarvis.Installer.Follows` — the installer is where the dialogue is.

## Main results

* `Jarvis.Installer.follows_of_run` — the installer follows the dialogue.
* `Jarvis.Installer.complete_iff_of_run` — when it says that the installation is complete.
-/

namespace Jarvis

open LineEdit

/-! ## The installer -/

/-- The installer: the keyboard, the buffer of the line, the static pointer of `strtok`, the global state, the file
systems, what it waits for, what it has printed, and the number of arrays of words that were not freed. -/
structure Installer (P σ : Type) where
  keyboard : Keyboard
  reader : LineReader
  strtokLast : Option ℕ
  state : InstallerState P
  files : σ
  mode : InstallerMode
  out : List (BitVec 8)
  leaked : ℕ

/-- A step: a keyboard interrupt with its scancode, or a round of the loop that asks for a character, and the memory
that `malloc` has if the round ends a line. -/
inductive InstallerOp where
  | interrupt (scancode : BitVec 8)
  | poll (memory : Bool)

namespace Installer

variable {P σ : Type} (k : InstallerKernel P σ)

/-- The start of the loop of `installer_run`. -/
def ready (s : Installer P σ) : Installer P σ :=
  { s with mode := .prompt, out := s.out ++ installerReady ++ installerPrompt }

/-- The end of a round of the loop of `installer_run`, and the prompt of the next one. -/
def endRound (s : Installer P σ) : Installer P σ :=
  if installationComplete s.state ≠ 0 then { s with mode := .ended, out := s.out ++ installerCompleted }
  else { s with mode := .prompt, out := s.out ++ installerPrompt }

/-- The installer when it asks for its first character. What is in its buffer, in the static pointer and in the state
is left over from before. -/
def start (keyboardBuffer buffer : ℕ → BitVec 8) (strtokLast : Option ℕ) (mem : ℕ → BitVec 8) (files : σ) :
    Installer P σ :=
  let selected := InstallerCommand.selectDevice.run k selectArgs (installerInit P mem) files
  let asked := installerCmdFormat selected.state selected.files
  let s : Installer P σ :=
    { keyboard := .start keyboardBuffer
      reader := ⟨buffer, 0⟩
      strtokLast := strtokLast
      state := asked.state
      files := asked.files
      mode := .confirm true
      out := installerWelcome ++ selected.out ++ installerFormatting ++ asked.out
      leaked := 0 }
  if asked.value.isNone then s else s.ready

/-- A line that was read is processed. -/
def process (memory : Bool) (s : Installer P σ) : Option (Installer P σ) :=
  (installerProcessCommand k memory 0 ⟨s.reader.buffer, s.strtokLast, [], []⟩ s.state s.files).map fun r =>
    let s := { s with reader := ⟨r.strtok.mem, 0⟩, strtokLast := r.strtok.last, leaked := s.leaked + r.leaks.toNat }
    match r.ran with
    | none => s.endRound
    | some e =>
      let s := { s with state := e.state, files := e.files, out := s.out ++ e.out }
      if e.value.isNone then { s with mode := .confirm false } else s.endRound

/-- A round of a loop that asks for a character, and what follows if it is the last one of the loop. -/
def poll (memory : Bool) (s : Installer P σ) : Option (Installer P σ) :=
  let c := s.keyboard.driver.keyboardGetchar.2
  let keyboard := s.keyboard.step .getchar
  match s.mode with
  | .ended => some s
  | .confirm automatic =>
    match formatAnswer (mountPointText s.state) c with
    | none => some { s with keyboard := keyboard }
    | some r =>
      let s := { s with keyboard := keyboard, out := s.out ++ r.out }
      some (if automatic then s.ready else s.endRound)
  | .prompt =>
    let round := s.reader.readRound bufferSize c
    let s := { s with keyboard := keyboard, reader := round.reader, out := s.out ++ round.echo }
    match round.returned with
    | none => some s
    | some _ => s.process k memory

/-- A step of a session. -/
def step (s : Installer P σ) : InstallerOp → Option (Installer P σ)
  | .interrupt scancode => some { s with keyboard := s.keyboard.step (.interrupt scancode) }
  | .poll memory => s.poll k memory

end Installer

/-! ## Following the dialogue -/

namespace Installer

variable {P σ : Type} {k : InstallerKernel P σ} {s : Installer P σ} {d : Dialogue P σ} {memory : Bool}

/-- The installer is where the dialogue is: its buffer holds the line, its state shows the device that is selected, and
its flag is set if and only if it has ended. -/
structure Follows (s : Installer P σ) (d : Dialogue P σ) : Prop where
  mode : s.mode = d.mode
  files : s.files = d.files
  out : s.out = d.out
  leaked : s.leaked = d.leaked
  holds : s.reader.Holds d.line
  room : d.line.length < bufferSize - 1
  nonzero : ∀ a ∈ d.line, a ≠ 0
  complete : installationComplete s.state ≠ 0 ↔ s.mode = .ended
  shows : s.mode ≠ .ended → s.state.Shows d.selected
  asks : ∀ automatic, s.mode = .confirm automatic → d.selected ≠ none

/-- The installer and the dialogue when no line is being typed. -/
lemma follows_of_nil (hmode : s.mode = d.mode) (hfiles : s.files = d.files) (hout : s.out = d.out)
    (hleaked : s.leaked = d.leaked) (hreader : s.reader.i = 0) (hnil : d.line = [])
    (hcomplete : installationComplete s.state ≠ 0 ↔ d.mode = .ended)
    (hshows : d.mode ≠ .ended → s.state.Shows d.selected)
    (hasks : ∀ automatic, d.mode = .confirm automatic → d.selected ≠ none) : s.Follows d where
  mode := hmode
  files := hfiles
  out := hout
  leaked := hleaked
  holds := by
    rw [hnil]
    exact ⟨hreader, fun _ hj => absurd hj (Nat.not_lt_zero _)⟩
  room := by
    rw [hnil, bufferSize]
    exact Nat.zero_lt_succ _
  nonzero := by simp [hnil]
  complete := by rwa [hmode]
  shows := by rwa [hmode]
  asks := by rwa [hmode]

/-- The state at the start. -/
lemma follows_start (k : InstallerKernel P σ) (keyboardBuffer buffer : ℕ → BitVec 8) (strtokLast : Option ℕ)
    (mem : ℕ → BitVec 8) (files : σ) :
    (start k keyboardBuffer buffer strtokLast mem files).Follows (Dialogue.start k files) := by
  have hname : stringOf (ascii "/dev/hda0") = deviceName 0 := by decide
  have hnumber : deviceNumber (stringOf (ascii "/dev/hda0")) = 0 := hname ▸ deviceNumber_of_lt (by omega)
  have haccepts : k.Accepts (ascii "/dev/hda0") ↔ 0 < k.numBlockDevices.toNat := by
    unfold InstallerKernel.Accepts
    rw [hnumber, hname]
    simp [devHda_prefix_deviceName]
  have hargs : ∀ w ∈ selectArgs, ∀ a ∈ w, a ≠ 0 := by decide
  have hselect := Does.run (k := k) (shows_installerInit P mem) (some .selectDevice) hargs files
  have heffect : effectOf k (some .selectDevice) selectArgs none files =
      ⟨if 0 < k.numBlockDevices.toNat then some (k.activeBlockDevices 0, ascii "/dev/hda0") else none, files,
        selectDeviceOut k.numBlockDevices (selectArgs.map stringOf), .prompt⟩ := by
    unfold effectOf selectArgs
    dsimp only
    simp only [haccepts, hnumber]
    split_ifs with hpos hlong
    · rfl
    · exact absurd (by decide) hlong
    · rfl
  rw [heffect] at hselect
  unfold start
  dsimp only
  rw [show InstallerCommand.selectDevice.run k selectArgs (installerInit P mem) files =
    runInstaller k (some .selectDevice) selectArgs (installerInit P mem) files from rfl]
  generalize runInstaller k (some .selectDevice) selectArgs (installerInit P mem) files = selected at hselect ⊢
  obtain ⟨hfiles, hout, -, -, -, -, hshows⟩ := hselect
  replace hshows := hshows (by simp)
  have hdevice := hshows.device
  dsimp only at hfiles hout hshows hdevice
  unfold Dialogue.start
  by_cases hpos : 0 < k.numBlockDevices.toNat
  · rw [if_pos hpos] at hshows hdevice
    have hasked : installerCmdFormat selected.state selected.files =
        ⟨none, selected.state, files, formatQuestion (ascii "/dev/hda0")⟩ := by
      rw [installerCmdFormat, hdevice, if_neg (by simp), hshows.mountPointText, hfiles]
    rw [hasked]
    simp only [Option.isNone_none, if_true, if_pos hpos, hout]
    exact follows_of_nil rfl rfl rfl rfl rfl rfl (iff_of_false (not_not.2 hshows.running) (by simp))
      (fun _ => hshows) fun _ _ => by simp
  · rw [if_neg hpos] at hshows hdevice
    have hasked : installerCmdFormat selected.state selected.files =
        ⟨some (-1), selected.state, files, selectFirst⟩ := by
      rw [installerCmdFormat, if_pos (by rw [hdevice]; rfl), hfiles]
    rw [hasked]
    simp only [Option.isNone_some, Bool.false_eq_true, if_false, if_neg hpos, hout]
    exact follows_of_nil rfl rfl rfl rfl rfl rfl (iff_of_false (not_not.2 hshows.running) (by simp))
      (fun _ => hshows) fun _ hnot => absurd hnot (by simp)

/-- A round of the loop of `installer_run` that leaves the flag clear. -/
lemma endRound_of_running (h : installationComplete s.state = 0) :
    s.endRound = { s with mode := .prompt, out := s.out ++ installerPrompt } := if_neg (not_not.2 h)

/-- A round that completes the installation ends the program. -/
lemma endRound_of_complete (h : installationComplete s.state ≠ 0) :
    s.endRound = { s with mode := .ended, out := s.out ++ installerCompleted } := if_pos h

/-- A line that was read is processed as it is wanted. -/
lemma process_spec (hprompt : d.mode = .prompt) (hfiles : s.files = d.files) (hout : s.out = d.out)
    (hleaked : s.leaked = d.leaked) (hnil : d.line = []) (hshows : s.state.Shows d.selected)
    {line : List (BitVec 8)} (htext : TextAt s.reader.buffer 0 line) (hlength : line.length < bufferSize)
    (memory : Bool) :
    ∃ s', s.process k memory = some s' ∧ s'.keyboard = s.keyboard ∧ s'.Follows (d.enter k line memory) := by
  obtain ⟨⟨strtok, ran, leaks⟩, hcall, hran, hleaks⟩ := installerProcessCommand_spec (k := k) htext s.strtokLast
    hlength memory hshows d.files
  unfold Installer.process Dialogue.enter
  dsimp only at hran hleaks
  rw [hfiles, hcall, Option.map_some]
  have hcount : leaks.toNat =
      if (if memory then lineEffect k line d.selected d.files else none) = none then memory.toNat else 0 := by
    rw [hleaks]
    cases memory with
    | false => rfl
    | true =>
      simp only [if_true, Bool.true_and]
      cases lineEffect k line d.selected d.files <;> simp
  generalize (if memory then lineEffect k line d.selected d.files else none) = wanted at hran hcount ⊢
  cases hran with
  | none =>
    dsimp only
    rw [endRound_of_running, hcount, if_pos rfl]
    swap
    · exact hshows.running
    exact ⟨_, rfl, rfl, follows_of_nil hprompt.symm rfl (congrArg (· ++ _) hout) (congrArg (· + _) hleaked) rfl hnil
      (iff_of_false (not_not.2 hshows.running) (by simp [hprompt])) (fun _ => hshows)
      fun _ hnot => absurd (hprompt.symm.trans hnot) (by simp)⟩
  | @some e wanted hdoes =>
    rw [if_neg (by simp)] at hcount
    obtain ⟨hfiles', hout', hwaits, hnext, hasks, hcomplete, hshows'⟩ := hdoes
    have hsum : s.out ++ e.out = d.out ++ wanted.out := by rw [hout, hout']
    have hisNone : e.value.isNone = true ↔ wanted.next = .confirm false := by rw [Option.isNone_iff_eq_none, hwaits]
    dsimp only
    rw [hcount]
    cases hmode : wanted.next with
    | prompt =>
      rw [hmode] at hisNone hcomplete hshows'
      have hrunning : installationComplete e.state = 0 := not_not.1 fun hnot => absurd (hcomplete.1 hnot) (by simp)
      rw [if_neg (fun hnot => absurd (hisNone.1 hnot) (by simp)), endRound_of_running]
      swap
      · exact hrunning
      exact ⟨_, rfl, rfl, follows_of_nil rfl hfiles' (congrArg (· ++ _) hsum) hleaked rfl hnil
        (iff_of_false (not_not.2 hrunning) (by simp)) (fun _ => hshows' (by simp)) fun _ hnot => absurd hnot (by simp)⟩
    | confirm automatic =>
      cases automatic with
      | true => exact absurd hmode hnext
      | false =>
        rw [hmode] at hisNone hcomplete hshows' hasks
        rw [if_pos (hisNone.2 rfl)]
        refine ⟨_, rfl, rfl, follows_of_nil rfl hfiles' ?_ hleaked rfl hnil hcomplete hshows' fun _ _ => hasks rfl⟩
        rw [Dialogue.afterCommand, List.append_nil]
        exact hsum
    | ended =>
      rw [hmode] at hisNone hcomplete hshows'
      rw [if_neg (fun hnot => absurd (hisNone.1 hnot) (by simp)), endRound_of_complete]
      swap
      · exact hcomplete.2 rfl
      exact ⟨_, rfl, rfl, follows_of_nil rfl hfiles' (congrArg (· ++ _) hsum) hleaked rfl hnil hcomplete
        (fun hnot => absurd rfl hnot) fun _ hnot => absurd hnot (by simp)⟩

/-- A key leaves room in the line, and puts no end of a string into it. -/
lemma press_keyOf {limit : ℕ} {line : List (BitVec 8)} (hroom : line.length < limit) (hne : ∀ a ∈ line, a ≠ 0)
    (c : BitVec 8) :
    (press limit ⟨[], line⟩ (keyOf c)).line.length < limit ∧
      ∀ a ∈ (press limit ⟨[], line⟩ (keyOf c)).line, a ≠ 0 := by
  cases hkey : keyOf c with
  | enter => exact ⟨Nat.zero_lt_of_lt hroom, by simp [press]⟩
  | erase =>
    refine ⟨?_, fun a ha => hne a (List.dropLast_subset line ha)⟩
    show line.dropLast.length < limit
    rw [List.length_dropLast]
    omega
  | put a =>
    unfold press
    dsimp only
    split_ifs with hmore
    · refine ⟨by simpa using hmore, fun b hb => ?_⟩
      rcases List.mem_append.1 hb with hb | hb
      · exact hne b hb
      · rw [List.mem_singleton.1 hb]
        exact ne_zero_of_printable (printable_of_put hkey)
    · exact ⟨Nat.zero_lt_of_lt hroom, by simp⟩
  | ignore => exact ⟨hroom, hne⟩

/-- The keyboard may change. -/
lemma Follows.withKeyboard (h : s.Follows d) {mode : InstallerMode} (hmode : s.mode = mode) (keyboard : Keyboard) :
    ({ s with keyboard := keyboard, mode := mode } : Installer P σ).Follows d := by
  subst hmode
  exact ⟨h.mode, h.files, h.out, h.leaked, h.holds, h.room, h.nonzero, h.complete, h.shows, h.asks⟩

/-- The next prompt is printed. -/
lemma Follows.answered (h : s.Follows d) (hmode : s.mode ≠ .ended) (keyboard : Keyboard) (text : List (BitVec 8)) :
    ({ s with keyboard := keyboard, mode := .prompt, out := s.out ++ text } : Installer P σ).Follows
      { d with mode := .prompt, out := d.out ++ text } where
  mode := rfl
  files := h.files
  out := congrArg (· ++ text) h.out
  leaked := h.leaked
  holds := h.holds
  room := h.room
  nonzero := h.nonzero
  complete := iff_of_false (fun hnot => hmode (h.complete.1 hnot)) (by simp)
  shows _ := h.shows hmode
  asks _ hnot := absurd hnot (by simp)

/-- A round in which an answer is waited for. -/
lemma Follows.poll_confirm (h : s.Follows d) {automatic : Bool} (hmode : s.mode = .confirm automatic)
    (memory : Bool) :
    ∃ s', s.poll k memory = some s' ∧ s'.keyboard = s.keyboard.step .getchar ∧
      s'.Follows (d.type k (s.keyboard.driver.keyboardGetchar.2, memory)) := by
  have hended : s.mode ≠ .ended := by simp [hmode]
  have hshows := h.shows hended
  obtain ⟨device, hdevice⟩ := Option.ne_none_iff_exists'.1 (h.asks automatic hmode)
  have hname : mountPointText s.state = d.selected.elim [] Prod.snd := by
    rw [hdevice] at hshows ⊢
    exact hshows.mountPointText
  unfold Installer.poll Dialogue.type
  rw [hmode, ← h.mode, hmode]
  dsimp only
  rw [hname]
  cases formatAnswer (d.selected.elim [] Prod.snd) s.keyboard.driver.keyboardGetchar.2 with
  | none => exact ⟨_, rfl, rfl, h.withKeyboard hmode _⟩
  | some r =>
    refine ⟨_, rfl, ?_⟩
    cases automatic with
    | true =>
      refine ⟨rfl, ?_⟩
      simp only [if_true, List.append_assoc]
      have hanswered := h.answered hended (s.keyboard.step .getchar) (r.out ++ installerReady ++ installerPrompt)
      simpa [Installer.ready] using hanswered
    | false =>
      have hanswered := h.answered hended (s.keyboard.step .getchar) (r.out ++ installerPrompt)
      rw [if_neg (by simp), endRound_of_running]
      swap
      · exact hshows.running
      refine ⟨rfl, ?_⟩
      simpa using hanswered

/-- A round in which a line is read. -/
lemma Follows.poll_prompt (h : s.Follows d) (hmode : s.mode = .prompt) (memory : Bool) :
    ∃ s', s.poll k memory = some s' ∧ s'.keyboard = s.keyboard.step .getchar ∧
      s'.Follows (d.type k (s.keyboard.driver.keyboardGetchar.2, memory)) := by
  have hended : s.mode ≠ .ended := by simp [hmode]
  have hprompt : d.mode = .prompt := h.mode.symm.trans hmode
  generalize hc : s.keyboard.driver.keyboardGetchar.2 = c
  have hround := h.holds.readRound (e := ⟨[], d.line⟩) h.room h.nonzero c
  have hecho : (s.reader.readRound bufferSize c).echo = Dialogue.echo d.line (keyOf c) := by
    rw [h.holds.echo_readRound]
    cases keyOf c <;> rfl
  obtain ⟨hroom, hne⟩ := press_keyOf h.room h.nonzero c
  unfold Installer.poll Dialogue.type
  rw [hmode, hprompt, hc]
  dsimp only
  rw [hecho]
  rcases hround with ⟨hnone, hnoline, hholds⟩ | ⟨line, hsome, hafter, hlength, htext⟩
  · rw [hnone, hnoline]
    refine ⟨_, rfl, rfl, ?_⟩
    exact ⟨rfl, h.files, congrArg (· ++ _) h.out, h.leaked, hholds, hroom, hne,
      iff_of_false (fun hnot => hended (h.complete.1 hnot)) (by simp), fun _ => h.shows hended,
      fun _ hnot => absurd hnot (by simp)⟩
  · rw [hsome, hafter]
    exact process_spec
      (s := ⟨s.keyboard.step .getchar, _, s.strtokLast, s.state, s.files, .prompt, _, s.leaked⟩)
      (d := ⟨.prompt, d.selected, d.files, [], _, d.leaked⟩)
      rfl h.files (congrArg (· ++ _) h.out) h.leaked rfl (h.shows hended) htext hlength memory

/-- The installer that has ended asks for no more characters. -/
lemma poll_ended (k : InstallerKernel P σ) (hmode : s.mode = .ended) (memory : Bool) : s.poll k memory = some s := by
  unfold Installer.poll
  rw [hmode]

/-! ## Runs -/

/-- The invariant: the installer has followed the dialogue of the characters that were returned to it, each with the
memory that there was then, and it had not ended before the last one. -/
structure Inv (k : InstallerKernel P σ) (files : σ) (s : Installer P σ) (typed : List (BitVec 8 × Bool)) : Prop where
  keyboard : s.keyboard.Inv
  returned : typed.map Prod.fst = s.keyboard.returned
  follows : s.Follows (typed.foldl (Dialogue.type k) (Dialogue.start k files))
  running : ∀ before t, typed = before ++ [t] →
    (before.foldl (Dialogue.type k) (Dialogue.start k files)).mode ≠ .ended

/-- A round that does not end the session is a character that is typed. -/
lemma Follows.poll (h : s.Follows d) (hmode : s.mode ≠ .ended) (memory : Bool) :
    ∃ s', s.poll k memory = some s' ∧ s'.keyboard = s.keyboard.step .getchar ∧
      s'.Follows (d.type k (s.keyboard.driver.keyboardGetchar.2, memory)) := by
  cases hcase : s.mode with
  | prompt => exact h.poll_prompt hcase memory
  | confirm automatic => exact h.poll_confirm hcase memory
  | ended => exact absurd hcase hmode

/-- Every step returns and keeps the invariant. -/
lemma Inv.step {files : σ} {typed : List (BitVec 8 × Bool)} (h : s.Inv k files typed) (op : InstallerOp) :
    ∃ s', s.step k op = some s' ∧ ∃ typed', s'.Inv k files typed' := by
  obtain ⟨hkey, htyped, hfollows, hrunning⟩ := h
  cases op with
  | interrupt scancode => exact ⟨_, rfl, typed, hkey.step _, htyped, hfollows.withKeyboard rfl _, hrunning⟩
  | poll memory =>
    by_cases hended : s.mode = .ended
    · exact ⟨s, poll_ended k hended memory, typed, hkey, htyped, hfollows, hrunning⟩
    obtain ⟨s', hcall, hkeyboard, hfollows'⟩ := hfollows.poll (k := k) hended memory
    have hkey' : s'.keyboard.Inv := hkeyboard ▸ hkey.step .getchar
    have hreturned : s'.keyboard.returned = (s.keyboard.step .getchar).returned := by rw [hkeyboard]
    simp only [Keyboard.step] at hreturned
    by_cases hzero : s.keyboard.driver.keyboardGetchar.2 = 0#8
    · rw [if_pos hzero] at hreturned
      rw [hzero, Dialogue.type_zero] at hfollows'
      exact ⟨s', hcall, typed, hkey', htyped.trans hreturned.symm, hfollows', hrunning⟩
    · rw [if_neg hzero] at hreturned
      refine ⟨s', hcall, typed ++ [(s.keyboard.driver.keyboardGetchar.2, memory)], hkey', ?_, ?_, ?_⟩
      · rw [hreturned, List.map_append, htyped]
        rfl
      · rw [List.foldl_append]
        exact hfollows'
      · intro before t hbefore
        obtain ⟨rfl, -⟩ := List.append_inj' hbefore rfl
        rwa [← hfollows.mode]

/-- The invariant holds before the first key. -/
lemma inv_start (k : InstallerKernel P σ) (keyboardBuffer buffer : ℕ → BitVec 8) (strtokLast : Option ℕ)
    (mem : ℕ → BitVec 8) (files : σ) : (start k keyboardBuffer buffer strtokLast mem files).Inv k files [] := by
  have hkeyboard : (start k keyboardBuffer buffer strtokLast mem files).keyboard = .start keyboardBuffer := by
    unfold start
    dsimp only
    split_ifs <;> rfl
  exact ⟨hkeyboard ▸ Keyboard.inv_start keyboardBuffer, hkeyboard ▸ rfl, follows_start .., by simp⟩

/-- Every run returns and keeps the invariant. -/
lemma inv_of_run (k : InstallerKernel P σ) (keyboardBuffer buffer : ℕ → BitVec 8) (strtokLast : Option ℕ)
    (mem : ℕ → BitVec 8) (files : σ) (ops : List InstallerOp) :
    ∃ s, Run.exec (step k) (start k keyboardBuffer buffer strtokLast mem files) ops = some s ∧
      ∃ typed, s.Inv k files typed := by
  have hfollows : Run.Follows (step k) (fun _ _ => True) (start k keyboardBuffer buffer strtokLast mem files) ops :=
    Run.follows_of_forall fun _ _ _ => trivial
  exact Run.exec_of_step (I := fun s => ∃ typed, Inv k files s typed) (fun _ op ⟨_, h⟩ _ => h.step op)
    ⟨[], inv_start k keyboardBuffer buffer strtokLast mem files⟩ hfollows

/-- **The installer follows the dialogue**, in every interleaving of keyboard interrupts with the rounds of its loops:
the characters that it has read are the first of those that the keyboard has accepted, in order, and what it waits
for, the device that is selected under which name, what it has asked of the file systems, what it has printed and the
line in its buffer are what the dialogue says of those characters, whatever was left in memory and in the static
pointer of `strtok`.

**Proof sketch.** By induction on the steps. A round that ends a line cuts it into words and runs the command that the
first one names; `Does.run` says what a command does to the memory of the state. -/
theorem follows_of_run (k : InstallerKernel P σ) (keyboardBuffer buffer : ℕ → BitVec 8) (strtokLast : Option ℕ)
    (mem : ℕ → BitVec 8) (files : σ) (ops : List InstallerOp) :
    ∃ s, Run.exec (step k) (start k keyboardBuffer buffer strtokLast mem files) ops = some s ∧ s.keyboard.Delivers ∧
      ∃ typed : List (BitVec 8 × Bool), typed.map Prod.fst = s.keyboard.returned ∧
        s.Follows (typed.foldl (Dialogue.type k) (Dialogue.start k files)) := by
  obtain ⟨s, hrun, typed, hkey, htyped, hfollows, -⟩ := inv_of_run k keyboardBuffer buffer strtokLast mem files ops
  exact ⟨s, hrun, hkey.delivers, typed, htyped, hfollows⟩

end Installer

end Jarvis
