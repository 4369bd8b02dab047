import Mathlib.Data.List.Induction
import JarvisKernel.Lib.RingBuffer

set_option relaxedAutoImplicit false
set_option autoImplicit false

/-!
# The keyboard driver

The keyboard's interrupt handler translates scancodes and stores the characters in a ring buffer, from
which `keyboard_getchar` takes them, as in `src/driver/keyboard.c`. Interrupts are disabled in each of the
functions, so that they run one after the other, in any order.

The registration in `/dev` and the output of `kernel_printf` are left out.

## Main definitions

* `Jarvis.KeyboardDriver` — the driver's state.
* `Jarvis.KeyboardDriver.keyboardInterruptHandler`, `keyboardGetchar`, `keyboardClearBuffer` — the
  functions that use the buffer.
* `Jarvis.Keyboard` — the driver with the characters that were accepted and returned since the last clear.
* `Jarvis.Keyboard.Delivers` — the buffer is a queue for at most 255 characters.

## Main results

* `Jarvis.KeyboardDriver.waiting_keyboardInterruptHandler`, `waiting_keyboardGetchar` — the functions
  refine the operations of a bounded queue.
* `Jarvis.Keyboard.delivers_of_run` — the queue's property holds after every sequence of calls.
-/

namespace Jarvis

/-! ## Scancodes -/

/-- The state flags, as masks. -/
def keyboardFlagShift : BitVec 8 := 0x01

@[inherit_doc keyboardFlagShift]
def keyboardFlagCtrl : BitVec 8 := 0x02

@[inherit_doc keyboardFlagShift]
def keyboardFlagAlt : BitVec 8 := 0x04

@[inherit_doc keyboardFlagShift]
def keyboardFlagCapsLock : BitVec 8 := 0x08

@[inherit_doc keyboardFlagShift]
def keyboardFlagNumLock : BitVec 8 := 0x10

@[inherit_doc keyboardFlagShift]
def keyboardFlagScrollLock : BitVec 8 := 0x20

/-- The scancodes of the keys that change the flags. -/
def keyboardScancodeLeftCtrl : BitVec 8 := 0x1D

@[inherit_doc keyboardScancodeLeftCtrl]
def keyboardScancodeLeftShift : BitVec 8 := 0x2A

@[inherit_doc keyboardScancodeLeftCtrl]
def keyboardScancodeRightShift : BitVec 8 := 0x36

@[inherit_doc keyboardScancodeLeftCtrl]
def keyboardScancodeLeftAlt : BitVec 8 := 0x38

@[inherit_doc keyboardScancodeLeftCtrl]
def keyboardScancodeCapsLock : BitVec 8 := 0x3A

@[inherit_doc keyboardScancodeLeftCtrl]
def keyboardScancodeNumLock : BitVec 8 := 0x45

@[inherit_doc keyboardScancodeLeftCtrl]
def keyboardScancodeScrollLock : BitVec 8 := 0x46

/-- `keyboard_map_normal`; the entries behind the list are 0. -/
def keyboardMapNormal : List Char :=
  ['\x00', '\x00', '1', '2', '3', '4', '5', '6', '7', '8', '9', '0', '-', '=', '\x08', '\t',
    'q', 'w', 'e', 'r', 't', 'y', 'u', 'i', 'o', 'p', '[', ']', '\n', '\x00',
    'a', 's', 'd', 'f', 'g', 'h', 'j', 'k', 'l', ';', '\x27', '\x60', '\x00', '\x5c',
    'z', 'x', 'c', 'v', 'b', 'n', 'm', ',', '.', '/', '\x00', '*', '\x00', ' ', '\x00']

/-- `keyboard_map_shift`; the entries behind the list are 0. -/
def keyboardMapShift : List Char :=
  ['\x00', '\x00', '!', '@', '#', '$', '%', '^', '&', '*', '(', ')', '_', '+', '\x08', '\t',
    'Q', 'W', 'E', 'R', 'T', 'Y', 'U', 'I', 'O', 'P', '\x7b', '\x7d', '\n', '\x00',
    'A', 'S', 'D', 'F', 'G', 'H', 'J', 'K', 'L', ':', '\x22', '~', '\x00', '|',
    'Z', 'X', 'C', 'V', 'B', 'N', 'M', '<', '>', '?', '\x00', '*', '\x00', ' ', '\x00']

/-- `KeyboardDriver`. -/
structure KeyboardDriver where
  keyboardBuffer : ℕ → BitVec 8
  bufferStart : ℕ
  bufferEnd : ℕ
  keyboardFlags : BitVec 8
  lastScancode : BitVec 8

namespace KeyboardDriver

variable {k : KeyboardDriver}

/-- The state in which `create_keyboard_driver` leaves the driver; the buffer is not initialised. -/
def createKeyboardDriver (buffer : ℕ → BitVec 8) : KeyboardDriver where
  keyboardBuffer := buffer
  bufferStart := 0
  bufferEnd := 0
  keyboardFlags := 0
  lastScancode := 0

/-- `keyboard_scancode_to_ascii`. -/
def keyboardScancodeToAscii (k : KeyboardDriver) (scancode : BitVec 8) : BitVec 8 :=
  if 127 < scancode.toNat then 0#8
  else
    let shift := k.keyboardFlags &&& keyboardFlagShift ≠ 0#8 ∨
      k.keyboardFlags &&& keyboardFlagCapsLock ≠ 0#8
    let map := if shift then keyboardMapShift else keyboardMapNormal
    let c := (map.getD scancode.toNat '\x00').toNat
    if k.keyboardFlags &&& keyboardFlagCtrl ≠ 0#8 ∧ 'a'.toNat ≤ c ∧ c ≤ 'z'.toNat then
      BitVec.ofNat 8 (c - 'a'.toNat + 1)
    else BitVec.ofNat 8 c

/-! ## The buffer -/

/-- `keyboard_is_buffer_empty`. -/
def keyboardIsBufferEmpty (k : KeyboardDriver) : Bool := k.bufferStart = k.bufferEnd

/-- `keyboard_is_buffer_full`. -/
def keyboardIsBufferFull (k : KeyboardDriver) : Bool := (k.bufferEnd + 1) % 256 = k.bufferStart

/-- The flags after the release of a key. -/
def releaseFlags (flags releasedKey : BitVec 8) : BitVec 8 :=
  if releasedKey = keyboardScancodeLeftShift ∨ releasedKey = keyboardScancodeRightShift then
    flags &&& ~~~keyboardFlagShift
  else if releasedKey = keyboardScancodeLeftCtrl then flags &&& ~~~keyboardFlagCtrl
  else if releasedKey = keyboardScancodeLeftAlt then flags &&& ~~~keyboardFlagAlt
  else flags

/-- The flags after a key was pressed that changes them; `none` is the default case of the handler. -/
def pressFlags (flags scancode : BitVec 8) : Option (BitVec 8) :=
  if scancode = keyboardScancodeLeftShift ∨ scancode = keyboardScancodeRightShift then
    some (flags ||| keyboardFlagShift)
  else if scancode = keyboardScancodeLeftCtrl then some (flags ||| keyboardFlagCtrl)
  else if scancode = keyboardScancodeLeftAlt then some (flags ||| keyboardFlagAlt)
  else if scancode = keyboardScancodeCapsLock then some (flags ^^^ keyboardFlagCapsLock)
  else if scancode = keyboardScancodeNumLock then some (flags ^^^ keyboardFlagNumLock)
  else if scancode = keyboardScancodeScrollLock then some (flags ^^^ keyboardFlagScrollLock)
  else none

/-- Store a character, unless it is 0 or the buffer is full. -/
def storeChar (k : KeyboardDriver) (c : BitVec 8) : KeyboardDriver :=
  if c ≠ 0#8 then
    if k.keyboardIsBufferFull then k
    else
      { k with
        keyboardBuffer := Function.update k.keyboardBuffer k.bufferEnd c
        bufferEnd := (k.bufferEnd + 1) % 256 }
  else k

/-- `keyboard_interrupt_handler`, for the scancode that the keyboard's data port gives. -/
def keyboardInterruptHandler (k : KeyboardDriver) (scancode : BitVec 8) : KeyboardDriver :=
  if scancode &&& 0x80 ≠ 0#8 then
    { k with keyboardFlags := releaseFlags k.keyboardFlags (scancode &&& 0x7F) }
  else
    let k' := match pressFlags k.keyboardFlags scancode with
      | some flags => { k with keyboardFlags := flags }
      | none => k.storeChar (k.keyboardScancodeToAscii scancode)
    { k' with lastScancode := scancode }

/-- `keyboard_getchar`. -/
def keyboardGetchar (k : KeyboardDriver) : KeyboardDriver × BitVec 8 :=
  if k.keyboardIsBufferEmpty then (k, 0#8)
  else
    ({ k with bufferStart := (k.bufferStart + 1) % 256 }, k.keyboardBuffer k.bufferStart)

/-- `keyboard_clear_buffer`. -/
def keyboardClearBuffer (k : KeyboardDriver) : KeyboardDriver :=
  { k with bufferStart := 0, bufferEnd := 0 }

/-- The character that a scancode is translated to: none for the release of a key, for a key that changes
the flags, and for a key without a character. -/
def translated (k : KeyboardDriver) (scancode : BitVec 8) : Option (BitVec 8) :=
  if scancode &&& 0x80 ≠ 0#8 ∨ (pressFlags k.keyboardFlags scancode).isSome ∨
      k.keyboardScancodeToAscii scancode = 0#8 then none
  else some (k.keyboardScancodeToAscii scancode)

/-- The characters that are waiting in the buffer. -/
def waiting (k : KeyboardDriver) : List (BitVec 8) :=
  RingBuffer.contents 256 k.keyboardBuffer k.bufferStart k.bufferEnd

/-- The indices are below 256, and no character that is waiting is 0. -/
structure Valid (k : KeyboardDriver) : Prop where
  start_lt : k.bufferStart < 256
  end_lt : k.bufferEnd < 256
  ne_zero : ∀ c ∈ k.waiting, c ≠ 0#8

/-- The buffer is full with 255 characters. -/
lemma Valid.full_iff (h : k.Valid) : k.keyboardIsBufferFull = true ↔ k.waiting.length = 255 := by
  rw [keyboardIsBufferFull, decide_eq_true_eq]
  exact RingBuffer.full_iff h.start_lt h.end_lt

/-- The buffer is empty exactly if no scancode waits. -/
lemma Valid.empty_iff (h : k.Valid) : k.keyboardIsBufferEmpty = true ↔ k.waiting = [] := by
  rw [keyboardIsBufferEmpty, decide_eq_true_eq]
  exact (RingBuffer.contents_eq_nil_iff h.start_lt).symm

/-- A character other than 0 is appended, if there is room. -/
lemma waiting_storeChar (h : k.Valid) {c : BitVec 8} (hc : c ≠ 0#8) :
    (k.storeChar c).Valid ∧
      (k.storeChar c).waiting = if k.keyboardIsBufferFull then k.waiting else k.waiting ++ [c] := by
  unfold storeChar
  rw [if_pos hc]
  cases hfull : k.keyboardIsBufferFull with
  | true => exact ⟨h, rfl⟩
  | false =>
    rw [keyboardIsBufferFull, decide_eq_false_iff_not] at hfull
    obtain ⟨hstart, hend, hne⟩ := h
    have hpush := RingBuffer.contents_push k.keyboardBuffer hstart hend hfull c
    refine ⟨⟨hstart, Nat.mod_lt _ (by decide), fun x hx => ?_⟩, hpush⟩
    have hx' : x ∈ k.waiting ++ [c] := hpush ▸ hx
    rcases List.mem_append.1 hx' with hx | hx
    · exact hne x hx
    · rw [List.mem_singleton.1 hx]
      exact hc

/-- The flags and the last scancode do not matter to the buffer. -/
lemma Valid.withFlags (h : k.Valid) (flags scancode : BitVec 8) :
    ({ k with keyboardFlags := flags, lastScancode := scancode } : KeyboardDriver).Valid :=
  ⟨h.start_lt, h.end_lt, h.ne_zero⟩

/-- The handler appends the character that the scancode is translated to, if there is room. -/
lemma waiting_keyboardInterruptHandler (h : k.Valid) (scancode : BitVec 8) :
    (k.keyboardInterruptHandler scancode).Valid ∧
      (k.keyboardInterruptHandler scancode).waiting =
        match k.translated scancode with
        | none => k.waiting
        | some c => if k.keyboardIsBufferFull then k.waiting else k.waiting ++ [c] := by
  unfold keyboardInterruptHandler translated
  by_cases hrelease : scancode &&& 0x80 ≠ 0#8
  · rw [if_pos hrelease, if_pos (.inl hrelease)]
    exact ⟨h.withFlags _ _, rfl⟩
  · rw [if_neg hrelease]
    cases hpress : pressFlags k.keyboardFlags scancode with
    | some flags =>
      rw [if_pos (.inr (.inl rfl))]
      exact ⟨h.withFlags _ _, rfl⟩
    | none =>
      by_cases hc : k.keyboardScancodeToAscii scancode = 0#8
      · rw [if_pos (.inr (.inr hc)), hc]
        exact ⟨h.withFlags _ _, rfl⟩
      · rw [if_neg (by simpa [hc] using hrelease)]
        obtain ⟨hvalid, hwait⟩ := waiting_storeChar h hc
        exact ⟨hvalid.withFlags _ _, hwait⟩

/-- `keyboard_getchar` takes the first character that is waiting, which is not 0, or returns 0. -/
lemma waiting_keyboardGetchar (h : k.Valid) :
    k.keyboardGetchar.1.Valid ∧
      (k.waiting = [] ∧ k.keyboardGetchar = (k, 0#8) ∨
        k.keyboardGetchar.2 ≠ 0#8 ∧ k.waiting = k.keyboardGetchar.2 :: k.keyboardGetchar.1.waiting) := by
  unfold keyboardGetchar
  cases hempty : k.keyboardIsBufferEmpty with
  | true => exact ⟨h, .inl ⟨h.empty_iff.1 hempty, rfl⟩⟩
  | false =>
    rw [keyboardIsBufferEmpty, decide_eq_false_iff_not] at hempty
    obtain ⟨hstart, hend, hne⟩ := h
    have hpop := RingBuffer.contents_pop k.keyboardBuffer hstart hend hempty
    have hpop' : k.waiting = k.keyboardBuffer k.bufferStart ::
        ({ k with bufferStart := (k.bufferStart + 1) % 256 } : KeyboardDriver).waiting := hpop
    rw [hpop'] at hne
    exact ⟨⟨Nat.mod_lt _ (by decide), hend, fun c hc => hne c (List.mem_cons_of_mem _ hc)⟩,
      .inr ⟨hne _ List.mem_cons_self, hpop'⟩⟩

end KeyboardDriver

/-! ## Runs -/

open KeyboardDriver

/-- The driver, and the characters that were accepted and returned since the buffer was last cleared. -/
structure Keyboard where
  driver : KeyboardDriver
  accepted : List (BitVec 8)
  returned : List (BitVec 8)

/-- The calls; an interrupt comes with the scancode at the data port. -/
inductive KeyboardOp where
  | interrupt (scancode : BitVec 8)
  | getchar
  | clear

namespace Keyboard

variable {s : Keyboard}

/-- The keyboard after `create_keyboard_driver`. -/
def start (buffer : ℕ → BitVec 8) : Keyboard := ⟨createKeyboardDriver buffer, [], []⟩

/-- One call. A translated character is accepted unless the buffer is full, and a call of
`keyboard_getchar` returns a character if it does not return 0. -/
def step (s : Keyboard) : KeyboardOp → Keyboard
  | .interrupt scancode =>
    { s with
      driver := s.driver.keyboardInterruptHandler scancode
      accepted := match s.driver.translated scancode with
        | none => s.accepted
        | some c => if s.driver.keyboardIsBufferFull then s.accepted else s.accepted ++ [c] }
  | .getchar =>
    { s with
      driver := s.driver.keyboardGetchar.1
      returned :=
        if s.driver.keyboardGetchar.2 = 0#8 then s.returned
        else s.returned ++ [s.driver.keyboardGetchar.2] }
  | .clear => ⟨s.driver.keyboardClearBuffer, [], []⟩

/-- The characters returned since the last clear are the first of those accepted, in order, and the others
are waiting; a translated character is dropped only when 255 are waiting; `keyboard_getchar` returns 0 if
none is waiting; and the indices are below 256. -/
structure Delivers (s : Keyboard) : Prop where
  in_order : s.returned ++ s.driver.waiting = s.accepted
  dropped : s.driver.keyboardIsBufferFull = true → s.accepted.length = s.returned.length + 255
  zero_iff : s.driver.keyboardGetchar.2 = 0#8 ↔ s.returned = s.accepted
  start_lt : s.driver.bufferStart < 256
  end_lt : s.driver.bufferEnd < 256

/-- The invariant: the buffer is well formed, and the log says what is waiting. -/
def Inv (s : Keyboard) : Prop := s.driver.Valid ∧ s.returned ++ s.driver.waiting = s.accepted

/-- The invariant is what the theorem says. -/
lemma Inv.delivers (h : s.Inv) : s.Delivers := by
  obtain ⟨hvalid, hlog⟩ := h
  refine ⟨hlog, fun hfull => ?_, ?_, hvalid.start_lt, hvalid.end_lt⟩
  · rw [← hlog, List.length_append, hvalid.full_iff.1 hfull]
  · have hnil : s.returned = s.accepted ↔ s.driver.waiting = [] := by
      rw [← hlog]
      simp
    rw [hnil]
    rcases (waiting_keyboardGetchar hvalid).2 with ⟨hwait, hcode⟩ | ⟨hne, hwait⟩
    · simp [hcode, hwait]
    · simp [hne, hwait]

/-- Every call keeps the invariant. -/
lemma Inv.step (h : s.Inv) (op : KeyboardOp) : (s.step op).Inv := by
  obtain ⟨hvalid, hlog⟩ := h
  cases op with
  | interrupt scancode =>
    obtain ⟨hvalid', hwait⟩ := waiting_keyboardInterruptHandler hvalid scancode
    refine ⟨hvalid', ?_⟩
    show s.returned ++ (s.driver.keyboardInterruptHandler scancode).waiting = _
    rw [hwait]
    simp only [Keyboard.step]
    cases s.driver.translated scancode with
    | none => exact hlog
    | some c =>
      cases s.driver.keyboardIsBufferFull with
      | true => exact hlog
      | false => simp [← hlog]
  | getchar =>
    obtain ⟨hvalid', hcases⟩ := waiting_keyboardGetchar hvalid
    refine ⟨hvalid', ?_⟩
    simp only [Keyboard.step]
    rcases hcases with ⟨-, hcode⟩ | ⟨hne, hwait⟩
    · simp [hcode, hlog]
    · rw [if_neg hne, List.append_assoc, List.singleton_append, ← hwait]
      exact hlog
  | clear =>
    have hnil : s.driver.keyboardClearBuffer.waiting = [] :=
      (RingBuffer.contents_eq_nil_iff (Nat.zero_lt_succ _)).2 rfl
    refine ⟨⟨Nat.zero_lt_succ _, Nat.zero_lt_succ _, fun c hc => ?_⟩, ?_⟩
    · rw [show (s.step .clear).driver.waiting = [] from hnil] at hc
      simp at hc
    · simp [Keyboard.step, hnil]

/-- The keyboard has a well-formed buffer from the start. -/
lemma inv_start (buffer : ℕ → BitVec 8) : (start buffer).Inv := by
  have hnil : (createKeyboardDriver buffer).waiting = [] :=
    (RingBuffer.contents_eq_nil_iff (Nat.zero_lt_succ _)).2 rfl
  exact ⟨⟨Nat.zero_lt_succ _, Nat.zero_lt_succ _, by simp [start, hnil]⟩, by simp [start, hnil]⟩

/-- After every sequence of keyboard interrupts and of calls of `keyboard_getchar` and
`keyboard_clear_buffer`, the buffer is a queue for at most 255 characters. -/
theorem delivers_of_run (buffer : ℕ → BitVec 8) (ops : List KeyboardOp) :
    (ops.foldl step (start buffer)).Delivers := by
  have hnil : (createKeyboardDriver buffer).waiting = [] :=
    (RingBuffer.contents_eq_nil_iff (Nat.zero_lt_succ _)).2 rfl
  have hstart : (start buffer).Inv :=
    ⟨⟨Nat.zero_lt_succ _, Nat.zero_lt_succ _, by simp [start, hnil]⟩, by simp [start, hnil]⟩
  have hrun : (ops.foldl step (start buffer)).Inv :=
    List.foldlRecOn ops step hstart fun s hs op _ => hs.step op
  exact hrun.delivers

end Keyboard

end Jarvis
