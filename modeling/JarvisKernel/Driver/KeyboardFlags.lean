import JarvisKernel.Driver.Keyboard
import JarvisKernel.Lib.History
import Mathlib.Algebra.Group.Nat.Even
import Mathlib.Data.List.Count

set_option relaxedAutoImplicit false
set_option autoImplicit false

/-!
# Keys that are held

The flags of the keyboard driver are set when a key is pressed and cleared when it is released. The two
shift keys have one flag: it is cleared by the release of one of them even while the other one is held.

## Main definitions

* `Jarvis.KeyboardDriver.deliver` — the driver after a sequence of scancodes.
* `Jarvis.KeyboardDriver.Held` — a key was pressed and not released since.
* `Jarvis.KeyboardDriver.TracksKeys` — what is wanted of the flags.

## Main results

* `Jarvis.KeyboardDriver.nextFlags_eq` — which scancode changes which flag.
* `Jarvis.KeyboardDriver.tracksKeys_iff` — when the flags are as is wanted.
-/

namespace Jarvis

namespace KeyboardDriver

/-! ## Histories of scancodes -/

/-- The driver after a sequence of interrupts with these scancodes. -/
def deliver (k : KeyboardDriver) (scancodes : List (BitVec 8)) : KeyboardDriver :=
  scancodes.foldl keyboardInterruptHandler k

/-- The scancode of the release of a key. -/
def breakCode (key : BitVec 8) : BitVec 8 := key ||| 0x80

/-- The scancodes of a key. -/
def ofKey (key c : BitVec 8) : Bool := c = key ∨ c = breakCode key

/-- The scancodes of the shift keys. -/
def ofShift (c : BitVec 8) : Bool := ofKey keyboardScancodeLeftShift c ∨ ofKey keyboardScancodeRightShift c

/-- The key was pressed, and it was not released since. -/
def Held (key : BitVec 8) (h : List (BitVec 8)) : Prop :=
  ∃ before behind, h = before ++ key :: behind ∧ breakCode key ∉ behind

/-- The scancodes that change the flags of the shift keys, Ctrl, Alt and Caps Lock. -/
def flagScancodes : List (BitVec 8) :=
  [keyboardScancodeLeftShift, breakCode keyboardScancodeLeftShift, keyboardScancodeRightShift,
    breakCode keyboardScancodeRightShift, keyboardScancodeLeftCtrl, breakCode keyboardScancodeLeftCtrl,
    keyboardScancodeLeftAlt, breakCode keyboardScancodeLeftAlt, keyboardScancodeCapsLock]

/-- What is wanted: the flags of shift, Ctrl and Alt say whether such a key is held, that of Caps Lock
whether it was pressed an odd number of times, and no other scancode changes them. -/
structure TracksKeys (k : KeyboardDriver) (h : List (BitVec 8)) : Prop where
  shift : k.keyboardFlags &&& keyboardFlagShift ≠ 0 ↔
    Held keyboardScancodeLeftShift h ∨ Held keyboardScancodeRightShift h
  ctrl : k.keyboardFlags &&& keyboardFlagCtrl ≠ 0 ↔ Held keyboardScancodeLeftCtrl h
  alt : k.keyboardFlags &&& keyboardFlagAlt ≠ 0 ↔ Held keyboardScancodeLeftAlt h
  capsLock : k.keyboardFlags &&& keyboardFlagCapsLock ≠ 0 ↔ Odd (h.count keyboardScancodeCapsLock)
  others : ∀ c ∉ flagScancodes,
    ∀ flag ∈ [keyboardFlagShift, keyboardFlagCtrl, keyboardFlagAlt, keyboardFlagCapsLock],
      (k.keyboardInterruptHandler c).keyboardFlags &&& flag = k.keyboardFlags &&& flag

/-! ## One scancode -/

/-- The flags after a scancode. -/
def nextFlags (flags c : BitVec 8) : BitVec 8 :=
  if c &&& 0x80 ≠ 0#8 then releaseFlags flags (c &&& 0x7F) else (pressFlags flags c).getD flags

variable {k : KeyboardDriver} {c flags : BitVec 8} {h : List (BitVec 8)}

/-- The interrupt handler sets the flags to `nextFlags`. -/
lemma keyboardFlags_handler (k : KeyboardDriver) (c : BitVec 8) :
    (k.keyboardInterruptHandler c).keyboardFlags = nextFlags k.keyboardFlags c := by
  have hstore : ∀ x, (k.storeChar x).keyboardFlags = k.keyboardFlags := fun x => by
    rw [storeChar]
    split_ifs <;> rfl
  rw [keyboardInterruptHandler, nextFlags]
  by_cases hc : c &&& 0x80 ≠ 0#8
  · rw [if_pos hc, if_pos hc]
  · rw [if_neg hc, if_neg hc]
    cases pressFlags k.keyboardFlags c with
    | none => exact hstore _
    | some flags => rfl

/-- A scancode of a release is that of the key with the highest bit. -/
lemma release_eq_iff (c : BitVec 8) (hc : c &&& 0x80 ≠ 0#8) :
    (c &&& 0x7F = 0x2A ↔ c = 0xAA) ∧ (c &&& 0x7F = 0x36 ↔ c = 0xB6) ∧ (c &&& 0x7F = 0x1D ↔ c = 0x9D) ∧
      (c &&& 0x7F = 0x38 ↔ c = 0xB8) := by
  revert c
  decide

/-- **Which scancode changes which flag.** -/
lemma nextFlags_eq (flags c : BitVec 8) :
    nextFlags flags c =
      if c = 0x2A ∨ c = 0x36 then flags ||| 0x01
      else if c = 0xAA ∨ c = 0xB6 then flags &&& ~~~0x01
      else if c = 0x1D then flags ||| 0x02
      else if c = 0x9D then flags &&& ~~~0x02
      else if c = 0x38 then flags ||| 0x04
      else if c = 0xB8 then flags &&& ~~~0x04
      else if c = 0x3A then flags ^^^ 0x08
      else if c = 0x45 then flags ^^^ 0x10
      else if c = 0x46 then flags ^^^ 0x20
      else flags := by
  by_cases hc : c &&& 0x80 ≠ 0#8
  · obtain ⟨hleft, hright, hctrl, halt⟩ := release_eq_iff c hc
    have hne : ∀ key, key &&& 0x80 = 0#8 → c ≠ key := fun key hkey heq => hc (heq ▸ hkey)
    rw [nextFlags, if_pos hc, releaseFlags]
    simp only [keyboardScancodeLeftShift, keyboardScancodeRightShift, keyboardScancodeLeftCtrl,
      keyboardScancodeLeftAlt, hleft, hright, hctrl, halt]
    rw [if_neg (c := c = 0x2A ∨ c = 0x36) (not_or.2 ⟨hne _ (by decide), hne _ (by decide)⟩),
      if_neg (hne 0x1D (by decide)), if_neg (hne 0x38 (by decide)), if_neg (hne 0x3A (by decide)),
      if_neg (hne 0x45 (by decide)), if_neg (hne 0x46 (by decide))]
    rfl
  · have hne : ∀ key, key &&& 0x80 ≠ 0#8 → c ≠ key := fun key hkey heq => hc (heq ▸ hkey)
    have hpress : pressFlags flags c =
        if c = 0x2A ∨ c = 0x36 then some (flags ||| 0x01)
        else if c = 0x1D then some (flags ||| 0x02)
        else if c = 0x38 then some (flags ||| 0x04)
        else if c = 0x3A then some (flags ^^^ 0x08)
        else if c = 0x45 then some (flags ^^^ 0x10)
        else if c = 0x46 then some (flags ^^^ 0x20)
        else none := rfl
    rw [nextFlags, if_neg hc, hpress,
      if_neg (c := c = 0xAA ∨ c = 0xB6) (not_or.2 ⟨hne _ (by decide), hne _ (by decide)⟩),
      if_neg (hne 0x9D (by decide)), if_neg (hne 0xB8 (by decide))]
    split_ifs <;> rfl

/-- Bit 0 follows the shift keys. -/
lemma getLsbD_zero_nextFlags (flags c : BitVec 8) :
    (nextFlags flags c).getLsbD 0 =
      if c = 0x2A ∨ c = 0x36 then true else if c = 0xAA ∨ c = 0xB6 then false else flags.getLsbD 0 := by
  rw [nextFlags_eq]
  simp only [apply_ite (fun f : BitVec 8 => f.getLsbD 0)]
  simp

/-- Bit 1 follows the control key. -/
lemma getLsbD_one_nextFlags (flags c : BitVec 8) :
    (nextFlags flags c).getLsbD 1 =
      if c = 0x1D then true else if c = 0x9D then false else flags.getLsbD 1 := by
  rw [nextFlags_eq]
  simp only [apply_ite (fun f : BitVec 8 => f.getLsbD 1)]
  -- all other scancodes keep the bit
  by_cases hpress : c = 29#8
  · simp [hpress]
  · by_cases hrelease : c = 157#8
    · simp [hrelease]
    · simp [hpress, hrelease]

/-- Bit 2 follows the alt key. -/
lemma getLsbD_two_nextFlags (flags c : BitVec 8) :
    (nextFlags flags c).getLsbD 2 =
      if c = 0x38 then true else if c = 0xB8 then false else flags.getLsbD 2 := by
  rw [nextFlags_eq]
  simp only [apply_ite (fun f : BitVec 8 => f.getLsbD 2)]
  by_cases hpress : c = 56#8
  · simp [hpress]
  · by_cases hrelease : c = 184#8
    · simp [hrelease]
    · simp [hpress, hrelease]

/-- Bit 3 toggles with caps lock. -/
lemma getLsbD_three_nextFlags (flags c : BitVec 8) :
    (nextFlags flags c).getLsbD 3 = if c = 0x3A then !flags.getLsbD 3 else flags.getLsbD 3 := by
  rw [nextFlags_eq]
  simp only [apply_ite (fun f : BitVec 8 => f.getLsbD 3)]
  by_cases hpress : c = 58#8
  · simp [hpress]
  · simp [hpress]

/-- A mask with one bit tests it. -/
lemma and_twoPow_ne_zero_iff (flags : BitVec 8) (i : ℕ) (hi : i < 8) :
    flags &&& BitVec.twoPow 8 i ≠ 0 ↔ flags.getLsbD i = true := by
  have hmask : BitVec.twoPow 8 i ≠ 0 := by
    intro hzero
    have hbit := congrArg (fun x : BitVec 8 => x.getLsbD i) hzero
    simp [hi] at hbit
  rw [BitVec.and_twoPow]
  split_ifs with hbit
  · exact iff_of_true hmask hbit
  · exact iff_of_false (by simp) hbit

/-- A flag as a bit. -/
lemma and_flag_ne_zero_iff (flags : BitVec 8) :
    (flags &&& keyboardFlagShift ≠ 0 ↔ flags.getLsbD 0 = true) ∧
      (flags &&& keyboardFlagCtrl ≠ 0 ↔ flags.getLsbD 1 = true) ∧
      (flags &&& keyboardFlagAlt ≠ 0 ↔ flags.getLsbD 2 = true) ∧
      (flags &&& keyboardFlagCapsLock ≠ 0 ↔ flags.getLsbD 3 = true) :=
  ⟨and_twoPow_ne_zero_iff flags 0 (by decide), and_twoPow_ne_zero_iff flags 1 (by decide),
    and_twoPow_ne_zero_iff flags 2 (by decide), and_twoPow_ne_zero_iff flags 3 (by decide)⟩

/-- Toggling a bit that is not in a mask. -/
lemma xor_and_of_and_eq_zero {toggle flag : BitVec 8} (h : toggle &&& flag = 0) (flags : BitVec 8) :
    (flags ^^^ toggle) &&& flag = flags &&& flag := by
  have hdistrib : (flags ^^^ toggle) &&& flag = (flags &&& flag) ^^^ (toggle &&& flag) := by
    ext i
    simp [Bool.and_xor_distrib_right]
  rw [hdistrib, h]
  simp

/-- The other scancodes do not change the four flags. -/
lemma nextFlags_and_flag (flags : BitVec 8) (hc : c ∉ flagScancodes) (flag : BitVec 8)
    (hflag : flag ∈ [keyboardFlagShift, keyboardFlagCtrl, keyboardFlagAlt, keyboardFlagCapsLock]) :
    nextFlags flags c &&& flag = flags &&& flag := by
  have hlist : flagScancodes = [0x2A, 0xAA, 0x36, 0xB6, 0x1D, 0x9D, 0x38, 0xB8, 0x3A] := by decide
  simp only [hlist, List.mem_cons, List.not_mem_nil, or_false, not_or] at hc
  obtain ⟨h1, h2, h3, h4, h5, h6, h7, h8, h9⟩ := hc
  have hrest : nextFlags flags c =
      if c = 0x45 then flags ^^^ 0x10 else if c = 0x46 then flags ^^^ 0x20 else flags := by
    rw [nextFlags_eq, if_neg (not_or.2 ⟨h1, h3⟩), if_neg (not_or.2 ⟨h2, h4⟩), if_neg h5, if_neg h6,
      if_neg h7, if_neg h8, if_neg h9]
  have htoggle : ∀ flag ∈ [keyboardFlagShift, keyboardFlagCtrl, keyboardFlagAlt, keyboardFlagCapsLock],
      (0x10 : BitVec 8) &&& flag = 0 ∧ (0x20 : BitVec 8) &&& flag = 0 := by
    decide
  obtain ⟨hnum, hscroll⟩ := htoggle flag hflag
  rw [hrest]
  split_ifs
  · exact xor_and_of_and_eq_zero hnum flags
  · exact xor_and_of_and_eq_zero hscroll flags
  · rfl

/-! ## Histories -/

/-- One more scancode. -/
lemma held_concat (key : BitVec 8) (h : List (BitVec 8)) (c : BitVec 8) :
    Held key (h ++ [c]) ↔ c = key ∨ c ≠ breakCode key ∧ Held key h := by
  constructor
  · rintro ⟨before, behind, hsplit, hbehind⟩
    rcases List.eq_nil_or_concat behind with rfl | ⟨behind, e, rfl⟩
    · exact .inl (List.append_inj_right' hsplit rfl |> List.singleton_inj.1)
    · rw [List.concat_eq_append] at hsplit hbehind
      have hsplit' : h ++ [c] = (before ++ key :: behind) ++ [e] := by simpa using hsplit
      obtain ⟨rfl, hce⟩ := List.append_inj' hsplit' rfl
      obtain rfl := List.singleton_inj.1 hce
      rw [List.mem_append, not_or, List.mem_singleton] at hbehind
      exact .inr ⟨Ne.symm hbehind.2, before, behind, rfl, hbehind.1⟩
  · rintro (rfl | ⟨hne, before, behind, rfl, hbehind⟩)
    · exact ⟨h, [], rfl, List.not_mem_nil⟩
    · refine ⟨before, behind ++ [c], by simp, ?_⟩
      rw [List.mem_append, not_or, List.mem_singleton]
      exact ⟨hbehind, Ne.symm hne⟩

/-- Before the first scancode no key is held. -/
lemma not_held_nil (key : BitVec 8) : ¬ Held key [] := by
  rintro ⟨before, behind, hnil, -⟩
  simp at hnil

/-- A key is held if its last scancode is that of pressing it. -/
lemma held_iff_last (key : BitVec 8) (hkey : key ≠ breakCode key) (h : List (BitVec 8)) :
    Held key h ↔ History.last (ofKey key) h = some key := by
  induction h using List.reverseRecOn with
  | nil => exact iff_of_false (not_held_nil key) (by simp [History.last_nil])
  | append_singleton h c ih =>
    rw [held_concat, History.last_concat, ih]
    by_cases hc : c = key
    · simp [hc, ofKey]
    · by_cases hbreak : c = breakCode key
      · simp [hbreak, ofKey, Ne.symm hkey]
      · simp [hc, hbreak, ofKey]

/-- A flag that is set by pressing a key, and cleared by releasing it. -/
lemma held_of_step {f : List (BitVec 8) → Bool} {key : BitVec 8} (hnil : f [] = false)
    (hstep : ∀ h c, f (h ++ [c]) = if c = key then true else if c = breakCode key then false else f h)
    (h : List (BitVec 8)) : f h = true ↔ Held key h := by
  induction h using List.reverseRecOn with
  | nil => exact iff_of_false (by simp [hnil]) (not_held_nil key)
  | append_singleton h c ih =>
    rw [hstep, held_concat, ← ih]
    split_ifs with hc hbreak
    · exact iff_of_true rfl (.inl hc)
    · exact iff_of_false (by simp) (by rintro (heq | ⟨hne, -⟩); exacts [hc heq, hne hbreak])
    · rw [or_iff_right hc, and_iff_right hbreak]

/-- The last scancode of a shift key is the release of one of them, and the other one is held. -/
def ReleasedOther (h : List (BitVec 8)) : Prop :=
  History.last ofShift h = some (breakCode keyboardScancodeLeftShift) ∧ Held keyboardScancodeRightShift h ∨
    History.last ofShift h = some (breakCode keyboardScancodeRightShift) ∧ Held keyboardScancodeLeftShift h

/-- The flags after one more scancode are the next flags. -/
lemma keyboardFlags_deliver_concat (k : KeyboardDriver) (h : List (BitVec 8)) (c : BitVec 8) :
    (k.deliver (h ++ [c])).keyboardFlags = nextFlags (k.deliver h).keyboardFlags c := by
  rw [deliver, List.foldl_append]
  exact keyboardFlags_handler _ c

/-- The flag of the shift keys is that of their last scancode. -/
lemma shift_deliver_iff (buffer : ℕ → BitVec 8) (h : List (BitVec 8)) :
    ((createKeyboardDriver buffer).deliver h).keyboardFlags.getLsbD 0 = true ↔
      History.last ofShift h = some keyboardScancodeLeftShift ∨
        History.last ofShift h = some keyboardScancodeRightShift := by
  induction h using List.reverseRecOn with
  | nil => exact iff_of_false (by simp [deliver, createKeyboardDriver]) (by simp [History.last_nil])
  | append_singleton h c ih =>
    rw [keyboardFlags_deliver_concat, getLsbD_zero_nextFlags, History.last_concat]
    have hshift : ofShift c = true ↔ (c = 0x2A ∨ c = 0x36) ∨ c = 0xAA ∨ c = 0xB6 := by
      revert c
      decide
    by_cases hmake : c = 0x2A ∨ c = 0x36
    · rw [if_pos hmake, if_pos (hshift.2 (.inl hmake)), Option.some.injEq, Option.some.injEq]
      exact iff_of_true rfl hmake
    · by_cases hbreak : c = 0xAA ∨ c = 0xB6
      · rw [if_neg hmake, if_pos hbreak, if_pos (hshift.2 (.inr hbreak)), Option.some.injEq, Option.some.injEq]
        exact iff_of_false (by simp) hmake
      · rw [if_neg hmake, if_neg hbreak, if_neg (fun hc => (hshift.1 hc).elim hmake hbreak), ih]

/-- The flag of the shift keys is as is wanted unless one was released while the other one is held. -/
lemma shift_iff (buffer : ℕ → BitVec 8) (h : List (BitVec 8)) :
    (((createKeyboardDriver buffer).deliver h).keyboardFlags.getLsbD 0 = true ↔
        Held keyboardScancodeLeftShift h ∨ Held keyboardScancodeRightShift h) ↔ ¬ ReleasedOther h := by
  have hleft : ∀ c, ofKey keyboardScancodeLeftShift c = true → ofShift c = true := by decide
  have hright : ∀ c, ofKey keyboardScancodeRightShift c = true → ofShift c = true := by decide
  have hheldl := held_iff_last keyboardScancodeLeftShift (by decide) h
  have hheldr := held_iff_last keyboardScancodeRightShift (by decide) h
  rw [shift_deliver_iff, ReleasedOther]
  cases hlast : History.last ofShift h with
  | none =>
    rw [History.last_eq_none_of_subkind hleft hlast] at hheldl
    rw [History.last_eq_none_of_subkind hright hlast] at hheldr
    simp [hheldl, hheldr]
  | some c =>
    have hkind : ∀ c, ofShift c = true → c = keyboardScancodeLeftShift ∨ c = keyboardScancodeRightShift ∨
        c = breakCode keyboardScancodeLeftShift ∨ c = breakCode keyboardScancodeRightShift := by decide
    have hdiffer : breakCode keyboardScancodeLeftShift ≠ keyboardScancodeLeftShift ∧
        breakCode keyboardScancodeLeftShift ≠ keyboardScancodeRightShift ∧
        breakCode keyboardScancodeRightShift ≠ keyboardScancodeLeftShift ∧
        breakCode keyboardScancodeRightShift ≠ keyboardScancodeRightShift ∧
        breakCode keyboardScancodeLeftShift ≠ breakCode keyboardScancodeRightShift := by decide
    obtain ⟨hll, hlr, hrl, hrr, hne⟩ := hdiffer
    rcases hkind c (History.last_eq_some_iff.1 hlast).1 with rfl | rfl | rfl | rfl
    · have hheld := hheldl.2 (History.last_of_subkind hleft hlast (by decide))
      simp [hheld, Ne.symm hll, Ne.symm hrl]
    · have hheld := hheldr.2 (History.last_of_subkind hright hlast (by decide))
      simp [hheld, Ne.symm hlr, Ne.symm hrr]
    · rw [History.last_of_subkind hleft hlast (by decide)] at hheldl
      simp [hheldl, hll, hlr, hne]
    · rw [History.last_of_subkind hright hlast (by decide)] at hheldr
      simp [hheldr, hrl, hrr, Ne.symm hne]

/-- Caps Lock is toggled whenever it is pressed. -/
lemma capsLock_deliver_iff (buffer : ℕ → BitVec 8) (h : List (BitVec 8)) :
    ((createKeyboardDriver buffer).deliver h).keyboardFlags.getLsbD 3 = true ↔
      Odd (h.count keyboardScancodeCapsLock) := by
  induction h using List.reverseRecOn with
  | nil => exact iff_of_false (by simp [deliver, createKeyboardDriver]) (by simp)
  | append_singleton h c ih =>
    rw [keyboardFlags_deliver_concat, getLsbD_three_nextFlags, List.count_append, List.count_singleton]
    by_cases hc : c = 0x3A
    · rw [if_pos hc, if_pos (by rw [hc]; rfl), Nat.odd_add_one, ← ih, Bool.not_eq_true']
      exact Bool.not_eq_true _ ▸ Iff.rfl
    · rw [if_neg hc, if_neg (by simpa [keyboardScancodeCapsLock] using hc), Nat.add_zero, ih]

/-- **The flags are as is wanted** after a sequence of scancodes exactly if its last scancode of a shift key
is not the release of one while the other one is held.

**Proof sketch.** The flag of the shift keys is set if the last scancode of a shift key is that of pressing
one. The other flags belong to one key each. -/
theorem tracksKeys_iff (buffer : ℕ → BitVec 8) (h : List (BitVec 8)) :
    TracksKeys ((createKeyboardDriver buffer).deliver h) h ↔ ¬ ReleasedOther h := by
  obtain ⟨hshift, hctrl, halt, hcaps⟩ :=
    and_flag_ne_zero_iff ((createKeyboardDriver buffer).deliver h).keyboardFlags
  rw [← shift_iff buffer, ← hshift]
  constructor
  · exact fun htracks => htracks.shift
  · intro hheld
    refine ⟨hheld, hctrl.trans ?_, halt.trans ?_, hcaps.trans (capsLock_deliver_iff buffer h),
      fun c hc flag hflag => ?_⟩
    · refine held_of_step (f := fun h => ((createKeyboardDriver buffer).deliver h).keyboardFlags.getLsbD 1)
        (by simp [deliver, createKeyboardDriver]) (fun h c => ?_) h
      rw [keyboardFlags_deliver_concat]
      exact getLsbD_one_nextFlags _ c
    · refine held_of_step (f := fun h => ((createKeyboardDriver buffer).deliver h).keyboardFlags.getLsbD 2)
        (by simp [deliver, createKeyboardDriver]) (fun h c => ?_) h
      rw [keyboardFlags_deliver_concat]
      exact getLsbD_two_nextFlags _ c
    · rw [keyboardFlags_handler]
      exact nextFlags_and_flag _ hc flag hflag

/-- The left shift key is pressed, the right one is pressed, and the left one is released. -/
theorem not_tracksKeys :
    Held keyboardScancodeRightShift [0x2A, 0x36, 0xAA] ∧
      ((createKeyboardDriver fun _ => 0).deliver [0x2A, 0x36, 0xAA]).keyboardFlags = 0 ∧
      ¬ TracksKeys ((createKeyboardDriver fun _ => 0).deliver [0x2A, 0x36, 0xAA]) [0x2A, 0x36, 0xAA] := by
  have hheld : Held keyboardScancodeRightShift [0x2A, 0x36, 0xAA] := ⟨[0x2A], [0xAA], rfl, by decide⟩
  have hflags : ((createKeyboardDriver fun _ => 0).deliver [0x2A, 0x36, 0xAA]).keyboardFlags = 0 := by decide
  refine ⟨hheld, hflags, fun htracks => ?_⟩
  have hshift := htracks.shift.2 (.inr hheld)
  rw [hflags] at hshift
  exact hshift (by decide)

end KeyboardDriver

end Jarvis
