import JarvisKernel.Lib.ByteBuffer
import JarvisKernel.Lib.Numeral
import JarvisKernel.Text.Strings
import Mathlib.Data.List.TakeWhile

set_option relaxedAutoImplicit false
set_option autoImplicit false

/-!
# Selecting a device

`installer_cmd_select_device` and `installer_cmd_list_devices` of `src/user/installer/installer.c`, with the
`sprintf` and the `atoi` of that file. A device is listed as `/dev/hda` with its number. What is selected is the
device whose number `atoi` finds behind `/dev/hda`, whatever else is there.

## Main definitions

* `Jarvis.sprintf`, `Jarvis.atoi` — printing and reading numbers.
* `Jarvis.installerCmdListDevices`, `Jarvis.installerCmdSelectDevice` — the two commands.
* `Jarvis.deviceName` — the name of a device.
* `Jarvis.leadingNumber` — the number that a text begins with.
* `Jarvis.SelectsByName` — what is wanted of a selection.

## Main results

* `Jarvis.listedName_eq` — the names that are listed.
* `Jarvis.atoi_eq` — what `atoi` reads.
* `Jarvis.selectsByName_of_listed` — a device is selected by the name that it is listed under.
* `Jarvis.selectsByName_iff` — when a selection is as is wanted.
-/

namespace Jarvis

/-! ## Numbers as text -/

/-- An argument of `sprintf`. -/
inductive SprintfArg where
  | int (v : BitVec 32)
  | str (s : CString)

/-- The loop that puts the digits of a number, the lowest first, with as many rounds as a 32-bit number needs. -/
def numDigits : ℕ → ℤ → CString
  | 0, _ => []
  | rounds + 1, i =>
    if 0 < i then UInt8.ofInt (48 + i.tmod 10) :: numDigits rounds (i.tdiv 10) else []

/-- The conversion `%d`. -/
def sprintfInt (v : BitVec 32) : CString :=
  let i := if v.slt 0 then -v else v
  (if v.slt 0 then [45] else []) ++ if i = 0 then [48] else (numDigits 10 i.toInt).reverse

/-- `sprintf`, which knows `%d` and `%s`. Without an argument of the right type, and behind a `%` that ends the
format, what it does is not defined. -/
def sprintf : CString → List SprintfArg → Option CString
  | [], _ => some []
  | 37 :: 100 :: format, .int v :: args => (sprintf format args).map (sprintfInt v ++ ·)
  | 37 :: 115 :: format, .str s :: args => (sprintf format args).map (s ++ ·)
  | 37 :: c :: format, args =>
    if c = 100 ∨ c = 115 then none else (sprintf format args).map (c :: ·)
  | [37], _ => none
  | c :: format, args => (sprintf format args).map (c :: ·)

/-- The blanks and tabs that `atoi` passes over. -/
def skipBlanks : CString → CString
  | [] => []
  | c :: text => if c = 32 ∨ c = 9 then skipBlanks text else c :: text

/-- The digits that `atoi` reads, behind those for `result`. -/
def atoiDigits : CString → BitVec 32 → BitVec 32
  | [], result => result
  | c :: text, result =>
    if 48 ≤ c ∧ c ≤ 57 then atoiDigits text (result * 10 + BitVec.ofNat 32 (c.toNat - 48)) else result

/-- `atoi`. -/
def atoi (text : CString) : BitVec 32 :=
  match skipBlanks text with
  | 45 :: rest => atoiDigits rest 0 * -1
  | 43 :: rest => atoiDigits rest 0
  | rest => atoiDigits rest 0

example : atoi [32, 45, 52, 50, 120] = -42 := by decide

/-! ## The commands -/

/-- The text `/dev/hda`. -/
def devHda : CString := [47, 100, 101, 118, 47, 104, 100, 97]

/-- The name that is listed for a device, as `sprintf` prints it with the format `/dev/hda%d`. -/
def listedName (i : ℕ) : Option CString := sprintf (devHda ++ [37, 100]) [.int (BitVec.ofNat 32 i)]

/-- `installer_cmd_list_devices`, with the names that are printed. -/
def installerCmdListDevices (numBlockDevices : BitVec 32) : List (Option CString) :=
  (List.range numBlockDevices.toNat).map listedName

/-- What the installer knows of the device that is selected. -/
structure InstallerState (P : Type) where
  targetDevice : Option P
  targetMountPoint : ℕ → BitVec 8

/-- `installer_cmd_select_device`, with the places of the name of the mount point that are written. -/
def installerCmdSelectDevice {P : Type} (activeBlockDevices : ℕ → P) (numBlockDevices : BitVec 32)
    (argv : List CString) (s : InstallerState P) : ℤ × InstallerState P × List ℕ :=
  match argv with
  | _ :: name :: _ =>
    if strncmp name.bytes devHda.bytes 8 ≠ 0 then (-1, s, [])
    else
      let devIndex := atoi (name.drop 8)
      if devIndex.slt 0 ∨ numBlockDevices ≤ devIndex then (-1, s, [])
      else
        (0, ⟨some (activeBlockDevices devIndex.toNat),
          ByteBuffer.copy s.targetMountPoint 0 name.bytes (name.length + 1)⟩, List.range (name.length + 1))
  | _ => (-1, s, [])

/-! ## What is wanted -/

/-- The decimal numeral of a number. -/
def numeral (n : ℕ) : CString := ((Numeral.lowDigits 10 n).map fun d => UInt8.ofNat (48 + d)).reverse

/-- The name of a device. -/
def deviceName (i : ℕ) : CString := devHda ++ numeral i

/-- What is wanted of a selection: the name of a device selects that device, with a name that has room in its 64
bytes, and with any other argument the command fails and changes nothing. -/
structure SelectsByName {P : Type} (activeBlockDevices : ℕ → P) (numBlockDevices : BitVec 32) (name : CString)
    (s : InstallerState P) (r : ℤ × InstallerState P × List ℕ) : Prop where
  selects : ∀ i < numBlockDevices.toNat, name = deviceName i →
    r.1 = 0 ∧ r.2.1.targetDevice = some (activeBlockDevices i) ∧
      TextAt r.2.1.targetMountPoint 0 (name.map UInt8.toBitVec)
  rejects : (¬ ∃ i < numBlockDevices.toNat, name = deviceName i) → r.1 ≠ 0 ∧ r.2.1 = s
  fits : ∀ p ∈ r.2.2, p < 64

/-- The number that a text begins with, behind blanks and tabs and with a sign, or 0. -/
def leadingNumber (text : CString) : ℤ :=
  let rest := text.dropWhile fun c => decide (c = 32 ∨ c = 9)
  let digits := (if rest.head? = some 45 ∨ rest.head? = some 43 then rest.tail else rest).takeWhile fun c =>
    decide (48 ≤ c ∧ c ≤ 57)
  (if rest.head? = some 45 then -1 else 1) * (digits.foldl (fun n c => n * 10 + (c.toNat - 48)) 0 : ℕ)

/-- The number behind `/dev/hda`, as a 32-bit number. -/
def deviceNumber (name : CString) : ℤ := (leadingNumber (name.drop 8)).bmod (2 ^ 32)

/-- The condition: the argument does not begin with `/dev/hda`, or it is the name of a device with a number below
`2 ^ 31`, or neither it is the name of a device that exists nor the number behind `/dev/hda` that of one. -/
def NamesDevice (numBlockDevices : ℕ) (name : CString) : Prop :=
  ¬ devHda <+: name ∨ (∃ i < 2 ^ 31, name = deviceName i) ∨
    (¬ ∃ i < numBlockDevices, name = deviceName i) ∧
      ¬ (0 ≤ deviceNumber name ∧ deviceNumber name < numBlockDevices)

/-! ## The names that are listed -/

/-- The character of a digit. -/
lemma digit_spec {d : ℕ} (hd : d < 10) :
    48 ≤ UInt8.ofNat (48 + d) ∧ UInt8.ofNat (48 + d) ≤ 57 ∧ (UInt8.ofNat (48 + d)).toNat = 48 + d := by
  revert hd d
  decide

/-- The loop puts the digits of a number. -/
lemma numDigits_eq {rounds n : ℕ} (hpos : 0 < n) (hlt : n < 10 ^ rounds) :
    numDigits rounds n = (Numeral.lowDigits 10 n).map fun d => UInt8.ofNat (48 + d) := by
  induction rounds generalizing n with
  | zero => omega
  | succ rounds ih =>
    have hmod : ((n : ℤ).tmod 10) = ((n % 10 : ℕ) : ℤ) := rfl
    have hdiv : ((n : ℤ).tdiv 10) = ((n / 10 : ℕ) : ℤ) := rfl
    have hdigits : ∀ d : ℕ, d < 10 → UInt8.ofInt (48 + (d : ℤ)) = UInt8.ofNat (48 + d) := by decide
    have hdigit := hdigits (n % 10) (Nat.mod_lt n (Nat.succ_pos 9))
    rw [numDigits, if_pos (by exact_mod_cast hpos), hmod, hdiv, hdigit, Numeral.lowDigits_eq (by decide),
      List.map_cons]
    congr 1
    split_ifs with hmore
    · exact ih hmore (by omega)
    · rw [Nat.eq_zero_of_not_pos hmore]
      cases rounds <;> rfl

/-- Numbers below `2 ^ 31` are `int` numbers. -/
lemma toInt_ofNat_of_lt {i : ℕ} (hi : i < 2 ^ 31) : (BitVec.ofNat 32 i).toInt = i := by
  have hnat : (BitVec.ofNat 32 i).toNat = i := by
    rw [BitVec.toNat_ofNat]
    omega
  rw [BitVec.toInt_eq_toNat_cond, hnat, if_pos (by omega)]

/-- The conversion `%d` prints the numeral of such a number. -/
lemma sprintfInt_eq {i : ℕ} (hi : i < 2 ^ 31) : sprintfInt (BitVec.ofNat 32 i) = numeral i := by
  have hint := toInt_ofNat_of_lt hi
  have hslt : ¬ (BitVec.ofNat 32 i).slt 0 = true := by
    rw [BitVec.slt_iff_toInt_lt, hint]
    exact not_lt.2 (Int.natCast_nonneg i)
  rw [sprintfInt, if_neg hslt, if_neg hslt, List.nil_append, numeral]
  rcases Nat.eq_zero_or_pos i with rfl | hpos
  · rfl
  · have hne : BitVec.ofNat 32 i ≠ 0 := fun hzero => by
      rw [hzero] at hint
      exact absurd hint (by simp; omega)
    rw [if_neg hne, hint, numDigits_eq hpos (by omega)]

/-- **The names that are listed** are those of the devices, as long as their numbers are `int` numbers. -/
lemma listedName_eq {i : ℕ} (hi : i < 2 ^ 31) : listedName i = some (deviceName i) := by
  have hprint : listedName i = some (devHda ++ (sprintfInt (BitVec.ofNat 32 i) ++ [])) := rfl
  rw [hprint, List.append_nil, sprintfInt_eq hi, deviceName]

/-! ## The number that is read -/

/-- The loop of `atoi` over the blanks. -/
lemma skipBlanks_eq (text : CString) : skipBlanks text = text.dropWhile fun c => decide (c = 32 ∨ c = 9) := by
  induction text with
  | nil => rfl
  | cons c text ih =>
    rw [skipBlanks, List.dropWhile_cons, ih]
    simp only [decide_eq_true_eq]

/-- The digits are read as a number modulo `2 ^ 32`. -/
lemma atoiDigits_eq (text : CString) (m : ℕ) :
    atoiDigits text (BitVec.ofNat 32 m) =
      BitVec.ofNat 32 ((text.takeWhile fun c => decide (48 ≤ c ∧ c ≤ 57)).foldl
        (fun n c => n * 10 + (c.toNat - 48)) m) := by
  induction text generalizing m with
  | nil => rfl
  | cons c text ih =>
    rw [atoiDigits, List.takeWhile_cons]
    by_cases hdigit : 48 ≤ c ∧ c ≤ 57
    · have hnext : BitVec.ofNat 32 m * 10 + BitVec.ofNat 32 (c.toNat - 48) =
          BitVec.ofNat 32 (m * 10 + (c.toNat - 48)) := by
        rw [BitVec.ofNat_add, BitVec.ofNat_mul]
        rfl
      rw [if_pos hdigit, if_pos (decide_eq_true hdigit), hnext, ih, List.foldl_cons]
    · rw [if_neg hdigit, if_neg (by simpa using hdigit)]
      rfl

/-- **`atoi` reads** the number that a text begins with, modulo `2 ^ 32`. -/
lemma atoi_eq (text : CString) : (atoi text).toInt = (leadingNumber text).bmod (2 ^ 32) := by
  have hread : ∀ digits, (atoiDigits digits 0).toInt = (((digits.takeWhile fun c =>
      decide (48 ≤ c ∧ c ≤ 57)).foldl (fun n c => n * 10 + (c.toNat - 48)) 0 : ℕ) : ℤ).bmod (2 ^ 32) := by
    intro digits
    rw [← BitVec.toInt_ofNat', ← atoiDigits_eq]
    rfl
  rw [atoi, skipBlanks_eq, leadingNumber]
  generalize text.dropWhile (fun c => decide (c = 32 ∨ c = 9)) = rest
  split
  · next rest =>
    have hone : (-1 : BitVec 32).toInt = -1 := rfl
    rw [BitVec.toInt_mul, hread, hone, Int.bmod_mul_bmod, mul_comm]
    rfl
  · next rest =>
    rw [hread, ← one_mul (Nat.cast _)]
    rfl
  · next hminus hplus =>
    have hhead : ∀ c, (∀ rest', rest = c :: rest' → False) → rest.head? ≠ some c := by
      rintro c hnot hhead
      obtain ⟨rest', rfl⟩ := List.head?_eq_some_iff.1 hhead
      exact hnot rest' rfl
    have hsign := hhead 45 hminus
    rw [hread, if_neg hsign, if_neg (not_or.2 ⟨hsign, hhead 43 hplus⟩), one_mul]

/-! ## The numerals -/

/-- A numeral has a digit. -/
lemma numeral_ne_nil (n : ℕ) : numeral n ≠ [] := by
  rw [numeral, Ne, List.reverse_eq_nil_iff, List.map_eq_nil_iff]
  exact Numeral.lowDigits_ne_nil 10 n

/-- It has digits only. -/
lemma of_mem_numeral {n : ℕ} {c : UInt8} (hc : c ∈ numeral n) : 48 ≤ c ∧ c ≤ 57 := by
  rw [numeral, List.mem_reverse] at hc
  obtain ⟨d, hd, rfl⟩ := List.mem_map.1 hc
  obtain ⟨hge, hle, -⟩ := digit_spec (Numeral.lt_of_mem_lowDigits (by decide) hd)
  exact ⟨hge, hle⟩

/-- The value of the digits of a number, the highest first. -/
lemma foldl_digits {ds : List ℕ} (hds : ∀ d ∈ ds, d < 10) :
    ((ds.map fun d => UInt8.ofNat (48 + d)).reverse.foldl (fun n c => n * 10 + (c.toNat - 48)) 0) =
      Nat.ofDigits 10 ds := by
  rw [List.foldl_reverse]
  induction ds with
  | nil => rfl
  | cons d ds ih =>
    obtain ⟨-, -, hvalue⟩ := digit_spec (hds d List.mem_cons_self)
    rw [List.map_cons, List.foldr_cons, ih fun e he => hds e (List.mem_cons_of_mem d he), hvalue,
      Nat.ofDigits_cons]
    omega

/-- A numeral is read as its number. -/
lemma leadingNumber_numeral (n : ℕ) : leadingNumber (numeral n) = n := by
  have hdrop : ((numeral n).dropWhile fun c => decide (c = 32 ∨ c = 9)) = numeral n := by
    cases htext : numeral n with
    | nil => rfl
    | cons c text =>
      obtain ⟨hge, -⟩ := of_mem_numeral (htext ▸ List.mem_cons_self : c ∈ numeral n)
      refine List.dropWhile_cons_of_neg ?_
      rw [decide_eq_true_iff]
      rintro (rfl | rfl) <;> exact absurd hge (by decide)
  have hhead : ∀ c ∈ (numeral n).head?, 48 ≤ c := fun c hc => (of_mem_numeral (List.mem_of_mem_head? hc)).1
  have hminus : (numeral n).head? ≠ some 45 := fun hc => absurd (hhead 45 hc) (by decide)
  have hplus : (numeral n).head? ≠ some 43 := fun hc => absurd (hhead 43 hc) (by decide)
  have htake : ((numeral n).takeWhile fun c => decide (48 ≤ c ∧ c ≤ 57)) = numeral n :=
    List.takeWhile_eq_self_iff.2 fun c hc => decide_eq_true (of_mem_numeral hc)
  rw [leadingNumber]
  rw [hdrop, if_neg hminus, if_neg (not_or.2 ⟨hminus, hplus⟩), htake, one_mul, numeral,
    foldl_digits fun d hd => Numeral.lt_of_mem_lowDigits (by decide) hd, Numeral.ofDigits_lowDigits]

/-- A number of 32 bits has ten digits at most. -/
lemma length_numeral_le {n : ℕ} (hn : n < 10 ^ 10) : (numeral n).length ≤ 10 := by
  rw [numeral, List.length_reverse, List.length_map]
  exact Numeral.length_lowDigits_le (by decide) hn

/-- Devices have different names. -/
lemma deviceName_inj {i j : ℕ} (h : deviceName i = deviceName j) : i = j := by
  have hnumeral := congrArg leadingNumber (List.append_cancel_left h)
  rw [leadingNumber_numeral, leadingNumber_numeral] at hnumeral
  exact_mod_cast hnumeral

/-- The names begin with `/dev/hda`. -/
lemma devHda_prefix_deviceName (i : ℕ) : devHda <+: deviceName i := List.prefix_append _ _

/-- The number behind `/dev/hda` in the name of a device. -/
lemma deviceNumber_deviceName (i : ℕ) : deviceNumber (deviceName i) = (i : ℤ).bmod (2 ^ 32) := by
  have hdrop : (deviceName i).drop 8 = numeral i := rfl
  rw [deviceNumber, hdrop, leadingNumber_numeral]

/-- Below `2 ^ 31` it is the number of the device. -/
lemma deviceNumber_of_lt {i : ℕ} (hi : i < 2 ^ 31) : deviceNumber (deviceName i) = i := by
  rw [deviceNumber_deviceName]
  exact Int.bmod_eq_of_le (by omega) (by omega)

/-- From `2 ^ 31` on the number is negative. -/
lemma deviceNumber_neg {i : ℕ} (hi : 2 ^ 31 ≤ i) (hlt : i < 2 ^ 32) : deviceNumber (deviceName i) < 0 := by
  rw [deviceNumber_deviceName, Int.bmod_def]
  split_ifs <;> omega

/-! ## What is selected -/

section Select

variable {P : Type} {activeBlockDevices : ℕ → P} {numBlockDevices : BitVec 32} {name : CString}
  {s : InstallerState P} {i : ℕ}

/-- What the command does if it accepts a name. -/
def selected (activeBlockDevices : ℕ → P) (name : CString) (s : InstallerState P) :
    ℤ × InstallerState P × List ℕ :=
  (0, ⟨some (activeBlockDevices (deviceNumber name).toNat),
    ByteBuffer.copy s.targetMountPoint 0 name.bytes (name.length + 1)⟩, List.range (name.length + 1))

/-- **The command** selects the device whose number is behind `/dev/hda`. -/
lemma installerCmdSelectDevice_eq (activeBlockDevices : ℕ → P) (numBlockDevices : BitVec 32) (cmd name : CString)
    (argv : List CString) (s : InstallerState P) :
    installerCmdSelectDevice activeBlockDevices numBlockDevices (cmd :: name :: argv) s =
      if devHda <+: name ∧ 0 ≤ deviceNumber name ∧ deviceNumber name < numBlockDevices.toNat then
        selected activeBlockDevices name s
      else (-1, s, []) := by
  have hstart : strncmp name.bytes devHda.bytes 8 = 0 ↔ devHda <+: name :=
    strncmp_eq_zero_iff_prefix (by decide) name
  have hindex : (atoi (name.drop 8)).toInt = deviceNumber name := atoi_eq _
  rw [installerCmdSelectDevice]
  by_cases hname : devHda <+: name
  · have hslt : (atoi (name.drop 8)).slt 0 = true ↔ deviceNumber name < 0 := by
      rw [BitVec.slt_iff_toInt_lt, hindex]
      rfl
    rw [if_neg (not_not.2 (hstart.2 hname))]
    dsimp only
    by_cases hneg : deviceNumber name < 0
    · rw [if_pos (.inl (hslt.2 hneg)), if_neg fun hnot => absurd hneg (not_lt.2 hnot.2.1)]
    · have hnat : ((atoi (name.drop 8)).toNat : ℤ) = deviceNumber name := by
        have hcond := BitVec.toInt_eq_toNat_cond (atoi (name.drop 8))
        have hlt := (atoi (name.drop 8)).isLt
        rw [hindex] at hcond
        split_ifs at hcond <;> omega
      have hle : numBlockDevices ≤ atoi (name.drop 8) ↔ numBlockDevices.toNat ≤ deviceNumber name := by
        rw [BitVec.le_def, ← hnat, Nat.cast_le]
      have hvalue : (deviceNumber name).toNat = (atoi (name.drop 8)).toNat := by
        rw [← hnat, Int.toNat_natCast]
      by_cases hlt : deviceNumber name < numBlockDevices.toNat
      · rw [if_neg (not_or.2 ⟨fun hnot => hneg (hslt.1 hnot), fun hnot => absurd hlt (not_lt.2 (hle.1 hnot))⟩),
          if_pos ⟨hname, not_lt.1 hneg, hlt⟩, selected, hvalue]
      · rw [if_pos (.inr (hle.2 (not_lt.1 hlt))), if_neg fun hnot => hlt hnot.2.2]
  · rw [if_pos (fun hnot => hname (hstart.1 hnot)), if_neg fun hnot => hname hnot.1]

/-- A selection that fails is as is wanted of an argument that is not the name of a device. -/
lemma selectsByName_rejected (h : ¬ ∃ i < numBlockDevices.toNat, name = deviceName i) :
    SelectsByName activeBlockDevices numBlockDevices name s (-1, s, []) where
  selects i hi hname := absurd ⟨i, hi, hname⟩ h
  rejects _ := ⟨show (-1 : ℤ) ≠ 0 by decide, rfl⟩
  fits p hp := absurd hp List.not_mem_nil

/-- A name is a string. -/
lemma zero_notMem_deviceName (i : ℕ) : 0 ∉ deviceName i := by
  rw [deviceName, List.mem_append, not_or]
  exact ⟨by decide, fun hmem => absurd (of_mem_numeral hmem).1 (by decide)⟩

/-- It has 18 characters at most. -/
lemma length_deviceName_le (hi : i < 2 ^ 31) : (deviceName i).length ≤ 18 := by
  have hnumeral := length_numeral_le (n := i) (by omega)
  have hprefix : devHda.length = 8 := rfl
  rw [deviceName, List.length_append]
  omega

/-- The name of a device has room, and selects that device. -/
lemma selectsByName_selected (hi : i < 2 ^ 31) (hlt : i < numBlockDevices.toNat) :
    SelectsByName activeBlockDevices numBlockDevices (deviceName i) s
      (selected activeBlockDevices (deviceName i) s) where
  selects j _ hname := by
    obtain rfl := deviceName_inj hname
    refine ⟨rfl, ?_, textAt_of_bytes (zero_notMem_deviceName i) fun k hk => ?_⟩
    · rw [selected, deviceNumber_of_lt hi, Int.toNat_natCast]
    · rw [selected]
      dsimp only
      rw [ByteBuffer.copy, if_pos (by omega), Nat.sub_zero, Nat.zero_add]
  rejects h := absurd ⟨i, hlt, rfl⟩ h
  fits p hp := by
    have hlength := length_deviceName_le hi
    have hmem := List.mem_range.1 hp
    omega

/-- **A device is selected by the name that it is listed under.** -/
lemma selectsByName_of_listed (hi : i < 2 ^ 31) (hlt : i < numBlockDevices.toNat)
    (hlisted : listedName i = some name) (cmd : CString) (argv : List CString) :
    SelectsByName activeBlockDevices numBlockDevices name s
      (installerCmdSelectDevice activeBlockDevices numBlockDevices (cmd :: name :: argv) s) := by
  obtain rfl : deviceName i = name := Option.some.inj ((listedName_eq hi).symm.trans hlisted)
  have hnumber := deviceNumber_of_lt hi
  rw [installerCmdSelectDevice_eq, if_pos ⟨devHda_prefix_deviceName i, by omega, by omega⟩]
  exact selectsByName_selected hi hlt

end Select

/-- **A selection is as is wanted** if and only if the argument does not begin with `/dev/hda`, is the name of a
device with a number below `2 ^ 31`, or gives neither a name nor a number of a device.

**Proof sketch.** The command looks at the number behind `/dev/hda` only. -/
theorem selectsByName_iff {P : Type} (activeBlockDevices : ℕ → P) (numBlockDevices : BitVec 32)
    (cmd name : CString) (argv : List CString) (s : InstallerState P) :
    SelectsByName activeBlockDevices numBlockDevices name s
        (installerCmdSelectDevice activeBlockDevices numBlockDevices (cmd :: name :: argv) s) ↔
      NamesDevice numBlockDevices.toNat name := by
  rw [installerCmdSelectDevice_eq]
  constructor
  · intro h
    rw [NamesDevice]
    by_contra hnot
    rw [not_or, not_or, not_not] at hnot
    obtain ⟨hname, hsmall, hrest⟩ := hnot
    by_cases hnamed : ∃ i < numBlockDevices.toNat, name = deviceName i
    · obtain ⟨i, hi, rfl⟩ := hnamed
      have hle : 2 ^ 31 ≤ i := by
        by_contra hlt
        exact hsmall ⟨i, not_le.1 hlt, rfl⟩
      have hneg := deviceNumber_neg hle (hi.trans numBlockDevices.isLt)
      rw [if_neg fun hnot => absurd hneg (not_lt.2 hnot.2.1)] at h
      exact absurd (h.selects i hi rfl).1 (show (-1 : ℤ) ≠ 0 by decide)
    · have hnumber := not_not.1 fun hnot => hrest ⟨hnamed, hnot⟩
      rw [if_pos ⟨hname, hnumber⟩] at h
      exact (h.rejects hnamed).1 rfl
  · rintro (hname | ⟨i, hi, rfl⟩ | ⟨hnamed, hnumber⟩)
    · rw [if_neg fun hnot => hname hnot.1]
      refine selectsByName_rejected ?_
      rintro ⟨i, -, rfl⟩
      exact hname (devHda_prefix_deviceName i)
    · rw [deviceNumber_of_lt hi]
      by_cases hlt : i < numBlockDevices.toNat
      · rw [if_pos ⟨devHda_prefix_deviceName i, Int.natCast_nonneg i, Int.ofNat_lt.2 hlt⟩]
        exact selectsByName_selected hi hlt
      · rw [if_neg fun hnot => hlt (Int.ofNat_lt.1 hnot.2.2)]
        refine selectsByName_rejected ?_
        rintro ⟨j, hj, hname⟩
        exact hlt (deviceName_inj hname ▸ hj)
    · rw [if_neg fun hnot => hnumber hnot.2]
      exact selectsByName_rejected hnamed

/-- The argument `/dev/hda`, without a number, selects the first device. -/
theorem not_selectsByName :
    (installerCmdSelectDevice id 1 [[], devHda] ⟨none, fun _ => 0⟩).2.1.targetDevice = some 0 ∧
      ¬ SelectsByName id 1 devHda ⟨none, fun _ => 0⟩
        (installerCmdSelectDevice id 1 [[], devHda] ⟨none, fun _ => 0⟩) := by
  have hnamed : ¬ ∃ i < (1 : BitVec 32).toNat, devHda = deviceName i := by
    rintro ⟨i, -, hname⟩
    exact numeral_ne_nil i (List.self_eq_append_right.1 hname)
  exact ⟨by decide, fun h => (h.rejects hnamed).1 (by decide)⟩

end Jarvis
