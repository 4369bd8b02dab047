import JarvisKernel.Boot.Pci
import JarvisKernel.Devfs.Names
import JarvisKernel.Driver.Ide
import JarvisKernel.Driver.Manager
import JarvisKernel.Installer.SelectDevice
import Mathlib.Data.Fintype.Prod
import Mathlib.Data.List.Find
import Mathlib.Data.Fintype.Pi

set_option relaxedAutoImplicit false
set_option autoImplicit false

/-!
# The devices after start-up

What `kernel_main` does about devices. The scan of the PCI bus takes every function of Intel for a disk, whatever it
is: it makes a block device for it, and registers that as `hda0`, `hda1` and so on. Then the device file system is
initialised, and these names are gone. The disk that is looked for at the ports of the first controller is registered
next, under the number that follows.

The calls of `malloc` are counted, and `alloc` has their results, 0 for `NULL`. Those of the file systems are left out,
and so is the output on the screen. The writes to the ports of a disk that reset it are left out too.

## Main definitions

* `Jarvis.Boot` — the devices, and the tables that they are in.
* `Jarvis.Boot.set8086Device`, `Jarvis.Boot.selectDrivers` — the scan of the PCI bus.
* `Jarvis.Boot.kernelMain` — the start of the kernel.
* `Jarvis.Boot.Scanned`, `Jarvis.Boot.Started` — what is there after the scan, and after the start.

## Main results

* `Jarvis.Boot.selectDrivers_eq` — the scan finds the functions that it has to find, each once and in order.
* `Jarvis.Boot.scanned_selectDrivers` — what it has made then.
* `Jarvis.Boot.devices_of_boot` — the devices that are there afterwards.
* `Jarvis.Boot.hda0_iff` — when the disk is `/dev/hda0`.
-/

namespace Jarvis

/-! ## The functions -/

/-- `BlockDevice`, without the lock and the functions, which are the same for all. -/
structure BlockDeviceRecord where
  basePort : BitVec 32
  interruptLine : BitVec 32
  blockCount : BitVec 32

/-- The functions that handlers of interrupts call. -/
inductive HandlerFunction
  | blockInterruptHandler
  | keyboardInterruptHandler
  deriving DecidableEq

/-- `MAX_BLOCK_DEVICES`. -/
def maxBlockDevices : ℕ := 256

/-- The devices, and the tables that they are in. `records` has the block devices in memory, by their addresses, and
`frees` the blocks that were passed to `free`. -/
structure Boot where
  mallocs : ℕ
  frees : List ℕ
  records : ℕ → BlockDeviceRecord
  activeBlockDevices : ℕ → ℕ
  numBlockDevices : ℕ
  handlers : BitVec 8 → Option HandlerFunction
  devfs : Devfs
  drivers : DriverManager

/-- The keyboard's driver; its functions are named by numbers. -/
def keyboardDriver : Driver := ⟨some 0, some 1, some 2⟩

/-- `ide_check_drive_exists`, with the statuses that the controller gives. The loop compares its counter with 0 and
decrements it before every poll, so that it is -1 if it runs out. -/
def ideCheckDriveExists (status : ℕ → BitVec 8) : Bool :=
  if status 4 = 0xFF then false
  else
    match (List.range 100000).find? fun i => status (4 + i) &&& 0x80 = 0 with
    | some _ => true
    | none => false

/-- The text `hda`. -/
def hda : CString := [104, 100, 97]

/-- The text `keyboard`. -/
def keyboardName : CString := [107, 101, 121, 98, 111, 97, 114, 100]

namespace Boot

variable (alloc : ℕ → ℕ)

/-- `malloc`. -/
def malloc (s : Boot) : Boot × ℕ := ({ s with mallocs := s.mallocs + 1 }, alloc s.mallocs)

/-- `free`. -/
def free (s : Boot) (p : ℕ) : Boot := { s with frees := p :: s.frees }

/-- `block_device_initialize`. -/
def blockDeviceInitialize (s : Boot) (dev : ℕ) (basePort interruptLine : BitVec 32) : Boot :=
  let s := { s with records := Function.update s.records dev ⟨basePort, interruptLine, 1000⟩ }
  match snprintf 16 (hda ++ [37, 100]) fun _ => BitVec.ofNat 32 s.numBlockDevices with
  | none => s
  | some name => { s with devfs := (s.devfs.devfsRegisterDevice name .block 3 s.numBlockDevices dev).1 }

/-- `create_block_driver`: the driver has a copy of the device, and no functions. -/
def createBlockDriver (s : Boot) : Boot × ℕ := s.malloc alloc

/-- The part of `set_8086_device` that registers a handler for the interrupt of a device. -/
def registerHandler (s : Boot) (interrupt : BitVec 32) : Boot :=
  if interrupt < 16 then
    let interruptNum : BitVec 8 := 0x20 + interrupt.setWidth 8
    if s.handlers interruptNum = none then
      match s.malloc alloc with
      | (s, 0) => s
      | (s, _) => { s with handlers := Function.update s.handlers interruptNum (some .blockInterruptHandler) }
    else s
  else s

/-- `set_8086_device`. -/
def set8086Device (s : Boot) (dev : PICDeviceDescriptor) : Boot :=
  match s.malloc alloc with
  | (s, 0) => s
  | (s, blockDev) =>
    match (s.blockDeviceInitialize blockDev dev.portBase dev.interrupt).createBlockDriver alloc with
    | (s, 0) => s.free blockDev
    | (s, blockDriver) =>
      let s := s.registerHandler alloc dev.interrupt
      if s.numBlockDevices < maxBlockDevices then
        { s with
          activeBlockDevices := Function.update s.activeBlockDevices s.numBlockDevices blockDev
          numBlockDevices := s.numBlockDevices + 1 }
      else (s.free blockDriver).free blockDev

/-- `get_driver`. No device has a driver. -/
def getDriver (s : Boot) (dev : PICDeviceDescriptor) : Boot × Option Driver :=
  if dev.vendorId = 0x1022 ∧ dev.deviceId = 0x2000 then (s, none)
  else (if dev.vendorId = 0x8086 then s.set8086Device alloc dev else s, none)

end Boot

/-- How far `select_drivers` has come: the devices, and how many functions and storage controllers it has found. -/
structure PciScan where
  boot : Boot
  deviceCount : ℕ
  storageControllerCount : ℕ

namespace Boot

variable (alloc : ℕ → ℕ) (hw : ConfigSpace) (junk : Uninitialised)

/-- The body of the loops of `select_drivers`, for a function that exists. -/
def selectFunction (s : PciScan) (dev : PICDeviceDescriptor) : PciScan :=
  match s.boot.getDriver alloc (barLoop hw junk dev) with
  | (boot, driver) =>
    { boot := { boot with drivers := boot.drivers.appendDriver driver }
      deviceCount := s.deviceCount + 1
      storageControllerCount := s.storageControllerCount + if dev.classId = 1 then 1 else 0 }

/-- The loop of `select_drivers` over the functions of a device. -/
def selectDevice (s : PciScan) (bus device : BitVec 8) : PciScan :=
  if ¬ (getDeviceDescriptor hw (junk.portBase bus device 0) bus device 0).Present then s
  else
    (List.range (if deviceHasFunctions hw bus device then 8 else 1)).foldl (fun s i =>
      let function := BitVec.ofNat 8 i
      let dev := getDeviceDescriptor hw (junk.portBase bus device function) bus device function
      if dev.Present then selectFunction alloc hw junk s dev else s) s

/-- `select_drivers`. -/
def selectDrivers (s : Boot) : PciScan :=
  (List.range 256).foldl (fun s bus =>
    (List.range 32).foldl (fun s device =>
      selectDevice alloc hw junk s (BitVec.ofNat 8 bus) (BitVec.ofNat 8 device)) s) ⟨s, 0, 0⟩

/-- `create_keyboard_driver`, and what `kernel_main` does with the driver. -/
def addKeyboard (s : Boot) : Boot :=
  match s.malloc alloc with
  | (s, 0) => s
  | (s, driver) =>
    match s.malloc alloc with
    | (s, 0) => s.free driver
    | (s, _) =>
      { s with
        handlers := Function.update s.handlers 0x21 (some .keyboardInterruptHandler)
        devfs := (s.devfs.devfsRegisterDevice keyboardName .char 1 0 driver).1
        drivers := s.drivers.appendDriver (some keyboardDriver) }

/-- The part of `kernel_main` that looks for the disk. The table of block devices is not looked at for room. -/
def addDisk (s : Boot) : Boot :=
  match s.malloc alloc with
  | (s, 0) => s
  | (s, ideDevice) =>
    let s := s.blockDeviceInitialize ideDevice 0x1F0 14
    { s with
      activeBlockDevices := Function.update s.activeBlockDevices s.numBlockDevices ideDevice
      numBlockDevices := s.numBlockDevices + 1 }

/-- `kernel_main`, with the statuses that the controller of the disk gives. -/
def kernelMain (status : ℕ → BitVec 8) (s : Boot) : Boot :=
  let s := (selectDrivers alloc hw junk s).boot
  let s := { s with devfs := Devfs.devfsInit }
  let s := if ideCheckDriveExists status then s.addDisk alloc else s
  s.addKeyboard alloc

/-- The state when the scan begins. -/
def start (records : ℕ → BlockDeviceRecord) (drivers : ℕ → Driver) : Boot where
  mallocs := 0
  frees := []
  records := records
  activeBlockDevices _ := 0
  numBlockDevices := 0
  handlers _ := none
  devfs := Devfs.devfsInit
  drivers := DriverManager.onInitDriverManager drivers


/-! ## The scan -/

section Scan

variable (alloc : ℕ → ℕ) (hw : ConfigSpace) (junk : Uninitialised)

/-- The functions of a device that the scan finds. -/
lemma selectDevice_eq (s : PciScan) (b : Fin 256) (d : Fin 32) :
    selectDevice alloc hw junk s (BitVec.ofNat 8 b) (BitVec.ofNat 8 d) =
      (List.finRange 8).foldl (fun s f =>
        if hw.Found (b, d, f) then selectFunction alloc hw junk s (descriptorAt hw junk (b, d, f)) else s) s := by
  have hdescriptor : ∀ f : Fin 8, getDeviceDescriptor hw (junk.portBase (BitVec.ofNat 8 b) (BitVec.ofNat 8 d)
      (BitVec.ofNat 8 f)) (BitVec.ofNat 8 b) (BitVec.ofNat 8 d) (BitVec.ofNat 8 f) = descriptorAt hw junk (b, d, f) :=
    fun f => rfl
  have hfirst : getDeviceDescriptor hw (junk.portBase (BitVec.ofNat 8 b) (BitVec.ofNat 8 d) 0) (BitVec.ofNat 8 b)
      (BitVec.ofNat 8 d) 0 = descriptorAt hw junk (b, d, 0) := rfl
  unfold selectDevice
  by_cases hdevice : hw.Exists (b, d, 0)
  · rw [if_neg (by rwa [hfirst, present_descriptorAt, not_not]), deviceHasFunctions_at]
    cases hmore : (hw.at (b, d, 0) 3).getLsbD 23
    · -- the first function alone
      have hothers : ∀ f : Fin 8, f ≠ 0 → ¬ hw.Found (b, d, f) := by
        rintro f hf ⟨-, -, hzero | hmore'⟩
        · exact hf hzero
        · rw [hmore] at hmore'
          exact absurd hmore' Bool.false_ne_true
      have hpresent : (descriptorAt hw junk (b, d, 0)).Present := present_descriptorAt.2 hdevice
      have hzero : hw.Found (b, d, 0) := ⟨hdevice, hdevice, .inl rfl⟩
      have hlist : List.finRange 8 = 0 :: [1, 2, 3, 4, 5, 6, 7] := by decide
      have hrest : ∀ t, [1, 2, 3, 4, 5, 6, 7].foldl (fun s f =>
          if hw.Found (b, d, f) then selectFunction alloc hw junk s (descriptorAt hw junk (b, d, f)) else s) t = t := by
        intro t
        simp [hothers]
      rw [hlist, List.foldl_cons, if_pos hzero, hrest, if_neg Bool.false_ne_true, List.range_one, List.foldl_cons,
        List.foldl_nil]
      exact if_pos hpresent
    · have hfound : ∀ f : Fin 8, hw.Found (b, d, f) ↔ hw.Exists (b, d, f) := fun f =>
        ⟨fun h => h.2.1, fun h => ⟨hdevice, h, .inr hmore⟩⟩
      have hrange : List.range 8 = (List.finRange 8).map Fin.val := by decide
      simp only [if_true, hrange, List.foldl_map, hdescriptor, present_descriptorAt, hfound]
  · rw [if_pos (by rwa [hfirst, present_descriptorAt])]
    have hfound : ∀ f : Fin 8, ¬ hw.Found (b, d, f) := fun f h => hdevice h.1
    simp only [if_neg (hfound _), List.foldl_fixed]

/-- **The scan finds the functions that it has to find**, each once and in order. -/
lemma selectDrivers_eq (s : Boot) :
    selectDrivers alloc hw junk s =
      (locations.filter hw.Found).foldl
        (fun s l => selectFunction alloc hw junk s (descriptorAt hw junk l)) ⟨s, 0, 0⟩ := by
  have hbus : List.range 256 = (List.finRange 256).map Fin.val := List.map_coe_finRange_eq_range.symm
  have hdevice : List.range 32 = (List.finRange 32).map Fin.val := List.map_coe_finRange_eq_range.symm
  rw [selectDrivers, List.foldl_filter, locations, hbus, hdevice]
  simp only [List.foldl_map, selectDevice_eq, SProd.sprod, List.product, List.foldl_flatMap, decide_eq_true_eq]

end Scan

/-! ## One function -/

section Function

variable {alloc : ℕ → ℕ} {s t : Boot}

/-- A handler is registered for an interrupt, unless there is no memory, the interrupt is not one of the first 16, or
it has one. -/
def Registers (alloc : ℕ → ℕ) (interrupt : BitVec 32) (s t : Boot) : Prop :=
  t.handlers = s.handlers ∧
      ((∃ k, alloc k = 0) ∨ ¬ interrupt < 16 ∨ s.handlers (0x20 + interrupt.setWidth 8) ≠ none) ∨
    interrupt < 16 ∧
      t.handlers = Function.update s.handlers (0x20 + interrupt.setWidth 8) (some .blockInterruptHandler)

/-- What `set_8086_device` does: there is one block device more, unless there is no memory or no room, and a handler
is registered. -/
structure Adds (alloc : ℕ → ℕ) (interrupt : BitVec 32) (s t : Boot) : Prop where
  drivers : t.drivers = s.drivers
  numBlockDevices : t.numBlockDevices = s.numBlockDevices ∧
      ((∃ k, alloc k = 0) ∨ maxBlockDevices ≤ s.numBlockDevices) ∨
    s.numBlockDevices < maxBlockDevices ∧ t.numBlockDevices = s.numBlockDevices + 1
  handlers : Registers alloc interrupt s t

/-- `register_handler` registers a handler, and nothing else. -/
lemma registers_registerHandler (alloc : ℕ → ℕ) (s : Boot) (interrupt : BitVec 32) :
    Registers alloc interrupt s (s.registerHandler alloc interrupt) ∧
      (s.registerHandler alloc interrupt).drivers = s.drivers ∧
      (s.registerHandler alloc interrupt).numBlockDevices = s.numBlockDevices := by
  rw [registerHandler]
  dsimp only
  split_ifs with hlow hfree
  · rcases hmemory : alloc s.mallocs with - | p
    · refine ⟨.inl ⟨?_, .inl ⟨_, hmemory⟩⟩, ?_, ?_⟩
      all_goals simp only [malloc, hmemory]
    · refine ⟨.inr ⟨hlow, ?_⟩, ?_, ?_⟩
      all_goals simp only [malloc, hmemory]
  · exact ⟨.inl ⟨rfl, .inr (.inr hfree)⟩, rfl, rfl⟩
  · exact ⟨.inl ⟨rfl, .inr (.inl hlow)⟩, rfl, rfl⟩

/-- `block_device_initialize` changes the record and the device file system. -/
lemma blockDeviceInitialize_keeps (s : Boot) (dev : ℕ) (basePort interruptLine : BitVec 32) :
    ∃ devfs, s.blockDeviceInitialize dev basePort interruptLine =
      { s with records := Function.update s.records dev ⟨basePort, interruptLine, 1000⟩, devfs := devfs } := by
  rw [blockDeviceInitialize]
  cases snprintf 16 (hda ++ [37, 100]) fun _ => BitVec.ofNat 32 s.numBlockDevices
  · exact ⟨s.devfs, rfl⟩
  · exact ⟨_, rfl⟩

/-- `set_8086_device` adds the disks of the controller and a handler for its interrupt. -/
lemma adds_set8086Device (alloc : ℕ → ℕ) (s : Boot) (dev : PICDeviceDescriptor) :
    Adds alloc dev.interrupt s (s.set8086Device alloc dev) := by
  rw [set8086Device]
  rcases hdevice : alloc s.mallocs with - | blockDev
  · simp only [malloc, hdevice]
    exact ⟨rfl, .inl ⟨rfl, .inl ⟨_, hdevice⟩⟩, .inl ⟨rfl, .inl ⟨_, hdevice⟩⟩⟩
  · simp only [malloc, hdevice]
    obtain ⟨devfs, hinitialised⟩ := blockDeviceInitialize_keeps { s with mallocs := s.mallocs + 1 } (blockDev + 1)
      dev.portBase dev.interrupt
    rw [hinitialised, createBlockDriver]
    rcases hdriver : alloc (s.mallocs + 1) with - | blockDriver
    · simp only [malloc, hdriver]
      exact ⟨rfl, .inl ⟨rfl, .inl ⟨_, hdriver⟩⟩, .inl ⟨rfl, .inl ⟨_, hdriver⟩⟩⟩
    · simp only [malloc, hdriver]
      obtain ⟨hhandlers, hdrivers, hnum⟩ := registers_registerHandler alloc
        { s with
          mallocs := s.mallocs + 1 + 1
          records := Function.update s.records (blockDev + 1) ⟨dev.portBase, dev.interrupt, 1000⟩
          devfs := devfs } dev.interrupt
      split_ifs with hroom
      · rw [hnum] at hroom
        exact ⟨hdrivers, .inr ⟨hroom, congrArg (· + 1) hnum⟩, hhandlers⟩
      · rw [hnum] at hroom
        exact ⟨hdrivers, .inl ⟨hnum, .inr (not_lt.1 hroom)⟩, hhandlers⟩

end Function

/-! ## The whole scan -/

/-- A function of Intel. -/
def Intel (hw : ConfigSpace) (l : Location) : Prop := hw.vendor l = 0x8086

instance (hw : ConfigSpace) : DecidablePred (Intel hw) := fun l => inferInstanceAs (Decidable (hw.vendor l = 0x8086))

/-- A function asks for the handler of an interrupt. The whole register is compared with 16; the number of the
interrupt is its lowest byte. -/
def AsksFor (hw : ConfigSpace) (l : Location) (v : BitVec 8) : Prop :=
  hw.at l 15 < 16 ∧ v = 0x20 + (hw.at l 15).setWidth 8

/-- What the scan has done when it has found the functions at some locations. -/
structure Scanned (alloc : ℕ → ℕ) (hw : ConfigSpace) (ls : List Location) (s : PciScan) : Prop where
  deviceCount : s.deviceCount = ls.length
  numBlockDevices_le : s.boot.numBlockDevices ≤ min maxBlockDevices (ls.countP (Intel hw))
  numBlockDevices_eq : (∀ k, alloc k ≠ 0) → s.boot.numBlockDevices = min maxBlockDevices (ls.countP (Intel hw))
  handlers : ∀ v, s.boot.handlers v ≠ none →
    s.boot.handlers v = some .blockInterruptHandler ∧ ∃ l ∈ ls, Intel hw l ∧ AsksFor hw l v
  asked : (∀ k, alloc k ≠ 0) → ∀ l ∈ ls, Intel hw l → ∀ v, AsksFor hw l v → s.boot.handlers v ≠ none
  drivers : s.boot.drivers.size = 0

section Whole

variable {alloc : ℕ → ℕ} {hw : ConfigSpace} {junk : Uninitialised} {ls : List Location} {l : Location} {s : PciScan}
  {t : Boot}

/-- One function more that is not one of Intel. -/
lemma Scanned.other (h : Scanned alloc hw ls s) (hl : ¬ Intel hw l) (n : ℕ) :
    Scanned alloc hw (ls ++ [l]) ⟨s.boot, s.deviceCount + 1, n⟩ where
  deviceCount := by
    rw [List.length_append, List.length_singleton, ← h.deviceCount]
  numBlockDevices_le := by
    rw [List.countP_append, List.countP_singleton, if_neg (by simpa using hl), Nat.add_zero]
    exact h.numBlockDevices_le
  numBlockDevices_eq := by
    rw [List.countP_append, List.countP_singleton, if_neg (by simpa using hl), Nat.add_zero]
    exact h.numBlockDevices_eq
  handlers v hv := by
    obtain ⟨hblock, l', hmem, hasks⟩ := h.handlers v hv
    exact ⟨hblock, l', List.mem_append_left [l] hmem, hasks⟩
  asked hmemory l' hmem hintel := by
    rcases List.mem_append.1 hmem with hmem | hmem
    · exact h.asked hmemory l' hmem hintel
    · rw [List.mem_singleton.1 hmem] at hintel
      exact absurd hintel hl
  drivers := h.drivers

/-- One function more of Intel. -/
lemma Scanned.intel (h : Scanned alloc hw ls s) (hl : Intel hw l) (hadds : Adds alloc (hw.at l 15) s.boot t) (n : ℕ) :
    Scanned alloc hw (ls ++ [l]) ⟨t, s.deviceCount + 1, n⟩ := by
  have hcount : (ls ++ [l]).countP (Intel hw) = ls.countP (Intel hw) + 1 := by
    rw [List.countP_append, List.countP_singleton, if_pos (by simpa using hl)]
  have hle := h.numBlockDevices_le
  refine ⟨?_, ?_, fun hmemory => ?_, fun v hv => ?_, fun hmemory l' hmem hintel v hasks => ?_, ?_⟩
  · rw [List.length_append, List.length_singleton, ← h.deviceCount]
  · rw [hcount]
    dsimp only
    rcases hadds.numBlockDevices with ⟨hnum, -⟩ | ⟨hroom, hnum⟩
    · omega
    · omega
  · have heq := h.numBlockDevices_eq hmemory
    rw [hcount]
    dsimp only
    rcases hadds.numBlockDevices with ⟨hnum, ⟨k, hk⟩ | hfull⟩ | ⟨hroom, hnum⟩
    · exact absurd hk (hmemory k)
    · omega
    · omega
  · rcases hadds.handlers with ⟨hsame, -⟩ | ⟨hlow, hupdate⟩
    · rw [hsame] at hv
      obtain ⟨hblock, l', hmem, hasks⟩ := h.handlers v hv
      exact ⟨hsame ▸ hblock, l', List.mem_append_left [l] hmem, hasks⟩
    · rcases eq_or_ne v (0x20 + (hw.at l 15).setWidth 8) with hv' | hv'
      · refine ⟨?_, l, List.mem_append_right ls (List.mem_singleton_self l), hl, hlow, hv'⟩
        rw [hupdate, hv', Function.update_self]
      · rw [hupdate, Function.update_of_ne hv'] at hv ⊢
        obtain ⟨hblock, l', hmem, hasks⟩ := h.handlers v hv
        exact ⟨hblock, l', List.mem_append_left [l] hmem, hasks⟩
  · -- a handler that is there is kept, and the one that is asked for now is registered
    have hkeeps : ∀ v, s.boot.handlers v ≠ none → t.handlers v ≠ none := by
      intro v hv
      rcases hadds.handlers with ⟨hsame, -⟩ | ⟨-, hupdate⟩
      · rwa [hsame]
      · rw [hupdate, Function.update_apply]
        split_ifs
        · exact Option.some_ne_none _
        · exact hv
    rcases List.mem_append.1 hmem with hmem | hmem
    · exact hkeeps v (h.asked hmemory l' hmem hintel v hasks)
    · obtain ⟨hlow, rfl⟩ := hasks
      obtain rfl := List.mem_singleton.1 hmem
      rcases hadds.handlers with ⟨hsame, ⟨k, hk⟩ | hhigh | hsome⟩ | ⟨-, hupdate⟩
      · exact absurd hk (hmemory k)
      · exact absurd hlow hhigh
      · rwa [hsame]
      · rw [hupdate, Function.update_self]
        exact Option.some_ne_none _
  · rw [hadds.drivers]
    exact h.drivers

/-- What one function does. -/
lemma Scanned.selectFunction (h : Scanned alloc hw ls s) (l : Location) :
    Scanned alloc hw (ls ++ [l]) (selectFunction alloc hw junk s (descriptorAt hw junk l)) := by
  obtain ⟨base, hbase⟩ := barLoop_keeps hw junk (descriptorAt hw junk l)
  have hvendor : (barLoop hw junk (descriptorAt hw junk l)).vendorId = hw.vendor l := by
    rw [hbase]
    exact vendorId_descriptorAt hw junk l
  have hinterrupt : (barLoop hw junk (descriptorAt hw junk l)).interrupt = hw.at l 15 := by
    rw [hbase]
    exact interrupt_descriptorAt hw junk l
  rw [Boot.selectFunction, getDriver]
  by_cases hintel : Intel hw l
  · rw [if_neg fun hamd => absurd (hintel.symm.trans (hvendor.symm.trans hamd.1)) (by decide),
      if_pos (hvendor.trans hintel)]
    refine h.intel hintel ?_ _
    rw [← hinterrupt]
    exact adds_set8086Device alloc s.boot _
  · have hother : ∀ c : Prop, ∀ [Decidable c],
        (if c then (s.boot, (none : Option Driver)) else
          (if (barLoop hw junk (descriptorAt hw junk l)).vendorId = 0x8086 then
            s.boot.set8086Device alloc (barLoop hw junk (descriptorAt hw junk l)) else s.boot, none)) =
          (s.boot, none) := by
      intro c _
      rw [if_neg fun hv => hintel (hvendor.symm.trans hv), ite_self]
    rw [hother]
    exact h.other hintel _

/-- **The whole scan.** -/
lemma scanned_selectDrivers (alloc : ℕ → ℕ) (hw : ConfigSpace) (junk : Uninitialised)
    (records : ℕ → BlockDeviceRecord) (drivers : ℕ → Driver) :
    Scanned alloc hw (locations.filter hw.Found) (selectDrivers alloc hw junk (start records drivers)) := by
  have hrun : ∀ ls : List Location, Scanned alloc hw ls (ls.foldl
      (fun s l => Boot.selectFunction alloc hw junk s (descriptorAt hw junk l)) ⟨start records drivers, 0, 0⟩) := by
    intro ls
    induction ls using List.reverseRecOn with
    | nil =>
      refine ⟨rfl, Nat.zero_le _, fun _ => rfl, fun v hv => absurd rfl hv, fun _ l hl => absurd hl List.not_mem_nil,
        rfl⟩
    | append_singleton ls l ih =>
      rw [List.foldl_append]
      exact ih.selectFunction l
  rw [selectDrivers_eq]
  exact hrun _

end Whole

/-! ## Names of disks -/

section Names

/-- The digits that `snprintf` puts are the numeral. -/
lemma putDigits_eq {rounds n : ℕ} (hlt : n < 10 ^ (rounds + 1)) : putDigits (rounds + 1) n = numeral n := by
  induction rounds generalizing n with
  | zero =>
    have hdigit : ∀ n : ℕ, n < 10 → putDigits 1 n = [UInt8.ofNat (48 + n)] := by decide
    have hnumeral : numeral n = [UInt8.ofNat (48 + n)] := by
      rw [numeral, Numeral.lowDigits_eq (by decide), Nat.mod_eq_of_lt (by omega), Nat.div_eq_of_lt (by omega)]
      rfl
    rw [hdigit n (by omega), hnumeral]
  | succ rounds ih =>
    have hmod : (n : ℤ).tmod 10 = ((n % 10 : ℕ) : ℤ) := rfl
    have hdiv : (n : ℤ).tdiv 10 = ((n / 10 : ℕ) : ℤ) := rfl
    have hdigits : ∀ d : ℕ, d < 10 → UInt8.ofInt (48 + (d : ℤ)) = UInt8.ofNat (48 + d) := by decide
    rw [putDigits, hmod, hdiv, hdigits (n % 10) (Nat.mod_lt n (Nat.succ_pos 9)), numeral,
      Numeral.lowDigits_eq (by decide), List.map_cons, List.reverse_cons]
    congr 1
    split_ifs with hmore hmore'
    · exact ih (by omega)
    · exact absurd (by exact_mod_cast hmore) hmore'
    · exact absurd (by exact_mod_cast ‹0 < n / 10›) hmore
    · rfl

/-- The name that `block_device_initialize` prints. -/
lemma snprintf_hda {n : ℕ} (hn : n < 2 ^ 31) :
    snprintf 16 (hda ++ [37, 100]) (fun _ => BitVec.ofNat 32 n) = some (hda ++ numeral n) := by
  have hprint : ∀ v : BitVec 32, snprintf 16 (hda ++ [37, 100]) (fun _ => v) =
      some (if 15 ≤ (hda ++ if v.slt 0 then ([45] : CString) else []).length +
          (putDigits 10 (if v.slt 0 then -v else v).toInt).length then hda ++ if v.slt 0 then ([45] : CString) else []
        else (hda ++ if v.slt 0 then ([45] : CString) else []) ++ putDigits 10 (if v.slt 0 then -v else v).toInt) :=
    fun v => rfl
  have hint := toInt_ofNat_of_lt hn
  have hslt : ¬ (BitVec.ofNat 32 n).slt 0 = true := by
    rw [BitVec.slt_iff_toInt_lt, hint]
    exact not_lt.2 (Int.natCast_nonneg n)
  have hlength := length_numeral_le (n := n) (by omega)
  have hhda : hda.length = 3 := rfl
  rw [hprint, if_neg hslt, if_neg hslt, hint, putDigits_eq (by omega), List.append_nil, hhda, if_neg (by omega)]

/-- The names of the disks tell them apart. -/
lemma hda_numeral_inj {m n : ℕ} : hda ++ numeral m = hda ++ numeral n ↔ m = n := by
  refine ⟨fun h => ?_, fun h => by rw [h]⟩
  have hnumber := congrArg leadingNumber (List.append_cancel_left h)
  rw [leadingNumber_numeral, leadingNumber_numeral] at hnumber
  exact_mod_cast hnumber

/-- The keyboard is not named like a disk. -/
lemma keyboardName_ne (m : ℕ) : keyboardName ≠ hda ++ numeral m := fun h => absurd (List.cons.inj h).1 (by decide)

end Names

/-! ## The devices afterwards -/

/-- There is a disk with a number, in the record at an address, and no other one has a name. -/
structure HasDisk (s : Boot) (n ide : ℕ) : Prop where
  numBlockDevices : s.numBlockDevices = n + 1
  active : s.activeBlockDevices n = ide
  record : s.records ide = ⟨0x1F0, 14, 1000⟩
  found : ∀ m, s.devfs.findDeviceByName (hda ++ numeral m) = if m = n then some 0 else none
  node : s.devfs.devices 0 = ⟨hda ++ numeral n, .block, 3, n, ide⟩

/-- There is no disk more than before, and none has a name. -/
structure HasNoDisk (s : Boot) (n : ℕ) : Prop where
  numBlockDevices : s.numBlockDevices = n
  found : ∀ m, s.devfs.findDeviceByName (hda ++ numeral m) = none

section Disk

variable {alloc : ℕ → ℕ} {s : Boot} {n ide : ℕ} {d : Devfs} {name : CString}

/-- Registering a device does not change where another name is found. -/
lemma findDeviceByName_register (d : Devfs) (node : DeviceNode) (hname : node.name.take 31 ≠ name) :
    (d.registerNode node).1.findDeviceByName name = d.findDeviceByName name := by
  rcases Devfs.registerNode_cases d node with ⟨-, hres⟩ | ⟨-, -, hres⟩
  · rw [hres]
  · have hlast : [d.numDevices].find? (fun i => decide ((Function.update d.devices d.numDevices
        { node with name := node.name.take (Devfs.nameSize - 1) } i).name = name)) = none := by
      rw [List.find?_eq_none]
      intro i hi
      rw [List.mem_singleton.1 hi, Function.update_self, decide_eq_true_iff]
      exact hname
    have hold : (List.range d.numDevices).find? (fun i => decide ((Function.update d.devices d.numDevices
        { node with name := node.name.take (Devfs.nameSize - 1) } i).name = name)) = d.findDeviceByName name := by
      refine List.find?_congr fun i hi => ?_
      rw [Function.update_of_ne (List.mem_range.1 hi).ne]
    rw [hres, Devfs.findDeviceByName]
    dsimp only
    rw [List.range_succ, List.find?_append, hlast, Option.or_none, hold]

/-- Registering a device keeps the devices that are there. -/
lemma devices_register (d : Devfs) (node : DeviceNode) {i : ℕ} (hi : i < d.numDevices) :
    (d.registerNode node).1.devices i = d.devices i := by
  rcases Devfs.registerNode_cases d node with ⟨-, hres⟩ | ⟨-, -, hres⟩
  · rw [hres]
  · rw [hres]
    exact Function.update_of_ne hi.ne _ _

/-- What `block_device_initialize` registers in an empty table. -/
lemma devfs_blockDeviceInitialize (hs : s.devfs = Devfs.devfsInit) (hn : s.numBlockDevices < 2 ^ 31) (dev : ℕ)
    (basePort interruptLine : BitVec 32) :
    (s.blockDeviceInitialize dev basePort interruptLine).devfs =
      ⟨Function.update (fun _ => {}) 0 ⟨hda ++ numeral s.numBlockDevices, .block, 3, s.numBlockDevices, dev⟩, 1⟩ := by
  have hlength := length_numeral_le (n := s.numBlockDevices) (by omega)
  have hhda : hda.length = 3 := rfl
  have htake : (hda ++ numeral s.numBlockDevices).take 31 = hda ++ numeral s.numBlockDevices := by
    rw [List.take_of_length_le]
    rw [List.length_append]
    omega
  have hname := snprintf_hda hn
  rw [blockDeviceInitialize]
  dsimp only
  rw [hname]
  dsimp only
  rw [hs, Devfs.devfsRegisterDevice, if_neg (by decide), if_neg (by simp [Devfs.findDeviceByName, Devfs.devfsInit])]
  dsimp only [Devfs.devfsInit, Devfs.nameSize]
  rw [htake]

/-- **The disk is added** under the number of the devices that are there. -/
lemma hasDisk_addDisk (hs : s.devfs = Devfs.devfsInit) (hn : s.numBlockDevices < 2 ^ 31) (hide : alloc s.mallocs ≠ 0) :
    HasDisk (s.addDisk alloc) s.numBlockDevices (alloc s.mallocs) ∧ (s.addDisk alloc).handlers = s.handlers ∧
      (s.addDisk alloc).drivers = s.drivers := by
  set t : Boot := { s with mallocs := s.mallocs + 1 } with ht
  obtain ⟨devfs, hinitialised⟩ := blockDeviceInitialize_keeps t (alloc s.mallocs) 0x1F0 14
  have hdevfs := devfs_blockDeviceInitialize (s := t) hs hn (alloc s.mallocs) 0x1F0 14
  rw [hinitialised] at hdevfs
  dsimp only at hdevfs
  have hnum : t.numBlockDevices = s.numBlockDevices := rfl
  have hadd : s.addDisk alloc =
      { t with
        records := Function.update s.records (alloc s.mallocs) ⟨0x1F0, 14, 1000⟩
        activeBlockDevices := Function.update s.activeBlockDevices s.numBlockDevices (alloc s.mallocs)
        numBlockDevices := s.numBlockDevices + 1
        devfs := devfs } := by
    rw [addDisk]
    rcases hmemory : alloc s.mallocs with - | p
    · exact absurd hmemory hide
    · rw [hmemory] at hinitialised
      simp only [malloc, hmemory]
      rw [← ht, hinitialised]
  rw [hadd]
  refine ⟨⟨rfl, Function.update_self .., Function.update_self .., fun m => ?_, ?_⟩, rfl, rfl⟩
  · rw [hdevfs, hnum, Devfs.findDeviceByName]
    rcases eq_or_ne m s.numBlockDevices with rfl | hne
    · simp
    · have hname : numeral s.numBlockDevices ≠ numeral m := fun h =>
        hne (hda_numeral_inj.1 (congrArg (hda ++ ·) h)).symm
      simp [hname, hne]
  · rw [hdevfs, hnum]
    rfl

/-- Without memory for it, no disk is added. -/
lemma addDisk_of_no_memory (hide : alloc s.mallocs = 0) :
    s.addDisk alloc = { s with mallocs := s.mallocs + 1 } := by
  simp only [addDisk, malloc, hide]

/-- What the keyboard's driver changes. -/
structure AddsKeyboard (alloc : ℕ → ℕ) (s t : Boot) : Prop where
  numBlockDevices : t.numBlockDevices = s.numBlockDevices
  active : t.activeBlockDevices = s.activeBlockDevices
  records : t.records = s.records
  found : ∀ m, t.devfs.findDeviceByName (hda ++ numeral m) = s.devfs.findDeviceByName (hda ++ numeral m)
  devices : ∀ i < s.devfs.numDevices, t.devfs.devices i = s.devfs.devices i
  installed : t.handlers = Function.update s.handlers 0x21 (some .keyboardInterruptHandler) ∧
      t.drivers = s.drivers.appendDriver (some keyboardDriver) ∨
    (∃ k, alloc k = 0) ∧ t.handlers = s.handlers ∧ t.drivers = s.drivers

/-- Adding the keyboard leaves the disks, and installs its driver and handler unless memory runs out. -/
lemma addsKeyboard_addKeyboard (alloc : ℕ → ℕ) (s : Boot) : AddsKeyboard alloc s (s.addKeyboard alloc) := by
  rw [addKeyboard]
  rcases hdriver : alloc s.mallocs with - | driver
  · simp only [malloc, hdriver]
    exact ⟨rfl, rfl, rfl, fun _ => rfl, fun _ _ => rfl, .inr ⟨⟨_, hdriver⟩, rfl, rfl⟩⟩
  · simp only [malloc, hdriver]
    rcases hhandler : alloc (s.mallocs + 1) with - | handler
    · simp only
      exact ⟨rfl, rfl, rfl, fun _ => rfl, fun _ _ => rfl, .inr ⟨⟨_, hhandler⟩, rfl, rfl⟩⟩
    · simp only
      exact ⟨rfl, rfl, rfl,
        fun m => findDeviceByName_register s.devfs ⟨keyboardName, .char, 1, 0, driver + 1⟩ (keyboardName_ne m),
        fun i hi => devices_register s.devfs ⟨keyboardName, .char, 1, 0, driver + 1⟩ hi, .inl ⟨rfl, rfl⟩⟩

/-- The keyboard's driver keeps the disk. -/
lemma AddsKeyboard.hasDisk {t : Boot} (h : AddsKeyboard alloc s t) (hs : HasDisk s n ide) : HasDisk t n ide := by
  have hfound := hs.found n
  rw [if_pos rfl, Devfs.findDeviceByName_eq] at hfound
  refine ⟨h.numBlockDevices.trans hs.numBlockDevices, ?_, ?_, fun m => ?_, ?_⟩
  · rw [h.active]
    exact hs.active
  · rw [h.records]
    exact hs.record
  · rw [h.found]
    exact hs.found m
  · rw [h.devices 0 (KeyedTable.find_spec hfound).1]
    exact hs.node

end Disk

/-- The number of the functions of Intel. -/
def intelCount (hw : ConfigSpace) : ℕ := (Finset.univ.filter fun l => hw.Found l ∧ Intel hw l).card

/-- The devices that are there when the kernel has started, where the scan ends with `scan`. -/
structure Started (alloc : ℕ → ℕ) (hw : ConfigSpace) (status : ℕ → BitVec 8) (scan : PciScan) (s : Boot) : Prop where
  deviceCount : scan.deviceCount = (Finset.univ.filter hw.Found).card
  scanned_le : scan.boot.numBlockDevices ≤ min maxBlockDevices (intelCount hw)
  scanned_eq : (∀ k, alloc k ≠ 0) → scan.boot.numBlockDevices = min maxBlockDevices (intelCount hw)
  disk : ideCheckDriveExists status = true → alloc scan.boot.mallocs ≠ 0 →
    HasDisk s scan.boot.numBlockDevices (alloc scan.boot.mallocs)
  noDisk : ¬ (ideCheckDriveExists status = true ∧ alloc scan.boot.mallocs ≠ 0) → HasNoDisk s scan.boot.numBlockDevices
  handlers : ∀ v, s.handlers v ≠ none →
    v = 0x21 ∧ s.handlers v = some .keyboardInterruptHandler ∨
      s.handlers v = some .blockInterruptHandler ∧ ∃ l, hw.Found l ∧ Intel hw l ∧ AsksFor hw l v
  asked : (∀ k, alloc k ≠ 0) → ∀ l, hw.Found l → Intel hw l → ∀ v, AsksFor hw l v → s.handlers v ≠ none
  drivers : s.drivers.stored = [] ∨ s.drivers.stored = [keyboardDriver]
  keyboard : (∀ k, alloc k ≠ 0) →
    s.handlers 0x21 = some .keyboardInterruptHandler ∧ s.drivers.stored = [keyboardDriver]

/-- **The devices that are there when the kernel has started.**

**Proof sketch.** The scan finds every function of a device that it has to find, each once, and makes a block device
for those of Intel. The table of the device file system is cleared then, so that the disk is the first one in it, with
the number of the devices that the scan made. -/
theorem devices_of_boot (alloc : ℕ → ℕ) (hw : ConfigSpace) (junk : Uninitialised) (status : ℕ → BitVec 8)
    (records : ℕ → BlockDeviceRecord) (drivers : ℕ → Driver) :
    Started alloc hw status (selectDrivers alloc hw junk (start records drivers))
      (kernelMain alloc hw junk status (start records drivers)) := by
  have hscan := scanned_selectDrivers alloc hw junk records drivers
  set scan := selectDrivers alloc hw junk (start records drivers) with hscan_def
  set b : Boot := { scan.boot with devfs := Devfs.devfsInit } with hb
  set t : Boot := if ideCheckDriveExists status then b.addDisk alloc else b with ht
  have hkeyboard := addsKeyboard_addKeyboard alloc t
  have hmain : kernelMain alloc hw junk status (start records drivers) = t.addKeyboard alloc := rfl
  have hintels : (locations.filter hw.Found).countP (Intel hw) = intelCount hw := by
    rw [List.countP_eq_length_filter, List.filter_filter, intelCount,
      ← List.toFinset_card_of_nodup (nodup_locations.filter _)]
    refine congrArg Finset.card (Finset.ext fun l => ?_)
    rw [List.mem_toFinset, List.mem_filter, Finset.mem_filter]
    simp [mem_locations, and_comm]
  have hle := hscan.numBlockDevices_le
  have hsmall : b.numBlockDevices < 2 ^ 31 := by
    have hmax : maxBlockDevices = 256 := rfl
    change scan.boot.numBlockDevices < 2 ^ 31
    omega
  -- what looking for the disk does
  have hdisk : ideCheckDriveExists status = true ∧ alloc b.mallocs ≠ 0 ∧ t = b.addDisk alloc ∨
      ¬ (ideCheckDriveExists status = true ∧ alloc b.mallocs ≠ 0) ∧ ∃ k, t = { b with mallocs := k } := by
    rw [ht]
    split_ifs with hexists
    · by_cases hide : alloc b.mallocs = 0
      · exact .inr ⟨fun h => h.2 hide, _, addDisk_of_no_memory hide⟩
      · exact .inl ⟨hexists, hide, rfl⟩
    · exact .inr ⟨fun h => hexists h.1, b.mallocs, rfl⟩
  have hkeeps : t.handlers = scan.boot.handlers ∧ t.drivers = scan.boot.drivers := by
    rcases hdisk with ⟨-, hide, hadded⟩ | ⟨-, k, hsame⟩
    · obtain ⟨-, hhandlers, hdrivers⟩ := hasDisk_addDisk (s := b) rfl hsmall hide
      rw [hadded]
      exact ⟨hhandlers, hdrivers⟩
    · rw [hsame]
      exact ⟨rfl, rfl⟩
  have hmem : ∀ l, l ∈ locations.filter hw.Found ↔ hw.Found l := fun l => by simp [mem_locations]
  have hempty : t.drivers.size = 0 := by
    rw [hkeeps.2]
    exact hscan.drivers
  have hnone_stored : t.drivers.stored = [] := by
    rw [DriverManager.stored, hempty]
    rfl
  have hone_stored : (t.drivers.appendDriver (some keyboardDriver)).stored = [keyboardDriver] := by
    have hlength : [keyboardDriver].length < 256 := by decide
    simpa [DriverManager.appendAll] using DriverManager.stored_appendAll hempty hlength
  rw [hmain]
  refine ⟨?_, hintels ▸ hle, hintels ▸ hscan.numBlockDevices_eq, fun hexists hide => ?_, fun hnone => ?_,
    fun v hv => ?_, fun hmemory l hfound hintel v hasks => ?_, ?_, fun hmemory => ?_⟩
  · rw [hscan.deviceCount, ← List.toFinset_card_of_nodup (nodup_locations.filter _)]
    refine congrArg Finset.card (Finset.ext fun l => ?_)
    rw [List.mem_toFinset, hmem, Finset.mem_filter]
    exact (and_iff_right (Finset.mem_univ l)).symm
  · obtain ⟨-, -, hadded⟩ | ⟨hnot, -⟩ := hdisk
    · obtain ⟨hadd, -, -⟩ := hasDisk_addDisk (s := b) rfl hsmall hide
      rw [← hadded] at hadd
      exact hkeyboard.hasDisk hadd
    · exact absurd ⟨hexists, hide⟩ hnot
  · obtain ⟨hexists, hide, -⟩ | ⟨-, k, hsame⟩ := hdisk
    · exact absurd ⟨hexists, hide⟩ hnone
    · have hnum : t.numBlockDevices = scan.boot.numBlockDevices := by
        rw [hsame]
      refine ⟨hkeyboard.numBlockDevices.trans hnum, fun m => ?_⟩
      rw [hkeyboard.found, hsame]
      rfl
  · rcases hkeyboard.installed with ⟨hhandlers, -⟩ | ⟨-, hhandlers, -⟩
    · rw [hhandlers] at hv ⊢
      rcases eq_or_ne v 0x21 with rfl | hne
      · exact .inl ⟨rfl, Function.update_self ..⟩
      · rw [Function.update_of_ne hne, hkeeps.1] at hv ⊢
        obtain ⟨hblock, l, hl, hasks⟩ := hscan.handlers v hv
        exact .inr ⟨hblock, l, (hmem l).1 hl, hasks⟩
    · rw [hhandlers, hkeeps.1] at hv ⊢
      obtain ⟨hblock, l, hl, hasks⟩ := hscan.handlers v hv
      exact .inr ⟨hblock, l, (hmem l).1 hl, hasks⟩
  · have hasked := hscan.asked hmemory l ((hmem l).2 hfound) hintel v hasks
    rcases hkeyboard.installed with ⟨hhandlers, -⟩ | ⟨⟨k, hk⟩, -⟩
    · rw [hhandlers, Function.update_apply]
      split_ifs
      · exact Option.some_ne_none _
      · rwa [hkeeps.1]
    · exact absurd hk (hmemory k)
  · rcases hkeyboard.installed with ⟨-, hdrivers⟩ | ⟨-, -, hdrivers⟩
    · rw [hdrivers]
      exact .inr hone_stored
    · rw [hdrivers]
      exact .inl hnone_stored
  · rcases hkeyboard.installed with ⟨hhandlers, hdrivers⟩ | ⟨⟨k, hk⟩, -⟩
    · rw [hhandlers, hdrivers]
      exact ⟨Function.update_self .., hone_stored⟩
    · exact absurd hk (hmemory k)

/-- **The disk is `/dev/hda0`** exactly if the scan finds no function of Intel: a chipset of Intel takes the name. -/
theorem hda0_iff {alloc : ℕ → ℕ} {hw : ConfigSpace} {status : ℕ → BitVec 8} {scan : PciScan} {s : Boot}
    (h : Started alloc hw status scan s) (hmemory : ∀ k, alloc k ≠ 0) (hexists : ideCheckDriveExists status = true) :
    s.devfs.findDeviceByName (hda ++ [48]) ≠ none ↔ ∀ l, hw.Found l → ¬ Intel hw l := by
  have hcount : intelCount hw = 0 ↔ ∀ l, hw.Found l → ¬ Intel hw l := by
    rw [intelCount, Finset.card_eq_zero, Finset.filter_eq_empty_iff]
    simp only [Finset.mem_univ, true_imp_iff, not_and]
  have hfound : s.devfs.findDeviceByName (hda ++ [48]) = if 0 = scan.boot.numBlockDevices then some 0 else none :=
    (h.disk hexists (hmemory _)).found 0
  have hnum := h.scanned_eq hmemory
  have hmax : maxBlockDevices = 256 := rfl
  rw [hfound, ← hcount]
  split_ifs with hzero
  · exact iff_of_true (Option.some_ne_none 0) (by omega)
  · exact iff_of_false (fun hne => hne rfl) (by omega)

end Boot

end Jarvis
