import Mathlib.Algebra.Order.Ring.Nat
import Mathlib.Data.List.FinRange
import Mathlib.Data.List.ProdSigma
import Mathlib.Tactic.Common
import Mathlib.Tactic.IntervalCases

set_option relaxedAutoImplicit false
set_option autoImplicit false

/-!
# Reading the PCI bus

The functions of `src/kernel/pic.c` that read the configuration of PCI devices through two ports: a register is
selected by an address that is written to the first one, and read from the second one. What the devices have in their
registers is arbitrary.

Variables that are not initialised are arbitrary too: the base of the ports in a descriptor, and whatever
`get_base_address_register` does not set in what it returns.

## Main definitions

* `Jarvis.ConfigSpace`, `Jarvis.ConfigSpace.select` — the registers, and how they are selected.
* `Jarvis.picRead`, `Jarvis.getDeviceDescriptor`, `Jarvis.getBaseAddressRegister` — the functions.
* `Jarvis.ConfigSpace.Found` — the functions that a scan of the bus has to find.

## Main results

* `Jarvis.picRead_eq` — a read gives the part of the register that was asked for.
* `Jarvis.vendorId_descriptorAt`, `Jarvis.deviceHasFunctions_at` — what the scan learns from it.
-/

namespace Jarvis

/-! ## Registers -/

/-- The registers of 4 bytes of the functions of devices, by bus, device, function and number. -/
abbrev ConfigSpace := BitVec 8 → BitVec 5 → BitVec 3 → BitVec 6 → BitVec 32

/-- What the data port has after an address was written to the command port. -/
def ConfigSpace.select (hw : ConfigSpace) (id : BitVec 32) : BitVec 32 :=
  if id.getLsbD 31 then
    hw (id.extractLsb' 16 8) (id.extractLsb' 11 5) (id.extractLsb' 8 3) (id.extractLsb' 2 6)
  else 0xFFFFFFFF

/-- The address that `read` writes to the command port. -/
def configAddress (bus device function registeroffset : BitVec 8) : BitVec 32 :=
  1 <<< 31 ||| (bus.setWidth 32 &&& 0xff) <<< 16 ||| (device.setWidth 32 &&& 0x1f) <<< 11 |||
    (function.setWidth 32 &&& 0x07) <<< 8 ||| (registeroffset.setWidth 32 &&& 0xfc)

/-- `read`. -/
def picRead (hw : ConfigSpace) (bus device function registeroffset : BitVec 8) : BitVec 32 :=
  hw.select (configAddress bus device function registeroffset) >>> (8 * (registeroffset.toNat % 4))

/-- `device_has_functions`. -/
def deviceHasFunctions (hw : ConfigSpace) (bus device : BitVec 8) : Bool :=
  (picRead hw bus device 0 0x0e &&& 1 <<< 7).setWidth 8 != 0

/-- `PICDeviceDescriptor`. -/
structure PICDeviceDescriptor where
  portBase : BitVec 32
  interrupt : BitVec 32
  bus : BitVec 8
  device : BitVec 8
  function : BitVec 8
  deviceId : BitVec 16
  vendorId : BitVec 16
  classId : BitVec 8
  subclassId : BitVec 8
  interfaceId : BitVec 8
  revision : BitVec 8

/-- `get_device_descriptor`; `portBase` is what the field has that is not set. -/
def getDeviceDescriptor (hw : ConfigSpace) (portBase : BitVec 32) (bus device function : BitVec 8) :
    PICDeviceDescriptor where
  portBase := portBase
  interrupt := picRead hw bus device function 0x3c
  bus := bus
  device := device
  function := function
  deviceId := (picRead hw bus device function 0x02).setWidth 16
  vendorId := (picRead hw bus device function 0).setWidth 16
  classId := (picRead hw bus device function 0x0b).setWidth 8
  subclassId := (picRead hw bus device function 0x0a).setWidth 8
  interfaceId := (picRead hw bus device function 0x09).setWidth 8
  revision := (picRead hw bus device function 0x08).setWidth 8

/-- `BaseAddressRegisterType`. -/
inductive BaseAddressRegisterType
  | memoryMapping
  | inputOutput
  deriving DecidableEq

/-- `BaseAddressRegister`, without the fields that nothing reads. -/
structure BaseAddressRegister where
  address : BitVec 32
  type : BaseAddressRegisterType

/-- `get_base_address_register`; `result` is what the variable has at first. The number of registers is computed with
32 bits, and is negative for headers that it does not know. -/
def getBaseAddressRegister (hw : ConfigSpace) (result : BaseAddressRegister) (bus device function bar : BitVec 8) :
    BaseAddressRegister :=
  let headertype := picRead hw bus device function 0x0e &&& 0x7e
  let maxBARs := (6 - 4 * headertype).toInt
  if maxBARs ≤ bar.toNat then result
  else
    let barValue := picRead hw bus device function (0x10 + 4 * bar)
    if barValue &&& 1 ≠ 0 then ⟨barValue &&& ~~~0x3, .inputOutput⟩ else { result with type := .memoryMapping }

/-- What variables that are not initialised have while the bus is scanned: the base of the ports, and the result of
`get_base_address_register`, for every function of a device. -/
structure Uninitialised where
  portBase : BitVec 8 → BitVec 8 → BitVec 8 → BitVec 32
  bar : BitVec 8 → BitVec 8 → BitVec 8 → BitVec 8 → BaseAddressRegister

/-- The loop over the base address registers in `select_drivers`. -/
def barLoop (hw : ConfigSpace) (junk : Uninitialised) (dev : PICDeviceDescriptor) : PICDeviceDescriptor :=
  (List.range 6).foldl (fun d barNum =>
    let bar := getBaseAddressRegister hw (junk.bar dev.bus dev.device dev.function (BitVec.ofNat 8 barNum)) dev.bus
      dev.device dev.function (BitVec.ofNat 8 barNum)
    if bar.address ≠ 0 ∧ bar.type = .inputOutput then { d with portBase := bar.address } else d) dev

/-- The test of `select_drivers` for a function that exists. -/
def PICDeviceDescriptor.Present (dev : PICDeviceDescriptor) : Prop := ¬ (dev.vendorId = 0 ∨ dev.vendorId = 0xffff)

instance : DecidablePred PICDeviceDescriptor.Present := fun dev =>
  inferInstanceAs (Decidable (¬ (dev.vendorId = 0 ∨ dev.vendorId = 0xffff)))

/-! ## What a read gives -/

/-- The parts of an address. -/
lemma configAddress_parts (bus device function registeroffset : BitVec 8) :
    (configAddress bus device function registeroffset).extractLsb' 16 8 = bus ∧
      (configAddress bus device function registeroffset).extractLsb' 11 5 = device.setWidth 5 ∧
      (configAddress bus device function registeroffset).extractLsb' 8 3 = function.setWidth 3 ∧
      (configAddress bus device function registeroffset).extractLsb' 2 6 = (registeroffset >>> 2).setWidth 6 := by
  refine ⟨?_, ?_, ?_, ?_⟩
  all_goals
    refine BitVec.eq_of_getLsbD_eq fun i hi => ?_
    interval_cases i <;> simp [configAddress]

/-- **A read gives the part of the register that was asked for**, from the byte on that was asked for. -/
lemma picRead_eq (hw : ConfigSpace) (bus device function registeroffset : BitVec 8) :
    picRead hw bus device function registeroffset =
      hw bus (device.setWidth 5) (function.setWidth 3) ((registeroffset >>> 2).setWidth 6) >>>
        (8 * (registeroffset.toNat % 4)) := by
  have henable : (configAddress bus device function registeroffset).getLsbD 31 = true := by
    simp [configAddress]
  obtain ⟨hbus, hdevice, hfunction, hregister⟩ := configAddress_parts bus device function registeroffset
  rw [picRead, ConfigSpace.select, if_pos henable, hbus, hdevice, hfunction, hregister]

/-! ## The functions of the devices -/

local instance neZero_functions : NeZero 8 := ⟨Nat.succ_ne_zero 7⟩

/-- A bus, a device on it, and one of its functions. -/
abbrev Location := Fin 256 × Fin 32 × Fin 8

/-- The register of the function at a location. -/
def ConfigSpace.at (hw : ConfigSpace) (l : Location) (register : BitVec 6) : BitVec 32 :=
  hw (BitVec.ofNat 8 l.1) (BitVec.ofNat 5 l.2.1) (BitVec.ofNat 3 l.2.2) register

/-- The descriptor of the function at a location. -/
def descriptorAt (hw : ConfigSpace) (junk : Uninitialised) (l : Location) : PICDeviceDescriptor :=
  getDeviceDescriptor hw (junk.portBase (BitVec.ofNat 8 l.1) (BitVec.ofNat 8 l.2.1) (BitVec.ofNat 8 l.2.2))
    (BitVec.ofNat 8 l.1) (BitVec.ofNat 8 l.2.1) (BitVec.ofNat 8 l.2.2)

/-- The vendor of the function at a location. -/
def ConfigSpace.vendor (hw : ConfigSpace) (l : Location) : BitVec 16 := (hw.at l 0).setWidth 16

/-- There is a function at a location. -/
def ConfigSpace.Exists (hw : ConfigSpace) (l : Location) : Prop := hw.vendor l ≠ 0 ∧ hw.vendor l ≠ 0xffff

/-- The scan has to find the function at a location: it exists, its device has a first function, and has more of them
if it is another one. -/
def ConfigSpace.Found (hw : ConfigSpace) (l : Location) : Prop :=
  hw.Exists (l.1, l.2.1, 0) ∧ hw.Exists l ∧ (l.2.2 = 0 ∨ (hw.at (l.1, l.2.1, 0) 3).getLsbD 23 = true)

instance (hw : ConfigSpace) : DecidablePred hw.Exists := fun l =>
  inferInstanceAs (Decidable (hw.vendor l ≠ 0 ∧ hw.vendor l ≠ 0xffff))

instance (hw : ConfigSpace) : DecidablePred hw.Found := fun l =>
  inferInstanceAs (Decidable (hw.Exists (l.1, l.2.1, 0) ∧ hw.Exists l ∧
    (l.2.2 = 0 ∨ (hw.at (l.1, l.2.1, 0) 3).getLsbD 23 = true)))

/-- All locations, in order. -/
def locations : List Location := List.finRange 256 ×ˢ (List.finRange 32 ×ˢ List.finRange 8)

/-- Every location is searched. -/
lemma mem_locations (l : Location) : l ∈ locations :=
  List.mem_product.2 ⟨List.mem_finRange _, List.mem_product.2 ⟨List.mem_finRange _, List.mem_finRange _⟩⟩

/-- No location is searched twice. -/
lemma nodup_locations : locations.Nodup :=
  (List.nodup_finRange _).product ((List.nodup_finRange _).product (List.nodup_finRange _))

variable {hw : ConfigSpace} {junk : Uninitialised} {l : Location}

/-- A read of the function at a location. -/
lemma picRead_at (hw : ConfigSpace) (l : Location) (registeroffset : BitVec 8) :
    picRead hw (BitVec.ofNat 8 l.1) (BitVec.ofNat 8 l.2.1) (BitVec.ofNat 8 l.2.2) registeroffset =
      hw.at l ((registeroffset >>> 2).setWidth 6) >>> (8 * (registeroffset.toNat % 4)) := by
  have hdevice : ∀ d : Fin 32, (BitVec.ofNat 8 d).setWidth 5 = BitVec.ofNat 5 d := by decide
  have hfunction : ∀ f : Fin 8, (BitVec.ofNat 8 f).setWidth 3 = BitVec.ofNat 3 f := by decide
  rw [picRead_eq, hdevice, hfunction, ConfigSpace.at]

/-- The descriptor has the vendor that the device gives. -/
lemma vendorId_descriptorAt (hw : ConfigSpace) (junk : Uninitialised) (l : Location) :
    (descriptorAt hw junk l).vendorId = hw.vendor l :=
  congrArg (BitVec.setWidth 16) ((picRead_at hw l 0).trans (BitVec.ushiftRight_zero _))

/-- The interrupt of a descriptor is the whole register. -/
lemma interrupt_descriptorAt (hw : ConfigSpace) (junk : Uninitialised) (l : Location) :
    (descriptorAt hw junk l).interrupt = hw.at l 15 :=
  (picRead_at hw l 0x3c).trans (BitVec.ushiftRight_zero _)

/-- A descriptor is one of a present device exactly if there is a function. -/
lemma present_descriptorAt : (descriptorAt hw junk l).Present ↔ hw.Exists l := by
  rw [PICDeviceDescriptor.Present, vendorId_descriptorAt, not_or, ConfigSpace.Exists]

/-- The test for more than one function. -/
lemma deviceHasFunctions_at (hw : ConfigSpace) (b : Fin 256) (d : Fin 32) :
    deviceHasFunctions hw (BitVec.ofNat 8 b) (BitVec.ofNat 8 d) = (hw.at (b, d, 0) 3).getLsbD 23 := by
  have hread : picRead hw (BitVec.ofNat 8 b) (BitVec.ofNat 8 d) 0 0x0e = hw.at (b, d, 0) 3 >>> 16 :=
    picRead_at hw (b, d, 0) 0x0e
  have hbit : ∀ x : BitVec 32, ((x &&& 1 <<< 7).setWidth 8 != 0) = x.getLsbD 7 := by
    intro x
    have hmask : (x &&& 1 <<< 7).setWidth 8 = if x.getLsbD 7 then 0x80 else 0 := by
      refine BitVec.eq_of_getLsbD_eq fun i hi => ?_
      cases hx : x.getLsbD 7 <;> interval_cases i <;> simp_all
    rw [hmask]
    cases x.getLsbD 7 <;> rfl
  rw [deviceHasFunctions, hread, hbit, BitVec.getLsbD_ushiftRight]

/-- The loop over the base address registers sets only the base of the ports. -/
lemma barLoop_keeps (hw : ConfigSpace) (junk : Uninitialised) (dev : PICDeviceDescriptor) :
    ∃ base, barLoop hw junk dev = { dev with portBase := base } := by
  have hloop : ∀ (bars : List ℕ) (d : PICDeviceDescriptor), (∃ base, d = { dev with portBase := base }) →
      ∃ base, bars.foldl (fun d barNum =>
        let bar := getBaseAddressRegister hw (junk.bar dev.bus dev.device dev.function (BitVec.ofNat 8 barNum)) dev.bus
          dev.device dev.function (BitVec.ofNat 8 barNum)
        if bar.address ≠ 0 ∧ bar.type = .inputOutput then { d with portBase := bar.address } else d) d =
          { dev with portBase := base } := by
    intro bars
    induction bars with
    | nil => exact fun d h => h
    | cons barNum bars ih =>
      rintro d ⟨base, rfl⟩
      refine ih _ ?_
      dsimp only
      split_ifs
      · exact ⟨_, rfl⟩
      · exact ⟨base, rfl⟩
  exact hloop _ _ ⟨dev.portBase, rfl⟩

end Jarvis
