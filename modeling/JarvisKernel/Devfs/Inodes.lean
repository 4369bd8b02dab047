import JarvisKernel.Devfs.Defs
import JarvisKernel.Lib.Run

set_option relaxedAutoImplicit false
set_option autoImplicit false

/-!
# Inodes of devices

What becomes of the inodes of devices while devices come and go, and what the VFS makes of them. An inode
points into the table of devices, and the table is compacted when a device is unregistered: an inode keeps
its device as long as no device before it is unregistered. The VFS never calls the functions that devfs
installed, since it takes the `DeviceInfo` for the record of file operations in it.

Devices are observed: every registration has a number, which moves with the entry of the table.

## Main definitions

* `Jarvis.Devfs.Dispatches` — the VFS calls the functions that devfs installed.
* `Jarvis.Devfs.Tracked` — the table, with the registrations and the inodes that were handed out.
* `Jarvis.Devfs.KeepsDevices` — every inode of a registered device acts on this device.

## Main results

* `Jarvis.Devfs.not_dispatches` — the VFS calls other functions, for every device.
* `Jarvis.Devfs.keepsDevices_of_run` — inodes keep their devices if no device before one is unregistered.
-/

namespace Jarvis

namespace Devfs

/-! ## Functions that the VFS calls -/

/-- The record of file operations that the VFS finds behind the `private_data`. -/
def vfsOps (info : DeviceInfo) : FileOpsRecord := .ofWords info.words

/-- `private_data` points to a `DeviceInfo`, and the functions that the VFS calls for opening, closing,
reading, writing and control are those in it. -/
def Dispatches (data : PrivateData) : Prop :=
  ∃ info, data = .deviceInfo info ∧
    (vfsOps info).openFn = info.ops.openFn ∧ (vfsOps info).closeFn = info.ops.closeFn ∧
    (vfsOps info).readFn = info.ops.readFn ∧ (vfsOps info).writeFn = info.ops.writeFn ∧
    (vfsOps info).ioctlFn = info.ops.ioctlFn

/-- The VFS finds every function one word early. -/
lemma vfsOps_eq (info : DeviceInfo) :
    vfsOps info =
      { openFn := info.device
        closeFn := info.ops.openFn
        readFn := info.ops.closeFn
        writeFn := info.ops.readFn
        ioctlFn := info.ops.writeFn
        opendirFn := info.ops.ioctlFn
        closedirFn := info.ops.opendirFn
        readdirFn := info.ops.closedirFn } := rfl

/-- For every block or character device and every lookup of its path, the VFS does not call the functions
that devfs installed: to read, it calls the function for closing. -/
theorem not_dispatches (s : Devfs) (image : Image) (nullOps : FileOpsRecord) (path : CString)
    (inodeMemory opsMemory infoMemory : Bool) (index : ℕ) (data : PrivateData)
    (hinode : s.devfsGetInode image nullOps path inodeMemory opsMemory infoMemory = some (index, data))
    (htype : (s.devices index).type ≠ .net) : ¬ Dispatches data := by
  rintro ⟨info, rfl, -, -, hread, -, -⟩
  rw [vfsOps_eq] at hread
  rw [devfsGetInode] at hinode
  cases hfind : s.findDeviceByName (deviceName path) with
  | none => simp [hfind] at hinode
  | some i =>
    simp only [hfind] at hinode
    split_ifs at hinode
    · simp at hinode
    · simp at hinode
    · obtain ⟨rfl, hinfo⟩ := Prod.mk.inj (Option.some.inj hinode)
      obtain rfl := PrivateData.deviceInfo.inj hinfo
      cases hdev : (s.devices i).type with
      | net => exact htype hdev
      | block =>
        simp only [hdev, installOps, Option.getD_some] at hread
        exact absurd (image.function_injective hread) (by decide)
      | char =>
        simp only [hdev, installOps, Option.getD_some] at hread
        exact absurd (image.function_injective hread) (by decide)

/-- A table with one disk, `hda0`. -/
def oneDisk : Devfs :=
  (devfsInit.devfsRegisterDevice [104, 100, 97, 48] .block 3 0 4096).1

/-- Functions at every 16 bytes, and memory with zeros in it. -/
def sampleImage : Image where
  function
    | .blockDevRead => 16
    | .blockDevWrite => 32
    | .blockDevClose => 48
    | .charDevRead => 64
    | .charDevWrite => 80
    | .charDevClose => 96
  entry i := 8192 + 48 * i
  junk := ⟨0, 0, 0, 0, 0, 0, 0, 0⟩
  function_injective := by
    intro f g h
    cases f <;> cases g <;> first | rfl | simp at h
  function_ne_zero f := by cases f <;> simp

/-- The inode of the disk does not lead to its functions. -/
theorem not_dispatches_oneDisk :
    ∃ data, oneDisk.devfsGetInode sampleImage sampleImage.junk [47, 104, 100, 97, 48] true true true =
        some (0, data) ∧ (oneDisk.devices 0).type ≠ .net ∧ ¬ Dispatches data :=
  ⟨_, rfl, by decide, not_dispatches oneDisk sampleImage _ [47, 104, 100, 97, 48] true true true 0 _ rfl
    (by decide)⟩

/-- To read the disk `hda0`, the VFS calls the function that closes it. -/
theorem reads_with_close_oneDisk :
    ∃ info, oneDisk.devfsGetInode sampleImage sampleImage.junk [47, 104, 100, 97, 48] true true true =
        some (0, .deviceInfo info) ∧ (vfsOps info).readFn = sampleImage.function .blockDevClose ∧
      ¬ Dispatches (.deviceInfo info) := by
  refine ⟨_, rfl, rfl, ?_⟩
  rintro ⟨info, hinfo, -, -, hread, -, -⟩
  obtain rfl := PrivateData.deviceInfo.inj hinfo
  exact absurd hread (by decide)

/-! ## Inodes and registrations -/

/-- An inode of a device: the entry that it points to, the number of the registration, and the device as
it was then. -/
structure OpenedDevice where
  slot : ℕ
  registration : ℕ
  node : DeviceNode

/-- The table, the registration of every entry, the number of registrations so far, and the inodes that
were handed out. -/
structure Tracked where
  devfs : Devfs
  registrations : ℕ → ℕ
  next : ℕ
  opened : List OpenedDevice

/-- The calls of devfs. Reading and writing through an inode does not change the table. -/
inductive DeviceOp where
  | register (name : CString) (type : DeviceType) (major minor deviceData : ℕ)
  | unregister (name : CString)
  | getInode (path : CString)

/-- One call. -/
def deviceStep (t : Tracked) : DeviceOp → Option Tracked
  | .register name type major minor deviceData =>
    match t.devfs.devfsRegisterDevice name type major minor deviceData with
    | (s, result) =>
      if result = 0 then
        some
          { t with
            devfs := s
            registrations := Function.update t.registrations t.devfs.numDevices t.next
            next := t.next + 1 }
      else some { t with devfs := s }
  | .unregister name =>
    match t.devfs.findDeviceByName name with
    | none => some { t with devfs := (t.devfs.devfsUnregisterDevice name).1 }
    | some index =>
      some
        { t with
          devfs := (t.devfs.devfsUnregisterDevice name).1
          registrations :=
            Table.moveDown t.registrations (t.devfs.numDevices - 1 - index) index }
  | .getInode path =>
    match t.devfs.findDeviceByName (deviceName path) with
    | none => some t
    | some index =>
      some { t with opened := ⟨index, t.registrations index, t.devfs.devices index⟩ :: t.opened }

/-- The state after `devfs_init`. -/
def trackedStart : Tracked where
  devfs := devfsInit
  registrations _ := 0
  next := 0
  opened := []

/-- A registration was not undone. -/
def Registered (t : Tracked) (registration : ℕ) : Prop :=
  ∃ i < t.devfs.numDevices, t.registrations i = registration

/-- Every inode whose device was not unregistered acts on this device: the entry that it points to has the
data, the type and the minor number of the device. -/
def KeepsDevices (t : Tracked) : Prop :=
  ∀ o ∈ t.opened, Registered t o.registration →
    (t.devfs.devices o.slot).deviceData = o.node.deviceData ∧
      (t.devfs.devices o.slot).type = o.node.type ∧ (t.devfs.devices o.slot).minor = o.node.minor

/-- A device that is unregistered does not come before a device with an inode. -/
def NotBeforeOpened (t : Tracked) : DeviceOp → Prop
  | .unregister name => ∀ index ∈ t.devfs.findDeviceByName name,
      ∀ o ∈ t.opened, Registered t o.registration → o.slot ≤ index
  | _ => True

instance (t : Tracked) (registration : ℕ) : Decidable (Registered t registration) := by
  unfold Registered
  infer_instance

instance (t : Tracked) : DecidablePred (NotBeforeOpened t) := fun op => by
  cases op <;> unfold NotBeforeOpened <;> infer_instance

/-- Registrations are told apart by their numbers, and inodes point to the entries of their devices. -/
structure Consistent (t : Tracked) : Prop where
  registration_lt : ∀ i < t.devfs.numDevices, t.registrations i < t.next
  injective : ∀ i < t.devfs.numDevices, ∀ j < t.devfs.numDevices,
    t.registrations i = t.registrations j → i = j
  opened_lt : ∀ o ∈ t.opened, o.registration < t.next
  opened : ∀ o ∈ t.opened, Registered t o.registration →
    o.slot < t.devfs.numDevices ∧ t.registrations o.slot = o.registration ∧
      t.devfs.devices o.slot = o.node

variable {t : Tracked} {name path : CString} {type : DeviceType} {major minor deviceData index : ℕ}

/-- A device is found among those that are registered. -/
lemma findDeviceByName_lt {s : Devfs} (h : s.findDeviceByName name = some index) :
    index < s.numDevices :=
  List.mem_range.1 (List.mem_of_find?_eq_some h)

/-- A new device is entered behind the others. -/
lemma Consistent.register (h : Consistent t) :
    ∃ t', deviceStep t (.register name type major minor deviceData) = some t' ∧ Consistent t' := by
  rw [deviceStep, devfsRegisterDevice]
  split_ifs with hfull hfound
  · exact ⟨_, rfl, h⟩
  · exact ⟨_, rfl, h⟩
  · refine ⟨_, rfl, ?_, ?_, ?_, ?_⟩
    · intro i hi
      show Function.update t.registrations t.devfs.numDevices t.next i < t.next + 1
      by_cases hnew : i = t.devfs.numDevices
      · rw [hnew, Function.update_self]
        omega
      · rw [Function.update_of_ne hnew]
        have hi' : i < t.devfs.numDevices + 1 := hi
        have := h.registration_lt i (by omega)
        omega
    · intro i hi j hj hij
      have hi' : i < t.devfs.numDevices + 1 := hi
      have hj' : j < t.devfs.numDevices + 1 := hj
      have hij' : Function.update t.registrations t.devfs.numDevices t.next i =
          Function.update t.registrations t.devfs.numDevices t.next j := hij
      by_cases hni : i = t.devfs.numDevices
      · by_cases hnj : j = t.devfs.numDevices
        · omega
        · rw [hni, Function.update_self, Function.update_of_ne hnj] at hij'
          have := h.registration_lt j (by omega)
          omega
      · by_cases hnj : j = t.devfs.numDevices
        · rw [hnj, Function.update_self, Function.update_of_ne hni] at hij'
          have := h.registration_lt i (by omega)
          omega
        · rw [Function.update_of_ne hni, Function.update_of_ne hnj] at hij'
          exact h.injective i (by omega) j (by omega) hij'
    · intro o ho
      exact Nat.lt_succ_of_lt (h.opened_lt o ho)
    · rintro o ho ⟨i, hi, hreg⟩
      have hi' : i < t.devfs.numDevices + 1 := hi
      have hreg' : Function.update t.registrations t.devfs.numDevices t.next i = o.registration := hreg
      have hne : i ≠ t.devfs.numDevices := by
        intro hnew
        rw [hnew, Function.update_self] at hreg'
        have := h.opened_lt o ho
        omega
      rw [Function.update_of_ne hne] at hreg'
      obtain ⟨hslot, hregs, hnode⟩ := h.opened o ho ⟨i, by omega, hreg'⟩
      have hold : o.slot ≠ t.devfs.numDevices := Nat.ne_of_lt hslot
      refine ⟨Nat.lt_succ_of_lt hslot, ?_, ?_⟩
      · show Function.update t.registrations t.devfs.numDevices t.next o.slot = _
        rw [Function.update_of_ne hold, hregs]
      · show Function.update t.devfs.devices t.devfs.numDevices _ o.slot = _
        rw [Function.update_of_ne hold, hnode]

/-- Entries before the one that is removed stay where they are. -/
lemma Consistent.unregister (h : Consistent t) (hok : NotBeforeOpened t (.unregister name)) :
    ∃ t', deviceStep t (.unregister name) = some t' ∧ Consistent t' := by
  rw [deviceStep]
  cases hfind : t.devfs.findDeviceByName name with
  | none =>
    rw [devfsUnregisterDevice, hfind]
    exact ⟨_, rfl, h⟩
  | some index =>
    rw [devfsUnregisterDevice, hfind]
    have hindex := findDeviceByName_lt hfind
    -- an entry that is left stood at the same place, or one place behind
    have hfrom : ∀ k < t.devfs.numDevices - 1,
        ∃ k' < t.devfs.numDevices, k' ≠ index ∧ (k' < index ∧ k = k' ∨ index < k' ∧ k + 1 = k') ∧
          Table.moveDown t.registrations (t.devfs.numDevices - 1 - index) index k =
            t.registrations k' := by
      intro k hk
      rw [Table.moveDown_apply]
      by_cases hlow : k < index
      · exact ⟨k, by omega, by omega, .inl ⟨hlow, rfl⟩, if_neg (by omega)⟩
      · exact ⟨k + 1, by omega, by omega, .inr ⟨by omega, rfl⟩, if_pos (by omega)⟩
    refine ⟨_, rfl, ?_, ?_, h.opened_lt, ?_⟩
    · intro k hk
      obtain ⟨k', hk', -, -, hreg⟩ := hfrom k hk
      show Table.moveDown _ _ _ k < t.next
      rw [hreg]
      exact h.registration_lt k' hk'
    · intro k hk j hj hkj
      obtain ⟨k', hk', hkne, hkpos, hkreg⟩ := hfrom k hk
      obtain ⟨j', hj', hjne, hjpos, hjreg⟩ := hfrom j hj
      have hkj' : Table.moveDown t.registrations (t.devfs.numDevices - 1 - index) index k =
          Table.moveDown t.registrations (t.devfs.numDevices - 1 - index) index j := hkj
      rw [hkreg, hjreg] at hkj'
      have := h.injective k' hk' j' hj' hkj'
      omega
    · rintro o ho ⟨k, hk, hreg⟩
      obtain ⟨k', hk', hkne, -, hkreg⟩ := hfrom k hk
      have hreg' : t.registrations k' = o.registration := by rw [← hkreg]; exact hreg
      have hregistered : Registered t o.registration := ⟨k', hk', hreg'⟩
      obtain ⟨hslot, hregs, hnode⟩ := h.opened o ho hregistered
      have hle := hok index hfind o ho hregistered
      have hsame := h.injective _ hslot _ hk' (hregs.trans hreg'.symm)
      have hlt : o.slot < index := by omega
      refine ⟨?_, ?_, ?_⟩
      · show o.slot < t.devfs.numDevices - 1
        omega
      · show Table.moveDown _ _ _ o.slot = _
        rw [Table.moveDown_apply, if_neg (by omega), hregs]
      · show Function.update (Table.moveDown _ _ _) _ _ o.slot = _
        rw [Function.update_of_ne (by omega), Table.moveDown_apply, if_neg (by omega), hnode]

/-- A new inode points to the entry of its device. -/
lemma Consistent.getInode (h : Consistent t) :
    ∃ t', deviceStep t (.getInode path) = some t' ∧ Consistent t' := by
  rw [deviceStep]
  cases hfind : t.devfs.findDeviceByName (deviceName path) with
  | none => exact ⟨_, rfl, h⟩
  | some index =>
    have hindex := findDeviceByName_lt hfind
    refine ⟨_, rfl, h.registration_lt, h.injective, fun o ho => ?_, fun o ho hreg => ?_⟩
    · rcases List.mem_cons.1 ho with rfl | ho
      · exact h.registration_lt index hindex
      · exact h.opened_lt o ho
    · rcases List.mem_cons.1 ho with rfl | ho
      · exact ⟨hindex, rfl, rfl⟩
      · exact h.opened o ho hreg

/-- Every call that does not unregister a device before one with an inode keeps the inodes right. -/
lemma Consistent.deviceStep (h : Consistent t) (op : DeviceOp) (hok : NotBeforeOpened t op) :
    ∃ t', deviceStep t op = some t' ∧ Consistent t' := by
  cases op with
  | register name type major minor deviceData => exact h.register
  | unregister name => exact h.unregister hok
  | getInode path => exact h.getInode

/-- No inode is open at the start. -/
lemma consistent_trackedStart : Consistent trackedStart := by
  refine ⟨fun i hi => ?_, fun i hi => ?_, fun o ho => ?_, fun o ho => ?_⟩
  · exact absurd hi (Nat.not_lt_zero i)
  · exact absurd hi (Nat.not_lt_zero i)
  · simp [trackedStart] at ho
  · simp [trackedStart] at ho

/-- In every run in which no device is unregistered that comes before one with an inode, every inode acts
on the device that it was opened for, as long as this device is registered. -/
theorem keepsDevices_of_run (ops : List DeviceOp)
    (h : Run.Follows deviceStep NotBeforeOpened trackedStart ops) :
    ∃ t, Run.exec deviceStep trackedStart ops = some t ∧ KeepsDevices t := by
  obtain ⟨t, hexec, ht⟩ := Run.exec_of_step (fun t op (ht : Consistent t) hok => ht.deviceStep op hok)
    consistent_trackedStart h
  refine ⟨t, hexec, fun o ho hreg => ?_⟩
  rw [(ht.opened o ho hreg).2.2]
  exact ⟨rfl, rfl, rfl⟩

/-- Two devices with inodes, and a third that comes and goes. -/
def threeDevices : List DeviceOp :=
  [.register [97] .block 3 0 4096, .register [98] .char 4 0 8192, .getInode [47, 98], .getInode [97],
    .register [99] .block 3 1 4160, .unregister [99], .unregister [98]]

/-- The inodes keep their devices if none that lies before is unregistered. -/
theorem keepsDevices_of_run_threeDevices :
    Run.Follows deviceStep NotBeforeOpened trackedStart threeDevices ∧
      ∃ t, Run.exec deviceStep trackedStart threeDevices = some t ∧ KeepsDevices t := by
  have h : Run.Follows deviceStep NotBeforeOpened trackedStart threeDevices := by decide +kernel
  exact ⟨h, keepsDevices_of_run threeDevices h⟩

/-- Unregistering the first of two devices leaves the inode of the second without a device. -/
theorem not_keepsDevices_unregister_first :
    ∃ t, Run.exec deviceStep trackedStart
        [.register [97] .block 3 0 4096, .register [98] .block 3 1 8192, .getInode [98],
          .unregister [97]] = some t ∧ ¬ KeepsDevices t := by
  refine ⟨_, rfl, fun h => ?_⟩
  have hdata := (h ⟨1, 1, ⟨[98], .block, 3, 1, 8192⟩⟩ (by exact List.mem_singleton_self _)
    ⟨0, by decide, by decide⟩).1
  revert hdata
  decide

end Devfs

end Jarvis
