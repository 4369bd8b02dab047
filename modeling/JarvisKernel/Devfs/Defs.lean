import JarvisKernel.Vfs.Mount

set_option relaxedAutoImplicit false
set_option autoImplicit false

/-!
# The device file system

The table of devices of `src/fs/devfs.c`, and the inodes that it hands out. An inode has a pointer to a
`DeviceInfo`, a record in memory with a pointer into the table and a record of file operations. The VFS
takes the same pointer for one to a record of file operations. So the records are given word by word
here, in the order in which they are declared.

A pointer into the table is the number of the entry. Functions are known by their addresses.

## Main definitions

* `Jarvis.DeviceNode`, `Jarvis.Devfs` — the table of devices.
* `Jarvis.Devfs.devfsRegisterDevice`, `Jarvis.Devfs.devfsUnregisterDevice` — its operations.
* `Jarvis.FileOpsRecord`, `Jarvis.DeviceInfo` — the records behind an inode, and their words.
* `Jarvis.Devfs.devfsGetInode` — what the `private_data` of an inode points to.
-/

namespace Jarvis

/-! ## Devices -/

/-- `MAX_DEVICES`. -/
def maxDevices : ℕ := 64

/-- `DeviceType`. -/
inductive DeviceType where
  | block
  | char
  | net
  deriving DecidableEq

/-- `DeviceNode`; `deviceData` is a pointer. The defaults are those of an entry that is cleared. -/
structure DeviceNode where
  name : CString := []
  type : DeviceType := .block
  major : ℕ := 0
  minor : ℕ := 0
  deviceData : ℕ := 0
  deriving DecidableEq

/-- `devices` and `num_devices`. -/
structure Devfs where
  devices : ℕ → DeviceNode
  numDevices : ℕ

namespace Devfs

/-- `devfs_init`. -/
def devfsInit : Devfs where
  devices _ := {}
  numDevices := 0

/-- `find_device_by_name`. -/
def findDeviceByName (s : Devfs) (name : CString) : Option ℕ :=
  (List.range s.numDevices).find? fun i => decide ((s.devices i).name = name)

/-- The length of `DeviceNode.name`, with the terminating byte. -/
def nameSize : ℕ := 32

/-- `devfs_register_device`. -/
def devfsRegisterDevice (s : Devfs) (name : CString) (type : DeviceType)
    (major minor deviceData : ℕ) : Devfs × ℤ :=
  if maxDevices ≤ s.numDevices then (s, -1)
  else if (s.findDeviceByName name).isSome then (s, -1)
  else
    ({ devices := Function.update s.devices s.numDevices
        { name := name.take (nameSize - 1)
          type := type
          major := major
          minor := minor
          deviceData := deviceData }
       numDevices := s.numDevices + 1 },
      0)

/-- `devfs_unregister_device`. -/
def devfsUnregisterDevice (s : Devfs) (name : CString) : Devfs × ℤ :=
  match s.findDeviceByName name with
  | none => (s, -1)
  | some index =>
    ({ devices := Function.update (Table.moveDown s.devices (s.numDevices - 1 - index) index)
          (s.numDevices - 1) {}
       numDevices := s.numDevices - 1 },
      0)

/-- The name that `devfs_get_inode` looks up: the path without a slash before it. -/
def deviceName : CString → CString
  | [] => []
  | c :: path => if c = 47 then path else c :: path

end Devfs

/-! ## Records in memory -/

/-- `FileOperations`: the addresses of functions, 0 for `NULL`. -/
structure FileOpsRecord where
  openFn : ℕ
  closeFn : ℕ
  readFn : ℕ
  writeFn : ℕ
  ioctlFn : ℕ
  opendirFn : ℕ
  closedirFn : ℕ
  readdirFn : ℕ

/-- The words of the record. -/
def FileOpsRecord.words (r : FileOpsRecord) : List ℕ :=
  [r.openFn, r.closeFn, r.readFn, r.writeFn, r.ioctlFn, r.opendirFn, r.closedirFn, r.readdirFn]

/-- The record that a pointer to `FileOperations` finds at the given words. -/
def FileOpsRecord.ofWords (words : List ℕ) : FileOpsRecord where
  openFn := words.getD 0 0
  closeFn := words.getD 1 0
  readFn := words.getD 2 0
  writeFn := words.getD 3 0
  ioctlFn := words.getD 4 0
  opendirFn := words.getD 5 0
  closedirFn := words.getD 6 0
  readdirFn := words.getD 7 0

/-- `DeviceInfo`; the device is the address of its entry in the table. -/
structure DeviceInfo where
  device : ℕ
  ops : FileOpsRecord

/-- The words of the record. -/
def DeviceInfo.words (info : DeviceInfo) : List ℕ := info.device :: info.ops.words

/-- The functions that devfs installs. -/
inductive DevFunction where
  | blockDevRead
  | blockDevWrite
  | blockDevClose
  | charDevRead
  | charDevWrite
  | charDevClose
  deriving DecidableEq

/-- What the linker and `malloc` decide: the addresses of the functions and of the entries of the table,
and what is in memory that was just allocated. -/
structure Image where
  function : DevFunction → ℕ
  entry : ℕ → ℕ
  junk : FileOpsRecord
  function_injective : Function.Injective function
  function_ne_zero : ∀ f, function f ≠ 0

/-- What the `private_data` of an inode points to: a `DeviceInfo`, or the entry of the table itself if
there was no memory for one. -/
inductive PrivateData where
  | deviceInfo (info : DeviceInfo)
  | deviceNode (index : ℕ)

namespace Devfs

/-- The operations that `devfs_get_inode` installs for a type of device, in a record that was just
allocated; `none` for a type without operations. -/
def installOps (image : Image) : DeviceType → Option FileOpsRecord
  | .block => some { image.junk with
      readFn := image.function .blockDevRead
      writeFn := image.function .blockDevWrite
      closeFn := image.function .blockDevClose
      ioctlFn := 0 }
  | .char => some { image.junk with
      readFn := image.function .charDevRead
      writeFn := image.function .charDevWrite
      closeFn := image.function .charDevClose
      ioctlFn := 0 }
  | .net => none

/-- `devfs_get_inode`: the entry of the table, and the `private_data` of the inode; `none` if there is no
such device, or no memory for the inode. The truth values say which of the calls of `malloc` succeed, for
the inode, the operations and the `DeviceInfo`. For a device of
another type the operations are read through `NULL`, and `nullOps` is what is there. -/
def devfsGetInode (s : Devfs) (image : Image) (nullOps : FileOpsRecord) (path : CString)
    (inodeMemory opsMemory infoMemory : Bool) : Option (ℕ × PrivateData) :=
  match s.findDeviceByName (deviceName path) with
  | none => none
  | some index =>
    if inodeMemory = false then none
    else if opsMemory = false then some (index, .deviceNode index)
    else if infoMemory = false then some (index, .deviceNode index)
    else
      some (index, .deviceInfo
        { device := image.entry index
          ops := (installOps image (s.devices index).type).getD nullOps })

end Devfs

end Jarvis
