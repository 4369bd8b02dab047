import JarvisKernel.Devfs.Defs
import JarvisKernel.Vfs.Defs

set_option relaxedAutoImplicit false
set_option autoImplicit false

/-!
# Looking up inodes

What devfs and ext4 do when a path is opened: they create an inode and, behind it, a `DeviceInfo` or a
record of file operations, and the functions in these records take them down again. Blocks of memory have
the number of the call of `malloc` that returned them, counted from 1, and which calls succeed is an
arbitrary sequence. A block is tracked if it is an `Inode`, a `DeviceInfo` or a `FileOperations`.

Every operation is dispatched to the function that the file system installed. Functions for reading and
writing are left out, and so are the size of the inode of a device and the contents of blocks. Strings and
buffers that a function frees itself are calls of `malloc` without a block. To which file system a path
leads, and to which path in it, is a parameter.

## Main definitions

* `Jarvis.OpenWorld` — the state behind the VFS.
* `Jarvis.OpenPath.vfsCreateInode` — a new inode with the next number.
* `Jarvis.OpenPath.devfsGetInode`, `Jarvis.OpenPath.ext4GetInode` — the lookups.
* `Jarvis.OpenPath.opsOf` — the functions that were installed.
-/

namespace Jarvis

/-- The state of devfs, ext4 and `malloc`. `route` is the file system of a path and the path in it, as
`vfs_find_mount_point` returns them. `privateData` is the block that the `private_data` of an inode points
to, 0 if it points to no block of the heap. -/
structure OpenWorld where
  devfs : Devfs
  ext4Mounted : Bool
  route : CString → Option (FileSystem × CString)
  memory : ℕ → Bool
  mallocs : ℕ
  tracked : ℕ → Bool
  privateData : ℕ → ℕ
  nextInodeNum : ℕ

/-- What a lookup has found, by the functions that were installed: none, because there was no memory for a
`DeviceInfo` or because of the type of the device; those of a device; those of an ext4 file; or those of
the ext4 root directory. -/
inductive Found where
  | bare
  | otherDevice
  | device
  | ext4File
  | ext4Root
  deriving DecidableEq

namespace OpenPath

/-! ## Memory -/

/-- `malloc` of a block. -/
def mallocBlock (s : Files OpenWorld) (tracked : Bool) : Files OpenWorld × ℕ :=
  let block := s.world.mallocs + 1
  if s.world.memory s.world.mallocs then
    ({ s with world :=
        { s.world with
          mallocs := block
          tracked := Function.update s.world.tracked block tracked } },
      block)
  else ({ s with world := { s.world with mallocs := block } }, 0)

/-- `malloc` of a string or a buffer that is freed before the function returns. -/
def mallocTemporary (s : Files OpenWorld) : Files OpenWorld × Bool :=
  ({ s with world := { s.world with mallocs := s.world.mallocs + 1 } }, s.world.memory s.world.mallocs)

/-- Assign the `private_data` of an inode. -/
def setPrivateData (s : Files OpenWorld) (inode block : ℕ) : Files OpenWorld :=
  { s with world :=
      { s.world with privateData := Function.update s.world.privateData inode block } }

/-- `vfs_create_inode`. -/
def vfsCreateInode (s : Files OpenWorld) (type : FileType) (permissions : ℕ) :
    Files OpenWorld × ℕ :=
  match mallocBlock s true with
  | (s, 0) => (s, 0)
  | (s, inode) =>
    ({ s with
        inodes := Function.update s.inodes inode
          { inodeNum := s.world.nextInodeNum
            type := type
            permissions := permissions
            size := 0
            blocks := 0
            refCount := 1 }
        world :=
          { s.world with
            nextInodeNum := Word32.add s.world.nextInodeNum 1
            privateData := Function.update s.world.privateData inode 0 } },
      inode)

/-! ## devfs -/

/-- The `FileOperations` and the `DeviceInfo` of an inode, in `devfs_get_inode`. -/
def devfsOps (s : Files OpenWorld) (inode : ℕ) (type : DeviceType) : Files OpenWorld × Found :=
  match mallocBlock s true with
  | (s, 0) => (s, .bare)
  | (s, ops) =>
    -- a record without functions is freed at once, and `free(NULL)` is called for it later
    let s := if type = .net then s.free ops else s
    match mallocBlock s true with
    | (s, 0) => (if type = .net then s else s.free ops, .bare)
    | (s, info) =>
      let s := setPrivateData s inode info
      (if type = .net then s else s.free ops, if type = .net then .otherDevice else .device)

/-- `devfs_get_inode`. -/
def devfsGetInode (s : Files OpenWorld) (path : CString) : Files OpenWorld × Option (ℕ × Found) :=
  match s.world.devfs.findDeviceByName (Devfs.deviceName path) with
  | none => (s, none)
  | some index =>
    let type := (s.world.devfs.devices index).type
    match vfsCreateInode s (if type = .block then .blockDevice else .charDevice) 0x1B6 with
    | (s, 0) => (s, none)
    | (s, inode) =>
      match devfsOps s inode type with
      | (s, found) => (s, some (inode, found))

/-- `block_dev_close` and `char_dev_close`. -/
def devClose (s : Files OpenWorld) (inode : ℕ) : Files OpenWorld × ℤ :=
  if inode = 0 then (s, 0) else ((s.free (s.world.privateData inode)).free inode, 0)

/-! ## ext4 -/

/-- `vfs_normalize_path`. For a path that does not start with a slash, `snprintf` copies its format as it
is, as far as there is room. -/
def vfsNormalizePath (path currentDir : CString) : CString :=
  if path.head? = some 47 then path
  else if currentDir ≠ [] ∧ currentDir.getLast? ≠ some 47 then
    currentDir ++ [47, 37, 115].take (path.length + 1)
  else currentDir ++ [37, 115].take (path.length + 1)

/-- An inode of ext4 with its `FileOperations`, in `ext4_find_inode`. -/
def ext4NewInode (s : Files OpenWorld) (type : FileType) (permissions : ℕ) (found : Found) :
    Files OpenWorld × Option (ℕ × Found) :=
  match vfsCreateInode s type permissions with
  | (s, 0) => (s, none)
  | (s, inode) =>
    match mallocBlock s true with
    | (s, 0) => (s.vfsDestroyInode inode, none)
    | (s, ops) => (setPrivateData s inode ops, some (inode, found))

/-- `ext4_find_inode`: the root directory, or a file, whatever the path is. -/
def ext4FindInode (s : Files OpenWorld) (path : CString) : Files OpenWorld × Option (ℕ × Found) :=
  match mallocTemporary s with
  | (s, false) => (s, none)
  | (s, true) =>
    if path = [47] then ext4NewInode s .directory 0x1ED .ext4Root
    else ext4NewInode s .regular 0x1A4 .ext4File

/-- `ext4_get_inode`. -/
def ext4GetInode (s : Files OpenWorld) (path : CString) : Files OpenWorld × Option (ℕ × Found) :=
  if s.world.ext4Mounted = false then (s, none)
  else
    match mallocTemporary s with
    | (s, false) => (s, none)
    | (s, true) => ext4FindInode s (vfsNormalizePath path [47])

/-- `ext4_read_inode`: a block with the inode, 0 if there was no memory for it or for the buffer. -/
def ext4ReadInode (s : Files OpenWorld) : Files OpenWorld × ℕ :=
  match mallocBlock s false with
  | (s, 0) => (s, 0)
  | (s, block) =>
    match mallocTemporary s with
    | (s, false) => (s.free block, 0)
    | (s, true) => (s, block)

/-- `ext4_file_open`; the inode that is read is freed again. -/
def ext4FileOpen (s : Files OpenWorld) (_inode _flags : ℕ) : Files OpenWorld × ℤ :=
  if s.world.ext4Mounted = false then (s, -1)
  else
    match ext4ReadInode s with
    | (s, 0) => (s, -1)
    | (s, block) => (s.free block, 0)

/-- `ext4_file_close`. -/
def ext4FileClose (s : Files OpenWorld) (inode : ℕ) : Files OpenWorld × ℤ :=
  (s.free (s.world.privateData inode), 0)

/-- `ext4_dir_opendir`: the `private_data` is freed and points to the inode that was read from then
on. -/
def ext4DirOpendir (s : Files OpenWorld) (inode : ℕ) : Files OpenWorld × ℤ :=
  if s.world.ext4Mounted = false then (s, -1)
  else if (s.inodes inode).type ≠ .directory then (s, -1)
  else
    match ext4ReadInode s with
    | (s, 0) => (s, -1)
    | (s, block) =>
      -- the iterator is not stored anywhere, and never freed
      match mallocBlock s false with
      | (s, 0) => (s.free block, -1)
      | (s, _) => (setPrivateData (s.free (s.world.privateData inode)) inode block, 0)

/-- `ext4_dir_closedir`. What it takes for the buffer of an iterator is the access time of an inode, and no
block. -/
def ext4DirClosedir (s : Files OpenWorld) (inode : ℕ) : Files OpenWorld × ℤ :=
  if s.world.ext4Mounted = false then (s, -1)
  else (setPrivateData (s.free (s.world.privateData inode)) inode 0, 0)

/-! ## Dispatch -/

/-- The functions that were installed. -/
def opsOf : Found → FileOperations OpenWorld
  | .bare => {}
  | .otherDevice => {}
  | .device => { closeOp := some devClose }
  | .ext4File => { openOp := some ext4FileOpen, closeOp := some ext4FileClose }
  | .ext4Root => { opendirOp := some ext4DirOpendir, closedirOp := some ext4DirClosedir }

/-- The lookup of a path, in the file system that it leads to. -/
def lookup (s : Files OpenWorld) (path : CString) : Files OpenWorld × Option (ℕ × Found) :=
  match mallocTemporary s with
  | (s, false) => (s, none)
  | (s, true) =>
    match s.world.route path with
    | none => (s, none)
    | some (.devfs, path) => devfsGetInode s path
    | some (.ext4, path) => ext4GetInode s path

/-- `vfs_resolve_path`. -/
def resolve : ResolvePath OpenWorld := fun s path =>
  match lookup s path with
  | (s, none) => (s, none)
  | (s, some (inode, found)) => (s, some (inode, some (opsOf found)))

end OpenPath

end Jarvis
