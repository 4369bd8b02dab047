import JarvisKernel.Lib.Word32
import JarvisKernel.Vfs.Mount

set_option relaxedAutoImplicit false
set_option autoImplicit false

/-!
# Open files

The descriptor table of `src/fs/vfs.c` and the operations on open files. The file systems behind the VFS
are a parameter: a function that resolves a path to an inode and to the record of file operations that
its `private_data` points to. What the file systems and devices keep for themselves is a state of any
type; their functions may change it, and the inodes.

Inodes are known by their addresses, with 0 for `NULL`. The memory of an inode that was freed keeps its
contents until the file systems use it again. The output of `kernel_printf` is left out.

## Main definitions

* `Jarvis.Inode`, `Jarvis.FileOperations`, `Jarvis.FileDescriptor`, `Jarvis.Vfs` — the data model.
* `Jarvis.Vfs.vfsOpen`, `Jarvis.Vfs.vfsOpendir`, `Jarvis.Vfs.vfsClose` — opening and closing.
* `Jarvis.Vfs.vfsRead`, `Jarvis.Vfs.vfsWrite`, `Jarvis.Vfs.vfsIoctl` — using a descriptor.
-/

namespace Jarvis

/-! ## Data types -/

/-- `MAX_FILE_DESCRIPTORS`. -/
def maxFileDescriptors : ℕ := 1024

/-- `O_APPEND`, as a bit of the flags. -/
def oAppend : ℕ := 4

/-- `FileType`. -/
inductive FileType where
  | regular
  | directory
  | blockDevice
  | charDevice
  | pipe
  | symlink
  deriving DecidableEq

/-- `Inode`, without `private_data`. -/
structure Inode where
  inodeNum : ℕ := 0
  type : FileType := .regular
  permissions : ℕ := 0
  size : ℕ := 0
  blocks : ℕ := 0
  refCount : ℕ := 0

/-- What the functions of file systems can change: their own state, and the inodes. How often each block
of memory was passed to `free` is counted. -/
structure Files (W : Type) where
  world : W
  inodes : ℕ → Inode
  frees : ℕ → ℕ := fun _ => 0

/-- `FileOperations`: functions on an inode, or `NULL`. The bytes that `read` puts in the buffer stand for
its result, and `write` is given the bytes of the buffer. -/
structure FileOperations (W : Type) where
  openOp : Option (Files W → ℕ → ℕ → Files W × ℤ) := none
  closeOp : Option (Files W → ℕ → Files W × ℤ) := none
  readOp : Option (Files W → ℕ → ℕ → ℕ → Files W × List UInt8) := none
  writeOp : Option (Files W → ℕ → List UInt8 → ℕ → Files W × ℕ) := none
  ioctlOp : Option (Files W → ℕ → ℤ → ℕ → Files W × ℤ) := none
  opendirOp : Option (Files W → ℕ → Files W × ℤ) := none
  closedirOp : Option (Files W → ℕ → Files W × ℤ) := none

/-- `FileDescriptor`. -/
structure FileDescriptor (W : Type) where
  inode : ℕ := 0
  ops : Option (FileOperations W) := none
  offset : ℕ := 0
  flags : ℕ := 0
  refCount : ℕ := 0

/-- `vfs_resolve_path`: the inode of a path, with the record that its `private_data` points to. -/
abbrev ResolvePath (W : Type) :=
  Files W → CString → Files W × Option (ℕ × Option (FileOperations W))

/-- The state of the VFS. -/
structure Vfs (W : Type) where
  files : Files W
  descriptors : ℕ → FileDescriptor W

namespace Files

variable {W : Type}

/-- `free` of a block, or of `NULL`. -/
def free (s : Files W) (block : ℕ) : Files W :=
  if block = 0 then s else { s with frees := Function.update s.frees block (s.frees block + 1) }

/-- Assign the reference count of an inode. -/
def setRefCount (s : Files W) (inode count : ℕ) : Files W :=
  { s with inodes := Function.update s.inodes inode { s.inodes inode with refCount := count } }

/-- `vfs_destroy_inode`. -/
def vfsDestroyInode (s : Files W) (inode : ℕ) : Files W :=
  if inode ≠ 0 ∧ 0 < (s.inodes inode).refCount then
    let count := (s.inodes inode).refCount - 1
    if count = 0 then (s.setRefCount inode count).free inode else s.setRefCount inode count
  else s

/-- Assign the size of an inode. -/
def setSize (s : Files W) (inode size : ℕ) : Files W :=
  { s with inodes := Function.update s.inodes inode { s.inodes inode with size := size } }

end Files

namespace Vfs

variable {W : Type}

/-! ## Opening and closing -/

/-- `vfs_init`. -/
def vfsInit (files : Files W) : Vfs W where
  files := files
  descriptors _ := {}

/-- A descriptor that was just opened. -/
def opened (inode : ℕ) (ops : FileOperations W) (flags : ℕ) : FileDescriptor W where
  inode := inode
  ops := some ops
  offset := 0
  flags := flags
  refCount := 1

/-- `allocate_file_descriptor`. -/
def allocateFileDescriptor (v : Vfs W) (inode : ℕ) (ops : FileOperations W) (flags : ℕ) :
    Vfs W × ℤ :=
  match (List.range maxFileDescriptors).find? fun i => decide ((v.descriptors i).refCount = 0) with
  | none => (v, -1)
  | some i =>
    ({ v with descriptors := Function.update v.descriptors i (opened inode ops flags) }, i)

/-- Call `ops->close`, if there is one. -/
def callClose (files : Files W) (ops : FileOperations W) (inode : ℕ) : Files W :=
  match ops.closeOp with
  | none => files
  | some close => (close files inode).1

/-- `vfs_open`. -/
def vfsOpen (resolve : ResolvePath W) (v : Vfs W) (path : CString) (flags : ℕ) : Vfs W × ℤ :=
  match resolve v.files path with
  | (files, none) => ({ v with files := files }, -1)
  | (files, some (inode, none)) => ({ v with files := files.vfsDestroyInode inode }, -1)
  | (files, some (inode, some ops)) =>
    match ops.openOp.elim (files, 0) fun f => f files inode flags with
    | (files, result) =>
      if result ≠ 0 then ({ v with files := files.vfsDestroyInode inode }, -1)
      else
        match { v with files := files }.allocateFileDescriptor inode ops flags with
        | (v, fd) =>
          if fd < 0 then
            ({ v with files := (callClose v.files ops inode).vfsDestroyInode inode }, -1)
          else (v, fd)

/-- `O_RDONLY`. -/
def oRdonly : ℕ := 1

/-- `vfs_opendir`. -/
def vfsOpendir (resolve : ResolvePath W) (v : Vfs W) (path : CString) : Vfs W × ℤ :=
  match resolve v.files path with
  | (files, none) => ({ v with files := files }, -1)
  | (files, some (inode, ops)) =>
    if (files.inodes inode).type ≠ .directory then
      ({ v with files := files.vfsDestroyInode inode }, -1)
    else
      match ops with
      | none => ({ v with files := files.vfsDestroyInode inode }, -1)
      | some ops =>
        match ops.opendirOp.elim (files, 0) fun f => f files inode with
        | (files, result) =>
          if result ≠ 0 then ({ v with files := files.vfsDestroyInode inode }, -1)
          else
            match { v with files := files }.allocateFileDescriptor inode ops oRdonly with
            | (v, fd) =>
              if fd < 0 then
                ({ v with files :=
                    (ops.closedirOp.elim v.files fun f => (f v.files inode).1).vfsDestroyInode inode },
                  -1)
              else (v, fd)

/-- The descriptor is open: its number is valid and it has references. -/
def IsOpen (v : Vfs W) (fd : ℤ) : Prop :=
  0 ≤ fd ∧ fd < maxFileDescriptors ∧ (v.descriptors fd.toNat).refCount ≠ 0

instance (v : Vfs W) (fd : ℤ) : Decidable (v.IsOpen fd) := by unfold IsOpen; infer_instance

/-- `vfs_close`. -/
def vfsClose (v : Vfs W) (fd : ℤ) : Vfs W × ℤ :=
  if ¬ v.IsOpen fd then (v, -1)
  else
    let d := v.descriptors fd.toNat
    if d.refCount - 1 = 0 then
      let files :=
        match d.ops with
        | none => v.files
        | some ops => if d.inode ≠ 0 then callClose v.files ops d.inode else v.files
      ({ files := files.vfsDestroyInode d.inode
         descriptors := Function.update v.descriptors fd.toNat
          { d with refCount := 0, inode := 0, ops := none } },
        0)
    else
      ({ v with
          descriptors := Function.update v.descriptors fd.toNat { d with refCount := d.refCount - 1 } },
        0)

/-! ## Using a descriptor -/

/-- `vfs_read`; `buffer` says whether the buffer is not `NULL`. The result is the number of bytes. -/
def vfsRead (v : Vfs W) (fd : ℤ) (buffer : Bool) (size : ℕ) : Vfs W × List UInt8 :=
  if ¬ v.IsOpen fd ∨ buffer = false then (v, [])
  else
    let d := v.descriptors fd.toNat
    match d.ops.bind (·.readOp) with
    | none => (v, [])
    | some read =>
      match read v.files d.inode size d.offset with
      | (files, bytes) =>
        ({ files := files
           descriptors := if 0 < bytes.length then
              Function.update v.descriptors fd.toNat
                { d with offset := Word32.add d.offset bytes.length }
            else v.descriptors },
          bytes)

/-- The offset at which `vfs_write` writes. -/
def writeOffset (v : Vfs W) (fd : ℤ) : ℕ :=
  let d := v.descriptors fd.toNat
  if d.flags.testBit oAppend ∧ d.inode ≠ 0 then (v.files.inodes d.inode).size else d.offset

/-- `vfs_write`, of the bytes of a buffer, or of `NULL`. -/
def vfsWrite (v : Vfs W) (fd : ℤ) (buffer : Option (List UInt8)) : Vfs W × ℕ :=
  match buffer with
  | none => (v, 0)
  | some bytes =>
    if ¬ v.IsOpen fd then (v, 0)
    else
      let d := v.descriptors fd.toNat
      match d.ops.bind (·.writeOp) with
      | none => (v, 0)
      | some write =>
        match write v.files d.inode bytes (v.writeOffset fd) with
        | (files, written) =>
          if 0 < written then
            let offset := Word32.add (v.writeOffset fd) written
            ({ files := if d.inode ≠ 0 ∧ (files.inodes d.inode).size < offset then
                  files.setSize d.inode offset
                else files
               descriptors := Function.update v.descriptors fd.toNat { d with offset := offset } },
              written)
          else ({ v with files := files }, written)

/-- `vfs_ioctl`. -/
def vfsIoctl (v : Vfs W) (fd request : ℤ) (argp : ℕ) : Vfs W × ℤ :=
  if ¬ v.IsOpen fd then (v, -1)
  else
    let d := v.descriptors fd.toNat
    match d.ops.bind (·.ioctlOp) with
    | none => (v, -1)
    | some ioctl =>
      match ioctl v.files d.inode request argp with
      | (files, result) => ({ v with files := files }, result)

end Vfs

end Jarvis
