import JarvisKernel.Ext4.Defs
import JarvisKernel.Vfs.OpenPath

set_option relaxedAutoImplicit false
set_option autoImplicit false

/-!
# Directories of ext4

The functions of `src/fs/ext4.c` that create and remove directories and files. They look up the parent
directory with `ext4_get_inode`, which creates an inode for whatever path it is given. The number of that
inode comes from the counter of the VFS, and is then used as the number of an inode on the device.

Records of the device are the bytes of their buffers. Buffers hold a whole block; what is behind a block
in memory, and in a buffer before it is written, is arbitrary, and so is the memory from a block of the VFS
on. The calls of `malloc` that are made by the VFS and those that ext4 makes are counted apart. A parent
path that is longer than its buffer overwrites the heap, which is left out.

## Main definitions

* `Jarvis.Volume` — a mounted file system, with what the VFS keeps.
* `Jarvis.Volume.ext4ReadInode`, `Jarvis.Volume.ext4WriteInode`, `Jarvis.Volume.ext4AddDirEntry` — inodes
  and directories on the device.
* `Jarvis.Volume.ext4Mkdir`, `Jarvis.Volume.ext4Rmdir`, `Jarvis.Volume.ext4Remove` — the operations.
-/

namespace Jarvis

open ByteBuffer

/-! ## Paths -/

/-- The loop of `vfs_parse_path`, with as many rounds as there are bytes. -/
def splitPath : ℕ → CString → List CString
  | 0, _ => []
  | _ + 1, [] => []
  | rounds + 1, c :: path =>
    (c :: path).takeWhile (· ≠ 47) ::
      splitPath rounds (((c :: path).dropWhile (· ≠ 47)).dropWhile (· = 47))

/-- The components that `vfs_parse_path` finds. One slash is passed over at the start. -/
def pathComponents (path : CString) : List CString :=
  if path.head? = some 47 then splitPath path.length path.tail else splitPath path.length path

/-- `parent_path`: the path of all components but the last. -/
def parentPath (components : List CString) : CString :=
  if components.length = 1 then [47] else components.dropLast.flatMap fun name => 47 :: name

namespace OpenPath

/-- Calls of `malloc`, up to the first that fails. -/
def mallocTemporaries (s : Files OpenWorld) : ℕ → Files OpenWorld × Bool
  | 0 => (s, true)
  | n + 1 =>
    match mallocTemporary s with
    | (s, false) => (s, false)
    | (s, true) => mallocTemporaries s n

/-- `vfs_parse_path`, with memory for the table and for every component. -/
def vfsParsePath (s : Files OpenWorld) (path : CString) : Files OpenWorld × Option (List CString) :=
  match mallocTemporaries s ((pathComponents path).length + 1) with
  | (s, false) => (s, none)
  | (s, true) => (s, some (pathComponents path))

/-- A string in memory of its own, or `NULL`. -/
def duplicate (s : Files OpenWorld) (text : CString) : Files OpenWorld × Option CString :=
  match mallocTemporary s with
  | (s, false) => (s, none)
  | (s, true) => (s, some text)

/-- The path of the parent directory and the last component. For one component `strdup` makes both, and
they may be `NULL`; for more components a parent path that is `NULL` is an error. -/
def splitParent (s : Files OpenWorld) (components : List CString) :
    Files OpenWorld × Option (Option CString × Option CString) :=
  match duplicate s (parentPath components) with
  | (s, parent) =>
    if parent = none ∧ components.length ≠ 1 then (s, none)
    else
      match duplicate s (components.getLastD []) with
      | (s, name) => (s, some (parent, name))

end OpenPath

/-! ## The state -/

/-- A file system with its device, and what the VFS keeps. `buffers` has the contents of the blocks that
`malloc` returns to ext4, by the number of the call. `heap` is the memory from a block of the VFS on, with
0 for `NULL`. -/
structure Volume where
  files : Files OpenWorld
  fs : Ext4
  buffers : ℕ → ℕ → BitVec 8
  heap : ℕ → ℕ → BitVec 8

namespace Ext4

/-- `sizeof(Ext4Inode)`. -/
def inodeRecordSize : ℕ := 166

/-- The block with an inode, and the offset in it. -/
def inodePlace (fs : Ext4) (inodeNum : ℕ) : ℕ × ℕ :=
  let blockGroup := Word32.sub inodeNum 1 / fs.inodesPerGroup
  let inodeIndex := Word32.sub inodeNum 1 % fs.inodesPerGroup
  let bgd := fs.ext4ReadBlock (fs.bgdBlock blockGroup)
  let inodeOffset := Word32.mul inodeIndex fs.inodeSize
  (Word32.add (get32 bgd 8) (inodeOffset / fs.blockSize), inodeOffset % fs.blockSize)

/-- `ext4_read_block` into a buffer. -/
def readInto (fs : Ext4) (buffer : ℕ → BitVec 8) (blockNum : ℕ) : ℕ → BitVec 8 := fun k =>
  if k < fs.blockSize then fs.ext4ReadBlock blockNum k else buffer k

/-- `memset` of a block to 0. -/
def clearBlock (fs : Ext4) (buffer : ℕ → BitVec 8) : ℕ → BitVec 8 := fun k =>
  if k < fs.blockSize then 0 else buffer k

/-- The inode that is copied from its block. -/
def inodeRecord (fs : Ext4) (buffer : ℕ → BitVec 8) (inodeNum : ℕ) : ℕ → BitVec 8 := fun k =>
  fs.readInto buffer (fs.inodePlace inodeNum).1 ((fs.inodePlace inodeNum).2 + k)

/-- `block[i]` of an inode. -/
def inodeBlock (inode : ℕ → BitVec 8) (i : ℕ) : ℕ := get32 inode (40 + 4 * i)

/-- Set `mtime` and `ctime` of an inode. -/
def touchInode (inode : ℕ → BitVec 8) : ℕ → BitVec 8 := set32 (set32 inode 12 currentTime) 16 currentTime

/-! ## Directory entries -/

/-- Write `inode`, `rec_len`, `name_len` and `file_type` of an entry. -/
def setEntry (b : ℕ → BitVec 8) (offset inode recLen nameLen fileType : ℕ) : ℕ → BitVec 8 :=
  Function.update
    (Function.update (set16 (set32 b offset inode) (offset + 4) recLen) (offset + 6)
      (BitVec.ofNat 8 nameLen))
    (offset + 7) (BitVec.ofNat 8 fileType)

/-- The loop that looks for an entry that is to be removed, in `rounds` rounds: the first entry that is
used and whose name is the given one as far as it goes. -/
def findEntry (blockSize : ℕ) (b name : ℕ → BitVec 8) : ℕ → ℕ → Option ℕ
  | 0, _ => none
  | rounds + 1, offset =>
    if blockSize ≤ offset ∨ get16 b (offset + 4) = 0 then none
    else if get32 b offset ≠ 0 ∧ 0 < (b (offset + 6)).toNat ∧
        strncmp (fun k => b (offset + 8 + k)) name (b (offset + 6)).toNat = 0 then some offset
    else findEntry blockSize b name rounds (offset + get16 b (offset + 4))

/-- The loop of `ext4_rmdir` that counts the entries that are used. -/
def countEntries (blockSize : ℕ) (b : ℕ → BitVec 8) : ℕ → ℕ → ℕ
  | 0, _ => 0
  | rounds + 1, offset =>
    if blockSize ≤ offset ∨ get16 b (offset + 4) = 0 then 0
    else
      (if get32 b offset ≠ 0 ∧ 0 < (b (offset + 6)).toNat then 1 else 0) +
        countEntries blockSize b rounds (offset + get16 b (offset + 4))

/-- The loop of `ext4_add_dir_entry` that looks for a place: an entry that is not used, or the last one.
There is no result if it does not end, which is when an entry has length 0. -/
def findPlace (blockSize : ℕ) (b : ℕ → BitVec 8) : ℕ → ℕ → Option ℕ
  | 0, _ => none
  | rounds + 1, offset =>
    if blockSize ≤ offset ∨ get32 b offset = 0 ∨ blockSize ≤ offset + get16 b (offset + 4) then
      some offset
    else if get16 b (offset + 4) = 0 then none
    else findPlace blockSize b rounds (offset + get16 b (offset + 4))

/-- The file type of an entry for a type of the VFS. -/
def entryType : FileType → ℕ
  | .regular => 2
  | .directory => 1
  | .blockDevice => 6
  | .charDevice => 3
  | .symlink => 12
  | .pipe => 13

/-! ## New directories -/

/-- The inode of a new directory, in `ext4_mkdir`; `S_IFDIR` is `1 << 14`. -/
def newDirInode (fs : Ext4) (permissions dataBlock : ℕ) : ℕ → BitVec 8 :=
  let inode := set16 (fun _ => 0) 0 (permissions ||| 0x4000)
  let inode := set32 inode 4 fs.blockSize
  let inode := touchInode (set32 inode 8 currentTime)
  let inode := set16 inode 26 2
  let inode := set32 inode 28 (fs.blockSize / 512)
  set32 inode 40 dataBlock

/-- The first block of a new directory, in `ext4_mkdir`. -/
def newDirBlock (fs : Ext4) (buffer : ℕ → BitVec 8) (inodeNum parentNum : ℕ) : ℕ → BitVec 8 :=
  let b := setEntry (fs.clearBlock buffer) 0 inodeNum 12 1 2
  let b := copy b 8 (CString.bytes [46]) 2
  let b := setEntry b 12 parentNum (Word32.sub fs.blockSize 12) 2 2
  copy b 20 (CString.bytes [46, 46]) 3

end Ext4

namespace Volume

/-! ## Inodes on the device -/

/-- `malloc` of a record or a buffer. -/
def malloc (v : Volume) : Volume × Option (ℕ → BitVec 8) :=
  match v.fs.malloc with
  | (fs, false) => ({ v with fs := fs }, none)
  | (fs, true) => ({ v with fs := fs }, some (v.buffers v.fs.mallocs))

/-- `ext4_read_inode`. -/
def ext4ReadInode (v : Volume) (inodeNum : ℕ) : Volume × Option (ℕ → BitVec 8) :=
  match v.malloc with
  | (v, none) => (v, none)
  | (v, some _) =>
    match v.malloc with
    | (v, none) => (v, none)
    | (v, some buffer) => (v, some (v.fs.inodeRecord buffer inodeNum))

/-- `ext4_write_inode`. -/
def ext4WriteInode (v : Volume) (inodeNum : ℕ) (inode : ℕ → BitVec 8) : Volume :=
  match v.malloc with
  | (v, none) => v
  | (v, some buffer) =>
    let place := v.fs.inodePlace inodeNum
    let b := copy (v.fs.readInto buffer place.1) place.2 inode Ext4.inodeRecordSize
    { v with fs := v.fs.ext4WriteBlock place.1 b }

/-- Read the first block of a directory; a directory without blocks leaves the buffer as it is. -/
def readDirBlock (v : Volume) (buffer inode : ℕ → BitVec 8) : ℕ → BitVec 8 :=
  if Ext4.inodeBlock inode 0 ≠ 0 then v.fs.readInto buffer (Ext4.inodeBlock inode 0) else buffer

/-! ## Inodes of the VFS -/

/-- `inode->inode_num`. -/
def inodeNum (v : Volume) (inode : ℕ) : ℕ := (v.files.inodes inode).inodeNum

/-- `vfs_destroy_inode`. -/
def vfsDestroyInode (v : Volume) (inode : ℕ) : Volume := { v with files := v.files.vfsDestroyInode inode }

/-- `ext4_get_inode`, of a path that may be `NULL`. -/
def ext4GetInode (v : Volume) : Option CString → Volume × Option ℕ
  | none => (v, none)
  | some path =>
    match OpenPath.ext4GetInode v.files path with
    | (files, none) => ({ v with files := files }, none)
    | (files, some (inode, _)) => ({ v with files := files }, some inode)

/-- What the three operations start with: the inode of the parent directory, and the last component.
`root` says whether the path is compared with `"/"`. -/
def findParent (v : Volume) (path : CString) (root : Bool) : Volume × Option (ℕ × Option CString) :=
  if v.files.world.ext4Mounted = false then (v, none)
  else
    match OpenPath.vfsParsePath v.files path with
    | (files, none) => ({ v with files := files }, none)
    | (files, some components) =>
      if components.length = 0 ∨ root = true ∧ path = [47] then ({ v with files := files }, none)
      else
        match OpenPath.splitParent files components with
        | (files, none) => ({ v with files := files }, none)
        | (files, some (parent, name)) =>
          match { v with files := files }.ext4GetInode parent with
          | (v, none) => (v, none)
          | (v, some inode) => (v, some (inode, name))

/-- The memory at a name, which may be `NULL`. -/
def nameBytes (v : Volume) (name : Option CString) : ℕ → BitVec 8 :=
  name.elim (v.heap 0) CString.bytes

/-! ## Adding an entry -/

/-- The first block of a directory, in `ext4_add_dir_entry`. What is taken for the inode is the memory at
`data`. If it has no block, one is allocated. -/
def directoryBlock (v : Volume) (inodeNum data : ℕ) (buffer : ℕ → BitVec 8) :
    Volume × Option (ℕ → BitVec 8) :=
  if Ext4.inodeBlock (v.heap data) 0 ≠ 0 then
    (v, some (v.fs.readInto buffer (Ext4.inodeBlock (v.heap data) 0)))
  else
    match v.fs.ext4AllocateBlock with
    | (fs, 0) => ({ v with fs := fs }, none)
    | (fs, newBlock) =>
      let inode := set32 (v.heap data) 40 newBlock
      let v := { v with fs := fs, heap := Function.update v.heap data inode }
      (v.ext4WriteInode inodeNum inode, some (fs.clearBlock buffer))

/-- `ext4_add_dir_entry`. There is no result if it does not return. -/
def ext4AddDirEntry (v : Volume) (dirInode : ℕ) (name : Option CString) (inodeNum : ℕ)
    (type : FileType) : Option (Volume × ℤ) :=
  match name with
  | none => some (v, -1)
  | some name =>
    if (v.files.inodes dirInode).type ≠ .directory then some (v, -1)
    else
      let data := v.files.world.privateData dirInode
      match v.malloc with
      | (v, none) => some (v, -1)
      | (v, some buffer) =>
        match v.directoryBlock (v.inodeNum dirInode) data buffer with
        | (v, none) => some (v, -1)
        | (v, some b) =>
          (Ext4.findPlace v.fs.blockSize b (v.fs.blockSize + 1) 0).map fun offset =>
            let nameLen := name.length % 256
            let recLen := (8 + nameLen + 3) / 4 * 4
            if v.fs.blockSize < offset + recLen then (v, -1)
            else
              let b := Ext4.setEntry b offset inodeNum recLen nameLen (Ext4.entryType type)
              let b := copy b (offset + 8) name.bytes nameLen
              ({ v with fs := v.fs.ext4WriteBlock (Ext4.inodeBlock (v.heap data) 0) b }, 0)

/-! ## Creating a directory -/

/-- Free the block and the inode of a directory that is not created after all. -/
def undoMkdir (v : Volume) (inodeNum dataBlock : ℕ) : Volume :=
  { v with fs := (v.fs.ext4FreeBlock dataBlock).ext4FreeInode inodeNum }

/-- Steps 5 and 6 of `ext4_mkdir`: the inode and the first block. The result is the number of the inode,
0 if there was no memory. -/
def mkdirWrite (v : Volume) (parentNum permissions inodeNum dataBlock : ℕ) : Volume × ℕ :=
  match v.malloc with
  | (v, none) => (v.undoMkdir inodeNum dataBlock, 0)
  | (v, some _) =>
    match (v.ext4WriteInode inodeNum (v.fs.newDirInode permissions dataBlock)).malloc with
    | (v, none) => (v.undoMkdir inodeNum dataBlock, 0)
    | (v, some buffer) =>
      ({ v with fs := v.fs.ext4WriteBlock dataBlock (v.fs.newDirBlock buffer inodeNum parentNum) },
        inodeNum)

/-- Steps 3 to 6 of `ext4_mkdir`: a new directory that no other one names. The result is the number of its
inode, 0 if it was not created. -/
def mkdirNew (v : Volume) (parentNum permissions : ℕ) : Volume × ℕ :=
  match v.fs.ext4AllocateInode with
  | (fs, 0) => ({ v with fs := fs }, 0)
  | (fs, inodeNum) =>
    match fs.ext4AllocateBlock with
    | (fs, 0) => ({ v with fs := fs.ext4FreeInode inodeNum }, 0)
    | (fs, dataBlock) => { v with fs := fs }.mkdirWrite parentNum permissions inodeNum dataBlock

/-- Step 8 of `ext4_mkdir`: one more link to the parent directory. -/
def addLink (v : Volume) (inodeNum : ℕ) : Volume :=
  match v.ext4ReadInode inodeNum with
  | (v, none) => v
  | (v, some inode) =>
    v.ext4WriteInode inodeNum (Ext4.touchInode (set16 inode 26 ((get16 inode 26 + 1) % 0x10000)))

/-- Steps 7 to 9 of `ext4_mkdir`: the entry in the parent directory, and the counts of the superblock. -/
def mkdirLink (v : Volume) (parent : ℕ) (name : Option CString) (inodeNum : ℕ) :
    Option (Volume × ℤ) :=
  (v.ext4AddDirEntry parent name inodeNum .directory).map fun (v, result) =>
    let v := v.addLink (v.inodeNum parent)
    let sb := set32 v.fs.superBlock 16 (Word32.sub (get32 v.fs.superBlock 16) 1)
    let sb := set32 sb 12 (Word32.sub (get32 sb 12) 1)
    let sb := set32 sb 48 Ext4.currentTime
    let v := { v with fs := { v.fs with superBlock := sb }.ext4WriteSuperBlock }
    (v.vfsDestroyInode parent, if result < 0 then result else 0)

/-- `ext4_mkdir`. There is no result if it does not return. -/
def ext4Mkdir (v : Volume) (path : CString) (permissions : ℕ) : Option (Volume × ℤ) :=
  match v.findParent path true with
  | (v, none) => some (v, -1)
  | (v, some (parent, name)) =>
    match v.mkdirNew (v.inodeNum parent) permissions with
    | (v, 0) => some (v.vfsDestroyInode parent, -1)
    | (v, inodeNum) => v.mkdirLink parent name inodeNum

/-! ## Removing a directory -/

/-- Steps 5 to 9 of `ext4_rmdir`, for a target directory that is empty. -/
def rmdirUnlink (v : Volume) (parentNum targetNum : ℕ) (target buffer name : ℕ → BitVec 8) :
    Volume × ℤ :=
  match v.ext4ReadInode parentNum with
  | (v, none) => (v, -1)
  | (v, some parent) =>
    let b := v.readDirBlock buffer parent
    match Ext4.findEntry v.fs.blockSize b name v.fs.blockSize 0 with
    | none => (v, -1)
    | some offset =>
      let fs := v.fs.ext4WriteBlock (Ext4.inodeBlock parent 0) (set32 b offset 0)
      let fs := if Ext4.inodeBlock target 0 ≠ 0 then fs.ext4FreeBlock (Ext4.inodeBlock target 0) else fs
      let v := { v with fs := fs.ext4FreeInode targetNum }
      let parent := set16 parent 26 ((get16 parent 26 + 0xFFFF) % 0x10000)
      let v := v.ext4WriteInode parentNum (Ext4.touchInode parent)
      ({ v with fs := v.fs.ext4WriteSuperBlock }, 0)

/-- Steps 4 to 9 of `ext4_rmdir`. -/
def rmdirTarget (v : Volume) (parentNum targetNum : ℕ) (name : ℕ → BitVec 8) : Volume × ℤ :=
  match v.ext4ReadInode targetNum with
  | (v, none) => (v, -1)
  | (v, some target) =>
    match v.malloc with
    | (v, none) => (v, -1)
    | (v, some buffer) =>
      let b := v.readDirBlock (if Ext4.inodeBlock target 0 = 0 then v.fs.clearBlock buffer else buffer)
        target
      if Ext4.countEntries v.fs.blockSize b v.fs.blockSize 0 ≠ 2 then (v, -1)
      else v.rmdirUnlink parentNum targetNum target b name

/-- `ext4_rmdir`. -/
def ext4Rmdir (v : Volume) (path : CString) : Volume × ℤ :=
  match v.findParent path true with
  | (v, none) => (v, -1)
  | (v, some (parent, name)) =>
    match v.ext4GetInode (some path) with
    | (v, none) => (v.vfsDestroyInode parent, -1)
    | (v, some target) =>
      if (v.files.inodes target).type ≠ .directory then
        ((v.vfsDestroyInode target).vfsDestroyInode parent, -1)
      else
        match v.rmdirTarget (v.inodeNum parent) (v.inodeNum target) (v.nameBytes name) with
        | (v, result) => ((v.vfsDestroyInode target).vfsDestroyInode parent, result)

/-! ## Removing a file -/

/-- The entry that `ext4_remove` finds: the inode of the parent directory, its first block, and the offset
of the entry. -/
structure Entry where
  parent : ℕ → BitVec 8
  block : ℕ → BitVec 8
  offset : ℕ

/-- Steps 3 and 4 of `ext4_remove`, up to the entry that is found. -/
def findInParent (v : Volume) (parentNum : ℕ) (name : ℕ → BitVec 8) : Volume × Option Entry :=
  match v.malloc with
  | (v, none) => (v, none)
  | (v, some buffer) =>
    match v.ext4ReadInode parentNum with
    | (v, none) => (v, none)
    | (v, some parent) =>
      let b := v.readDirBlock buffer parent
      (v, (Ext4.findEntry v.fs.blockSize b name v.fs.blockSize 0).map fun offset => ⟨parent, b, offset⟩)

/-- Step 5 of `ext4_remove`: free the direct blocks of a file, and its inode. -/
def freeFile (v : Volume) (targetNum : ℕ) : Volume :=
  match v.ext4ReadInode targetNum with
  | (v, none) => v
  | (v, some target) =>
    let blocks := ((List.range 12).map (Ext4.inodeBlock target)).filter (· ≠ 0)
    { v with fs := (blocks.foldl Ext4.ext4FreeBlock v.fs).ext4FreeInode targetNum }

/-- Steps 4 to 6 of `ext4_remove`, for an entry that was found. -/
def removeEntry (v : Volume) (parentNum : ℕ) (entry : Entry) : Volume :=
  let targetNum := get32 entry.block entry.offset
  let b := set32 entry.block entry.offset 0
  let v := { v with fs := v.fs.ext4WriteBlock (Ext4.inodeBlock entry.parent 0) b }
  let v := (v.freeFile targetNum).ext4WriteInode parentNum (Ext4.touchInode entry.parent)
  { v with fs := v.fs.ext4WriteSuperBlock }

/-- `ext4_remove`. -/
def ext4Remove (v : Volume) (path : CString) : Volume × ℤ :=
  match v.findParent path false with
  | (v, none) => (v, -1)
  | (v, some (parent, name)) =>
    match v.findInParent (v.inodeNum parent) (v.nameBytes name) with
    | (v, none) => (v.vfsDestroyInode parent, -1)
    | (v, some entry) => ((v.removeEntry (v.inodeNum parent) entry).vfsDestroyInode parent, 0)

end Volume

end Jarvis
