import JarvisKernel.Ext4.Readdir
import JarvisKernel.Lib.Run

set_option relaxedAutoImplicit false
set_option autoImplicit false

/-!
# Transfers

The calls of `ext4_read_block` and `ext4_write_block` and the copies of a superblock, in the order in which
the functions of `src/fs/ext4.c` make them. Every function has its list of transfers, along its branches.
The functions that are left out make none: those that close a file or a directory, unmount, look a path up
or write a file. What is read is what fits a buffer of the whole block, as elsewhere.

## Main definitions

* `Jarvis.Ext4.Transfer` — a transfer, with the memory that it uses.
* `Jarvis.Volume.Operation`, `Jarvis.Volume.perform`, `Jarvis.Volume.transfers` — the operations on a mounted
  file system, the state after one, and its transfers.
* `Jarvis.Ext4.Effect` — nothing has changed but the sectors that transfers write.

## Main results

* `Jarvis.Volume.effect_perform` — an operation changes only the sectors that its transfers write.
* `Jarvis.Volume.effect_run` — so does a run.
-/

namespace Jarvis

open ByteBuffer

namespace Ext4

/-! ## Transfers -/

/-- The memory that is passed to `ext4_read_block` and `ext4_write_block`: a block of
`MAX_DIR_BUFFER_SIZE` bytes from `malloc`, or an `Ext4BlockGroupDescriptor` on the stack. -/
inductive Buffer where
  | scratch
  | descriptor
  deriving DecidableEq

/-- A call of `ext4_read_block` or `ext4_write_block`, or one of the copies of an `Ext4SuperBlock` in
`ext4_read_super_block` and `ext4_write_super_block`. -/
inductive Transfer where
  | readBlock (buffer : Buffer) (blockNum : ℕ)
  | writeBlock (buffer : Buffer) (blockNum : ℕ)
  | readSuperBlock
  | writeSuperBlock
  deriving DecidableEq

/-- A transfer writes a sector. -/
def Transfer.Writes (blockSize q : ℕ) : Transfer → Prop
  | .readBlock _ _ => False
  | .writeBlock _ n => ∃ i < blockSize / 512, q = Word32.add (Word32.mul n blockSize / 512) i
  | .readSuperBlock => False
  | .writeSuperBlock => q = 2

/-! ## The allocator -/

/-- The transfers of `store`. -/
def storeTransfers (fs : Ext4) (bg bitmapBlock : ℕ) : List Transfer :=
  [.writeBlock .scratch bitmapBlock, .writeBlock .descriptor (fs.bgdBlock bg), .writeSuperBlock]

/-- The transfers of the loop over the groups. -/
def allocateFromTransfers (r : Resource) : ℕ → ℕ → Ext4 → List Transfer
  | 0, _, _ => []
  | count + 1, bg, fs =>
    let bgd := fs.ext4ReadBlock (fs.bgdBlock bg)
    .readBlock .descriptor (fs.bgdBlock bg) ::
      if get16 bgd r.countLoField = 0 ∧ get16 bgd r.countHiField = 0 then
        allocateFromTransfers r count (bg + 1) fs
      else
        match fs.malloc with
        | (_, false) => []
        | (fs, true) =>
          let bitmap := fs.ext4ReadBlock (get32 bgd r.bitmapField)
          .readBlock .scratch (get32 bgd r.bitmapField) ::
            match (List.range (r.perGroup fs)).find?
                fun i => !r.skipped fs bg i && !Bitmap.test bitmap i with
            | none => allocateFromTransfers r count (bg + 1) fs
            | some _ => fs.storeTransfers bg (get32 bgd r.bitmapField)

/-- The transfers of `ext4_allocate_block` and `ext4_allocate_inode`. -/
def allocateTransfers (r : Resource) (fs : Ext4) : List Transfer :=
  if r.exhausted fs then [] else allocateFromTransfers r fs.blockGroupCount 0 fs

/-- The transfers of `ext4_free_block` and `ext4_free_inode`. -/
def releaseTransfers (r : Resource) (fs : Ext4) (num : ℕ) : List Transfer :=
  if num = 0 then []
  else
    let bg := (num - 1) / r.perGroup fs
    let i := (num - 1) % r.perGroup fs
    if fs.blockGroupCount ≤ bg then []
    else if r.reserved fs num then []
    else
      let bgd := fs.ext4ReadBlock (fs.bgdBlock bg)
      .readBlock .descriptor (fs.bgdBlock bg) ::
        match fs.malloc with
        | (_, false) => []
        | (fs, true) =>
          .readBlock .scratch (get32 bgd r.bitmapField) ::
            if Bitmap.test (fs.ext4ReadBlock (get32 bgd r.bitmapField)) i = false then []
            else fs.storeTransfers bg (get32 bgd r.bitmapField)

/-- The transfers of freeing one block after the other. -/
def freeBlocksTransfers (fs : Ext4) : List ℕ → List Transfer
  | [] => []
  | n :: blocks => releaseTransfers .block fs n ++ (fs.ext4FreeBlock n).freeBlocksTransfers blocks

/-! ## Inodes and directories -/

/-- The block with the group descriptor of an inode. -/
def inodeBgdBlock (fs : Ext4) (inodeNum : ℕ) : ℕ :=
  fs.bgdBlock (Word32.sub inodeNum 1 / fs.inodesPerGroup)

/-- The transfers of `ext4_read_inode`. -/
def readInodeTransfers (fs : Ext4) (inodeNum : ℕ) : List Transfer :=
  match fs.malloc with
  | (_, false) => []
  | (fs, true) =>
    .readBlock .descriptor (fs.inodeBgdBlock inodeNum) ::
      match fs.malloc with
      | (_, false) => []
      | (fs, true) => [.readBlock .scratch (fs.inodePlace inodeNum).1]

/-- The transfers of `ext4_write_inode`. -/
def writeInodeTransfers (fs : Ext4) (inodeNum : ℕ) : List Transfer :=
  .readBlock .descriptor (fs.inodeBgdBlock inodeNum) ::
    match fs.malloc with
    | (_, false) => []
    | (fs, true) =>
      [.readBlock .scratch (fs.inodePlace inodeNum).1, .writeBlock .scratch (fs.inodePlace inodeNum).1]

/-- What `ext4_file_open` does to an inode with `O_TRUNC`. -/
def truncateInode (inode : ℕ → BitVec 8) : ℕ → BitVec 8 :=
  let inode := set32 (set32 (set32 inode 4 0) 108 0) 28 0
  -- `blocks`, of 64 bits
  set32 (set32 (set32 inode 142 0) 146 0) 16 currentTime

/-- The transfers of `readDirBlock`. -/
def readDirBlockTransfers (inode : ℕ → BitVec 8) : List Transfer :=
  if inodeBlock inode 0 ≠ 0 then [.readBlock .scratch (inodeBlock inode 0)] else []

/-- The transfers of the loop of `ext4_dir_readdir`. -/
def readdirLoopTransfers (fs : Ext4) (inode : ℕ → BitVec 8) : ℕ → ℕ → ℕ → (ℕ → BitVec 8) → List Transfer
  | 0, _, _, _ => []
  | rounds + 1, i, offset, buffer =>
    if 12 ≤ i ∨ inodeBlock inode i = 0 then []
    else
      let b := if offset = 0 then fs.readInto buffer (inodeBlock inode i) else buffer
      (if offset = 0 then [.readBlock .scratch (inodeBlock inode i)] else []) ++
        match nextLive fs.blockSize b fs.blockSize offset with
        | some _ => []
        | none => readdirLoopTransfers fs inode rounds (i + 1) 0 b

/-- The transfers of the loop of `ext4_file_read`. -/
def fileReadLoopTransfers (inode : ℕ → BitVec 8) (endBlock : ℕ) : ℕ → ℕ → List Transfer
  | 0, _ => []
  | rounds + 1, i =>
    if endBlock < i ∨ 12 ≤ i ∨ inodeBlock inode i = 0 then []
    else .readBlock .scratch (inodeBlock inode i) :: fileReadLoopTransfers inode endBlock rounds (i + 1)

end Ext4

namespace Volume

open Ext4

/-! ## Adding an entry -/

/-- The transfers of `directoryBlock`. -/
def directoryBlockTransfers (v : Volume) (inodeNum data : ℕ) : List Transfer :=
  if inodeBlock (v.heap data) 0 ≠ 0 then [.readBlock .scratch (inodeBlock (v.heap data) 0)]
  else
    allocateTransfers .block v.fs ++
      match v.fs.ext4AllocateBlock with
      | (_, 0) => []
      | (fs, _) => fs.writeInodeTransfers inodeNum

/-- The transfers of `ext4_add_dir_entry`. -/
def addDirEntryTransfers (v : Volume) (dirInode : ℕ) (name : Option CString) : List Transfer :=
  match name with
  | none => []
  | some name =>
    if (v.files.inodes dirInode).type ≠ .directory then []
    else
      let data := v.files.world.privateData dirInode
      match v.malloc with
      | (_, none) => []
      | (v, some buffer) =>
        v.directoryBlockTransfers (v.inodeNum dirInode) data ++
          match v.directoryBlock (v.inodeNum dirInode) data buffer with
          | (_, none) => []
          | (v, some b) =>
            match findPlace v.fs.blockSize b (v.fs.blockSize + 1) 0 with
            | none => []
            | some offset =>
              if v.fs.blockSize < offset + (8 + name.length % 256 + 3) / 4 * 4 then []
              else [.writeBlock .scratch (inodeBlock (v.heap data) 0)]

/-! ## Creating a directory -/

/-- The transfers of `undoMkdir`. -/
def undoMkdirTransfers (v : Volume) (inodeNum dataBlock : ℕ) : List Transfer :=
  releaseTransfers .block v.fs dataBlock ++ releaseTransfers .inode (v.fs.ext4FreeBlock dataBlock) inodeNum

/-- The transfers of `mkdirWrite`. -/
def mkdirWriteTransfers (v : Volume) (permissions inodeNum dataBlock : ℕ) : List Transfer :=
  match v.malloc with
  | (v, none) => v.undoMkdirTransfers inodeNum dataBlock
  | (v, some _) =>
    v.fs.writeInodeTransfers inodeNum ++
      match (v.ext4WriteInode inodeNum (v.fs.newDirInode permissions dataBlock)).malloc with
      | (v, none) => v.undoMkdirTransfers inodeNum dataBlock
      | (_, some _) => [.writeBlock .scratch dataBlock]

/-- The transfers of `mkdirNew`. -/
def mkdirNewTransfers (v : Volume) (permissions : ℕ) : List Transfer :=
  allocateTransfers .inode v.fs ++
    match v.fs.ext4AllocateInode with
    | (_, 0) => []
    | (fs, inodeNum) =>
      allocateTransfers .block fs ++
        match fs.ext4AllocateBlock with
        | (fs, 0) => releaseTransfers .inode fs inodeNum
        | (fs, dataBlock) => { v with fs := fs }.mkdirWriteTransfers permissions inodeNum dataBlock

/-- The transfers of `addLink`. -/
def addLinkTransfers (v : Volume) (inodeNum : ℕ) : List Transfer :=
  v.fs.readInodeTransfers inodeNum ++
    match v.ext4ReadInode inodeNum with
    | (_, none) => []
    | (v, some _) => v.fs.writeInodeTransfers inodeNum

/-- The transfers of `mkdirLink`. -/
def mkdirLinkTransfers (v : Volume) (parent : ℕ) (name : Option CString) (inodeNum : ℕ) : List Transfer :=
  v.addDirEntryTransfers parent name ++
    match v.ext4AddDirEntry parent name inodeNum .directory with
    | none => []
    | some (v, _) => v.addLinkTransfers (v.inodeNum parent) ++ [.writeSuperBlock]

/-- The transfers of `ext4_mkdir`. -/
def mkdirTransfers (v : Volume) (path : CString) (permissions : ℕ) : List Transfer :=
  match v.findParent path true with
  | (_, none) => []
  | (v, some (parent, name)) =>
    v.mkdirNewTransfers permissions ++
      match v.mkdirNew (v.inodeNum parent) permissions with
      | (_, 0) => []
      | (v, inodeNum) => v.mkdirLinkTransfers parent name inodeNum

/-! ## Removing -/

/-- The transfers of `rmdirUnlink`. -/
def rmdirUnlinkTransfers (v : Volume) (parentNum targetNum : ℕ) (target buffer name : ℕ → BitVec 8) :
    List Transfer :=
  v.fs.readInodeTransfers parentNum ++
    match v.ext4ReadInode parentNum with
    | (_, none) => []
    | (v, some parent) =>
      let b := v.readDirBlock buffer parent
      readDirBlockTransfers parent ++
        match findEntry v.fs.blockSize b name v.fs.blockSize 0 with
        | none => []
        | some offset =>
          let fs := v.fs.ext4WriteBlock (inodeBlock parent 0) (set32 b offset 0)
          let freed := if inodeBlock target 0 ≠ 0 then fs.ext4FreeBlock (inodeBlock target 0) else fs
          .writeBlock .scratch (inodeBlock parent 0) ::
            (if inodeBlock target 0 ≠ 0 then releaseTransfers .block fs (inodeBlock target 0) else []) ++
            releaseTransfers .inode freed targetNum ++
            (freed.ext4FreeInode targetNum).writeInodeTransfers parentNum ++ [.writeSuperBlock]

/-- The transfers of `rmdirTarget`. -/
def rmdirTargetTransfers (v : Volume) (parentNum targetNum : ℕ) (name : ℕ → BitVec 8) : List Transfer :=
  v.fs.readInodeTransfers targetNum ++
    match v.ext4ReadInode targetNum with
    | (_, none) => []
    | (v, some target) =>
      match v.malloc with
      | (_, none) => []
      | (v, some buffer) =>
        let b := v.readDirBlock (if inodeBlock target 0 = 0 then v.fs.clearBlock buffer else buffer) target
        readDirBlockTransfers target ++
          if countEntries v.fs.blockSize b v.fs.blockSize 0 ≠ 2 then []
          else v.rmdirUnlinkTransfers parentNum targetNum target b name

/-- The transfers of `ext4_rmdir`. -/
def rmdirTransfers (v : Volume) (path : CString) : List Transfer :=
  match v.findParent path true with
  | (_, none) => []
  | (v, some (parent, name)) =>
    match v.ext4GetInode (some path) with
    | (_, none) => []
    | (v, some target) =>
      if (v.files.inodes target).type ≠ .directory then []
      else v.rmdirTargetTransfers (v.inodeNum parent) (v.inodeNum target) (v.nameBytes name)

/-- The transfers of `findInParent`. -/
def findInParentTransfers (v : Volume) (parentNum : ℕ) : List Transfer :=
  match v.malloc with
  | (_, none) => []
  | (v, some _) =>
    v.fs.readInodeTransfers parentNum ++
      match v.ext4ReadInode parentNum with
      | (_, none) => []
      | (_, some parent) => readDirBlockTransfers parent

/-- The transfers of `freeFile`. -/
def freeFileTransfers (v : Volume) (targetNum : ℕ) : List Transfer :=
  v.fs.readInodeTransfers targetNum ++
    match v.ext4ReadInode targetNum with
    | (_, none) => []
    | (v, some target) =>
      let blocks := ((List.range 12).map (inodeBlock target)).filter (· ≠ 0)
      v.fs.freeBlocksTransfers blocks ++
        releaseTransfers .inode (blocks.foldl ext4FreeBlock v.fs) targetNum

/-- The transfers of `removeEntry`. -/
def removeEntryTransfers (v : Volume) (parentNum : ℕ) (entry : Entry) : List Transfer :=
  let targetNum := get32 entry.block entry.offset
  let b := set32 entry.block entry.offset 0
  let v := { v with fs := v.fs.ext4WriteBlock (inodeBlock entry.parent 0) b }
  .writeBlock .scratch (inodeBlock entry.parent 0) :: v.freeFileTransfers targetNum ++
    (v.freeFile targetNum).fs.writeInodeTransfers parentNum ++ [.writeSuperBlock]

/-- The transfers of `ext4_remove`. -/
def removeTransfers (v : Volume) (path : CString) : List Transfer :=
  match v.findParent path false with
  | (_, none) => []
  | (v, some (parent, name)) =>
    v.findInParentTransfers (v.inodeNum parent) ++
      match v.findInParent (v.inodeNum parent) (v.nameBytes name) with
      | (_, none) => []
      | (v, some entry) => v.removeEntryTransfers (v.inodeNum parent) entry

/-! ## Opening and reading -/

/-- `ext4_file_open`. With `O_TRUNC` the inode is written twice. -/
def ext4FileOpen (v : Volume) (inode flags : ℕ) : Volume × ℤ :=
  if v.files.world.ext4Mounted = false then (v, -1)
  else
    match v.ext4ReadInode (v.inodeNum inode) with
    | (v, none) => (v, -1)
    | (v, some record) =>
      if flags &&& 0x0008 = 0 then
        (v.ext4WriteInode (v.inodeNum inode) (set32 record 8 currentTime), 0)
      else
        let record := truncateInode record
        ((v.ext4WriteInode (v.inodeNum inode) record).ext4WriteInode (v.inodeNum inode)
          (set32 record 8 currentTime), 0)

/-- The transfers of `ext4_file_open`. -/
def fileOpenTransfers (v : Volume) (inode flags : ℕ) : List Transfer :=
  if v.files.world.ext4Mounted = false then []
  else
    v.fs.readInodeTransfers (v.inodeNum inode) ++
      match v.ext4ReadInode (v.inodeNum inode) with
      | (_, none) => []
      | (v, some record) =>
        (if flags &&& 0x0008 = 0 then v.fs.writeInodeTransfers (v.inodeNum inode)
        else
          v.fs.writeInodeTransfers (v.inodeNum inode) ++
            (v.ext4WriteInode (v.inodeNum inode) (truncateInode record)).fs.writeInodeTransfers
              (v.inodeNum inode))

/-- The transfers of `ext4_file_read`. -/
def fileReadTransfers (v : Volume) (inode : ℕ → BitVec 8) (size offset : ℕ) : List Transfer :=
  let fileSize := get32 inode 4
  if fileSize ≤ offset then []
  else
    let size := if fileSize < Word32.add offset size then fileSize - offset else size
    let blockSize := v.fs.blockSize
    if blockSize = 0 then []
    else
      match v.malloc with
      | (_, none) => []
      | (_, some _) =>
        fileReadLoopTransfers inode (Word32.sub (Word32.add offset size) 1 / blockSize) 12
          (offset / blockSize)

/-- The transfers of `ext4_dir_opendir`. The inode is read only if there is memory for it and for the
buffer. -/
def opendirTransfers (v : Volume) (inode : ℕ) : List Transfer :=
  let world := v.files.world
  if world.ext4Mounted = false ∨ (v.files.inodes inode).type ≠ .directory ∨
      world.memory world.mallocs = false then []
  else
    .readBlock .descriptor (v.fs.inodeBgdBlock (v.inodeNum inode)) ::
      if world.memory (world.mallocs + 1) = false then []
      else
        .readBlock .scratch (v.fs.inodePlace (v.inodeNum inode)).1 ::
          if (OpenPath.ext4DirOpendir v.files inode).2 ≠ 0 then []
          else (v.advance 1).fs.writeInodeTransfers (v.inodeNum inode)

/-- The transfers of `ext4_dir_readdir`. The buffer that an iterator has already is taken for one from
`malloc`. -/
def readdirTransfers (v : Volume) (inode : ℕ) : List Transfer :=
  if v.files.world.ext4Mounted = false then []
  else if (v.files.inodes inode).type ≠ .directory then []
  else
    let data := v.files.world.privateData inode
    match v.dirIterator inode with
    | (_, none) => []
    | (v, some iterator) =>
      match v.dirBuffer inode iterator with
      | (_, none) => []
      | (v, some buffer) =>
        readdirLoopTransfers v.fs (v.heap data) 12 (get32 (v.heap iterator) 0) (get32 (v.heap iterator) 4)
          (v.heap buffer)

/-! ## Operations -/

/-- The functions that make transfers, with their arguments. -/
inductive Operation where
  | allocate (r : Resource)
  | release (r : Resource) (num : ℕ)
  | readInode (num : ℕ)
  | writeInode (num : ℕ) (inode : ℕ → BitVec 8)
  | addDirEntry (dirInode : ℕ) (name : Option CString) (num : ℕ) (type : FileType)
  | mkdir (path : CString) (permissions : ℕ)
  | rmdir (path : CString)
  | remove (path : CString)
  | fileOpen (inode flags : ℕ)
  | fileRead (inode buffer : ℕ → BitVec 8) (size offset : ℕ)
  | opendir (inode : ℕ)
  | readdir (inode nameSize : ℕ)

/-- The state after an operation, if it returns. -/
def perform (v : Volume) : Operation → Option Volume
  | .allocate r => some { v with fs := (allocate r v.fs).1 }
  | .release r num => some { v with fs := release r v.fs num }
  | .readInode num => some (v.ext4ReadInode num).1
  | .writeInode num inode => some (v.ext4WriteInode num inode)
  | .addDirEntry dirInode name num type => (v.ext4AddDirEntry dirInode name num type).map Prod.fst
  | .mkdir path permissions => (v.ext4Mkdir path permissions).map Prod.fst
  | .rmdir path => some (v.ext4Rmdir path).1
  | .remove path => some (v.ext4Remove path).1
  | .fileOpen inode flags => some (v.ext4FileOpen inode flags).1
  | .fileRead inode buffer size offset => (v.ext4FileRead inode buffer size offset).map Prod.fst
  | .opendir inode => some (v.ext4DirOpendir inode).1
  | .readdir inode nameSize => some (v.ext4DirReaddir inode nameSize).1

/-- The transfers of an operation. -/
def transfers (v : Volume) : Operation → List Transfer
  | .allocate r => allocateTransfers r v.fs
  | .release r num => releaseTransfers r v.fs num
  | .readInode num => v.fs.readInodeTransfers num
  | .writeInode num _ => v.fs.writeInodeTransfers num
  | .addDirEntry dirInode name _ _ => v.addDirEntryTransfers dirInode name
  | .mkdir path permissions => v.mkdirTransfers path permissions
  | .rmdir path => v.rmdirTransfers path
  | .remove path => v.removeTransfers path
  | .fileOpen inode flags => v.fileOpenTransfers inode flags
  | .fileRead inode _ size offset => v.fileReadTransfers inode size offset
  | .opendir inode => v.opendirTransfers inode
  | .readdir inode _ => v.readdirTransfers inode

end Volume

namespace Ext4

/-! ## Effects -/

variable {fs fs' fs'' : Ext4} {ts us : List Transfer}

/-- Nothing has changed on the device but the sectors that the transfers write, and the block size is the
same. -/
structure Effect (fs : Ext4) (ts : List Transfer) (fs' : Ext4) : Prop where
  blockSize : fs'.blockSize = fs.blockSize
  sectors : ∀ q, (∀ t ∈ ts, ¬ t.Writes fs.blockSize q) → fs'.sectors q = fs.sectors q

/-- Sectors that stay as they are are in keeping with any transfers. -/
lemma Effect.of_eq (hsize : fs'.blockSize = fs.blockSize) (hsectors : fs'.sectors = fs.sectors)
    (ts : List Transfer) : Effect fs ts fs' :=
  ⟨hsize, fun _ _ => by rw [hsectors]⟩

/-- So is a file system that stays as it is. -/
lemma Effect.refl (fs : Ext4) (ts : List Transfer) : Effect fs ts fs := of_eq rfl rfl ts

/-- Two steps change the sectors of the transfers of both. -/
lemma Effect.trans (h : Effect fs ts fs') (h' : Effect fs' us fs'') : Effect fs (ts ++ us) fs'' := by
  refine ⟨h'.blockSize.trans h.blockSize, fun q hq => ?_⟩
  have hus : ∀ t ∈ us, ¬ t.Writes fs'.blockSize q := by
    rw [h.blockSize]
    exact fun t ht => hq t (List.mem_append_right ts ht)
  rw [h'.sectors q hus, h.sectors q fun t ht => hq t (List.mem_append_left us ht)]

/-- More transfers may be listed. -/
lemma Effect.mono (h : Effect fs ts fs') (hsub : ts ⊆ us) : Effect fs us fs' :=
  ⟨h.blockSize, fun q hq => h.sectors q fun t ht => hq t (hsub ht)⟩

/-- Transfers before it. -/
lemma Effect.after (h : Effect fs us fs') (ts : List Transfer) : Effect fs (ts ++ us) fs' :=
  h.mono (List.subset_append_right ts us)

/-- Calls of `malloc` transfer nothing. -/
lemma effect_withMallocs (fs : Ext4) (n : ℕ) (ts : List Transfer) : Effect fs ts (fs.withMallocs n) :=
  ⟨rfl, fun _ _ => rfl⟩

/-- Writing a block changes the sectors of this transfer. -/
lemma effect_ext4WriteBlock (fs : Ext4) (buffer : Buffer) (n : ℕ) (b : ℕ → BitVec 8) :
    Effect fs [.writeBlock buffer n] (fs.ext4WriteBlock n b) := by
  refine ⟨rfl, fun q hq => ?_⟩
  have hplace : ∀ i ∈ List.range (fs.blockSize / 512), q ≠ Word32.add (fs.blockSector n) i :=
    fun i hi hqi => hq _ List.mem_cons_self ⟨i, List.mem_range.1 hi, hqi⟩
  exact Table.foldl_update_of_ne _ _ q _ fs.sectors hplace

/-- `ext4_write_super_block`, after the superblock was changed. -/
lemma effect_ext4WriteSuperBlock (fs : Ext4) (sb : ℕ → BitVec 8) :
    Effect fs [.writeSuperBlock] { fs with superBlock := sb }.ext4WriteSuperBlock := by
  refine ⟨rfl, fun q hq => ?_⟩
  exact Function.update_of_ne (fun hqtwo => hq _ List.mem_cons_self hqtwo) _ _

/-- Writing back a bitmap, its descriptor and the superblock changes those of three. -/
lemma effect_store (fs : Ext4) (bg bitmapBlock : ℕ) (bitmap bgd superBlock : ℕ → BitVec 8) :
    Effect fs (fs.storeTransfers bg bitmapBlock) (fs.store bg bitmapBlock bitmap bgd superBlock) := by
  have hbitmap := effect_ext4WriteBlock fs .scratch bitmapBlock bitmap
  have hbgd := effect_ext4WriteBlock (fs.ext4WriteBlock bitmapBlock bitmap) .descriptor (fs.bgdBlock bg) bgd
  have hsuper := effect_ext4WriteSuperBlock
    ((fs.ext4WriteBlock bitmapBlock bitmap).ext4WriteBlock (fs.bgdBlock bg) bgd)
    (set32 superBlock 48 currentTime)
  exact hbitmap.trans (hbgd.trans hsuper)

/-- The loop over the groups.

**Proof sketch.** By induction on the number of groups that are left. -/
lemma effect_allocateFrom (r : Resource) (count bg : ℕ) (fs : Ext4) :
    Effect fs (allocateFromTransfers r count bg fs) (allocateFrom r count bg fs).1 := by
  induction count generalizing bg fs with
  | zero => exact .refl fs []
  | succ count ih =>
    rw [allocateFrom, allocateFromTransfers]
    dsimp only
    split_ifs with hnone
    · exact (ih (bg + 1) fs).after [_]
    cases hmemory : fs.memory fs.mallocs with
    | false =>
      rw [malloc_eq hmemory]
      exact effect_withMallocs fs _ _
    | true =>
      rw [malloc_eq hmemory]
      have hmalloc := effect_withMallocs fs (fs.mallocs + 1)
        [.readBlock .descriptor (fs.bgdBlock bg),
          .readBlock .scratch (get32 (fs.ext4ReadBlock (fs.bgdBlock bg)) r.bitmapField)]
      dsimp only
      generalize List.find? _ (List.range _) = found
      cases found with
      | none => exact hmalloc.trans (ih (bg + 1) _)
      | some i => exact hmalloc.trans (effect_store _ _ _ _ _ _)

/-- The allocator changes the sectors of its transfers only. -/
lemma effect_allocate (r : Resource) (fs : Ext4) : Effect fs (allocateTransfers r fs) (allocate r fs).1 := by
  rw [allocate, allocateTransfers]
  split_ifs
  · exact .refl fs []
  · exact effect_allocateFrom r _ 0 fs

/-- So does freeing a block or inode. -/
lemma effect_release (r : Resource) (fs : Ext4) (num : ℕ) :
    Effect fs (releaseTransfers r fs num) (release r fs num) := by
  rw [release, releaseTransfers]
  dsimp only
  split_ifs
  · exact .refl fs []
  · exact .refl fs []
  · exact .refl fs []
  cases hmemory : fs.memory fs.mallocs with
  | false =>
    rw [malloc_eq hmemory]
    exact effect_withMallocs fs _ _
  | true =>
    rw [malloc_eq hmemory]
    dsimp only
    split_ifs
    · exact effect_withMallocs fs _ _
    · exact (effect_withMallocs fs (fs.mallocs + 1) [_, _]).trans (effect_store _ _ _ _ _ _)

/-- And freeing the blocks of a file. -/
lemma effect_freeBlocks (fs : Ext4) (blocks : List ℕ) :
    Effect fs (fs.freeBlocksTransfers blocks) (blocks.foldl ext4FreeBlock fs) := by
  induction blocks generalizing fs with
  | nil => exact .refl fs []
  | cons n blocks ih => exact (effect_release .block fs n).trans (ih _)

end Ext4

namespace Volume

open Ext4

variable {v v' : Volume} {path : CString}

/-- Calls of `malloc` of a volume transfer nothing. -/
lemma effect_advance (v : Volume) (n : ℕ) (ts : List Transfer) : Effect v.fs ts (v.advance n).fs :=
  effect_withMallocs v.fs _ ts

/-- `ext4_read_inode` writes nothing. -/
lemma effect_ext4ReadInode (v : Volume) (num : ℕ) (ts : List Transfer) :
    Effect v.fs ts (v.ext4ReadInode num).1.fs := by
  rcases ext4ReadInode_cases v num with ⟨n, hcall⟩ | hcall
  · rw [hcall]
    exact effect_advance v n ts
  · rw [hcall]
    exact effect_advance v 2 ts

/-- `ext4_write_inode` changes the sectors of its transfers only. -/
lemma effect_ext4WriteInode (v : Volume) (num : ℕ) (inode : ℕ → BitVec 8) :
    Effect v.fs (v.fs.writeInodeTransfers num) (v.ext4WriteInode num inode).fs := by
  rw [ext4WriteInode, writeInodeTransfers]
  cases hmemory : v.fs.memory v.fs.mallocs with
  | false =>
    rw [malloc_of_false hmemory, malloc_eq hmemory]
    exact effect_advance v 1 _
  | true =>
    rw [malloc_of_true hmemory, malloc_eq hmemory]
    exact (effect_advance v 1 [_, _]).trans (effect_ext4WriteBlock _ .scratch _ _)

/-! ## Effects of creating a directory -/

/-- So does looking for the block of a directory. -/
lemma effect_directoryBlock (v : Volume) (num data : ℕ) (buffer : ℕ → BitVec 8) :
    Effect v.fs (v.directoryBlockTransfers num data) (v.directoryBlock num data buffer).1.fs := by
  rw [directoryBlock, directoryBlockTransfers]
  split_ifs
  · exact .refl v.fs _
  have hallocate : Effect v.fs (allocateTransfers .block v.fs) v.fs.ext4AllocateBlock.1 :=
    effect_allocate .block v.fs
  generalize v.fs.ext4AllocateBlock = result at hallocate ⊢
  rcases result with ⟨fs, _ | newBlock⟩
  · exact hallocate.trans (.refl fs [])
  · exact hallocate.trans (effect_ext4WriteInode { v with fs := fs, heap := _ } num _)

/-- And `ext4_add_dir_entry`, if it returns. -/
lemma effect_ext4AddDirEntry {dirInode num : ℕ} {name : Option CString} {type : FileType} {result : ℤ}
    (hcall : v.ext4AddDirEntry dirInode name num type = some (v', result)) :
    Effect v.fs (v.addDirEntryTransfers dirInode name) v'.fs := by
  cases name with
  | none =>
    obtain ⟨rfl, -⟩ := Prod.mk.inj (Option.some.inj hcall)
    exact .refl v.fs _
  | some name =>
    rw [ext4AddDirEntry] at hcall
    rw [addDirEntryTransfers]
    split_ifs at hcall ⊢
    · obtain ⟨rfl, -⟩ := Prod.mk.inj (Option.some.inj hcall)
      exact .refl v.fs _
    cases hmemory : v.fs.memory v.fs.mallocs with
    | false =>
      rw [malloc_of_false hmemory] at hcall ⊢
      obtain ⟨rfl, -⟩ := Prod.mk.inj (Option.some.inj hcall)
      exact effect_advance v 1 _
    | true =>
      rw [malloc_of_true hmemory] at hcall ⊢
      have hblock := effect_directoryBlock (v.advance 1) ((v.advance 1).inodeNum dirInode)
        (v.files.world.privateData dirInode) (v.buffers v.fs.mallocs)
      have hread := (effect_advance v 1 []).trans hblock
      dsimp only at hcall ⊢
      rcases hcall' : (v.advance 1).directoryBlock ((v.advance 1).inodeNum dirInode)
        (v.files.world.privateData dirInode) (v.buffers v.fs.mallocs) with ⟨v₁, _ | b⟩
      · rw [hcall'] at hcall hread
        obtain ⟨rfl, -⟩ := Prod.mk.inj (Option.some.inj hcall)
        exact hread.trans (.refl v₁.fs [])
      · rw [hcall'] at hcall hread
        obtain ⟨offset, hplace, hcall⟩ := Option.map_eq_some_iff.1 hcall
        refine hread.trans ?_
        dsimp only at hcall ⊢
        rw [hplace]
        dsimp only
        split_ifs at hcall ⊢
        · obtain ⟨rfl, -⟩ := Prod.mk.inj hcall
          exact .refl v₁.fs []
        · obtain ⟨rfl, -⟩ := Prod.mk.inj hcall
          exact effect_ext4WriteBlock v₁.fs .scratch _ _

/-- Freeing the inode and the block of a new directory. -/
lemma effect_undoMkdir (v : Volume) (inodeNum dataBlock : ℕ) :
    Effect v.fs (v.undoMkdirTransfers inodeNum dataBlock) (v.undoMkdir inodeNum dataBlock).fs :=
  (effect_release .block v.fs dataBlock).trans (effect_release .inode _ inodeNum)

/-- Steps 5 and 6 of `ext4_mkdir` change the sectors of their transfers only. -/
lemma effect_mkdirWrite (v : Volume) (parentNum permissions inodeNum dataBlock : ℕ) :
    Effect v.fs (v.mkdirWriteTransfers permissions inodeNum dataBlock)
      (v.mkdirWrite parentNum permissions inodeNum dataBlock).1.fs := by
  rw [mkdirWrite, mkdirWriteTransfers]
  cases hmemory : v.fs.memory v.fs.mallocs with
  | false =>
    rw [malloc_of_false hmemory]
    exact (effect_advance v 1 []).trans (effect_undoMkdir _ inodeNum dataBlock)
  | true =>
    rw [malloc_of_true hmemory]
    dsimp only
    have hwrite := (effect_advance v 1 []).trans
      (effect_ext4WriteInode (v.advance 1) inodeNum ((v.advance 1).fs.newDirInode permissions dataBlock))
    refine hwrite.trans ?_
    generalize (v.advance 1).ext4WriteInode inodeNum _ = v₁
    rcases malloc_cases v₁ with hcall | hcall
    · rw [hcall]
      exact (effect_advance v₁ 1 []).trans (effect_undoMkdir _ inodeNum dataBlock)
    · rw [hcall]
      exact (effect_advance v₁ 1 []).trans (effect_ext4WriteBlock _ .scratch dataBlock _)

/-- So do steps 3 to 6. -/
lemma effect_mkdirNew (v : Volume) (parentNum permissions : ℕ) :
    Effect v.fs (v.mkdirNewTransfers permissions) (v.mkdirNew parentNum permissions).1.fs := by
  rw [mkdirNew, mkdirNewTransfers]
  have hinode : Effect v.fs (allocateTransfers .inode v.fs) v.fs.ext4AllocateInode.1 :=
    effect_allocate .inode v.fs
  generalize v.fs.ext4AllocateInode = result at hinode ⊢
  rcases result with ⟨fs₁, _ | inodeNum⟩
  · exact hinode.trans (.refl fs₁ [])
  refine hinode.trans ?_
  have hblock : Effect fs₁ (allocateTransfers .block fs₁) fs₁.ext4AllocateBlock.1 :=
    effect_allocate .block fs₁
  simp only []
  generalize fs₁.ext4AllocateBlock = result at hblock ⊢
  rcases result with ⟨fs₂, _ | dataBlock⟩
  · exact hblock.trans (effect_release .inode fs₂ _)
  · exact hblock.trans (effect_mkdirWrite { v with fs := fs₂ } parentNum permissions _ _)

/-- Step 8. -/
lemma effect_addLink (v : Volume) (inodeNum : ℕ) :
    Effect v.fs (v.addLinkTransfers inodeNum) (v.addLink inodeNum).fs := by
  rw [addLink, addLinkTransfers]
  have hread := effect_ext4ReadInode v inodeNum (v.fs.readInodeTransfers inodeNum)
  generalize v.ext4ReadInode inodeNum = result at hread ⊢
  rcases result with ⟨v₁, _ | inode⟩
  · exact hread.trans (.refl v₁.fs [])
  · exact hread.trans (effect_ext4WriteInode v₁ inodeNum _)

/-- And steps 7 to 9, if they return. -/
lemma effect_mkdirLink {parent inodeNum : ℕ} {name : Option CString} {result : ℤ}
    (hcall : v.mkdirLink parent name inodeNum = some (v', result)) :
    Effect v.fs (v.mkdirLinkTransfers parent name inodeNum) v'.fs := by
  obtain ⟨⟨v₁, added⟩, hadd, hcall⟩ := Option.map_eq_some_iff.1 hcall
  obtain ⟨rfl, -⟩ := Prod.mk.inj hcall
  rw [mkdirLinkTransfers, hadd]
  have hlink := effect_addLink v₁ (v₁.inodeNum parent)
  exact (effect_ext4AddDirEntry hadd).trans (hlink.trans (effect_ext4WriteSuperBlock _ _))

/-- `ext4_mkdir` changes the sectors of its transfers only, if it returns. -/
lemma effect_ext4Mkdir {permissions : ℕ} {result : ℤ}
    (hcall : v.ext4Mkdir path permissions = some (v', result)) :
    Effect v.fs (v.mkdirTransfers path permissions) v'.fs := by
  have hfs := fs_findParent v path true
  rw [ext4Mkdir] at hcall
  rw [mkdirTransfers]
  generalize v.findParent path true = found at hfs hcall ⊢
  rcases found with ⟨v₁, _ | ⟨parent, name⟩⟩
  · obtain ⟨rfl, -⟩ := Prod.mk.inj (Option.some.inj hcall)
    exact hfs ▸ .refl v₁.fs []
  have hnew := effect_mkdirNew v₁ (v₁.inodeNum parent) permissions
  dsimp only at hfs hcall ⊢
  rw [← hfs]
  generalize v₁.mkdirNew (v₁.inodeNum parent) permissions = result at hnew hcall ⊢
  rcases result with ⟨v₂, _ | inodeNum⟩
  · obtain ⟨rfl, -⟩ := Prod.mk.inj (Option.some.inj hcall)
    exact hnew.trans (.refl v₂.fs [])
  · exact hnew.trans (effect_mkdirLink hcall)

/-! ## Effects of removing -/

/-- So do steps 5 to 9 of `ext4_rmdir`. -/
lemma effect_rmdirUnlink (v : Volume) (parentNum targetNum : ℕ) (target buffer name : ℕ → BitVec 8) :
    Effect v.fs (v.rmdirUnlinkTransfers parentNum targetNum target buffer name)
      (v.rmdirUnlink parentNum targetNum target buffer name).1.fs := by
  rw [rmdirUnlink, rmdirUnlinkTransfers]
  have hread := effect_ext4ReadInode v parentNum (v.fs.readInodeTransfers parentNum)
  generalize v.ext4ReadInode parentNum = result at hread ⊢
  rcases result with ⟨v₁, _ | parent⟩
  · exact hread.trans (.refl v₁.fs [])
  refine hread.trans ?_
  dsimp only
  refine (Effect.refl v₁.fs (readDirBlockTransfers parent)).trans ?_
  generalize findEntry v₁.fs.blockSize _ name v₁.fs.blockSize 0 = found
  rcases found with _ | offset
  · exact .refl v₁.fs []
  dsimp only
  have hwrite := effect_ext4WriteBlock v₁.fs .scratch (inodeBlock parent 0)
    (set32 (v₁.readDirBlock buffer parent) offset 0)
  generalize v₁.fs.ext4WriteBlock (inodeBlock parent 0) _ = fs at hwrite ⊢
  have hblock : Effect fs
      (if inodeBlock target 0 ≠ 0 then releaseTransfers .block fs (inodeBlock target 0) else [])
      (if inodeBlock target 0 ≠ 0 then fs.ext4FreeBlock (inodeBlock target 0) else fs) := by
    split_ifs
    · exact effect_release .block fs _
    · exact .refl fs []
  generalize (if inodeBlock target 0 ≠ 0 then fs.ext4FreeBlock (inodeBlock target 0) else fs) = freed
    at hblock ⊢
  have hinode := effect_release .inode freed targetNum
  have hparent := effect_ext4WriteInode { v₁ with fs := freed.ext4FreeInode targetNum } parentNum
    (touchInode (set16 parent 26 ((get16 parent 26 + 0xFFFF) % 0x10000)))
  exact (((hwrite.trans hblock).trans hinode).trans hparent).trans (effect_ext4WriteSuperBlock _ _)

/-- And steps 4 to 9. -/
lemma effect_rmdirTarget (v : Volume) (parentNum targetNum : ℕ) (name : ℕ → BitVec 8) :
    Effect v.fs (v.rmdirTargetTransfers parentNum targetNum name)
      (v.rmdirTarget parentNum targetNum name).1.fs := by
  rw [rmdirTarget, rmdirTargetTransfers]
  have hread := effect_ext4ReadInode v targetNum (v.fs.readInodeTransfers targetNum)
  generalize v.ext4ReadInode targetNum = result at hread ⊢
  rcases result with ⟨v₁, _ | target⟩
  · exact hread.trans (.refl v₁.fs [])
  refine hread.trans ?_
  dsimp only
  rcases malloc_cases v₁ with hcall | hcall
  · rw [hcall]
    exact effect_advance v₁ 1 []
  rw [hcall]
  dsimp only
  refine (effect_advance v₁ 1 (readDirBlockTransfers target)).trans ?_
  split_ifs
  · exact .refl _ []
  · exact effect_rmdirUnlink _ parentNum targetNum target _ name
  · exact .refl _ []
  · exact effect_rmdirUnlink _ parentNum targetNum target _ name

/-- `ext4_rmdir` changes the sectors of its transfers only. -/
lemma effect_ext4Rmdir (v : Volume) (path : CString) :
    Effect v.fs (v.rmdirTransfers path) (v.ext4Rmdir path).1.fs := by
  rw [ext4Rmdir, rmdirTransfers]
  have hfs := fs_findParent v path true
  generalize v.findParent path true = found at hfs ⊢
  rcases found with ⟨v₁, _ | ⟨parent, name⟩⟩
  · exact hfs ▸ .refl v₁.fs []
  have hfs₂ := fs_ext4GetInode v₁ (some path)
  dsimp only at hfs ⊢
  rw [← hfs]
  generalize v₁.ext4GetInode (some path) = found at hfs₂ ⊢
  rcases found with ⟨v₂, _ | target⟩
  · exact hfs₂ ▸ .refl v₂.fs []
  dsimp only at hfs₂ ⊢
  rw [← hfs₂]
  split_ifs
  · exact .refl v₂.fs []
  · exact effect_rmdirTarget v₂ _ _ _

/-- So does looking for an entry in the parent directory. -/
lemma effect_findInParent (v : Volume) (parentNum : ℕ) (name : ℕ → BitVec 8) :
    Effect v.fs (v.findInParentTransfers parentNum) (v.findInParent parentNum name).1.fs := by
  obtain ⟨n, entry, hcall, -⟩ := findInParent_cases v parentNum name
  rw [hcall]
  exact effect_advance v n _

/-- Freeing the blocks and the inode of a file. -/
lemma effect_freeFile (v : Volume) (targetNum : ℕ) :
    Effect v.fs (v.freeFileTransfers targetNum) (v.freeFile targetNum).fs := by
  rw [freeFile, freeFileTransfers]
  have hread := effect_ext4ReadInode v targetNum (v.fs.readInodeTransfers targetNum)
  generalize v.ext4ReadInode targetNum = result at hread ⊢
  rcases result with ⟨v₁, _ | target⟩
  · exact hread.trans (.refl v₁.fs [])
  · exact hread.trans ((effect_freeBlocks v₁.fs _).trans (effect_release .inode _ targetNum))

/-- And removing an entry that was found. -/
lemma effect_removeEntry (v : Volume) (parentNum : ℕ) (entry : Entry) :
    Effect v.fs (v.removeEntryTransfers parentNum entry) (v.removeEntry parentNum entry).fs := by
  rw [removeEntry, removeEntryTransfers]
  have hwrite := effect_ext4WriteBlock v.fs .scratch (inodeBlock entry.parent 0)
    (set32 entry.block entry.offset 0)
  dsimp only
  generalize v.fs.ext4WriteBlock (inodeBlock entry.parent 0) _ = fs at hwrite ⊢
  have hfree := effect_freeFile { v with fs := fs } (get32 entry.block entry.offset)
  generalize freeFile { v with fs := fs } _ = v₁ at hfree ⊢
  have hparent := effect_ext4WriteInode v₁ parentNum (touchInode entry.parent)
  exact ((hwrite.trans hfree).trans hparent).trans (effect_ext4WriteSuperBlock _ _)

/-- `ext4_remove` changes the sectors of its transfers only. -/
lemma effect_ext4Remove (v : Volume) (path : CString) :
    Effect v.fs (v.removeTransfers path) (v.ext4Remove path).1.fs := by
  rw [ext4Remove, removeTransfers]
  have hfs := fs_findParent v path false
  generalize v.findParent path false = found at hfs ⊢
  rcases found with ⟨v₁, _ | ⟨parent, name⟩⟩
  · exact hfs ▸ .refl v₁.fs []
  dsimp only at hfs ⊢
  rw [← hfs]
  have hfind := effect_findInParent v₁ (v₁.inodeNum parent) (v₁.nameBytes name)
  generalize v₁.findInParent (v₁.inodeNum parent) (v₁.nameBytes name) = found at hfind ⊢
  rcases found with ⟨v₂, _ | entry⟩
  · exact hfind.trans (.refl v₂.fs [])
  · exact hfind.trans (effect_removeEntry v₂ (v₂.inodeNum parent) entry)

/-! ## Effects of opening -/

/-- So does `ext4_file_open`. -/
lemma effect_ext4FileOpen (v : Volume) (inode flags : ℕ) :
    Effect v.fs (v.fileOpenTransfers inode flags) (v.ext4FileOpen inode flags).1.fs := by
  rw [ext4FileOpen, fileOpenTransfers]
  by_cases hmounted : v.files.world.ext4Mounted = false
  · rw [if_pos hmounted, if_pos hmounted]
    exact .refl v.fs []
  rw [if_neg hmounted, if_neg hmounted]
  have hread := effect_ext4ReadInode v (v.inodeNum inode) (v.fs.readInodeTransfers (v.inodeNum inode))
  generalize v.ext4ReadInode (v.inodeNum inode) = result at hread ⊢
  rcases result with ⟨v₁, _ | record⟩
  · exact hread.trans (.refl v₁.fs [])
  refine hread.trans ?_
  dsimp only
  split_ifs
  · exact effect_ext4WriteInode v₁ _ _
  · exact (effect_ext4WriteInode v₁ _ _).trans (effect_ext4WriteInode _ _ _)

/-- `ext4_dir_opendir` writes nothing but the inode. -/
lemma effect_ext4DirOpendir (v : Volume) (inode : ℕ) :
    Effect v.fs (v.opendirTransfers inode) (v.ext4DirOpendir inode).1.fs := by
  rw [ext4DirOpendir]
  cases hopens : OpenPath.canOpendir v.files inode with
  | false =>
    have hresult := OpenPath.ext4DirOpendir_of_not hopens
    generalize OpenPath.ext4DirOpendir v.files inode = result at hresult ⊢
    obtain ⟨files, result⟩ := result
    dsimp only at hresult ⊢
    rw [if_pos (by rw [hresult]; decide)]
    exact .refl v.fs _
  | true =>
    obtain ⟨files, hcall, -⟩ := OpenPath.ext4DirOpendir_of_canOpendir hopens
    obtain ⟨hmounted, hdir, hmemory, hbuffer, -⟩ := of_decide_eq_true hopens
    have htransfers : v.opendirTransfers inode =
        [.readBlock .descriptor (v.fs.inodeBgdBlock (v.inodeNum inode)),
            .readBlock .scratch (v.fs.inodePlace (v.inodeNum inode)).1] ++
          (v.advance 1).fs.writeInodeTransfers (v.inodeNum inode) := by
      rw [opendirTransfers, if_neg (by simp [hmounted, hdir, hmemory]), if_neg (by simp [hbuffer]), hcall,
        if_neg (not_not.2 rfl)]
      rfl
    rw [htransfers, hcall]
    dsimp only
    rw [if_neg (not_not.2 rfl)]
    refine (effect_advance v 1 _).trans ?_
    exact effect_ext4WriteInode
      { v.advance 1 with
        files := files
        heap := Function.update v.heap (files.world.privateData inode)
          (set32 (v.openedInode inode) 8 currentTime) }
      (v.inodeNum inode) _

/-- `ext4_dir_readdir` writes nothing. -/
lemma fs_ext4DirReaddir (v : Volume) (inode nameSize : ℕ) :
    (v.ext4DirReaddir inode nameSize).1.fs = v.fs := by
  rw [ext4DirReaddir]
  split_ifs
  · rfl
  · rfl
  have hiterator : (v.dirIterator inode).1.fs = v.fs := by
    rw [dirIterator]
    split_ifs
    · rfl
    rcases OpenPath.mallocBlock v.files false with ⟨files, _ | iterator⟩ <;> rfl
  generalize v.dirIterator inode = result at hiterator ⊢
  rcases result with ⟨v₁, _ | iterator⟩
  · exact hiterator
  have hbuffer : (v₁.dirBuffer inode iterator).1.fs = v₁.fs := by
    rw [dirBuffer]
    split_ifs
    · rfl
    rcases OpenPath.mallocBlock v₁.files false with ⟨files, _ | buffer⟩ <;> rfl
  dsimp only at hiterator ⊢
  generalize v₁.dirBuffer inode iterator = result at hbuffer ⊢
  rcases result with ⟨v₂, _ | buffer⟩
  · exact hbuffer.trans hiterator
  dsimp only at hbuffer ⊢
  generalize readdirLoop v₂.fs _ 12 _ _ _ = found
  rcases found with _ | ⟨i, p, b⟩ <;> exact hbuffer.trans hiterator

/-- `ext4_file_read` only calls `malloc`. -/
lemma effect_ext4FileRead {inode buffer : ℕ → BitVec 8} {size offset : ℕ} {result : (ℕ → BitVec 8) × ℕ}
    (hcall : v.ext4FileRead inode buffer size offset = some (v', result)) (ts : List Transfer) :
    Effect v.fs ts v'.fs := by
  rw [ext4FileRead] at hcall
  dsimp only at hcall
  split_ifs at hcall
  · obtain ⟨rfl, -⟩ := Prod.mk.inj (Option.some.inj hcall)
    exact .refl v.fs ts
  all_goals
    rcases malloc_cases v with hmalloc | hmalloc
    all_goals
      rw [hmalloc] at hcall
      obtain ⟨rfl, -⟩ := Prod.mk.inj (Option.some.inj hcall)
      exact effect_advance v 1 ts

/-! ## Effects of operations -/

/-- **An operation changes only the sectors that its transfers write.** -/
theorem effect_perform {op : Operation} (hcall : v.perform op = some v') :
    Effect v.fs (v.transfers op) v'.fs := by
  cases op with
  | allocate r => exact Option.some.inj hcall ▸ effect_allocate r v.fs
  | release r num => exact Option.some.inj hcall ▸ effect_release r v.fs num
  | readInode num => exact Option.some.inj hcall ▸ effect_ext4ReadInode v num _
  | writeInode num inode => exact Option.some.inj hcall ▸ effect_ext4WriteInode v num inode
  | addDirEntry dirInode name num type =>
    obtain ⟨⟨v₁, result⟩, hadd, rfl⟩ := Option.map_eq_some_iff.1 hcall
    exact effect_ext4AddDirEntry hadd
  | mkdir path permissions =>
    obtain ⟨⟨v₁, result⟩, hmkdir, rfl⟩ := Option.map_eq_some_iff.1 hcall
    exact effect_ext4Mkdir hmkdir
  | rmdir path => exact Option.some.inj hcall ▸ effect_ext4Rmdir v path
  | remove path => exact Option.some.inj hcall ▸ effect_ext4Remove v path
  | fileOpen inode flags => exact Option.some.inj hcall ▸ effect_ext4FileOpen v inode flags
  | fileRead inode buffer size offset =>
    obtain ⟨⟨v₁, result⟩, hread, rfl⟩ := Option.map_eq_some_iff.1 hcall
    exact effect_ext4FileRead hread _
  | opendir inode => exact Option.some.inj hcall ▸ effect_ext4DirOpendir v inode
  | readdir inode nameSize =>
    obtain rfl := Option.some.inj hcall
    have hfs := fs_ext4DirReaddir v inode nameSize
    exact .of_eq (congrArg blockSize hfs) (congrArg sectors hfs) _

/-- The transfers of a run. -/
def runTransfers : Volume → List Operation → List Transfer
  | _, [] => []
  | v, op :: ops => v.transfers op ++ (v.perform op).elim [] fun v' => runTransfers v' ops

/-- **A run changes only the sectors that its transfers write**, and not the block size.

**Proof sketch.** By induction on the run; the effects of its operations are composed. -/
theorem effect_run {ops : List Operation} (hrun : Run.exec perform v ops = some v') :
    Effect v.fs (v.runTransfers ops) v'.fs := by
  induction ops generalizing v with
  | nil =>
    obtain rfl := Option.some.inj hrun
    exact .refl v.fs []
  | cons op ops ih =>
    obtain ⟨v₁, hcall, hrun⟩ := Option.bind_eq_some_iff.1 hrun
    rw [runTransfers, hcall]
    exact (effect_perform hcall).trans (ih hrun)

end Volume

end Jarvis
