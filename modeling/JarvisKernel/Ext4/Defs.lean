import JarvisKernel.Lib.Bitmap
import JarvisKernel.Lib.ByteBuffer
import JarvisKernel.Lib.Word32

set_option relaxedAutoImplicit false
set_option autoImplicit false

/-!
# Free space of ext4

Blocks on the device and the functions of `src/fs/ext4.c` that allocate and free blocks and inodes. The
device is an array of sectors. The superblock is kept in memory, byte for byte as it is on the device,
and the fields of records on the disk are read and written at their offsets.

Buffers hold a whole block, also those that are declared as a group descriptor. Which calls of `malloc`
succeed is an arbitrary sequence. The functions for blocks and those for inodes are the same but for the
fields that they use, so the two families have one definition each. A file system is mounted.

## Main definitions

* `Jarvis.Ext4` — a mounted file system with its device.
* `Jarvis.Ext4.ext4ReadSuperBlock`, `Jarvis.Ext4.ext4ReadBlock`, `Jarvis.Ext4.ext4WriteBlock` — the device.
* `Jarvis.Ext4.ext4AllocateBlock`, `Jarvis.Ext4.ext4FreeBlock`, `Jarvis.Ext4.ext4AllocateInode`,
  `Jarvis.Ext4.ext4FreeInode` — the allocator.
-/

namespace Jarvis

open ByteBuffer

/-- `Ext4FileSystemData`: the superblock and what `ext4_read_super_block` computes from it; with the
sectors of the device, and the outcomes of the calls of `malloc`. -/
structure Ext4 where
  sectors : ℕ → ℕ → BitVec 8
  superBlock : ℕ → BitVec 8
  blockSize : ℕ
  blocksPerGroup : ℕ
  inodesPerGroup : ℕ
  blockGroupCount : ℕ
  memory : ℕ → Bool
  mallocs : ℕ

namespace Ext4

/-! ## Fields -/

/-- `super_block.blocks_count_lo`. -/
def blocksCountLo (fs : Ext4) : ℕ := get32 fs.superBlock 4

/-- `super_block.free_blocks_count_lo`. -/
def freeBlocksCountLo (fs : Ext4) : ℕ := get32 fs.superBlock 12

/-- `super_block.free_inodes_count`. -/
def freeInodesCount (fs : Ext4) : ℕ := get32 fs.superBlock 16

/-- `super_block.first_data_block`. -/
def firstDataBlock (fs : Ext4) : ℕ := get32 fs.superBlock 20

/-- `super_block.inode_size`. -/
def inodeSize (fs : Ext4) : ℕ := get16 fs.superBlock 88

/-- `super_block.free_blocks_count_hi`. -/
def freeBlocksCountHi (fs : Ext4) : ℕ := get32 fs.superBlock 274

/-! ## The device -/

/-- `ext4_read_super_block`, for a device that was just mounted. The check of the magic number only
prints a warning. -/
def ext4ReadSuperBlock (sectors : ℕ → ℕ → BitVec 8) (memory : ℕ → Bool) : Ext4 :=
  let superBlock : ℕ → BitVec 8 := fun k => if k < 512 then sectors 2 k else 0
  { sectors := sectors
    superBlock := superBlock
    blockSize := Word32.mul 1024 (2 ^ get32 superBlock 24)
    blocksPerGroup := get32 superBlock 32
    inodesPerGroup := get32 superBlock 40
    blockGroupCount :=
      Word32.sub (Word32.add (get32 superBlock 4) (get32 superBlock 32)) 1 / get32 superBlock 32
    memory := memory
    mallocs := 0 }

/-- The first sector of a block. -/
def blockSector (fs : Ext4) (blockNum : ℕ) : ℕ := Word32.mul blockNum fs.blockSize / 512

/-- `ext4_read_block`: what is in the buffer afterwards. -/
def ext4ReadBlock (fs : Ext4) (blockNum : ℕ) : ℕ → BitVec 8 := fun k =>
  if k < fs.blockSize then fs.sectors (Word32.add (fs.blockSector blockNum) (k / 512)) (k % 512) else 0

/-- `ext4_write_block`. -/
def ext4WriteBlock (fs : Ext4) (blockNum : ℕ) (buffer : ℕ → BitVec 8) : Ext4 :=
  { fs with
    sectors :=
      (List.range (fs.blockSize / 512)).foldl
        (fun sectors i => Function.update sectors (Word32.add (fs.blockSector blockNum) i)
          fun k => buffer (i * 512 + k))
        fs.sectors }

/-- `ext4_write_super_block`. -/
def ext4WriteSuperBlock (fs : Ext4) : Ext4 :=
  { fs with sectors := Function.update fs.sectors 2 fs.superBlock }

/-- `current_time`. -/
def currentTime : ℕ := 1600000000

/-- `malloc` of a buffer. -/
def malloc (fs : Ext4) : Ext4 × Bool := ({ fs with mallocs := fs.mallocs + 1 }, fs.memory fs.mallocs)

/-! ## Blocks and inodes -/

/-- What is allocated. -/
inductive Resource where
  | block
  | inode
  deriving DecidableEq

namespace Resource

/-- `blocks_per_group` and `inodes_per_group`. -/
def perGroup (fs : Ext4) : Resource → ℕ
  | .block => fs.blocksPerGroup
  | .inode => fs.inodesPerGroup

/-- The offsets of `bg_block_bitmap_lo` and `bg_inode_bitmap_lo`. -/
def bitmapField : Resource → ℕ
  | .block => 0
  | .inode => 4

/-- The offsets of `bg_free_blocks_count_lo` and `bg_free_inodes_count_lo`. -/
def countLoField : Resource → ℕ
  | .block => 12
  | .inode => 14

/-- The offsets of `bg_free_blocks_count_hi` and `bg_free_inodes_count_hi`. -/
def countHiField : Resource → ℕ
  | .block => 44
  | .inode => 46

/-- The number of bit `i` in the bitmap of a group. -/
def number (fs : Ext4) (r : Resource) (bg i : ℕ) : ℕ :=
  Word32.add (Word32.add (Word32.mul bg (r.perGroup fs)) i) 1

/-- The bits that are passed over: those of blocks up to the first data block, and the first two
inodes. -/
def skipped (fs : Ext4) (bg i : ℕ) : Resource → Bool
  | .block => decide (number fs .block bg i ≤ fs.firstDataBlock)
  | .inode => decide (bg = 0 ∧ i < 2)

/-- The numbers that are not freed: those of blocks up to the first data block. -/
def reserved (fs : Ext4) (num : ℕ) : Resource → Bool
  | .block => decide (num ≤ fs.firstDataBlock)
  | .inode => false

/-- The superblock counts none that is free. -/
def exhausted (fs : Ext4) : Resource → Bool
  | .block => decide (fs.freeBlocksCountLo = 0 ∧ fs.freeBlocksCountHi = 0)
  | .inode => decide (fs.freeInodesCount = 0)

/-- The free count of a group descriptor after one was allocated. -/
def takeFromGroup (r : Resource) (bgd : ℕ → BitVec 8) : ℕ → BitVec 8 :=
  let lo := (get16 bgd r.countLoField + 0xFFFF) % 0x10000
  let hi := get16 bgd r.countHiField
  let bgd := set16 bgd r.countLoField lo
  if lo = 0xFFFF ∧ 0 < hi then set16 bgd r.countHiField (hi - 1) else bgd

/-- The free count of a group descriptor after one was freed. -/
def giveToGroup (r : Resource) (bgd : ℕ → BitVec 8) : ℕ → BitVec 8 :=
  let lo := (get16 bgd r.countLoField + 1) % 0x10000
  let hi := get16 bgd r.countHiField
  let bgd := set16 bgd r.countLoField lo
  if lo = 0 ∧ 0 < hi then set16 (set16 bgd r.countHiField (hi - 1)) r.countLoField 0xFFFF else bgd

/-- The free count of the superblock after one was allocated. -/
def takeFromSuper (sb : ℕ → BitVec 8) : Resource → ℕ → BitVec 8
  | .block =>
    let lo := Word32.sub (get32 sb 12) 1
    let hi := get32 sb 274
    let sb := set32 sb 12 lo
    if lo = 0xFFFF ∧ 0 < hi then set32 sb 274 (hi - 1) else sb
  | .inode => set32 sb 16 (Word32.sub (get32 sb 16) 1)

/-- The free count of the superblock after one was freed. -/
def giveToSuper (sb : ℕ → BitVec 8) : Resource → ℕ → BitVec 8
  | .block =>
    let lo := Word32.add (get32 sb 12) 1
    let hi := get32 sb 274
    let sb := set32 sb 12 lo
    if lo = 0 ∧ 0 < hi then set32 (set32 sb 274 (hi - 1)) 12 0xFFFF else sb
  | .inode => set32 sb 16 (Word32.add (get32 sb 16) 1)

end Resource

/-- The block of a group descriptor. -/
def bgdBlock (fs : Ext4) (bg : ℕ) : ℕ := Word32.add (Word32.add fs.firstDataBlock 1) bg

/-- Write the bitmap and the descriptor of a group, and then the superblock. -/
def store (fs : Ext4) (bg bitmapBlock : ℕ) (bitmap bgd superBlock : ℕ → BitVec 8) : Ext4 :=
  let fs' := (fs.ext4WriteBlock bitmapBlock bitmap).ext4WriteBlock (fs.bgdBlock bg) bgd
  -- `wtime`
  { fs' with superBlock := set32 superBlock 48 currentTime }.ext4WriteSuperBlock

/-- The loop of the allocating functions over `count` groups from `bg` on. -/
def allocateFrom (r : Resource) : ℕ → ℕ → Ext4 → Ext4 × ℕ
  | 0, _, fs => (fs, 0)
  | count + 1, bg, fs =>
    let bgd := fs.ext4ReadBlock (fs.bgdBlock bg)
    if get16 bgd r.countLoField = 0 ∧ get16 bgd r.countHiField = 0 then allocateFrom r count (bg + 1) fs
    else
      match fs.malloc with
      | (fs, false) => (fs, 0)
      | (fs, true) =>
        let bitmap := fs.ext4ReadBlock (get32 bgd r.bitmapField)
        match (List.range (r.perGroup fs)).find?
            fun i => !r.skipped fs bg i && !Bitmap.test bitmap i with
        | none => allocateFrom r count (bg + 1) fs
        | some i =>
          (fs.store bg (get32 bgd r.bitmapField) (Bitmap.set bitmap i) (r.takeFromGroup bgd)
              (r.takeFromSuper fs.superBlock),
            r.number fs bg i)

/-- `ext4_allocate_block` and `ext4_allocate_inode`. -/
def allocate (r : Resource) (fs : Ext4) : Ext4 × ℕ :=
  if r.exhausted fs then (fs, 0) else allocateFrom r fs.blockGroupCount 0 fs

/-- `ext4_free_block` and `ext4_free_inode`. -/
def release (r : Resource) (fs : Ext4) (num : ℕ) : Ext4 :=
  if num = 0 then fs
  else
    let bg := (num - 1) / r.perGroup fs
    let i := (num - 1) % r.perGroup fs
    if fs.blockGroupCount ≤ bg then fs
    else if r.reserved fs num then fs
    else
      let bgd := fs.ext4ReadBlock (fs.bgdBlock bg)
      match fs.malloc with
      | (fs, false) => fs
      | (fs, true) =>
        let bitmap := fs.ext4ReadBlock (get32 bgd r.bitmapField)
        if Bitmap.test bitmap i = false then fs
        else
          fs.store bg (get32 bgd r.bitmapField) (Bitmap.clear bitmap i) (r.giveToGroup bgd)
            (r.giveToSuper fs.superBlock)

/-- `ext4_allocate_block`: the number of the block, 0 if there is none. -/
def ext4AllocateBlock (fs : Ext4) : Ext4 × ℕ := allocate .block fs

/-- `ext4_free_block`. -/
def ext4FreeBlock (fs : Ext4) (blockNum : ℕ) : Ext4 := release .block fs blockNum

/-- `ext4_allocate_inode`: the number of the inode, 0 if there is none. -/
def ext4AllocateInode (fs : Ext4) : Ext4 × ℕ := allocate .inode fs

/-- `ext4_free_inode`. -/
def ext4FreeInode (fs : Ext4) (inodeNum : ℕ) : Ext4 := release .inode fs inodeNum

end Ext4

end Jarvis
