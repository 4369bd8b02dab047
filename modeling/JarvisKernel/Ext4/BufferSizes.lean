import JarvisKernel.Ext4.MountChecks
import JarvisKernel.Ext4.Transfers

set_option relaxedAutoImplicit false
set_option autoImplicit false

/-!
# The sizes of buffers

Blocks are read into 512 bytes from `malloc`, or into a group descriptor of 68 bytes, and a superblock of
1112 bytes is copied out of and into a sector of 512 bytes. The block size comes from the disk, and is 1024
bytes or more. So mounting a disk reads behind its buffer, and every operation but those that return before
their first transfer reads or writes behind one.

If all bits of 1024 are shifted out, blocks have no bytes. Such a disk is mounted, and only the copies of
its superblock are too long.

## Main definitions

* `Jarvis.Ext4.Transfer.Fits` — a transfer fits the memory that it uses.
* `Jarvis.Volume.endsEarly` — an operation returns before its first transfer.
* `Jarvis.Ext4.TransfersFit` — what is wanted of a disk that is mounted.

## Main results

* `Jarvis.Volume.transfers_eq_nil_iff` — the operations that return before their first transfer.
* `Jarvis.Ext4.transfersFit_iff` — no disk has what is wanted; in a run the transfers fit only if there are
  none.
-/

namespace Jarvis

open ByteBuffer

namespace Ext4

variable {fs : Ext4} {r : Resource} {blockSize : ℕ} {ts : List Transfer}

/-! ## Sizes -/

/-- `MAX_DIR_BUFFER_SIZE`. -/
def maxDirBufferSize : ℕ := 512

/-- `sizeof(Ext4BlockGroupDescriptor)`. -/
def groupDescriptorSize : ℕ := 68

/-- `sizeof(Ext4SuperBlock)`: the fields have 324 bytes, and are followed by the padding. -/
def superBlockSize : ℕ := 324 + (1024 - 236)

/-- The bytes of a buffer. -/
def Buffer.size : Buffer → ℕ
  | .scratch => maxDirBufferSize
  | .descriptor => groupDescriptorSize

/-- The bytes of the memory that a transfer uses. -/
def Transfer.capacity : Transfer → ℕ
  | .readBlock buffer _ => buffer.size
  | .writeBlock buffer _ => buffer.size
  -- `uint8_t buffer[512]`
  | .readSuperBlock => 512
  | .writeSuperBlock => 512

/-- The bytes that are transferred: those of the sectors of a block, or of a superblock. -/
def Transfer.length (blockSize : ℕ) : Transfer → ℕ
  | .readBlock _ _ => blockSize / 512 * 512
  | .writeBlock _ _ => blockSize / 512 * 512
  | .readSuperBlock => superBlockSize
  | .writeSuperBlock => superBlockSize

/-- A transfer fits the memory that it uses. -/
def Transfer.Fits (blockSize : ℕ) (t : Transfer) : Prop := t.length blockSize ≤ t.capacity

instance (blockSize : ℕ) (t : Transfer) : Decidable (t.Fits blockSize) :=
  inferInstanceAs (Decidable (t.length blockSize ≤ t.capacity))

/-- No buffer has more than 512 bytes. -/
lemma Transfer.capacity_le (t : Transfer) : t.capacity ≤ 512 := by
  have hsize : ∀ buffer : Buffer, buffer.size ≤ 512 := by
    intro buffer
    cases buffer <;> decide
  cases t with
  | readBlock buffer n => exact hsize buffer
  | writeBlock buffer n => exact hsize buffer
  | readSuperBlock => exact le_rfl
  | writeSuperBlock => exact le_rfl

/-- A transfer has 1024 bytes at least. -/
lemma Transfer.length_ge (h : 1024 ≤ blockSize) (t : Transfer) : 1024 ≤ t.length blockSize := by
  have hsectors : 1024 ≤ blockSize / 512 * 512 := by omega
  cases t with
  | readBlock buffer n => exact hsectors
  | writeBlock buffer n => exact hsectors
  | readSuperBlock => exact (by decide : 1024 ≤ superBlockSize)
  | writeSuperBlock => exact (by decide : 1024 ≤ superBlockSize)

/-- **No transfer fits** if blocks have 1024 bytes or more. -/
lemma Transfer.not_fits (h : 1024 ≤ blockSize) (t : Transfer) : ¬ t.Fits blockSize := by
  have hcapacity := t.capacity_le
  have hlength := t.length_ge h
  rw [Fits]
  omega

/-- So the transfers of a list fit exactly if there are none. -/
lemma fits_iff_nil (h : 1024 ≤ blockSize) : (∀ t ∈ ts, t.Fits blockSize) ↔ ts = [] := by
  rw [List.eq_nil_iff_forall_not_mem]
  exact ⟨fun hall t ht => t.not_fits h (hall t ht), fun hnone t ht => absurd ht (hnone t)⟩

/-- The block size of a disk that was read is a multiple of 1024. -/
lemma blockSize_ext4ReadSuperBlock (sectors : ℕ → ℕ → BitVec 8) (memory : ℕ → Bool)
    (hsize : (ext4ReadSuperBlock sectors memory).blockSize ≠ 0) :
    1024 ≤ (ext4ReadSuperBlock sectors memory).blockSize := by
  have hdvd : 1024 ∣ (ext4ReadSuperBlock sectors memory).blockSize :=
    (Nat.dvd_mod_iff (by decide)).2 (Nat.dvd_mul_right 1024 _)
  exact Nat.le_of_dvd (Nat.pos_of_ne_zero hsize) hdvd

/-! ## Mounting -/

/-- The transfers of `ext4_mount`. -/
def mountTransfers (mounted : Option Ext4) (source target : Option CString) (record : Bool)
    (disks : List (ℕ → ℕ → BitVec 8)) : List Transfer :=
  if source = none ∨ target = none then []
  else if mounted.isSome then []
  else if record = false then []
  else
    match disks with
    | [] => []
    | _ :: _ => [.readSuperBlock]

/-- A mount that succeeds has read the superblock of the first disk. -/
lemma mountTransfers_of_mounted {mounted : Option Ext4} {source target : Option CString} {record : Bool}
    {disks : List (ℕ → ℕ → BitVec 8)} {memory : ℕ → Bool}
    (hmount : ext4Mount mounted source target record disks memory = .ok (some fs, 0)) :
    mountTransfers mounted source target record disks = [.readSuperBlock] ∧
      ∃ disk, fs = ext4ReadSuperBlock disk memory := by
  unfold ext4Mount at hmount
  unfold mountTransfers
  split_ifs at hmount ⊢
  · simp at hmount
  · simp at hmount
  · simp at hmount
  cases disks with
  | nil => simp at hmount
  | cons disk disks =>
    refine ⟨rfl, disk, ?_⟩
    dsimp only at hmount
    rw [readSuperBlock] at hmount
    split_ifs at hmount
    · exact absurd hmount (by simp [Except.map])
    · exact absurd hmount (by simp [Except.map])
    · exact (Option.some.inj (Prod.mk.inj (Except.ok.inj hmount)).1).symm

/-! ## The allocator -/

/-- An allocating function returns before its first transfer. -/
def allocatesNone (r : Resource) (fs : Ext4) : Bool :=
  r.exhausted fs || decide (fs.blockGroupCount = 0)

/-- The allocator makes no transfer if it ends before the first bitmap. -/
lemma allocateTransfers_eq_nil_iff : allocateTransfers r fs = [] ↔ allocatesNone r fs = true := by
  rw [allocateTransfers, allocatesNone, Bool.or_eq_true, decide_eq_true_iff]
  split_ifs with hexhausted
  · exact iff_of_true rfl (.inl hexhausted)
  rw [or_iff_right hexhausted]
  cases fs.blockGroupCount with
  | zero => exact iff_of_true rfl rfl
  | succ count => exact iff_of_false (List.cons_ne_nil _ _) (Nat.succ_ne_zero count)

/-- Otherwise no list that begins with its transfers is empty. -/
lemma allocateTransfers_append_ne_nil (h : ¬ allocatesNone r fs = true) (us : List Transfer) :
    allocateTransfers r fs ++ us ≠ [] :=
  List.append_ne_nil_of_left_ne_nil (mt allocateTransfers_eq_nil_iff.1 h) us

/-- An allocating function that makes no transfers returns 0. -/
lemma allocate_of_allocatesNone (h : allocatesNone r fs = true) : allocate r fs = (fs, 0) := by
  rw [allocatesNone, Bool.or_eq_true, decide_eq_true_iff] at h
  rw [allocate]
  rcases h with h | h
  · rw [if_pos h]
  · rw [h]
    exact ite_self _

/-- A freeing function returns before its first transfer. -/
def releasesNone (r : Resource) (fs : Ext4) (num : ℕ) : Bool :=
  decide (num = 0 ∨ fs.blockGroupCount ≤ group r fs num) || r.reserved fs num

/-- Freeing makes no transfer if it ends before the bitmap. -/
lemma releaseTransfers_eq_nil_iff (num : ℕ) :
    releaseTransfers r fs num = [] ↔ releasesNone r fs num = true := by
  rw [releaseTransfers, releasesNone, Bool.or_eq_true, decide_eq_true_iff]
  by_cases hzero : num = 0
  · rw [if_pos hzero]
    exact iff_of_true rfl (.inl (.inl hzero))
  rw [if_neg hzero, or_iff_right hzero]
  dsimp only
  by_cases hgroup : fs.blockGroupCount ≤ (num - 1) / r.perGroup fs
  · rw [if_pos hgroup]
    exact iff_of_true rfl (.inl hgroup)
  rw [if_neg hgroup, group, or_iff_right hgroup]
  by_cases hreserved : r.reserved fs num = true
  · rw [if_pos hreserved]
    exact iff_of_true rfl hreserved
  · rw [if_neg hreserved]
    exact iff_of_false (List.cons_ne_nil _ _) hreserved

/-- `ext4_read_inode` makes none without memory for the inode. -/
lemma readInodeTransfers_eq_nil_iff (num : ℕ) :
    fs.readInodeTransfers num = [] ↔ fs.memory fs.mallocs = false := by
  rw [readInodeTransfers]
  cases hmemory : fs.memory fs.mallocs with
  | false =>
    rw [malloc_eq hmemory]
    exact iff_of_true rfl rfl
  | true =>
    rw [malloc_eq hmemory]
    exact iff_of_false (List.cons_ne_nil _ _) (by decide)

/-- Otherwise no list that begins with its transfers is empty. -/
lemma readInodeTransfers_append_ne_nil (h : fs.memory fs.mallocs = true) (num : ℕ)
    (us : List Transfer) : fs.readInodeTransfers num ++ us ≠ [] := by
  refine List.append_ne_nil_of_left_ne_nil (fun hnil => ?_) us
  rw [readInodeTransfers_eq_nil_iff, h] at hnil
  exact absurd hnil (by decide)

end Ext4

namespace Volume

open Ext4

variable {v : Volume} {path : CString} {inode size offset : ℕ}

/-! ## Operations that return early -/

/-- A directory entry is added without a transfer: there is no name, no directory, no memory, or no block
for a directory that has none. -/
def addsWithout (v : Volume) (dirInode : ℕ) (name : Option CString) : Bool :=
  name.isNone || decide ((v.files.inodes dirInode).type ≠ .directory) || !v.fs.memory v.fs.mallocs ||
    decide (inodeBlock (v.heap (v.files.world.privateData dirInode)) 0 = 0) && allocatesNone .block v.fs

/-- `ext4_rmdir` returns before it reads the inode of a directory. -/
def rmdirEndsEarly (v : Volume) (path : CString) : Bool :=
  match v.findParent path true with
  | (_, none) => true
  | (v, some _) =>
    match v.ext4GetInode (some path) with
    | (_, none) => true
    | (v, some target) =>
      decide ((v.files.inodes target).type ≠ .directory) || !v.fs.memory v.fs.mallocs

/-- An inode has no direct block with this number, in `ext4_dir_readdir` and `ext4_file_read`. -/
def endsAt (inode : ℕ → BitVec 8) (i : ℕ) : Bool := decide (12 ≤ i ∨ inodeBlock inode i = 0)

/-- `ext4_file_read` returns before it reads a block, if the block size is not 0. -/
def fileReadEndsEarly (v : Volume) (inode : ℕ → BitVec 8) (size offset : ℕ) : Bool :=
  let fileSize := get32 inode 4
  let size := if fileSize < Word32.add offset size then fileSize - offset else size
  decide (fileSize ≤ offset) || !v.fs.memory v.fs.mallocs ||
    decide (Word32.sub (Word32.add offset size) 1 / v.fs.blockSize < offset / v.fs.blockSize) ||
    endsAt inode (offset / v.fs.blockSize)

/-- `ext4_dir_readdir` returns without reading a block: it fails, or there is no block, or the block that is
in the buffer has another entry or is the last one. -/
def readdirEndsEarly (v : Volume) (inode : ℕ) : Bool :=
  let data := v.files.world.privateData inode
  decide (v.files.world.ext4Mounted = false ∨ (v.files.inodes inode).type ≠ .directory) ||
    match v.dirIterator inode with
    | (_, none) => true
    | (v, some iterator) =>
      match v.dirBuffer inode iterator with
      | (_, none) => true
      | (v, some buffer) =>
        let i := get32 (v.heap iterator) 0
        let offset := get32 (v.heap iterator) 4
        endsAt (v.heap data) i || decide (offset ≠ 0) &&
          ((nextLive v.fs.blockSize (v.heap buffer) v.fs.blockSize offset).isSome ||
            endsAt (v.heap data) (i + 1))

/-- An operation returns before its first transfer. -/
def endsEarly (v : Volume) : Operation → Bool
  | .allocate r => allocatesNone r v.fs
  | .release r num => releasesNone r v.fs num
  | .readInode _ => !v.fs.memory v.fs.mallocs
  | .writeInode _ _ => false
  | .addDirEntry dirInode name _ _ => v.addsWithout dirInode name
  | .mkdir path _ => (v.findParent path true).2.isNone || allocatesNone .inode v.fs
  | .rmdir path => v.rmdirEndsEarly path
  | .remove path =>
    (v.findParent path false).2.isNone || !v.fs.memory v.fs.mallocs || !v.fs.memory (v.fs.mallocs + 1)
  | .fileOpen _ _ => !v.files.world.ext4Mounted || !v.fs.memory v.fs.mallocs
  | .fileRead inode _ size offset => v.fileReadEndsEarly inode size offset
  | .opendir inode =>
    decide (v.files.world.ext4Mounted = false ∨ (v.files.inodes inode).type ≠ .directory ∨
      v.files.world.memory v.files.world.mallocs = false)
  | .readdir inode _ => v.readdirEndsEarly inode

/-- Without memory no inode is read. -/
lemma ext4ReadInode_of_not (h : v.fs.memory v.fs.mallocs = false) (num : ℕ) :
    v.ext4ReadInode num = (v.advance 1, none) := by
  rw [ext4ReadInode, malloc_of_false h]

/-- `ext4_add_dir_entry` makes none if it ends before the directory is read. -/
lemma addDirEntryTransfers_eq_nil_iff (dirInode : ℕ) (name : Option CString) :
    v.addDirEntryTransfers dirInode name = [] ↔ v.addsWithout dirInode name = true := by
  cases name with
  | none => exact iff_of_true rfl rfl
  | some name =>
    rw [addDirEntryTransfers, addsWithout]
    by_cases htype : (v.files.inodes dirInode).type = .directory
    swap
    · rw [if_pos htype]
      exact iff_of_true rfl (by simp [htype])
    rw [if_neg (not_not.2 htype)]
    cases hmemory : v.fs.memory v.fs.mallocs with
    | false =>
      rw [malloc_of_false hmemory]
      exact iff_of_true rfl (by simp)
    | true =>
      rw [malloc_of_true hmemory]
      dsimp only
      rw [directoryBlockTransfers]
      have hheap : (v.advance 1).heap = v.heap := rfl
      rw [hheap]
      by_cases hblock : inodeBlock (v.heap (v.files.world.privateData dirInode)) 0 = 0
      swap
      · rw [if_pos hblock]
        exact iff_of_false (List.cons_ne_nil _ _) (by simp [htype, hblock])
      rw [if_neg (not_not.2 hblock), directoryBlock, hheap, if_neg (not_not.2 hblock)]
      have hnone : allocatesNone .block (v.advance 1).fs = allocatesNone .block v.fs := rfl
      rw [← hnone]
      by_cases hallocates : allocatesNone .block (v.advance 1).fs = true
      · have hcall : (v.advance 1).fs.ext4AllocateBlock = ((v.advance 1).fs, 0) :=
          allocate_of_allocatesNone hallocates
        rw [hcall, allocateTransfers_eq_nil_iff.2 hallocates]
        exact iff_of_true rfl (by simp [hblock, hallocates])
      · refine iff_of_false ?_ (by simp [htype, hblock, hallocates])
        exact List.append_ne_nil_of_left_ne_nil (allocateTransfers_append_ne_nil hallocates _) _

/-- `ext4_mkdir` makes none without a parent directory, or if the allocator makes none for the inode. -/
lemma mkdirTransfers_eq_nil_iff (permissions : ℕ) :
    v.mkdirTransfers path permissions = [] ↔
      ((v.findParent path true).2.isNone || allocatesNone .inode v.fs) = true := by
  have hfs := fs_findParent v path true
  rw [mkdirTransfers]
  generalize v.findParent path true = found at hfs ⊢
  rcases found with ⟨v₁, _ | ⟨parent, name⟩⟩
  · exact iff_of_true rfl rfl
  dsimp only at hfs ⊢
  rw [← hfs, mkdirNewTransfers, mkdirNew]
  by_cases hallocates : allocatesNone .inode v₁.fs = true
  · have hcall : v₁.fs.ext4AllocateInode = (v₁.fs, 0) := allocate_of_allocatesNone hallocates
    rw [hcall, allocateTransfers_eq_nil_iff.2 hallocates]
    exact iff_of_true rfl (by simp [hallocates])
  · refine iff_of_false ?_ (by simp [hallocates])
    exact List.append_ne_nil_of_left_ne_nil (allocateTransfers_append_ne_nil hallocates _) _

/-- `ext4_rmdir` makes none if it ends early. -/
lemma rmdirTransfers_eq_nil_iff :
    v.rmdirTransfers path = [] ↔ v.rmdirEndsEarly path = true := by
  rw [rmdirTransfers, rmdirEndsEarly]
  rcases v.findParent path true with ⟨v₁, _ | ⟨parent, name⟩⟩
  · exact iff_of_true rfl rfl
  dsimp only
  rcases v₁.ext4GetInode (some path) with ⟨v₂, _ | target⟩
  · exact iff_of_true rfl rfl
  dsimp only
  by_cases htype : (v₂.files.inodes target).type = .directory
  swap
  · rw [if_pos htype]
    exact iff_of_true rfl (by simp [htype])
  rw [if_neg (not_not.2 htype), rmdirTargetTransfers]
  cases hmemory : v₂.fs.memory v₂.fs.mallocs with
  | false =>
    rw [ext4ReadInode_of_not hmemory, (readInodeTransfers_eq_nil_iff _).2 hmemory]
    exact iff_of_true rfl (by simp)
  | true => exact iff_of_false (readInodeTransfers_append_ne_nil hmemory _ _) (by simp [htype])

/-- `ext4_remove` makes none without a parent directory, or without memory for its inode and block. -/
lemma removeTransfers_eq_nil_iff :
    v.removeTransfers path = [] ↔
      ((v.findParent path false).2.isNone || !v.fs.memory v.fs.mallocs ||
        !v.fs.memory (v.fs.mallocs + 1)) = true := by
  have hfs := fs_findParent v path false
  rw [removeTransfers]
  generalize v.findParent path false = found at hfs ⊢
  rcases found with ⟨v₁, _ | ⟨parent, name⟩⟩
  · exact iff_of_true rfl rfl
  dsimp only at hfs ⊢
  rw [← hfs, findInParentTransfers, findInParent]
  cases hmemory : v₁.fs.memory v₁.fs.mallocs with
  | false =>
    rw [malloc_of_false hmemory]
    exact iff_of_true rfl rfl
  | true =>
    rw [malloc_of_true hmemory]
    dsimp only
    have hnext : v₁.fs.memory (v₁.fs.mallocs + 1) = (v₁.advance 1).fs.memory (v₁.advance 1).fs.mallocs := rfl
    rw [hnext]
    cases hmemory₁ : (v₁.advance 1).fs.memory (v₁.advance 1).fs.mallocs with
    | false =>
      rw [ext4ReadInode_of_not hmemory₁, (readInodeTransfers_eq_nil_iff _).2 hmemory₁]
      exact iff_of_true rfl rfl
    | true =>
      refine iff_of_false ?_ (by simp)
      exact List.append_ne_nil_of_left_ne_nil (readInodeTransfers_append_ne_nil hmemory₁ _ _) _

/-- `ext4_file_open` makes none without a file system, or without memory for the inode. -/
lemma fileOpenTransfers_eq_nil_iff (flags : ℕ) :
    v.fileOpenTransfers inode flags = [] ↔
      (!v.files.world.ext4Mounted || !v.fs.memory v.fs.mallocs) = true := by
  rw [fileOpenTransfers]
  cases hmounted : v.files.world.ext4Mounted with
  | false => exact iff_of_true rfl rfl
  | true =>
    rw [if_neg (by decide)]
    cases hmemory : v.fs.memory v.fs.mallocs with
    | false =>
      rw [ext4ReadInode_of_not hmemory, (readInodeTransfers_eq_nil_iff _).2 hmemory]
      exact iff_of_true rfl rfl
    | true => exact iff_of_false (readInodeTransfers_append_ne_nil hmemory _ _) (by simp)

/-- `ext4_file_read` makes none if it ends early. -/
lemma fileReadTransfers_eq_nil_iff (hsize : v.fs.blockSize ≠ 0) (inode : ℕ → BitVec 8) :
    v.fileReadTransfers inode size offset = [] ↔ v.fileReadEndsEarly inode size offset = true := by
  rw [fileReadTransfers, fileReadEndsEarly]
  dsimp only
  by_cases hend : get32 inode 4 ≤ offset
  · rw [if_pos hend]
    exact iff_of_true rfl (by simp [hend])
  rw [if_neg hend, if_neg hsize, decide_eq_false hend, Bool.false_or]
  generalize (if get32 inode 4 < Word32.add offset size then get32 inode 4 - offset else size) = count
  cases hmemory : v.fs.memory v.fs.mallocs with
  | false =>
    rw [malloc_of_false hmemory]
    exact iff_of_true rfl rfl
  | true =>
    rw [malloc_of_true hmemory]
    dsimp only
    rw [fileReadLoopTransfers, endsAt, Bool.not_true, Bool.false_or, ← Bool.decide_or, decide_eq_true_iff]
    by_cases hstop : Word32.sub (Word32.add offset count) 1 / v.fs.blockSize < offset / v.fs.blockSize ∨
        12 ≤ offset / v.fs.blockSize ∨ inodeBlock inode (offset / v.fs.blockSize) = 0
    · rw [if_pos hstop]
      exact iff_of_true rfl hstop
    · rw [if_neg hstop]
      exact iff_of_false (List.cons_ne_nil _ _) hstop

/-- `ext4_dir_opendir` makes none without a file system, a directory and memory. -/
lemma opendirTransfers_eq_nil_iff :
    v.opendirTransfers inode = [] ↔
      v.files.world.ext4Mounted = false ∨ (v.files.inodes inode).type ≠ .directory ∨
        v.files.world.memory v.files.world.mallocs = false := by
  rw [opendirTransfers]
  by_cases hfails : v.files.world.ext4Mounted = false ∨ (v.files.inodes inode).type ≠ .directory ∨
      v.files.world.memory v.files.world.mallocs = false
  · rw [if_pos hfails]
    exact iff_of_true rfl hfails
  · rw [if_neg hfails]
    exact iff_of_false (List.cons_ne_nil _ _) hfails

/-- The loop of `ext4_dir_readdir`: the block that is in the buffer is not read again. -/
lemma readdirLoopTransfers_eq_nil_iff (fs : Ext4) (inode buffer : ℕ → BitVec 8) (rounds i offset : ℕ) :
    readdirLoopTransfers fs inode (rounds + 2) i offset buffer = [] ↔
      (endsAt inode i || decide (offset ≠ 0) &&
        ((nextLive fs.blockSize buffer fs.blockSize offset).isSome || endsAt inode (i + 1))) = true := by
  rw [readdirLoopTransfers]
  by_cases hend : 12 ≤ i ∨ inodeBlock inode i = 0
  · rw [if_pos hend, endsAt, decide_eq_true hend]
    exact iff_of_true rfl rfl
  have hends : endsAt inode i = false := decide_eq_false hend
  rw [if_neg hend, hends, Bool.false_or]
  dsimp only
  by_cases hoffset : offset = 0
  · rw [if_pos hoffset]
    exact iff_of_false (List.cons_ne_nil _ _) (by simp [hoffset])
  rw [if_neg hoffset, if_neg hoffset, List.nil_append, decide_eq_true hoffset, Bool.true_and]
  cases nextLive fs.blockSize buffer fs.blockSize offset with
  | some p => exact iff_of_true rfl rfl
  | none =>
    -- the next block is read at its start
    dsimp only
    rw [readdirLoopTransfers, Option.isSome_none, Bool.false_or, endsAt, decide_eq_true_iff]
    by_cases hnext : 12 ≤ i + 1 ∨ inodeBlock inode (i + 1) = 0
    · rw [if_pos hnext]
      exact iff_of_true rfl hnext
    · rw [if_neg hnext, if_pos rfl]
      exact iff_of_false (List.cons_ne_nil _ _) hnext

/-- `ext4_dir_readdir` makes none if it ends early. -/
lemma readdirTransfers_eq_nil_iff : v.readdirTransfers inode = [] ↔ v.readdirEndsEarly inode = true := by
  rw [readdirTransfers, readdirEndsEarly]
  by_cases hmounted : v.files.world.ext4Mounted = false
  · rw [if_pos hmounted]
    exact iff_of_true rfl (by simp [hmounted])
  rw [if_neg hmounted]
  by_cases htype : (v.files.inodes inode).type ≠ .directory
  · rw [if_pos htype]
    exact iff_of_true rfl (by simp [htype])
  rw [if_neg htype]
  dsimp only
  rw [decide_eq_false (not_or.2 ⟨hmounted, htype⟩), Bool.false_or]
  rcases v.dirIterator inode with ⟨v₁, _ | iterator⟩
  · exact iff_of_true rfl rfl
  dsimp only
  rcases v₁.dirBuffer inode iterator with ⟨v₂, _ | buffer⟩
  · exact iff_of_true rfl rfl
  exact readdirLoopTransfers_eq_nil_iff v₂.fs _ _ 10 _ _

/-- **The operations that return before their first transfer.** -/
theorem transfers_eq_nil_iff (hsize : v.fs.blockSize ≠ 0) (op : Operation) :
    v.transfers op = [] ↔ v.endsEarly op = true := by
  cases op with
  | allocate r => exact allocateTransfers_eq_nil_iff
  | release r num => exact releaseTransfers_eq_nil_iff num
  | readInode num =>
    rw [endsEarly, Bool.not_eq_true']
    exact readInodeTransfers_eq_nil_iff num
  | writeInode num inode => exact iff_of_false (List.cons_ne_nil _ _) (by simp [endsEarly])
  | addDirEntry dirInode name num type => exact addDirEntryTransfers_eq_nil_iff dirInode name
  | mkdir path permissions => exact mkdirTransfers_eq_nil_iff permissions
  | rmdir path => exact rmdirTransfers_eq_nil_iff
  | remove path => exact removeTransfers_eq_nil_iff
  | fileOpen inode flags => exact fileOpenTransfers_eq_nil_iff flags
  | fileRead inode buffer size offset => exact fileReadTransfers_eq_nil_iff hsize inode
  | opendir inode =>
    rw [endsEarly, decide_eq_true_iff]
    exact opendirTransfers_eq_nil_iff
  | readdir inode nameSize => exact readdirTransfers_eq_nil_iff

/-- A run makes no transfers iff every operation of it returns before its first one. -/
lemma runTransfers_eq_nil_iff (hsize : v.fs.blockSize ≠ 0) (ops : List Operation) :
    v.runTransfers ops = [] ↔ Run.Follows perform (fun v op => v.endsEarly op = true) v ops := by
  induction ops generalizing v with
  | nil => exact iff_of_true rfl trivial
  | cons op ops ih =>
    rw [runTransfers, List.append_eq_nil_iff, transfers_eq_nil_iff hsize]
    refine and_congr_right fun _ => ?_
    cases hcall : v.perform op with
    | none => exact iff_of_true rfl (by simp)
    | some v₁ =>
      have hsize₁ : v₁.fs.blockSize ≠ 0 := (effect_perform hcall).blockSize.trans_ne hsize
      simp only [Option.elim_some, Option.some.injEq, forall_eq']
      exact ih hsize₁

end Volume

namespace Ext4

open Volume

/-! ## What is wanted -/

/-- What is wanted of a disk that is mounted: the transfers of the mount fit the memory that they use, and
so do those of every run of operations from then on. -/
def TransfersFit (mount : List Transfer) (fs : Ext4) : Prop :=
  (∀ t ∈ mount, t.Fits fs.blockSize) ∧
    ∀ v : Volume, v.fs = fs → ∀ ops, ∀ t ∈ v.runTransfers ops, t.Fits fs.blockSize

/-- **No disk that is mounted has what is wanted**: the mount itself copies a superblock. If blocks have any
bytes, the transfers of a run fit exactly if there are none.

**Proof sketch.** A block has 1024 bytes or more, so that no transfer fits. -/
theorem transfersFit_iff {mounted : Option Ext4} {source target : Option CString} {record : Bool}
    {disks : List (ℕ → ℕ → BitVec 8)} {memory : ℕ → Bool} {fs : Ext4}
    (hmount : ext4Mount mounted source target record disks memory = .ok (some fs, 0)) :
    ¬ TransfersFit (mountTransfers mounted source target record disks) fs ∧
      (fs.blockSize ≠ 0 → ∀ v : Volume, v.fs = fs → ∀ ops,
        ((∀ t ∈ v.runTransfers ops, t.Fits fs.blockSize) ↔
          Run.Follows perform (fun v op => v.endsEarly op = true) v ops)) := by
  obtain ⟨htransfers, disk, rfl⟩ := mountTransfers_of_mounted hmount
  constructor
  · rintro ⟨hfits, -⟩
    have hcopy : superBlockSize ≤ 512 := by
      refine hfits .readSuperBlock ?_
      rw [htransfers]
      exact List.mem_cons_self
    exact absurd hcopy (by decide)
  · intro hsize v hv ops
    rw [fits_iff_nil (blockSize_ext4ReadSuperBlock disk memory hsize)]
    exact runTransfers_eq_nil_iff (by rwa [hv]) ops

/-- A disk of ext4 with blocks of 1024 bytes, a directory and a file. -/
def validDevice : ℕ → ℕ → BitVec 8
  | 2, 56 => 0x53
  | 2, 57 => 0xEF
  | sector, k => fileDevice sector k

/-- The disk, mounted. -/
def validVolume : Volume := { fileVolume with fs := ext4ReadSuperBlock validDevice fun _ => true }

/-- The superblock of the device is valid. -/
lemma validSuperBlock_validVolume : ValidSuperBlock validVolume.fs :=
  ⟨by decide +kernel, by decide +kernel, by decide +kernel, by decide +kernel, by decide +kernel⟩

/-- The device can be mounted. -/
lemma ext4Mount_validDevice :
    ext4Mount none (some [47]) (some [47]) true [validDevice] (fun _ => true) =
      .ok (some validVolume.fs, 0) := by
  show ((readSuperBlock validDevice fun _ => true).map fun fs => (some fs, 0)) = _
  rw [ValidSuperBlock.readSuperBlock_eq validSuperBlock_validVolume]
  rfl

/-- Reading the root inode is a transfer that does not fit, and no operation that ends early. -/
theorem transfersFit_iff_validVolume :
    (∀ t ∈ validVolume.runTransfers [.readInode 2], t.Fits validVolume.fs.blockSize) ↔
      Run.Follows perform (fun v op => v.endsEarly op = true) validVolume [.readInode 2] :=
  (transfersFit_iff ext4Mount_validDevice).2 (by decide +kernel) validVolume rfl [.readInode 2]

/-- The superblock is copied out of a buffer that is too short, and a descriptor into one. -/
theorem not_transfersFit :
    ext4Mount none (some [47]) (some [47]) true [validDevice] (fun _ => true) =
        .ok (some validVolume.fs, 0) ∧
      ¬ TransfersFit (mountTransfers none (some [47]) (some [47]) true [validDevice]) validVolume.fs ∧
      ¬ ∀ t ∈ validVolume.transfers (.readInode 2), t.Fits validVolume.fs.blockSize := by
  refine ⟨ext4Mount_validDevice, ?_, ?_⟩
  · rintro ⟨hfits, -⟩
    exact absurd (hfits .readSuperBlock List.mem_cons_self) (by decide +kernel)
  · intro hfits
    have hread : Transfer.readBlock .descriptor 2 ∈ validVolume.transfers (.readInode 2) := by decide +kernel
    exact absurd (hfits _ hread) (Transfer.not_fits (by decide +kernel) _)

end Ext4

end Jarvis
