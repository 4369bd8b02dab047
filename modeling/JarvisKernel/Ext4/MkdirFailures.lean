import JarvisKernel.Ext4.NewDirectory
import JarvisKernel.Ext4.ParentPath

set_option relaxedAutoImplicit false
set_option autoImplicit false

/-!
# Failures of `ext4_mkdir`

Whether a call of `ext4_mkdir` that returns an error leaves the file system as it was. What was allocated
is freed again in three of the failures. If the inode was written before there was no memory for its block,
its record stays in the inode table. If the entry cannot be added, nothing is undone, and the superblock
counts another block and another inode less.

The state before the call says which failure it comes to: whether the parent directory is found, what the
allocator offers, which calls of `malloc` succeed, and what the block of the parent directory holds.

## Main definitions

* `Jarvis.Volume.FailsUnchanged` — what is wanted: if a call returns an error, then the file system is as it
  was.
* `Jarvis.Volume.RoomInParent` — the entry of the new directory can be added.
* `Jarvis.Volume.MkdirRecovers` — the states in which a call does not fail, or undoes what it did.

## Main results

* `Jarvis.Volume.mkdirLink_iff` — nothing is undone if the entry cannot be added.
* `Jarvis.Volume.addsEntry_iff_roomInParent` — when the entry is added.
* `Jarvis.Volume.unchangedIfFails_iff` — the calls that leave the file system as it was if they fail.
-/

namespace Jarvis

namespace Ext4

open ByteBuffer

variable {fs fs' : Ext4} {num : ℕ}

/-! ## Room for an entry -/

/-- An entry with the name fits at the place that is found in the block, if the search for it ends. -/
def fitsEntry (blockSize : ℕ) (b : ℕ → BitVec 8) (name : CString) : Bool :=
  (findPlace blockSize b (blockSize + 1) 0).all fun offset =>
    decide (offset + (8 + name.length % 256 + 3) / 4 * 4 ≤ blockSize)

/-- It fits into an empty block. -/
lemma fitsEntry_clearBlock (hsize : 1024 ≤ fs.blockSize) (buffer : ℕ → BitVec 8) (name : CString) :
    fitsEntry fs.blockSize (fs.clearBlock buffer) name = true := by
  have hzero : get32 (fs.clearBlock buffer) 0 = 0 := by
    simp [get32, get16, clearBlock, show 0 < fs.blockSize by omega, show 1 < fs.blockSize by omega,
      show 2 < fs.blockSize by omega, show 3 < fs.blockSize by omega]
  have hlt := Nat.mod_lt name.length (show 0 < 256 by decide)
  rw [fitsEntry, findPlace, if_pos (.inr (.inl hzero)), Option.all_some, decide_eq_true_iff]
  omega

/-! ## The count of inodes -/

/-- Allocating an inode takes one from the count of the superblock. -/
lemma Allocates.superCount_inode (hcall : Allocates .inode fs fs' num) :
    fs'.superCount .inode = Word32.sub (fs.superCount .inode) 1 := by
  obtain ⟨bg, i, m, -, -, rfl⟩ := hcall
  have hcount : (fs.taken .inode bg i).superCount .inode = _ := superCount_taken fs .inode bg i
  rw [Resource.takeFromSuper, Resource.superCountOf, get32_set32] at hcount
  exact hcount.trans (Nat.mod_eq_of_lt (Nat.mod_lt _ (by decide)))

/-- Allocating blocks does not change it. -/
lemma superCount_ext4AllocateBlock (fs : Ext4) :
    fs.ext4AllocateBlock.1.superCount .inode = fs.superCount .inode := by
  rw [ext4AllocateBlock]
  rcases allocate_cases .block fs with ⟨m, hcall⟩ | ⟨m, bg, i, -, -, hcall⟩
  · rw [hcall]
    rfl
  · rw [hcall]
    exact (superCount_store _ _).trans (superCountOf_takeFromSuper_of_ne (by decide))

end Ext4

namespace Volume

open ByteBuffer Ext4

variable {v w : Volume} {fs : Ext4}

/-! ## Lookups -/

/-- Looking up a path writes no block. -/
lemma fs_ext4GetInode (v : Volume) (path : Option CString) : (v.ext4GetInode path).1.fs = v.fs := by
  cases path with
  | none => rfl
  | some path =>
    rw [ext4GetInode]
    rcases OpenPath.ext4GetInode v.files path with ⟨files, _ | found⟩ <;> rfl

/-- Looking up the parent directory leaves the device as it is. -/
lemma fs_findParent (v : Volume) (path : CString) (root : Bool) : (v.findParent path root).1.fs = v.fs := by
  rw [findParent]
  split_ifs
  · rfl
  rcases OpenPath.vfsParsePath v.files path with ⟨files, _ | components⟩
  · rfl
  dsimp only
  split_ifs
  · rfl
  rcases OpenPath.splitParent files components with ⟨files₁, _ | ⟨dir, name⟩⟩
  · rfl
  have hinode := fs_ext4GetInode { v with files := files₁ } dir
  dsimp only at hinode ⊢
  generalize ext4GetInode _ dir = result at hinode ⊢
  rcases result with ⟨v₁, _ | inode⟩ <;> exact hinode

/-! ## Adding an entry -/

/-- `ext4_add_dir_entry` does not fail: there are a name and a directory, memory and a block, and the entry
fits at the place that is found. It may look for a place for ever. -/
def addsEntry (v : Volume) (dirInode : ℕ) : Option CString → Bool
  | none => false
  | some name =>
    decide ((v.files.inodes dirInode).type = .directory) && v.fs.memory v.fs.mallocs &&
      match (v.advance 1).directoryBlock (v.inodeNum dirInode) (v.files.world.privateData dirInode)
          (v.buffers v.fs.mallocs) with
      | (_, none) => false
      | (v, some b) => fitsEntry v.fs.blockSize b name

/-- Writing the directory's block and inode leaves the number of free inodes in the superblock. -/
lemma superCount_directoryBlock (v : Volume) (num data : ℕ) (buffer : ℕ → BitVec 8) :
    (v.directoryBlock num data buffer).1.fs.superCount .inode = v.fs.superCount .inode := by
  have hblock := superCount_ext4AllocateBlock v.fs
  rw [directoryBlock]
  split_ifs
  · rfl
  generalize v.fs.ext4AllocateBlock = result at hblock ⊢
  rcases result with ⟨fs, _ | newBlock⟩
  · exact hblock
  · exact (superCount_ext4WriteInode _ num _ .inode).trans hblock

/-- **What `ext4_add_dir_entry` does**: it does not return, or it adds the entry, or it fails. Then it
leaves the count of inodes. -/
lemma ext4AddDirEntry_cases (v : Volume) (dirInode : ℕ) (name : Option CString) (num : ℕ)
    (type : FileType) :
    (v.ext4AddDirEntry dirInode name num type = none ∧ v.addsEntry dirInode name = true) ∨
      (∃ v', v.ext4AddDirEntry dirInode name num type = some (v', 0) ∧
        v.addsEntry dirInode name = true) ∨
      ∃ v', v.ext4AddDirEntry dirInode name num type = some (v', -1) ∧
        v.addsEntry dirInode name = false ∧ v'.fs.superCount .inode = v.fs.superCount .inode := by
  cases name with
  | none => exact .inr (.inr ⟨v, rfl, rfl, rfl⟩)
  | some name =>
    rw [ext4AddDirEntry, addsEntry]
    simp only [fitsEntry]
    by_cases htype : (v.files.inodes dirInode).type = .directory
    swap
    · rw [if_pos htype]
      exact .inr (.inr ⟨v, rfl, by simp [htype], rfl⟩)
    rw [if_neg (by simpa using htype)]
    cases hmemory : v.fs.memory v.fs.mallocs with
    | false =>
      rw [malloc_of_false hmemory]
      exact .inr (.inr ⟨v.advance 1, rfl, by simp, rfl⟩)
    | true =>
      rw [malloc_of_true hmemory]
      dsimp only
      have hcount := superCount_directoryBlock (v.advance 1) (v.inodeNum dirInode)
        (v.files.world.privateData dirInode) (v.buffers v.fs.mallocs)
      have hnum : (v.advance 1).inodeNum dirInode = v.inodeNum dirInode := rfl
      rw [hnum]
      generalize (v.advance 1).directoryBlock _ _ _ = result at hcount ⊢
      rcases result with ⟨v₁, _ | b⟩
      · exact .inr (.inr ⟨v₁, rfl, by simp, hcount⟩)
      · dsimp only at hcount ⊢
        cases hplace : Ext4.findPlace v₁.fs.blockSize b (v₁.fs.blockSize + 1) 0 with
        | none => exact .inl ⟨rfl, by simp [htype]⟩
        | some offset =>
          rw [Option.map_some]
          split_ifs with hfull
          · exact .inr (.inr ⟨v₁, rfl, by simp [hfull], hcount⟩)
          · exact .inr (.inl ⟨_, rfl, by simpa [htype] using hfull⟩)

/-! ## Failures -/

/-- If a call returns an error, then the file system is as it was. -/
def UnchangedIfFails (fs : Ext4) (outcome : Option (Volume × ℤ)) : Prop :=
  ∀ v' result, outcome = some (v', result) → result ≠ 0 → Unchanged fs v'.fs

/-- A call that returned −1 fulfils the claim if the file system is unchanged. -/
lemma unchangedIfFails_error : UnchangedIfFails fs (some (v, -1)) ↔ Unchanged fs v.fs := by
  constructor
  · exact fun h => h v (-1) rfl (by decide)
  · rintro h v' result hcall -
    obtain ⟨rfl, -⟩ := Prod.mk.inj (Option.some.inj hcall)
    exact h

/-- The link count is written without changing the superblock. -/
lemma superCount_addLink (v : Volume) (num : ℕ) :
    (v.addLink num).fs.superCount .inode = v.fs.superCount .inode := by
  rw [addLink]
  rcases ext4ReadInode_cases v num with ⟨n, hcall⟩ | hcall
  · rw [hcall]
    rfl
  · rw [hcall]
    exact superCount_ext4WriteInode _ num _ .inode

/-- Step 9 of `ext4_mkdir` counts one inode less. -/
lemma superCountOf_link (sb : ℕ → BitVec 8) :
    Resource.inode.superCountOf
        (set32 (set32 (set32 sb 16 (Word32.sub (get32 sb 16) 1)) 12
          (Word32.sub (get32 (set32 sb 16 (Word32.sub (get32 sb 16) 1)) 12) 1)) 48 currentTime) =
      Word32.sub (Resource.inode.superCountOf sb) 1 := by
  rw [Resource.superCountOf, get32_set32_of_ne (by omega), get32_set32_of_ne (by omega), get32_set32]
  exact Nat.mod_eq_of_lt (Nat.mod_lt _ (by decide))

/-- **Nothing is undone if the entry cannot be added.** The superblock has counted one inode less before,
and counts one less again. -/
lemma mkdirLink_iff (parent : ℕ) (name : Option CString) (num : ℕ)
    (hcount : v.fs.superCount .inode = Word32.sub (fs.superCount .inode) 1) :
    UnchangedIfFails fs (v.mkdirLink parent name num) ↔ v.addsEntry parent name = true := by
  rw [mkdirLink]
  rcases ext4AddDirEntry_cases v parent name num .directory with
    ⟨hcall, hadds⟩ | ⟨v₁, hcall, hadds⟩ | ⟨v₁, hcall, hadds, hsame⟩
  · rw [hcall]
    exact iff_of_true (fun v' result hsome => by simp at hsome) hadds
  · rw [hcall]
    refine iff_of_true (fun v' result hsome hresult => ?_) hadds
    obtain ⟨-, rfl⟩ := Prod.mk.inj (Option.some.inj hsome)
    exact absurd rfl hresult
  · rw [hcall, hadds]
    refine iff_of_false (fun hunchanged => ?_) (by decide)
    have hsuper := (hunchanged _ _ rfl (by decide)).free.super .inode
    have hlink := superCount_addLink v₁ (v₁.inodeNum parent)
    have hlt : fs.superCount .inode < 2 ^ 32 := get32_lt fs.superBlock 16
    have hfinal : Word32.sub ((v₁.addLink (v₁.inodeNum parent)).fs.superCount .inode) 1 =
        fs.superCount .inode := (superCountOf_link _).symm.trans hsuper
    rw [hlink, hsame, hcount, Word32.sub, Word32.sub] at hfinal
    omega

/-! ## The block of the parent directory -/

/-- `block[0]` of what `ext4_add_dir_entry` takes for the inode of the parent directory: the memory at the
operations of the inode of the VFS. -/
def parentData (v : Volume) (path : CString) : ℕ := inodeBlock (v.heap (v.parentInode path + 1)) 0

/-- The entry of a new directory with bit `i` of group `bg` can be added: the parent directory is `"/"`,
there is memory for the name and the buffer, and there is room in the block of the parent directory, or a
further block for one that has none. The blocks that are written are blocks of data of their own. -/
structure RoomInParent (v : Volume) (path : CString) (bg i : ℕ) (name : CString) : Prop where
  root : parentPath (pathComponents path) = [47]
  hasName : v.parentName path = some name
  memory : v.fs.memory (v.fs.afterBlock + 3) = true
  data : v.fs.HoldsData (Resource.block.number v.fs bg i)
  further : v.parentData path = 0 →
    ((v.fs.taken .block bg i).offers .block (v.fs.afterBlock + 4)).isSome = true
  room : v.parentData path ≠ 0 → v.fs.HoldsData (v.parentData path) ∧
    v.parentData path ≠ Resource.block.number v.fs bg i ∧
    fitsEntry v.fs.blockSize
      (v.fs.readInto (v.buffers (v.fs.afterBlock + 3)) (v.parentData path)) name = true

/-- Writing an inode leaves the block size. -/
lemma blockSize_ext4WriteInode (v : Volume) (num : ℕ) (inode : ℕ → BitVec 8) :
    (v.ext4WriteInode num inode).fs.blockSize = v.fs.blockSize := by
  rw [ext4WriteInode]
  rcases malloc_cases v with hcall | hcall <;> rw [hcall] <;> rfl

/-- The block that `ext4_add_dir_entry` looks into: that of the directory, or a new one. -/
lemma directoryBlock_fits (h : Layout v.fs) (num data : ℕ) (buffer : ℕ → BitVec 8) (name : CString) :
    (match v.directoryBlock num data buffer with
      | (_, none) => false
      | (v, some b) => fitsEntry v.fs.blockSize b name) =
      if inodeBlock (v.heap data) 0 = 0 then (v.fs.offers .block v.fs.mallocs).isSome
      else fitsEntry v.fs.blockSize (v.fs.readInto buffer (inodeBlock (v.heap data) 0)) name := by
  rw [directoryBlock]
  by_cases hzero : inodeBlock (v.heap data) 0 = 0
  swap
  · rw [if_pos hzero, if_neg hzero]
  rw [if_neg (not_not.2 hzero), if_pos hzero, ext4AllocateBlock, allocate_eq]
  cases hoffers : v.fs.offers .block v.fs.mallocs with
  | none => rfl
  | some p =>
    have htakes := takes_of_offers hoffers
    have hlayout := (h.of_same (h.taken_spec htakes.group .block p.2).1).blockSize_ge
    obtain ⟨newBlock, hnum⟩ := Nat.exists_eq_succ_of_ne_zero (htakes.number_ne_zero h)
    dsimp only
    rw [hnum]
    show fitsEntry (Volume.ext4WriteInode _ num _).fs.blockSize (Ext4.clearBlock _ buffer) name = true
    rw [blockSize_ext4WriteInode]
    exact fitsEntry_clearBlock hlayout buffer name

/-- What is offered of blocks after an inode and a block were taken does not depend on the inode. -/
lemma offers_bothTaken {bg i bg' i' : ℕ} (h : Layout v.fs) (hinode : Takes .inode v.fs bg i)
    (hbg : bg' < v.fs.blockGroupCount) (hfree : SameFree (bothTaken v.fs bg i bg' i') fs) (m : ℕ) :
    fs.offers .block m = (v.fs.taken .block bg' i').offers .block m := by
  have htaken : Agrees .block (v.fs.taken .block bg' i') (bothTaken v.fs bg i bg' i') :=
    ((h.agrees_taken (by decide) hinode.group i).taken h hbg i').trans (agrees_withMallocs _ _ _)
  exact congrFun ((htaken.trans (hfree.agrees .block)).offers_eq
    (h.of_same (h.taken_spec hbg .block i').1)).2.2 m

/-- **Whether the entry is added** can be read off the state before the call, if the blocks that are written
are blocks of data of their own. -/
lemma addsEntry_iff_roomInParent {v₁ : Volume} {path : CString} {bg i bg' i' : ℕ} (h : Layout v.fs)
    (hfound : ParentFound v v₁ path) (hinode : Takes .inode v.fs bg i) (hblock : Takes .block v.fs bg' i')
    (hwrites : WritesDirectory { v₁ with fs := bothTaken v.fs bg i bg' i' } w
      (Resource.block.number v.fs bg' i'))
    (hdata : v.fs.HoldsData (Resource.block.number v.fs bg' i'))
    (hparent : v.parentData path ≠ 0 → v.fs.HoldsData (v.parentData path) ∧
      v.parentData path ≠ Resource.block.number v.fs bg' i') :
    w.addsEntry (v.parentInode path) (v.parentName path) = true ↔
      ∃ name, v.RoomInParent path bg' i' name := by
  obtain ⟨hallocates, hallocates'⟩ := allocates_bothTaken h hinode hblock
  obtain ⟨htaken, hblocks⟩ := hallocates.sameBlocks_both h hallocates'
  have hfiles : w.files = v₁.files := hwrites.files
  have hbuffers : w.buffers = v.buffers := hwrites.buffers.trans hfound.buffers
  have hheap : w.heap = v.heap := hwrites.heap.trans hfound.heap
  have hmallocs : w.fs.mallocs = v.fs.afterBlock + 3 := hwrites.mallocs
  have hmemory : w.fs.memory = v.fs.memory := hwrites.memory
  have hfree : SameFree (bothTaken v.fs bg i bg' i') w.fs := hwrites.free (hdata.of_same htaken)
  have hw : Layout (w.advance 1).fs :=
    ((h.of_same htaken).of_same hfree.layout).of_same (withMallocs_spec w.fs _).1
  cases hname : v.parentName path with
  | none =>
    refine iff_of_false (by simp [addsEntry]) ?_
    rintro ⟨name, hroom⟩
    exact absurd (hname.symm.trans hroom.hasName) (by simp)
  | some name =>
    -- the type of the parent directory, and its first block
    have htype : (w.files.inodes (v.parentInode path)).type = .directory ↔
        parentPath (pathComponents path) = [47] := by
      rw [hfiles]
      exact hfound.isDirectory_iff
    have hfits := directoryBlock_fits hw (w.inodeNum (v.parentInode path))
      (w.files.world.privateData (v.parentInode path)) (w.buffers w.fs.mallocs) name
    have hplace : inodeBlock ((w.advance 1).heap (w.files.world.privateData (v.parentInode path))) 0 =
        v.parentData path := by
      show inodeBlock (w.heap _) 0 = _
      rw [hfiles, hheap, hfound.inode.data, parentData]
    have hcount : (w.advance 1).fs.mallocs = v.fs.afterBlock + 4 := congrArg (· + 1) hmallocs
    have hoffers : (w.advance 1).fs.offers .block (v.fs.afterBlock + 4) =
        (v.fs.taken .block bg' i').offers .block (v.fs.afterBlock + 4) :=
      offers_bothTaken h hinode hblock.group (hfree.trans (sameFree_withMallocs w.fs _)) _
    have hread : v.parentData path ≠ 0 → (w.advance 1).fs.readInto (w.buffers w.fs.mallocs)
        (v.parentData path) = v.fs.readInto (v.buffers (v.fs.afterBlock + 3)) (v.parentData path) := by
      intro hzero
      obtain ⟨hown, hne⟩ := hparent hzero
      have hkeeps : KeepsBlock (v.parentData path) v.fs (w.advance 1).fs :=
        ((hown.keepsBlock htaken hblocks).trans
          (hwrites.keeps (hdata.of_same htaken) _ (hown.of_same htaken) hne)).trans
          (keepsBlock_withMallocs w.fs _)
      rw [hkeeps.readInto_eq, hbuffers, hmallocs]
    have hblockSize : (w.advance 1).fs.blockSize = v.fs.blockSize :=
      hfree.layout.blockSize.trans htaken.blockSize
    rw [addsEntry, hfits, hplace, hcount, hoffers, Bool.and_eq_true, Bool.and_eq_true, decide_eq_true_iff,
      htype, hmemory, hmallocs]
    constructor
    · rintro ⟨⟨hroot, hbuffer⟩, hroom⟩
      refine ⟨name, hroot, hname, hbuffer, hdata, fun hzero => ?_, fun hzero => ?_⟩
      · rw [if_pos hzero] at hroom
        exact hroom
      · rw [if_neg hzero, ← hmallocs, hread hzero, hblockSize] at hroom
        exact ⟨(hparent hzero).1, (hparent hzero).2, hroom⟩
    · rintro ⟨name', hroom⟩
      obtain rfl : name' = name := Option.some.inj (hroom.hasName.symm.trans hname)
      refine ⟨⟨hroom.root, hroom.memory⟩, ?_⟩
      split_ifs with hzero
      · exact hroom.further hzero
      · rw [← hmallocs, hread hzero, hblockSize]
        exact (hroom.room hzero).2.2

/-! ## The whole call -/

/-- The parent path is put together: there are two components, and memory for them and for the buffer. -/
def buildsParentPath (v : Volume) (path : CString) : Bool :=
  let n := (pathComponents path).length
  v.files.world.ext4Mounted && decide (2 ≤ n ∧ ∀ j < n + 2, v.lookupMemory j = true)

/-- The buffer of the parent path is filled: two components or more were found, and there was memory for
it. -/
def FillsBuffer (v : Volume) (path : CString) (components : List CString) : Prop :=
  v.files.world.ext4Mounted = true ∧ ∃ files,
    OpenPath.vfsParsePath v.files path = (files, some components) ∧ 2 ≤ components.length ∧
      (OpenPath.duplicate files (parentPath components)).2 ≠ none

/-- What is wanted: the parent path stays in its buffer, and if the call returns an error, then the file
system is as it was. -/
structure FailsUnchanged (v : Volume) (path : CString) (permissions : ℕ) : Prop where
  fits : ∀ components, v.FillsBuffer path components →
    ∀ write ∈ (ParentPath.buildParentPath components).writes, write.1 + write.2 ≤ pathMax
  unchanged : UnchangedIfFails v.fs (v.ext4Mkdir path permissions)

/-- With an inode and a block for the new directory: a failure before step 7 undoes everything, or there is
none in step 7. -/
def writeRecovers (v : Volume) (path : CString) (permissions bg i bg' i' : ℕ) : Prop :=
  if v.fs.memory v.fs.afterBlock = true ∧ v.fs.memory (v.fs.afterBlock + 2) = true then
    ∃ name, v.RoomInParent path bg' i' name
  else
    v.fs.undoesWrite v.fs.afterBlock permissions (Resource.inode.number v.fs bg i)
      (Resource.block.number v.fs bg' i') = true

/-- From step 3 on: nothing is offered, or the inode can be freed again, or there is a block as well. -/
def newRecovers (v : Volume) (path : CString) (permissions : ℕ) : Prop :=
  match v.fs.offers .inode v.fs.mallocs with
  | none => True
  | some (bg, i) =>
    match v.fs.offers .block v.fs.afterInode with
    | none =>
      v.fs.memory (v.fs.afterInode + v.fs.buffersUsed .block v.fs.afterInode) = true ∧
        v.fs.givesBack .inode (Resource.inode.number v.fs bg i) = true
    | some (bg', i') => v.writeRecovers path permissions bg i bg' i'

/-- The states in which a call does not fail, or undoes what it did. -/
structure MkdirRecovers (v : Volume) (path : CString) (permissions : ℕ) : Prop where
  fits : v.buildsParentPath path = true → FitsBuffer path
  undoes : v.findsParent path = true → v.newRecovers path permissions

/-- The free blocks hold no records, and the block of the parent directory is another one that holds
none. -/
structure OwnBlocks (v : Volume) (path : CString) : Prop where
  free : ∀ bg i, Takes .block v.fs bg i → v.fs.HoldsData (Resource.block.number v.fs bg i)
  parent : v.parentData path ≠ 0 →
    v.fs.HoldsData (v.parentData path) ∧ Allocated .block v.fs (v.parentData path)

/-- Whether the buffer is filled can be read off the path and the memory. -/
lemma fillsBuffer_iff (v : Volume) (path : CString) (components : List CString) :
    v.FillsBuffer path components ↔ components = pathComponents path ∧ v.buildsParentPath path = true := by
  have hall : v.buildsParentPath path = true ↔ v.files.world.ext4Mounted = true ∧
      2 ≤ (pathComponents path).length ∧
        OpenPath.HasMemory v.files ((pathComponents path).length + 1) ∧
          v.lookupMemory ((pathComponents path).length + 1) = true := by
    rw [buildsParentPath, Bool.and_eq_true, decide_eq_true_iff, Nat.forall_lt_succ_right]
    rfl
  rw [FillsBuffer, hall, OpenPath.vfsParsePath]
  constructor
  · rintro ⟨hmounted, files, hparse, htwo, hbuffer⟩
    by_cases hmemory : OpenPath.HasMemory v.files ((pathComponents path).length + 1)
    · rw [OpenPath.mallocTemporaries_of_memory hmemory] at hparse
      obtain ⟨rfl, hcomponents⟩ := Prod.mk.inj hparse
      obtain rfl := Option.some.inj hcomponents
      refine ⟨rfl, hmounted, htwo, hmemory, ?_⟩
      by_contra hnot
      refine hbuffer ?_
      rw [OpenPath.duplicate, OpenPath.mallocTemporary_eq (by exact Bool.eq_false_iff.2 hnot)]
    · have hnot := OpenPath.mallocTemporaries_of_not hmemory
      generalize OpenPath.mallocTemporaries v.files _ = result at hparse hnot
      obtain ⟨files, rfl⟩ : ∃ files, result = (files, false) := ⟨result.1, Prod.ext rfl hnot⟩
      simp at hparse
  · rintro ⟨rfl, hmounted, htwo, hmemory, hbuffer⟩
    refine ⟨hmounted, _, by rw [OpenPath.mallocTemporaries_of_memory hmemory], htwo, ?_⟩
    rw [OpenPath.duplicate, OpenPath.mallocTemporary_eq (by exact hbuffer)]
    simp

/-- Its writes stay in the buffer if the parent path does. -/
lemma failsUnchanged_iff (v : Volume) (path : CString) (permissions : ℕ) :
    v.FailsUnchanged path permissions ↔ (v.buildsParentPath path = true → FitsBuffer path) ∧
      UnchangedIfFails v.fs (v.ext4Mkdir path permissions) := by
  have htwo : v.buildsParentPath path = true → 2 ≤ (pathComponents path).length := by
    rw [buildsParentPath, Bool.and_eq_true, decide_eq_true_iff]
    exact fun hbuilds => hbuilds.2.1
  constructor
  · rintro ⟨hfits, hunchanged⟩
    refine ⟨fun hbuilds => ?_, hunchanged⟩
    exact (ParentPath.fits_iff (htwo hbuilds)).1 (hfits _ ((fillsBuffer_iff v path _).2 ⟨rfl, hbuilds⟩))
  · rintro ⟨hfits, hunchanged⟩
    refine ⟨fun components hfills => ?_, hunchanged⟩
    obtain ⟨rfl, hbuilds⟩ := (fillsBuffer_iff v path components).1 hfills
    exact (ParentPath.fits_iff (htwo hbuilds)).2 (hfits hbuilds)

/-- What `ext4_mkdir` makes of a new directory. -/
def finishes (v : Volume) (path : CString) : Volume × ℕ → Option (Volume × ℤ)
  | (w, 0) => some (w.vfsDestroyInode (v.parentInode path), -1)
  | (w, inodeNum) => w.mkdirLink (v.parentInode path) (v.parentName path) inodeNum

/-- **Steps 5 to 9 of `ext4_mkdir`**, with an inode and a block that were offered. -/
lemma unchangedIfFails_mkdirWrite {v₁ : Volume} {path : CString} {bg i bg' i' : ℕ} (h : Layout v.fs)
    (hfound : ParentFound v v₁ path) (hinode : Takes .inode v.fs bg i) (hblock : Takes .block v.fs bg' i')
    {permissions : ℕ} (hown : v.writeRecovers path permissions bg i bg' i' ∨
      (v.fs.memory v.fs.afterBlock = true ∧ v.fs.memory (v.fs.afterBlock + 2) = true → v.OwnBlocks path))
    (parentNum : ℕ) :
    UnchangedIfFails v.fs (v.finishes path
        ({ v₁ with fs := bothTaken v.fs bg i bg' i' }.mkdirWrite parentNum permissions
          (Resource.inode.number v.fs bg i) (Resource.block.number v.fs bg' i'))) ↔
      v.writeRecovers path permissions bg i bg' i' := by
  obtain ⟨hallocates, hallocates'⟩ := allocates_bothTaken h hinode hblock
  have h₁ := h.of_same (hallocates.sameLayout h)
  have htaken := (hallocates.sameBlocks_both h hallocates').1
  have hmallocs : (bothTaken v.fs bg i bg' i').mallocs = v.fs.afterBlock := rfl
  rw [writeRecovers] at hown ⊢
  by_cases hmemory : v.fs.memory v.fs.afterBlock = true ∧ v.fs.memory (v.fs.afterBlock + 2) = true
  · rw [if_pos hmemory] at hown ⊢
    obtain ⟨hnum, hbg, -⟩ := (hallocates.inGroup h).of_same htaken
    obtain ⟨w, hcall, hwrites⟩ := mkdirWrite_writes (v := { v₁ with fs := bothTaken v.fs bg i bg' i' })
      (h.of_same htaken) hnum hbg parentNum permissions (Resource.block.number v.fs bg' i')
      (by rw [htaken.memory]; exact hmemory.1) (by rw [htaken.memory]; exact hmemory.2)
    have hcount : w.fs.superCount .inode = Word32.sub (v.fs.superCount .inode) 1 :=
      hwrites.super.trans ((hallocates'.agrees h₁ (by decide)).super.trans hallocates.superCount_inode)
    obtain ⟨num, hsucc⟩ := Nat.exists_eq_succ_of_ne_zero hnum
    -- the blocks that are written are blocks of data of their own
    have hdata : v.fs.HoldsData (Resource.block.number v.fs bg' i') :=
      hown.elim (fun ⟨_, hroom⟩ => hroom.data) fun hown => (hown hmemory).free _ _ hblock
    have hparent : v.parentData path ≠ 0 → v.fs.HoldsData (v.parentData path) ∧
        v.parentData path ≠ Resource.block.number v.fs bg' i' := by
      intro hzero
      rcases hown with ⟨name, hroom⟩ | hown
      · exact ⟨(hroom.room hzero).1, (hroom.room hzero).2.1⟩
      · obtain ⟨hdata', hallocated⟩ := (hown hmemory).parent hzero
        exact ⟨hdata', hblock.ne_of_allocated h hallocated⟩
    rw [hcall, hsucc]
    exact (mkdirLink_iff _ _ _ hcount).trans
      (addsEntry_iff_roomInParent h hfound hinode hblock hwrites hdata hparent)
  · rw [if_neg hmemory]
    rw [not_and_or, Bool.not_eq_true, Bool.not_eq_true] at hmemory
    obtain ⟨w, hcall, hiff⟩ := mkdirWrite_fails (v := { v₁ with fs := bothTaken v.fs bg i bg' i' }) h
      hallocates hallocates' parentNum permissions (by rw [htaken.memory]; exact hmemory)
    rw [hcall]
    exact unchangedIfFails_error.trans hiff

/-- **Steps 3 to 9 of `ext4_mkdir`**, after the parent directory was found. -/
lemma unchangedIfFails_mkdirNew {v₁ : Volume} {path : CString} {permissions : ℕ} (h : Layout v.fs)
    (hfound : ParentFound v v₁ path)
    (hown : v.newRecovers path permissions ∨ (v.fs.offersDirectory = true → v.OwnBlocks path))
    (parentNum : ℕ) :
    UnchangedIfFails v.fs (v.finishes path (v₁.mkdirNew parentNum permissions)) ↔
      v.newRecovers path permissions := by
  obtain ⟨files, fs, buffers, heap⟩ := v₁
  obtain rfl : fs = v.fs := hfound.fs
  rw [mkdirNew_eq (v := ⟨files, v.fs, buffers, heap⟩) h]
  rw [newRecovers] at hown ⊢
  dsimp only at hown ⊢
  cases hinode : v.fs.offers .inode v.fs.mallocs with
  | none => exact iff_of_true (unchangedIfFails_error.2 (unchanged_withMallocs v.fs _)) trivial
  | some p =>
    obtain ⟨bg, i⟩ := p
    have htakes := takes_of_offers hinode
    have hallocates : Allocates .inode v.fs (v.fs.taken .inode bg i) (Resource.inode.number v.fs bg i) :=
      ⟨bg, i, v.fs.mallocs, htakes, rfl, rfl⟩
    cases hblock : v.fs.offers .block v.fs.afterInode with
    | none => exact unchangedIfFails_error.trans (unchanged_ext4FreeInode_iff h hallocates _)
    | some q =>
      obtain ⟨bg', i'⟩ := q
      have hoffers : v.fs.offersDirectory =
          (v.fs.memory v.fs.afterBlock && v.fs.memory (v.fs.afterBlock + 2)) := by
        rw [offersDirectory, hinode, hblock]
        rfl
      rw [hinode] at hown
      dsimp only at hown
      rw [hblock, hoffers, Bool.and_eq_true] at hown
      exact unchangedIfFails_mkdirWrite h hfound htakes (takes_of_offers hblock) hown parentNum

/-- A call that recovers, or that finds the blocks to be what they should. -/
lemma failsUnchanged_iff_recovers (h : Layout v.fs) {path : CString} {permissions : ℕ}
    (hown : v.MkdirRecovers path permissions ∨ (v.createsDirectory path = true → v.OwnBlocks path)) :
    v.FailsUnchanged path permissions ↔ v.MkdirRecovers path permissions := by
  have hiff : UnchangedIfFails v.fs (v.ext4Mkdir path permissions) ↔
      (v.findsParent path = true → v.newRecovers path permissions) := by
    rw [ext4Mkdir]
    cases hfinds : v.findsParent path with
    | false =>
      have hnone := findParent_of_not hfinds true
      have hfs := fs_findParent v path true
      generalize v.findParent path true = result at hnone hfs ⊢
      obtain ⟨v₁, rfl⟩ : ∃ v₁, result = (v₁, none) := ⟨result.1, Prod.ext rfl hnone⟩
      refine iff_of_true (unchangedIfFails_error.2 ?_) fun hfound => Bool.noConfusion hfound
      exact hfs ▸ unchanged_withMallocs v.fs v.fs.mallocs
    | true =>
      obtain ⟨v₁, hcall, hfound⟩ := findParent_of_finds hfinds true
      rw [hcall, imp_iff_right rfl]
      refine unchangedIfFails_mkdirNew h hfound (hown.imp (fun hrecovers => hrecovers.undoes hfinds)
        fun hown hoffers => hown ?_) _
      rw [createsDirectory, hfinds, hoffers]
      rfl
  rw [failsUnchanged_iff, hiff]
  exact ⟨fun hall => ⟨hall.1, hall.2⟩, fun hrecovers => ⟨hrecovers.fits, hrecovers.undoes⟩⟩

/-- **Calls that leave the file system as it was if they fail.** The condition is enough for every file
system. Where step 7 is not reached, and where the free blocks and the block of the parent directory hold no
records, it is exact.

**Proof sketch.** The lookup and the allocator do what the state before the call says. Freeing what was
allocated restores it unless there is no memory or a count runs over, and a record that was written in
between stays. After step 7 nothing is undone, and a count of the superblock tells; the block of the
parent directory is by then what it was. -/
theorem unchangedIfFails_iff (v : Volume) (h : Layout v.fs) (path : CString) (permissions : ℕ) :
    (v.MkdirRecovers path permissions → v.FailsUnchanged path permissions) ∧
      ((v.createsDirectory path = true → v.OwnBlocks path) →
        (v.FailsUnchanged path permissions ↔ v.MkdirRecovers path permissions)) :=
  ⟨fun hrecovers => (failsUnchanged_iff_recovers h (.inl hrecovers)).2 hrecovers,
    fun hown => failsUnchanged_iff_recovers h (.inr hown)⟩

/-- The volume without memory for the inode of a new directory, and with memory for freeing. -/
def forgetfulVolume : Volume :=
  { fileVolume with fs := ext4ReadSuperBlock fileDevice fun n => decide (n ≠ 2) }

/-- `forgetfulVolume` has one group. -/
lemma oneGroup_forgetfulVolume : OneGroup forgetfulVolume.fs := by
  refine ⟨by decide +kernel, by decide +kernel, by decide +kernel, fun r => ?_, by decide +kernel,
    by decide +kernel, by decide +kernel, by decide +kernel, by decide +kernel⟩
  cases r <;> decide +kernel

/-- Its free blocks hold no records, and the parent directory has no block. -/
lemma ownBlocks_forgetfulVolume : forgetfulVolume.OwnBlocks [47, 98] := by
  refine ⟨fun bg i htakes => ?_, fun hzero => absurd rfl hzero⟩
  have hbg : bg < 1 := oneGroup_forgetfulVolume.blockGroupCount ▸ htakes.group
  obtain rfl : bg = 0 := by omega
  have hperGroup : Resource.block.perGroup forgetfulVolume.fs = 16 := by decide +kernel
  have hi : i < 16 := hperGroup ▸ htakes.index
  have hnumber : ∀ i < 16, forgetfulVolume.fs.bit .block 0 i = false →
      6 < Resource.block.number forgetfulVolume.fs 0 i ∧
        Resource.block.number forgetfulVolume.fs 0 i < 17 := by decide +kernel
  obtain ⟨hgt, hlt⟩ := hnumber i hi htakes.clear
  refine ⟨?_, ?_, fun x hx => ?_⟩
  · rw [InDevice, oneGroup_forgetfulVolume.blockSize]
    omega
  · rw [oneGroup_forgetfulVolume.blockSize]
    omega
  · rcases oneGroup_forgetfulVolume.location hx with ⟨-, h⟩ | ⟨-, h⟩ | ⟨-, h⟩ | ⟨-, h⟩ <;> omega

/-- Without memory for the inode, `mkdir("/b")` fails, and everything is undone. -/
theorem unchangedIfFails_iff_forgetfulVolume :
    (forgetfulVolume.ext4Mkdir [47, 98] 0x1ED).map Prod.snd = some (-1) ∧
      forgetfulVolume.createsDirectory [47, 98] = false ∧
        forgetfulVolume.FailsUnchanged [47, 98] 0x1ED := by
  have hinode : forgetfulVolume.fs.offers .inode forgetfulVolume.fs.mallocs = some (0, 3) := by decide +kernel
  have hblock : forgetfulVolume.fs.offers .block forgetfulVolume.fs.afterInode = some (0, 7) := by
    decide +kernel
  refine ⟨by decide +kernel, by decide +kernel, ?_⟩
  refine ((unchangedIfFails_iff forgetfulVolume oneGroup_forgetfulVolume.layout [47, 98] 0x1ED).2
    fun _ => ownBlocks_forgetfulVolume).2 ⟨fun hbuilds => ?_, fun _ => ?_⟩
  · exact absurd hbuilds (by decide +kernel)
  · rw [newRecovers, hinode]
    dsimp only
    rw [hblock]
    dsimp only
    rw [writeRecovers, if_neg (by decide +kernel)]
    decide +kernel

/-- `mkdir("/a/b")` fails, and the superblock counts two inodes less. -/
theorem not_unchangedIfFails :
    ∃ v : Volume, Layout v.fs ∧ (∀ r, Balanced v.fs r) ∧
      ∃ path permissions, FitsBuffer path ∧ ¬ UnchangedIfFails v.fs (v.ext4Mkdir path permissions) := by
  refine ⟨fileVolume, oneGroup_fileVolume.layout, balanced_fileVolume, [47, 97, 47, 98], 0x1ED, ?_,
    fun hunchanged => ?_⟩
  · show (parentPath (pathComponents [47, 97, 47, 98])).length < pathMax
    decide
  have hresult : (fileVolume.ext4Mkdir [47, 97, 47, 98] 0x1ED).map
      (fun outcome => (outcome.2, outcome.1.fs.superCount .inode)) = some (-1, 3) := by decide +kernel
  obtain ⟨outcome, hcall, hpair⟩ := Option.map_eq_some_iff.1 hresult
  obtain ⟨hfails, hcount⟩ := Prod.mk.inj hpair
  have hsuper := (hunchanged outcome.1 outcome.2 hcall (by rw [hfails]; decide)).free.super .inode
  have hbefore : fileVolume.fs.superCount .inode = 5 := by decide +kernel
  omega

end Volume

end Jarvis
