import JarvisKernel.Ext4.Lookup
import JarvisKernel.Ext4.Offers
import JarvisKernel.Lib.Run

set_option relaxedAutoImplicit false
set_option autoImplicit false

/-!
# Counts over runs of directory operations

Whether the counts of what is free stay in step when directories and files are created and removed.
`ext4_mkdir` takes one from the counts of the superblock after the allocator has done so, and every call
that gets that far leaves the counts apart. `ext4_rmdir` finds no directory but the root, which it does
not remove, and changes nothing. `ext4_remove` keeps the counts in step if the inode that it takes for the
parent directory is one of the file system, and its first block is not one of those that count.

## Main definitions

* `Jarvis.Volume.Call`, `Jarvis.Volume.call` — the operations.
* `Jarvis.Ext4.offersDirectory` — there are an inode, a block and memory for a directory.
* `Jarvis.Volume.createsDirectory` — the calls that take one from the counts.
* `Jarvis.Volume.Allowed` — calls that keep the counts in step.

## Main results

* `Jarvis.Ext4.Layout.inodePlace_spec` — an inode of the file system is in an inode table.
* `Jarvis.Volume.mkdirNew_eq` — the inode and the block that `ext4_mkdir` takes are those offered.
* `Jarvis.Volume.balanced_of_run` — the counts agree after every call of a run of allowed calls.
-/

namespace Jarvis

namespace Ext4

open ByteBuffer

variable {fs : Ext4} {n k num : ℕ}

/-! ## Writing other blocks -/

/-- A record that says what is free. -/
def Record.Counts : Record → Prop
  | .descriptor _ => True
  | .bitmap _ _ => True
  | .inodeTable _ _ => False

/-- The block of a descriptor or a bitmap. -/
def IsMetadata (fs : Ext4) (n : ℕ) : Prop := ∃ x : Record, x.Counts ∧ x.Valid fs ∧ x.location fs = n

/-- Which blocks are descriptors and bitmaps depends on the layout only. -/
lemma SameLayout.isMetadata {fs' : Ext4} (h : SameLayout fs fs') (hn : fs'.IsMetadata n) :
    fs.IsMetadata n := by
  obtain ⟨x, hcounts, hx, hloc⟩ := hn
  have hx' := (h.valid x).1 hx
  exact ⟨x, hcounts, hx', (h.location hx').symm.trans hloc⟩

/-- Writing sectors changes no count, if descriptors and bitmaps are read as before. -/
lemma sameFree_sectors (hsize : 1024 ≤ fs.blockSize) (sectors : ℕ → ℕ → BitVec 8)
    (hread : ∀ x : Record, x.Counts → x.Valid fs → ∀ k < fs.blockSize,
      { fs with sectors := sectors }.ext4ReadBlock (x.location fs) k =
        fs.ext4ReadBlock (x.location fs) k) :
    SameFree fs { fs with sectors := sectors } := by
  have hbgd : ∀ bg < fs.blockGroupCount, ∀ k < 48,
      { fs with sectors := sectors }.bgd bg k = fs.bgd bg k := by
    intro bg hbg k hk
    exact hread (.descriptor bg) trivial hbg k (by omega)
  have hlayout : SameLayout fs { fs with sectors := sectors } :=
    ⟨rfl, rfl, rfl, rfl, rfl, fun _ _ => rfl, fun bg hbg k hk => hbgd bg hbg k (by omega)⟩
  refine ⟨hlayout, fun r bg i hbg hi => ?_, fun r bg hbg => ?_, fun _ => rfl⟩
  · have hvalid : (Record.bitmap r bg).Valid fs := hbg
    have hbyte := hread (.bitmap r bg) trivial hbg (i / 8) (by omega)
    rw [bit, bit, hlayout.location hvalid, Bitmap.test, Bitmap.test, hbyte]
  · obtain ⟨hlo, hhi, -⟩ := r.countFields
    rw [groupCount, groupCount, Resource.countOf, Resource.countOf,
      get16_congr fun k hk hlt => hbgd bg hbg k (by omega),
      get16_congr fun k hk hlt => hbgd bg hbg k (by omega)]

/-- Writing a block that is neither a descriptor nor a bitmap. -/
lemma Layout.sameFree_ext4WriteBlock (h : Layout fs) (hin : fs.InDevice n) (hn : ¬ fs.IsMetadata n)
    (buffer : ℕ → BitVec 8) : SameFree fs (fs.ext4WriteBlock n buffer) := by
  obtain ⟨c, hsize, hc⟩ := h.exists_sectors
  refine sameFree_sectors h.blockSize_ge _ fun x hcounts hx k hk => ?_
  have hne : x.location fs ≠ n := fun hloc => hn ⟨x, hcounts, hx, hloc⟩
  exact (ext4ReadBlock_ext4WriteBlock hsize hc (h.inDevice x hx) hin buffer hk).trans (if_neg hne)

/-- Writing the superblock. -/
lemma Layout.sameFree_ext4WriteSuperBlock (h : Layout fs) : SameFree fs fs.ext4WriteSuperBlock := by
  obtain ⟨c, hsize, hc⟩ := h.exists_sectors
  refine sameFree_sectors h.blockSize_ge _ fun x _ hx k hk => ?_
  exact ext4ReadBlock_ext4WriteSuperBlock hsize hc (h.inDevice x hx) (h.superBlock x hx) hk

/-! ## What is taken for a new directory -/

/-- The calls of `malloc` up to the inode of a new directory. -/
def afterInode (fs : Ext4) : ℕ := fs.mallocs + fs.buffersWanted .inode

/-- The calls of `malloc` up to its block. -/
def afterBlock (fs : Ext4) : ℕ := fs.afterInode + fs.buffersWanted .block

/-- The file system offers an inode and a block, and there is memory for writing them. -/
def offersDirectory (fs : Ext4) : Bool :=
  (fs.offers .inode fs.mallocs).isSome && (fs.offers .block fs.afterInode).isSome &&
    fs.memory fs.afterBlock && fs.memory (fs.afterBlock + 2)

/-! ## Writing inodes -/

/-- The offset of an inode in the table of its group. -/
def tableOffset (fs : Ext4) (num : ℕ) : ℕ := index .inode fs num * fs.inodeSize

/-- **An inode of the file system is in an inode table.** -/
lemma Layout.inodePlace_eq (h : Layout fs) (hnum : num ≠ 0)
    (hbg : group .inode fs num < fs.blockGroupCount) :
    (Record.inodeTable (group .inode fs num) (fs.tableOffset num / fs.blockSize)).Valid fs ∧
      fs.inodePlace num =
        ((Record.inodeTable (group .inode fs num) (fs.tableOffset num / fs.blockSize)).location fs,
          fs.tableOffset num % fs.blockSize) := by
  have hsize := h.blockSize_ge
  have hpos : 0 < fs.inodesPerGroup := h.perGroup_pos .inode
  -- the number does not overflow
  have hlt : num - 1 < fs.blockGroupCount * fs.inodesPerGroup := (Nat.div_lt_iff_lt_mul hpos).1 hbg
  have hinodes := h.inodes_lt
  have hsub : Word32.sub num 1 = num - 1 := Word32.sub_of_le (by omega) (by omega)
  -- the offset is in the table
  have hindex : (num - 1) % fs.inodesPerGroup < fs.inodesPerGroup := Nat.mod_lt _ hpos
  have hoffset : (num - 1) % fs.inodesPerGroup * fs.inodeSize < fs.inodeTableBlocks * fs.blockSize :=
    Nat.lt_of_lt_of_le (Nat.mul_lt_mul_of_pos_right hindex h.inodeSize_pos) h.inodeTable_bytes
  have hblock : (num - 1) % fs.inodesPerGroup * fs.inodeSize / fs.blockSize < fs.inodeTableBlocks :=
    (Nat.div_lt_iff_lt_mul (by omega)).2 hoffset
  have hblocks : 0 < fs.inodeTableBlocks := Nat.zero_lt_of_lt hblock
  have hvalid : ∀ j < fs.inodeTableBlocks, (Record.inodeTable (group .inode fs num) j).Valid fs :=
    fun j hj => ⟨hbg, hj⟩
  -- and the table is on the device
  have hlast : (get32 (fs.bgd (group .inode fs num)) 8 + (fs.inodeTableBlocks - 1) + 1) * fs.blockSize ≤
      2 ^ 32 := h.inDevice _ (hvalid (fs.inodeTableBlocks - 1) (by omega))
  have htable : fs.inodeTableBlocks * fs.blockSize ≤ 2 ^ 32 :=
    (Nat.mul_le_mul_right _ (by omega)).trans hlast
  have hmul : Word32.mul ((num - 1) % fs.inodesPerGroup) fs.inodeSize =
      (num - 1) % fs.inodesPerGroup * fs.inodeSize := Nat.mod_eq_of_lt (by omega)
  have hadd : ∀ j < fs.inodeTableBlocks, get32 (fs.bgd (group .inode fs num)) 8 + j < 2 ^ 32 := by
    intro j hj
    have hle := (Nat.le_mul_of_pos_right _ (show 0 < fs.blockSize by omega)).trans hlast
    omega
  refine ⟨hvalid _ hblock, ?_⟩
  rw [inodePlace]
  simp only [hsub, hmul]
  exact Prod.ext (Word32.add_of_lt (hadd _ hblock)) rfl

/-- An inode of the file system is in a block of the table of its group. -/
lemma Layout.inodePlace_spec (h : Layout fs) (hnum : num ≠ 0)
    (hbg : group .inode fs num < fs.blockGroupCount) :
    ∃ j, (Record.inodeTable (group .inode fs num) j).Valid fs ∧
      (fs.inodePlace num).1 = (Record.inodeTable (group .inode fs num) j).location fs := by
  obtain ⟨hvalid, hplace⟩ := h.inodePlace_eq hnum hbg
  exact ⟨_, hvalid, congrArg Prod.fst hplace⟩

/-- The place of an inode depends on the layout only. -/
lemma SameLayout.inodePlace {fs' : Ext4} (h : SameLayout fs fs') (hlayout : Layout fs) (hnum : num ≠ 0)
    (hbg : group .inode fs num < fs.blockGroupCount) : fs'.inodePlace num = fs.inodePlace num := by
  have hgroup : group .inode fs' num = group .inode fs num := by
    rw [group, group, h.perGroup]
  have hoffset : fs'.tableOffset num = fs.tableOffset num := by
    rw [tableOffset, tableOffset, index, index, h.perGroup, h.inodeSize]
  obtain ⟨hvalid, hplace⟩ := hlayout.inodePlace_eq hnum hbg
  obtain ⟨-, hplace'⟩ := (hlayout.of_same h).inodePlace_eq hnum
    (by rw [hgroup, h.blockGroupCount]; exact hbg)
  rw [hplace', hplace, hgroup, hoffset, h.blockSize, h.location hvalid]

/-- The block of an inode is neither a descriptor nor a bitmap. -/
lemma Layout.inodePlace_free (h : Layout fs) (hnum : num ≠ 0)
    (hbg : group .inode fs num < fs.blockGroupCount) :
    fs.InDevice (fs.inodePlace num).1 ∧ ¬ fs.IsMetadata (fs.inodePlace num).1 := by
  obtain ⟨j, hvalid, hplace⟩ := h.inodePlace_spec hnum hbg
  rw [hplace]
  refine ⟨h.inDevice _ hvalid, ?_⟩
  rintro ⟨x, hcounts, hx, hloc⟩
  rw [h.distinct _ _ hx hvalid hloc] at hcounts
  exact hcounts

end Ext4

namespace OpenPath

variable {s s' : Files OpenWorld}

/-! ## Lookups -/

/-- Calls of `malloc` give no number to an inode. -/
lemma nextInodeNum_mallocTemporaries (s : Files OpenWorld) (n : ℕ) :
    (mallocTemporaries s n).1.world.nextInodeNum = s.world.nextInodeNum := by
  induction n generalizing s with
  | zero => rfl
  | succ n ih =>
    rw [mallocTemporaries]
    rcases hcall : mallocTemporary s with ⟨s₁, _ | _⟩
    · obtain ⟨rfl, -⟩ := Prod.mk.inj hcall
      rfl
    · obtain ⟨rfl, -⟩ := Prod.mk.inj hcall
      exact ih _

/-- Nor does `vfs_parse_path`. -/
lemma nextInodeNum_vfsParsePath (s : Files OpenWorld) (path : CString) :
    (vfsParsePath s path).1.world.nextInodeNum = s.world.nextInodeNum := by
  have hcounter := nextInodeNum_mallocTemporaries s ((pathComponents path).length + 1)
  rw [vfsParsePath]
  generalize mallocTemporaries s _ = result at hcounter ⊢
  rcases result with ⟨s₁, _ | _⟩ <;> exact hcounter

/-- Nor does copying a string. -/
lemma nextInodeNum_duplicate (s : Files OpenWorld) (text : CString) :
    (duplicate s text).1.world.nextInodeNum = s.world.nextInodeNum := by
  rw [duplicate]
  rcases hcall : mallocTemporary s with ⟨s₁, _ | _⟩
  · obtain ⟨rfl, -⟩ := Prod.mk.inj hcall
    rfl
  · obtain ⟨rfl, -⟩ := Prod.mk.inj hcall
    rfl

/-- Nor does splitting a path. -/
lemma nextInodeNum_splitParent (s : Files OpenWorld) (components : List CString) :
    (splitParent s components).1.world.nextInodeNum = s.world.nextInodeNum := by
  have hcounter := nextInodeNum_duplicate s (parentPath components)
  rw [splitParent]
  generalize duplicate s (parentPath components) = result at hcounter ⊢
  rcases result with ⟨s₁, parent⟩
  dsimp only
  split_ifs
  · exact hcounter
  · exact (nextInodeNum_duplicate s₁ _).trans hcounter

/-- An inode of the VFS has the type that it is created with. -/
lemma vfsCreateInode_type {type : FileType} {permissions i : ℕ}
    (hcall : vfsCreateInode s type permissions = (s', i + 1)) : (s'.inodes (i + 1)).type = type := by
  rw [vfsCreateInode] at hcall
  rcases mallocBlock_cases s true with hblock | hblock
  · rw [hblock] at hcall
    simp at hcall
  · rw [hblock] at hcall
    obtain ⟨rfl, hi⟩ := Prod.mk.inj hcall
    rw [← hi]
    dsimp only
    rw [Function.update_self]

/-- An inode of ext4 has the type that it is created with. -/
lemma ext4NewInode_type {type : FileType} {permissions i : ℕ} {found found' : Found}
    (hcall : ext4NewInode s type permissions found = (s', some (i, found'))) :
    (s'.inodes i).type = type := by
  rw [ext4NewInode] at hcall
  rcases hinode : vfsCreateInode s type permissions with ⟨s₁, _ | i₁⟩
  · simp [hinode] at hcall
  · simp only [hinode] at hcall
    rcases mallocBlock_cases s₁ true with hops | hops
    · simp [hops] at hcall
    · simp only [hops] at hcall
      obtain ⟨rfl, hsome⟩ := Prod.mk.inj hcall
      obtain ⟨rfl, -⟩ := Prod.mk.inj (Option.some.inj hsome)
      show (s₁.inodes (i₁ + 1)).type = type
      exact vfsCreateInode_type hinode

/-- **Whatever is not the root directory is a file.** -/
lemma ext4GetInode_type {path : CString} {i : ℕ} {found : Found} (hpath : path ≠ [47])
    (hcall : ext4GetInode s path = (s', some (i, found))) : (s'.inodes i).type = .regular := by
  rw [ext4GetInode] at hcall
  by_cases hmounted : s.world.ext4Mounted = false
  · simp [hmounted] at hcall
  rw [if_neg hmounted] at hcall
  rcases hmalloc : mallocTemporary s with ⟨s₁, _ | _⟩
  · simp [hmalloc] at hcall
  · simp only [hmalloc, ext4FindInode] at hcall
    rcases hmalloc' : mallocTemporary s₁ with ⟨s₂, _ | _⟩
    · simp [hmalloc'] at hcall
    · simp only [hmalloc', if_neg (vfsNormalizePath_ne hpath)] at hcall
      exact ext4NewInode_type hcall

end OpenPath

namespace Volume

open ByteBuffer Ext4

variable {v v' : Volume} {path : CString} {n num : ℕ}

/-! ## Operations on the device -/

/-- Calls of `malloc` change no count. -/
lemma inBalance_advance (h : InBalance v.fs n) (m : ℕ) : InBalance (v.advance m).fs n :=
  h.of_same (sameFree_withMallocs v.fs _)

/-- `ext4_write_inode` of an inode of the file system. -/
lemma ext4WriteInode_spec (h : InBalance v.fs n) (hnum : num ≠ 0)
    (hbg : group .inode v.fs num < v.fs.blockGroupCount) (inode : ℕ → BitVec 8) :
    (v.ext4WriteInode num inode).files = v.files ∧ InBalance (v.ext4WriteInode num inode).fs n := by
  have h' := inBalance_advance h 1
  rw [ext4WriteInode]
  rcases malloc_cases v with hcall | hcall
  · rw [hcall]
    exact ⟨rfl, h'⟩
  · rw [hcall]
    obtain ⟨hin, hmetadata⟩ := h'.layout.inodePlace_free hnum hbg
    exact ⟨rfl, h'.of_same (h'.layout.sameFree_ext4WriteBlock hin hmetadata _)⟩

/-- `ext4_write_inode` calls `malloc` once. -/
lemma mallocs_ext4WriteInode (v : Volume) (n : ℕ) (x : ℕ → BitVec 8) :
    (v.ext4WriteInode n x).fs.mallocs = v.fs.mallocs + 1 ∧
      (v.ext4WriteInode n x).fs.memory = v.fs.memory := by
  rw [ext4WriteInode]
  rcases malloc_cases v with hcall | hcall <;> rw [hcall] <;> exact ⟨rfl, rfl⟩

/-! ## Creating a directory -/

/-- **Steps 5 and 6 of `ext4_mkdir`** fail without memory for the inode or for the first block. -/
lemma mkdirWrite_eq_zero_iff {parentNum permissions dataBlock : ℕ} (hnum : num ≠ 0) :
    (v.mkdirWrite parentNum permissions num dataBlock).2 = 0 ↔
      v.fs.memory v.fs.mallocs = false ∨ v.fs.memory (v.fs.mallocs + 2) = false := by
  rw [mkdirWrite]
  cases hrecord : v.fs.memory v.fs.mallocs with
  | false =>
    rw [malloc_of_false hrecord]
    exact iff_of_true rfl (.inl rfl)
  | true =>
    rw [malloc_of_true hrecord]
    dsimp only
    obtain ⟨hmallocs, hsame⟩ := mallocs_ext4WriteInode (v.advance 1) num
      ((v.advance 1).fs.newDirInode permissions dataBlock)
    generalize (v.advance 1).ext4WriteInode num _ = w at hmallocs hsame ⊢
    have hbuffer : w.fs.memory w.fs.mallocs = v.fs.memory (v.fs.mallocs + 2) := by
      rw [hsame, hmallocs]
      rfl
    cases hmemory : v.fs.memory (v.fs.mallocs + 2) with
    | false =>
      rw [malloc_of_false (hbuffer.trans hmemory)]
      exact iff_of_true rfl (.inr rfl)
    | true =>
      rw [malloc_of_true (hbuffer.trans hmemory)]
      exact iff_of_false hnum (by decide)

/-- **Steps 3 and 4 of `ext4_mkdir`** take the inode and the block that are offered. What is offered of
blocks does not depend on the inode. -/
lemma mkdirNew_eq (h : Layout v.fs) (parentNum permissions : ℕ) :
    v.mkdirNew parentNum permissions =
      match v.fs.offers .inode v.fs.mallocs with
      | none =>
        ({ v with fs := v.fs.withMallocs (v.fs.mallocs + v.fs.buffersUsed .inode v.fs.mallocs) }, 0)
      | some (bg, i) =>
        match v.fs.offers .block v.fs.afterInode with
        | none =>
          ({ v with
              fs := ((v.fs.taken .inode bg i).withMallocs (v.fs.afterInode +
                v.fs.buffersUsed .block v.fs.afterInode)).ext4FreeInode (Resource.inode.number v.fs bg i) },
            0)
        | some (bg', i') =>
          { v with
            fs := ((v.fs.taken .inode bg i).taken .block bg' i').withMallocs
              v.fs.afterBlock }.mkdirWrite parentNum permissions (Resource.inode.number v.fs bg i)
                (Resource.block.number v.fs bg' i') := by
  rw [mkdirNew, ext4AllocateInode, allocate_eq]
  cases hinode : v.fs.offers .inode v.fs.mallocs with
  | none => rfl
  | some p =>
    obtain ⟨bg, i⟩ := p
    have htakes := takes_of_offers hinode
    have hlayout := (h.taken_spec htakes.group .inode i).1.trans
      (withMallocs_spec (v.fs.taken .inode bg i) v.fs.afterInode).1
    have hagrees := h.agrees_taken (show Resource.block ≠ .inode by decide) htakes.group i
    obtain ⟨hwanted, hused, hoffers⟩ :=
      (hagrees.trans (agrees_withMallocs .block _ v.fs.afterInode)).offers_eq h
    obtain ⟨num, hnum⟩ := Nat.exists_eq_succ_of_ne_zero (htakes.number_ne_zero h)
    have hmallocs : ((v.fs.taken .inode bg i).withMallocs v.fs.afterInode).mallocs = v.fs.afterInode := rfl
    dsimp only
    rw [hnum]
    simp only [ext4AllocateBlock]
    rw [← afterInode, allocate_eq, hmallocs, hoffers, hwanted, hused]
    cases hblock : v.fs.offers .block v.fs.afterInode with
    | none => rfl
    | some q =>
      obtain ⟨bg', i'⟩ := q
      obtain ⟨dataBlock, hdata⟩ := Nat.exists_eq_succ_of_ne_zero ((takes_of_offers hblock).number_ne_zero h)
      dsimp only
      rw [hlayout.number, hdata]
      rfl

/-- **Steps 3 to 6 of `ext4_mkdir`** fail unless the file system offers what is needed. -/
lemma mkdirNew_eq_zero_iff (h : Layout v.fs) (parentNum permissions : ℕ) :
    (v.mkdirNew parentNum permissions).2 = 0 ↔ v.fs.offersDirectory = false := by
  rw [mkdirNew_eq h, offersDirectory]
  cases hinode : v.fs.offers .inode v.fs.mallocs with
  | none => exact iff_of_true rfl rfl
  | some p =>
    obtain ⟨bg, i⟩ := p
    cases hblock : v.fs.offers .block v.fs.afterInode with
    | none => exact iff_of_true rfl rfl
    | some q =>
      have hmemory : ((v.fs.taken .inode bg i).taken .block q.1 q.2).memory = v.fs.memory := rfl
      refine (mkdirWrite_eq_zero_iff ((takes_of_offers hinode).number_ne_zero h)).trans ?_
      simp only [Option.isSome_some, Bool.true_and, Bool.and_eq_false_iff]
      rfl

/-- Freeing a new directory takes its two numbers from the surplus. -/
lemma undoMkdir_spec (h : InBalance v.fs 2) (inodeNum dataBlock : ℕ) :
    InBalance (v.undoMkdir inodeNum dataBlock).fs 0 :=
  (h.release .block dataBlock).release .inode inodeNum

/-- Steps 5 and 6 of `ext4_mkdir`, if they fail. -/
lemma mkdirWrite_spec (h : InBalance v.fs 2) (hnum : num ≠ 0)
    (hbg : group .inode v.fs num < v.fs.blockGroupCount) {parentNum permissions dataBlock : ℕ}
    (hzero : (v.mkdirWrite parentNum permissions num dataBlock).2 = 0) :
    (v.mkdirWrite parentNum permissions num dataBlock).1.files = v.files ∧
      InBalance (v.mkdirWrite parentNum permissions num dataBlock).1.fs 0 := by
  have h₁ := inBalance_advance h 1
  rw [mkdirWrite] at hzero ⊢
  rcases malloc_cases v with hcall | hcall
  · rw [hcall]
    exact ⟨rfl, undoMkdir_spec h₁ num dataBlock⟩
  · simp only [hcall] at hzero ⊢
    obtain ⟨hfiles, h₂⟩ := ext4WriteInode_spec h₁ hnum hbg
      ((v.advance 1).fs.newDirInode permissions dataBlock)
    generalize (v.advance 1).ext4WriteInode num _ = v₂ at hzero hfiles h₂ ⊢
    rcases malloc_cases v₂ with hcall' | hcall'
    · rw [hcall']
      exact ⟨hfiles, undoMkdir_spec (inBalance_advance h₂ 1) num dataBlock⟩
    · rw [hcall'] at hzero
      exact absurd hzero hnum

/-- Steps 3 to 6 of `ext4_mkdir`, if they fail. -/
lemma mkdirNew_spec (h : InBalance v.fs 2) {parentNum permissions : ℕ}
    (hzero : (v.mkdirNew parentNum permissions).2 = 0) :
    (v.mkdirNew parentNum permissions).1.files = v.files ∧
      InBalance (v.mkdirNew parentNum permissions).1.fs 0 := by
  have h₁ := h.allocate .inode
  have hspec := h.layout.allocate_spec .inode
  simp only [mkdirNew, ext4AllocateInode, ext4AllocateBlock] at hzero ⊢
  generalize allocate .inode v.fs = result at h₁ hspec hzero ⊢
  rcases result with ⟨fs₁, _ | num⟩
  · exact ⟨rfl, h₁.mono (by omega)⟩
  · simp only [] at h₁ hspec hzero ⊢
    have h₂ := h₁.allocate .block
    have hspec₂ := h₁.layout.allocate_spec .block
    generalize allocate .block fs₁ = result at h₂ hspec₂ hzero ⊢
    rcases result with ⟨fs₂, _ | dataBlock⟩
    · exact ⟨rfl, (h₂.release .inode (num + 1)).mono (by omega)⟩
    · simp only [] at h₂ hspec₂ hzero ⊢
      obtain ⟨hlayout, ⟨hfail, -⟩ | ⟨bg, i, hbg, hi, -, hnum, -⟩⟩ := hspec
      · exact absurd hfail (by omega)
      · -- the number of the new inode is in a group
        have hgroup : group .inode fs₂ (num + 1) < fs₂.blockGroupCount := by
          have hper : Resource.inode.perGroup fs₂ = Resource.inode.perGroup v.fs :=
            (hspec₂.1.perGroup .inode).trans (hlayout.perGroup .inode)
          have hi₂ : i < Resource.inode.perGroup fs₂ := by rw [hper]; exact hi
          have hnum' : num + 1 = bg * Resource.inode.perGroup fs₂ + i + 1 := by rw [hper]; exact hnum
          rw [hnum', (group_index_number bg hi₂).1, hspec₂.1.blockGroupCount, hlayout.blockGroupCount]
          exact hbg
        exact mkdirWrite_spec (v := { v with fs := fs₂ }) h₂ (by omega) hgroup hzero

/-! ## Lookups -/

/-- Nothing but inodes of the VFS has changed. -/
structure Looks (v v' : Volume) : Prop where
  fs : v'.fs = v.fs
  buffers : v'.buffers = v.buffers
  counter : v'.files.world.nextInodeNum < 2 ^ 32

/-- One lookup after the other. -/
lemma Looks.trans {v'' : Volume} (h : Looks v v') (h' : Looks v' v'') : Looks v v'' :=
  ⟨h'.fs.trans h.fs, h'.buffers.trans h.buffers, h'.counter⟩

/-- Destroying an inode of the VFS is no change that counts. -/
lemma Looks.vfsDestroyInode (h : Looks v v') (inode : ℕ) : Looks v (v'.vfsDestroyInode inode) := by
  refine ⟨h.fs, h.buffers, ?_⟩
  show (v'.files.vfsDestroyInode inode).world.nextInodeNum < 2 ^ 32
  rw [OpenPath.world_vfsDestroyInode]
  exact h.counter

/-- `ext4_get_inode` gives the inode that it creates the next number. -/
lemma ext4GetInode_spec (hlt : v.files.world.nextInodeNum < 2 ^ 32) (p : Option CString) :
    Looks v (v.ext4GetInode p).1 ∧
      ∀ i, (v.ext4GetInode p).2 = some i →
        (v.ext4GetInode p).1.inodeNum i = v.files.world.nextInodeNum := by
  cases p with
  | none => exact ⟨⟨rfl, rfl, hlt⟩, by simp [ext4GetInode]⟩
  | some path =>
    obtain ⟨hadvances, hnumber⟩ := OpenPath.ext4GetInode_number hlt path
    rw [OpenPath.Advances] at hadvances
    rw [ext4GetInode]
    generalize OpenPath.ext4GetInode v.files path = result at hadvances hnumber ⊢
    rcases result with ⟨files, _ | ⟨i, found⟩⟩
    · refine ⟨⟨rfl, rfl, ?_⟩, by simp⟩
      rw [hadvances]
      exact Nat.mod_lt _ (by decide)
    · refine ⟨⟨rfl, rfl, ?_⟩, fun j hj => ?_⟩
      · rw [hadvances]
        exact Nat.mod_lt _ (by decide)
      · obtain rfl := Option.some.inj hj
        exact (hnumber i found rfl).1

/-- **The parent directory gets the next number of the VFS.** -/
lemma findParent_spec (hlt : v.files.world.nextInodeNum < 2 ^ 32) (path : CString) (root : Bool) :
    Looks v (v.findParent path root).1 ∧
      ∀ parent name, (v.findParent path root).2 = some (parent, name) →
        (v.findParent path root).1.inodeNum parent = v.files.world.nextInodeNum := by
  have hnone : ∀ files : Files OpenWorld, files.world.nextInodeNum = v.files.world.nextInodeNum →
      Looks v { v with files := files } := by
    intro files hfiles
    refine ⟨rfl, rfl, ?_⟩
    show files.world.nextInodeNum < 2 ^ 32
    rw [hfiles]
    exact hlt
  rw [findParent]
  split_ifs
  · exact ⟨⟨rfl, rfl, hlt⟩, by simp⟩
  have hparse := OpenPath.nextInodeNum_vfsParsePath v.files path
  generalize OpenPath.vfsParsePath v.files path = result at hparse ⊢
  rcases result with ⟨files, _ | components⟩
  · exact ⟨hnone files hparse, by simp⟩
  dsimp only
  split_ifs
  · exact ⟨hnone files hparse, by simp⟩
  have hsplit := (OpenPath.nextInodeNum_splitParent files components).trans hparse
  generalize OpenPath.splitParent files components = result at hsplit ⊢
  rcases result with ⟨files₁, _ | ⟨parent, name⟩⟩
  · exact ⟨hnone files₁ hsplit, by simp⟩
  dsimp only at hsplit ⊢
  obtain ⟨hlooks, hnumber⟩ := ext4GetInode_spec (v := { v with files := files₁ })
    (hnone files₁ hsplit).counter parent
  generalize ext4GetInode _ parent = result at hlooks hnumber ⊢
  rcases result with ⟨v₁, _ | inode⟩
  · exact ⟨(hnone files₁ hsplit).trans hlooks, by simp⟩
  · refine ⟨(hnone files₁ hsplit).trans hlooks, fun i name' hi => ?_⟩
    obtain ⟨rfl, -⟩ := Prod.mk.inj (Option.some.inj hi)
    exact (hnumber inode rfl).trans hsplit

/-! ## Removing a directory -/

/-- With `root`, no parent is found of `"/"`. -/
lemma findParent_ne {found : ℕ × Option CString} (hcall : v.findParent path true = (v', some found)) :
    path ≠ [47] := by
  intro hroot
  rw [findParent] at hcall
  by_cases hmounted : v.files.world.ext4Mounted = false
  · simp [hmounted] at hcall
  rw [if_neg hmounted] at hcall
  generalize OpenPath.vfsParsePath v.files path = result at hcall
  rcases result with ⟨files, _ | components⟩
  · simp at hcall
  · dsimp only at hcall
    rw [if_pos (.inr ⟨rfl, hroot⟩)] at hcall
    simp at hcall

/-- **`ext4_rmdir` changes nothing on the device**: the target is never a directory. -/
lemma ext4Rmdir_spec (hlt : v.files.world.nextInodeNum < 2 ^ 32) (path : CString) :
    Looks v (v.ext4Rmdir path).1 := by
  obtain ⟨hlooks, -⟩ := findParent_spec hlt path true
  rw [ext4Rmdir]
  rcases hparent : v.findParent path true with ⟨v₁, _ | ⟨parent, name⟩⟩
  · rw [hparent] at hlooks
    exact hlooks
  rw [hparent] at hlooks
  have hpath := findParent_ne hparent
  obtain ⟨hlooks₂, -⟩ := ext4GetInode_spec hlooks.counter (some path)
  dsimp only
  rcases htarget : v₁.ext4GetInode (some path) with ⟨v₂, _ | target⟩
  · rw [htarget] at hlooks₂
    exact (hlooks.trans hlooks₂).vfsDestroyInode parent
  rw [htarget] at hlooks₂
  have htype : (v₂.files.inodes target).type = .regular := by
    rw [ext4GetInode] at htarget
    rcases hget : OpenPath.ext4GetInode v₁.files path with ⟨files, _ | ⟨i, found⟩⟩
    · simp [hget] at htarget
    · rw [hget] at htarget
      obtain ⟨rfl, hi⟩ := Prod.mk.inj htarget
      obtain rfl := Option.some.inj hi
      exact OpenPath.ext4GetInode_type hpath hget
  dsimp only
  rw [if_pos (by rw [htype]; decide)]
  exact ((hlooks.trans hlooks₂).vfsDestroyInode target).vfsDestroyInode parent

/-! ## Removing a file -/

/-- Freeing blocks, with room for all of them. -/
lemma foldl_ext4FreeBlock (blocks : List ℕ) {fs : Ext4} (h : InBalance fs (n + blocks.length)) :
    InBalance (blocks.foldl ext4FreeBlock fs) n ∧ SameLayout fs (blocks.foldl ext4FreeBlock fs) := by
  induction blocks generalizing fs with
  | nil => exact ⟨h, SameLayout.refl fs⟩
  | cons block blocks ih =>
    have hlayout := (h.layout.release_spec .block block).1
    have h' : InBalance (fs.ext4FreeBlock block) (n + blocks.length) := by
      apply InBalance.release
      exact h.mono (by rw [List.length_cons]; omega)
    obtain ⟨hrest, hsame⟩ := ih h'
    exact ⟨hrest, hlayout.trans hsame⟩

/-- Step 5 of `ext4_remove`. -/
lemma freeFile_spec (h : InBalance v.fs 13) (targetNum : ℕ) :
    (v.freeFile targetNum).files = v.files ∧ InBalance (v.freeFile targetNum).fs 0 ∧
      SameLayout v.fs (v.freeFile targetNum).fs := by
  rw [freeFile]
  rcases ext4ReadInode_cases v targetNum with ⟨m, hcall⟩ | hcall
  · rw [hcall]
    exact ⟨rfl, (inBalance_advance h m).mono (by omega), (withMallocs_spec v.fs _).1⟩
  · rw [hcall]
    dsimp only
    generalize hblocks : ((List.range 12).map (inodeBlock _)).filter (· ≠ 0) = blocks
    have hlength : blocks.length ≤ 12 := by
      rw [← hblocks]
      exact (List.length_filter_le _ _).trans (by simp)
    obtain ⟨hfreed, hsame⟩ := foldl_ext4FreeBlock blocks (n := 1)
      ((inBalance_advance h 2).mono (show 1 + blocks.length ≤ 13 by omega))
    refine ⟨rfl, hfreed.release .inode targetNum, ?_⟩
    exact ((withMallocs_spec v.fs _).1.trans hsame).trans
      (hfreed.layout.release_spec .inode targetNum).1

/-- Steps 4 to 6 of `ext4_remove`, for an entry in a block that does not count what is free. -/
lemma removeEntry_spec (h : InBalance v.fs 13) (hnum : num ≠ 0)
    (hbg : group .inode v.fs num < v.fs.blockGroupCount) {entry : Entry}
    (hin : v.fs.InDevice (inodeBlock entry.parent 0))
    (hmetadata : ¬ v.fs.IsMetadata (inodeBlock entry.parent 0)) :
    (v.removeEntry num entry).files = v.files ∧ InBalance (v.removeEntry num entry).fs 0 := by
  have hwrite := h.layout.sameFree_ext4WriteBlock hin hmetadata (set32 entry.block entry.offset 0)
  rw [removeEntry]
  dsimp only
  generalize v.fs.ext4WriteBlock (inodeBlock entry.parent 0) (set32 entry.block entry.offset 0) = fs₁
    at hwrite ⊢
  have h₁ : InBalance { v with fs := fs₁ }.fs 13 := h.of_same hwrite
  obtain ⟨hfiles₂, h₂, hlayout₂⟩ := freeFile_spec h₁ (get32 entry.block entry.offset)
  generalize freeFile _ (get32 entry.block entry.offset) = v₂ at hfiles₂ h₂ hlayout₂ ⊢
  have hbg₂ : group .inode v₂.fs num < v₂.fs.blockGroupCount := by
    have hlayout := hwrite.layout.trans hlayout₂
    rw [group, hlayout.perGroup, hlayout.blockGroupCount]
    exact hbg
  obtain ⟨hfiles₃, h₃⟩ := ext4WriteInode_spec h₂ hnum hbg₂ (touchInode entry.parent)
  refine ⟨hfiles₃.trans hfiles₂, ?_⟩
  exact h₃.of_same h₃.layout.sameFree_ext4WriteSuperBlock

/-- What `ext4_remove` finds is read from the inode with the given number. -/
lemma findInParent_cases (v : Volume) (num : ℕ) (name : ℕ → BitVec 8) :
    ∃ m found, v.findInParent num name = (v.advance m, found) ∧
      ∀ entry, found = some entry →
        entry.parent = v.fs.inodeRecord (v.buffers (v.fs.mallocs + 2)) num := by
  rw [findInParent]
  rcases malloc_cases v with hcall | hcall
  · exact ⟨1, none, by rw [hcall], by simp⟩
  simp only [hcall]
  rcases ext4ReadInode_cases (v.advance 1) num with ⟨m, hread⟩ | hread
  · refine ⟨1 + m, none, ?_, by simp⟩
    rw [hread]
    simp only [advance, withMallocs, Nat.add_assoc]
  · simp only [hread]
    refine ⟨3, _, rfl, fun entry hentry => ?_⟩
    obtain ⟨offset, -, rfl⟩ := Option.map_eq_some_iff.1 hentry
    rfl

/-! ## Runs -/

/-- Calls of the directory operations. -/
inductive Call where
  | mkdir (path : CString) (permissions : ℕ)
  | rmdir (path : CString)
  | remove (path : CString)

/-- The state after a call, if it returns. -/
def call (v : Volume) : Call → Option Volume
  | .mkdir path permissions => (v.ext4Mkdir path permissions).map Prod.fst
  | .rmdir path => some (v.ext4Rmdir path).1
  | .remove path => some (v.ext4Remove path).1

/-- `ext4_mkdir` gets to its step 7: the parent directory is found, and there are an inode, a block and
memory for the new one. -/
def createsDirectory (v : Volume) (path : CString) : Bool := v.findsParent path && v.fs.offersDirectory

/-- `ext4_remove` finds an entry: the parent directory is found, there is memory for reading its inode and
its first block, and an entry matches. -/
def removesEntry (v : Volume) (path : CString) : Bool :=
  v.findsParent path && v.hasMemory 3 &&
    (findEntry v.fs.blockSize
      (v.readDirBlock (v.buffers v.fs.mallocs) ((v.advance 1).nextRecord v.files.world.nextInodeNum))
      (v.nameBytes (v.parentName path)) v.fs.blockSize 0).isSome

/-- `PATH_MAX`. -/
def pathMax : ℕ := 256

/-- The parent path fits its buffer. -/
def FitsBuffer (path : CString) : Prop := (parentPath (pathComponents path)).length < pathMax

/-- No group counts so many that `n` more do not fit the lower half of the count. -/
def HasRoom (fs : Ext4) (n : ℕ) : Prop :=
  ∀ r bg, bg < fs.blockGroupCount → fs.groupCount r bg + n < 2 ^ 16

/-- The first block of the inode on the device whose number the VFS gives next. -/
def nextInodeBlock (v : Volume) : ℕ :=
  inodeBlock (v.fs.inodeRecord (v.buffers (v.fs.mallocs + 2)) v.files.world.nextInodeNum) 0

/-- The number that the VFS gives next is that of an inode of the file system. Its first block is on the
device, and neither a descriptor nor a bitmap. -/
structure SafeParent (v : Volume) : Prop where
  ne_zero : v.files.world.nextInodeNum ≠ 0
  group : group .inode v.fs v.files.world.nextInodeNum < v.fs.blockGroupCount
  inDevice : v.fs.InDevice v.nextInodeBlock
  metadata : ¬ v.fs.IsMetadata v.nextInodeBlock

/-- Calls that keep the counts in step. `ext4_mkdir` fails before its step 7. If `ext4_remove` finds an
entry, then in a directory of the file system. Of the blocks and inodes that are freed, none brings the
count of a group to `2 ^ 16`. Parent paths fit their buffers. -/
def Allowed (v : Volume) : Call → Prop
  | .mkdir path _ => FitsBuffer path ∧ v.createsDirectory path = false ∧ HasRoom v.fs 2
  | .rmdir path => FitsBuffer path
  | .remove path => FitsBuffer path ∧ (v.removesEntry path = true → HasRoom v.fs 13 ∧ SafeParent v)

/-- The invariant of a run. -/
structure Inv (v : Volume) : Prop where
  layout : Layout v.fs
  balanced : ∀ r, Balanced v.fs r
  counter : v.files.world.nextInodeNum < 2 ^ 32

namespace Inv

/-- A lookup keeps the invariant. -/
lemma of_looks (h : Inv v) (hlooks : Looks v v') : Inv v' := by
  refine ⟨?_, fun r => ?_, hlooks.counter⟩
  · rw [hlooks.fs]
    exact h.layout
  · rw [hlooks.fs]
    exact h.balanced r

/-- So do calls of `malloc`. -/
lemma advance (h : Inv v) (m : ℕ) : Inv (v.advance m) := by
  have hsame := sameFree_withMallocs v.fs (v.fs.mallocs + m)
  exact ⟨h.layout.of_same hsame.layout, fun r => (h.balanced r).of_same h.layout hsame, h.counter⟩

/-- And so does destroying an inode of the VFS. -/
lemma vfsDestroyInode (h : Inv v) (inode : ℕ) : Inv (v.vfsDestroyInode inode) := by
  refine ⟨h.layout, h.balanced, ?_⟩
  show (v.files.vfsDestroyInode inode).world.nextInodeNum < 2 ^ 32
  rw [OpenPath.world_vfsDestroyInode]
  exact h.counter

/-- **A call of `ext4_mkdir` that fails before its step 7 keeps the counts in step.** -/
lemma ext4Mkdir (h : Inv v) (permissions : ℕ) (hfails : v.createsDirectory path = false)
    (hroom : HasRoom v.fs 2) : ∃ v' result, v.ext4Mkdir path permissions = some (v', result) ∧ Inv v' := by
  obtain ⟨hlooks, -⟩ := findParent_spec h.counter path true
  rw [createsDirectory] at hfails
  rw [Volume.ext4Mkdir]
  cases hfinds : v.findsParent path with
  | false =>
    have hnone := findParent_of_not hfinds true
    generalize v.findParent path true = result at hlooks hnone ⊢
    obtain ⟨v₁, rfl⟩ : ∃ v₁, result = (v₁, none) := ⟨result.1, Prod.ext rfl hnone⟩
    exact ⟨v₁, -1, rfl, h.of_looks hlooks⟩
  | true =>
    obtain ⟨v₁, hparent, hfound⟩ := findParent_of_finds hfinds true
    rw [hparent] at hlooks ⊢
    rw [hfinds, Bool.true_and, ← hfound.fs] at hfails
    dsimp only at hlooks ⊢
    have hbalance : InBalance v₁.fs 2 := by
      rw [hfound.fs]
      exact ⟨h.layout, h.balanced, hroom⟩
    have hzero : (v₁.mkdirNew (v₁.inodeNum (v.parentInode path)) permissions).2 = 0 :=
      (mkdirNew_eq_zero_iff hbalance.layout _ _).2 hfails
    obtain ⟨hfiles, hbalance'⟩ := mkdirNew_spec hbalance hzero
    generalize v₁.mkdirNew (v₁.inodeNum (v.parentInode path)) permissions = result
      at hzero hfiles hbalance' ⊢
    rcases result with ⟨v₂, num⟩
    obtain rfl : num = 0 := hzero
    dsimp only at hfiles hbalance'
    have hinv : Inv v₂ := ⟨hbalance'.layout, hbalance'.balanced, by rw [hfiles]; exact hlooks.counter⟩
    exact ⟨_, -1, rfl, hinv.vfsDestroyInode (v.parentInode path)⟩

/-- `ext4_remove` looks for the entry in the inode with the next number. -/
lemma isSome_findInParent (hfound : ParentFound v v' path) :
    (v'.findInParent (v'.inodeNum (v.parentInode path)) (v'.nameBytes (v.parentName path))).2.isSome =
      (v.hasMemory 3 && (findEntry v.fs.blockSize
        (v.readDirBlock (v.buffers v.fs.mallocs) ((v.advance 1).nextRecord v.files.world.nextInodeNum))
        (v.nameBytes (v.parentName path)) v.fs.blockSize 0).isSome) := by
  obtain ⟨files, rfl⟩ : ∃ files, v' = { v with files := files } :=
    ⟨v'.files, by rw [← hfound.fs, ← hfound.buffers, ← hfound.heap]⟩
  have hnum : inodeNum { v with files := files } (v.parentInode path) = v.files.world.nextInodeNum :=
    hfound.inode.number
  rcases findInParent_memory { v with files := files } (v.files.world.nextInodeNum)
      (nameBytes { v with files := files } (v.parentName path)) with ⟨hmemory, m, hcall⟩ | ⟨hmemory, hcall⟩
  · have hmemory' : v.hasMemory 3 = false := hmemory
    rw [hnum, hcall, hmemory']
    rfl
  · have hmemory' : v.hasMemory 3 = true := hmemory
    rw [hnum, hcall, hmemory', Bool.true_and, Option.isSome_map]
    rfl

/-- **A call of `ext4_remove` that finds nothing, or an entry of a directory of the file system.** -/
lemma ext4Remove (h : Inv v) (hsafe : v.removesEntry path = true → HasRoom v.fs 13 ∧ SafeParent v) :
    Inv (v.ext4Remove path).1 := by
  obtain ⟨hlooks, hnumber⟩ := findParent_spec h.counter path false
  rw [removesEntry] at hsafe
  rw [Volume.ext4Remove]
  cases hfinds : v.findsParent path with
  | false =>
    have hnone := findParent_of_not hfinds false
    generalize v.findParent path false = result at hlooks hnone ⊢
    obtain ⟨v₁, rfl⟩ : ∃ v₁, result = (v₁, none) := ⟨result.1, Prod.ext rfl hnone⟩
    exact h.of_looks hlooks
  | true =>
    obtain ⟨v₁, hparent, hlookup⟩ := findParent_of_finds hfinds false
    rw [hfinds, Bool.true_and, ← isSome_findInParent hlookup] at hsafe
    rw [hparent] at hlooks hnumber ⊢
    dsimp only at hlooks hnumber ⊢
    have hnum := hnumber _ _ rfl
    obtain ⟨m, found, hfound, hentry⟩ := findInParent_cases v₁ (v₁.inodeNum (v.parentInode path))
      (v₁.nameBytes (v.parentName path))
    rw [hfound] at hsafe ⊢
    cases found with
    | none => exact ((h.of_looks hlooks).advance m).vfsDestroyInode (v.parentInode path)
    | some entry =>
      obtain ⟨hroom, hsafe'⟩ := hsafe rfl
      have hbalance : InBalance (v₁.advance m).fs 13 := by
        apply inBalance_advance
        rw [hlooks.fs]
        exact ⟨h.layout, h.balanced, hroom⟩
      have hlayout : SameLayout v.fs (v₁.advance m).fs := by
        rw [← hlooks.fs]
        exact (withMallocs_spec v₁.fs _).1
      -- the entry is in the first block of the inode with the next number
      have hblock : inodeBlock entry.parent 0 = v.nextInodeBlock := by
        rw [hentry entry rfl, hnum, hlooks.fs, hlooks.buffers]
        rfl
      have hgroup : Ext4.group .inode (v₁.advance m).fs (v₁.inodeNum (v.parentInode path)) <
          (v₁.advance m).fs.blockGroupCount := by
        rw [hnum, Ext4.group, hlayout.perGroup, hlayout.blockGroupCount]
        exact hsafe'.group
      have hin : (v₁.advance m).fs.InDevice (inodeBlock entry.parent 0) := by
        rw [hblock, InDevice, hlayout.blockSize]
        exact hsafe'.inDevice
      have hmetadata : ¬ (v₁.advance m).fs.IsMetadata (inodeBlock entry.parent 0) := by
        rw [hblock]
        exact fun hmeta => hsafe'.metadata (hlayout.isMetadata hmeta)
      obtain ⟨hfiles, hbalance'⟩ := removeEntry_spec hbalance (by rw [hnum]; exact hsafe'.ne_zero) hgroup hin
        hmetadata
      have hinv : Inv ((v₁.advance m).removeEntry (v₁.inodeNum (v.parentInode path)) entry) :=
        ⟨hbalance'.layout, hbalance'.balanced, by rw [hfiles]; exact hlooks.counter⟩
      exact hinv.vfsDestroyInode (v.parentInode path)

/-- **Every allowed call returns and keeps the counts in step.** -/
lemma call (h : Inv v) {c : Call} (hc : Allowed v c) : ∃ v', v.call c = some v' ∧ Inv v' := by
  cases c with
  | mkdir path permissions =>
    obtain ⟨-, hfails, hroom⟩ := hc
    obtain ⟨v', result, hcall, h'⟩ := h.ext4Mkdir permissions hfails hroom
    refine ⟨v', ?_, h'⟩
    show (v.ext4Mkdir path permissions).map Prod.fst = some v'
    rw [hcall]
    rfl
  | rmdir path => exact ⟨_, rfl, h.of_looks (ext4Rmdir_spec h.counter path)⟩
  | remove path => exact ⟨_, rfl, h.ext4Remove hc.2⟩

end Inv

/-- **The counts agree after every call of a run of allowed calls.** -/
theorem balanced_of_run (v : Volume) (hlayout : Layout v.fs) (hbalanced : ∀ r, Balanced v.fs r)
    (hcounter : v.files.world.nextInodeNum < 2 ^ 32) (calls : List Call)
    (hallowed : Run.Follows call Allowed v calls) (before : List Call) (hbefore : before <+: calls) :
    ∃ v', Run.exec call v before = some v' ∧ ∀ r, Balanced v'.fs r := by
  obtain ⟨v', hexec, hinv⟩ := Run.exec_of_step (I := Inv) (fun s c hs hc => hs.call hc)
    ⟨hlayout, hbalanced, hcounter⟩ (hallowed.of_isPrefix hbefore)
  exact ⟨v', hexec, hinv.balanced⟩

/-- The small device with a directory and a file: inode 1 has block 6, in which inode 3 has the name
`"a"`, and inode 3 has block 7. -/
def fileDevice : ℕ → ℕ → BitVec 8
  | 2, 12 => 1
  | 2, 16 => 5
  | 4, 12 => 1
  | 4, 14 => 5
  | 6, 0 => 0x7F
  | 8, 0 => 0x07
  | 10, 40 => 6
  | 10, 296 => 7
  | 12, 0 => 3
  | 12, 5 => 4
  | 12, 6 => 1
  | 12, 8 => 97
  | sector, k => smallDevice sector k

/-- The device, mounted. -/
def fileVolume : Volume where
  files := (OpenPath.boot OpenPath.rootWorld).files
  fs := ext4ReadSuperBlock fileDevice fun _ => true
  buffers _ _ := 0
  heap _ _ := 0

/-- The device has one group. -/
lemma oneGroup_fileVolume : OneGroup fileVolume.fs := by
  refine ⟨by decide +kernel, by decide +kernel, by decide +kernel, fun r => ?_, by decide +kernel,
    by decide +kernel, by decide +kernel, by decide +kernel, by decide +kernel⟩
  cases r <;> decide +kernel

/-- Its counts agree. -/
lemma balanced_fileVolume (r : Resource) : Balanced fileVolume.fs r := by
  cases r <;> exact ⟨by decide +kernel, by decide +kernel⟩

/-- The first inode that the VFS creates has the number of the directory. -/
lemma safeParent_fileVolume : SafeParent fileVolume := by
  have hblock : fileVolume.nextInodeBlock = 6 := by decide +kernel
  refine ⟨by decide, by decide +kernel, ?_, ?_⟩
  · rw [hblock, InDevice, oneGroup_fileVolume.blockSize]
    decide
  · rintro ⟨x, -, hx, hloc⟩
    rcases oneGroup_fileVolume.location hx with ⟨-, h⟩ | ⟨-, h⟩ | ⟨-, h⟩ | ⟨-, h⟩ <;> omega

/-- The parent path of `/a` fits its buffer. -/
lemma fitsBuffer_file : FitsBuffer [47, 97] := by
  show (parentPath (pathComponents [47, 97])).length < pathMax
  decide

/-- Removing `/a` as a file and then as a directory are allowed calls. -/
lemma allowed_fileVolume : Run.Follows call Allowed fileVolume [.remove [47, 97], .rmdir [47, 97]] := by
  refine ⟨⟨fitsBuffer_file, fun _ => ⟨?_, safeParent_fileVolume⟩⟩, fun _ _ =>
    ⟨fitsBuffer_file, fun _ _ => trivial⟩⟩
  show ∀ r bg, bg < 1 → fileVolume.fs.groupCount r bg + 13 < 2 ^ 16
  intro r
  cases r <;> decide +kernel

/-- The file is removed, and its block and inode are free. -/
theorem balanced_of_run_fileVolume :
    (fileVolume.ext4Remove [47, 97]).2 = 0 ∧
      (∀ r, (fileVolume.ext4Remove [47, 97]).1.fs.superCount r = fileVolume.fs.superCount r + 1) ∧
      ∃ v', Run.exec call fileVolume [.remove [47, 97], .rmdir [47, 97]] = some v' ∧
        ∀ r, Balanced v'.fs r := by
  refine ⟨by decide +kernel, fun r => ?_, ?_⟩
  · cases r <;> decide +kernel
  · exact balanced_of_run fileVolume oneGroup_fileVolume.layout balanced_fileVolume (by decide) _
      allowed_fileVolume _ (List.prefix_refl _)

/-- After `mkdir("/a/b")`, which fails, the superblock counts one inode less than the group does. -/
theorem not_balanced_of_mkdir :
    ∃ v : Volume, Layout v.fs ∧ (∀ r, Balanced v.fs r) ∧ v.files.world.nextInodeNum < 2 ^ 32 ∧
      ∃ v', Run.exec call v [.mkdir [47, 97, 47, 98] 0x1ED] = some v' ∧ ¬ Balanced v'.fs .inode := by
  refine ⟨fileVolume, oneGroup_fileVolume.layout, balanced_fileVolume, by decide, ?_⟩
  have hcounts : (Run.exec call fileVolume [.mkdir [47, 97, 47, 98] 0x1ED]).map
      (fun v => (v.fs.superCount .inode, ∑ bg ∈ Finset.range v.fs.blockGroupCount,
        v.fs.groupCount .inode bg)) = some (3, 4) := by decide +kernel
  obtain ⟨v', hexec, hpair⟩ := Option.map_eq_some_iff.1 hcounts
  obtain ⟨hsuper, hgroups⟩ := Prod.mk.inj hpair
  refine ⟨v', hexec, fun hbalanced => ?_⟩
  have := hbalanced.groups
  omega

end Volume

end Jarvis
