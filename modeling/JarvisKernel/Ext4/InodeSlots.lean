import JarvisKernel.Ext4.Balance

set_option relaxedAutoImplicit false
set_option autoImplicit false

/-!
# Inodes in their tables

The place of an inode in its table is a multiple of `inode_size` of the superblock, but the record that is
copied to it and from it has the size of the structure, 166 bytes. With inodes of 128 bytes, the least size
that ext4 has, a record reaches into the next one, and the last record of a block behind the block. All
larger sizes are powers of two, from 256 on.

## Main definitions

* `Jarvis.Ext4.InodeLayout` — a layout with inodes of a size that ext4 allows.
* `Jarvis.Volume.InodeWritten` — what is wanted of writing an inode.

## Main results

* `Jarvis.Volume.inodeWritten_iff` — it holds unless inodes of 128 bytes are next to each other.
-/

namespace Jarvis

open ByteBuffer

namespace Ext4

variable {fs fs' : Ext4} {m n num p : ℕ}

/-! ## Places -/

/-- `super_block.inodes_count`. -/
def inodesCount (fs : Ext4) : ℕ := get32 fs.superBlock 0

/-- The size of an inode is a power of two from 128 to the block size, and every inode is in a group. -/
structure InodeLayout (fs : Ext4) : Prop where
  layout : Layout fs
  inodeSize : ∃ p, fs.inodeSize = 2 ^ p
  min : 128 ≤ fs.inodeSize
  max : fs.inodeSize ≤ fs.blockSize
  inodesCount_le : fs.inodesCount ≤ fs.blockGroupCount * fs.inodesPerGroup

/-- The number of an inode of the file system. -/
def HasInode (fs : Ext4) (num : ℕ) : Prop := 1 ≤ num ∧ num ≤ fs.inodesCount

namespace InodeLayout

/-- The group of an inode is one of the disk's. -/
lemma group_lt (h : InodeLayout fs) (hnum : fs.HasInode num) :
    group .inode fs num < fs.blockGroupCount := by
  have hcount := h.inodesCount_le
  obtain ⟨hone, hle⟩ := hnum
  exact (Nat.div_lt_iff_lt_mul (h.layout.perGroup_pos .inode)).2
    (show num - 1 < fs.blockGroupCount * fs.inodesPerGroup by omega)

/-- The block size is a multiple of the size of an inode. -/
lemma exists_slots (h : InodeLayout fs) : ∃ q, fs.blockSize = q * fs.inodeSize := by
  obtain ⟨p, hp⟩ := h.inodeSize
  obtain ⟨log, hlog⟩ := h.layout.blockSize
  have hsize : fs.blockSize = 2 ^ (10 + log) := by rw [hlog, Nat.pow_add]
  have hle := h.max
  rw [hp, hsize, Nat.pow_le_pow_iff_right (by omega)] at hle
  rw [hp, hsize]
  exact ⟨2 ^ (10 + log - p), by rw [← Nat.pow_add, Nat.sub_add_cancel hle]⟩

/-- A slot does not go beyond its block. -/
lemma slot_le (h : InodeLayout fs) (num : ℕ) :
    fs.tableOffset num % fs.blockSize + fs.inodeSize ≤ fs.blockSize := by
  obtain ⟨q, hq⟩ := h.exists_slots
  have hmin := h.min
  have hmax := h.max
  have hpos : 0 < q := by
    apply Nat.pos_of_ne_zero
    rintro rfl
    omega
  rw [tableOffset, hq, Nat.mul_mod_mul_right]
  have hlt : index .inode fs num % q + 1 ≤ q := Nat.mod_lt _ hpos
  calc index .inode fs num % q * fs.inodeSize + fs.inodeSize
      = (index .inode fs num % q + 1) * fs.inodeSize := by ring
    _ ≤ q * fs.inodeSize := Nat.mul_le_mul_right _ hlt

/-- The next size after 128 is 256. -/
lemma inodeSize_ge (h : InodeLayout fs) (hne : fs.inodeSize ≠ 128) : 256 ≤ fs.inodeSize := by
  obtain ⟨p, hp⟩ := h.inodeSize
  have hmin := h.min
  have hseven : 7 < p := by
    by_contra hle
    have hpow : 2 ^ p ≤ 2 ^ 7 := Nat.pow_le_pow_right (by omega) (by omega)
    omega
  rw [hp]
  calc 256 = 2 ^ 8 := rfl
    _ ≤ 2 ^ p := Nat.pow_le_pow_right (by omega) hseven

end InodeLayout

/-- The records of two inodes have no byte in common. -/
def Apart (fs : Ext4) (m n : ℕ) : Prop :=
  (fs.inodePlace m).1 ≠ (fs.inodePlace n).1 ∨
    (fs.inodePlace m).2 + inodeRecordSize ≤ (fs.inodePlace n).2 ∨
    (fs.inodePlace n).2 + inodeRecordSize ≤ (fs.inodePlace m).2

/-- The record of an inode is in its block. -/
def InBlock (fs : Ext4) (n : ℕ) : Prop := (fs.inodePlace n).2 + inodeRecordSize ≤ fs.blockSize

/-- Inodes that are larger than their records, or of which every group has one, or of which there is one. -/
def roomy (fs : Ext4) : Bool :=
  decide (fs.inodeSize ≠ 128 ∨ fs.inodesPerGroup = 1 ∨ fs.inodesCount = 1)

/-- The index of an inode that has no other one beside it in its group. -/
lemma InodeLayout.roomy_cases (h : InodeLayout fs) (hroomy : fs.roomy = true) (hn : fs.HasInode n) :
    256 ≤ fs.inodeSize ∨ index .inode fs n = 0 := by
  rw [roomy, decide_eq_true_iff] at hroomy
  rcases hroomy with hsize | hone | hone
  · exact .inl (h.inodeSize_ge hsize)
  · right
    show (n - 1) % fs.inodesPerGroup = 0
    rw [hone, Nat.mod_one]
  · right
    obtain ⟨hpos, hle⟩ := hn
    rw [index, show n - 1 = 0 by omega, Nat.zero_mod]

/-- If the inode table ends within its blocks, an inode record lies in one block. -/
lemma InodeLayout.inBlock (h : InodeLayout fs) (hroomy : fs.roomy = true) (hn : fs.HasInode n) :
    fs.InBlock n := by
  have hslot := h.slot_le n
  have hsize := h.layout.blockSize_ge
  rw [InBlock, (h.layout.inodePlace_eq (Nat.one_le_iff_ne_zero.1 hn.1) (h.group_lt hn)).2,
    inodeRecordSize]
  rcases h.roomy_cases hroomy hn with hlarge | hzero
  · omega
  · rw [tableOffset, hzero, Nat.zero_mul, Nat.zero_mod]
    omega

/-- **The records of different inodes are apart**, if the inodes are larger than the records or alone. -/
lemma InodeLayout.apart (h : InodeLayout fs) (hroomy : fs.roomy = true) (hm : fs.HasInode m)
    (hn : fs.HasInode n) (hne : m ≠ n) : fs.Apart m n := by
  obtain ⟨hvalid, hplace⟩ := h.layout.inodePlace_eq (Nat.one_le_iff_ne_zero.1 hm.1) (h.group_lt hm)
  obtain ⟨hvalid', hplace'⟩ := h.layout.inodePlace_eq (Nat.one_le_iff_ne_zero.1 hn.1) (h.group_lt hn)
  rw [Apart, hplace, hplace']
  by_contra hcommon
  push Not at hcommon
  obtain ⟨hblock, hleft, hright⟩ := hcommon
  obtain ⟨hgroup, hj⟩ := Record.inodeTable.inj (h.layout.distinct _ _ hvalid hvalid' hblock)
  -- the inodes have different indices in their group
  have hindex : index .inode fs m ≠ index .inode fs n := by
    intro heq
    apply hne
    have hm' := Nat.div_add_mod (m - 1) (Resource.inode.perGroup fs)
    have hn' := Nat.div_add_mod (n - 1) (Resource.inode.perGroup fs)
    rw [group, group] at hgroup
    rw [index, index] at heq
    rw [hgroup, heq, hn'] at hm'
    have hone := hm.1
    have hone' := hn.1
    omega
  have hsize : 256 ≤ fs.inodeSize := by
    rcases h.roomy_cases hroomy hm with hlarge | hzero
    · exact hlarge
    · rcases h.roomy_cases hroomy hn with hlarge | hzero'
      · exact hlarge
      · exact absurd (hzero.trans hzero'.symm) hindex
  -- so that their offsets differ by the size of an inode
  have hapart : fs.tableOffset m + fs.inodeSize ≤ fs.tableOffset n ∨
      fs.tableOffset n + fs.inodeSize ≤ fs.tableOffset m := by
    rw [tableOffset, tableOffset]
    rcases Nat.lt_or_gt_of_ne hindex with hlt | hlt
    · left
      calc index .inode fs m * fs.inodeSize + fs.inodeSize
          = (index .inode fs m + 1) * fs.inodeSize := by ring
        _ ≤ index .inode fs n * fs.inodeSize := Nat.mul_le_mul_right _ hlt
    · right
      calc index .inode fs n * fs.inodeSize + fs.inodeSize
          = (index .inode fs n + 1) * fs.inodeSize := by ring
        _ ≤ index .inode fs m * fs.inodeSize := Nat.mul_le_mul_right _ hlt
  have hm' := Nat.div_add_mod (fs.tableOffset m) fs.blockSize
  have hn' := Nat.div_add_mod (fs.tableOffset n) fs.blockSize
  rw [hj] at hm'
  rw [inodeRecordSize] at hleft hright
  omega

end Ext4

namespace Volume

open Ext4

variable {v : Volume} {m n : ℕ}

/-! ## Reading and writing -/

/-- What is wanted of writing an inode: it is read back, the other inodes are read as before, and the
bytes that are copied are those of the block of the inode. -/
structure InodeWritten (v : Volume) (n : ℕ) (x : ℕ → BitVec 8) : Prop where
  read : ∀ k < inodeRecordSize,
    ((v.ext4WriteInode n x).ext4ReadInode n).2.map (fun record => record k) = some (x k)
  kept : ∀ m, v.fs.HasInode m → m ≠ n → ∀ k < inodeRecordSize,
    ((v.ext4WriteInode n x).ext4ReadInode m).2.map (fun record => record k) =
      (v.ext4ReadInode m).2.map fun record => record k
  inBlock : ∀ k < inodeRecordSize, (v.fs.inodePlace n).2 + k < v.fs.blockSize

/-- With memory, writing an inode changes its record in the inode table's block. -/
lemma ext4WriteInode_of_memory (h₀ : v.fs.memory v.fs.mallocs = true) (x : ℕ → BitVec 8) :
    v.ext4WriteInode n x =
      { v.advance 1 with
        fs := (v.advance 1).fs.ext4WriteBlock (v.fs.inodePlace n).1
          (copy (v.fs.readInto (v.buffers v.fs.mallocs) (v.fs.inodePlace n).1) (v.fs.inodePlace n).2 x
            inodeRecordSize) } := by
  rw [ext4WriteInode, malloc_of_true h₀]
  rfl

/-- **Reading an inode after one was written**, byte by byte: the bytes that both records have are the
new ones. -/
lemma inodeRecord_ext4WriteInode (h : InodeLayout v.fs) (h₀ : v.fs.memory v.fs.mallocs = true)
    (hn : v.fs.HasInode n) (hm : v.fs.HasInode m) (x buffer : ℕ → BitVec 8) {k : ℕ}
    (hk : (v.fs.inodePlace m).2 + k < v.fs.blockSize) :
    (v.ext4WriteInode n x).fs.inodeRecord buffer m k =
      if (v.fs.inodePlace m).1 = (v.fs.inodePlace n).1 ∧
          (v.fs.inodePlace n).2 ≤ (v.fs.inodePlace m).2 + k ∧
          (v.fs.inodePlace m).2 + k < (v.fs.inodePlace n).2 + inodeRecordSize then
        x ((v.fs.inodePlace m).2 + k - (v.fs.inodePlace n).2)
      else v.fs.ext4ReadBlock (v.fs.inodePlace m).1 ((v.fs.inodePlace m).2 + k) := by
  have hzero := Nat.one_le_iff_ne_zero.1 hn.1
  have hzero' := Nat.one_le_iff_ne_zero.1 hm.1
  obtain ⟨c, hsize, hc⟩ := h.layout.exists_sectors
  obtain ⟨hin, hmeta⟩ := h.layout.inodePlace_free hzero (h.group_lt hn)
  obtain ⟨hin', -⟩ := h.layout.inodePlace_free hzero' (h.group_lt hm)
  have hsame : SameLayout v.fs (v.ext4WriteInode n x).fs := by
    rw [ext4WriteInode_of_memory h₀]
    have hsame₁ := sameFree_withMallocs v.fs (v.fs.mallocs + 1)
    exact hsame₁.layout.trans
      ((h.layout.of_same hsame₁.layout).sameFree_ext4WriteBlock hin hmeta _).layout
  have hplace := hsame.inodePlace h.layout hzero' (h.group_lt hm)
  rw [inodeRecord, hplace, readInto, hsame.blockSize, if_pos hk, ext4WriteInode_of_memory h₀]
  have hsize' : (v.advance 1).fs.blockSize = 512 * c := hsize
  have hread := ext4ReadBlock_ext4WriteBlock hsize' hc hin' hin
    (copy (v.fs.readInto (v.buffers v.fs.mallocs) (v.fs.inodePlace n).1) (v.fs.inodePlace n).2 x
      inodeRecordSize) hk
  rw [hread]
  by_cases hblock : (v.fs.inodePlace m).1 = (v.fs.inodePlace n).1
  · rw [if_pos hblock, copy, readInto, if_pos hk, hblock]
    simp only [true_and]
  · rw [if_neg hblock, if_neg fun hall => hblock hall.1]
    rfl

/-- The bytes of an inode that are in its block. -/
lemma inodeRecord_apply (buffer : ℕ → BitVec 8) {k : ℕ}
    (hk : (v.fs.inodePlace m).2 + k < v.fs.blockSize) :
    v.fs.inodeRecord buffer m k =
      v.fs.ext4ReadBlock (v.fs.inodePlace m).1 ((v.fs.inodePlace m).2 + k) := by
  rw [inodeRecord, readInto, if_pos hk]

/-- Writing an inode is as wanted if its record is in its block and apart from the others. -/
lemma inodeWritten_of_apart (h : InodeLayout v.fs) (hmemory : v.hasMemory 3 = true)
    (hroomy : v.fs.roomy = true) (hn : v.fs.HasInode n) (x : ℕ → BitVec 8) : v.InodeWritten n x := by
  rw [hasMemory, decide_eq_true_iff] at hmemory
  have h₀ : v.fs.memory v.fs.mallocs = true := hmemory 0 (by omega)
  have h₁ : v.fs.memory (v.fs.mallocs + 1) = true := hmemory 1 (by omega)
  have h₂ : v.fs.memory (v.fs.mallocs + 2) = true := hmemory 2 (by omega)
  obtain ⟨hmallocs, hsame⟩ := mallocs_ext4WriteInode v n x
  have hread : ∀ m, (v.ext4WriteInode n x).ext4ReadInode m = _ := fun m =>
    ext4ReadInode_of_memory (by rw [hmallocs, hsame]; exact h₁) (by rw [hmallocs, hsame]; exact h₂)
  refine ⟨fun k hk => ?_, fun m hm hne k hk => ?_, fun k hk => ?_⟩
  · have hbyte : (v.fs.inodePlace n).2 + k < v.fs.blockSize :=
      Nat.lt_of_lt_of_le (Nat.add_lt_add_left hk _) (h.inBlock hroomy hn)
    rw [hread n, Option.map_some, inodeRecord_ext4WriteInode h h₀ hn hn x _ hbyte,
      if_pos ⟨rfl, Nat.le_add_right _ k, Nat.add_lt_add_left hk _⟩, Nat.add_sub_cancel_left]
  · have hbyte : (v.fs.inodePlace m).2 + k < v.fs.blockSize :=
      Nat.lt_of_lt_of_le (Nat.add_lt_add_left hk _) (h.inBlock hroomy hm)
    have hapart := h.apart hroomy hm hn hne
    rw [hread m, Option.map_some, inodeRecord_ext4WriteInode h h₀ hn hm x _ hbyte,
      ext4ReadInode_of_memory h₀ h₁, Option.map_some, inodeRecord_apply _ hbyte, if_neg]
    rintro ⟨hblock, hge, hlt⟩
    rcases hapart with hother | hbefore | hbehind
    · exact hother hblock
    · omega
    · omega
  · exact Nat.lt_of_lt_of_le (Nat.add_lt_add_left hk _) (h.inBlock hroomy hn)

/-- If an inode is read back, whatever was written, then there is memory for it. -/
lemma hasMemory_of_read
    (hread : ∀ x : ℕ → BitVec 8,
      ((v.ext4WriteInode n x).ext4ReadInode n).2.map (fun record => record 0) = some (x 0)) :
    v.hasMemory 3 = true := by
  obtain ⟨record, hrecord, -⟩ := Option.map_eq_some_iff.1 (hread fun _ => 0)
  obtain ⟨h₁, h₂⟩ := memory_of_ext4ReadInode hrecord
  obtain ⟨hmallocs, hsame⟩ := mallocs_ext4WriteInode v n fun _ => 0
  rw [hmallocs, hsame] at h₁ h₂
  have h₀ : v.fs.memory v.fs.mallocs = true := by
    -- otherwise nothing is written, and the same record is read
    cases hmemory : v.fs.memory v.fs.mallocs with
    | true => rfl
    | false =>
      have hnone : ∀ x, v.ext4WriteInode n x = v.advance 1 := by
        intro x
        rw [ext4WriteInode, malloc_of_false hmemory]
      have hzero := hread fun _ => 0
      have hone := hread fun _ => 1
      rw [hnone] at hzero hone
      exact absurd (hzero.symm.trans hone) (by decide)
  rw [hasMemory, decide_eq_true_iff]
  intro i hi
  obtain rfl | rfl | rfl : i = 0 ∨ i = 1 ∨ i = 2 := by omega
  · exact h₀
  · exact h₁
  · exact h₂

/-- Inodes 1 and 2 are in the first two slots of a table. -/
lemma inodePlace_of_small (h : InodeLayout v.fs) (hsize : v.fs.inodeSize = 128)
    (hgroup : v.fs.inodesPerGroup ≠ 1) (hn : n = 1 ∨ n = 2) (hvalid : v.fs.HasInode n) :
    v.fs.inodePlace n = ((Record.inodeTable 0 0).location v.fs, (n - 1) * 128) := by
  have hpos : 0 < v.fs.inodesPerGroup := h.layout.perGroup_pos .inode
  have hblockSize := h.layout.blockSize_ge
  have hlt : n - 1 < Resource.inode.perGroup v.fs := by
    show n - 1 < v.fs.inodesPerGroup
    omega
  have hfirst : group .inode v.fs n = 0 := Nat.div_eq_of_lt hlt
  have hoffset : v.fs.tableOffset n = (n - 1) * 128 := by
    rw [tableOffset, hsize, index, Nat.mod_eq_of_lt hlt]
  rw [(h.layout.inodePlace_eq (by omega) (h.group_lt hvalid)).2, hfirst, hoffset,
    Nat.div_eq_of_lt (by omega), Nat.mod_eq_of_lt (by omega)]

/-- The record of inode 1 covers the first byte of inode 2. -/
lemma read_of_small (h : InodeLayout v.fs) (hmemory : v.hasMemory 3 = true)
    (hsize : v.fs.inodeSize = 128) (hgroup : v.fs.inodesPerGroup ≠ 1) (htwo : v.fs.HasInode 2)
    (x : ℕ → BitVec 8) :
    ((v.ext4WriteInode 1 x).ext4ReadInode 2).2.map (fun record => record 0) = some (x 128) := by
  have hone : v.fs.HasInode 1 := ⟨le_rfl, by have := htwo.2; omega⟩
  rw [hasMemory, decide_eq_true_iff] at hmemory
  obtain ⟨hmallocs, hsame⟩ := mallocs_ext4WriteInode v 1 x
  have hblockSize := h.layout.blockSize_ge
  have hplace₁ := inodePlace_of_small h hsize hgroup (.inl rfl) hone
  have hplace₂ := inodePlace_of_small h hsize hgroup (.inr rfl) htwo
  have hbyte : (v.fs.inodePlace 2).2 + 0 < v.fs.blockSize := by
    rw [hplace₂]
    omega
  rw [ext4ReadInode_of_memory (by rw [hmallocs, hsame]; exact hmemory 1 (by omega))
      (by rw [hmallocs, hsame]; exact hmemory 2 (by omega)), Option.map_some,
    inodeRecord_ext4WriteInode h (hmemory 0 (by omega)) hone htwo x _ hbyte, hplace₁, hplace₂]
  simp [inodeRecordSize]

/-- **Inodes are written as wanted** exactly if there is memory, and the inodes are larger than 128 bytes
or not next to each other.

**Proof sketch.** A record of 166 bytes fits into a slot of 256, and slots are apart and within blocks. If
there are two inodes of 128 bytes in a group, the record of inode 1 covers the first bytes of inode 2.
Without memory, an inode is not written, or not read. -/
theorem inodeWritten_iff (v : Volume) (h : InodeLayout v.fs) :
    (∀ n x, v.fs.HasInode n → v.InodeWritten n x) ↔
      v.fs.inodesCount = 0 ∨ v.hasMemory 3 = true ∧ v.fs.roomy = true := by
  constructor
  · intro hall
    rw [or_iff_not_imp_left]
    intro hcount
    have hone : v.fs.HasInode 1 := ⟨le_rfl, Nat.one_le_iff_ne_zero.2 hcount⟩
    have hmemory := hasMemory_of_read fun x => (hall 1 x hone).read 0 (by decide)
    refine ⟨hmemory, ?_⟩
    rw [roomy, decide_eq_true_iff]
    by_contra hnot
    push Not at hnot
    obtain ⟨hsize, hgroup, hcount'⟩ := hnot
    have htwo : v.fs.HasInode 2 := ⟨by omega, by omega⟩
    have hkept := fun x => (hall 1 x hone).kept 2 htwo (by decide) 0 (by decide)
    have hread := fun x => (read_of_small h hmemory hsize hgroup htwo x).symm.trans (hkept x)
    exact absurd ((hread fun _ => 0).trans (hread fun _ => 1).symm) (by decide)
  · rintro (hnone | ⟨hmemory, hroomy⟩) n x hn
    · obtain ⟨hpos, hle⟩ := hn
      omega
    · exact inodeWritten_of_apart h hmemory hroomy hn x

/-- The device with a directory and a file, with inodes of 256 bytes, four in the table. -/
def largeInodeDevice : ℕ → ℕ → BitVec 8
  | 2, 0 => 4
  | 2, 40 => 4
  | 2, 88 => 0
  | 2, 89 => 1
  | sector, k => fileDevice sector k

/-- The device with a directory and a file, where the eight inodes of 128 bytes are counted. -/
def smallInodeDevice : ℕ → ℕ → BitVec 8
  | 2, 0 => 8
  | sector, k => fileDevice sector k

/-- The devices, mounted. -/
def largeInodeVolume : Volume :=
  { fileVolume with fs := ext4ReadSuperBlock largeInodeDevice fun _ => true }

/-- The one whose inodes are 128 bytes long. -/
def smallInodeVolume : Volume :=
  { fileVolume with fs := ext4ReadSuperBlock smallInodeDevice fun _ => true }

/-- `largeInodeVolume` has its inode tables where they should be. -/
lemma inodeLayout_largeInodeVolume : InodeLayout largeInodeVolume.fs := by
  refine ⟨OneGroup.layout ⟨by decide +kernel, by decide +kernel, by decide +kernel, fun r => ?_,
    by decide +kernel, by decide +kernel, by decide +kernel, by decide +kernel, by decide +kernel⟩,
    ⟨8, by decide +kernel⟩, by decide +kernel, by decide +kernel, by decide +kernel⟩
  cases r <;> decide +kernel

/-- So does `smallInodeVolume`. -/
lemma inodeLayout_smallInodeVolume : InodeLayout smallInodeVolume.fs := by
  refine ⟨OneGroup.layout ⟨by decide +kernel, by decide +kernel, by decide +kernel, fun r => ?_,
    by decide +kernel, by decide +kernel, by decide +kernel, by decide +kernel, by decide +kernel⟩,
    ⟨7, by decide +kernel⟩, by decide +kernel, by decide +kernel, by decide +kernel⟩
  cases r <;> decide +kernel

/-- With inode records that are large enough, every inode is written as it should be. -/
theorem inodeWritten_iff_largeInodeVolume :
    InodeLayout largeInodeVolume.fs ∧
      ∀ n x, largeInodeVolume.fs.HasInode n → largeInodeVolume.InodeWritten n x :=
  ⟨inodeLayout_largeInodeVolume, (inodeWritten_iff largeInodeVolume inodeLayout_largeInodeVolume).2
    (.inr ⟨by decide +kernel, by decide +kernel⟩)⟩

/-- Writing inode 1 changes what is read of inode 2. -/
theorem not_inodeWritten :
    ∃ (v : Volume) (n : ℕ) (x : ℕ → BitVec 8),
      InodeLayout v.fs ∧ v.fs.HasInode n ∧ ¬ v.InodeWritten n x := by
  refine ⟨smallInodeVolume, 1, fun _ => 1, inodeLayout_smallInodeVolume,
    ⟨by decide +kernel, by decide +kernel⟩, fun hwritten => ?_⟩
  have hkept := hwritten.kept 2 ⟨by decide +kernel, by decide +kernel⟩ (by decide) 0 (by decide)
  rw [read_of_small inodeLayout_smallInodeVolume (by decide +kernel) (by decide +kernel)
    (by decide +kernel) ⟨by decide +kernel, by decide +kernel⟩] at hkept
  exact absurd hkept (by decide +kernel)

end Volume

end Jarvis
