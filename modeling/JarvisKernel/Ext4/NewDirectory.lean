import JarvisKernel.Ext4.DataBlocks

set_option relaxedAutoImplicit false
set_option autoImplicit false

/-!
# A new directory on the device

Steps 3 to 6 of `ext4_mkdir`: an inode and a block are allocated, and the record of the inode and the first
block are written. If there is no memory for one of them, both are freed again. What was written to the
inode table before stays.

## Main definitions

* `Jarvis.Ext4.holdsRecord` — the inode table has the record already.
* `Jarvis.Ext4.undoesWrite` — a failure of steps 5 and 6 undoes what was done.
* `Jarvis.Ext4.bothTaken` — the file system after steps 3 and 4.
* `Jarvis.Volume.WritesDirectory` — what steps 5 and 6 leave as it was.

## Main results

* `Jarvis.Volume.mkdirWrite_fails` — a failure of steps 5 and 6.
* `Jarvis.Volume.mkdirWrite_writes` — steps 5 and 6 with memory.
-/

namespace Jarvis

namespace Ext4

open ByteBuffer

variable {fs fs₁ fs' : Ext4} {r : Resource} {num bg i bg' i' : ℕ}

/-! ## The record of the new inode -/

/-- The inode table has a record already, as far as the block of the record goes. -/
def holdsRecord (fs : Ext4) (inodeNum : ℕ) (inode : ℕ → BitVec 8) : Bool :=
  decide (∀ k < fs.blockSize, (fs.inodePlace inodeNum).2 ≤ k →
    k < (fs.inodePlace inodeNum).2 + inodeRecordSize →
      inode (k - (fs.inodePlace inodeNum).2) = fs.ext4ReadBlock (fs.inodePlace inodeNum).1 k)

/-- The block of an inode is in an inode table. -/
lemma Layout.inodePlace_mem (h : Layout fs) (hnum : num ≠ 0)
    (hbg : group .inode fs num < fs.blockGroupCount) : (fs.inodePlace num).1 ∈ fs.otherBlocks := by
  obtain ⟨hin, hmeta⟩ := h.inodePlace_free hnum hbg
  obtain ⟨j, hvalid, hplace⟩ := h.inodePlace_spec hnum hbg
  refine ⟨hin, ?_, hmeta⟩
  rw [hplace]
  exact h.superBlock _ hvalid

/-- Writing an inode changes nothing iff its record was there. -/
lemma Layout.sameBlocks_writeInode_iff (h : Layout fs) (hnum : num ≠ 0)
    (hbg : group .inode fs num < fs.blockGroupCount) (buffer inode : ℕ → BitVec 8) :
    SameBlocks fs.otherBlocks fs (fs.ext4WriteBlock (fs.inodePlace num).1
        (copy (fs.readInto buffer (fs.inodePlace num).1) (fs.inodePlace num).2 inode inodeRecordSize)) ↔
      fs.holdsRecord num inode = true := by
  have hmem := h.inodePlace_mem hnum hbg
  obtain ⟨c, hsize, hc⟩ := h.exists_sectors
  have hread : ∀ n, fs.InDevice n → ∀ k < fs.blockSize, (fs.ext4WriteBlock (fs.inodePlace num).1
      (copy (fs.readInto buffer (fs.inodePlace num).1) (fs.inodePlace num).2 inode
        inodeRecordSize)).ext4ReadBlock n k =
      if n = (fs.inodePlace num).1 ∧ (fs.inodePlace num).2 ≤ k ∧
          k < (fs.inodePlace num).2 + inodeRecordSize then inode (k - (fs.inodePlace num).2)
      else fs.ext4ReadBlock n k := by
    intro n hn k hk
    rw [ext4ReadBlock_ext4WriteBlock hsize hc hn hmem.1 _ hk]
    by_cases hplace : n = (fs.inodePlace num).1
    · rw [if_pos hplace, copy, readInto, if_pos hk, hplace]
      simp only [true_and]
    · rw [if_neg hplace, if_neg fun hall => hplace hall.1]
  rw [holdsRecord, decide_eq_true_iff]
  constructor
  · intro hsame k hk hge hlt
    rw [← hsame _ hmem k hk, hread _ hmem.1 k hk, if_pos ⟨rfl, hge, hlt⟩]
  · intro hrecord n hn k hk
    rw [hread n hn.1 k hk]
    split_ifs with hall
    · rw [hrecord k hk hall.2.1 hall.2.2, hall.1]
    · rfl

/-- Whether the table has a record does not depend on the bitmaps and the descriptors. -/
lemma Layout.holdsRecord_eq (h : Layout fs) (hsame : SameLayout fs fs')
    (hblocks : SameBlocks fs.otherBlocks fs fs') (hnum : num ≠ 0)
    (hbg : group .inode fs num < fs.blockGroupCount) (inode : ℕ → BitVec 8) :
    fs'.holdsRecord num inode = fs.holdsRecord num inode := by
  have hplace := hsame.inodePlace h hnum hbg
  rw [holdsRecord, holdsRecord, decide_eq_decide, hplace, hsame.blockSize]
  refine forall₂_congr fun k hk => ?_
  rw [hblocks _ (h.inodePlace_mem hnum hbg) k hk]

/-- Calls of `malloc` change nothing of the file system. -/
lemma unchanged_withMallocs (fs : Ext4) (n : ℕ) : Unchanged fs (fs.withMallocs n) :=
  ⟨sameFree_withMallocs fs n, fun _ _ _ _ => rfl, fun hdevice => hdevice⟩

/-- The failures of steps 5 and 6 of `ext4_mkdir`, from the `m`-th call of `malloc` on, undo what was done.
Without memory for the inode nothing is written. Without memory for its block the inode was written, unless
there was no memory for that. -/
def undoesWrite (fs : Ext4) (m permissions inodeNum dataBlock : ℕ) : Bool :=
  if fs.memory m = false then fs.undoes (m + 1) inodeNum dataBlock
  else
    fs.undoes (m + 3) inodeNum dataBlock &&
      (!fs.memory (m + 1) || fs.holdsRecord inodeNum (fs.newDirInode permissions dataBlock))

/-! ## What is allocated -/

/-- A number that is allocated is another one. -/
lemma Takes.ne_of_allocated (htakes : Takes r fs bg i) (h : Layout fs)
    (hnum : Allocated r fs num) : num ≠ r.number fs bg i := by
  rintro rfl
  rw [Allocated, (htakes.group_index h).1, (htakes.group_index h).2, htakes.clear] at hnum
  exact absurd hnum (by decide)

/-- What is taken can be taken if the same is free. -/
lemma Takes.of_agrees (htakes : Takes r fs bg i) (h : Layout fs)
    (hagrees : Agrees r fs fs') : Takes r fs' bg i := by
  have hcounted : fs.groupCount r bg ≠ 0 := fun hzero =>
    htakes.counted ((fs.groupCount_eq_zero_iff r bg).1 hzero)
  refine ⟨?_, ?_, ?_, ?_, fun hzero => hcounted ?_⟩
  · rw [hagrees.layout.blockGroupCount]
    exact htakes.group
  · rw [hagrees.layout.perGroup]
    exact htakes.index
  · rw [hagrees.layout.skipped]
    exact htakes.skipped
  · rw [hagrees.bits bg i htakes.group (Nat.lt_of_lt_of_le htakes.index (h.perGroup_le r))]
    exact htakes.clear
  · rw [← hagrees.groups bg htakes.group]
    exact (fs'.groupCount_eq_zero_iff r bg).2 hzero

/-- The file system after an inode and a block were allocated. -/
def bothTaken (fs : Ext4) (bg i bg' i' : ℕ) : Ext4 :=
  ((fs.taken .inode bg i).taken .block bg' i').withMallocs fs.afterBlock

/-- The block can still be allocated after the inode was. -/
lemma allocates_bothTaken (h : Layout fs) (hinode : Takes .inode fs bg i)
    (hblock : Takes .block fs bg' i') :
    Allocates .inode fs (fs.taken .inode bg i) (Resource.inode.number fs bg i) ∧
      Allocates .block (fs.taken .inode bg i) (bothTaken fs bg i bg' i')
        (Resource.block.number fs bg' i') := by
  have hagrees := h.agrees_taken (show Resource.block ≠ .inode by decide) hinode.group i
  exact ⟨⟨bg, i, fs.mallocs, hinode, rfl, rfl⟩, bg', i', fs.afterBlock, hblock.of_agrees h hagrees,
    (hagrees.layout.number ..).symm, rfl⟩

end Ext4

namespace Volume

open ByteBuffer Ext4

variable {v w : Volume} {fs fs₁ : Ext4} {inodeNum dataBlock : ℕ}

/-! ## Writing the new directory -/

/-- `ext4_write_inode` changes nothing iff there is no memory or the record was there. -/
lemma ext4WriteInode_record (h : Layout v.fs) (hnum : inodeNum ≠ 0)
    (hbg : group .inode v.fs inodeNum < v.fs.blockGroupCount) (inode : ℕ → BitVec 8) :
    (v.ext4WriteInode inodeNum inode).fs.mallocs = v.fs.mallocs + 1 ∧
      SameFree v.fs (v.ext4WriteInode inodeNum inode).fs ∧
      (CountsOnDevice v.fs → CountsOnDevice (v.ext4WriteInode inodeNum inode).fs) ∧
      (SameBlocks v.fs.otherBlocks v.fs (v.ext4WriteInode inodeNum inode).fs ↔
        v.fs.memory v.fs.mallocs = false ∨ v.fs.holdsRecord inodeNum inode = true) := by
  have hmem := h.inodePlace_mem hnum hbg
  have hsame := sameFree_withMallocs v.fs (v.fs.mallocs + 1)
  rw [ext4WriteInode]
  cases hmemory : v.fs.memory v.fs.mallocs with
  | false =>
    rw [malloc_of_false hmemory]
    exact ⟨rfl, hsame, fun hdevice => hdevice, iff_of_true (fun _ _ _ _ => rfl) (.inl rfl)⟩
  | true =>
    rw [malloc_of_true hmemory]
    have h' := h.of_same hsame.layout
    have hiff := h.sameBlocks_writeInode_iff hnum hbg (v.buffers v.fs.mallocs) inode
    refine ⟨rfl, ?_, fun hdevice => ?_, ?_⟩
    · exact hsame.trans (h'.sameFree_ext4WriteBlock hmem.1 hmem.2.2 _)
    · have hdevice' : CountsOnDevice (v.fs.withMallocs (v.fs.mallocs + 1)) := hdevice
      exact hdevice'.ext4WriteBlock h' hmem.1 hmem.2.1 _
    · rw [or_iff_right (by decide)]
      exact hiff

/-- The inode of a new directory does not depend on the memory. -/
lemma advance_newDirInode (n permissions dataBlock : ℕ) :
    (v.advance n).fs.newDirInode permissions dataBlock = v.fs.newDirInode permissions dataBlock := rfl

/-- **A failure of steps 5 and 6 of `ext4_mkdir`.** The inode was allocated in `fs` and the block in
`fs₁`. -/
lemma mkdirWrite_fails (h : Layout fs) (hinode : Allocates .inode fs fs₁ inodeNum)
    (hblock : Allocates .block fs₁ v.fs dataBlock) (parentNum permissions : ℕ)
    (hfails : v.fs.memory v.fs.mallocs = false ∨ v.fs.memory (v.fs.mallocs + 2) = false) :
    ∃ w, v.mkdirWrite parentNum permissions inodeNum dataBlock = (w, 0) ∧
      (Unchanged fs w.fs ↔ fs.undoesWrite v.fs.mallocs permissions inodeNum dataBlock = true) := by
  obtain ⟨hlayout, hbefore⟩ := hinode.sameBlocks_both h hblock
  have hsame : SameFree v.fs (v.advance 1).fs := sameFree_withMallocs v.fs _
  rw [hlayout.memory] at hfails
  rw [undoesWrite]
  cases hrecord : fs.memory v.fs.mallocs with
  | false =>
    have hiff := unchanged_freeBoth_iff h hinode hblock hsame hblock.countsOnDevice
    have hblocks : SameBlocks fs.otherBlocks v.fs (v.advance 1).fs := fun _ _ _ _ => rfl
    rw [if_pos rfl]
    refine ⟨(v.advance 1).undoMkdir inodeNum dataBlock, ?_, hiff.trans (and_iff_left hblocks)⟩
    rw [mkdirWrite, malloc_of_false (by rw [hlayout.memory, hrecord])]
  | true =>
    -- the inode is written
    have hbuffer := hfails.resolve_left (by rw [hrecord]; decide)
    have hin := hinode.inGroup h
    obtain ⟨hnum, hbg, -⟩ := hin.of_same (hlayout.trans hsame.layout)
    obtain ⟨hmallocs, hfree, hdevice, hblocks⟩ := ext4WriteInode_record (v := v.advance 1)
      ((h.of_same hlayout).of_same hsame.layout) hnum hbg (v.fs.newDirInode permissions dataBlock)
    have hinode' : v.fs.newDirInode permissions dataBlock = fs.newDirInode permissions dataBlock := by
      rw [newDirInode, newDirInode, hlayout.blockSize]
    have hmemory : (v.advance 1).fs.memory = fs.memory := hlayout.memory
    rw [hsame.layout.otherBlocks, hlayout.otherBlocks,
      h.holdsRecord_eq (hlayout.trans hsame.layout) hbefore hin.1 hin.2.1, hmemory, hinode'] at hblocks
    have hnext : (v.advance 1).fs.mallocs = v.fs.mallocs + 1 := rfl
    rw [if_neg (by decide), mkdirWrite, malloc_of_true (by rw [hlayout.memory, hrecord])]
    dsimp only [advance_newDirInode]
    rw [hinode'] at hmallocs hfree hdevice ⊢
    generalize (v.advance 1).ext4WriteInode inodeNum _ = written at *
    have hlast : written.fs.memory written.fs.mallocs = false := by
      rw [hfree.layout.memory, hmallocs, hmemory, hnext, hbuffer]
    rw [malloc_of_false hlast]
    refine ⟨(written.advance 1).undoMkdir inodeNum dataBlock, rfl, ?_⟩
    have hiff := unchanged_freeBoth_iff h hinode hblock
      ((hsame.trans hfree).trans (sameFree_withMallocs written.fs (written.fs.mallocs + 1)))
      (hdevice hblock.countsOnDevice)
    refine hiff.trans ?_
    rw [Bool.and_eq_true, Bool.or_eq_true, Bool.not_eq_true']
    have hmallocs' : (written.fs.withMallocs (written.fs.mallocs + 1)).mallocs = v.fs.mallocs + 3 :=
      congrArg (· + 1) hmallocs
    rw [hmallocs']
    exact and_congr_right fun _ => hblocks

/-- Writing an inode leaves the counts of the superblock. -/
lemma superCount_ext4WriteInode (v : Volume) (num : ℕ) (inode : ℕ → BitVec 8) (r : Resource) :
    (v.ext4WriteInode num inode).fs.superCount r = v.fs.superCount r := by
  rw [ext4WriteInode]
  rcases malloc_cases v with hcall | hcall
  · rw [hcall]
    rfl
  · rw [hcall]
    rfl

/-- It changes the device only. -/
lemma ext4WriteInode_rest (v : Volume) (num : ℕ) (inode : ℕ → BitVec 8) :
    (v.ext4WriteInode num inode).files = v.files ∧ (v.ext4WriteInode num inode).buffers = v.buffers ∧
      (v.ext4WriteInode num inode).heap = v.heap := by
  rw [ext4WriteInode]
  rcases malloc_cases v with hcall | hcall
  · rw [hcall]
    exact ⟨rfl, rfl, rfl⟩
  · rw [hcall]
    exact ⟨rfl, rfl, rfl⟩

/-- What steps 5 and 6 of `ext4_mkdir` leave as it was, if they do not fail. -/
structure WritesDirectory (v w : Volume) (dataBlock : ℕ) : Prop where
  files : w.files = v.files
  buffers : w.buffers = v.buffers
  heap : w.heap = v.heap
  mallocs : w.fs.mallocs = v.fs.mallocs + 3
  memory : w.fs.memory = v.fs.memory
  super : w.fs.superCount .inode = v.fs.superCount .inode
  keeps : v.fs.HoldsData dataBlock → ∀ n, v.fs.HoldsData n → n ≠ dataBlock → KeepsBlock n v.fs w.fs
  free : v.fs.HoldsData dataBlock → SameFree v.fs w.fs

/-- **Steps 5 and 6 of `ext4_mkdir`**, with memory. -/
lemma mkdirWrite_writes (h : Layout v.fs) (hnum : inodeNum ≠ 0)
    (hbg : group .inode v.fs inodeNum < v.fs.blockGroupCount) (parentNum permissions dataBlock : ℕ)
    (h₀ : v.fs.memory v.fs.mallocs = true) (h₂ : v.fs.memory (v.fs.mallocs + 2) = true) :
    ∃ w, v.mkdirWrite parentNum permissions inodeNum dataBlock = (w, inodeNum) ∧
      v.WritesDirectory w dataBlock := by
  have hsame : SameFree v.fs (v.advance 1).fs := sameFree_withMallocs v.fs _
  have h' : Layout (v.advance 1).fs := h.of_same hsame.layout
  have hbg' : group .inode (v.advance 1).fs inodeNum < (v.advance 1).fs.blockGroupCount := hbg
  obtain ⟨hmallocs, hfree, -, -⟩ := ext4WriteInode_record h' hnum hbg'
    ((v.advance 1).fs.newDirInode permissions dataBlock)
  have hcount := superCount_ext4WriteInode (v.advance 1) inodeNum
    ((v.advance 1).fs.newDirInode permissions dataBlock) .inode
  obtain ⟨hfiles, hbuffers, hheap⟩ := ext4WriteInode_rest (v.advance 1) inodeNum
    ((v.advance 1).fs.newDirInode permissions dataBlock)
  have hkeeps : ∀ n, v.fs.HoldsData n → KeepsBlock n (v.advance 1).fs
      ((v.advance 1).ext4WriteInode inodeNum
        ((v.advance 1).fs.newDirInode permissions dataBlock)).fs := fun n hn =>
    keepsBlock_ext4WriteInode h' hnum hbg' (hn.of_same hsame.layout) _
  rw [mkdirWrite, malloc_of_true h₀]
  dsimp only
  generalize (v.advance 1).ext4WriteInode inodeNum _ = written at *
  have hbuffer : written.fs.memory written.fs.mallocs = true := by
    rw [hfree.layout.memory, hmallocs]
    exact h₂
  have hlayout := hsame.layout.trans hfree.layout
  have hlast := sameFree_withMallocs written.fs (written.fs.mallocs + 1)
  have hwritten : Layout (written.advance 1).fs := (h.of_same hlayout).of_same hlast.layout
  rw [malloc_of_true hbuffer]
  refine ⟨_, rfl, ⟨hfiles, hbuffers, hheap, congrArg (· + 1) hmallocs, hfree.layout.memory, hcount,
    fun hdata n hn hne => ?_, fun hdata => ?_⟩⟩
  · have hdata' := hdata.of_same (hlayout.trans hlast.layout)
    have hkept := ((keepsBlock_withMallocs v.fs (v.fs.mallocs + 1)).trans (hkeeps n hn)).trans
      (keepsBlock_withMallocs written.fs (written.fs.mallocs + 1))
    exact hkept.trans ((hn.of_same (hlayout.trans hlast.layout)).keepsBlock_ext4WriteBlock hwritten
      hdata'.inDevice hdata'.not_isMetadata hne _)
  · have hdata' := hdata.of_same (hlayout.trans hlast.layout)
    exact ((hsame.trans hfree).trans hlast).trans
      (hwritten.sameFree_ext4WriteBlock hdata'.inDevice hdata'.not_isMetadata _)

end Volume

end Jarvis
