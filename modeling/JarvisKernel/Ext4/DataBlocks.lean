import JarvisKernel.Ext4.Undo

set_option relaxedAutoImplicit false
set_option autoImplicit false

/-!
# Blocks of data

A block of the device that no record of the file system is in, as those of directories and files are. What
is written to the records, and to other blocks, leaves its bytes.

## Main definitions

* `Jarvis.Ext4.HoldsData` — a block that neither the superblock nor a record is in.
* `Jarvis.Ext4.KeepsBlock` — the records stay where they are, and a block keeps its bytes.

## Main results

* `Jarvis.Ext4.HoldsData.keepsBlock_release` — freeing keeps the block.
* `Jarvis.Volume.keepsBlock_ext4WriteInode` — so does writing an inode.
-/

namespace Jarvis

namespace Ext4

variable {fs fs₁ fs' : Ext4} {n : ℕ}

/-- A block of the device that neither the superblock nor a record of the file system is in. -/
structure HoldsData (fs : Ext4) (n : ℕ) : Prop where
  inDevice : fs.InDevice n
  superBlock : n ≠ 1024 / fs.blockSize
  records : ∀ x : Record, x.Valid fs → x.location fs ≠ n

/-- The records stay where they are, and a block keeps its bytes. -/
structure KeepsBlock (n : ℕ) (fs fs' : Ext4) : Prop where
  layout : SameLayout fs fs'
  bytes : ∀ k < fs.blockSize, fs'.ext4ReadBlock n k = fs.ext4ReadBlock n k

/-- Steps that keep a block, one after the other. -/
lemma KeepsBlock.trans (h : KeepsBlock n fs fs₁) (h' : KeepsBlock n fs₁ fs') : KeepsBlock n fs fs' := by
  refine ⟨h.layout.trans h'.layout, fun k hk => ?_⟩
  rw [h'.bytes k (by rw [h.layout.blockSize]; exact hk), h.bytes k hk]

/-- What a buffer gets from the block is the same. -/
lemma KeepsBlock.readInto_eq (h : KeepsBlock n fs fs') (buffer : ℕ → BitVec 8) :
    fs'.readInto buffer n = fs.readInto buffer n := by
  funext k
  rw [readInto, readInto, h.layout.blockSize]
  by_cases hk : k < fs.blockSize
  · rw [if_pos hk, if_pos hk, h.bytes k hk]
  · rw [if_neg hk, if_neg hk]

/-- Calls of `malloc` write no block. -/
lemma keepsBlock_withMallocs (fs : Ext4) (m : ℕ) : KeepsBlock n fs (fs.withMallocs m) :=
  ⟨(withMallocs_spec fs m).1, fun _ _ => rfl⟩

namespace HoldsData

/-- Which blocks hold data depends on the layout only. -/
lemma of_same (h : HoldsData fs n) (hsame : SameLayout fs fs') : HoldsData fs' n := by
  refine ⟨?_, ?_, fun x hx => ?_⟩
  · rw [InDevice, hsame.blockSize]
    exact h.inDevice
  · rw [hsame.blockSize]
    exact h.superBlock
  · have hx' := (hsame.valid x).1 hx
    rw [hsame.location hx']
    exact h.records x hx'

/-- They hold neither a descriptor nor a bitmap. -/
lemma not_isMetadata (h : HoldsData fs n) : ¬ fs.IsMetadata n := by
  rintro ⟨x, -, hx, hloc⟩
  exact h.records x hx hloc

/-- Steps that write none of the other blocks keep them. -/
lemma keepsBlock (h : HoldsData fs n) (hlayout : SameLayout fs fs')
    (hblocks : SameBlocks fs.otherBlocks fs fs') : KeepsBlock n fs fs' :=
  ⟨hlayout, hblocks n ⟨h.inDevice, h.superBlock, h.not_isMetadata⟩⟩

/-- Writing another block keeps them. -/
lemma keepsBlock_ext4WriteBlock (h : HoldsData fs n) (hlayout : Layout fs) {m : ℕ} (hin : fs.InDevice m)
    (hmeta : ¬ fs.IsMetadata m) (hne : n ≠ m) (buffer : ℕ → BitVec 8) :
    KeepsBlock n fs (fs.ext4WriteBlock m buffer) := by
  obtain ⟨c, hsize, hc⟩ := hlayout.exists_sectors
  refine ⟨(hlayout.sameFree_ext4WriteBlock hin hmeta buffer).layout, fun k hk => ?_⟩
  rw [ext4ReadBlock_ext4WriteBlock hsize hc h.inDevice hin buffer hk, if_neg hne]

/-- So does freeing a block or inode. -/
lemma keepsBlock_release (h : HoldsData fs n) (hlayout : Layout fs) (r : Resource) (m : ℕ) :
    KeepsBlock n fs (release r fs m) :=
  h.keepsBlock (hlayout.release_spec r m).1 (hlayout.sameBlocks_release r m)

/-- Freeing several blocks. -/
lemma keepsBlock_foldl (h : HoldsData fs n) (hlayout : Layout fs) (blocks : List ℕ) :
    KeepsBlock n fs (blocks.foldl ext4FreeBlock fs) := by
  induction blocks generalizing fs with
  | nil => exact ⟨SameLayout.refl fs, fun _ _ => rfl⟩
  | cons block blocks ih =>
    have hfirst : KeepsBlock n fs (fs.ext4FreeBlock block) := h.keepsBlock_release hlayout .block block
    exact hfirst.trans (ih (h.of_same hfirst.layout) (hlayout.of_same hfirst.layout))

/-- Writing the block itself. -/
lemma read_ext4WriteBlock (h : HoldsData fs n) (hlayout : Layout fs) (buffer : ℕ → BitVec 8) :
    SameLayout fs (fs.ext4WriteBlock n buffer) ∧
      ∀ k < fs.blockSize, (fs.ext4WriteBlock n buffer).ext4ReadBlock n k = buffer k := by
  obtain ⟨c, hsize, hc⟩ := hlayout.exists_sectors
  refine ⟨(hlayout.sameFree_ext4WriteBlock h.inDevice h.not_isMetadata buffer).layout, fun k hk => ?_⟩
  rw [ext4ReadBlock_ext4WriteBlock hsize hc h.inDevice h.inDevice buffer hk, if_pos rfl]

end HoldsData

end Ext4

namespace Volume

open Ext4

variable {v : Volume} {inodeNum n : ℕ}

/-- Writing the inode of a directory keeps its block. -/
lemma keepsBlock_ext4WriteInode (h : Layout v.fs) (hnum : inodeNum ≠ 0)
    (hbg : group .inode v.fs inodeNum < v.fs.blockGroupCount) (hdata : v.fs.HoldsData n)
    (inode : ℕ → BitVec 8) : KeepsBlock n v.fs (v.ext4WriteInode inodeNum inode).fs := by
  obtain ⟨hin, hmeta⟩ := h.inodePlace_free hnum hbg
  obtain ⟨j, hvalid, hplace⟩ := h.inodePlace_spec hnum hbg
  have hne : n ≠ (v.fs.inodePlace inodeNum).1 := fun heq =>
    hdata.records _ hvalid (hplace.symm.trans heq.symm)
  rw [ext4WriteInode]
  rcases malloc_cases v with hcall | hcall
  · rw [hcall]
    exact keepsBlock_withMallocs v.fs _
  · have hsame := (withMallocs_spec v.fs (v.fs.mallocs + 1)).1
    rw [hcall]
    exact (keepsBlock_withMallocs v.fs (v.fs.mallocs + 1)).trans
      ((hdata.of_same hsame).keepsBlock_ext4WriteBlock (h.of_same hsame) hin
        (fun hother => hmeta (hsame.isMetadata hother)) hne _)

end Volume

end Jarvis
