import JarvisKernel.Ext4.Undo

set_option relaxedAutoImplicit false
set_option autoImplicit false

/-!
# Counts in two halves

The free counts of ext4 are kept in a lower and an upper half, and every function that allocates or frees
has its own code for the borrow or the carry. The borrow from the upper half of a group count is right. The
one from the upper half of the count of the superblock is made when the lower half is `0xFFFF`, a limit of
16 bits for a half of 32, and the carries take from the upper half what they should add to it.

## Main definitions

* `Jarvis.Ext4.OneLessFree`, `Jarvis.Ext4.OneMoreFree` — the counts that a function maintains, before and
  after it.
* `Jarvis.Ext4.Resource.borrows`, `Jarvis.Ext4.Resource.carries` — the counts for which it works.

## Main results

* `Jarvis.Ext4.counts_iff` — the counts change by one exactly for these.
-/

namespace Jarvis

namespace Ext4

open ByteBuffer

variable {fs fs' : Ext4} {r : Resource} {bgd sb : ℕ → BitVec 8} {bg num : ℕ}

/-! ## One less and one more -/

/-- The counts of the group and of the superblock are one less than before. -/
def OneLessFree (r : Resource) (bg : ℕ) (fs fs' : Ext4) : Prop :=
  fs'.groupCount r bg + 1 = fs.groupCount r bg ∧ fs'.superCount r + 1 = fs.superCount r

/-- The counts of the group and of the superblock are one more than before. -/
def OneMoreFree (r : Resource) (bg : ℕ) (fs fs' : Ext4) : Prop :=
  fs'.groupCount r bg = fs.groupCount r bg + 1 ∧ fs'.superCount r = fs.superCount r + 1

/-- What is wanted of the counts: if they are positive, a call that allocates takes one from each, and a
call that clears a bit adds one to each. -/
structure CountsByOne (fs : Ext4) (r : Resource) : Prop where
  allocate : ∀ fs' num, Ext4.allocate r fs = (fs', num) → num ≠ 0 →
    0 < fs.groupCount r (group r fs num) → 0 < fs.superCount r →
    OneLessFree r (group r fs num) fs fs'
  release : ∀ num, Allocated r fs num → ¬ Allocated r (Ext4.release r fs num) num →
    0 < fs.groupCount r (group r fs num) → 0 < fs.superCount r →
    OneMoreFree r (group r fs num) fs (Ext4.release r fs num)

/-- The lower half of the count of free blocks has one to take and does not become `0xFFFF`, or there is
no upper half. -/
def Resource.borrows (sb : ℕ → BitVec 8) : Resource → Bool
  | .block => decide (get32 sb 12 ≠ 0 ∧ (get32 sb 12 = 0x10000 → get32 sb 274 = 0))
  | .inode => true

/-- The offsets of `free_blocks_count_lo` and `free_inodes_count`. -/
def Resource.superCountField : Resource → ℕ
  | .block => 12
  | .inode => 16

/-- The lower halves of the counts are not full. The superblock counts inodes in one word. -/
def Resource.carries (r : Resource) (bgd sb : ℕ → BitVec 8) : Bool :=
  decide (get16 bgd r.countLoField ≠ 0xFFFF ∧ get32 sb r.superCountField ≠ 0xFFFFFFFF)

/-! ## The counts -/

/-- The borrow of the superblock. -/
lemma superCountOf_takeFromSuper_iff (hpos : 0 < r.superCountOf sb) :
    r.superCountOf (r.takeFromSuper sb) + 1 = r.superCountOf sb ↔ r.borrows sb = true := by
  cases r with
  | block =>
    obtain ⟨hlo, hhi⟩ := halves_takeFromSuper sb
    have hlt := get32_lt sb 12
    rw [Resource.superCountOf] at hpos
    rw [Resource.superCountOf, Resource.superCountOf, hlo, hhi, Resource.borrows, decide_eq_true_iff,
      Word32.sub]
    split_ifs <;> omega
  | inode =>
    have hlt := get32_lt sb 16
    rw [Resource.superCountOf] at hpos
    rw [Resource.takeFromSuper, Resource.superCountOf, Resource.superCountOf, get32_set32, Word32.sub]
    exact iff_of_true (by omega) rfl

/-- The carry of a group. -/
lemma countOf_giveToGroup_iff :
    r.countOf (r.giveToGroup bgd) = r.countOf bgd + 1 ↔ get16 bgd r.countLoField ≠ 0xFFFF := by
  have hlt := get16_lt bgd r.countLoField
  rw [countOf_giveToGroup_eq_ite, Resource.countOf]
  split_ifs <;> omega

/-- The carry of the superblock. -/
lemma superCountOf_giveToSuper_iff :
    r.superCountOf (r.giveToSuper sb) = r.superCountOf sb + 1 ↔
      get32 sb r.superCountField ≠ 0xFFFFFFFF := by
  have hlt := get32_lt sb r.superCountField
  cases r with
  | block =>
    rw [Resource.superCountField] at hlt ⊢
    rw [superCountOf_giveToSuper_block, Resource.superCountOf, Word32.add]
    split_ifs <;> omega
  | inode =>
    rw [Resource.superCountField] at hlt ⊢
    rw [superCountOf_giveToSuper_inode, Resource.superCountOf, Word32.add]
    omega

/-! ## The functions -/

/-- Allocating memory leaves the count of a group. -/
lemma groupCount_withMallocs (fs : Ext4) (n : ℕ) :
    (fs.withMallocs n).groupCount r bg = fs.groupCount r bg := rfl

/-- And the one of the superblock. -/
lemma superCount_withMallocs (fs : Ext4) (n : ℕ) : (fs.withMallocs n).superCount r = fs.superCount r := rfl

/-- Allocating, in a state with any counts. -/
lemma Layout.oneLessFree_iff (h : Layout fs) (hcall : Ext4.allocate r fs = (fs', num)) (hnum : num ≠ 0)
    (hpos : 0 < fs.superCount r) :
    OneLessFree r (group r fs num) fs fs' ↔ r.borrows fs.superBlock = true := by
  rcases h.allocates_cases r with ⟨m, hnone⟩ | ⟨fs₁, num₁, hsome, bg, i, m, htakes, hnumber, htaken⟩
  · rw [hnone] at hcall
    exact absurd (Prod.mk.inj hcall).2.symm hnum
  · obtain ⟨hfs, hnum₁⟩ := Prod.mk.inj (hsome.symm.trans hcall)
    have hgroup : group r fs num = bg := by
      rw [← hnum₁, hnumber]
      exact (htakes.group_index h).1
    have hgroupCount : fs'.groupCount r bg = r.countOf (r.takeFromGroup (fs.bgd bg)) := by
      rw [← hfs, htaken, groupCount_withMallocs, h.groupCount_taken htakes.group]
    have hsuperCount : fs'.superCount r = r.superCountOf (r.takeFromSuper fs.superBlock) := by
      rw [← hfs, htaken, superCount_withMallocs, superCount_taken]
    rw [OneLessFree, hgroup, hgroupCount, hsuperCount, groupCount, superCount,
      superCountOf_takeFromSuper_iff hpos]
    exact and_iff_right (countOf_takeFromGroup htakes.counted)

/-- Freeing, in a state with any counts. -/
lemma Layout.oneMoreFree_iff (h : Layout fs) (hset : Allocated r fs num)
    (hclear : ¬ Allocated r (Ext4.release r fs num) num) :
    OneMoreFree r (group r fs num) fs (Ext4.release r fs num) ↔
      r.carries (fs.bgd (group r fs num)) fs.superBlock = true := by
  rcases release_cases r fs num with ⟨-, n, hcall⟩ | ⟨hfrees, hcall⟩
  · -- nothing was cleared
    rw [hcall] at hclear
    cases r <;> exact absurd hset hclear
  · have h' := h.of_same (withMallocs_spec fs (fs.mallocs + 1)).1
    have hgroupCount : (Ext4.release r fs num).groupCount r (group r fs num) =
        r.countOf (r.giveToGroup (fs.bgd (group r fs num))) := by
      rw [hcall, Ext4.given, h'.groupCount_store hfrees.inGroup.2.1 (sameGeometry_giveToSuper r _) _
        hfrees.inGroup.2.1, if_pos rfl]
      rfl
    have hsuperCount : (Ext4.release r fs num).superCount r =
        r.superCountOf (r.giveToSuper fs.superBlock) := by
      rw [hcall]
      exact superCount_store _ _
    rw [OneMoreFree, hgroupCount, hsuperCount, groupCount, superCount, countOf_giveToGroup_iff,
      superCountOf_giveToSuper_iff, Resource.carries, decide_eq_true_iff]

/-- **The counts change by one** exactly if the borrow and the carries are not made wrongly.

**Proof sketch.** The functions write back the count of the group and the count of the superblock, so
that the statement is about these alone. In each of them the wrong cases can be read off from the two
halves. -/
theorem counts_iff (fs : Ext4) (h : Layout fs) (r : Resource) :
    (∀ fs' num, Ext4.allocate r fs = (fs', num) → num ≠ 0 → 0 < fs.superCount r →
      (OneLessFree r (group r fs num) fs fs' ↔ r.borrows fs.superBlock = true)) ∧
    ∀ num, Allocated r fs num → ¬ Allocated r (Ext4.release r fs num) num →
      (OneMoreFree r (group r fs num) fs (Ext4.release r fs num) ↔
        r.carries (fs.bgd (group r fs num)) fs.superBlock = true) :=
  ⟨fun _ _ hcall hnum hpos => h.oneLessFree_iff hcall hnum hpos,
    fun _ hset hclear => h.oneMoreFree_iff hset hclear⟩

/-- The small device with counts at their limits: `2 ^ 32` free blocks, and `2 ^ 17 - 1` free inodes in
the group. -/
def fullDevice : ℕ → ℕ → BitVec 8
  | 2, 12 => 0
  | 2, 274 => 1
  | 4, 14 => 0xFF
  | 4, 15 => 0xFF
  | 4, 46 => 1
  | sector, k => smallDevice sector k

/-- The device, mounted. -/
def fullFileSystem : Ext4 := ext4ReadSuperBlock fullDevice fun _ => true

/-- `fullFileSystem` has the layout of a mounted disk. -/
lemma layout_fullFileSystem : Layout fullFileSystem := by
  apply OneGroup.layout
  refine ⟨by decide +kernel, by decide +kernel, by decide +kernel, fun r => ?_, by decide +kernel,
    by decide +kernel, by decide +kernel, by decide +kernel, by decide +kernel⟩
  cases r <;> decide +kernel

/-- Freeing block 3 of a full disk counts one more. -/
theorem counts_iff_fullFileSystem :
    OneMoreFree .block (group .block fullFileSystem 3) fullFileSystem
      (Ext4.release .block fullFileSystem 3) := by
  refine ((counts_iff fullFileSystem layout_fullFileSystem .block).2 3 ?_ ?_).2 ?_
  · rw [Allocated]
    decide +kernel
  · rw [Allocated]
    decide +kernel
  · decide +kernel

/-- Allocating a block does not borrow, and freeing an inode takes from the upper half. -/
theorem not_countsByOne :
    ∃ fs, Layout fs ∧ ¬ CountsByOne fs .block ∧ ¬ CountsByOne fs .inode := by
  refine ⟨fullFileSystem, layout_fullFileSystem, fun hcounts => ?_, fun hcounts => ?_⟩
  · obtain ⟨-, hsuper⟩ := hcounts.allocate _ _ rfl (by decide +kernel) (by decide +kernel)
      (by decide +kernel)
    exact absurd hsuper (by decide +kernel)
  · obtain ⟨hgroup, -⟩ := hcounts.release 2 (by rw [Allocated]; decide +kernel)
      (by rw [Allocated]; decide +kernel) (by decide +kernel) (by decide +kernel)
    exact absurd hgroup (by decide +kernel)

end Ext4

end Jarvis
