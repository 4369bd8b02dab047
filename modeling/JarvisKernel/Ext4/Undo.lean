import JarvisKernel.Ext4.Balance

set_option relaxedAutoImplicit false
set_option autoImplicit false

/-!
# Undoing allocations in ext4

Whether freeing a block and an inode that were just allocated brings back what was there. The bits of the
bitmaps are restored if there is memory for the buffers of the freeing functions. The counts are restored
if no half of a count runs over: allocating borrows from the upper half, and freeing takes one from it once
more. The two resources do not depend on each other, and no other block is written.

## Main definitions

* `Jarvis.Ext4.Unchanged` — the bitmaps, counts, inode tables and directories are what they were.
* `Jarvis.Ext4.givesBack` — allocating and freeing restores the counts.
* `Jarvis.Ext4.undoes` — a block and an inode can be freed again.

## Main results

* `Jarvis.Ext4.agrees_release_iff` — freeing what was allocated.
* `Jarvis.Ext4.unchanged_freeBoth_iff` — freeing a block and an inode, after other blocks were written.
-/

namespace Jarvis

namespace Ext4

open ByteBuffer

variable {fs fs₁ fs' g : Ext4} {r r' : Resource} {bgd bgd' sb sb' : ℕ → BitVec 8} {S : Set ℕ}
  {bg i n num : ℕ}

/-! ## What stays as it is -/

/-- All blocks but those of the superblock, the descriptors and the bitmaps: inode tables, directories and
data. -/
def otherBlocks (fs : Ext4) : Set ℕ :=
  {n | fs.InDevice n ∧ n ≠ 1024 / fs.blockSize ∧ ¬ fs.IsMetadata n}

/-- Some blocks have the same contents. -/
def SameBlocks (S : Set ℕ) (fs fs' : Ext4) : Prop :=
  ∀ n ∈ S, ∀ k < fs.blockSize, fs'.ext4ReadBlock n k = fs.ext4ReadBlock n k

/-- The superblock on the device counts what the one in memory does. -/
def CountsOnDevice (fs : Ext4) : Prop :=
  ∀ r : Resource, r.superCountOf (fs.sectors 2) = fs.superCount r

/-- The bitmaps and counts are what they were, and so are all other blocks. -/
structure Unchanged (fs fs' : Ext4) : Prop where
  free : SameFree fs fs'
  blocks : SameBlocks fs.otherBlocks fs fs'
  device : CountsOnDevice fs → CountsOnDevice fs'

/-- The same is free if the same blocks and the same inodes are. -/
lemma sameFree_iff : SameFree fs fs' ↔ Agrees .block fs fs' ∧ Agrees .inode fs fs' := by
  constructor
  · intro h
    exact ⟨h.agrees .block, h.agrees .inode⟩
  · rintro ⟨hblock, hinode⟩
    refine ⟨hblock.layout, fun r => ?_, fun r => ?_, fun r => ?_⟩
    · cases r with
      | block => exact hblock.bits
      | inode => exact hinode.bits
    · cases r with
      | block => exact hblock.groups
      | inode => exact hinode.groups
    · cases r with
      | block => exact hblock.super
      | inode => exact hinode.super

/-- What is free stays so in two steps. -/
lemma SameFree.trans (h : SameFree fs fs₁) (h' : SameFree fs₁ fs') : SameFree fs fs' :=
  sameFree_iff.2 ⟨(h.agrees .block).trans (h'.agrees .block), (h.agrees .inode).trans (h'.agrees .inode)⟩

/-! ## Counts that are taken and given back -/

/-- Equal counts have equal halves. -/
lemma halves_of_countOf_eq (h : r.countOf bgd = r.countOf bgd') :
    get16 bgd r.countLoField = get16 bgd' r.countLoField ∧
      get16 bgd r.countHiField = get16 bgd' r.countHiField := by
  have hlo := get16_lt bgd r.countLoField
  have hlo' := get16_lt bgd' r.countLoField
  rw [Resource.countOf, Resource.countOf] at h
  omega

/-- Equal counts of free blocks have equal halves in the superblock. -/
lemma halves_of_superCountOf_eq (h : Resource.block.superCountOf sb = Resource.block.superCountOf sb') :
    get32 sb 12 = get32 sb' 12 ∧ get32 sb 274 = get32 sb' 274 := by
  have hlo := get32_lt sb 12
  have hlo' := get32_lt sb' 12
  rw [Resource.superCountOf, Resource.superCountOf] at h
  omega

/-- The count of a group is restored unless allocating borrowed from its upper half. -/
lemma countOf_giveToGroup_takeFromGroup_iff
    (h : ¬ (get16 bgd r.countLoField = 0 ∧ get16 bgd r.countHiField = 0)) :
    r.countOf (r.giveToGroup (r.takeFromGroup bgd)) = r.countOf bgd ↔ get16 bgd r.countLoField ≠ 0 := by
  obtain ⟨hlo, hhi⟩ := halves_takeFromGroup r bgd
  have hlt := get16_lt bgd r.countLoField
  rw [countOf_giveToGroup_eq_ite, hlo, hhi, Resource.countOf]
  split_ifs <;> omega

/-- What is left of a count does not depend on the rest of the descriptor. -/
lemma countOf_takeFromGroup_congr (h : r.countOf bgd = r.countOf bgd') :
    r.countOf (r.takeFromGroup bgd) = r.countOf (r.takeFromGroup bgd') := by
  obtain ⟨hlo, hhi⟩ := halves_of_countOf_eq h
  obtain ⟨htakenLo, htakenHi⟩ := halves_takeFromGroup r bgd
  obtain ⟨htakenLo', htakenHi'⟩ := halves_takeFromGroup r bgd'
  rw [Resource.countOf, Resource.countOf, htakenLo, htakenHi, htakenLo', htakenHi', hlo, hhi]

/-- Neither does what it becomes. -/
lemma countOf_giveToGroup_congr (h : r.countOf bgd = r.countOf bgd') :
    r.countOf (r.giveToGroup bgd) = r.countOf (r.giveToGroup bgd') := by
  obtain ⟨hlo, hhi⟩ := halves_of_countOf_eq h
  rw [countOf_giveToGroup_eq_ite, countOf_giveToGroup_eq_ite, hlo, hhi]

/-- Taking one from the count of the superblock and giving it back restores it. -/
def Resource.superGivesBack (sb : ℕ → BitVec 8) : Resource → Bool
  | .block => decide (get32 sb 274 = 0 ∨ get32 sb 12 ≠ 0 ∧ get32 sb 12 ≠ 0x10000)
  | .inode => true

/-- The count of the superblock is restored unless allocating borrowed from its upper half, or left
`0xFFFF` in the lower one while there is an upper one. -/
lemma superCountOf_giveToSuper_takeFromSuper_iff (r : Resource) (sb : ℕ → BitVec 8) :
    r.superCountOf (r.giveToSuper (r.takeFromSuper sb)) = r.superCountOf sb ↔
      r.superGivesBack sb = true := by
  cases r with
  | block =>
    obtain ⟨hlo, hhi⟩ := halves_takeFromSuper sb
    have hlt := get32_lt sb 12
    rw [superCountOf_giveToSuper_block, hlo, hhi, Resource.superCountOf, Resource.superGivesBack,
      decide_eq_true_iff, Word32.add, Word32.sub]
    split_ifs <;> omega
  | inode =>
    have hlt := get32_lt sb 16
    rw [superCountOf_giveToSuper_inode, Resource.takeFromSuper, get32_set32, Resource.superCountOf,
      Word32.add, Word32.sub]
    exact iff_of_true (by omega) rfl

/-- What is left of the count does not depend on the rest of the superblock. -/
lemma superCountOf_takeFromSuper_congr (h : r.superCountOf sb = r.superCountOf sb') :
    r.superCountOf (r.takeFromSuper sb) = r.superCountOf (r.takeFromSuper sb') := by
  cases r with
  | block =>
    obtain ⟨hlo, hhi⟩ := halves_of_superCountOf_eq h
    obtain ⟨htakenLo, htakenHi⟩ := halves_takeFromSuper sb
    obtain ⟨htakenLo', htakenHi'⟩ := halves_takeFromSuper sb'
    rw [Resource.superCountOf, Resource.superCountOf, htakenLo, htakenHi, htakenLo', htakenHi', hlo, hhi]
  | inode =>
    rw [Resource.superCountOf, Resource.superCountOf] at h
    rw [Resource.takeFromSuper, Resource.takeFromSuper, Resource.superCountOf, Resource.superCountOf,
      get32_set32, get32_set32, h]

/-- Neither does what it becomes. -/
lemma superCountOf_giveToSuper_congr (h : r.superCountOf sb = r.superCountOf sb') :
    r.superCountOf (r.giveToSuper sb) = r.superCountOf (r.giveToSuper sb') := by
  cases r with
  | block =>
    obtain ⟨hlo, hhi⟩ := halves_of_superCountOf_eq h
    rw [superCountOf_giveToSuper_block, superCountOf_giveToSuper_block, hlo, hhi]
  | inode =>
    rw [Resource.superCountOf, Resource.superCountOf] at h
    rw [superCountOf_giveToSuper_inode, superCountOf_giveToSuper_inode, h]

/-! ## Steps of the allocator -/

/-- Clearing a bit of one resource leaves what is free of the other. -/
lemma Layout.agrees_given (h : Layout fs) (hne : r' ≠ r) (hbg : bg < fs.blockGroupCount) (i : ℕ) :
    Agrees r' fs (fs.given r bg i) :=
  h.agrees_store hne hbg (fun _ hk => giveToGroup_of_lt _ hk) (countOf_giveToGroup_of_ne hne)
    (sameGeometry_giveToSuper r _) (superCountOf_giveToSuper_of_ne hne)

/-- Freeing one resource leaves what is free of the other. -/
lemma Layout.agrees_release (h : Layout fs) (hne : r' ≠ r) (num : ℕ) :
    Agrees r' fs (release r fs num) := by
  rcases release_cases r fs num with ⟨-, n, hcall⟩ | ⟨hfrees, hcall⟩
  · rw [hcall]
    exact agrees_withMallocs r' fs n
  · have h' := h.of_same (withMallocs_spec fs (fs.mallocs + 1)).1
    rw [hcall]
    exact (agrees_withMallocs r' fs _).trans (h'.agrees_given hne hfrees.inGroup.2.1 _)

/-- The counts of groups after a bit was set. -/
lemma Layout.groupCount_taken (h : Layout fs) (hbg : bg < fs.blockGroupCount) :
    (fs.taken r bg i).groupCount r bg = r.countOf (r.takeFromGroup (fs.bgd bg)) := by
  rw [taken, h.groupCount_store hbg (sameGeometry_takeFromSuper r _) _ hbg, if_pos rfl]

/-- The count of the superblock after a bit was set. -/
lemma superCount_taken (fs : Ext4) (r : Resource) (bg i : ℕ) :
    (fs.taken r bg i).superCount r = r.superCountOf (r.takeFromSuper fs.superBlock) := superCount_store _ _

/-- Setting the same bit, and the same counts, in file systems that agree. -/
lemma Agrees.setsBit {g' : Ext4} {value : Bool} {count super : ℕ} (hagrees : Agrees r fs g)
    (hlayout : SameLayout fs fs') (hlayout' : SameLayout g g') (hsets : SetsBit fs fs' r bg i value)
    (hsets' : SetsBit g g' r bg i value)
    (hgroups : ∀ bg₁ < fs.blockGroupCount,
      fs'.groupCount r bg₁ = if bg₁ = bg then count else fs.groupCount r bg₁)
    (hgroups' : ∀ bg₁ < g.blockGroupCount,
      g'.groupCount r bg₁ = if bg₁ = bg then count else g.groupCount r bg₁)
    (hsuper : fs'.superCount r = super) (hsuper' : g'.superCount r = super) : Agrees r fs' g' := by
  refine ⟨hlayout.symm.trans (hagrees.layout.trans hlayout'), fun bg₁ j hbg₁ hj => ?_,
    fun bg₁ hbg₁ => ?_, hsuper'.trans hsuper.symm⟩
  · rw [hlayout.blockGroupCount] at hbg₁
    rw [hlayout.blockSize] at hj
    rw [hsets r bg₁ j hbg₁ hj, hsets' r bg₁ j (by rw [hagrees.layout.blockGroupCount]; exact hbg₁)
      (by rw [hagrees.layout.blockSize]; exact hj), hagrees.bits bg₁ j hbg₁ hj]
  · rw [hlayout.blockGroupCount] at hbg₁
    rw [hgroups bg₁ hbg₁, hgroups' bg₁ (by rw [hagrees.layout.blockGroupCount]; exact hbg₁),
      hagrees.groups bg₁ hbg₁]

/-- Setting a bit in file systems that agree. -/
lemma Agrees.taken (hagrees : Agrees r fs g) (h : Layout fs) (hbg : bg < fs.blockGroupCount) (i : ℕ) :
    Agrees r (fs.taken r bg i) (g.taken r bg i) := by
  have hbg' : bg < g.blockGroupCount := by rw [hagrees.layout.blockGroupCount]; exact hbg
  have h' := h.of_same hagrees.layout
  obtain ⟨hlayout, hsets⟩ := h.taken_spec hbg r i
  obtain ⟨hlayout', hsets'⟩ := h'.taken_spec hbg' r i
  refine hagrees.setsBit hlayout hlayout' hsets hsets'
    (fun bg₁ hbg₁ => h.groupCount_store hbg (sameGeometry_takeFromSuper r _) _ hbg₁) (fun bg₁ hbg₁ => ?_)
    (superCount_store _ _) ((superCount_store _ _).trans ?_)
  · rw [Ext4.taken, h'.groupCount_store hbg' (sameGeometry_takeFromSuper r _) _ hbg₁,
      countOf_takeFromGroup_congr (hagrees.groups bg hbg)]
  · exact superCountOf_takeFromSuper_congr hagrees.super

/-- Clearing a bit in file systems that agree. -/
lemma Agrees.given (hagrees : Agrees r fs g) (h : Layout fs) (hbg : bg < fs.blockGroupCount) (i : ℕ) :
    Agrees r (fs.given r bg i) (g.given r bg i) := by
  have hbg' : bg < g.blockGroupCount := by rw [hagrees.layout.blockGroupCount]; exact hbg
  have h' := h.of_same hagrees.layout
  obtain ⟨hlayout, hsets⟩ := h.given_spec hbg r i
  obtain ⟨hlayout', hsets'⟩ := h'.given_spec hbg' r i
  refine hagrees.setsBit hlayout hlayout' hsets hsets'
    (fun bg₁ hbg₁ => h.groupCount_store hbg (sameGeometry_giveToSuper r _) _ hbg₁) (fun bg₁ hbg₁ => ?_)
    (superCount_store _ _) ((superCount_store _ _).trans ?_)
  · rw [Ext4.given, h'.groupCount_store hbg' (sameGeometry_giveToSuper r _) _ hbg₁,
      countOf_giveToGroup_congr (hagrees.groups bg hbg)]
  · exact superCountOf_giveToSuper_congr hagrees.super

/-! ## Freeing what was allocated -/

/-- Allocating a block or inode and freeing it restores the counts. -/
def givesBack (fs : Ext4) (r : Resource) (num : ℕ) : Bool :=
  decide (get16 (fs.bgd (group r fs num)) r.countLoField ≠ 0) && r.superGivesBack fs.superBlock

/-- The counts run over in one file system if they do in another one that agrees with it. -/
lemma Agrees.givesBack_eq (h : Agrees r fs fs') (hin : InGroup r fs num) :
    fs'.givesBack r num = fs.givesBack r num := by
  have hgroup : Ext4.group r fs' num = Ext4.group r fs num := by rw [group, group, h.layout.perGroup]
  obtain ⟨hlo, -⟩ := halves_of_countOf_eq (h.groups (Ext4.group r fs num) hin.2.1)
  have hsuper : r.superGivesBack fs'.superBlock = r.superGivesBack fs.superBlock := by
    cases r with
    | block =>
      obtain ⟨hlo', hhi'⟩ := halves_of_superCountOf_eq h.super
      rw [Resource.superGivesBack, Resource.superGivesBack, hlo', hhi']
    | inode => rfl
  rw [givesBack, givesBack, hgroup, hlo, hsuper]

/-- Setting and clearing a bit. The bit was clear, so that only the counts can differ. -/
lemma Takes.agrees_given_iff (htakes : Takes r fs bg i) (h : Layout fs) :
    Agrees r fs ((fs.taken r bg i).given r bg i) ↔ fs.givesBack r (r.number fs bg i) = true := by
  obtain ⟨hlayout, hsets⟩ := h.taken_spec htakes.group r i
  have h' := h.of_same hlayout
  have hbg' : bg < (fs.taken r bg i).blockGroupCount := by
    rw [hlayout.blockGroupCount]
    exact htakes.group
  obtain ⟨hlayout', hsets'⟩ := h'.given_spec hbg' r i
  have hgroup : ∀ bg₁ < fs.blockGroupCount, ((fs.taken r bg i).given r bg i).groupCount r bg₁ =
      if bg₁ = bg then r.countOf (r.giveToGroup (r.takeFromGroup (fs.bgd bg)))
      else fs.groupCount r bg₁ := by
    intro bg₁ hbg₁
    have hbg₁' : bg₁ < (fs.taken r bg i).blockGroupCount := by
      rw [hlayout.blockGroupCount]
      exact hbg₁
    rw [Ext4.given, h'.groupCount_store hbg' (sameGeometry_giveToSuper r _) _ hbg₁',
      countOf_giveToGroup_congr (h.groupCount_taken htakes.group)]
    split_ifs with he
    · rfl
    · rw [taken, h.groupCount_store htakes.group (sameGeometry_takeFromSuper r _) _ hbg₁, if_neg he]
  have hsuper : ((fs.taken r bg i).given r bg i).superCount r =
      r.superCountOf (r.giveToSuper (r.takeFromSuper fs.superBlock)) := by
    rw [Ext4.given, superCount_store, superCountOf_giveToSuper_congr (superCount_taken fs r bg i)]
  rw [givesBack, (htakes.group_index h).1, Bool.and_eq_true, decide_eq_true_iff,
    ← countOf_giveToGroup_takeFromGroup_iff htakes.counted,
    ← superCountOf_giveToSuper_takeFromSuper_iff r fs.superBlock]
  constructor
  · intro hagrees
    have hcount := hagrees.groups bg htakes.group
    rw [hgroup bg htakes.group, if_pos rfl] at hcount
    exact ⟨hcount, hsuper.symm.trans hagrees.super⟩
  · rintro ⟨hcount, hcount'⟩
    refine ⟨hlayout.trans hlayout', fun bg₁ j hbg₁ hj => ?_, fun bg₁ hbg₁ => ?_, hsuper.trans hcount'⟩
    · rw [hsets' r bg₁ j (by rw [hlayout.blockGroupCount]; exact hbg₁)
        (by rw [hlayout.blockSize]; exact hj), hsets r bg₁ j hbg₁ hj]
      split_ifs with hbit
      · rw [hbit.2.1, hbit.2.2, htakes.clear]
      · rfl
    · rw [hgroup bg₁ hbg₁]
      split_ifs with he
      · rw [hcount, he]
        rfl
      · rfl

/-- **Freeing what was allocated** restores what was free iff there is memory for the buffer and no count
runs over. In between, the other resource may have changed. -/
lemma agrees_release_iff (h : Layout fs) (htakes : Takes r fs bg i)
    (hagrees : Agrees r (fs.taken r bg i) g) :
    Agrees r fs (release r g (r.number fs bg i)) ↔
      g.memory g.mallocs = true ∧ fs.givesBack r (r.number fs bg i) = true := by
  obtain ⟨hlayout, hsets⟩ := h.taken_spec htakes.group r i
  have hlayout' := hlayout.trans hagrees.layout
  have hbg : bg < g.blockGroupCount := by rw [hlayout'.blockGroupCount]; exact htakes.group
  have hbg₁ : bg < (fs.taken r bg i).blockGroupCount := by
    rw [hlayout.blockGroupCount]
    exact htakes.group
  have hi : i < 8 * fs.blockSize := Nat.lt_of_lt_of_le htakes.index (h.perGroup_le r)
  have hbit : g.bit r bg i = true := by
    rw [hagrees.bits bg i hbg₁ (by rw [hlayout.blockSize]; exact hi), hsets r bg i htakes.group hi,
      if_pos ⟨rfl, rfl, rfl⟩]
  -- the number stands for the bit
  have hgroup : group r g (r.number fs bg i) = bg := by
    rw [group, hlayout'.perGroup]
    exact (htakes.group_index h).1
  have hindex : index r g (r.number fs bg i) = i := by
    rw [index, hlayout'.perGroup]
    exact (htakes.group_index h).2
  rcases release_cases r g (r.number fs bg i) with ⟨hnot, n, hcall⟩ | ⟨hfrees, hcall⟩
  · -- it stays set
    rw [hcall]
    refine iff_of_false (fun hsame => ?_) fun hall => hnot ⟨?_, hall.1, ?_⟩
    · have hset : g.bit r bg i = fs.bit r bg i := hsame.bits bg i htakes.group hi
      rw [hbit, htakes.clear] at hset
      exact absurd hset (by decide)
    · refine ⟨htakes.number_ne_zero h, by rw [hgroup]; exact hbg, ?_⟩
      have hres := (h.of_same hlayout').reserved_eq_false hbg
        (show i < r.perGroup g by rw [hlayout'.perGroup]; exact htakes.index)
        (by rw [hlayout'.skipped]; exact htakes.skipped)
      rw [hlayout'.perGroup] at hres
      rw [h.number_eq htakes.group htakes.index]
      exact hres
    · rw [Allocated, hgroup, hindex]
      exact hbit
  · rw [hgroup, hindex] at hcall
    have hgiven := (hagrees.trans (agrees_withMallocs r g (g.mallocs + 1))).given (h.of_same hlayout) hbg₁ i
    rw [hcall, ← hgiven.congr_right, htakes.agrees_given_iff h]
    exact ⟨fun hback => ⟨hfrees.memory, hback⟩, fun hall => hall.2⟩

/-! ## Other blocks -/

/-- Which blocks are other ones depends on the layout only. -/
lemma SameLayout.otherBlocks (h : SameLayout fs fs') : fs'.otherBlocks = fs.otherBlocks := by
  ext n
  have hmeta : fs'.IsMetadata n ↔ fs.IsMetadata n := ⟨h.isMetadata, h.symm.isMetadata⟩
  rw [Ext4.otherBlocks, Ext4.otherBlocks, Set.mem_ofPred_eq, Set.mem_ofPred_eq, InDevice, InDevice,
    h.blockSize, hmeta]

/-- Blocks that stay the same in two steps. -/
lemma SameBlocks.trans (h : SameBlocks S fs fs₁) (hlayout : SameLayout fs fs₁)
    (h' : SameBlocks S fs₁ fs') : SameBlocks S fs fs' := by
  intro n hn k hk
  rw [h' n hn k (by rw [hlayout.blockSize]; exact hk), h n hn k hk]

/-- Blocks that are the same are so both ways. -/
lemma SameBlocks.symm (h : SameBlocks S fs fs') (hlayout : SameLayout fs fs') : SameBlocks S fs' fs := by
  intro n hn k hk
  rw [hlayout.blockSize] at hk
  exact (h n hn k hk).symm

/-- Writing back a bitmap writes no other block. -/
lemma Layout.sameBlocks_store (h : Layout fs) (hbg : bg < fs.blockGroupCount)
    (bitmap bgd sb : ℕ → BitVec 8) :
    SameBlocks fs.otherBlocks fs (fs.store bg ((Record.bitmap r bg).location fs) bitmap bgd sb) := by
  rintro n ⟨hin, hn, hmeta⟩ k hk
  rw [h.read_store bitmap bgd sb hbg hin hn hk,
    if_neg fun hloc => hmeta ⟨.descriptor bg, trivial, hbg, hloc.symm⟩,
    if_neg fun hloc => hmeta ⟨.bitmap r bg, trivial, hbg, hloc.symm⟩]

/-- Writing the superblock puts its counts on the device. -/
lemma countsOnDevice_ext4WriteSuperBlock (fs : Ext4) : CountsOnDevice fs.ext4WriteSuperBlock := by
  intro r
  show r.superCountOf (Function.update fs.sectors 2 fs.superBlock 2) = r.superCountOf fs.superBlock
  rw [Function.update_self]

/-- Writing back a bitmap writes the superblock. -/
lemma countsOnDevice_store (bitmap : ℕ → BitVec 8) (blockNum : ℕ) :
    CountsOnDevice (fs.store bg blockNum bitmap bgd sb) := by
  rw [store]
  exact countsOnDevice_ext4WriteSuperBlock _

/-- Freeing a block or inode writes no other block. -/
lemma Layout.sameBlocks_release (h : Layout fs) (r : Resource) (num : ℕ) :
    SameBlocks fs.otherBlocks fs (release r fs num) := by
  rcases release_cases r fs num with ⟨-, n, hcall⟩ | ⟨hfrees, hcall⟩
  · rw [hcall]
    exact fun _ _ _ _ => rfl
  · have h' := h.of_same (withMallocs_spec fs (fs.mallocs + 1)).1
    rw [hcall]
    exact h'.sameBlocks_store hfrees.inGroup.2.1 _ _ _

/-- Freeing keeps the counts on the device in step. -/
lemma CountsOnDevice.release (h : CountsOnDevice fs) (r : Resource) (num : ℕ) :
    CountsOnDevice (Ext4.release r fs num) := by
  rcases release_cases r fs num with ⟨-, n, hcall⟩ | ⟨-, hcall⟩
  · rw [hcall]
    exact h
  · rw [hcall]
    exact countsOnDevice_store _ _

/-- Writing a block that is not that of the superblock. -/
lemma CountsOnDevice.ext4WriteBlock (h : CountsOnDevice fs) (hlayout : Layout fs) (hin : fs.InDevice n)
    (hn : n ≠ 1024 / fs.blockSize) (buffer : ℕ → BitVec 8) : CountsOnDevice (fs.ext4WriteBlock n buffer) := by
  obtain ⟨c, hsize, hc⟩ := hlayout.exists_sectors
  have hother : ¬ (n * c ≤ 2 ∧ 2 < n * c + c) := by
    intro htwo
    apply hn
    rw [hsize, ← Nat.div_div_eq_div_mul]
    exact eq_of_sector hc htwo ⟨Nat.div_mul_le_self 2 c, Nat.lt_div_mul_add hc⟩
  intro r
  rw [sectors_ext4WriteBlock hsize hc hin, if_neg hother]
  exact h r

/-! ## What allocating leaves behind -/

/-- Allocating has returned a number that is not 0. -/
def Allocates (r : Resource) (fs fs' : Ext4) (num : ℕ) : Prop :=
  ∃ bg i m, Takes r fs bg i ∧ num = r.number fs bg i ∧ fs' = (fs.taken r bg i).withMallocs m

/-- The allocator takes nothing, or it returns a number that is not 0. -/
lemma Layout.allocates_cases (h : Layout fs) (r : Resource) :
    (∃ m, allocate r fs = (fs.withMallocs m, 0)) ∨
      ∃ fs' num, allocate r fs = (fs', num + 1) ∧ Allocates r fs fs' (num + 1) := by
  rcases allocate_cases r fs with ⟨m, hcall⟩ | ⟨m, bg, i, -, htakes, hcall⟩
  · exact .inl ⟨m, hcall⟩
  · obtain ⟨num, hnum⟩ := Nat.exists_eq_succ_of_ne_zero (htakes.number_ne_zero h)
    rw [hnum] at hcall
    exact .inr ⟨_, num, hcall, bg, i, m, htakes, hnum.symm, taken_withMallocs fs r bg i m⟩

namespace Allocates

/-- Allocating keeps the layout. -/
lemma sameLayout (hcall : Allocates r fs fs' num) (h : Layout fs) : SameLayout fs fs' := by
  obtain ⟨bg, i, m, htakes, -, rfl⟩ := hcall
  exact (h.taken_spec htakes.group r i).1.trans (withMallocs_spec _ m).1

/-- It leaves what is free of the other resource. -/
lemma agrees (hcall : Allocates r fs fs' num) (h : Layout fs) (hne : r' ≠ r) : Agrees r' fs fs' := by
  obtain ⟨bg, i, m, htakes, -, rfl⟩ := hcall
  exact (h.agrees_taken hne htakes.group i).trans (agrees_withMallocs r' _ m)

/-- It writes no other block. -/
lemma sameBlocks (hcall : Allocates r fs fs' num) (h : Layout fs) : SameBlocks fs.otherBlocks fs fs' := by
  obtain ⟨bg, i, m, htakes, -, rfl⟩ := hcall
  have hstored : SameBlocks fs.otherBlocks fs (fs.taken r bg i) := h.sameBlocks_store htakes.group _ _ _
  exact hstored

/-- It puts the counts on the device. -/
lemma countsOnDevice (hcall : Allocates r fs fs' num) : CountsOnDevice fs' := by
  obtain ⟨bg, i, m, -, -, rfl⟩ := hcall
  have hstored : CountsOnDevice (fs.taken r bg i) := countsOnDevice_store _ _
  exact hstored

/-- The number is one that is freed. -/
lemma inGroup (hcall : Allocates r fs fs' num) (h : Layout fs) : InGroup r fs num := by
  obtain ⟨bg, i, m, htakes, rfl, -⟩ := hcall
  refine ⟨htakes.number_ne_zero h, by rw [(htakes.group_index h).1]; exact htakes.group, ?_⟩
  rw [h.number_eq htakes.group htakes.index]
  exact h.reserved_eq_false htakes.group htakes.index htakes.skipped

/-- Freeing the number restores what was free iff there is memory and no count runs over. -/
lemma release_iff (hcall : Allocates r fs fs' num) (h : Layout fs) (hagrees : Agrees r fs' g) :
    Agrees r fs (release r g num) ↔ g.memory g.mallocs = true ∧ fs.givesBack r num = true := by
  obtain ⟨bg, i, m, htakes, rfl, rfl⟩ := hcall
  exact agrees_release_iff h htakes ((agrees_withMallocs r _ m).trans hagrees)

end Allocates

/-- Which numbers are freed depends on the layout only. -/
lemma InGroup.of_same (hin : InGroup r fs num) (h : SameLayout fs fs') : InGroup r fs' num := by
  obtain ⟨hzero, hgroup, hreserved⟩ := hin
  refine ⟨hzero, ?_, ?_⟩
  · rw [group, h.perGroup, h.blockGroupCount]
    exact hgroup
  · cases r with
    | inode => rfl
    | block =>
      rw [Resource.reserved, h.firstDataBlock]
      exact hreserved

/-- Freeing a number in a group calls `malloc` once. -/
lemma InGroup.mallocs_release (hin : InGroup r fs num) : (release r fs num).mallocs = fs.mallocs + 1 := by
  obtain ⟨hzero, hgroup, hreserved⟩ := hin
  have hnot : ¬ fs.blockGroupCount ≤ group r fs num := by omega
  have hstart : release r fs num = _ :=
    (if_neg hzero).trans ((if_neg hnot).trans (if_neg (by rw [hreserved]; decide)))
  rw [hstart]
  cases hmemory : fs.memory fs.mallocs with
  | false =>
    rw [malloc_eq hmemory]
    rfl
  | true =>
    rw [malloc_eq hmemory]
    dsimp only
    split_ifs <;> rfl

/-! ## Undoing -/

/-- There is memory for freeing a block and an inode from the `n`-th call of `malloc` on, and no count runs
over if they were allocated before. -/
def undoes (fs : Ext4) (n inodeNum dataBlock : ℕ) : Bool :=
  (fs.memory n && fs.givesBack .block dataBlock) && (fs.memory (n + 1) && fs.givesBack .inode inodeNum)

section Undo

variable {fs₂ : Ext4} {inodeNum dataBlock : ℕ}

variable (h : Layout fs) (hinode : Allocates .inode fs fs₁ inodeNum)

include h hinode

/-- **Freeing an inode that was allocated**, with nothing in between. -/
lemma sameFree_ext4FreeInode_iff (hsame : SameFree fs₁ g) :
    SameFree fs (g.ext4FreeInode inodeNum) ↔
      g.memory g.mallocs = true ∧ fs.givesBack .inode inodeNum = true := by
  have hlayout := (hinode.sameLayout h).trans hsame.layout
  have hblock : Agrees .block fs (g.ext4FreeInode inodeNum) :=
    ((hinode.agrees h (by decide)).trans (hsame.agrees .block)).trans
      ((h.of_same hlayout).agrees_release (by decide) inodeNum)
  rw [sameFree_iff, ← hinode.release_iff h (hsame.agrees .inode)]
  exact and_iff_right hblock

/-- Freeing the inode after calls of `malloc`. -/
lemma unchanged_ext4FreeInode_iff (n : ℕ) :
    Unchanged fs ((fs₁.withMallocs n).ext4FreeInode inodeNum) ↔
      fs.memory n = true ∧ fs.givesBack .inode inodeNum = true := by
  have hlayout := hinode.sameLayout h
  have h₁ := (h.of_same hlayout).of_same (withMallocs_spec fs₁ n).1
  have hmemory : (fs₁.withMallocs n).memory = fs.memory := hlayout.memory
  have hiff : SameFree fs ((fs₁.withMallocs n).ext4FreeInode inodeNum) ↔
      fs.memory n = true ∧ fs.givesBack .inode inodeNum = true := by
    rw [← hmemory]
    exact sameFree_ext4FreeInode_iff h hinode (sameFree_withMallocs fs₁ n)
  rw [← hiff]
  constructor
  · exact fun hunchanged => hunchanged.free
  · intro hfree
    have hdevice : CountsOnDevice (fs₁.withMallocs n) := hinode.countsOnDevice
    have hblocks := h₁.sameBlocks_release .inode inodeNum
    rw [((withMallocs_spec fs₁ n).1).otherBlocks, hlayout.otherBlocks] at hblocks
    exact ⟨hfree, (hinode.sameBlocks h).trans hlayout hblocks, fun _ => hdevice.release .inode inodeNum⟩

variable (hblock : Allocates .block fs₁ fs₂ dataBlock)

include hblock

/-- Allocating an inode and a block leaves the layout, and the blocks that hold neither counts nor bits. -/
lemma Allocates.sameBlocks_both : SameLayout fs fs₂ ∧ SameBlocks fs.otherBlocks fs fs₂ := by
  have hlayout := hinode.sameLayout h
  have h₁ := h.of_same hlayout
  have hblocks := hblock.sameBlocks h₁
  rw [hlayout.otherBlocks] at hblocks
  exact ⟨hlayout.trans (hblock.sameLayout h₁), (hinode.sameBlocks h).trans hlayout hblocks⟩

/-- **Freeing a block and an inode that were allocated.** What is free of one resource does not depend on
the other. -/
lemma sameFree_freeBoth_iff (hsame : SameFree fs₂ g) :
    SameFree fs ((g.ext4FreeBlock dataBlock).ext4FreeInode inodeNum) ↔
      fs.undoes g.mallocs inodeNum dataBlock = true := by
  have hlayout₁ := hinode.sameLayout h
  have h₁ := h.of_same hlayout₁
  have hlayout₂ := (hblock.sameLayout h₁).trans hsame.layout
  have hg := h₁.of_same hlayout₂
  have hfreed := (hg.release_spec .block dataBlock).1
  have hfree := hg.of_same hfreed
  have hmallocs : (g.ext4FreeBlock dataBlock).mallocs = g.mallocs + 1 :=
    ((hblock.inGroup h₁).of_same hlayout₂).mallocs_release
  have hmemory : g.memory = fs.memory := (hlayout₁.trans hlayout₂).memory
  have hmemory' : (g.ext4FreeBlock dataBlock).memory = fs.memory := hfreed.memory.trans hmemory
  -- the block
  have hblocks : Agrees .block fs ((g.ext4FreeBlock dataBlock).ext4FreeInode inodeNum) ↔
      Agrees .block fs₁ (g.ext4FreeBlock dataBlock) := by
    rw [(hinode.agrees h (by decide)).congr_left]
    exact ((hfree.agrees_release (by decide) inodeNum).congr_right).symm
  -- the inode
  have hinodes : Agrees .inode fs₁ (g.ext4FreeBlock dataBlock) :=
    ((hblock.agrees h₁ (by decide)).trans (hsame.agrees .inode)).trans
      (hg.agrees_release (by decide) dataBlock)
  have hiffBlock := hblock.release_iff h₁ (hsame.agrees .block)
  have hiffInode := hinode.release_iff h hinodes
  have hback := (hinode.agrees h (show Resource.block ≠ .inode by decide)).givesBack_eq
    ((hblock.inGroup h₁).of_same hlayout₁.symm)
  rw [hmallocs, hmemory'] at hiffInode
  rw [hmemory, hback] at hiffBlock
  rw [sameFree_iff, hblocks, undoes]
  simp only [Bool.and_eq_true]
  exact and_congr hiffBlock hiffInode

/-- Freeing both after other blocks were written: what was written stays. -/
lemma unchanged_freeBoth_iff (hsame : SameFree fs₂ g) (hdevice : CountsOnDevice g) :
    Unchanged fs ((g.ext4FreeBlock dataBlock).ext4FreeInode inodeNum) ↔
      fs.undoes g.mallocs inodeNum dataBlock = true ∧ SameBlocks fs.otherBlocks fs₂ g := by
  obtain ⟨hlayout, hbefore⟩ := hinode.sameBlocks_both h hblock
  have hg := (h.of_same hlayout).of_same hsame.layout
  have hfreed := (hg.release_spec .block dataBlock).1
  have hafter : SameBlocks fs.otherBlocks g ((g.ext4FreeBlock dataBlock).ext4FreeInode inodeNum) := by
    have hblocks := hg.sameBlocks_release .block dataBlock
    have hblocks' := (hg.of_same hfreed).sameBlocks_release .inode inodeNum
    rw [hfreed.otherBlocks] at hblocks'
    rw [hsame.layout.otherBlocks, hlayout.otherBlocks] at hblocks hblocks'
    exact hblocks.trans hfreed hblocks'
  have hlast := hfreed.trans ((hg.of_same hfreed).release_spec .inode inodeNum).1
  rw [← sameFree_freeBoth_iff h hinode hblock hsame]
  constructor
  · intro hunchanged
    refine ⟨hunchanged.free, ?_⟩
    exact ((hbefore.symm hlayout).trans hlayout.symm hunchanged.blocks).trans
      (hsame.layout.trans hlast) (hafter.symm hlast)
  · rintro ⟨hfree, hblocks⟩
    refine ⟨hfree, ?_, fun _ => (hdevice.release .block dataBlock).release .inode inodeNum⟩
    exact (hbefore.trans hlayout hblocks).trans (hlayout.trans hsame.layout) hafter

end Undo

end Ext4

end Jarvis
