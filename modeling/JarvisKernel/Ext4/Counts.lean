import JarvisKernel.Ext4.Allocator
import JarvisKernel.Lib.Counting

set_option relaxedAutoImplicit false
set_option autoImplicit false

/-!
# Counts of what is free

A file system counts its free blocks and inodes three times: in the bitmaps, in the descriptors of the
groups, and in the superblock. The allocator keeps the three in step, as long as no count of a group
reaches `2 ^ 16`: freeing does not carry into the upper half of the count.

## Main definitions

* `Jarvis.Ext4.Balanced` — the three counts agree.
* `Jarvis.Ext4.OneMore` — one more is free, by all counts.
* `Jarvis.Ext4.InBalance` — the counts agree, and those of the groups have room.

## Main results

* `Jarvis.Ext4.OneMore.balanced_iff` — the counts agree before iff they agree after.
* `Jarvis.Ext4.InBalance.allocate`, `Jarvis.Ext4.InBalance.release` — the allocator.
-/

namespace Jarvis

namespace Ext4

open ByteBuffer

variable {fs fs' fs'' : Ext4} {r r' : Resource} {bgd sb : ℕ → BitVec 8} {bg i n num : ℕ}

/-! ## The three counts -/

namespace Resource

/-- The free count of a group descriptor. -/
def countOf (r : Resource) (bgd : ℕ → BitVec 8) : ℕ :=
  get16 bgd r.countLoField + 2 ^ 16 * get16 bgd r.countHiField

/-- The free count of a superblock. -/
def superCountOf (sb : ℕ → BitVec 8) : Resource → ℕ
  | .block => get32 sb 12 + 2 ^ 32 * get32 sb 274
  | .inode => get32 sb 16

end Resource

/-- The free count of a group. -/
def groupCount (fs : Ext4) (r : Resource) (bg : ℕ) : ℕ := r.countOf (fs.bgd bg)

/-- The free count of the file system. -/
def superCount (fs : Ext4) (r : Resource) : ℕ := r.superCountOf fs.superBlock

/-- The bits that are clear in the bitmaps of the groups. -/
def clearBits (fs : Ext4) (r : Resource) : Finset (ℕ × ℕ) :=
  (Finset.range fs.blockGroupCount ×ˢ Finset.range (r.perGroup fs)).filter fun p =>
    fs.bit r p.1 p.2 = false

/-- The superblock counts as many as the descriptors of the groups do together, and as many as there are
clear bits. -/
structure Balanced (fs : Ext4) (r : Resource) : Prop where
  groups : fs.superCount r = ∑ bg ∈ Finset.range fs.blockGroupCount, fs.groupCount r bg
  bitmaps : fs.superCount r = (fs.clearBits r).card

/-! ## Counts of a group -/

/-- The two halves of a count, and the counts of blocks and of inodes, are in different places. -/
lemma Resource.countFields (r : Resource) :
    r.countLoField + 2 ≤ r.countHiField ∧ r.countHiField + 2 ≤ 48 ∧
      ∀ r', r' ≠ r → (r'.countLoField + 2 ≤ r.countLoField ∨ r.countLoField + 2 ≤ r'.countLoField) ∧
        (r'.countHiField + 2 ≤ r.countHiField ∨ r.countHiField + 2 ≤ r'.countHiField) ∧
        r'.countLoField + 2 ≤ r.countHiField ∧ r.countLoField + 2 ≤ r'.countHiField := by
  refine ⟨by cases r <;> decide, by cases r <;> decide, fun r' hne => ?_⟩
  cases r <;> cases r' <;> first | exact absurd rfl hne | decide

/-- The halves of the count of a group after one was allocated. -/
lemma halves_takeFromGroup (r : Resource) (bgd : ℕ → BitVec 8) :
    get16 (r.takeFromGroup bgd) r.countLoField = (get16 bgd r.countLoField + 0xFFFF) % 0x10000 ∧
      get16 (r.takeFromGroup bgd) r.countHiField =
        if (get16 bgd r.countLoField + 0xFFFF) % 0x10000 = 0xFFFF ∧ 0 < get16 bgd r.countHiField then
          get16 bgd r.countHiField - 1
        else get16 bgd r.countHiField := by
  obtain ⟨hfields, -⟩ := r.countFields
  have hhi := get16_lt bgd r.countHiField
  rw [Resource.takeFromGroup]
  split_ifs
  · rw [get16_set16_of_ne (by omega), get16_set16, get16_set16]
    omega
  · rw [get16_set16, get16_set16_of_ne (by omega)]
    omega

/-- Allocating takes one from the count of the group. -/
lemma countOf_takeFromGroup
    (h : ¬ (get16 bgd r.countLoField = 0 ∧ get16 bgd r.countHiField = 0)) :
    r.countOf (r.takeFromGroup bgd) + 1 = r.countOf bgd := by
  obtain ⟨hlo, hhi⟩ := halves_takeFromGroup r bgd
  have hlt := get16_lt bgd r.countLoField
  rw [Resource.countOf, Resource.countOf, hlo, hhi]
  split_ifs <;> omega

/-- The count of a group after one was freed. -/
lemma countOf_giveToGroup_eq_ite (r : Resource) (bgd : ℕ → BitVec 8) :
    r.countOf (r.giveToGroup bgd) =
      if (get16 bgd r.countLoField + 1) % 0x10000 = 0 ∧ 0 < get16 bgd r.countHiField then
        0xFFFF + 2 ^ 16 * (get16 bgd r.countHiField - 1)
      else (get16 bgd r.countLoField + 1) % 0x10000 + 2 ^ 16 * get16 bgd r.countHiField := by
  obtain ⟨hfields, -⟩ := r.countFields
  have hhi := get16_lt bgd r.countHiField
  rw [Resource.giveToGroup, Resource.countOf]
  split_ifs
  · rw [get16_set16, get16_set16_of_ne (by omega), get16_set16]
    omega
  · rw [get16_set16, get16_set16_of_ne (by omega)]
    omega

/-- Freeing adds one to the count of the group, if its lower half is not full. -/
lemma countOf_giveToGroup (h : get16 bgd r.countLoField + 1 < 2 ^ 16) :
    r.countOf (r.giveToGroup bgd) = r.countOf bgd + 1 := by
  rw [countOf_giveToGroup_eq_ite, if_neg (by omega), Resource.countOf]
  omega

/-- Allocating and freeing leave the count of the other resource as it is. -/
lemma countOf_takeFromGroup_of_ne (h : r' ≠ r) : r'.countOf (r.takeFromGroup bgd) = r'.countOf bgd := by
  obtain ⟨-, -, hfields⟩ := r.countFields
  obtain ⟨hlo, hhi, hlohi, hhilo⟩ := hfields r' h
  rw [Resource.takeFromGroup, Resource.countOf, Resource.countOf]
  split_ifs
  · rw [get16_set16_of_ne (by omega), get16_set16_of_ne hlo, get16_set16_of_ne hhi,
      get16_set16_of_ne (by omega)]
  · rw [get16_set16_of_ne hlo, get16_set16_of_ne (by omega)]

/-- The counts of a group for the other resource stay when one is given back. -/
lemma countOf_giveToGroup_of_ne (h : r' ≠ r) : r'.countOf (r.giveToGroup bgd) = r'.countOf bgd := by
  obtain ⟨-, -, hfields⟩ := r.countFields
  obtain ⟨hlo, hhi, hlohi, hhilo⟩ := hfields r' h
  rw [Resource.giveToGroup, Resource.countOf, Resource.countOf]
  split_ifs
  · rw [get16_set16_of_ne hlo, get16_set16_of_ne (by omega), get16_set16_of_ne hlo,
      get16_set16_of_ne (by omega), get16_set16_of_ne hhi, get16_set16_of_ne (by omega)]
  · rw [get16_set16_of_ne hlo, get16_set16_of_ne (by omega)]

/-- The counts of a group descriptor after allocating. -/
lemma countOf_eq_takeFromGroup
    (h : ¬ (get16 bgd r.countLoField = 0 ∧ get16 bgd r.countHiField = 0)) (r' : Resource) :
    r'.countOf bgd = r'.countOf (r.takeFromGroup bgd) + if r' = r then 1 else 0 := by
  by_cases hr : r' = r
  · rw [hr, if_pos rfl, countOf_takeFromGroup h]
  · rw [if_neg hr, countOf_takeFromGroup_of_ne hr, Nat.add_zero]

/-- The counts of a group descriptor after freeing. -/
lemma countOf_giveToGroup_eq (h : get16 bgd r.countLoField + 1 < 2 ^ 16) (r' : Resource) :
    r'.countOf (r.giveToGroup bgd) = r'.countOf bgd + if r' = r then 1 else 0 := by
  by_cases hr : r' = r
  · rw [hr, if_pos rfl, countOf_giveToGroup h]
  · rw [if_neg hr, countOf_giveToGroup_of_ne hr, Nat.add_zero]

/-! ## Counts of the superblock -/

/-- The halves of the count of the superblock after one was allocated. -/
lemma halves_takeFromSuper (sb : ℕ → BitVec 8) :
    get32 (Resource.block.takeFromSuper sb) 12 = Word32.sub (get32 sb 12) 1 ∧
      get32 (Resource.block.takeFromSuper sb) 274 =
        if Word32.sub (get32 sb 12) 1 = 0xFFFF ∧ 0 < get32 sb 274 then get32 sb 274 - 1
        else get32 sb 274 := by
  have hsub : Word32.sub (get32 sb 12) 1 < 2 ^ 32 := Nat.mod_lt _ (by omega)
  have hhi := get32_lt sb 274
  rw [Resource.takeFromSuper]
  split_ifs
  · rw [get32_set32_of_ne (by omega), get32_set32, get32_set32]
    omega
  · rw [get32_set32, get32_set32_of_ne (by omega)]
    omega

/-- Allocating takes one from the count of the superblock, if its lower half has one. -/
lemma superCountOf_takeFromSuper (hpos : 0 < r.superCountOf sb) (hlt : r.superCountOf sb < 2 ^ 32) :
    r.superCountOf (r.takeFromSuper sb) + 1 = r.superCountOf sb := by
  cases r with
  | block =>
    rw [Resource.superCountOf] at hpos hlt
    have hsub := Word32.sub_of_le (get32_lt sb 12) (show 1 ≤ get32 sb 12 by omega)
    obtain ⟨hlo, hhi⟩ := halves_takeFromSuper sb
    rw [Resource.superCountOf, Resource.superCountOf, hlo, hhi, hsub, if_neg (by omega)]
    omega
  | inode =>
    rw [Resource.superCountOf] at hpos hlt
    have hsub := Word32.sub_of_le (get32_lt sb 16) hpos
    rw [Resource.takeFromSuper, Resource.superCountOf, Resource.superCountOf, get32_set32, hsub]
    omega

/-- The count of the superblock after one was freed. -/
lemma superCountOf_giveToSuper_block (sb : ℕ → BitVec 8) :
    Resource.block.superCountOf (Resource.block.giveToSuper sb) =
      if Word32.add (get32 sb 12) 1 = 0 ∧ 0 < get32 sb 274 then 0xFFFF + 2 ^ 32 * (get32 sb 274 - 1)
      else Word32.add (get32 sb 12) 1 + 2 ^ 32 * get32 sb 274 := by
  have hadd : Word32.add (get32 sb 12) 1 < 2 ^ 32 := Nat.mod_lt _ (by omega)
  have hhi := get32_lt sb 274
  rw [Resource.giveToSuper, Resource.superCountOf]
  split_ifs
  · rw [get32_set32, get32_set32_of_ne (by omega), get32_set32]
    omega
  · rw [get32_set32, get32_set32_of_ne (by omega)]
    omega

/-- The superblock has one word for the count of inodes. -/
lemma superCountOf_giveToSuper_inode (sb : ℕ → BitVec 8) :
    Resource.inode.superCountOf (Resource.inode.giveToSuper sb) = Word32.add (get32 sb 16) 1 := by
  have hadd : Word32.add (get32 sb 16) 1 < 2 ^ 32 := Nat.mod_lt _ (by omega)
  rw [Resource.giveToSuper, Resource.superCountOf, get32_set32]
  exact Nat.mod_eq_of_lt hadd

/-- Freeing adds one to the count of the superblock, if it stays in the lower half. -/
lemma superCountOf_giveToSuper (hlt : r.superCountOf sb + 1 < 2 ^ 32) :
    r.superCountOf (r.giveToSuper sb) = r.superCountOf sb + 1 := by
  cases r with
  | block =>
    rw [Resource.superCountOf] at hlt
    have hadd : Word32.add (get32 sb 12) 1 = get32 sb 12 + 1 := Word32.add_of_lt (by omega)
    rw [superCountOf_giveToSuper_block, Resource.superCountOf, hadd, if_neg (by omega)]
    omega
  | inode =>
    rw [superCountOf_giveToSuper_inode]
    exact Word32.add_of_lt hlt

/-- The count of the superblock depends on its own bytes only. -/
lemma superCountOf_congr {sb' : ℕ → BitVec 8}
    (h : ∀ k, 12 ≤ k ∧ k < 20 ∨ 274 ≤ k ∧ k < 278 → sb k = sb' k) :
    r.superCountOf sb = r.superCountOf sb' := by
  cases r with
  | block =>
    rw [Resource.superCountOf, Resource.superCountOf, get32_congr fun k hk hlt => h k (by omega),
      get32_congr fun k hk hlt => h k (by omega)]
  | inode => exact get32_congr fun k hk hlt => h k (by omega)

/-- The other count of the superblock stays when one is taken. -/
lemma superCountOf_takeFromSuper_of_ne (h : r' ≠ r) :
    r'.superCountOf (r.takeFromSuper sb) = r'.superCountOf sb := by
  cases r <;> cases r' <;> try exact absurd rfl h
  · rw [Resource.takeFromSuper, Resource.superCountOf, Resource.superCountOf]
    split_ifs
    · rw [get32_set32_of_ne (by omega), get32_set32_of_ne (by omega)]
    · rw [get32_set32_of_ne (by omega)]
  · rw [Resource.takeFromSuper, Resource.superCountOf, Resource.superCountOf,
      get32_set32_of_ne (by omega), get32_set32_of_ne (by omega)]

/-- Also when one is given back. -/
lemma superCountOf_giveToSuper_of_ne (h : r' ≠ r) :
    r'.superCountOf (r.giveToSuper sb) = r'.superCountOf sb := by
  cases r <;> cases r' <;> try exact absurd rfl h
  · rw [Resource.giveToSuper, Resource.superCountOf, Resource.superCountOf]
    split_ifs
    · rw [get32_set32_of_ne (by omega), get32_set32_of_ne (by omega), get32_set32_of_ne (by omega)]
    · rw [get32_set32_of_ne (by omega)]
  · rw [Resource.giveToSuper, Resource.superCountOf, Resource.superCountOf,
      get32_set32_of_ne (by omega), get32_set32_of_ne (by omega)]

/-! ## Steps that keep the counts in step -/

/-- Nothing has changed that says what is free. -/
structure SameFree (fs fs' : Ext4) : Prop where
  layout : SameLayout fs fs'
  bitmaps : SameBitmaps fs fs'
  groups : ∀ r bg, bg < fs.blockGroupCount → fs'.groupCount r bg = fs.groupCount r bg
  super : ∀ r, fs'.superCount r = fs.superCount r

/-- One more is free after a step, by all counts. -/
structure OneMore (fs fs' : Ext4) (r : Resource) (bg i : ℕ) : Prop where
  layout : SameLayout fs fs'
  group : bg < fs.blockGroupCount
  index : i < r.perGroup fs
  allocated : fs.bit r bg i = true
  bits : ∀ r' bg' i', bg' < fs.blockGroupCount → i' < r'.perGroup fs →
    fs'.bit r' bg' i' = if r' = r ∧ bg' = bg ∧ i' = i then false else fs.bit r' bg' i'
  groups : ∀ r' bg', bg' < fs.blockGroupCount →
    fs'.groupCount r' bg' = fs.groupCount r' bg' + if r' = r ∧ bg' = bg then 1 else 0
  super : ∀ r', fs'.superCount r' = fs.superCount r' + if r' = r then 1 else 0

/-- The same layout the other way round. -/
lemma SameLayout.symm (h : SameLayout fs fs') : SameLayout fs' fs := by
  refine ⟨h.blockSize.symm, h.blocksPerGroup.symm, h.inodesPerGroup.symm, h.blockGroupCount.symm,
    h.memory.symm, fun k hk => (h.superBlock k hk).symm, fun bg hbg k hk => ?_⟩
  rw [h.blockGroupCount] at hbg
  exact (h.bgd bg hbg k hk).symm

/-- The clear bits, if the bits of the groups are the same. -/
lemma clearBits_congr (h : SameLayout fs fs')
    (hbits : ∀ bg i, bg < fs.blockGroupCount → i < r.perGroup fs → fs'.bit r bg i = fs.bit r bg i) :
    fs'.clearBits r = fs.clearBits r := by
  rw [clearBits, clearBits, h.blockGroupCount, h.perGroup]
  apply Finset.filter_congr
  intro p hp
  obtain ⟨hbg, hi⟩ := Finset.mem_product.1 hp
  rw [hbits p.1 p.2 (Finset.mem_range.1 hbg) (Finset.mem_range.1 hi)]

/-- Counts agree with bits that stay as they are. -/
lemma Balanced.of_same (h : Balanced fs r) (hlayout : Layout fs) (hsame : SameFree fs fs') :
    Balanced fs' r := by
  constructor
  · rw [hsame.super, hsame.layout.blockGroupCount, h.groups]
    apply Finset.sum_congr rfl
    intro bg hbg
    exact (hsame.groups r bg (Finset.mem_range.1 hbg)).symm
  · have hbits : fs'.clearBits r = fs.clearBits r := by
      refine clearBits_congr hsame.layout fun bg i hbg hi => ?_
      exact hsame.bitmaps r bg i hbg (Nat.lt_of_lt_of_le hi (hlayout.perGroup_le r))
    rw [hsame.super, hbits, h.bitmaps]

/-- **The counts agree after the step iff they agreed before it.** -/
lemma OneMore.balanced_iff (h : OneMore fs fs' r bg i) : Balanced fs' r' ↔ Balanced fs r' := by
  by_cases hr : r' = r
  · subst hr
    have hsuper : fs'.superCount r' = fs.superCount r' + 1 := by rw [h.super, if_pos rfl]
    have hgroups : ∑ bg ∈ Finset.range fs'.blockGroupCount, fs'.groupCount r' bg =
        ∑ bg ∈ Finset.range fs.blockGroupCount, fs.groupCount r' bg + 1 := by
      rw [h.layout.blockGroupCount]
      apply Counting.sum_eq_add_one (Finset.mem_range.2 h.group)
      · rw [h.groups r' bg h.group, if_pos ⟨rfl, rfl⟩]
      · intro bg' hbg' hne
        rw [h.groups r' bg' (Finset.mem_range.1 hbg'), if_neg fun hall => hne hall.2, Nat.add_zero]
    have hbits : (fs'.clearBits r').card = (fs.clearBits r').card + 1 := by
      rw [clearBits, clearBits, h.layout.blockGroupCount, h.layout.perGroup]
      apply Counting.card_filter_eq_add_one (a := (bg, i))
      · exact Finset.mem_product.2 ⟨Finset.mem_range.2 h.group, Finset.mem_range.2 h.index⟩
      · rw [h.bits r' bg i h.group h.index, if_pos ⟨rfl, rfl, rfl⟩]
      · rw [h.allocated]
        simp
      · intro p hp hne
        obtain ⟨hbg, hi⟩ := Finset.mem_product.1 hp
        rw [h.bits r' p.1 p.2 (Finset.mem_range.1 hbg) (Finset.mem_range.1 hi),
          if_neg fun hall => hne (Prod.ext hall.2.1 hall.2.2)]
    constructor
    · rintro ⟨h₁, h₂⟩
      exact ⟨by omega, by omega⟩
    · rintro ⟨h₁, h₂⟩
      exact ⟨by omega, by omega⟩
  · have hsuper : fs'.superCount r' = fs.superCount r' := by rw [h.super, if_neg hr, Nat.add_zero]
    have hgroups : ∑ bg ∈ Finset.range fs'.blockGroupCount, fs'.groupCount r' bg =
        ∑ bg ∈ Finset.range fs.blockGroupCount, fs.groupCount r' bg := by
      rw [h.layout.blockGroupCount]
      apply Finset.sum_congr rfl
      intro bg' hbg'
      rw [h.groups r' bg' (Finset.mem_range.1 hbg'), if_neg fun hall => hr hall.1, Nat.add_zero]
    have hbits : fs'.clearBits r' = fs.clearBits r' := by
      refine clearBits_congr h.layout fun bg' i' hbg' hi' => ?_
      rw [h.bits r' bg' i' hbg' hi', if_neg fun hall => hr hall.1]
    constructor
    · rintro ⟨h₁, h₂⟩
      rw [hbits] at h₂
      exact ⟨by omega, by omega⟩
    · rintro ⟨h₁, h₂⟩
      rw [← hbits] at h₂
      exact ⟨by omega, by omega⟩

/-! ## The allocator -/

/-- All bits of the bitmaps are fewer than `2 ^ 32`. -/
lemma Layout.card_bits_lt (h : Layout fs) (r : Resource) :
    (Finset.range fs.blockGroupCount ×ˢ Finset.range (r.perGroup fs)).card < 2 ^ 32 := by
  rw [Finset.card_product, Finset.card_range, Finset.card_range]
  exact h.numbers_lt r

/-- The count of the superblock is a 32-bit number. -/
lemma Balanced.superCount_lt (h : Balanced fs r) (hlayout : Layout fs) : fs.superCount r < 2 ^ 32 := by
  rw [h.bitmaps]
  exact Nat.lt_of_le_of_lt (Finset.card_filter_le _ _) (hlayout.card_bits_lt r)

/-- If a bit is set, there is room for one more. -/
lemma Balanced.superCount_succ_lt (h : Balanced fs r) (hlayout : Layout fs)
    (hbg : bg < fs.blockGroupCount) (hi : i < r.perGroup fs) (hbit : fs.bit r bg i = true) :
    fs.superCount r + 1 < 2 ^ 32 := by
  have hmem : (bg, i) ∈ Finset.range fs.blockGroupCount ×ˢ Finset.range (r.perGroup fs) :=
    Finset.mem_product.2 ⟨Finset.mem_range.2 hbg, Finset.mem_range.2 hi⟩
  have hcard : (fs.clearBits r).card <
      (Finset.range fs.blockGroupCount ×ˢ Finset.range (r.perGroup fs)).card := by
    apply Finset.card_lt_card
    apply Finset.filter_ssubset.2
    exact ⟨(bg, i), hmem, by simp [hbit]⟩
  have hlt := hlayout.card_bits_lt r
  rw [h.bitmaps]
  omega

/-- The group counts after a bitmap was written back. -/
lemma Layout.groupCount_store (h : Layout fs) (hbg : bg < fs.blockGroupCount)
    (hsb : SameGeometry fs.superBlock sb) (bitmap : ℕ → BitVec 8) {bg' : ℕ}
    (hbg' : bg' < fs.blockGroupCount) :
    (fs.store bg ((Record.bitmap r bg).location fs) bitmap bgd sb).groupCount r' bg' =
      if bg' = bg then r'.countOf bgd else fs.groupCount r' bg' := by
  obtain ⟨hlo, hhi, -⟩ := r'.countFields
  have hsize := h.blockSize_ge
  have hread : ∀ k < 48, (fs.store bg ((Record.bitmap r bg).location fs) bitmap bgd sb).bgd bg' k =
      (if bg' = bg then bgd else fs.bgd bg') k := by
    intro k hk
    rw [h.bgd_store bitmap hbg hsb hbg' (by omega)]
    split_ifs <;> rfl
  have hcount : r'.countOf ((fs.store bg ((Record.bitmap r bg).location fs) bitmap bgd sb).bgd bg') =
      r'.countOf (if bg' = bg then bgd else fs.bgd bg') := by
    rw [Resource.countOf, Resource.countOf, get16_congr fun k hk hlt => hread k (by omega),
      get16_congr fun k hk hlt => hread k (by omega)]
  rw [groupCount, hcount]
  split_ifs <;> rfl

/-- The count of the superblock after a bitmap was written back. -/
lemma superCount_store (bitmap : ℕ → BitVec 8) (blockNum : ℕ) :
    (fs.store bg blockNum bitmap bgd sb).superCount r' = r'.superCountOf sb := by
  apply superCountOf_congr
  intro k hk
  show set32 sb 48 currentTime k = sb k
  rw [set32_of_ne (by omega)]

/-- Calls of `malloc` change nothing that is free. -/
lemma sameFree_withMallocs (fs : Ext4) (n : ℕ) : SameFree fs (fs.withMallocs n) :=
  ⟨(withMallocs_spec fs n).1, (withMallocs_spec fs n).2, fun _ _ _ => rfl, fun _ => rfl⟩

/-- Setting a bit leaves one less that is free. -/
lemma Layout.oneMore_taken (h : Layout fs) (htakes : Takes r fs bg i) (hpos : 0 < fs.superCount r)
    (hlt : fs.superCount r < 2 ^ 32) : OneMore (fs.taken r bg i) fs r bg i := by
  obtain ⟨hlayout, hsets⟩ := h.taken_spec htakes.group r i
  have hbits : ∀ r' bg' i', bg' < fs.blockGroupCount → i' < r'.perGroup fs →
      (fs.taken r bg i).bit r' bg' i' =
        if r' = r ∧ bg' = bg ∧ i' = i then true else fs.bit r' bg' i' :=
    fun r' bg' i' hbg' hi' => hsets r' bg' i' hbg' (Nat.lt_of_lt_of_le hi' (h.perGroup_le r'))
  refine ⟨hlayout.symm, ?_, ?_, ?_, fun r' bg' i' hbg' hi' => ?_, fun r' bg' hbg' => ?_,
    fun r' => ?_⟩
  · rw [hlayout.blockGroupCount]
    exact htakes.group
  · rw [hlayout.perGroup]
    exact htakes.index
  · rw [hbits r bg i htakes.group htakes.index, if_pos ⟨rfl, rfl, rfl⟩]
  · rw [hlayout.blockGroupCount] at hbg'
    rw [hlayout.perGroup] at hi'
    rw [hbits r' bg' i' hbg' hi']
    split_ifs with hbit
    · obtain ⟨rfl, rfl, rfl⟩ := hbit
      exact htakes.clear
    · rfl
  · rw [hlayout.blockGroupCount] at hbg'
    rw [taken, h.groupCount_store htakes.group (sameGeometry_takeFromSuper r _) _ hbg']
    by_cases hgroup : bg' = bg
    · subst hgroup
      simp only [if_true, and_true]
      exact countOf_eq_takeFromGroup htakes.counted r'
    · simp only [hgroup, if_false, and_false, Nat.add_zero]
  · rw [taken, superCount_store]
    by_cases hr : r' = r
    · subst hr
      rw [if_pos rfl, superCountOf_takeFromSuper hpos hlt]
      rfl
    · rw [superCountOf_takeFromSuper_of_ne hr, if_neg hr]
      rfl

/-- Clearing a bit leaves one more that is free. -/
lemma Layout.oneMore_given (h : Layout fs) (hbg : bg < fs.blockGroupCount) (hi : i < r.perGroup fs)
    (hbit : fs.bit r bg i = true) (hroom : fs.groupCount r bg + 1 < 2 ^ 16)
    (hlt : fs.superCount r + 1 < 2 ^ 32) : OneMore fs (fs.given r bg i) r bg i := by
  obtain ⟨hlayout, hsets⟩ := h.given_spec hbg r i
  have hlo : get16 (fs.bgd bg) r.countLoField + 1 < 2 ^ 16 := by
    rw [groupCount, Resource.countOf] at hroom
    omega
  refine ⟨hlayout, hbg, hi, hbit, fun r' bg' i' hbg' hi' => ?_, fun r' bg' hbg' => ?_, fun r' => ?_⟩
  · exact hsets r' bg' i' hbg' (Nat.lt_of_lt_of_le hi' (h.perGroup_le r'))
  · rw [given, h.groupCount_store hbg (sameGeometry_giveToSuper r _) _ hbg']
    by_cases hgroup : bg' = bg
    · subst hgroup
      simp only [if_true, and_true]
      exact countOf_giveToGroup_eq hlo r'
    · simp only [hgroup, if_false, and_false, Nat.add_zero]
  · rw [given, superCount_store]
    by_cases hr : r' = r
    · subst hr
      rw [if_pos rfl, superCountOf_giveToSuper hlt]
      rfl
    · rw [superCountOf_giveToSuper_of_ne hr, if_neg hr]
      rfl

/-- The counts agree, and those of the groups have room for `n` more. -/
structure InBalance (fs : Ext4) (n : ℕ) : Prop where
  layout : Layout fs
  balanced : ∀ r, Balanced fs r
  room : ∀ r bg, bg < fs.blockGroupCount → fs.groupCount r bg + n < 2 ^ 16

namespace InBalance

/-- Less may be added than there is room for. -/
lemma mono {m : ℕ} (h : InBalance fs n) (hle : m ≤ n) : InBalance fs m := by
  refine ⟨h.layout, h.balanced, fun r bg hbg => ?_⟩
  have := h.room r bg hbg
  omega

/-- Counts stay in balance as long as the same is free. -/
lemma of_same (h : InBalance fs n) (hsame : SameFree fs fs') : InBalance fs' n := by
  refine ⟨h.layout.of_same hsame.layout, fun r => (h.balanced r).of_same h.layout hsame,
    fun r bg hbg => ?_⟩
  rw [hsame.layout.blockGroupCount] at hbg
  rw [hsame.groups r bg hbg]
  exact h.room r bg hbg

/-- **Allocating** keeps the counts in step. -/
lemma allocate (h : InBalance fs n) (r : Resource) : InBalance (Ext4.allocate r fs).1 n := by
  rcases allocate_cases r fs with ⟨m, hcall⟩ | ⟨m, bg, i, hexhausted, htakes, hcall⟩
  · rw [hcall]
    exact h.of_same (sameFree_withMallocs fs m)
  · have h' := h.of_same (sameFree_withMallocs fs m)
    have hpos : 0 < fs.superCount r := by
      cases r with
      | block =>
        have hcounts : ¬ (fs.freeBlocksCountLo = 0 ∧ fs.freeBlocksCountHi = 0) := by
          simpa [Resource.exhausted] using hexhausted
        rw [freeBlocksCountLo, freeBlocksCountHi] at hcounts
        rw [superCount, Resource.superCountOf]
        omega
      | inode =>
        have hcount : fs.freeInodesCount ≠ 0 := by simpa [Resource.exhausted] using hexhausted
        exact Nat.pos_of_ne_zero hcount
    have htakes' : Takes r (fs.withMallocs m) bg i := by
      cases r <;> exact ⟨htakes.group, htakes.index, htakes.skipped, htakes.clear, htakes.counted⟩
    have hone := h'.layout.oneMore_taken htakes' hpos ((h'.balanced r).superCount_lt h'.layout)
    rw [hcall]
    dsimp only
    refine ⟨h'.layout.of_same hone.layout.symm, fun r' => hone.balanced_iff.1 (h'.balanced r'),
      fun r' bg' hbg' => ?_⟩
    have hroom := h'.room r' bg' (by rw [hone.layout.blockGroupCount]; exact hbg')
    have hgroups := hone.groups r' bg' hbg'
    omega

/-- **Freeing** keeps the counts in step, if there is room. -/
lemma release (h : InBalance fs (n + 1)) (r : Resource) (num : ℕ) :
    InBalance (Ext4.release r fs num) n := by
  rcases release_cases r fs num with ⟨-, m, hcall⟩ | ⟨hfrees, hcall⟩
  · rw [hcall]
    exact (h.mono (Nat.le_succ n)).of_same (sameFree_withMallocs fs m)
  · have h' := h.of_same (sameFree_withMallocs fs (fs.mallocs + 1))
    have hbg := hfrees.inGroup.2.1
    have hi : index r fs num < r.perGroup (fs.withMallocs (fs.mallocs + 1)) := by
      have hlt : index r fs num < r.perGroup fs := Nat.mod_lt _ (h.layout.perGroup_pos r)
      cases r <;> exact hlt
    have hroom := h'.room r (group r fs num) hbg
    have hone := h'.layout.oneMore_given (i := index r fs num) hbg hi hfrees.allocated (by omega)
      ((h'.balanced r).superCount_succ_lt h'.layout hbg hi hfrees.allocated)
    rw [hcall]
    refine ⟨h'.layout.of_same hone.layout, fun r' => hone.balanced_iff.2 (h'.balanced r'),
      fun r' bg' hbg' => ?_⟩
    rw [hone.layout.blockGroupCount] at hbg'
    have hroom' := h'.room r' bg' hbg'
    rw [hone.groups r' bg' hbg']
    split_ifs <;> omega

end InBalance

end Ext4

end Jarvis
