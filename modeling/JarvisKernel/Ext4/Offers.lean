import JarvisKernel.Ext4.Counts
import Mathlib.Data.List.Find

set_option relaxedAutoImplicit false
set_option autoImplicit false

/-!
# What the allocator offers

The block or inode that the allocator takes next is determined by what a file system counts: it is the first
clear bit of the first group that counts some free and has such a bit. Every group that is looked at on the
way needs a buffer, and without memory for one of them nothing is taken. If two file systems agree in what
is free of a resource, then they offer the same.

## Main definitions

* `Jarvis.Ext4.freeBit` — the bit of a group that is taken.
* `Jarvis.Ext4.buffersWanted`, `Jarvis.Ext4.buffersUsed` — calls of `malloc`, with and without memory.
* `Jarvis.Ext4.offers` — the group and the bit that are taken.
* `Jarvis.Ext4.Agrees` — the same is free of one resource.

## Main results

* `Jarvis.Ext4.allocate_eq` — the allocator takes what is offered.
* `Jarvis.Ext4.Agrees.offers_eq` — what is offered, if the same is free.
-/

namespace Jarvis

namespace Ext4

open ByteBuffer

variable {fs fs₁ fs' : Ext4} {r r' : Resource} {bgd sb : ℕ → BitVec 8} {bg i m : ℕ} {groups : List ℕ}

/-! ## Searches -/

/-- How many elements are looked at in a search for the first one that has a property. -/
def searched {α : Type} (p : α → Bool) : List α → ℕ
  | [] => 0
  | a :: l => if p a then 1 else searched p l + 1

/-- A search looks at one element at least. -/
lemma searched_cons_eq {α : Type} (p : α → Bool) (a : α) (l : List α) :
    searched p (a :: l) = (if p a then 0 else searched p l) + 1 := by
  rw [searched]
  split_ifs <;> rfl

/-- A search that finds nothing looks at every element. -/
lemma searched_of_all {α : Type} {p : α → Bool} {l : List α} (h : l.all p = true) :
    searched (fun a => !p a) l = l.length := by
  induction l with
  | nil => rfl
  | cons a l ih =>
    rw [List.all_cons, Bool.and_eq_true] at h
    rw [searched, h.1, ih h.2, List.length_cons]
    rfl

/-! ## What is free -/

/-- The first bit of a group that is clear and not passed over. -/
def freeBit (fs : Ext4) (r : Resource) (bg : ℕ) : Option ℕ :=
  (List.range (r.perGroup fs)).find? fun i => !r.skipped fs bg i && !fs.bit r bg i

/-- The groups that count some that are free, if the superblock does. -/
def countingGroups (fs : Ext4) (r : Resource) : List ℕ :=
  if fs.superCount r = 0 then []
  else (List.range fs.blockGroupCount).filter fun bg => decide (fs.groupCount r bg ≠ 0)

/-- The first free bit of some groups, with its group. -/
def freeIn (fs : Ext4) (r : Resource) (groups : List ℕ) : Option (ℕ × ℕ) :=
  groups.findSome? fun bg => (fs.freeBit r bg).map (Prod.mk bg)

/-- The groups whose bitmaps are read to find it. -/
def bitmapsRead (fs : Ext4) (r : Resource) (groups : List ℕ) : ℕ :=
  searched (fun bg => (fs.freeBit r bg).isSome) groups

/-- The calls of `malloc` that allocating makes if all of them succeed. -/
def buffersWanted (fs : Ext4) (r : Resource) : ℕ := fs.bitmapsRead r (fs.countingGroups r)

/-- The calls of `malloc` that allocating makes from the `m`-th on: the first that fails is the last. -/
def buffersUsed (fs : Ext4) (r : Resource) (m : ℕ) : ℕ :=
  searched (fun n => !fs.memory n) (List.range' m (fs.buffersWanted r))

/-- The group and the bit that are taken, if `malloc` is called from the `m`-th time on. -/
def offers (fs : Ext4) (r : Resource) (m : ℕ) : Option (ℕ × ℕ) :=
  if (List.range' m (fs.buffersWanted r)).all fs.memory then fs.freeIn r (fs.countingGroups r) else none

/-- The allocator passes over a group that counts none. -/
lemma groupCount_eq_zero_iff (fs : Ext4) (r : Resource) (bg : ℕ) :
    fs.groupCount r bg = 0 ↔
      get16 (fs.bgd bg) r.countLoField = 0 ∧ get16 (fs.bgd bg) r.countHiField = 0 := by
  rw [groupCount, Resource.countOf]
  omega

/-- It fails at once if the superblock counts none. -/
lemma exhausted_iff (r : Resource) (fs : Ext4) : r.exhausted fs = true ↔ fs.superCount r = 0 := by
  cases r with
  | block =>
    rw [Resource.exhausted, decide_eq_true_iff, freeBlocksCountLo, freeBlocksCountHi, superCount,
      Resource.superCountOf]
    omega
  | inode => exact decide_eq_true_iff

/-- One round of the loop over the groups. -/
lemma allocateFrom_succ (fs : Ext4) (r : Resource) (count bg m : ℕ) :
    allocateFrom r (count + 1) bg (fs.withMallocs m) =
      if fs.groupCount r bg = 0 then allocateFrom r count (bg + 1) (fs.withMallocs m)
      else if fs.memory m = false then (fs.withMallocs (m + 1), 0)
      else
        match fs.freeBit r bg with
        | none => allocateFrom r count (bg + 1) (fs.withMallocs (m + 1))
        | some i => ((fs.withMallocs (m + 1)).taken r bg i, r.number fs bg i) := by
  have hcount : get16 ((fs.withMallocs m).ext4ReadBlock ((fs.withMallocs m).bgdBlock bg)) r.countLoField = 0 ∧
      get16 ((fs.withMallocs m).ext4ReadBlock ((fs.withMallocs m).bgdBlock bg)) r.countHiField = 0 ↔
        fs.groupCount r bg = 0 := (fs.groupCount_eq_zero_iff r bg).symm
  have hnumber : ∀ i, r.number (fs.withMallocs (m + 1)) bg i = r.number fs bg i := fun i =>
    number_withMallocs (m + 1)
  rw [allocateFrom]
  simp only [hcount]
  by_cases hnone : fs.groupCount r bg = 0
  · rw [if_pos hnone, if_pos hnone]
  rw [if_neg hnone, if_neg hnone]
  cases hmemory : fs.memory m with
  | false =>
    rw [malloc_eq (show (fs.withMallocs m).memory (fs.withMallocs m).mallocs = false from hmemory)]
    rfl
  | true =>
    rw [malloc_eq (show (fs.withMallocs m).memory (fs.withMallocs m).mallocs = true from hmemory),
      if_neg (by decide)]
    -- the search reads the same bitmap
    have hfind : (List.range (r.perGroup (fs.withMallocs (m + 1)))).find? (fun i =>
        !r.skipped (fs.withMallocs (m + 1)) bg i && !Bitmap.test ((fs.withMallocs (m + 1)).ext4ReadBlock
          (get32 (fs.bgd bg) r.bitmapField)) i) = fs.freeBit r bg := by
      cases r <;> rfl
    simp only [← hnumber]
    rw [← hfind]
    rfl

/-- **The loop over the groups** takes the first free bit of the groups that count some, if there is memory
for the bitmaps that it reads.

**Proof sketch.** By induction on the number of groups. A group that counts none is not read. Every other
one takes a call of `malloc`, and is the last one if that fails or if it has a free bit. -/
lemma allocateFrom_eq (fs : Ext4) (r : Resource) (count bg m : ℕ)
    (hgroups : groups = (List.range' bg count).filter fun bg => decide (fs.groupCount r bg ≠ 0)) :
    allocateFrom r count bg (fs.withMallocs m) =
      if (List.range' m (fs.bitmapsRead r groups)).all fs.memory then
        match fs.freeIn r groups with
        | none => (fs.withMallocs (m + fs.bitmapsRead r groups), 0)
        | some (bg, i) =>
          ((fs.withMallocs (m + fs.bitmapsRead r groups)).taken r bg i, r.number fs bg i)
      else
        (fs.withMallocs (m + searched (fun n => !fs.memory n) (List.range' m (fs.bitmapsRead r groups))),
          0) := by
  induction count generalizing bg m groups with
  | zero =>
    subst hgroups
    rfl
  | succ count ih =>
    rw [allocateFrom_succ]
    rw [List.range'_succ, List.filter_cons] at hgroups
    by_cases hnone : fs.groupCount r bg = 0
    · rw [if_pos hnone]
      rw [if_neg (by simpa using hnone)] at hgroups
      exact ih (bg + 1) m hgroups
    rw [if_pos (by simpa using hnone)] at hgroups
    rw [if_neg hnone, hgroups, bitmapsRead, searched_cons_eq, List.range'_succ, List.all_cons, freeIn,
      List.findSome?_cons, searched_cons_eq]
    cases hmemory : fs.memory m with
    | false => rfl
    | true =>
      rw [if_neg (by decide), Bool.true_and]
      cases hbit : fs.freeBit r bg with
      | some i => rfl
      | none =>
        have hrest := ih (bg + 1) (m + 1) rfl
        rw [bitmapsRead, freeIn] at hrest
        simp only [Option.map_none, Option.isSome_none, Bool.false_eq_true, if_false, Bool.not_true]
        rw [hrest]
        simp only [Nat.add_assoc, Nat.add_comm 1]

/-- Calls of `malloc` before records are written might as well come after that. -/
lemma store_withMallocs (fs : Ext4) (bg n blockNum : ℕ) (bitmap bgd sb : ℕ → BitVec 8) :
    (fs.withMallocs n).store bg blockNum bitmap bgd sb =
      (fs.store bg blockNum bitmap bgd sb).withMallocs n := rfl

/-- And so might those before a bit is set. -/
lemma taken_withMallocs (fs : Ext4) (r : Resource) (bg i n : ℕ) :
    (fs.withMallocs n).taken r bg i = (fs.taken r bg i).withMallocs n := by
  have hsuper : (fs.withMallocs n).superBlock = fs.superBlock := rfl
  have hbgd : (fs.withMallocs n).bgd bg = fs.bgd bg := rfl
  have hlocation : (Record.bitmap r bg).location (fs.withMallocs n) = (Record.bitmap r bg).location fs :=
    congrArg (fun bgd => get32 bgd r.bitmapField) hbgd
  have hread : ∀ block, (fs.withMallocs n).ext4ReadBlock block = fs.ext4ReadBlock block := fun _ => rfl
  rw [taken, taken, store_withMallocs, hbgd, hlocation, hread, hsuper]

/-- **The allocator takes what is offered**, and otherwise only calls `malloc`. -/
lemma allocate_eq (r : Resource) (fs : Ext4) :
    allocate r fs =
      match fs.offers r fs.mallocs with
      | none => (fs.withMallocs (fs.mallocs + fs.buffersUsed r fs.mallocs), 0)
      | some (bg, i) =>
        ((fs.taken r bg i).withMallocs (fs.mallocs + fs.buffersWanted r), r.number fs bg i) := by
  have hexhausted := exhausted_iff r fs
  rw [allocate, offers, buffersUsed, buffersWanted, countingGroups]
  by_cases hzero : fs.superCount r = 0
  · rw [if_pos (hexhausted.2 hzero), if_pos hzero]
    rfl
  rw [if_neg (fun hall => hzero (hexhausted.1 hall)), if_neg hzero, List.range_eq_range']
  have hloop := allocateFrom_eq fs r fs.blockGroupCount 0 fs.mallocs rfl
  have hsame : fs.withMallocs fs.mallocs = fs := rfl
  rw [hsame] at hloop
  rw [hloop]
  split_ifs with hmemory
  · cases fs.freeIn r _ with
    | none => rw [searched_of_all hmemory, List.length_range']
    | some p => exact Prod.ext (taken_withMallocs fs r p.1 p.2 _) rfl
  · rfl

/-- What is taken can be taken. -/
lemma takes_of_offers (h : fs.offers r m = some (bg, i)) : Takes r fs bg i := by
  rw [offers] at h
  split_ifs at h
  obtain ⟨bg', hmem, hbit⟩ := List.exists_of_findSome?_eq_some h
  obtain ⟨i', hi, heq⟩ := Option.map_eq_some_iff.1 hbit
  obtain ⟨rfl, rfl⟩ := Prod.mk.inj heq
  have hclear := List.find?_some hi
  rw [Bool.and_eq_true, Bool.not_eq_true', Bool.not_eq_true'] at hclear
  rw [countingGroups] at hmem
  split_ifs at hmem
  · exact absurd hmem List.not_mem_nil
  obtain ⟨hrange, hcount⟩ := List.mem_filter.1 hmem
  exact ⟨List.mem_range.1 hrange, List.mem_range.1 (List.mem_of_find?_eq_some hi), hclear.1, hclear.2,
    fun hnone => of_decide_eq_true hcount ((fs.groupCount_eq_zero_iff r bg').2 hnone)⟩

/-- The number of a bit that is allocated. -/
lemma Takes.group_index (h : Layout fs) (htakes : Takes r fs bg i) :
    Ext4.group r fs (r.number fs bg i) = bg ∧ Ext4.index r fs (r.number fs bg i) = i := by
  rw [h.number_eq htakes.group htakes.index]
  exact group_index_number bg htakes.index

/-- The number that an allocation gives is not 0. -/
lemma Takes.number_ne_zero (h : Layout fs) (htakes : Takes r fs bg i) : r.number fs bg i ≠ 0 := by
  rw [h.number_eq htakes.group htakes.index]
  omega

/-! ## The same is free -/

/-- The same is free of one resource. -/
structure Agrees (r : Resource) (fs fs' : Ext4) : Prop where
  layout : SameLayout fs fs'
  bits : ∀ bg i, bg < fs.blockGroupCount → i < 8 * fs.blockSize → fs'.bit r bg i = fs.bit r bg i
  groups : ∀ bg < fs.blockGroupCount, fs'.groupCount r bg = fs.groupCount r bg
  super : fs'.superCount r = fs.superCount r

/-- File systems with the same free items agree on every kind of item. -/
lemma SameFree.agrees (h : SameFree fs fs') (r : Resource) : Agrees r fs fs' :=
  ⟨h.layout, h.bitmaps r, h.groups r, h.super r⟩

namespace Agrees

/-- Agreeing is symmetric. -/
lemma symm (h : Agrees r fs fs') : Agrees r fs' fs := by
  refine ⟨h.layout.symm, fun bg i hbg hi => ?_, fun bg hbg => ?_, h.super.symm⟩
  · rw [h.layout.blockGroupCount] at hbg
    rw [h.layout.blockSize] at hi
    exact (h.bits bg i hbg hi).symm
  · rw [h.layout.blockGroupCount] at hbg
    exact (h.groups bg hbg).symm

/-- And transitive. -/
lemma trans (h : Agrees r fs fs₁) (h' : Agrees r fs₁ fs') : Agrees r fs fs' := by
  refine ⟨h.layout.trans h'.layout, fun bg i hbg hi => ?_, fun bg hbg => ?_, h'.super.trans h.super⟩
  · rw [h'.bits bg i (by rw [h.layout.blockGroupCount]; exact hbg) (by rw [h.layout.blockSize]; exact hi),
      h.bits bg i hbg hi]
  · rw [h'.groups bg (by rw [h.layout.blockGroupCount]; exact hbg), h.groups bg hbg]

/-- File systems that agree are alike in what they agree with. -/
lemma congr_right (h : Agrees r fs₁ fs') : Agrees r fs fs₁ ↔ Agrees r fs fs' :=
  ⟨fun h' => h'.trans h, fun h' => h'.trans h.symm⟩

/-- File systems that agree agree with the same ones. -/
lemma congr_left (h : Agrees r fs fs₁) : Agrees r fs fs' ↔ Agrees r fs₁ fs' :=
  ⟨fun h' => h.symm.trans h', fun h' => h.trans h'⟩

end Agrees

/-- A call of `malloc` changes no counts or bits. -/
lemma agrees_withMallocs (r : Resource) (fs : Ext4) (n : ℕ) : Agrees r fs (fs.withMallocs n) :=
  (sameFree_withMallocs fs n).agrees r

/-- Writing back a bitmap of one resource leaves what is free of the other. -/
lemma Layout.agrees_store (h : Layout fs) (hne : r' ≠ r) (hbg : bg < fs.blockGroupCount)
    {bitmap : ℕ → BitVec 8} (hbgd : ∀ k < 12, bgd k = fs.bgd bg k)
    (hcount : r'.countOf bgd = fs.groupCount r' bg) (hsb : SameGeometry fs.superBlock sb)
    (hsuper : r'.superCountOf sb = fs.superCount r') :
    Agrees r' fs (fs.store bg ((Record.bitmap r bg).location fs) bitmap bgd sb) := by
  refine ⟨h.sameLayout_store bitmap hbg hbgd hsb, fun bg' j hbg' hj => ?_, fun bg' hbg' => ?_, ?_⟩
  · rw [h.bit_store bitmap hbg hbgd hsb hbg' hj, if_neg fun hall => hne hall.1]
  · rw [h.groupCount_store hbg hsb bitmap hbg']
    split_ifs with he
    · rw [hcount, he]
    · rfl
  · rw [superCount_store, hsuper]

/-- Taking an item of one kind leaves the items of the other kind. -/
lemma Layout.agrees_taken (h : Layout fs) (hne : r' ≠ r) (hbg : bg < fs.blockGroupCount) (i : ℕ) :
    Agrees r' fs (fs.taken r bg i) :=
  h.agrees_store hne hbg (fun _ hk => takeFromGroup_of_lt _ hk) (countOf_takeFromGroup_of_ne hne)
    (sameGeometry_takeFromSuper r _) (superCountOf_takeFromSuper_of_ne hne)

/-- A search depends on the elements. -/
lemma searched_congr {α : Type} {p q : α → Bool} {l : List α} (h : ∀ a ∈ l, p a = q a) :
    searched p l = searched q l := by
  induction l with
  | nil => rfl
  | cons a l ih =>
    rw [searched, searched, h a List.mem_cons_self, ih fun b hb => h b (List.mem_cons_of_mem _ hb)]

/-- So does the first free bit of some groups, and the number of bitmaps that are read for it. -/
lemma freeIn_congr (h : ∀ bg ∈ groups, fs'.freeBit r bg = fs.freeBit r bg) :
    fs'.freeIn r groups = fs.freeIn r groups ∧ fs'.bitmapsRead r groups = fs.bitmapsRead r groups := by
  refine ⟨?_, searched_congr fun bg hbg => by rw [h bg hbg]⟩
  induction groups with
  | nil => rfl
  | cons bg groups ih =>
    have hrest := ih fun bg' hbg' => h bg' (List.mem_cons_of_mem _ hbg')
    rw [freeIn] at hrest
    rw [freeIn, freeIn, List.findSome?_cons, List.findSome?_cons, h bg List.mem_cons_self, hrest]
    rfl

namespace Agrees

/-- The same bit of a group is free. -/
lemma freeBit_eq (h : Agrees r fs fs') (hlayout : Layout fs) (hbg : bg < fs.blockGroupCount) :
    fs'.freeBit r bg = fs.freeBit r bg := by
  rw [freeBit, freeBit, h.layout.perGroup]
  refine List.find?_congr fun i hi => ?_
  have hlt := Nat.lt_of_lt_of_le (List.mem_range.1 hi) (hlayout.perGroup_le r)
  rw [h.layout.skipped, h.bits bg i hbg hlt]

/-- The same groups count some. -/
lemma countingGroups_eq (h : Agrees r fs fs') : fs'.countingGroups r = fs.countingGroups r := by
  rw [countingGroups, countingGroups, h.super, h.layout.blockGroupCount]
  split_ifs
  · rfl
  · refine List.filter_congr fun bg hbg => ?_
    rw [h.groups bg (List.mem_range.1 hbg)]

/-- **What is offered is the same** if the same is free, and so are the calls of `malloc`. -/
lemma offers_eq (h : Agrees r fs fs') (hlayout : Layout fs) :
    fs'.buffersWanted r = fs.buffersWanted r ∧ fs'.buffersUsed r = fs.buffersUsed r ∧
      fs'.offers r = fs.offers r := by
  have hfree : ∀ bg ∈ fs.countingGroups r, fs'.freeBit r bg = fs.freeBit r bg := by
    intro bg hmem
    rw [countingGroups] at hmem
    split_ifs at hmem
    · exact absurd hmem List.not_mem_nil
    · exact h.freeBit_eq hlayout (List.mem_range.1 (List.mem_filter.1 hmem).1)
  obtain ⟨hfound, hread⟩ := freeIn_congr hfree
  have hwanted : fs'.buffersWanted r = fs.buffersWanted r := by
    rw [buffersWanted, buffersWanted, h.countingGroups_eq, hread]
  refine ⟨hwanted, ?_, ?_⟩
  · funext m
    rw [buffersUsed, buffersUsed, hwanted, h.layout.memory]
  · funext m
    rw [offers, offers, hwanted, h.layout.memory, h.countingGroups_eq, hfound]

end Agrees

end Ext4

end Jarvis
