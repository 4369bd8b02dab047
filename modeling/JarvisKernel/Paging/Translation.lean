import JarvisKernel.Paging.KernelMap

set_option relaxedAutoImplicit false
set_option autoImplicit false

/-!
# Page directories as flat maps

The walk of `pd_get_physical_address` goes through two levels of tables, of which the lower are created when
a page in them is mapped for the first time. With page tables that are separate objects, the pair of
`pd_map_page` and `pd_unmap_page` works on a directory as on one flat map from pages to frames: a call
changes one page.

## Main definitions

* `Jarvis.VirtualMemory.Separate` — the page tables of a directory are objects of their own.
* `Jarvis.VirtualMemory.frameOf` — the flat map of a directory.

## Main results

* `Jarvis.VirtualMemory.Separate.pdMapPage`, `Separate.pdUnmapPage` — the effect on the flat map.
* `Jarvis.VirtualMemory.translation_of_calls` — the effect on the translations of all addresses.
-/

namespace Jarvis

namespace VirtualMemory

variable {v w : VirtualMemory} {d a address physicalAddress flags : ℕ}

/-! ## Masks -/

/-- `PAGE_MASK`. -/
def pageMask : ℕ := 0xFFFFF000

/-- `OFFSET_MASK`. -/
def offsetMask : ℕ := 0x00000FFF

/-- The mask of a page address clears the twelve lowest bits. -/
lemma and_pageMask (ha : a < 2 ^ 32) : a &&& pageMask = a / pageSize * pageSize := by
  have hmask : pageMask = (2 ^ 20 - 1) <<< 12 := rfl
  have hshift : a / pageSize * pageSize = (a >>> 12) <<< 12 := by
    rw [Nat.shiftLeft_eq, Nat.shiftRight_eq_div_pow]
    rfl
  rw [hmask, hshift]
  apply Nat.eq_of_testBit_eq
  intro i
  rw [Nat.testBit_and, Nat.testBit_shiftLeft, Nat.testBit_shiftLeft, Nat.testBit_shiftRight,
    Nat.testBit_two_pow_sub_one]
  by_cases hlow : 12 ≤ i
  · by_cases hhigh : i < 32
    · simp [hlow, show i - 12 < 20 by omega, show 12 + (i - 12) = i by omega]
    · have hbit : a.testBit i = false := by
        apply Nat.testBit_lt_two_pow
        exact lt_of_lt_of_le ha (Nat.pow_le_pow_right (by decide) (by omega))
      simp [hlow, show 12 + (i - 12) = i by omega, hbit]
  · simp [hlow]

/-- The translation of an address: the page's address and the offset share no bit. -/
lemma page_or_offset (hp : physicalAddress < 2 ^ 32) :
    (physicalAddress &&& pageMask) ||| (a &&& offsetMask) =
      physicalAddress / pageSize * pageSize + a % pageSize := by
  have hoffset : a &&& offsetMask = a % 2 ^ 12 := Nat.and_two_pow_sub_one_eq_mod a 12
  have hpage : physicalAddress / pageSize * pageSize = (physicalAddress / 2 ^ 12) <<< 12 := by
    rw [Nat.shiftLeft_eq]
    rfl
  rw [and_pageMask hp, hoffset, hpage, show a % pageSize = a % 2 ^ 12 from rfl]
  exact (Nat.shiftLeft_add_eq_or_of_lt (Nat.mod_lt _ (by decide)) _).symm

/-! ## The flat map -/

instance (a b : ℕ) : Decidable (SamePage a b) :=
  inferInstanceAs (Decidable (dirIndex a = dirIndex b ∧ tableIndex a = tableIndex b))

/-- The page tables of a directory are objects of their own: no two entries lead to one table, and `malloc`
returns none of them again. -/
structure Separate (v : VirtualMemory) (d : ℕ) : Prop where
  table_lt : ∀ i, (v.directories d i).present = true → (v.directories d i).pageTable < v.mallocs
  one_index : ∀ i j, (v.directories d i).present = true → (v.directories d j).present = true →
    (v.directories d i).pageTable = (v.directories d j).pageTable → i = j

/-- In a memory that was run up from the boot, every directory has tables of its own in this sense. -/
lemma Linked.separate (h : Linked v) (hd : d ∈ v.live) : v.Separate d :=
  ⟨fun i hi => h.table_lt d hd i hi, fun i j hi hj ht => h.one_index d hd d hd i j hi hj ht⟩

/-- The page to which the directory maps the page of an address. -/
def frameOf (v : VirtualMemory) (d a : ℕ) : Option ℕ :=
  if v.isMapped d a then some (v.entry d a).pageBaseAddress else none

/-- A page has a frame exactly if it is mapped. -/
lemma isSome_frameOf : (v.frameOf d a).isSome = v.isMapped d a := by
  rw [frameOf]
  cases v.isMapped d a <;> rfl

/-- It has none exactly if it is not. -/
lemma frameOf_eq_none_iff : v.frameOf d a = none ↔ v.isMapped d a = false := by
  rw [← isSome_frameOf]
  cases v.frameOf d a <;> simp

/-- A translation is a lookup in the flat map. -/
lemma pdGetPhysicalAddress_eq (v : VirtualMemory) (d a : ℕ) :
    v.pdGetPhysicalAddress d a =
      match v.frameOf d a with
      | none => 0
      | some f => f * pageSize + a % pageSize := by
  rw [pdGetPhysicalAddress, frameOf]
  cases v.isMapped d a <;> rfl

/-- What the flat map reads of a directory. -/
lemma frameOf_congr (hdir : w.directories d (dirIndex a) = v.directories d (dirIndex a))
    (htable : (v.directories d (dirIndex a)).present = true →
      w.tables (v.directories d (dirIndex a)).pageTable (tableIndex a) =
        v.tables (v.directories d (dirIndex a)).pageTable (tableIndex a)) :
    w.frameOf d a = v.frameOf d a := by
  unfold frameOf isMapped entry
  rw [hdir]
  cases hpres : (v.directories d (dirIndex a)).present with
  | false => rfl
  | true => rw [htable hpres]

/-- A page and the flat map: two addresses of a page are mapped alike. -/
lemma frameOf_of_samePage {b : ℕ} (h : SamePage a b) : v.frameOf d a = v.frameOf d b := by
  unfold frameOf isMapped entry
  rw [h.1, h.2]

/-- A new table keeps the tables separate, and maps no page. -/
lemma Separate.withTable (h : v.Separate d) (address flags : ℕ)
    (habs : (v.directories d (dirIndex address)).present = false) :
    (v.withTable d address flags).Separate d ∧
      ∀ a, (v.withTable d address flags).frameOf d a = v.frameOf d a := by
  have hself : ((v.withTable d address flags).directories d (dirIndex address)).present = true ∧
      ((v.withTable d address flags).directories d (dirIndex address)).pageTable = v.mallocs :=
    directories_withTable_self
  have hother : ∀ i, i ≠ dirIndex address →
      (v.withTable d address flags).directories d i = v.directories d i :=
    fun i hi => directories_withTable_of_ne fun hc => hi hc.2
  have hnew : (v.withTable d address flags).mallocs = v.mallocs + 1 := rfl
  refine ⟨⟨fun i hi => ?_, fun i j hi hj ht => ?_⟩, fun a => ?_⟩
  · rw [hnew]
    by_cases hii : i = dirIndex address
    · rw [hii, hself.2]
      omega
    · rw [hother i hii] at hi ⊢
      have := h.table_lt i hi
      omega
  · by_cases hii : i = dirIndex address
    · by_cases hjj : j = dirIndex address
      · rw [hii, hjj]
      · rw [hother j hjj] at hj ht
        rw [hii, hself.2] at ht
        have := h.table_lt j hj
        omega
    · rw [hother i hii] at hi ht
      by_cases hjj : j = dirIndex address
      · rw [hjj, hself.2] at ht
        have := h.table_lt i hi
        omega
      · rw [hother j hjj] at hj ht
        exact h.one_index i j hi hj ht
  · by_cases ha : dirIndex a = dirIndex address
    · have hold : v.frameOf d a = none := by
        rw [frameOf_eq_none_iff, isMapped, ha, habs]
        rfl
      rw [hold, frameOf_eq_none_iff, isMapped, entry, ha, hself.2, tables_withTable_self]
      simp
    · refine frameOf_congr (hother _ ha) fun hpres => ?_
      rw [tables_withTable_of_lt (h.table_lt _ hpres)]

/-- The tables stay separate if an entry is set. -/
lemma Separate.setEntry (h : v.Separate d) (address : ℕ) (e : PageTableEntry) :
    (v.setEntry d address e).Separate d := ⟨h.table_lt, h.one_index⟩

/-- An assignment to an entry changes one page of the flat map. -/
lemma Separate.frameOf_setEntry (h : v.Separate d)
    (hpres : (v.directories d (dirIndex address)).present = true) (e : PageTableEntry) (a : ℕ) :
    (v.setEntry d address e).frameOf d a =
      if SamePage a address then (if e.present then some e.pageBaseAddress else none)
      else v.frameOf d a := by
  split_ifs with hsame he
  · obtain ⟨hi, hj⟩ := hsame
    have hentry : (v.setEntry d address e).entry d a = e := by
      simp [entry, VirtualMemory.setEntry, hi, hj]
    rw [frameOf, isMapped, hentry, he, if_pos]
    show ((v.directories d (dirIndex a)).present && true) = true
    rw [hi, hpres]
    rfl
  · obtain ⟨hi, hj⟩ := hsame
    have hentry : (v.setEntry d address e).entry d a = e := by
      simp [entry, VirtualMemory.setEntry, hi, hj]
    rw [frameOf_eq_none_iff, isMapped, hentry]
    simp [he]
  · refine frameOf_congr (v := v) rfl fun hpres' => ?_
    by_cases ht : (v.directories d (dirIndex a)).pageTable =
        (v.directories d (dirIndex address)).pageTable
    · have hi := h.one_index _ _ hpres' hpres ht
      have hj : tableIndex a ≠ tableIndex address := fun hj => hsame ⟨hi, hj⟩
      simp [VirtualMemory.setEntry, ht, hj]
    · simp [VirtualMemory.setEntry, ht]

/-! ## The functions -/

/-- `pd_map_page` maps the page, or fails and leaves the flat map as it is. -/
lemma Separate.pdMapPage (h : v.Separate d) (address physicalAddress flags : ℕ) :
    (v.pdMapPage d address physicalAddress flags).1.Separate d ∧
      ∀ a, (v.pdMapPage d address physicalAddress flags).1.frameOf d a =
        if (v.pdMapPage d address physicalAddress flags).2 = true ∧ SamePage a address then
          some (physicalAddress / pageSize)
        else v.frameOf d a := by
  rcases pdMapPage_cases v d address physicalAddress flags with
    ⟨-, hcode⟩ | ⟨-, hcode⟩ | ⟨u, hu, hcode⟩
  · rw [hcode]
    exact ⟨h, fun a => by simp⟩
  · rw [hcode]
    refine ⟨⟨fun i hi => Nat.lt_succ_of_lt (h.table_lt i hi), h.one_index⟩, fun a => ?_⟩
    simp only [Bool.false_eq_true, false_and, if_false]
    exact frameOf_congr (v := v) rfl fun _ => rfl
  · rw [hcode]
    -- the memory in which the entry is assigned has a table for it, and the same flat map
    obtain ⟨hsep, hpres, hflat⟩ : u.Separate d ∧
        (u.directories d (dirIndex address)).present = true ∧
        ∀ a, u.frameOf d a = v.frameOf d a := by
      rcases hu with ⟨rfl, hpres⟩ | ⟨rfl, habs⟩
      · exact ⟨h, hpres, fun _ => rfl⟩
      · obtain ⟨hsep, hflat⟩ := h.withTable address flags habs
        exact ⟨hsep, directories_withTable_self.1, hflat⟩
    refine ⟨hsep.setEntry address _, fun a => ?_⟩
    rw [hsep.frameOf_setEntry hpres, hflat]
    simp [newEntry]

/-- `pd_unmap_page` unmaps the page. -/
lemma Separate.pdUnmapPage (h : v.Separate d) (address : ℕ) :
    (v.pdUnmapPage d address).Separate d ∧
      ∀ a, (v.pdUnmapPage d address).frameOf d a =
        if SamePage a address then none else v.frameOf d a := by
  rw [VirtualMemory.pdUnmapPage]
  split_ifs with hmap
  · have hpres : (v.directories d (dirIndex address)).present = true := by
      rw [isMapped, Bool.and_eq_true] at hmap
      exact hmap.1
    refine ⟨⟨h.table_lt, h.one_index⟩, fun a => ?_⟩
    exact h.frameOf_setEntry hpres {} a
  · refine ⟨h, fun a => ?_⟩
    split_ifs with hsame
    · rw [frameOf_of_samePage hsame, frameOf_eq_none_iff]
      simpa using hmap
    · rfl

/-- A successful `pd_map_page` translates the addresses of the page as it is told to, a failed one changes
no translation, and `pd_unmap_page` translates the addresses of the page to 0. Addresses of other pages are
translated as before. -/
theorem translation_of_calls (h : v.Separate d) (haddr : address < 2 ^ 32)
    (hp : physicalAddress < 2 ^ 32) (flags : ℕ) :
    ((v.pdMapPage d address physicalAddress flags).2 = true →
        ∀ a < 2 ^ 32, (v.pdMapPage d address physicalAddress flags).1.pdGetPhysicalAddress d a =
          if a / pageSize = address / pageSize then
            (physicalAddress &&& pageMask) ||| (a &&& offsetMask)
          else v.pdGetPhysicalAddress d a) ∧
      ((v.pdMapPage d address physicalAddress flags).2 = false →
        ∀ a < 2 ^ 32, (v.pdMapPage d address physicalAddress flags).1.pdGetPhysicalAddress d a =
          v.pdGetPhysicalAddress d a) ∧
      ∀ a < 2 ^ 32, (v.pdUnmapPage d address).pdGetPhysicalAddress d a =
        if a / pageSize = address / pageSize then 0 else v.pdGetPhysicalAddress d a := by
  have hmap := (h.pdMapPage address physicalAddress flags).2
  have hunmap := (h.pdUnmapPage address).2
  refine ⟨fun hok a ha => ?_, fun hfail a ha => ?_, fun a ha => ?_⟩
  · rw [pdGetPhysicalAddress_eq, hmap, pdGetPhysicalAddress_eq, page_or_offset hp]
    simp only [hok, true_and, samePage_iff ha haddr]
    split_ifs <;> rfl
  · rw [pdGetPhysicalAddress_eq, hmap, pdGetPhysicalAddress_eq]
    simp [hfail]
  · rw [pdGetPhysicalAddress_eq, hunmap, pdGetPhysicalAddress_eq]
    simp only [samePage_iff ha haddr]
    split_ifs <;> rfl

/-- A directory in which no page is mapped yet. -/
def unmapped : VirtualMemory := boot (fun _ => true) 0x100000 0x100000 0x100000

/-- `unmapped` has separate tables. -/
lemma separate_unmapped : unmapped.Separate 0 := by
  have hboot : unmapped.directories 0 = fun _ => {} := rfl
  constructor
  · intro i hi
    simp [hboot] at hi
  · intro i j hi
    simp [hboot] at hi

/-- A page that is mapped by an address in its middle. -/
theorem translation_of_calls_unmapped :
    (unmapped.pdMapPage 0 0x800123 0x1001456 2).2 = true ∧
      ∀ a < 2 ^ 32, (unmapped.pdMapPage 0 0x800123 0x1001456 2).1.pdGetPhysicalAddress 0 a =
        if a / pageSize = 0x800123 / pageSize then
          (0x1001456 &&& pageMask) ||| (a &&& offsetMask)
        else unmapped.pdGetPhysicalAddress 0 a :=
  ⟨rfl, (translation_of_calls separate_unmapped (by decide) (by decide) 2).1 rfl⟩

end VirtualMemory

end Jarvis
