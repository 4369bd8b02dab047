import JarvisKernel.Lib.Run
import JarvisKernel.Paging.Defs

set_option relaxedAutoImplicit false
set_option autoImplicit false

/-!
# The kernel in the directories of processes

`on_init_virtual_memory_manager` maps the kernel's pages to themselves, and `pd_create` copies the
directory entries from 768 on. The directories of processes translate the kernel's addresses as the kernel
directory does only if these addresses have copied entries. The kernel runs at 1 MB, where they have not.

Tables may be shared here: a copied entry leads to the table of the kernel directory. What matters is that
a table is reached by one directory index only, so that an assignment to an entry is seen at the addresses
of one page.

## Main definitions

* `Jarvis.VirtualMemory.MapOp`, `Jarvis.VirtualMemory.mapStep` — `pd_create` and `pd_map_page`.
* `Jarvis.VirtualMemory.Linked` — a table is reached by one directory index.
* `Jarvis.VirtualMemory.AgreesWithKernel` — the property of `pd_create`.

## Main results

* `Jarvis.VirtualMemory.pdGetPhysicalAddress_pdMapPage_of_ne` — other pages are translated as before.
* `Jarvis.VirtualMemory.agreesWithKernel_iff` — when all directories agree with that of the kernel.
-/

namespace Jarvis

namespace VirtualMemory

variable {v w : VirtualMemory} {d d' a b address flags physicalAddress : ℕ}

/-! ## Pages -/

/-- The addresses have the same entry in every directory. -/
def SamePage (a b : ℕ) : Prop := dirIndex a = dirIndex b ∧ tableIndex a = tableIndex b

/-- Two addresses are on one page if they have the same page number. -/
lemma samePage_iff (ha : a < 2 ^ 32) (hb : b < 2 ^ 32) :
    SamePage a b ↔ a / pageSize = b / pageSize := by
  rw [SamePage, dirIndex, dirIndex, tableIndex, tableIndex, show pageSize = 4096 from rfl]
  omega

/-- What exists was returned by an earlier `malloc`, and a table is reached by one directory index
only. -/
structure Linked (v : VirtualMemory) : Prop where
  kernel_live : v.kernelDirectory ∈ v.live
  live_lt : ∀ d ∈ v.live, d < v.mallocs
  table_lt : ∀ d ∈ v.live, ∀ i, (v.directories d i).present → (v.directories d i).pageTable < v.mallocs
  one_index : ∀ d ∈ v.live, ∀ d' ∈ v.live, ∀ i i', (v.directories d i).present →
    (v.directories d' i').present →
    (v.directories d i).pageTable = (v.directories d' i').pageTable → i = i'

/-! ## Mapping -/

/-- The memory after `pd_map_page` created a table for the address. -/
def withTable (v : VirtualMemory) (d address flags : ℕ) : VirtualMemory :=
  { v with mallocs := v.mallocs + 1 }.addTable d (dirIndex address) flags v.mallocs

/-- The new table is in the entry of the address. -/
lemma directories_withTable_self :
    ((v.withTable d address flags).directories d (dirIndex address)).present = true ∧
      ((v.withTable d address flags).directories d (dirIndex address)).pageTable = v.mallocs := by
  simp [withTable, addTable]

/-- The other entries are as before. -/
lemma directories_withTable_of_ne {i : ℕ} (h : ¬ (d' = d ∧ i = dirIndex address)) :
    (v.withTable d address flags).directories d' i = v.directories d' i := by
  by_cases hd : d' = d
  · subst hd
    have hi : i ≠ dirIndex address := fun hi => h ⟨rfl, hi⟩
    simp [withTable, addTable, hi]
  · simp [withTable, addTable, hd]

/-- The new table is empty. -/
lemma tables_withTable_self : (v.withTable d address flags).tables v.mallocs = fun _ => {} := by
  simp [withTable, addTable]

/-- The tables that exist are as before. -/
lemma tables_withTable_of_lt {t : ℕ} (h : t < v.mallocs) :
    (v.withTable d address flags).tables t = v.tables t := by
  have hne : t ≠ v.mallocs := Nat.ne_of_lt h
  simp [withTable, addTable, hne]

/-- A new table keeps the links. -/
lemma Linked.withTable (h : Linked v) (d address flags : ℕ) : Linked (v.withTable d address flags) := by
  have hcases : ∀ e i, (e = d ∧ i = dirIndex address ∧
      ((v.withTable d address flags).directories e i).pageTable = v.mallocs) ∨
      (v.withTable d address flags).directories e i = v.directories e i := by
    intro e i
    by_cases he : e = d ∧ i = dirIndex address
    · obtain ⟨rfl, rfl⟩ := he
      exact .inl ⟨rfl, rfl, directories_withTable_self.2⟩
    · exact .inr (directories_withTable_of_ne he)
  refine ⟨h.kernel_live, fun e he => Nat.lt_succ_of_lt (h.live_lt e he), ?_, ?_⟩
  · intro e he i hi
    rcases hcases e i with ⟨-, -, ht⟩ | ho
    · rw [ht]
      exact Nat.lt_succ_self _
    · rw [ho] at hi ⊢
      exact Nat.lt_succ_of_lt (h.table_lt e he i hi)
  · intro e he e' he' i i' hi hi' ht
    rcases hcases e i with ⟨-, hi₁, ht₁⟩ | ho
    · rcases hcases e' i' with ⟨-, hi₂, -⟩ | ho'
      · rw [hi₁, hi₂]
      · rw [ho'] at hi' ht
        have hlt := h.table_lt e' he' i' hi'
        omega
    · rw [ho] at hi ht
      rcases hcases e' i' with ⟨-, -, ht₂⟩ | ho'
      · have hlt := h.table_lt e he i hi
        omega
      · rw [ho'] at hi' ht
        exact h.one_index e he e' he' i i' hi hi' ht

/-- The entry that `pd_map_page` writes. -/
def newEntry (physicalAddress flags : ℕ) : PageTableEntry where
  present := true
  readWrite := flags.testBit pteWritable
  userSupervisor := flags.testBit pteUser
  writeThrough := flags.testBit pteWriteThrough
  cacheDisabled := flags.testBit pteCacheDisabled
  pageBaseAddress := physicalAddress / pageSize

/-- What `pd_map_page` can do: nothing but a call of `malloc`, or an assignment to an entry of a table
that was there, or to one of a new table. -/
lemma pdMapPage_cases (v : VirtualMemory) (d address physicalAddress flags : ℕ) :
    (physicalAddress = 0 ∧ v.pdMapPage d address physicalAddress flags = (v, false)) ∨
      (v.memory v.mallocs = false ∧ v.pdMapPage d address physicalAddress flags =
        ({ v with mallocs := v.mallocs + 1 }, false)) ∨
      ∃ u, (u = v ∧ (v.directories d (dirIndex address)).present = true ∨
          u = v.withTable d address flags ∧ (v.directories d (dirIndex address)).present = false) ∧
        v.pdMapPage d address physicalAddress flags =
          (u.setEntry d address (newEntry physicalAddress flags), true) := by
  rw [pdMapPage]
  split_ifs with hp
  · exact .inl ⟨hp, rfl⟩
  · rw [ensureTable]
    cases hpres : (v.directories d (dirIndex address)).present with
    | true => exact .inr (.inr ⟨v, .inl ⟨rfl, rfl⟩, rfl⟩)
    | false =>
      rw [mallocObject]
      cases hm : v.memory v.mallocs with
      | false => exact .inr (.inl ⟨rfl, rfl⟩)
      | true => exact .inr (.inr ⟨v.withTable d address flags, .inr ⟨rfl, rfl⟩, rfl⟩)

/-- Nothing is translated where the directory has no table. -/
lemma pdGetPhysicalAddress_of_absent (h : (v.directories d (dirIndex a)).present = false) :
    v.pdGetPhysicalAddress d a = 0 := by
  rw [pdGetPhysicalAddress, isMapped, h]
  rfl

/-- A translation depends on a directory entry and on a table entry. -/
lemma pdGetPhysicalAddress_congr
    (hdir : w.directories d' (dirIndex a) = v.directories d (dirIndex a))
    (htable : (v.directories d (dirIndex a)).present = true →
      w.tables (v.directories d (dirIndex a)).pageTable (tableIndex a) =
        v.tables (v.directories d (dirIndex a)).pageTable (tableIndex a)) :
    w.pdGetPhysicalAddress d' a = v.pdGetPhysicalAddress d a := by
  cases hpres : (v.directories d (dirIndex a)).present with
  | false =>
    rw [pdGetPhysicalAddress_of_absent hpres, pdGetPhysicalAddress_of_absent]
    rw [hdir]
    exact hpres
  | true =>
    have hentry : w.entry d' a = v.entry d a := by
      rw [entry, entry, hdir]
      exact htable hpres
    rw [pdGetPhysicalAddress, pdGetPhysicalAddress, isMapped, isMapped, hdir, hentry]

/-- A new table changes no translation. -/
lemma pdGetPhysicalAddress_withTable (h : Linked v)
    (habs : (v.directories d (dirIndex address)).present = false) (hd' : d' ∈ v.live) :
    (v.withTable d address flags).pdGetPhysicalAddress d' a = v.pdGetPhysicalAddress d' a := by
  by_cases hcase : d' = d ∧ dirIndex a = dirIndex address
  · obtain ⟨rfl, hi⟩ := hcase
    have hold : v.pdGetPhysicalAddress d' a = 0 := by
      apply pdGetPhysicalAddress_of_absent
      rw [hi]
      exact habs
    rw [hold, pdGetPhysicalAddress, if_neg]
    rw [isMapped, entry, hi, directories_withTable_self.2, tables_withTable_self]
    simp
  · apply pdGetPhysicalAddress_congr (directories_withTable_of_ne hcase)
    intro hpres
    rw [tables_withTable_of_lt (h.table_lt d' hd' _ hpres)]

/-- An assignment to an entry changes no translation of other pages, in any directory. -/
lemma pdGetPhysicalAddress_setEntry_of_ne (h : Linked v) (hd : d ∈ v.live)
    (hpres : (v.directories d (dirIndex address)).present = true) (hd' : d' ∈ v.live)
    (hne : ¬ SamePage a address) (e : PageTableEntry) :
    (v.setEntry d address e).pdGetPhysicalAddress d' a = v.pdGetPhysicalAddress d' a := by
  refine pdGetPhysicalAddress_congr (v := v) rfl fun hpres' => ?_
  by_cases ht : (v.directories d' (dirIndex a)).pageTable =
      (v.directories d (dirIndex address)).pageTable
  · have hi := h.one_index d' hd' d hd _ _ hpres' hpres ht
    have hj : tableIndex a ≠ tableIndex address := fun hj => hne ⟨hi, hj⟩
    rw [setEntry, ht]
    simp [hj]
  · simp [setEntry, ht]

/-- The translation of the page that was mapped. -/
lemma pdGetPhysicalAddress_setEntry_self
    (hpres : (v.directories d (dirIndex address)).present = true) (hsame : SamePage a address) :
    (v.setEntry d address (newEntry physicalAddress flags)).pdGetPhysicalAddress d a =
      physicalAddress / pageSize * pageSize + a % pageSize := by
  obtain ⟨hi, hj⟩ := hsame
  have hentry : (v.setEntry d address (newEntry physicalAddress flags)).entry d a =
      newEntry physicalAddress flags := by
    rw [entry, hi, hj]
    simp [setEntry]
  rw [pdGetPhysicalAddress, if_pos, hentry]
  · rfl
  · rw [isMapped, hentry, hi]
    exact Bool.and_eq_true_iff.2 ⟨hpres, rfl⟩

/-- What `pd_map_page` keeps: the directories, the links, and the translations of other pages. -/
structure Mapped (v w : VirtualMemory) (address : ℕ) : Prop where
  live : w.live = v.live
  kernelDirectory : w.kernelDirectory = v.kernelDirectory
  memory : w.memory = v.memory
  linked : Linked w
  other : ∀ d ∈ v.live, ∀ a, ¬ SamePage a address →
    w.pdGetPhysicalAddress d a = v.pdGetPhysicalAddress d a

/-- `pd_map_page` translates the page as it is told to, or fails and changes no translation. -/
lemma Linked.pdMapPage (h : Linked v) (hd : d ∈ v.live) (address physicalAddress flags : ℕ) :
    Mapped v (v.pdMapPage d address physicalAddress flags).1 address ∧
      ((∀ e a, (v.pdMapPage d address physicalAddress flags).1.pdGetPhysicalAddress e a =
          v.pdGetPhysicalAddress e a) ∧ (physicalAddress = 0 ∨ v.memory v.mallocs = false) ∨
        ∀ a, SamePage a address →
          (v.pdMapPage d address physicalAddress flags).1.pdGetPhysicalAddress d a =
            physicalAddress / pageSize * pageSize + a % pageSize) := by
  rcases pdMapPage_cases v d address physicalAddress flags with
    ⟨hp, hcode⟩ | ⟨hmem, hcode⟩ | ⟨u, hu, hcode⟩
  · rw [hcode]
    exact ⟨⟨rfl, rfl, rfl, h, fun _ _ _ _ => rfl⟩, .inl ⟨fun _ _ => rfl, .inl hp⟩⟩
  · rw [hcode]
    refine ⟨⟨rfl, rfl, rfl, ⟨h.kernel_live, fun e he => Nat.lt_succ_of_lt (h.live_lt e he),
      fun e he i hi => Nat.lt_succ_of_lt (h.table_lt e he i hi), h.one_index⟩,
      fun _ _ _ _ => rfl⟩, .inl ⟨fun _ _ => rfl, .inr hmem⟩⟩
  · rw [hcode]
    -- the memory in which the entry is assigned has a table for it, and translates as before
    obtain ⟨hlive, hkernel, hmem, hlink, hpres, htrans⟩ : u.live = v.live ∧
        u.kernelDirectory = v.kernelDirectory ∧ u.memory = v.memory ∧ Linked u ∧
        (u.directories d (dirIndex address)).present = true ∧
        ∀ e ∈ v.live, ∀ a, u.pdGetPhysicalAddress e a = v.pdGetPhysicalAddress e a := by
      rcases hu with ⟨rfl, hpres⟩ | ⟨rfl, habs⟩
      · exact ⟨rfl, rfl, rfl, h, hpres, fun _ _ _ => rfl⟩
      · exact ⟨rfl, rfl, rfl, h.withTable d address flags, directories_withTable_self.1,
          fun e he a => pdGetPhysicalAddress_withTable h habs he⟩
    have hd' : d ∈ u.live := hlive ▸ hd
    refine ⟨⟨hlive, hkernel, hmem, ⟨hlink.kernel_live, hlink.live_lt, hlink.table_lt,
      hlink.one_index⟩, fun e he a hne => ?_⟩, .inr fun a hsame => ?_⟩
    · rw [pdGetPhysicalAddress_setEntry_of_ne hlink hd' hpres (hlive ▸ he) hne, htrans e he]
    · exact pdGetPhysicalAddress_setEntry_self hpres hsame

/-! ## The kernel directory -/

/-- An address that is translated to itself stays so while further pages are mapped to themselves. -/
lemma Linked.mapKernel (h : Linked v) {stop : ℕ} (hstop : stop ≤ 2 ^ 32) (fuel address : ℕ) :
    Linked (v.mapKernel stop fuel address) ∧ (v.mapKernel stop fuel address).live = v.live ∧
      (v.mapKernel stop fuel address).kernelDirectory = v.kernelDirectory ∧
      (v.mapKernel stop fuel address).memory = v.memory ∧
      ∀ a < 2 ^ 32, v.pdGetPhysicalAddress v.kernelDirectory a = a →
        (v.mapKernel stop fuel address).pdGetPhysicalAddress v.kernelDirectory a = a := by
  induction fuel generalizing v address with
  | zero => exact ⟨h, rfl, rfl, rfl, fun _ _ ha => ha⟩
  | succ fuel ih =>
    rw [VirtualMemory.mapKernel]
    split_ifs with hlt
    · obtain ⟨hmapped, htrans⟩ := h.pdMapPage h.kernel_live address address 3
      set u := (v.pdMapPage v.kernelDirectory address address 3).1 with hu
      obtain ⟨hlink, hlive, hkernel, hmem, hkeep⟩ := ih hmapped.linked (address + pageSize)
      refine ⟨hlink, hlive.trans hmapped.live, hkernel.trans hmapped.kernelDirectory,
        hmem.trans hmapped.memory, ?_⟩
      intro a ha hself
      have hstep : u.pdGetPhysicalAddress u.kernelDirectory a = a := by
        rw [hmapped.kernelDirectory]
        by_cases hsame : SamePage a address
        · rcases htrans with ⟨hold, -⟩ | hnew
          · rw [hold, hself]
          · rw [hnew a hsame, ← (samePage_iff ha (by omega)).1 hsame]
            exact Nat.div_add_mod' a pageSize
        · rw [hmapped.other _ h.kernel_live a hsame, hself]
      rw [← hmapped.kernelDirectory]
      exact hkeep a ha hstep
    · exact ⟨h, rfl, rfl, rfl, fun _ _ ha => ha⟩

/-- With memory for the tables, an address at which the loop maps a page is translated to itself. -/
lemma Linked.mapKernel_self (h : Linked v) (hmem : ∀ n, v.memory n = true) {stop : ℕ}
    (hstop : stop ≤ 2 ^ 32) (fuel : ℕ) (hlt : address < stop) (hne : address ≠ 0) :
    (v.mapKernel stop (fuel + 1) address).pdGetPhysicalAddress v.kernelDirectory address =
      address := by
  rw [VirtualMemory.mapKernel, if_pos hlt]
  obtain ⟨hmapped, htrans⟩ := h.pdMapPage h.kernel_live address address 3
  have hself : (v.pdMapPage v.kernelDirectory address address 3).1.pdGetPhysicalAddress
      v.kernelDirectory address = address := by
    rcases htrans with ⟨-, hzero | hfail⟩ | hnew
    · exact absurd hzero hne
    · rw [hmem] at hfail
      simp at hfail
    · rw [hnew address ⟨rfl, rfl⟩]
      exact Nat.div_add_mod' address pageSize
  generalize (v.pdMapPage v.kernelDirectory address address 3).1 = u at hmapped hself ⊢
  rw [← hmapped.kernelDirectory] at hself ⊢
  exact (hmapped.linked.mapKernel hstop fuel (address + pageSize)).2.2.2.2 address (by omega) hself

/-! ## New directories -/

/-- A present entry of a directory after `pd_create` is one of a directory that was there, at the same
index. -/
lemma Linked.pdCreate_from (h : Linked v) (hm : v.memory v.mallocs = true) (hd : d ∈ v.pdCreate.1.live)
    {i : ℕ} (hi : (v.pdCreate.1.directories d i).present = true) :
    ∃ e ∈ v.live, v.pdCreate.1.directories d i = v.directories e i := by
  have hlive : v.pdCreate.1.live = v.mallocs :: v.live := by rw [pdCreate_of_malloc hm]
  rw [hlive] at hd
  rcases List.mem_cons.1 hd with rfl | hd
  · rw [pdCreate_directories_self hm i] at hi ⊢
    split_ifs at hi ⊢
    exact ⟨_, h.kernel_live, rfl⟩
  · exact ⟨d, hd, by rw [pdCreate_directories hm (Nat.ne_of_lt (h.live_lt d hd))]⟩

/-- `pd_create` keeps what exists apart. -/
lemma Linked.pdCreate (h : Linked v) : Linked v.pdCreate.1 := by
  cases hm : v.memory v.mallocs with
  | false =>
    rw [pdCreate_of_no_malloc hm]
    exact ⟨h.kernel_live, fun e he => Nat.lt_succ_of_lt (h.live_lt e he),
      fun e he i hi => Nat.lt_succ_of_lt (h.table_lt e he i hi), h.one_index⟩
  | true =>
    have hfrom := fun d hd i => h.pdCreate_from (d := d) (i := i) hm hd
    have hlive : v.pdCreate.1.live = v.mallocs :: v.live := by rw [pdCreate_of_malloc hm]
    have hcount : v.pdCreate.1.mallocs = v.mallocs + 1 := by rw [pdCreate_of_malloc hm]
    have hkernel : v.pdCreate.1.kernelDirectory = v.kernelDirectory := by rw [pdCreate_of_malloc hm]
    refine ⟨?_, fun e he => ?_, fun e he i hi => ?_, fun e₁ he₁ e₂ he₂ i₁ i₂ hi₁ hi₂ ht => ?_⟩
    · rw [hkernel, hlive]
      exact List.mem_cons_of_mem _ h.kernel_live
    · rw [hlive] at he
      rw [hcount]
      rcases List.mem_cons.1 he with rfl | he
      · omega
      · have := h.live_lt e he
        omega
    · obtain ⟨e', he', heq⟩ := hfrom e he i hi
      rw [heq] at hi ⊢
      rw [hcount]
      exact Nat.lt_succ_of_lt (h.table_lt e' he' i hi)
    · obtain ⟨e₁', he₁', heq₁⟩ := hfrom e₁ he₁ i₁ hi₁
      obtain ⟨e₂', he₂', heq₂⟩ := hfrom e₂ he₂ i₂ hi₂
      rw [heq₁] at hi₁ ht
      rw [heq₂] at hi₂ ht
      exact h.one_index e₁' he₁' e₂' he₂' i₁ i₂ hi₁ hi₂ ht

/-- `pd_create` changes no translation. -/
lemma Linked.pdGetPhysicalAddress_pdCreate (h : Linked v) (hd : d ∈ v.live) (a : ℕ) :
    v.pdCreate.1.pdGetPhysicalAddress d a = v.pdGetPhysicalAddress d a := by
  cases hm : v.memory v.mallocs with
  | false =>
    rw [pdCreate_of_no_malloc hm]
    rfl
  | true =>
    refine pdGetPhysicalAddress_congr ?_ fun _ => by rw [pdCreate_of_malloc hm]
    rw [pdCreate_directories hm (Nat.ne_of_lt (h.live_lt d hd))]

/-- A new directory translates addresses with copied entries as the kernel directory does, and no
others. -/
lemma pdGetPhysicalAddress_pdCreate_self (hm : v.memory v.mallocs = true) (a : ℕ) :
    v.pdCreate.1.pdGetPhysicalAddress v.mallocs a =
      if kernelEntries ≤ dirIndex a then v.pdGetPhysicalAddress v.kernelDirectory a else 0 := by
  split_ifs with hi
  · refine pdGetPhysicalAddress_congr ?_ fun _ => by rw [pdCreate_of_malloc hm]
    rw [pdCreate_directories_self hm, if_pos hi]
  · apply pdGetPhysicalAddress_of_absent
    rw [pdCreate_directories_self hm, if_neg hi]

/-! ## Runs -/

/-- The operations on directories, once the kernel is mapped. -/
inductive MapOp where
  | create
  | map (d address physicalAddress flags : ℕ)

/-- One operation. -/
def mapStep (v : VirtualMemory) : MapOp → Option VirtualMemory
  | .create => some v.pdCreate.1
  | .map d address physicalAddress flags => some (v.pdMapPage d address physicalAddress flags).1

/-- Pages are mapped in the directories of processes, at addresses whose pages are not pages of the
kernel. -/
def OutsideKernel (kernelStart kernelEnd : ℕ) (v : VirtualMemory) : MapOp → Prop
  | .create => True
  | .map d address _ _ => d ∈ v.live ∧ d ≠ v.kernelDirectory ∧ address < 2 ^ 32 ∧
      ∀ a, kernelStart ≤ a → a < kernelEnd → a / pageSize ≠ address / pageSize

/-- Every directory translates the addresses of the kernel as the kernel directory does, after every run
that maps pages outside the kernel. -/
def AgreesWithKernel (size kernelStart kernelEnd : ℕ) : Prop :=
  ∀ memory ops v, Run.Follows mapStep (OutsideKernel kernelStart kernelEnd)
      (boot memory size kernelStart kernelEnd) ops →
    Run.exec mapStep (boot memory size kernelStart kernelEnd) ops = some v →
    ∀ d ∈ v.live, ∀ a, kernelStart ≤ a → a < kernelEnd →
      v.pdGetPhysicalAddress d a = v.pdGetPhysicalAddress v.kernelDirectory a

/-- The invariant: the directories agree on the kernel's addresses, and those without a copied entry are
not translated. -/
structure Agrees (kernelStart kernelEnd : ℕ) (v : VirtualMemory) : Prop where
  linked : Linked v
  agrees : ∀ d ∈ v.live, ∀ a, kernelStart ≤ a → a < kernelEnd →
    v.pdGetPhysicalAddress d a = v.pdGetPhysicalAddress v.kernelDirectory a
  uncopied : ∀ a, kernelStart ≤ a → a < kernelEnd → dirIndex a < kernelEntries →
    v.pdGetPhysicalAddress v.kernelDirectory a = 0

variable {kernelStart kernelEnd : ℕ}

/-- Mapping a page outside the kernel changes no translation of the kernel's addresses. -/
lemma Agrees.pdMapPage (h : Agrees kernelStart kernelEnd v) (hend : kernelEnd ≤ 2 ^ 32)
    (hd : d ∈ v.live) (haddr : address < 2 ^ 32)
    (hout : ∀ a, kernelStart ≤ a → a < kernelEnd → a / pageSize ≠ address / pageSize) :
    Agrees kernelStart kernelEnd (v.pdMapPage d address physicalAddress flags).1 := by
  obtain ⟨hmapped, -⟩ := h.linked.pdMapPage hd address physicalAddress flags
  generalize (v.pdMapPage d address physicalAddress flags).1 = u at hmapped ⊢
  have hsame : ∀ e ∈ v.live, ∀ a, kernelStart ≤ a → a < kernelEnd →
      u.pdGetPhysicalAddress e a = v.pdGetPhysicalAddress e a := by
    intro e he a ha ha'
    apply hmapped.other e he a
    rw [samePage_iff (by omega) haddr]
    exact hout a ha ha'
  refine ⟨hmapped.linked, fun e he a ha ha' => ?_, fun a ha ha' hi => ?_⟩
  · rw [hmapped.live] at he
    rw [hmapped.kernelDirectory, hsame e he a ha ha', hsame _ h.linked.kernel_live a ha ha']
    exact h.agrees e he a ha ha'
  · rw [hmapped.kernelDirectory, hsame _ h.linked.kernel_live a ha ha']
    exact h.uncopied a ha ha' hi

/-- Creating a directory changes no translation of the kernel's addresses, and the new one translates those
with copied entries. -/
lemma Agrees.pdCreate (h : Agrees kernelStart kernelEnd v) :
    Agrees kernelStart kernelEnd v.pdCreate.1 := by
  have hl := h.linked
  have hkernel : v.pdCreate.1.kernelDirectory = v.kernelDirectory := by
    cases hm : v.memory v.mallocs with
    | false => rw [pdCreate_of_no_malloc hm]
    | true => rw [pdCreate_of_malloc hm]
  refine ⟨hl.pdCreate, fun e he a ha ha' => ?_, fun a ha ha' hi => ?_⟩
  · rw [hkernel, hl.pdGetPhysicalAddress_pdCreate hl.kernel_live]
    by_cases hold : e ∈ v.live
    · rw [hl.pdGetPhysicalAddress_pdCreate hold]
      exact h.agrees e hold a ha ha'
    · cases hm : v.memory v.mallocs with
      | false =>
        rw [pdCreate_of_no_malloc hm] at he
        exact absurd he hold
      | true =>
        rw [pdCreate_of_malloc hm] at he
        obtain rfl : e = v.mallocs := (List.mem_cons.1 he).resolve_right hold
        rw [pdGetPhysicalAddress_pdCreate_self hm]
        split_ifs with hi
        · rfl
        · exact (h.uncopied a ha ha' (by omega)).symm
  · rw [hkernel, hl.pdGetPhysicalAddress_pdCreate hl.kernel_live]
    exact h.uncopied a ha ha' hi

/-- A new directory translates no address without a copied entry. -/
lemma pdCreate_uncopied (h : Linked v) (hmem : v.memory v.mallocs = true)
    (hi : dirIndex a < kernelEntries) :
    v.mallocs ∈ v.pdCreate.1.live ∧ v.pdCreate.1.kernelDirectory = v.kernelDirectory ∧
      v.pdCreate.1.pdGetPhysicalAddress v.mallocs a = 0 ∧
      v.pdCreate.1.pdGetPhysicalAddress v.kernelDirectory a =
        v.pdGetPhysicalAddress v.kernelDirectory a := by
  refine ⟨?_, ?_, ?_, h.pdGetPhysicalAddress_pdCreate h.kernel_live a⟩
  · rw [pdCreate_of_malloc hmem]
    exact List.mem_cons_self
  · rw [pdCreate_of_malloc hmem]
  · rw [pdGetPhysicalAddress_pdCreate_self hmem, if_neg (by omega)]

/-- The memory before the kernel is mapped. -/
lemma linked_start (memory : ℕ → Bool) (m : PageFrameManager) :
    Linked
      { frameManager := m, kernelDirectory := 0, directories := fun _ _ => {},
        tables := fun _ _ => {}, live := [0], mallocs := 1, memory := memory } := by
  refine ⟨List.mem_singleton_self 0, fun d hd => ?_, fun d _ i hi => ?_, fun d _ d' _ i i' hi => ?_⟩
  · rw [List.mem_singleton.1 hd]
    exact Nat.one_pos
  · simp at hi
  · simp at hi

/-- The range is empty, has copied entries, or is the page at address 0, which is not mapped. -/
def Copied (kernelStart kernelEnd : ℕ) : Prop :=
  kernelEnd ≤ kernelStart ∨ kernelEntries * 2 ^ 22 ≤ kernelStart ∨
    kernelStart = 0 ∧ kernelEnd ≤ pageSize

/-- The invariant holds when the kernel is mapped, if its addresses have copied entries. -/
lemma agrees_boot (hend : kernelEnd ≤ 2 ^ 32) (hcopied : Copied kernelStart kernelEnd)
    (memory : ℕ → Bool) (size : ℕ) :
    Agrees kernelStart kernelEnd (boot memory size kernelStart kernelEnd) := by
  have hstart := linked_start memory (PageFrameManager.pfmInit frameManagerStart size)
  obtain ⟨hlink, hlive, hkernel, -, -⟩ := hstart.mapKernel hend (kernelEnd - kernelStart) kernelStart
  refine ⟨hlink, fun d hd a _ _ => ?_, fun a ha ha' hi => ?_⟩
  · have hd' : d ∈ [0] := by
      rw [boot, hlive] at hd
      exact hd
    have hk : (boot memory size kernelStart kernelEnd).kernelDirectory = 0 := hkernel
    rw [List.mem_singleton.1 hd', hk]
  · rcases hcopied with hempty | hhigh | ⟨rfl, hpage⟩
    · omega
    · have hentries : kernelEntries = 768 := rfl
      rw [dirIndex, hentries] at hi
      rw [hentries] at hhigh
      omega
    · -- the loop only tries to map the page at address 0
      obtain ⟨k, hk⟩ : ∃ k, kernelEnd - 0 = k + 1 := ⟨kernelEnd - 1, by omega⟩
      have hboot : boot memory size 0 kernelEnd =
          { frameManager := PageFrameManager.pfmInit frameManagerStart size, kernelDirectory := 0,
            directories := fun _ _ => {}, tables := fun _ _ => {}, live := [0], mallocs := 1,
            memory := memory } := by
        rw [boot, hk, VirtualMemory.mapKernel, if_pos (by omega), VirtualMemory.pdMapPage,
          if_pos rfl]
        cases k with
        | zero => rfl
        | succ k => rw [VirtualMemory.mapKernel, if_neg (by omega)]
      rw [hboot]
      exact pdGetPhysicalAddress_of_absent rfl

/-- Without copied entries the first page that is mapped is translated by the kernel directory and not by
the first directory that is created. -/
lemma not_agreesWithKernel (hend : kernelEnd + pageSize ≤ 2 ^ 32)
    (hcopied : ¬ Copied kernelStart kernelEnd) (size : ℕ) :
    ¬ AgreesWithKernel size kernelStart kernelEnd := by
  intro h
  have hp : pageSize = 4096 := rfl
  have hentries : kernelEntries = 768 := rfl
  rw [Copied] at hcopied
  -- the first address at which the loop maps a page
  have hstart := linked_start (fun _ => true) (PageFrameManager.pfmInit frameManagerStart size)
  obtain ⟨a, ha, ha', hne, hlow, hself⟩ : ∃ a, kernelStart ≤ a ∧ a < kernelEnd ∧ a ≠ 0 ∧
      a < 768 * 2 ^ 22 ∧
      (boot (fun _ => true) size kernelStart kernelEnd).pdGetPhysicalAddress 0 a = a := by
    obtain ⟨k, hk⟩ : ∃ k, kernelEnd - kernelStart = k + 1 := ⟨kernelEnd - kernelStart - 1, by omega⟩
    by_cases hzero : kernelStart = 0
    · subst hzero
      obtain ⟨k, rfl⟩ : ∃ j, k = j + 1 := ⟨k - 1, by omega⟩
      refine ⟨pageSize, by omega, by omega, by decide, by decide, ?_⟩
      rw [boot, hk, VirtualMemory.mapKernel, if_pos (by omega), VirtualMemory.pdMapPage, if_pos rfl,
        Nat.zero_add]
      exact hstart.mapKernel_self (fun _ => rfl) (by omega) k (by omega) (by decide)
    · refine ⟨kernelStart, le_rfl, by omega, hzero, by omega, ?_⟩
      rw [boot, hk]
      exact hstart.mapKernel_self (fun _ => rfl) (by omega) k (by omega) hzero
  obtain ⟨hlink, -, hkernel, hmem, -⟩ :=
    hstart.mapKernel (show kernelEnd ≤ 2 ^ 32 by omega) (kernelEnd - kernelStart) kernelStart
  have hi : dirIndex a < kernelEntries := by
    rw [dirIndex, hentries]
    omega
  obtain ⟨hlive, hkernel', hnew, hold⟩ := pdCreate_uncopied hlink (by rw [hmem]) hi
  have hagree := h (fun _ => true) [.create] _ ⟨trivial, fun _ _ => trivial⟩ rfl _ hlive a ha ha'
  rw [boot] at hself
  rw [hkernel] at hold hkernel'
  rw [boot] at hagree
  rw [hnew, hkernel', hold, hself] at hagree
  exact hne hagree.symm

/-- All directories agree with that of the kernel exactly if the kernel's addresses have copied entries.

**Proof sketch.** If they have, the agreement is an invariant: a new directory shares the tables of the
kernel directory, and other pages do not matter. If not, the first page that is mapped is translated by
the kernel directory and not by the first directory that is created. -/
theorem agreesWithKernel_iff (size kernelStart kernelEnd : ℕ) (hend : kernelEnd + pageSize ≤ 2 ^ 32) :
    AgreesWithKernel size kernelStart kernelEnd ↔ Copied kernelStart kernelEnd := by
  constructor
  · intro h
    by_contra hcopied
    exact not_agreesWithKernel hend hcopied size h
  · intro hcopied memory ops v hfollows hexec d hd a ha ha'
    obtain ⟨v', hexec', hv'⟩ := Run.exec_of_step (fun w op hw hop => by
      cases op with
      | create => exact ⟨_, rfl, hw.pdCreate⟩
      | map d address physicalAddress flags =>
        exact ⟨_, rfl, hw.pdMapPage (by omega) hop.1 hop.2.2.1 hop.2.2.2⟩)
      (agrees_boot (by omega) hcopied memory size) hfollows
    obtain rfl := Option.some.inj (hexec.symm.trans hexec')
    exact hv'.agrees d hd a ha ha'

/-- When the directories agree on the range from 1 MB to 10 MB. -/
theorem agreesWithKernel_iff_ten_mb :
    0xA00000 + pageSize ≤ 2 ^ 32 ∧
      (AgreesWithKernel 65536 0x100000 0xA00000 ↔ Copied 0x100000 0xA00000) :=
  ⟨by decide, agreesWithKernel_iff 65536 0x100000 0xA00000 (by decide)⟩

/-- The directory of the first process does not translate the address at which the kernel starts. -/
theorem not_agrees_ten_mb : ¬ AgreesWithKernel 65536 0x100000 0xA00000 := by
  apply not_agreesWithKernel (by decide)
  rw [Copied]
  decide

end VirtualMemory

end Jarvis
