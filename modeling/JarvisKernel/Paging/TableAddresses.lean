import JarvisKernel.Malloc.BestFit
import JarvisKernel.Paging.KernelMap
import JarvisKernel.Paging.PhysicalMemory

set_option relaxedAutoImplicit false
set_option autoImplicit false

/-!
# The addresses of page tables

A directory entry has 20 bits for the address of a page table, whose 12 lowest bits are taken to be 0. The
tables come from `malloc`, which puts a header of 20 bytes in front of each block and does not align blocks.
What a directory entry leads to is then not the table, but the memory from the start of the page on in which
the table begins.

Here directory entries have the bits that they have in memory, and the entries of page tables are found by
their address. The headers of the heap are kept apart from them.

## Main definitions

* `Jarvis.DirectoryWord`, `Jarvis.TableMemory` — a directory as it is in memory, and the heap.
* `Jarvis.TableMemory.pdMapPage`, `Jarvis.TableMemory.pdDestroyTables` — the functions, with addresses.
* `Jarvis.TableMemory.TablesRecovered` — the table that is used is the one that `malloc` returned.

## Main results

* `Jarvis.TableMemory.tablesRecovered_iff` — when tables are recovered.
-/

namespace Jarvis

open MemoryManager VirtualMemory

/-! ## Directories in memory -/

/-- `sizeof(PageTable)`. -/
def pageTableSize : ℕ := 4096

/-- `PageDirectoryEntry` as it is in memory, with 20 bits for the address of the table. -/
structure DirectoryWord where
  present : Bool := false
  readWrite : Bool := false
  userSupervisor : Bool := false
  writeThrough : Bool := false
  cacheDisabled : Bool := false
  pageTableBaseAddress : BitVec 20 := 0

/-- `(PageTable*)(entry.page_table_base_address << 12)`. -/
def DirectoryWord.pageTable (e : DirectoryWord) : ℕ := e.pageTableBaseAddress.toNat <<< 12

/-- The heap, a page directory, and the entries of page tables by their address. -/
structure TableMemory where
  manager : MemoryManager
  directory : ℕ → DirectoryWord
  tables : ℕ → PageTableEntry

namespace TableMemory

variable {s s' : TableMemory} {address physicalAddress flags p : ℕ}

/-- The address of the table entry that `pd_map_page`, `pd_unmap_page`, `pd_get_physical_address` and
`page_fault_handler` use for a virtual address. -/
def entryAddress (s : TableMemory) (address : ℕ) : ℕ :=
  (s.directory (dirIndex address)).pageTable + 4 * tableIndex address

/-- A block at `table` is zeroed and entered in the directory. -/
def addTable (s : TableMemory) (address flags table : ℕ) : TableMemory :=
  { s with
    directory := Function.update s.directory (dirIndex address)
      { present := true
        readWrite := flags.testBit pteWritable
        userSupervisor := flags.testBit pteUser
        writeThrough := flags.testBit pteWriteThrough
        cacheDisabled := flags.testBit pteCacheDisabled
        pageTableBaseAddress := BitVec.ofNat 20 (table >>> 12) }
    -- `memset(table, 0, sizeof(PageTable))`
    tables := fun a => if table ≤ a ∧ a < table + pageTableSize then {} else s.tables a }

/-- The part of `pd_map_page` that creates a table; `none` if `malloc` does not return. -/
def createTable (s : TableMemory) (address flags : ℕ) : Option (TableMemory × Bool) := do
  let (manager, table) ← s.manager.malloc pageTableSize
  let s := { s with manager := manager }
  if table = 0 then return (s, false) else return (s.addTable address flags table, true)

/-- `pd_map_page`; the truth value is `true` for the result 0. -/
def pdMapPage (s : TableMemory) (address physicalAddress flags : ℕ) : Option (TableMemory × Bool) :=
  if physicalAddress = 0 then some (s, false)
  else do
    let (s, ok) ←
      if (s.directory (dirIndex address)).present then some (s, true) else s.createTable address flags
    if ok then
      return ({ s with
        tables := Function.update s.tables (s.entryAddress address) (newEntry physicalAddress flags) },
        true)
    else return (s, false)

/-- The tables that `pd_destroy` passes to `free`. -/
def pdDestroyTables (s : TableMemory) : List ℕ :=
  ((List.range kernelEntries).filter fun i => (s.directory i).present).map fun i =>
    (s.directory i).pageTable

/-! ## Recovered addresses -/

/-- The table for an address is the block at `p`: it is what the directory entry leads to, no other page is
mapped in it, and it is freed with the directory. -/
structure TableAt (s : TableMemory) (address p : ℕ) : Prop where
  recovered : (s.directory (dirIndex address)).pageTable = p
  zeroed : ∀ a, dirIndex a = dirIndex address → tableIndex a ≠ tableIndex address →
    s.tables (s.entryAddress a) = {}
  freed : dirIndex address < kernelEntries → p ∈ s.pdDestroyTables

/-- The table that `pd_map_page` creates is the block that `malloc` returns. -/
def TablesRecovered (s : TableMemory) (address physicalAddress flags : ℕ) : Prop :=
  ∀ manager p, s.manager.malloc pageTableSize = some (manager, p) → p ≠ 0 →
    ∃ s', s.pdMapPage address physicalAddress flags = some (s', true) ∧ s'.TableAt address p

/-- The address in a directory entry is that of a page. -/
lemma pageTable_ofNat {e : DirectoryWord} (hp : p < 2 ^ 32)
    (he : e.pageTableBaseAddress = BitVec.ofNat 20 (p >>> 12)) :
    e.pageTable = p / pageSize * pageSize := by
  have hshift : p >>> 12 = p / 4096 := Nat.shiftRight_eq_div_pow p 12
  rw [DirectoryWord.pageTable, he, BitVec.toNat_ofNat, Nat.shiftLeft_eq, hshift,
    Nat.mod_eq_of_lt (by omega)]
  rfl

/-- A block starts with a page if its address does, modulo `2 ^ 32`. -/
lemma block_page_iff (b : ℕ) :
    Word32.add b chunkHeader / pageSize * pageSize = Word32.add b chunkHeader ↔
      (b + chunkHeader) % pageSize = 0 := by
  simp only [Word32.add, show pageSize = 4096 from rfl, show chunkHeader = 20 from rfl]
  omega

/-- `pd_map_page` with a new table. -/
lemma pdMapPage_of_malloc (s : TableMemory) (address flags : ℕ) (hne : physicalAddress ≠ 0)
    (habs : (s.directory (dirIndex address)).present = false) {manager : MemoryManager}
    (hmalloc : s.manager.malloc pageTableSize = some (manager, p)) (hp : p ≠ 0) (hlt : p < 2 ^ 32) :
    ∃ s', s.pdMapPage address physicalAddress flags = some (s', true) ∧
      (s'.directory (dirIndex address)).present = true ∧
      (s'.directory (dirIndex address)).pageTable = p / pageSize * pageSize ∧
      ∀ a, p ≤ a → a < p + pageTableSize → a ≠ s'.entryAddress address → s'.tables a = {} := by
  obtain ⟨u, hcreate, hpres, htable, hzero⟩ : ∃ u, s.createTable address flags = some (u, true) ∧
      (u.directory (dirIndex address)).present = true ∧
      (u.directory (dirIndex address)).pageTable = p / pageSize * pageSize ∧
      ∀ a, p ≤ a → a < p + pageTableSize → u.tables a = {} := by
    refine ⟨{ s with manager := manager }.addTable address flags p, ?_, ?_,
      pageTable_ofNat hlt ?_, fun a hge hend => if_pos ⟨hge, hend⟩⟩
    · simp only [createTable, hmalloc, Option.bind_eq_bind, Option.bind_some, if_neg hp]
      rfl
    · simp [addTable]
    · simp [addTable]
  refine ⟨{ u with
    tables := Function.update u.tables (u.entryAddress address) (newEntry physicalAddress flags) },
    ?_, hpres, htable, fun a hge hend ha => ?_⟩
  · simp only [pdMapPage, if_neg hne, habs, Bool.false_eq_true, if_false, hcreate, Option.bind_eq_bind,
      Option.bind_some, if_true]
    rfl
  · exact (Function.update_of_ne ha _ _).trans (hzero a hge hend)

/-- A new table is recovered if the block of the heap that it is cut from lies such that behind its header
a page starts.

**Proof sketch.** The block that `malloc` returns lies behind the header of the best fit. The directory
entry keeps the page in which it starts, so the block is recovered if it starts with the page. -/
theorem tablesRecovered_iff (hne : physicalAddress ≠ 0)
    (habs : (s.directory (dirIndex address)).present = false) :
    s.TablesRecovered address physicalAddress flags ↔
      ∀ b, s.manager.IsBestFit pageTableSize b → (b + chunkHeader) % pageSize = 0 := by
  constructor
  · intro hrec b hb
    rw [← block_page_iff]
    by_cases hp : Word32.add b chunkHeader = 0
    · rw [hp]
      rfl
    · obtain ⟨⟨manager, hmalloc⟩, -⟩ := allocateLarge_iff.2 ⟨b, hb, rfl, hp⟩
      have hlt : Word32.add b chunkHeader < 2 ^ 32 := Nat.mod_lt _ (by decide)
      obtain ⟨s', hcode, hat⟩ := hrec manager _ hmalloc hp
      obtain ⟨s₁, hcode₁, -, htable, -⟩ := pdMapPage_of_malloc s address flags hne habs hmalloc hp hlt
      obtain ⟨rfl, -⟩ := Prod.mk.inj (Option.some.inj (hcode.symm.trans hcode₁))
      exact htable.symm.trans hat.recovered
  · intro hfit manager p hmalloc hp
    obtain ⟨b, hb, rfl, -⟩ := allocateLarge_iff.1 ⟨⟨manager, hmalloc⟩, hp⟩
    have hlt : Word32.add b chunkHeader < 2 ^ 32 := Nat.mod_lt _ (by decide)
    obtain ⟨s', hcode, hpres, htable, hzero⟩ :=
      pdMapPage_of_malloc s address flags hne habs hmalloc hp hlt
    have hself := htable.trans ((block_page_iff b).2 (hfit b hb))
    refine ⟨s', hcode, hself, fun a hdir htab => ?_, fun hlow => ?_⟩
    · have hindex : tableIndex a < 1024 := Nat.mod_lt _ (by decide)
      rw [entryAddress, hdir, hself]
      refine hzero _ (Nat.le_add_right _ _) ?_ ?_
      · rw [show pageTableSize = 4096 from rfl]
        omega
      · rw [entryAddress, hself]
        omega
    · refine List.mem_map.2 ⟨dirIndex address, ?_, hself⟩
      simp [hlow, hpres]

/-- The heap before its first use, and an empty directory. -/
def firstTable : TableMemory where
  manager := onInitMemoryManager blankChunks heapStart 0x600000
  directory _ := {}
  tables _ := {}

/-- The one chunk of the heap is the best fit. -/
lemma isBestFit_firstTable : firstTable.manager.IsBestFit pageTableSize heapStart :=
  ⟨[heapStart], ⟨rfl, rfl⟩, by decide, rfl⟩

/-- The first table lies behind the header of the heap, which is taken for the table instead. -/
theorem not_tablesRecovered_first :
    (firstTable.directory (dirIndex 0x400000)).present = false ∧
      (∃ manager, firstTable.manager.malloc pageTableSize = some (manager, heapStart + 20)) ∧
      (∃ s, firstTable.pdMapPage 0x400000 0x1000000 7 = some (s, true) ∧
        (s.directory (dirIndex 0x400000)).pageTable = heapStart) ∧
      ¬ firstTable.TablesRecovered 0x400000 0x1000000 7 := by
  obtain ⟨⟨manager, hmalloc⟩, -⟩ :=
    allocateLarge_iff.2 ⟨heapStart, isBestFit_firstTable, rfl, by decide⟩
  obtain ⟨s, hcode, -, htable, -⟩ := pdMapPage_of_malloc firstTable 0x400000 7
    (show 0x1000000 ≠ 0 by decide) rfl hmalloc (by decide) (by decide)
  refine ⟨rfl, ⟨manager, hmalloc⟩, ⟨s, hcode, htable⟩, fun hrec => ?_⟩
  obtain ⟨s', hcode', hat⟩ := hrec manager _ hmalloc (by decide)
  obtain ⟨rfl, -⟩ := Prod.mk.inj (Option.some.inj (hcode.symm.trans hcode'))
  have hrecovered := htable.symm.trans hat.recovered
  exact absurd hrecovered (by decide)

/-- When the first table of a directory is found again. -/
theorem tablesRecovered_iff_first :
    0x1000000 ≠ 0 ∧ (firstTable.directory (dirIndex 0x400000)).present = false ∧
      (firstTable.TablesRecovered 0x400000 0x1000000 7 ↔
        ∀ b, firstTable.manager.IsBestFit pageTableSize b → (b + chunkHeader) % pageSize = 0) :=
  ⟨by decide, rfl, tablesRecovered_iff (by decide) rfl⟩

end TableMemory

end Jarvis
