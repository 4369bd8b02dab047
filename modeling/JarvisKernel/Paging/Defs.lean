import JarvisKernel.Process.Defs

set_option relaxedAutoImplicit false
set_option autoImplicit false

/-!
# Paging

The page frame manager, the page directories and page tables, and the page fault handler, as in
`src/kernel/memory/paging.c`. Page directories and page tables are objects of their own: a directory
entry names a table, and an object that `malloc` returns is not in use. Which calls of `malloc` succeed
is an arbitrary sequence, and the number of the call names the object.

The contents of frames, the TLB and the output of `kernel_printf` are left out, and so are the fields of
entries and frames that no function reads or writes, and `PageFrame.flags`, which is only ever zero.

## Main definitions

* `Jarvis.PageFrameManager`, `Jarvis.VirtualMemory` — the data model.
* `Jarvis.PageFrameManager.pfmAllocateFrame`, `pfmFreeFrame` — frames.
* `Jarvis.VirtualMemory.pdCreate`, `pdDestroy`, `pdMapPage`, `pdUnmapPage` — directories.
* `Jarvis.VirtualMemory.vmmAllocatePages`, `vmmFreePages`, `pageFaultHandler` — address spaces.
-/

namespace Jarvis

/-! ## Constants and data types -/

/-- `PAGE_SIZE`. -/
def pageSize : ℕ := 4096

/-- `address & PAGE_MASK`. -/
def pageAlign (address : ℕ) : ℕ := address / pageSize * pageSize

/-- `(size + PAGE_SIZE - 1) & PAGE_MASK`. -/
def pageRound (size : ℕ) : ℕ := pageAlign (Word32.add size (pageSize - 1))

/-- The first page directory entry of the kernel's part of an address space. -/
def kernelEntries : ℕ := 768

/-- The page flags, tested as bits of a word. -/
def pteWritable : ℕ := 1

@[inherit_doc pteWritable]
def pteUser : ℕ := 2

@[inherit_doc pteWritable]
def pteWriteThrough : ℕ := 3

@[inherit_doc pteWritable]
def pteCacheDisabled : ℕ := 4

/-- `(virtual_address >> 22) & 0x3FF`. -/
def dirIndex (address : ℕ) : ℕ := address / 2 ^ 22 % 1024

/-- `(virtual_address >> 12) & 0x3FF`. -/
def tableIndex (address : ℕ) : ℕ := address / 2 ^ 12 % 1024

/-- `PageTableEntry`. -/
structure PageTableEntry where
  present : Bool := false
  readWrite : Bool := false
  userSupervisor : Bool := false
  writeThrough : Bool := false
  cacheDisabled : Bool := false
  pageBaseAddress : ℕ := 0

/-- `PageDirectoryEntry`, with the table that `page_table_base_address` names. -/
structure PageDirectoryEntry where
  present : Bool := false
  readWrite : Bool := false
  userSupervisor : Bool := false
  writeThrough : Bool := false
  cacheDisabled : Bool := false
  pageTable : ℕ := 0

/-- `PageFrame`. -/
structure PageFrame where
  physicalAddress : ℕ
  referenceCount : ℕ

/-- `PageFrameManager`. -/
structure PageFrameManager where
  totalFrames : ℕ
  freeFrames : ℕ
  frameBitmap : ℕ → BitVec 32
  frames : ℕ → PageFrame

/-! ## Frames -/

namespace PageFrameManager

/-- `pfm_init`. -/
def pfmInit (startAddress size : ℕ) : PageFrameManager where
  totalFrames := size / pageSize
  freeFrames := size / pageSize
  frameBitmap _ := 0
  frames i :=
    { physicalAddress := Word32.add (pageRound startAddress) (Word32.mul i pageSize)
      referenceCount := 0 }

/-- The manager after frame `i` was marked as allocated. -/
def markAllocated (m : PageFrameManager) (i : ℕ) : PageFrameManager :=
  { m with
    frameBitmap := Bitmap.set m.frameBitmap i
    freeFrames := Word32.sub m.freeFrames 1
    frames := Function.update m.frames i
      { m.frames i with referenceCount := Word32.add (m.frames i).referenceCount 1 } }

/-- `pfm_allocate_frame`: the address of the frame, 0 if there is none. -/
def pfmAllocateFrame (m : PageFrameManager) : PageFrameManager × ℕ :=
  match (List.range m.totalFrames).find? fun i => !Bitmap.test m.frameBitmap i with
  | none => (m, 0)
  | some i => (m.markAllocated i, (m.frames i).physicalAddress)

/-- The manager after a reference to frame `i` was dropped; without references the frame is free. -/
def dropReference (m : PageFrameManager) (i : ℕ) : PageFrameManager :=
  let count := Word32.sub (m.frames i).referenceCount 1
  let frames := Function.update m.frames i { m.frames i with referenceCount := count }
  if count = 0 then
    { m with
      frameBitmap := Bitmap.clear m.frameBitmap i
      freeFrames := Word32.add m.freeFrames 1
      frames := frames }
  else { m with frames := frames }

/-- `pfm_free_frame`. -/
def pfmFreeFrame (m : PageFrameManager) (frameAddress : ℕ) : PageFrameManager :=
  let i := Word32.sub frameAddress (m.frames 0).physicalAddress / pageSize
  if m.totalFrames ≤ i then m
  else if Bitmap.test m.frameBitmap i = false then m
  else m.dropReference i

end PageFrameManager

/-! ## Page directories -/

/-- `VirtualMemoryManager`, with the page directories and page tables in memory. `live` are the
directories that were created and not destroyed, `mallocs` is the number of calls of `malloc` so far, and
`memory` says which calls succeed. -/
structure VirtualMemory where
  frameManager : PageFrameManager
  kernelDirectory : ℕ
  directories : ℕ → ℕ → PageDirectoryEntry
  tables : ℕ → ℕ → PageTableEntry
  live : List ℕ
  mallocs : ℕ
  memory : ℕ → Bool

namespace VirtualMemory

/-- `malloc` of a page directory or a page table. -/
def mallocObject (v : VirtualMemory) : VirtualMemory × Option ℕ :=
  ({ v with mallocs := v.mallocs + 1 }, if v.memory v.mallocs then some v.mallocs else none)

/-- `pd_create`: a new directory with the kernel's part of the kernel directory. -/
def pdCreate (v : VirtualMemory) : VirtualMemory × Option ℕ :=
  match v.mallocObject with
  | (v, none) => (v, none)
  | (v, some d) =>
    ({ v with
        directories := Function.update v.directories d fun i =>
          if kernelEntries ≤ i then v.directories v.kernelDirectory i else {}
        live := d :: v.live },
      some d)

/-- `pd_create` when `malloc` returns a directory. -/
lemma pdCreate_of_malloc {v : VirtualMemory} (hm : v.memory v.mallocs = true) :
    v.pdCreate = ({ v with
      mallocs := v.mallocs + 1
      directories := Function.update v.directories v.mallocs fun i =>
        if kernelEntries ≤ i then v.directories v.kernelDirectory i else {}
      live := v.mallocs :: v.live }, some v.mallocs) := by
  simp [pdCreate, mallocObject, hm]

/-- `pd_create` when `malloc` fails. -/
lemma pdCreate_of_no_malloc {v : VirtualMemory} (hm : v.memory v.mallocs = false) :
    v.pdCreate = ({ v with mallocs := v.mallocs + 1 }, none) := by
  simp [pdCreate, mallocObject, hm]

/-- The directory that `pd_create` returns. -/
lemma pdCreate_directories_self {v : VirtualMemory} (hm : v.memory v.mallocs = true) (i : ℕ) :
    v.pdCreate.1.directories v.mallocs i =
      if kernelEntries ≤ i then v.directories v.kernelDirectory i else {} := by
  rw [pdCreate_of_malloc hm]
  show Function.update v.directories v.mallocs _ v.mallocs i = _
  rw [Function.update_self]

/-- `pd_create` changes no other directory. -/
lemma pdCreate_directories {v : VirtualMemory} {d : ℕ} (hm : v.memory v.mallocs = true)
    (hd : d ≠ v.mallocs) : v.pdCreate.1.directories d = v.directories d := by
  rw [pdCreate_of_malloc hm]
  exact Function.update_of_ne hd _ _

/-- `pd_destroy`: the directory and its tables are freed; their contents stay, and are not read
again. -/
def pdDestroy (v : VirtualMemory) (d : ℕ) : VirtualMemory :=
  if d = v.kernelDirectory then v else { v with live := v.live.erase d }

/-- A new table `t`, with no page present, for entry `i` of a directory. -/
def addTable (v : VirtualMemory) (d i flags t : ℕ) : VirtualMemory :=
  { v with
    tables := Function.update v.tables t fun _ => {}
    directories := Function.update v.directories d (Function.update (v.directories d) i
      { present := true
        readWrite := flags.testBit pteWritable
        userSupervisor := flags.testBit pteUser
        writeThrough := flags.testBit pteWriteThrough
        cacheDisabled := flags.testBit pteCacheDisabled
        pageTable := t }) }

/-- The table of `pd_map_page` for an address; it is created if the directory has none. -/
def ensureTable (v : VirtualMemory) (d address flags : ℕ) : VirtualMemory × Bool :=
  if (v.directories d (dirIndex address)).present then (v, true)
  else
    match v.mallocObject with
    | (v, none) => (v, false)
    | (v, some t) => (v.addTable d (dirIndex address) flags t, true)

/-- Assign the entry for an address in a directory that has a table for it. -/
def setEntry (v : VirtualMemory) (d address : ℕ) (e : PageTableEntry) : VirtualMemory :=
  let t := (v.directories d (dirIndex address)).pageTable
  { v with tables := Function.update v.tables t (Function.update (v.tables t) (tableIndex address) e) }

/-- The entry for an address in a directory that has a table for it. -/
def entry (v : VirtualMemory) (d address : ℕ) : PageTableEntry :=
  v.tables (v.directories d (dirIndex address)).pageTable (tableIndex address)

/-- `pd_map_page`; the truth value is `true` for the result 0. -/
def pdMapPage (v : VirtualMemory) (d address physicalAddress flags : ℕ) : VirtualMemory × Bool :=
  if physicalAddress = 0 then (v, false)
  else
    match v.ensureTable d address flags with
    | (v, false) => (v, false)
    | (v, true) =>
      (v.setEntry d address
          { present := true
            readWrite := flags.testBit pteWritable
            userSupervisor := flags.testBit pteUser
            writeThrough := flags.testBit pteWriteThrough
            cacheDisabled := flags.testBit pteCacheDisabled
            pageBaseAddress := physicalAddress / pageSize },
        true)

/-- `directory->entries[dir_index].present` and then `table->entries[table_index].present`. -/
def isMapped (v : VirtualMemory) (d address : ℕ) : Bool :=
  (v.directories d (dirIndex address)).present && (v.entry d address).present

/-- `pd_get_physical_address`; the page's address and the offset share no bit. -/
def pdGetPhysicalAddress (v : VirtualMemory) (d address : ℕ) : ℕ :=
  if v.isMapped d address then
    (v.entry d address).pageBaseAddress * pageSize + address % pageSize
  else 0

/-- `pfm_allocate_frame`, on the frame manager in use. -/
def allocateFrame (v : VirtualMemory) : VirtualMemory × ℕ :=
  ({ v with frameManager := v.frameManager.pfmAllocateFrame.1 }, v.frameManager.pfmAllocateFrame.2)

/-- `pfm_free_frame`, on the frame manager in use. -/
def freeFrame (v : VirtualMemory) (address : ℕ) : VirtualMemory :=
  { v with frameManager := v.frameManager.pfmFreeFrame address }

/-- `pd_unmap_page`. -/
def pdUnmapPage (v : VirtualMemory) (d address : ℕ) : VirtualMemory :=
  if v.isMapped d address then
    (v.setEntry d address {}).freeFrame ((v.entry d address).pageBaseAddress * pageSize)
  else v

/-! ## Address spaces -/

/-- The address of page `i` of a range that starts at `address`. -/
def pageAt (address i : ℕ) : ℕ := Word32.add address (i * pageSize)

/-- Unmap the pages of a range, from page `i` on. -/
def unmapPages (v : VirtualMemory) (d address : ℕ) : ℕ → ℕ → VirtualMemory
  | 0, _ => v
  | count + 1, i => unmapPages (v.pdUnmapPage d (pageAt address i)) d address count (i + 1)

/-- The loop of `vmm_allocate_pages` from page `i` on, with its roll-back. -/
def allocateLoop (v : VirtualMemory) (d address flags : ℕ) : ℕ → ℕ → VirtualMemory × Bool
  | 0, _ => (v, true)
  | count + 1, i =>
    match v.allocateFrame with
    | (v, physicalAddress) =>
      if physicalAddress = 0 then (v.unmapPages d address i 0, false)
      else
        match v.pdMapPage d (pageAt address i) physicalAddress flags with
        | (v, true) => allocateLoop v d address flags count (i + 1)
        | (v, false) => ((v.freeFrame physicalAddress).unmapPages d address i 0, false)

/-- `vmm_allocate_pages`; the truth value is `true` for the result 0. -/
def vmmAllocatePages (v : VirtualMemory) (d address size flags : ℕ) : VirtualMemory × Bool :=
  v.allocateLoop d (pageAlign address) flags (pageRound size / pageSize) 0

/-- `vmm_free_pages`. -/
def vmmFreePages (v : VirtualMemory) (d address size : ℕ) : VirtualMemory :=
  v.unmapPages d (pageAlign address) (pageRound size / pageSize) 0

/-! ## Page faults -/

/-- The bits of a page fault's error code, as the handler reads them. -/
structure FaultCode where
  notPresent : Bool
  write : Bool
  user : Bool

/-- The copy-on-write branch of `page_fault_handler`: the entry is made to name a new frame, and is
writable from then on. -/
def copyOnWrite (v : VirtualMemory) (d address : ℕ) : VirtualMemory × Bool :=
  if v.isMapped d address ∧ (v.entry d address).readWrite = false then
    match v.allocateFrame with
    | (v, physicalAddress) =>
      if physicalAddress = 0 then (v, false)
      else
        (v.setEntry d address
            { v.entry d address with
              pageBaseAddress := physicalAddress / pageSize
              readWrite := true },
          true)
  else (v, false)

/-- The region that the demand paging branch finds for an address. -/
def findRegion (regions : List MemoryRegion) (address : ℕ) : Option MemoryRegion :=
  regions.find? fun r =>
    decide (r.virtualAddress ≤ address) &&
      decide (address < Word32.add r.virtualAddress r.size)

/-- The demand paging branch of `page_fault_handler`: a page of a region gets a new frame. -/
def demandPage (v : VirtualMemory) (d : ℕ) (regions : List MemoryRegion) (address : ℕ) :
    VirtualMemory × Bool :=
  match findRegion regions address with
  | none => (v, false)
  | some region =>
    match v.allocateFrame with
    | (v, physicalAddress) =>
      if physicalAddress = 0 then (v, false)
      else v.pdMapPage d (pageAlign address) physicalAddress region.flags

/-- `page_fault_handler` for a process with the given directory and regions. The truth value says whether
the process continues: if not, it is terminated or, for a fault in kernel mode, the handler does not
return. -/
def pageFaultHandler (v : VirtualMemory) (d : ℕ) (regions : List MemoryRegion) (address : ℕ)
    (code : FaultCode) : VirtualMemory × Bool :=
  if code.user = false then (v, false)
  else if code.notPresent then v.demandPage d regions address
  else if code.write then v.copyOnWrite d address
  else (v, false)

/-! ## Initialisation -/

/-- The start of the managed frames, 16 MB. -/
def frameManagerStart : ℕ := 16 * 1024 * 1024

/-- The loop that maps the kernel's pages to themselves, from `address` on. -/
def mapKernel (v : VirtualMemory) (stop : ℕ) : ℕ → ℕ → VirtualMemory
  | 0, _ => v
  | fuel + 1, address =>
    if address < stop then
      mapKernel (v.pdMapPage v.kernelDirectory address address 3).1 stop fuel (address + pageSize)
    else v

/-- The memory after `pfm_init` and the mapping of the kernel's pages from `kernelStart` to
`kernelEnd`; `memory` says which calls of `malloc` succeed after the one for the kernel directory. -/
def boot (memory : ℕ → Bool) (size kernelStart kernelEnd : ℕ) : VirtualMemory :=
  mapKernel
    { frameManager := PageFrameManager.pfmInit frameManagerStart size
      kernelDirectory := 0
      directories := fun _ _ => {}
      tables := fun _ _ => {}
      live := [0]
      mallocs := 1
      memory := memory } kernelEnd (kernelEnd - kernelStart) kernelStart

end VirtualMemory

end Jarvis
