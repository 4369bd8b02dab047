import JarvisKernel.Paging.Ranges
import JarvisKernel.Process.Effects

set_option relaxedAutoImplicit false
set_option autoImplicit false

/-!
# Failed creations

`create_process` allocates a control block, a page directory, a kernel stack and, for a process in user
mode, the pages of a stack with their page tables. Each of these can fail, and each exit has a clean-up of
its own. Here all blocks are objects of the one sequence of calls of `malloc`, and which calls succeed is
arbitrary; the frames run out as the frame manager has them.

The page tables of the user stack are found in the new directory by `pd_destroy`: they are the blocks that
were allocated after the kernel stack.

## Main definitions

* `Jarvis.Creation` — the process manager and the memory.
* `Jarvis.Creation.pdDestroy`, `Jarvis.Creation.createProcess` — the functions, with all calls of `free`.
* `Jarvis.Creation.Undone` — nothing is left of a call.

## Main results

* `Jarvis.Creation.createProcess_manager` — what the call does to the manager.
* `Jarvis.Creation.undone_of_error` — nothing is left of a call that fails.
-/

namespace Jarvis

namespace VirtualMemory

variable {v : VirtualMemory} {memory : ℕ → Bool} {d start : ℕ}

/-! ## Blocks -/

/-- The block `n` was allocated by a call of `malloc` from number `start` on and before number `stop`. -/
def AllocatedIn (memory : ℕ → Bool) (start stop n : ℕ) : Prop :=
  start ≤ n ∧ n < stop ∧ memory n = true

/-- Between a number and itself nothing is allocated. -/
lemma not_allocatedIn_self {n : ℕ} : ¬ AllocatedIn memory start start n := by
  rintro ⟨hge, hlt, -⟩
  omega

/-- What is allocated in two stretches is what is allocated in either. -/
lemma allocatedIn_append {mid stop n : ℕ} (h : start ≤ mid) (h' : mid ≤ stop) :
    AllocatedIn memory start stop n ↔
      AllocatedIn memory start mid n ∨ AllocatedIn memory mid stop n := by
  unfold AllocatedIn
  constructor
  · rintro ⟨hge, hlt, hn⟩
    by_cases hmid : n < mid
    · exact .inl ⟨hge, hmid, hn⟩
    · exact .inr ⟨by omega, hlt, hn⟩
  · rintro (⟨hge, hlt, hn⟩ | ⟨hge, hlt, hn⟩)
    · exact ⟨hge, by omega, hn⟩
    · exact ⟨by omega, hlt, hn⟩

/-- The block of one call. -/
lemma allocatedIn_one {n : ℕ} :
    AllocatedIn memory start (start + 1) n ↔ n = start ∧ memory start = true := by
  unfold AllocatedIn
  constructor
  · rintro ⟨hge, hlt, hn⟩
    obtain rfl : n = start := by omega
    exact ⟨rfl, hn⟩
  · rintro ⟨rfl, hn⟩
    exact ⟨le_rfl, Nat.lt_succ_self _, hn⟩

/-! ## The blocks of a directory -/

/-- The tables that `pd_destroy` finds in the user's part of a directory. -/
def userTables (v : VirtualMemory) (d : ℕ) : List ℕ :=
  ((List.range kernelEntries).filter fun i => (v.directories d i).present).map
    fun i => (v.directories d i).pageTable

/-- The blocks that `pd_destroy` passes to `free`. -/
def destroyedBlocks (v : VirtualMemory) (d : ℕ) : List ℕ :=
  if d = v.kernelDirectory then [] else v.userTables d ++ [d]

/-- The page tables of the user part are those of its present entries. -/
lemma mem_userTables {n : ℕ} :
    n ∈ v.userTables d ↔
      ∃ i < kernelEntries, (v.directories d i).present = true ∧ (v.directories d i).pageTable = n := by
  simp [userTables, and_assoc]

/-- No table is found twice. -/
lemma Separate.nodup_userTables (h : v.Separate d) : (v.userTables d).Nodup := by
  refine List.Nodup.map_on (fun i hi j hj heq => ?_) (List.nodup_range.filter _)
  exact h.one_index i j (List.mem_filter.1 hi).2 (List.mem_filter.1 hj).2 heq

/-- A directory that is being filled: the tables of its user's part are the blocks that were allocated
since the call `start` of `malloc`. -/
structure NewSpace (v : VirtualMemory) (memory : ℕ → Bool) (d start : ℕ) : Prop where
  memory_eq : v.memory = memory
  not_kernel : d ≠ v.kernelDirectory
  start_le : start ≤ v.mallocs
  tables : ∀ n, n ∈ v.userTables d ↔ AllocatedIn memory start v.mallocs n

/-- A call of `malloc` that fails adds no block. -/
lemma NewSpace.malloc_failed (h : v.NewSpace memory d start) (hm : v.memory v.mallocs = false) :
    { v with mallocs := v.mallocs + 1 }.NewSpace memory d start := by
  refine ⟨h.memory_eq, h.not_kernel, Nat.le_succ_of_le h.start_le, fun n => ?_⟩
  show n ∈ v.userTables d ↔ AllocatedIn memory start (v.mallocs + 1) n
  rw [allocatedIn_append h.start_le (Nat.le_succ _), allocatedIn_one, h.tables, ← h.memory_eq, hm]
  simp

/-- A block that is not for a table, before there are tables. -/
lemma NewSpace.skip (h : v.NewSpace memory d v.mallocs) :
    { v with mallocs := v.mallocs + 1 }.NewSpace memory d (v.mallocs + 1) := by
  refine ⟨h.memory_eq, h.not_kernel, le_rfl, fun n => ?_⟩
  show n ∈ v.userTables d ↔ AllocatedIn memory (v.mallocs + 1) (v.mallocs + 1) n
  rw [h.tables]
  simp only [not_allocatedIn_self]

/-- A new table in the user's part is the block that was allocated last. -/
lemma NewSpace.withTable (h : v.NewSpace memory d start) {address : ℕ} (flags : ℕ)
    (hi : dirIndex address < kernelEntries)
    (habs : (v.directories d (dirIndex address)).present = false)
    (hm : v.memory v.mallocs = true) : (v.withTable d address flags).NewSpace memory d start := by
  have hself : ((v.withTable d address flags).directories d (dirIndex address)).present = true ∧
      ((v.withTable d address flags).directories d (dirIndex address)).pageTable = v.mallocs :=
    directories_withTable_self
  have hother : ∀ i, i ≠ dirIndex address →
      (v.withTable d address flags).directories d i = v.directories d i :=
    fun i hi => directories_withTable_of_ne fun hc => hi hc.2
  refine ⟨h.memory_eq, h.not_kernel, Nat.le_succ_of_le h.start_le, fun n => ?_⟩
  show _ ↔ AllocatedIn memory start (v.mallocs + 1) n
  rw [allocatedIn_append h.start_le (Nat.le_succ _), allocatedIn_one, ← h.tables, ← h.memory_eq, hm,
    mem_userTables, mem_userTables]
  constructor
  · rintro ⟨i, hlt, hpres, rfl⟩
    by_cases hii : i = dirIndex address
    · rw [hii, hself.2]
      exact .inr ⟨rfl, rfl⟩
    · rw [hother i hii] at hpres ⊢
      exact .inl ⟨i, hlt, hpres, rfl⟩
  · rintro (⟨i, hik, hpres, htable⟩ | ⟨rfl, -⟩)
    · have hii : i ≠ dirIndex address := by
        rintro rfl
        rw [habs] at hpres
        simp at hpres
      exact ⟨i, hik, by rw [hother i hii]; exact hpres, by rw [hother i hii]; exact htable⟩
    · exact ⟨dirIndex address, hi, hself⟩

/-- `pd_map_page`, for a page in the user's part. -/
lemma NewSpace.pdMapPage (h : v.NewSpace memory d start) {address : ℕ} (physicalAddress flags : ℕ)
    (hi : dirIndex address < kernelEntries) :
    (v.pdMapPage d address physicalAddress flags).1.NewSpace memory d start := by
  rw [VirtualMemory.pdMapPage, ensureTable, mallocObject]
  by_cases hp : physicalAddress = 0
  · rw [if_pos hp]
    exact h
  · rw [if_neg hp]
    cases hpres : (v.directories d (dirIndex address)).present with
    | true => exact ⟨h.memory_eq, h.not_kernel, h.start_le, h.tables⟩
    | false =>
      cases hm : v.memory v.mallocs with
      | false => exact h.malloc_failed hm
      | true =>
        have hnew := h.withTable flags hi hpres hm
        exact ⟨hnew.memory_eq, hnew.not_kernel, hnew.start_le, hnew.tables⟩

/-- Unmapping frees no table. -/
lemma NewSpace.unmapPages (h : v.NewSpace memory d start) (address count i : ℕ) :
    (v.unmapPages d address count i).NewSpace memory d start := by
  refine unmapPages_induction (P := fun w => w.NewSpace memory d start) (fun w a hw => ?_) h
  rw [pdUnmapPage]
  split_ifs
  · exact ⟨hw.memory_eq, hw.not_kernel, hw.start_le, hw.tables⟩
  · exact hw

/-- The loop of `vmm_allocate_pages`, for pages in the user's part, with its roll-back. -/
lemma NewSpace.allocateLoop (h : v.NewSpace memory d start) {address count i : ℕ} (flags : ℕ)
    (hrange : ∀ j < i + count, dirIndex (pageAt address j) < kernelEntries) :
    (v.allocateLoop d address flags count i).1.NewSpace memory d start := by
  induction count generalizing v i with
  | zero => exact h
  | succ count ih =>
    rw [VirtualMemory.allocateLoop]
    have hframe : v.allocateFrame.1.NewSpace memory d start :=
      ⟨h.memory_eq, h.not_kernel, h.start_le, h.tables⟩
    rcases hres : v.allocateFrame with ⟨w, p⟩
    rw [hres] at hframe
    dsimp only at hframe ⊢
    split_ifs with hp
    · exact hframe.unmapPages _ _ _
    · have hmap := hframe.pdMapPage p flags (hrange i (by omega))
      rcases hmapped : w.pdMapPage d (pageAt address i) p flags with ⟨u, _ | _⟩
      · rw [hmapped] at hmap
        have hfree : (u.freeFrame p).NewSpace memory d start :=
          ⟨hmap.memory_eq, hmap.not_kernel, hmap.start_le, hmap.tables⟩
        exact hfree.unmapPages _ _ _
      · rw [hmapped] at hmap
        refine ih hmap fun j hj => hrange j ?_
        omega

/-- The directory of `pd_create` has no table in the user's part, and the kernel's tables. -/
lemma newSpace_pdCreate (hm : v.memory v.mallocs = true) (hkernel : v.kernelDirectory < v.mallocs)
    (hsep : v.Separate v.kernelDirectory) :
    v.pdCreate.1.NewSpace v.memory v.mallocs (v.mallocs + 1) ∧ v.pdCreate.1.Separate v.mallocs := by
  have hdir : ∀ i, v.pdCreate.1.directories v.mallocs i =
      if kernelEntries ≤ i then v.directories v.kernelDirectory i else {} := by
    intro i
    rw [pdCreate_of_malloc hm]
    simp
  have hcode := pdCreate_of_malloc hm
  refine ⟨⟨by rw [hcode], ?_, by rw [hcode], fun n => ?_⟩, fun i hi => ?_, fun i j hi hj ht => ?_⟩
  · rw [hcode]
    exact Nat.ne_of_gt hkernel
  · have hnone : n ∉ v.pdCreate.1.userTables v.mallocs := by
      rw [mem_userTables]
      rintro ⟨i, hlt, hpres, -⟩
      rw [hdir, if_neg (by omega)] at hpres
      simp at hpres
    rw [hcode] at hnone ⊢
    exact iff_of_false hnone not_allocatedIn_self
  · rw [hdir] at hi ⊢
    split_ifs at hi ⊢ with hik
    rw [hcode]
    exact Nat.lt_succ_of_lt (hsep.table_lt i hi)
  · rw [hdir] at hi hj
    rw [hdir, hdir] at ht
    split_ifs at hi hj ht
    exact hsep.one_index i j hi hj ht

/-- What `pd_destroy` frees of a directory that was being filled. -/
lemma NewSpace.destroyedBlocks (h : v.NewSpace memory d start) (hsep : v.Separate d) (hd : d < start) :
    (v.destroyedBlocks d).Nodup ∧
      ∀ n, n ∈ v.destroyedBlocks d ↔ n = d ∨ AllocatedIn memory start v.mallocs n := by
  rw [VirtualMemory.destroyedBlocks, if_neg h.not_kernel]
  constructor
  · rw [List.nodup_append]
    refine ⟨hsep.nodup_userTables, List.nodup_singleton d, fun n hn m hm => ?_⟩
    obtain ⟨hge, -⟩ := (h.tables n).1 hn
    have hmd : m = d := List.mem_singleton.1 hm
    omega
  · intro n
    rw [List.mem_append, List.mem_singleton, h.tables, or_comm]

end VirtualMemory

open ProcessManager VirtualMemory

/-- The process manager and the memory, with all blocks in one sequence of calls of `malloc`. -/
structure Creation where
  manager : ProcessManager
  memory : VirtualMemory

namespace Creation

variable {s s' : Creation}

/-! ## The functions -/

/-- `malloc`. -/
def malloc (s : Creation) : Creation × Option Ptr :=
  ({ s with memory := s.memory.mallocObject.1 }, s.memory.mallocObject.2)

/-- `free`. -/
def free (s : Creation) (p : Ptr) : Creation := { s with manager := s.manager.free p }

/-- `pd_create`. -/
def pdCreate (s : Creation) : Creation × Option ℕ :=
  ({ s with memory := s.memory.pdCreate.1 }, s.memory.pdCreate.2)

/-- `pd_destroy`, with the tables and the directory that it passes to `free`. -/
def pdDestroy (s : Creation) (d : ℕ) : Creation where
  manager := (s.memory.destroyedBlocks d).foldl ProcessManager.free s.manager
  memory := s.memory.pdDestroy d

/-- `vmm_allocate_pages` for the user stack. -/
def allocateStack (s : Creation) (d : ℕ) : Creation × Bool :=
  ({ s with memory := (s.memory.vmmAllocatePages d userStackVirtual userStackSize stackRegion.flags).1 },
    (s.memory.vmmAllocatePages d userStackVirtual userStackSize stackRegion.flags).2)

/-- The last part of `create_process`, which cannot fail. -/
def enter (s : Creation) (a : CreateArgs) (pid process d kernelStack : ℕ) (region : Bool) :
    Option (Creation × Except CreateError ℕ) := do
  let x := s.manager.newProcess a pid d kernelStack region
  let m ← s.manager.addProcess process x (s.manager.newFrame a x.regs)
  return ({ s with manager := m }, .ok pid)

/-- The part of `create_process` after the page directory was created. -/
def createStacks (s : Creation) (a : CreateArgs) (pid process d : ℕ) :
    Option (Creation × Except CreateError ℕ) :=
  match s.malloc with
  | (s, none) => some ((s.pdDestroy d).free process, .error .noKernelStack)
  | (s, some kernelStack) =>
    if a.privilege = .userMode then
      match s.allocateStack d with
      | (s, false) => some (((s.pdDestroy d).free kernelStack).free process, .error .noUserStack)
      | (s, true) =>
        match s.malloc with
        | (s, region) => s.enter a pid process d kernelStack region.isSome
    else s.enter a pid process d kernelStack false

/-- `create_process`. -/
def createProcess (s : Creation) (a : CreateArgs) : Option (Creation × Except CreateError ℕ) :=
  if a.entry = 0 then some (s, .error .badArgument) else
  match s.manager.findFreePid with
  | none => some (s, .error .noPid)
  | some pid =>
    match s.malloc with
    | (s, none) => some (s, .error .noProcess)
    | (s, some process) =>
      match s.pdCreate with
      | (s, none) => some (s.free process, .error .noPageDirectory)
      | (s, some d) => s.createStacks a pid process d

/-- With memory `malloc` gives the next number. -/
lemma malloc_of_memory (hm : s.memory.memory s.memory.mallocs = true) :
    s.malloc = ({ s with memory := { s.memory with mallocs := s.memory.mallocs + 1 } },
      some s.memory.mallocs) := by
  simp [malloc, mallocObject, hm]

/-- Without memory `malloc` fails. -/
lemma malloc_of_no_memory (hm : s.memory.memory s.memory.mallocs = false) :
    s.malloc = ({ s with memory := { s.memory with mallocs := s.memory.mallocs + 1 } }, none) := by
  simp [malloc, mallocObject, hm]

/-- The last part returns no error. -/
lemma enter_ne_error {a : CreateArgs} {pid process d kernelStack : ℕ} {region : Bool}
    {e : CreateError} : s.enter a pid process d kernelStack region ≠ some (s', .error e) := by
  intro h
  obtain ⟨m, -, he⟩ := Option.bind_eq_some_iff.1 h
  simp at he

/-- What is passed to `free` is added to the record. -/
lemma foldl_free (m : ProcessManager) (l : List Ptr) :
    l.foldl ProcessManager.free m = { m with freed := m.freed ++ l } := by
  induction l generalizing m with
  | nil => simp
  | cons p l ih => simp [ih, ProcessManager.free]

/-- The part after the page directory, as `ProcessManager.createProcess` has it. -/
lemma createStacks_manager {a : CreateArgs} {pid p d : ℕ} {r : Except CreateError ℕ}
    (hentry : a.entry ≠ 0) (hpid : s.manager.findFreePid = some pid)
    (h : s.createStacks a pid p d = some (s', r)) :
    ∃ alloc m, s.manager.createProcess a alloc = some (m, r) ∧
      s'.manager = { m with freed := s'.manager.freed } := by
  rw [createStacks] at h
  have hmanager : s.malloc.1.manager = s.manager := rfl
  generalize s.malloc = o at h hmanager
  obtain ⟨t, _ | k⟩ := o
  · obtain ⟨rfl, rfl⟩ := Prod.mk.inj (Option.some.inj h)
    refine ⟨⟨some p, some d, none, true, true⟩, s.manager.free p, ?_, ?_⟩
    · simp [ProcessManager.createProcess, hentry, hpid]
    · simp [free, pdDestroy, foldl_free, ProcessManager.free, show t.manager = s.manager from hmanager]
  · have hmanager : t.manager = s.manager := hmanager
    have hok : ∀ {u : Creation} {region : Bool}, u.manager = s.manager →
        u.enter a pid p d k region = some (s', r) →
        ∃ alloc m, s.manager.createProcess a alloc = some (m, r) ∧
          s'.manager = { m with freed := s'.manager.freed } := by
      intro u region hu henter
      obtain ⟨m, hadd, he⟩ := Option.bind_eq_some_iff.1 henter
      obtain ⟨rfl, rfl⟩ := Prod.mk.inj (Option.some.inj he)
      rw [hu] at hadd
      refine ⟨⟨some p, some d, some k, true, region⟩, m, ?_, rfl⟩
      simp [ProcessManager.createProcess, hentry, hpid, hadd]
    dsimp only at h
    split_ifs at h with huser
    · have hstack : (t.allocateStack d).1.manager = s.manager := hmanager
      generalize t.allocateStack d = o at h hstack
      obtain ⟨u, _ | _⟩ := o
      · obtain ⟨rfl, rfl⟩ := Prod.mk.inj (Option.some.inj h)
        have hstack : u.manager = s.manager := hstack
        refine ⟨⟨some p, some d, some k, false, true⟩, (s.manager.free k).free p, ?_, ?_⟩
        · simp [ProcessManager.createProcess, hentry, hpid, huser]
        · simp [free, pdDestroy, foldl_free, ProcessManager.free, hstack]
      · have hregion : u.malloc.1.manager = s.manager := hstack
        exact hok hregion h
    · exact hok hmanager h

/-- The manager is as `ProcessManager.createProcess` leaves it with what the callees return, but for the
tables and the directory that `pd_destroy` passes to `free`. -/
lemma createProcess_manager {a : CreateArgs} {r : Except CreateError ℕ}
    (h : s.createProcess a = some (s', r)) :
    ∃ alloc m, s.manager.createProcess a alloc = some (m, r) ∧
      s'.manager = { m with freed := s'.manager.freed } := by
  rw [createProcess] at h
  by_cases hentry : a.entry = 0
  · rw [if_pos hentry] at h
    obtain ⟨rfl, rfl⟩ := Prod.mk.inj (Option.some.inj h)
    refine ⟨⟨none, none, none, true, true⟩, s.manager, ?_, rfl⟩
    simp [ProcessManager.createProcess, hentry]
  rw [if_neg hentry] at h
  cases hpid : s.manager.findFreePid with
  | none =>
    rw [hpid] at h
    obtain ⟨rfl, rfl⟩ := Prod.mk.inj (Option.some.inj h)
    refine ⟨⟨none, none, none, true, true⟩, s.manager, ?_, rfl⟩
    simp [ProcessManager.createProcess, hentry, hpid]
  | some pid =>
    rw [hpid] at h
    have hmanager : s.malloc.1.manager = s.manager := rfl
    generalize s.malloc = o at h hmanager
    obtain ⟨t, _ | p⟩ := o
    · obtain ⟨rfl, rfl⟩ := Prod.mk.inj (Option.some.inj h)
      refine ⟨⟨none, none, none, true, true⟩, s.manager, ?_, ?_⟩
      · simp [ProcessManager.createProcess, hentry, hpid]
      · rw [show t.manager = s.manager from hmanager]
    · have hdir : t.pdCreate.1.manager = s.manager := hmanager
      dsimp only at h
      generalize t.pdCreate = o at h hdir
      obtain ⟨u, _ | d⟩ := o
      · obtain ⟨rfl, rfl⟩ := Prod.mk.inj (Option.some.inj h)
        refine ⟨⟨some p, none, none, true, true⟩, s.manager.free p, ?_, ?_⟩
        · simp [ProcessManager.createProcess, hentry, hpid]
        · simp [free, ProcessManager.free, show u.manager = s.manager from hdir]
      · have hu : u.manager = s.manager := hdir
        rw [← hu] at hpid ⊢
        exact createStacks_manager hentry hpid h

/-! ## Failed calls -/

/-- Nothing is left of a call: the manager is as before, each block that was allocated since was passed to
`free` once, and the frames are as before. -/
structure Undone (s s' : Creation) : Prop where
  blocks : ∃ blocks : List Ptr,
    s'.manager = { s.manager with freed := s.manager.freed ++ blocks } ∧ blocks.Nodup ∧
      ∀ n, n ∈ blocks ↔ AllocatedIn s.memory.memory s.memory.mallocs s'.memory.mallocs n
  frames : s.memory.frameManager.SameFrames s'.memory.frameManager

/-- Freeing the blocks of a list changes the manager only. -/
lemma foldl_free_eq (s : Creation) (l : List Ptr) :
    l.foldl Creation.free s = { s with manager := l.foldl ProcessManager.free s.manager } := by
  induction l generalizing s with
  | nil => rfl
  | cons p l ih =>
    rw [List.foldl_cons, List.foldl_cons, ih]
    rfl

/-- The clean-up that destroys a new directory and frees the blocks that were allocated before it was
filled. -/
lemma undone_of_destroy {t : Creation} {d start : ℕ} (blocks : List Ptr)
    (hmanager : t.manager = s.manager) (hspace : t.memory.NewSpace s.memory.memory d start)
    (hsep : t.memory.Separate d)
    (hframes : s.memory.frameManager.SameFrames t.memory.frameManager)
    (hle : s.memory.mallocs ≤ start) (hnodup : (d :: blocks).Nodup)
    (hblocks : ∀ n, n ∈ d :: blocks ↔ AllocatedIn s.memory.memory s.memory.mallocs start n) :
    s.Undone (blocks.foldl free (t.pdDestroy d)) := by
  have hdlt : d < start := ((hblocks d).1 List.mem_cons_self).2.1
  obtain ⟨hdestroyed, hmem⟩ := hspace.destroyedBlocks hsep hdlt
  have hmallocs : (t.memory.pdDestroy d).mallocs = t.memory.mallocs := by
    rw [VirtualMemory.pdDestroy, if_neg hspace.not_kernel]
  have hmanager' : (t.memory.pdDestroy d).frameManager = t.memory.frameManager := by
    rw [VirtualMemory.pdDestroy, if_neg hspace.not_kernel]
  rw [foldl_free_eq]
  refine ⟨⟨t.memory.destroyedBlocks d ++ blocks, ?_, ?_, fun n => ?_⟩, ?_⟩
  · show blocks.foldl ProcessManager.free
      ((t.memory.destroyedBlocks d).foldl ProcessManager.free t.manager) = _
    rw [← List.foldl_append, foldl_free, hmanager]
  · rw [List.nodup_append]
    refine ⟨hdestroyed, (List.nodup_cons.1 hnodup).2, fun n hn m hm => ?_⟩
    have hmlt := ((hblocks m).1 (List.mem_cons_of_mem d hm)).2.1
    rcases (hmem n).1 hn with rfl | ⟨hge, -⟩
    · rintro rfl
      exact (List.nodup_cons.1 hnodup).1 hm
    · rintro rfl
      omega
  · show _ ↔ AllocatedIn _ _ (t.memory.pdDestroy d).mallocs n
    rw [hmallocs, allocatedIn_append hle hspace.start_le, ← hblocks, List.mem_append, hmem,
      List.mem_cons]
    tauto
  · show s.memory.frameManager.SameFrames (t.memory.pdDestroy d).frameManager
    rw [hmanager']
    exact hframes

/-- The frames after a call that needs none. -/
lemma sameFrames_refl (m : PageFrameManager) : m.SameFrames m :=
  ⟨fun _ _ => rfl, rfl, fun _ _ => rfl⟩

/-- The pages of the user stack lie in the user's part. -/
lemma dirIndex_userStack {j : ℕ} (hj : j < pageRound userStackSize / pageSize) :
    dirIndex (pageAt (pageAlign userStackVirtual) j) < kernelEntries := by
  have hpages : pageRound userStackSize / pageSize = 2 := by decide
  rw [hpages] at hj
  obtain rfl | rfl : j = 0 ∨ j = 1 := by omega
  · decide
  · decide

/-- `vmm_allocate_pages` for the user stack: the directory is filled, and without success the frames are as
before. -/
lemma allocateStack_spec {t : Creation} {memory : ℕ → Bool} {d start base : ℕ}
    (hspace : t.memory.NewSpace memory d start) (hsep : t.memory.Separate d)
    (hframes : t.memory.frameManager.Consistent base) :
    (t.allocateStack d).1.manager = t.manager ∧
      (t.allocateStack d).1.memory.NewSpace memory d start ∧
      (t.allocateStack d).1.memory.Separate d ∧
      ((t.allocateStack d).2 = false →
        t.memory.frameManager.SameFrames (t.allocateStack d).1.memory.frameManager) := by
  obtain ⟨hsep', hframes'⟩ :=
    vmmAllocatePages_keeps hsep hframes userStackVirtual userStackSize stackRegion.flags
  refine ⟨rfl, hspace.allocateLoop _ fun j hj => dirIndex_userStack (by omega), hsep', fun hfail => ?_⟩
  rcases vmmAllocatePages_cases hsep hframes userStackVirtual userStackSize stackRegion.flags with
    ⟨-, hok, -⟩ | ⟨n, -, -, -, -, g, hwindow⟩
  · have hfail' : (t.memory.vmmAllocatePages d userStackVirtual userStackSize
        stackRegion.flags).2 = false := hfail
    rw [hok] at hfail'
    simp at hfail'
  · exact hframes.sameFrames hframes' hwindow.total hwindow.empty.1

/-- The exits of `create_process` after the page directory was created. -/
lemma undone_of_later {t : Creation} {a : CreateArgs} {e : CreateError} {base pid d : ℕ}
    (hmanager : t.manager = s.manager) (hmallocs : t.memory.mallocs = s.memory.mallocs + 2)
    (hsame : t.memory.frameManager = s.memory.frameManager)
    (hframes : s.memory.frameManager.Consistent base)
    (hblocks : ∀ n, AllocatedIn s.memory.memory s.memory.mallocs t.memory.mallocs n ↔
      n = s.memory.mallocs ∨ n = d)
    (hne : s.memory.mallocs ≠ d)
    (hspace : t.memory.NewSpace s.memory.memory d t.memory.mallocs) (hsep : t.memory.Separate d)
    (h : t.createStacks a pid s.memory.mallocs d = some (s', .error e)) : s.Undone s' := by
  have hle : s.memory.mallocs ≤ t.memory.mallocs := by omega
  rw [createStacks] at h
  cases hstack : t.memory.memory t.memory.mallocs with
  | false =>
    simp only [malloc_of_no_memory hstack] at h
    obtain ⟨rfl, -⟩ := Prod.mk.inj (Option.some.inj h)
    refine undone_of_destroy [s.memory.mallocs] hmanager (hspace.malloc_failed hstack)
      ⟨fun i hi => Nat.lt_succ_of_lt (hsep.table_lt i hi), hsep.one_index⟩ ?_ hle ?_ fun n => ?_
    · show s.memory.frameManager.SameFrames t.memory.frameManager
      rw [hsame]
      exact sameFrames_refl _
    · simpa using hne.symm
    · rw [hblocks, List.mem_cons, List.mem_singleton, or_comm]
  | true =>
    simp only [malloc_of_memory hstack] at h
    have hmem : t.memory.memory = s.memory.memory := hspace.memory_eq
    have hnext : t.memory.frameManager.Consistent base := hsame ▸ hframes
    obtain ⟨hm, hspace', hsep', hfail⟩ := allocateStack_spec
      (t := { t with memory := { t.memory with mallocs := t.memory.mallocs + 1 } }) hspace.skip
      ⟨fun i hi => Nat.lt_succ_of_lt (hsep.table_lt i hi), hsep.one_index⟩ hnext
    split_ifs at h with huser
    · generalize allocateStack _ d = r at h hm hspace' hsep' hfail
      obtain ⟨u, _ | _⟩ := r
      · obtain ⟨rfl, -⟩ := Prod.mk.inj (Option.some.inj h)
        refine undone_of_destroy [t.memory.mallocs, s.memory.mallocs] (hm.trans hmanager) hspace' hsep'
          ?_ (Nat.le_succ_of_le hle) ?_ fun n => ?_
        · rw [← hsame]
          exact hfail rfl
        · have hd := ((hblocks d).2 (.inr rfl)).2.1
          simp only [List.nodup_cons, List.mem_cons, List.not_mem_nil, or_false, not_or,
            List.nodup_nil, not_false_eq_true, and_true]
          omega
        · rw [allocatedIn_append hle (Nat.le_succ _), hblocks, allocatedIn_one, ← hmem, hstack]
          simp only [List.mem_cons, List.not_mem_nil, or_false, and_true]
          tauto
      · exact absurd h enter_ne_error
    · exact absurd h enter_ne_error

/-- Without an allocation there is nothing to free. -/
lemma undone_self : s.Undone s := by
  refine ⟨⟨[], by simp, List.nodup_nil, fun n => ?_⟩, sameFrames_refl _⟩
  exact iff_of_false List.not_mem_nil not_allocatedIn_self

/-- The exit where there is no control block. -/
lemma undone_of_no_process (hprocess : s.memory.memory s.memory.mallocs = false) :
    s.Undone { s with memory := { s.memory with mallocs := s.memory.mallocs + 1 } } := by
  refine ⟨⟨[], by simp, List.nodup_nil, fun n => ?_⟩, sameFrames_refl _⟩
  refine iff_of_false List.not_mem_nil ?_
  rw [allocatedIn_one, hprocess]
  simp

/-- The exit where there is a control block and no directory. -/
lemma undone_of_no_directory (hprocess : s.memory.memory s.memory.mallocs = true)
    (hdir : s.memory.memory (s.memory.mallocs + 1) = false) :
    s.Undone (free { s with memory := { s.memory with mallocs := s.memory.mallocs + 2 } }
      s.memory.mallocs) := by
  refine ⟨⟨[s.memory.mallocs], rfl, List.nodup_singleton _, fun n => ?_⟩, sameFrames_refl _⟩
  show _ ↔ AllocatedIn _ _ (s.memory.mallocs + 1 + 1) n
  rw [allocatedIn_append (Nat.le_succ _) (Nat.le_succ _), allocatedIn_one, allocatedIn_one, hprocess,
    hdir]
  simp

/-- The exits after the control block was allocated. -/
lemma undone_of_directory {a : CreateArgs} {e : CreateError} {base : ℕ} (pid : ℕ)
    (hprocess : s.memory.memory s.memory.mallocs = true)
    (hdir : s.memory.memory (s.memory.mallocs + 1) = true)
    (hframes : s.memory.frameManager.Consistent base)
    (hkernel : s.memory.kernelDirectory < s.memory.mallocs)
    (hsep : s.memory.Separate s.memory.kernelDirectory)
    (h : createStacks
      { s with memory := { s.memory with mallocs := s.memory.mallocs + 1 }.pdCreate.1 } a pid
      s.memory.mallocs (s.memory.mallocs + 1) = some (s', .error e)) : s.Undone s' := by
  have hkernel' : s.memory.kernelDirectory < s.memory.mallocs + 1 := Nat.lt_succ_of_lt hkernel
  have hsep' : { s.memory with mallocs := s.memory.mallocs + 1 }.Separate s.memory.kernelDirectory :=
    ⟨fun i hi => Nat.lt_succ_of_lt (hsep.table_lt i hi), hsep.one_index⟩
  have htwo : ∀ n, AllocatedIn s.memory.memory s.memory.mallocs (s.memory.mallocs + 2) n ↔
      n = s.memory.mallocs ∨ n = s.memory.mallocs + 1 := by
    intro n
    rw [allocatedIn_append (Nat.le_succ _) (Nat.le_succ _), allocatedIn_one, allocatedIn_one, hprocess,
      hdir]
    simp
  obtain ⟨hspace, hsepd⟩ := newSpace_pdCreate hdir hkernel' hsep'
  have hcode : { s.memory with mallocs := s.memory.mallocs + 1 }.pdCreate = _ := pdCreate_of_malloc hdir
  rw [hcode] at h hspace hsepd
  refine undone_of_later ?_ ?_ ?_ hframes ?_ ?_ hspace hsepd h
  · rfl
  · rfl
  · rfl
  · exact htwo
  · exact Nat.ne_of_lt (Nat.lt_succ_self _)

/-- Whichever allocation fails, nothing is left of a call of `create_process` that returns -1.

**Proof sketch.** Before the directory there is at most the control block to free. After that `pd_destroy`
frees the directory with the tables of the user stack, which are the blocks allocated after the kernel
stack; the pages of the stack were unmapped by the roll-back, so that the frames are as before. -/
theorem undone_of_error {a : CreateArgs} {e : CreateError} {base : ℕ}
    (hframes : s.memory.frameManager.Consistent base)
    (hkernel : s.memory.kernelDirectory < s.memory.mallocs)
    (hsep : s.memory.Separate s.memory.kernelDirectory)
    (h : s.createProcess a = some (s', .error e)) : s.Undone s' := by
  rw [createProcess] at h
  by_cases hentry : a.entry = 0
  · rw [if_pos hentry] at h
    obtain ⟨rfl, -⟩ := Prod.mk.inj (Option.some.inj h)
    exact undone_self
  rw [if_neg hentry] at h
  cases hpid : s.manager.findFreePid with
  | none =>
    rw [hpid] at h
    obtain ⟨rfl, -⟩ := Prod.mk.inj (Option.some.inj h)
    exact undone_self
  | some pid =>
    rw [hpid] at h
    cases hprocess : s.memory.memory s.memory.mallocs with
    | false =>
      simp only [malloc_of_no_memory hprocess] at h
      obtain ⟨rfl, -⟩ := Prod.mk.inj (Option.some.inj h)
      exact undone_of_no_process hprocess
    | true =>
      simp only [malloc_of_memory hprocess] at h
      cases hdir : s.memory.memory (s.memory.mallocs + 1) with
      | false =>
        have hcode : { s.memory with mallocs := s.memory.mallocs + 1 }.pdCreate = _ :=
          pdCreate_of_no_malloc hdir
        simp only [Creation.pdCreate, hcode] at h
        obtain ⟨rfl, -⟩ := Prod.mk.inj (Option.some.inj h)
        exact undone_of_no_directory hprocess hdir
      | true =>
        have hcode : { s.memory with mallocs := s.memory.mallocs + 1 }.pdCreate = _ :=
          pdCreate_of_malloc hdir
        simp only [Creation.pdCreate, hcode] at h
        refine undone_of_directory (a := a) (e := e) pid hprocess hdir hframes hkernel hsep ?_
        rw [hcode]
        exact h

/-- A machine with one frame, before the first process. -/
def oneFrame : Creation where
  manager := processManagerInit (fun _ => {}) (fun _ => {}) none 0
  memory := boot (fun _ => true) 0x1000 0x100000 0x100000

/-- `oneFrame` meets the assumptions on the frame manager and the kernel's directory. -/
lemma separate_oneFrame : oneFrame.memory.frameManager.Consistent 0x1000000 ∧
    oneFrame.memory.Separate oneFrame.memory.kernelDirectory := by
  refine ⟨?_, ⟨fun i hi => ?_, fun i j hi => ?_⟩⟩
  · show (PageFrameManager.pfmInit frameManagerStart 0x1000).Consistent (pageRound frameManagerStart)
    exact PageFrameManager.consistent_pfmInit (by decide) (by decide)
  · simp [oneFrame, boot, mapKernel] at hi
  · simp [oneFrame, boot, mapKernel] at hi

/-- The first page of a user stack takes the only frame, and the second one fails. -/
theorem undone_of_error_oneFrame :
    ∃ s', oneFrame.createProcess { privilege := .userMode } = some (s', .error .noUserStack) ∧
      oneFrame.Undone s' := by
  have hfail : ∃ s', oneFrame.createProcess { privilege := .userMode } =
      some (s', .error .noUserStack) := ⟨_, rfl⟩
  obtain ⟨s', hs'⟩ := hfail
  exact ⟨s', hs', undone_of_error separate_oneFrame.1 (by decide) separate_oneFrame.2 hs'⟩

end Creation

end Jarvis
