import JarvisKernel.Paging.Coverage
import JarvisKernel.Process.Calls

set_option relaxedAutoImplicit false
set_option autoImplicit false

/-!
# The address spaces of processes

The process manager together with the page directories: `create_process` with the directory and the user
stack it makes, the system calls `mmap` and `munmap` of `src/kernel/syscall/syscall.c`, and the page fault
handler with the termination of the process that it cannot help. The other calls of the process manager
change no page directory and no frame; its clean-up takes processes off the table and does not look at
their directories.

The interrupt that the fault handler raises after it terminated a process is a tick and a `schedule`,
which are calls of their own here.

## Main definitions

* `Jarvis.Spaces` — the manager and the memory.
* `Jarvis.Spaces.createProcess`, `mmap`, `munmap`, `pageFault` — the operations on both.
* `Jarvis.Spaces.NoLeak` — every frame whose bit is set is named by the kernel or by a process.
* `Jarvis.MemoryCall`, `Jarvis.Spaces.step` — the calls.
-/

namespace Jarvis

open ProcessManager VirtualMemory

/-- The process manager and the memory. -/
structure Spaces where
  calls : CallState
  memory : VirtualMemory

namespace Spaces

/-- The process manager. -/
def manager (s : Spaces) : ProcessManager := s.calls.manager

/-! ## Creation -/

/-- The page directory and the user stack of a new process: the memory, the result of `pd_create`, and
whether the process has what it needs. The directory of a failed creation is destroyed. -/
def createSpace (v : VirtualMemory) (privilege : PrivilegeLevel) (kernelStack : Bool) :
    VirtualMemory × Option ℕ × Bool :=
  match v.pdCreate with
  | (v, none) => (v, none, false)
  | (v, some d) =>
    if kernelStack = false then (v.pdDestroy d, some d, false)
    else if privilege = .userMode then
      match v.vmmAllocatePages d userStackVirtual userStackSize stackRegion.flags with
      | (v, true) => (v, some d, true)
      | (v, false) => (v.pdDestroy d, some d, false)
    else (v, some d, true)

/-- `create_process`; `process` and `kernelStack` are the blocks that `malloc` returns for them, and
`region` says whether the record of the user stack is allocated. -/
def createProcess (s : Spaces) (args : CreateArgs) (process kernelStack : Option Ptr) (region : Bool) :
    Option Spaces :=
  if args.entry = 0 ∨ s.manager.findFreePid = none ∨ process = none then
    (s.calls.call (.create args
      { process := process, pageDirectory := none, kernelStack := kernelStack })).map fun calls =>
        { s with calls := calls }
  else
    match createSpace s.memory args.privilege kernelStack.isSome with
    | (v, d, stack) =>
      (s.calls.call (.create args
        { process := process
          pageDirectory := d
          kernelStack := kernelStack
          userStack := stack
          stackRegion := region })).map fun calls => { calls := calls, memory := v }

/-! ## System calls -/

/-- Put a region in front of the list of a process. -/
def addRegion (s : Spaces) (c : Ptr) (region : MemoryRegion) : Spaces :=
  { s with
    calls :=
      { s.calls with
        manager := s.manager.modify c fun x => { x with memoryRegions := region :: x.memoryRegions } } }

/-- `fd != -1 && !(flags & MAP_ANONYMOUS)`. -/
def mapsFile (flags fd : ℕ) : Bool := decide (fd ≠ 2 ^ 32 - 1) && !flags.testBit 2

/-- The page flags of `mmap`: present, user, and writable with `PROT_WRITE`. -/
def mmapFlags (prot : ℕ) : ℕ := if prot.testBit 1 then 7 else 5

/-- `syscall_handler_mmap`, with its result, `none` for `-1`. `file` says whether `get_fd` returns an open
file, and `region` whether the region record is allocated. -/
def mmap (s : Spaces) (addr len prot flags fd : ℕ) (file region : Bool) : Spaces × Option ℕ :=
  match s.manager.currentProcess with
  | none => (s, none)
  | some c =>
    if len = 0 then (s, none)
    else if mapsFile flags fd = true ∧ file = false then (s, none)
    else
      match (s.manager.pcb c).pageDirectory with
      | none => (s, none)
      | some d =>
        match s.memory.vmmAllocatePages d addr (pageRound len) (mmapFlags prot) with
        | (v, false) => ({ s with memory := v }, none)
        | (v, true) =>
          if region then
            ({ s with memory := v }.addRegion c
                { virtualAddress := addr
                  size := pageRound len
                  flags := mmapFlags prot
                  type := if mapsFile flags fd then .mappedFile else .data },
              some addr)
          else ({ s with memory := v.vmmFreePages d addr (pageRound len) }, none)

/-- `syscall_handler_munmap`; the truth value is `true` for the result 0. The region record stays. -/
def munmap (s : Spaces) (addr len : ℕ) : Spaces × Bool :=
  match s.manager.currentProcess with
  | none => (s, false)
  | some c =>
    if len = 0 ∨ addr % pageSize ≠ 0 then (s, false)
    else
      match (s.manager.pcb c).pageDirectory with
      | none => (s, false)
      | some d => ({ s with memory := s.memory.vmmFreePages d addr (pageRound len) }, true)

/-! ## Page faults -/

/-- `page_fault_handler` for the current process; `none` if it does not return, after a fault in kernel
mode or with no process. A process that it cannot help is terminated. -/
def pageFault (s : Spaces) (address : ℕ) (code : FaultCode) : Option Spaces :=
  if code.user = false then none
  else
    match s.manager.currentProcess with
    | none => none
    | some c =>
      match (s.manager.pcb c).pageDirectory with
      | none => none
      | some d =>
        match s.memory.pageFaultHandler d (s.manager.pcb c).memoryRegions address code with
        | (v, true) => some { s with memory := v }
        | (v, false) =>
          (s.calls.call (.terminate (s.manager.pcb c).pid (-1))).map fun calls =>
            { calls := calls, memory := v }

/-! ## Calls -/

/-- The directory is that of the kernel or of a process of the table. -/
def Visible (s : Spaces) (d : ℕ) : Prop :=
  d = s.memory.kernelDirectory ∨
    ∃ pid p, s.manager.processes pid = some p ∧ (s.manager.pcb p).pageDirectory = some d

/-- Every frame whose bit is set is named by a present page table entry of the kernel's directory or of
the directory of a process of the table. -/
def NoLeak (s : Spaces) : Prop := s.memory.Accounted s.Visible

end Spaces

/-- The calls that use the memory, and the other calls of the process manager. -/
inductive MemoryCall
  | create (args : CreateArgs) (process kernelStack : Option Ptr) (region : Bool)
  | mmap (addr len prot flags fd : ℕ) (file region : Bool)
  | munmap (addr len : ℕ)
  | fault (address : ℕ) (code : FaultCode)
  | other (c : Call)

namespace Spaces

/-- The effect of a call; `none` if it does not return. -/
def step (s : Spaces) : MemoryCall → Option Spaces
  | .create args process kernelStack region => s.createProcess args process kernelStack region
  | .mmap addr len prot flags fd file region => some (s.mmap addr len prot flags fd file region).1
  | .munmap addr len => some (s.munmap addr len).1
  | .fault address code => s.pageFault address code
  | .other c => (s.calls.call c).map fun calls => { s with calls := calls }

/-- The calls that can occur: `malloc` returns no control block that is in use, and only a suspended tick
is resumed. -/
def Possible (s : Spaces) : MemoryCall → Prop
  | .create _ process _ _ => ∀ p, process = some p → ¬ s.manager.Live p
  | .other c => ¬ c.Creates ∧ s.calls.Possible c
  | _ => True

/-- The state after the start-up code: no process, and the kernel's pages mapped. -/
def init (pcb : Ptr → Process) (regFrames : ℕ → RegisterState) (cr3 : Option ℕ) (wrapper : ℕ)
    (memory : ℕ → Bool) (size kernelStart kernelEnd : ℕ) : Spaces where
  calls := .init pcb regFrames cr3 wrapper
  memory := boot memory size kernelStart kernelEnd

end Spaces

end Jarvis
