import JarvisKernel.Lib.Bitmap
import JarvisKernel.Lib.LinkedList
import JarvisKernel.Lib.Word32

set_option relaxedAutoImplicit false
set_option autoImplicit false

/-!
# The process manager

The process control blocks, the process manager and its operations, as in
`src/kernel/multitask/process.c`. A process is addressed by a pointer to its control block; the
manager holds the memory of the control blocks, so that all queues share the one `next` field of
the block, as in the source.

A loop over a queue ends only if the queue does, so the operations return `none` when a loop they
run does not end. The allocator calls inside `createProcess` are parameters (`CreateAlloc`); what
is passed to `free` is recorded in `freed`, and a freed control block keeps its contents, since
`free` writes only the header in front of the block.

`int $0x20` hands the processor to the interrupt handler, so `processManagerTick` is cut in two at
that instruction: `processManagerTickHead` runs up to it and says whether it is executed, and
`processManagerTickTail` is the rest of the function.

## Main definitions

* `Jarvis.Process`, `Jarvis.ProcessManager`, `Jarvis.QueueId` — the data model.
* `Jarvis.ProcessManager.enqueueProcess`, `dequeueProcess`, `removeProcessFromQueue` — the queues.
* `Jarvis.ProcessManager.createProcess`, `terminateProcess`, `blockProcess`, `unblockProcess`,
  `schedule`, `processManagerTickHead`, `processManagerTickTail` — the operations.
-/

namespace Jarvis

/-! ## Constants and data types -/

/-- `PROCESS_MAX_COUNT`. -/
def processMaxCount : ℕ := 64

/-- `KERNEL_STACK_SIZE`. -/
def kernelStackSize : ℕ := 4096

/-- `USER_STACK_SIZE`. -/
def userStackSize : ℕ := 8192

/-- `USER_STACK_BASE`. -/
def userStackBase : ℕ := 0x80000000

/-- `MAX_PRIORITY_LEVELS`. -/
def maxPriorityLevels : ℕ := 16

/-- `TIME_SLICE_BASE`. -/
def timeSliceBase : ℕ := 10

/-- `enum ProcessState`. -/
inductive ProcessState
  | created
  | ready
  | running
  | blocked
  | waiting
  | terminated
  deriving DecidableEq, Repr

/-- `enum PrivilegeLevel`. -/
inductive PrivilegeLevel
  | kernelMode
  | userMode
  deriving DecidableEq, Repr

/-- The numeric value of a privilege level (ring 0 or ring 3). -/
def PrivilegeLevel.ring : PrivilegeLevel → ℕ
  | .kernelMode => 0
  | .userMode => 3

/-- The address of a heap block; the null pointer is `none`. -/
abbrev Ptr : Type := ℕ

/-- `struct RegisterState`, the frame an interrupt stub leaves on a stack. -/
structure RegisterState where
  eax : ℕ := 0
  ebx : ℕ := 0
  ecx : ℕ := 0
  edx : ℕ := 0
  esi : ℕ := 0
  edi : ℕ := 0
  ebp : ℕ := 0
  error : ℕ := 0
  eip : ℕ := 0
  cs : ℕ := 0
  eflags : ℕ := 0
  esp : ℕ := 0
  ss : ℕ := 0

/-- `sizeof(struct RegisterState)`: thirteen 32-bit words. -/
def registerStateSize : ℕ := 52

/-- `enum MemoryRegionType`. -/
inductive MemoryRegionType
  | kernel
  | code
  | data
  | heap
  | stack
  | mappedFile
  deriving DecidableEq, Repr

/-- `struct MemoryRegion`, without its list link. -/
structure MemoryRegion where
  virtualAddress : ℕ
  physicalAddress : ℕ := 0
  size : ℕ
  flags : ℕ
  type : MemoryRegionType
  deriving DecidableEq, Repr

/-- `struct Process`, the process control block. The region list is a list of its nodes. -/
structure Process where
  pid : ℕ := 0
  name : List UInt8 := []
  state : ProcessState := .created
  privilege : PrivilegeLevel := .kernelMode
  priority : ℕ := 0
  basePriority : ℕ := 0
  timeSlice : ℕ := 0
  totalRuntime : ℕ := 0
  wakeupTime : ℕ := 0
  regs : ℕ := 0
  kernelStack : Ptr := 0
  kernelStackSize : ℕ := 0
  userStack : Option ℕ := none
  userStackSize : ℕ := 0
  parentPid : ℕ := 0
  pageDirectory : Option ℕ := none
  memoryRegions : List MemoryRegion := []
  argc : ℕ := 0
  argv : ℕ := 0
  exitCode : ℤ := 0
  entryPoint : ℕ := 0
  next : Option Ptr := none

/-- The location of a queue head in the manager: the argument `Process** queue`. -/
inductive QueueId
  | ready (level : ℕ)
  | blocked
  | terminated
  deriving DecidableEq, Repr

/-- `struct ProcessManager`, together with the memory its pointers lead to: the control blocks
`pcb`, the register frames `regFrames`, the blocks passed to `free`, and the page directory
register. `wrapper` is the address of `process_wrapper`. -/
structure ProcessManager where
  processes : ℕ → Option Ptr
  processBitmap : ℕ → BitVec 8
  readyQueues : ℕ → Option Ptr
  blockedQueue : Option Ptr
  terminatedQueue : Option Ptr
  currentProcess : Option Ptr
  activeProcesses : ℕ
  systemTicks : ℕ
  pcb : Ptr → Process
  regFrames : ℕ → RegisterState
  freed : List Ptr
  cr3 : Option ℕ
  wrapper : ℕ

/-- `processManagerInit`: no process, empty queues, tick 0. The memory is as it was. -/
def processManagerInit (pcb : Ptr → Process) (regFrames : ℕ → RegisterState) (cr3 : Option ℕ)
    (wrapper : ℕ) : ProcessManager where
  processes _ := none
  processBitmap _ := 0
  readyQueues _ := none
  blockedQueue := none
  terminatedQueue := none
  currentProcess := none
  activeProcesses := 0
  systemTicks := 0
  pcb := pcb
  regFrames := regFrames
  freed := []
  cr3 := cr3
  wrapper := wrapper

namespace ProcessManager

/-! ## Memory access -/

/-- Assign to fields of the control block at `p`. -/
def modify (m : ProcessManager) (p : Ptr) (f : Process → Process) : ProcessManager :=
  { m with pcb := Function.update m.pcb p (f (m.pcb p)) }

/-- `p->next = n`. -/
def setNext (m : ProcessManager) (p : Ptr) (n : Option Ptr) : ProcessManager :=
  m.modify p fun x => { x with next := n }

/-- The link field of all control blocks. -/
def next (m : ProcessManager) (p : Ptr) : Option Ptr := (m.pcb p).next

/-- `*queue`. -/
def queue (m : ProcessManager) : QueueId → Option Ptr
  | .ready i => m.readyQueues i
  | .blocked => m.blockedQueue
  | .terminated => m.terminatedQueue

/-- `*queue = h`. -/
def setQueue (m : ProcessManager) : QueueId → Option Ptr → ProcessManager
  | .ready i, h => { m with readyQueues := Function.update m.readyQueues i h }
  | .blocked, h => { m with blockedQueue := h }
  | .terminated, h => { m with terminatedQueue := h }

/-- `free(p)`: recorded. -/
def free (m : ProcessManager) (p : Ptr) : ProcessManager := { m with freed := m.freed ++ [p] }

/-- A bound on the iterations of a loop over a queue: there are only `2 ^ 32` addresses, so a walk
that has not ended by then never ends. -/
def walkFuel : ℕ := 2 ^ 32

/-! ## PIDs -/

/-- `find_free_pid`: the least PID whose bit is clear, `none` for the result `-1`. -/
def findFreePid (m : ProcessManager) : Option ℕ :=
  (List.range processMaxCount).find? fun i => !Bitmap.test m.processBitmap i

/-- `set_pid_in_use`. -/
def setPidInUse (m : ProcessManager) (pid : ℕ) (inUse : Bool) : ProcessManager :=
  if pid < processMaxCount then
    if inUse then { m with processBitmap := Bitmap.set m.processBitmap pid }
    else { m with processBitmap := Bitmap.clear m.processBitmap pid }
  else m

/-! ## Queues -/

/-- `if (prev) prev->next = x; else *queue = x;`. -/
def linkFrom (m : ProcessManager) (q : QueueId) (prev x : Option Ptr) : ProcessManager :=
  match prev with
  | some r => m.setNext r x
  | none => m.setQueue q x

/-- `enqueue_process`: insert before the first process whose PID is not smaller. -/
def enqueueProcess (m : ProcessManager) (q : QueueId) (process : Ptr) : Option ProcessManager :=
  match m.queue q with
  | none => some ((m.setQueue q (some process)).setNext process none)
  | some front => do
    let (prev, current) ← LinkedList.walk m.next
      (fun r => !decide ((m.pcb r).pid < (m.pcb process).pid)) walkFuel none (some front)
    return (m.linkFrom q prev (some process)).setNext process current

/-- `dequeue_process`: take the first process off the queue. -/
def dequeueProcess (m : ProcessManager) (q : QueueId) : ProcessManager × Option Ptr :=
  match m.queue q with
  | none => (m, none)
  | some front => ((m.setQueue q (m.next front)).setNext front none, some front)

/-- `remove_process_from_queue`: take the process with the given PID out of the queue. -/
def removeProcessFromQueue (m : ProcessManager) (q : QueueId) (pid : ℕ) :
    Option (ProcessManager × Option Ptr) :=
  match m.queue q with
  | none => some (m, none)
  | some front => do
    let (prev, current) ← LinkedList.walk m.next
      (fun r => decide ((m.pcb r).pid = pid)) walkFuel none (some front)
    match current with
    | none => return (m, none)
    | some c => return ((m.linkFrom q prev (m.next c)).setNext c none, some c)

/-! ## Creation -/

/-- `get_code_selector`, `get_data_selector` and their user-mode versions: the index of the
descriptor in `struct GDT`. -/
def segmentSelectors : PrivilegeLevel → ℕ × ℕ
  | .kernelMode => (2, 3)
  | .userMode => (4, 5)

/-- The full time slice of a priority level, `TIME_SLICE_BASE * (MAX_PRIORITY_LEVELS - priority)`. -/
def fullSlice (priority : ℕ) : ℕ :=
  Word32.mul timeSliceBase (Word32.sub maxPriorityLevels priority)

/-- The arguments of `create_process`; a null entry point is `0`. -/
structure CreateArgs where
  name : Option (List UInt8) := none
  entry : ℕ := 1
  argc : ℕ := 0
  argv : ℕ := 0
  privilege : PrivilegeLevel := .kernelMode
  priority : ℕ := 0

/-- What the callees of `create_process` return: the control block, the page directory, the kernel
stack (`none` for a null pointer), whether `vmm_allocate_pages` succeeds for the user stack, and
whether its region record is allocated. -/
structure CreateAlloc where
  process : Option Ptr
  pageDirectory : Option ℕ
  kernelStack : Option Ptr
  userStack : Bool := true
  stackRegion : Bool := true

/-- The ways `create_process` returns `-1`. -/
inductive CreateError
  | badArgument
  | noPid
  | noProcess
  | noPageDirectory
  | noKernelStack
  | noUserStack
  deriving DecidableEq, Repr

/-- The user stack's virtual address. -/
def userStackVirtual : ℕ := userStackBase - userStackSize

/-- The user stack's region record; its flags are present, writable and user. -/
def stackRegion : MemoryRegion :=
  { virtualAddress := userStackVirtual, size := userStackSize, flags := 7, type := .stack }

/-- The control block `create_process` fills in, ready to be queued. -/
def newProcess (m : ProcessManager) (a : CreateArgs) (pid pageDirectory : ℕ) (kernelStack : Ptr)
    (region : Bool) : Process :=
  let priority := if a.priority > maxPriorityLevels - 1 then maxPriorityLevels - 1 else a.priority
  { pid := pid
    name := (a.name.getD [117, 110, 110, 97, 109, 101, 100]).take 31
    state := .ready
    privilege := a.privilege
    priority := priority
    basePriority := priority
    timeSlice := fullSlice priority
    regs := kernelStack + kernelStackSize - registerStateSize
    kernelStack := kernelStack
    kernelStackSize := kernelStackSize
    userStack := if a.privilege = .userMode then some userStackVirtual else none
    userStackSize := if a.privilege = .userMode then userStackSize else 0
    parentPid := match m.currentProcess with
      | some c => (m.pcb c).pid
      | none => 0
    pageDirectory := some pageDirectory
    memoryRegions := if a.privilege = .userMode ∧ region then [stackRegion] else []
    argc := a.argc
    argv := a.argv
    entryPoint := a.entry }

/-- The register frame `create_process` builds at the top of the kernel stack. -/
def newFrame (m : ProcessManager) (a : CreateArgs) (regs : ℕ) : RegisterState where
  eax := a.entry
  ebx := a.argc
  ecx := a.argv
  eip := m.wrapper
  eflags := 0x202
  esp := regs
  cs := 8 * (segmentSelectors a.privilege).1 + a.privilege.ring
  ss := 8 * (segmentSelectors a.privilege).2 + a.privilege.ring

/-- The last part of `create_process`: enter the process in the table and in its ready queue. -/
def addProcess (m : ProcessManager) (p : Ptr) (x : Process) (frame : RegisterState) :
    Option ProcessManager :=
  let m₁ : ProcessManager :=
    { m with
      pcb := Function.update m.pcb p x
      regFrames := Function.update m.regFrames x.regs frame
      processes := Function.update m.processes x.pid (some p) }
  let m₂ := m₁.setPidInUse x.pid true
  enqueueProcess { m₂ with activeProcesses := Word32.add m₂.activeProcesses 1 }
    (.ready x.priority) p

/-- `create_process`. -/
def createProcess (m : ProcessManager) (a : CreateArgs) (r : CreateAlloc) :
    Option (ProcessManager × Except CreateError ℕ) :=
  if a.entry = 0 then some (m, .error .badArgument) else
  match m.findFreePid with
  | none => some (m, .error .noPid)
  | some pid =>
    match r.process with
    | none => some (m, .error .noProcess)
    | some p =>
      match r.pageDirectory with
      | none => some (m.free p, .error .noPageDirectory)
      | some d =>
        match r.kernelStack with
        | none => some (m.free p, .error .noKernelStack)
        | some k =>
          if a.privilege = .userMode ∧ ¬ r.userStack then
            some ((m.free k).free p, .error .noUserStack)
          else do
            let x := m.newProcess a pid d k r.stackRegion
            let m' ← m.addProcess p x (m.newFrame a x.regs)
            return (m', .ok pid)

/-! ## State changes -/

/-- `terminate_process`; the truth value says whether it executes `int $0x20`. The state is
assigned before it is tested, so only the last of the three branches can be taken. -/
def terminateProcess (m : ProcessManager) (pid : ℕ) (exitCode : ℤ) :
    Option (ProcessManager × Bool) :=
  if processMaxCount ≤ pid then some (m, false) else
  match m.processes pid with
  | none => some (m, false)
  | some p =>
    let m₁ := m.modify p fun x => { x with state := .terminated, exitCode := exitCode }
    let removed :=
      if (m₁.pcb p).state = .ready then
        (m₁.removeProcessFromQueue (.ready (m₁.pcb p).priority) pid).map Prod.fst
      else if (m₁.pcb p).state = .blocked then
        (m₁.removeProcessFromQueue .blocked pid).map Prod.fst
      else if m₁.currentProcess = some p then some { m₁ with currentProcess := none }
      else some m₁
    do
      let m₂ ← removed
      let m₃ ← m₂.enqueueProcess .terminated p
      return (m₃, decide (m₃.currentProcess = some p))

/-- `block_process`; the truth value says whether it executes `int $0x20`. -/
def blockProcess (m : ProcessManager) (pid waitTime : ℕ) : Option (ProcessManager × Bool) :=
  if processMaxCount ≤ pid then some (m, false) else
  match m.processes pid with
  | none => some (m, false)
  | some p =>
    if (m.pcb p).state ≠ .ready ∧ m.currentProcess ≠ some p then some (m, false) else
    let removed :=
      if (m.pcb p).state = .ready then
        (m.removeProcessFromQueue (.ready (m.pcb p).priority) pid).map Prod.fst
      else if m.currentProcess = some p then some { m with currentProcess := none }
      else some m
    do
      let m₁ ← removed
      let m₂ := m₁.modify p fun x =>
        { x with state := .blocked, wakeupTime := Word32.add m₁.systemTicks waitTime }
      let m₃ ← m₂.enqueueProcess .blocked p
      return (m₃, decide (m₃.currentProcess = some p))

/-- `unblock_process`. -/
def unblockProcess (m : ProcessManager) (pid : ℕ) : Option ProcessManager :=
  if processMaxCount ≤ pid then some m else
  match m.processes pid with
  | none => some m
  | some p =>
    if (m.pcb p).state ≠ .blocked then some m else do
      let (m₁, _) ← m.removeProcessFromQueue .blocked pid
      let m₂ := m₁.modify p fun x => { x with state := .ready }
      m₂.enqueueProcess (.ready (m₂.pcb p).priority) p

/-! ## Scheduling -/

/-- The control block of the running process as `schedule` puts it back: the context is saved,
and a used-up slice costs one priority level and is renewed. -/
def preempted (x : Process) (esp : ℕ) : Process :=
  if x.timeSlice > 0 then { x with regs := esp, state := .ready }
  else
    let priority := if x.priority < maxPriorityLevels - 1 then x.priority + 1 else x.priority
    { x with
      regs := esp
      priority := priority
      timeSlice := fullSlice priority
      state := .ready }

/-- The first part of `schedule`: save the running process and put it back in its ready queue. -/
def requeueCurrent (m : ProcessManager) (esp : ℕ) : Option ProcessManager :=
  match m.currentProcess with
  | none => some m
  | some c =>
    if (m.pcb c).state = .running then
      let m' := m.modify c fun x => preempted x esp
      m'.enqueueProcess (.ready (m'.pcb c).priority) c
    else some m

/-- The search of `schedule`: dequeue from the first ready queue that is not empty. -/
def nextProcess : List ℕ → ProcessManager → ProcessManager × Option Ptr
  | [], m => (m, none)
  | i :: levels, m =>
    match m.dequeueProcess (.ready i) with
    | (m', some p) => (m', some p)
    | (m', none) => nextProcess levels m'

/-- `schedule`: the new manager and the stack pointer to continue with. -/
def schedule (m : ProcessManager) (esp : ℕ) : Option (ProcessManager × ℕ) := do
  let m₁ ← m.requeueCurrent esp
  match nextProcess (List.range maxPriorityLevels) m₁ with
  | (m₂, none) => return ({ m₂ with currentProcess := none }, esp)
  | (m₂, some p) =>
    let m₃ := m₂.modify p fun x => { x with state := .running }
    let m₄ := { m₃ with
      currentProcess := some p
      cr3 := match (m₃.pcb p).pageDirectory with
        | some d => some d
        | none => m₃.cr3 }
    return (m₄, (m₄.pcb p).regs)

/-! ## The timer tick -/

/-- `process_manager_tick` up to the `int $0x20`; the truth value says whether it is executed. -/
def processManagerTickHead (m : ProcessManager) : ProcessManager × Bool :=
  let m₁ := { m with systemTicks := Word32.add m.systemTicks 1 }
  match m₁.currentProcess with
  | none => (m₁, false)
  | some c =>
    if (m₁.pcb c).state = .running then
      let m₂ := m₁.modify c fun x =>
        { x with
          timeSlice := Word32.sub x.timeSlice 1
          totalRuntime := Word32.add x.totalRuntime 1 }
      (m₂, decide ((m₂.pcb c).timeSlice ≤ 0))
    else (m₁, false)

/-- The loop over the blocked queue: wake the processes whose time has come. -/
def wakeLoop : ℕ → Option Ptr → ProcessManager → Option ProcessManager
  | 0, _, _ => none
  | _ + 1, none, m => some m
  | fuel + 1, some current, m =>
    let next := m.next current
    if 0 < (m.pcb current).wakeupTime ∧ (m.pcb current).wakeupTime ≤ m.systemTicks then do
      let m' ← m.unblockProcess (m.pcb current).pid
      wakeLoop fuel next m'
    else wakeLoop fuel next m

/-- The body of the clean-up loop: free the blocks of a process and forget it. -/
def reap (m : ProcessManager) (p : Ptr) : ProcessManager :=
  let m₁ := match (m.pcb p).userStack with
    | some u => m.free u
    | none => m
  let m₂ := (m₁.free (m₁.pcb p).kernelStack).free p
  let m₃ := { m₂ with processes := Function.update m₂.processes (m₂.pcb p).pid none }
  let m₄ := m₃.setPidInUse (m₃.pcb p).pid false
  { m₄ with activeProcesses := Word32.sub m₄.activeProcesses 1 }

/-- The clean-up loop over the terminated queue. -/
def cleanupLoop : ℕ → Option Ptr → ProcessManager → Option ProcessManager
  | 0, _, _ => none
  | _ + 1, none, m => some m
  | fuel + 1, some current, m => cleanupLoop fuel (m.next current) (m.reap current)

/-- `process_manager_tick` after the `int $0x20`: wake-ups, and every 100 ticks the clean-up. -/
def processManagerTickTail (m : ProcessManager) : Option ProcessManager := do
  let m₁ ← wakeLoop walkFuel m.blockedQueue m
  if m₁.systemTicks % 100 = 0 then
    let m₂ ← cleanupLoop walkFuel m₁.terminatedQueue m₁
    return { m₂ with terminatedQueue := none }
  else return m₁

/-- `get_current_pid`, `none` for the result `-1`. -/
def getCurrentPid (m : ProcessManager) : Option ℕ :=
  m.currentProcess.map fun c => (m.pcb c).pid

end ProcessManager

end Jarvis
