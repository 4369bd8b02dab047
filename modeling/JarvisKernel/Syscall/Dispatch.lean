import JarvisKernel.Interrupt.Syscall
import JarvisKernel.Lib.Table

set_option relaxedAutoImplicit false
set_option autoImplicit false

/-!
# Dispatching system calls

The table of `src/kernel/syscall/syscall.c` and `handle_syscall_interrupt`, together with the code behind the gate of
`int $0x80`. The code gives its stack pointer to the function where this expects the number of the call, so that the
stack has to be at the very bottom of memory for a handler to be called: every other system call is refused, and
changes nothing, whatever number the program has in `eax`.

What the handlers do, but for those that only fail, is a parameter, and so is what it means to store the result in the
process that is running.

## Main definitions

* `Jarvis.SyscallHandler`, `Jarvis.syscallInit` — the handlers, and the table.
* `Jarvis.SyscallKernel.handleSyscallInterrupt` — the function.
* `Jarvis.SyscallKernel.systemCall` — an `int $0x80`, from the program to the handler.

## Main results

* `Jarvis.esp_syscallSaved` — the stack pointer that is taken for the number.
* `Jarvis.SyscallKernel.systemCall_eq`, `Jarvis.SyscallKernel.systemCall_reaches` — which handler is called, and with
  what.
* `Jarvis.SyscallKernel.refused_of_run` — system calls of programs change nothing.
-/

namespace Jarvis

open X86 WordMemory

/-! ## The table -/

/-- The handlers that are in the table. -/
inductive SyscallHandler
  | exit
  | read
  | write
  | open
  | close
  | ioctl
  | fork
  | execve
  | waitpid
  | getpid
  | sbrk
  | yield
  | mmap
  | munmap
  deriving DecidableEq

/-- The number of entries of `syscall_table`. -/
def syscallTableSize : BitVec 32 := 128

/-- The entries that `syscall_init` sets, with their numbers. -/
def syscallEntries : List (BitVec 32 × SyscallHandler) :=
  [(1, .exit), (3, .read), (4, .write), (5, .open), (6, .close), (16, .ioctl), (2, .fork), (11, .execve), (7, .waitpid),
    (20, .getpid), (45, .sbrk), (64, .yield), (90, .mmap), (91, .munmap)]

/-- `syscall_init`. -/
def syscallInit : BitVec 32 → Option SyscallHandler :=
  syscallEntries.foldl (fun table e => Function.update table e.1 (some e.2)) fun _ => none

/-- What the handlers do in states `σ`, and how a result is stored in the current process, if there is one. -/
structure SyscallKernel (σ : Type) where
  handler : SyscallHandler → List (BitVec 32) → σ → σ × BitVec 32
  setResult : BitVec 32 → σ → σ

namespace SyscallKernel

variable {σ : Type} (k : SyscallKernel σ)

/-- A handler that is called. Those for `fork`, `execve`, `waitpid` and `sbrk` only fail. -/
def callHandler (h : SyscallHandler) (args : List (BitVec 32)) (s : σ) : σ × BitVec 32 :=
  match h with
  | .fork | .execve | .waitpid | .sbrk => (s, -1)
  | h => k.handler h args s

/-- `handle_syscall_interrupt`. -/
def handleSyscallInterrupt (table : BitVec 32 → Option SyscallHandler) (s : σ)
    (eax ebx ecx edx esi edi : BitVec 32) : σ × BitVec 32 :=
  if syscallTableSize ≤ eax then (s, -1)
  else
    match table eax with
    | none => (s, -1)
    | some h =>
      match k.callHandler h [ebx, ecx, edx, esi, edi] s with
      | (s, result) => (k.setResult result s, result)

/-- An `int $0x80` in a state of a program: the function is called with what the code passes to it. -/
def systemCall (table : BitVec 32 → Option SyscallHandler) (ret : BitVec 32) (s : σ) (c : Cpu) : σ × BitVec 32 :=
  let entry := syscallEntry (c.interrupt codeSegment none) ret
  k.handleSyscallInterrupt table s (entry.arg 0) (entry.arg 1) (entry.arg 2) (entry.arg 3) (entry.arg 4) (entry.arg 5)

end SyscallKernel

/-- The handler of a number is the one that is registered for it. -/
lemma syscallInit_eq_some_iff (n : BitVec 32) (h : SyscallHandler) :
    syscallInit n = some h ↔ (n, h) ∈ syscallEntries := by
  have hnodup : (syscallEntries.map Prod.fst).Nodup := by decide
  obtain ⟨hmem, hnot⟩ := Table.foldl_update_key Prod.fst (fun e : BitVec 32 × SyscallHandler => some e.2) hnodup
    (fun _ => none) n
  rw [syscallInit]
  constructor
  · intro hfound
    by_cases hkey : ∃ e ∈ syscallEntries, e.1 = n
    · obtain ⟨⟨m, h'⟩, he, rfl⟩ := hkey
      obtain rfl := Option.some.inj ((hmem _ he rfl).symm.trans hfound)
      exact he
    · rw [hnot fun e he heq => hkey ⟨e, he, heq⟩] at hfound
      exact absurd hfound (by simp)
  · exact fun he => hmem _ he rfl

/-! ## The number -/

/-- How many bytes the processor and the code have pushed when the function is called. -/
def pushedBytes (c : Cpu) : BitVec 32 := if rpl (c.seg .cs) = 0 then 60 else 68

/-- Saving takes twelve words of the stack. -/
lemma esp_saveAll_loadSegs (c : Cpu) : (syscallSaved c).reg .esp = c.reg .esp - 48#32 := by
  rw [syscallSaved, saveAll, loadSegs]
  simp [run_cons, run_nil, exec, Cpu.pushWords, Cpu.reg_setReg_of_ne, Cpu.reg_setSeg]
  bv_omega

/-- The interrupt takes three words, or five if it comes from user mode. -/
lemma esp_interrupt (c : Cpu) (selector : BitVec 16) :
    (c.interrupt selector none).reg .esp = c.entryStack - if rpl (c.seg .cs) = 0 then 12#32 else 20#32 := by
  rw [Cpu.interrupt, Cpu.switchStack, Cpu.entryStack]
  split_ifs
  · simp [Cpu.pushWords]
    bv_omega
  · simp [Cpu.pushWords]
    bv_omega

/-- **The stack pointer** that the code takes for the number of the call. -/
lemma esp_syscallSaved (c : Cpu) :
    (syscallSaved (c.interrupt codeSegment none)).reg .esp = c.entryStack - pushedBytes c := by
  rw [esp_saveAll_loadSegs, esp_interrupt, pushedBytes]
  split_ifs
  · bv_omega
  · bv_omega

namespace SyscallKernel

variable {σ : Type} (k : SyscallKernel σ) (table : BitVec 32 → Option SyscallHandler) (ret : BitVec 32) (s : σ)

/-- **Which handler is called**: that of the number that is the stack pointer, with the segment registers and `edi`
for its arguments. -/
lemma systemCall_eq (c : Cpu) :
    k.systemCall table ret s c =
      k.handleSyscallInterrupt table s (c.entryStack - pushedBytes c) ((c.seg .gs).setWidth 32)
        ((c.seg .fs).setWidth 32) ((c.seg .es).setWidth 32) ((c.seg .ds).setWidth 32) (c.reg .edi) := by
  have hargs := args_handleSyscall c ret
  rw [esp_syscallSaved] at hargs
  simp only [List.range_succ, List.range_zero, List.nil_append, List.cons_append, List.map_cons, List.map_nil,
    List.cons.injEq, and_true] at hargs
  obtain ⟨h0, h1, h2, h3, h4, h5⟩ := hargs
  rw [systemCall, h0, h1, h2, h3, h4, h5]

/-- A call from a stack that is not at the bottom of memory is refused. -/
lemma systemCall_of_le {c : Cpu} (hc : 196 ≤ c.entryStack.toNat) : k.systemCall table ret s c = (s, -1) := by
  have hnum : syscallTableSize ≤ c.entryStack - pushedBytes c := by
    rw [pushedBytes, syscallTableSize]
    split_ifs
    · bv_omega
    · bv_omega
  rw [systemCall_eq, handleSyscallInterrupt, if_pos hnum]

/-- Only a call whose stack pointer is a number of the table reaches a handler, and the handler is that of the
number. -/
lemma systemCall_reaches {c : Cpu} (hne : k.systemCall syscallInit ret s c ≠ (s, -1)) :
    ∃ h, (c.entryStack - pushedBytes c, h) ∈ syscallEntries ∧
      k.systemCall syscallInit ret s c =
        ((k.setResult (k.callHandler h ((savedSegs c) ++ [c.reg .edi]) s).2
          (k.callHandler h ((savedSegs c) ++ [c.reg .edi]) s).1),
          (k.callHandler h ((savedSegs c) ++ [c.reg .edi]) s).2) := by
  rw [systemCall_eq, handleSyscallInterrupt] at hne ⊢
  split_ifs at hne ⊢ with hbig
  · exact absurd rfl hne
  · cases hentry : syscallInit (c.entryStack - pushedBytes c) with
    | none =>
      rw [hentry] at hne
      exact absurd rfl hne
    | some h => exact ⟨h, (syscallInit_eq_some_iff _ h).1 hentry, rfl⟩

/-! ## Runs -/

/-- What happens to the kernel: a program makes a system call, or something else. -/
inductive Event (σ : Type)
  | systemCall (c : Cpu)
  | other (f : σ → σ)

/-- One event. -/
def step (s : σ) : Event σ → σ
  | .systemCall c => (k.systemCall syscallInit ret s c).1
  | .other f => f s

/-- The events that are not system calls. -/
def Event.IsOther : Event σ → Bool
  | .systemCall _ => false
  | .other _ => true

/-- **System calls change nothing.** In every run in which the stacks of system calls are not in the lowest 196 bytes
of memory, they all return -1, and the run ends as it does without them.

**Proof sketch.** By induction on the events: the stack pointer, which is taken for the number, is beyond the
table. -/
theorem refused_of_run (es : List (Event σ)) (hes : ∀ c, .systemCall c ∈ es → 196 ≤ c.entryStack.toNat) :
    es.foldl (k.step ret) s = (es.filter Event.IsOther).foldl (k.step ret) s ∧
      ∀ before c, before ++ [.systemCall c] <+: es →
        (k.systemCall syscallInit ret (before.foldl (k.step ret) s) c).2 = -1 := by
  constructor
  · induction es generalizing s with
    | nil => rfl
    | cons e es ih =>
      have hrest := fun c hc => hes c (List.mem_cons_of_mem e hc)
      cases e with
      | systemCall c =>
        have hsame : k.step ret s (.systemCall c) = s := by
          rw [step, systemCall_of_le k syscallInit ret s (hes c List.mem_cons_self)]
        rw [List.foldl_cons, hsame]
        exact ih s hrest
      | other f => exact ih (f s) hrest
  · intro before c hprefix
    have hmem : .systemCall c ∈ es := hprefix.subset (List.mem_append_right before (List.mem_singleton_self _))
    rw [systemCall_of_le k syscallInit ret _ (hes c hmem)]

/-- Handlers that count their calls. -/
def counting : SyscallKernel ℕ := ⟨fun _ _ n => (n + 1, 0), fun _ n => n⟩

/-- A program in the outer ring calls `write`; something else happens before and after. -/
theorem refused_of_run_write :
    [Event.other (· + 5), .systemCall interruptedProgram, .other (· * 2)].foldl (counting.step 0) 1 = 12 ∧
      (counting.systemCall syscallInit 0 6 interruptedProgram).2 = -1 := by
  have hes : ∀ c, Event.systemCall c ∈ [Event.other (· + 5), .systemCall interruptedProgram, .other (· * 2)] →
      196 ≤ c.entryStack.toNat := by
    intro c hc
    obtain rfl : c = interruptedProgram := by simpa using hc
    decide
  obtain ⟨hrun, hresult⟩ := counting.refused_of_run 0 1 _ hes
  exact ⟨hrun, hresult [.other (· + 5)] interruptedProgram ⟨[.other (· * 2)], rfl⟩⟩

end SyscallKernel

end Jarvis
