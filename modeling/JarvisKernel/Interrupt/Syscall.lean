import JarvisKernel.Interrupt.Stubs

set_option relaxedAutoImplicit false
set_option autoImplicit false

/-!
# The stub of system calls

The entry code of `interruptstubs.s` for `int $0x80`, and what it gives to `handle_syscall_interrupt`, a
function with six parameters. The code pushes one word before the call, the stack pointer, so that the
function takes what lies behind it for its other arguments: the saved segment registers and `edi`.

The arguments belong to the function that is called. That is why nothing is said about `edi` and the segment
registers after the return.

## Main definitions

* `Jarvis.handleSyscall` — the code.
* `Jarvis.ServesSyscall` — the property of the code: it passes the registers on, and the interrupted program
  goes on with the result.

## Main results

* `Jarvis.handleSyscall_spec` — what the code does, for every stack and every function that it calls.
* `Jarvis.args_handleSyscall`, `Jarvis.eip_handleSyscall`, `Jarvis.eax_handleSyscall` — the arguments of the
  function, and where and with which `eax` the program goes on.
* `Jarvis.not_servesSyscall` — there is no state of the interrupted program in which it serves system calls.
-/

namespace Jarvis

open X86 WordMemory

/-! ## The source -/

/-- `_handle_syscall`. -/
def handleSyscall : List Instr :=
  [.cli,
    .pushal,
    .pushSeg .ds,
    .pushSeg .es,
    .pushSeg .fs,
    .pushSeg .gs,
    .movAx 0x10,
    .movAxSeg .ds,
    .movAxSeg .es,
    .movAxSeg .fs,
    .movAxSeg .gs,
    .push .esp,
    .call,
    .addEsp 4#32,
    .popSeg .gs,
    .popSeg .fs,
    .popSeg .es,
    .popSeg .ds,
    .popal,
    .addEsp 4#32,
    .sti,
    .iret]

/-- In the state `c` of the interrupted program, the code calls `h` once, with the registers as arguments.
Then the program goes on with the result in `eax`, and all other registers as they were. -/
structure ServesSyscall (c : Cpu) (h : CFunction 6 13) (ret : BitVec 32) : Prop where
  args : ∃ d, calls h.apply ret (c.interrupt codeSegment none) handleSyscall = [d] ∧
    (List.range 6).map d.arg =
      [c.reg .eax, c.reg .ebx, c.reg .ecx, c.reg .edx, c.reg .esi, c.reg .edi] ∧
    (run h.apply ret (c.interrupt codeSegment none) handleSyscall).reg .eax = (h.apply d).reg .eax
  eip : (run h.apply ret (c.interrupt codeSegment none) handleSyscall).eip = c.eip
  eflags : (run h.apply ret (c.interrupt codeSegment none) handleSyscall).eflags = c.eflags
  reg : ∀ r, r ≠ .eax → (run h.apply ret (c.interrupt codeSegment none) handleSyscall).reg r = c.reg r
  seg : ∀ s, (run h.apply ret (c.interrupt codeSegment none) handleSyscall).seg s = c.seg s

/-! ## The steps of the code -/

/-- The registers that are saved are pushed. -/
def saveAll : List Instr := [.cli, .pushal, .pushSeg .ds, .pushSeg .es, .pushSeg .fs, .pushSeg .gs]

/-- The segment registers of the kernel are loaded. -/
def loadSegs : List Instr := [.movAx 0x10, .movAxSeg .ds, .movAxSeg .es, .movAxSeg .fs, .movAxSeg .gs]

/-- The segment registers of the program are restored. -/
def restoreSegs : List Instr := [.popSeg .gs, .popSeg .fs, .popSeg .es, .popSeg .ds]

/-- The stub of `int $0x80` is what it saves, the call, and what it restores. -/
lemma handleSyscall_eq :
    handleSyscall = (saveAll ++ loadSegs) ++
      ([.push .esp, .call, .addEsp 4#32] ++ (restoreSegs ++ [.popal, .addEsp 4#32, .sti, .iret])) := rfl

/-- The segment registers that are saved, from the top of the stack on. -/
def savedSegs (c : Cpu) : List (BitVec 32) :=
  [.gs, .fs, .es, .ds].map fun s => (c.seg s).setWidth 32

/-- The general registers behind the saved segment registers. -/
def savedAll (c : Cpu) : List (BitVec 32) :=
  [c.reg .edi, c.reg .esi, c.reg .ebp, c.reg .esp, c.reg .ebx, c.reg .edx, c.reg .ecx, c.reg .eax]

section

variable {c : Cpu} {f : Cpu → Cpu} {ret : BitVec 32} {l : List (BitVec 32)}

/-- Saving puts the general registers and the segment registers on the stack. -/
lemma stack_saveAll (h : c.Stack l) (hl : l.length ≤ 6) :
    (run f ret c saveAll).Stack (savedSegs c ++ savedAll c ++ l) := by
  have hregs := Cpu.Stack.pushWords (c := exec f ret c .cli) h
    [c.reg .eax, c.reg .ecx, c.reg .edx, c.reg .ebx, c.reg .esp, c.reg .ebp, c.reg .esi, c.reg .edi]
    (by simp only [List.length_cons, List.length_nil]; omega)
  have hsegs := hregs.pushWords
    [(c.seg .ds).setWidth 32, (c.seg .es).setWidth 32, (c.seg .fs).setWidth 32, (c.seg .gs).setWidth 32]
    (by simp only [List.length_append, List.length_reverse, List.length_cons, List.length_nil]; omega)
  exact hsegs

/-- Loading segment registers changes neither the memory nor the stack pointer. -/
lemma stack_loadSegs : (run f ret c loadSegs).Stack l ↔ c.Stack l := by
  rw [loadSegs]
  simp only [run_cons, run_nil, exec, Cpu.Stack, Cpu.mem_setSeg, Cpu.reg_setSeg, Cpu.mem_setReg]
  rw [Cpu.reg_setReg_of_ne (by decide)]

/-- Restoring takes four words off the stack. -/
lemma stack_restoreSegs (f : Cpu → Cpu) (ret : BitVec 32) {v₁ v₂ v₃ v₄ : BitVec 32} (h : c.Stack (v₁ :: v₂ :: v₃ :: v₄ :: l)) :
    (run f ret c restoreSegs).Stack l :=
  h.drop.drop.drop.drop

/-- The last instructions drop a word and return from the interrupt. -/
lemma run_addEsp_sti_iret (f : Cpu → Cpu) (ret : BitVec 32) {x y z u : BitVec 32} (h : c.Stack (x :: y :: z :: u :: l)) :
    (run f ret c [.addEsp 4#32, .sti, .iret]).eip = y ∧
      (run f ret c [.addEsp 4#32, .sti, .iret]).seg .cs = z.setWidth 16 ∧
      (run f ret c [.addEsp 4#32, .sti, .iret]).eflags = u ∧
      ∀ r, r ≠ .esp → (run f ret c [.addEsp 4#32, .sti, .iret]).reg r = c.reg r := by
  have hsti : (exec f ret c.drop .sti).Stack (y :: z :: u :: l) := h.drop
  obtain ⟨heip, hcs, heflags, hreg⟩ := hsti.iret
  exact ⟨heip, hcs, heflags, fun r hr => (hreg r hr).trans (Cpu.reg_drop_of_ne hr)⟩

end

/-! ## The call -/

/-- The state after the registers were saved. -/
def syscallSaved (c : Cpu) : Cpu := run id 0#32 c (saveAll ++ loadSegs)

/-- The state in which `handle_syscall_interrupt` is entered. -/
def syscallEntry (c : Cpu) (ret : BitVec 32) : Cpu :=
  ((syscallSaved c).pushWord ((syscallSaved c).reg .esp)).pushWord ret

section

variable {c : Cpu} {f : Cpu → Cpu} {ret : BitVec 32} {l : List (BitVec 32)}

/-- What is saved before the call is `syscallSaved`. -/
lemma run_save : run f ret c (saveAll ++ loadSegs) = syscallSaved c := rfl

/-- The stub calls the handler once. -/
lemma calls_handleSyscall : calls f ret c handleSyscall = [syscallEntry c ret] := by
  rw [handleSyscall_eq, calls_append, calls_of_notMem (by decide), run_save, calls_append,
    calls_of_notMem (c := run f ret _ _) (by decide)]
  simp only [calls, exec, List.nil_append, List.append_nil, syscallEntry]

/-- The stub, with the handler in its middle. -/
lemma run_handleSyscall :
    run f ret c handleSyscall =
      run f ret (run f ret (exec f ret (f (syscallEntry c ret)) (.addEsp 4#32)) restoreSegs)
        (.popal :: [.addEsp 4#32, .sti, .iret]) := by
  rw [handleSyscall_eq, run_append, run_save, run_append, run_append]
  simp only [run_cons, run_nil, exec, syscallEntry]

/-- The stack at the call. -/
lemma stack_syscallSaved (h : c.Stack l) (hl : l.length ≤ 6) :
    (syscallSaved c).Stack (savedSegs c ++ savedAll c ++ l) := by
  rw [syscallSaved, run_append, stack_loadSegs]
  exact stack_saveAll h hl

/-- The stack when `handle_syscall_interrupt` is entered: its six arguments are the stack pointer, the segment
registers and `edi`. -/
lemma stack_syscallEntry (ret : BitVec 32) (h : c.Stack l) (hl : l.length ≤ 6) :
    (syscallEntry c ret).Stack
      (ret :: ((syscallSaved c).reg .esp :: (savedSegs c ++ [c.reg .edi])) ++
        ((savedAll c).tail ++ l)) := by
  have hlen : (savedSegs c ++ savedAll c ++ l).length ≤ 18 := by
    rw [List.length_append, List.length_append]
    simp only [savedSegs, savedAll, List.map_cons, List.map_nil, List.length_cons, List.length_nil]
    omega
  have hargs := ((stack_syscallSaved h hl).pushWord (by omega) ((syscallSaved c).reg .esp)).pushWord
    (by rw [List.length_cons]; omega) ret
  exact hargs

/-- What the code does, whatever is on the stack: `handle_syscall_interrupt` is called with the stack pointer,
the segment registers and `edi`. Whatever it returns, `eax` is restored, and the program goes on at the second
word of the stack.

**Proof sketch.** The function keeps the words of the stack that lie behind its arguments, so the first five
words that are restored can be any. The next ones are the registers that were saved, from `esi` on. They
include `eax`. Then one word is dropped, and `iret` loads the three words behind it. -/
lemma handleSyscall_spec (h : CFunction 6 13) (ret : BitVec 32) {x y z u : BitVec 32}
    (hstack : c.Stack (x :: y :: z :: u :: l)) (hl : l.length ≤ 2) :
    (List.range 6).map (syscallEntry c ret).arg =
        (syscallSaved c).reg .esp :: (savedSegs c ++ [c.reg .edi]) ∧
      (run h.apply ret c handleSyscall).eip = y ∧
      (run h.apply ret c handleSyscall).seg .cs = z.setWidth 16 ∧
      (run h.apply ret c handleSyscall).eflags = u ∧
      ∀ r, r ≠ .esp → r ≠ .edi → (run h.apply ret c handleSyscall).reg r = c.reg r := by
  have hentry := stack_syscallEntry ret hstack (by
    simp only [List.length_cons]
    omega)
  refine ⟨hentry.map_arg, ?_⟩
  -- the function returns; the words that it was given can be any
  have hkept := h.stack hentry rfl (by
    rw [List.length_append, savedAll, List.tail_cons]
    simp only [List.length_cons, List.length_nil]
    omega)
  obtain ⟨w, hw, hargs⟩ := exists_holds (h.apply (syscallEntry c ret)).mem
    (offset ((syscallEntry c ret).reg .esp) 8) 5
  obtain ⟨v₁, v₂, v₃, v₄, di, rfl⟩ : ∃ v₁ v₂ v₃ v₄ di, w = [v₁, v₂, v₃, v₄, di] := by
    rcases w with _ | ⟨v₁, _ | ⟨v₂, _ | ⟨v₃, _ | ⟨v₄, _ | ⟨di, _ | _⟩⟩⟩⟩⟩
    case cons.cons.cons.cons.cons.nil => exact ⟨v₁, v₂, v₃, v₄, di, rfl⟩
    all_goals simp at hw
  have hreturned : (exec h.apply ret (h.apply (syscallEntry c ret)) (.addEsp 4#32)).Stack
      ([v₁, v₂, v₃, v₄, di] ++ ((savedAll c).tail ++ x :: y :: z :: u :: l)) := by
    have hesp : (exec h.apply ret (h.apply (syscallEntry c ret)) (.addEsp 4#32)).reg .esp =
        offset ((syscallEntry c ret).reg .esp) 8 := by
      rw [exec, Cpu.reg_setReg_self, h.esp, BitVec.add_assoc]
      rfl
    rw [Cpu.Stack, hesp]
    refine holds_append.2 ⟨hargs, ?_⟩
    rw [offset_offset]
    exact hkept
  -- the registers are restored
  have hsegs := stack_restoreSegs h.apply ret hreturned
  obtain ⟨hregs, hreg⟩ := Cpu.Stack.popal h.apply ret
    (g := Function.update c.reg .edi di) (v := c.reg .esp) hsegs
  obtain ⟨heip, hcs, heflags, hreg'⟩ := run_addEsp_sti_iret h.apply ret hregs
  rw [run_handleSyscall, run_cons]
  refine ⟨heip, hcs, heflags, fun r hr hdi => ?_⟩
  rw [hreg' r hr, hreg r hr, Function.update_of_ne hdi]

end

/-! ## System calls -/

section

variable (c : Cpu) (h : CFunction 6 13) (ret : BitVec 32)

/-- The stack at `int $0x80`. -/
lemma exists_stack_interrupt :
    ∃ u l, l.length ≤ 2 ∧ (c.interrupt codeSegment none).Stack
      (c.eip :: (c.seg .cs).setWidth 32 :: c.eflags :: u :: l) := by
  have hstack := Cpu.stack_interrupt (c := c) (l := [readWord c.mem c.entryStack]) ⟨rfl, trivial⟩
    (by rw [List.length_singleton]; decide) codeSegment none
  rw [Cpu.entryWords] at hstack
  split_ifs at hstack
  · exact ⟨_, [], Nat.zero_le 2, hstack⟩
  · exact ⟨_, [_, _], le_rfl, hstack⟩

/-- The registers with which `handle_syscall_interrupt` is called. -/
lemma args_handleSyscall :
    (List.range 6).map (syscallEntry (c.interrupt codeSegment none) ret).arg =
      [(syscallSaved (c.interrupt codeSegment none)).reg .esp, (c.seg .gs).setWidth 32,
        (c.seg .fs).setWidth 32, (c.seg .es).setWidth 32, (c.seg .ds).setWidth 32, c.reg .edi] := by
  obtain ⟨u, l, hl, hstack⟩ := exists_stack_interrupt c
  rw [(handleSyscall_spec (.ofResult 6 13 Cpu.eip) ret hstack hl).1, savedSegs]
  simp only [List.map_cons, List.map_nil, List.cons_append, List.nil_append,
    Cpu.seg_interrupt_of_ne (c := c) (show Seg.gs ≠ .cs by decide) (by decide),
    Cpu.seg_interrupt_of_ne (c := c) (show Seg.fs ≠ .cs by decide) (by decide),
    Cpu.seg_interrupt_of_ne (c := c) (show Seg.es ≠ .cs by decide) (by decide),
    Cpu.seg_interrupt_of_ne (c := c) (show Seg.ds ≠ .cs by decide) (by decide),
    Cpu.reg_interrupt_of_ne (c := c) (show Reg.edi ≠ .esp by decide)]

/-- The program does not go on where it was interrupted, but at the address that its code segment gives. -/
lemma eip_handleSyscall :
    (run h.apply ret (c.interrupt codeSegment none) handleSyscall).eip = (c.seg .cs).setWidth 32 := by
  obtain ⟨u, l, hl, hstack⟩ := exists_stack_interrupt c
  exact (handleSyscall_spec h ret hstack hl).2.1

/-- The result does not reach the program. -/
lemma eax_handleSyscall :
    (run h.apply ret (c.interrupt codeSegment none) handleSyscall).reg .eax = c.reg .eax := by
  obtain ⟨u, l, hl, hstack⟩ := exists_stack_interrupt c
  obtain ⟨-, -, -, -, hreg⟩ := handleSyscall_spec h ret hstack hl
  rw [hreg .eax (by decide) (by decide), Cpu.reg_interrupt_of_ne (by decide)]

end

/-- No result is served other than the value that `eax` has already. -/
lemma ServesSyscall.result {c : Cpu} {h : CFunction 6 13} {ret : BitVec 32} (hs : ServesSyscall c h ret) :
    (h.apply (syscallEntry (c.interrupt codeSegment none) ret)).reg .eax = c.reg .eax := by
  obtain ⟨d, hd, -, hresult⟩ := hs.args
  rw [calls_handleSyscall, List.cons.injEq] at hd
  rw [hd.1, ← hresult, eax_handleSyscall]

/-- Whatever the state of the interrupted program is, it does not get all results. -/
theorem not_servesSyscall (c : Cpu) (ret : BitVec 32) : ¬ ∀ h : CFunction 6 13, ServesSyscall c h ret := by
  intro hall
  have hresult := (hall (.ofResult 6 13 fun _ => c.reg .eax + 1#32)).result
  rw [CFunction.eax_ofResult] at hresult
  exact absurd (add_eq_left.1 hresult) (by decide)

/-- A program that makes the system call number 4 with the arguments 1, 0x2000 and 5. -/
def interruptedProgram : Cpu where
  reg r := match r with
    | .eax => 4
    | .ebx => 1
    | .ecx => 0x2000
    | .edx => 5
    | .esp => 0x8000
    | _ => 0
  seg s := if s = .cs then 0x23 else 0x2B
  eip := 0x1000
  eflags := 0x202
  mem _ := 0
  var := 0
  esp0 := 0x9000
  ss0 := 0x18

/-- The program does not go on behind the system call. -/
theorem not_servesSyscall_write :
    ¬ ∀ (c : Cpu) (h : CFunction 6 13) (ret : BitVec 32), ServesSyscall c h ret := by
  intro hall
  have heip := (hall interruptedProgram (.ofResult 6 13 fun _ => 0) 0).eip
  rw [eip_handleSyscall] at heip
  exact absurd heip (by decide)

end Jarvis
