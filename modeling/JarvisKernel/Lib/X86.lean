import JarvisKernel.Lib.WordMemory
import Mathlib.Logic.Function.Basic

set_option relaxedAutoImplicit false
set_option autoImplicit false

/-!
# Interrupts on the x86

The part of a 32-bit x86 processor that the entry code of interrupts uses: its registers, the stack, the
instructions that move words between them, what the processor does itself when an interrupt is taken and
when `iret` returns from it, and the calling convention of C.

Code is a list of instructions without jumps. The variable of the code is a word of its own, which the stack
does not overlap. The status flags that additions set are left out, since `iret` loads all flags.

## Main definitions

* `X86.Cpu` — the state of the processor and its memory.
* `X86.Cpu.interrupt`, `X86.Cpu.iret` — taking an interrupt and returning from it.
* `X86.Instr`, `X86.run`, `X86.calls` — instructions, what code does, and the calls that it makes.
* `X86.CFunction` — a function that follows the calling convention.

## Main results

* `X86.Cpu.Stack.interrupt` — what is on the stack when an interrupt is taken.
* `X86.run_pushes`, `X86.Cpu.Stack.run_pops` — saving and restoring registers.
* `X86.Cpu.Stack.iret` — what `iret` loads.
-/

namespace X86

open WordMemory

/-! ## The processor -/

/-- The general registers. -/
inductive Reg
  | eax | ebx | ecx | edx | esi | edi | ebp | esp
  deriving DecidableEq

/-- The segment registers. -/
inductive Seg
  | cs | ds | es | fs | gs | ss
  deriving DecidableEq

/-- The processor and its memory. `esp0` and `ss0` are the stack for interrupts from outer rings; `eip` is
where the interrupted program goes on. -/
structure Cpu where
  reg : Reg → BitVec 32
  seg : Seg → BitVec 16
  eip : BitVec 32
  eflags : BitVec 32
  mem : BitVec 32 → BitVec 8
  var : BitVec 32
  esp0 : BitVec 32
  ss0 : BitVec 16

/-- The privilege level of a selector. -/
def rpl (selector : BitVec 16) : ℕ := selector.toNat % 4

namespace Cpu

variable {c : Cpu} {l : List (BitVec 32)} {v : BitVec 32}

/-- Assign a register. -/
def setReg (c : Cpu) (r : Reg) (v : BitVec 32) : Cpu := { c with reg := Function.update c.reg r v }

/-- Assign a segment register. -/
def setSeg (c : Cpu) (s : Seg) (v : BitVec 16) : Cpu := { c with seg := Function.update c.seg s v }

/-- Push a word. -/
def pushWord (c : Cpu) (v : BitVec 32) : Cpu :=
  { c with
    reg := Function.update c.reg .esp (c.reg .esp - 4#32)
    mem := writeWord c.mem (c.reg .esp - 4#32) v }

/-- Push words, the first one first. -/
def pushWords (c : Cpu) (vs : List (BitVec 32)) : Cpu := vs.foldl pushWord c

/-- The word on top of the stack. -/
def top (c : Cpu) : BitVec 32 := readWord c.mem (c.reg .esp)

/-- Drop the word on top of the stack. -/
def drop (c : Cpu) : Cpu := c.setReg .esp (c.reg .esp + 4#32)

/-- The words on top of the stack. -/
def Stack (c : Cpu) (l : List (BitVec 32)) : Prop := Holds c.mem (c.reg .esp) l

/-- A register has the value that was put there. -/
@[simp] lemma reg_setReg_self (r : Reg) : (c.setReg r v).reg r = v := Function.update_self ..

/-- The other registers keep theirs. -/
@[simp] lemma reg_setReg_of_ne {r r' : Reg} (h : r' ≠ r) : (c.setReg r v).reg r' = c.reg r' :=
  Function.update_of_ne h _ _

/-- Registers are not in memory. -/
@[simp] lemma mem_setReg (r : Reg) : (c.setReg r v).mem = c.mem := rfl

/-- Segment registers are no general registers. -/
@[simp] lemma reg_setSeg (s : Seg) (v : BitVec 16) : (c.setSeg s v).reg = c.reg := rfl

/-- Nor are they in memory. -/
@[simp] lemma mem_setSeg (s : Seg) (v : BitVec 16) : (c.setSeg s v).mem = c.mem := rfl

/-- And the other way round. -/
@[simp] lemma seg_setReg (r : Reg) : (c.setReg r v).seg = c.seg := rfl

/-- A push moves the stack pointer down by 4. -/
@[simp] lemma esp_pushWord : (c.pushWord v).reg .esp = c.reg .esp - 4#32 :=
  Function.update_self Reg.esp _ c.reg

/-- It changes no other register. -/
@[simp] lemma reg_pushWord_of_ne {r : Reg} (h : r ≠ .esp) : (c.pushWord v).reg r = c.reg r :=
  Function.update_of_ne h _ _

/-- Nor a segment register. -/
@[simp] lemma seg_pushWord : (c.pushWord v).seg = c.seg := rfl

/-- Nor a variable. -/
@[simp] lemma var_pushWord : (c.pushWord v).var = c.var := rfl

/-- Neither does taking a word off the stack. -/
@[simp] lemma reg_drop_of_ne {r : Reg} (h : r ≠ .esp) : c.drop.reg r = c.reg r :=
  Function.update_of_ne h _ _

/-- The words on the stack after a push. -/
lemma Stack.pushWord (h : c.Stack l) (hl : l.length < 2 ^ 30 - 1) (v : BitVec 32) :
    (c.pushWord v).Stack (v :: l) := by
  have hpush := Holds.push h (by omega) v
  rw [Stack, Cpu.pushWord]
  simp only [Function.update_self]
  exact hpush

/-- Words that are pushed lie on the stack, the last one on top. -/
lemma Stack.pushWords (h : c.Stack l) (vs : List (BitVec 32)) (hl : l.length + vs.length < 2 ^ 30) :
    (c.pushWords vs).Stack (vs.reverse ++ l) := by
  induction vs generalizing c l with
  | nil => exact h
  | cons v vs ih =>
    rw [List.length_cons] at hl
    rw [List.reverse_cons, List.append_assoc]
    exact ih (h.pushWord (by omega) v) (by rw [List.length_append, List.length_singleton]; omega)

/-- Pushing several words changes no other register. -/
@[simp] lemma reg_pushWords_of_ne {r : Reg} (h : r ≠ .esp) (vs : List (BitVec 32)) :
    (c.pushWords vs).reg r = c.reg r := by
  induction vs generalizing c with
  | nil => rfl
  | cons v vs ih => exact ih.trans (reg_pushWord_of_ne h)

/-- Nor a segment register. -/
@[simp] lemma seg_pushWords (vs : List (BitVec 32)) : (c.pushWords vs).seg = c.seg := by
  induction vs generalizing c with
  | nil => rfl
  | cons v vs ih => exact ih.trans rfl

/-- The top of the stack. -/
lemma Stack.top_eq (h : c.Stack (v :: l)) : c.top = v := h.1

/-- The words on the stack after the top one was dropped. -/
lemma Stack.drop (h : c.Stack (v :: l)) : c.drop.Stack l := by
  rw [Stack, Cpu.drop, reg_setReg_self]
  exact h.2

/-- The words on the stack after the top one was popped to a register. -/
lemma Stack.pop {r : Reg} (h : c.Stack (v :: l)) (hr : r ≠ .esp) : (c.drop.setReg r c.top).Stack l := by
  have hdrop := h.drop
  rw [Stack] at hdrop ⊢
  rw [reg_setReg_of_ne hr.symm]
  exact hdrop

/-! ## Interrupts -/

/-- The stack on which the processor saves its state when an interrupt is taken. -/
def entryStack (c : Cpu) : BitVec 32 := if rpl (c.seg .cs) = 0 then c.reg .esp else c.esp0

/-- The state that the processor saves when an interrupt is taken, from the top of the stack on. The stack
pointer is saved if the interrupt comes from an outer ring. -/
def entryWords (c : Cpu) : List (BitVec 32) :=
  [c.eip, (c.seg .cs).setWidth 32, c.eflags] ++
    if rpl (c.seg .cs) = 0 then [] else [c.reg .esp, (c.seg .ss).setWidth 32]

/-- An interrupt pushes the flags, the segment and the address at least. -/
lemma three_le_length_entryWords (c : Cpu) : 3 ≤ c.entryWords.length := by
  rw [entryWords, List.length_append]
  exact Nat.le_add_right _ _

/-- From another ring it pushes the stack segment and the stack pointer as well. -/
lemma length_entryWords_le (c : Cpu) : c.entryWords.length ≤ 5 := by
  rw [entryWords]
  split_ifs <;> simp

/-- The stack is switched for an interrupt from an outer ring. -/
def switchStack (c : Cpu) : Cpu :=
  if rpl (c.seg .cs) = 0 then c
  else
    ({ c with
        reg := Function.update c.reg .esp c.esp0
        seg := Function.update c.seg .ss c.ss0 } : Cpu).pushWords
      [(c.seg .ss).setWidth 32, c.reg .esp]

/-- The flags that an interrupt gate clears: TF, IF, NT, RF and VM. -/
def gateFlags : BitVec 32 := 0x34300

/-- Taking an interrupt through an interrupt gate with the given code segment. Some interrupts come with an
error code. -/
def interrupt (c : Cpu) (selector : BitVec 16) (error : Option (BitVec 32)) : Cpu :=
  let c' := (c.switchStack.pushWords [c.eflags, (c.seg .cs).setWidth 32, c.eip]).pushWords error.toList
  { c' with seg := Function.update c'.seg .cs selector, eflags := c.eflags &&& ~~~gateFlags }

/-- `iret`: the stack pointer is loaded for a return to an outer ring. -/
def iret (c : Cpu) : Cpu :=
  let esp := c.reg .esp
  let selector := (readWord c.mem (offset esp 4)).setWidth 16
  let c' :=
    { c.setReg .esp (offset esp 12) with
      eip := readWord c.mem esp
      eflags := readWord c.mem (offset esp 8)
      seg := Function.update c.seg .cs selector }
  if rpl (c.seg .cs) < rpl selector then
    (c'.setReg .esp (readWord c.mem (offset esp 12))).setSeg .ss
      ((readWord c.mem (offset esp 16)).setWidth 16)
  else c'

/-- An interrupt changes no general register but the stack pointer. -/
lemma reg_interrupt_of_ne {r : Reg} (h : r ≠ .esp) (selector : BitVec 16)
    (error : Option (BitVec 32)) : (c.interrupt selector error).reg r = c.reg r := by
  rw [interrupt, switchStack]
  split_ifs <;> simp [h]

/-- Of the segment registers it changes those of the code and the stack only. -/
lemma seg_interrupt_of_ne {s : Seg} (h : s ≠ .cs) (hss : s ≠ .ss) (selector : BitVec 16)
    (error : Option (BitVec 32)) : (c.interrupt selector error).seg s = c.seg s := by
  rw [interrupt, switchStack]
  split_ifs <;> simp [h, hss]

/-- The words on the stack when an interrupt is taken. -/
lemma stack_interrupt (h : Holds c.mem c.entryStack l) (hl : l.length < 2 ^ 29)
    (selector : BitVec 16) (error : Option (BitVec 32)) :
    (c.interrupt selector error).Stack (error.toList ++ c.entryWords ++ l) := by
  have hswitch : c.switchStack.Stack
      ((if rpl (c.seg .cs) = 0 then [] else [c.reg .esp, (c.seg .ss).setWidth 32]) ++ l) := by
    rw [switchStack]
    rw [entryStack] at h
    split_ifs at h ⊢ with hring
    · exact h
    · refine Stack.pushWords (l := l) ?_ [(c.seg .ss).setWidth 32, c.reg .esp] (by simp; omega)
      rw [Stack]
      simp only [Function.update_self]
      exact h
  have hlen : (if rpl (c.seg .cs) = 0 then [] else
      [c.reg .esp, (c.seg .ss).setWidth 32]).length ≤ 2 := by
    split_ifs <;> simp
  have herr : error.toList.length ≤ 1 := by cases error <;> simp
  have hstate := hswitch.pushWords [c.eflags, (c.seg .cs).setWidth 32, c.eip]
    (by rw [List.length_append]; simp only [List.length_cons, List.length_nil]; omega)
  have hall := hstate.pushWords error.toList (by
    simp only [List.length_append, List.length_reverse, List.length_cons, List.length_nil]
    omega)
  have hrev : error.toList.reverse = error.toList := by cases error <;> rfl
  rw [hrev] at hall
  rw [entryWords, List.append_assoc]
  exact hall

/-- What `iret` loads from the stack. -/
lemma Stack.iret {x y z : BitVec 32} (h : c.Stack (x :: y :: z :: l)) :
    c.iret.eip = x ∧ c.iret.seg .cs = y.setWidth 16 ∧ c.iret.eflags = z ∧
      ∀ r, r ≠ .esp → c.iret.reg r = c.reg r := by
  obtain ⟨hx, hy, hz, -⟩ := h
  rw [offset_offset] at hz
  rw [Cpu.iret]
  simp only [hx, hy, hz]
  split_ifs
  · exact ⟨rfl, by simp [setSeg, setReg], rfl, fun r hr => by simp [setSeg, setReg, hr]⟩
  · exact ⟨rfl, by simp, rfl, fun r hr => by simp [hr]⟩

end Cpu

/-! ## Code -/

/-- The instructions, in the order of the operands that the assembler has: the source first. -/
inductive Instr
  | push (r : Reg)
  | pushImm (v : BitVec 32)
  | pushSeg (s : Seg)
  | pushVar
  | pushal
  | pop (r : Reg)
  | popSeg (s : Seg)
  | popal
  | movbVar (v : BitVec 8)
  | movAx (v : BitVec 16)
  | movAxSeg (s : Seg)
  | mov (src dst : Reg)
  | addEsp (v : BitVec 32)
  | cli
  | sti
  | call
  | iret
  deriving DecidableEq

/-- The interrupt flag. -/
def interruptFlag : BitVec 32 := 0x200

variable (f : Cpu → Cpu) (ret : BitVec 32)

/-- One instruction. `f` is the function that is called, which also returns, and `ret` is the address to
which it returns. -/
def exec (c : Cpu) : Instr → Cpu
  | .push r => c.pushWord (c.reg r)
  | .pushImm v => c.pushWord v
  | .pushSeg s => c.pushWord ((c.seg s).setWidth 32)
  | .pushVar => c.pushWord c.var
  | .pushal => c.pushWords
      [c.reg .eax, c.reg .ecx, c.reg .edx, c.reg .ebx, c.reg .esp, c.reg .ebp, c.reg .esi, c.reg .edi]
  | .pop r => c.drop.setReg r c.top
  | .popSeg s => c.drop.setSeg s (c.top.setWidth 16)
  | .popal =>
    let c := c.drop.setReg .edi c.top
    let c := c.drop.setReg .esi c.top
    let c := c.drop.setReg .ebp c.top
    let c := c.drop
    let c := c.drop.setReg .ebx c.top
    let c := c.drop.setReg .edx c.top
    let c := c.drop.setReg .ecx c.top
    c.drop.setReg .eax c.top
  | .movbVar v => { c with var := c.var.extractLsb' 8 24 ++ v }
  | .movAx v => c.setReg .eax ((c.reg .eax).extractLsb' 16 16 ++ v)
  | .movAxSeg s => c.setSeg s ((c.reg .eax).setWidth 16)
  | .mov src dst => c.setReg dst (c.reg src)
  | .addEsp v => c.setReg .esp (c.reg .esp + v)
  | .cli => { c with eflags := c.eflags &&& ~~~interruptFlag }
  | .sti => { c with eflags := c.eflags ||| interruptFlag }
  | .call => f (c.pushWord ret)
  | .iret => c.iret

/-- The state after the instructions of a list. -/
def run (c : Cpu) (code : List Instr) : Cpu := code.foldl (exec f ret) c

/-- The states in which functions are entered. -/
def calls : Cpu → List Instr → List Cpu
  | _, [] => []
  | c, .call :: code => c.pushWord ret :: calls (exec f ret c .call) code
  | c, i :: code => calls (exec f ret c i) code

variable {f ret} {c : Cpu} {code : List Instr} {l : List (BitVec 32)}

/-- No code does nothing. -/
@[simp] lemma run_nil : run f ret c [] = c := rfl

/-- One instruction after the other. -/
@[simp] lemma run_cons (i : Instr) : run f ret c (i :: code) = run f ret (exec f ret c i) code := rfl

/-- Code in two parts. -/
lemma run_append (code' : List Instr) :
    run f ret c (code ++ code') = run f ret (run f ret c code) code' :=
  List.foldl_append

/-- The calls of code in two parts. -/
lemma calls_append (code' : List Instr) :
    calls f ret c (code ++ code') = calls f ret c code ++ calls f ret (run f ret c code) code' := by
  induction code generalizing c with
  | nil => rfl
  | cons i code ih =>
    rw [List.cons_append, run_cons]
    cases i with
    | call => rw [calls, calls, ih, List.cons_append]
    | _ => exact ih

/-- Code without a call calls nothing. -/
lemma calls_of_notMem (h : .call ∉ code) : calls f ret c code = [] := by
  induction code generalizing c with
  | nil => rfl
  | cons i code ih =>
    rw [List.mem_cons, not_or] at h
    cases i with
    | call => exact absurd rfl h.1
    | _ => exact ih h.2

/-- Code that saves registers pushes their values. -/
lemma run_pushes {rs : List Reg} (hesp : .esp ∉ rs) :
    run f ret c (rs.map .push) = c.pushWords (rs.map c.reg) := by
  induction rs generalizing c with
  | nil => rfl
  | cons r rs ih =>
    have hrs : ∀ r ∈ rs, r ≠ .esp := fun r hr => by
      rintro rfl
      exact hesp (by simp [hr])
    rw [List.map_cons, run_cons, ih fun h => hesp (by simp [h])]
    have hvalues : rs.map (exec f ret c (.push r)).reg = rs.map c.reg :=
      List.map_congr_left fun r hr => Cpu.reg_pushWord_of_ne (hrs r hr)
    rw [hvalues]
    rfl

/-- Code that restores registers from the words on the stack. -/
lemma Cpu.Stack.run_pops (f : Cpu → Cpu) (ret : BitVec 32) {rs : List Reg} {g : Reg → BitVec 32}
    (h : c.Stack (rs.map g ++ l)) (hesp : .esp ∉ rs) (hnodup : rs.Nodup) :
    (run f ret c (rs.map .pop)).Stack l ∧
      (∀ r ∈ rs, (run f ret c (rs.map .pop)).reg r = g r) ∧
      (∀ r, r ∉ rs → r ≠ .esp → (run f ret c (rs.map .pop)).reg r = c.reg r) ∧
      (run f ret c (rs.map .pop)).seg = c.seg := by
  induction rs generalizing c with
  | nil => exact ⟨h, by simp, fun _ _ _ => rfl, rfl⟩
  | cons r rs ih =>
    have hr : r ≠ .esp := fun hr => hesp (by simp [hr])
    have hstep : (exec f ret c (.pop r)).Stack (rs.map g ++ l) := h.pop hr
    obtain ⟨hstack, hin, hout, hseg⟩ :=
      ih hstep (fun h => hesp (by simp [h])) (List.nodup_cons.1 hnodup).2
    refine ⟨hstack, fun r' hr' => ?_, fun r' hr' hne => ?_, hseg.trans rfl⟩
    · rcases List.mem_cons.1 hr' with rfl | hr'
      · rw [List.map_cons, run_cons, hout r' (List.nodup_cons.1 hnodup).1 hr, exec,
          Cpu.reg_setReg_self]
        exact h.top_eq
      · exact hin r' hr'
    · rw [List.map_cons, run_cons, hout r' (fun h => hr' (by simp [h])) hne, exec,
        Cpu.reg_setReg_of_ne fun h => hr' (by simp [h]), Cpu.reg_drop_of_ne hne]

/-- `popal` restores all registers but the stack pointer. -/
lemma Cpu.Stack.popal (f : Cpu → Cpu) (ret : BitVec 32) {g : Reg → BitVec 32} {v : BitVec 32}
    (h : c.Stack (([.edi, .esi, .ebp].map g ++ v :: [.ebx, .edx, .ecx, .eax].map g) ++ l)) :
    (exec f ret c .popal).Stack l ∧ ∀ r, r ≠ .esp → (exec f ret c .popal).reg r = g r := by
  rw [List.append_assoc] at h
  obtain ⟨hfirst, hin, -⟩ := h.run_pops f ret (by decide) (by decide)
  obtain ⟨hlast, hin', hout, -⟩ := hfirst.drop.run_pops f ret (by decide) (by decide)
  refine ⟨hlast, fun r hr => ?_⟩
  by_cases hmem : r ∈ [Reg.ebx, .edx, .ecx, .eax]
  · exact hin' r hmem
  · have hkept := hout r hmem hr
    rw [Cpu.reg_drop_of_ne hr] at hkept
    have hrest : ∀ r, r ≠ .esp → r ∉ [Reg.ebx, .edx, .ecx, .eax] → r ∈ [Reg.edi, .esi, .ebp] := by
      intro r
      cases r <;> decide
    exact hkept.trans (hin r (hrest r hr hmem))

/-! ## The calling convention -/

/-- A function that follows the calling convention of C. It is entered with the return address on top of the
stack and its arguments, `args` words, behind it. It drops the return address, keeps the registers that
belong to the caller, and the first `frame` words of the caller that lie behind the arguments. -/
structure CFunction (args frame : ℕ) where
  apply : Cpu → Cpu
  esp : ∀ c, (apply c).reg .esp = c.reg .esp + 4#32
  saved : ∀ c, ∀ r ∈ [Reg.ebx, .esi, .edi, .ebp], (apply c).reg r = c.reg r
  seg : ∀ c, (apply c).seg = c.seg
  caller : ∀ c, Agree c.mem (apply c).mem (offset (c.reg .esp) (4 * (args + 1))) (4 * frame)

/-- A function that only computes its result. -/
def CFunction.ofResult (args frame : ℕ) (result : Cpu → BitVec 32) : CFunction args frame where
  apply c := (c.setReg .eax (result c)).setReg .esp (c.reg .esp + 4#32)
  esp _ := Cpu.reg_setReg_self _
  saved c r hr := by
    have hne : r ≠ .esp ∧ r ≠ .eax := by
      revert r
      decide
    rw [Cpu.reg_setReg_of_ne hne.1, Cpu.reg_setReg_of_ne hne.2]
  seg _ := rfl
  caller _ _ _ := rfl

/-- The result of a function of C is in `eax`. -/
lemma CFunction.eax_ofResult {args frame : ℕ} (result : Cpu → BitVec 32) (c : Cpu) :
    ((CFunction.ofResult args frame result).apply c).reg .eax = result c := by
  rw [CFunction.ofResult, Cpu.reg_setReg_of_ne (by decide), Cpu.reg_setReg_self]

/-- An argument of a function, in the state in which it is entered. -/
def Cpu.arg (c : Cpu) (k : ℕ) : BitVec 32 := readWord c.mem (offset (c.reg .esp) (4 * (k + 1)))

/-- The arguments of a function are the words behind the return address. -/
lemma Cpu.Stack.map_arg {as : List (BitVec 32)} (h : c.Stack (ret :: as ++ l)) :
    (List.range as.length).map c.arg = as := by
  refine List.ext_getElem (by simp) fun k _ hk => ?_
  rw [List.getElem_map, List.getElem_range, Cpu.arg]
  have has : as.take k ++ as[k] :: as.drop (k + 1) = as := by
    rw [← List.drop_eq_getElem_cons hk, List.take_append_drop]
  have hsplit : ret :: as ++ l = (ret :: as.take k) ++ as[k] :: (as.drop (k + 1) ++ l) := by
    calc ret :: as ++ l = ret :: (as.take k ++ as[k] :: as.drop (k + 1)) ++ l := by rw [has]
      _ = (ret :: as.take k) ++ as[k] :: (as.drop (k + 1) ++ l) := by
        simp only [List.cons_append, List.append_assoc]
  rw [Cpu.Stack, hsplit] at h
  have hread := h.read
  rw [List.length_cons, List.length_take_of_le hk.le] at hread
  exact hread

/-- The words of the caller after a call. -/
lemma CFunction.stack {args frame : ℕ} (h : CFunction args frame) {as : List (BitVec 32)}
    (hstack : c.Stack (ret :: as ++ l)) (hargs : as.length = args) (hframe : l.length ≤ frame) :
    Holds (h.apply c).mem (offset (c.reg .esp) (4 * (args + 1))) l := by
  rw [Cpu.Stack, holds_append, List.length_cons, hargs] at hstack
  exact hstack.2.of_agree fun k hk => h.caller c k (by omega)

end X86
