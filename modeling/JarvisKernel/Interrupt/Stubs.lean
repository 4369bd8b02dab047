import JarvisKernel.Lib.X86
import JarvisKernel.Process.Defs

set_option relaxedAutoImplicit false
set_option autoImplicit false

/-!
# The stubs of the interrupts

The entry code of `interruptstubs.s` for interrupt requests and exceptions. All stubs go on at `int_bottom`,
which saves the registers, calls `handle_interrrupt` with the stack pointer, restores the registers from the
stack pointer that it returns, drops one word and returns from the interrupt. The word that is dropped is the
error code, or a word that the stub of an interrupt request pushes in its place. The stub of an exception
pushes nothing, also if the processor pushes no error code.

What a handler does to the stack of the interrupted program is part of its calling convention here: it keeps
the words of the caller, among them the frame that it is given.

## Main definitions

* `Jarvis.RegisterState.words` — the layout of the struct that handlers see.
* `Jarvis.Stub`, `Jarvis.Stub.code` — the stubs.
* `Jarvis.Stub.Transparent` — the property of a stub: its frame is a `RegisterState`, and the interrupted
  program goes on as if nothing had happened.

## Main results

* `Jarvis.intBottom_spec` — what `int_bottom` does, for every stack.
* `Jarvis.Stub.transparent_iff` — the stubs for which there is a word to be dropped are transparent.
-/

namespace Jarvis

open X86 WordMemory

/-! ## The source -/

/-- The fields of a `RegisterState` in their order in memory; the struct is packed. -/
def RegisterState.words (r : RegisterState) : List (BitVec 32) :=
  [r.eax, r.ebx, r.ecx, r.edx, r.esi, r.edi, r.ebp, r.error, r.eip, r.cs, r.eflags, r.esp, r.ss].map
    (BitVec.ofNat 32)

/-- `int_bottom`. -/
def intBottom : List Instr :=
  [.push .ebp, .push .edi, .push .esi,
    .push .edx, .push .ecx, .push .ebx, .push .eax,
    .push .esp, .pushVar, .call,
    .mov .eax .esp,
    .pop .eax, .pop .ebx, .pop .ecx, .pop .edx,
    .pop .esi, .pop .edi, .pop .ebp,
    .addEsp 4#32, .iret]

/-- `IRQ_BASE`. -/
def irqBase : BitVec 8 := 0x20

/-- The numbers for which there is a `HandleInterruptRequest`. -/
def requestNumbers : List (BitVec 8) :=
  [0x00, 0x01, 0x02, 0x03, 0x04, 0x05, 0x06, 0x07, 0x08, 0x09, 0x0A, 0x0B, 0x0C, 0x0D, 0x0E, 0x0F, 0x31]

/-- The numbers for which there is a `HandleException`. -/
def exceptionNumbers : List (BitVec 8) :=
  [0x00, 0x01, 0x02, 0x03, 0x04, 0x05, 0x06, 0x07, 0x08, 0x09, 0x0A, 0x0B, 0x0C, 0x0D, 0x0E, 0x0F, 0x10,
    0x11, 0x12, 0x13]

/-- The stubs of interrupt requests and exceptions. -/
inductive Stub
  | interruptRequest (num : BitVec 8) (h : num ∈ requestNumbers)
  | exception (num : BitVec 8) (h : num ∈ exceptionNumbers)

namespace Stub

/-- The vector at which `on_init_interrupt_manager` enters a stub. -/
def vector : Stub → BitVec 8
  | interruptRequest num _ => irqBase + num
  | exception num _ => num

/-- The code of a stub: `HandleInterruptRequest` or `HandleException`, and `int_bottom`. -/
def code : Stub → List Instr
  | interruptRequest num _ => .movbVar (num + irqBase) :: .pushImm 0#32 :: intBottom
  | exception num _ => .movbVar num :: intBottom

end Stub

/-- The selector that `on_init_interrupt_manager` gives all gates: the third descriptor of `GDT`. -/
def codeSegment : BitVec 16 := 0x10

/-! ## The processor -/

/-- The vectors for which the processor pushes an error code. -/
def errorVectors : List (BitVec 8) := [8, 10, 11, 12, 13, 14, 17]

namespace Stub

/-- The error code that the processor pushes, if any. -/
def pushedError (s : Stub) (error : BitVec 32) : Option (BitVec 32) :=
  if s.vector ∈ errorVectors then some error else none

/-- The state in which the code of a stub starts. -/
def entry (s : Stub) (c : Cpu) (error : BitVec 32) : Cpu :=
  c.interrupt codeSegment (s.pushedError error)

end Stub

/-- The state of an interrupted program. -/
def RegisterState.ofCpu (c : Cpu) (error : BitVec 32) : RegisterState where
  eax := (c.reg .eax).toNat
  ebx := (c.reg .ebx).toNat
  ecx := (c.reg .ecx).toNat
  edx := (c.reg .edx).toNat
  esi := (c.reg .esi).toNat
  edi := (c.reg .edi).toNat
  ebp := (c.reg .ebp).toNat
  error := error.toNat
  eip := c.eip.toNat
  cs := ((c.seg .cs).setWidth 32).toNat
  eflags := c.eflags.toNat
  esp := (c.reg .esp).toNat
  ss := ((c.seg .ss).setWidth 32).toNat

/-- The fields that the stack holds: `esp` and `ss` only if the processor saved them. -/
def RegisterState.saved (c : Cpu) (error : BitVec 32) : List (BitVec 32) :=
  (RegisterState.ofCpu c error).words.take (8 + c.entryWords.length)

/-- With a handler `h`, a stub calls it once, with a frame that has the layout of a `RegisterState`. Then the
interrupted program goes on, with all registers as they were. -/
structure Stub.Transparent (s : Stub) (c : Cpu) (error : BitVec 32) (h : CFunction 2 13)
    (ret : BitVec 32) : Prop where
  layout : ∃ d e, calls h.apply ret (s.entry c error) s.code = [d] ∧
    (s.vector ∈ errorVectors → e = error) ∧ Holds d.mem (d.arg 1) (RegisterState.saved c e)
  eip : (run h.apply ret (s.entry c error) s.code).eip = c.eip
  cs : (run h.apply ret (s.entry c error) s.code).seg .cs = c.seg .cs
  eflags : (run h.apply ret (s.entry c error) s.code).eflags = c.eflags
  reg : ∀ r, r ≠ .esp → (run h.apply ret (s.entry c error) s.code).reg r = c.reg r

/-! ## The tail of the stubs -/

/-- The registers that `int_bottom` saves, in the order in which it restores them. -/
def savedRegs : List Reg := [.eax, .ebx, .ecx, .edx, .esi, .edi, .ebp]

/-- What a handler finds on its stack: the registers that were saved, the error word and what the
processor pushed. -/
lemma saved_eq (c : Cpu) (error : BitVec 32) :
    RegisterState.saved c error = savedRegs.map c.reg ++ error :: c.entryWords := by
  rw [RegisterState.saved, RegisterState.words, RegisterState.ofCpu, Cpu.entryWords]
  simp only [List.map_cons, List.map_nil, BitVec.ofNat_toNat, BitVec.setWidth_eq]
  split_ifs <;> rfl

/-- The code of `int_bottom`, by what it does: saving, calling, and restoring. -/
lemma intBottom_eq :
    intBottom = savedRegs.reverse.map Instr.push ++
      (([.push .esp, .pushVar, .call, .mov .eax .esp] : List Instr) ++
        (savedRegs.map Instr.pop ++ [.addEsp 4#32, .iret])) := rfl

/-- The stack pointer is not saved. -/
lemma esp_notMem_savedRegs : .esp ∉ savedRegs := by decide

/-- The state after `int_bottom` saved the registers. -/
def saveRegs (c : Cpu) : Cpu := c.pushWords (savedRegs.reverse.map c.reg)

/-- The state in which `handle_interrrupt` is entered. -/
def handlerEntry (c : Cpu) (ret : BitVec 32) : Cpu :=
  (((saveRegs c).pushWord ((saveRegs c).reg .esp)).pushWord (saveRegs c).var).pushWord ret

section

variable {c : Cpu} {f : Cpu → Cpu} {ret : BitVec 32} {l : List (BitVec 32)}

/-- The first part of `int_bottom` saves the registers. -/
lemma run_saveRegs : run f ret c (savedRegs.reverse.map .push) = saveRegs c :=
  run_pushes fun h => esp_notMem_savedRegs (List.mem_reverse.1 h)

/-- `int_bottom` calls the handler once. -/
lemma calls_intBottom : calls f ret c intBottom = [handlerEntry c ret] := by
  rw [intBottom_eq, calls_append, calls_of_notMem (by decide), run_saveRegs, calls_append,
    calls_of_notMem (c := run f ret _ _) (by decide)]
  simp only [calls, exec, Cpu.var_pushWord, List.nil_append, List.append_nil, handlerEntry]

/-- What `int_bottom` does after the handler returned. -/
lemma run_intBottom :
    run f ret c intBottom =
      (run f ret (exec f ret (f (handlerEntry c ret)) (.mov .eax .esp)) (savedRegs.map .pop)).drop.iret := by
  rw [intBottom_eq, run_append, run_saveRegs, run_append, run_append]
  simp only [run_cons, run_nil, exec, Cpu.var_pushWord, handlerEntry, Cpu.drop]

/-- The registers that were saved lie on top of the stack. -/
lemma stack_saveRegs (h : c.Stack l) (hl : l.length ≤ 6) :
    (saveRegs c).Stack (savedRegs.map c.reg ++ l) := by
  have hpushed := h.pushWords (savedRegs.reverse.map c.reg) (by
    rw [List.length_map, List.length_reverse]
    simp only [savedRegs, List.length_cons, List.length_nil]
    omega)
  rw [← List.map_reverse, List.reverse_reverse] at hpushed
  exact hpushed

/-- The handler is entered with its arguments and the frame on the stack. -/
lemma stack_handlerEntry (ret : BitVec 32) (h : c.Stack l) (hl : l.length ≤ 6) :
    (handlerEntry c ret).Stack
      (ret :: [(saveRegs c).var, (saveRegs c).reg .esp] ++ (savedRegs.map c.reg ++ l)) := by
  have hlen : (savedRegs.map c.reg ++ l).length ≤ 13 := by
    rw [List.length_append, List.length_map]
    simp only [savedRegs, List.length_cons, List.length_nil]
    omega
  have hargs := ((stack_saveRegs h hl).pushWord (by omega) ((saveRegs c).reg .esp)).pushWord
    (by rw [List.length_cons]; omega) (saveRegs c).var
  exact hargs.pushWord (by rw [List.length_cons, List.length_cons]; omega) ret

/-- The second argument of the handler is the stack pointer. -/
lemma arg_handlerEntry (ret : BitVec 32) (h : c.Stack l) (hl : l.length ≤ 6) :
    (handlerEntry c ret).arg 1 = (saveRegs c).reg .esp := by
  have hargs := (stack_handlerEntry ret h hl).map_arg
  rw [List.length_cons, List.length_singleton] at hargs
  exact congrArg (List.getD · 1 0#32) hargs

/-- The arguments lie right below the saved registers. -/
lemma offset_esp_handlerEntry : offset ((handlerEntry c ret).reg .esp) (4 * 3) = (saveRegs c).reg .esp := by
  rw [handlerEntry, Cpu.esp_pushWord, Cpu.esp_pushWord, Cpu.esp_pushWord, BitVec.sub_sub, BitVec.sub_sub]
  exact BitVec.sub_add_cancel _ _

/-- What `int_bottom` does, whatever is on the stack: the handler sees the registers with the words of the
stack behind them, and the program goes on at the second of these.

**Proof sketch.** Saving the registers pushes their values, and the handler keeps them together with the
words behind them. If it returns the stack pointer that it was given, the same values are restored. The next
word is dropped, and `iret` loads the three words behind it. -/
lemma intBottom_spec {h : CFunction 2 13} {x y z u : BitVec 32}
    (hstack : c.Stack (x :: y :: z :: u :: l)) (hl : l.length ≤ 2)
    (hret : (h.apply (handlerEntry c ret)).reg .eax = (handlerEntry c ret).arg 1) :
    Holds (handlerEntry c ret).mem ((handlerEntry c ret).arg 1)
        (savedRegs.map c.reg ++ x :: y :: z :: u :: l) ∧
      (run h.apply ret c intBottom).eip = y ∧
      (run h.apply ret c intBottom).seg .cs = z.setWidth 16 ∧
      (run h.apply ret c intBottom).eflags = u ∧
      ∀ r, r ≠ .esp → (run h.apply ret c intBottom).reg r = c.reg r := by
  have hl' : (x :: y :: z :: u :: l).length ≤ 6 := by
    simp only [List.length_cons]
    omega
  have hentry := stack_handlerEntry ret hstack hl'
  have harg := arg_handlerEntry ret hstack hl'
  refine ⟨?_, ?_⟩
  · have hframe := (holds_append.1 hentry).2
    rw [List.length_cons, List.length_cons, List.length_singleton, offset_esp_handlerEntry] at hframe
    rw [harg]
    exact hframe
  -- the handler returns
  have hkept := h.stack hentry rfl (by
    rw [List.length_append, List.length_map]
    simp only [savedRegs, List.length_cons, List.length_nil]
    omega)
  rw [offset_esp_handlerEntry] at hkept
  have hreturned : (exec h.apply ret (h.apply (handlerEntry c ret)) (.mov .eax .esp)).Stack
      (savedRegs.map c.reg ++ x :: y :: z :: u :: l) := by
    rw [exec, Cpu.Stack, Cpu.reg_setReg_self, hret, harg]
    exact hkept
  -- the registers are restored
  obtain ⟨hstack', hregs, -, -⟩ :=
    hreturned.run_pops h.apply ret esp_notMem_savedRegs (by decide)
  obtain ⟨heip, hcs, heflags, hreg⟩ := hstack'.drop.iret
  rw [run_intBottom]
  refine ⟨heip, hcs, heflags, fun r hr => ?_⟩
  rw [hreg r hr, Cpu.reg_drop_of_ne hr, hregs r]
  cases r <;> first | exact absurd rfl hr | decide

end

/-! ## The words below the saved registers -/

namespace Stub

/-- There is a word between the registers and the state that the processor saved: the stub or the processor
pushes one. -/
def HasErrorWord : Stub → Prop
  | interruptRequest _ _ => True
  | exception num _ => num ∈ errorVectors

instance : DecidablePred HasErrorWord
  | interruptRequest _ _ => inferInstanceAs (Decidable True)
  | exception num _ => inferInstanceAs (Decidable (num ∈ errorVectors))

/-- That word. -/
def errorWord (s : Stub) (error : BitVec 32) : Option (BitVec 32) :=
  match s with
  | interruptRequest _ _ => some 0#32
  | exception _ _ => s.pushedError error

/-- The state in which a stub goes on at `int_bottom`. -/
def bottom (s : Stub) (c : Cpu) (error : BitVec 32) : Cpu :=
  match s with
  | interruptRequest num _ =>
    { s.entry c error with var := (s.entry c error).var.extractLsb' 8 24 ++ (num + irqBase) }.pushWord 0#32
  | exception num _ =>
    { s.entry c error with var := (s.entry c error).var.extractLsb' 8 24 ++ num }

variable {s : Stub} {c : Cpu} {error ret : BitVec 32} {f : Cpu → Cpu} {l : List (BitVec 32)}

/-- A stub does what `int_bottom` does behind its first instructions. -/
lemma run_code : run f ret (s.entry c error) s.code = run f ret (s.bottom c error) intBottom := by
  cases s <;> simp only [code, bottom, run_cons, exec]

/-- So it calls the handler once. -/
lemma calls_code : calls f ret (s.entry c error) s.code = [handlerEntry (s.bottom c error) ret] := by
  rw [← calls_intBottom (f := f)]
  cases s <;> simp only [code, bottom, calls, exec]

/-- The processor pushes no error code for an interrupt request. -/
lemma vector_interruptRequest {num : BitVec 8} (h : num ∈ requestNumbers) :
    (interruptRequest num h).vector ∉ errorVectors := by
  have hall : (requestNumbers.all fun num => irqBase + num ∉ errorVectors) = true := by decide
  exact of_decide_eq_true (List.all_eq_true.1 hall num h)

/-- And so there is no error word of the processor for it. -/
lemma pushedError_interruptRequest {num : BitVec 8} (h : num ∈ requestNumbers) :
    (interruptRequest num h).pushedError error = none :=
  if_neg (vector_interruptRequest h)

/-- A stub that pushes no word itself is one of an exception without an error code. -/
lemma vector_notMem (hs : ¬ s.HasErrorWord) : s.vector ∉ errorVectors := by
  cases s with
  | interruptRequest num h => exact absurd trivial hs
  | exception num h => exact hs

/-- Then there is no error word on the stack. -/
lemma errorWord_eq_none (hs : ¬ s.HasErrorWord) : s.errorWord error = none := by
  cases s with
  | interruptRequest num h => exact absurd trivial hs
  | exception num h => exact if_neg hs

/-- Otherwise there is one, and for an exception with an error code it is this code. -/
lemma exists_errorWord (error : BitVec 32) (hs : s.HasErrorWord) :
    ∃ e, s.errorWord error = some e ∧ (s.vector ∈ errorVectors → e = error) := by
  cases s with
  | interruptRequest num h =>
    exact ⟨0#32, rfl, fun hvector => absurd hvector (vector_interruptRequest h)⟩
  | exception num h => exact ⟨error, if_pos hs, fun _ => rfl⟩

/-- Before `int_bottom` all registers but the stack pointer are those of the code that was interrupted. -/
lemma reg_bottom {r : Reg} (hr : r ≠ .esp) : (s.bottom c error).reg r = c.reg r := by
  cases s with
  | interruptRequest num h =>
    rw [bottom, Cpu.reg_pushWord_of_ne hr]
    exact Cpu.reg_interrupt_of_ne hr codeSegment _
  | exception num h => exact Cpu.reg_interrupt_of_ne hr codeSegment _

/-- The stack at `int_bottom`. -/
lemma stack_bottom (s : Stub) (error : BitVec 32) (h : Holds c.mem c.entryStack l) (hl : l.length ≤ 1) :
    (s.bottom c error).Stack ((s.errorWord error).toList ++ c.entryWords ++ l) := by
  have hentry : (s.entry c error).Stack ((s.pushedError error).toList ++ c.entryWords ++ l) :=
    Cpu.stack_interrupt h (by omega) _ _
  cases s with
  | interruptRequest num hnum =>
    rw [pushedError_interruptRequest hnum] at hentry
    refine Cpu.Stack.pushWord (l := c.entryWords ++ l) hentry ?_ 0#32
    have hlen := c.length_entryWords_le
    rw [List.length_append]
    omega
  | exception num hnum => exact hentry

/-- A stub is transparent if the words at `int_bottom` are an error code and the state that the processor
saved. -/
lemma transparent_iff_of_stack {h : CFunction 2 13} {w : List (BitVec 32)}
    (hstack : (s.bottom c error).Stack w) (hlen : w.length = c.entryWords.length + 1)
    (hret : ∀ d ∈ calls h.apply ret (s.entry c error) s.code, (h.apply d).reg .eax = d.arg 1) :
    s.Transparent c error h ret ↔
      ∃ e, (s.vector ∈ errorVectors → e = error) ∧ e :: c.entryWords = w := by
  have hentry := c.length_entryWords_le
  have hthree := c.three_le_length_entryWords
  obtain ⟨x, y, z, u, l, rfl⟩ : ∃ x y z u l, w = x :: y :: z :: u :: l := by
    rcases w with _ | ⟨x, _ | ⟨y, _ | ⟨z, _ | ⟨u, l⟩⟩⟩⟩
    case cons.cons.cons.cons => exact ⟨x, y, z, u, l, rfl⟩
    all_goals
      simp only [List.length_nil, List.length_cons] at hlen
      omega
  have hl : l.length ≤ 2 := by
    simp only [List.length_cons] at hlen
    omega
  have hregs : savedRegs.map (s.bottom c error).reg = savedRegs.map c.reg :=
    List.map_congr_left fun r hr => reg_bottom fun h => esp_notMem_savedRegs (h ▸ hr)
  rw [calls_code, List.forall_mem_singleton] at hret
  obtain ⟨hframe, heip, hcs, heflags, hreg⟩ := intBottom_spec hstack hl hret
  rw [hregs] at hframe
  constructor
  · intro ht
    obtain ⟨d, e, hd, he, hlayout⟩ := ht.layout
    rw [calls_code, List.cons.injEq] at hd
    rw [← hd.1, saved_eq] at hlayout
    have hwords := hlayout.unique hframe (by simpa using hlen.symm)
    exact ⟨e, he, List.append_cancel_left hwords⟩
  · rintro ⟨e, he, hwords⟩
    have hstate := hwords
    simp only [Cpu.entryWords, List.cons_append, List.nil_append, List.cons.injEq] at hstate
    obtain ⟨-, hy, hz, hu, -⟩ := hstate
    refine ⟨⟨_, e, calls_code, he, ?_⟩, ?_, ?_, ?_, fun r hr => ?_⟩
    · rw [saved_eq, hwords]
      exact hframe
    · rw [run_code, heip, hy]
    · rw [run_code, hcs, ← hz]
      exact BitVec.setWidth_setWidth_of_le _ (by decide)
    · rw [run_code, heflags, hu]
    · rw [run_code, hreg r hr, reg_bottom hr]

/-- A stub with a word below the registers is transparent. -/
lemma transparent_of_hasErrorWord {h : CFunction 2 13} (hs : s.HasErrorWord)
    (hret : ∀ d ∈ calls h.apply ret (s.entry c error) s.code, (h.apply d).reg .eax = d.arg 1) :
    s.Transparent c error h ret := by
  obtain ⟨e, he, hvector⟩ := exists_errorWord error hs
  have hstack := stack_bottom s error (c := c) (l := []) trivial (Nat.zero_le 1)
  rw [he, List.append_nil] at hstack
  exact (transparent_iff_of_stack hstack rfl hret).2 ⟨e, hvector, rfl⟩

/-- A list with a word pushed on it and with the word behind it. -/
lemma exists_cons_eq_append_singleton {l : List (BitVec 32)} {a : BitVec 32} :
    (∃ e, e :: l = l ++ [a]) ↔ ∀ x ∈ l, x = a := by
  constructor
  · rintro ⟨e, he⟩
    have hall : ∀ l : List (BitVec 32), ∀ e, e :: l = l ++ [a] → ∀ x ∈ e :: l, x = a := by
      intro l
      induction l with
      | nil =>
        intro e he x hx
        rw [he] at hx
        exact List.mem_singleton.1 hx
      | cons b l ih =>
        intro e he
        injection he with heb hl
        have htail := ih b hl
        intro x hx
        rcases List.mem_cons.1 hx with rfl | hx
        · exact htail x (heb ▸ List.mem_cons_self)
        · exact htail x hx
    exact fun x hx => hall l e he x (List.mem_cons_of_mem e hx)
  · intro hl
    refine ⟨a, ?_⟩
    rw [List.eq_replicate_of_mem hl, ← List.replicate_succ, List.replicate_succ']

/-- A stub without one is transparent only if the words of the stack are the same when they are read one
place too far. -/
lemma transparent_iff_of_not_hasErrorWord {h : CFunction 2 13} (hs : ¬ s.HasErrorWord)
    (hret : ∀ d ∈ calls h.apply ret (s.entry c error) s.code, (h.apply d).reg .eax = d.arg 1) :
    s.Transparent c error h ret ↔ ∀ x ∈ c.entryWords, x = readWord c.mem c.entryStack := by
  have hstack := stack_bottom s error (c := c)
    (l := [readWord c.mem c.entryStack]) ⟨rfl, trivial⟩ (Nat.le_refl 1)
  rw [errorWord_eq_none hs] at hstack
  rw [transparent_iff_of_stack hstack (List.length_append ..) hret, ← exists_cons_eq_append_singleton]
  exact exists_congr fun e => and_iff_right fun hvector => absurd hvector (vector_notMem hs)

/-- The stubs leave the interrupted program as it was if there is a word below the registers that
`int_bottom` can drop. Otherwise `int_bottom` drops the saved `eip`, and the program goes on as before only if
all words that the processor saved are equal, and equal to the word that lies behind them. -/
theorem transparent_iff (s : Stub) (c : Cpu) (error : BitVec 32) (h : CFunction 2 13) (ret : BitVec 32)
    (hret : ∀ d ∈ calls h.apply ret (s.entry c error) s.code, (h.apply d).reg .eax = d.arg 1) :
    s.Transparent c error h ret ↔
      s.HasErrorWord ∨ ∀ x ∈ c.entryWords, x = readWord c.mem c.entryStack := by
  by_cases hs : s.HasErrorWord
  · exact iff_of_true (transparent_of_hasErrorWord hs hret) (.inl hs)
  · rw [transparent_iff_of_not_hasErrorWord hs hret]
    exact (or_iff_right hs).symm

end Stub

/-- `handle_interrrupt` as long as no interrupt manager is activated: it returns its second argument. -/
def handleInterrruptInactive : CFunction 2 13 := .ofResult 2 13 fun d => d.arg 1

/-- The handler gives back the stack pointer that it was given. -/
lemma eax_handleInterrruptInactive (d : Cpu) : (handleInterrruptInactive.apply d).reg .eax = d.arg 1 :=
  CFunction.eax_ofResult _ d

/-- A kernel that is interrupted at the address `0x1000`. -/
def interruptedKernel : Cpu where
  reg r := if r = .esp then 0x9000 else 0
  seg s := if s = .cs then codeSegment else 0x18
  eip := 0x1000
  eflags := 0x202
  mem _ := 0
  var := 0
  esp0 := 0
  ss0 := 0

/-- The processor pushes an error code for a page fault, so that its stub is transparent. -/
theorem Stub.transparent_iff_pageFault :
    (Stub.exception 0x0E (by decide)).Transparent interruptedKernel 2 handleInterrruptInactive 0 :=
  (Stub.transparent_iff _ _ _ _ _ fun d _ => eax_handleInterrruptInactive d).2 (.inl (by decide))

/-- A breakpoint is not transparent: the processor pushes no error code for vector 3. -/
theorem Stub.not_transparent_breakpoint :
    ¬ ∀ (s : Stub) (c : Cpu) (error : BitVec 32) (h : CFunction 2 13) (ret : BitVec 32),
      (∀ d ∈ calls h.apply ret (s.entry c error) s.code, (h.apply d).reg .eax = d.arg 1) →
        s.Transparent c error h ret := by
  intro hall
  have ht := hall (.exception 0x03 (by decide)) interruptedKernel 0 handleInterrruptInactive 0
    fun d _ => eax_handleInterrruptInactive d
  rw [transparent_iff_of_not_hasErrorWord (by decide) fun d _ => eax_handleInterrruptInactive d] at ht
  exact absurd (ht 0x1000 (by decide)) (by decide)

end Jarvis
