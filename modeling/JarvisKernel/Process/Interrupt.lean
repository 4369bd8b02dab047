import JarvisKernel.Lib.Run
import JarvisKernel.Process.Effects
import JarvisKernel.Process.Operations

set_option relaxedAutoImplicit false
set_option autoImplicit false

/-!
# The timer interrupt

The processor together with the process manager: `do_handle_interrupt` for the timer interrupt,
which runs `process_manager_tick` and then `schedule`, and resumes whatever the stack pointer it
returns belongs to. The `int $0x20` inside the tick re-enters the same handler. The activation it
interrupts is left on the stack of its process, and is resumed when that stack pointer is dispatched.

The state carries two ghost fields for stating what a context switch has to do: the process whose
code the processor is executing, and a log of creations and `schedule` calls.

## Main definitions

* `Jarvis.Machine`, `Jarvis.Event`, `Jarvis.Machine.step` — the machine and its steps.
* `Jarvis.Machine.doHandleInterrupt` — the handler with its re-entry.

## Main results

* `Jarvis.Machine.wellFormed_step` — every step returns and keeps the invariant of the manager.
* `Jarvis.Machine.timer_finished` — the handler is re-entered at most once.
* `Jarvis.Machine.Finished` — what the end of a handler activation does.
-/

namespace Jarvis

open ProcessManager

/-! ## The machine -/

/-- What a saved stack pointer resumes: ordinary code, or a handler activation that was interrupted
by the `int $0x20` of its tick and has `esp` to pass to `schedule`. -/
inductive Activation
  | code
  | afterInt (esp : ℕ)
  deriving DecidableEq

/-- A creation, or a call `schedule(esp)` made while `executing` had the processor. -/
inductive LogEntry
  | created (p : Ptr) (regs : ℕ)
  | scheduled (esp : ℕ) (executing dispatched : Option Ptr) (returned : ℕ)
  deriving DecidableEq

/-- The manager and the processor. `frames` says what the saved stack pointers resume, and `mode`
what the processor executes now; `executing` and `log` (newest entry first) are ghost fields. -/
structure Machine where
  manager : ProcessManager
  frames : ℕ → Activation
  mode : Activation
  executing : Option Ptr
  log : List LogEntry

/-- A bound on the nesting of handler activations: each of them takes space on a stack. -/
def nestingFuel : ℕ := 2 ^ 32

namespace Machine

/-- `do_handle_interrupt` after the `int $0x20` of the tick: the rest of the tick, `schedule`, and
the return to the stack pointer it gives. If nothing is dispatched, the interrupted code goes on. -/
def finishTimer (s : Machine) (esp : ℕ) : Option Machine := do
  let m ← s.manager.processManagerTickTail
  let (m', e) ← m.schedule esp
  return { s with
    manager := m'
    mode := s.frames e
    executing := m'.currentProcess.or s.executing
    log := .scheduled esp s.executing m'.currentProcess e :: s.log }

/-- `do_handle_interrupt` for the timer interrupt; `below esp` is the stack pointer that the
`int $0x20` of the tick passes to the next activation. -/
def doHandleInterrupt (below : ℕ → ℕ) : ℕ → ℕ → Machine → Option Machine
  | 0, _, _ => none
  | fuel + 1, esp, s =>
    match s.manager.processManagerTickHead with
    | (m, true) => doHandleInterrupt below fuel (below esp)
        { s with manager := m, frames := Function.update s.frames (below esp) (.afterInt esp) }
    | (m, false) => finishTimer { s with manager := m } esp

/-- The interrupt `0x20`, raised while ordinary code runs with stack pointer `esp`. -/
def interrupt (s : Machine) (esp : ℕ) (below : ℕ → ℕ) : Option Machine :=
  doHandleInterrupt below nestingFuel esp { s with frames := Function.update s.frames esp .code }

end Machine

/-- A step of the machine: the timer, the end of a resumed handler activation, or a call made by
the code that is executing. -/
inductive Event
  | timer (esp : ℕ) (below : ℕ → ℕ)
  | resume
  | create (args : CreateArgs) (alloc : CreateAlloc)
  | block (pid waitTime esp : ℕ) (below : ℕ → ℕ)
  | unblock (pid : ℕ)
  | terminate (pid : ℕ) (exitCode : ℤ) (esp : ℕ) (below : ℕ → ℕ)

namespace Machine

/-- The log after a creation. -/
def logCreate (log : List LogEntry) (m : ProcessManager) : Except CreateError ℕ → List LogEntry
  | .error _ => log
  | .ok pid =>
    match m.processes pid with
    | some p => .created p (m.pcb p).regs :: log
    | none => log

/-- One step; `none` if it does not return. -/
def step (s : Machine) : Event → Option Machine
  | .timer esp below => s.interrupt esp below
  | .resume =>
    match s.mode with
    | .code => some s
    | .afterInt esp => s.finishTimer esp
  | .create args alloc =>
    (s.manager.createProcess args alloc).map fun x =>
      { s with manager := x.1, log := logCreate s.log x.1 x.2 }
  | .block pid waitTime esp below => do
    let (m, int) ← s.manager.blockProcess pid waitTime
    if int then interrupt { s with manager := m } esp below else return { s with manager := m }
  | .unblock pid => (s.manager.unblockProcess pid).map fun m => { s with manager := m }
  | .terminate pid exitCode esp below => do
    let (m, int) ← s.manager.terminateProcess pid exitCode
    if int then interrupt { s with manager := m } esp below else return { s with manager := m }

/-- The steps that can occur: interrupts are disabled while a handler activation runs, so the timer
and the calls occur only in ordinary code, and `malloc` returns no control block that is in use. -/
def Possible (s : Machine) : Event → Prop
  | .resume => s.mode ≠ .code
  | .create _ alloc => s.mode = .code ∧ ∀ p, alloc.process = some p → ¬ s.manager.Live p
  | _ => s.mode = .code

/-- The way the callers terminate: only the current process. -/
def TerminatesCurrent (s : Machine) : Event → Prop
  | .terminate pid _ _ _ => s.manager.getCurrentPid = some pid
  | _ => True

/-- The machine after `process_manager_init`, executing the start-up code. -/
def init (pcb : Ptr → Process) (regFrames : ℕ → RegisterState) (cr3 : Option ℕ) (wrapper : ℕ) :
    Machine where
  manager := processManagerInit pcb regFrames cr3 wrapper
  frames _ := .code
  mode := .code
  executing := none
  log := []

/-- The machine after `process_manager_init` over zeroed memory. -/
def zero : Machine := .init (fun _ => {}) (fun _ => {}) none 0

variable {s s' : Machine}

/-! ## The end of a handler activation -/

/-- What the end of a handler activation does: it saves the running process, dispatches a process
if one is ready, and takes only terminated processes off the table. -/
structure Finished (s s' : Machine) (esp : ℕ) : Prop where
  wellFormed : WellFormed s'.manager
  saved : ∀ r, s.manager.currentProcess = some r →
    (s'.manager.pcb r).priority = (preempted (s.manager.pcb r) esp).priority ∧
    (s'.manager.pcb r).basePriority = (preempted (s.manager.pcb r) esp).basePriority ∧
    (s'.manager.pcb r).timeSlice = (preempted (s.manager.pcb r) esp).timeSlice ∧
    (s'.manager.pcb r).regs = esp
  kept : ∀ r, s.manager.currentProcess ≠ some r →
    (s'.manager.pcb r).priority = (s.manager.pcb r).priority ∧
    (s'.manager.pcb r).basePriority = (s.manager.pcb r).basePriority ∧
    (s'.manager.pcb r).timeSlice = (s.manager.pcb r).timeSlice ∧
    (s'.manager.pcb r).regs = (s.manager.pcb r).regs
  live_of_live : ∀ r, s'.manager.Live r → s.manager.Live r
  live : ∀ r, s.manager.Live r → (s.manager.pcb r).state ≠ .terminated → s'.manager.Live r
  idle : s'.manager.currentProcess = none → s.manager.currentProcess = none
  executing : s'.executing = s'.manager.currentProcess.or s.executing
  log : ∃ e, s'.log = .scheduled esp s.executing s'.manager.currentProcess e :: s.log ∧
    ∀ p, s'.manager.currentProcess = some p → e = (s'.manager.pcb p).regs

/-- `preempted` reads only the priority and the slice. -/
lemma preempted_congr {x y : Process} (esp : ℕ) (hp : x.priority = y.priority)
    (hb : x.basePriority = y.basePriority) (ht : x.timeSlice = y.timeSlice) :
    (preempted x esp).priority = (preempted y esp).priority ∧
      (preempted x esp).basePriority = (preempted y esp).basePriority ∧
      (preempted x esp).timeSlice = (preempted y esp).timeSlice := by
  unfold preempted
  rw [ht]
  split_ifs <;> simp_all

/-- The end of a handler activation returns, from every state in which the invariant holds. -/
lemma finishTimer_finished (h : WellFormed s.manager) (esp : ℕ) :
    ∃ s', s.finishTimer esp = some s' ∧ Finished s s' esp := by
  obtain ⟨m₁, htail, h₁, hc₁, hleave⟩ := h.tickTail
  obtain ⟨m₂, e, hsched, h₂, hidle⟩ := h₁.schedule esp
  obtain ⟨hctx₁, hsub⟩ := processManagerTickTail_effect htail
  obtain ⟨hctx₂, hproc₂, he⟩ := schedule_effect hsched
  have hfin : s.finishTimer esp = some { s with
      manager := m₂
      mode := s.frames e
      executing := m₂.currentProcess.or s.executing
      log := .scheduled esp s.executing m₂.currentProcess e :: s.log } := by
    unfold finishTimer
    rw [htail, Option.bind_eq_bind, Option.bind_some, hsched]
    rfl
  refine ⟨_, hfin, h₂, fun r hr => ?_, fun r hr => ?_, fun r hl => ?_, fun r hl hs => ?_,
    fun hn => ?_, rfl, e, rfl, fun p hp => ?_⟩
  · have hr₁ : m₁.currentProcess = some r := hc₁.trans hr
    have hrun : (m₁.pcb r).state = .running := by
      obtain ⟨Q, hi⟩ := h₁
      exact ((hi.running r).1 hr₁).2.2
    have hpre : (m₁.preemptCurrent esp).pcb r = preempted (m₁.pcb r) esp := by
      simp [preemptCurrent, hr₁, hrun, ProcessManager.modify]
    obtain ⟨hp, hb, ht⟩ := preempted_congr esp (hctx₁.priority r) (hctx₁.basePriority r)
      (hctx₁.timeSlice r)
    refine ⟨?_, ?_, ?_, ?_⟩
    · rw [hctx₂.priority r, hpre, hp]
    · rw [hctx₂.basePriority r, hpre, hb]
    · rw [hctx₂.timeSlice r, hpre, ht]
    · rw [hctx₂.regs r, hpre]
      simp only [preempted]
      split_ifs <;> rfl
  · have hr₁ : m₁.currentProcess ≠ some r := fun hr' => hr (hc₁.symm.trans hr')
    have hpre : (m₁.preemptCurrent esp).pcb r = m₁.pcb r := by
      unfold preemptCurrent
      cases hc : m₁.currentProcess with
      | none => rfl
      | some c =>
        have e : r ≠ c := by
          rintro rfl
          exact hr₁ hc
        dsimp only
        split_ifs
        · exact Function.update_of_ne e _ _
        · rfl
    refine ⟨?_, ?_, ?_, ?_⟩
    · rw [hctx₂.priority r, hpre, hctx₁.priority r]
    · rw [hctx₂.basePriority r, hpre, hctx₁.basePriority r]
    · rw [hctx₂.timeSlice r, hpre, hctx₁.timeSlice r]
    · rw [hctx₂.regs r, hpre, hctx₁.regs r]
  · obtain ⟨i, hi⟩ := hl
    have hi₁ : m₁.processes i = some r := by rw [← hproc₂]; exact hi
    exact ⟨i, hsub i r hi₁⟩
  · obtain ⟨i, hi⟩ := hl
    rcases hleave i r hi with hi₁ | ht
    · refine ⟨i, ?_⟩
      show m₂.processes i = some r
      rw [hproc₂]
      exact hi₁
    · exact absurd ht hs
  · rw [← hc₁]
    exact hidle hn
  · rw [he]
    simp only [show m₂.currentProcess = some p from hp]

/-! ## The handler -/

/-- When the tick executes its `int $0x20`, the slice is 0, and the nested tick makes it `2 ^ 32 - 1`
and executes no `int $0x20`. -/
lemma tickHead_tickHead_not_raised (m : ProcessManager) (h : m.processManagerTickHead.2 = true) :
    m.processManagerTickHead.1.processManagerTickHead.2 = false := by
  obtain ⟨c, hc, hrun, hzero⟩ := (processManagerTickHead_raised m).1 h
  obtain ⟨-, -, -, hts⟩ := processManagerTickHead_effect m c
  rw [if_pos ⟨hc, hrun⟩, hzero] at hts
  cases hr : m.processManagerTickHead.1.processManagerTickHead.2 with
  | false => rfl
  | true =>
    obtain ⟨c', hc', -, hzero'⟩ := (processManagerTickHead_raised _).1 hr
    rw [currentProcess_tickHead, hc] at hc'
    obtain rfl := Option.some.inj hc'
    rw [hts, Word32.sub_of_lt (by omega) (by omega)] at hzero'
    omega

/-- The timer interrupt while the tick executes no `int $0x20`. -/
lemma interrupt_of_not_raised (h : s.manager.processManagerTickHead.2 = false) (esp : ℕ)
    (below : ℕ → ℕ) :
    s.interrupt esp below = finishTimer { s with
      manager := s.manager.processManagerTickHead.1
      frames := Function.update s.frames esp .code } esp := by
  show doHandleInterrupt below (nestingFuel - 1 + 1) esp _ = _
  simp only [doHandleInterrupt]
  rcases hh : s.manager.processManagerTickHead with ⟨m, raised⟩
  rw [hh] at h
  obtain rfl : raised = false := h
  rfl

/-- The timer interrupt while the tick executes its `int $0x20`: the handler is re-entered once. -/
lemma interrupt_of_raised (h : s.manager.processManagerTickHead.2 = true) (esp : ℕ)
    (below : ℕ → ℕ) :
    s.interrupt esp below = finishTimer { s with
      manager := s.manager.processManagerTickHead.1.processManagerTickHead.1
      frames := Function.update (Function.update s.frames esp .code) (below esp) (.afterInt esp) }
      (below esp) := by
  have h' := tickHead_tickHead_not_raised s.manager h
  show doHandleInterrupt below (nestingFuel - 2 + 1 + 1) esp _ = _
  simp only [doHandleInterrupt]
  rcases hh : s.manager.processManagerTickHead with ⟨m, raised⟩
  rw [hh] at h h'
  obtain rfl : raised = true := h
  dsimp only
  rcases hh' : m.processManagerTickHead with ⟨m', raised'⟩
  rw [hh'] at h'
  obtain rfl : raised' = false := h'
  rfl

/-- The timer interrupt charges the running process once, or twice if its slice runs out at the
first charge, and ends as one handler activation. -/
lemma timer_finished (h : WellFormed s.manager) (esp : ℕ) (below : ℕ → ℕ) :
    (s.manager.processManagerTickHead.2 = false ∧
      ∃ s', s.interrupt esp below = some s' ∧ Finished { s with
        manager := s.manager.processManagerTickHead.1
        frames := Function.update s.frames esp .code } s' esp) ∨
    (s.manager.processManagerTickHead.2 = true ∧
      ∃ s', s.interrupt esp below = some s' ∧ Finished { s with
        manager := s.manager.processManagerTickHead.1.processManagerTickHead.1
        frames := Function.update (Function.update s.frames esp .code) (below esp) (.afterInt esp) }
        s' (below esp)) := by
  cases hr : s.manager.processManagerTickHead.2 with
  | false =>
    refine .inl ⟨rfl, ?_⟩
    rw [interrupt_of_not_raised hr]
    exact finishTimer_finished h.tickHead esp
  | true =>
    refine .inr ⟨rfl, ?_⟩
    rw [interrupt_of_raised hr]
    exact finishTimer_finished h.tickHead.tickHead (below esp)

/-! ## Steps -/

/-- Terminating the current process, as the machine's callers do. -/
lemma TerminatesCurrent.eq_current (hs : WellFormed s.manager) {pid : ℕ} {exitCode : ℤ} {esp : ℕ}
    {below : ℕ → ℕ} (h : s.TerminatesCurrent (.terminate pid exitCode esp below)) {p : Ptr}
    (hp : s.manager.processes pid = some p) : s.manager.currentProcess = some p := by
  obtain ⟨Q, hi⟩ := hs
  obtain ⟨c, hc, rfl⟩ := Option.map_eq_some_iff.1 (show s.manager.getCurrentPid = some pid from h)
  have hlive := ((hi.running c).1 hc).1
  have hself : s.manager.processes (s.manager.pcb c).pid = some c := hi.processes_pidOf hlive
  rw [hself] at hp
  rw [hc, hp]

/-- Neither `block_process` nor `terminate_process` executes its `int $0x20`. -/
lemma step_block (h : WellFormed s.manager) (pid waitTime esp : ℕ) (below : ℕ → ℕ) :
    ∃ m, s.manager.blockProcess pid waitTime = some (m, false) ∧
      s.step (.block pid waitTime esp below) = some { s with manager := m } ∧ WellFormed m ∧
      ((∀ p, s.manager.processes pid = some p → s.manager.currentProcess ≠ some p) →
        m.currentProcess = s.manager.currentProcess) := by
  obtain ⟨m, hb, hm, hcur⟩ := h.blockProcess pid waitTime
  refine ⟨m, hb, ?_, hm, hcur⟩
  simp [step, hb]

/-- Terminating the current process is a step, and the manager is well-formed after it. -/
lemma step_terminate (h : WellFormed s.manager) {pid : ℕ} {exitCode : ℤ} {esp : ℕ}
    {below : ℕ → ℕ} (ht : s.TerminatesCurrent (.terminate pid exitCode esp below)) :
    ∃ m, s.manager.terminateProcess pid exitCode = some (m, false) ∧
      s.step (.terminate pid exitCode esp below) = some { s with manager := m } ∧
      WellFormed m := by
  obtain ⟨m, hb, hm⟩ := h.terminateProcess exitCode fun _ p hp => ht.eq_current h hp
  refine ⟨m, hb, ?_, hm⟩
  simp [step, hb]

/-- Every step returns, and keeps the invariant of the manager. -/
lemma wellFormed_step (h : WellFormed s.manager) {e : Event} (hp : s.Possible e)
    (ht : s.TerminatesCurrent e) : ∃ s', s.step e = some s' ∧ WellFormed s'.manager := by
  cases e with
  | timer esp below =>
    rcases timer_finished h esp below with ⟨-, s', he, hf⟩ | ⟨-, s', he, hf⟩
    · exact ⟨s', he, hf.wellFormed⟩
    · exact ⟨s', he, hf.wellFormed⟩
  | resume =>
    unfold step
    cases hm : s.mode with
    | code => exact ⟨s, rfl, h⟩
    | afterInt esp =>
      obtain ⟨s', he, hf⟩ := finishTimer_finished h esp
      exact ⟨s', he, hf.wellFormed⟩
  | create args alloc =>
    obtain ⟨m, res, he, hm⟩ := h.createProcess args alloc hp.2
    exact ⟨_, by simp only [step, he]; rfl, hm⟩
  | block pid waitTime esp below =>
    obtain ⟨m, -, he, hm, -⟩ := step_block h pid waitTime esp below
    exact ⟨_, he, hm⟩
  | unblock pid =>
    obtain ⟨m, he, hm⟩ := h.unblockProcess pid
    exact ⟨_, by simp only [step, he]; rfl, hm⟩
  | terminate pid exitCode esp below =>
    obtain ⟨m, -, he, hm⟩ := step_terminate h ht
    exact ⟨_, he, hm⟩

end Machine

end Jarvis
