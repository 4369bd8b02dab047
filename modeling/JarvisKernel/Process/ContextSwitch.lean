import JarvisKernel.Process.Interrupt

set_option relaxedAutoImplicit false
set_option autoImplicit false

/-!
# Context switches

A process has to be resumed where it lost the processor: `schedule` has to return, for the process
it dispatches, the stack pointer that was passed to the `schedule` call which last took the
processor away from it. The log of the machine records enough to say this.

`schedule` saves the context of `current_process`. When the executing process blocks itself,
`block_process` clears `current_process`, and the test in front of its `int $0x20` then fails, so
the process goes on executing until the next timer interrupt, whose `schedule` saves nothing. Runs
in which no process blocks itself resume every process where it was interrupted.

## Main definitions

* `Jarvis.resumePoint` — where a process has to be resumed, read off the log.
* `Jarvis.NoStaleContext` — every dispatch of the log is to the resume point.
* `Jarvis.Machine.BlocksOther` — the rule that no process blocks itself.

## Main results

* `Jarvis.noStaleContext_of_run` — runs that follow the rule resume no stale context.
-/

namespace Jarvis

open ProcessManager

/-! ## Resume points -/

/-- The stack pointer to resume the process from: the argument of the last `schedule` call that was
made while it was executing, or its initial context if there is none since its creation. -/
def resumePoint (p : Ptr) : List LogEntry → Option ℕ
  | [] => none
  | .created q regs :: log => if q = p then some regs else resumePoint p log
  | .scheduled esp executing _ _ :: log =>
    if executing = some p then some esp else resumePoint p log

/-- Every `schedule` call of the log returned the resume point of the process it dispatched. -/
def NoStaleContext : List LogEntry → Prop
  | [] => True
  | .created _ _ :: log => NoStaleContext log
  | .scheduled esp executing dispatched returned :: log =>
    (∀ p, dispatched = some p →
      resumePoint p (.scheduled esp executing dispatched returned :: log) = some returned) ∧
    NoStaleContext log

namespace Machine

variable {s s' : Machine}

/-- The executing process does not block itself. -/
def BlocksOther (s : Machine) : Event → Prop
  | .block pid _ _ _ => ∀ p, s.manager.processes pid = some p → s.executing ≠ some p
  | _ => True

/-- The steps of the runs: creations, timer interrupts, and calls of `block_process` and
`unblock_process`. -/
def NoTermination : Event → Prop
  | .terminate _ _ _ _ => False
  | _ => True

/-! ## The invariant -/

/-- The current process is the executing one, and every other process has its resume point saved. -/
structure ContextInv (s : Machine) : Prop where
  wellFormed : WellFormed s.manager
  executing : s.executing = s.manager.currentProcess
  saved : ∀ p, s.manager.Live p → s.executing ≠ some p →
    resumePoint p s.log = some (s.manager.pcb p).regs
  log : NoStaleContext s.log

/-- The manager may change where it saves no context and switches to no other process. -/
lemma ContextInv.of_manager (h : ContextInv s) {m : ProcessManager} (frames : ℕ → Activation)
    (hm : WellFormed m) (hcur : m.currentProcess = s.manager.currentProcess)
    (hlive : ∀ r, m.Live r → s.manager.Live r)
    (hregs : ∀ r, (m.pcb r).regs = (s.manager.pcb r).regs) :
    ContextInv { s with manager := m, frames := frames } := by
  refine ⟨hm, h.executing.trans hcur.symm, fun p hp hne => ?_, h.log⟩
  rw [hregs p]
  exact h.saved p (hlive p hp) hne

/-- The end of a handler activation: the executing process is saved, and the process dispatched
continues from its resume point. -/
lemma Finished.contextInv {esp : ℕ} (hf : Finished s s' esp) (h : ContextInv s) :
    ContextInv s' := by
  obtain ⟨e, hlog, he⟩ := hf.log
  -- after `schedule` every context is saved, that of the executing process included
  have hsaved : ∀ p, s'.manager.Live p →
      resumePoint p s'.log = some (s'.manager.pcb p).regs := by
    intro p hp
    rw [hlog, resumePoint]
    by_cases hex : s.executing = some p
    · rw [if_pos hex]
      rw [h.executing] at hex
      rw [(hf.saved p hex).2.2.2]
    · rw [if_neg hex, h.saved p (hf.live_of_live p hp) hex]
      rw [h.executing] at hex
      rw [(hf.kept p hex).2.2.2]
  refine ⟨hf.wellFormed, ?_, fun p hp _ => hsaved p hp, ?_⟩
  · rw [hf.executing]
    cases hc : s'.manager.currentProcess with
    | some p => rfl
    | none =>
      rw [h.executing, hf.idle hc]
      rfl
  · rw [hlog]
    refine ⟨fun p hp => ?_, h.log⟩
    have hlive : s'.manager.Live p := by
      obtain ⟨Q, hi⟩ := hf.wellFormed
      exact ((hi.running p).1 hp).1
    rw [← hlog, hsaved p hlive, he p hp]

/-- The first part of a tick saves no context. -/
lemma ContextInv.tickHead (h : ContextInv s) (frames : ℕ → Activation) :
    ContextInv { s with manager := s.manager.processManagerTickHead.1, frames := frames } := by
  refine h.of_manager frames h.wellFormed.tickHead (currentProcess_tickHead _) (fun r hr => ?_)
    fun r => (processManagerTickHead_effect _ r).2.2.1
  obtain ⟨i, hi⟩ := hr
  exact ⟨i, by rw [← processes_tickHead]; exact hi⟩

/-- A new process has its initial context as resume point. -/
lemma ContextInv.create (h : ContextInv s) {args : CreateArgs} {alloc : CreateAlloc}
    (hp : s.Possible (.create args alloc)) (hs : s.step (.create args alloc) = some s') :
    ContextInv s' := by
  obtain ⟨m₀, res₀, he₀, hm⟩ := h.wellFormed.createProcess args alloc hp.2
  obtain ⟨⟨m, res⟩, he, rfl⟩ := Option.map_eq_some_iff.1 hs
  obtain ⟨rfl, rfl⟩ : m₀ = m ∧ res₀ = res := by
    rw [he₀] at he
    exact Prod.ext_iff.1 (Option.some.inj he)
  cases res₀ with
  | error e =>
    obtain ⟨l, rfl, -⟩ := createProcess_error he
    exact h.of_manager s.frames hm rfl (fun r hr => hr) fun r => rfl
  | ok pid =>
    obtain ⟨-, p, d, k, -, hadd, -⟩ := createProcess_ok he
    obtain ⟨hctx, hproc'⟩ := addProcess_effect hadd
    have hproc : m₀.processes = Function.update s.manager.processes pid (some p) := hproc'
    have hcur : m₀.currentProcess = s.manager.currentProcess := currentProcess_addProcess hadd
    have hentry : m₀.processes pid = some p := by
      rw [hproc, Function.update_self]
    refine ⟨hm, h.executing.trans hcur.symm, fun r hr hne => ?_, ?_⟩
    · simp only [logCreate, hentry]
      by_cases e : r = p
      · rw [e, resumePoint, if_pos rfl]
      · have hr' : s.manager.Live r := by
          obtain ⟨i, hi⟩ := hr
          have hi' : m₀.processes i = some r := hi
          rw [hproc] at hi'
          by_cases ei : i = pid
          · rw [ei, Function.update_self] at hi'
            exact absurd (Option.some.inj hi').symm e
          · rw [Function.update_of_ne ei] at hi'
            exact ⟨i, hi'⟩
        have hregs : (m₀.pcb r).regs = (s.manager.pcb r).regs := by
          rw [hctx.regs r]
          simp only [Function.update_of_ne e]
        rw [resumePoint, if_neg fun e' => e e'.symm, h.saved r hr' hne, hregs]
    · simp only [logCreate, hentry]
      exact h.log

/-- Every step of a run in which no process blocks itself keeps the invariant. -/
lemma ContextInv.step (h : ContextInv s) {e : Event} (hp : s.Possible e) (hnt : NoTermination e)
    (hb : s.BlocksOther e) : ∃ s', s.step e = some s' ∧ ContextInv s' := by
  have hsame : ∀ {m : ProcessManager}, m.processes = s.manager.processes →
      ∀ r, m.Live r → s.manager.Live r := by
    rintro m hproc r ⟨i, hi⟩
    exact ⟨i, by rw [← hproc]; exact hi⟩
  cases e with
  | timer esp below =>
    rcases timer_finished h.wellFormed esp below with ⟨-, s', he, hf⟩ | ⟨-, s', he, hf⟩
    · exact ⟨s', he, hf.contextInv (h.tickHead _)⟩
    · exact ⟨s', he, hf.contextInv ((h.tickHead s.frames).tickHead _)⟩
  | resume =>
    unfold Machine.step
    cases hm : s.mode with
    | code => exact ⟨s, rfl, h⟩
    | afterInt esp =>
      obtain ⟨s', he, hf⟩ := finishTimer_finished h.wellFormed esp
      exact ⟨s', he, hf.contextInv h⟩
  | create args alloc =>
    obtain ⟨s', he, -⟩ := wellFormed_step h.wellFormed hp trivial
    exact ⟨s', he, h.create hp he⟩
  | block pid waitTime esp below =>
    obtain ⟨m, hbl, he, hm, hcur⟩ := step_block h.wellFormed pid waitTime esp below
    obtain ⟨hctx, hproc⟩ := blockProcess_effect hbl
    refine ⟨_, he, h.of_manager s.frames hm (hcur fun p hpp => ?_) (hsame hproc) hctx.regs⟩
    rw [← h.executing]
    exact hb p hpp
  | unblock pid =>
    obtain ⟨m, hu, hm⟩ := h.wellFormed.unblockProcess pid
    obtain ⟨hctx, hproc⟩ := unblockProcess_effect hu
    refine ⟨_, by simp only [Machine.step, hu]; rfl,
      h.of_manager s.frames hm (currentProcess_unblockProcess hu) (hsame hproc) hctx.regs⟩
  | terminate pid exitCode esp below => exact absurd hnt id

end Machine

open Machine

/-! ## Runs -/

/-- In every run of creations, timer interrupts, `block_process` and `unblock_process` in which the
executing process never blocks itself, every step returns, and every `schedule` call that dispatches
a process returns the stack pointer passed to the call that last took the processor away from it, or
its initial context if there is none. -/
theorem noStaleContext_of_run (pcb : Ptr → Process) (regFrames : ℕ → RegisterState)
    (cr3 : Option ℕ) (wrapper : ℕ) (es : List Event)
    (h : Run.Follows step (fun s e => s.Possible e ∧ NoTermination e ∧ s.BlocksOther e)
      (.init pcb regFrames cr3 wrapper) es) :
    ∃ s, Run.exec step (.init pcb regFrames cr3 wrapper) es = some s ∧ NoStaleContext s.log := by
  have hinit : ContextInv (.init pcb regFrames cr3 wrapper) := by
    refine ⟨wellFormed_processManagerInit pcb regFrames cr3 wrapper, rfl, ?_, trivial⟩
    rintro p ⟨i, hi⟩
    simp [Machine.init, processManagerInit] at hi
  obtain ⟨s, he, hs⟩ := Run.exec_of_step (I := ContextInv)
    (fun s e hi he => hi.step he.1 he.2.1 he.2.2) hinit h
  exact ⟨s, he, hs.log⟩

/-- One process, created and dispatched, and interrupted once more. -/
theorem noStaleContext_of_two_ticks :
    ∃ s, Run.exec step .zero
        [.create {} { process := some 100, pageDirectory := some 200, kernelStack := some 4096 },
          .timer 1000 (· - 60), .timer 2000 (· - 60)] = some s ∧
      NoStaleContext s.log := by
  refine noStaleContext_of_run _ _ _ _ _ ⟨⟨⟨rfl, ?_⟩, trivial, trivial⟩, fun s₁ h₁ => ?_⟩
  · rintro p - ⟨i, hi⟩
    simp [Machine.init, processManagerInit] at hi
  obtain rfl := Option.some.inj h₁
  refine ⟨⟨rfl, trivial, trivial⟩, fun s₂ h₂ => ?_⟩
  obtain rfl := Option.some.inj h₂
  exact ⟨⟨rfl, trivial, trivial⟩, fun _ _ => trivial⟩

/-- Two processes; the first is dispatched, blocks itself, loses the processor at stack pointer 2000,
is unblocked by the second, and is resumed from its initial context. -/
def selfBlockRun : List Event :=
  [.create {} { process := some 100, pageDirectory := some 200, kernelStack := some 4096 },
    .create {} { process := some 300, pageDirectory := some 400, kernelStack := some 16384 },
    .timer 1000 (· - 60), .block 0 1000 1500 (· - 60), .timer 2000 (· - 60), .unblock 0,
    .timer 3000 (· - 60)]

/-- A process that blocks itself is resumed from a stale context. -/
theorem stale_of_selfBlockRun :
    Run.Follows step (fun s e => s.Possible e ∧ NoTermination e) .zero selfBlockRun ∧
      ∃ s, Run.exec step .zero selfBlockRun = some s ∧ ¬ NoStaleContext s.log := by
  constructor
  · refine ⟨⟨⟨rfl, ?_⟩, trivial⟩, fun s₁ h₁ => ?_⟩
    · rintro p - ⟨i, hi⟩
      simp [Machine.zero, Machine.init, processManagerInit] at hi
    obtain rfl := Option.some.inj h₁
    refine ⟨⟨⟨rfl, ?_⟩, trivial⟩, fun s₂ h₂ => ?_⟩
    · rintro p hp ⟨i, hi⟩
      obtain rfl := Option.some.inj hp
      have hi' : Function.update (fun _ => none) 0 (some 100) i = some 300 := hi
      by_cases e : i = 0
      · simp [e] at hi'
      · simp [e] at hi'
    -- the other steps are possible in ordinary code
    have hmode : Run.Follows step (fun s _ => s.mode = .code) s₂ (selfBlockRun.drop 2) := by
      obtain rfl := Option.some.inj h₂
      decide +kernel
    refine Run.follows_iff.2 fun ds d s hds hexec => ?_
    have hcode := Run.follows_iff.1 hmode ds d s hds hexec
    have hmem : d ∈ selfBlockRun.drop 2 := hds.subset (by simp)
    simp only [selfBlockRun, List.drop_succ_cons, List.drop_zero, List.mem_cons, List.not_mem_nil,
      or_false] at hmem
    rcases hmem with rfl | rfl | rfl | rfl | rfl <;> exact ⟨hcode, trivial⟩
  · have hlog : (Run.exec step .zero selfBlockRun).map Machine.log =
        some [.scheduled 3000 (some 300) (some 100) 8140, .scheduled 2000 (some 100) (some 300) 20428,
          .scheduled 1000 none (some 100) 8140, .created 300 20428, .created 100 8140] := by
      decide +kernel
    obtain ⟨s, hs, hl⟩ := Option.map_eq_some_iff.1 hlog
    refine ⟨s, hs, fun h => ?_⟩
    rw [hl] at h
    have hstale := h.1 100 rfl
    simp [resumePoint] at hstale

end Jarvis
