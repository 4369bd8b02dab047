import JarvisKernel.Lib.Run
import JarvisKernel.Process.Effects
import JarvisKernel.Process.Operations

set_option relaxedAutoImplicit false
set_option autoImplicit false

/-!
# Runs of the process manager's calls

The calls of the process manager, made in any order. A tick whose `int $0x20` is executed is
suspended at that instruction: the interrupt handler makes further calls, and the rest of the tick
is run when its context is resumed, which is a call of its own here (`resumeTick`).

`terminate_process` assigns the state of the process before it tests it, so it takes no process
out of its queue. The invariant therefore holds along exactly those runs in which the process is
in no queue when it is terminated.

## Main definitions

* `Jarvis.Call`, `Jarvis.CallState`, `Jarvis.CallState.call` — the calls and their effect.
* `Jarvis.ProcessManager.Placed` — every process is in the one place its state names.
* `Jarvis.ProcessManager.PidRecords` — table, bitmap and counter agree.

## Main results

* `Jarvis.placed_of_run` — runs that terminate no queued process keep every process in its place.
* `Jarvis.pidRecords_of_run` — runs that terminate the current process only keep the PID records.
-/

namespace Jarvis

open ProcessManager

/-! ## Calls -/

/-- A call of the process manager's interface. -/
inductive Call
  | create (args : CreateArgs) (alloc : CreateAlloc)
  | schedule (esp : ℕ)
  | tick
  | resumeTick
  | block (pid waitTime : ℕ)
  | unblock (pid : ℕ)
  | terminate (pid : ℕ) (exitCode : ℤ)

/-- The call is `create_process`. -/
def Call.Creates : Call → Prop
  | .create .. => True
  | _ => False

/-- The manager, and the number of ticks that are suspended at their `int $0x20`. -/
structure CallState where
  manager : ProcessManager
  suspended : ℕ

namespace CallState

/-- The effect of a call; `none` if it does not return. -/
def call (s : CallState) : Call → Option CallState
  | .create args alloc =>
    (s.manager.createProcess args alloc).map fun x => { s with manager := x.1 }
  | .schedule esp => (s.manager.schedule esp).map fun x => { s with manager := x.1 }
  | .tick =>
    match s.manager.processManagerTickHead with
    | (m, true) => some { manager := m, suspended := s.suspended + 1 }
    | (m, false) => m.processManagerTickTail.map fun m' => { s with manager := m' }
  | .resumeTick =>
    s.manager.processManagerTickTail.map fun m => { manager := m, suspended := s.suspended - 1 }
  | .block pid waitTime =>
    (s.manager.blockProcess pid waitTime).map fun x => { s with manager := x.1 }
  | .unblock pid => (s.manager.unblockProcess pid).map fun m => { s with manager := m }
  | .terminate pid exitCode =>
    (s.manager.terminateProcess pid exitCode).map fun x => { s with manager := x.1 }

/-- The calls that can occur: `malloc` returns no control block that is in use, and only a
suspended tick is resumed. -/
def Possible (s : CallState) : Call → Prop
  | .create _ alloc => ∀ p, alloc.process = some p → ¬ s.manager.Live p
  | .resumeTick => 0 < s.suspended
  | _ => True

/-- The callers' rule: a process that is terminated is the current one. A PID that is out of range
or free may be passed. -/
def TerminatesUnqueued (s : CallState) : Call → Prop
  | .terminate pid _ => pid < processMaxCount →
      ∀ p, s.manager.processes pid = some p → s.manager.currentProcess = some p
  | _ => True

/-- The way `process_wrapper`, the exit system call and the page-fault handler terminate: only the
current process. Nothing is current afterwards, so no process is terminated twice. -/
def TerminatesCurrent (s : CallState) : Call → Prop
  | .terminate pid _ => s.manager.getCurrentPid = some pid
  | _ => True

/-- The call reaches the clean-up of `process_manager_tick`. -/
def CleansUp (s : CallState) : Call → Prop
  | .tick => s.manager.processManagerTickHead.2 = false ∧
      Word32.add s.manager.systemTicks 1 % 100 = 0
  | .resumeTick => s.manager.systemTicks % 100 = 0
  | _ => False

end CallState

/-- The state after `process_manager_init`, whatever is in memory. -/
def CallState.init (pcb : Ptr → Process) (regFrames : ℕ → RegisterState) (cr3 : Option ℕ)
    (wrapper : ℕ) : CallState where
  manager := processManagerInit pcb regFrames cr3 wrapper
  suspended := 0

namespace ProcessManager

/-! ## The properties -/

/-- The process occurs once in queue `q` and in no other queue. -/
def OnlyIn (Q : QueueId → List Ptr) (p : Ptr) (q : QueueId) : Prop :=
  (Q q).count p = 1 ∧ ∀ q' ≠ q, p ∉ Q q'

/-- Every queue is a finite list, strictly ascending in PID, and every process of the table is in
exactly the one place its state names. -/
def Placed (m : ProcessManager) : Prop :=
  ∃ Q : QueueId → List Ptr,
    (∀ q, LinkedList.IsList m.next (m.queue q) (Q q)) ∧
    (∀ q, (Q q).Pairwise fun a b => (m.pcb a).pid < (m.pcb b).pid) ∧
    ∀ pid p, m.processes pid = some p →
      ((m.pcb p).state = .running ↔ m.currentProcess = some p ∧ ∀ q, p ∉ Q q) ∧
      ((m.pcb p).state = .ready ↔ OnlyIn Q p (.ready (m.pcb p).priority)) ∧
      ((m.pcb p).state = .blocked ↔ OnlyIn Q p .blocked) ∧
      ((m.pcb p).state = .terminated ↔ OnlyIn Q p .terminated) ∧
      ((m.pcb p).state = .running ∨ (m.pcb p).state = .ready ∨ (m.pcb p).state = .blocked ∨
        (m.pcb p).state = .terminated)

/-- The three records of which PIDs are in use agree. -/
structure PidRecords (m : ProcessManager) : Prop where
  bitmap : ∀ pid < processMaxCount,
    (m.processes pid ≠ none ↔ Bitmap.test m.processBitmap pid = true)
  range : ∀ pid, processMaxCount ≤ pid → m.processes pid = none
  pid : ∀ pid p, m.processes pid = some p → (m.pcb p).pid = pid
  active : m.activeProcesses = Bitmap.card m.processBitmap processMaxCount

variable {m m' : ProcessManager} {Q : QueueId → List Ptr} {p : Ptr} {q : QueueId}

/-- A process is in the queue that its state names and in no other. -/
lemma Inv.onlyIn_iff (h : Inv m Q none m.currentProcess) (hp : m.Live p) :
    OnlyIn Q p q ↔ (m.pcb p).home = some q := by
  constructor
  · rintro ⟨hcount, -⟩
    have hmem : p ∈ Q q := List.count_pos_iff.1 (by omega)
    exact ((h.mem q p).1 hmem).2.2
  · intro hhome
    refine ⟨?_, fun q' hq' hmem => ?_⟩
    · apply List.count_eq_one_of_mem (h.isList q).nodup
      exact (h.mem q p).2 ⟨hp, by simp, hhome⟩
    · have hhome' := ((h.mem q' p).1 hmem).2.2
      rw [hhome] at hhome'
      exact hq' (Option.some.inj hhome').symm

/-- The invariant gives the placement property. -/
lemma WellFormed.placed (h : WellFormed m) : m.Placed := by
  obtain ⟨Q, h⟩ := h
  refine ⟨Q, h.isList, h.ascending, fun pid p hp => ?_⟩
  have hl : m.Live p := ⟨pid, hp⟩
  rw [h.onlyIn_iff hl, h.onlyIn_iff hl, h.onlyIn_iff hl]
  obtain ⟨hcr, hwt⟩ := h.placed p hl (by simp)
  refine ⟨⟨fun hs => ⟨(h.running p).2 ⟨hl, by simp, hs⟩, fun q hq => ?_⟩, fun hc => ?_⟩, ?_⟩
  · have hhome := ((h.mem q p).1 hq).2.2
    simp [Process.home, hs] at hhome
  · exact ((h.running p).1 hc.1).2.2
  · cases hs : (m.pcb p).state <;> simp_all [Process.home]

/-- The invariant gives the agreement of the PID records. -/
lemma WellFormed.pidRecords (h : WellFormed m) : m.PidRecords := by
  obtain ⟨Q, h⟩ := h
  refine ⟨fun pid hpid => ?_, fun pid hpid => ?_, fun pid p hp => (h.pid pid p hp).2, h.active⟩
  · rw [h.bitmap pid hpid, Option.isSome_iff_ne_none]
  · cases hp : m.processes pid with
    | none => rfl
    | some p =>
      have hlt := (h.pid pid p hp).1
      omega

end ProcessManager

variable {s s' : CallState}

/-! ## Runs -/

/-- One call keeps the invariant, if it terminates no queued process. -/
lemma wellFormed_call (h : WellFormed s.manager) {c : Call} (hc : s.Possible c)
    (hterm : s.TerminatesUnqueued c) : ∃ s', s.call c = some s' ∧ WellFormed s'.manager := by
  cases c with
  | create args alloc =>
    obtain ⟨m, res, he, hm⟩ := h.createProcess args alloc hc
    exact ⟨_, by simp only [CallState.call, he]; rfl, hm⟩
  | schedule esp =>
    obtain ⟨m, e, he, hm, -⟩ := h.schedule esp
    exact ⟨_, by simp only [CallState.call, he]; rfl, hm⟩
  | tick =>
    have hhead := h.tickHead
    simp only [CallState.call]
    cases ht : s.manager.processManagerTickHead with
    | mk m raised =>
      rw [ht] at hhead
      cases raised with
      | true => exact ⟨_, rfl, hhead⟩
      | false =>
        obtain ⟨m', he, hm, -⟩ := hhead.tickTail
        exact ⟨_, by simp only [he]; rfl, hm⟩
  | resumeTick =>
    obtain ⟨m, he, hm, -⟩ := h.tickTail
    exact ⟨_, by simp only [CallState.call, he]; rfl, hm⟩
  | block pid waitTime =>
    obtain ⟨m, he, hm, -⟩ := h.blockProcess pid waitTime
    exact ⟨_, by simp only [CallState.call, he]; rfl, hm⟩
  | unblock pid =>
    obtain ⟨m, he, hm⟩ := h.unblockProcess pid
    exact ⟨_, by simp only [CallState.call, he]; rfl, hm⟩
  | terminate pid exitCode =>
    obtain ⟨m, he, hm⟩ := h.terminateProcess exitCode hterm
    exact ⟨_, by simp only [CallState.call, he]; rfl, hm⟩

/-- A call takes a process off the table only if it is a tick and the process is terminated. -/
lemma processes_call (h : WellFormed s.manager) {c : Call} (hcall : s.call c = some s') {pid : ℕ}
    {p : Ptr} (hp : s.manager.processes pid = some p) :
    s'.manager.processes pid = some p ∨
      (c = .tick ∨ c = .resumeTick) ∧ (s.manager.pcb p).state = .terminated := by
  cases c with
  | create args alloc =>
    obtain ⟨⟨m', res⟩, hx, rfl⟩ := Option.map_eq_some_iff.1 hcall
    cases res with
    | error e =>
      obtain ⟨l, rfl, -⟩ := createProcess_error hx
      exact .inl hp
    | ok i =>
      obtain ⟨hfree, q, d, k, -, hadd, -⟩ := createProcess_ok hx
      obtain ⟨-, hproc⟩ := addProcess_effect hadd
      obtain ⟨Q, h⟩ := h
      obtain ⟨hlt, hbit⟩ := findFreePid_eq_some hfree
      have hne : pid ≠ i := by
        rintro rfl
        rw [h.bitmap pid hlt, hp] at hbit
        simp at hbit
      refine .inl ?_
      rw [hproc]
      exact (Function.update_of_ne hne _ _).trans hp
  | schedule esp =>
    obtain ⟨⟨m', e⟩, hx, rfl⟩ := Option.map_eq_some_iff.1 hcall
    exact .inl (by rw [(schedule_effect hx).2.1]; exact hp)
  | tick =>
    have hhead := h.tickHead
    have hproc := processes_tickHead s.manager
    have hstate := state_tickHead s.manager p
    simp only [CallState.call] at hcall
    rcases ht : s.manager.processManagerTickHead with ⟨m, raised⟩
    rw [ht] at hhead hproc hstate hcall
    cases raised with
    | true =>
      obtain rfl := Option.some.inj hcall
      exact .inl (by rw [hproc]; exact hp)
    | false =>
      obtain ⟨m', he, rfl⟩ := Option.map_eq_some_iff.1 hcall
      obtain ⟨m'', he', -, -, hleave⟩ := hhead.tickTail
      obtain rfl : m' = m'' := by rw [he] at he'; exact Option.some.inj he'
      rcases hleave pid p (by rw [hproc]; exact hp) with h' | h'
      · exact .inl h'
      · exact .inr ⟨.inl rfl, by rw [← hstate]; exact h'⟩
  | resumeTick =>
    obtain ⟨m', he, rfl⟩ := Option.map_eq_some_iff.1 hcall
    obtain ⟨m'', he', -, -, hleave⟩ := h.tickTail
    obtain rfl : m' = m'' := by rw [he] at he'; exact Option.some.inj he'
    rcases hleave pid p hp with h' | h'
    · exact .inl h'
    · exact .inr ⟨.inr rfl, h'⟩
  | block pid' waitTime =>
    obtain ⟨x, hx, rfl⟩ := Option.map_eq_some_iff.1 hcall
    exact .inl (by rw [(blockProcess_effect hx).2]; exact hp)
  | unblock pid' =>
    obtain ⟨x, hx, rfl⟩ := Option.map_eq_some_iff.1 hcall
    exact .inl (by rw [(unblockProcess_effect hx).2]; exact hp)
  | terminate pid' exitCode =>
    obtain ⟨x, hx, rfl⟩ := Option.map_eq_some_iff.1 hcall
    exact .inl (by rw [(terminateProcess_effect hx).2]; exact hp)

/-- A call that creates no process changes no fixed view of control blocks and adds nothing to the table.
It takes processes off the table and frees blocks only if it is due to clean up. -/
lemma keeps_call {α : Type*} {g : Process → α} (hg : IsFixed g) {c : Call} (hc : ¬ c.Creates)
    (hcall : s.call c = some s') :
    Keeps g s.manager s'.manager ∧
      (∀ i r, s'.manager.processes i = some r → s.manager.processes i = some r) ∧
      (¬ s.CleansUp c → s'.manager.processes = s.manager.processes ∧
        s'.manager.freed = s.manager.freed) := by
  have hmoved : ∀ {m m' : ProcessManager} {P : Ptr → Prop}, Keeps g s.manager m → m.processes = s.manager.processes →
      m.freed = s.manager.freed → Moved P m m' → Keeps g s.manager m' ∧
        (∀ i r, m'.processes i = some r → s.manager.processes i = some r) ∧
        (¬ s.CleansUp c → m'.processes = s.manager.processes ∧ m'.freed = s.manager.freed) := by
    intro m m' P hk hp hf h
    have hproc := h.processes.trans hp
    exact ⟨hk.trans (h.keeps hg.isStatic), fun i r hr => by rwa [hproc] at hr,
      fun _ => ⟨hproc, h.freed.trans hf⟩⟩
  have htail : ∀ {m m' : ProcessManager}, Keeps g s.manager m → m.processes = s.manager.processes →
      m.freed = s.manager.freed → (¬ s.CleansUp c → m.systemTicks % 100 ≠ 0) →
      m.processManagerTickTail = some m' → Keeps g s.manager m' ∧
        (∀ i r, m'.processes i = some r → s.manager.processes i = some r) ∧
        (¬ s.CleansUp c → m'.processes = s.manager.processes ∧ m'.freed = s.manager.freed) := by
    intro m m' hk hp hf hdue h
    obtain ⟨hk', hp', -⟩ := processManagerTickTail_keeps hg.isStatic h
    refine ⟨hk.trans hk', fun i r hr => hp ▸ hp' i r hr, fun hnot => ?_⟩
    have hm := processManagerTickTail_moved h (hdue hnot)
    exact ⟨hm.processes.trans hp, hm.freed.trans hf⟩
  cases c with
  | create args alloc => exact absurd trivial hc
  | schedule esp =>
    obtain ⟨⟨m', e⟩, hx, rfl⟩ := Option.map_eq_some_iff.1 hcall
    obtain ⟨hp, hf, -⟩ := preemptCurrent_frame s.manager esp
    exact hmoved (keeps_preemptCurrent hg _ esp) hp hf (schedule_moved hx).1
  | tick =>
    have hhead := hg.tickHead s.manager
    have hproc := processes_tickHead s.manager
    have hfreed := freed_tickHead s.manager
    have hticks := systemTicks_tickHead s.manager
    simp only [CallState.call] at hcall
    rcases ht : s.manager.processManagerTickHead with ⟨m, raised⟩
    rw [ht] at hhead hproc hfreed hticks hcall
    cases raised with
    | true =>
      obtain rfl := Option.some.inj hcall
      exact hmoved (P := fun _ => False) hhead hproc hfreed (.refl m)
    | false =>
      obtain ⟨m', he, rfl⟩ := Option.map_eq_some_iff.1 hcall
      refine htail hhead hproc hfreed (fun hnot h100 => hnot ⟨?_, ?_⟩) he
      · rw [ht]
      · rw [← hticks]
        exact h100
  | resumeTick =>
    obtain ⟨m', he, rfl⟩ := Option.map_eq_some_iff.1 hcall
    exact htail (.of_pcb rfl) rfl rfl (fun hnot => hnot) he
  | block pid waitTime =>
    obtain ⟨x, hx, rfl⟩ := Option.map_eq_some_iff.1 hcall
    exact hmoved (.of_pcb rfl) rfl rfl (blockProcess_moved hx)
  | unblock pid =>
    obtain ⟨x, hx, rfl⟩ := Option.map_eq_some_iff.1 hcall
    exact hmoved (.of_pcb rfl) rfl rfl (unblockProcess_moved hx)
  | terminate pid exitCode =>
    obtain ⟨x, hx, rfl⟩ := Option.map_eq_some_iff.1 hcall
    exact hmoved (.of_pcb rfl) rfl rfl (terminateProcess_moved hx)

/-- A run that terminates no queued process returns, and keeps the invariant. -/
lemma wellFormed_run {cs : List Call} (hs : WellFormed s.manager)
    (h : Run.Follows CallState.call (fun s c => s.Possible c ∧ s.TerminatesUnqueued c) s cs) :
    ∃ s', Run.exec CallState.call s cs = some s' ∧ WellFormed s'.manager :=
  Run.exec_of_step (I := fun s => WellFormed s.manager)
    (fun _ _ hi hc => wellFormed_call hi hc.1 hc.2) hs h

/-- Terminating the current process is terminating a process that is in no queue. -/
lemma CallState.TerminatesCurrent.unqueued (hs : WellFormed s.manager) {c : Call}
    (h : s.TerminatesCurrent c) : s.TerminatesUnqueued c := by
  cases c with
  | terminate pid exitCode =>
    intro hpid p hp
    obtain ⟨Q, hi⟩ := hs
    obtain ⟨c, hc, rfl⟩ := Option.map_eq_some_iff.1 (show s.manager.getCurrentPid = some pid from h)
    have hlive := ((hi.running c).1 hc).1
    have hself : s.manager.processes (s.manager.pcb c).pid = some c := hi.processes_pidOf hlive
    rw [hself] at hp
    rw [hc, hp]
  | _ => trivial

/-- A run that terminates only the current process returns, and keeps the invariant. -/
lemma wellFormed_run_of_terminatesCurrent {cs : List Call} (hs : WellFormed s.manager)
    (h : Run.Follows CallState.call (fun s c => s.Possible c ∧ s.TerminatesCurrent c) s cs) :
    ∃ s', Run.exec CallState.call s cs = some s' ∧ WellFormed s'.manager :=
  Run.exec_of_step (I := fun s => WellFormed s.manager)
    (fun _ _ hi hc => wellFormed_call hi hc.1 (hc.2.unqueued hi)) hs h

/-- In every run from `process_manager_init` in which no process is terminated while it is in a
queue, every call returns, and after it every process is in exactly the one place its state
names. -/
theorem placed_of_run (pcb : Ptr → Process) (regFrames : ℕ → RegisterState) (cr3 : Option ℕ)
    (wrapper : ℕ) (cs : List Call)
    (h : Run.Follows CallState.call (fun s c => s.Possible c ∧ s.TerminatesUnqueued c)
      (.init pcb regFrames cr3 wrapper) cs) :
    ∃ s, Run.exec CallState.call (.init pcb regFrames cr3 wrapper) cs = some s ∧
      s.manager.Placed := by
  obtain ⟨s, he, hs⟩ := wellFormed_run (wellFormed_processManagerInit pcb regFrames cr3 wrapper) h
  exact ⟨s, he, hs.placed⟩

/-- The state after `process_manager_init` over zeroed memory. -/
def CallState.zero : CallState := .init (fun _ => {}) (fun _ => {}) none 0

/-- The allocations of a `create_process` that succeeds. -/
def sampleAlloc : CreateAlloc :=
  { process := some 100, pageDirectory := some 200, kernelStack := some 4096 }

/-- A process is created, dispatched, and terminates itself. -/
theorem placed_of_run_exit :
    ∃ s, Run.exec CallState.call .zero [.create {} sampleAlloc, .schedule 0, .terminate 0 7] =
      some s ∧ s.manager.Placed := by
  refine placed_of_run _ _ _ _ _ ⟨⟨?_, trivial⟩, fun s₁ h₁ => ?_⟩
  · rintro p - ⟨i, hi⟩
    simp [CallState.init, processManagerInit] at hi
  obtain rfl := Option.some.inj h₁
  refine ⟨⟨trivial, trivial⟩, fun s₂ h₂ => ?_⟩
  obtain rfl := Option.some.inj h₂
  refine ⟨⟨trivial, fun _ p hp => ?_⟩, fun s₃ h₃ => trivial⟩
  obtain rfl := Option.some.inj hp
  rfl

/-- A process that is terminated while it is ready stays in its ready queue and is put in the
terminated queue too. -/
theorem not_placed_of_terminate_ready :
    ∃ cs s, Run.Follows CallState.call (fun s c => s.Possible c) .zero cs ∧
      Run.exec CallState.call .zero cs = some s ∧ ¬ s.manager.Placed := by
  refine ⟨[.create {} sampleAlloc, .terminate 0 7], _, ⟨?_, fun s₁ h₁ => ⟨trivial, fun _ _ => trivial⟩⟩,
    rfl, ?_⟩
  · rintro p - ⟨i, hi⟩
    simp [CallState.zero, CallState.init, processManagerInit] at hi
  · rintro ⟨Q, hlist, -, hplace⟩
    have hready : Q (.ready 0) = [100] := (hlist (.ready 0)).unique ⟨rfl, rfl⟩
    have honly := (hplace 0 100 rfl).2.2.2.1.1 rfl
    refine honly.2 (.ready 0) (by simp) ?_
    rw [hready]
    simp

/-! ## PID records -/

/-- In every run from `process_manager_init` in which only the current process is terminated, every
call returns, and after it the table, the bitmap and the counter agree. `create_process` returns
only PIDs that are free in the table, a process leaves the table only when a tick cleans it up after
it has terminated, and the PIDs run out only when all 64 are in use. -/
theorem pidRecords_of_run (pcb : Ptr → Process) (regFrames : ℕ → RegisterState) (cr3 : Option ℕ)
    (wrapper : ℕ) (cs : List Call)
    (h : Run.Follows CallState.call (fun s c => s.Possible c ∧ s.TerminatesCurrent c)
      (.init pcb regFrames cr3 wrapper) cs) :
    ∃ s, Run.exec CallState.call (.init pcb regFrames cr3 wrapper) cs = some s ∧
      s.manager.PidRecords ∧
      (∀ args alloc m' pid, s.manager.createProcess args alloc = some (m', .ok pid) →
        s.manager.processes pid = none ∧
          m'.processes = Function.update s.manager.processes pid alloc.process) ∧
      (∀ args alloc m', s.manager.createProcess args alloc = some (m', .error .noPid) →
        s.manager.activeProcesses = 64 ∧ ∀ pid < 64, s.manager.processes pid ≠ none) ∧
      (∀ c s', s.call c = some s' → ∀ pid p, s.manager.processes pid = some p →
        s'.manager.processes pid = some p ∨
          (c = .tick ∨ c = .resumeTick) ∧ (s.manager.pcb p).state = .terminated) := by
  obtain ⟨s, he, hs⟩ := wellFormed_run_of_terminatesCurrent
    (wellFormed_processManagerInit pcb regFrames cr3 wrapper) h
  have hrec := hs.pidRecords
  refine ⟨s, he, hrec, fun args alloc m' pid hc => ?_, fun args alloc m' hc => ?_,
    fun c s' hc pid p hp => processes_call hs hc hp⟩
  · obtain ⟨hfree, p, d, k, hp, hadd, -⟩ := createProcess_ok hc
    obtain ⟨hlt, hbit⟩ := findFreePid_eq_some hfree
    refine ⟨?_, ?_⟩
    · by_contra hne
      rw [(hrec.bitmap pid hlt).1 hne] at hbit
      simp at hbit
    · rw [(addProcess_effect hadd).2, hp]
      rfl
  · obtain ⟨-, -, -, hnone⟩ := createProcess_error hc
    have hfull := hnone rfl
    refine ⟨?_, fun pid hpid => (hrec.bitmap pid hpid).2 (findFreePid_eq_none hfull hpid)⟩
    rw [hrec.active]
    exact Bitmap.card_eq fun i hi => findFreePid_eq_none hfull hi

/-- A process is created, dispatched, and terminates itself; the next creation gets the next
PID. -/
theorem pidRecords_of_run_exit :
    ∃ s, Run.exec CallState.call .zero [.create {} sampleAlloc, .schedule 0, .terminate 0 7] =
      some s ∧ s.manager.PidRecords := by
  obtain ⟨s, he, hs, -⟩ := pidRecords_of_run (fun _ => {}) (fun _ => {}) none 0
    [.create {} sampleAlloc, .schedule 0, .terminate 0 7] (by
      refine ⟨⟨?_, trivial⟩, fun s₁ h₁ => ?_⟩
      · rintro p - ⟨i, hi⟩
        simp [CallState.init, processManagerInit] at hi
      obtain rfl := Option.some.inj h₁
      refine ⟨⟨trivial, trivial⟩, fun s₂ h₂ => ?_⟩
      obtain rfl := Option.some.inj h₂
      exact ⟨⟨trivial, rfl⟩, fun s₃ h₃ => trivial⟩)
  exact ⟨s, he, hs⟩

end Jarvis
