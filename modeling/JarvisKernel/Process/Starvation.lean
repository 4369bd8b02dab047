import JarvisKernel.Process.Scheduler
import JarvisKernel.Process.TimeSlice

set_option relaxedAutoImplicit false
set_option autoImplicit false

/-!
# Who can get the processor

The demotion of `schedule` is meant to let processes of lower priority run. It is never reached: the
`int $0x20` of the tick re-enters the handler, whose tick wraps the slice before `schedule` tests it. So a
process keeps the priority it was created with, whatever is created, blocked, unblocked and terminated, and
the processor always goes to the process of the least base priority and PID. A process that another one
precedes in this order starves until that one blocks or terminates.

## Main definitions

* `Jarvis.ProcessManager.Undemoted` — priorities are base priorities, and no slice is 0.
* `Jarvis.ProcessManager.Runnable`, `Jarvis.ProcessManager.key` — who competes, and in which order.
* `Jarvis.Machine.Regular` — the steps that can occur.

## Main results

* `Jarvis.undemoted_of_run` — the demotion branch of `schedule` is dead.
* `Jarvis.key_le_of_run` — the process that runs precedes all that are runnable.
-/

namespace Jarvis

open ProcessManager

/-- The base priority and the PID of a process, in lexicographic order. -/
def Process.key (x : Process) : ℕ ×ₗ ℕ := toLex (x.basePriority, x.pid)

namespace ProcessManager

variable {m m' : ProcessManager} {Q : QueueId → List Ptr} {p q r c : Ptr} {pid esp : ℕ}

/-! ## Fixed priorities -/

/-- Every process has the priority it was created with, and has not used up its slice. -/
def Undemoted (m : ProcessManager) : Prop :=
  ∀ p, m.Live p → (m.pcb p).priority = (m.pcb p).basePriority ∧ 1 ≤ (m.pcb p).timeSlice

/-- No process is demoted by what keeps scheduling data and adds no process. -/
lemma Undemoted.of_sameContext (h : m.Undemoted) (hc : SameContext m m')
    (hl : ∀ r, m'.Live r → m.Live r) : m'.Undemoted := by
  intro p hp
  rw [hc.priority, hc.basePriority, hc.timeSlice]
  exact h p (hl p hp)

/-- A process in the table after the first part of a tick was there before. -/
lemma live_tickHead (h : m.processManagerTickHead.1.Live r) : m.Live r := by
  obtain ⟨i, hi⟩ := h
  rw [processes_tickHead] at hi
  exact ⟨i, hi⟩

/-- A tick that is not interrupted leaves a slice that is not 0. -/
lemma Undemoted.tickHead (h : m.Undemoted) (hr : m.processManagerTickHead.2 = false) :
    m.processManagerTickHead.1.Undemoted := by
  intro p hp
  obtain ⟨hprio, hbase, -, hslice⟩ := processManagerTickHead_effect m p
  obtain ⟨hp₁, hp₂⟩ := h p (live_tickHead hp)
  rw [hprio, hbase, hslice]
  refine ⟨hp₁, ?_⟩
  split_ifs with hrun
  · by_contra hzero
    have hraised : m.processManagerTickHead.2 = true :=
      (processManagerTickHead_raised m).2 ⟨p, hrun.1, hrun.2, by omega⟩
    rw [hr] at hraised
    cases hraised
  · exact hp₂

/-- A tick that is interrupted leaves the slice 0, and the tick that interrupts it wraps the slice. -/
lemma Undemoted.tickHead_tickHead (h : m.Undemoted) (hr : m.processManagerTickHead.2 = true) :
    m.processManagerTickHead.1.processManagerTickHead.1.Undemoted := by
  obtain ⟨c, hc, hrun, hzero⟩ := (processManagerTickHead_raised m).1 hr
  intro p hp
  obtain ⟨hprio, hbase, -, hslice⟩ := processManagerTickHead_effect m p
  obtain ⟨hprio', hbase', -, hslice'⟩ := processManagerTickHead_effect m.processManagerTickHead.1 p
  obtain ⟨hp₁, hp₂⟩ := h p (live_tickHead (live_tickHead hp))
  rw [hprio', hbase', hprio, hbase, hslice', hslice, currentProcess_tickHead, state_tickHead]
  refine ⟨hp₁, ?_⟩
  by_cases hpc : m.currentProcess = some p ∧ (m.pcb p).state = .running
  · obtain rfl : c = p := Option.some.inj (hc.symm.trans hpc.1)
    rw [if_pos hpc, if_pos hpc, hzero]
    decide
  · rw [if_neg hpc, if_neg hpc]
    exact hp₂

/-- A new process has its base priority and a slice. -/
lemma Undemoted.createProcess (h : m.Undemoted) {a : CreateArgs} {r : CreateAlloc}
    {res : Except CreateError ℕ} (hc : m.createProcess a r = some (m', res)) : m'.Undemoted := by
  cases res with
  | error e =>
    obtain ⟨l, rfl, -⟩ := createProcess_error hc
    exact h
  | ok i =>
    obtain ⟨-, p, d, k, -, hadd, -⟩ := createProcess_ok hc
    obtain ⟨hctx, hproc⟩ := addProcess_effect hadd
    obtain ⟨-, hlt, hfull⟩ := slices_newProcess (m := m) a i d k r.stackRegion
    intro q hq
    rw [hctx.priority, hctx.basePriority, hctx.timeSlice]
    by_cases hqp : q = p
    · rw [hqp]
      simp only [Function.update_self]
      exact ⟨rfl, by omega⟩
    · simp only [Function.update_of_ne hqp]
      refine h q ?_
      obtain ⟨n, hn⟩ := hq
      rw [hproc] at hn
      by_cases hni : n = (m.newProcess a i d k r.stackRegion).pid
      · rw [hni, Function.update_self] at hn
        exact absurd (Option.some.inj hn).symm hqp
      · rw [Function.update_of_ne hni] at hn
        exact ⟨n, hn⟩

/-! ## The order of the processes -/

/-- Base priority and PID are never changed. -/
lemma isFixed_key : IsFixed Process.key := fun _ _ _ _ _ _ _ _ _ => rfl

/-- Every control block is at an address of 32 bits. -/
def Addressed (m : ProcessManager) : Prop := ∀ p, m.Live p → 0 < p ∧ p < 2 ^ 32

/-- The process is ready or running. -/
def Runnable (m : ProcessManager) (p : Ptr) : Prop :=
  m.Live p ∧ ((m.pcb p).state = .ready ∨ (m.pcb p).state = .running)

/-- The process that runs, if there is one, does not come after `q`. -/
def Bounded (m : ProcessManager) (q : Ptr) : Prop :=
  ∀ c, m.currentProcess = some c → (m.pcb c).key ≤ (m.pcb q).key

/-- What the steps keep. -/
structure Steady (m : ProcessManager) : Prop where
  wellFormed : WellFormed m
  undemoted : m.Undemoted
  addressed : m.Addressed

/-- `schedule` can be called in every state in which the invariant holds. -/
lemma Inv.schedulable (h : Inv m Q none m.currentProcess) (ha : m.Addressed) :
    Schedulable m fun i => Q (.ready i) := by
  refine ⟨⟨fun i _ => h.isList (.ready i), fun i _ => ?_, fun i _ p hp => ?_⟩, fun i _ p hp => ?_,
    fun c hc => ?_⟩
  · exact (h.ascending (.ready i)).imp fun hlt => le_of_lt hlt
  · have hstate := h.state_of_mem_ready hp
    have hhome := ((h.mem _ p).1 hp).2.2
    rw [Process.home, hstate] at hhome
    exact ⟨hstate, by simpa using hhome⟩
  · exact ha p ((h.mem _ p).1 hp).1
  · obtain ⟨hl, -, hrun⟩ := (h.running c).1 hc
    refine ⟨hrun, h.priority c hl, fun i _ hi => ?_⟩
    rw [h.state_of_mem_ready hi] at hrun
    cases hrun

/-- Those that compete are the runnable processes. -/
lemma Inv.competes_iff (h : Inv m Q none m.currentProcess) :
    Competes m (fun i => Q (.ready i)) p ↔ m.Runnable p := by
  constructor
  · rintro (⟨i, -, hp⟩ | hc)
    · exact ⟨((h.mem _ p).1 hp).1, .inl (h.state_of_mem_ready hp)⟩
    · obtain ⟨hl, -, hrun⟩ := (h.running p).1 hc
      exact ⟨hl, .inr hrun⟩
  · rintro ⟨hl, hready | hrun⟩
    · refine .inl ⟨(m.pcb p).priority, h.priority p hl, (h.mem _ p).2 ⟨hl, by simp, ?_⟩⟩
      rw [Process.home, hready]
    · exact .inr ((h.running p).2 ⟨hl, by simp, hrun⟩)

/-- The rank by which `schedule` chooses is the key, because nothing is demoted. -/
lemma Undemoted.rank_eq_key (h : m.Undemoted) (hp : m.Live p) (esp : ℕ) :
    m.rank esp p = (m.pcb p).key := by
  obtain ⟨hprio, hslice⟩ := h p hp
  have hrank : ((m.preemptCurrent esp).pcb p).priority = (m.pcb p).priority := by
    unfold preemptCurrent
    cases hc : m.currentProcess with
    | none => rfl
    | some c =>
      dsimp only
      split_ifs
      · by_cases hpc : p = c
        · subst hpc
          show (Function.update m.pcb p _ p).priority = _
          rw [Function.update_self]
          exact (preempted_of_pos esp hslice).1
        · show (Function.update m.pcb c _ p).priority = _
          rw [Function.update_of_ne hpc]
      · rfl
  rw [rank, hrank, hprio]
  rfl

/-- **`schedule` dispatches the process of the least key**, and all that were runnable still are. -/
lemma Steady.schedule (h : m.Steady) {e : ℕ} (hs : m.schedule esp = some (m', e))
    (hq : m.Runnable q) : m'.Runnable q ∧ Keeps Process.key m m' ∧ m'.Bounded q := by
  obtain ⟨⟨Q, hi⟩, hu, ha⟩ := h
  obtain ⟨m₁, e₁, hs₁, hspec⟩ := schedule_schedules (hi.schedulable ha) esp
  obtain ⟨rfl, rfl⟩ : m₁ = m' ∧ e₁ = e := Prod.ext_iff.1 (Option.some.inj (hs₁.symm.trans hs))
  have hkeys : Keeps Process.key m m₁ :=
    (keeps_preemptCurrent isFixed_key m esp).trans (schedule_keeps isFixed_key.isStatic hs).1
  have hlive : ∀ r, m.Live r → m₁.Live r := by
    rintro r ⟨i, hr⟩
    exact ⟨i, by rw [(schedule_effect hs).2.1]; exact hr⟩
  have hcompete := hi.competes_iff.2 hq
  refine ⟨⟨hlive q hq.1, ?_⟩, hkeys, fun c hc => ?_⟩
  · obtain ⟨Q', hlists, hmem⟩ := hspec.queues
    by_cases hc : m₁.currentProcess = some q
    · exact .inr (hspec.least q hc).2.2.1
    · have hlt : (m₁.pcb q).priority < maxPriorityLevels := by
        rw [hspec.context.priority]
        exact (hi.schedulable ha).priority_lt hcompete esp
      exact .inl (hlists.ready _ hlt q ((hmem _ hlt q).2 ⟨hcompete, hc, rfl⟩)).1
  · obtain ⟨hcomp, hleast, -⟩ := hspec.least c hc
    have hle := hleast q hcompete
    rw [hu.rank_eq_key (hi.competes_iff.1 hcomp).1, hu.rank_eq_key hq.1] at hle
    rw [hkeys, hkeys]
    exact hle

/-! ## What the calls leave as it is -/

/-- A process that is not moved stays runnable. -/
lemma Runnable.of_moved {P : Ptr → Prop} (h : m.Runnable q) (hm : Moved P m m') (hP : ¬ P q) :
    m'.Runnable q := by
  obtain ⟨⟨i, hi⟩, hstate⟩ := h
  rw [← (hm.still q hP).1] at hstate
  exact ⟨⟨i, by rw [hm.processes]; exact hi⟩, hstate⟩

/-- The bound stays if no other process gets the processor. -/
lemma Bounded.of_keeps (h : m.Bounded q) (hk : Keeps Process.key m m')
    (hc : ∀ c, m'.currentProcess = some c → m.currentProcess = some c) : m'.Bounded q := by
  intro c hcur
  rw [hk, hk]
  exact h c (hc c hcur)

/-- A process stays runnable in the first part of a tick. -/
lemma Runnable.tickHead (h : m.Runnable q) : m.processManagerTickHead.1.Runnable q := by
  obtain ⟨⟨i, hi⟩, hstate⟩ := h
  refine ⟨⟨i, ?_⟩, ?_⟩
  · rw [processes_tickHead]
    exact hi
  · rw [state_tickHead]
    exact hstate

/-- The rest of a tick wakes blocked processes and forgets terminated ones. -/
lemma Runnable.tickTail (h : m.Runnable q) (hwf : WellFormed m)
    (htail : m.processManagerTickTail = some m') : m'.Runnable q := by
  obtain ⟨⟨i, hi⟩, hstate⟩ := h
  obtain ⟨m₁, hm₁, -, -, hleave⟩ := hwf.tickTail
  obtain rfl : m' = m₁ := Option.some.inj (htail.symm.trans hm₁)
  have hne : (m.pcb q).state ≠ .blocked ∧ (m.pcb q).state ≠ .terminated := by
    rcases hstate with hs | hs
    · simp [hs]
    · simp [hs]
  have hsame : (m'.pcb q).state = (m.pcb q).state := by
    unfold processManagerTickTail at htail
    obtain ⟨m₂, hw, htail⟩ := Option.bind_eq_some_iff.1 htail
    rw [← ((wakeLoop_moved hw).still q hne.1).1]
    split_ifs at htail
    · obtain ⟨m₃, hcl, htail⟩ := Option.bind_eq_some_iff.1 htail
      obtain rfl := Option.some.inj htail
      show (m₃.pcb q).state = _
      rw [(cleanupLoop_effect hcl).1]
    · obtain rfl := Option.some.inj htail
      rfl
  refine ⟨⟨i, (hleave i q hi).resolve_right hne.2⟩, ?_⟩
  rw [hsame]
  exact hstate

/-- A creation leaves the other processes as they are, and dispatches nobody. -/
lemma Runnable.createProcess (h : m.Runnable q) (hwf : WellFormed m) {a : CreateArgs} {r : CreateAlloc}
    {res : Except CreateError ℕ} (hnew : ∀ p, r.process = some p → ¬ m.Live p)
    (hc : m.createProcess a r = some (m', res)) :
    m'.Runnable q ∧ (m'.pcb q).key = (m.pcb q).key ∧ (m.Bounded q → m'.Bounded q) := by
  cases res with
  | error e =>
    obtain ⟨l, rfl, -⟩ := createProcess_error hc
    exact ⟨h, rfl, id⟩
  | ok i =>
    obtain ⟨hfree, p, d, k, hp, hadd, -⟩ := createProcess_ok hc
    have hproc := (addProcess_effect hadd).2
    have hkeep : ∀ r, m.Live r → m'.Live r ∧ (m'.pcb r).state = (m.pcb r).state ∧
        (m'.pcb r).key = (m.pcb r).key := by
      rintro r ⟨n, hn⟩
      have hrp : r ≠ p := by
        rintro rfl
        exact hnew r hp ⟨n, hn⟩
      have hni : n ≠ i := by
        rintro rfl
        obtain ⟨Q, hi⟩ := hwf
        obtain ⟨hlt, hbit⟩ := findFreePid_eq_some hfree
        rw [hi.bitmap n hlt, hn] at hbit
        cases hbit
      rw [pcb_addProcess hadd hrp]
      refine ⟨⟨n, ?_⟩, rfl, rfl⟩
      rw [hproc]
      exact (Function.update_of_ne hni ..).trans hn
    obtain ⟨hl, hs, hkey⟩ := hkeep q h.1
    refine ⟨⟨hl, by rw [hs]; exact h.2⟩, hkey, fun hb c hcur => ?_⟩
    rw [currentProcess_addProcess hadd] at hcur
    obtain ⟨Q, hi⟩ := hwf
    rw [(hkeep c ((hi.running c).1 hcur).1).2.2, hkey]
    exact hb c hcur

/-- `block_process` dispatches nobody. -/
lemma currentProcess_blockProcess {waitTime : ℕ} {x : ProcessManager × Bool}
    (h : m.blockProcess pid waitTime = some x) (hc : x.1.currentProcess = some c) :
    m.currentProcess = some c := by
  unfold blockProcess at h
  split_ifs at h with hpid
  · obtain rfl := Option.some.inj h
    exact hc
  cases hp : m.processes pid with
  | none =>
    rw [hp] at h
    obtain rfl := Option.some.inj h
    exact hc
  | some p =>
    simp only [hp] at h
    by_cases hskip : (m.pcb p).state ≠ .ready ∧ m.currentProcess ≠ some p
    · rw [if_pos hskip] at h
      obtain rfl := Option.some.inj h
      exact hc
    rw [if_neg hskip] at h
    simp only [Option.bind_eq_bind, Option.bind_eq_some_iff] at h
    obtain ⟨m₁, h₁, m₃, h₃, hx⟩ := h
    obtain rfl := Option.some.inj hx
    have hcur₁ : m₁.currentProcess = some c := (enqueueProcess_sameData h₃).currentProcess.symm.trans hc
    split_ifs at h₁ with hready hcur
    · obtain ⟨y, hy, rfl⟩ := Option.map_eq_some_iff.1 h₁
      exact (removeProcessFromQueue_sameData hy).currentProcess.symm.trans hcur₁
    · obtain rfl := Option.some.inj h₁
      cases hcur₁
    · obtain rfl := Option.some.inj h₁
      exact hcur₁

/-- `terminate_process` dispatches nobody. -/
lemma currentProcess_terminateProcess {exitCode : ℤ} {x : ProcessManager × Bool}
    (h : m.terminateProcess pid exitCode = some x) (hc : x.1.currentProcess = some c) :
    m.currentProcess = some c := by
  unfold terminateProcess at h
  split_ifs at h with hpid
  · obtain rfl := Option.some.inj h
    exact hc
  cases hp : m.processes pid with
  | none =>
    rw [hp] at h
    obtain rfl := Option.some.inj h
    exact hc
  | some p =>
    simp only [hp, Option.bind_eq_bind, Option.bind_eq_some_iff] at h
    obtain ⟨m₂, h₂, m₃, h₃, hx⟩ := h
    obtain rfl := Option.some.inj hx
    have hcur₂ : m₂.currentProcess = some c := (enqueueProcess_sameData h₃).currentProcess.symm.trans hc
    split_ifs at h₂ with hready hblocked hcur
    · obtain ⟨y, hy, rfl⟩ := Option.map_eq_some_iff.1 h₂
      exact (removeProcessFromQueue_sameData hy).currentProcess.symm.trans hcur₂
    · obtain ⟨y, hy, rfl⟩ := Option.map_eq_some_iff.1 h₂
      exact (removeProcessFromQueue_sameData hy).currentProcess.symm.trans hcur₂
    · obtain rfl := Option.some.inj h₂
      cases hcur₂
    · obtain rfl := Option.some.inj h₂
      exact hcur₂

end ProcessManager

namespace Event

/-- The step neither blocks nor terminates the process with this PID. -/
def LeavesRunnable (pid : ℕ) : Event → Prop
  | .block i _ _ _ => i ≠ pid
  | .terminate i _ _ _ => i ≠ pid
  | _ => True

/-- The step ends with a call of `schedule`. -/
def Dispatches : Event → Prop
  | .timer _ _ => True
  | .resume => True
  | _ => False

end Event

namespace Machine

variable {s s' : Machine} {q : Ptr}

/-! ## Steps -/

/-- The steps that can occur: as in `Possible`, only the current process is terminated, and `malloc` gives
addresses of 32 bits. -/
def Regular (s : Machine) (e : Event) : Prop :=
  s.Possible e ∧ s.TerminatesCurrent e ∧
    ∀ args alloc p, e = .create args alloc → alloc.process = some p → 0 < p ∧ p < 2 ^ 32

/-- The end of a handler activation demotes nobody. -/
lemma Finished.undemoted {esp : ℕ} (h : Finished s s' esp) (hu : s.manager.Undemoted) :
    s'.manager.Undemoted := by
  intro r hr
  have hr₀ := hu r (h.live_of_live r hr)
  by_cases hc : s.manager.currentProcess = some r
  · obtain ⟨hp, hb, ht, -⟩ := h.saved r hc
    obtain ⟨hp', hb', ht'⟩ := preempted_of_pos esp hr₀.2
    rw [hp, hb, ht, hp', hb', ht']
    exact hr₀
  · obtain ⟨hp, hb, ht, -⟩ := h.kept r hc
    rw [hp, hb, ht]
    exact hr₀

/-- No step demotes a process. -/
lemma undemoted_step (h : WellFormed s.manager) (hu : s.manager.Undemoted) {e : Event}
    (ht : s.TerminatesCurrent e) (hs : s.step e = some s') : s'.manager.Undemoted := by
  have hof : ∀ {m : ProcessManager}, SameContext s.manager m ∧ m.processes = s.manager.processes →
      m.Undemoted := by
    rintro m ⟨hc, hproc⟩
    refine hu.of_sameContext hc ?_
    rintro r ⟨i, hi⟩
    exact ⟨i, by rw [← hproc]; exact hi⟩
  cases e with
  | timer esp below =>
    rcases timer_finished h esp below with ⟨hr, s₁, he, hf⟩ | ⟨hr, s₁, he, hf⟩
    · obtain rfl : s' = s₁ := Option.some.inj (hs.symm.trans he)
      exact hf.undemoted (hu.tickHead hr)
    · obtain rfl : s' = s₁ := Option.some.inj (hs.symm.trans he)
      exact hf.undemoted (hu.tickHead_tickHead hr)
  | resume =>
    unfold step at hs
    cases hm : s.mode with
    | code =>
      rw [hm] at hs
      obtain rfl := Option.some.inj hs
      exact hu
    | afterInt esp =>
      rw [hm] at hs
      obtain ⟨s₁, he, hf⟩ := finishTimer_finished h esp
      obtain rfl : s' = s₁ := Option.some.inj (hs.symm.trans he)
      exact hf.undemoted hu
  | create args alloc =>
    obtain ⟨x, hx, rfl⟩ := Option.map_eq_some_iff.1 hs
    exact hu.createProcess hx
  | block pid waitTime esp below =>
    obtain ⟨m, hbl, he, -⟩ := step_block h pid waitTime esp below
    obtain rfl := Option.some.inj (hs.symm.trans he)
    exact hof (blockProcess_effect hbl)
  | unblock pid =>
    obtain ⟨m, hu, rfl⟩ := Option.map_eq_some_iff.1 hs
    exact hof (unblockProcess_effect hu)
  | terminate pid exitCode esp below =>
    obtain ⟨m, hte, he, -⟩ := step_terminate h ht
    obtain rfl := Option.some.inj (hs.symm.trans he)
    exact hof (terminateProcess_effect hte)

/-- Only a creation enters a process in the table. -/
lemma live_of_step (h : WellFormed s.manager) {e : Event} (ht : s.TerminatesCurrent e)
    (hs : s.step e = some s') {r : Ptr} (hr : s'.manager.Live r) :
    s.manager.Live r ∨ ∃ args alloc, e = .create args alloc ∧ alloc.process = some r := by
  have hof : ∀ {m : ProcessManager}, m.processes = s.manager.processes → m.Live r → s.manager.Live r := by
    rintro m hproc ⟨i, hi⟩
    exact ⟨i, by rw [← hproc]; exact hi⟩
  cases e with
  | timer esp below =>
    left
    rcases timer_finished h esp below with ⟨-, s₁, he, hf⟩ | ⟨-, s₁, he, hf⟩
    · obtain rfl : s' = s₁ := Option.some.inj (hs.symm.trans he)
      exact live_tickHead (hf.live_of_live r hr)
    · obtain rfl : s' = s₁ := Option.some.inj (hs.symm.trans he)
      exact live_tickHead (live_tickHead (hf.live_of_live r hr))
  | resume =>
    left
    unfold step at hs
    cases hm : s.mode with
    | code =>
      rw [hm] at hs
      obtain rfl := Option.some.inj hs
      exact hr
    | afterInt esp =>
      rw [hm] at hs
      obtain ⟨s₁, he, hf⟩ := finishTimer_finished h esp
      obtain rfl : s' = s₁ := Option.some.inj (hs.symm.trans he)
      exact hf.live_of_live r hr
  | create args alloc =>
    obtain ⟨⟨m, res⟩, hx, rfl⟩ := Option.map_eq_some_iff.1 hs
    cases res with
    | error err =>
      obtain ⟨l, rfl, -⟩ := createProcess_error hx
      exact .inl hr
    | ok pid =>
      obtain ⟨-, p, d, k, hp, hadd, -⟩ := createProcess_ok hx
      obtain ⟨i, hi⟩ := hr
      rw [(addProcess_effect hadd).2] at hi
      by_cases hip : i = (s.manager.newProcess args pid d k alloc.stackRegion).pid
      · rw [hip, Function.update_self] at hi
        exact .inr ⟨args, alloc, rfl, hp.trans hi⟩
      · rw [Function.update_of_ne hip] at hi
        exact .inl ⟨i, hi⟩
  | block pid waitTime esp below =>
    obtain ⟨m, hbl, he, -⟩ := step_block h pid waitTime esp below
    obtain rfl := Option.some.inj (hs.symm.trans he)
    exact .inl (hof (blockProcess_effect hbl).2 hr)
  | unblock pid =>
    obtain ⟨m, hu, rfl⟩ := Option.map_eq_some_iff.1 hs
    exact .inl (hof (unblockProcess_effect hu).2 hr)
  | terminate pid exitCode esp below =>
    obtain ⟨m, hte, he, -⟩ := step_terminate h ht
    obtain rfl := Option.some.inj (hs.symm.trans he)
    exact .inl (hof (terminateProcess_effect hte).2 hr)

/-- Every step that can occur returns, and keeps what `Steady` says. -/
lemma steady_step (h : s.manager.Steady) {e : Event} (he : s.Regular e) :
    ∃ s', s.step e = some s' ∧ s'.manager.Steady := by
  obtain ⟨hposs, hterm, haddr⟩ := he
  obtain ⟨s', hs, hwf⟩ := wellFormed_step h.wellFormed hposs hterm
  refine ⟨s', hs, hwf, undemoted_step h.wellFormed h.undemoted hterm hs, fun r hr => ?_⟩
  rcases live_of_step h.wellFormed hterm hs hr with hl | ⟨args, alloc, rfl, hp⟩
  · exact h.addressed r hl
  · exact haddr args alloc r rfl hp

/-- The end of a handler activation, in its two parts. -/
lemma finishTimer_parts {esp : ℕ} (h : s.finishTimer esp = some s') :
    ∃ m₁ e, s.manager.processManagerTickTail = some m₁ ∧ m₁.schedule esp = some (s'.manager, e) := by
  unfold finishTimer at h
  obtain ⟨m₁, htail, h⟩ := Option.bind_eq_some_iff.1 h
  obtain ⟨⟨m₂, e⟩, hsched, h⟩ := Option.bind_eq_some_iff.1 h
  obtain rfl := Option.some.inj h
  exact ⟨m₁, e, htail, hsched⟩

/-- At the end of a handler activation no process runs that comes after a runnable one. -/
lemma finishTimer_bounded (h : s.manager.Steady) (hq : s.manager.Runnable q) {esp : ℕ}
    (hs : s.finishTimer esp = some s') :
    s'.manager.Runnable q ∧ (s'.manager.pcb q).key = (s.manager.pcb q).key ∧ s'.manager.Bounded q := by
  obtain ⟨m₁, e, htail, hsched⟩ := finishTimer_parts hs
  obtain ⟨m, htail', hwf, -⟩ := h.wellFormed.tickTail
  obtain rfl : m = m₁ := Option.some.inj (htail'.symm.trans htail)
  obtain ⟨hctx, hsub⟩ := processManagerTickTail_effect htail
  have hlive : ∀ r, m.Live r → s.manager.Live r := by
    rintro r ⟨i, hi⟩
    exact ⟨i, hsub i r hi⟩
  have hsteady : m.Steady :=
    ⟨hwf, h.undemoted.of_sameContext hctx hlive, fun r hr => h.addressed r (hlive r hr)⟩
  obtain ⟨hq', hkey, hbound⟩ := hsteady.schedule hsched (hq.tickTail h.wellFormed htail)
  refine ⟨hq', ?_, hbound⟩
  rw [hkey, (processManagerTickTail_keeps isFixed_key.isStatic htail).1]

/-- The two ways a timer interrupt can go, with the state that the end of the handler starts from. -/
lemma steady_timer (h : s.manager.Steady) (hq : s.manager.Runnable q) {esp : ℕ} {below : ℕ → ℕ}
    (hs : s.interrupt esp below = some s') :
    ∃ s₁ esp', finishTimer s₁ esp' = some s' ∧ s₁.manager.Steady ∧ s₁.manager.Runnable q ∧
      Keeps Process.key s.manager s₁.manager := by
  have hkey := fun m : ProcessManager => isFixed_key.tickHead m
  cases hr : s.manager.processManagerTickHead.2 with
  | false =>
    rw [interrupt_of_not_raised hr] at hs
    refine ⟨_, _, hs, ⟨h.wellFormed.tickHead, h.undemoted.tickHead hr, fun r hl => ?_⟩, hq.tickHead,
      hkey s.manager⟩
    exact h.addressed r (live_tickHead hl)
  | true =>
    rw [interrupt_of_raised hr] at hs
    refine ⟨_, _, hs, ⟨h.wellFormed.tickHead.tickHead, h.undemoted.tickHead_tickHead hr, fun r hl => ?_⟩,
      hq.tickHead.tickHead, (hkey s.manager).trans (hkey _)⟩
    exact h.addressed r (live_tickHead (live_tickHead hl))

/-- A step that leaves `q` alone keeps it runnable, and bounds the process that runs if it dispatches, or if
that process was bounded before. -/
lemma bounded_step (h : s.manager.Steady) (hq : s.manager.Runnable q) {e : Event} (he : s.Regular e)
    (hleave : e.LeavesRunnable (s.manager.pidOf q)) (hs : s.step e = some s') :
    s'.manager.Runnable q ∧ (s'.manager.pcb q).key = (s.manager.pcb q).key ∧
      (e.Dispatches ∨ s.manager.Bounded q → s'.manager.Bounded q) := by
  obtain ⟨hposs, hterm, -⟩ := he
  have hmoved : ∀ {P : Ptr → Prop} {m : ProcessManager}, Moved P s.manager m → ¬ P q →
      (∀ c, m.currentProcess = some c → s.manager.currentProcess = some c) →
      m.Runnable q ∧ (m.pcb q).key = (s.manager.pcb q).key ∧
        (s.manager.Bounded q → m.Bounded q) := by
    intro P m hm hP hcur
    have hkeep := hm.keeps isFixed_key.isStatic
    exact ⟨hq.of_moved hm hP, hkeep q, fun hb => hb.of_keeps hkeep hcur⟩
  -- the process that another PID names is not `q`
  have hname : ∀ {i : ℕ}, i ≠ s.manager.pidOf q → s.manager.processes i ≠ some q := by
    intro i hi hp
    obtain ⟨Q, hinv⟩ := h.wellFormed
    exact hi (hinv.pid i q hp).2.symm
  cases e with
  | timer esp below =>
    obtain ⟨s₁, esp', hfin, hsteady, hq₁, hkey⟩ := steady_timer h hq hs
    obtain ⟨hq', hkey', hb⟩ := finishTimer_bounded hsteady hq₁ hfin
    exact ⟨hq', hkey'.trans (hkey q), fun _ => hb⟩
  | resume =>
    unfold step at hs
    cases hm : s.mode with
    | code => exact absurd hm hposs
    | afterInt esp =>
      rw [hm] at hs
      obtain ⟨hq', hkey, hb⟩ := finishTimer_bounded h hq hs
      exact ⟨hq', hkey, fun _ => hb⟩
  | create args alloc =>
    obtain ⟨⟨m, res⟩, hx, rfl⟩ := Option.map_eq_some_iff.1 hs
    obtain ⟨hq', hkey, hb⟩ := hq.createProcess h.wellFormed hposs.2 hx
    exact ⟨hq', hkey, fun hor => hb (hor.resolve_left id)⟩
  | block pid waitTime esp below =>
    obtain ⟨m, hbl, hstep, -⟩ := step_block h.wellFormed pid waitTime esp below
    obtain rfl := Option.some.inj (hs.symm.trans hstep)
    obtain ⟨hq', hkey, hb⟩ := hmoved (blockProcess_moved hbl) (fun hP => hname hleave hP.1)
      fun c => currentProcess_blockProcess hbl
    exact ⟨hq', hkey, fun hor => hb (hor.resolve_left id)⟩
  | unblock pid =>
    obtain ⟨m, hu, rfl⟩ := Option.map_eq_some_iff.1 hs
    have hnot : ¬ (s.manager.processes pid = some q ∧ (s.manager.pcb q).state = .blocked) := by
      rintro ⟨-, hblocked⟩
      rcases hq.2 with hstate | hstate
      · rw [hblocked] at hstate
        cases hstate
      · rw [hblocked] at hstate
        cases hstate
    obtain ⟨hq', hkey, hb⟩ := hmoved (unblockProcess_moved hu) hnot fun c hc => by
      rw [← currentProcess_unblockProcess hu]
      exact hc
    exact ⟨hq', hkey, fun hor => hb (hor.resolve_left id)⟩
  | terminate pid exitCode esp below =>
    obtain ⟨m, hte, hstep, -⟩ := step_terminate h.wellFormed hterm
    obtain rfl := Option.some.inj (hs.symm.trans hstep)
    obtain ⟨hq', hkey, hb⟩ := hmoved (terminateProcess_moved hte) (hname hleave)
      fun c => currentProcess_terminateProcess hte
    exact ⟨hq', hkey, fun hor => hb (hor.resolve_left id)⟩

/-- In a run that leaves `q` alone, no process that comes after `q` runs once `schedule` has been called. -/
lemma bounded_run {es : List Event} (h : s.manager.Steady) (hq : s.manager.Runnable q)
    (hes : Run.Follows step Regular s es) (hleave : ∀ e ∈ es, e.LeavesRunnable (s.manager.pidOf q))
    (hs : Run.exec step s es = some s') (hb : (∃ e ∈ es, e.Dispatches) ∨ s.manager.Bounded q) :
    s'.manager.Runnable q ∧ (s'.manager.pcb q).key = (s.manager.pcb q).key ∧ s'.manager.Bounded q := by
  induction es generalizing s with
  | nil =>
    obtain rfl := Option.some.inj hs
    exact ⟨hq, rfl, hb.resolve_left (by simp)⟩
  | cons e es ih =>
    obtain ⟨s₁, hstep, hsteady⟩ := steady_step h hes.1
    obtain ⟨hq₁, hkey, hb₁⟩ := bounded_step h hq hes.1 (hleave e List.mem_cons_self) hstep
    have hpid : s₁.manager.pidOf q = s.manager.pidOf q := congrArg (fun k => (ofLex k).2) hkey
    have hrest : Run.exec step s₁ es = some s' := by
      rw [Run.exec, hstep] at hs
      exact hs
    have hb' : (∃ d ∈ es, d.Dispatches) ∨ s₁.manager.Bounded q := by
      rcases hb with ⟨d, hd, hdisp⟩ | hbound
      · rcases List.mem_cons.1 hd with rfl | hd
        · exact .inr (hb₁ (.inl hdisp))
        · exact .inl ⟨d, hd, hdisp⟩
      · exact .inr (hb₁ (.inr hbound))
    obtain ⟨hq', hkey', hbound⟩ := ih hsteady hq₁ (hes.2 s₁ hstep)
      (fun d hd => by rw [hpid]; exact hleave d (List.mem_cons_of_mem e hd)) hrest hb'
    exact ⟨hq', hkey'.trans hkey, hbound⟩

end Machine

open Machine

/-! ## Runs -/

section

variable (pcb : Ptr → Process) (regFrames : ℕ → RegisterState) (cr3 : Option ℕ) (wrapper : ℕ)

/-- Before anything is created there is nothing to say. -/
lemma steady_init : (Machine.init pcb regFrames cr3 wrapper).manager.Steady := by
  have hnone : ∀ p, ¬ (Machine.init pcb regFrames cr3 wrapper).manager.Live p := by
    rintro p ⟨i, hi⟩
    simp [Machine.init, processManagerInit] at hi
  exact ⟨wellFormed_processManagerInit pcb regFrames cr3 wrapper, fun p hp => absurd hp (hnone p),
    fun p hp => absurd hp (hnone p)⟩

/-- **No process is ever demoted**: in every state of every run each process of the table has its base
priority, and a slice of at least one tick.

**Proof sketch.** When a slice runs out, the tick leaves 0 and executes `int $0x20`. The tick of the nested
activation decrements it once more, to `2 ^ 32 - 1`, before that activation calls `schedule`; the
interrupted activation calls `schedule` only after it is resumed, and then the slice is not 0 either. -/
theorem undemoted_of_run {es : List Event} {s : Machine}
    (h : Run.Follows step (fun s e => s.Possible e ∧ s.TerminatesCurrent e)
      (.init pcb regFrames cr3 wrapper) es)
    (hs : Run.exec step (.init pcb regFrames cr3 wrapper) es = some s) : s.manager.Undemoted := by
  have hinit := steady_init pcb regFrames cr3 wrapper
  obtain ⟨s', hs', -, hu⟩ := Run.exec_of_step
    (I := fun s => WellFormed s.manager ∧ s.manager.Undemoted)
    (fun s e hi he => by
      obtain ⟨s', hstep, hwf⟩ := wellFormed_step hi.1 he.1 he.2
      exact ⟨s', hstep, hwf, undemoted_step hi.1 hi.2 he.2 hstep⟩)
    ⟨hinit.wellFormed, hinit.undemoted⟩ h
  obtain rfl : s = s' := Option.some.inj (hs.symm.trans hs')
  exact hu

/-- **Strict priority**: let a process `q` be ready or running in a reachable state, and let the run go on in
any way that neither blocks nor terminates `q`. Once the handler has called `schedule`, the process that has
the processor never comes after `q` in the order of base priorities and PIDs. -/
theorem key_le_of_run {ds es : List Event} {s s' : Machine} {q c : Ptr}
    (h : Run.Follows step Regular (.init pcb regFrames cr3 wrapper) (ds ++ es))
    (hs : Run.exec step (.init pcb regFrames cr3 wrapper) ds = some s)
    (hq : s.manager.Runnable q) (hleave : ∀ e ∈ es, e.LeavesRunnable (s.manager.pidOf q))
    (hdisp : ∃ e ∈ es, e.Dispatches) (hs' : Run.exec step s es = some s')
    (hc : s'.manager.currentProcess = some c) : (s'.manager.pcb c).key ≤ (s.manager.pcb q).key := by
  obtain ⟨hds, hes⟩ := Run.follows_append.1 h
  obtain ⟨s₁, hs₁, hsteady⟩ := Run.exec_of_step (I := fun s => s.manager.Steady)
    (fun s e hi he => steady_step hi he) (steady_init pcb regFrames cr3 wrapper) hds
  obtain rfl : s = s₁ := Option.some.inj (hs.symm.trans hs₁)
  obtain ⟨-, hkey, hb⟩ := bounded_run hsteady hq (hes s hs) hleave hs' (.inl hdisp)
  rw [← hkey]
  exact hb c hc

end

/-- A process of level 3 is created while one of level 15 runs. -/
def createHigher : List Event :=
  [.create { priority := 3 } { process := some 300, pageDirectory := some 400, kernelStack := some 8192 },
    .timer 500 (· - 60)]

/-- Both creations and all timer interrupts can occur. -/
lemma follows_startLowest_createHigher :
    Run.Follows step Regular .zero (startLowest ++ createHigher) := by
  have hstart : Run.Follows step (fun s e => s.Possible e ∧ s.TerminatesCurrent e) .zero startLowest :=
    follows_create_timers (by simp) rfl (by decide)
  obtain ⟨s₂, hexec, hwf⟩ := Run.exec_of_step (I := fun s => WellFormed s.manager)
    (fun s e hi he => wellFormed_step hi he.1 he.2) (wellFormed_processManagerInit ..) hstart
  refine Run.follows_append.2 ⟨?_, fun s hs => ?_⟩
  · refine Run.follows_iff.2 fun ds d s hds hs => ?_
    obtain ⟨hposs, hterm⟩ := Run.follows_iff.1 hstart ds d s hds hs
    refine ⟨hposs, hterm, ?_⟩
    rintro args alloc p rfl hp
    have hmem : Event.create args alloc ∈ startLowest := hds.subset (by simp)
    simp only [startLowest, List.mem_cons, Event.create.injEq, reduceCtorEq, List.not_mem_nil, or_false]
      at hmem
    obtain ⟨-, rfl⟩ := hmem
    obtain rfl := Option.some.inj hp
    decide
  · obtain rfl : s = s₂ := Option.some.inj (hs.symm.trans hexec)
    obtain rfl := Option.some.inj hexec
    refine ⟨⟨⟨rfl, ?_⟩, trivial, ?_⟩, fun s₃ hs₃ => ?_⟩
    · rintro p hp ⟨i, hi⟩
      obtain rfl := Option.some.inj hp
      -- the table has one process, and it is not the new one
      obtain ⟨Q, hinv⟩ := hwf
      obtain rfl : 0 = i := (hinv.pid i 300 hi).2
      exact absurd hi (by decide)
    · rintro args alloc p he hp
      obtain ⟨-, rfl⟩ := Event.create.inj he
      obtain rfl := Option.some.inj hp
      decide
    · obtain rfl := Option.some.inj hs₃
      exact ⟨⟨rfl, trivial, by simp⟩, fun _ _ => trivial⟩

/-- Ten ticks use up the slice of the only process, and it keeps its level. -/
theorem undemoted_of_run_ten_ticks : ∃ s, Run.exec step .zero
      (startLowest ++ List.replicate 10 (.timer 500 (· - 60))) = some s ∧
    s.manager.Live 100 ∧ s.manager.Undemoted := by
  have h : Run.Follows step (fun s e => s.Possible e ∧ s.TerminatesCurrent e) .zero
      (startLowest ++ List.replicate 10 (.timer 500 (· - 60))) :=
    follows_create_timers (by simp [List.replicate]) rfl (by decide)
  exact ⟨_, rfl, ⟨0, rfl⟩, undemoted_of_run _ _ _ _ h rfl⟩

/-- The process of level 15 runs until the one of level 3 is created. -/
theorem key_le_of_run_createHigher : ∃ s s', Run.exec step .zero startLowest = some s ∧
    Run.exec step s createHigher = some s' ∧ s.manager.currentProcess = some 100 ∧
    s'.manager.currentProcess = some 300 ∧ (s'.manager.pcb 300).key ≤ (s.manager.pcb 100).key := by
  refine ⟨_, _, rfl, rfl, rfl, rfl, ?_⟩
  refine key_le_of_run _ _ _ _ follows_startLowest_createHigher rfl ⟨⟨0, rfl⟩, .inr rfl⟩ ?_ ?_ rfl rfl
  · simp [createHigher, Event.LeavesRunnable]
  · exact ⟨.timer 500 (· - 60), by simp [createHigher], trivial⟩

end Jarvis
