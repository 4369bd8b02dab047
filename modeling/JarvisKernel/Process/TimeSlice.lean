import JarvisKernel.Process.Interrupt

set_option relaxedAutoImplicit false
set_option autoImplicit false

/-!
# Time slices and priorities

The tick decrements the slice of the running process and, when it is 0, executes `int $0x20`. The
handler is then re-entered and its tick decrements the slice again, from 0 to `2 ^ 32 - 1`, before
`schedule` looks at it. So the demotion branch of `schedule` is never reached, and the bound on the
slices holds along a run exactly as long as no slice runs out.

## Main definitions

* `Jarvis.ProcessManager.SlicesBounded` — the bounds on priorities and slices.
* `Jarvis.Machine.Expires`, `Jarvis.Machine.Demoted` — a slice runs out; what is to follow.
* `Jarvis.Machine.SlicesCorrect` — bounds and demotions along a run.

## Main results

* `Jarvis.slicesCorrect_iff` — a run is correct exactly when no slice runs out in it.
-/

namespace Jarvis

open ProcessManager

namespace ProcessManager

/-- `base_priority ≤ priority ≤ 15` and `time_slice ≤ 10 * (16 - priority)` for every process. -/
def SlicesBounded (m : ProcessManager) : Prop :=
  ∀ p, m.Live p → (m.pcb p).basePriority ≤ (m.pcb p).priority ∧ (m.pcb p).priority ≤ 15 ∧
    (m.pcb p).timeSlice ≤ 10 * (16 - (m.pcb p).priority)

/-- No process has used up its slice. -/
def SlicesPositive (m : ProcessManager) : Prop := ∀ p, m.Live p → 1 ≤ (m.pcb p).timeSlice

variable {m m' : ProcessManager}

/-- The full slice of a priority level that exists. -/
lemma fullSlice_eq {priority : ℕ} (h : priority ≤ 15) : fullSlice priority = 10 * (16 - priority) := by
  have hmax : maxPriorityLevels = 16 := rfl
  have hbase : timeSliceBase = 10 := rfl
  rw [fullSlice, hmax, hbase, Word32.sub_of_le (by omega) (by omega), Word32.mul]
  omega

/-- Slices are bounded as long as scheduling data stay and no process is added. -/
lemma SlicesBounded.of_sameContext (h : m.SlicesBounded) (hc : SameContext m m')
    (hl : ∀ r, m'.Live r → m.Live r) : m'.SlicesBounded := by
  intro p hp
  rw [hc.basePriority, hc.priority, hc.timeSlice]
  exact h p (hl p hp)

/-- They are positive under the same conditions. -/
lemma SlicesPositive.of_sameContext (h : m.SlicesPositive) (hc : SameContext m m')
    (hl : ∀ r, m'.Live r → m.Live r) : m'.SlicesPositive := by
  intro p hp
  rw [hc.timeSlice]
  exact h p (hl p hp)

/-- A process that still has a slice keeps it, and its priority, when it is preempted. -/
lemma preempted_of_pos {x : Process} (esp : ℕ) (h : 1 ≤ x.timeSlice) :
    (preempted x esp).priority = x.priority ∧ (preempted x esp).basePriority = x.basePriority ∧
      (preempted x esp).timeSlice = x.timeSlice := by
  have hpos : x.timeSlice > 0 := h
  simp only [preempted, if_pos hpos, and_self]

/-- A new process starts with the full slice of its priority level. -/
lemma slices_newProcess (a : CreateArgs) (pid d : ℕ) (k : Ptr) (region : Bool) :
    (m.newProcess a pid d k region).basePriority ≤ (m.newProcess a pid d k region).priority ∧
      (m.newProcess a pid d k region).priority ≤ 15 ∧
      (m.newProcess a pid d k region).timeSlice =
        10 * (16 - (m.newProcess a pid d k region).priority) := by
  have hlt := newProcess_priority_lt (m := m) a pid d k region
  have hmax : maxPriorityLevels = 16 := rfl
  refine ⟨le_rfl, by omega, ?_⟩
  show fullSlice (m.newProcess a pid d k region).priority = _
  exact fullSlice_eq (by omega)

/-- `create_process` keeps the bounds. -/
lemma slices_createProcess (hb : m.SlicesBounded) (hpos : m.SlicesPositive) {a : CreateArgs}
    {r : CreateAlloc} {res : Except CreateError ℕ} (h : m.createProcess a r = some (m', res)) :
    m'.SlicesBounded ∧ m'.SlicesPositive := by
  cases res with
  | error e =>
    obtain ⟨l, rfl, -⟩ := createProcess_error h
    exact ⟨hb.of_sameContext (.of_pcb rfl) fun q hq => hq, hpos.of_sameContext (.of_pcb rfl) fun q hq => hq⟩
  | ok pid =>
    obtain ⟨-, p, d, k, -, hadd, -⟩ := createProcess_ok h
    obtain ⟨hc, hproc⟩ := addProcess_effect hadd
    obtain ⟨h₁, h₂, h₃⟩ := slices_newProcess (m := m) a pid d k r.stackRegion
    set x := m.newProcess a pid d k r.stackRegion
    have hl : ∀ q, m'.Live q → q ≠ p → m.Live q := by
      rintro q ⟨i, hi⟩ hq
      rw [hproc] at hi
      by_cases e : i = x.pid
      · rw [e, Function.update_self] at hi
        exact absurd (Option.some.inj hi).symm hq
      · rw [Function.update_of_ne e] at hi
        exact ⟨i, hi⟩
    refine ⟨fun q hq => ?_, fun q hq => ?_⟩
    · rw [hc.basePriority, hc.priority, hc.timeSlice]
      by_cases e : q = p
      · subst e
        simp only [Function.update_self]
        exact ⟨h₁, h₂, h₃.le⟩
      · simp only [Function.update_of_ne e]
        exact hb q (hl q hq e)
    · rw [hc.timeSlice]
      by_cases e : q = p
      · subst e
        simp only [Function.update_self]
        omega
      · simp only [Function.update_of_ne e]
        exact hpos q (hl q hq e)

end ProcessManager

namespace Machine

variable {s s' : Machine}

/-! ## The property -/

/-- The step is a timer interrupt whose tick brings the slice of the running process to 0. -/
def Expires (s : Machine) (c : Ptr) : Event → Prop
  | .timer _ _ => s.manager.currentProcess = some c ∧ (s.manager.pcb c).timeSlice = 1
  | _ => False

/-- The process went back to the ready queue one priority level lower, with the full slice of that
level; it may have been dispatched again at once. -/
def Demoted (s s' : Machine) (c : Ptr) : Prop :=
  (s'.manager.pcb c).priority = min ((s.manager.pcb c).priority + 1) 15 ∧
    (s'.manager.pcb c).timeSlice = 10 * (16 - (s'.manager.pcb c).priority) ∧
    ((s'.manager.pcb c).state = .ready ∨ (s'.manager.pcb c).state = .running)

/-- Along the run the bounds hold in every state, and a slice that runs out costs a level. -/
structure SlicesCorrect (s₀ : Machine) (es : List Event) : Prop where
  bounded : ∀ ds s, ds <+: es → Run.exec step s₀ ds = some s → s.manager.SlicesBounded
  demoted : ∀ ds d s s' c, ds ++ [d] <+: es → Run.exec step s₀ ds = some s → s.step d = some s' →
    s.Expires c d → Demoted s s' c

/-! ## Steps in which no slice runs out -/

/-- The end of a handler activation keeps the bounds if no slice has run out. -/
lemma Finished.slices {esp : ℕ} (h : Finished s s' esp) (hb : s.manager.SlicesBounded)
    (hpos : s.manager.SlicesPositive) :
    s'.manager.SlicesBounded ∧ s'.manager.SlicesPositive := by
  have hsame : ∀ r, s'.manager.Live r →
      (s'.manager.pcb r).priority = (s.manager.pcb r).priority ∧
      (s'.manager.pcb r).basePriority = (s.manager.pcb r).basePriority ∧
      (s'.manager.pcb r).timeSlice = (s.manager.pcb r).timeSlice := by
    intro r hr
    by_cases hc : s.manager.currentProcess = some r
    · obtain ⟨hp, hbp, ht, -⟩ := h.saved r hc
      obtain ⟨hp', hbp', ht'⟩ := preempted_of_pos esp (hpos r (h.live_of_live r hr))
      exact ⟨hp.trans hp', hbp.trans hbp', ht.trans ht'⟩
    · obtain ⟨hp, hbp, ht, -⟩ := h.kept r hc
      exact ⟨hp, hbp, ht⟩
  refine ⟨fun r hr => ?_, fun r hr => ?_⟩
  · obtain ⟨hp, hbp, ht⟩ := hsame r hr
    rw [hp, hbp, ht]
    exact hb r (h.live_of_live r hr)
  · rw [(hsame r hr).2.2]
    exact hpos r (h.live_of_live r hr)

/-- The first part of a tick in which the slice does not run out. -/
lemma slices_tickHead {m : ProcessManager} (h : WellFormed m) (hb : m.SlicesBounded)
    (hpos : m.SlicesPositive) (hne : ∀ c, m.currentProcess = some c → (m.pcb c).timeSlice ≠ 1) :
    m.processManagerTickHead.2 = false ∧ m.processManagerTickHead.1.SlicesBounded ∧
      m.processManagerTickHead.1.SlicesPositive := by
  obtain ⟨Q, hi⟩ := h
  -- the slice of the running process is in range and at least 2
  have hslice : ∀ c, m.currentProcess = some c →
      Word32.sub (m.pcb c).timeSlice 1 = (m.pcb c).timeSlice - 1 ∧ 2 ≤ (m.pcb c).timeSlice := by
    intro c hc
    have hlive := ((hi.running c).1 hc).1
    have hle := (hb c hlive).2.2
    have hge := hpos c hlive
    have hne' := hne c hc
    exact ⟨Word32.sub_of_le (by omega) hge, by omega⟩
  have hlive : ∀ r, m.processManagerTickHead.1.Live r → m.Live r := by
    rintro r ⟨i, hr⟩
    exact ⟨i, by rw [← processes_tickHead]; exact hr⟩
  refine ⟨?_, fun r hr => ?_, fun r hr => ?_⟩
  · by_contra hraised
    obtain ⟨c, hc, -, hzero⟩ := (processManagerTickHead_raised m).1 (by simpa using hraised)
    obtain ⟨hsub, hge⟩ := hslice c hc
    omega
  · obtain ⟨hp, hbp, -, ht⟩ := processManagerTickHead_effect m r
    obtain ⟨h₁, h₂, h₃⟩ := hb r (hlive r hr)
    rw [hp, hbp, ht]
    refine ⟨h₁, h₂, ?_⟩
    split_ifs with hc
    · rw [(hslice r hc.1).1]
      omega
    · exact h₃
  · obtain ⟨-, -, -, ht⟩ := processManagerTickHead_effect m r
    rw [ht]
    split_ifs with hc
    · obtain ⟨hsub, hge⟩ := hslice r hc.1
      omega
    · exact hpos r (hlive r hr)

/-- A step in which no slice runs out keeps the bounds. -/
lemma slices_step (h : WellFormed s.manager) (hb : s.manager.SlicesBounded)
    (hpos : s.manager.SlicesPositive) {e : Event} (ht : s.TerminatesCurrent e)
    (hne : ∀ c, ¬ s.Expires c e) (hs : s.step e = some s') :
    s'.manager.SlicesBounded ∧ s'.manager.SlicesPositive := by
  have hof : ∀ {m : ProcessManager}, SameContext s.manager m ∧ m.processes = s.manager.processes →
      m.SlicesBounded ∧ m.SlicesPositive := by
    rintro m ⟨hc, hproc⟩
    have hl : ∀ r, m.Live r → s.manager.Live r := by
      rintro r ⟨i, hi⟩
      exact ⟨i, by rw [← hproc]; exact hi⟩
    exact ⟨hb.of_sameContext hc hl, hpos.of_sameContext hc hl⟩
  cases e with
  | timer esp below =>
    obtain ⟨hr, hb', hpos'⟩ := slices_tickHead h hb hpos fun c hc h1 => hne c ⟨hc, h1⟩
    rcases timer_finished h esp below with ⟨-, s₁, he, hf⟩ | ⟨hr', -⟩
    · obtain rfl : s' = s₁ := Option.some.inj (hs.symm.trans he)
      exact hf.slices hb' hpos'
    · rw [hr] at hr'
      simp at hr'
  | resume =>
    unfold step at hs
    cases hm : s.mode with
    | code =>
      rw [hm] at hs
      obtain rfl := Option.some.inj hs
      exact ⟨hb, hpos⟩
    | afterInt esp =>
      rw [hm] at hs
      obtain ⟨s₁, he, hf⟩ := finishTimer_finished h esp
      obtain rfl : s' = s₁ := Option.some.inj (hs.symm.trans he)
      exact hf.slices hb hpos
  | create args alloc =>
    obtain ⟨x, hx, rfl⟩ := Option.map_eq_some_iff.1 hs
    exact slices_createProcess hb hpos hx
  | block pid waitTime esp below =>
    obtain ⟨m, hbl, he, -⟩ := step_block h pid waitTime esp below
    obtain rfl := Option.some.inj (hs.symm.trans he)
    exact hof (blockProcess_effect hbl)
  | unblock pid =>
    obtain ⟨m, hu, rfl⟩ := Option.map_eq_some_iff.1 hs
    exact hof (unblockProcess_effect hu)
  | terminate pid exitCode esp below =>
    obtain ⟨m, hte, he, -⟩ := step_terminate h ht
    obtain rfl := Option.some.inj (hs.symm.trans he)
    exact hof (terminateProcess_effect hte)

/-! ## Steps in which a slice runs out -/

/-- When a slice runs out, the process is left with a slice of `2 ^ 32 - 1`.

**Proof sketch.** The tick leaves 0 and executes `int $0x20`; the nested tick leaves `2 ^ 32 - 1`,
which is not 0, so `schedule` puts the process back at its old priority with that slice. -/
lemma timeSlice_of_expires (h : WellFormed s.manager) {e : Event} {c : Ptr} (hx : s.Expires c e) :
    ∃ s', s.step e = some s' ∧ s'.manager.Live c ∧ (s'.manager.pcb c).timeSlice = 2 ^ 32 - 1 := by
  cases e with
  | timer esp below =>
    obtain ⟨hc, hone⟩ := hx
    obtain ⟨hlive, hrun⟩ : s.manager.Live c ∧ (s.manager.pcb c).state = .running := by
      obtain ⟨Q, hi⟩ := h
      exact ⟨((hi.running c).1 hc).1, ((hi.running c).1 hc).2.2⟩
    have hzero : Word32.sub (s.manager.pcb c).timeSlice 1 = 0 := by
      rw [hone]
      rfl
    have hraised : s.manager.processManagerTickHead.2 = true :=
      (processManagerTickHead_raised _).2 ⟨c, hc, hrun, hzero⟩
    rcases timer_finished h esp below with ⟨hr, -⟩ | ⟨-, s', he, hf⟩
    · rw [hr] at hraised
      simp at hraised
    · set m₁ := s.manager.processManagerTickHead.1 with hm₁
      have hc₁ : m₁.currentProcess = some c := by rw [hm₁, currentProcess_tickHead, hc]
      have hc₂ : m₁.processManagerTickHead.1.currentProcess = some c := by
        rw [currentProcess_tickHead, hc₁]
      have hrun₁ : (m₁.pcb c).state = .running := by rw [hm₁, state_tickHead, hrun]
      have hrun₂ : (m₁.processManagerTickHead.1.pcb c).state = .running := by
        rw [state_tickHead, hrun₁]
      have ht₁ : (m₁.pcb c).timeSlice = 0 := by
        rw [hm₁, (processManagerTickHead_effect _ c).2.2.2, if_pos ⟨hc, hrun⟩, hzero]
      have ht₂ : (m₁.processManagerTickHead.1.pcb c).timeSlice = 2 ^ 32 - 1 := by
        rw [(processManagerTickHead_effect _ c).2.2.2, if_pos ⟨hc₁, hrun₁⟩, ht₁]
        rfl
      have hlive₂ : m₁.processManagerTickHead.1.Live c := by
        obtain ⟨i, hi⟩ := hlive
        exact ⟨i, by rw [processes_tickHead, hm₁, processes_tickHead]; exact hi⟩
      refine ⟨s', he, hf.live c hlive₂ ?_, ?_⟩
      · show (m₁.processManagerTickHead.1.pcb c).state ≠ .terminated
        rw [hrun₂]
        simp
      · rw [(hf.saved c hc₂).2.2.1]
        have hpos : 1 ≤ (m₁.processManagerTickHead.1.pcb c).timeSlice := by omega
        exact (preempted_of_pos _ hpos).2.2.trans ht₂
  | _ => exact absurd hx id

end Machine

open Machine

/-! ## Runs -/

/-- The timer interrupts and calls of a run keep `base_priority ≤ priority ≤ 15` and
`time_slice ≤ 10 * (16 - priority)`, and a process whose slice runs out is demoted with the full slice
of its new level, if and only if no timer interrupt of the run comes when the running process has a
slice of 1. -/
theorem slicesCorrect_iff (pcb : Ptr → Process) (regFrames : ℕ → RegisterState) (cr3 : Option ℕ)
    (wrapper : ℕ) (es : List Event)
    (h : Run.Follows step (fun s e => s.Possible e ∧ s.TerminatesCurrent e)
      (.init pcb regFrames cr3 wrapper) es) :
    SlicesCorrect (.init pcb regFrames cr3 wrapper) es ↔
      Run.Follows step (fun s e => ∀ c, ¬ s.Expires c e) (.init pcb regFrames cr3 wrapper) es := by
  have hinit := wellFormed_processManagerInit pcb regFrames cr3 wrapper
  have hwf : ∀ ds s, ds <+: es → Run.exec step (.init pcb regFrames cr3 wrapper) ds = some s →
      WellFormed s.manager := by
    intro ds s hds hexec
    obtain ⟨s₁, he, hs₁⟩ := Run.exec_of_step (I := fun s => WellFormed s.manager)
      (fun s e hi he => wellFormed_step hi he.1 he.2) hinit (h.of_isPrefix hds)
    obtain rfl : s = s₁ := Option.some.inj (hexec.symm.trans he)
    exact hs₁
  constructor
  · intro hcorrect
    refine Run.follows_iff.2 fun ds d s hds hexec c hx => ?_
    have hs := hwf ds s ((List.prefix_append ds [d]).trans hds) hexec
    obtain ⟨s', hstep, hlive, hslice⟩ := timeSlice_of_expires hs hx
    have hb := hcorrect.bounded (ds ++ [d]) s' hds ((Run.exec_concat hexec).trans hstep) c hlive
    omega
  · intro hok
    refine ⟨fun ds s hds hexec => ?_, fun ds d s s' c hds hexec _ hx => ?_⟩
    · have hnone : ∀ p, ¬ (Machine.init pcb regFrames cr3 wrapper).manager.Live p := by
        rintro p ⟨i, hi⟩
        simp [Machine.init, processManagerInit] at hi
      obtain ⟨s₁, he, -, hb, -⟩ := Run.exec_of_step
        (I := fun s => WellFormed s.manager ∧ s.manager.SlicesBounded ∧ s.manager.SlicesPositive)
        (fun s e hi he => by
          obtain ⟨s', hs', hw⟩ := wellFormed_step hi.1 he.1.1 he.1.2
          exact ⟨s', hs', hw, slices_step hi.1 hi.2.1 hi.2.2 he.1.2 he.2 hs'⟩)
        ⟨hinit, fun p hp => absurd hp (hnone p), fun p hp => absurd hp (hnone p)⟩
        ((h.and hok).of_isPrefix hds)
      obtain rfl : s = s₁ := Option.some.inj (hexec.symm.trans he)
      exact hb
    · exact absurd hx (Run.follows_iff.1 hok ds d s hds hexec c)

/-- A process of the lowest priority level is created and dispatched. -/
def startLowest : List Event :=
  [.create { priority := 15 } { process := some 100, pageDirectory := some 200, kernelStack := some 4096 },
    .timer 500 (· - 60)]

/-- The runs from `Machine.zero` that begin with a creation and go on with timer interrupts. -/
lemma follows_create_timers {a : CreateArgs} {r : CreateAlloc} {es : List Event} {s₁ : Machine}
    (hes : ∀ e ∈ es, ∃ esp below, e = .timer esp below)
    (hs₁ : step .zero (.create a r) = some s₁)
    (h : Run.Follows step (fun s _ => s.mode = .code) s₁ es) :
    Run.Follows step (fun s e => s.Possible e ∧ s.TerminatesCurrent e) .zero (.create a r :: es) := by
  refine ⟨⟨⟨rfl, ?_⟩, trivial⟩, fun s hs => ?_⟩
  · rintro p - ⟨i, hi⟩
    simp [Machine.zero, Machine.init, processManagerInit] at hi
  · obtain rfl := Option.some.inj (hs₁.symm.trans hs)
    refine Run.follows_iff.2 fun ds d s hds hexec => ?_
    obtain ⟨esp, below, rfl⟩ := hes d (hds.subset (by simp))
    exact ⟨Run.follows_iff.1 h ds _ s hds hexec, trivial⟩

/-- One tick after the dispatch the bounds hold. -/
theorem slicesCorrect_one_tick : SlicesCorrect .zero (startLowest ++ [.timer 500 (· - 60)]) := by
  refine (slicesCorrect_iff _ _ _ _ _ ?_).2 ?_
  · exact follows_create_timers (by simp) rfl (by decide)
  · refine ⟨fun c hc => hc, fun s₁ h₁ => ?_⟩
    obtain rfl := Option.some.inj h₁
    have hidle : ∀ c, (none : Option Ptr) ≠ some c := by simp
    refine ⟨fun c hc => hidle c hc.1, fun s₂ h₂ => ?_⟩
    obtain rfl := Option.some.inj h₂
    refine ⟨fun c hc => ?_, fun _ _ => trivial⟩
    obtain rfl := Option.some.inj hc.1
    exact absurd hc.2 (by decide)

/-- Ten ticks after the dispatch the slice is `2 ^ 32 - 1`. -/
theorem not_slicesCorrect_ten_ticks :
    ∃ es, Run.Follows step (fun s e => s.Possible e ∧ s.TerminatesCurrent e) .zero es ∧
      ¬ SlicesCorrect .zero es := by
  refine ⟨startLowest ++ List.replicate 10 (.timer 500 (· - 60)), ?_, fun h => ?_⟩
  · exact follows_create_timers (by simp [List.replicate]) rfl (by decide)
  · obtain ⟨s, hexec, hslice, hprio, hlive⟩ : ∃ s, Run.exec step .zero
        (startLowest ++ List.replicate 10 (.timer 500 (· - 60))) = some s ∧
        (s.manager.pcb 100).timeSlice = 2 ^ 32 - 1 ∧ (s.manager.pcb 100).priority = 15 ∧
        s.manager.Live 100 := by
      refine ⟨_, rfl, ?_, ?_, 0, ?_⟩
      · rfl
      · rfl
      · rfl
    have hb := h.bounded _ s List.prefix_rfl hexec 100 hlive
    omega

end Jarvis
