import JarvisKernel.Process.Queue

set_option relaxedAutoImplicit false
set_option autoImplicit false

/-!
# What the operations do to control blocks

The effect of each operation on the process table and on the scheduling data of the control blocks
(priorities, time slice, saved context), whatever the queues look like: the queue functions change
links only, so none of this needs the queue invariant.

## Main definitions

* `Jarvis.ProcessManager.Moved` — processes were moved between the queues and the processor.
* `Jarvis.ProcessManager.SameContext` — the scheduling data of all control blocks are the same.
* `Jarvis.ProcessManager.preemptCurrent` — the manager with the running process saved.

## Main results

* `Jarvis.ProcessManager.schedule_effect` — `schedule` saves the running process and changes no
  other scheduling data.
* `Jarvis.ProcessManager.createProcess_ok`, `createProcess_error` — the outcomes of
  `create_process`.
* `Jarvis.ProcessManager.blockProcess_effect`, `unblockProcess_effect`, `terminateProcess_effect`,
  `processManagerTickTail_effect` — the others change none.
-/

namespace Jarvis.ProcessManager

variable {m m' m'' : ProcessManager} {p : Ptr} {q : QueueId} {pid : ℕ} {α : Type*} {g : Process → α}

/-! ## Views of control blocks -/

/-- A view of control blocks that reads neither their link nor their state and what goes with it. -/
def IsStatic (g : Process → α) : Prop :=
  ∀ x y c t n, g { x with state := y, exitCode := c, wakeupTime := t, next := n } = g x

/-- The view is the same for all control blocks. -/
def Keeps (g : Process → α) (m m' : ProcessManager) : Prop := ∀ r, g (m'.pcb r) = g (m.pcb r)

/-- What two steps keep, both of them one after the other keep. -/
lemma Keeps.trans (h : Keeps g m m') (h' : Keeps g m' m'') : Keeps g m m'' :=
  fun r => (h' r).trans (h r)

/-- A step that changes no control block keeps every field. -/
lemma Keeps.of_pcb (h : m'.pcb = m.pcb) : Keeps g m m' := fun r => by rw [h]

/-- A static view does not read links. -/
lemma SameData.keeps (h : SameData m m') (hg : IsStatic g) : Keeps g m m' := by
  intro r
  rw [h.pcb r]
  exact hg (m.pcb r) _ _ _ _

/-- An assignment to fields that the view does not read. -/
lemma keeps_modify (p : Ptr) {f : Process → Process} (hf : ∀ x, g (f x) = g x) :
    Keeps g m (m.modify p f) := by
  intro r
  by_cases e : r = p
  · simp [modify, e, hf]
  · simp [modify, e]

/-- Processes are moved between the queues and the processor: of a control block only the link, the state
and what goes with it change, and the table, the clock and the record of freed blocks stay. The state and
the wake-up time change only for processes with `P`. -/
structure Moved (P : Ptr → Prop) (m m' : ProcessManager) : Prop where
  pcb : ∀ r, ∃ y c t n, m'.pcb r = { m.pcb r with state := y, exitCode := c, wakeupTime := t, next := n }
  still : ∀ r, ¬ P r →
    (m'.pcb r).state = (m.pcb r).state ∧ (m'.pcb r).wakeupTime = (m.pcb r).wakeupTime
  processes : m'.processes = m.processes
  systemTicks : m'.systemTicks = m.systemTicks
  freed : m'.freed = m.freed

variable {P P' : Ptr → Prop}

/-- Fields of the manager that are not control blocks may change. -/
lemma Moved.of_pcb (h : m'.pcb = m.pcb) (hproc : m'.processes = m.processes)
    (hticks : m'.systemTicks = m.systemTicks) (hfreed : m'.freed = m.freed) : Moved P m m' := by
  refine ⟨fun r => ?_, fun r _ => by rw [h]; exact ⟨rfl, rfl⟩, hproc, hticks, hfreed⟩
  exact ⟨(m.pcb r).state, (m.pcb r).exitCode, (m.pcb r).wakeupTime, (m.pcb r).next, by rw [h]⟩

/-- A step that changes nothing moves nobody. -/
lemma Moved.refl (m : ProcessManager) : Moved P m m := .of_pcb rfl rfl rfl rfl

/-- Processes that are moved in two steps. -/
lemma Moved.trans (h : Moved P m m') (h' : Moved P m' m'') : Moved P m m'' := by
  refine ⟨fun r => ?_, fun r hr => ?_, h'.processes.trans h.processes,
    h'.systemTicks.trans h.systemTicks, h'.freed.trans h.freed⟩
  · obtain ⟨y, c, t, n, hr⟩ := h.pcb r
    obtain ⟨y', c', t', n', hr'⟩ := h'.pcb r
    exact ⟨y', c', t', n', by rw [hr', hr]⟩
  · obtain ⟨hs, hw⟩ := h.still r hr
    obtain ⟨hs', hw'⟩ := h'.still r hr
    exact ⟨hs'.trans hs, hw'.trans hw⟩

/-- A larger set of processes may be moved. -/
lemma Moved.mono (h : Moved P m m') (hP : ∀ r, P r → P' r) : Moved P' m m' :=
  ⟨h.pcb, fun r hr => h.still r fun hp => hr (hP r hp), h.processes, h.systemTicks, h.freed⟩

/-- Relinking queues moves nobody. -/
lemma SameData.moved (h : SameData m m') : Moved P m m' := by
  refine ⟨fun r => ?_, fun r _ => ?_, h.processes, h.systemTicks, h.freed⟩
  · exact ⟨(m.pcb r).state, (m.pcb r).exitCode, (m.pcb r).wakeupTime, m'.next r, h.pcb r⟩
  · rw [h.pcb r]
    exact ⟨rfl, rfl⟩

/-- The assignments to a control block that move a process. -/
lemma moved_modify {p : Ptr} (hp : P p) {f : Process → Process}
    (hf : ∀ x, ∃ y c t n, f x = { x with state := y, exitCode := c, wakeupTime := t, next := n }) :
    Moved P m (m.modify p f) := by
  have hne : ∀ r, r ≠ p → (m.modify p f).pcb r = m.pcb r := fun r e => Function.update_of_ne e ..
  refine ⟨fun r => ?_, fun r hr => ?_, rfl, rfl, rfl⟩
  · by_cases e : r = p
    · obtain ⟨y, c, t, n, hx⟩ := hf (m.pcb r)
      refine ⟨y, c, t, n, ?_⟩
      rw [← hx, e]
      exact Function.update_self ..
    · obtain ⟨y, c, t, n, hr⟩ := (Moved.refl (P := P) m).pcb r
      exact ⟨y, c, t, n, (hne r e).trans hr⟩
  · have e : r ≠ p := fun e => hr (e ▸ hp)
    rw [hne r e]
    exact ⟨rfl, rfl⟩

/-- A move changes the state, the link and the queue of a process, so that the static views stay. -/
lemma Moved.keeps (h : Moved P m m') (hg : IsStatic g) : Keeps g m m' := by
  intro r
  obtain ⟨y, c, t, n, hr⟩ := h.pcb r
  rw [hr]
  exact hg _ _ _ _ _

/-! ## Scheduling data -/

/-- The scheduling data of a control block. -/
def context (x : Process) : ℕ × ℕ × ℕ × ℕ := (x.priority, x.basePriority, x.timeSlice, x.regs)

/-- The scheduling data are a static view. -/
lemma isStatic_context : IsStatic context := fun _ _ _ _ _ => rfl

/-- The scheduling data of all control blocks are the same. -/
structure SameContext (m m' : ProcessManager) : Prop where
  priority : ∀ r, (m'.pcb r).priority = (m.pcb r).priority
  basePriority : ∀ r, (m'.pcb r).basePriority = (m.pcb r).basePriority
  timeSlice : ∀ r, (m'.pcb r).timeSlice = (m.pcb r).timeSlice
  regs : ∀ r, (m'.pcb r).regs = (m.pcb r).regs

/-- Scheduling data that two steps keep. -/
lemma SameContext.trans (h : SameContext m m') (h' : SameContext m' m'') : SameContext m m'' :=
  ⟨fun r => (h'.priority r).trans (h.priority r),
    fun r => (h'.basePriority r).trans (h.basePriority r),
    fun r => (h'.timeSlice r).trans (h.timeSlice r), fun r => (h'.regs r).trans (h.regs r)⟩

/-- The view of the scheduling data is the same. -/
lemma SameContext.of_keeps (h : Keeps context m m') : SameContext m m' := by
  refine ⟨fun r => ?_, fun r => ?_, fun r => ?_, fun r => ?_⟩
  all_goals
    have hr := h r
    simp only [context, Prod.mk.injEq] at hr
  · exact hr.1
  · exact hr.2.1
  · exact hr.2.2.1
  · exact hr.2.2.2

/-- Equal control blocks have equal scheduling data. -/
lemma SameContext.of_pcb (h : m'.pcb = m.pcb) : SameContext m m' :=
  ⟨fun r => by rw [h], fun r => by rw [h], fun r => by rw [h], fun r => by rw [h]⟩

/-! ## Blocking, unblocking, terminating -/

/-- `block_process` moves a process that is ready or current. -/
lemma blockProcess_moved {waitTime : ℕ} {x : ProcessManager × Bool}
    (h : m.blockProcess pid waitTime = some x) :
    Moved (fun r => m.processes pid = some r ∧
      ((m.pcb r).state = .ready ∨ m.currentProcess = some r)) m x.1 := by
  unfold blockProcess at h
  split_ifs at h with hpid
  · obtain rfl := Option.some.inj h
    exact .refl m
  cases hp : m.processes pid with
  | none =>
    rw [hp] at h
    obtain rfl := Option.some.inj h
    exact .refl m
  | some p =>
    simp only [hp] at h
    by_cases hskip : (m.pcb p).state ≠ .ready ∧ m.currentProcess ≠ some p
    · rw [if_pos hskip] at h
      obtain rfl := Option.some.inj h
      exact .refl m
    rw [if_neg hskip] at h
    simp only [Option.bind_eq_bind, Option.bind_eq_some_iff] at h
    obtain ⟨m₁, h₁, m₃, h₃, hx⟩ := h
    obtain rfl := Option.some.inj hx
    rw [not_and_or, not_not, not_not] at hskip
    have hs₁ : ∀ {P : Ptr → Prop}, Moved P m m₁ := by
      intro P
      split_ifs at h₁ with hready hcur
      · obtain ⟨y, hy, rfl⟩ := Option.map_eq_some_iff.1 h₁
        exact (removeProcessFromQueue_sameData hy).moved
      · obtain rfl := Option.some.inj h₁
        exact .of_pcb rfl rfl rfl rfl
      · obtain rfl := Option.some.inj h₁
        exact .refl m
    exact hs₁.trans ((moved_modify ⟨rfl, hskip⟩ fun x => ⟨.blocked, x.exitCode, _, x.next, rfl⟩).trans
      (enqueueProcess_sameData h₃).moved)

/-- It keeps the static views and the table. -/
lemma blockProcess_keeps (hg : IsStatic g) {waitTime : ℕ} {x : ProcessManager × Bool}
    (h : m.blockProcess pid waitTime = some x) :
    Keeps g m x.1 ∧ x.1.processes = m.processes :=
  ⟨(blockProcess_moved h).keeps hg, (blockProcess_moved h).processes⟩

/-- It keeps the scheduling data and the table. -/
lemma blockProcess_effect {waitTime : ℕ} {x : ProcessManager × Bool}
    (h : m.blockProcess pid waitTime = some x) :
    SameContext m x.1 ∧ x.1.processes = m.processes :=
  ⟨.of_keeps (blockProcess_keeps isStatic_context h).1, (blockProcess_keeps isStatic_context h).2⟩

/-- `unblock_process` does nothing, or it moves a blocked process. -/
lemma unblockProcess_cases (h : m.unblockProcess pid = some m') :
    m' = m ∨ ∃ p y, m.processes pid = some p ∧ (m.pcb p).state = .blocked ∧
      m.removeProcessFromQueue .blocked pid = some y ∧
      (y.1.modify p fun x => { x with state := .ready }).enqueueProcess
        (.ready ((y.1.modify p fun x => { x with state := .ready }).pcb p).priority) p = some m' := by
  unfold unblockProcess at h
  split_ifs at h with hpid
  · exact .inl (Option.some.inj h).symm
  cases hp : m.processes pid with
  | none =>
    rw [hp] at h
    exact .inl (Option.some.inj h).symm
  | some p =>
    simp only [hp] at h
    by_cases hskip : (m.pcb p).state ≠ .blocked
    · rw [if_pos hskip] at h
      exact .inl (Option.some.inj h).symm
    rw [if_neg hskip] at h
    simp only [Option.bind_eq_bind, Option.bind_eq_some_iff] at h
    obtain ⟨y, h₁, h₂⟩ := h
    exact .inr ⟨p, y, rfl, not_not.1 hskip, h₁, h₂⟩

/-- `unblock_process` moves a blocked process. -/
lemma unblockProcess_moved (h : m.unblockProcess pid = some m') :
    Moved (fun r => m.processes pid = some r ∧ (m.pcb r).state = .blocked) m m' := by
  rcases unblockProcess_cases h with rfl | ⟨p, y, hp, hblocked, h₁, h₂⟩
  · exact .refl m'
  · exact (removeProcessFromQueue_sameData h₁).moved.trans
      ((moved_modify ⟨hp, hblocked⟩ fun x => ⟨.ready, x.exitCode, x.wakeupTime, x.next, rfl⟩).trans
        (enqueueProcess_sameData h₂).moved)

/-- It keeps the static views, the table and the time. -/
lemma unblockProcess_keeps (hg : IsStatic g) (h : m.unblockProcess pid = some m') :
    Keeps g m m' ∧ m'.processes = m.processes ∧ m'.systemTicks = m.systemTicks :=
  ⟨(unblockProcess_moved h).keeps hg, (unblockProcess_moved h).processes,
    (unblockProcess_moved h).systemTicks⟩

/-- It keeps the scheduling data and the table. -/
lemma unblockProcess_effect (h : m.unblockProcess pid = some m') :
    SameContext m m' ∧ m'.processes = m.processes :=
  ⟨.of_keeps (unblockProcess_keeps isStatic_context h).1,
    (unblockProcess_keeps isStatic_context h).2.1⟩

/-- It does not change who runs. -/
lemma currentProcess_unblockProcess (h : m.unblockProcess pid = some m') :
    m'.currentProcess = m.currentProcess := by
  rcases unblockProcess_cases h with rfl | ⟨p, y, -, -, h₁, h₂⟩
  · rfl
  · rw [(enqueueProcess_sameData h₂).currentProcess]
    exact (removeProcessFromQueue_sameData h₁).currentProcess

/-- `terminate_process` moves the process with the given PID. -/
lemma terminateProcess_moved {exitCode : ℤ} {x : ProcessManager × Bool}
    (h : m.terminateProcess pid exitCode = some x) :
    Moved (fun r => m.processes pid = some r) m x.1 := by
  unfold terminateProcess at h
  split_ifs at h with hpid
  · obtain rfl := Option.some.inj h
    exact .refl m
  cases hp : m.processes pid with
  | none =>
    rw [hp] at h
    obtain rfl := Option.some.inj h
    exact .refl m
  | some p =>
    simp only [hp, Option.bind_eq_bind, Option.bind_eq_some_iff] at h
    obtain ⟨m₂, h₂, m₃, h₃, hx⟩ := h
    obtain rfl := Option.some.inj hx
    set m₁ := m.modify p fun x => { x with state := .terminated, exitCode := exitCode } with hm₁
    have hs₁ : Moved (fun r => some p = some r) m m₁ :=
      moved_modify (P := fun r => some p = some r) rfl fun x => ⟨.terminated, exitCode, x.wakeupTime, x.next, rfl⟩
    have hs₂ : Moved (fun r => some p = some r) m₁ m₂ := by
      split_ifs at h₂ with hready hblocked hcur
      · obtain ⟨y, hy, rfl⟩ := Option.map_eq_some_iff.1 h₂
        exact (removeProcessFromQueue_sameData hy).moved
      · obtain ⟨y, hy, rfl⟩ := Option.map_eq_some_iff.1 h₂
        exact (removeProcessFromQueue_sameData hy).moved
      · obtain rfl := Option.some.inj h₂
        exact .of_pcb rfl rfl rfl rfl
      · obtain rfl := Option.some.inj h₂
        exact .refl m₁
    exact hs₁.trans (hs₂.trans (enqueueProcess_sameData h₃).moved)

/-- It keeps the static views and the table. -/
lemma terminateProcess_keeps (hg : IsStatic g) {exitCode : ℤ} {x : ProcessManager × Bool}
    (h : m.terminateProcess pid exitCode = some x) :
    Keeps g m x.1 ∧ x.1.processes = m.processes :=
  ⟨(terminateProcess_moved h).keeps hg, (terminateProcess_moved h).processes⟩

/-- It keeps the scheduling data and the table. -/
lemma terminateProcess_effect {exitCode : ℤ} {x : ProcessManager × Bool}
    (h : m.terminateProcess pid exitCode = some x) :
    SameContext m x.1 ∧ x.1.processes = m.processes :=
  ⟨.of_keeps (terminateProcess_keeps isStatic_context h).1,
    (terminateProcess_keeps isStatic_context h).2⟩

/-! ## Creation -/

/-- The bitmap of PIDs is no control block. -/
@[simp] lemma pcb_setPidInUse (inUse : Bool) : (m.setPidInUse pid inUse).pcb = m.pcb := by
  unfold setPidInUse
  split_ifs <;> rfl

/-- Nor is it the table. -/
@[simp] lemma processes_setPidInUse (inUse : Bool) :
    (m.setPidInUse pid inUse).processes = m.processes := by
  unfold setPidInUse
  split_ifs <;> rfl

/-- Nothing is freed with a PID. -/
@[simp] lemma freed_setPidInUse (inUse : Bool) : (m.setPidInUse pid inUse).freed = m.freed := by
  unfold setPidInUse
  split_ifs <;> rfl

/-- Nor are processes counted there. -/
@[simp] lemma activeProcesses_setPidInUse (inUse : Bool) :
    (m.setPidInUse pid inUse).activeProcesses = m.activeProcesses := by
  unfold setPidInUse
  split_ifs <;> rfl

/-- The time does not depend on the PIDs. -/
@[simp] lemma systemTicks_setPidInUse (inUse : Bool) :
    (m.setPidInUse pid inUse).systemTicks = m.systemTicks := by
  unfold setPidInUse
  split_ifs <;> rfl

/-- Nor does the current process. -/
@[simp] lemma currentProcess_setPidInUse (inUse : Bool) :
    (m.setPidInUse pid inUse).currentProcess = m.currentProcess := by
  unfold setPidInUse
  split_ifs <;> rfl

/-- The new process is entered in the table under its PID, and only its control block changes. -/
lemma addProcess_keeps (hg : IsStatic g) {x : Process} {frame : RegisterState}
    (h : m.addProcess p x frame = some m') :
    Keeps g { m with pcb := Function.update m.pcb p x } m' ∧
      m'.processes = Function.update m.processes x.pid (some p) := by
  unfold addProcess at h
  have hs := enqueueProcess_sameData h
  exact ⟨Keeps.trans (.of_pcb (by simp)) (hs.keeps hg), by rw [hs.processes]; simp⟩

/-- The new control block is written and put in the table; the other ones stay. -/
lemma addProcess_effect {x : Process} {frame : RegisterState}
    (h : m.addProcess p x frame = some m') :
    SameContext { m with pcb := Function.update m.pcb p x } m' ∧
      m'.processes = Function.update m.processes x.pid (some p) :=
  ⟨.of_keeps (addProcess_keeps isStatic_context h).1, (addProcess_keeps isStatic_context h).2⟩

/-- A new process does not run yet. -/
lemma currentProcess_addProcess {x : Process} {frame : RegisterState}
    (h : m.addProcess p x frame = some m') : m'.currentProcess = m.currentProcess := by
  unfold addProcess at h
  rw [(enqueueProcess_sameData h).currentProcess]
  simp

/-- `add_process` frees nothing. -/
lemma freed_addProcess {x : Process} {frame : RegisterState}
    (h : m.addProcess p x frame = some m') : m'.freed = m.freed := by
  unfold addProcess at h
  rw [(enqueueProcess_sameData h).freed]
  simp

/-- It does not change the time. -/
lemma systemTicks_addProcess {x : Process} {frame : RegisterState}
    (h : m.addProcess p x frame = some m') : m'.systemTicks = m.systemTicks := by
  unfold addProcess at h
  rw [(enqueueProcess_sameData h).systemTicks]
  simp

/-- The other control blocks keep all but their link. -/
lemma pcb_addProcess {x : Process} {frame : RegisterState} (h : m.addProcess p x frame = some m')
    {r : Ptr} (hr : r ≠ p) : m'.pcb r = { m.pcb r with next := m'.next r } := by
  unfold addProcess at h
  have hblock := (enqueueProcess_sameData h).pcb r
  simp only [pcb_setPidInUse, Function.update_of_ne hr] at hblock
  exact hblock

/-- A successful `create_process` got all its resources, and adds one process under a free PID. -/
lemma createProcess_ok {a : CreateArgs} {r : CreateAlloc}
    (h : m.createProcess a r = some (m', .ok pid)) :
    m.findFreePid = some pid ∧ ∃ p d k, r.process = some p ∧
      m.addProcess p (m.newProcess a pid d k r.stackRegion)
        (m.newFrame a (m.newProcess a pid d k r.stackRegion).regs) = some m' ∧
      r.pageDirectory = some d ∧ r.kernelStack = some k ∧
      (a.privilege = .userMode → r.userStack = true) := by
  unfold createProcess at h
  by_cases hentry : a.entry = 0
  · simp [hentry] at h
  rw [if_neg hentry] at h
  cases hpid : m.findFreePid with
  | none => simp [hpid] at h
  | some i =>
    cases hp : r.process with
    | none => simp [hpid, hp] at h
    | some p =>
      cases hd : r.pageDirectory with
      | none => simp [hpid, hp, hd] at h
      | some d =>
        cases hk : r.kernelStack with
        | none => simp [hpid, hp, hd, hk] at h
        | some k =>
          simp only [hpid, hp, hd, hk] at h
          by_cases hu : a.privilege = .userMode ∧ ¬ r.userStack
          · rw [if_pos hu] at h
            simp at h
          · rw [if_neg hu] at h
            obtain ⟨m₁, hadd, he⟩ := Option.bind_eq_some_iff.1 h
            obtain ⟨rfl, he⟩ := Prod.ext_iff.1 (Option.some.inj he)
            obtain rfl := Except.ok.inj he
            refine ⟨rfl, p, d, k, rfl, hadd, rfl, rfl, fun huser => ?_⟩
            by_contra hstack
            exact hu ⟨huser, hstack⟩

/-- A failed `create_process` changes nothing, and frees only blocks that it was given; it fails for lack of a
PID only if none is free. -/
lemma createProcess_error {a : CreateArgs} {r : CreateAlloc} {e : CreateError}
    (h : m.createProcess a r = some (m', .error e)) :
    ∃ l, m' = { m with freed := m.freed ++ l } ∧
      (∀ b ∈ l, r.process = some b ∨ r.kernelStack = some b) ∧
      (e = .noPid → m.findFreePid = none) := by
  unfold createProcess at h
  by_cases hentry : a.entry = 0
  · rw [if_pos hentry] at h
    obtain ⟨rfl, he⟩ := Prod.ext_iff.1 (Option.some.inj h)
    obtain rfl := Except.error.inj he
    exact ⟨[], by simp⟩
  rw [if_neg hentry] at h
  cases hpid : m.findFreePid with
  | none =>
    rw [hpid] at h
    obtain ⟨rfl, he⟩ := Prod.ext_iff.1 (Option.some.inj h)
    exact ⟨[], by simp⟩
  | some i =>
    have hclose : ∀ {e₁ : CreateError} (l : List Ptr),
        (some ({ m with freed := m.freed ++ l }, Except.error e₁) :
          Option (ProcessManager × Except CreateError ℕ)) = some (m', .error e) → e₁ ≠ .noPid →
        (∀ b ∈ l, r.process = some b ∨ r.kernelStack = some b) →
        ∃ l, m' = { m with freed := m.freed ++ l } ∧
          (∀ b ∈ l, r.process = some b ∨ r.kernelStack = some b) ∧
          (e = .noPid → (some i : Option ℕ) = none) := by
      intro e₁ l heq hne hl
      obtain ⟨rfl, he⟩ := Prod.ext_iff.1 (Option.some.inj heq)
      obtain rfl := Except.error.inj he
      exact ⟨l, rfl, hl, fun e => absurd e hne⟩
    cases hp : r.process with
    | none =>
      simp only [hpid, hp] at h
      exact hp ▸ hclose [] (by rw [List.append_nil]; exact h) (by simp) (by simp)
    | some p =>
      cases hd : r.pageDirectory with
      | none =>
        simp only [hpid, hp, hd] at h
        exact hp ▸ hclose [p] h (by simp) (by simp [hp])
      | some d =>
        cases hk : r.kernelStack with
        | none =>
          simp only [hpid, hp, hd, hk] at h
          exact hp ▸ hk ▸ hclose [p] h (by simp) (by simp [hp])
        | some k =>
          simp only [hpid, hp, hd, hk] at h
          by_cases hu : a.privilege = .userMode ∧ ¬ r.userStack
          · rw [if_pos hu] at h
            have hfreed : ((m.free k).free p) = { m with freed := m.freed ++ [k, p] } := by
              simp [free]
            rw [hfreed] at h
            exact hp ▸ hk ▸ hclose [k, p] h (by simp) (by simp [hp, hk])
          · rw [if_neg hu] at h
            obtain ⟨m₁, -, he⟩ := Option.bind_eq_some_iff.1 h
            exact absurd (Prod.ext_iff.1 (Option.some.inj he)).2 (by simp)

/-- `create_process` does not fail if it gets all its resources. -/
lemma createProcess_ne_error {a : CreateArgs} {r : CreateAlloc} {e : CreateError}
    (hentry : a.entry ≠ 0) (hpid : m.findFreePid ≠ none) (hp : r.process ≠ none)
    (hd : r.pageDirectory ≠ none) (hk : r.kernelStack ≠ none) (hu : r.userStack = true) :
    m.createProcess a r ≠ some (m', .error e) := by
  obtain ⟨i, hi⟩ := Option.ne_none_iff_exists'.1 hpid
  obtain ⟨p, hp⟩ := Option.ne_none_iff_exists'.1 hp
  obtain ⟨d, hd⟩ := Option.ne_none_iff_exists'.1 hd
  obtain ⟨k, hk⟩ := Option.ne_none_iff_exists'.1 hk
  intro h
  rw [createProcess, if_neg hentry] at h
  simp only [hi, hp, hd, hk] at h
  rw [if_neg (by simp [hu])] at h
  obtain ⟨m₁, -, he⟩ := Option.bind_eq_some_iff.1 h
  exact absurd (Prod.ext_iff.1 (Option.some.inj he)).2 (by simp)

/-! ## The timer tick -/

/-- The first part of the tick charges the running process one tick. -/
lemma processManagerTickHead_effect (m : ProcessManager) (r : Ptr) :
    (m.processManagerTickHead.1.pcb r).priority = (m.pcb r).priority ∧
      (m.processManagerTickHead.1.pcb r).basePriority = (m.pcb r).basePriority ∧
      (m.processManagerTickHead.1.pcb r).regs = (m.pcb r).regs ∧
      (m.processManagerTickHead.1.pcb r).timeSlice =
        if m.currentProcess = some r ∧ (m.pcb r).state = .running then
          Word32.sub (m.pcb r).timeSlice 1
        else (m.pcb r).timeSlice := by
  unfold processManagerTickHead
  cases hc : m.currentProcess with
  | none => simp
  | some c =>
    by_cases hrun : (m.pcb c).state = .running
    · by_cases e : r = c
      · subst e
        simp [modify, hrun]
      · have e' : c ≠ r := fun h => e h.symm
        simp [modify, hrun, e, e']
    · by_cases e : r = c
      · subst e
        simp [hrun]
      · have e' : c ≠ r := fun h => e h.symm
        simp [hrun, e']

/-- With a free processor the first part of the tick only counts. -/
lemma tickHead_of_free (h : m.currentProcess = none) :
    m.processManagerTickHead = ({ m with systemTicks := Word32.add m.systemTicks 1 }, false) := by
  unfold processManagerTickHead
  dsimp only
  split
  · rfl
  · rename_i c hc
    rw [h] at hc
    cases hc

/-- The first part of a tick does not change who runs. -/
lemma currentProcess_tickHead (m : ProcessManager) :
    m.processManagerTickHead.1.currentProcess = m.currentProcess := by
  unfold processManagerTickHead
  cases hc : m.currentProcess with
  | none => simp
  | some c => by_cases hrun : (m.pcb c).state = .running <;> simp [modify, hrun]

/-- The `int $0x20` of the tick is executed when the running process has used up its slice. -/
lemma processManagerTickHead_raised (m : ProcessManager) :
    m.processManagerTickHead.2 = true ↔
      ∃ c, m.currentProcess = some c ∧ (m.pcb c).state = .running ∧
        Word32.sub (m.pcb c).timeSlice 1 = 0 := by
  unfold processManagerTickHead
  cases hc : m.currentProcess with
  | none => simp
  | some c => by_cases hrun : (m.pcb c).state = .running <;> simp [modify, hrun]

/-- It counts the tick. -/
lemma systemTicks_tickHead (m : ProcessManager) :
    m.processManagerTickHead.1.systemTicks = Word32.add m.systemTicks 1 := by
  unfold processManagerTickHead
  cases m.currentProcess with
  | none => rfl
  | some c =>
    dsimp only
    split_ifs <;> rfl

/-- It keeps the table. -/
lemma processes_tickHead (m : ProcessManager) :
    m.processManagerTickHead.1.processes = m.processes := by
  simp only [processManagerTickHead]
  split
  · rfl
  · split_ifs <;> rfl

/-- It frees nothing. -/
lemma freed_tickHead (m : ProcessManager) : m.processManagerTickHead.1.freed = m.freed := by
  simp only [processManagerTickHead]
  split
  · rfl
  · split_ifs <;> rfl

/-- It keeps the number of processes. -/
lemma activeProcesses_tickHead (m : ProcessManager) :
    m.processManagerTickHead.1.activeProcesses = m.activeProcesses := by
  simp only [processManagerTickHead]
  split
  · rfl
  · split_ifs <;> rfl

/-- The first part of the tick writes the time slice and the runtime of the running process only. -/
lemma keeps_tickHead (hg : ∀ x ts rt, g { x with timeSlice := ts, totalRuntime := rt } = g x)
    (m : ProcessManager) : Keeps g m m.processManagerTickHead.1 := by
  unfold processManagerTickHead
  cases m.currentProcess with
  | none => exact .of_pcb rfl
  | some c =>
    dsimp only
    split_ifs
    · exact keeps_modify (m := { m with systemTicks := Word32.add m.systemTicks 1 }) c fun x => hg x _ _
    · exact .of_pcb rfl

/-- It changes no state. -/
lemma state_tickHead (m : ProcessManager) (r : Ptr) :
    (m.processManagerTickHead.1.pcb r).state = (m.pcb r).state :=
  keeps_tickHead (g := Process.state) (fun _ _ _ => rfl) m r

/-- It changes no wakeup time. -/
lemma wakeupTime_tickHead (m : ProcessManager) (r : Ptr) :
    (m.processManagerTickHead.1.pcb r).wakeupTime = (m.pcb r).wakeupTime :=
  keeps_tickHead (g := Process.wakeupTime) (fun _ _ _ => rfl) m r

/-- The loop over the blocked queue moves blocked processes. -/
lemma wakeLoop_moved {fuel : ℕ} {h : Option Ptr} (hw : wakeLoop fuel h m = some m') :
    Moved (fun r => (m.pcb r).state = .blocked) m m' := by
  induction fuel generalizing h m with
  | zero => simp [wakeLoop] at hw
  | succ fuel ih =>
    cases h with
    | none =>
      obtain rfl := Option.some.inj hw
      exact .refl m
    | some c =>
      simp only [wakeLoop] at hw
      split_ifs at hw with htime
      · obtain ⟨m₁, h₁, h₂⟩ := Option.bind_eq_some_iff.1 hw
        have hm₁ := (unblockProcess_moved h₁).mono fun r hr => hr.2
        refine hm₁.trans ((ih h₂).mono fun r hr => ?_)
        by_contra hne
        exact hne ((hm₁.still r hne).1 ▸ hr)
      · exact ih hw

/-- It keeps the static views, the table and the time. -/
lemma wakeLoop_keeps (hg : IsStatic g) {fuel : ℕ} {h : Option Ptr} (hw : wakeLoop fuel h m = some m') :
    Keeps g m m' ∧ m'.processes = m.processes ∧ m'.systemTicks = m.systemTicks :=
  ⟨(wakeLoop_moved hw).keeps hg, (wakeLoop_moved hw).processes, (wakeLoop_moved hw).systemTicks⟩

/-- The blocks that the clean-up passes to `free` for a process. -/
def blocksOf (m : ProcessManager) (p : Ptr) : List Ptr :=
  (m.pcb p).userStack.toList ++ [(m.pcb p).kernelStack, p]

/-- Freeing a process leaves its control block as it was. -/
@[simp] lemma pcb_reap (c : Ptr) : (m.reap c).pcb = m.pcb := by
  cases hu : (m.pcb c).userStack <;> simp [reap, hu, free]

/-- Its place in the table is empty afterwards. -/
lemma processes_reap (c : Ptr) :
    (m.reap c).processes = Function.update m.processes (m.pcb c).pid none := by
  cases hu : (m.pcb c).userStack <;> simp [reap, hu, free]

/-- Its control block and its two stacks are freed. -/
lemma freed_reap (c : Ptr) : (m.reap c).freed = m.freed ++ m.blocksOf c := by
  cases hu : (m.pcb c).userStack <;> simp [reap, hu, free, blocksOf]

/-- It is not counted any more. -/
lemma activeProcesses_reap (c : Ptr) :
    (m.reap c).activeProcesses = Word32.sub m.activeProcesses 1 := by
  cases hu : (m.pcb c).userStack <;> simp [reap, hu, free]

/-- It does not change who runs. -/
@[simp] lemma currentProcess_reap (c : Ptr) : (m.reap c).currentProcess = m.currentProcess := by
  cases hu : (m.pcb c).userStack <;> simp [reap, hu, free]

/-- It changes no link. -/
@[simp] lemma next_reap (c : Ptr) : (m.reap c).next = m.next := by
  funext r
  rw [next, next, pcb_reap]

/-- The clean-up loop changes no control block, and adds nothing to the table. -/
lemma cleanupLoop_effect {fuel : ℕ} {h : Option Ptr} (hc : cleanupLoop fuel h m = some m') :
    m'.pcb = m.pcb ∧ ∀ i r, m'.processes i = some r → m.processes i = some r := by
  induction fuel generalizing h m with
  | zero => simp [cleanupLoop] at hc
  | succ fuel ih =>
    cases h with
    | none =>
      obtain rfl := Option.some.inj hc
      exact ⟨rfl, fun _ _ hr => hr⟩
    | some c =>
      simp only [cleanupLoop] at hc
      obtain ⟨hpcb, hproc⟩ := ih hc
      refine ⟨by rw [hpcb, pcb_reap], fun i r hr => ?_⟩
      have hr' := hproc i r hr
      rw [processes_reap] at hr'
      by_cases e : i = (m.pcb c).pid
      · rw [e, Function.update_self] at hr'
        simp at hr'
      · rwa [Function.update_of_ne e] at hr'

/-- It does not change the time. -/
lemma systemTicks_reap (c : Ptr) : (m.reap c).systemTicks = m.systemTicks := by
  cases hu : (m.pcb c).userStack <;> simp [reap, hu, free]

/-- Neither does the loop over the terminated queue. -/
lemma systemTicks_cleanupLoop {fuel : ℕ} {h : Option Ptr} (hc : cleanupLoop fuel h m = some m') :
    m'.systemTicks = m.systemTicks := by
  induction fuel generalizing h m with
  | zero => simp [cleanupLoop] at hc
  | succ fuel ih =>
    cases h with
    | none =>
      obtain rfl := Option.some.inj hc
      rfl
    | some c =>
      rw [cleanupLoop] at hc
      rw [ih hc, systemTicks_reap]

/-- The rest of a tick without a clean-up moves processes. -/
lemma processManagerTickTail_moved (h : m.processManagerTickTail = some m')
    (hdue : m.systemTicks % 100 ≠ 0) : Moved (fun r => (m.pcb r).state = .blocked) m m' := by
  unfold processManagerTickTail at h
  obtain ⟨m₁, hw, h⟩ := Option.bind_eq_some_iff.1 h
  have hmoved := wakeLoop_moved hw
  rw [hmoved.systemTicks, if_neg hdue] at h
  obtain rfl := Option.some.inj h
  exact hmoved

/-- The rest of the tick takes processes off the table only every 100 ticks. -/
lemma processManagerTickTail_keeps (hg : IsStatic g) (h : m.processManagerTickTail = some m') :
    Keeps g m m' ∧ (∀ i r, m'.processes i = some r → m.processes i = some r) ∧
      (m.systemTicks % 100 ≠ 0 → m'.processes = m.processes) := by
  unfold processManagerTickTail at h
  obtain ⟨m₁, hw, h⟩ := Option.bind_eq_some_iff.1 h
  obtain ⟨h₁, hp₁, ht₁⟩ := wakeLoop_keeps hg hw
  rw [ht₁] at h
  split_ifs at h with h100
  · obtain ⟨m₂, hc, h⟩ := Option.bind_eq_some_iff.1 h
    obtain rfl := Option.some.inj h
    obtain ⟨hpcb, hproc⟩ := cleanupLoop_effect hc
    refine ⟨h₁.trans (.of_pcb hpcb), fun i r hr => ?_, fun hne => absurd h100 hne⟩
    rw [← hp₁]
    exact hproc i r hr
  · obtain rfl := Option.some.inj h
    exact ⟨h₁, fun i r hr => by rwa [hp₁] at hr, fun _ => hp₁⟩

/-- The second part of a tick keeps the scheduling data, and only removes processes from the table. -/
lemma processManagerTickTail_effect (h : m.processManagerTickTail = some m') :
    SameContext m m' ∧ ∀ i r, m'.processes i = some r → m.processes i = some r :=
  ⟨.of_keeps (processManagerTickTail_keeps isStatic_context h).1,
    (processManagerTickTail_keeps isStatic_context h).2.1⟩

/-! ## Scheduling -/

/-- The manager with the running process saved, before it is put back in a queue. -/
def preemptCurrent (m : ProcessManager) (esp : ℕ) : ProcessManager :=
  match m.currentProcess with
  | none => m
  | some c => if (m.pcb c).state = .running then m.modify c fun x => preempted x esp else m

/-- Preempting the current process keeps the table and the time, and frees nothing. -/
lemma preemptCurrent_frame (m : ProcessManager) (esp : ℕ) :
    (m.preemptCurrent esp).processes = m.processes ∧ (m.preemptCurrent esp).freed = m.freed ∧
      (m.preemptCurrent esp).systemTicks = m.systemTicks := by
  unfold preemptCurrent
  cases m.currentProcess with
  | none => exact ⟨rfl, rfl, rfl⟩
  | some c =>
    dsimp only
    split_ifs
    · exact ⟨rfl, rfl, rfl⟩
    · exact ⟨rfl, rfl, rfl⟩

/-- Other processes are not changed by it. -/
lemma pcb_preemptCurrent {r : Ptr} (hr : m.currentProcess ≠ some r) (esp : ℕ) :
    (m.preemptCurrent esp).pcb r = m.pcb r := by
  unfold preemptCurrent
  cases hc : m.currentProcess with
  | none => rfl
  | some c =>
    dsimp only
    split_ifs
    · exact Function.update_of_ne (fun e => hr (by rw [hc, e])) ..
    · rfl

/-- Putting it back in a queue moves nobody else. -/
lemma requeueCurrent_moved {esp : ℕ} (h : m.requeueCurrent esp = some m') :
    Moved P (m.preemptCurrent esp) m' := by
  unfold requeueCurrent at h
  unfold preemptCurrent
  cases hc : m.currentProcess with
  | none =>
    simp only [hc] at h
    obtain rfl := Option.some.inj h
    exact .refl m
  | some c =>
    simp only [hc] at h
    dsimp only
    split_ifs at h ⊢ with hrun
    · exact (enqueueProcess_sameData h).moved
    · obtain rfl := Option.some.inj h
      exact .refl m

/-- Taking the next process out of its queue relinks only. -/
lemma nextProcess_sameData (levels : List ℕ) (m : ProcessManager) :
    SameData m (nextProcess levels m).1 := by
  induction levels generalizing m with
  | nil => exact .refl m
  | cons i levels ih =>
    have hs := dequeueProcess_sameData m (.ready i)
    simp only [nextProcess]
    rcases hd : m.dequeueProcess (.ready i) with ⟨m₁, found⟩
    rw [hd] at hs
    cases found with
    | none => exact hs.trans (ih m₁)
    | some p => exact hs

/-- `schedule` saves the running process and moves the process that it dispatches; it returns the context
of that process, or its argument. -/
lemma schedule_moved {esp e : ℕ} (h : m.schedule esp = some (m', e)) :
    Moved (fun r => m'.currentProcess = some r) (m.preemptCurrent esp) m' ∧
      e = match m'.currentProcess with
        | some p => (m'.pcb p).regs
        | none => esp := by
  unfold schedule at h
  obtain ⟨m₁, hreq, h⟩ := Option.bind_eq_some_iff.1 h
  rcases hn : nextProcess (List.range maxPriorityLevels) m₁ with ⟨m₂, found⟩
  have hs₂ : SameData m₁ m₂ := by
    have hsame := nextProcess_sameData (List.range maxPriorityLevels) m₁
    rwa [hn] at hsame
  have hs : ∀ {P : Ptr → Prop}, Moved P (m.preemptCurrent esp) m₂ :=
    (requeueCurrent_moved hreq).trans hs₂.moved
  rw [hn] at h
  cases found with
  | none =>
    obtain ⟨rfl, rfl⟩ := Prod.ext_iff.1 (Option.some.inj h)
    exact ⟨hs.trans (.of_pcb rfl rfl rfl rfl), rfl⟩
  | some p =>
    obtain ⟨rfl, rfl⟩ := Prod.ext_iff.1 (Option.some.inj h)
    have hrun := hs.trans (moved_modify (P := fun r => some p = some r) rfl
      fun x => ⟨.running, x.exitCode, x.wakeupTime, x.next, rfl⟩)
    exact ⟨hrun.trans (.of_pcb rfl rfl rfl rfl), rfl⟩

/-- `schedule` saves the running process and changes no other scheduling data. -/
lemma schedule_keeps (hg : IsStatic g) {esp e : ℕ} (h : m.schedule esp = some (m', e)) :
    Keeps g (m.preemptCurrent esp) m' ∧ m'.processes = m.processes ∧
      e = match m'.currentProcess with
        | some p => (m'.pcb p).regs
        | none => esp := by
  obtain ⟨hmoved, he⟩ := schedule_moved h
  exact ⟨hmoved.keeps hg, hmoved.processes.trans (preemptCurrent_frame m esp).1, he⟩

/-- What `schedule` does to the scheduling data, and the stack that it returns. -/
lemma schedule_effect {esp e : ℕ} (h : m.schedule esp = some (m', e)) :
    SameContext (m.preemptCurrent esp) m' ∧ m'.processes = m.processes ∧
      e = match m'.currentProcess with
        | some p => (m'.pcb p).regs
        | none => esp :=
  ⟨.of_keeps (schedule_keeps isStatic_context h).1, (schedule_keeps isStatic_context h).2⟩

/-! ## Fixed views -/

/-- A view of control blocks that reads no field that is written after the creation of the process. -/
def IsFixed (g : Process → α) : Prop :=
  ∀ x y c t n pr ts rt rg, g { x with
    state := y, exitCode := c, wakeupTime := t, next := n,
    priority := pr, timeSlice := ts, totalRuntime := rt, regs := rg } = g x

/-- A view that no tick changes is static. -/
lemma IsFixed.isStatic (hg : IsFixed g) : IsStatic g :=
  fun x y c t n => hg x y c t n x.priority x.timeSlice x.totalRuntime x.regs

/-- The first part of a tick keeps it. -/
lemma IsFixed.tickHead (hg : IsFixed g) (m : ProcessManager) : Keeps g m m.processManagerTickHead.1 :=
  keeps_tickHead (fun x ts rt => hg x x.state x.exitCode x.wakeupTime x.next x.priority ts rt x.regs) m

/-- The page directory is never changed. -/
lemma isFixed_pageDirectory : IsFixed Process.pageDirectory := fun _ _ _ _ _ _ _ _ _ => rfl

/-- Neither is the kernel stack. -/
lemma isFixed_kernelStack : IsFixed Process.kernelStack := fun _ _ _ _ _ _ _ _ _ => rfl

/-- Neither is the user stack. -/
lemma isFixed_userStack : IsFixed Process.userStack := fun _ _ _ _ _ _ _ _ _ => rfl

/-- Saving the running process changes no fixed view. -/
lemma keeps_preemptCurrent (hg : IsFixed g) (m : ProcessManager) (esp : ℕ) :
    Keeps g m (m.preemptCurrent esp) := by
  unfold preemptCurrent
  cases m.currentProcess with
  | none => exact .of_pcb rfl
  | some c =>
    dsimp only
    split_ifs
    · refine keeps_modify c fun x => ?_
      unfold preempted
      split_ifs
      · exact hg x .ready x.exitCode x.wakeupTime x.next x.priority x.timeSlice x.totalRuntime esp
      · exact hg x .ready x.exitCode x.wakeupTime x.next _ _ x.totalRuntime esp
      · exact hg x .ready x.exitCode x.wakeupTime x.next _ _ x.totalRuntime esp
    · exact .of_pcb rfl

end Jarvis.ProcessManager
