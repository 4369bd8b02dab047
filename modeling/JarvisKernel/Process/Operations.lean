import JarvisKernel.Process.Effects
import JarvisKernel.Process.Invariant

set_option relaxedAutoImplicit false
set_option autoImplicit false

/-!
# The operations keep the invariant

For each operation of the process manager: from a state that satisfies the invariant the
operation ends, and the invariant holds after it. The loops of the timer tick are treated by
induction over the part of the queue they have still to visit.

## Main definitions

* `Jarvis.ProcessManager.WellFormed` — the invariant holds with nothing held.

## Main results

* `Jarvis.ProcessManager.WellFormed.createProcess`, `blockProcess`, `unblockProcess`,
  `terminateProcess`, `schedule`, `tickHead`, `tickTail` — one for each operation.
-/

namespace Jarvis.ProcessManager

open LinkedList

variable {m m' m'' : ProcessManager} {Q : QueueId → List Ptr} {held cur : Option Ptr} {q : QueueId}
  {p : Ptr} {l l' : List Ptr}

/-- The invariant holds, with nothing held and `currentProcess` running. -/
def WellFormed (m : ProcessManager) : Prop := ∃ Q, Inv m Q none m.currentProcess

/-- Before the first call there is no process. -/
lemma wellFormed_processManagerInit (pcb : Ptr → Process) (regFrames : ℕ → RegisterState)
    (cr3 : Option ℕ) (wrapper : ℕ) :
    WellFormed (processManagerInit pcb regFrames cr3 wrapper) := by
  refine ⟨fun _ => [], fun q => ?_, fun q => List.Pairwise.nil, fun q r => ?_, fun r => ?_,
    fun r hl => ?_, fun i r hi => ?_, fun i _ => ?_, ?_, fun r hl => ?_⟩
  · cases q <;> rfl
  · simp [Live, processManagerInit]
  · simp [Live, processManagerInit]
  · simp [Live, processManagerInit] at hl
  · simp [processManagerInit] at hi
  · simp [processManagerInit]
  · simp [processManagerInit, Bitmap.card]
  · simp [Live, processManagerInit] at hl

/-- A process of the table stays there when only queues change. -/
lemma SameData.live (h : SameData m m') (hp : m.Live p) : m'.Live p := by
  obtain ⟨i, hi⟩ := hp
  exact ⟨i, by rw [h.processes, hi]⟩

/-! ## Blocking, unblocking, terminating -/

/-- The fields of the process table, as `processes[pid]` finds it. -/
lemma Inv.of_processes (h : Inv m Q held cur) {pid : ℕ} (hp : m.processes pid = some p) :
    m.Live p ∧ pid < processMaxCount ∧ pid = m.pidOf p :=
  ⟨⟨pid, hp⟩, (h.pid pid p hp).1, (h.pid pid p hp).2.symm⟩

/-- The processes of the blocked queue are blocked. -/
lemma Inv.state_of_mem_blocked (h : Inv m Q held cur) (hp : p ∈ Q .blocked) :
    (m.pcb p).state = .blocked := by
  have hhome := ((h.mem _ p).1 hp).2.2
  cases hs : (m.pcb p).state <;> simp [Process.home, hs] at hhome
  rfl

/-- The processes of a ready queue are ready. -/
lemma Inv.state_of_mem_ready {i : ℕ} (h : Inv m Q held cur) (hp : p ∈ Q (.ready i)) :
    (m.pcb p).state = .ready := by
  have hhome := ((h.mem _ p).1 hp).2.2
  cases hs : (m.pcb p).state <;> simp [Process.home, hs] at hhome
  rfl

/-- The processes of the terminated queue are terminated. -/
lemma Inv.state_of_mem_terminated (h : Inv m Q held cur) (hp : p ∈ Q .terminated) :
    (m.pcb p).state = .terminated := by
  have hhome := ((h.mem _ p).1 hp).2.2
  cases hs : (m.pcb p).state <;> simp [Process.home, hs] at hhome
  rfl

/-- `unblock_process` moves a blocked process to the ready queue of its priority. -/
lemma Inv.unblockProcess_of_mem (h : Inv m Q none cur) (hp : p ∈ Q .blocked) :
    ∃ m' Q', m.unblockProcess (m.pidOf p) = some m' ∧ Inv m' Q' none cur ∧
      Q' .blocked = (Q .blocked).erase p ∧ Q' .terminated = Q .terminated ∧
      m'.currentProcess = m.currentProcess ∧ m'.processes = m.processes ∧
      (m'.pcb p).state = .ready := by
  obtain ⟨hl, -, hhome⟩ := (h.mem _ p).1 hp
  have hst := h.state_of_mem_blocked hp
  obtain ⟨m₁, hrem, hr₁, h₁⟩ := h.remove hp
  have hs₁ := hr₁.sameData
  have hprio : (m₁.pcb p).priority < maxPriorityLevels := h₁.priority p (hs₁.live hl)
  have h₂ := h₁.modify (fun x => { x with state := .ready }) rfl hprio
  set m₂ := m₁.modify p fun x => { x with state := .ready } with hm₂
  have hp₂ : m₂.pcb p = { m₁.pcb p with state := .ready } := Function.update_self _ _ _
  obtain ⟨m₃, henq, hr₃, h₃⟩ := h₂.enqueue (q := .ready (m₂.pcb p).priority) (hs₁.live hl)
    (by simp [Process.home, hp₂])
  have hs₃ := hr₃.sameData
  refine ⟨m₃, _, ?_, h₃, ?_, ?_, ?_, ?_, ?_⟩
  · have hlt := h.pidOf_lt hl
    rw [unblockProcess, if_neg (by omega), h.processes_pidOf hl]
    simp only [hst, ne_eq, not_true_eq_false, if_false]
    rw [hrem]
    exact henq
  · rw [Function.update_of_ne (by simp), Function.update_self]
  · rw [Function.update_of_ne (by simp), Function.update_of_ne (by simp)]
  · rw [hs₃.currentProcess, ← hs₁.currentProcess]
    rfl
  · rw [hs₃.processes, ← hs₁.processes]
    rfl
  · rw [hs₃.pcb p, hp₂]

/-- `unblock_process` on anything else does nothing. -/
lemma unblockProcess_eq_self {pid : ℕ}
    (h : ∀ p, m.processes pid = some p → (m.pcb p).state ≠ .blocked) :
    m.unblockProcess pid = some m := by
  unfold unblockProcess
  split
  · rfl
  · split
    · rfl
    · rename_i p hp
      rw [if_pos (h p hp)]

/-- Waking a process keeps the manager well-formed. -/
lemma WellFormed.unblockProcess (h : WellFormed m) (pid : ℕ) :
    ∃ m', m.unblockProcess pid = some m' ∧ WellFormed m' := by
  obtain ⟨Q, h⟩ := h
  by_cases hb : ∃ p, m.processes pid = some p ∧ (m.pcb p).state = .blocked
  · obtain ⟨p, hp, hs⟩ := hb
    obtain ⟨hl, -, rfl⟩ := h.of_processes hp
    have hmem : p ∈ Q .blocked := (h.mem _ p).2 ⟨hl, by simp, by simp [Process.home, hs]⟩
    obtain ⟨m', Q', he, hi, -, -, hc, -, -⟩ := h.unblockProcess_of_mem hmem
    exact ⟨m', he, Q', by rw [hc]; exact hi⟩
  · push Not at hb
    exact ⟨m, unblockProcess_eq_self hb, Q, h⟩

/-- A held process is put into the queue that its new control block names. -/
lemma Inv.modify_enqueue (h : Inv m Q (some p) cur) (hp : m.Live p) (f : Process → Process)
    (hpid : (f (m.pcb p)).pid = (m.pcb p).pid)
    (hprio : (f (m.pcb p)).priority < maxPriorityLevels) (hhome : (f (m.pcb p)).home = some q) :
    ∃ m' Q', (m.modify p f).enqueueProcess q p = some m' ∧ Inv m' Q' none cur ∧
      SameData (m.modify p f) m' := by
  have h₁ := h.modify f hpid hprio
  have hself : (m.modify p f).pcb p = f (m.pcb p) := Function.update_self _ _ _
  obtain ⟨m', henq, hr, hi⟩ := h₁.enqueue hp (by rw [hself]; exact hhome)
  exact ⟨m', _, henq, hi, hr.sameData⟩

/-- `block_process` never executes its `int $0x20`: when it takes the running process off the
processor, that process is no longer `current_process` by the time of the test. -/
lemma WellFormed.blockProcess (h : WellFormed m) (pid waitTime : ℕ) :
    ∃ m', m.blockProcess pid waitTime = some (m', false) ∧ WellFormed m' ∧
      ((∀ p, m.processes pid = some p → m.currentProcess ≠ some p) →
        m'.currentProcess = m.currentProcess) := by
  obtain ⟨Q, h⟩ := h
  unfold ProcessManager.blockProcess
  split
  · exact ⟨m, rfl, ⟨Q, h⟩, fun _ => rfl⟩
  rename_i hlt
  cases hproc : m.processes pid with
  | none => exact ⟨m, rfl, ⟨Q, h⟩, fun _ => rfl⟩
  | some p =>
    obtain ⟨hl, -, rfl⟩ := h.of_processes hproc
    dsimp only
    by_cases hready : (m.pcb p).state = .ready
    · -- a ready process leaves its ready queue
      have hmem : p ∈ Q (.ready (m.pcb p).priority) :=
        (h.mem _ p).2 ⟨hl, by simp, by simp [Process.home, hready]⟩
      have hcur : m.currentProcess ≠ some p := by
        intro hc
        have hrun := ((h.running p).1 hc).2.2
        rw [hready] at hrun
        simp at hrun
      obtain ⟨m₁, hrem, hr₁, h₁⟩ := h.remove hmem
      have hs₁ := hr₁.sameData
      obtain ⟨m₃, Q', henq, h₃, hs₃⟩ := h₁.modify_enqueue (hs₁.live hl)
        (fun x => { x with state := .blocked, wakeupTime := Word32.add m₁.systemTicks waitTime })
        rfl (h₁.priority p (hs₁.live hl)) (q := .blocked) rfl
      have hcur₃ : m₃.currentProcess = m.currentProcess :=
        hs₃.currentProcess.trans hs₁.currentProcess
      refine ⟨m₃, ?_, ⟨Q', ?_⟩, fun _ => hcur₃⟩
      · rw [if_neg (by simp [hready]), if_pos hready, hrem]
        simp [henq, hcur₃, hcur]
      · rw [hcur₃]
        exact h₃
    · by_cases hcur : m.currentProcess = some p
      · -- the running process leaves the processor
        rw [hcur] at h
        have hstop : Inv { m with currentProcess := none } Q (some p) none :=
          h.stop.of_eq rfl rfl rfl rfl (by funext q; cases q <;> rfl)
        obtain ⟨m₃, Q', henq, h₃, hs₃⟩ := hstop.modify_enqueue hl
          (fun x => { x with state := .blocked, wakeupTime := Word32.add m.systemTicks waitTime })
          rfl (h.priority p hl) (q := .blocked) rfl
        have hcur₃ : m₃.currentProcess = none := hs₃.currentProcess
        refine ⟨m₃, ?_, ⟨Q', ?_⟩, fun hne => absurd hcur (hne p rfl)⟩
        · rw [if_neg (by simp [hcur]), if_neg hready, if_pos hcur]
          simp [henq, hcur₃]
        · rw [hcur₃]
          exact h₃
      · exact ⟨m, by rw [if_pos ⟨hready, hcur⟩], ⟨Q, h⟩, fun _ => rfl⟩

/-- `terminate_process` on the running process, or on a PID that names no process. -/
lemma WellFormed.terminateProcess (h : WellFormed m) {pid : ℕ} (exitCode : ℤ)
    (hpid : pid < processMaxCount → ∀ p, m.processes pid = some p → m.currentProcess = some p) :
    ∃ m', m.terminateProcess pid exitCode = some (m', false) ∧ WellFormed m' := by
  obtain ⟨Q, h⟩ := h
  unfold ProcessManager.terminateProcess
  split
  · exact ⟨m, rfl, Q, h⟩
  rename_i hlt
  cases hproc : m.processes pid with
  | none => exact ⟨m, rfl, Q, h⟩
  | some p =>
    obtain ⟨hl, -, rfl⟩ := h.of_processes hproc
    have hcur := hpid (by omega) p hproc
    rw [hcur] at h
    -- assigning the state first or taking the process off the processor first is the same
    have hstop : Inv { m with currentProcess := none } Q (some p) none :=
      h.stop.of_eq rfl rfl rfl rfl (by funext q; cases q <;> rfl)
    obtain ⟨m₃, Q', henq, h₃, hs₃⟩ := hstop.modify_enqueue hl
      (fun x => { x with state := .terminated, exitCode := exitCode })
      rfl (h.priority p hl) (q := .terminated) rfl
    have hcur₃ : m₃.currentProcess = none := hs₃.currentProcess
    refine ⟨m₃, ?_, Q', ?_⟩
    · have hst : ((m.modify p fun x =>
          { x with state := .terminated, exitCode := exitCode }).pcb p).state = .terminated := by
        simp [modify]
      have hc : (m.modify p fun x =>
          { x with state := .terminated, exitCode := exitCode }).currentProcess = some p := hcur
      have hcomm : ({ m.modify p (fun x => { x with state := .terminated, exitCode := exitCode })
            with currentProcess := none } : ProcessManager) =
          ProcessManager.modify { m with currentProcess := none } p
            (fun x => { x with state := .terminated, exitCode := exitCode }) := rfl
      simp [hst, hc, hcomm, henq, hcur₃]
    · rw [hcur₃]
      exact h₃

/-! ## Creation -/

/-- `find_free_pid` returns a PID in range whose bit is clear. -/
lemma findFreePid_eq_some {pid : ℕ} (h : m.findFreePid = some pid) :
    pid < processMaxCount ∧ Bitmap.test m.processBitmap pid = false := by
  have hmem := List.mem_of_find?_eq_some h
  have hbit := List.find?_some h
  exact ⟨List.mem_range.1 hmem, by simpa using hbit⟩

/-- `find_free_pid` fails only if all bits are set. -/
lemma findFreePid_eq_none (h : m.findFreePid = none) {i : ℕ} (hi : i < processMaxCount) :
    Bitmap.test m.processBitmap i = true := by
  have hall := List.find?_eq_none.1 h i (List.mem_range.2 hi)
  simpa using hall

/-- The priority of a new process is in range. -/
lemma newProcess_priority_lt (a : CreateArgs) (pid d : ℕ) (k : Ptr) (region : Bool) :
    (m.newProcess a pid d k region).priority < maxPriorityLevels := by
  have hmax : maxPriorityLevels = 16 := rfl
  simp only [newProcess]
  split_ifs <;> omega

/-- The table part of `create_process`: the new process enters the table and its ready queue. -/
lemma Inv.addProcess (h : Inv m Q none cur) (hp : ¬ m.Live p) {x : Process}
    (hpid : x.pid < processMaxCount) (hfree : m.processes x.pid = none)
    (hprio : x.priority < maxPriorityLevels) (hstate : x.state = .ready) (frame : RegisterState) :
    ∃ m' Q', m.addProcess p x frame = some m' ∧ Inv m' Q' none cur ∧
      (∀ r, (m'.pcb r) = { Function.update m.pcb p x r with next := m'.next r }) ∧
      m'.processes = Function.update m.processes x.pid (some p) ∧
      m'.currentProcess = m.currentProcess := by
  have h₁ := h.add (x := x) hp hpid hfree hprio
  set m₂ : ProcessManager := { m with
    pcb := Function.update m.pcb p x
    regFrames := Function.update m.regFrames x.regs frame
    processes := Function.update m.processes x.pid (some p)
    processBitmap := Bitmap.set m.processBitmap x.pid
    activeProcesses := Word32.add m.activeProcesses 1 } with hm₂
  have h₂ : Inv m₂ Q (some p) cur := h₁.of_eq rfl rfl rfl rfl (by funext q; cases q <;> rfl)
  have hself : m₂.pcb p = x := Function.update_self _ _ _
  have hl₂ : m₂.Live p := ⟨x.pid, by simp [hm₂]⟩
  obtain ⟨m', henq, hr, h₃⟩ := h₂.enqueue (q := .ready x.priority) hl₂
    (by rw [hself]; simp [Process.home, hstate])
  have hs := hr.sameData
  refine ⟨m', _, ?_, h₃, hs.pcb, hs.processes, hs.currentProcess⟩
  simp only [ProcessManager.addProcess, setPidInUse, hpid, if_true]
  exact henq

/-- Freeing memory changes no control block that counts. -/
lemma WellFormed.of_free (h : WellFormed m) (p : Ptr) : WellFormed (m.free p) := by
  obtain ⟨Q, h⟩ := h
  exact ⟨Q, h.of_eq rfl rfl rfl rfl (by funext q; cases q <;> rfl)⟩

/-- `create_process`, when the control block it gets is not in use. -/
lemma WellFormed.createProcess (h : WellFormed m) (a : CreateArgs) (r : CreateAlloc)
    (hr : ∀ p, r.process = some p → ¬ m.Live p) :
    ∃ m' res, m.createProcess a r = some (m', res) ∧ WellFormed m' := by
  unfold ProcessManager.createProcess
  by_cases hentry : a.entry = 0
  · exact ⟨m, _, if_pos hentry, h⟩
  rw [if_neg hentry]
  cases hpid : m.findFreePid with
  | none => exact ⟨m, _, rfl, h⟩
  | some pid =>
    obtain ⟨hlt, hbit⟩ := findFreePid_eq_some hpid
    cases hp : r.process with
    | none => exact ⟨m, _, rfl, h⟩
    | some p =>
      cases hd : r.pageDirectory with
      | none => exact ⟨m.free p, _, rfl, h.of_free p⟩
      | some d =>
        cases hk : r.kernelStack with
        | none => exact ⟨m.free p, _, rfl, h.of_free p⟩
        | some k =>
          dsimp only
          by_cases huser : a.privilege = .userMode ∧ ¬ r.userStack
          · exact ⟨(m.free k).free p, _, if_pos huser, (h.of_free k).of_free p⟩
          · rw [if_neg huser]
            obtain ⟨Q, h⟩ := h
            have hfree : m.processes pid = none := by
              have hb := h.bitmap pid hlt
              rw [hbit] at hb
              simpa using hb.symm
            obtain ⟨m', Q', hadd, hi, -, -, hc⟩ := h.addProcess (hr p hp)
              (x := m.newProcess a pid d k r.stackRegion) hlt hfree
              (newProcess_priority_lt a pid d k r.stackRegion) rfl
              (m.newFrame a (m.newProcess a pid d k r.stackRegion).regs)
            refine ⟨m', .ok pid, by simp [hadd], Q', ?_⟩
            rw [hc]
            exact hi

/-! ## Scheduling -/

/-- A preempted process keeps its PID, is ready, and has a priority in range. -/
lemma preempted_fields (x : Process) (esp : ℕ) (hx : x.priority < maxPriorityLevels) :
    (preempted x esp).pid = x.pid ∧ (preempted x esp).state = .ready ∧
      (preempted x esp).regs = esp ∧ (preempted x esp).priority < maxPriorityLevels := by
  have hmax : maxPriorityLevels = 16 := rfl
  simp only [preempted]
  split_ifs
  · exact ⟨rfl, rfl, rfl, hx⟩
  · refine ⟨rfl, rfl, rfl, ?_⟩
    dsimp only
    omega
  · exact ⟨rfl, rfl, rfl, hx⟩

/-- The first half of `schedule` leaves no process running. -/
lemma Inv.requeueCurrent (h : Inv m Q none m.currentProcess) (esp : ℕ) :
    ∃ m' Q', m.requeueCurrent esp = some m' ∧ Inv m' Q' none none ∧
      ∀ c, m.currentProcess = some c → m'.Live c ∧ (m'.pcb c).state = .ready := by
  unfold ProcessManager.requeueCurrent
  cases hc : m.currentProcess with
  | none =>
    rw [hc] at h
    exact ⟨m, Q, rfl, h, by simp⟩
  | some c =>
    rw [hc] at h
    obtain ⟨hl, -, hrun⟩ := (h.running c).1 rfl
    obtain ⟨hpid, hst, -, hprio⟩ := preempted_fields (m.pcb c) esp (h.priority c hl)
    have hself : (m.modify c fun x => preempted x esp).pcb c = preempted (m.pcb c) esp :=
      Function.update_self _ _ _
    obtain ⟨m', Q', henq, hi, hs⟩ := h.stop.modify_enqueue hl (fun x => preempted x esp) hpid hprio
      (q := .ready (preempted (m.pcb c) esp).priority) (by simp [Process.home, hst])
    refine ⟨m', Q', ?_, hi, fun c' hc' => ?_⟩
    · dsimp only
      rw [if_pos hrun, hself]
      exact henq
    · obtain rfl := Option.some.inj hc'
      refine ⟨hs.live hl, ?_⟩
      rw [hs.pcb c, hself]
      exact hst

/-- The search of `schedule` finds every ready queue empty, or takes a process and holds it. -/
lemma Inv.nextProcess (h : Inv m Q none none) (levels : List ℕ) :
    (nextProcess levels m = (m, none) ∧ ∀ i ∈ levels, Q (.ready i) = []) ∨
      ∃ m' p Q', nextProcess levels m = (m', some p) ∧ Inv m' Q' (some p) none ∧ m'.Live p ∧
        SameData m m' ∧ (m.pcb p).state = .ready := by
  induction levels with
  | nil => exact .inl ⟨rfl, by simp⟩
  | cons i levels ih =>
    simp only [ProcessManager.nextProcess]
    cases hQ : Q (.ready i) with
    | nil =>
      have hq : m.queue (.ready i) = none := by
        have hl := h.isList (.ready i)
        rw [hQ] at hl
        exact hl
      have hdq : m.dequeueProcess (.ready i) = (m, none) := by rw [dequeueProcess, hq]
      rw [hdq]
      rcases ih with ⟨hn, hempty⟩ | hfound
      · refine .inl ⟨hn, fun j hj => ?_⟩
        rcases List.mem_cons.1 hj with rfl | hj
        · exact hQ
        · exact hempty j hj
      · exact .inr hfound
    | cons p l =>
      have hl := h.isList (.ready i)
      rw [hQ] at hl
      obtain ⟨m', hdq, hr⟩ := dequeueProcess_relinked hl
      have herase : (Q (.ready i)).erase p = l := by rw [hQ, List.erase_cons_head]
      have hmem : p ∈ Q (.ready i) := by simp [hQ]
      have hr' : Relinked m m' (.ready i) (Q (.ready i)) ((Q (.ready i)).erase p) := by
        rw [herase, hQ]
        exact hr
      have hs := hr.sameData
      rw [hdq]
      exact .inr ⟨m', p, _, rfl, h.take hmem hr', hs.live ((h.mem _ p).1 hmem).1, hs,
        h.state_of_mem_ready hmem⟩

/-- `schedule` leaves the processor free only if it was free: otherwise the process it has just
put back is ready. -/
lemma WellFormed.schedule (h : WellFormed m) (esp : ℕ) :
    ∃ m' e, m.schedule esp = some (m', e) ∧ WellFormed m' ∧
      (m'.currentProcess = none → m.currentProcess = none) := by
  obtain ⟨Q, h⟩ := h
  obtain ⟨m₁, Q₁, hreq, h₁, hback⟩ := h.requeueCurrent esp
  rw [ProcessManager.schedule, hreq]
  simp only [Option.bind_eq_bind, Option.bind_some]
  rcases h₁.nextProcess (List.range maxPriorityLevels) with ⟨hn, hempty⟩ | ⟨m₂, p, Q₂, hn, h₂, hl, -⟩
  · rw [hn]
    refine ⟨_, _, rfl, ⟨Q₁, h₁.of_eq rfl rfl rfl rfl (by funext q; cases q <;> rfl)⟩, fun _ => ?_⟩
    cases hc : m.currentProcess with
    | none => rfl
    | some c =>
      obtain ⟨hlive, hready⟩ := hback c hc
      have hmem : c ∈ Q₁ (.ready (m₁.pcb c).priority) :=
        (h₁.mem _ c).2 ⟨hlive, by simp, by simp [Process.home, hready]⟩
      rw [hempty _ (List.mem_range.2 (h₁.priority c hlive))] at hmem
      simp at hmem
  · rw [hn]
    have h₃ := h₂.modify (fun x => { x with state := .running }) rfl (h₂.priority p hl)
    have h₄ := h₃.start hl (by simp [ProcessManager.modify])
    exact ⟨_, _, rfl, ⟨Q₂, h₄.of_eq rfl rfl rfl rfl (by funext q; cases q <;> rfl)⟩, by simp⟩

/-! ## The timer tick -/

/-- Fields of the running process that the invariant does not read may change. -/
lemma WellFormed.modify_current (h : WellFormed m) {c : Ptr} (hc : m.currentProcess = some c)
    (f : Process → Process) (hpid : (f (m.pcb c)).pid = (m.pcb c).pid)
    (hstate : (f (m.pcb c)).state = (m.pcb c).state)
    (hprio : (f (m.pcb c)).priority = (m.pcb c).priority) : WellFormed (m.modify c f) := by
  obtain ⟨Q, h⟩ := h
  rw [hc] at h
  obtain ⟨hl, -, hrun⟩ := (h.running c).1 rfl
  have hmod := h.stop.modify f hpid (by rw [hprio]; exact h.priority c hl)
  have hst := hmod.start hl (by simpa [ProcessManager.modify, hstate] using hrun)
  refine ⟨Q, ?_⟩
  show Inv (m.modify c f) Q none m.currentProcess
  rw [hc]
  exact hst

/-- The first part of a tick keeps the manager well-formed. -/
lemma WellFormed.tickHead (h : WellFormed m) : WellFormed m.processManagerTickHead.1 := by
  have hticks : WellFormed { m with systemTicks := Word32.add m.systemTicks 1 } := by
    obtain ⟨Q, h⟩ := h
    exact ⟨Q, h.of_eq rfl rfl rfl rfl (by funext q; cases q <;> rfl)⟩
  simp only [processManagerTickHead]
  cases hc : m.currentProcess with
  | none => simpa [hc] using hticks
  | some c =>
    rw [hc] at hticks
    dsimp only
    split_ifs
    · exact hticks.modify_current rfl (fun x => { x with
        timeSlice := Word32.sub x.timeSlice 1
        totalRuntime := Word32.add x.totalRuntime 1 }) rfl rfl rfl
    · exact hticks

/-- The wake-up time has come: the test of the wake-up loop. -/
def Due (m : ProcessManager) (p : Ptr) : Prop :=
  0 < (m.pcb p).wakeupTime ∧ (m.pcb p).wakeupTime ≤ m.systemTicks

/-- The wake-up loop, started anywhere in the blocked queue. It makes the processes ready whose time has
come, and leaves the others as they are.

**Proof sketch.** Induction on the part of the queue still to visit. A process that is woken is
taken out of the blocked queue in front of that part, so the part stays a suffix of the queue and
the saved `next` pointer is its first process. -/
lemma Inv.wakeLoop (h : Inv m Q none cur) (hcur : m.currentProcess = cur) {l₁ rest : List Ptr}
    {fuel : ℕ} (hQ : Q .blocked = l₁ ++ rest) (hf : rest.length < fuel) :
    ∃ m' Q', wakeLoop fuel rest.head? m = some m' ∧ Inv m' Q' none cur ∧
      m'.currentProcess = cur ∧ Q' .terminated = Q .terminated ∧ m'.processes = m.processes ∧
      (∀ r ∈ rest, m.Due r → (m'.pcb r).state = .ready) ∧
      ∀ r, ¬ (r ∈ rest ∧ m.Due r) →
        (m'.pcb r).state = (m.pcb r).state ∧ (m'.pcb r).wakeupTime = (m.pcb r).wakeupTime := by
  induction rest generalizing m Q l₁ fuel with
  | nil =>
    obtain ⟨fuel, rfl⟩ : ∃ k, fuel = k + 1 := ⟨fuel - 1, by simp at hf; omega⟩
    exact ⟨m, Q, rfl, h, hcur, rfl, rfl, by simp, fun _ _ => ⟨rfl, rfl⟩⟩
  | cons c rest ih =>
    obtain ⟨fuel, rfl⟩ : ∃ k, fuel = k + 1 := ⟨fuel - 1, by simp at hf; omega⟩
    simp only [List.length_cons] at hf
    have hlist := h.isList .blocked
    rw [hQ] at hlist
    have hnext : m.next c = rest.head? := hlist.suffix.2.head_eq
    have hmem : c ∈ Q .blocked := by simp [hQ]
    obtain ⟨-, hnodup, hdisj⟩ := List.nodup_append.1 hlist.nodup
    have hcrest : c ∉ rest := (List.nodup_cons.1 hnodup).1
    simp only [List.head?_cons, ProcessManager.wakeLoop, hnext]
    split_ifs with hw
    · obtain ⟨m₁, Q₁, hun, h₁, hQ₁, ht₁, hc₁, hp₁, hready⟩ := h.unblockProcess_of_mem hmem
      have hQ₁' : Q₁ .blocked = l₁ ++ rest := by
        have hc : c ∉ l₁ := fun hc => hdisj c hc c (by simp) rfl
        rw [hQ₁, hQ, List.erase_append_right _ hc, List.erase_cons_head]
      have hun' : m.unblockProcess (m.pcb c).pid = some m₁ := hun
      have hmoved := unblockProcess_moved hun
      have hstill : ∀ r, r ≠ c → (m₁.pcb r).state = (m.pcb r).state ∧
          (m₁.pcb r).wakeupTime = (m.pcb r).wakeupTime := by
        intro r hr
        refine hmoved.still r fun hrc => hr ?_
        have hself := h.processes_pidOf ((h.mem _ c).1 hmem).1
        exact Option.some.inj (hrc.1.symm.trans hself)
      have hdue : ∀ r, r ≠ c → (m₁.Due r ↔ m.Due r) := by
        intro r hr
        rw [Due, Due, (hstill r hr).2, hmoved.systemTicks]
      obtain ⟨m', Q', hw', hi, hc', ht', hp', hwake, hkeep⟩ := ih h₁ (hc₁.trans hcur) hQ₁'
        (show rest.length < fuel by omega)
      refine ⟨m', Q', by simp [hun', hw'], hi, hc', ht'.trans ht₁, hp'.trans hp₁, fun r hr hrdue => ?_,
        fun r hr => ?_⟩
      · rcases List.mem_cons.1 hr with rfl | hr
        · exact (hkeep r fun hin => hcrest hin.1).1.trans hready
        · exact hwake r hr ((hdue r fun e => hcrest (e ▸ hr)).2 hrdue)
      · have hrc : r ≠ c := by
          rintro rfl
          exact hr ⟨by simp, hw⟩
        obtain ⟨hs, hwt⟩ := hkeep r fun hin => hr ⟨by simp [hin.1], (hdue r hrc).1 hin.2⟩
        exact ⟨hs.trans (hstill r hrc).1, hwt.trans (hstill r hrc).2⟩
    · obtain ⟨m', Q', hw', hi, hc', ht', hp', hwake, hkeep⟩ := ih h hcur
        (show Q .blocked = (l₁ ++ [c]) ++ rest by simp [hQ]) (show rest.length < fuel by omega)
      refine ⟨m', Q', hw', hi, hc', ht', hp', fun r hr hrdue => ?_, fun r hr => hkeep r fun hin => ?_⟩
      · rcases List.mem_cons.1 hr with rfl | hr
        · exact absurd hrdue hw
        · exact hwake r hr hrdue
      · exact hr ⟨by simp [hin.1], hin.2⟩

/-- One iteration of the clean-up loop: the first process of the terminated queue leaves the queue
and the table. The loop does not touch the queue head, so it is set by hand. -/
lemma Inv.reap {c : Ptr} {rest : List Ptr}
    (h : Inv (m.setQueue .terminated (some c)) Q none cur) (hQ : Q .terminated = c :: rest) :
    Inv ((m.reap c).setQueue .terminated (m.next c)) (Function.update Q .terminated rest)
      none cur := by
  have hmem : c ∈ Q .terminated := by simp [hQ]
  have herase : (Q .terminated).erase c = rest := by rw [hQ, List.erase_cons_head]
  have hlist := h.isList .terminated
  have hlive := ((h.mem _ c).1 hmem).1
  rw [hQ] at hlist
  have hr : Relinked (m.setQueue .terminated (some c)) (m.setQueue .terminated (m.next c))
      .terminated (Q .terminated) ((Q .terminated).erase c) := by
    rw [herase]
    exact ⟨m.next c, m.next, rfl, hlist.2, fun _ _ _ => rfl⟩
  have h₁ := h.take hmem hr
  rw [herase] at h₁
  have h₂ := h₁.drop hlive
  have hpid : m.pidOf c < processMaxCount := h.pidOf_lt hlive
  refine h₂.of_eq (pcb_reap c) (processes_reap c) ?_ (activeProcesses_reap c) ?_
  · cases hu : (m.pcb c).userStack <;>
      simp only [ProcessManager.reap, hu, setPidInUse, ProcessManager.free] <;>
      rw [if_pos (by exact hpid)] <;> rfl
  · funext q
    cases hu : (m.pcb c).userStack <;>
      simp only [ProcessManager.reap, hu, setPidInUse, ProcessManager.free] <;>
      split_ifs <;> cases q <;> rfl

/-- The clean-up loop empties the terminated queue and removes its processes from the table. -/
lemma Inv.cleanupLoop {rest : List Ptr} {fuel : ℕ}
    (h : Inv (m.setQueue .terminated rest.head?) Q none cur) (hcur : m.currentProcess = cur)
    (hQ : Q .terminated = rest) (hf : rest.length < fuel) :
    ∃ m' Q', cleanupLoop fuel rest.head? m = some m' ∧
      Inv (m'.setQueue .terminated none) Q' none cur ∧ m'.currentProcess = cur ∧
      ∀ i r, m.processes i = some r → m'.processes i = some r ∨ r ∈ rest := by
  induction rest generalizing m Q fuel with
  | nil =>
    obtain ⟨fuel, rfl⟩ : ∃ k, fuel = k + 1 := ⟨fuel - 1, by simp at hf; omega⟩
    exact ⟨m, Q, rfl, h, hcur, fun _ _ hr => .inl hr⟩
  | cons c rest ih =>
    obtain ⟨fuel, rfl⟩ : ∃ k, fuel = k + 1 := ⟨fuel - 1, by simp at hf; omega⟩
    simp only [List.length_cons] at hf
    have hlist := h.isList .terminated
    rw [hQ] at hlist
    have hnext : m.next c = rest.head? := hlist.2.head_eq
    have h₁ := h.reap hQ
    rw [hnext] at h₁
    have hcur₁ : (m.reap c).currentProcess = cur := (currentProcess_reap c).trans hcur
    have hproc₁ : (m.reap c).processes = Function.update m.processes (m.pidOf c) none :=
      processes_reap c
    obtain ⟨m', Q', hcl, hi, hc', hp'⟩ := ih h₁ hcur₁ (by rw [Function.update_self])
      (show rest.length < fuel by omega)
    refine ⟨m', Q', ?_, hi, hc', fun i r hr => ?_⟩
    · simp only [List.head?_cons, ProcessManager.cleanupLoop, hnext]
      exact hcl
    · by_cases e : i = m.pidOf c
      · have hlive := ((h.mem .terminated c).1 (by simp [hQ])).1
        have hself : m.processes (m.pidOf c) = some c := h.processes_pidOf hlive
        rw [e, hself] at hr
        obtain rfl := Option.some.inj hr
        exact .inr (by simp)
      · rcases hp' i r (by rw [hproc₁, Function.update_of_ne e]; exact hr) with h' | h'
        · exact .inl h'
        · exact .inr (by simp [h'])

/-- The rest of `process_manager_tick`; it takes only terminated processes off the table. -/
lemma WellFormed.tickTail (h : WellFormed m) :
    ∃ m', m.processManagerTickTail = some m' ∧ WellFormed m' ∧
      m'.currentProcess = m.currentProcess ∧
      ∀ i r, m.processes i = some r →
        m'.processes i = some r ∨ (m.pcb r).state = .terminated := by
  obtain ⟨Q, h⟩ := h
  obtain ⟨m₁, Q₁, hw, h₁, hc₁, ht₁, hp₁, -, -⟩ := h.wakeLoop rfl (List.nil_append _).symm
    (h.length_lt .blocked)
  have hb : (Q .blocked).head? = m.blockedQueue := (h.isList .blocked).head_eq.symm
  rw [hb] at hw
  rw [processManagerTickTail, hw]
  simp only [Option.bind_eq_bind, Option.bind_some]
  have ht : (Q₁ .terminated).head? = m₁.terminatedQueue := (h₁.isList .terminated).head_eq.symm
  split_ifs with h100
  · have hself : m₁.setQueue .terminated (Q₁ .terminated).head? = m₁ := by
      rw [ht]
      rfl
    obtain ⟨m₂, Q₂, hcl, h₂, hc₂, hp₂⟩ := Inv.cleanupLoop (m := m₁) (Q := Q₁) (by rw [hself]; exact h₁)
      hc₁ rfl (h₁.length_lt .terminated)
    rw [ht] at hcl
    refine ⟨m₂.setQueue .terminated none, by rw [hcl]; rfl, ⟨Q₂, ?_⟩, hc₂, fun i r hr => ?_⟩
    · show Inv (m₂.setQueue .terminated none) Q₂ none m₂.currentProcess
      rw [hc₂]
      exact h₂
    · rcases hp₂ i r (by rw [hp₁]; exact hr) with h' | h'
      · exact .inl h'
      · rw [ht₁] at h'
        exact .inr (h.state_of_mem_terminated h')
  · exact ⟨m₁, rfl, ⟨Q₁, by rw [hc₁]; exact h₁⟩, hc₁, fun i r hr => .inl (by rw [hp₁]; exact hr)⟩

/-- The rest of `process_manager_tick` makes a blocked process ready if its time has come, and else leaves
it as it is. -/
lemma WellFormed.tickTail_blocked (h : WellFormed m) (hp : m.Live p) (hblocked : (m.pcb p).state = .blocked)
    (htail : m.processManagerTickTail = some m') :
    m'.systemTicks = m.systemTicks ∧ (m.Due p → (m'.pcb p).state = .ready) ∧
      (¬ m.Due p → (m'.pcb p).state = .blocked ∧ (m'.pcb p).wakeupTime = (m.pcb p).wakeupTime) := by
  obtain ⟨Q, h⟩ := h
  obtain ⟨m₁, Q₁, hw, -, -, -, -, hwake, hkeep⟩ := h.wakeLoop rfl (List.nil_append _).symm
    (h.length_lt .blocked)
  have hhead : (Q .blocked).head? = m.blockedQueue := (h.isList .blocked).head_eq.symm
  rw [hhead] at hw
  have hmem : p ∈ Q .blocked := (h.mem _ p).2 ⟨hp, by simp, by rw [Process.home, hblocked]⟩
  -- the clean-up changes no control block
  have hpcb : m'.pcb = m₁.pcb ∧ m'.systemTicks = m₁.systemTicks := by
    rw [processManagerTickTail, hw, Option.bind_eq_bind, Option.bind_some] at htail
    split_ifs at htail with h100
    · obtain ⟨m₂, hc, htail⟩ := Option.bind_eq_some_iff.1 htail
      obtain rfl := Option.some.inj htail
      have hticks := systemTicks_cleanupLoop hc
      exact ⟨(cleanupLoop_effect hc).1, hticks⟩
    · obtain rfl := Option.some.inj htail
      exact ⟨rfl, rfl⟩
  rw [hpcb.1, hpcb.2, (wakeLoop_moved hw).systemTicks]
  refine ⟨rfl, hwake p hmem, fun hnot => ?_⟩
  obtain ⟨hs, hwt⟩ := hkeep p fun hin => hnot hin.2
  exact ⟨hs.trans hblocked, hwt⟩

end Jarvis.ProcessManager
