import JarvisKernel.Process.Operations

set_option relaxedAutoImplicit false
set_option autoImplicit false

/-!
# The pass over the blocked queue

`process_manager_tick` walks the blocked queue through the links that `unblock_process` rewrites for the
process that it wakes: the process leaves the blocked queue and is linked into a ready queue. The successor
was read before, and it stays the first process of what remains of the queue.

Only what the pass needs of a state is assumed here, not that the state was reached.

## Main definitions

* `Jarvis.ProcessManager.QueuesFit` — the blocked queue and the ready queues of a state.
* `Jarvis.ProcessManager.Woken` — some of the blocked processes were moved to the ready queues.
* `Jarvis.ProcessManager.wakeVisits` — the processes that the pass visits.

## Main results

* `Jarvis.ProcessManager.QueuesFit.unblockProcess` — one process is moved.
* `Jarvis.ProcessManager.wakeLoop_woken` — the pass moves the processes whose time has come.
-/

namespace Jarvis.ProcessManager

open LinkedList

variable {m m' m₁ m₂ : ProcessManager} {blocked rest l₁ : List Ptr} {ready ready' ready₁ ready₂ : ℕ → List Ptr}
  {W W' : Ptr → Bool} {c p : Ptr}

instance decidableDue (m : ProcessManager) (p : Ptr) : Decidable (m.Due p) :=
  inferInstanceAs (Decidable (_ ∧ _))

/-- The blocked queue is a list of blocked processes in the order of their PIDs, and the ready queues are such
lists of other processes, each with the priority of its queue. All these processes are in the process table
under their PIDs, and their priorities are levels of ready queues. -/
structure QueuesFit (m : ProcessManager) (blocked : List Ptr) (ready : ℕ → List Ptr) : Prop where
  blocked_list : IsList m.next m.blockedQueue blocked
  blocked_ascending : Ascending m.pidOf blocked
  blocked_state : ∀ r ∈ blocked, (m.pcb r).state = .blocked
  blocked_priority : ∀ r ∈ blocked, (m.pcb r).priority < maxPriorityLevels
  ready_list : ∀ i < maxPriorityLevels, IsList m.next (m.readyQueues i) (ready i)
  ready_ascending : ∀ i < maxPriorityLevels, Ascending m.pidOf (ready i)
  ready_priority : ∀ i < maxPriorityLevels, ∀ r ∈ ready i, (m.pcb r).priority = i
  disjoint : ∀ i < maxPriorityLevels, ∀ r ∈ ready i, r ∉ blocked
  table : ∀ r, (r ∈ blocked ∨ ∃ i < maxPriorityLevels, r ∈ ready i) →
    m.pidOf r < processMaxCount ∧ m.processes (m.pidOf r) = some r

/-- The blocked processes of which `W` holds were moved to the ready queues of their priorities, and are ready.
The other blocked processes stay in their order. Besides the heads of the queues, the links of their processes
and the states of those that were moved, nothing has changed. -/
structure Woken (m m' : ProcessManager) (blocked : List Ptr) (ready ready' : ℕ → List Ptr) (W : Ptr → Bool) :
    Prop where
  fit : QueuesFit m' (blocked.filter fun r => !W r) ready'
  mem_ready : ∀ i < maxPriorityLevels, ∀ r,
    r ∈ ready' i ↔ r ∈ ready i ∨ r ∈ blocked ∧ W r ∧ (m.pcb r).priority = i
  pcb : ∀ r, m'.pcb r =
    { m.pcb r with next := m'.next r, state := if W r then .ready else (m.pcb r).state }
  links : ∀ r, r ∉ blocked → (∀ i < maxPriorityLevels, r ∉ ready i) → m'.next r = m.next r
  levels : ∀ i, maxPriorityLevels ≤ i → m'.readyQueues i = m.readyQueues i
  frame : m' = { m with readyQueues := m'.readyQueues, blockedQueue := m'.blockedQueue, pcb := m'.pcb }

/-- The processes that the loop over the blocked queue visits. -/
def wakeVisits : ℕ → Option Ptr → ProcessManager → List Ptr
  | 0, _, _ => []
  | _ + 1, none, _ => []
  | fuel + 1, some current, m =>
    let next := m.next current
    current ::
      if m.Due current then
        match m.unblockProcess (m.pcb current).pid with
        | some m' => wakeVisits fuel next m'
        | none => []
      else wakeVisits fuel next m

/-! ## Queues that fit -/

namespace QueuesFit

/-- Different processes of the queues have different PIDs. -/
lemma pid_inj (h : QueuesFit m blocked ready) {r s : Ptr}
    (hr : r ∈ blocked ∨ ∃ i < maxPriorityLevels, r ∈ ready i)
    (hs : s ∈ blocked ∨ ∃ i < maxPriorityLevels, s ∈ ready i) (he : m.pidOf r = m.pidOf s) : r = s := by
  have hr' := (h.table r hr).2
  rw [he, (h.table s hs).2] at hr'
  exact (Option.some.inj hr').symm

/-- The blocked queue is shorter than the fuel of a walk. -/
lemma blocked_length (h : QueuesFit m blocked ready) : blocked.length < walkFuel := by
  have hle : blocked.length ≤ processMaxCount :=
    h.blocked_ascending.length_le fun r hr => (h.table r (.inl hr)).1
  exact hle.trans_lt (by decide)

/-- So is each ready queue. -/
lemma ready_length (h : QueuesFit m blocked ready) {i : ℕ} (hi : i < maxPriorityLevels) :
    (ready i).length < walkFuel := by
  have hle : (ready i).length ≤ processMaxCount :=
    (h.ready_ascending i hi).length_le fun r hr => (h.table r (.inr ⟨i, hi, hr⟩)).1
  exact hle.trans_lt (by decide)

/-- In a state that satisfies the invariant of the process manager the queues fit. -/
lemma of_inv {Q : QueueId → List Ptr} {cur : Option Ptr} (h : Inv m Q none cur) :
    QueuesFit m (Q .blocked) fun i => Q (.ready i) where
  blocked_list := h.isList .blocked
  blocked_ascending := h.ascending .blocked
  blocked_state r hr := h.state_of_mem_blocked hr
  blocked_priority r hr := h.priority r ((h.mem _ r).1 hr).1
  ready_list i _ := h.isList (.ready i)
  ready_ascending i _ := h.ascending (.ready i)
  ready_priority i _ r hr := by
    have hhome := ((h.mem _ r).1 hr).2.2
    simpa [Process.home, h.state_of_mem_ready hr] using hhome
  disjoint i _ r hr hrb := by
    have hready := h.state_of_mem_ready hr
    rw [h.state_of_mem_blocked hrb] at hready
    cases hready
  table r hr := by
    have hlive : m.Live r := by
      rcases hr with hr | ⟨i, -, hr⟩
      · exact ((h.mem _ r).1 hr).1
      · exact ((h.mem _ r).1 hr).1
    exact ⟨h.pidOf_lt hlive, h.processes_pidOf hlive⟩

/-- Nothing is moved. -/
lemma woken_refl (h : QueuesFit m blocked ready) : Woken m m blocked ready ready fun _ => false where
  fit := by simpa using h
  mem_ready := by simp
  pcb r := by simp [next]
  links _ _ _ := rfl
  levels _ _ := rfl
  frame := rfl

end QueuesFit

namespace Woken

/-- Waking changes no priority. -/
lemma priority_eq (h : Woken m m' blocked ready ready' W) (r : Ptr) :
    (m'.pcb r).priority = (m.pcb r).priority := by
  rw [h.pcb r]

/-- A process is due after the pass exactly if it was before. -/
lemma due_iff (h : Woken m m' blocked ready ready' W) (r : Ptr) : m'.Due r ↔ m.Due r := by
  rw [Due, Due, h.pcb r, h.frame]

/-- What is moved in two steps. -/
lemma trans (h₁ : Woken m m₁ blocked ready ready₁ W)
    (h₂ : Woken m₁ m₂ (blocked.filter fun r => !W r) ready₁ ready₂ W') :
    Woken m m₂ blocked ready ready₂ fun r => W r || W' r where
  fit := by simpa [List.filter_filter, Bool.and_comm] using h₂.fit
  mem_ready i hi r := by
    rw [h₂.mem_ready i hi r, h₁.mem_ready i hi r, h₁.priority_eq r]
    by_cases hW : W r <;> simp [hW]
  pcb r := by
    rw [h₂.pcb r, h₁.pcb r]
    by_cases hW : W r <;> simp [hW]
  links r hr hready := by
    have hready₁ : ∀ i < maxPriorityLevels, r ∉ ready₁ i := fun i hi hmem => by
      rcases (h₁.mem_ready i hi r).1 hmem with hmem | ⟨hmem, -⟩
      · exact hready i hi hmem
      · exact hr hmem
    rw [h₂.links r (fun hmem => hr (List.mem_filter.1 hmem).1) hready₁, h₁.links r hr hready]
  levels i hi := by rw [h₂.levels i hi, h₁.levels i hi]
  frame := by rw [h₂.frame, h₁.frame]

end Woken

/-! ## One process -/

/-- The state after process `c` was moved from the blocked queue to the ready queue of its priority. -/
def moved (m : ProcessManager) (c : Ptr) (blockedHead readyHead : Option Ptr) (nx : Ptr → Option Ptr) :
    ProcessManager :=
  { m with
    blockedQueue := blockedHead
    readyQueues := Function.update m.readyQueues (m.pcb c).priority readyHead
    pcb := fun r =>
      { m.pcb r with next := nx r, state := if r = c then .ready else (m.pcb r).state } }

/-- Moving a process between queues changes no PID. -/
lemma pidOf_moved (m : ProcessManager) (c : Ptr) (blockedHead readyHead : Option Ptr) (nx : Ptr → Option Ptr) :
    (m.moved c blockedHead readyHead nx).pidOf = m.pidOf := rfl

/-- The links after the move are the new ones. -/
lemma next_moved (m : ProcessManager) (c : Ptr) (blockedHead readyHead : Option Ptr) (nx : Ptr → Option Ptr) :
    (m.moved c blockedHead readyHead nx).next = nx := rfl

/-- The ready queue of its priority has the new head. -/
lemma readyQueues_moved (m : ProcessManager) (c : Ptr) (blockedHead readyHead : Option Ptr)
    (nx : Ptr → Option Ptr) : (m.moved c blockedHead readyHead nx).readyQueues =
      Function.update m.readyQueues (m.pcb c).priority readyHead := rfl

namespace QueuesFit

/-- What `unblock_process` does to the two queues. -/
lemma unblockProcess_moved (h : QueuesFit m blocked ready) (hc : c ∈ blocked) :
    ∃ blockedHead readyHead nx,
      m.unblockProcess (m.pidOf c) = some (m.moved c blockedHead readyHead nx) ∧
        IsList nx blockedHead (blocked.erase c) ∧
        IsList nx readyHead (insertByKey m.pidOf c (ready (m.pcb c).priority)) ∧
        ∀ r, r ∉ blocked → r ∉ ready (m.pcb c).priority → nx r = m.next r := by
  have hi := h.blocked_priority c hc
  obtain ⟨hpid, htable⟩ := h.table c (.inl hc)
  obtain ⟨m₁, hrem, hrel₁⟩ := removeProcessFromQueue_relinked (q := .blocked) h.blocked_list hc
    (fun r hr he => h.pid_inj (.inl hr) (.inl hc) he) h.blocked_length
  obtain ⟨blockedHead, nx₁, rfl, hlist₁, hother₁⟩ := hrel₁
  have hcready : c ∉ ready (m.pcb c).priority := fun hmem => h.disjoint _ hi c hmem hc
  obtain ⟨m₂, hm₂⟩ : ∃ m₂, m₂ = ((m.setQueue .blocked blockedHead).withNext nx₁).modify c
      fun x => { x with state := .ready } := ⟨_, rfl⟩
  have hpcb : ∀ r, m₂.pcb r =
      { m.pcb r with next := nx₁ r, state := if r = c then .ready else (m.pcb r).state } := by
    intro r
    rw [hm₂, modify]
    by_cases hr : r = c
    · subst hr
      simp
    · simp [hr]
  have hnext : m₂.next = nx₁ := funext fun r => by rw [next, hpcb r]
  have hpidOf : m₂.pidOf = m.pidOf := funext fun r => by rw [pidOf, hpcb r]; rfl
  have hqueue : m₂.queue (.ready (m.pcb c).priority) = m.readyQueues (m.pcb c).priority := by
    rw [hm₂]
    rfl
  have hready : IsList m₂.next (m₂.queue (.ready (m.pcb c).priority)) (ready (m.pcb c).priority) := by
    rw [hqueue, hnext]
    refine (h.ready_list _ hi).congr fun r hr => hother₁ r (h.disjoint _ hi r hr) fun hmem => ?_
    exact h.disjoint _ hi r hr (List.mem_of_mem_erase hmem)
  obtain ⟨m₃, henq, hrel₃⟩ := enqueueProcess_relinked hready hcready (h.ready_length hi)
  obtain ⟨readyHead, nx₃, rfl, hlist₃, hother₃⟩ := hrel₃
  rw [hpidOf] at hlist₃ hother₃
  refine ⟨blockedHead, readyHead, nx₃, ?_, ?_, hlist₃, fun r hr hrready => ?_⟩
  · rw [unblockProcess, if_neg (by omega), htable]
    simp only [h.blocked_state c hc, ne_eq, not_true_eq_false, if_false]
    rw [hrem, Option.bind_eq_bind, Option.bind_some]
    dsimp only
    rw [← hm₂, hpcb c]
    dsimp only
    rw [henq, moved, withNext, pcb_setQueue]
    simp only [hpcb]
    rw [hm₂]
    rfl
  · refine hlist₁.congr fun r hr => ?_
    have hrc : r ≠ c := fun e => (h.blocked_list.nodup.mem_erase_iff.1 hr).1 e
    have hrready : r ∉ ready (m.pcb c).priority := fun hmem =>
      h.disjoint _ hi r hmem (List.mem_of_mem_erase hr)
    rw [hother₃ r hrready (by simp [hrc, hrready]), hnext]
  · have hrc : r ≠ c := fun e => hr (e ▸ hc)
    rw [hother₃ r hrready (by simp [hrc, hrready]), hnext]
    exact hother₁ r hr fun hmem => hr (List.mem_of_mem_erase hmem)

/-- **One process is moved**, and the queues fit again. -/
lemma unblockProcess (h : QueuesFit m blocked ready) (hc : c ∈ blocked) :
    ∃ m' ready', m.unblockProcess (m.pidOf c) = some m' ∧
      Woken m m' blocked ready ready' fun r => decide (r = c) := by
  have hi := h.blocked_priority c hc
  obtain ⟨blockedHead, readyHead, nx, hcode, hblocked, hready, hother⟩ := h.unblockProcess_moved hc
  have hsplit : blocked.filter (fun r => !decide (r = c)) = blocked.erase c := by
    rw [h.blocked_list.nodup.erase_eq_filter]
    exact List.filter_congr fun r _ => by simp [bne, beq_eq_decide]
  have hmem : ∀ i r, r ∈ Function.update ready (m.pcb c).priority
      (insertByKey m.pidOf c (ready (m.pcb c).priority)) i ↔
        r ∈ ready i ∨ r = c ∧ (m.pcb c).priority = i := by
    intro i r
    by_cases hic : i = (m.pcb c).priority
    · subst hic
      simp [or_comm]
    · simp [Function.update_of_ne hic, Ne.symm hic]
  have hfit : QueuesFit (m.moved c blockedHead readyHead nx) (blocked.erase c)
      (Function.update ready (m.pcb c).priority (insertByKey m.pidOf c (ready (m.pcb c).priority))) := by
    have hsub := List.erase_sublist (a := c) (l := blocked)
    refine ⟨hblocked, h.blocked_ascending.sublist hsub, fun r hr => ?_,
      fun r hr => h.blocked_priority r (hsub.subset hr), fun i hlt => ?_, fun i hlt => ?_,
      fun i hlt r hr => ?_, fun i hlt r hr hrb => ?_, fun r hr => ?_⟩
    · have hrc : r ≠ c := (h.blocked_list.nodup.mem_erase_iff.1 hr).1
      simp only [moved, if_neg hrc]
      exact h.blocked_state r (hsub.subset hr)
    · rw [next_moved, readyQueues_moved]
      by_cases hic : i = (m.pcb c).priority
      · subst hic
        rwa [Function.update_self, Function.update_self]
      · rw [Function.update_of_ne hic, Function.update_of_ne hic]
        refine (h.ready_list i hlt).congr fun r hr => hother r (h.disjoint i hlt r hr) fun hr' => hic ?_
        rw [← h.ready_priority i hlt r hr, h.ready_priority _ hi r hr']
    · rw [pidOf_moved]
      by_cases hic : i = (m.pcb c).priority
      · subst hic
        rw [Function.update_self]
        refine ascending_insertByKey (h.ready_ascending _ hi) fun r hr he => ?_
        exact h.disjoint _ hi r hr (h.pid_inj (.inr ⟨_, hi, hr⟩) (.inl hc) he ▸ hc)
      · rw [Function.update_of_ne hic]
        exact h.ready_ascending i hlt
    · rcases (hmem i r).1 hr with hr | ⟨rfl, hprio⟩
      · exact h.ready_priority i hlt r hr
      · exact hprio
    · have hrb' := h.blocked_list.nodup.mem_erase_iff.1 hrb
      rcases (hmem i r).1 hr with hr | ⟨rfl, -⟩
      · exact h.disjoint i hlt r hr hrb'.2
      · exact hrb'.1 rfl
    · refine h.table r ?_
      rcases hr with hr | ⟨i, hlt, hr⟩
      · exact .inl (hsub.subset hr)
      · rcases (hmem i r).1 hr with hr | ⟨rfl, -⟩
        · exact .inr ⟨i, hlt, hr⟩
        · exact .inl hc
  refine ⟨_, _, hcode, by rwa [hsplit], fun i hlt r => ?_, fun r => ?_, fun r hr hrready => ?_,
    fun i hle => ?_, rfl⟩
  · rw [hmem i r]
    refine or_congr_right ?_
    rw [decide_eq_true_eq]
    constructor
    · rintro ⟨rfl, hprio⟩
      exact ⟨hc, rfl, hprio⟩
    · rintro ⟨-, rfl, hprio⟩
      exact ⟨rfl, hprio⟩
  · simp [moved, next]
  · exact hother r hr (hrready _ hi)
  · exact Function.update_of_ne (by omega) _ _

end QueuesFit

/-! ## The pass -/

/-- The loop, started anywhere in the blocked queue.

**Proof sketch.** Induction on the part of the queue still to visit. A process that is woken leaves the queue
in front of that part, so the successor that was read before is the first process of what remains. -/
lemma QueuesFit.wakeLoop {fuel : ℕ} (h : QueuesFit m (l₁ ++ rest) ready) (hf : rest.length < fuel) :
    ∃ m' ready', wakeLoop fuel rest.head? m = some m' ∧ wakeVisits fuel rest.head? m = rest ∧
      Woken m m' (l₁ ++ rest) ready ready' fun r => decide (r ∈ rest ∧ m.Due r) := by
  induction rest generalizing m l₁ ready fuel with
  | nil =>
    obtain ⟨fuel, rfl⟩ : ∃ k, fuel = k + 1 := ⟨fuel - 1, by simp at hf; omega⟩
    exact ⟨m, ready, rfl, rfl, by simpa using h.woken_refl⟩
  | cons c rest ih =>
    obtain ⟨fuel, rfl⟩ : ∃ k, fuel = k + 1 := ⟨fuel - 1, by simp at hf; omega⟩
    rw [List.length_cons] at hf
    have hnext : m.next c = rest.head? := h.blocked_list.suffix.2.head_eq
    obtain ⟨-, hnodup, hdisj⟩ := List.nodup_append.1 h.blocked_list.nodup
    have hcrest : c ∉ rest := (List.nodup_cons.1 hnodup).1
    simp only [List.head?_cons, ProcessManager.wakeLoop, wakeVisits, hnext]
    by_cases hdue : m.Due c
    · obtain ⟨m₁, ready₁, hcode, hwoken₁⟩ := h.unblockProcess (c := c) (by simp)
      have hsplit : (l₁ ++ c :: rest).filter (fun r => !decide (r = c)) = l₁ ++ rest := by
        have hl₁ : ∀ r ∈ l₁, (!decide (r = c)) = true := fun r hr => by
          simpa using hdisj r hr c (by simp)
        have hrest : ∀ r ∈ rest, (!decide (r = c)) = true := fun r hr => by
          simpa using fun e : r = c => hcrest (e ▸ hr)
        rw [List.filter_append, List.filter_eq_self.2 hl₁, List.filter_cons_of_neg (by simp),
          List.filter_eq_self.2 hrest]
      obtain ⟨m', ready', hloop, hvisits, hwoken⟩ := ih (hsplit ▸ hwoken₁.fit)
        (show rest.length < fuel by omega)
      have hcode' : m.unblockProcess (m.pcb c).pid = some m₁ := hcode
      refine ⟨m', ready', ?_, ?_, ?_⟩
      · rw [if_pos (by exact hdue), hcode']
        exact hloop
      · rw [if_pos hdue, hcode']
        dsimp only
        rw [hvisits]
      · rw [← hsplit] at hwoken
        convert hwoken₁.trans hwoken using 2 with r
        by_cases hrc : r = c
        · subst hrc
          simp [hdue]
        · simp [hrc, hwoken₁.due_iff r]
    · have hsplit : l₁ ++ c :: rest = (l₁ ++ [c]) ++ rest := by simp
      rw [hsplit] at h
      obtain ⟨m', ready', hloop, hvisits, hwoken⟩ := ih h (show rest.length < fuel by omega)
      refine ⟨m', ready', ?_, ?_, ?_⟩
      · rw [if_neg (by exact hdue)]
        exact hloop
      · rw [if_neg hdue, hvisits]
      · rw [hsplit]
        convert hwoken using 2 with r
        by_cases hrc : r = c
        · subst hrc
          simp [hdue]
        · simp [hrc]

/-- **The pass over the blocked queue** moves exactly the blocked processes whose time has come to the ready
queues of their priorities, keeps the others in their order, and visits each blocked process once. -/
theorem wakeLoop_woken (h : QueuesFit m blocked ready) :
    ∃ m' ready', wakeLoop walkFuel m.blockedQueue m = some m' ∧
      (Woken m m' blocked ready ready' fun r => decide (r ∈ blocked ∧ m.Due r)) ∧
      wakeVisits walkFuel m.blockedQueue m = blocked ∧ blocked.Nodup := by
  have hwhole : QueuesFit m ([] ++ blocked) ready := h
  obtain ⟨m', ready', hloop, hvisits, hwoken⟩ := hwhole.wakeLoop h.blocked_length
  rw [← h.blocked_list.head_eq] at hloop hvisits
  exact ⟨m', ready', hloop, hwoken, hvisits, h.blocked_list.nodup⟩

/-- Three blocked processes with the PIDs 1 to 3, of which the first and the last wait until tick 5, and a
ready one with the PID 4. -/
def threeBlocked : ProcessManager :=
  { processManagerInit
      (fun r =>
        { pid := r / 4096
          state := if r = 16384 then .ready else .blocked
          wakeupTime := if r = 8192 then 9 else 5
          next := if r = 4096 then some 8192 else if r = 8192 then some 12288 else none })
      (fun _ => {}) none 0 with
    processes := fun i => some (i * 4096)
    blockedQueue := some 4096
    readyQueues := fun i => if i = 0 then some 16384 else none
    systemTicks := 6 }

/-- The first and the last of them are woken. -/
theorem wakeLoop_woken_threeBlocked :
    ∃ m' ready', wakeLoop walkFuel threeBlocked.blockedQueue threeBlocked = some m' ∧
      (Woken threeBlocked m' [4096, 8192, 12288] (fun i => if i = 0 then [16384] else []) ready'
        fun r => decide (r ∈ [4096, 8192, 12288] ∧ threeBlocked.Due r)) ∧
      wakeVisits walkFuel threeBlocked.blockedQueue threeBlocked = [4096, 8192, 12288] ∧
      [4096, 8192, 12288].Nodup := by
  refine wakeLoop_woken ⟨⟨rfl, rfl, rfl, rfl⟩, by rw [Ascending]; decide, by decide, by decide,
    fun i _ => ?_, fun i _ => ?_, by decide, by decide, fun r hr => ?_⟩
  · by_cases hi : i = 0
    · subst hi
      exact ⟨rfl, rfl⟩
    · simp [threeBlocked, hi]
  · by_cases hi : i = 0
    · simp [hi, Ascending]
    · simp [hi, Ascending]
  · have hmem : r ∈ [4096, 8192, 12288, 16384] := by
      rcases hr with hr | ⟨i, -, hr⟩
      · exact List.mem_append_left [16384] hr
      · by_cases hi : i = 0
        · simp only [hi, if_true, List.mem_singleton] at hr
          simp [hr]
        · simp [hi] at hr
    clear hr
    revert r
    decide

end Jarvis.ProcessManager
