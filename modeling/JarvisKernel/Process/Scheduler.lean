import Mathlib.Data.Prod.Lex
import Mathlib.Order.Interval.Finset.Nat
import JarvisKernel.Process.Operations
import JarvisKernel.Process.Effects

set_option relaxedAutoImplicit false
set_option autoImplicit false

/-!
# What `schedule` chooses

`schedule` puts the running process back into a ready queue, one level lower if its slice is used up, and
then takes the first process of the first ready queue that is not empty. The state may be any one in which
the ready queues are lists in the order of PIDs: PIDs may repeat, and nothing is said of the table, the
bitmap, the blocked queue and the terminated queue.

## Main definitions

* `Jarvis.ProcessManager.ReadyLists` — the ready queues are lists in the order of PIDs.
* `Jarvis.ProcessManager.Competes`, `Jarvis.ProcessManager.rank` — the processes that can be chosen, and
  how they are compared.
* `Jarvis.ProcessManager.Schedules` — the specification.

## Main results

* `Jarvis.ProcessManager.schedule_schedules` — `schedule` meets its specification.
-/

namespace Jarvis.ProcessManager

open LinkedList

variable {m m' : ProcessManager} {Q : ℕ → List Ptr} {p c : Ptr} {esp i k : ℕ}

/-! ## The specification -/

/-- The ready queues are the lists `Q`: each holds ready processes of its priority, in the order of PIDs. -/
structure ReadyLists (m : ProcessManager) (Q : ℕ → List Ptr) : Prop where
  isList : ∀ i < maxPriorityLevels, IsList m.next (m.queue (.ready i)) (Q i)
  sorted : ∀ i < maxPriorityLevels, (Q i).Pairwise fun p r => m.pidOf p ≤ m.pidOf r
  ready : ∀ i < maxPriorityLevels, ∀ p ∈ Q i, (m.pcb p).state = .ready ∧ (m.pcb p).priority = i

/-- The states in which `schedule` is called: the ready queues are lists of control blocks, which have
addresses of 32 bits, and the current process is running and in none of them. -/
structure Schedulable (m : ProcessManager) (Q : ℕ → List Ptr) : Prop extends ReadyLists m Q where
  address : ∀ i < maxPriorityLevels, ∀ p ∈ Q i, 0 < p ∧ p < 2 ^ 32
  current : ∀ c, m.currentProcess = some c → (m.pcb c).state = .running ∧
    (m.pcb c).priority < maxPriorityLevels ∧ ∀ i < maxPriorityLevels, c ∉ Q i

/-- The processes that can be chosen: those that are ready, and the current one. -/
def Competes (m : ProcessManager) (Q : ℕ → List Ptr) (p : Ptr) : Prop :=
  (∃ i < maxPriorityLevels, p ∈ Q i) ∨ m.currentProcess = some p

/-- Priority and PID, in lexicographic order; the current process counts after its demotion. -/
def rank (m : ProcessManager) (esp : ℕ) (p : Ptr) : ℕ ×ₗ ℕ :=
  toLex (((m.preemptCurrent esp).pcb p).priority, m.pidOf p)

/-- The result `e` of `schedule` and the manager `m'` after it: the process of the least rank is current and
running, and all others are in the ready queues. The context of the old process was saved, and else all
processes are as before. -/
structure Schedules (m : ProcessManager) (Q : ℕ → List Ptr) (esp : ℕ) (m' : ProcessManager) (e : ℕ) :
    Prop where
  context : SameContext (m.preemptCurrent esp) m'
  pids : ∀ p, m'.pidOf p = m.pidOf p
  least : ∀ p, m'.currentProcess = some p → Competes m Q p ∧
    (∀ r, Competes m Q r → m.rank esp p ≤ m.rank esp r) ∧ (m'.pcb p).state = .running ∧
    e = (m'.pcb p).regs
  idle : m'.currentProcess = none → (∀ p, ¬ Competes m Q p) ∧ e = esp
  queues : ∃ Q', ReadyLists m' Q' ∧ ∀ i < maxPriorityLevels, ∀ p, p ∈ Q' i ↔
    Competes m Q p ∧ m'.currentProcess ≠ some p ∧ (m'.pcb p).priority = i

/-! ## Ready queues -/

/-- A process is in one ready queue only. -/
lemma ReadyLists.level_unique (h : ReadyLists m Q) (hi : i < maxPriorityLevels)
    (hk : k < maxPriorityLevels) (hp : p ∈ Q i) (hp' : p ∈ Q k) : i = k :=
  (h.ready i hi p hp).2.symm.trans (h.ready k hk p hp').2

/-- A process that is ready is in the queue of its priority. -/
lemma ReadyLists.mem_iff (h : ReadyLists m Q) (hi : i < maxPriorityLevels) (p : Ptr) :
    p ∈ Q i ↔ (∃ k < maxPriorityLevels, p ∈ Q k) ∧ (m.pcb p).priority = i := by
  constructor
  · intro hp
    exact ⟨⟨i, hi, hp⟩, (h.ready i hi p hp).2⟩
  · rintro ⟨⟨k, hk, hp⟩, hprio⟩
    rwa [← (h.ready k hk p hp).2.symm.trans hprio]

/-- Taking the first process of a queue takes it from all queues. -/
lemma ReadyLists.mem_update_iff (h : ReadyLists m Q) (hi : i < maxPriorityLevels) {l : List Ptr}
    (hQ : Q i = p :: l) (hk : k < maxPriorityLevels) (r : Ptr) :
    r ∈ Function.update Q i l k ↔ r ∈ Q k ∧ r ≠ p := by
  have hnodup : p ∉ l := by
    have hnd := (h.isList i hi).nodup
    rw [hQ] at hnd
    exact (List.nodup_cons.1 hnd).1
  by_cases hki : k = i
  · rw [hki, Function.update_self, hQ]
    constructor
    · intro hr
      exact ⟨List.mem_cons_of_mem p hr, ne_of_mem_of_not_mem hr hnodup⟩
    · rintro ⟨hr, hne⟩
      exact (List.mem_cons.1 hr).resolve_left hne
  · rw [Function.update_of_ne hki]
    refine (and_iff_left_of_imp fun hr => ?_).symm
    rintro rfl
    exact hki (h.level_unique hk hi hr (by simp [hQ]))

/-- The ready queues do not depend on other data. -/
lemma ReadyLists.congr (h : ReadyLists m Q) (hqueue : ∀ i, m'.queue (.ready i) = m.queue (.ready i))
    (hpcb : ∀ i < maxPriorityLevels, ∀ p ∈ Q i, m'.pcb p = m.pcb p) : ReadyLists m' Q := by
  refine ⟨fun i hi => ?_, fun i hi => ?_, fun i hi p hp => ?_⟩
  · rw [hqueue]
    refine (h.isList i hi).congr fun p hp => ?_
    rw [next, next, hpcb i hi p hp]
  · refine (h.sorted i hi).imp_of_mem fun {p r} hp hr hle => ?_
    rw [pidOf, pidOf, hpcb i hi p hp, hpcb i hi r hr]
    exact hle
  · rw [hpcb i hi p hp]
    exact h.ready i hi p hp

/-- One ready queue is relinked. -/
lemma ReadyLists.relinked (h : ReadyLists m Q) {l : List Ptr} (hk : k < maxPriorityLevels)
    (hrel : Relinked m m' (.ready k) (Q k) l) (hsorted : l.Pairwise fun p r => m.pidOf p ≤ m.pidOf r)
    (hready : ∀ p ∈ l, (m.pcb p).state = .ready ∧ (m.pcb p).priority = k) :
    ReadyLists m' (Function.update Q k l) := by
  have hdata := hrel.sameData.pcb
  have hpid : m'.pidOf = m.pidOf := by
    funext p
    rw [pidOf, pidOf, hdata p]
  obtain ⟨head, nx, rfl, hlist, hother⟩ := hrel
  refine ⟨fun i hi => ?_, fun i hi => ?_, fun i hi p hp => ?_⟩
  · rw [next_withNext, queue_withNext]
    by_cases hik : i = k
    · rw [hik, Function.update_self, queue_setQueue_self]
      exact hlist
    · have hne : QueueId.ready i ≠ .ready k := by
        intro heq
        exact hik (QueueId.ready.inj heq)
      rw [Function.update_of_ne hik, queue_setQueue_of_ne _ hne]
      refine (h.isList i hi).congr fun p hp => hother p (fun hpk => ?_) fun hpl => ?_
      · exact hik (h.level_unique hi hk hp hpk)
      · exact hik ((h.ready i hi p hp).2.symm.trans (hready p hpl).2)
  · rw [hpid]
    by_cases hik : i = k
    · rw [hik, Function.update_self]
      exact hsorted
    · rw [Function.update_of_ne hik]
      exact h.sorted i hi
  · rw [hdata p]
    by_cases hik : i = k
    · rw [hik, Function.update_self] at hp
      rw [hik]
      exact hready p hp
    · rw [Function.update_of_ne hik] at hp
      exact h.ready i hi p hp

/-- A ready queue has fewer processes than there are addresses. -/
lemma Schedulable.length_lt (h : Schedulable m Q) (hi : i < maxPriorityLevels) :
    (Q i).length < walkFuel := by
  have hnodup := (h.isList i hi).nodup
  have hsub : (Q i).toFinset ⊆ Finset.Ico 1 (2 ^ 32) := by
    intro p hp
    obtain ⟨hpos, hlt⟩ := h.address i hi p (List.mem_toFinset.1 hp)
    exact Finset.mem_Ico.2 ⟨hpos, hlt⟩
  have hcard := Finset.card_le_card hsub
  rw [List.toFinset_card_of_nodup hnodup, Nat.card_Ico] at hcard
  have hfuel : walkFuel = 2 ^ 32 := rfl
  omega

/-! ## The two halves of `schedule` -/

/-- The running process is put back in the order of PIDs. -/
lemma Schedulable.requeueCurrent (h : Schedulable m Q) (esp : ℕ) :
    ∃ m₁ Q₁, m.requeueCurrent esp = some m₁ ∧ ReadyLists m₁ Q₁ ∧
      SameData (m.preemptCurrent esp) m₁ ∧
      ∀ i < maxPriorityLevels, ∀ p, p ∈ Q₁ i ↔
        Competes m Q p ∧ ((m.preemptCurrent esp).pcb p).priority = i := by
  unfold ProcessManager.requeueCurrent preemptCurrent Competes
  cases hc : m.currentProcess with
  | none =>
    refine ⟨m, Q, rfl, h.toReadyLists, SameData.refl m, fun i hi p => ?_⟩
    rw [h.mem_iff hi p, or_iff_left (by simp)]
  | some c =>
    obtain ⟨hrun, hprio, hnot⟩ := h.current c hc
    obtain ⟨hpid, hready, -, hlevel⟩ := preempted_fields (m.pcb c) esp hprio
    -- the running process is in no ready queue, so saving it does not matter to the queues
    set m₀ := m.modify c fun x => preempted x esp with hm₀
    have hself : m₀.pcb c = preempted (m.pcb c) esp := Function.update_self ..
    have hother : ∀ p, p ≠ c → m₀.pcb p = m.pcb p := fun p hp => Function.update_of_ne hp ..
    have hlists : ReadyLists m₀ Q := by
      refine h.toReadyLists.congr (fun i => rfl) fun i hi p hp => hother p ?_
      rintro rfl
      exact hnot i hi hp
    obtain ⟨m₁, henq, hrel⟩ := enqueueProcess_relinked (hlists.isList _ hlevel) (hnot _ hlevel)
      (h.length_lt hlevel)
    refine ⟨m₁, _, ?_, hlists.relinked hlevel hrel (sorted_insertByKey (hlists.sorted _ hlevel)) ?_,
      ?_, fun i hi p => ?_⟩
    · dsimp only
      rw [if_pos hrun, hself]
      exact henq
    · intro p hp
      rcases mem_insertByKey.1 hp with rfl | hp
      · rw [hself]
        exact ⟨hready, rfl⟩
      · exact hlists.ready _ hlevel p hp
    · dsimp only
      rw [if_pos hrun]
      exact hrel.sameData
    · dsimp only
      rw [if_pos hrun]
      by_cases hpc : p = c
      · rw [hpc, hself]
        by_cases hi' : i = (preempted (m.pcb c) esp).priority
        · rw [hi', Function.update_self]
          simp
        · rw [Function.update_of_ne hi']
          exact iff_of_false (hnot i hi) fun hor => hi' hor.2.symm
      · have hmem : ∀ l, p ∈ insertByKey m₀.pidOf c l ↔ p ∈ l := by
          intro l
          rw [mem_insertByKey]
          exact ⟨fun hor => hor.resolve_left hpc, .inr⟩
        have hupdate : p ∈ Function.update Q (preempted (m.pcb c) esp).priority
            (insertByKey m₀.pidOf c (Q (preempted (m.pcb c) esp).priority)) i ↔ p ∈ Q i := by
          by_cases hi' : i = (preempted (m.pcb c) esp).priority
          · rw [hi', Function.update_self, hmem]
          · rw [Function.update_of_ne hi']
        rw [hupdate, hother p hpc, h.mem_iff hi p,
          or_iff_left fun hcur => hpc (Option.some.inj hcur).symm]

/-- The search finds every ready queue empty, or takes the first process of the first one that is not. -/
lemma ReadyLists.nextProcess (h : ReadyLists m Q) {levels : List ℕ}
    (hlevels : ∀ i ∈ levels, i < maxPriorityLevels) :
    (nextProcess levels m = (m, none) ∧ ∀ i ∈ levels, Q i = []) ∨
      ∃ before i after p l m', levels = before ++ i :: after ∧ (∀ j ∈ before, Q j = []) ∧
        Q i = p :: l ∧ nextProcess levels m = (m', some p) ∧ Relinked m m' (.ready i) (p :: l) l := by
  induction levels with
  | nil => exact .inl ⟨rfl, by simp⟩
  | cons i levels ih =>
    have hlist := h.isList i (hlevels i List.mem_cons_self)
    rw [ProcessManager.nextProcess]
    cases hQ : Q i with
    | nil =>
      rw [hQ] at hlist
      have hempty : m.dequeueProcess (.ready i) = (m, none) := by
        rw [dequeueProcess, show m.queue (.ready i) = none from hlist]
      rw [hempty]
      rcases ih fun j hj => hlevels j (List.mem_cons_of_mem i hj) with
        ⟨hcode, hall⟩ | ⟨before, k, after, p, l, m', rfl, hbefore, hfound⟩
      · refine .inl ⟨hcode, fun j hj => ?_⟩
        rcases List.mem_cons.1 hj with rfl | hj
        · exact hQ
        · exact hall j hj
      · refine .inr ⟨i :: before, k, after, p, l, m', rfl, fun j hj => ?_, hfound⟩
        rcases List.mem_cons.1 hj with rfl | hj
        · exact hQ
        · exact hbefore j hj
    | cons p l =>
      rw [hQ] at hlist
      obtain ⟨m', hcode, hrel⟩ := dequeueProcess_relinked hlist
      rw [hcode]
      exact .inr ⟨[], i, levels, p, l, m', rfl, by simp, hQ, rfl, hrel⟩

/-! ## The choice -/

/-- A process that can be chosen has a priority in range. -/
lemma Schedulable.priority_lt (h : Schedulable m Q) (hp : Competes m Q p) (esp : ℕ) :
    ((m.preemptCurrent esp).pcb p).priority < maxPriorityLevels := by
  rw [preemptCurrent]
  cases hc : m.currentProcess with
  | none =>
    rcases hp with ⟨i, hi, hp⟩ | hcur
    · rw [(h.ready i hi p hp).2]
      exact hi
    · simp [hc] at hcur
  | some c =>
    obtain ⟨hrun, hprio, hnot⟩ := h.current c hc
    obtain ⟨-, -, -, hlevel⟩ := preempted_fields (m.pcb c) esp hprio
    dsimp only
    rw [if_pos hrun]
    by_cases hpc : p = c
    · rw [hpc]
      show (Function.update m.pcb c _ c).priority < _
      rw [Function.update_self]
      exact hlevel
    · show (Function.update m.pcb c _ p).priority < _
      rw [Function.update_of_ne hpc]
      rcases hp with ⟨i, hi, hp⟩ | hcur
      · rw [(h.ready i hi p hp).2]
        exact hi
      · exact absurd (Option.some.inj (hcur.symm.trans hc)) hpc

/-- Saving the running process does not change PIDs. -/
lemma pidOf_preemptCurrent (m : ProcessManager) (esp : ℕ) :
    (m.preemptCurrent esp).pidOf = m.pidOf := by
  funext p
  rw [preemptCurrent]
  cases m.currentProcess with
  | none => rfl
  | some c =>
    dsimp only
    split_ifs
    · by_cases hpc : p = c
      · rw [hpc]
        show (Function.update m.pcb c _ c).pid = _
        rw [Function.update_self]
        simp only [preempted]
        split_ifs <;> rfl
      · show (Function.update m.pcb c _ p).pid = _
        rw [Function.update_of_ne hpc]
        rfl
    · rfl

/-- `schedule` does not change PIDs. -/
lemma pidOf_schedule {e : ℕ} (h : m.schedule esp = some (m', e)) (p : Ptr) :
    m'.pidOf p = m.pidOf p := by
  have hkeep := (schedule_keeps (g := Process.pid) (fun _ _ _ _ _ => rfl) h).1 p
  rw [← pidOf_preemptCurrent m esp]
  exact hkeep

/-- The levels that come after a level in the search are greater. -/
lemma lt_of_mem_after {before after : List ℕ} {n j : ℕ}
    (h : List.range n = before ++ i :: after) (hj : j ∈ after) : i < j := by
  have hsorted : (List.range n).Pairwise (· < ·) := List.pairwise_lt_range
  rw [h] at hsorted
  exact (List.pairwise_cons.1 (List.pairwise_append.1 hsorted).2.1).1 j hj

/-- **The first process of the first queue that is not empty has the least rank**, if the queues hold the
processes that compete. -/
lemma Schedulable.rank_le (h : Schedulable m Q) {Q₁ : ℕ → List Ptr} {before after : List ℕ} {l : List Ptr}
    (hmem : ∀ j < maxPriorityLevels, ∀ r, r ∈ Q₁ j ↔
      Competes m Q r ∧ ((m.preemptCurrent esp).pcb r).priority = j)
    (hlevels : List.range maxPriorityLevels = before ++ i :: after) (hbefore : ∀ j ∈ before, Q₁ j = [])
    (hQ : Q₁ i = p :: l) (hle : ∀ r ∈ l, m.pidOf p ≤ m.pidOf r) {r : Ptr} (hr : Competes m Q r) :
    m.rank esp p ≤ m.rank esp r := by
  have hi : i < maxPriorityLevels := List.mem_range.1 (by simp [hlevels])
  have hprio := ((hmem i hi p).1 (by simp [hQ])).2
  have hlt := h.priority_lt hr esp
  have hin := (hmem _ hlt r).2 ⟨hr, rfl⟩
  have hlevel := List.mem_range.2 hlt
  rw [rank, rank, Prod.Lex.toLex_le_toLex, hprio]
  rw [hlevels, List.mem_append, List.mem_cons] at hlevel
  rcases hlevel with hj | hj | hj
  · rw [hbefore _ hj] at hin
    simp at hin
  · rw [hj, hQ] at hin
    refine .inr ⟨hj.symm, ?_⟩
    rcases List.mem_cons.1 hin with rfl | hin
    · exact le_rfl
    · exact hle r hin
  · exact .inl (lt_of_mem_after hlevels hj)

/-- Where all queues are empty, nothing runs. -/
lemma schedule_of_none {m₁ m₂ : ProcessManager} (hreq : m.requeueCurrent esp = some m₁)
    (hnext : nextProcess (List.range maxPriorityLevels) m₁ = (m₂, none)) :
    m.schedule esp = some ({ m₂ with currentProcess := none }, esp) := by
  rw [ProcessManager.schedule, hreq]
  simp [hnext]

/-- The process that is taken runs with its saved registers, and nothing else changes. -/
lemma schedule_of_next {m₁ m₂ : ProcessManager} (hreq : m.requeueCurrent esp = some m₁)
    (hnext : nextProcess (List.range maxPriorityLevels) m₁ = (m₂, some p)) :
    ∃ m' e, m.schedule esp = some (m', e) ∧ m'.currentProcess = some p ∧
      (m'.pcb p).state = .running ∧ (∀ r, r ≠ p → m'.pcb r = m₂.pcb r) ∧
      (∀ j, m'.queue (.ready j) = m₂.queue (.ready j)) ∧ e = (m'.pcb p).regs := by
  rw [ProcessManager.schedule, hreq]
  simp only [Option.bind_eq_bind, Option.bind_some, hnext]
  refine ⟨_, _, rfl, rfl, ?_, fun r hr => ?_, fun j => rfl, rfl⟩
  · simp [ProcessManager.modify]
  · exact Function.update_of_ne hr ..

/-- `schedule` chooses the process of the least priority and PID, and loses no other.

**Proof sketch.** After the first half the processes of each level are exactly those that compete at this
level. The search goes through the levels from the least one on, and takes the first process of a list in
the order of PIDs. -/
theorem schedule_schedules (h : Schedulable m Q) (esp : ℕ) :
    ∃ m' e, m.schedule esp = some (m', e) ∧ Schedules m Q esp m' e := by
  obtain ⟨m₁, Q₁, hreq, h₁, hdata, hmem⟩ := h.requeueCurrent esp
  have hcode : ∀ {m' e}, m.schedule esp = some (m', e) → SameContext (m.preemptCurrent esp) m' :=
    fun hcode => (schedule_effect hcode).1
  have hrange : ∀ i ∈ List.range maxPriorityLevels, i < maxPriorityLevels :=
    fun i hi => List.mem_range.1 hi
  rcases h₁.nextProcess hrange with
    ⟨hnext, hempty⟩ | ⟨before, i, after, p, l, m₂, hlevels, hbefore, hQ, hnext, hrel⟩
  · have hschedule := schedule_of_none hreq hnext
    have hnone : ∀ p, ¬ Competes m Q p := by
      intro p hp
      have hlt := h.priority_lt hp esp
      have hin := (hmem _ hlt p).2 ⟨hp, rfl⟩
      rw [hempty _ (List.mem_range.2 hlt)] at hin
      simp at hin
    refine ⟨_, _, hschedule, hcode hschedule, pidOf_schedule hschedule, by simp, fun _ => ⟨hnone, rfl⟩,
      Q₁, h₁.congr (fun i => rfl) fun i _ p _ => rfl, fun i hi p => ?_⟩
    rw [hempty i (List.mem_range.2 hi)]
    exact iff_of_false List.not_mem_nil fun hp => hnone p hp.1
  · have hi : i < maxPriorityLevels := hrange i (by simp [hlevels])
    have hsorted := h₁.sorted i hi
    rw [hQ, List.pairwise_cons] at hsorted
    have h₂ : ReadyLists m₂ (Function.update Q₁ i l) := by
      rw [← hQ] at hrel
      refine h₁.relinked hi hrel hsorted.2 fun r hr => h₁.ready i hi r ?_
      rw [hQ]
      exact List.mem_cons_of_mem p hr
    obtain ⟨m', e, hs, hcur, hrun, hpcb, hqueue, he⟩ := schedule_of_next hreq hnext
    have hcontext := hcode hs
    have hpid : m₁.pidOf = m.pidOf := by
      rw [← pidOf_preemptCurrent m esp]
      funext r
      rw [pidOf, pidOf, hdata.pcb]
    rw [hpid] at hsorted
    refine ⟨m', e, hs, hcontext, pidOf_schedule hs, fun r hr => ?_, fun hnone => ?_,
      Function.update Q₁ i l, h₂.congr hqueue fun j hj r hr => ?_, fun j hj r => ?_⟩
    · obtain rfl : p = r := Option.some.inj (hcur.symm.trans hr)
      have hcompete := ((hmem i hi p).1 (by simp [hQ])).1
      exact ⟨hcompete, fun r => h.rank_le hmem hlevels hbefore hQ hsorted.1, hrun, he⟩
    · rw [hcur] at hnone
      simp at hnone
    · exact hpcb r ((h₁.mem_update_iff hi hQ hj r).1 hr).2
    · -- the process that is taken is in no ready queue any more
      have hne : some p ≠ some r ↔ r ≠ p := by
        rw [ne_eq, Option.some_inj, ne_comm]
      rw [h₁.mem_update_iff hi hQ hj r, hmem j hj r, hcur, hcontext.priority, hne, and_right_comm,
        and_assoc]

/-- The running process has used up its slice, and goes between two ready processes of the next level. -/
def slicedOut : ProcessManager :=
  { processManagerInit
      (fun p =>
        if p = 0x1000 then { pid := 5, priority := 3, state := .ready, next := some 0x3000 }
        else if p = 0x3000 then { pid := 7, priority := 3, state := .ready }
        else { pid := 6, priority := 2, state := .running })
      (fun _ => {}) none 0 with
    readyQueues := fun i => if i = 3 then some 0x1000 else none
    currentProcess := some 0x5000 }

/-- Its ready queues. -/
def slicedOutQueues (i : ℕ) : List Ptr := if i = 3 then [0x1000, 0x3000] else []

/-- A state in which the current process has used up its slice can be scheduled. -/
lemma schedulable_slicedOut : Schedulable slicedOut slicedOutQueues := by
  have hmem : ∀ i p, p ∈ slicedOutQueues i → i = 3 ∧ (p = 0x1000 ∨ p = 0x3000) := by
    intro i p hp
    unfold slicedOutQueues at hp
    split_ifs at hp with hi
    · exact ⟨hi, by simpa using hp⟩
    · simp at hp
  refine ⟨⟨fun i _ => ?_, fun i _ => ?_, fun i _ p hp => ?_⟩, fun i _ p hp => ?_, fun c hc => ?_⟩
  · show IsList slicedOut.next (if i = 3 then some 0x1000 else none) (slicedOutQueues i)
    unfold slicedOutQueues
    split_ifs
    · exact ⟨rfl, rfl, rfl⟩
    · rfl
  · unfold slicedOutQueues
    split_ifs
    · decide
    · exact List.Pairwise.nil
  · obtain ⟨rfl, rfl | rfl⟩ := hmem i p hp
    · exact ⟨rfl, rfl⟩
    · exact ⟨rfl, rfl⟩
  · obtain ⟨-, rfl | rfl⟩ := hmem i p hp
    · decide
    · decide
  · obtain rfl : 0x5000 = c := Option.some.inj hc
    refine ⟨rfl, by decide, fun i _ hi => ?_⟩
    have := (hmem i 0x5000 hi).2
    simp at this

/-- There the current process is demoted, and the next one runs. -/
theorem schedule_schedules_slicedOut :
    slicedOut.currentProcess = some 0x5000 ∧
      ∃ m' e, slicedOut.schedule 0x6000 = some (m', e) ∧
        Schedules slicedOut slicedOutQueues 0x6000 m' e :=
  ⟨rfl, schedule_schedules schedulable_slicedOut 0x6000⟩

end Jarvis.ProcessManager
