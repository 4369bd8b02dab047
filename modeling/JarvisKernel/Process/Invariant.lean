import JarvisKernel.Process.Queue

set_option relaxedAutoImplicit false
set_option autoImplicit false

/-!
# The invariant of the process manager

Every process of the table is in the one place its state names, every queue is a list in
ascending order of PIDs, and the PID bitmap and the process counter agree with the table.

The operations move processes from place to place, so the invariant is stated with at most one
process *held*: a process of the table that is in no place for the moment. An operation takes a
process out of its place, changes its control block while it is held, and puts it back; there is
one lemma for each of these moves, and the operations are compositions of them. For the same
reason the running process is a parameter and not the field `currentProcess`, which `schedule`
leaves out of date between its two halves.

## Main definitions

* `Jarvis.ProcessManager.Live` — the process is in the process table.
* `Jarvis.Process.home` — the queue that the state of a process names.
* `Jarvis.ProcessManager.Inv` — the invariant, for given queue contents.

## Main results

* `Jarvis.ProcessManager.Inv.take`, `Jarvis.ProcessManager.Inv.put` — a process leaves its queue
  and enters the one its state names.
* `Jarvis.ProcessManager.Inv.stop`, `Jarvis.ProcessManager.Inv.start` — a process leaves and
  enters the processor.
* `Jarvis.ProcessManager.Inv.modify` — the control block of the held process changes.
* `Jarvis.ProcessManager.Inv.add`, `Jarvis.ProcessManager.Inv.drop` — a process enters and leaves
  the table.
-/

namespace Jarvis

/-- The queue that the state of a process names. -/
def Process.home (x : Process) : Option QueueId :=
  match x.state with
  | .ready => some (.ready x.priority)
  | .blocked => some .blocked
  | .terminated => some .terminated
  | _ => none

namespace ProcessManager

open LinkedList

/-- The process is in the process table. -/
def Live (m : ProcessManager) (p : Ptr) : Prop := ∃ i, m.processes i = some p

/-- The invariant: `Q` are the processes of each queue, `held` is a process out of its place, and
`cur` is the running process. -/
structure Inv (m : ProcessManager) (Q : QueueId → List Ptr) (held cur : Option Ptr) : Prop where
  isList : ∀ q, IsList m.next (m.queue q) (Q q)
  ascending : ∀ q, Ascending m.pidOf (Q q)
  mem : ∀ q r, r ∈ Q q ↔ m.Live r ∧ held ≠ some r ∧ (m.pcb r).home = some q
  running : ∀ r, cur = some r ↔ m.Live r ∧ held ≠ some r ∧ (m.pcb r).state = .running
  placed : ∀ r, m.Live r → held ≠ some r →
    (m.pcb r).state ≠ .created ∧ (m.pcb r).state ≠ .waiting
  pid : ∀ i r, m.processes i = some r → i < processMaxCount ∧ m.pidOf r = i
  bitmap : ∀ i < processMaxCount, Bitmap.test m.processBitmap i = (m.processes i).isSome
  active : m.activeProcesses = Bitmap.card m.processBitmap processMaxCount
  priority : ∀ r, m.Live r → (m.pcb r).priority < maxPriorityLevels

variable {m m' : ProcessManager} {Q : QueueId → List Ptr} {held cur : Option Ptr} {q : QueueId}
  {p : Ptr} {l' : List Ptr}

/-! ## Consequences -/

/-- A process of the table is found there under its own PID. -/
lemma Inv.processes_pidOf (h : Inv m Q held cur) (hp : m.Live p) :
    m.processes (m.pidOf p) = some p := by
  obtain ⟨i, hi⟩ := hp
  rw [(h.pid i p hi).2, hi]

/-- Different processes of the table have different PIDs. -/
lemma Inv.pid_inj (h : Inv m Q held cur) {r s : Ptr} (hr : m.Live r) (hs : m.Live s)
    (he : m.pidOf r = m.pidOf s) : r = s := by
  have h₁ := h.processes_pidOf hr
  rw [he, h.processes_pidOf hs] at h₁
  simpa using h₁.symm

/-- The PID of a process of the table is in range. -/
lemma Inv.pidOf_lt (h : Inv m Q held cur) (hp : m.Live p) : m.pidOf p < processMaxCount :=
  (h.pid _ _ (h.processes_pidOf hp)).1

/-- A queue is short enough for the loops over it to end. -/
lemma Inv.length_lt (h : Inv m Q held cur) (q : QueueId) : (Q q).length < walkFuel := by
  have hle : (Q q).length ≤ processMaxCount :=
    (h.ascending q).length_le fun r hr => h.pidOf_lt ((h.mem q r).1 hr).1
  have hlt : processMaxCount < walkFuel := by decide
  omega

/-- The fields that are not in the invariant may change. -/
lemma Inv.of_eq (h : Inv m Q held cur) (hpcb : m'.pcb = m.pcb)
    (hproc : m'.processes = m.processes) (hmap : m'.processBitmap = m.processBitmap)
    (hact : m'.activeProcesses = m.activeProcesses) (hq : m'.queue = m.queue) :
    Inv m' Q held cur := by
  have hnext : m'.next = m.next := by funext r; simp only [next, hpcb]
  have hpid : m'.pidOf = m.pidOf := by funext r; simp only [pidOf, hpcb]
  have hlive : ∀ r, m'.Live r ↔ m.Live r := by intro r; simp only [Live, hproc]
  refine ⟨?_, ?_, ?_, ?_, ?_, ?_, ?_, ?_, ?_⟩
  · rw [hnext, hq]
    exact h.isList
  · rw [hpid]
    exact h.ascending
  · simpa only [hlive, hpcb] using h.mem
  · simpa only [hlive, hpcb] using h.running
  · simpa only [hlive, hpcb] using h.placed
  · simpa only [hproc, hpid] using h.pid
  · rw [hmap, hproc]
    exact h.bitmap
  · rw [hmap, hact]
    exact h.active
  · simpa only [hlive, hpcb] using h.priority

/-! ## Queue moves -/

/-- Relinking a queue keeps the invariant if the new list is in order and has the right members.
The other queues are not touched, because their processes are neither in the old list nor in the
new one. -/
lemma Inv.relinked {held' : Option Ptr} (h : Inv m Q held cur)
    (hr : Relinked m m' q (Q q) l') (hasc : Ascending m.pidOf l')
    (hmem : ∀ r, r ∈ l' ↔ m.Live r ∧ held' ≠ some r ∧ (m.pcb r).home = some q)
    (hother : ∀ q' ≠ q, ∀ r, r ∈ Q q' ↔ m.Live r ∧ held' ≠ some r ∧ (m.pcb r).home = some q')
    (hrun : ∀ r, cur = some r ↔ m.Live r ∧ held' ≠ some r ∧ (m.pcb r).state = .running)
    (hpl : ∀ r, m.Live r → held' ≠ some r →
      (m.pcb r).state ≠ .created ∧ (m.pcb r).state ≠ .waiting) :
    Inv m' (Function.update Q q l') held' cur := by
  obtain ⟨hd, nx, rfl, hlist, hframe⟩ := hr
  have hlive : ∀ r, ((m.setQueue q hd).withNext nx).Live r ↔ m.Live r := by
    intro r
    simp [Live]
  have hpid : ((m.setQueue q hd).withNext nx).pidOf = m.pidOf := by
    funext r
    simp [pidOf]
  refine ⟨fun q' => ?_, fun q' => ?_, fun q' r => ?_, fun r => ?_, fun r hr => ?_, ?_, ?_, ?_, ?_⟩
  · rw [next_withNext, queue_withNext]
    by_cases hq : q' = q
    · subst hq
      rw [queue_setQueue_self, Function.update_self]
      exact hlist
    · rw [queue_setQueue_of_ne hd hq, Function.update_of_ne hq]
      refine (h.isList q').congr fun r hr => hframe r (fun hrq => ?_) fun hrl => ?_
      · have h₁ := ((h.mem q' r).1 hr).2.2
        rw [((h.mem q r).1 hrq).2.2] at h₁
        exact hq (Option.some.inj h₁).symm
      · have h₁ := ((h.mem q' r).1 hr).2.2
        rw [((hmem r).1 hrl).2.2] at h₁
        exact hq (Option.some.inj h₁).symm
  · rw [hpid]
    by_cases hq : q' = q
    · subst hq
      rw [Function.update_self]
      exact hasc
    · rw [Function.update_of_ne hq]
      exact h.ascending q'
  · rw [hlive]
    by_cases hq : q' = q
    · subst hq
      rw [Function.update_self, hmem r]
      simp [Process.home]
    · rw [Function.update_of_ne hq, hother q' hq r]
      simp [Process.home]
  · rw [hlive, hrun r]
    simp
  · rw [hlive] at hr
    simpa using hpl r hr
  · rw [hpid]
    simpa using h.pid
  · simpa using h.bitmap
  · simpa using h.active
  · intro r hr
    rw [hlive] at hr
    simpa using h.priority r hr

/-- A process is the one that is held, or another one. -/
lemma held_ne_iff {r : Ptr} : (some p : Option Ptr) ≠ some r ↔ r ≠ p := by
  rw [ne_eq, Option.some.injEq, eq_comm]

/-- Holding a process changes nothing in what is not true of it. -/
lemma unheld_iff (P : Process → Prop) (hp : ¬ P (m.pcb p)) (r : Ptr) :
    m.Live r ∧ none ≠ some r ∧ P (m.pcb r) ↔ m.Live r ∧ some p ≠ some r ∧ P (m.pcb r) := by
  rw [held_ne_iff]
  constructor
  · rintro ⟨hl, -, hr⟩
    exact ⟨hl, fun heq => hp (heq ▸ hr), hr⟩
  · rintro ⟨hl, -, hr⟩
    exact ⟨hl, by simp, hr⟩

/-- A process leaves its queue and is held. -/
lemma Inv.take (h : Inv m Q none cur) (hp : p ∈ Q q)
    (hr : Relinked m m' q (Q q) ((Q q).erase p)) :
    Inv m' (Function.update Q q ((Q q).erase p)) (some p) cur := by
  have hhome : (m.pcb p).home = some q := ((h.mem q p).1 hp).2.2
  refine h.relinked hr ((h.ascending q).sublist List.erase_sublist) (fun r => ?_)
    (fun q' hq r => ?_) (fun r => ?_) fun r hl _ => h.placed r hl (by simp)
  · rw [(h.isList q).nodup.mem_erase_iff, h.mem q r, held_ne_iff]
    simp
    tauto
  · rw [h.mem q' r]
    exact unheld_iff (·.home = some q') (fun hh => hq (Option.some.inj (hhome.symm.trans hh)).symm) r
  · rw [h.running r]
    exact unheld_iff (·.state = .running) (fun hs => by simp [Process.home, hs] at hhome) r

/-- The held process enters the queue that its state names. -/
lemma Inv.put (h : Inv m Q (some p) cur) (hp : m.Live p) (hhome : (m.pcb p).home = some q)
    (hr : Relinked m m' q (Q q) (insertByKey m.pidOf p (Q q))) :
    Inv m' (Function.update Q q (insertByKey m.pidOf p (Q q))) none cur := by
  have hnr : (m.pcb p).state ≠ .running ∧ (m.pcb p).state ≠ .created ∧
      (m.pcb p).state ≠ .waiting := by
    refine ⟨?_, ?_, ?_⟩ <;> intro hs <;> simp [Process.home, hs] at hhome
  refine h.relinked hr (ascending_insertByKey (h.ascending q) fun r hrq he => ?_) (fun r => ?_)
    (fun q' hq r => ?_) (fun r => ?_) fun r hl _ => ?_
  · obtain ⟨hl, hnp, -⟩ := (h.mem q r).1 hrq
    exact held_ne_iff.1 hnp (h.pid_inj hl hp he)
  · rw [mem_insertByKey, h.mem q r, held_ne_iff]
    constructor
    · rintro (rfl | ⟨hl, _, hh⟩)
      · exact ⟨hp, by simp, hhome⟩
      · exact ⟨hl, by simp, hh⟩
    · rintro ⟨hl, _, hh⟩
      by_cases e : r = p
      · exact .inl e
      · exact .inr ⟨hl, e, hh⟩
  · rw [h.mem q' r]
    exact (unheld_iff (·.home = some q') (fun hh => hq (Option.some.inj (hhome.symm.trans hh)).symm) r).symm
  · rw [h.running r]
    exact (unheld_iff (·.state = .running) hnr.1 r).symm
  · by_cases e : r = p
    · rw [e]
      exact hnr.2
    · exact h.placed r hl (held_ne_iff.2 e)

/-- A process that `enqueue_process` is called on while it is held enters its queue. -/
lemma Inv.enqueue (h : Inv m Q (some p) cur) (hp : m.Live p) (hhome : (m.pcb p).home = some q) :
    ∃ m', m.enqueueProcess q p = some m' ∧
      Relinked m m' q (Q q) (insertByKey m.pidOf p (Q q)) ∧
      Inv m' (Function.update Q q (insertByKey m.pidOf p (Q q))) none cur := by
  have hpq : p ∉ Q q := fun hpq => ((h.mem q p).1 hpq).2.1 rfl
  obtain ⟨m', he, hr⟩ := enqueueProcess_relinked (h.isList q) hpq (h.length_lt q)
  exact ⟨m', he, hr, h.put hp hhome hr⟩

/-- A process that `remove_process_from_queue` is called on while it is in the queue is held. -/
lemma Inv.remove (h : Inv m Q none cur) (hp : p ∈ Q q) :
    ∃ m', m.removeProcessFromQueue q (m.pidOf p) = some (m', some p) ∧
      Relinked m m' q (Q q) ((Q q).erase p) ∧
      Inv m' (Function.update Q q ((Q q).erase p)) (some p) cur := by
  have hlive : ∀ r ∈ Q q, m.Live r := fun r hr => ((h.mem q r).1 hr).1
  obtain ⟨m', he, hr⟩ := removeProcessFromQueue_relinked (h.isList q) hp
    (fun r hr hpid => h.pid_inj (hlive r hr) (hlive p hp) hpid) (h.length_lt q)
  exact ⟨m', he, hr, h.take hp hr⟩

/-! ## The processor -/

/-- The running process is taken off the processor and held. -/
lemma Inv.stop (h : Inv m Q none (some p)) : Inv m Q (some p) none := by
  obtain ⟨-, -, hs⟩ := (h.running p).1 rfl
  refine ⟨h.isList, h.ascending, fun q r => ?_, fun r => ?_, fun r hl _ => h.placed r hl (by simp),
    h.pid, h.bitmap, h.active, h.priority⟩
  · rw [h.mem q r]
    exact unheld_iff (·.home = some q) (fun hh => by simp [Process.home, hs] at hh) r
  · refine ⟨fun hc => by simp at hc, fun ⟨hl, hrp, hs'⟩ => ?_⟩
    exact absurd (Option.some.inj ((h.running r).2 ⟨hl, by simp, hs'⟩)) (fun e => hrp (by rw [e]))

/-- The held process, marked as running, is put on the free processor. -/
lemma Inv.start (h : Inv m Q (some p) none) (hp : m.Live p) (hs : (m.pcb p).state = .running) :
    Inv m Q none (some p) := by
  refine ⟨h.isList, h.ascending, fun q r => ?_, fun r => ?_, fun r hl _ => ?_,
    h.pid, h.bitmap, h.active, h.priority⟩
  · rw [h.mem q r]
    exact (unheld_iff (·.home = some q) (fun hh => by simp [Process.home, hs] at hh) r).symm
  · constructor
    · rintro hc
      obtain rfl := Option.some.inj hc
      exact ⟨hp, by simp, hs⟩
    · rintro ⟨hl, -, hs'⟩
      by_contra hc
      exact absurd ((h.running r).2 ⟨hl, hc, hs'⟩) (by simp)
  · by_cases e : r = p
    · subst e
      simp [hs]
    · exact h.placed r hl (held_ne_iff.2 e)

/-! ## The held control block -/

/-- The control block of the held process may change, but not its PID. -/
lemma Inv.modify (h : Inv m Q (some p) cur) (f : Process → Process)
    (hpid : (f (m.pcb p)).pid = (m.pcb p).pid)
    (hprio : (f (m.pcb p)).priority < maxPriorityLevels) :
    Inv (m.modify p f) Q (some p) cur := by
  have hother : ∀ r, r ≠ p → (m.modify p f).pcb r = m.pcb r := by
    intro r hr
    exact Function.update_of_ne hr _ _
  have hself : (m.modify p f).pcb p = f (m.pcb p) := Function.update_self _ _ _
  have hpidOf : (m.modify p f).pidOf = m.pidOf := by
    funext r
    by_cases e : r = p
    · rw [e, pidOf, hself, hpid]
      rfl
    · rw [pidOf, hother r e]
      rfl
  refine ⟨fun q => ?_, fun q => ?_, fun q r => ?_, fun r => ?_, fun r hl hr => ?_, ?_,
    h.bitmap, h.active, fun r hl => ?_⟩
  · refine (h.isList q).congr fun r hr => ?_
    rw [next, hother r (held_ne_iff.1 ((h.mem q r).1 hr).2.1)]
    rfl
  · rw [hpidOf]
    exact h.ascending q
  · rw [h.mem q r]
    refine and_congr_right fun _ => and_congr_right fun hr => ?_
    rw [hother r (held_ne_iff.1 hr)]
  · rw [h.running r]
    refine and_congr_right fun _ => and_congr_right fun hr => ?_
    rw [hother r (held_ne_iff.1 hr)]
  · rw [hother r (held_ne_iff.1 hr)]
    exact h.placed r hl hr
  · rw [hpidOf]
    exact h.pid
  · by_cases e : r = p
    · rw [e, hself]
      exact hprio
    · rw [hother r e]
      exact h.priority r hl

/-! ## The process table -/

/-- What is in a table after an entry was made in a free place. -/
lemma exists_update_some_iff {table : ℕ → Option Ptr} {i : ℕ} {r : Ptr} (hfree : table i = none) :
    (∃ k, Function.update table i (some p) k = some r) ↔ r = p ∨ ∃ k, table k = some r := by
  constructor
  · rintro ⟨k, hk⟩
    by_cases hki : k = i
    · rw [hki, Function.update_self] at hk
      exact .inl (Option.some.inj hk).symm
    · rw [Function.update_of_ne hki] at hk
      exact .inr ⟨k, hk⟩
  · rintro (rfl | ⟨k, hk⟩)
    · exact ⟨i, Function.update_self ..⟩
    · have hki : k ≠ i := by
        rintro rfl
        simp [hfree] at hk
      exact ⟨k, by rw [Function.update_of_ne hki, hk]⟩

/-- What is left in the table after a process was removed from it. -/
lemma Inv.exists_update_none_iff (h : Inv m Q held cur) (hp : m.Live p) (r : Ptr) :
    (∃ i, Function.update m.processes (m.pidOf p) none i = some r) ↔ m.Live r ∧ r ≠ p := by
  constructor
  · rintro ⟨i, hi⟩
    by_cases e : i = m.pidOf p
    · simp [e] at hi
    · rw [Function.update_of_ne e] at hi
      refine ⟨⟨i, hi⟩, ?_⟩
      rintro rfl
      exact e (h.pid i r hi).2.symm
  · rintro ⟨hl, hr⟩
    have e : m.pidOf r ≠ m.pidOf p := fun e => hr (h.pid_inj hl hp e)
    exact ⟨m.pidOf r, by rw [Function.update_of_ne e, h.processes_pidOf hl]⟩

/-- The number of processes after one was entered under a free PID. -/
lemma Inv.active_set (h : Inv m Q held cur) {n : ℕ} (hn : n < processMaxCount)
    (hfree : m.processes n = none) :
    Word32.add m.activeProcesses 1 = Bitmap.card (Bitmap.set m.processBitmap n) processMaxCount := by
  have hclear : Bitmap.test m.processBitmap n = false := by
    rw [h.bitmap _ hn, hfree]
    rfl
  have hcard := Bitmap.card_set hn hclear
  have hle := Bitmap.card_le m.processBitmap processMaxCount
  have h64 : processMaxCount = 64 := rfl
  rw [hcard, h.active, Word32.add_of_lt (by omega)]

/-- The number of processes after one was removed. -/
lemma Inv.active_clear (h : Inv m Q held cur) (hp : m.Live p) :
    Word32.sub m.activeProcesses 1 =
      Bitmap.card (Bitmap.clear m.processBitmap (m.pidOf p)) processMaxCount := by
  have hset : Bitmap.test m.processBitmap (m.pidOf p) = true := by
    rw [h.bitmap _ (h.pidOf_lt hp), h.processes_pidOf hp]
    rfl
  have hcard := Bitmap.card_clear (h.pidOf_lt hp) hset
  have hle := Bitmap.card_le m.processBitmap processMaxCount
  have h64 : processMaxCount = 64 := rfl
  rw [h.active, Word32.sub_of_le (by omega) (by omega)]
  omega

/-- A new control block is entered in the table under a free PID and held. -/
lemma Inv.add (h : Inv m Q none cur) {x : Process} (hp : ¬ m.Live p)
    (hpid : x.pid < processMaxCount) (hfree : m.processes x.pid = none)
    (hprio : x.priority < maxPriorityLevels) :
    Inv { m with
      pcb := Function.update m.pcb p x
      processes := Function.update m.processes x.pid (some p)
      processBitmap := Bitmap.set m.processBitmap x.pid
      activeProcesses := Word32.add m.activeProcesses 1 } Q (some p) cur := by
  set m' : ProcessManager := { m with
      pcb := Function.update m.pcb p x
      processes := Function.update m.processes x.pid (some p)
      processBitmap := Bitmap.set m.processBitmap x.pid
      activeProcesses := Word32.add m.activeProcesses 1 } with hm'
  have hother : ∀ r, r ≠ p → m'.pcb r = m.pcb r := by
    intro r hr
    exact Function.update_of_ne hr _ _
  have hself : m'.pcb p = x := Function.update_self _ _ _
  have hlive : ∀ r, m'.Live r ↔ r = p ∨ m.Live r := fun r => exists_update_some_iff hfree
  have hne : ∀ r, m.Live r → r ≠ p := by
    rintro r hr rfl
    exact hp hr
  -- what is said about processes that are not held is said about the same ones as before
  have hunheld : ∀ r (P : Process → Prop), m.Live r ∧ none ≠ some r ∧ P (m.pcb r) ↔
      m'.Live r ∧ some p ≠ some r ∧ P (m'.pcb r) := by
    intro r P
    rw [hlive, held_ne_iff]
    constructor
    · rintro ⟨hl, -, hP⟩
      exact ⟨.inr hl, hne r hl, by rw [hother r (hne r hl)]; exact hP⟩
    · rintro ⟨hl, hr, hP⟩
      rw [hother r hr] at hP
      exact ⟨hl.resolve_left hr, by simp, hP⟩
  refine ⟨fun q => ?_, fun q => ?_, fun q r => ?_, fun r => ?_, fun r hl hr => ?_, fun i r hi => ?_,
    fun i hi => ?_, h.active_set hpid hfree, fun r hl => ?_⟩
  · refine (h.isList q).congr fun r hr => ?_
    rw [next, hother r (hne r ((h.mem q r).1 hr).1)]
    rfl
  · refine (h.ascending q).imp_of_mem fun {a b} ha hb hab => ?_
    have ha' := hne a ((h.mem q a).1 ha).1
    have hb' := hne b ((h.mem q b).1 hb).1
    rw [pidOf, pidOf, hother a ha', hother b hb']
    exact hab
  · rw [h.mem q r]
    exact hunheld r fun y => y.home = some q
  · rw [h.running r]
    exact hunheld r fun y => y.state = .running
  · rw [hlive] at hl
    rw [held_ne_iff] at hr
    rw [hother r hr]
    exact h.placed r (hl.resolve_left hr) (by simp)
  · by_cases e : i = x.pid
    · subst e
      rw [hm'] at hi
      simp only [Function.update_self, Option.some.injEq] at hi
      subst hi
      rw [pidOf, hself]
      exact ⟨hpid, rfl⟩
    · rw [hm'] at hi
      simp only [Function.update_of_ne e] at hi
      rw [pidOf, hother r (hne r ⟨i, hi⟩)]
      exact h.pid i r hi
  · by_cases e : i = x.pid
    · simp [hm', e]
    · simp [hm', e, h.bitmap i hi]
  · by_cases e : r = p
    · rw [e, hself]
      exact hprio
    · rw [hother r e]
      exact h.priority r (((hlive r).1 hl).resolve_left e)

/-- The held process is removed from the table. -/
lemma Inv.drop (h : Inv m Q (some p) cur) (hp : m.Live p) :
    Inv { m with
      processes := Function.update m.processes (m.pidOf p) none
      processBitmap := Bitmap.clear m.processBitmap (m.pidOf p)
      activeProcesses := Word32.sub m.activeProcesses 1 } Q none cur := by
  set m' : ProcessManager := { m with
      processes := Function.update m.processes (m.pidOf p) none
      processBitmap := Bitmap.clear m.processBitmap (m.pidOf p)
      activeProcesses := Word32.sub m.activeProcesses 1 } with hm'
  have hlive : ∀ r, m'.Live r ↔ m.Live r ∧ r ≠ p := h.exists_update_none_iff hp
  refine ⟨h.isList, h.ascending, fun q r => ?_, fun r => ?_, fun r hl _ => ?_, fun i r hi => ?_,
    fun i hi => ?_, h.active_clear hp, fun r hl => ?_⟩
  · rw [h.mem q r, hlive, held_ne_iff, and_assoc]
    simp [hm']
  · rw [h.running r, hlive, held_ne_iff, and_assoc]
    simp [hm']
  · obtain ⟨hl, hr⟩ := (hlive r).1 hl
    exact h.placed r hl (held_ne_iff.2 hr)
  · by_cases e : i = m.pidOf p
    · simp [hm', e] at hi
    · simp only [hm', Function.update_of_ne e] at hi
      exact h.pid i r hi
  · by_cases e : i = m.pidOf p
    · simp [hm', e]
    · simp [hm', e, h.bitmap i hi]
  · exact h.priority r ((hlive r).1 hl).1

end ProcessManager

end Jarvis
