import JarvisKernel.Process.Defs
import Mathlib.Order.Interval.Finset.Nat

set_option relaxedAutoImplicit false
set_option autoImplicit false

/-!
# The queue functions

What `enqueueProcess`, `dequeueProcess` and `removeProcessFromQueue` do to a queue that is a list.
Each of them changes the head of one queue and links of its processes and nothing else, which is
said once, by `Jarvis.ProcessManager.Relinked`; the specifications then name the new list.

## Main definitions

* `Jarvis.ProcessManager.withNext` — the manager with all link fields replaced.
* `Jarvis.ProcessManager.Relinked` — one queue goes from a list to another.
* `Jarvis.ProcessManager.SameData` — only queue heads and links differ.
* `Jarvis.ProcessManager.Added` — what an insertion does to a queue.

## Main results

* `Jarvis.ProcessManager.enqueueProcess_relinked` — insertion in PID order.
* `Jarvis.ProcessManager.removeProcessFromQueue_relinked`,
  `Jarvis.ProcessManager.removeProcessFromQueue_absent` — removal by PID.
* `Jarvis.ProcessManager.dequeueProcess_relinked` — removal of the first process.
* `Jarvis.ProcessManager.enqueueProcess_sameData` and its siblings — the frame of the queue
  functions, which needs no assumption on the queues.
* `Jarvis.ProcessManager.enqueueProcess_removeProcessFromQueue` — removal undoes insertion.
-/

namespace Jarvis.ProcessManager

open LinkedList

variable {m m' m'' : ProcessManager} {q : QueueId} {l l' : List Ptr} {p : Ptr}

/-! ## Link fields -/

/-- The manager with the link of every control block given by `nx`. -/
def withNext (m : ProcessManager) (nx : Ptr → Option Ptr) : ProcessManager :=
  { m with pcb := fun r => { m.pcb r with next := nx r } }

/-- The PID of every control block, the key queues are sorted by. -/
def pidOf (m : ProcessManager) (r : Ptr) : ℕ := (m.pcb r).pid

/-- The links that are put in are those that are read. -/
@[simp] lemma next_withNext (nx : Ptr → Option Ptr) : (m.withNext nx).next = nx := rfl

/-- The heads and tails of the queues stay. -/
@[simp] lemma queue_withNext (nx : Ptr → Option Ptr) : (m.withNext nx).queue = m.queue := rfl

/-- A control block differs in its link only. -/
@[simp] lemma pcb_withNext (nx : Ptr → Option Ptr) (r : Ptr) :
    (m.withNext nx).pcb r = { m.pcb r with next := nx r } := rfl

/-- The table does not contain links. -/
@[simp] lemma processes_withNext (nx : Ptr → Option Ptr) :
    (m.withNext nx).processes = m.processes := rfl

/-- Nor does the bitmap of PIDs. -/
@[simp] lemma processBitmap_withNext (nx : Ptr → Option Ptr) :
    (m.withNext nx).processBitmap = m.processBitmap := rfl

/-- Nor does the number of processes. -/
@[simp] lemma activeProcesses_withNext (nx : Ptr → Option Ptr) :
    (m.withNext nx).activeProcesses = m.activeProcesses := rfl

/-- The current process does not depend on links. -/
@[simp] lemma currentProcess_withNext (nx : Ptr → Option Ptr) :
    (m.withNext nx).currentProcess = m.currentProcess := rfl

/-- Nor does the time. -/
@[simp] lemma systemTicks_withNext (nx : Ptr → Option Ptr) :
    (m.withNext nx).systemTicks = m.systemTicks := rfl

/-- The last links count. -/
@[simp] lemma withNext_withNext (nx nx' : Ptr → Option Ptr) :
    (m.withNext nx).withNext nx' = m.withNext nx' := rfl

/-- Links and heads are changed in any order. -/
@[simp] lemma setQueue_withNext (nx : Ptr → Option Ptr) (h : Option Ptr) :
    (m.withNext nx).setQueue q h = (m.setQueue q h).withNext nx := by
  cases q <;> rfl

/-- The head of a queue is in no control block. -/
@[simp] lemma pcb_setQueue (h : Option Ptr) : (m.setQueue q h).pcb = m.pcb := by
  cases q <;> rfl

/-- No link is changed with it. -/
@[simp] lemma next_setQueue (h : Option Ptr) : (m.setQueue q h).next = m.next := by
  cases q <;> rfl

/-- The head that is put in is the one that is read. -/
@[simp] lemma queue_setQueue_self (h : Option Ptr) : (m.setQueue q h).queue q = h := by
  cases q <;> simp [setQueue, queue]

/-- The last head counts. -/
@[simp] lemma setQueue_setQueue (h h' : Option Ptr) : (m.setQueue q h).setQueue q h' = m.setQueue q h' := by
  cases q <;> simp [setQueue]

/-- The other queues keep theirs. -/
lemma queue_setQueue_of_ne {q' : QueueId} (h : Option Ptr) (hq : q' ≠ q) :
    (m.setQueue q h).queue q' = m.queue q' := by
  cases q with
  | ready i =>
    cases q' with
    | ready j =>
      have hij : j ≠ i := fun e => hq (by rw [e])
      simp [setQueue, queue, Function.update_of_ne hij]
    | blocked => rfl
    | terminated => rfl
  | blocked =>
    cases q' with
    | ready j => rfl
    | blocked => exact absurd rfl hq
    | terminated => rfl
  | terminated =>
    cases q' with
    | ready j => rfl
    | blocked => rfl
    | terminated => exact absurd rfl hq

/-- The table does not contain heads. -/
@[simp] lemma processes_setQueue (h : Option Ptr) :
    (m.setQueue q h).processes = m.processes := by cases q <;> rfl

/-- Nor does the bitmap of PIDs. -/
@[simp] lemma processBitmap_setQueue (h : Option Ptr) :
    (m.setQueue q h).processBitmap = m.processBitmap := by cases q <;> rfl

/-- Nor does the number of processes. -/
@[simp] lemma activeProcesses_setQueue (h : Option Ptr) :
    (m.setQueue q h).activeProcesses = m.activeProcesses := by cases q <;> rfl

/-- The current process does not depend on heads. -/
@[simp] lemma currentProcess_setQueue (h : Option Ptr) :
    (m.setQueue q h).currentProcess = m.currentProcess := by cases q <;> rfl

/-- Nor does the time. -/
@[simp] lemma systemTicks_setQueue (h : Option Ptr) :
    (m.setQueue q h).systemTicks = m.systemTicks := by cases q <;> rfl

/-- Assigning one link is replacing the link fields by the updated ones. -/
lemma setNext_eq_withNext (p : Ptr) (n : Option Ptr) :
    m.setNext p n = m.withNext (Function.update m.next p n) := by
  have hpcb : Function.update m.pcb p { m.pcb p with next := n } =
      fun r => { m.pcb r with next := Function.update m.next p n r } := by
    funext r
    by_cases hr : r = p
    · subst hr
      simp
    · simp [Function.update_of_ne hr, next]
  simp only [setNext, modify, withNext, hpcb]

/-! ## One queue relinked -/

/-- Queue `q` goes from the list `l` to the list `l'`: its head and the links of processes of the
two lists may change, everything else stays. -/
def Relinked (m m' : ProcessManager) (q : QueueId) (l l' : List Ptr) : Prop :=
  ∃ (h : Option Ptr) (nx : Ptr → Option Ptr), m' = (m.setQueue q h).withNext nx ∧
    IsList nx h l' ∧ ∀ r, r ∉ l → r ∉ l' → nx r = m.next r

/-- A queue that is given its own head is as it was. -/
lemma setQueue_queue : m.setQueue q (m.queue q) = m := by
  cases q <;> simp [setQueue, queue]

/-- Both ways of linking to `x` in a queue function: from the process before, or from the head. -/
lemma linkFrom_eq (prev x : Option Ptr) :
    m.linkFrom q prev x =
      (m.setQueue q (setHead (m.queue q) prev x)).withNext (setLink m.next prev x) := by
  cases prev with
  | none =>
    rw [setHead, setLink, ← next_setQueue (q := q) x]
    rfl
  | some r =>
    rw [setHead, setLink, setQueue_queue, linkFrom, setNext_eq_withNext]

/-- Links that differ from the old ones only at `p` and at the end of `l₁` differ only in `l₁` and
at `p`. -/
lemma update_setLink_of_notMem {next : Ptr → Option Ptr} {l₁ : List Ptr} {x y : Option Ptr}
    {r : Ptr} (hr : r ≠ p) (hr₁ : r ∉ l₁) :
    Function.update (setLink next l₁.getLast? x) p y r = next r := by
  rw [Function.update_of_ne hr, setLink_of_ne fun e => hr₁ (List.mem_of_getLast? e)]

/-- `enqueue_process` on a list of other processes inserts the process in PID order.

**Proof sketch.** The loop stops between the processes with smaller PIDs and the others, and the
process is linked in there. -/
lemma enqueueProcess_relinked (hl : IsList m.next (m.queue q) l) (hp : p ∉ l)
    (hf : l.length < walkFuel) :
    ∃ m', m.enqueueProcess q p = some m' ∧ Relinked m m' q l (insertByKey m.pidOf p l) := by
  unfold enqueueProcess
  cases hq : m.queue q with
  | none =>
    obtain rfl : l = [] := by
      cases l with
      | nil => rfl
      | cons r l => exact absurd (hq ▸ hl.1) (by simp)
    refine ⟨_, rfl, some p, Function.update m.next p none, ?_, by simp [insertByKey], ?_⟩
    · rw [setNext_eq_withNext, next_setQueue]
    · intro r _ hr
      exact Function.update_of_ne (by simpa [insertByKey] using hr) _ _
  | some front =>
    have hw := walk_eq m.next (fun r => !decide ((m.pcb r).pid < (m.pcb p).pid)) none
      hl hf
    rw [hq] at hw
    simp only [Bool.not_not, Option.or_none] at hw
    dsimp only
    rw [hw, Option.bind_eq_bind, Option.bind_some]
    have hl₁₂ : l = l.takeWhile (fun r => decide ((m.pcb r).pid < (m.pcb p).pid)) ++
        l.dropWhile (fun r => decide ((m.pcb r).pid < (m.pcb p).pid)) :=
      (List.takeWhile_append_dropWhile).symm
    rw [hl₁₂] at hl hp
    refine ⟨_, rfl, _, _, ?_, hl.insert hp, fun r hr hr' => ?_⟩
    · rw [linkFrom_eq, setNext_eq_withNext, withNext_withNext, next_withNext]
    · refine update_setLink_of_notMem (fun e => hr' (by simp [e])) fun hr₁ => hr ?_
      exact (List.takeWhile_sublist _).subset hr₁

/-- `remove_process_from_queue` on a list in which one process has the PID takes that one out and
clears its link. -/
lemma removeProcessFromQueue_relinked (hl : IsList m.next (m.queue q) l) (hp : p ∈ l)
    (hpid : ∀ r ∈ l, m.pidOf r = m.pidOf p → r = p) (hf : l.length < walkFuel) :
    ∃ m', m.removeProcessFromQueue q (m.pidOf p) = some (m', some p) ∧
      Relinked m m' q l (l.erase p) := by
  unfold removeProcessFromQueue
  cases hq : m.queue q with
  | none =>
    rw [hq] at hl
    cases l with
    | nil => simp at hp
    | cons r l => exact absurd hl.1 (by simp)
  | some front =>
    have hw := walk_eq m.next (fun r => decide ((m.pcb r).pid = m.pidOf p)) none hl hf
    rw [hq] at hw
    simp only [Option.or_none] at hw
    obtain ⟨l₁, l₂, rfl⟩ := List.append_of_mem hp
    obtain ⟨-, -, hdisj⟩ := List.nodup_append.1 hl.nodup
    have hp₁ : p ∉ l₁ := fun h => hdisj p h p (by simp) rfl
    have hstop : ∀ r ∈ l₁, (!decide ((m.pcb r).pid = m.pidOf p)) = true := by
      intro r hr
      have hne : m.pidOf r ≠ m.pidOf p := fun e =>
        hp₁ (hpid r (by simp [hr]) e ▸ hr)
      rw [Bool.not_eq_true', decide_eq_false_iff_not]
      exact hne
    have htake : (l₁ ++ p :: l₂).takeWhile (fun r => !decide ((m.pcb r).pid = m.pidOf p)) = l₁ := by
      rw [List.takeWhile_append_of_pos hstop, List.takeWhile_cons_of_neg (by simp [pidOf])]
      simp
    have hdrop : (l₁ ++ p :: l₂).dropWhile (fun r => !decide ((m.pcb r).pid = m.pidOf p)) =
        p :: l₂ := by
      rw [List.dropWhile_append_of_pos hstop, List.dropWhile_cons_of_neg (by simp [pidOf])]
    have herase : (l₁ ++ p :: l₂).erase p = l₁ ++ l₂ := by
      rw [List.erase_append_right _ hp₁, List.erase_cons_head]
    have hnext : m.next p = l₂.head? := hl.suffix.2.head_eq
    rw [htake, hdrop] at hw
    dsimp only
    rw [hw, Option.bind_eq_bind, Option.bind_some, herase]
    refine ⟨_, rfl, _, _, ?_, hl.remove, fun r hr _ => ?_⟩
    · rw [linkFrom_eq, setNext_eq_withNext, withNext_withNext, next_withNext, hnext]
    · exact update_setLink_of_notMem (fun e => hr (by simp [e])) fun hr₁ => hr (by simp [hr₁])

/-- `remove_process_from_queue` with a PID that no process of the queue has changes nothing. -/
lemma removeProcessFromQueue_absent {pid : ℕ} (hl : IsList m.next (m.queue q) l)
    (hpid : ∀ r ∈ l, m.pidOf r ≠ pid) (hf : l.length < walkFuel) :
    m.removeProcessFromQueue q pid = some (m, none) := by
  unfold removeProcessFromQueue
  cases hq : m.queue q with
  | none => rfl
  | some front =>
    have hw := walk_eq m.next (fun r => decide ((m.pcb r).pid = pid)) none hl hf
    have hdrop : l.dropWhile (fun r => !decide ((m.pcb r).pid = pid)) = [] := by
      rw [List.dropWhile_eq_nil_iff]
      intro r hr
      rw [Bool.not_eq_true', decide_eq_false_iff_not]
      exact hpid r hr
    rw [hq, hdrop] at hw
    dsimp only
    rw [hw]
    rfl

/-- `dequeue_process` takes the first process off a queue. -/
lemma dequeueProcess_relinked (hl : IsList m.next (m.queue q) (p :: l)) :
    ∃ m', m.dequeueProcess q = (m', some p) ∧ Relinked m m' q (p :: l) l := by
  unfold dequeueProcess
  rw [hl.1]
  refine ⟨_, rfl, m.next p, Function.update m.next p none, ?_, ?_, fun r hr _ => ?_⟩
  · rw [setNext_eq_withNext, next_setQueue]
  · have hl' : IsList m.next (m.queue q) ([] ++ p :: l) := hl
    rw [hl.2.head_eq]
    exact hl'.remove
  · exact Function.update_of_ne (fun e => hr (by simp [e])) _ _

/-! ## What the queue functions leave alone -/

/-- Only queue heads and links differ. -/
structure SameData (m m' : ProcessManager) : Prop where
  pcb : ∀ r, m'.pcb r = { m.pcb r with next := m'.next r }
  processes : m'.processes = m.processes
  currentProcess : m'.currentProcess = m.currentProcess
  systemTicks : m'.systemTicks = m.systemTicks
  regFrames : m'.regFrames = m.regFrames
  freed : m'.freed = m.freed

/-- A state has its own data. -/
lemma SameData.refl (m : ProcessManager) : SameData m m := ⟨fun _ => rfl, rfl, rfl, rfl, rfl, rfl⟩

/-- Data that two steps keep. -/
lemma SameData.trans (h : SameData m m') (h' : SameData m' m'') : SameData m m'' := by
  refine ⟨fun r => ?_, h'.processes.trans h.processes, h'.currentProcess.trans h.currentProcess,
    h'.systemTicks.trans h.systemTicks, h'.regFrames.trans h.regFrames, h'.freed.trans h.freed⟩
  rw [h'.pcb r, h.pcb r]

/-- The head of a queue is no data. -/
lemma sameData_setQueue (q : QueueId) (h : Option Ptr) : SameData m (m.setQueue q h) := by
  refine ⟨fun r => ?_, by simp, by simp, by simp, ?_, ?_⟩
  · rw [next_setQueue, pcb_setQueue]
    rfl
  · cases q <;> rfl
  · cases q <;> rfl

/-- Nor are the links. -/
lemma sameData_withNext (nx : Ptr → Option Ptr) : SameData m (m.withNext nx) :=
  ⟨fun _ => rfl, rfl, rfl, rfl, rfl, rfl⟩

/-- Relinking a queue keeps the data. -/
lemma Relinked.sameData (hr : Relinked m m' q l l') : SameData m m' := by
  obtain ⟨h, nx, rfl, -, -⟩ := hr
  exact (sameData_setQueue q h).trans (sameData_withNext nx)

/-- So does one link. -/
lemma sameData_setNext (p : Ptr) (n : Option Ptr) : SameData m (m.setNext p n) := by
  rw [setNext_eq_withNext]
  exact sameData_withNext _

/-- And a link from the process before, or from the head. -/
lemma sameData_linkFrom (q : QueueId) (prev x : Option Ptr) :
    SameData m (m.linkFrom q prev x) := by
  cases prev with
  | none => exact sameData_setQueue q x
  | some r => exact sameData_setNext r x

/-- `enqueue_process` only relinks. -/
lemma enqueueProcess_sameData (h : m.enqueueProcess q p = some m') : SameData m m' := by
  unfold enqueueProcess at h
  cases hq : m.queue q with
  | none =>
    simp only [hq, Option.some.injEq] at h
    subst h
    exact (sameData_setQueue q _).trans (sameData_setNext p none)
  | some front =>
    simp only [hq, Option.bind_eq_bind, Option.bind_eq_some_iff] at h
    obtain ⟨⟨prev, current⟩, -, he⟩ := h
    obtain rfl := Option.some.inj he
    exact (sameData_linkFrom q prev (some p)).trans (sameData_setNext p current)

/-- So does `dequeue_process`. -/
lemma dequeueProcess_sameData (m : ProcessManager) (q : QueueId) :
    SameData m (m.dequeueProcess q).1 := by
  unfold dequeueProcess
  cases hq : m.queue q with
  | none => exact SameData.refl m
  | some front => exact (sameData_setQueue q _).trans (sameData_setNext front none)

/-- And `remove_process_from_queue`. -/
lemma removeProcessFromQueue_sameData {pid : ℕ} {x : ProcessManager × Option Ptr}
    (h : m.removeProcessFromQueue q pid = some x) : SameData m x.1 := by
  unfold removeProcessFromQueue at h
  cases hq : m.queue q with
  | none =>
    simp only [hq, Option.some.injEq] at h
    subst h
    exact SameData.refl m
  | some front =>
    simp only [hq, Option.bind_eq_bind, Option.bind_eq_some_iff] at h
    obtain ⟨⟨prev, current⟩, -, he⟩ := h
    cases current with
    | none =>
      obtain rfl := Option.some.inj he
      exact SameData.refl m
    | some c =>
      obtain rfl := Option.some.inj he
      exact (sameData_linkFrom q prev _).trans (sameData_setNext c none)

/-! ## Enqueueing and removing again -/

/-- The process that `remove_process_from_queue` returns has no link. -/
lemma next_removeProcessFromQueue {pid : ℕ} {c : Ptr}
    (h : m.removeProcessFromQueue q pid = some (m', some c)) : m'.next c = none := by
  unfold removeProcessFromQueue at h
  cases hq : m.queue q with
  | none => simp [hq] at h
  | some front =>
    simp only [hq, Option.bind_eq_bind, Option.bind_eq_some_iff] at h
    obtain ⟨⟨prev, current⟩, -, he⟩ := h
    cases current with
    | none => simp at he
    | some d =>
      obtain ⟨rfl, hd⟩ := Prod.ext_iff.1 (Option.some.inj he)
      obtain rfl := Option.some.inj hd
      rw [setNext_eq_withNext, next_withNext, Function.update_self]

/-- The processes are at different addresses of 32 bits that are not null, so the loops over them end. -/
lemma length_lt_of_addresses (hnodup : l.Nodup) (haddr : ∀ r ∈ l, 0 < r ∧ r < 2 ^ 32) :
    l.length < walkFuel := by
  have hsub : l.toFinset ⊆ Finset.Ico 1 (2 ^ 32) := by
    intro r hr
    obtain ⟨hpos, hlt⟩ := haddr r (List.mem_toFinset.1 hr)
    exact Finset.mem_Ico.2 ⟨hpos, hlt⟩
  have hcard := Finset.card_le_card hsub
  rw [List.toFinset_card_of_nodup hnodup, Nat.card_Ico] at hcard
  exact Nat.lt_of_le_pred (by decide) hcard

/-- Process `p` was added to the queue `q`, which was the list `l`: the queue is an ascending list again, and
only its head and links of its processes have changed. -/
structure Added (m m' : ProcessManager) (q : QueueId) (l : List Ptr) (p : Ptr) : Prop where
  list : ∃ l', IsList m'.next (m'.queue q) l' ∧ Ascending m'.pidOf l' ∧ l'.Perm (p :: l)
  frame : m' = (m.setQueue q (m'.queue q)).withNext m'.next
  links : ∀ r, r ∉ p :: l → m'.next r = m.next r

/-- Taking the added process out again leaves the queue and all links but its own as they were. -/
lemma removeProcessFromQueue_restore (hl : IsList m.next (m.queue q) l)
    (hr : Relinked m m' q l (insertByKey m.pidOf p l))
    (hrem : m'.removeProcessFromQueue q (m'.pidOf p) = some (m'', some p))
    (hr' : Relinked m' m'' q (insertByKey m.pidOf p l) l) : m'' = m.setNext p none := by
  have hcleared := next_removeProcessFromQueue hrem
  obtain ⟨h, nx, rfl, -, hother⟩ := hr
  obtain ⟨h', nx', rfl, hl', hother'⟩ := hr'
  have hhead : h' = m.queue q := hl'.head_eq.trans hl.head_eq.symm
  have hlinks : nx' = Function.update m.next p none := by
    funext r
    by_cases hrp : r = p
    · rw [hrp, Function.update_self]
      exact hcleared
    · rw [Function.update_of_ne hrp]
      by_cases hrl : r ∈ l
      · exact hl.next_eq hl' hrl
      · have hins : r ∉ insertByKey m.pidOf p l := by simp [hrp, hrl]
        exact (hother' r hins hrl).trans (hother r hrl hins)
  rw [setNext_eq_withNext, hlinks, hhead, setQueue_withNext, withNext_withNext, setQueue_setQueue,
    setQueue_queue]

/-- **Enqueueing** a process whose PID is not in an ascending queue gives an ascending queue with the process,
and **removing** it again returns it without a link and restores the queue. Removing a PID that is not in the
queue changes nothing.

**Proof sketch.** Enqueueing links the process in at its place, removing takes it out again; the list that
remains is the old one, and a list determines the links of its processes. -/
theorem enqueueProcess_removeProcessFromQueue (hl : IsList m.next (m.queue q) l) (hasc : Ascending m.pidOf l)
    (haddr : ∀ r ∈ p :: l, 0 < r ∧ r < 2 ^ 32) (hp : ∀ r ∈ l, m.pidOf r ≠ m.pidOf p) :
    (∃ m', m.enqueueProcess q p = some m' ∧ Added m m' q l p ∧
      m'.removeProcessFromQueue q (m.pidOf p) = some (m.setNext p none, some p)) ∧
      ∀ pid, (∀ r ∈ l, m.pidOf r ≠ pid) → m.removeProcessFromQueue q pid = some (m, none) := by
  have hnot : p ∉ l := fun h => hp p h rfl
  have hlength := length_lt_of_addresses (List.nodup_cons.2 ⟨hnot, hl.nodup⟩) haddr
  have hlength' : l.length < walkFuel := (Nat.lt_succ_self _).trans hlength
  refine ⟨?_, fun pid hpid => removeProcessFromQueue_absent hl hpid hlength'⟩
  obtain ⟨m', henq, hrel⟩ := enqueueProcess_relinked hl hnot hlength'
  have hins := ascending_insertByKey hasc hp
  have hperm : (insertByKey m.pidOf p l).Perm (p :: l) := insertByKey_perm p l
  obtain ⟨h, nx, rfl, hl', hother⟩ := id hrel
  set m' := (m.setQueue q h).withNext nx with hm'
  have hpidOf : m'.pidOf = m.pidOf := by
    funext r
    simp [hm', pidOf]
  have hlist : IsList m'.next (m'.queue q) (insertByKey m.pidOf p l) := by
    simpa [hm'] using hl'
  obtain ⟨m'', hrem, hrel'⟩ := removeProcessFromQueue_relinked hlist (p := p) (by simp)
    (fun r hr hpid => by
      rw [hpidOf] at hpid
      rcases mem_insertByKey.1 hr with rfl | hr
      · rfl
      · exact absurd hpid (hp r hr))
    (by rwa [hperm.length_eq])
  rw [erase_insertByKey hnot] at hrel'
  refine ⟨m', henq, ⟨⟨_, hlist, by rwa [hpidOf], hperm⟩, ?_, fun r hr => ?_⟩, ?_⟩
  · simp [hm']
  · rw [List.mem_cons, not_or] at hr
    exact hother r hr.2 (by simp [hr.1, hr.2])
  · rw [← hpidOf, hrem, removeProcessFromQueue_restore hl hrel hrem hrel']

/-- Two ready processes with the PIDs 1 and 3, and one with the PID 2 that is in no queue. -/
def twoReady : ProcessManager :=
  { processManagerInit (fun r => { pid := r / 4096, next := if r = 4096 then some 12288 else none })
      (fun _ => {}) none 0 with
    readyQueues := fun i => if i = 0 then some 4096 else none }

/-- The third process is put between the two, and is taken out again. -/
theorem enqueueProcess_removeProcessFromQueue_twoReady :
    (∃ m', twoReady.enqueueProcess (.ready 0) 8192 = some m' ∧
      Added twoReady m' (.ready 0) [4096, 12288] 8192 ∧
      m'.removeProcessFromQueue (.ready 0) 2 = some (twoReady.setNext 8192 none, some 8192)) ∧
      twoReady.removeProcessFromQueue (.ready 0) 2 = some (twoReady, none) := by
  have hboth := enqueueProcess_removeProcessFromQueue (m := twoReady) (q := .ready 0) (l := [4096, 12288])
    (p := 8192) ⟨rfl, rfl, rfl⟩ (by rw [Ascending]; decide) (by decide) (by decide)
  exact ⟨hboth.1, hboth.2 2 (by decide)⟩

end Jarvis.ProcessManager
