import JarvisKernel.Process.Calls
import Mathlib.Data.Finset.Option

set_option relaxedAutoImplicit false
set_option autoImplicit false

/-!
# What the clean-up frees

Every 100 ticks `process_manager_tick` walks over the terminated queue and frees the blocks of its
processes. `terminate_process` does not look whether the process is in a queue already: a process that is
terminated twice is linked behind itself, and the walk does not end; and a process that is terminated while
it is ready or blocked links two queues. The user stack of a process is a virtual address, which is passed
to `free` like the blocks that `malloc` returned.

The blocks that `malloc` returned and that were not freed since are kept in a ledger beside the manager.

## Main definitions

* `Jarvis.Ledger`, `Jarvis.Ledger.step` — the manager with the ledger, and the calls.
* `Jarvis.Ledger.CleansRight` — what a clean-up is to do.
* `Jarvis.Ledger.Careful` — what the callers must not do.

## Main results

* `Jarvis.ProcessManager.WellFormed.cleanUp` — what the rest of a tick with a clean-up does.
* `Jarvis.Ledger.cleansRight_of_run` — clean-ups are right in runs that terminate no queued process and
  clean up no user stack.
* `Jarvis.Ledger.not_cleansRight` — two runs in which a clean-up goes wrong.
-/

namespace Jarvis

open ProcessManager LinkedList

namespace ProcessManager

variable {m m' : ProcessManager} {Q : QueueId → List Ptr} {held cur head : Option Ptr} {fuel : ℕ}
  {l : List Ptr} {p : Ptr}

/-! ## The loop -/

/-- The clean-up loop goes once through the list of its queue. -/
lemma cleanupLoop_eq (hl : IsList m.next head l) (hfuel : l.length < fuel) :
    cleanupLoop fuel head m = some (l.foldl reap m) := by
  induction l generalizing m head fuel with
  | nil =>
    obtain ⟨fuel, rfl⟩ : ∃ k, fuel = k + 1 := ⟨fuel - 1, by simp at hfuel; omega⟩
    obtain rfl : head = none := hl
    rfl
  | cons c l ih =>
    rw [List.length_cons] at hfuel
    obtain ⟨fuel, rfl⟩ : ∃ k, fuel = k + 1 := ⟨fuel - 1, by omega⟩
    obtain ⟨rfl, hl⟩ := hl
    rw [ProcessManager.cleanupLoop, List.foldl_cons]
    refine ih ?_ (by omega)
    rw [next_reap]
    exact hl

/-- Reaping changes no record. -/
@[simp] lemma pcb_foldl_reap (m : ProcessManager) (l : List Ptr) : (l.foldl reap m).pcb = m.pcb := by
  induction l generalizing m with
  | nil => rfl
  | cons c l ih => rw [List.foldl_cons, ih, pcb_reap]

/-- What the loop passes to `free`. -/
lemma freed_foldl_reap (m : ProcessManager) (l : List Ptr) :
    (l.foldl reap m).freed = m.freed ++ l.flatMap m.blocksOf := by
  induction l generalizing m with
  | nil => simp
  | cons c l ih =>
    have hblocks : (m.reap c).blocksOf = m.blocksOf := by
      funext r
      rw [blocksOf, blocksOf, pcb_reap]
    rw [List.foldl_cons, ih, freed_reap, hblocks, List.flatMap_cons, List.append_assoc]

/-- The loop takes the processes of its list off the table. -/
lemma processes_foldl_reap (m : ProcessManager) (l : List Ptr) (i : ℕ) :
    (l.foldl reap m).processes i = if i ∈ l.map m.pidOf then none else m.processes i := by
  induction l generalizing m with
  | nil => simp
  | cons c l ih =>
    have hpid : (m.reap c).pidOf = m.pidOf := by
      funext r
      rw [pidOf, pidOf, pcb_reap]
    rw [List.foldl_cons, ih, hpid, processes_reap, List.map_cons]
    by_cases hi : i = m.pidOf c
    · rw [hi]
      simp [pidOf]
    · have hne : i ≠ (m.pcb c).pid := hi
      simp [hi, hne]

/-- The counter is decremented once for each process. -/
lemma activeProcesses_foldl_reap (hle : l.length ≤ m.activeProcesses)
    (hlt : m.activeProcesses < 2 ^ 32) :
    (l.foldl reap m).activeProcesses + l.length = m.activeProcesses := by
  induction l generalizing m with
  | nil => rfl
  | cons c l ih =>
    rw [List.length_cons] at hle ⊢
    have hstep : (m.reap c).activeProcesses = m.activeProcesses - 1 := by
      rw [activeProcesses_reap, Word32.sub_of_le hlt (by omega)]
    have hrest := ih (m := m.reap c) (by omega) (by omega)
    rw [List.foldl_cons]
    omega

/-! ## The clean-up of a tick -/

/-- The counter of processes counts the entries of the table. -/
lemma Inv.activeProcesses_eq (h : Inv m Q held cur) :
    m.activeProcesses =
      ((Finset.range processMaxCount).filter fun i => (m.processes i).isSome).card := by
  rw [h.active, Bitmap.card]
  congr 1
  refine Finset.filter_congr fun i hi => ?_
  rw [h.bitmap i (Finset.mem_range.1 hi)]

/-- Different processes of the table are at most as many as the counter says. -/
lemma Inv.length_le_active (h : Inv m Q held cur) (hl : l.Nodup) (hlive : ∀ p ∈ l, m.Live p) :
    l.length ≤ m.activeProcesses := by
  have hnodup : (l.map m.pidOf).Nodup :=
    List.Nodup.map_on (fun p hp r hr heq => h.pid_inj (hlive p hp) (hlive r hr) heq) hl
  have hsub : (l.map m.pidOf).toFinset ⊆
      (Finset.range processMaxCount).filter fun i => (m.processes i).isSome := by
    intro i hi
    obtain ⟨p, hp, rfl⟩ := List.mem_map.1 (List.mem_toFinset.1 hi)
    have hself := h.processes_pidOf (hlive p hp)
    simp [hself, h.pidOf_lt (hlive p hp)]
  have hcard := Finset.card_le_card hsub
  rwa [List.toFinset_card_of_nodup hnodup, List.length_map, ← h.activeProcesses_eq] at hcard

/-- Moving processes between queues frees no block. -/
lemma Moved.blocksOf {P : Ptr → Prop} (h : Moved P m m') : m'.blocksOf = m.blocksOf := by
  funext p
  have hstack := h.keeps (g := fun x => (x.userStack, x.kernelStack)) (fun _ _ _ _ _ => rfl) p
  obtain ⟨huser, hkernel⟩ := Prod.mk.inj hstack
  rw [ProcessManager.blocksOf, ProcessManager.blocksOf, huser, hkernel]

/-- And gives no process another PID. -/
lemma Moved.pidOf {P : Ptr → Prop} (h : Moved P m m') : m'.pidOf = m.pidOf := by
  funext p
  exact h.keeps (g := Process.pid) (fun _ _ _ _ _ => rfl) p

/-- The rest of a tick with a clean-up frees the blocks of each terminated process once, counts it once,
and takes it off the table; `T` are these processes in the order of the terminated queue.

**Proof sketch.** The wake-up loop leaves the terminated queue, which is a list, as it is. The clean-up
loop goes once through this list. -/
lemma WellFormed.cleanUp (h : WellFormed m) (hdue : m.systemTicks % 100 = 0) :
    ∃ (m' : ProcessManager) (T : List Ptr), m.processManagerTickTail = some m' ∧ T.Nodup ∧
      (∀ p, p ∈ T ↔ m.Live p ∧ (m.pcb p).state = .terminated) ∧
      m'.freed = m.freed ++ T.flatMap m.blocksOf ∧
      m'.activeProcesses + T.length = m.activeProcesses ∧
      ∀ p, m'.Live p ↔ m.Live p ∧ p ∉ T := by
  obtain ⟨Q, h⟩ := h
  obtain ⟨m₁, Q₁, hw, h₁, -, ht₁, hp₁, -, -⟩ := h.wakeLoop rfl (List.nil_append _).symm
    (h.length_lt .blocked)
  have hhead : (Q .blocked).head? = m.blockedQueue := (h.isList .blocked).head_eq.symm
  rw [hhead] at hw
  have hmoved := wakeLoop_moved hw
  have hclean : cleanupLoop walkFuel m₁.terminatedQueue m₁ =
      some ((Q .terminated).foldl reap m₁) := by
    have hlist := h₁.isList .terminated
    rw [ht₁] at hlist
    exact cleanupLoop_eq hlist (h.length_lt .terminated)
  have hmem : ∀ p, p ∈ Q .terminated ↔ m.Live p ∧ (m.pcb p).state = .terminated := by
    intro p
    constructor
    · intro hp
      exact ⟨((h.mem .terminated p).1 hp).1, h.state_of_mem_terminated hp⟩
    · rintro ⟨hlive, hstate⟩
      exact (h.mem .terminated p).2 ⟨hlive, by simp, by rw [Process.home, hstate]⟩
  have hactive : m₁.activeProcesses = m.activeProcesses := by
    rw [h₁.activeProcesses_eq, h.activeProcesses_eq, hp₁]
  have hnodup := (h.isList .terminated).nodup
  have hle := h.length_le_active hnodup fun p hp => ((hmem p).1 hp).1
  have hlt : m.activeProcesses < 2 ^ 32 := by
    have hcard := Bitmap.card_le m.processBitmap processMaxCount
    rw [← h.active, show processMaxCount = 64 from rfl] at hcard
    omega
  refine ⟨{ (Q .terminated).foldl reap m₁ with terminatedQueue := none }, Q .terminated, ?_, hnodup,
    hmem, ?_, ?_, fun p => ?_⟩
  · rw [processManagerTickTail, hw]
    simp only [Option.bind_eq_bind, Option.bind_some]
    rw [hmoved.systemTicks, if_pos hdue, hclean]
    rfl
  · show ((Q .terminated).foldl reap m₁).freed = _
    rw [freed_foldl_reap, hmoved.freed, hmoved.blocksOf]
  · show ((Q .terminated).foldl reap m₁).activeProcesses + _ = _
    rw [activeProcesses_foldl_reap (by omega) (by omega), hactive]
  · show (∃ i, ((Q .terminated).foldl reap m₁).processes i = some p) ↔ _
    simp only [processes_foldl_reap, hmoved.pidOf, hp₁]
    constructor
    · rintro ⟨i, hi⟩
      split_ifs at hi with hin
      refine ⟨⟨i, hi⟩, fun hp => hin ?_⟩
      exact List.mem_map.2 ⟨p, hp, (h.pid i p hi).2⟩
    · rintro ⟨hlive, hnot⟩
      refine ⟨m.pidOf p, ?_⟩
      rw [if_neg]
      · exact h.processes_pidOf hlive
      · intro hin
        obtain ⟨r, hr, heq⟩ := List.mem_map.1 hin
        exact hnot (h.pid_inj ((hmem r).1 hr).1 hlive heq ▸ hr)

end ProcessManager

/-! ## The ledger -/

/-- The manager and the blocks that `malloc` returned and that were not freed since. -/
structure Ledger where
  state : CallState
  held : Finset Ptr

namespace Ledger

/-- The blocks that `malloc` returns to `create_process`: for the control block and, once there is a page
directory, for the kernel stack. -/
def returned (s : Ledger) : Call → Finset Ptr
  | .create args alloc =>
    if args.entry = 0 ∨ s.state.manager.findFreePid = none then ∅
    else alloc.process.toFinset ∪
      if alloc.process = none ∨ alloc.pageDirectory = none then ∅ else alloc.kernelStack.toFinset
  | _ => ∅

/-- The blocks that a call that leads to the manager `m` passes to `free`. -/
def passed (s : Ledger) (m : ProcessManager) : List Ptr :=
  m.freed.drop s.state.manager.freed.length

/-- The effect of a call. -/
def step (s : Ledger) (c : Call) : Option Ledger :=
  (s.state.call c).map fun state =>
    { state := state, held := (s.held ∪ s.returned c) \ (s.passed state.manager).toFinset }

/-- The calls that can occur: `malloc` returns two different blocks that are not held, and only a
suspended tick is resumed. -/
def Possible (s : Ledger) : Call → Prop
  | .create _ alloc => (∀ p, alloc.process = some p → p ∉ s.held) ∧
      ∀ k, alloc.kernelStack = some k → k ∉ s.held ∧ alloc.process ≠ some k
  | .resumeTick => 0 < s.state.suspended
  | _ => True

/-- The process is terminated and waits for the clean-up. -/
def Finished (s : Ledger) (p : Ptr) : Prop :=
  s.state.manager.Live p ∧ (s.state.manager.pcb p).state = .terminated

/-- The call cleans up no process with a user stack. -/
def NoUserStack (s : Ledger) (c : Call) : Prop :=
  s.state.CleansUp c → ∀ p, s.Finished p → (s.state.manager.pcb p).userStack = none

/-- If the call is due to clean up, it ends. It frees the kernel stack and the control block of each
process that is terminated, in the order `T`, each block once and all of them held, and counts each
process once. -/
def CleansRight (s : Ledger) (c : Call) : Prop :=
  s.state.CleansUp c → ∃ (s' : CallState) (T : List Ptr), s.state.call c = some s' ∧ T.Nodup ∧
    (∀ p, p ∈ T ↔ s.Finished p) ∧
    s.passed s'.manager = T.flatMap (fun p => [(s.state.manager.pcb p).kernelStack, p]) ∧
    (s.passed s'.manager).Nodup ∧ (∀ b ∈ s.passed s'.manager, b ∈ s.held) ∧
    s'.manager.activeProcesses + T.length = s.state.manager.activeProcesses

/-- The state after `process_manager_init`: no block of the manager is held yet. -/
def init (pcb : Ptr → Process) (regFrames : ℕ → RegisterState) (cr3 : Option ℕ) (wrapper : ℕ) :
    Ledger where
  state := .init pcb regFrames cr3 wrapper
  held := ∅

/-! ## The invariant -/

/-- The processes of the table own blocks that are held, no two of them the same one. -/
structure Owns (s : Ledger) : Prop where
  wellFormed : WellFormed s.state.manager
  process : ∀ p, s.state.manager.Live p → p ∈ s.held
  kernelStack : ∀ p, s.state.manager.Live p → (s.state.manager.pcb p).kernelStack ∈ s.held
  apart : ∀ p r, s.state.manager.Live p → s.state.manager.Live r →
    (s.state.manager.pcb p).kernelStack ≠ r
  inj : ∀ p r, s.state.manager.Live p → s.state.manager.Live r →
    (s.state.manager.pcb p).kernelStack = (s.state.manager.pcb r).kernelStack → p = r

variable {s : Ledger} {s' : CallState} {c : Call}

/-- A call that can occur for the ledger can occur for the state. -/
lemma Owns.possible (h : s.Owns) (hc : s.Possible c) : s.state.Possible c := by
  cases c with
  | create args alloc => exact fun p hp hlive => hc.1 p hp (h.process p hlive)
  | resumeTick => exact hc
  | _ => trivial

/-- A call that leaves the processes of the table, their kernel stacks and the blocks that are held. -/
lemma Owns.of_same (h : s.Owns) (hwf : WellFormed s'.manager)
    (hlive : ∀ p, s'.manager.Live p → s.state.manager.Live p)
    (hstack : ∀ p, s'.manager.Live p →
      (s'.manager.pcb p).kernelStack = (s.state.manager.pcb p).kernelStack)
    {held : Finset Ptr} (hheld : ∀ p, s'.manager.Live p →
      p ∈ held ∧ (s.state.manager.pcb p).kernelStack ∈ held) :
    Owns { state := s', held := held } := by
  refine ⟨hwf, fun p hp => (hheld p hp).1, fun p hp => ?_, fun p r hp hr => ?_, fun p r hp hr heq => ?_⟩
  · rw [hstack p hp]
    exact (hheld p hp).2
  · rw [hstack p hp]
    exact h.apart p r (hlive p hp) (hlive r hr)
  · rw [hstack p hp, hstack r hr] at heq
    exact h.inj p r (hlive p hp) (hlive r hr) heq

/-! ## Calls without a clean-up -/

/-- A call that neither creates a process nor cleans up. -/
lemma Owns.quiet (h : s.Owns) (hc : ¬ c.Creates) (hclean : ¬ s.state.CleansUp c)
    (hcall : s.state.call c = some s') (hwf : WellFormed s'.manager) :
    ∃ t, s.step c = some t ∧ t.Owns := by
  obtain ⟨hkeep, hsub, hquiet⟩ := keeps_call isFixed_kernelStack hc hcall
  obtain ⟨-, hfreed⟩ := hquiet hclean
  have hpassed : s.passed s'.manager = [] := by simp [passed, hfreed]
  have hlive : ∀ p, s'.manager.Live p → s.state.manager.Live p := fun p ⟨i, hi⟩ => ⟨i, hsub i p hi⟩
  refine ⟨_, by rw [step, hcall]; rfl, h.of_same hwf hlive (fun p _ => hkeep p) fun p hp => ?_⟩
  simp only [hpassed, List.toFinset_nil, Finset.sdiff_empty, Finset.mem_union]
  exact ⟨.inl (h.process p (hlive p hp)), .inl (h.kernelStack p (hlive p hp))⟩

/-! ## Creation -/

/-- A creation that fails gives back what it got. -/
lemma Owns.createError (h : s.Owns) {args : CreateArgs} {alloc : CreateAlloc}
    (hpos : s.Possible (.create args alloc)) {m : ProcessManager} {e : CreateError}
    (hcreate : s.state.manager.createProcess args alloc = some (m, .error e)) (hwf : WellFormed m) :
    ∃ t, s.step (.create args alloc) = some t ∧ t.Owns := by
  obtain ⟨l, hm, hl, -⟩ := createProcess_error hcreate
  have hcall : s.state.call (.create args alloc) = some { s.state with manager := m } := by
    simp only [CallState.call, hcreate, Option.map_some]
  have hpassed : s.passed m = l := by simp [passed, hm]
  have hlive : ∀ p, m.Live p → s.state.manager.Live p := fun p hp => by rwa [hm] at hp
  -- what is freed was just returned, so it is no block of a process
  have hfresh : ∀ b ∈ s.held, b ∉ l := by
    intro b hb hbl
    rcases hl b hbl with hp | hk
    · exact hpos.1 b hp hb
    · exact (hpos.2 b hk).1 hb
  have hwf' : WellFormed ({ s.state with manager := m } : CallState).manager := hwf
  refine ⟨_, by rw [step, hcall]; rfl, h.of_same hwf' hlive (fun p _ => by rw [hm]) fun p hp => ?_⟩
  have hmem : ∀ b ∈ s.held, b ∈ (s.held ∪ s.returned (.create args alloc)) \ l.toFinset := by
    intro b hb
    simp [hb, hfresh b hb]
  rw [hpassed]
  exact ⟨hmem _ (h.process p (hlive p hp)), hmem _ (h.kernelStack p (hlive p hp))⟩

/-- A process with two new blocks is added. -/
lemma Owns.add (h : s.Owns) (hwf : WellFormed s'.manager) {p k : Ptr} (hp : p ∉ s.held) (hk : k ∉ s.held)
    (hne : p ≠ k) (hlive : ∀ r, s'.manager.Live r → r = p ∨ s.state.manager.Live r)
    (hself : (s'.manager.pcb p).kernelStack = k)
    (hother : ∀ r, r ≠ p → (s'.manager.pcb r).kernelStack = (s.state.manager.pcb r).kernelStack)
    {held : Finset Ptr} (hheld : ∀ b, b ∈ held ↔ b ∈ s.held ∨ b = p ∨ b = k) :
    Owns { state := s', held := held } := by
  have hold : ∀ r, s.state.manager.Live r → r ≠ p := by
    rintro r hr rfl
    exact hp (h.process r hr)
  refine ⟨hwf, fun r hr => ?_, fun r hr => ?_, fun r r' hr hr' => ?_, fun r r' hr hr' heq => ?_⟩
  · rcases hlive r hr with rfl | hr
    · exact (hheld r).2 (.inr (.inl rfl))
    · exact (hheld r).2 (.inl (h.process r hr))
  · rcases hlive r hr with rfl | hr
    · exact (hheld _).2 (.inr (.inr hself))
    · refine (hheld _).2 (.inl ?_)
      rw [hother r (hold r hr)]
      exact h.kernelStack r hr
  · rcases hlive r hr with rfl | hr <;> rcases hlive r' hr' with rfl | hr'
    · rw [hself]
      exact hne.symm
    · rw [hself]
      rintro rfl
      exact hk (h.process k hr')
    · rw [hother r (hold r hr)]
      rintro hrk
      exact hp (hrk ▸ h.kernelStack r hr)
    · rw [hother r (hold r hr)]
      exact h.apart r r' hr hr'
  · rcases hlive r hr with rfl | hr <;> rcases hlive r' hr' with rfl | hr'
    · rfl
    · rw [hself, hother r' (hold r' hr')] at heq
      exact absurd (heq ▸ h.kernelStack r' hr') hk
    · rw [hself, hother r (hold r hr)] at heq
      exact absurd (heq ▸ h.kernelStack r hr) hk
    · rw [hother r (hold r hr), hother r' (hold r' hr')] at heq
      exact h.inj r r' hr hr' heq

/-- A creation that succeeds keeps the two blocks it got for the new process. -/
lemma Owns.createOk (h : s.Owns) {args : CreateArgs} {alloc : CreateAlloc}
    (hpos : s.Possible (.create args alloc)) {m : ProcessManager} {pid : ℕ}
    (hcreate : s.state.manager.createProcess args alloc = some (m, .ok pid)) (hwf : WellFormed m) :
    ∃ t, s.step (.create args alloc) = some t ∧ t.Owns := by
  obtain ⟨hfree, p, d, k, hp, hadd, hd, hk, -⟩ := createProcess_ok hcreate
  obtain ⟨hkeep, hproc⟩ := addProcess_keeps isFixed_kernelStack.isStatic hadd
  change m.processes = Function.update s.state.manager.processes pid (some p) at hproc
  have hcall : s.state.call (.create args alloc) = some { s.state with manager := m } := by
    simp only [CallState.call, hcreate, Option.map_some]
  have hentry : args.entry ≠ 0 := by
    intro h0
    simp [createProcess, h0] at hcreate
  have hreturned : s.returned (.create args alloc) = {p} ∪ {k} := by
    simp [returned, hentry, hfree, hp, hd, hk]
  have hpassed : s.passed m = [] := by simp [passed, freed_addProcess hadd]
  obtain ⟨hnk, hpk⟩ := hpos.2 k hk
  have hne : p ≠ k := fun e => hpk (by rw [hp, e])
  set x := s.state.manager.newProcess args pid d k alloc.stackRegion with hx
  have hself : (m.pcb p).kernelStack = k := by
    have hblock : Function.update s.state.manager.pcb p x p = x := Function.update_self ..
    exact (hkeep p).trans ((congrArg Process.kernelStack hblock).trans rfl)
  have hother : ∀ r, r ≠ p → (m.pcb r).kernelStack = (s.state.manager.pcb r).kernelStack := fun r hr =>
    (hkeep r).trans (congrArg Process.kernelStack (Function.update_of_ne hr ..))
  have hlive : ∀ r, m.Live r → r = p ∨ s.state.manager.Live r := by
    rintro r ⟨i, hi⟩
    rw [hproc] at hi
    by_cases hip : i = pid
    · rw [hip, Function.update_self] at hi
      exact .inl (Option.some.inj hi).symm
    · exact .inr ⟨i, by rwa [Function.update_of_ne hip] at hi⟩
  have hwf' : WellFormed ({ s.state with manager := m } : CallState).manager := hwf
  refine ⟨_, by rw [step, hcall]; rfl,
    h.add hwf' (hpos.1 p hp) hnk hne hlive hself hother fun b => ?_⟩
  rw [hpassed, hreturned]
  simp only [List.toFinset_nil, Finset.sdiff_empty, Finset.mem_union, Finset.mem_singleton]

/-! ## Clean-ups -/

/-- A call that cleans up is the rest of a tick, made by a manager with the same processes. -/
lemma call_of_cleansUp {s : CallState} (h : WellFormed s.manager) (hc : s.CleansUp c) :
    ∃ (m : ProcessManager) (n : ℕ), WellFormed m ∧ m.systemTicks % 100 = 0 ∧
      s.call c = m.processManagerTickTail.map (fun m' => { manager := m', suspended := n }) ∧
      m.processes = s.manager.processes ∧ m.freed = s.manager.freed ∧
      m.activeProcesses = s.manager.activeProcesses ∧
      ∀ r, (m.pcb r).state = (s.manager.pcb r).state ∧
        (m.pcb r).kernelStack = (s.manager.pcb r).kernelStack ∧
        (m.pcb r).userStack = (s.manager.pcb r).userStack := by
  cases c with
  | tick =>
    obtain ⟨hraised, hdue⟩ := hc
    refine ⟨s.manager.processManagerTickHead.1, s.suspended, h.tickHead, ?_, ?_, processes_tickHead _,
      freed_tickHead _, activeProcesses_tickHead _, fun r => ⟨state_tickHead _ r,
        isFixed_kernelStack.tickHead _ r, isFixed_userStack.tickHead _ r⟩⟩
    · rw [systemTicks_tickHead]
      exact hdue
    · simp only [CallState.call]
      rcases ht : s.manager.processManagerTickHead with ⟨m, raised⟩
      rw [ht] at hraised
      obtain rfl : raised = false := hraised
      rfl
  | resumeTick =>
    exact ⟨s.manager, s.suspended - 1, h, hc, rfl, rfl, rfl, rfl, fun r => ⟨rfl, rfl, rfl⟩⟩
  | _ => exact absurd hc id

/-- The blocks of different processes of the table are different. -/
lemma Owns.nodup_blocks (h : s.Owns) {T : List Ptr} (hT : T.Nodup)
    (hlive : ∀ p ∈ T, s.state.manager.Live p) :
    (T.flatMap fun p => [(s.state.manager.pcb p).kernelStack, p]).Nodup := by
  rw [List.nodup_flatMap]
  refine ⟨fun p hp => ?_, hT.imp_of_mem fun {p r} hp hr hne => ?_⟩
  · simpa using h.apart p p (hlive p hp) (hlive p hp)
  · have hp' := hlive p hp
    have hr' := hlive r hr
    intro b hb hb'
    simp only [List.mem_cons, List.not_mem_nil, or_false] at hb hb'
    rcases hb with rfl | rfl <;> rcases hb' with hb' | hb'
    · exact hne (h.inj p r hp' hr' hb')
    · exact h.apart p r hp' hr' hb'
    · exact h.apart r b hr' hp' hb'.symm
    · exact hne hb'

/-- A clean-up is right and keeps the invariant, if it meets no user stack.

**Proof sketch.** By `WellFormed.cleanUp` it passes the blocks of the terminated processes to `free`. By
the invariant these are held, no two are the same, and none is a block of a process that stays. -/
lemma Owns.cleanUp (h : s.Owns) (hclean : s.state.CleansUp c) (hno : s.NoUserStack c) :
    s.CleansRight c ∧ ∃ t, s.step c = some t ∧ t.Owns := by
  obtain ⟨m, n, hwf, hdue, hcall, hproc, hfreed, hactive, hpcb⟩ := call_of_cleansUp h.wellFormed hclean
  obtain ⟨m', T, htail, hnodup, hmem, hpassed, hcount, hlive⟩ := hwf.cleanUp hdue
  obtain ⟨m'', htail', hwf', -⟩ := hwf.tickTail
  obtain rfl : m' = m'' := Option.some.inj (htail.symm.trans htail')
  rw [htail, Option.map_some] at hcall
  have hsame : ∀ p, m.Live p ↔ s.state.manager.Live p := fun p => by rw [Live, Live, hproc]
  have hfinished : ∀ p, p ∈ T ↔ s.Finished p := by
    intro p
    rw [hmem, hsame, (hpcb p).1]
    rfl
  have hTlive : ∀ p ∈ T, s.state.manager.Live p := fun p hp => ((hfinished p).1 hp).1
  set blocks := T.flatMap fun p => [(s.state.manager.pcb p).kernelStack, p] with hblocks
  have hfree : s.passed m' = blocks := by
    rw [passed, hpassed, hfreed, List.drop_left', hblocks]
    · refine List.flatMap_congr fun p hp => ?_
      rw [blocksOf, (hpcb p).2.2, (hpcb p).2.1, hno hclean p ((hfinished p).1 hp)]
      rfl
    · rfl
  have hin : ∀ b, b ∈ blocks ↔ ∃ p ∈ T, b = (s.state.manager.pcb p).kernelStack ∨ b = p := by
    intro b
    simp [hblocks, List.mem_flatMap]
  have hheld : ∀ b ∈ blocks, b ∈ s.held := by
    intro b hb
    obtain ⟨p, hp, rfl | rfl⟩ := (hin b).1 hb
    · exact h.kernelStack p (hTlive p hp)
    · exact h.process b (hTlive b hp)
  refine ⟨fun _ => ⟨_, T, hcall, hnodup, hfinished, hfree, ?_, ?_, ?_⟩, _, by rw [step, hcall]; rfl, ?_⟩
  · rw [hfree]
    exact h.nodup_blocks hnodup hTlive
  · rw [hfree]
    exact hheld
  · rw [← hactive]
    exact hcount
  · have hstay : ∀ p, m'.Live p → s.state.manager.Live p ∧ p ∉ T := by
      intro p hp
      obtain ⟨hp', hnot⟩ := (hlive p).1 hp
      exact ⟨(hsame p).1 hp', hnot⟩
    have hkernel : ∀ p, (m'.pcb p).kernelStack = (s.state.manager.pcb p).kernelStack := fun p =>
      ((processManagerTickTail_keeps isFixed_kernelStack.isStatic htail).1 p).trans (hpcb p).2.1
    have hwf₁ : WellFormed ({ manager := m', suspended := n } : CallState).manager := hwf'
    refine h.of_same hwf₁ (fun p hp => (hstay p hp).1) (fun p _ => hkernel p) fun p hp => ?_
    obtain ⟨hp, hnot⟩ := hstay p hp
    simp only [hfree, Finset.mem_sdiff, Finset.mem_union, List.mem_toFinset, hin]
    refine ⟨⟨.inl (h.process p hp), ?_⟩, .inl (h.kernelStack p hp), ?_⟩
    · rintro ⟨r, hr, heq | heq⟩
      · exact h.apart r p (hTlive r hr) hp heq.symm
      · exact hnot (heq ▸ hr)
    · rintro ⟨r, hr, heq | heq⟩
      · exact hnot (h.inj p r hp (hTlive r hr) heq ▸ hr)
      · exact h.apart p r hp (hTlive r hr) heq

/-! ## Runs -/

/-- One call keeps the invariant, and cleans up right if it is due to. -/
lemma Owns.step (h : s.Owns) (hpos : s.Possible c) (hterm : s.state.TerminatesUnqueued c)
    (hno : s.NoUserStack c) : s.CleansRight c ∧ ∃ t, s.step c = some t ∧ t.Owns := by
  by_cases hclean : s.state.CleansUp c
  · exact h.cleanUp hclean hno
  refine ⟨fun hc => absurd hc hclean, ?_⟩
  obtain ⟨s', hcall, hwf⟩ := wellFormed_call h.wellFormed (h.possible hpos) hterm
  by_cases hc : c.Creates
  · cases c with
    | create args alloc =>
      obtain ⟨⟨m, res⟩, hcreate, rfl⟩ := Option.map_eq_some_iff.1 hcall
      cases res with
      | error e => exact h.createError hpos hcreate hwf
      | ok pid => exact h.createOk hpos hcreate hwf
    | _ => exact absurd hc id
  · exact h.quiet hc hclean hcall hwf

/-- The invariant holds at the start, when no blocks are held. -/
lemma owns_init (pcb : Ptr → Process) (regFrames : ℕ → RegisterState) (cr3 : Option ℕ) (wrapper : ℕ) :
    (init pcb regFrames cr3 wrapper).Owns := by
  have hnone : ∀ p, ¬ (init pcb regFrames cr3 wrapper).state.manager.Live p := by
    rintro p ⟨i, hi⟩
    simp [init, CallState.init, processManagerInit] at hi
  exact ⟨wellFormed_processManagerInit .., fun p hp => absurd hp (hnone p),
    fun p hp => absurd hp (hnone p), fun p _ hp => absurd hp (hnone p),
    fun p _ hp => absurd hp (hnone p)⟩

/-- What the callers of the process manager must not do. -/
def Careful (s : Ledger) (c : Call) : Prop :=
  s.Possible c ∧ s.state.TerminatesUnqueued c ∧ s.NoUserStack c

/-- In every run from `process_manager_init` in which no process is terminated while it is in a queue and no
process with a user stack is cleaned up, every call returns and every clean-up is right. -/
theorem cleansRight_of_run (pcb : Ptr → Process) (regFrames : ℕ → RegisterState) (cr3 : Option ℕ)
    (wrapper : ℕ) (cs : List Call)
    (h : Run.Follows step Careful (init pcb regFrames cr3 wrapper) cs) :
    (∃ s, Run.exec step (init pcb regFrames cr3 wrapper) cs = some s) ∧
      Run.Follows step CleansRight (init pcb regFrames cr3 wrapper) cs := by
  have hstep : ∀ s c, Owns s → Careful s c → ∃ t, s.step c = some t ∧ t.Owns :=
    fun s c hs hc => (hs.step hc.1 hc.2.1 hc.2.2).2
  constructor
  · obtain ⟨s, hexec, -⟩ := Run.exec_of_step hstep (owns_init ..) h
    exact ⟨s, hexec⟩
  · rw [Run.follows_iff] at h ⊢
    intro ds d s hds hexec
    have hfollows : Run.Follows step Careful (init pcb regFrames cr3 wrapper) ds :=
      (Run.follows_iff.2 h).of_isPrefix ((List.prefix_append ds [d]).trans hds)
    obtain ⟨s', hexec', howns⟩ := Run.exec_of_step hstep (owns_init ..) hfollows
    obtain rfl : s = s' := Option.some.inj (hexec.symm.trans hexec')
    obtain ⟨hpos, hterm, hno⟩ := h ds d s hds hexec
    exact (howns.step hpos hterm hno).1

/-! ## Idle ticks -/

/-- No process runs or waits for a time. -/
def Idle (s : Ledger) : Prop :=
  s.state.manager.currentProcess = none ∧ s.state.manager.blockedQueue = none

/-- The ledger `n` ticks later, if nothing else changes. -/
def later (s : Ledger) (n : ℕ) : Ledger :=
  { s with state := { s.state with
      manager := { s.state.manager with systemTicks := s.state.manager.systemTicks + n } } }

/-- Time passes in pieces. -/
lemma later_later (s : Ledger) (n k : ℕ) : (s.later n).later k = s.later (n + k) := by
  simp only [later, Nat.add_assoc]

/-- An idle tick counts, and cleans up if it is due to. -/
lemma call_tick_of_idle (hidle : s.Idle) (hlt : s.state.manager.systemTicks < 100) :
    s.state.call .tick = if s.state.manager.systemTicks = 99 then
        (cleanupLoop walkFuel (s.later 1).state.manager.terminatedQueue (s.later 1).state.manager).map
          fun m => { s.state with manager := { m with terminatedQueue := none } }
      else some (s.later 1).state := by
  obtain ⟨hcur, hblocked⟩ := hidle
  have hadd : Word32.add s.state.manager.systemTicks 1 = s.state.manager.systemTicks + 1 := by
    rw [Word32.add]
    omega
  have hhead : s.state.manager.processManagerTickHead = ((s.later 1).state.manager, false) := by
    rw [tickHead_of_free hcur, hadd]
    rfl
  have hwalk : wakeLoop walkFuel (s.later 1).state.manager.blockedQueue (s.later 1).state.manager =
      some (s.later 1).state.manager := by
    rw [show (s.later 1).state.manager.blockedQueue = none from hblocked,
      show walkFuel = (2 ^ 32 - 1) + 1 from rfl, wakeLoop]
  have hticks : (s.later 1).state.manager.systemTicks = s.state.manager.systemTicks + 1 := rfl
  rw [CallState.call, hhead]
  dsimp only
  rw [processManagerTickTail, hwalk, Option.bind_eq_bind, Option.bind_some]
  by_cases hdue : s.state.manager.systemTicks = 99
  · rw [if_pos hdue, if_pos (by rw [hticks, hdue])]
    cases cleanupLoop walkFuel (s.later 1).state.manager.terminatedQueue (s.later 1).state.manager <;> rfl
  · rw [if_neg hdue, if_neg (by rw [hticks]; omega)]
    rfl

/-- On an idle machine a tick lets the time pass, unless it is the 100th. -/
lemma step_tick_of_idle (hidle : s.Idle) (hlt : s.state.manager.systemTicks + 1 < 100) :
    s.step .tick = some (s.later 1) := by
  have hcall := call_tick_of_idle hidle (by omega)
  rw [if_neg (by omega)] at hcall
  simp [step, hcall, returned, passed, later]

/-- Ticks before the first clean-up. -/
lemma exec_ticks_of_idle (hidle : s.Idle) {n : ℕ} (hlt : s.state.manager.systemTicks + n < 100) :
    Run.exec step s (List.replicate n .tick) = some (s.later n) := by
  induction n generalizing s with
  | zero => rfl
  | succ n ih =>
    have hlt' : (s.later 1).state.manager.systemTicks + n < 100 := by
      show s.state.manager.systemTicks + 1 + n < 100
      omega
    rw [List.replicate_succ, Run.exec, step_tick_of_idle hidle (by omega), Option.bind_some,
      ih (s := s.later 1) hidle hlt', later_later, Nat.add_comm 1 n]

/-- A rule that a tick follows at any time. -/
lemma follows_ticks_of_idle {ok : Ledger → Call → Prop} (hidle : s.Idle) {n : ℕ}
    (hlt : s.state.manager.systemTicks + n < 100) (hok : ∀ k, ok (s.later k) .tick) :
    Run.Follows step ok s (List.replicate (n + 1) .tick) := by
  induction n generalizing s with
  | zero => exact ⟨hok 0, fun _ _ => trivial⟩
  | succ n ih =>
    refine ⟨hok 0, fun t ht => ?_⟩
    obtain rfl : s.later 1 = t := Option.some.inj ((step_tick_of_idle hidle (by omega)).symm.trans ht)
    refine ih hidle ?_ fun k => ?_
    · show s.state.manager.systemTicks + 1 + n < 100
      omega
    · rw [later_later]
      exact hok (1 + k)

/-- The hundredth tick of an idle manager cleans up. -/
lemma call_hundredth_tick (hidle : s.Idle) (hticks : s.state.manager.systemTicks = 0) :
    (s.later 99).state.CleansUp .tick ∧ (s.later 99).state.call .tick =
      (cleanupLoop walkFuel s.state.manager.terminatedQueue (s.later 100).state.manager).map
        fun m => { s.state with manager := { m with terminatedQueue := none } } := by
  have hlater : (s.later 99).state.manager.systemTicks = 99 := by
    show s.state.manager.systemTicks + 99 = 99
    rw [hticks]
  refine ⟨⟨?_, ?_⟩, ?_⟩
  · rw [tickHead_of_free (m := (s.later 99).state.manager) hidle.1]
  · rw [hlater]
    rfl
  · rw [call_tick_of_idle (s := s.later 99) hidle (by omega), if_pos hlater, later_later]
    rfl

/-! ## Where it fails -/

/-- The clean-up loop does not end at a process that is linked behind itself. -/
lemma cleanupLoop_of_next_self {m : ProcessManager} {p : Ptr} (hp : m.next p = some p) (fuel : ℕ) :
    cleanupLoop fuel (some p) m = none := by
  induction fuel generalizing m with
  | zero => rfl
  | succ fuel ih =>
    rw [cleanupLoop, hp]
    exact ih (by rw [next_reap, hp])

/-- The state after `process_manager_init` over zeroed memory. -/
def zero : Ledger := init (fun _ => {}) (fun _ => {}) none 0

/-- A process is created, dispatched and terminated. -/
def exits (args : CreateArgs) : List Call := [.create args sampleAlloc, .schedule 0, .terminate 0 7]

/-- A process that is terminated twice. -/
lemma exec_exits_terminate : ∃ s, Run.exec step zero (exits {} ++ [.terminate 0 7]) = some s ∧
    s.Idle ∧ s.state.manager.systemTicks = 0 ∧ s.state.manager.terminatedQueue = some 100 ∧
    s.state.manager.next 100 = some 100 :=
  ⟨_, rfl, ⟨rfl, rfl⟩, rfl, rfl, rfl⟩

/-- A process that is terminated once. -/
lemma exec_exits (level : PrivilegeLevel) : ∃ s, Run.exec step zero (exits { privilege := level }) = some s ∧
    s.Idle ∧ s.state.manager.systemTicks = 0 ∧ s.state.manager.terminatedQueue = some 100 ∧
    s.state.manager.next 100 = none ∧
    (s.state.manager.pcb 100).userStack = (if level = .userMode then some userStackVirtual else none) ∧
    userStackVirtual ∉ s.held ∧ ∀ p, s.state.manager.Live p → p = 100 := by
  have honly : ∀ p, (∃ i, Function.update (fun _ => none) 0 (some 100) i = some p) → p = 100 := by
    intro p hp
    rcases (exists_update_some_iff rfl).1 hp with rfl | ⟨k, hk⟩
    · rfl
    · cases hk
  cases level with
  | kernelMode => exact ⟨_, rfl, ⟨rfl, rfl⟩, rfl, rfl, rfl, rfl, by decide, honly⟩
  | userMode => exact ⟨_, rfl, ⟨rfl, rfl⟩, rfl, rfl, rfl, rfl, by decide, honly⟩

/-- A created process and calls that need nothing from `malloc`. -/
lemma follows_exits (args : CreateArgs) {cs : List Call} (hcs : ∀ c ∈ cs, ∀ s : Ledger, s.Possible c) :
    Run.Follows step Possible zero (exits args ++ cs) := by
  have hcreate : zero.Possible (.create args sampleAlloc) :=
    ⟨fun _ _ => Finset.notMem_empty _, fun k hk => ⟨Finset.notMem_empty _, by
      rw [← hk]
      decide⟩⟩
  refine ⟨hcreate, fun t _ => Run.follows_of_forall fun c hc => ?_⟩
  rcases List.mem_cons.1 hc with rfl | hc
  · exact fun _ => trivial
  rcases List.mem_cons.1 hc with rfl | hc
  · exact fun _ => trivial
  · exact hcs c hc

/-- A run of 100 ticks ends with a clean-up, which fails if it passes a block to `free` that is not held. -/
lemma not_follows_ticks {cs : List Call} (hexec : Run.exec step zero cs = some s) (hidle : s.Idle)
    (hticks : s.state.manager.systemTicks = 0)
    (hbad : ∀ m, cleanupLoop walkFuel s.state.manager.terminatedQueue (s.later 100).state.manager =
      some m → ∃ b ∈ s.passed m, b ∉ s.held) :
    ¬ Run.Follows step CleansRight zero (cs ++ List.replicate 100 .tick) := by
  intro h
  obtain ⟨hclean, htick⟩ := call_hundredth_tick hidle hticks
  have hrest := (Run.follows_append.1 h).2 s hexec
  rw [List.replicate_succ'] at hrest
  have hright := ((Run.follows_append.1 hrest).2 _ (exec_ticks_of_idle hidle (by omega))).1
  obtain ⟨s', T, hcall, -, -, -, -, hheld, -⟩ := hright hclean
  rw [htick] at hcall
  obtain ⟨m, hloop, rfl⟩ := Option.map_eq_some_iff.1 hcall
  obtain ⟨b, hb, hnot⟩ := hbad m hloop
  exact hnot (hheld b hb)

/-- What the callers may do does not make clean-ups right. A process that is terminated twice, by the exit
system call and by `process_wrapper`, is linked behind itself, and the tick that is to clean it up does not
return. For a process in user mode the tick passes the user stack to `free`, which `malloc` did not return. -/
theorem not_cleansRight :
    (∃ cs, Run.Follows step Possible zero cs ∧ ¬ Run.Follows step CleansRight zero cs ∧
      Run.exec step zero cs = none) ∧
    ∃ cs, Run.Follows step Possible zero cs ∧ ¬ Run.Follows step CleansRight zero cs := by
  have htick : ∀ c ∈ List.replicate 100 Call.tick, ∀ s : Ledger, s.Possible c := by
    intro c hc s
    rw [List.eq_of_mem_replicate hc]
    trivial
  constructor
  · obtain ⟨s, hexec, hidle, hticks, hhead, hnext⟩ := exec_exits_terminate
    have hloop : cleanupLoop walkFuel s.state.manager.terminatedQueue (s.later 100).state.manager =
        none := by
      rw [hhead]
      exact cleanupLoop_of_next_self (m := (s.later 100).state.manager) hnext walkFuel
    refine ⟨exits {} ++ [.terminate 0 7] ++ List.replicate 100 .tick, ?_,
      not_follows_ticks hexec hidle hticks fun m hm => ?_, ?_⟩
    · rw [List.append_assoc]
      refine follows_exits {} fun c hc s => ?_
      rcases List.mem_append.1 hc with hc | hc
      · rw [List.mem_singleton.1 hc]
        trivial
      · exact htick c hc s
    · rw [hloop] at hm
      cases hm
    · rw [Run.exec_append, hexec, Option.bind_some, List.replicate_succ',
        Run.exec_concat (exec_ticks_of_idle hidle (by omega)), step,
        (call_hundredth_tick hidle hticks).2, hloop]
      rfl
  · obtain ⟨s, hexec, hidle, hticks, hhead, hnext, huser, hheld, -⟩ := exec_exits .userMode
    refine ⟨exits { privilege := .userMode } ++ List.replicate 100 .tick, follows_exits _ htick,
      not_follows_ticks hexec hidle hticks fun m hm => ⟨userStackVirtual, ?_, hheld⟩⟩
    have hlist : IsList (s.later 100).state.manager.next s.state.manager.terminatedQueue [100] :=
      ⟨hhead, hnext⟩
    rw [cleanupLoop_eq hlist (by decide)] at hm
    obtain rfl := Option.some.inj hm
    have hblocks : (s.later 100).state.manager.blocksOf 100 =
        userStackVirtual :: [(s.state.manager.pcb 100).kernelStack, 100] := by
      show (s.state.manager.pcb 100).userStack.toList ++ _ = _
      rw [huser]
      rfl
    rw [passed, freed_foldl_reap, List.flatMap_singleton, hblocks]
    change _ ∈ List.drop _ (s.state.manager.freed ++ _)
    rw [List.drop_left]
    exact List.mem_cons_self ..

/-- A process of kernel mode that terminates once is cleaned up. -/
theorem cleansRight_of_run_exit :
    (∃ s, Run.exec step zero (exits {} ++ List.replicate 100 .tick) = some s) ∧
      Run.Follows step CleansRight zero (exits {} ++ List.replicate 100 .tick) := by
  refine cleansRight_of_run _ _ _ _ _ (Run.follows_append.2 ⟨?_, fun s hexec => ?_⟩)
  · have hnone : ∀ c ∈ ([] : List Call), ∀ s : Ledger, s.Possible c := by simp
    have hpos := (follows_exits {} hnone).1
    refine ⟨⟨hpos, trivial, fun hc => absurd hc id⟩, fun s₁ h₁ => ?_⟩
    obtain rfl := Option.some.inj h₁
    refine ⟨⟨trivial, trivial, fun hc => absurd hc id⟩, fun s₂ h₂ => ?_⟩
    obtain rfl := Option.some.inj h₂
    refine ⟨⟨trivial, fun _ p hp => ?_, fun hc => absurd hc id⟩, fun s₃ h₃ => trivial⟩
    obtain rfl := Option.some.inj hp
    rfl
  · obtain ⟨t, hexec', hidle, hticks, -, -, huser, -, honly⟩ := exec_exits .kernelMode
    obtain rfl : s = t := Option.some.inj (hexec.symm.trans hexec')
    refine follows_ticks_of_idle hidle (by omega) fun k => ⟨trivial, trivial, fun _ p hp => ?_⟩
    rw [honly p hp.1]
    exact huser

end Ledger

end Jarvis
