import JarvisKernel.Process.Calls

set_option relaxedAutoImplicit false
set_option autoImplicit false

/-!
# When a blocked process wakes up

`block_process` adds the wait time to the tick counter, and `process_manager_tick` compares the sum with
the counter. Both wrap at `2 ^ 32`, and the sum 0 stands for no wake-up time at all.

A tick whose `int $0x20` is executed looks at the blocked queue when it is resumed, so the process is due
when a tick *ends* and the last tick it waits for was started. The ticks still to start are counted down.

## Main definitions

* `Jarvis.CallState.OnTime` — the process is blocked until it is due, and ready then.
* `Jarvis.CallState.Undisturbed` — the calls that leave it alone.
* `Jarvis.WakesOnTime` — the counter, the wait time and the suspended ticks with which it is woken on time.

## Main results

* `Jarvis.CallState.onTime_iff` — it is woken on time in every run exactly then.
-/

namespace Jarvis

open ProcessManager

namespace ProcessManager

variable {m m' : ProcessManager} {pid i w W : ℕ} {p : Ptr}

/-! ## One call -/

/-- The process is blocked, and its wake-up time is `W`. -/
structure Waiting (m : ProcessManager) (pid : ℕ) (p : Ptr) (W : ℕ) : Prop where
  wellFormed : WellFormed m
  process : m.processes pid = some p
  state : (m.pcb p).state = .blocked
  wakeupTime : (m.pcb p).wakeupTime = W

/-- A waiting process is live. -/
lemma Waiting.live (h : Waiting m pid p W) : m.Live p := ⟨pid, h.process⟩

/-- It is not the current one. -/
lemma Waiting.not_current (h : Waiting m pid p W) : m.currentProcess ≠ some p := by
  obtain ⟨Q, hi⟩ := h.wellFormed
  intro hc
  have hrun := ((hi.running p).1 hc).2.2
  rw [h.state] at hrun
  cases hrun

/-- Other PIDs name other processes. -/
lemma Waiting.process_ne (h : Waiting m pid p W) (hi : i ≠ pid) : m.processes i ≠ some p := by
  obtain ⟨Q, hinv⟩ := h.wellFormed
  intro hp
  exact hi ((hinv.pid i p hp).2.symm.trans (hinv.pid pid p h.process).2)

/-- The process keeps waiting when only others are moved. -/
lemma Waiting.of_moved {P : Ptr → Prop} (h : Waiting m pid p W) (hm : Moved P m m') (hP : ¬ P p)
    (hwf : WellFormed m') : Waiting m' pid p W := by
  obtain ⟨hs, hw⟩ := hm.still p hP
  exact ⟨hwf, by rw [hm.processes, h.process], hs.trans h.state, hw.trans h.wakeupTime⟩

/-- `schedule` dispatches the process it has preempted, or one that was ready. -/
lemma WellFormed.dispatched (h : WellFormed m) {esp e : ℕ} (hs : m.schedule esp = some (m', e))
    (hp : m'.currentProcess = some p) : m.currentProcess = some p ∨ (m.pcb p).state = .ready := by
  obtain ⟨Q, h⟩ := h
  obtain ⟨m₁, Q₁, hreq, h₁, -⟩ := h.requeueCurrent esp
  have hmoved := requeueCurrent_moved (P := fun _ => False) hreq
  rw [ProcessManager.schedule, hreq, Option.bind_eq_bind, Option.bind_some] at hs
  rcases h₁.nextProcess (List.range maxPriorityLevels) with ⟨hn, -⟩ | ⟨m₂, r, Q₂, hn, -, -, -, hready⟩
  · rw [hn] at hs
    obtain ⟨rfl, -⟩ := Prod.ext_iff.1 (Option.some.inj hs)
    cases hp
  · rw [hn] at hs
    obtain ⟨rfl, -⟩ := Prod.ext_iff.1 (Option.some.inj hs)
    obtain rfl : r = p := Option.some.inj hp
    by_cases hcur : m.currentProcess = some r
    · exact .inl hcur
    · right
      rw [← pcb_preemptCurrent hcur esp, ← (hmoved.still r id).1]
      exact hready

/-- It goes on waiting if another process is scheduled. -/
lemma Waiting.schedule (h : Waiting m pid p W) {esp e : ℕ} (hs : m.schedule esp = some (m', e))
    (hwf : WellFormed m') : Waiting m' pid p W := by
  have hmoved := (schedule_moved hs).1
  have hpre := pcb_preemptCurrent h.not_current esp
  have hnot : m'.currentProcess ≠ some p := by
    intro hc
    rcases h.wellFormed.dispatched hs hc with hcur | hready
    · exact h.not_current hcur
    · rw [h.state] at hready
      cases hready
  obtain ⟨hstate, hwake⟩ := hmoved.still p hnot
  rw [hpre] at hstate hwake
  refine ⟨hwf, ?_, hstate.trans h.state, hwake.trans h.wakeupTime⟩
  rw [hmoved.processes, (preemptCurrent_frame m esp).1, h.process]

/-- It goes on waiting if a process is created, and no time passes. -/
lemma Waiting.createProcess (h : Waiting m pid p W) {args : CreateArgs} {alloc : CreateAlloc}
    {res : Except CreateError ℕ} (hnew : ∀ r, alloc.process = some r → ¬ m.Live r)
    (hc : m.createProcess args alloc = some (m', res)) (hwf : WellFormed m') :
    Waiting m' pid p W ∧ m'.systemTicks = m.systemTicks := by
  cases res with
  | error e =>
    obtain ⟨l, rfl, -⟩ := createProcess_error hc
    exact ⟨⟨hwf, h.process, h.state, h.wakeupTime⟩, rfl⟩
  | ok i =>
    obtain ⟨hfree, r, d, k, hr, hadd, -⟩ := createProcess_ok hc
    have hne : p ≠ r := by
      rintro rfl
      exact hnew p hr h.live
    have hblock := pcb_addProcess hadd hne
    have hproc := (addProcess_effect hadd).2
    have hpid : pid ≠ i := by
      rintro rfl
      obtain ⟨Q, hi⟩ := h.wellFormed
      obtain ⟨hlt, hbit⟩ := findFreePid_eq_some hfree
      rw [hi.bitmap pid hlt, h.process] at hbit
      cases hbit
    refine ⟨⟨hwf, ?_, ?_, ?_⟩, systemTicks_addProcess hadd⟩
    · rw [hproc]
      exact (Function.update_of_ne hpid ..).trans h.process
    · rw [hblock]
      exact h.state
    · rw [hblock]
      exact h.wakeupTime

/-- It goes on waiting at the start of a tick. -/
lemma Waiting.tickHead (h : Waiting m pid p W) : Waiting m.processManagerTickHead.1 pid p W :=
  ⟨h.wellFormed.tickHead, by rw [processes_tickHead, h.process],
    (state_tickHead m p).trans h.state, (wakeupTime_tickHead m p).trans h.wakeupTime⟩

/-- At the end of a tick the process is woken, or keeps waiting. -/
lemma Waiting.tickTail (h : Waiting m pid p W) :
    ∃ m', m.processManagerTickTail = some m' ∧ m'.systemTicks = m.systemTicks ∧
      (0 < W ∧ W ≤ m.systemTicks → (m'.pcb p).state = .ready) ∧
      (¬ (0 < W ∧ W ≤ m.systemTicks) → Waiting m' pid p W) := by
  obtain ⟨m', htail, hwf, -, hleave⟩ := h.wellFormed.tickTail
  obtain ⟨hticks, hdue, hnot⟩ := h.wellFormed.tickTail_blocked h.live h.state htail
  have hiff : m.Due p ↔ 0 < W ∧ W ≤ m.systemTicks := by rw [Due, h.wakeupTime]
  refine ⟨m', htail, hticks, fun hd => hdue (hiff.2 hd), fun hd => ?_⟩
  obtain ⟨hstate, hwake⟩ := hnot fun hd' => hd (hiff.1 hd')
  refine ⟨hwf, ?_, hstate, hwake.trans h.wakeupTime⟩
  rcases hleave pid p h.process with hkept | hterm
  · exact hkept
  · rw [h.state] at hterm
    cases hterm

/-- `block_process` on a ready process. -/
lemma WellFormed.blockProcess_ready (h : WellFormed m) (hp : m.processes pid = some p)
    (hready : (m.pcb p).state = .ready) (waitTime : ℕ) :
    ∃ m', m.blockProcess pid waitTime = some (m', false) ∧ m'.systemTicks = m.systemTicks ∧
      Waiting m' pid p (Word32.add m.systemTicks waitTime) := by
  obtain ⟨m', hcode, hwf, -⟩ := h.blockProcess pid waitTime
  have hmoved := blockProcess_moved hcode
  have hlt : pid < processMaxCount := by
    obtain ⟨Q, hi⟩ := h
    exact (hi.pid pid p hp).1
  suffices hfields : (m'.pcb p).state = .blocked ∧
      (m'.pcb p).wakeupTime = Word32.add m.systemTicks waitTime from
    ⟨m', hcode, hmoved.systemTicks, hwf, by rw [hmoved.processes, hp], hfields.1, hfields.2⟩
  rw [ProcessManager.blockProcess, if_neg (by omega)] at hcode
  simp only [hp, hready, ne_eq, not_true_eq_false, false_and, if_false, if_true, Option.bind_eq_bind,
    Option.bind_eq_some_iff] at hcode
  obtain ⟨m₁, hrem, m₃, henq, hm'⟩ := hcode
  obtain ⟨y, hy, rfl⟩ := Option.map_eq_some_iff.1 hrem
  obtain ⟨rfl, -⟩ := Prod.ext_iff.1 (Option.some.inj hm')
  have hblock := (enqueueProcess_sameData henq).pcb p
  have hticks := (removeProcessFromQueue_sameData hy).systemTicks
  simp only [modify, Function.update_self, hticks] at hblock
  rw [hblock]
  exact ⟨rfl, rfl⟩

end ProcessManager

/-! ## Runs -/

/-- The ticks that a call starts. -/
def Call.ticks : Call → ℕ
  | .tick => 1
  | _ => 0

/-- The call does not unblock or terminate the process with this PID. -/
def Call.LeavesAlone (pid : ℕ) : Call → Prop
  | .unblock i => i ≠ pid
  | .terminate i _ => i ≠ pid
  | _ => True

namespace CallState

variable {s s' : CallState} {c : Call} {pid W k w : ℕ} {p : Ptr}

/-- A tick ends with the call. -/
def EndsTick (s : CallState) : Call → Prop
  | .tick => s.manager.processManagerTickHead.2 = false
  | .resumeTick => True
  | _ => False

/-- The counter does not wrap while a tick is suspended. -/
def WrapsAlone (s : CallState) : Call → Prop
  | .tick => s.manager.systemTicks + 1 = 2 ^ 32 → s.suspended = 0
  | _ => True

/-- A call that can occur, and leaves the waiting process and its queue alone. -/
def Undisturbed (pid : ℕ) (s : CallState) (c : Call) : Prop :=
  s.Possible c ∧ s.TerminatesUnqueued c ∧ c.LeavesAlone pid ∧ s.WrapsAlone c

/-- A process that waits for `k` more ticks to start is blocked until one of them or a later tick ends when
all have been started, and is ready then. -/
def OnTime (p : Ptr) : ℕ → CallState → List Call → Prop
  | _, _, [] => True
  | k, s, c :: cs => ∀ s', s.call c = some s' →
      (k - c.ticks = 0 ∧ s.EndsTick c → (s'.manager.pcb p).state = .ready) ∧
      (¬ (k - c.ticks = 0 ∧ s.EndsTick c) →
        (s'.manager.pcb p).state = .blocked ∧ OnTime p (k - c.ticks) s' cs)

/-- A call that neither starts nor ends a tick. -/
lemma call_quiet (h : Waiting s.manager pid p W) (hc : Undisturbed pid s c) (hticks : c.ticks = 0)
    (hend : ¬ s.EndsTick c) :
    ∃ s', s.call c = some s' ∧ s'.manager.systemTicks = s.manager.systemTicks ∧
      s'.suspended = s.suspended ∧ Waiting s'.manager pid p W := by
  obtain ⟨hpos, hterm, halone, -⟩ := hc
  obtain ⟨s', hcall, hwf⟩ := wellFormed_call h.wellFormed hpos hterm
  refine ⟨s', hcall, ?_⟩
  cases c with
  | create args alloc =>
    obtain ⟨⟨m', res⟩, hx, rfl⟩ := Option.map_eq_some_iff.1 hcall
    obtain ⟨hwait, hsame⟩ := h.createProcess hpos hx hwf
    exact ⟨hsame, rfl, hwait⟩
  | schedule esp =>
    obtain ⟨⟨m', e⟩, hx, rfl⟩ := Option.map_eq_some_iff.1 hcall
    refine ⟨?_, rfl, h.schedule hx hwf⟩
    rw [(schedule_moved hx).1.systemTicks, (preemptCurrent_frame _ esp).2.2]
  | tick => cases hticks
  | resumeTick => exact absurd trivial hend
  | block i waitTime =>
    obtain ⟨x, hx, rfl⟩ := Option.map_eq_some_iff.1 hcall
    have hmoved := blockProcess_moved hx
    refine ⟨hmoved.systemTicks, rfl, h.of_moved hmoved ?_ hwf⟩
    rintro ⟨-, hready | hcur⟩
    · rw [h.state] at hready
      cases hready
    · exact h.not_current hcur
  | unblock i =>
    obtain ⟨x, hx, rfl⟩ := Option.map_eq_some_iff.1 hcall
    have hmoved := unblockProcess_moved hx
    exact ⟨hmoved.systemTicks, rfl, h.of_moved hmoved (fun hp => h.process_ne halone hp.1) hwf⟩
  | terminate i exitCode =>
    obtain ⟨x, hx, rfl⟩ := Option.map_eq_some_iff.1 hcall
    have hmoved := terminateProcess_moved hx
    exact ⟨hmoved.systemTicks, rfl, h.of_moved hmoved (h.process_ne halone) hwf⟩

/-- A tick that is suspended only counts. -/
lemma call_tick_raised (h : Waiting s.manager pid p W)
    (hraised : s.manager.processManagerTickHead.2 = true) :
    ∃ s', s.call .tick = some s' ∧ s'.manager.systemTicks = Word32.add s.manager.systemTicks 1 ∧
      s'.suspended = s.suspended + 1 ∧ Waiting s'.manager pid p W := by
  have hhead := h.tickHead
  have hticks := systemTicks_tickHead s.manager
  rcases ht : s.manager.processManagerTickHead with ⟨m, raised⟩
  rw [ht] at hhead hticks hraised
  obtain rfl : raised = true := hraised
  exact ⟨{ manager := m, suspended := s.suspended + 1 }, by simp only [call, ht], hticks, rfl, hhead⟩

/-- A tick that runs through wakes the process if its time has come. -/
lemma call_tick_ends (h : Waiting s.manager pid p W)
    (hraised : s.manager.processManagerTickHead.2 = false) :
    ∃ s', s.call .tick = some s' ∧ s'.manager.systemTicks = Word32.add s.manager.systemTicks 1 ∧
      s'.suspended = s.suspended ∧
      (0 < W ∧ W ≤ s'.manager.systemTicks → (s'.manager.pcb p).state = .ready) ∧
      (¬ (0 < W ∧ W ≤ s'.manager.systemTicks) → Waiting s'.manager pid p W) := by
  have hhead := h.tickHead
  have hticks := systemTicks_tickHead s.manager
  rcases ht : s.manager.processManagerTickHead with ⟨m, raised⟩
  rw [ht] at hhead hticks hraised
  obtain rfl : raised = false := hraised
  obtain ⟨m', htail, hsame, hwake, hwait⟩ := hhead.tickTail
  rw [← hsame] at hwake hwait
  exact ⟨{ s with manager := m' }, by simp only [call, ht, htail, Option.map_some],
    hsame.trans hticks, rfl, hwake, hwait⟩

/-- The rest of a suspended tick wakes the process if its time has come. -/
lemma call_resumeTick (h : Waiting s.manager pid p W) :
    ∃ s', s.call .resumeTick = some s' ∧ s'.manager.systemTicks = s.manager.systemTicks ∧
      s'.suspended = s.suspended - 1 ∧
      (0 < W ∧ W ≤ s'.manager.systemTicks → (s'.manager.pcb p).state = .ready) ∧
      (¬ (0 < W ∧ W ≤ s'.manager.systemTicks) → Waiting s'.manager pid p W) := by
  obtain ⟨m', htail, hsame, hwake, hwait⟩ := h.tickTail
  rw [← hsame] at hwake hwait
  exact ⟨{ manager := m', suspended := s.suspended - 1 },
    by simp only [call, htail, Option.map_some], hsame, rfl, hwake, hwait⟩

/-! ## Woken on time -/

/-- With the counter at `t` and `k` ticks still to start, the comparison with `W` comes out right. -/
def DueIn (W k t : ℕ) : Prop := (0 < k → t + k = W) ∧ (k = 0 → W ≤ t)

/-- The invariant of a process that will be woken on time. A tick that ends without starting, and the next
tick to start, find the counter right; once all ticks have been started, one of them is suspended. -/
structure Timed (s : CallState) (pid : ℕ) (p : Ptr) (W k : ℕ) : Prop where
  waiting : Waiting s.manager pid p W
  pos : 0 < W
  lt : W < 2 ^ 32
  ticks_lt : s.manager.systemTicks < 2 ^ 32
  now : 0 < s.suspended → DueIn W k s.manager.systemTicks
  next : (s.manager.systemTicks + 1 = 2 ^ 32 → s.suspended = 0) →
    DueIn W (k - 1) (Word32.add s.manager.systemTicks 1)
  last : k = 0 → 0 < s.suspended

/-- The counter stays right while it does not wrap. -/
lemma DueIn.succ {t : ℕ} (h : DueIn W k t) (ht : t + 1 < 2 ^ 32) : DueIn W (k - 1) (Word32.add t 1) := by
  obtain ⟨hpos, hzero⟩ := h
  rw [DueIn, Word32.add]
  omega

/-- The comparison at the end of a tick. -/
lemma DueIn.due_iff {t : ℕ} (h : DueIn W k t) (hW : 0 < W) : 0 < W ∧ W ≤ t ↔ k = 0 := by
  obtain ⟨hpos, hzero⟩ := h
  omega

/-- One call keeps the invariant, or ends the last tick and wakes the process. -/
lemma Timed.call (h : Timed s pid p W k) (hc : Undisturbed pid s c) :
    ∃ s', s.call c = some s' ∧
      (k - c.ticks = 0 ∧ s.EndsTick c → (s'.manager.pcb p).state = .ready) ∧
      (¬ (k - c.ticks = 0 ∧ s.EndsTick c) → Timed s' pid p W (k - c.ticks)) := by
  have hwait := h.waiting
  have hticks_lt : ∀ t, Word32.add t 1 < 2 ^ 32 := fun t => Nat.mod_lt _ (by decide)
  by_cases htick : c = .tick
  · subst htick
    have hdue := h.next hc.2.2.2
    cases hraised : s.manager.processManagerTickHead.2 with
    | true =>
      -- the process has not been looked at, and the tick is suspended
      obtain ⟨s', hcall, hticks, hsusp, hwait'⟩ := call_tick_raised hwait hraised
      refine ⟨s', hcall, fun hend => ?_, fun _ => ?_⟩
      · rw [EndsTick, hraised] at hend
        cases hend.2
      · rw [← hticks] at hdue
        refine ⟨hwait', h.pos, h.lt, by rw [hticks]; exact hticks_lt _, fun _ => hdue, fun hwrap => ?_,
          fun _ => by omega⟩
        refine hdue.succ ?_
        have hlt := hticks_lt s.manager.systemTicks
        rw [← hticks] at hlt
        omega
    | false =>
      obtain ⟨s', hcall, hticks, hsusp, hwake, hwait'⟩ := call_tick_ends hwait hraised
      rw [← hticks] at hdue
      have hiff := hdue.due_iff h.pos
      refine ⟨s', hcall, fun hend => hwake (hiff.2 hend.1), fun hnot => ?_⟩
      have hk : k - Call.tick.ticks ≠ 0 := fun hk => hnot ⟨hk, hraised⟩
      refine ⟨hwait' fun hd => hk (hiff.1 hd), h.pos, h.lt, by rw [hticks]; exact hticks_lt _,
        fun _ => hdue, fun _ => hdue.succ ?_, fun hk' => absurd hk' hk⟩
      have hsum := hdue.1 (Nat.pos_of_ne_zero hk)
      have hlt := h.lt
      have hone : 0 < k - Call.tick.ticks := Nat.pos_of_ne_zero hk
      have hdef : k - Call.tick.ticks = k - 1 := rfl
      omega
  by_cases hresume : c = .resumeTick
  · subst hresume
    obtain ⟨s', hcall, hticks, hsusp, hwake, hwait'⟩ := call_resumeTick hwait
    have hdue := h.now hc.1
    rw [← hticks] at hdue
    have hiff := hdue.due_iff h.pos
    refine ⟨s', hcall, fun hend => hwake (hiff.2 hend.1), fun hnot => ?_⟩
    have hk : k ≠ 0 := fun hk => hnot ⟨hk, trivial⟩
    refine ⟨hwait' fun hd => hk (hiff.1 hd), h.pos, h.lt, by rw [hticks]; exact h.ticks_lt,
      fun _ => hdue, fun _ => hdue.succ ?_, fun hk' => absurd hk' hk⟩
    have hsum := hdue.1 (Nat.pos_of_ne_zero hk)
    have hlt := h.lt
    omega
  · have hzero : c.ticks = 0 := by
      cases c with
      | tick => exact absurd rfl htick
      | _ => rfl
    have hend : ¬ s.EndsTick c := by
      cases c with
      | tick => exact absurd rfl htick
      | resumeTick => exact absurd rfl hresume
      | _ => exact id
    obtain ⟨s', hcall, hticks, hsusp, hwait'⟩ := call_quiet hwait hc hzero hend
    refine ⟨s', hcall, fun hends => absurd hends.2 hend, fun _ => ?_⟩
    rw [hzero, Nat.sub_zero]
    exact ⟨hwait', h.pos, h.lt, by rw [hticks]; exact h.ticks_lt, by rw [hsusp, hticks]; exact h.now,
      by rw [hsusp, hticks]; exact h.next, by rw [hsusp]; exact h.last⟩

/-- In every run the process is woken on time. -/
lemma Timed.onTime (h : Timed s pid p W k) {cs : List Call}
    (hcs : Run.Follows CallState.call (Undisturbed pid) s cs) : OnTime p k s cs := by
  induction cs generalizing s k with
  | nil => trivial
  | cons c cs ih =>
    intro s' hcall
    obtain ⟨s'', hcall', hready, htimed⟩ := h.call hcs.1
    obtain rfl : s' = s'' := Option.some.inj (hcall.symm.trans hcall')
    refine ⟨hready, fun hnot => ?_⟩
    have htimed := htimed hnot
    exact ⟨htimed.waiting.state, ih htimed (hcs.2 s' hcall)⟩

/-! ## Not woken on time -/

/-- A tick, with its rest if it is suspended: no tick is suspended before and after. -/
lemma exists_full_tick (h : Waiting s.manager pid p W) (hsusp : s.suspended = 0) :
    ∃ ds s', Run.Follows CallState.call (Undisturbed pid) s ds ∧
      Run.exec CallState.call s ds = some s' ∧
      s'.manager.systemTicks = Word32.add s.manager.systemTicks 1 ∧ s'.suspended = 0 ∧
      (0 < W ∧ W ≤ s'.manager.systemTicks → (s'.manager.pcb p).state = .ready) ∧
      (¬ (0 < W ∧ W ≤ s'.manager.systemTicks) → Waiting s'.manager pid p W) ∧
      ∀ k cs, OnTime p (k + 1) s (ds ++ cs) →
        (k = 0 → (s'.manager.pcb p).state = .ready) ∧
        (0 < k → (s'.manager.pcb p).state = .blocked ∧ OnTime p k s' cs) := by
  have htick : Undisturbed pid s .tick := ⟨trivial, trivial, trivial, fun _ => hsusp⟩
  cases hraised : s.manager.processManagerTickHead.2 with
  | false =>
    obtain ⟨s', hcall, hticks, hsusp', hwake, hwait⟩ := call_tick_ends h hraised
    refine ⟨[.tick], s', ⟨htick, fun _ _ => trivial⟩, ?_, hticks, hsusp'.trans hsusp, hwake, hwait,
      fun k cs hon => ⟨fun hk => ?_, fun hk => ?_⟩⟩
    · rw [Run.exec, hcall]
      rfl
    · exact (hon s' hcall).1 ⟨hk, hraised⟩
    · exact (hon s' hcall).2 fun hend => absurd hend.1 (show k ≠ 0 by omega)
  | true =>
    obtain ⟨s₁, hcall₁, hticks₁, hsusp₁, hwait₁⟩ := call_tick_raised h hraised
    obtain ⟨s', hcall, hticks, hsusp', hwake, hwait⟩ := call_resumeTick hwait₁
    have hresume : Undisturbed pid s₁ .resumeTick :=
      ⟨show 0 < s₁.suspended by omega, trivial, trivial, trivial⟩
    refine ⟨[.tick, .resumeTick], s', ⟨htick, fun t ht => ?_⟩, ?_, hticks.trans hticks₁, by omega, hwake,
      hwait, fun k cs hon => ?_⟩
    · obtain rfl : s₁ = t := Option.some.inj (hcall₁.symm.trans ht)
      exact ⟨hresume, fun _ _ => trivial⟩
    · rw [Run.exec, hcall₁, Option.bind_some, Run.exec, hcall]
      rfl
    · have hrest := ((hon s₁ hcall₁).2 fun hend => by
        rw [EndsTick, hraised] at hend
        cases hend.2).2 s' hcall
      refine ⟨fun hk => hrest.1 ⟨hk, trivial⟩, fun hk => ?_⟩
      exact hrest.2 fun hend => absurd hend.1 (show k ≠ 0 by omega)

/-- If every run wakes the process on time after `k` ticks, the comparison comes out right after the first
of them and after the last.

**Proof sketch.** Induction on `k`: a run of full ticks. -/
lemma due_of_onTime (h : Waiting s.manager pid p W) (hticks : s.manager.systemTicks < 2 ^ 32)
    (hsusp : s.suspended = 0) (hall : ∀ cs, Run.Follows CallState.call (Undisturbed pid) s cs →
      OnTime p (k + 1) s cs) :
    0 < W ∧ W ≤ (s.manager.systemTicks + (k + 1)) % 2 ^ 32 ∧
      (0 < k → ¬ W ≤ (s.manager.systemTicks + 1) % 2 ^ 32) := by
  induction k generalizing s with
  | zero =>
    obtain ⟨ds, s', hds, -, hticks', -, -, hwait, hon⟩ := exists_full_tick h hsusp
    have hready := (hon 0 [] (by rw [List.append_nil]; exact hall ds hds)).1 rfl
    by_contra hnot
    rw [hticks', Word32.add] at hwait
    have hblocked := (hwait fun hd => hnot ⟨hd.1, by omega, fun hk => absurd hk (lt_irrefl 0)⟩).state
    rw [hready] at hblocked
    cases hblocked
  | succ k ih =>
    obtain ⟨ds, s', hds, hexec, hticks', hsusp', hwake, hwait, hon⟩ := exists_full_tick h hsusp
    have hblocked := ((hon (k + 1) [] (by rw [List.append_nil]; exact hall ds hds)).2 (by omega)).1
    have hnot : ¬ (0 < W ∧ W ≤ s'.manager.systemTicks) := by
      intro hd
      rw [hwake hd] at hblocked
      cases hblocked
    have hrest : ∀ cs, Run.Follows CallState.call (Undisturbed pid) s' cs → OnTime p (k + 1) s' cs := by
      intro cs hcs
      refine ((hon (k + 1) cs (hall (ds ++ cs) (Run.follows_append.2 ⟨hds, fun t ht => ?_⟩))).2
        (by omega)).2
      rwa [Option.some.inj (hexec.symm.trans ht)] at hcs
    rw [Word32.add] at hticks'
    obtain ⟨hpos, hdue, -⟩ := ih (hwait hnot) (by omega) hsusp' hrest
    refine ⟨hpos, ?_, fun _ hle => hnot ⟨hpos, by omega⟩⟩
    rw [hticks', Nat.mod_add_mod] at hdue
    omega

/-- The suspended ticks can be resumed first. The counter stands still, so the comparison comes out the same
each time. -/
lemma exists_no_suspended (h : Waiting s.manager pid p W)
    (hall : ∀ cs, Run.Follows CallState.call (Undisturbed pid) s cs → OnTime p (k + 1) s cs) :
    ∃ s', Waiting s'.manager pid p W ∧ s'.manager.systemTicks = s.manager.systemTicks ∧
      s'.suspended = 0 ∧ (0 < s.suspended → ¬ (0 < W ∧ W ≤ s.manager.systemTicks)) ∧
      ∀ cs, Run.Follows CallState.call (Undisturbed pid) s' cs → OnTime p (k + 1) s' cs := by
  generalize hn : s.suspended = n
  induction n generalizing s with
  | zero => exact ⟨s, h, rfl, hn, fun h0 => absurd h0 (lt_irrefl 0), hall⟩
  | succ n ih =>
    obtain ⟨s₁, hcall, hticks, hsusp, hwake, hwait⟩ := call_resumeTick h
    have hresume : Undisturbed pid s .resumeTick :=
      ⟨show 0 < s.suspended by omega, trivial, trivial, trivial⟩
    have hnext : ∀ cs, Run.Follows CallState.call (Undisturbed pid) s₁ cs →
        (s₁.manager.pcb p).state = .blocked ∧ OnTime p (k + 1) s₁ cs := by
      intro cs hcs
      refine (hall (.resumeTick :: cs) ⟨hresume, fun t ht => ?_⟩ s₁ hcall).2 fun hend => ?_
      · rwa [Option.some.inj (hcall.symm.trans ht)] at hcs
      · exact absurd hend.1 (Nat.succ_ne_zero k)
    have hblocked := (hnext [] trivial).1
    have hnot : ¬ (0 < W ∧ W ≤ s₁.manager.systemTicks) := by
      intro hd
      rw [hwake hd] at hblocked
      cases hblocked
    obtain ⟨s', hwait', hticks', hsusp', -, hall'⟩ := ih (hwait hnot) (fun cs hcs => (hnext cs hcs).2)
      (by omega)
    rw [hticks] at hnot
    exact ⟨s', hwait', hticks'.trans hticks, hsusp', fun _ => hnot, hall'⟩

end CallState

/-! ## The condition -/

/-- The counter `t`, the wait time `w` and the number `n` of suspended ticks with which a process is woken on
time: the counter does not reach its end before the process is woken, or it wraps with the first tick. -/
def WakesOnTime (t w n : ℕ) : Prop :=
  0 < t + w ∧ t + max w 1 < 2 ^ 32 ∧ (w = 0 → n = 0) ∨ t = 2 ^ 32 - 1 ∧ 2 ≤ w ∧ n = 0

namespace CallState

variable {s : CallState} {pid w : ℕ} {p : Ptr}

/-- A ready process that is blocked for `w` ticks, and that nobody unblocks or terminates, is woken on time
in every run exactly if the counter, `w` and the suspended ticks allow it.

**Proof sketch.** If they do, `Timed` holds after `block_process`. If they do not, the run that resumes the
suspended ticks and then makes one full tick after the other wakes the process early or late. -/
theorem onTime_iff (h : WellFormed s.manager) (hp : s.manager.processes pid = some p)
    (hready : (s.manager.pcb p).state = .ready) (hticks : s.manager.systemTicks < 2 ^ 32)
    (hw : w < 2 ^ 32) :
    ∃ s₁, s.call (.block pid w) = some s₁ ∧
      ((∀ cs, Run.Follows CallState.call (Undisturbed pid) s₁ cs →
          (∃ s₂, Run.exec CallState.call s₁ cs = some s₂) ∧ OnTime p (max w 1) s₁ cs) ↔
        WakesOnTime s.manager.systemTicks w s.suspended) := by
  obtain ⟨m', hcode, hsame, hwait⟩ := h.blockProcess_ready hp hready w
  refine ⟨{ s with manager := m' }, by simp only [call, hcode, Option.map_some], ?_, ?_⟩
  · intro hall
    obtain ⟨k, hk⟩ : ∃ k, max w 1 = k + 1 := ⟨max w 1 - 1, by omega⟩
    rw [hk] at hall
    obtain ⟨s', hwait', hticks', hsusp, hnow, hall'⟩ :=
      exists_no_suspended (s := { s with manager := m' }) hwait fun cs hcs => (hall cs hcs).2
    have hsys : s'.manager.systemTicks = s.manager.systemTicks := hticks'.trans hsame
    obtain ⟨hpos, hlast, hfirst⟩ := due_of_onTime hwait' (by omega) hsusp hall'
    rw [hsys] at hlast hfirst
    change 0 < s.suspended → ¬ (_ ∧ _ ≤ m'.systemTicks) at hnow
    rw [hsame] at hnow
    rw [Word32.add] at hpos hlast hfirst hnow
    rw [WakesOnTime]
    omega
  · intro hcond cs hcs
    have htimed : Timed { s with manager := m' } pid p (Word32.add s.manager.systemTicks w) (max w 1) := by
      rw [WakesOnTime] at hcond
      refine ⟨hwait, ?_, Nat.mod_lt _ (by decide), hsame ▸ hticks, fun hsusp => ?_, fun _ => ?_, by omega⟩
      · rw [Word32.add]
        omega
      · change 0 < s.suspended at hsusp
        show DueIn _ _ m'.systemTicks
        rw [hsame, DueIn, Word32.add]
        omega
      · show DueIn _ _ (Word32.add m'.systemTicks 1)
        rw [hsame, DueIn, Word32.add, Word32.add]
        omega
    obtain ⟨s₂, hexec, -⟩ := wellFormed_run hwait.wellFormed
      (Run.follows_iff.2 fun ds d t hds ht =>
        have hd := Run.follows_iff.1 hcs ds d t hds ht
        ⟨hd.1, hd.2.1⟩)
    exact ⟨⟨s₂, hexec⟩, htimed.onTime hcs⟩

/-- A process is created over zeroed memory. -/
lemma exec_create : ∃ s, Run.exec CallState.call .zero [.create {} sampleAlloc] = some s ∧
    WellFormed s.manager ∧ s.manager.processes 0 = some 100 ∧ (s.manager.pcb 100).state = .ready ∧
    s.manager.systemTicks = 0 ∧ s.suspended = 0 := by
  have hcreate : Run.Follows CallState.call (fun s c => s.Possible c ∧ s.TerminatesUnqueued c) .zero
      [.create {} sampleAlloc] := by
    refine ⟨⟨?_, trivial⟩, fun _ _ => trivial⟩
    rintro p - ⟨i, hi⟩
    simp [CallState.zero, CallState.init, processManagerInit] at hi
  obtain ⟨s, hexec, hwf⟩ := wellFormed_run (wellFormed_processManagerInit ..) hcreate
  refine ⟨s, hexec, hwf, ?_⟩
  obtain rfl := Option.some.inj hexec
  exact ⟨rfl, rfl, rfl, rfl⟩

/-- A new process that is blocked for three ticks is woken on time. -/
theorem onTime_iff_three : ∃ s s₁, Run.exec CallState.call .zero [.create {} sampleAlloc] = some s ∧
    s.call (.block 0 3) = some s₁ ∧
    ∀ cs, Run.Follows CallState.call (Undisturbed 0) s₁ cs → OnTime 100 3 s₁ cs := by
  obtain ⟨s, hexec, hwf, hp, hready, hticks, hsusp⟩ := exec_create
  obtain ⟨s₁, hcall, hiff⟩ := onTime_iff (w := 3) hwf hp hready (by omega) (by decide)
  refine ⟨s, s₁, hexec, hcall, fun cs hcs => (hiff.2 ?_ cs hcs).2⟩
  rw [hticks, hsusp]
  exact .inl (by decide)

/-- A new process that is blocked at tick 0 for no time gets the wake-up time 0, and the next tick does not
wake it. -/
theorem not_onTime : ∃ s s₁, Run.exec CallState.call .zero [.create {} sampleAlloc] = some s ∧
    (s.manager.pcb 100).state = .ready ∧ s.call (.block 0 0) = some s₁ ∧
    Run.Follows CallState.call (Undisturbed 0) s₁ [.tick] ∧ ¬ OnTime 100 1 s₁ [.tick] := by
  refine ⟨_, _, rfl, rfl, rfl, ⟨⟨trivial, trivial, trivial, fun _ => rfl⟩, fun _ _ => trivial⟩, ?_⟩
  intro hon
  have hready := (hon _ rfl).1 ⟨rfl, rfl⟩
  cases hready

end CallState

end Jarvis
