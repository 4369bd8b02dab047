import JarvisKernel.Interrupt.Gates
import JarvisKernel.Process.Interrupt

set_option relaxedAutoImplicit false
set_option autoImplicit false

/-!
# Delivering interrupts

The interrupts of devices, from the request on the line of a device to the end of its interrupt: the controllers, the
gates, the stubs, `do_handle_interrupt`, and the process manager to which the timer leads. Devices make requests at
any time. The processor takes them while ordinary code runs: all gates disable interrupts, so that a handler is not
interrupted, but for the `int $0x20` of the tick.

The activation of the timer's handler that is interrupted by this `int` writes its end of the interrupt only when it
is resumed. The handlers of devices write to none of the ports of the controllers, and what they do else is left out.

## Main definitions

* `Jarvis.Delivery` — the kernel as far as interrupts are concerned, with a record of requests and calls.
* `Jarvis.Delivery.doHandleInterrupt`, `Jarvis.Delivery.yieldCpu` — the functions.
* `Jarvis.Delivery.step` — a request, an interrupt that is taken, or a step of the process manager.
* `Jarvis.Delivery.Inv` — the invariant.

## Main results

* `Jarvis.Delivery.servedOnce_of_run` — every request is handled once, with the number of its line, and none is held
  back.
-/

namespace Jarvis

open Pic8259 ProcessManager

/-- The number that a stub gives to `handle_interrrupt`. -/
def Stub.number : Stub → BitVec 8
  | .interruptRequest num _ => num + irqBase
  | .exception num _ => num

/-- The end of `do_handle_interrupt`: the writes to the controllers. -/
def endOfInterrupt (manager : InterruptManager) (interruptNumber : BitVec 8) : List (BitVec 16 × BitVec 8) :=
  if irqBase ≤ interruptNumber ∧ interruptNumber < irqBase + 16 then
    (manager.picMasterCommand, 0x20) ::
      if irqBase + 8 ≤ interruptNumber then [(manager.picSlaverCommand, 0x20)] else []
  else []

/-- The kernel, as far as interrupts are concerned. `raised` has the requests that were not pending already when they
were made, and `served` the numbers with which `handle_interrrupt` was called for requests. -/
structure Delivery where
  machine : Machine
  manager : InterruptManager
  pics : Pair
  raised : List Line
  served : List (BitVec 8)

/-- What happens: a device makes a request, the processor takes an interrupt, a process gives the processor away, or
the process manager does one of its other steps. -/
inductive DeliveryEvent
  | raise (l : Line)
  | take (esp : ℕ) (below : ℕ → ℕ)
  | yieldCpu (esp : ℕ) (below : ℕ → ℕ)
  | run (e : Event)

namespace Delivery

variable (codeAt : BitVec 32 → Option EntryPoint)

/-- `do_handle_interrupt`, for the frame of ordinary code. -/
def doHandleInterrupt (s : Delivery) (interruptNumber : BitVec 8) (esp : ℕ) (below : ℕ → ℕ) : Option Delivery :=
  let ended := s.pics.writes (endOfInterrupt s.manager interruptNumber)
  if interruptNumber = irqBase then
    (s.machine.interrupt esp below).map fun m => { s with machine := m, pics := ended }
  else some { s with pics := ended }

/-- An interrupt with a vector: the gate leads to a stub, which calls `handle_interrrupt`. -/
def enter (s : Delivery) (vector : BitVec 8) (request : Bool) (esp : ℕ) (below : ℕ → ℕ) : Option Delivery :=
  match codeAt (s.manager.descriptorTable vector).target with
  | some (.stub stub) =>
    { s with served := if request then s.served ++ [stub.number] else s.served }.doHandleInterrupt stub.number esp below
  | some .ignore => some s
  | _ => none

/-- The processor takes an interrupt from the controllers. -/
def take (s : Delivery) (esp : ℕ) (below : ℕ → ℕ) : Option Delivery :=
  match s.pics.acknowledge with
  | none => none
  | some (pics, vector) => { s with pics := pics }.enter codeAt vector true esp below

/-- `yield_cpu`. -/
def yieldCpu (s : Delivery) (esp : ℕ) (below : ℕ → ℕ) : Option Delivery :=
  if s.machine.manager.currentProcess = none then some s else s.enter codeAt irqBase false esp below

/-- The ends of interrupts in a step of the process manager: that of an activation that is resumed, and that of an
`int $0x20`. -/
def endsOf (s : Delivery) : Event → List (BitVec 16 × BitVec 8)
  | .timer _ _ => endOfInterrupt s.manager irqBase
  | .resume => if s.machine.mode = .code then [] else endOfInterrupt s.manager irqBase
  | .create _ _ => []
  | .block pid waitTime _ _ =>
    if (s.machine.manager.blockProcess pid waitTime).any (·.2) then endOfInterrupt s.manager irqBase else []
  | .unblock _ => []
  | .terminate pid exitCode _ _ =>
    if (s.machine.manager.terminateProcess pid exitCode).any (·.2) then endOfInterrupt s.manager irqBase else []

/-- One step; `none` if it does not return. -/
def step (s : Delivery) : DeliveryEvent → Option Delivery
  | .raise l =>
    some { s with pics := s.pics.raise l, raised := if s.pics.pending l then s.raised else s.raised ++ [l] }
  | .take esp below => s.take codeAt esp below
  | .yieldCpu esp below => s.yieldCpu codeAt esp below
  | .run e => (s.machine.step e).map fun m => { s with machine := m, pics := s.pics.writes (s.endsOf e) }

/-- The steps that can occur: no device is on the line of the slave, and interrupts are disabled unless ordinary code
runs. -/
def Possible (s : Delivery) : DeliveryEvent → Prop
  | .raise l => l ≠ .master 2
  | .take _ _ => s.machine.mode = .code ∧ ∃ l ≠ .master 2, s.pics.pending l = true
  | .yieldCpu _ _ => s.machine.mode = .code
  | .run e => (∀ esp below, e ≠ .timer esp below) ∧ s.machine.Possible e ∧ s.machine.TerminatesCurrent e

/-- The kernel after `on_init_interrupt_manager`, `process_manager_init` and `activate_interrupt_manager`. -/
def start (address : EntryPoint → BitVec 32) (manager : InterruptManager) (pics : Pair) (machine : Machine) :
    Delivery where
  machine := machine
  manager := (onInitInterruptManager address manager).1
  pics := pics.writes (onInitInterruptManager address manager).2
  raised := []
  served := []

/-! ## Numbers -/

/-- The number of the interrupt of a line. -/
def numberOf (l : Line) : BitVec 8 := vectorOf irqBase (irqBase + 8) l

/-- No two lines have the same interrupt number. -/
lemma numberOf_injective : Function.Injective numberOf := by
  have hall : ∀ l l' : Line, numberOf l = numberOf l' → l = l' := by decide
  exact fun l l' h => hall l l' h

/-- The gate of a line leads to its stub, which gives its number. -/
lemma entryPointOf_numberOf (l : Line) : ∃ stub, entryPointOf (numberOf l) = .stub stub ∧ stub.number = numberOf l := by
  have hall : ∀ l : Line, numberOf l ∉ exceptionNumbers ∧ numberOf l - irqBase ∈ requestNumbers := by decide
  obtain ⟨hexception, hrequest⟩ := hall l
  refine ⟨.interruptRequest (numberOf l - irqBase) hrequest, ?_, BitVec.sub_add_cancel ..⟩
  rw [entryPointOf, dif_neg hexception, dif_pos hrequest]

/-- The writes at the end of the interrupt of a line end it. -/
lemma endOfInterrupt_numberOf {manager : InterruptManager} (hmaster : manager.picMasterCommand = 0x20)
    (hslave : manager.picSlaverCommand = 0xA0) (l : Line) : endOfInterrupt manager (numberOf l) = ends l := by
  have hall : ∀ l : Line, (irqBase ≤ numberOf l ∧ numberOf l < irqBase + 16) ∧
      (irqBase + 8 ≤ numberOf l ↔ ∃ i, l = .slave i) := by decide
  obtain ⟨hrange, hslaver⟩ := hall l
  rw [endOfInterrupt, if_pos hrange, hmaster, hslave]
  cases l with
  | master i => rw [if_neg fun h => absurd (hslaver.1 h) (by simp), ends]
  | slave i => rw [if_pos (hslaver.2 ⟨i, rfl⟩), ends]

/-- All lines but that of the slave have a priority. -/
lemma mem_byPriority_iff {l : Line} : l ∈ byPriority ↔ l ≠ .master 2 := by
  have hall : ∀ l : Line, l ∈ byPriority ↔ l ≠ .master 2 := by decide
  exact hall l

/-! ## The invariant -/

/-- The gates and the controllers are as they were set up, nothing is in service, and the requests that were made are
those that were handled or are pending. -/
structure Inv (s : Delivery) : Prop where
  machine : WellFormed s.machine.manager
  gates : ∀ v, codeAt (s.manager.descriptorTable v).target = some (entryPointOf v)
  master : s.manager.picMasterCommand = 0x20
  slaver : s.manager.picSlaverCommand = 0xA0
  programmed : s.pics.Programmed irqBase (irqBase + 8)
  idle : s.pics.Idle
  counts : ∀ l ≠ .master 2, s.raised.count l = s.served.count (numberOf l) + (s.pics.pending l).toNat
  numbers : ∀ n ∈ s.served, ∃ l ≠ .master 2, n = numberOf l

variable {codeAt} {s : Delivery} {l : Line}

/-- `do_handle_interrupt` returns. -/
lemma doHandleInterrupt_returns (h : WellFormed s.machine.manager) (n : BitVec 8) (esp : ℕ) (below : ℕ → ℕ) :
    ∃ m, s.doHandleInterrupt n esp below =
        some { s with machine := m, pics := s.pics.writes (endOfInterrupt s.manager n) } ∧ WellFormed m.manager := by
  unfold doHandleInterrupt
  by_cases hn : n = irqBase
  · have hstep : ∃ m, s.machine.interrupt esp below = some m ∧ WellFormed m.manager := by
      rcases Machine.timer_finished h esp below with ⟨-, m, he, hf⟩ | ⟨-, m, he, hf⟩
      · exact ⟨m, he, hf.wellFormed⟩
      · exact ⟨m, he, hf.wellFormed⟩
    obtain ⟨m, he, hm⟩ := hstep
    refine ⟨m, ?_, hm⟩
    simp only [if_pos hn, he, Option.map_some]
  · exact ⟨s.machine, if_neg hn, h⟩

/-- The interrupt of a line calls `handle_interrrupt` with its number. -/
lemma enter_numberOf (hgates : ∀ v, codeAt (s.manager.descriptorTable v).target = some (entryPointOf v)) (l : Line)
    (request : Bool) (esp : ℕ) (below : ℕ → ℕ) :
    s.enter codeAt (numberOf l) request esp below =
      { s with served := if request then s.served ++ [numberOf l] else s.served }.doHandleInterrupt (numberOf l) esp
        below := by
  obtain ⟨stub, hentry, hnumber⟩ := entryPointOf_numberOf l
  rw [enter, hgates, hentry]
  dsimp only
  rw [hnumber]

/-- **An interrupt that is taken** is that of the pending line with the highest priority. -/
lemma Inv.take (h : s.Inv codeAt) (hnext : byPriority.find? s.pics.pending = some l) (esp : ℕ) (below : ℕ → ℕ) :
    ∃ m, s.take codeAt esp below = some { s with
        machine := m
        pics := (s.pics.served l).writes (ends l)
        served := s.served ++ [numberOf l] } ∧ WellFormed m.manager := by
  obtain ⟨m, hcall, hm⟩ := doHandleInterrupt_returns
    (s := { s with pics := s.pics.served l, served := s.served ++ [numberOf l] }) h.machine (numberOf l) esp below
  refine ⟨m, ?_, hm⟩
  rw [Delivery.take, Pair.acknowledge_eq h.programmed h.idle, hnext, Option.map_some]
  dsimp only
  rw [show vectorOf irqBase (irqBase + 8) l = numberOf l from rfl,
    enter_numberOf (s := { s with pics := s.pics.served l }) h.gates, if_pos rfl, hcall,
    endOfInterrupt_numberOf h.master h.slaver]

/-- What an end of an interrupt does with nothing in service. -/
lemma Inv.writes_endsOf (h : s.Inv codeAt) (e : Event) : s.pics.writes (s.endsOf e) = s.pics := by
  have hend : s.pics.writes (endOfInterrupt s.manager irqBase) = s.pics := by
    have hfirst : endOfInterrupt s.manager irqBase = ends (.master 0) := endOfInterrupt_numberOf h.master h.slaver (.master 0)
    rw [hfirst, Pair.writes_ends_of_idle h.idle]
  have hif : ∀ (c : Prop) [Decidable c],
      s.pics.writes (if c then endOfInterrupt s.manager irqBase else []) = s.pics := by
    intro c _
    split_ifs
    · exact hend
    · rfl
  cases e with
  | timer esp below => exact hend
  | resume =>
    rw [endsOf, ← ite_not]
    exact hif _
  | create args alloc => rfl
  | block pid waitTime esp below => exact hif _
  | unblock pid => rfl
  | terminate pid exitCode esp below => exact hif _

/-! ## Steps -/

/-- The invariant does not depend on what the process manager does. -/
lemma Inv.of_machine (h : s.Inv codeAt) {m : Machine} (hm : WellFormed m.manager) :
    Inv codeAt { s with machine := m } :=
  ⟨hm, h.gates, h.master, h.slaver, h.programmed, h.idle, h.counts, h.numbers⟩

/-- A request. -/
lemma Inv.raise (h : s.Inv codeAt) (l : Line) : ∃ s', step codeAt s (.raise l) = some s' ∧ s'.Inv codeAt := by
  refine ⟨_, rfl, h.machine, h.gates, h.master, h.slaver, h.programmed.raise l, h.idle.raise l, fun l' hl' => ?_,
    h.numbers⟩
  have hcount := h.counts l' hl'
  dsimp only
  rw [Pair.pending_raise]
  by_cases hsame : l' = l
  · subst hsame
    rw [if_pos rfl]
    cases hpending : s.pics.pending l' with
    | true =>
      rw [hpending] at hcount
      rw [if_pos rfl]
      exact hcount
    | false =>
      rw [hpending] at hcount
      rw [if_neg Bool.false_ne_true, List.count_append, List.count_singleton_self, hcount]
      rfl
  · have hother : [l].count l' = 0 := List.count_eq_zero.2 fun hmem => hsame (List.mem_singleton.1 hmem)
    rw [if_neg hsame]
    split_ifs
    · exact hcount
    · rw [List.count_append, hother, Nat.add_zero]
      exact hcount

/-- An interrupt that is taken. -/
lemma Inv.of_take (h : s.Inv codeAt) (hnext : byPriority.find? s.pics.pending = some l) {m : Machine}
    (hm : WellFormed m.manager) :
    Inv codeAt { s with
      machine := m
      pics := (s.pics.served l).writes (ends l)
      served := s.served ++ [numberOf l] } := by
  have hl : l ≠ .master 2 := mem_byPriority_iff.1 (List.mem_of_find?_eq_some hnext)
  have hset : s.pics.pending l = true := List.find?_some hnext
  obtain ⟨hprogrammed, hidle, hpending⟩ := Pair.idle_served h.programmed h.idle l
  refine ⟨hm, h.gates, h.master, h.slaver, hprogrammed, hidle, fun l' hl' => ?_, fun n hn => ?_⟩
  · have hcount := h.counts l' hl'
    dsimp only
    rw [hpending l' hl', List.count_append]
    by_cases hsame : l' = l
    · subst hsame
      rw [hset] at hcount
      rw [if_pos rfl, List.count_singleton_self]
      exact hcount
    · have hother : [numberOf l].count (numberOf l') = 0 := List.count_eq_zero.2 fun hmem =>
        hsame (numberOf_injective (List.mem_singleton.1 hmem))
      rw [if_neg hsame, hother, Nat.add_zero]
      exact hcount
  · rcases List.mem_append.1 hn with hn | hn
    · exact h.numbers n hn
    · exact ⟨l, hl, List.mem_singleton.1 hn⟩

/-- A process gives the processor away. -/
lemma Inv.yieldCpu (h : s.Inv codeAt) (esp : ℕ) (below : ℕ → ℕ) :
    ∃ s', step codeAt s (.yieldCpu esp below) = some s' ∧ s'.Inv codeAt := by
  show ∃ s', s.yieldCpu codeAt esp below = some s' ∧ s'.Inv codeAt
  unfold Delivery.yieldCpu
  split_ifs
  · exact ⟨s, rfl, h⟩
  · obtain ⟨m, hcall, hm⟩ := doHandleInterrupt_returns h.machine (numberOf (.master 0)) esp below
    have henter : s.enter codeAt irqBase false esp below = _ := (enter_numberOf h.gates (.master 0) false esp below).trans hcall
    refine ⟨_, henter, ?_⟩
    rw [endOfInterrupt_numberOf h.master h.slaver, Pair.writes_ends_of_idle h.idle]
    exact h.of_machine hm

/-- Every step returns and keeps the invariant. -/
lemma Inv.step (h : s.Inv codeAt) {e : DeliveryEvent} (he : s.Possible e) :
    ∃ s', step codeAt s e = some s' ∧ s'.Inv codeAt := by
  cases e with
  | raise l => exact h.raise l
  | take esp below =>
    obtain ⟨-, l, hl, hpending⟩ := he
    cases hnext : byPriority.find? s.pics.pending with
    | none => exact absurd hpending (List.find?_eq_none.1 hnext l (mem_byPriority_iff.2 hl))
    | some l =>
      obtain ⟨m, hcall, hm⟩ := h.take hnext esp below
      exact ⟨_, hcall, h.of_take hnext hm⟩
  | yieldCpu esp below => exact h.yieldCpu esp below
  | run e =>
    obtain ⟨-, hpossible, hterminates⟩ := he
    obtain ⟨m, hcall, hm⟩ := Machine.wellFormed_step h.machine hpossible hterminates
    refine ⟨_, by rw [Delivery.step, hcall, Option.map_some], ?_⟩
    rw [h.writes_endsOf]
    exact h.of_machine hm

/-- The invariant holds when the interrupts are set up. -/
lemma inv_start {address : EntryPoint → BitVec 32} (hcode : ∀ e, codeAt (address e) = some e)
    (manager : InterruptManager) (pics : Pair) {machine : Machine} (hmachine : WellFormed machine.manager) :
    (start address manager pics machine).Inv codeAt := by
  obtain ⟨hprogrammed, hidle, hnone⟩ := programmed_onInitInterruptManager address manager pics
  refine ⟨hmachine, fun v => ?_, rfl, rfl, hprogrammed, hidle, fun l _ => ?_, fun n hn => absurd hn List.not_mem_nil⟩
  · obtain ⟨htarget, -⟩ := gate_onInitInterruptManager address manager v
    exact (congrArg codeAt htarget).trans (hcode _)
  · show [].count l = [].count (numberOf l) + ((pics.writes _).pending l).toNat
    rw [hnone l]
    rfl

/-- **Every request of a device is handled once, with the number of its line, and none is held back**: in every
interleaving of requests, interrupts that are taken and calls of the process manager, from any state of the
controllers on. Requests that were made while the line was pending already aside, those that were made are the ones
that were handled or are pending; nothing is in service outside of handlers; and while ordinary code runs, the
processor can take the pending request with the highest priority.

**Proof sketch.** Every activation of a handler that returns has written its end of the interrupt, and the one that
the `int $0x20` of the tick interrupts leaves this to the nested one. So each step starts with nothing in service,
and an end that is written once too often does nothing. -/
theorem servedOnce_of_run (address : EntryPoint → BitVec 32) (hcode : ∀ e, codeAt (address e) = some e)
    (manager : InterruptManager) (pics : Pair) (pcb : Ptr → Process) (regFrames : ℕ → RegisterState)
    (cr3 : Option ℕ) (wrapper : ℕ) (es : List DeliveryEvent)
    (hes : Run.Follows (step codeAt) Possible (start address manager pics (.init pcb regFrames cr3 wrapper)) es) :
    ∃ s, Run.exec (step codeAt) (start address manager pics (.init pcb regFrames cr3 wrapper)) es = some s ∧
      s.pics.Idle ∧
      (∀ l ≠ .master 2, s.raised.count l = s.served.count (numberOf l) + (s.pics.pending l).toNat) ∧
      (∀ n ∈ s.served, ∃ l ≠ .master 2, n = numberOf l) ∧
      ∀ l, byPriority.find? s.pics.pending = some l → ∀ esp below, ∃ s',
        step codeAt s (.take esp below) = some s' ∧ s'.served = s.served ++ [numberOf l] := by
  obtain ⟨s, hrun, h⟩ := Run.exec_of_step (fun s e h he => Inv.step h he)
    (inv_start hcode manager pics (wellFormed_processManagerInit pcb regFrames cr3 wrapper)) hes
  refine ⟨s, hrun, h.idle, h.counts, h.numbers, fun l hnext esp below => ?_⟩
  obtain ⟨m, hcall, -⟩ := h.take hnext esp below
  exact ⟨_, hcall, rfl⟩

/-- Entry points one behind the other, 16 bytes apart. -/
def spacedAddress : EntryPoint → BitVec 32
  | .ignore => 0x100000
  | .syscall => 0x100010
  | .stub s => 0x101000 + s.vector.setWidth 32 * 16

/-- What is at an address. -/
def spacedCode (a : BitVec 32) : Option EntryPoint :=
  if a = 0x100000 then some .ignore
  else if a = 0x100010 then some .syscall
  else some (entryPointOf (((a - 0x101000) / 16).setWidth 8))

/-- The entry points have addresses that tell them apart. -/
lemma spacedCode_spacedAddress (e : EntryPoint) : spacedCode (spacedAddress e) = some e := by
  have hstub : ∀ v : BitVec 8, (0x101000 + v.setWidth 32 * 16 : BitVec 32) ≠ 0x100000 ∧
      (0x101000 + v.setWidth 32 * 16 : BitVec 32) ≠ 0x100010 ∧
      (((0x101000 + v.setWidth 32 * 16 : BitVec 32) - 0x101000) / 16).setWidth 8 = v := by decide +kernel
  cases e with
  | ignore => rfl
  | syscall => rfl
  | stub s =>
    obtain ⟨hignore, hsyscall, hvector⟩ := hstub s.vector
    rw [spacedAddress, spacedCode, if_neg hignore, if_neg hsyscall, hvector]
    cases s with
    | exception num h => exact congrArg some (dif_pos h)
    | interruptRequest num h =>
      have hall : ∀ num ∈ requestNumbers, irqBase + num ∉ exceptionNumbers ∧ irqBase + num - irqBase = num := by
        decide
      obtain ⟨hnot, hsub⟩ := hall num h
      simp only [entryPointOf, Stub.vector, dif_neg hnot, hsub, dif_pos h]

/-- The manager in zeroed memory. -/
def zeroManager : InterruptManager := ⟨fun _ => ⟨0, 0, 0, 0, 0⟩, 0, 0, 0, 0⟩

/-- Controllers that were not set up, with every line pending and in service. -/
def busyPics : Pair :=
  ⟨⟨fun _ => true, fun _ => true, 0xFF, 0, 0, 0, .mask⟩, ⟨fun _ => true, fun _ => true, 0xFF, 0, 0, 0, .mask⟩⟩

/-- The disk and the keyboard make requests, and one is taken. -/
def diskAndKeyboard : List DeliveryEvent := [.raise (.slave 6), .raise (.master 1), .take 500 (· - 60)]

/-- Both requests are served once or still pending, and the pending one can be taken. -/
theorem servedOnce_of_run_diskAndKeyboard :
    ∃ s, Run.exec (step spacedCode) (start spacedAddress zeroManager busyPics .zero) diskAndKeyboard = some s ∧
      s.pics.Idle ∧
      (∀ l ≠ .master 2, s.raised.count l = s.served.count (numberOf l) + (s.pics.pending l).toNat) ∧
      (∀ n ∈ s.served, ∃ l ≠ .master 2, n = numberOf l) ∧
      ∀ l, byPriority.find? s.pics.pending = some l → ∀ esp below, ∃ s',
        step spacedCode s (.take esp below) = some s' ∧ s'.served = s.served ++ [numberOf l] := by
  have hslave : Line.slave 6 ≠ .master 2 := by decide
  have hmaster : Line.master 1 ≠ .master 2 := by decide
  refine servedOnce_of_run spacedAddress spacedCode_spacedAddress zeroManager busyPics _ _ _ _ _ ⟨hslave, ?_⟩
  intro s hs
  obtain rfl := Option.some.inj hs
  refine ⟨hmaster, fun s hs => ?_⟩
  obtain rfl := Option.some.inj hs
  exact ⟨⟨rfl, .slave 6, hslave, rfl⟩, fun _ _ => trivial⟩

end Delivery

end Jarvis
