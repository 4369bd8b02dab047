import Mathlib.Algebra.Order.Ring.Nat
import Mathlib.Data.Fintype.Sum
import Mathlib.Logic.Function.Basic
import Mathlib.Tactic.Common
import Mathlib.Tactic.DeriveFintype

set_option relaxedAutoImplicit false
set_option autoImplicit false

/-!
# Interrupt controllers

Two 8259A interrupt controllers as they stand in a PC: the second one, the slave, is wired to line 2 of the first
one, the master. A chip latches the requests of its lines, and keeps what it has given to the processor in service
until it is told that the interrupt has ended. A line in service holds back requests of its own and of the lines
behind it.

A chip is set up by a sequence of words. Of the modes that the last one selects only the ends of interrupts that the
chip makes itself are kept here; of the commands in operation only the end of the interrupt of the highest priority.
Rotating priorities, reading registers back and the level-triggered mode are left out.

## Main definitions

* `Pic8259.Chip`, `Pic8259.Pair` — the chips.
* `Pic8259.Pair.write` — a write to a port.
* `Pic8259.Pair.raise`, `Pic8259.Pair.acknowledge` — a device makes a request, and the processor takes one.
* `Pic8259.Pair.Programmed`, `Pic8259.Pair.Idle` — chips that are set up, and that have nothing in service.
* `Pic8259.byPriority` — the lines, in the order in which requests are given to the processor.

## Main results

* `Pic8259.Pair.programmed_setUp` — the sequence that sets the chips up.
* `Pic8259.Pair.acknowledge_eq` — what the processor gets from chips with nothing in service.
* `Pic8259.Pair.idle_served` — nothing is in service after the interrupt has ended.
-/

namespace Pic8259

scoped instance neZero_eight : NeZero 8 := ⟨Nat.succ_ne_zero 7⟩

/-! ## A chip -/

/-- What the next write to the data port of a chip is: the second, third or fourth word of the sequence, or the mask.
`single` and `long` say whether the third and whether the fourth word are left out and expected. -/
inductive Stage
  | vectors (single long : Bool)
  | cascade (long : Bool)
  | mode
  | mask
  deriving DecidableEq

/-- A chip. -/
structure Chip where
  requested : Fin 8 → Bool
  inService : Fin 8 → Bool
  mask : BitVec 8
  vectors : BitVec 8
  cascade : BitVec 8
  mode : BitVec 8
  stage : Stage

/-- The lines of a chip, the one with the highest priority first. -/
def lines : List (Fin 8) := List.finRange 8

namespace Chip

/-- The end of the interrupt in service with the highest priority. -/
def endHighest (c : Chip) : Chip :=
  match lines.find? c.inService with
  | none => c
  | some i => { c with inService := Function.update c.inService i false }

/-- A write to the command port: the first word of the sequence, or a command. -/
def writeCommand (c : Chip) (v : BitVec 8) : Chip :=
  if v.getLsbD 4 then
    { c with
      requested := fun _ => false
      inService := fun _ => false
      mask := 0
      mode := 0
      stage := .vectors (v.getLsbD 1) (v.getLsbD 0) }
  else if v &&& 0xF8 = 0x20 then c.endHighest
  else c

/-- A write to the data port. -/
def writeData (c : Chip) (v : BitVec 8) : Chip :=
  match c.stage with
  | .vectors single long =>
    { c with
      vectors := v &&& 0xF8
      stage := if single then (if long then .mode else .mask) else .cascade long }
  | .cascade long => { c with cascade := v, stage := if long then .mode else .mask }
  | .mode => { c with mode := v, stage := .mask }
  | .mask => { c with mask := v }

/-- A line makes a request. -/
def raise (c : Chip) (i : Fin 8) : Chip := { c with requested := Function.update c.requested i true }

/-- The request of a line can be given to the processor. -/
def ready (c : Chip) (i : Fin 8) : Bool :=
  c.requested i && !c.mask.getLsbD i && lines.all fun j => !(decide (j ≤ i) && c.inService j)

/-- The request that is given to the processor next. -/
def next (c : Chip) : Option (Fin 8) := lines.find? c.ready

/-- A request is given to the processor. -/
def serve (c : Chip) (i : Fin 8) : Chip :=
  { c with
    requested := Function.update c.requested i false
    inService := if c.mode.getLsbD 1 then c.inService else Function.update c.inService i true }

end Chip

/-! ## Two chips -/

/-- The master and the slave. -/
structure Pair where
  master : Chip
  slave : Chip

/-- The lines of the devices: those of the master, and those of the slave. The slave itself is on line 2. -/
inductive Line
  | master (i : Fin 8)
  | slave (i : Fin 8)
  deriving DecidableEq, Fintype

namespace Pair

/-- A write to a port. -/
def write (p : Pair) (port : BitVec 16) (v : BitVec 8) : Pair :=
  if port = 0x20 then { p with master := p.master.writeCommand v }
  else if port = 0x21 then { p with master := p.master.writeData v }
  else if port = 0xA0 then { p with slave := p.slave.writeCommand v }
  else if port = 0xA1 then { p with slave := p.slave.writeData v }
  else p

/-- Writes to ports, one after the other. -/
def writes (p : Pair) (ws : List (BitVec 16 × BitVec 8)) : Pair := ws.foldl (fun p w => p.write w.1 w.2) p

/-- A device makes a request. -/
def raise (p : Pair) : Line → Pair
  | .master i => { p with master := p.master.raise i }
  | .slave i => { p with slave := p.slave.raise i }

/-- The request of a line is pending. -/
def pending (p : Pair) : Line → Bool
  | .master i => p.master.requested i
  | .slave i => p.slave.requested i

/-- The master, with the line to which the slave is wired. -/
def wired (p : Pair) : Chip :=
  { p.master with requested := Function.update p.master.requested 2 p.slave.next.isSome }

/-- The processor takes a request, and gets a vector. If the master takes the line for one with a slave, then the
slave that has its number gives the vector. -/
def acknowledge (p : Pair) : Option (Pair × BitVec 8) :=
  match p.wired.next with
  | none => none
  | some i =>
    if p.master.cascade.getLsbD i then
      if p.slave.cascade &&& 7 = BitVec.ofNat 8 i then
        p.slave.next.map fun j => (⟨p.wired.serve i, p.slave.serve j⟩, p.slave.vectors + BitVec.ofNat 8 j)
      else none
    else some (⟨p.wired.serve i, p.slave⟩, p.master.vectors + BitVec.ofNat 8 i)

end Pair

/-! ## Setting the chips up -/

namespace Pair

/-- The chips are set up: the slave is on line 2, no line is masked, and interrupts are ended by commands. -/
structure Programmed (p : Pair) (master slave : BitVec 8) : Prop where
  stage : p.master.stage = .mask ∧ p.slave.stage = .mask
  mask : p.master.mask = 0 ∧ p.slave.mask = 0
  mode : p.master.mode = 1 ∧ p.slave.mode = 1
  cascade : p.master.cascade = 4 ∧ p.slave.cascade = 2
  vectors : p.master.vectors = master ∧ p.slave.vectors = slave

/-- Nothing is in service. -/
def Idle (p : Pair) : Prop := p.master.inService = (fun _ => false) ∧ p.slave.inService = fun _ => false

/-- The sequence that sets the chips up, with the vectors of their lines. -/
def setUp (master slave : BitVec 8) : List (BitVec 16 × BitVec 8) :=
  [(0x20, 0x11), (0xA0, 0x11), (0x21, master), (0xA1, slave), (0x21, 4), (0xA1, 2), (0x21, 1), (0xA1, 1),
    (0x21, 0), (0xA1, 0)]

/-- **The sequence sets the chips up**, whatever state they are in. -/
lemma programmed_setUp (p : Pair) {master slave : BitVec 8} (hmaster : master &&& 0xF8 = master)
    (hslave : slave &&& 0xF8 = slave) :
    (p.writes (setUp master slave)).Programmed master slave ∧ (p.writes (setUp master slave)).Idle ∧
      ∀ l, (p.writes (setUp master slave)).pending l = false := by
  refine ⟨⟨⟨rfl, rfl⟩, ⟨rfl, rfl⟩, ⟨rfl, rfl⟩, ⟨rfl, rfl⟩, hmaster, hslave⟩, ⟨rfl, rfl⟩, fun l => ?_⟩
  cases l <;> rfl

variable {p : Pair} {master slave : BitVec 8}

/-- Commands change nothing that was set up. -/
lemma Programmed.congr {q : Pair} (h : p.Programmed master slave)
    (hmaster : q.master = { p.master with requested := q.master.requested, inService := q.master.inService })
    (hslave : q.slave = { p.slave with requested := q.slave.requested, inService := q.slave.inService }) :
    q.Programmed master slave := by
  obtain ⟨hstage, hmask, hmode, hcascade, hvectors⟩ := h
  constructor <;> rw [hmaster, hslave] <;> assumption

end Pair

/-! ## Taking requests -/

/-- The lines of the devices, the one with the highest priority first: those of the slave have the place of line 2 of
the master. -/
def byPriority : List Line :=
  [.master 0, .master 1] ++ (lines.map .slave ++ [.master 3, .master 4, .master 5, .master 6, .master 7])

/-- The vector of a line. -/
def vectorOf (master slave : BitVec 8) : Line → BitVec 8
  | .master i => master + BitVec.ofNat 8 i
  | .slave i => slave + BitVec.ofNat 8 i

/-- The writes that end the interrupt of a line. -/
def ends : Line → List (BitVec 16 × BitVec 8)
  | .master _ => [(0x20, 0x20)]
  | .slave _ => [(0x20, 0x20), (0xA0, 0x20)]

namespace Chip

variable {c : Chip} {i : Fin 8}

/-- With nothing masked and nothing in service, every request is ready. -/
lemma ready_eq (hmask : c.mask = 0) (hservice : c.inService = fun _ => false) : c.ready = c.requested := by
  funext i
  simp [ready, hmask, hservice]

/-- The interrupt that was given to the processor ends. -/
lemma endHighest_serve (hmode : c.mode = 1) (hservice : c.inService = fun _ => false) :
    (c.serve i).endHighest = { c with requested := Function.update c.requested i false } := by
  have hfind : ∀ i : Fin 8, lines.find? (Function.update (fun _ => false) i true) = some i := by decide
  have hservice' : (c.serve i).inService = Function.update (fun _ => false) i true := by
    rw [serve, hmode, hservice]
    rfl
  rw [endHighest, hservice', hfind i]
  dsimp only
  rw [Function.update_idem, Function.update_eq_self_iff.2 rfl, serve, hmode, hservice]

/-- With nothing in service, there is nothing to end. -/
lemma endHighest_of_idle (hservice : c.inService = fun _ => false) : c.endHighest = c := by
  have hfind : lines.find? c.inService = none := by
    rw [hservice]
    decide
  rw [endHighest, hfind]

end Chip

namespace Pair

variable {p : Pair} {master slave : BitVec 8} {l l' : Line}

/-- The chips after the processor has taken the request of a line. -/
def served (p : Pair) : Line → Pair
  | .master i => ⟨p.wired.serve i, p.slave⟩
  | .slave i => ⟨p.wired.serve 2, p.slave.serve i⟩

/-- The request that the master gives to the processor next. -/
lemma next_wired (h : p.Programmed master slave) (hidle : p.Idle) :
    p.wired.next = ([0, 1].find? p.master.requested).or
      (if p.slave.next.isSome then some 2 else [3, 4, 5, 6, 7].find? p.master.requested) := by
  have hready : p.wired.ready = Function.update p.master.requested 2 p.slave.next.isSome :=
    Chip.ready_eq h.mask.1 hidle.1
  have hsplit : lines = [0, 1] ++ 2 :: [3, 4, 5, 6, 7] := rfl
  rw [Chip.next, hready, hsplit, List.find?_append]
  simp only [List.find?_cons, Function.update_self, List.find?_nil]
  cases p.slave.next.isSome <;> simp

/-- **What the processor gets** from chips with nothing in service: the pending request with the highest priority,
with the vector of its line. -/
lemma acknowledge_eq (h : p.Programmed master slave) (hidle : p.Idle) :
    p.acknowledge = (byPriority.find? p.pending).map fun l => (p.served l, vectorOf master slave l) := by
  have hnext : p.slave.next = lines.find? p.slave.requested := by
    rw [Chip.next, Chip.ready_eq h.mask.2 hidle.2]
  have hslave : (lines.map Line.slave).find? p.pending = p.slave.next.map Line.slave := by
    rw [List.find?_map, hnext]
    rfl
  have hlow : [Line.master 0, .master 1].find? p.pending = ([0, 1].find? p.master.requested).map Line.master :=
    List.find?_map (f := Line.master) (l := [0, 1]) (p := p.pending)
  have hhigh : [Line.master 3, .master 4, .master 5, .master 6, .master 7].find? p.pending =
      ([3, 4, 5, 6, 7].find? p.master.requested).map Line.master :=
    List.find?_map (f := Line.master) (l := [3, 4, 5, 6, 7]) (p := p.pending)
  have hdirect : ∀ i : Fin 8, i ≠ 2 → (4 : BitVec 8).getLsbD i = false := by decide
  rw [acknowledge, next_wired h hidle, byPriority, List.find?_append, List.find?_append, hlow, hslave, hhigh,
    h.cascade.1, h.cascade.2, h.vectors.1, h.vectors.2]
  cases hfirst : [0, 1].find? p.master.requested with
  | some i =>
    have hi : i ≠ 2 := by
      rintro rfl
      exact absurd (List.mem_of_find?_eq_some hfirst) (by decide)
    simp only [Option.some_or, Option.map_some, hdirect i hi]
    rfl
  | none =>
    cases hsecond : p.slave.next with
    | some j => simp [served, vectorOf]
    | none =>
      cases hthird : [3, 4, 5, 6, 7].find? p.master.requested with
      | some i =>
        have hi : i ≠ 2 := by
          rintro rfl
          exact absurd (List.mem_of_find?_eq_some hthird) (by decide)
        simpa [served, vectorOf] using hdirect i hi
      | none => simp

/-- The chips after the interrupt of a line was taken and has ended. -/
lemma writes_ends_served (h : p.Programmed master slave) (hidle : p.Idle) (l : Line) :
    (p.served l).writes (ends l) = match l with
      | .master i => ⟨{ p.wired with requested := Function.update p.wired.requested i false }, p.slave⟩
      | .slave i => ⟨{ p.wired with requested := Function.update p.wired.requested 2 false },
          { p.slave with requested := Function.update p.slave.requested i false }⟩ := by
  have hmaster : ∀ i, (p.wired.serve i).endHighest =
      { p.wired with requested := Function.update p.wired.requested i false } := fun i =>
    Chip.endHighest_serve h.mode.1 hidle.1
  have hslave : ∀ i, (p.slave.serve i).endHighest =
      { p.slave with requested := Function.update p.slave.requested i false } := fun i =>
    Chip.endHighest_serve h.mode.2 hidle.2
  cases l with
  | master i =>
    show (⟨(p.wired.serve i).endHighest, p.slave⟩ : Pair) = _
    rw [hmaster]
  | slave i =>
    show (⟨(p.wired.serve 2).endHighest, (p.slave.serve i).endHighest⟩ : Pair) = _
    rw [hmaster, hslave]

/-- **Nothing is in service after the interrupt of a line has ended**, and the request of that line is not pending
any more. -/
lemma idle_served (h : p.Programmed master slave) (hidle : p.Idle) (l : Line) :
    ((p.served l).writes (ends l)).Programmed master slave ∧ ((p.served l).writes (ends l)).Idle ∧
      ∀ l' ≠ .master 2, ((p.served l).writes (ends l)).pending l' = if l' = l then false else p.pending l' := by
  rw [writes_ends_served h hidle]
  have hwired : ∀ i ≠ 2, p.wired.requested i = p.master.requested i := fun i hi => Function.update_of_ne hi ..
  cases l with
  | master i =>
    refine ⟨h.congr rfl rfl, hidle, fun l' hl' => ?_⟩
    cases l' with
    | master j =>
      have hj : j ≠ 2 := fun hj => hl' (congrArg Line.master hj)
      show Function.update p.wired.requested i false j = _
      by_cases hji : j = i
      · rw [hji, Function.update_self, if_pos rfl]
      · rw [Function.update_of_ne hji, hwired j hj, if_neg fun heq => hji (Line.master.inj heq)]
        rfl
    | slave j =>
      rw [if_neg Line.noConfusion]
      rfl
  | slave i =>
    refine ⟨h.congr rfl rfl, hidle, fun l' hl' => ?_⟩
    cases l' with
    | master j =>
      have hj : j ≠ 2 := fun hj => hl' (congrArg Line.master hj)
      show Function.update p.wired.requested 2 false j = _
      rw [Function.update_of_ne hj, hwired j hj, if_neg Line.noConfusion]
      rfl
    | slave j =>
      show Function.update p.slave.requested i false j = _
      by_cases hji : j = i
      · rw [hji, Function.update_self, if_pos rfl]
      · rw [Function.update_of_ne hji, if_neg fun heq => hji (Line.slave.inj heq)]
        rfl

/-- With nothing in service, the end of an interrupt changes nothing. -/
lemma writes_ends_of_idle (hidle : p.Idle) (l : Line) : p.writes (ends l) = p := by
  cases l with
  | master i =>
    show (⟨p.master.endHighest, p.slave⟩ : Pair) = p
    rw [Chip.endHighest_of_idle hidle.1]
  | slave i =>
    show (⟨p.master.endHighest, p.slave.endHighest⟩ : Pair) = p
    rw [Chip.endHighest_of_idle hidle.1, Chip.endHighest_of_idle hidle.2]

/-! ## Making requests -/

/-- A line that is raised is pending, the others are as before. -/
lemma pending_raise (p : Pair) (l l' : Line) :
    (p.raise l).pending l' = if l' = l then true else p.pending l' := by
  cases l <;> cases l' <;> simp [raise, pending, Chip.raise, Function.update_apply]

/-- Raising a line changes no programming. -/
lemma Programmed.raise (h : p.Programmed master slave) (l : Line) : (p.raise l).Programmed master slave := by
  cases l <;> exact h.congr rfl rfl

/-- And puts no line in service. -/
lemma Idle.raise (h : p.Idle) (l : Line) : (p.raise l).Idle := by
  cases l <;> exact h

end Pair

end Pic8259
