import Mathlib.Algebra.Order.Ring.Nat
import Mathlib.Tactic.Common

set_option relaxedAutoImplicit false
set_option autoImplicit false

/-!
# Records of variable length

Records that are one behind the other in a buffer, where every record says how long it is. They tile the
buffer if the last one ends where the buffer does. A scan goes from one record to the next and touches
some bytes at each; nothing is assumed about the lengths that it finds.

## Main definitions

* `Records.Tiles` — records at the given offsets tile a part of a buffer.
* `Records.Visits`, `Records.Terminates` — the offsets that a scan comes to, and that it ends.
* `Records.Scan`, `Records.Scan.Within` — a scan with its accesses, and that they are within the buffer.

## Main results

* `Records.Tiles.append`, `Records.Tiles.split` — tilings can be joined and cut.
* `Records.terminates_of_lt` — a scan that goes forward terminates.
-/

namespace Records

variable {length length' : ℕ → ℕ} {start mid stop p q : ℕ} {offsets offsets' : List ℕ}

/-! ## Tilings -/

/-- Records at the given offsets tile the bytes from `start` to `stop`. -/
inductive Tiles (length : ℕ → ℕ) (stop : ℕ) : ℕ → List ℕ → Prop where
  | nil : Tiles length stop stop []
  | cons {start : ℕ} {offsets : List ℕ} (hpos : 0 < length start)
      (hrest : Tiles length stop (start + length start) offsets) :
      Tiles length stop start (start :: offsets)

namespace Tiles

/-- The records end behind their start. -/
lemma le (h : Tiles length stop start offsets) : start ≤ stop := by
  induction h with
  | nil => exact le_rfl
  | cons _ _ ih => exact (Nat.le_add_right _ _).trans ih

/-- Behind it strictly, if there is a record. -/
lemma lt (h : Tiles length stop start (p :: offsets)) : start < stop := by
  cases h with
  | cons hpos hrest =>
    have := hrest.le
    omega

/-- No records fill an empty range only. -/
lemma eq_of_nil (h : Tiles length stop start []) : start = stop := by
  cases h
  rfl

/-- A range that is not empty has a record. -/
lemma ne_nil (h : Tiles length stop start offsets) (hlt : start < stop) : offsets ≠ [] := by
  rintro rfl
  cases h
  omega

/-- Every record is within the bytes that are tiled. -/
lemma bounds (h : Tiles length stop start offsets) (hp : p ∈ offsets) :
    start ≤ p ∧ 0 < length p ∧ p + length p ≤ stop := by
  induction h with
  | nil => simp at hp
  | cons hpos hrest ih =>
    rcases List.mem_cons.1 hp with rfl | hp
    · exact ⟨le_rfl, hpos, hrest.le⟩
    · obtain ⟨hge, hbounds⟩ := ih hp
      exact ⟨by omega, hbounds⟩

/-- A tiling depends on the lengths of its records only. -/
lemma congr (h : Tiles length stop start offsets) (hlength : ∀ p ∈ offsets, length' p = length p) :
    Tiles length' stop start offsets := by
  induction h with
  | nil => exact .nil
  | cons hpos hrest ih =>
    have hfirst := hlength _ List.mem_cons_self
    refine .cons (by rw [hfirst]; exact hpos) ?_
    rw [hfirst]
    exact ih fun p hp => hlength p (List.mem_cons_of_mem _ hp)

/-- A tiling whose first records are given. -/
lemma cut (h : Tiles length stop start offsets) (h' : Tiles length mid start offsets') (hmid : mid ≤ stop) :
    ∃ rest, offsets = offsets' ++ rest ∧ Tiles length stop mid rest := by
  induction h' generalizing offsets with
  | nil => exact ⟨offsets, rfl, h⟩
  | cons hpos hrest ih =>
    have hle := hrest.le
    cases h with
    | nil => omega
    | cons _ hrest' =>
      obtain ⟨rest, rfl, hbehind⟩ := ih hrest'
      exact ⟨rest, rfl, hbehind⟩

/-- Records of two neighbouring ranges together are records of the whole. -/
lemma append (h : Tiles length mid start offsets) (h' : Tiles length stop mid offsets') :
    Tiles length stop start (offsets ++ offsets') := by
  induction h with
  | nil => exact h'
  | cons hpos _ ih => exact .cons hpos ih

/-- A tiling can be cut before each of its records. -/
lemma split (h : Tiles length stop start (offsets ++ p :: offsets')) :
    Tiles length p start offsets ∧ Tiles length stop p (p :: offsets') := by
  induction offsets generalizing start with
  | nil =>
    cases h with
    | cons hpos hrest => exact ⟨.nil, .cons hpos hrest⟩
  | cons q offsets ih =>
    cases h with
    | cons hpos hrest =>
      obtain ⟨hbefore, hbehind⟩ := ih hrest
      exact ⟨.cons hpos hbefore, hbehind⟩

/-- The records behind the first one fill what is left of the range. -/
lemma tail (h : Tiles length stop p (p :: offsets)) : Tiles length stop (p + length p) offsets := by
  cases h with
  | cons _ hrest => exact hrest

/-- There are no more records than bytes. -/
lemma length_le (h : Tiles length stop start offsets) : start + offsets.length ≤ stop := by
  induction h with
  | nil => simp
  | cons hpos hrest ih =>
    rw [List.length_cons]
    omega

/-- The records are in order. -/
lemma pairwise (h : Tiles length stop start offsets) :
    offsets.Pairwise fun p q => p + length p ≤ q := by
  induction h with
  | nil => exact List.Pairwise.nil
  | cons hpos hrest ih => exact List.Pairwise.cons (fun q hq => (hrest.bounds hq).1) ih

end Tiles

/-! ## Scans -/

variable {next : ℕ → Option ℕ}

/-- The offsets that a scan comes to. -/
inductive Visits (next : ℕ → Option ℕ) (start : ℕ) : ℕ → Prop where
  | start : Visits next start start
  | next {p q : ℕ} (hp : Visits next start p) (hnext : next p = some q) : Visits next start q

/-- Where a scan is after some steps, if it has not ended. -/
def position (next : ℕ → Option ℕ) (start : ℕ) : ℕ → Option ℕ
  | 0 => some start
  | n + 1 => (position next start n).bind next

/-- The scan ends. -/
def Terminates (next : ℕ → Option ℕ) (start : ℕ) : Prop := ∃ n, position next start n = none

/-- The first step of a scan. -/
lemma position_succ (hnext : next start = some q) (n : ℕ) :
    position next start (n + 1) = position next q n := by
  induction n with
  | zero => exact hnext
  | succ n ih => rw [position, ih, ← position]

/-- A scan with no next position ends. -/
lemma terminates_of_none (hnext : next start = none) : Terminates next start := ⟨1, hnext⟩

/-- A scan ends if the rest of it does. -/
lemma terminates_next_iff (hnext : next start = some q) : Terminates next start ↔ Terminates next q := by
  constructor
  · rintro ⟨n, hn⟩
    refine ⟨n, ?_⟩
    rw [← position_succ hnext, position, hn, Option.bind_none]
  · rintro ⟨n, hn⟩
    exact ⟨n + 1, by rw [position_succ hnext, hn]⟩

/-- The position after some steps is visited. -/
lemma visits_of_position {n : ℕ} (h : position next start n = some p) : Visits next start p := by
  induction n generalizing p with
  | zero =>
    obtain rfl := Option.some.inj h
    exact .start
  | succ n ih =>
    obtain ⟨q, hq, hnext⟩ := Option.bind_eq_some_iff.1 h
    exact .next (ih hq) hnext

/-- A visited position is the one after some number of steps. -/
lemma exists_position (h : Visits next start p) : ∃ n, position next start n = some p := by
  induction h with
  | start => exact ⟨0, rfl⟩
  | next _ hnext ih =>
    obtain ⟨n, hn⟩ := ih
    exact ⟨n + 1, by rw [position, hn, Option.bind_some, hnext]⟩

/-- **A scan that goes forward terminates.** -/
lemma terminates_of_lt (stop : ℕ)
    (h : ∀ p q, Visits next start p → next p = some q → p < q ∧ q < stop) : Terminates next start := by
  by_contra hnot
  have hsome : ∀ n, ∃ p, position next start n = some p ∧ start + n ≤ p ∧ (n = 0 ∨ p < stop) := by
    intro n
    induction n with
    | zero => exact ⟨start, rfl, le_rfl, .inl rfl⟩
    | succ n ih =>
      obtain ⟨p, hp, hle, -⟩ := ih
      cases hq : next p with
      | none => exact absurd ⟨n + 1, by rw [position, hp, Option.bind_some, hq]⟩ hnot
      | some q =>
        obtain ⟨hlt, hstop⟩ := h p q (visits_of_position hp) hq
        exact ⟨q, by rw [position, hp, Option.bind_some, hq], by omega, .inr hstop⟩
  obtain ⟨p, -, hle, hlt⟩ := hsome (stop + 1)
  omega

/-- A scan that stays where it is does not terminate. -/
lemma not_terminates_of_eq (hp : Visits next start p) (hnext : next p = some p) :
    ¬ Terminates next start := by
  rintro ⟨n, hnone⟩
  obtain ⟨m, hm⟩ := exists_position hp
  have hstay : ∀ k, position next start (m + k) = some p := by
    intro k
    induction k with
    | zero => exact hm
    | succ k ih => rw [← Nat.add_assoc, position, ih, Option.bind_some, hnext]
  have hover : ∀ k, position next start (n + k) = none := by
    intro k
    induction k with
    | zero => exact hnone
    | succ k ih => rw [← Nat.add_assoc, position, ih, Option.bind_none]
  have hsome := hstay n
  rw [Nat.add_comm, hover m] at hsome
  exact absurd hsome (by simp)

/-- What holds of the first offset and is kept by every step holds of all offsets. -/
lemma Visits.rec_of {P : ℕ → Prop} (h : Visits next start p) (hstart : P start)
    (hstep : ∀ p q, P p → next p = some q → P q) : P p := by
  induction h with
  | start => exact hstart
  | next _ hnext ih => exact hstep _ _ ih hnext

/-- A scan: where it goes from an offset, and which bytes it accesses there, as offsets with lengths. -/
structure Scan where
  next : ℕ → Option ℕ
  accesses : ℕ → List (ℕ × ℕ)

/-- The scan from the start of a buffer terminates and accesses bytes of the buffer only. -/
structure Scan.Within (s : Scan) (stop : ℕ) : Prop where
  terminates : Terminates s.next 0
  accesses : ∀ p, Visits s.next 0 p → ∀ access ∈ s.accesses p, access.1 + access.2 ≤ stop

end Records
