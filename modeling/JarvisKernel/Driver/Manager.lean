import Mathlib.Data.List.Induction
import Mathlib.Data.List.Infix
import Mathlib.Logic.Function.Basic
import Mathlib.Tactic.Common

set_option relaxedAutoImplicit false
set_option autoImplicit false

/-!
# The driver manager

The table of drivers of `src/driver/driver.c`. The number of drivers is kept in 8 bits, and the table has
256 entries: the test for a free entry is always true, and the 256th driver makes the number 0.

## Main definitions

* `Jarvis.DriverManager` — the table.
* `Jarvis.DriverManager.appendDriver`, `driverActivateAll` — the functions.
* `Jarvis.DriverManager.KeepsDrivers` — the first 256 drivers are kept and activated.

## Main results

* `Jarvis.DriverManager.size_appendAll`, `stored_appendAll` — the table after a number of calls.
* `Jarvis.DriverManager.activateLoop_eq` — the loop of `driver_activate_all`.
* `Jarvis.DriverManager.keepsDrivers_iff` — the drivers are kept as long as there are fewer than 256.
-/

namespace Jarvis

/-- `MAX_DRIVER_SIZE`. -/
def maxDriverSize : ℕ := 256

/-- `Driver`; functions are named by numbers, and null is `none`. -/
structure Driver where
  activate : Option ℕ
  reset : Option ℕ
  deactivate : Option ℕ

/-- `DriverManager`; `size` is a `uint8_t`. -/
structure DriverManager where
  drivers : ℕ → Driver
  size : ℕ

namespace DriverManager

variable {m : DriverManager} {ds : List Driver}

/-- `on_init_driver_manager`, with what the table holds before. -/
def onInitDriverManager (drivers : ℕ → Driver) : DriverManager := ⟨drivers, 0⟩

/-- `append_driver`. -/
def appendDriver (m : DriverManager) (driver : Option Driver) : DriverManager :=
  match driver with
  | none => m
  | some d =>
    if m.size < maxDriverSize then
      { drivers := Function.update m.drivers m.size d, size := (m.size + 1) % 256 }
    else m

/-- The loop of `driver_activate_all` from index `i` on: the functions that it calls, in order. The index
has 8 bits; `none` if the loop has not ended when the fuel is used up. -/
def activateLoop (m : DriverManager) : ℕ → ℕ → Option (List ℕ)
  | 0, _ => none
  | fuel + 1, i =>
    if i < m.size then
      match (m.drivers i).activate with
      | none => activateLoop m fuel ((i + 1) % 256)
      | some f => (activateLoop m fuel ((i + 1) % 256)).map (f :: ·)
    else some []

/-- `driver_activate_all`. A loop over 8-bit indices that has not ended after 257 tests never ends. -/
def driverActivateAll (m : DriverManager) : Option (List ℕ) := m.activateLoop 257 0

/-! ## Runs -/

/-- The manager after drivers were appended. -/
def appendAll (m : DriverManager) (ds : List Driver) : DriverManager :=
  ds.foldl (fun m d => m.appendDriver (some d)) m

/-- The drivers that the table holds. -/
def stored (m : DriverManager) : List Driver := (List.range m.size).map m.drivers

/-- The first 256 drivers are stored in order, later ones change nothing, and `driver_activate_all` calls
the function of each stored driver once. -/
structure KeepsDrivers (m : DriverManager) (ds : List Driver) : Prop where
  stored : (m.appendAll ds).stored = ds.take maxDriverSize
  refused : ∀ ds' d, ds' ++ [d] <+: ds → maxDriverSize ≤ ds'.length →
    m.appendAll (ds' ++ [d]) = m.appendAll ds'
  activated : (m.appendAll ds).driverActivateAll =
    some ((ds.take maxDriverSize).filterMap Driver.activate)

/-- The list has one driver for each place. -/
@[simp] lemma length_stored : m.stored.length = m.size := by simp [stored]

/-- The last driver is appended last. -/
lemma appendAll_concat (m : DriverManager) (ds : List Driver) (d : Driver) :
    m.appendAll (ds ++ [d]) = (m.appendAll ds).appendDriver (some d) := by
  simp [appendAll]

/-- The number of drivers is counted modulo 256. -/
lemma size_appendAll (hm : m.size = 0) (ds : List Driver) :
    (m.appendAll ds).size = ds.length % 256 := by
  induction ds using List.reverseRecOn with
  | nil => simpa [appendAll] using hm
  | append_singleton ds d ih =>
    rw [appendAll_concat, appendDriver, if_pos]
    · simp [ih]
    · rw [ih]
      exact Nat.mod_lt _ (by decide)

/-- Fewer than 256 drivers are all stored, in order. -/
lemma stored_appendAll (hm : m.size = 0) (hds : ds.length < 256) : (m.appendAll ds).stored = ds := by
  induction ds using List.reverseRecOn with
  | nil => simp [appendAll, stored, hm]
  | append_singleton ds d ih =>
    rw [List.length_append, List.length_singleton] at hds
    have hsize : (m.appendAll ds).size = ds.length := by
      rw [size_appendAll hm, Nat.mod_eq_of_lt (by omega)]
    rw [appendAll_concat, appendDriver, if_pos (by rw [hsize, maxDriverSize]; omega), stored, hsize,
      Nat.mod_eq_of_lt hds, List.range_succ, List.map_append]
    congr 1
    · -- the entries before the new one are those that were there
      refine Eq.trans ?_ (ih (by omega))
      rw [stored, hsize]
      apply List.map_congr_left
      intro i hi
      have hne : i ≠ ds.length := Nat.ne_of_lt (List.mem_range.1 hi)
      simp [hne]
    · simp

/-- From index `i` on, the loop of `driver_activate_all` calls the functions of the drivers from `i`
on. -/
lemma activateLoop_eq (hm : m.size < 256) {fuel i : ℕ} (hi : i ≤ m.size) (hfuel : m.size < i + fuel) :
    m.activateLoop fuel i =
      some (((List.range' i (m.size - i)).map m.drivers).filterMap Driver.activate) := by
  induction fuel generalizing i with
  | zero => omega
  | succ fuel ih =>
    unfold activateLoop
    split_ifs with hlt
    · have hsplit : List.range' i (m.size - i) = i :: List.range' (i + 1) (m.size - (i + 1)) := by
        rw [show m.size - i = m.size - (i + 1) + 1 by omega, List.range'_succ]
      rw [Nat.mod_eq_of_lt (by omega), ih (by omega) (by omega), hsplit]
      cases hact : (m.drivers i).activate <;> simp [hact]
    · rw [show m.size - i = 0 by omega]
      rfl

/-- `driver_activate_all` ends, and calls the function of each stored driver once, in order. -/
lemma driverActivateAll_eq (hm : m.size < 256) :
    m.driverActivateAll = some (m.stored.filterMap Driver.activate) := by
  rw [driverActivateAll, activateLoop_eq hm (Nat.zero_le _) (by omega), stored, List.range_eq_range',
    Nat.sub_zero]

/-- The drivers are kept exactly if there are fewer than 256: with 256 of them, the number of drivers is
0 again. -/
theorem keepsDrivers_iff (drivers : ℕ → Driver) (ds : List Driver) :
    (onInitDriverManager drivers).KeepsDrivers ds ↔ ds.length < maxDriverSize := by
  set m := onInitDriverManager drivers with hm
  have hzero : m.size = 0 := rfl
  have hsize := size_appendAll hzero ds
  constructor
  · intro h
    have hlen := congrArg List.length h.stored
    rw [length_stored, hsize, List.length_take, maxDriverSize] at hlen
    rw [maxDriverSize]
    omega
  · intro hlt
    have hall : ds.take maxDriverSize = ds := List.take_of_length_le hlt.le
    have hstored := stored_appendAll hzero hlt
    refine ⟨by rw [hall, hstored], fun ds' d hprefix hlen => ?_, ?_⟩
    · have := hprefix.length_le
      simp only [List.length_append, List.length_singleton] at this
      omega
    · rw [driverActivateAll_eq (by rw [hsize]; exact Nat.mod_lt _ (by decide)), hstored, hall]

/-- With 256 drivers, the table holds none, and none is activated. -/
theorem not_keepsDrivers_full :
    ¬ (onInitDriverManager fun _ => ⟨none, none, none⟩).KeepsDrivers
      (List.replicate 256 ⟨some 1, none, none⟩) := by
  intro h
  have hlen := congrArg List.length h.stored
  rw [length_stored, size_appendAll rfl, List.length_take, List.length_replicate] at hlen
  revert hlen
  decide

end DriverManager

end Jarvis
