import Mathlib.Algebra.Order.Ring.Nat
import Mathlib.Logic.Function.Basic
import Mathlib.Tactic.Common

set_option relaxedAutoImplicit false
set_option autoImplicit false

/-!
# Fields of records in memory

Buffers of bytes, and the 16-bit and 32-bit fields of the records in them, with the least significant byte
first.

## Main definitions

* `ByteBuffer.get16`, `ByteBuffer.get32` — read a field.
* `ByteBuffer.set16`, `ByteBuffer.set32` — write a field.
* `ByteBuffer.copy` — copy bytes to an offset.

## Main results

* `ByteBuffer.get32_congr` — a field depends on its own bytes.
* `ByteBuffer.get16_set16`, `ByteBuffer.get32_set32` — reading a field that was written.
* `ByteBuffer.set16_of_ne`, `ByteBuffer.set32_of_ne` — the other bytes keep what they are.
-/

namespace ByteBuffer

/-- A 16-bit field. -/
def get16 (b : ℕ → BitVec 8) (offset : ℕ) : ℕ := (b offset).toNat + 256 * (b (offset + 1)).toNat

/-- A 32-bit field. -/
def get32 (b : ℕ → BitVec 8) (offset : ℕ) : ℕ := get16 b offset + 65536 * get16 b (offset + 2)

/-- Write a 16-bit field. -/
def set16 (b : ℕ → BitVec 8) (offset value : ℕ) : ℕ → BitVec 8 :=
  Function.update (Function.update b offset (BitVec.ofNat 8 value)) (offset + 1)
    (BitVec.ofNat 8 (value / 256))

/-- Write a 32-bit field. -/
def set32 (b : ℕ → BitVec 8) (offset value : ℕ) : ℕ → BitVec 8 :=
  set16 (set16 b offset value) (offset + 2) (value / 65536)

/-- Copy the first `count` bytes of a buffer to an offset of another one. -/
def copy (b : ℕ → BitVec 8) (offset : ℕ) (source : ℕ → BitVec 8) (count : ℕ) : ℕ → BitVec 8 := fun k =>
  if offset ≤ k ∧ k < offset + count then source (k - offset) else b k

variable {b b' : ℕ → BitVec 8} {offset offset' value k : ℕ}

/-- A 16-bit value is below `2^16`. -/
lemma get16_lt (b : ℕ → BitVec 8) (offset : ℕ) : get16 b offset < 2 ^ 16 := by
  have h₀ := (b offset).isLt
  have h₁ := (b (offset + 1)).isLt
  rw [get16]
  omega

/-- A 32-bit value is below `2^32`. -/
lemma get32_lt (b : ℕ → BitVec 8) (offset : ℕ) : get32 b offset < 2 ^ 32 := by
  have h₀ := get16_lt b offset
  have h₁ := get16_lt b (offset + 2)
  rw [get32]
  omega

/-- A field depends on its own bytes only. -/
lemma get16_congr (h : ∀ k, offset ≤ k → k < offset + 2 → b k = b' k) :
    get16 b offset = get16 b' offset := by
  rw [get16, get16, h offset (by omega) (by omega), h (offset + 1) (by omega) (by omega)]

/-- A 32-bit value depends on its four bytes only. -/
lemma get32_congr (h : ∀ k, offset ≤ k → k < offset + 4 → b k = b' k) :
    get32 b offset = get32 b' offset := by
  rw [get32, get32, get16_congr fun k hk hlt => h k hk (by omega),
    get16_congr fun k hk hlt => h k (by omega) (by omega)]

/-- Writing a 16-bit value changes no other bytes. -/
lemma set16_of_ne (h : k < offset ∨ offset + 2 ≤ k) : set16 b offset value k = b k := by
  rw [set16, Function.update_of_ne (by omega), Function.update_of_ne (by omega)]

/-- Writing a 32-bit value changes no other bytes. -/
lemma set32_of_ne (h : k < offset ∨ offset + 4 ≤ k) : set32 b offset value k = b k := by
  rw [set32, set16_of_ne (by omega), set16_of_ne (by omega)]

/-- A byte that is written is the new one, and any other one is that of the buffer. -/
lemma set32_congr (h : b k = b' k) : set32 b offset value k = set32 b' offset value k := by
  simp only [set32, set16, Function.update_apply, h]

/-- What is read back is the 16-bit value that was written. -/
lemma get16_set16 : get16 (set16 b offset value) offset = value % 2 ^ 16 := by
  have hlow : set16 b offset value offset = BitVec.ofNat 8 value := by
    rw [set16, Function.update_of_ne (by omega), Function.update_self]
  have hhigh : set16 b offset value (offset + 1) = BitVec.ofNat 8 (value / 256) :=
    Function.update_self ..
  rw [get16, hlow, hhigh, BitVec.toNat_ofNat, BitVec.toNat_ofNat]
  omega

/-- What is read back is the 32-bit value that was written. -/
lemma get32_set32 : get32 (set32 b offset value) offset = value % 2 ^ 32 := by
  have hlow : get16 (set32 b offset value) offset = get16 (set16 b offset value) offset :=
    get16_congr fun k hk hlt => set16_of_ne (by omega)
  have hhigh : get16 (set32 b offset value) (offset + 2) = value / 65536 % 2 ^ 16 := get16_set16
  rw [get32, hlow, hhigh, get16_set16]
  omega

/-- Writing a field leaves the others as they are. -/
lemma get16_set16_of_ne (h : offset' + 2 ≤ offset ∨ offset + 2 ≤ offset') :
    get16 (set16 b offset value) offset' = get16 b offset' :=
  get16_congr fun k hk hlt => set16_of_ne (by omega)

/-- A 32-bit value is the same after writing one elsewhere. -/
lemma get32_set32_of_ne (h : offset' + 4 ≤ offset ∨ offset + 4 ≤ offset') :
    get32 (set32 b offset value) offset' = get32 b offset' :=
  get32_congr fun k hk hlt => set32_of_ne (by omega)

/-- Copying nothing. -/
lemma copy_zero (b : ℕ → BitVec 8) (offset : ℕ) (source : ℕ → BitVec 8) : copy b offset source 0 = b := by
  funext k
  rw [copy, if_neg (by omega)]

end ByteBuffer
