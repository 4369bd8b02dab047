import Mathlib.Algebra.Order.Ring.Nat
import Mathlib.Data.Fin.Basic
import Mathlib.Logic.Function.Basic
import Mathlib.Order.Bounds.Defs
import Mathlib.Tactic.Common

set_option relaxedAutoImplicit false
set_option autoImplicit false

/-!
# Segment descriptors

`init_segement_descriptor`, `get_base` and `get_limit` of `src/kernel/gdt.c`. A descriptor has eight bytes, over
which the base and the limit are spread. The limit has 20 bits, and the flag for the granularity says whether
they count bytes or pages of 4096 bytes. A limit in pages reaches to the end of its last page, so a limit that
does not is rounded down.

## Main definitions

* `Jarvis.SegmentDescriptor` — the bytes of a descriptor.
* `Jarvis.SegmentDescriptor.initSegementDescriptor`, `Jarvis.SegmentDescriptor.getBase`,
  `Jarvis.SegmentDescriptor.getLimit` — the functions.
* `Jarvis.Encodable` — the limits that a descriptor can have.

## Main results

* `Jarvis.SegmentDescriptor.getLimit_cases` — the limit after an initialization.
* `Jarvis.SegmentDescriptor.get_initSegementDescriptor` — what is read from a descriptor that was initialized.
-/

namespace Jarvis

/-- The bytes of a segment descriptor. -/
abbrev SegmentDescriptor := Fin 8 → BitVec 8

/-- The limits that a descriptor can encode: 20 bits that count bytes, or pages of which the last one is
included. -/
def Encodable (limit : ℕ) : Prop := limit < 2 ^ 20 ∨ ∃ k < 2 ^ 20, limit = k * 4096 + 4095

namespace SegmentDescriptor

/-- The byte with the flags, without the limit, and the limit in the units that they stand for. -/
def granularity (limit : BitVec 32) : BitVec 8 × BitVec 32 :=
  if limit < 1048576 then (0x40, limit)
  else (0xC0, if limit &&& 0xfff ≠ 0xfff then (limit >>> 12) - 1 else limit >>> 12)

/-- `init_segement_descriptor`. -/
def initSegementDescriptor (target : SegmentDescriptor) (base limit : BitVec 32) (type : BitVec 8) :
    SegmentDescriptor :=
  let (flags, limit) := granularity limit
  let target := Function.update target 6 flags
  let target := Function.update target 0 ((limit &&& 0xff).setWidth 8)
  let target := Function.update target 1 (((limit >>> 8) &&& 0xff).setWidth 8)
  let target := Function.update target 6 (target 6 ||| ((limit >>> 16) &&& 0xf).setWidth 8)
  let target := Function.update target 2 ((base &&& 0xff).setWidth 8)
  let target := Function.update target 3 (((base >>> 8) &&& 0xff).setWidth 8)
  let target := Function.update target 4 (((base >>> 16) &&& 0xff).setWidth 8)
  let target := Function.update target 7 (((base >>> 24) &&& 0xff).setWidth 8)
  Function.update target 5 type

/-- `get_base`. -/
def getBase (target : SegmentDescriptor) : BitVec 32 :=
  let result := (target 7).setWidth 32
  let result := (result <<< 8) + (target 4).setWidth 32
  let result := (result <<< 8) + (target 3).setWidth 32
  (result <<< 8) + (target 2).setWidth 32

/-- `get_limit`. -/
def getLimit (target : SegmentDescriptor) : BitVec 32 :=
  let result := (target 6 &&& 0xf).setWidth 32
  let result := (result <<< 8) + (target 1).setWidth 32
  let result := (result <<< 8) + (target 0).setWidth 32
  if target 6 &&& 0xC0 = 0xC0 then (result <<< 12) ||| 0xfff else result

-- the segments of the kernel have 64 MB, less one byte
example : (getLimit (initSegementDescriptor (fun _ => 0) 0 0x4000000 0x9a)).toNat = 64 * 1024 * 1024 - 1 := by
  decide

/-! ## Bytes of words -/

/-- One byte of a word. -/
lemma toNat_byte (x : BitVec 32) (k : ℕ) :
    (((x >>> k) &&& 0xff).setWidth 8).toNat = x.toNat / 2 ^ k % 256 := by
  rw [BitVec.toNat_setWidth, BitVec.toNat_and, BitVec.toNat_ushiftRight, Nat.shiftRight_eq_div_pow]
  exact (Nat.mod_eq_of_lt (Nat.and_lt_two_pow _ (by decide))).trans (Nat.and_two_pow_sub_one_eq_mod _ 8)

/-- A word that is one byte longer. -/
lemma toNat_shift_add {x : BitVec 32} (hx : x.toNat < 2 ^ 24) (b : BitVec 8) :
    ((x <<< 8) + b.setWidth 32).toNat = x.toNat * 256 + b.toNat := by
  have hb := b.isLt
  rw [BitVec.toNat_add, BitVec.toNat_shiftLeft, BitVec.toNat_setWidth, Nat.shiftLeft_eq]
  omega

/-- The base is put together from the bytes that it was taken apart to. -/
lemma getBase_initSegementDescriptor (target : SegmentDescriptor) (base limit : BitVec 32) (type : BitVec 8) :
    getBase (initSegementDescriptor target base limit type) = base := by
  have hbase := base.isLt
  have hbyte := toNat_byte base
  have hbyte₀ : ((base &&& 0xff).setWidth 8).toNat = base.toNat % 256 := by
    simpa using hbyte 0
  have hword : ∀ x : BitVec 8, (x.setWidth 32).toNat = x.toNat := fun x => by
    have hx := x.isLt
    rw [BitVec.toNat_setWidth]
    omega
  apply BitVec.eq_of_toNat_eq
  have hbytes : getBase (initSegementDescriptor target base limit type) =
      (((((((base >>> 24) &&& 0xff).setWidth 8).setWidth 32 <<< 8) +
        (((base >>> 16) &&& 0xff).setWidth 8).setWidth 32) <<< 8) +
        (((base >>> 8) &&& 0xff).setWidth 8).setWidth 32) <<< 8 + ((base &&& 0xff).setWidth 8).setWidth 32 := rfl
  have h₁ := toNat_shift_add (x := (((base >>> 24) &&& 0xff).setWidth 8).setWidth 32)
    (by rw [hword, hbyte]; omega) (((base >>> 16) &&& 0xff).setWidth 8)
  rw [hword, hbyte, hbyte] at h₁
  have h₂ := toNat_shift_add (by rw [h₁]; omega) (((base >>> 8) &&& 0xff).setWidth 8)
  rw [h₁, hbyte] at h₂
  rw [hbytes, toNat_shift_add (by rw [h₂]; omega), h₂, hbyte₀]
  omega

/-! ## The limit -/

/-- The byte with the flags keeps them apart from the highest bits of the limit. -/
lemma flags_or {x : BitVec 8} (hx : x < 16) :
    (0x40 ||| x) &&& 0xf = x ∧ (0x40 ||| x) &&& 0xC0 ≠ 0xC0 ∧
      (0xC0 ||| x) &&& 0xf = x ∧ (0xC0 ||| x) &&& 0xC0 = 0xC0 := by
  revert x
  decide

/-- The limit in its units has 20 bits. -/
lemma granularity_cases (limit : BitVec 32) :
    (limit.toNat < 2 ^ 20 ∧ granularity limit = (0x40, limit)) ∨
      (2 ^ 20 ≤ limit.toNat ∧ (granularity limit).1 = 0xC0 ∧
        (granularity limit).2.toNat =
          if limit.toNat % 4096 = 4095 then limit.toNat / 4096 else limit.toNat / 4096 - 1) := by
  have hlimit := limit.isLt
  have hpage : (limit >>> 12).toNat = limit.toNat / 4096 := by
    rw [BitVec.toNat_ushiftRight, Nat.shiftRight_eq_div_pow]
  have hlast : limit &&& 0xfff = 0xfff ↔ limit.toNat % 4096 = 4095 := by
    rw [← BitVec.toNat_inj, BitVec.toNat_and]
    exact (Nat.and_two_pow_sub_one_eq_mod limit.toNat 12) ▸ Iff.rfl
  rcases lt_or_ge limit.toNat (2 ^ 20) with hlt | hge
  · have hbytes : limit < 1048576 := BitVec.lt_def.2 hlt
    exact .inl ⟨hlt, by rw [granularity, if_pos hbytes]⟩
  · have hpages : ¬ limit < 1048576 := fun h => absurd (BitVec.lt_def.1 h) (not_lt.2 hge)
    refine .inr ⟨hge, by rw [granularity, if_neg hpages], ?_⟩
    rw [granularity, if_neg hpages]
    dsimp only
    by_cases hmod : limit.toNat % 4096 = 4095
    · rw [if_neg (not_not.2 (hlast.2 hmod)), if_pos hmod, hpage]
    · rw [if_pos (fun h => hmod (hlast.1 h)), if_neg hmod, BitVec.toNat_sub, hpage]
      simp
      omega

/-- The 20 bits of the limit are put together from the bytes that they were taken apart to. -/
lemma toNat_limit {x : BitVec 32} (hx : x.toNat < 2 ^ 20) :
    (((((x >>> 16) &&& 0xf).setWidth 8).setWidth 32 <<< 8 + (((x >>> 8) &&& 0xff).setWidth 8).setWidth 32) <<< 8 +
      ((x &&& 0xff).setWidth 8).setWidth 32).toNat = x.toNat := by
  have hlow : ((x &&& 0xff).setWidth 8).toNat = x.toNat % 256 := by
    simpa using toNat_byte x 0
  have hhigh : ((((x >>> 16) &&& 0xf).setWidth 8).setWidth 32).toNat = x.toNat / 65536 := by
    rw [BitVec.toNat_setWidth, BitVec.toNat_setWidth, BitVec.toNat_and, BitVec.toNat_ushiftRight,
      Nat.shiftRight_eq_div_pow]
    have hand : (x.toNat / 2 ^ 16) &&& (0xf : BitVec 32).toNat = x.toNat / 2 ^ 16 % 2 ^ 4 :=
      Nat.and_two_pow_sub_one_eq_mod _ 4
    rw [hand]
    omega
  have h₁ := toNat_shift_add (x := (((x >>> 16) &&& 0xf).setWidth 8).setWidth 32) (by rw [hhigh]; omega)
    (((x >>> 8) &&& 0xff).setWidth 8)
  rw [hhigh, toNat_byte] at h₁
  rw [toNat_shift_add (by rw [h₁]; omega), h₁, hlow]
  omega

/-- A limit in pages reaches to the end of its last page. -/
lemma toNat_pages {x : BitVec 32} (hx : x.toNat < 2 ^ 20) :
    ((x <<< 12) ||| 0xfff).toNat = x.toNat * 4096 + 4095 := by
  rw [BitVec.toNat_or, BitVec.toNat_shiftLeft, Nat.shiftLeft_eq, Nat.mod_eq_of_lt (by omega)]
  exact (Nat.mul_comm _ _ ▸ Nat.two_pow_add_eq_or_of_lt (show 4095 < 2 ^ 12 by decide) x.toNat).symm

/-- **The limit after an initialization**: the last byte of the last page that ends at the requested limit or
before, unless the limit is given in bytes. -/
lemma getLimit_cases (target : SegmentDescriptor) (base limit : BitVec 32) (type : BitVec 8) :
    (getLimit (initSegementDescriptor target base limit type)).toNat =
      if limit.toNat < 2 ^ 20 ∨ limit.toNat % 4096 = 4095 then limit.toNat
      else (limit.toNat / 4096 - 1) * 4096 + 4095 := by
  have hlimit := limit.isLt
  rcases hgran : granularity limit with ⟨flags, units⟩
  have hnibble : ((units >>> 16) &&& 0xf).setWidth 8 < (16 : BitVec 8) := by
    rw [BitVec.lt_def, BitVec.toNat_setWidth, BitVec.toNat_and]
    exact (Nat.mod_le _ _).trans_lt (Nat.and_lt_two_pow _ (show (0xf : BitVec 32).toNat < 2 ^ 4 by decide))
  obtain ⟨hmask, hbytes, hmask', hpages⟩ := flags_or hnibble
  have hget : getLimit (initSegementDescriptor target base limit type) =
      getLimit fun i => if i = 6 then flags ||| ((units >>> 16) &&& 0xf).setWidth 8
        else if i = 1 then ((units >>> 8) &&& 0xff).setWidth 8 else (units &&& 0xff).setWidth 8 := by
    simp [getLimit, initSegementDescriptor, hgran]
  rw [hget, getLimit]
  simp only [if_true, show (1 : Fin 8) ≠ 6 by decide, show (0 : Fin 8) ≠ 6 by decide,
    show (0 : Fin 8) ≠ 1 by decide, if_false]
  rcases granularity_cases limit with ⟨hlt, hunits⟩ | ⟨hge, hflags, hunits⟩
  · obtain ⟨hflags, hsame⟩ : flags = 0x40 ∧ units = limit := Prod.ext_iff.1 (hgran.symm.trans hunits)
    subst hflags hsame
    rw [hmask, if_neg hbytes, toNat_limit hlt, if_pos (.inl hlt)]
  · rw [hgran] at hflags hunits
    dsimp only at hflags hunits
    subst hflags
    have hlt : units.toNat < 2 ^ 20 := by
      split_ifs at hunits <;> omega
    rw [hmask', if_pos hpages, toNat_pages (by rwa [toNat_limit hlt]), toNat_limit hlt, hunits]
    split_ifs <;> omega

/-- **What is read from a descriptor** that was initialized: the base, the type, and the greatest limit that a
descriptor can have and that is not above the requested one, whatever the descriptor was before. -/
theorem get_initSegementDescriptor (target : SegmentDescriptor) (base limit : BitVec 32) (type : BitVec 8) :
    getBase (initSegementDescriptor target base limit type) = base ∧
      initSegementDescriptor target base limit type 5 = type ∧
      IsGreatest {l | Encodable l ∧ l ≤ limit.toNat}
        (getLimit (initSegementDescriptor target base limit type)).toNat := by
  have hlimit := limit.isLt
  refine ⟨getBase_initSegementDescriptor target base limit type, rfl, ?_⟩
  rw [getLimit_cases]
  constructor
  · split_ifs with h
    · refine ⟨?_, le_rfl⟩
      rcases h with hlt | hmod
      · exact .inl hlt
      · exact .inr ⟨limit.toNat / 4096, by omega, by omega⟩
    · exact ⟨.inr ⟨limit.toNat / 4096 - 1, by omega, rfl⟩, by omega⟩
  · rintro l ⟨hl, hle⟩
    split_ifs with h
    · exact hle
    · rcases hl with hl | ⟨k, hk, rfl⟩
      · omega
      · omega

end SegmentDescriptor

end Jarvis
