import Mathlib.Algebra.Order.Ring.Nat
import Mathlib.Data.List.Perm.Basic
import Mathlib.Data.List.Pairwise
import Mathlib.Tactic.Common

set_option relaxedAutoImplicit false
set_option autoImplicit false

/-!
# Extents of memory

Half-open ranges of addresses, and lists of ranges that lie side by side in a region. An allocator
keeps its blocks packed in this sense: cutting a block in two, making it smaller, forgetting it, and
changing the order of the blocks all keep them packed.

## Main definitions

* `Extent` — the range of `len` addresses from `base`.
* `Extent.Packed` — ranges in a region that do not overlap.

## Main results

* `Extent.Packed.carve`, `Extent.Packed.perm`, `Extent.Packed.sublist` — what keeps ranges packed.
* `Extent.Packed.nodup_base` — packed ranges have different bases.
-/

/-- The addresses from `base` on, `len` of them. -/
structure Extent where
  base : ℕ
  len : ℕ

namespace Extent

variable {e e' e₁ e₂ f r : Extent} {l l' : List Extent}

/-- The ranges have no address in common. -/
def Apart (e f : Extent) : Prop := e.base + e.len ≤ f.base ∨ f.base + f.len ≤ e.base

/-- The first range is inside the second. -/
def Within (e f : Extent) : Prop := f.base ≤ e.base ∧ e.base + e.len ≤ f.base + f.len

/-- Being apart is symmetric. -/
lemma Apart.symm (h : Apart e f) : Apart f e := Or.symm h

/-- Lying within is transitive. -/
lemma Within.trans (h : Within e e') (h' : Within e' f) : Within e f := by
  obtain ⟨h₁, h₂⟩ := h
  obtain ⟨h₃, h₄⟩ := h'
  constructor <;> omega

/-- A part of a range is apart from what the range is apart from. -/
lemma Apart.mono (h : Apart e f) (he : Within e' e) : Apart e' f := by
  obtain ⟨h₁, h₂⟩ := he
  rcases h with h | h
  · exact .inl (by omega)
  · exact .inr (by omega)

/-- The ranges lie in the region and do not overlap. -/
structure Packed (r : Extent) (l : List Extent) : Prop where
  within : ∀ e ∈ l, Within e r
  apart : l.Pairwise Apart

/-- The order of the extents does not matter. -/
lemma Packed.perm (h : Packed r l) (hp : l.Perm l') : Packed r l' :=
  ⟨fun e he => h.within e (hp.mem_iff.2 he), (hp.pairwise_iff Apart.symm).1 h.apart⟩

/-- Some of the extents are packed as well. -/
lemma Packed.sublist (h : Packed r l) (hs : l'.Sublist l) : Packed r l' :=
  ⟨fun e he => h.within e (hs.subset he), h.apart.sublist hs⟩

/-- Two parts of a range take its place. -/
lemma Packed.carve (h : Packed r (e :: l)) (h₁ : Within e₁ e) (h₂ : Within e₂ e)
    (h₁₂ : Apart e₁ e₂) : Packed r (e₁ :: e₂ :: l) := by
  obtain ⟨hel, hl⟩ := List.pairwise_cons.1 h.apart
  have her := h.within e (by simp)
  constructor
  · intro f hf
    simp only [List.mem_cons] at hf
    rcases hf with rfl | rfl | hf
    · exact h₁.trans her
    · exact h₂.trans her
    · exact h.within f (by simp [hf])
  · refine List.pairwise_cons.2 ⟨fun f hf => ?_, List.pairwise_cons.2 ⟨fun f hf => ?_, hl⟩⟩
    · rcases List.mem_cons.1 hf with rfl | hf
      · exact h₁₂
      · exact (hel f hf).mono h₁
    · exact (hel f hf).mono h₂

/-- Packed ranges that are not empty have different bases. -/
lemma Packed.nodup_base (h : Packed r l) (hpos : ∀ e ∈ l, 0 < e.len) : (l.map base).Nodup := by
  refine List.pairwise_map.2 (h.apart.imp_of_mem fun {e f} he hf hap heq => ?_)
  have := hpos e he
  have := hpos f hf
  rcases hap with hap | hap <;> omega

end Extent
