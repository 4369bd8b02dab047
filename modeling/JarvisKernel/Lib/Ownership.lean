import Mathlib.Algebra.Order.Ring.Nat
import Mathlib.Logic.Function.Basic
import Mathlib.Tactic.Common

set_option relaxedAutoImplicit false
set_option autoImplicit false

/-!
# Slots that name resources

A table of slots, each of which may name a resource, over arbitrary types of slots and resources. Some
of the resources are managed: a managed resource is handed out, put in a slot, taken out of it and handed
back. The table is exclusive if no managed resource is in two slots and every managed resource in a slot
is in use. It is covered if every managed resource in use is in a slot that can be seen.

A resource is pending between the time it is handed out and the time it is in a slot.

## Main definitions

* `Ownership.Exclusive` — no managed resource is in two slots, or in a slot and not in use.
* `Ownership.Covered` — every managed resource in use is in a slot that can be seen, or is pending.

## Main results

* `Ownership.Exclusive.put`, `Ownership.Exclusive.drop`, `Ownership.Exclusive.release` — the steps of a
  resource's life.
* `Ownership.Covered.put`, `Ownership.Covered.drop`, `Ownership.Covered.release` — the same for covered
  tables.
-/

namespace Ownership

variable {S R : Type*} {managed used used' : R → Prop} {visible : S → Prop}
  {m m' : S → Option R} {s : S} {r : R}

/-- No managed resource is in two slots, and those in slots are in use. -/
structure Exclusive (managed used : R → Prop) (m : S → Option R) : Prop where
  unique : ∀ s s' r, managed r → m s = some r → m s' = some r → s = s'
  used : ∀ s r, managed r → m s = some r → used r

/-- Every managed resource in use is in a slot that can be seen, or is pending. -/
def Covered (managed used pending : R → Prop) (visible : S → Prop) (m : S → Option R) : Prop :=
  ∀ r, managed r → used r → pending r ∨ ∃ s, visible s ∧ m s = some r

namespace Exclusive

/-- More resources may be in use. -/
lemma mono (h : Exclusive managed used m) (hu : ∀ r, used r → used' r) :
    Exclusive managed used' m :=
  ⟨h.unique, fun s r hr hs => hu r (h.used s r hr hs)⟩

/-- Slots may be emptied. -/
lemma of_subtable (h : Exclusive managed used m) (hm : ∀ s r, m' s = some r → m s = some r) :
    Exclusive managed used m' :=
  ⟨fun s s' r hr hs hs' => h.unique s s' r hr (hm s r hs) (hm s' r hs'),
    fun s r hr hs => h.used s r hr (hm s r hs)⟩

/-- A resource that is in no slot may be handed back. -/
lemma release (h : Exclusive managed used m) (hr : ∀ s, m s ≠ some r)
    (hu : ∀ x, x ≠ r → used x → used' x) : Exclusive managed used' m := by
  refine ⟨h.unique, fun s x hx hs => hu x ?_ (h.used s x hx hs)⟩
  rintro rfl
  exact hr s hs

variable [DecidableEq S]

/-- A resource in use that is in no slot may be put in one. -/
lemma put (h : Exclusive managed used m) (hu : used r) (hr : ∀ s, m s ≠ some r) (s : S) :
    Exclusive managed used (Function.update m s (some r)) := by
  have hother : ∀ s' x, Function.update m s (some r) s' = some x →
      s' = s ∧ x = r ∨ s' ≠ s ∧ m s' = some x := by
    intro s' x hx
    by_cases hs : s' = s
    · rw [hs, Function.update_self, Option.some.injEq] at hx
      exact .inl ⟨hs, hx.symm⟩
    · rw [Function.update_of_ne hs] at hx
      exact .inr ⟨hs, hx⟩
  constructor
  · intro s₁ s₂ x hx h₁ h₂
    rcases hother s₁ x h₁ with ⟨hs₁, rfl⟩ | ⟨-, hm₁⟩
    · rcases hother s₂ x h₂ with ⟨hs₂, -⟩ | ⟨-, hm₂⟩
      · rw [hs₁, hs₂]
      · exact absurd hm₂ (hr s₂)
    · rcases hother s₂ x h₂ with ⟨-, rfl⟩ | ⟨-, hm₂⟩
      · exact absurd hm₁ (hr s₁)
      · exact h.unique s₁ s₂ x hx hm₁ hm₂
  · intro s' x hx hs'
    rcases hother s' x hs' with ⟨-, rfl⟩ | ⟨-, hs'⟩
    · exact hu
    · exact h.used s' x hx hs'

/-- A resource that is not managed may be put in any slot. -/
lemma put_unmanaged (h : Exclusive managed used m) (hr : ¬ managed r) (s : S) :
    Exclusive managed used (Function.update m s (some r)) := by
  have hold : ∀ s' x, managed x → Function.update m s (some r) s' = some x → m s' = some x := by
    intro s' x hx hs'
    by_cases he : s' = s
    · rw [he, Function.update_self, Option.some.injEq] at hs'
      exact absurd (hs' ▸ hx) hr
    · rwa [Function.update_of_ne he] at hs'
  exact ⟨fun s₁ s₂ x hx h₁ h₂ => h.unique s₁ s₂ x hx (hold s₁ x hx h₁) (hold s₂ x hx h₂),
    fun s' x hx hs' => h.used s' x hx (hold s' x hx hs')⟩

/-- A slot may be emptied. -/
lemma drop (h : Exclusive managed used m) (s : S) :
    Exclusive managed used (Function.update m s none) := by
  refine h.of_subtable fun s' x hx => ?_
  by_cases hs : s' = s
  · rw [hs, Function.update_self] at hx
    simp at hx
  · rwa [Function.update_of_ne hs] at hx

/-- A managed resource is in no slot any more when its slot was emptied. -/
lemma notMem_drop (h : Exclusive managed used m) (hr : managed r) (hs : m s = some r) (s' : S) :
    Function.update m s none s' ≠ some r := by
  intro hs'
  by_cases he : s' = s
  · rw [he, Function.update_self] at hs'
    simp at hs'
  · rw [Function.update_of_ne he] at hs'
    exact he (h.unique s' s r hr hs' hs)

end Exclusive

namespace Covered

/-- A resource that is handed out is pending. -/
lemma acquire (h : Covered managed used (fun _ => False) visible m)
    (hu : ∀ x, used' x → used x ∨ x = r) : Covered managed used' (fun x => x = r) visible m := by
  intro x hx hx'
  rcases hu x hx' with hxu | hxr
  · rcases h x hx hxu with hf | hs
    · exact hf.elim
    · exact .inr hs
  · exact .inl hxr

/-- A pending resource that is handed back is not missed. -/
lemma release (h : Covered managed used (fun x => x = r) visible m)
    (hu : ∀ x, used' x → used x ∧ x ≠ r) : Covered managed used' (fun _ => False) visible m := by
  intro x hx hx'
  obtain ⟨hxu, hxr⟩ := hu x hx'
  rcases h x hx hxu with hxr' | hs
  · exact absurd hxr' hxr
  · exact .inr hs

variable [DecidableEq S]

/-- A pending resource is put in an empty slot that can be seen. -/
lemma put (h : Covered managed used (fun x => x = r) visible m) (hs : visible s)
    (hempty : m s = none) :
    Covered managed used (fun _ => False) visible (Function.update m s (some r)) := by
  intro x hx hxu
  rcases h x hx hxu with rfl | ⟨s', hs', hm⟩
  · exact .inr ⟨s, hs, Function.update_self ..⟩
  · refine .inr ⟨s', hs', ?_⟩
    rw [Function.update_of_ne]
    · exact hm
    · rintro rfl
      rw [hempty] at hm
      simp at hm

/-- A slot is emptied and its resource handed back, if it was a managed one. -/
lemma drop (h : Covered managed used (fun _ => False) visible m)
    (hu : ∀ x, managed x → used' x → used x ∧ m s ≠ some x) :
    Covered managed used' (fun _ => False) visible (Function.update m s none) := by
  intro x hx hxu
  obtain ⟨hxu, hne⟩ := hu x hx hxu
  rcases h x hx hxu with hf | ⟨s', hs', hm⟩
  · exact hf.elim
  · refine .inr ⟨s', hs', ?_⟩
    rw [Function.update_of_ne]
    · exact hm
    · rintro rfl
      exact hne hm

end Covered

end Ownership
