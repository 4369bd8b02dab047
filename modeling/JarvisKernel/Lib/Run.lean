import Mathlib.Algebra.Order.Ring.Nat
import Mathlib.Data.List.Induction
import Mathlib.Tactic.Common

set_option relaxedAutoImplicit false
set_option autoImplicit false

/-!
# Runs of a component with a call interface

A component whose calls may fail to return is a partial step function on its states. A run is a
list of calls; a rule for callers (which calls are allowed in which state) is a predicate on states
and calls. The induction over runs is done here once: what every allowed call preserves holds
after every run of allowed calls, and every such run returns.

## Main definitions

* `Run.exec` — the state after a list of calls, `none` if one of them does not return.
* `Run.Follows` — every call of the list is allowed in the state in which it is made.
* `Run.Traces` — a run of an abstract machine, whose calls are relations.
* `Run.answers` — the state after a list of calls with results, and their results.

## Main results

* `Run.exec_of_step`, `Run.exec_of_step_history`, `Run.inv_of_exec` — the invariant rules.
* `Run.follows_iff` — a rule is followed if it is followed at every point of the run.
* `Run.forall_prefix_iff` — the rule for conditions that are exact.
* `Run.traces_of_step` — forward simulation: a run is one of the abstract machine.
* `Run.answers_of_step` — two machines that give the same results.
-/

namespace Run

variable {S C : Type*} (step : S → C → Option S) (ok ok' : S → C → Prop)

/-- The state after a list of calls; `none` if one of them does not return. -/
def exec : S → List C → Option S
  | s, [] => some s
  | s, c :: cs => (step s c).bind fun s' => exec s' cs

/-- Every call of the list is allowed in the state in which it is made. -/
def Follows : S → List C → Prop
  | _, [] => True
  | s, c :: cs => ok s c ∧ ∀ s', step s c = some s' → Follows s' cs

variable {step ok ok'}

/-- Whether a rule is followed can be tested by making the calls. -/
instance decidableFollows [∀ s c, Decidable (ok s c)] :
    (s : S) → (cs : List C) → Decidable (Follows step ok s cs)
  | _, [] => .isTrue trivial
  | s, c :: cs =>
    match hs : step s c with
    | none => decidable_of_iff (ok s c) (by simp [Follows, hs])
    | some s' =>
      have := decidableFollows s' cs
      decidable_of_iff (ok s c ∧ Follows step ok s' cs) (by simp [Follows, hs])

/-- A run in two parts. -/
lemma exec_append {s : S} {cs cs' : List C} :
    exec step s (cs ++ cs') = (exec step s cs).bind fun s' => exec step s' cs' := by
  induction cs generalizing s with
  | nil => rfl
  | cons c cs ih =>
    show (step s c).bind (fun s' => exec step s' (cs ++ cs')) = _
    rw [exec, Option.bind_assoc]
    congr 1
    funext s'
    exact ih

/-- A run and one more call. -/
lemma exec_concat {s s' : S} {cs : List C} {c : C} (h : exec step s cs = some s') :
    exec step s (cs ++ [c]) = step s' c := by
  rw [exec_append, h, Option.bind_some]
  show (step s' c).bind some = _
  cases step s' c <;> rfl

/-- A rule is followed if every call is allowed in the state that the calls before it lead to. -/
lemma follows_iff {s : S} {cs : List C} :
    Follows step ok s cs ↔
      ∀ ds d s', ds ++ [d] <+: cs → exec step s ds = some s' → ok s' d := by
  induction cs generalizing s with
  | nil =>
    refine ⟨fun _ ds d s' hds _ => ?_, fun _ => trivial⟩
    exact absurd (List.prefix_nil.1 hds) (by simp)
  | cons c cs ih =>
    constructor
    · rintro ⟨hc, hcs⟩ ds d s' hds hexec
      cases ds with
      | nil =>
        obtain ⟨rfl, -⟩ := List.cons_prefix_cons.1 hds
        obtain rfl := Option.some.inj hexec
        exact hc
      | cons b ds =>
        obtain ⟨rfl, hds'⟩ := List.cons_prefix_cons.1 hds
        obtain ⟨s₁, hs₁, hexec⟩ := Option.bind_eq_some_iff.1 hexec
        exact ih.1 (hcs s₁ hs₁) ds d s' hds' hexec
    · intro h
      refine ⟨h [] c s (by simp) rfl, fun s₁ hs₁ => ih.2 fun ds d s' hds hexec => ?_⟩
      refine h (c :: ds) d s' (by simpa using hds) ?_
      rw [exec, hs₁]
      exact hexec

/-- Calls that are allowed in every state. -/
lemma follows_of_forall {s : S} {cs : List C} (h : ∀ c ∈ cs, ∀ s, ok s c) : Follows step ok s cs := by
  induction cs generalizing s with
  | nil => trivial
  | cons c cs ih =>
    exact ⟨h c (by simp) s, fun s' _ => ih fun b hb => h b (List.mem_cons_of_mem c hb)⟩

/-- A rule for a run in two parts. -/
lemma follows_append {s : S} {cs cs' : List C} :
    Follows step ok s (cs ++ cs') ↔
      Follows step ok s cs ∧ ∀ s', exec step s cs = some s' → Follows step ok s' cs' := by
  induction cs generalizing s with
  | nil =>
    refine ⟨fun h => ⟨trivial, fun s' hs' => Option.some.inj hs' ▸ h⟩, fun h => h.2 s rfl⟩
  | cons c cs ih =>
    constructor
    · rintro ⟨hc, hcs⟩
      refine ⟨⟨hc, fun s₁ hs₁ => (ih.1 (hcs s₁ hs₁)).1⟩, fun s' hexec => ?_⟩
      obtain ⟨s₁, hs₁, hexec⟩ := Option.bind_eq_some_iff.1 hexec
      exact (ih.1 (hcs s₁ hs₁)).2 s' hexec
    · rintro ⟨⟨hc, hcs⟩, hrest⟩
      refine ⟨hc, fun s₁ hs₁ => ih.2 ⟨hcs s₁ hs₁, fun s' hexec => hrest s' ?_⟩⟩
      rw [exec, hs₁]
      exact hexec

/-- The first part of a run follows the rule that the run follows. -/
lemma Follows.of_isPrefix {s : S} {cs ds : List C} (h : Follows step ok s cs) (hds : ds <+: cs) :
    Follows step ok s ds :=
  follows_iff.2 fun bs b s' hbs hexec => follows_iff.1 h bs b s' (hbs.trans hds) hexec

/-- Two rules that are followed are followed together. -/
lemma Follows.and {s : S} {cs : List C} (h : Follows step ok s cs) (h' : Follows step ok' s cs) :
    Follows step (fun s c => ok s c ∧ ok' s c) s cs := by
  induction cs generalizing s with
  | nil => trivial
  | cons c cs ih => exact ⟨⟨h.1, h'.1⟩, fun s' hs' => ih (h.2 s' hs') (h'.2 s' hs')⟩

/-- The invariant rule: if every allowed call returns and keeps `I`, every run of allowed calls
returns and keeps `I`. -/
lemma exec_of_step {I : S → Prop}
    (hstep : ∀ s c, I s → ok s c → ∃ s', step s c = some s' ∧ I s') {s : S} {cs : List C}
    (hs : I s) (h : Follows step ok s cs) : ∃ s', exec step s cs = some s' ∧ I s' := by
  induction cs generalizing s with
  | nil => exact ⟨s, rfl, hs⟩
  | cons c cs ih =>
    obtain ⟨s₁, hc, h₁⟩ := hstep s c hs h.1
    obtain ⟨s₂, hcs, h₂⟩ := ih h₁ (h.2 s₁ hc)
    refine ⟨s₂, ?_, h₂⟩
    rw [exec, hc]
    exact hcs

/-- **The invariant rule with a history**: an invariant may also mention the calls that were made. -/
lemma exec_of_step_history {I : List C → S → Prop}
    (hstep : ∀ ds s c, I ds s → ok s c → ∃ s', step s c = some s' ∧ I (ds ++ [c]) s') {s : S} {cs : List C}
    (hs : I [] s) (h : Follows step ok s cs) : ∃ s', exec step s cs = some s' ∧ I cs s' := by
  induction cs using List.reverseRecOn with
  | nil => exact ⟨s, rfl, hs⟩
  | append_singleton cs c ih =>
    obtain ⟨hcs, hc⟩ := follows_append.1 h
    obtain ⟨s₁, hexec, h₁⟩ := ih hcs
    obtain ⟨s₂, hstep₂, h₂⟩ := hstep cs s₁ c h₁ (hc s₁ hexec).1
    exact ⟨s₂, (exec_concat hexec).trans hstep₂, h₂⟩

/-- The invariant rule for calls that need not return: what every allowed call keeps if it returns, holds
in every state that a run of allowed calls reaches. -/
lemma inv_of_exec {I : S → Prop}
    (hstep : ∀ s c s', I s → ok s c → step s c = some s' → I s') {s s' : S} {cs : List C}
    (hs : I s) (h : Follows step ok s cs) (hexec : exec step s cs = some s') : I s' := by
  induction cs generalizing s with
  | nil => exact Option.some.inj hexec ▸ hs
  | cons c cs ih =>
    obtain ⟨s₁, hc, hcs⟩ := Option.bind_eq_some_iff.1 hexec
    exact ih (hstep s c s₁ hs h.1 hc) (h.2 s₁ hc) hcs

/-- **The rule for exact conditions**: if allowed calls keep `I`, which has `P` as a consequence, and calls
that are not allowed break `P`, then `P` holds all the time exactly in the runs of allowed calls. -/
lemma forall_prefix_iff {I P : S → Prop} (hI : ∀ s, I s → P s)
    (hstep : ∀ s c, I s → ∃ s', step s c = some s' ∧ (ok s c → I s') ∧ (¬ ok s c → ¬ P s')) {s : S}
    {cs : List C} (hs : I s) :
    (∀ ds s', ds <+: cs → exec step s ds = some s' → P s') ↔ Follows step ok s cs := by
  induction cs generalizing s with
  | nil =>
    refine iff_of_true (fun ds s' hds hexec => ?_) trivial
    rw [List.prefix_nil.1 hds] at hexec
    exact Option.some.inj hexec ▸ hI s hs
  | cons c cs ih =>
    obtain ⟨s₁, hc, hkeep, hbreak⟩ := hstep s c hs
    have hexec : ∀ ds, exec step s (c :: ds) = exec step s₁ ds := fun ds => by
      rw [exec, hc]
      rfl
    constructor
    · intro h
      have hok : ok s c := by
        by_contra hnot
        refine hbreak hnot (h [c] s₁ ⟨cs, rfl⟩ ?_)
        rw [hexec]
        rfl
      refine ⟨hok, fun s' hs' => ?_⟩
      obtain rfl : s₁ = s' := Option.some.inj (hc.symm.trans hs')
      refine (ih (hkeep hok)).1 fun ds s' hds hrun => h (c :: ds) s' ?_ ((hexec ds).trans hrun)
      exact List.cons_prefix_cons.2 ⟨rfl, hds⟩
    · rintro ⟨hok, hcs⟩ ds s' hds hrun
      cases ds with
      | nil => exact Option.some.inj hrun ▸ hI s hs
      | cons d ds =>
        obtain ⟨rfl, hrest⟩ := List.cons_prefix_cons.1 hds
        rw [hexec] at hrun
        exact (ih (hkeep hok)).2 (hcs s₁ hc) ds s' hrest hrun

/-! ## Refinement -/

variable {A : Type*}

/-- A run of an abstract machine, in which a call relates the state before it to the state after it. -/
def Traces (R : C → A → A → Prop) : A → List C → A → Prop
  | a, [], b => b = a
  | a, c :: cs, b => ∃ a', R c a a' ∧ Traces R a' cs b

/-- What the calls of an abstract run keep. -/
lemma Traces.keeps {R : C → A → A → Prop} {P : A → Prop} {a b : A} {cs : List C} (h : Traces R a cs b)
    (hkeep : ∀ c ∈ cs, ∀ a a', R c a a' → P a → P a') (ha : P a) : P b := by
  induction cs generalizing a with
  | nil =>
    obtain rfl : b = a := h
    exact ha
  | cons c cs ih =>
    obtain ⟨a', hc, hcs⟩ := h
    exact ih hcs (fun d hd => hkeep d (List.mem_cons_of_mem c hd)) (hkeep c List.mem_cons_self a a' hc ha)

/-- **Forward simulation**: if every allowed call returns, keeps `I`, and is a call of the abstract machine on
what the states mean, then every run of allowed calls is a run of the abstract machine. -/
lemma traces_of_step {I : S → Prop} {R : C → A → A → Prop} (abs : S → A)
    (hstep : ∀ s c, I s → ok s c → ∃ s', step s c = some s' ∧ I s' ∧ R c (abs s) (abs s')) {s : S}
    {cs : List C} (hs : I s) (h : Follows step ok s cs) :
    ∃ s', exec step s cs = some s' ∧ I s' ∧ Traces R (abs s) cs (abs s') := by
  induction cs generalizing s with
  | nil => exact ⟨s, rfl, hs, rfl⟩
  | cons c cs ih =>
    obtain ⟨s₁, hc, h₁, hR⟩ := hstep s c hs h.1
    obtain ⟨s₂, hcs, h₂, htr⟩ := ih h₁ (h.2 s₁ hc)
    refine ⟨s₂, ?_, h₂, abs s₁, hR, htr⟩
    rw [exec, hc]
    exact hcs

/-! ## Results -/

variable {B : Type*}

/-- The state after a list of calls, and their results; `none` if one of them does not return. -/
def answers (step : S → C → Option (S × B)) : S → List C → Option (S × List B)
  | s, [] => some (s, [])
  | s, c :: cs => (step s c).bind fun r => (answers step r.1 cs).map fun q => (q.1, r.2 :: q.2)

/-- Two calls that both do not return, or return with the same result in related states. -/
def Alike {X : Type*} (R : S → A → Prop) : Option (S × X) → Option (A × X) → Prop :=
  Option.Rel fun p q => R p.1 q.1 ∧ p.2 = q.2

namespace Alike

variable {X Y : Type*} {R : S → A → Prop}

/-- Results with related states and the same output. -/
lemma some {s : S} {a : A} {x : X} (h : R s a) : Alike R (some (s, x)) (some (a, x)) :=
  Option.Rel.some ⟨h, rfl⟩

/-- Two failures. -/
lemma none : Alike (X := X) R none none := Option.Rel.none

/-- What a call does that is like one that returns. -/
lemma exists_of_some {s : S} {x : X} {o' : Option (A × X)} (h : Alike R (Option.some (s, x)) o') :
    ∃ a, o' = Option.some (a, x) ∧ R s a := by
  cases h with
  | @some p q hpq =>
    obtain ⟨a, y⟩ := q
    obtain ⟨hR, rfl⟩ : R s a ∧ x = y := hpq
    exact ⟨a, rfl, hR⟩

/-- Calls that are alike, and what follows them. -/
lemma bind {o : Option (S × X)} {o' : Option (A × X)} {f : S × X → Option (S × Y)}
    {g : A × X → Option (A × Y)} (h : Alike R o o') (hf : ∀ s a x, R s a → Alike R (f (s, x)) (g (a, x))) :
    Alike R (o.bind f) (o'.bind g) := by
  cases h with
  | none => exact none
  | @some p q hpq =>
    obtain ⟨s, x⟩ := p
    obtain ⟨a, y⟩ := q
    obtain ⟨hR, rfl⟩ : R s a ∧ x = y := hpq
    exact hf s a x hR

/-- Results that are computed from the results. -/
lemma map {o : Option (S × X)} {o' : Option (A × X)} (h : Alike R o o') (f : X → Y) :
    Alike R (o.map fun r => (r.1, f r.2)) (o'.map fun r => (r.1, f r.2)) := by
  rw [Option.map_eq_bind, Option.map_eq_bind]
  exact h.bind fun s a x hR => some hR

end Alike

/-- **Two machines give the same results** in every run, if each call in related states does and leads to
related states. -/
lemma answers_of_step {step : S → C → Option (S × B)} {step' : A → C → Option (A × B)} {R : S → A → Prop}
    (hstep : ∀ s a c, R s a → Alike R (step s c) (step' a c)) {s : S} {a : A} (h : R s a) (cs : List C) :
    Alike R (answers step s cs) (answers step' a cs) := by
  induction cs generalizing s a with
  | nil => exact .some h
  | cons c cs ih => exact (hstep s a c h).bind fun s a x h => (ih h).map (x :: ·)

end Run
