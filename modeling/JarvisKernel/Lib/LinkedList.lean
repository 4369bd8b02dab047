import Mathlib.Algebra.Order.Ring.Nat
import Mathlib.Data.List.Nodup
import Mathlib.Data.List.Perm.Subperm
import Mathlib.Data.List.TakeWhile
import Mathlib.Logic.Function.Basic
import Mathlib.Tactic.Common

set_option relaxedAutoImplicit false
set_option autoImplicit false

/-!
# Intrusive linked lists

Linked lists threaded through a `next` field of their own nodes, over an arbitrary type of
node addresses. The null link is `none`. Nothing here depends on what a node holds besides its
link, so several lists may share one link field.

## Main definitions

* `LinkedList.IsList` — following the links from a head visits exactly the nodes of a list.
* `LinkedList.toList` — the nodes that are met on the way.
* `LinkedList.setLink`, `LinkedList.setHead` — `if (prev) prev->next = x; else *head = x;`.
* `LinkedList.IsBack` — the backward links of a doubly linked list.
* `LinkedList.walk` — the loop `while (current && !stop) { prev = current; current = next; }`.
* `LinkedList.insertByKey` — the list with a node put before the first key that is not smaller.

## Main results

* `LinkedList.IsList.nodup` — a list that ends has no repeated node, so it is acyclic.
* `LinkedList.walk_eq` — where the loop stops, for every list it is started on.
* `LinkedList.IsList.insert`, `LinkedList.IsList.remove` — linking a node in and out.
* `LinkedList.IsBack.remove`, `LinkedList.IsBack.push` — the same for the backward links.
* `LinkedList.IsList.congr` — the frame rule for links of other nodes.
* `LinkedList.ascending_insertByKey`, `LinkedList.sorted_insertByKey` — insertion keeps strictly
  ascending keys, and keys that may repeat.
-/

namespace LinkedList

variable {P : Type*}

/-! ## Lists reached through links -/

/-- Following `next` from `h` visits exactly the nodes of the list, in order, and then ends. -/
def IsList (next : P → Option P) : Option P → List P → Prop
  | h, [] => h = none
  | h, p :: l => h = some p ∧ IsList next (next p) l

section IsList

variable {next next' : P → Option P} {h h' : Option P} {l l₁ l₂ l₃ : List P} {p q : P}

/-- The empty list is at `NULL`. -/
@[simp] lemma isList_nil : IsList next h [] ↔ h = none := Iff.rfl

/-- A list is at its first node, and the rest at the next one. -/
@[simp] lemma isList_cons : IsList next h (p :: l) ↔ h = some p ∧ IsList next (next p) l := Iff.rfl

/-- The head link of a list is its first node. -/
lemma IsList.head_eq (hl : IsList next h l) : h = l.head? := by
  cases l with
  | nil => exact hl
  | cons p l => exact hl.1

/-- The nodes are determined by the head and the links. -/
lemma IsList.unique (hl : IsList next h l) (hl' : IsList next h l₂) : l = l₂ := by
  induction l generalizing h l₂ with
  | nil =>
    cases l₂ with
    | nil => rfl
    | cons q l₂ =>
      rw [isList_nil] at hl
      rw [hl, isList_cons] at hl'
      exact absurd hl'.1 (by simp)
  | cons p l ih =>
    cases l₂ with
    | nil =>
      rw [isList_nil] at hl'
      rw [hl', isList_cons] at hl
      exact absurd hl.1 (by simp)
    | cons q l₂ =>
      obtain ⟨hp, hl⟩ := hl
      obtain ⟨hq, hl'⟩ := hl'
      obtain rfl : p = q := by rw [hp] at hq; simpa using hq
      rw [ih hl hl']

/-- A suffix of a list is the list that starts at its first node. -/
lemma IsList.suffix (hl : IsList next h (l₁ ++ l₂)) : IsList next l₂.head? l₂ := by
  induction l₁ generalizing h with
  | nil =>
    rw [List.nil_append] at hl
    exact hl.head_eq ▸ hl
  | cons p l₁ ih => exact ih hl.2

/-- A list that ends repeats no node.

**Proof sketch.** If `p` came again in the list after `p`, the suffix after the second `p` and the
whole list after the first would both be the list that starts at `next p`, so they would be equal,
but the former is shorter. -/
lemma IsList.nodup (hl : IsList next h l) : l.Nodup := by
  induction l generalizing h with
  | nil => exact List.nodup_nil
  | cons p l ih =>
    refine List.nodup_cons.2 ⟨fun hp => ?_, ih hl.2⟩
    obtain ⟨l₁, l₂, rfl⟩ := List.append_of_mem hp
    have hs : IsList next (next p) l₂ := hl.2.suffix.2
    have hlen := congrArg List.length (hl.2.unique hs)
    simp at hlen
    omega

/-- Links of nodes outside a list do not matter to it. -/
lemma IsList.congr (hl : IsList next h l) (hn : ∀ r ∈ l, next' r = next r) :
    IsList next' h l := by
  induction l generalizing h with
  | nil => exact hl
  | cons p l ih =>
    refine ⟨hl.1, ?_⟩
    rw [hn p (by simp)]
    exact ih hl.2 fun r hr => hn r (by simp [hr])

/-- A list determines the links of its nodes. -/
lemma IsList.next_eq (hl : IsList next h l) (hl' : IsList next' h' l) {r : P} (hr : r ∈ l) :
    next' r = next r := by
  induction l generalizing h h' with
  | nil => exact absurd hr List.not_mem_nil
  | cons p l ih =>
    rcases List.mem_cons.1 hr with rfl | hr
    · rw [hl.2.head_eq, hl'.2.head_eq]
    · exact ih hl.2 hl'.2 hr

/-- Relinking after `q`: the part up to `q` stays, and the list that `q` now links to follows. -/
lemma IsList.splice (hl : IsList next h (l₁ ++ q :: l₂)) (hn : ∀ r ∈ l₁, next' r = next r)
    (hl₃ : IsList next' (next' q) l₃) : IsList next' h (l₁ ++ q :: l₃) := by
  induction l₁ generalizing h with
  | nil => exact ⟨hl.1, hl₃⟩
  | cons p l₁ ih =>
    refine ⟨hl.1, ?_⟩
    rw [hn p (by simp)]
    exact ih hl.2 fun r hr => hn r (by simp [hr])

/-- The nodes that are met in at most `fuel` steps. -/
def toList (next : P → Option P) : ℕ → Option P → List P
  | fuel + 1, some p => p :: toList next fuel (next p)
  | _, _ => []

/-- All nodes of a list are met. -/
lemma IsList.toList_eq {fuel : ℕ} (hl : IsList next h l) (hf : l.length ≤ fuel) :
    toList next fuel h = l := by
  induction l generalizing h fuel with
  | nil =>
    obtain rfl : h = none := hl
    cases fuel <;> rfl
  | cons p l ih =>
    obtain ⟨rfl, hl⟩ := hl
    rw [List.length_cons] at hf
    obtain ⟨k, rfl⟩ : ∃ k, fuel = k + 1 := ⟨fuel - 1, by omega⟩
    rw [toList, ih hl (by omega)]

end IsList

/-! ## Linking a node in and out -/

section Link

variable [DecidableEq P] {next nx : P → Option P} {h x : Option P} {l₁ l₂ l₃ : List P} {p : P}

/-- The links after `if (prev) prev->next = x`. -/
def setLink (next : P → Option P) (prev x : Option P) : P → Option P :=
  match prev with
  | some r => Function.update next r x
  | none => next

/-- The head after `if (!prev) *head = x`. -/
def setHead (h prev x : Option P) : Option P :=
  match prev with
  | some _ => h
  | none => x

omit [DecidableEq P] in
/-- The last node of a list without repetition is not among the others. -/
lemma ne_getLast_of_mem_dropLast {r s : P} {l : List P} (hl : l.Nodup) (hr : r ∈ l.dropLast)
    (hs : l.getLast? = some s) : r ≠ s := by
  obtain ⟨l₀, rfl⟩ := List.getLast?_eq_some_iff.1 hs
  rw [List.dropLast_concat] at hr
  rintro rfl
  exact (List.nodup_append.1 hl).2.2 r hr r (by simp) rfl

/-- Links of nodes other than `prev` stay. -/
lemma setLink_of_ne {prev : Option P} {r : P} (hr : prev ≠ some r) :
    setLink next prev x r = next r := by
  cases prev with
  | none => rfl
  | some s => exact Function.update_of_ne (fun e => hr (by rw [e])) _ _

omit [DecidableEq P] in
/-- If the last node of a prefix, or the head, is made to link to `x`, the prefix is followed by
the list that starts at `x`. -/
lemma IsList.relink (hl : IsList next h (l₁ ++ l₂)) (hn : ∀ r ∈ l₁.dropLast, nx r = next r)
    (hlast : ∀ r, l₁.getLast? = some r → nx r = x) (hx : IsList nx x l₃) :
    IsList nx (setHead h l₁.getLast? x) (l₁ ++ l₃) := by
  rcases List.eq_nil_or_concat l₁ with rfl | ⟨l₀, r, rfl⟩
  · exact hx
  · rw [List.concat_eq_append] at hl hn hlast ⊢
    rw [List.getLast?_concat] at hlast ⊢
    rw [List.dropLast_concat] at hn
    rw [List.append_assoc] at hl ⊢
    refine hl.splice hn ?_
    rw [hlast r rfl]
    exact hx

/-- Linking a new node in between the two parts of a list. -/
lemma IsList.insert (hl : IsList next h (l₁ ++ l₂)) (hp : p ∉ l₁ ++ l₂) :
    IsList (Function.update (setLink next l₁.getLast? (some p)) p l₂.head?)
      (setHead h l₁.getLast? (some p)) (l₁ ++ p :: l₂) := by
  obtain ⟨hp₁, hp₂⟩ : p ∉ l₁ ∧ p ∉ l₂ := by simpa using hp
  obtain ⟨hnd₁, -, hdisj⟩ := List.nodup_append.1 hl.nodup
  have hother : ∀ r, r ≠ p → l₁.getLast? ≠ some r →
      Function.update (setLink next l₁.getLast? (some p)) p l₂.head? r = next r := by
    intro r hr hlast
    rw [Function.update_of_ne hr, setLink_of_ne hlast]
  refine hl.relink (fun r hr => ?_) (fun r hr => ?_) ⟨rfl, ?_⟩
  · have hr₁ := List.dropLast_subset _ hr
    exact hother r (ne_of_mem_of_not_mem hr₁ hp₁)
      fun e => ne_getLast_of_mem_dropLast hnd₁ hr e rfl
  · have hr₁ := List.mem_of_getLast? hr
    rw [Function.update_of_ne (ne_of_mem_of_not_mem hr₁ hp₁), hr]
    exact Function.update_self _ _ _
  · rw [Function.update_self]
    refine hl.suffix.congr fun s hs => hother s (ne_of_mem_of_not_mem hs hp₂) fun e => ?_
    exact hdisj s (List.mem_of_getLast? e) s hs rfl

/-- Linking a node out of a list. -/
lemma IsList.remove (hl : IsList next h (l₁ ++ p :: l₂)) :
    IsList (Function.update (setLink next l₁.getLast? l₂.head?) p none)
      (setHead h l₁.getLast? l₂.head?) (l₁ ++ l₂) := by
  obtain ⟨hnd₁, hnd₂, hdisj⟩ := List.nodup_append.1 hl.nodup
  have hp₁ : p ∉ l₁ := fun hp => hdisj p hp p (by simp) rfl
  have hp₂ : p ∉ l₂ := (List.nodup_cons.1 hnd₂).1
  have hother : ∀ r, r ≠ p → l₁.getLast? ≠ some r →
      Function.update (setLink next l₁.getLast? l₂.head?) p none r = next r := by
    intro r hr hlast
    rw [Function.update_of_ne hr, setLink_of_ne hlast]
  refine hl.relink (fun r hr => ?_) (fun r hr => ?_) ?_
  · have hr₁ := List.dropLast_subset _ hr
    exact hother r (ne_of_mem_of_not_mem hr₁ hp₁)
      fun e => ne_getLast_of_mem_dropLast hnd₁ hr e rfl
  · have hr₁ := List.mem_of_getLast? hr
    rw [Function.update_of_ne (ne_of_mem_of_not_mem hr₁ hp₁), hr]
    exact Function.update_self _ _ _
  · have hsuf : IsList next l₂.head? l₂ := by
      rw [show l₁ ++ p :: l₂ = (l₁ ++ [p]) ++ l₂ by simp] at hl
      exact hl.suffix
    refine hsuf.congr fun s hs => hother s (ne_of_mem_of_not_mem hs hp₂) fun e => ?_
    exact hdisj s (List.mem_of_getLast? e) s (by simp [hs]) rfl

end Link

/-! ## Backward links -/

/-- The backward links of the nodes of a list, of which the first links to `b`. -/
def IsBack (prev : P → Option P) : Option P → List P → Prop
  | _, [] => True
  | b, p :: l => prev p = b ∧ IsBack prev (some p) l

section Back

variable {prev pv : P → Option P} {b : Option P} {l l₁ l₂ : List P} {p : P}

/-- The back links depend on those of the nodes only. -/
lemma IsBack.congr (hl : IsBack prev b l) (hp : ∀ r ∈ l, pv r = prev r) : IsBack pv b l := by
  induction l generalizing b with
  | nil => trivial
  | cons q l ih =>
    refine ⟨(hp q (by simp)).trans hl.1, ih hl.2 fun r hr => hp r (by simp [hr])⟩

/-- The back links of two lists that are joined. -/
lemma isBack_append :
    IsBack prev b (l₁ ++ l₂) ↔ IsBack prev b l₁ ∧ IsBack prev (l₁.getLast?.or b) l₂ := by
  induction l₁ generalizing b with
  | nil => simp [IsBack]
  | cons q l₁ ih =>
    have hlast : (q :: l₁).getLast?.or b = l₁.getLast?.or (some q) := by
      rw [List.getLast?_cons]
      cases l₁.getLast? <;> rfl
    rw [List.cons_append, IsBack, IsBack, ih, hlast, and_assoc]

/-- The backward link of a node leads to the node before it. -/
lemma IsBack.eq_getLast (hl : IsBack prev none (l₁ ++ p :: l₂)) : prev p = l₁.getLast? := by
  obtain ⟨-, hp, -⟩ := isBack_append.1 hl
  rw [hp, Option.or_none]

variable [DecidableEq P]

/-- Linking a node out of a list. -/
lemma IsBack.remove (hl : IsBack prev none (l₁ ++ p :: l₂)) (hnd : (l₁ ++ p :: l₂).Nodup) :
    IsBack (setLink prev l₂.head? l₁.getLast?) none (l₁ ++ l₂) := by
  obtain ⟨h₁, -, h₂⟩ := isBack_append.1 hl
  obtain ⟨-, hnd₂, hdisj⟩ := List.nodup_append.1 hnd
  refine isBack_append.2 ⟨h₁.congr fun r hr => setLink_of_ne fun e => ?_, ?_⟩
  · exact hdisj r hr r (by simp [List.mem_of_head? e]) rfl
  · cases l₂ with
    | nil => trivial
    | cons q l₂ =>
      refine ⟨?_, h₂.2.congr fun r hr => setLink_of_ne fun e => ?_⟩
      · rw [Option.or_none]
        exact Function.update_self _ _ _
      · obtain rfl : q = r := by simpa using e
        exact (List.nodup_cons.1 (List.nodup_cons.1 hnd₂).2).1 hr

/-- Linking a new node in at the head. -/
lemma IsBack.push (hl : IsBack prev none l) (hnd : l.Nodup) (hp : p ∉ l) :
    IsBack (Function.update (setLink prev l.head? (some p)) p none) none (p :: l) := by
  refine ⟨Function.update_self _ _ _, ?_⟩
  cases l with
  | nil => trivial
  | cons q l =>
    have hne : ∀ r ∈ q :: l, r ≠ p := fun r hr => ne_of_mem_of_not_mem hr hp
    refine ⟨?_, hl.2.congr fun r hr => ?_⟩
    · rw [Function.update_of_ne (hne q (by simp))]
      exact Function.update_self _ _ _
    · rw [Function.update_of_ne (hne r (by simp [hr]))]
      refine setLink_of_ne fun e => ?_
      obtain rfl : q = r := by simpa using e
      exact (List.nodup_cons.1 hnd).1 hr

end Back

/-! ## The walking loop -/

/-- The loop `while (current && !stop(current)) { prev = current; current = current->next; }`,
run for at most `fuel` iterations; `none` when it has not ended by then. -/
def walk (next : P → Option P) (stop : P → Bool) :
    ℕ → Option P → Option P → Option (Option P × Option P)
  | 0, _, _ => none
  | _ + 1, prev, none => some (prev, none)
  | fuel + 1, prev, some p =>
    if stop p then some (prev, some p) else walk next stop fuel (some p) (next p)

/-- On a list the loop ends at the first node where `stop` holds, with the node before it. -/
lemma walk_eq (next : P → Option P) (stop : P → Bool) (prev : Option P) {l : List P} {fuel : ℕ}
    {cur : Option P} (hl : IsList next cur l) (hf : l.length < fuel) :
    walk next stop fuel prev cur =
      some ((l.takeWhile (!stop ·)).getLast?.or prev, (l.dropWhile (!stop ·)).head?) := by
  induction l generalizing fuel prev cur with
  | nil =>
    obtain ⟨fuel, rfl⟩ : ∃ k, fuel = k + 1 := ⟨fuel - 1, by simp at hf; omega⟩
    rw [isList_nil] at hl
    subst hl
    simp [walk]
  | cons p l ih =>
    obtain ⟨fuel, rfl⟩ : ∃ k, fuel = k + 1 := ⟨fuel - 1, by simp at hf; omega⟩
    obtain ⟨rfl, hl⟩ := hl
    simp only [walk]
    by_cases hp : stop p
    · simp [hp]
    · rw [if_neg hp, ih (some p) hl (by simp at hf; omega)]
      simp only [hp, List.takeWhile_cons, List.dropWhile_cons, Bool.not_false, if_true]
      cases htw : l.takeWhile (!stop ·) with
      | nil => simp
      | cons r t =>
        rw [List.getLast?_cons_cons, List.getLast?_eq_some_getLast (List.cons_ne_nil r t)]
        rfl

/-! ## Lists kept in ascending order of a key -/

section Key

variable (key : P → ℕ)

/-- The keys of the list are strictly ascending. -/
def Ascending (l : List P) : Prop := l.Pairwise fun a b => key a < key b

/-- The list with `p` put before the first node whose key is not below that of `p`. -/
def insertByKey (p : P) (l : List P) : List P :=
  l.takeWhile (fun r => decide (key r < key p)) ++
    p :: l.dropWhile (fun r => decide (key r < key p))

variable {key}

/-- Insertion adds exactly the inserted node. -/
@[simp] lemma mem_insertByKey {p r : P} {l : List P} :
    r ∈ insertByKey key p l ↔ r = p ∨ r ∈ l := by
  conv_rhs => rw [← List.takeWhile_append_dropWhile (p := fun r => decide (key r < key p)) (l := l)]
  simp only [insertByKey, List.mem_append, List.mem_cons]
  tauto

/-- Insertion adds the node once, and keeps the others. -/
lemma insertByKey_perm (p : P) (l : List P) : (insertByKey key p l).Perm (p :: l) := by
  refine List.perm_middle.trans (List.Perm.cons p ?_)
  rw [List.takeWhile_append_dropWhile]

/-- Taking an inserted node out again. -/
lemma erase_insertByKey [DecidableEq P] {p : P} {l : List P} (hp : p ∉ l) :
    (insertByKey key p l).erase p = l := by
  have hnot : p ∉ l.takeWhile fun r => decide (key r < key p) := fun h =>
    hp ((List.takeWhile_sublist _).subset h)
  rw [insertByKey, List.erase_append_right _ hnot, List.erase_cons_head, List.takeWhile_append_dropWhile]

/-- Past the insertion point of an ascending list no key is below the inserted one. -/
lemma le_of_mem_dropWhile {p r : P} {l : List P} (hl : l.Pairwise fun a b => key a ≤ key b)
    (hr : r ∈ l.dropWhile fun r => decide (key r < key p)) : key p ≤ key r := by
  induction l with
  | nil => simp at hr
  | cons q l ih =>
    rw [List.dropWhile_cons] at hr
    split at hr
    · exact ih (List.pairwise_cons.1 hl).2 hr
    · rename_i hq
      have hq : key p ≤ key q := by simpa using hq
      rcases List.mem_cons.1 hr with rfl | hr
      · exact hq
      · exact hq.trans ((List.pairwise_cons.1 hl).1 r hr)

/-- Insertion keeps ascending keys, which may repeat. -/
lemma sorted_insertByKey {p : P} {l : List P} (hl : l.Pairwise fun a b => key a ≤ key b) :
    (insertByKey key p l).Pairwise fun a b => key a ≤ key b := by
  have hsplit : (l.takeWhile (fun r => decide (key r < key p)) ++
      l.dropWhile (fun r => decide (key r < key p))).Pairwise fun a b => key a ≤ key b := by
    rwa [List.takeWhile_append_dropWhile]
  obtain ⟨ht, hd, htd⟩ := List.pairwise_append.1 hsplit
  have hle : ∀ a ∈ l.takeWhile (fun r => decide (key r < key p)), key a ≤ key p := by
    intro a ha
    have hlt : key a < key p := by simpa using List.mem_takeWhile_imp ha
    exact hlt.le
  refine List.pairwise_append.2
    ⟨ht, List.pairwise_cons.2 ⟨fun b hb => le_of_mem_dropWhile hl hb, hd⟩, fun a ha b hb => ?_⟩
  rcases List.mem_cons.1 hb with rfl | hb
  · exact hle a ha
  · exact htd a ha b hb

/-- Insertion of a new key keeps the keys strictly ascending. -/
lemma ascending_insertByKey {p : P} {l : List P} (hl : Ascending key l)
    (hp : ∀ r ∈ l, key r ≠ key p) : Ascending key (insertByKey key p l) := by
  have hsplit : Ascending key (l.takeWhile (fun r => decide (key r < key p)) ++
      l.dropWhile (fun r => decide (key r < key p))) := by
    rwa [List.takeWhile_append_dropWhile]
  obtain ⟨ht, hd, htd⟩ := List.pairwise_append.1 hsplit
  have hlt : ∀ a ∈ l.takeWhile (fun r => decide (key r < key p)), key a < key p := by
    intro a ha
    simpa using List.mem_takeWhile_imp ha
  have hgt : ∀ b ∈ l.dropWhile (fun r => decide (key r < key p)), key p < key b := by
    intro b hb
    have hne := hp b ((List.dropWhile_sublist _).subset hb)
    have hle := le_of_mem_dropWhile (hl.imp Nat.le_of_lt) hb
    omega
  refine List.pairwise_append.2 ⟨ht, List.pairwise_cons.2 ⟨hgt, hd⟩, fun a ha b hb => ?_⟩
  rcases List.mem_cons.1 hb with rfl | hb
  · exact hlt a ha
  · exact htd a ha b hb

/-- Strictly ascending keys below a bound are at most as many as the bound. -/
lemma Ascending.length_le {l : List P} {n : ℕ} (hl : Ascending key l) (hn : ∀ r ∈ l, key r < n) :
    l.length ≤ n := by
  have hnd : (l.map key).Nodup :=
    (List.pairwise_map.2 hl).imp fun h => Nat.ne_of_lt h
  have hsub : l.map key ⊆ List.range n := by
    intro k hk
    obtain ⟨r, hr, rfl⟩ := List.mem_map.1 hk
    exact List.mem_range.2 (hn r hr)
  simpa using (List.subperm_of_subset hnd hsub).length_le

end Key

end LinkedList
