import Mathlib.Data.List.MinMax
import JarvisKernel.Lib.BestMatch
import JarvisKernel.Malloc.Runs

set_option relaxedAutoImplicit false
set_option autoImplicit false

/-!
# Large requests

The large branch of `allocate_from_size_class`, for any large list. The manager is an object of its own: its
memory is no part of the heap. So no chunk is so large that the test for a split wraps around.

## Main definitions

* `Jarvis.MemoryManager.HeapAt` — the memory of the heap.
* `Jarvis.MemoryManager.FreeList` — a large list as it is between calls.
* `Jarvis.MemoryManager.TakesChunk` — what is wanted of a request that is served.

## Main results

* `Jarvis.MemoryManager.findBestFit_eq` — the best fit is the first of the smallest chunks that fit.
* `Jarvis.MemoryManager.allocateFromSizeClass_takesChunk` — every large list and every large request.
-/

namespace Jarvis

open LinkedList

namespace MemoryManager

variable {m m' : MemoryManager} {r : Extent} {cur best : Option ℕ} {l l₁ l₂ : List ℕ} {b fuel size p : ℕ}

/-! ## The best fit -/

/-- The chunks of a list that are free and large enough. -/
def fitting (m : MemoryManager) (size : ℕ) (l : List ℕ) : List ℕ :=
  l.filter fun a => !(m.mem a).allocated && decide (size ≤ (m.mem a).size)

/-- The first chunk fits or it does not. -/
lemma fitting_cons (m : MemoryManager) (size a : ℕ) (l : List ℕ) :
    m.fitting size (a :: l) =
      if (!(m.mem a).allocated && decide (size ≤ (m.mem a).size)) = true then a :: m.fitting size l
      else m.fitting size l := List.filter_cons

/-- The best fit loop keeps the first of the smallest chunks that are free and large enough. -/
lemma findBestFit_eq (size : ℕ) (hl : IsList m.next cur l) (hfuel : l.length < fuel) :
    m.findBestFit size fuel best cur =
      some ((m.fitting size l).foldl
        (List.argAux fun b c => (m.mem b).size < (m.mem c).size) best) := by
  induction fuel generalizing cur best l with
  | zero => omega
  | succ fuel ih =>
    cases l with
    | nil =>
      obtain rfl : cur = none := hl
      rfl
    | cons a l =>
      obtain ⟨rfl, hl⟩ := hl
      rw [List.length_cons] at hfuel
      have hrest : ∀ best, m.findBestFit size fuel best (m.next a) =
          some ((m.fitting size l).foldl
            (List.argAux fun b c => (m.mem b).size < (m.mem c).size) best) :=
        fun best => ih hl (by omega)
      simp only [findBestFit]
      have hnext : (m.mem a).next = m.next a := rfl
      rw [hnext, hrest, fitting_cons]
      cases hfit : !(m.mem a).allocated && decide (size ≤ (m.mem a).size) with
      | false => rfl
      | true =>
        rw [if_pos rfl, List.foldl_cons]
        congr 2
        cases best with
        | none => rfl
        | some c => simp [List.argAux]

/-- If the best fit loop ends, the list does. -/
lemma exists_isList_of_findBestFit {o : Option ℕ} (h : m.findBestFit size fuel best cur = some o) :
    ∃ l, IsList m.next cur l ∧ l.length < fuel := by
  induction fuel generalizing cur best with
  | zero => simp [findBestFit] at h
  | succ fuel ih =>
    cases cur with
    | none => exact ⟨[], rfl, Nat.succ_pos fuel⟩
    | some a =>
      obtain ⟨l, hl, hlen⟩ := ih h
      exact ⟨a :: l, ⟨rfl, hl⟩, Nat.succ_lt_succ hlen⟩

/-- `b` is the chunk that `malloc` takes for a large request. -/
def IsBestFit (m : MemoryManager) (size b : ℕ) : Prop :=
  ∃ l, IsList m.next m.first l ∧ l.length < listFuel ∧
    b ∈ (m.fitting size l).argmin fun a => (m.mem a).size

/-- What `malloc` returns for a large request lies behind the header of the best fit. -/
lemma allocateLarge_iff :
    (∃ m', m.allocateLarge size = some (m', p)) ∧ p ≠ 0 ↔
      ∃ b, m.IsBestFit size b ∧ p = Word32.add b chunkHeader ∧ p ≠ 0 := by
  constructor
  · rintro ⟨⟨m', hcode⟩, hp⟩
    obtain ⟨o, hfind, hrest⟩ := Option.bind_eq_some_iff.1 hcode
    obtain ⟨l, hl, hlen⟩ := exists_isList_of_findBestFit hfind
    rw [findBestFit_eq size hl hlen] at hfind
    cases o with
    | none =>
      obtain ⟨-, rfl⟩ := Prod.mk.inj (Option.some.inj hrest)
      exact absurd rfl hp
    | some b =>
      obtain ⟨-, rfl⟩ := Prod.mk.inj (Option.some.inj hrest)
      exact ⟨b, ⟨l, hl, hlen, Option.some.inj hfind⟩, rfl, hp⟩
  · rintro ⟨b, ⟨l, hl, hlen, hb⟩, rfl, hp⟩
    have hfind : m.findBestFit size listFuel none m.first = some (some b) := by
      rw [findBestFit_eq size hl hlen]
      exact congrArg some hb
    refine ⟨?_, hp⟩
    simp only [allocateLarge, hfind, Option.bind_eq_bind, Option.bind_some]
    exact ⟨_, rfl⟩

/-! ## Large lists -/

/-- `sizeof(MemoryManager)`. -/
def managerSize : ℕ := 64

/-- The heap has the memory `r`, which does not wrap. The manager is at address `manager`, apart from it. -/
structure HeapAt (r : Extent) (manager : ℕ) : Prop where
  range : r.base + r.len ≤ 2 ^ 32
  manager_le : manager + managerSize ≤ 2 ^ 32
  apart : Extent.Apart r ⟨manager, managerSize⟩

/-- The chunks of the large list are doubly linked and free, and lie side by side in the heap. -/
structure FreeList (m : MemoryManager) (r : Extent) (large : List ℕ) : Prop where
  links : IsList m.next m.first large
  back : IsBack m.prev none large
  free : ∀ a ∈ large, (m.mem a).allocated = false
  packed : Extent.Packed r (large.map m.extent)

/-- The chunk `b` between `l₁` and `l₂` is large enough, and none that is is smaller. Those before it are
greater. -/
structure FirstBest (m : MemoryManager) (size b : ℕ) (l₁ l₂ : List ℕ) : Prop where
  fits : size ≤ (m.mem b).size
  before : ∀ a ∈ l₁, size ≤ (m.mem a).size → (m.mem b).size < (m.mem a).size
  behind : ∀ a ∈ l₂, size ≤ (m.mem a).size → (m.mem b).size ≤ (m.mem a).size

/-- What is wanted of a request that is served: of the list `l₁ ++ b :: l₂`, the block is the first chunk of
least sufficient size. The new list is the old one without it, behind the remainder `rest` of one chunk at
most, which follows the block in memory. The block, the remainder and the other chunks lie side by side.
Besides these nothing changes. -/
structure TakesChunk (m m' : MemoryManager) (r : Extent) (size p b : ℕ) (l₁ l₂ rest : List ℕ) : Prop where
  best : m.FirstBest size b l₁ l₂
  payload : p = b + chunkHeader
  block : (m'.mem b).allocated = true ∧ size ≤ (m'.mem b).size
  list : m'.FreeList r (rest ++ (l₁ ++ l₂))
  packed : Extent.Packed r ((b :: (rest ++ (l₁ ++ l₂))).map m'.extent)
  rest_eq : rest = [] ∨ rest = [b + chunkHeader + (m'.mem b).size]
  bytes : (m.extent b).len = (m'.extent b).len + (rest.map fun t => (m'.extent t).len).sum
  freeLists : m'.freeLists = m.freeLists
  sizes : ∀ c ∈ l₁ ++ l₂, (m'.mem c).size = (m.mem c).size
  same : ∀ c, c ∉ l₁ ++ b :: l₂ → c ∉ rest → m'.mem c = m.mem c

variable {manager : ℕ} {large rest : List ℕ}

/-- The memory of a chunk is in the heap. -/
lemma FreeList.within (h : m.FreeList r l) {a : ℕ} (ha : a ∈ l) :
    r.base ≤ a ∧ a + (chunkHeader + (m.mem a).size) ≤ r.base + r.len :=
  h.packed.within (m.extent a) (List.mem_map_of_mem ha)

/-- The free list is shorter than the fuel of a walk. -/
lemma FreeList.length_lt (h : m.FreeList r l) (hheap : HeapAt r manager) : l.length < listFuel := by
  refine length_lt_listFuel h.links.nodup fun a ha => ?_
  have hend := (h.within ha).2
  have hrange := hheap.range
  omega

/-- No chunk is so large that the test for a split wraps around. -/
lemma FreeList.split_lt (h : m.FreeList r l) (hheap : HeapAt r manager) {a : ℕ} (ha : a ∈ l) :
    (m.mem a).size + chunkHeader + minAllocSize < 2 ^ 32 := by
  obtain ⟨hbase, hend⟩ := h.within ha
  have hrange := hheap.range
  have hmanager := hheap.manager_le
  have hhead : chunkHeader = 20 := rfl
  have hmin : minAllocSize = 16 := rfl
  have hobject : managerSize = 64 := rfl
  rcases hheap.apart with hapart | hapart
  all_goals dsimp only at hapart
  all_goals omega

/-- All chunks of the list are free. -/
lemma FreeList.fitting_eq (h : m.FreeList r l) (size : ℕ) :
    m.fitting size l = l.filter fun a => decide (size ≤ (m.mem a).size) := by
  refine List.filter_congr fun a ha => ?_
  rw [h.free a ha, Bool.not_false, Bool.true_and]

/-- What the best fit loop finds: nothing if all chunks are smaller, or the first of least sufficient size. -/
lemma FreeList.findBestFit_cases (h : m.FreeList r l) (hheap : HeapAt r manager) (size : ℕ) :
    (m.findBestFit size listFuel none m.first = some none ∧ ∀ a ∈ l, (m.mem a).size < size) ∨
      ∃ l₁ b l₂, l = l₁ ++ b :: l₂ ∧ m.findBestFit size listFuel none m.first = some (some b) ∧
        m.FirstBest size b l₁ l₂ := by
  have hfind : m.findBestFit size listFuel none m.first =
      some ((m.fitting size l).argmin fun a => (m.mem a).size) :=
    findBestFit_eq size h.links (h.length_lt hheap)
  rw [hfind, h.fitting_eq]
  cases hbest : (l.filter fun a => decide (size ≤ (m.mem a).size)).argmin fun a => (m.mem a).size with
  | none =>
    left
    refine ⟨rfl, ?_⟩
    intro a ha
    have hsmall := List.filter_eq_nil_iff.1 (List.argmin_eq_none.1 hbest) a ha
    simpa using hsmall
  | some b =>
    right
    obtain ⟨l₁, l₂, rfl, hfits, hbefore, hbehind⟩ := BestMatch.exists_append_of_mem_argmin hbest
    refine ⟨l₁, b, l₂, rfl, rfl, ?_, ?_, ?_⟩
    · simpa using hfits
    · simpa using hbefore
    · simpa using hbehind

/-- A chunk that is large enough is taken out of the list and cut. -/
lemma FreeList.exists_cut (h : m.FreeList r (l₁ ++ b :: l₂)) (hheap : HeapAt r manager)
    (hfits : size ≤ (m.mem b).size) :
    ∃ rest, Cut (m.unlink b) ((m.unlink b).splitChunk b size) r size b (l₁ ++ l₂) [] rest := by
  obtain ⟨hl, hback, -, hmem⟩ := unlink_spec h.links h.back
  have hpacked : Extent.Packed r ((b :: (l₁ ++ l₂ ++ [])).map (m.unlink b).extent) := by
    rw [extents_congr fun a _ => (hmem a).1, List.append_nil]
    exact h.packed.perm (List.Perm.map _ List.perm_middle)
  have hov : size + chunkHeader + minAllocSize < 2 ^ 32 := by
    have hlt := h.split_lt hheap (show b ∈ l₁ ++ b :: l₂ by simp)
    omega
  refine cut_splitChunk hl hback hpacked hheap.range ?_ hov
  rw [(hmem b).1]
  exact hfits

/-- The chunk that was found is taken out of the list, cut and given to the caller. -/
lemma FreeList.takesChunk (h : m.FreeList r (l₁ ++ b :: l₂)) (hheap : HeapAt r manager)
    (hbest : m.FirstBest size b l₁ l₂) (hpos : 0 < size) :
    ∃ rest, m.TakesChunk (((m.unlink b).splitChunk b size).modify b fun c =>
      { c with allocated := true, sizeClass := numSizeClasses, prev := none, next := none })
      r size (Word32.add b chunkHeader) b l₁ l₂ rest := by
  have hb : b ∈ l₁ ++ b :: l₂ := by simp
  obtain ⟨-, -, hlists, hmem⟩ := unlink_spec h.links h.back
  obtain ⟨rest, hcut⟩ := h.exists_cut hheap hbest.fits
  have hpacked := hcut.packed
  rw [List.append_nil] at hpacked
  obtain ⟨hbnot, hnd⟩ := List.nodup_cons.1 (nodup_of_packed hpacked)
  have hsize := size_modify_allocated ((m.unlink b).splitChunk b size) b
  set m₂ := (m.unlink b).splitChunk b size
  set m₃ := m₂.modify b fun c =>
    { c with allocated := true, sizeClass := numSizeClasses, prev := none, next := none }
  have hother : ∀ c, c ≠ b → m₃.mem c = m₂.mem c := fun c hc => modify_of_ne m₂ _ hc
  have hne : ∀ c ∈ rest ++ (l₁ ++ l₂), c ≠ b := fun c hc => ne_of_mem_of_not_mem hc hbnot
  have hrest : ∀ c ∈ l₁ ++ l₂, c ∉ rest := fun c hc hcr => (List.nodup_append.1 hnd).2.2 c hcr c hc rfl
  have hmiddle : ∀ c, c ∈ l₁ ++ b :: l₂ ↔ c = b ∨ c ∈ l₁ ++ l₂ := by
    intro c
    simp only [List.mem_append, List.mem_cons]
    tauto
  -- the other chunks of the list keep their sizes, and stay free
  have hkept : ∀ c ∈ l₁ ++ l₂,
      (m₃.mem c).size = (m.mem c).size ∧ (m₃.mem c).allocated = (m.mem c).allocated := by
    intro c hc
    have hcb := hne c (List.mem_append_right _ hc)
    obtain ⟨hsz, hallocated, -⟩ := hcut.same c hcb (hrest c hc)
    rw [hother c hcb, hsz, hallocated, unlink_allocated]
    exact ⟨(hmem c).1, rfl⟩
  have hlist : m₃.FreeList r (rest ++ (l₁ ++ l₂)) := by
    refine ⟨?_, ?_, ?_, ?_⟩
    · exact hcut.links.congr fun c hc => congrArg MemoryChunk.next (hother c (hne c hc))
    · exact hcut.back.congr fun c hc => congrArg MemoryChunk.prev (hother c (hne c hc))
    · intro c hc
      rcases List.mem_append.1 hc with hcr | hcl
      · rw [hother c (hne c hc)]
        exact hcut.rest_free c hcr
      · rw [(hkept c hcl).2]
        exact h.free c ((hmiddle c).2 (.inr hcl))
    · rw [extents_congr fun c _ => hsize c]
      exact hpacked.sublist (List.sublist_cons_self _ _)
  have hend := (h.within hb).2
  have hrange := hheap.range
  have hfits := hbest.fits
  refine ⟨rest, hbest, Word32.add_of_lt (by omega), ⟨?_, ?_⟩, hlist, ?_, ?_, ?_, ?_, ?_, ?_⟩
  · exact congrArg MemoryChunk.allocated (modify_self m₂ b _)
  · rw [hsize]
    exact hcut.le
  · rw [extents_congr fun c _ => hsize c]
    exact hpacked
  · rw [hsize]
    exact hcut.rest_eq
  · have hbytes := hcut.bytes
    rw [(hmem b).1] at hbytes
    simp only [extent, hsize] at hbytes ⊢
    omega
  · exact hcut.freeLists.trans hlists
  · exact fun c hc => (hkept c hc).1
  · intro c hc hcr
    rw [hmiddle, not_or] at hc
    rw [hother c hc.1, (hcut.same c hc.1 hcr).2.2 hc.2, (hmem c).2 hc.2]

/-- A request above the largest class is large. -/
lemma getSizeClassIndex_of_lt (hsize : 1024 < size) : getSizeClassIndex size = numSizeClasses := by
  have hnone : ∀ c ∈ sizeClasses, (decide (size ≤ c)) = false := by
    intro c hc
    simp only [sizeClasses, List.mem_cons, List.not_mem_nil, or_false] at hc
    rw [decide_eq_false_iff_not]
    omega
  exact List.findIdx_eq_length_of_false hnone

/-- **Every large request**, for any large list: it fails if all chunks are smaller, and then nothing changes.
Otherwise it takes the first chunk of least sufficient size.

**Proof sketch.** The best fit loop ends with that chunk. Unlinking leaves the rest of the list, doubly linked.
The split puts the remainder at the head, and as the test does not wrap, the remainder and the block make up
the chunk. -/
theorem allocateFromSizeClass_takesChunk (hheap : HeapAt r manager) (h : m.FreeList r large)
    (hsize : 1024 < size) :
    ∃ m' p, m.allocateFromSizeClass size (getSizeClassIndex size) = some (m', p) ∧
      (p = 0 ↔ ∀ a ∈ large, (m.mem a).size < size) ∧ (p = 0 → m' = m) ∧
      (p ≠ 0 → ∃ l₁ b l₂ rest, large = l₁ ++ b :: l₂ ∧ m.TakesChunk m' r size p b l₁ l₂ rest) := by
  rw [getSizeClassIndex_of_lt hsize, allocateFromSizeClass, if_pos le_rfl]
  rcases h.findBestFit_cases hheap size with ⟨hfind, hsmall⟩ | ⟨l₁, b, l₂, rfl, hfind, hbest⟩
  · refine ⟨m, 0, ?_, iff_of_true rfl hsmall, fun _ => rfl, fun hne => absurd rfl hne⟩
    simp [allocateLarge, hfind]
  · obtain ⟨rest, htakes⟩ := h.takesChunk hheap hbest (by omega)
    have hne : Word32.add b chunkHeader ≠ 0 := by
      rw [htakes.payload]
      exact Nat.succ_ne_zero _
    refine ⟨_, _, ?_, iff_of_false hne fun hall => ?_, fun hzero => absurd hzero hne,
      fun _ => ⟨l₁, b, l₂, rest, rfl, htakes⟩⟩
    · simp [allocateLarge, hfind]
    · exact absurd hbest.fits (Nat.not_le.2 (hall b (by simp)))

/-- A heap with three free chunks, of which the last two are of the same size. -/
def threeChunks : MemoryManager where
  first := some 0x100000
  freeLists _ := none
  mem a :=
    if a = 0x100000 then ⟨some 0x101000, none, false, 3000, 7⟩
    else if a = 0x101000 then ⟨some 0x102000, some 0x100000, false, 1500, 7⟩
    else ⟨none, some 0x101000, false, 1500, 7⟩

/-- `threeChunks` has the free list of its three chunks. -/
lemma freeList_threeChunks :
    threeChunks.FreeList ⟨0x100000, 0x10000⟩ [0x100000, 0x101000, 0x102000] where
  links := ⟨rfl, rfl, rfl, rfl⟩
  back := ⟨rfl, rfl, rfl, trivial⟩
  free := by decide
  packed := by
    constructor
    · simp [Extent.Within, extent, threeChunks, chunkHeader]
    · simp [Extent.Apart, extent, threeChunks, chunkHeader]

/-- A request of 1200 bytes takes one of the three chunks, as `TakesChunk` says. -/
theorem allocateFromSizeClass_takesChunk_threeChunks :
    HeapAt ⟨0x100000, 0x10000⟩ 0x5000 ∧
      threeChunks.FreeList ⟨0x100000, 0x10000⟩ [0x100000, 0x101000, 0x102000] ∧
      ∃ m' p, threeChunks.allocateFromSizeClass 1200 (getSizeClassIndex 1200) = some (m', p) ∧ p ≠ 0 ∧
        ∃ l₁ b l₂ rest, [0x100000, 0x101000, 0x102000] = l₁ ++ b :: l₂ ∧
          threeChunks.TakesChunk m' ⟨0x100000, 0x10000⟩ 1200 p b l₁ l₂ rest := by
  have hheap : HeapAt ⟨0x100000, 0x10000⟩ 0x5000 := ⟨by decide, by decide, .inr (by decide)⟩
  obtain ⟨m', p, hcode, hzero, -, hserved⟩ :=
    allocateFromSizeClass_takesChunk hheap freeList_threeChunks (show 1024 < 1200 by decide)
  have hp : p ≠ 0 := fun hp => absurd (hzero.1 hp) (by decide)
  exact ⟨hheap, freeList_threeChunks, m', p, hcode, hp, hserved hp⟩

/-- The first of the two is taken, and what it leaves over comes to the head. -/
example : (threeChunks.allocateFromSizeClass 1200 7).map (fun x => (x.2, x.1.largeList)) =
    some (0x101014, [0x1014C4, 0x100000, 0x102000]) := by
  decide +kernel

end MemoryManager

end Jarvis
