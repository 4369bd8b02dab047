import JarvisKernel.Lib.Extent
import JarvisKernel.Lib.LinkedList
import JarvisKernel.Lib.Run
import JarvisKernel.Malloc.Defs

set_option relaxedAutoImplicit false
set_option autoImplicit false

/-!
# Runs of the kernel heap

`malloc` and `free` in any order, from an initialised heap. The blocks of the heap are to lie side by
side in its range: those that callers hold, and the free chunks on the lists.

`refill_size_class` computes the size of what is left of a chunk after it has written a small size into
the header of that chunk, and so puts a chunk of almost 4 GB on the large list. Besides, the test for a
split of a large chunk adds to the requested size without regard to overflow. The blocks stay side by
side in all runs in which neither place is reached.

## Main definitions

* `Jarvis.MemoryManager.Separated` — the blocks do not overlap and lie in the range of the heap.
* `Jarvis.Heap`, `Jarvis.HeapOp` — the heap with the pointers that callers hold, and their calls.
* `Jarvis.Heap.CarvesSafely` — the rule for calls that reach neither place.

## Main results

* `Jarvis.separated_of_run` — runs that follow the rule keep the blocks apart.
* `Jarvis.not_separated_of_small_malloc` — the first small request breaks this.
-/

namespace Jarvis

open LinkedList

namespace MemoryManager

variable {m m' : MemoryManager} {a b p size : ℕ} {r : Extent} {l l₁ l₂ live : List ℕ}

/-! ## Blocks -/

/-- The links of the chunks. -/
def next (m : MemoryManager) (a : ℕ) : Option ℕ := (m.mem a).next

/-- The backward links of the chunks. -/
def prev (m : MemoryManager) (a : ℕ) : Option ℕ := (m.mem a).prev

/-- The header and the payload of the chunk at `a`. -/
def extent (m : MemoryManager) (a : ℕ) : Extent := ⟨a, chunkHeader + (m.mem a).size⟩

/-- The live blocks and the chunks on the lists lie side by side in the range. -/
def Separated (m : MemoryManager) (live : List ℕ) (r : Extent) : Prop :=
  ∃ (large : List ℕ) (small : ℕ → List ℕ), IsList m.next m.first large ∧
    (∀ i < numSizeClasses, IsList m.next (m.freeLists i) (small i)) ∧
    Extent.Packed r ((large ++ (List.range numSizeClasses).flatMap small ++
      live.map header).map m.extent)

/-- The invariant of runs that never refill a class: the lists of the classes are empty, and the live
blocks were cut from the large list. -/
structure LargeOnly (m : MemoryManager) (live : List ℕ) (r : Extent) (large : List ℕ) : Prop where
  links : IsList m.next m.first large
  back : IsBack m.prev none large
  small : ∀ i, m.freeLists i = none
  packed : Extent.Packed r ((large ++ live.map header).map m.extent)
  range : r.base + r.len ≤ 2 ^ 32
  live_large : ∀ p ∈ live, p ≠ 0 ∧ (m.mem (header p)).sizeClass = numSizeClasses ∧
    (m.mem (header p)).next = none ∧ (m.mem (header p)).prev = none

/-- Chunks and blocks do not overlap. -/
lemma LargeOnly.separated (h : LargeOnly m live r l) : m.Separated live r := by
  refine ⟨l, fun _ => [], h.links, fun i _ => h.small i, ?_⟩
  have hsmall : (List.range numSizeClasses).flatMap (fun _ => ([] : List ℕ)) = [] := by
    simp [List.flatMap_eq_nil_iff]
  rw [hsmall, List.append_nil]
  exact h.packed

/-- The memory of a block is below `2 ^ 32`. -/
lemma LargeOnly.extent_le (h : LargeOnly m live r l) (ha : a ∈ l) :
    a + chunkHeader + (m.mem a).size ≤ 2 ^ 32 := by
  have hw := (h.packed.within (m.extent a) (List.mem_map_of_mem (by simp [ha]))).2
  have hr := h.range
  simp only [extent] at hw
  omega

/-- A list of chunks below the end of the address space is shorter than any bound on addresses. -/
lemma length_lt_listFuel (hl : l.Nodup) (hle : ∀ a ∈ l, a + chunkHeader ≤ 2 ^ 32) : l.length < listFuel := by
  have hsub : l ⊆ List.range (2 ^ 32 - chunkHeader + 1) := by
    intro a ha
    have := hle a ha
    rw [List.mem_range]
    omega
  have hlen := (hl.subperm hsub).length_le
  rw [List.length_range] at hlen
  rw [listFuel]
  have : chunkHeader = 20 := rfl
  omega

/-- A list is shorter than the fuel of its loops. -/
lemma LargeOnly.length_lt (h : LargeOnly m live r l) : l.length < listFuel :=
  length_lt_listFuel h.links.nodup fun _ ha => le_of_add_le_left (h.extent_le ha)

/-! ## Effects -/

/-- The chunk that is modified. -/
lemma modify_self (m : MemoryManager) (a : ℕ) (f : MemoryChunk → MemoryChunk) :
    (m.modify a f).mem a = f (m.mem a) := Function.update_self _ _ _

/-- The others stay. -/
lemma modify_of_ne (m : MemoryManager) (f : MemoryChunk → MemoryChunk) (h : b ≠ a) :
    (m.modify a f).mem b = m.mem b := Function.update_of_ne h _ _

/-- `setPrev` changes one backward link. -/
lemma setPrev_mem (m : MemoryManager) (p q : Option ℕ) (a : ℕ) :
    (m.setPrev p q).mem a = { m.mem a with prev := setLink m.prev p q a } := by
  cases p with
  | none => rfl
  | some x =>
    by_cases hx : a = x
    · subst hx
      simp [setPrev, modify, setLink]
    · simp [setPrev, modify, setLink, hx, prev]

/-- A link backwards does not change the head of the list. -/
@[simp] lemma setPrev_first (m : MemoryManager) (p q : Option ℕ) : (m.setPrev p q).first = m.first := by
  cases p <;> rfl

/-- Nor the lists of small chunks. -/
@[simp] lemma setPrev_freeLists (m : MemoryManager) (p q : Option ℕ) :
    (m.setPrev p q).freeLists = m.freeLists := by
  cases p <;> rfl

/-- `setNext` changes one link, or the head of the list. -/
lemma setNext_mem (m : MemoryManager) (p q : Option ℕ) (a : ℕ) :
    (m.setNext p q).mem a = { m.mem a with next := setLink m.next p q a } := by
  cases p with
  | none => rfl
  | some x =>
    by_cases hx : a = x
    · subst hx
      simp [setNext, modify, setLink]
    · simp [setNext, modify, setLink, hx, next]

/-- A link forwards changes the head if there is no chunk before. -/
@[simp] lemma setNext_first (m : MemoryManager) (p q : Option ℕ) :
    (m.setNext p q).first = setHead m.first p q := by
  cases p <;> rfl

/-- It does not change the lists of small chunks. -/
@[simp] lemma setNext_freeLists (m : MemoryManager) (p q : Option ℕ) :
    (m.setNext p q).freeLists = m.freeLists := by
  cases p <;> rfl

/-- The list after a chunk was taken out through its own links. -/
lemma unlink_spec (hl : IsList m.next m.first (l₁ ++ b :: l₂))
    (hb : IsBack m.prev none (l₁ ++ b :: l₂)) :
    IsList (m.unlink b).next (m.unlink b).first (l₁ ++ l₂) ∧
      IsBack (m.unlink b).prev none (l₁ ++ l₂) ∧ (m.unlink b).freeLists = m.freeLists ∧
      ∀ a, ((m.unlink b).mem a).size = (m.mem a).size ∧
        (a ∉ l₁ ++ l₂ → (m.unlink b).mem a = m.mem a) := by
  have hnd := hl.nodup
  have hprev : (m.mem b).prev = l₁.getLast? := hb.eq_getLast
  have hnext : (m.mem b).next = l₂.head? := hl.suffix.2.head_eq
  obtain ⟨hb₁, hb₂⟩ : b ∉ l₁ ∧ b ∉ l₂ := by
    have hmid := List.nodup_middle.1 hnd
    simpa using (List.nodup_cons.1 hmid).1
  -- the chunk itself does not change, so its links are read back as they were
  set m₁ := m.setNext (m.mem b).prev (m.mem b).next with hm₁
  have hbmem : m₁.mem b = m.mem b := by
    rw [hm₁, setNext_mem, setLink_of_ne]
    · rfl
    · rw [hprev]
      exact fun e => hb₁ (List.mem_of_getLast? e)
  have hmem : ∀ a, (m.unlink b).mem a =
      { m.mem a with
        next := setLink m.next l₁.getLast? l₂.head? a
        prev := setLink m.prev l₂.head? l₁.getLast? a } := by
    intro a
    have hpv : m₁.prev = m.prev := by
      funext c
      simp only [prev, hm₁, setNext_mem]
    rw [unlink, ← hm₁, hbmem, setPrev_mem, hpv, hm₁, setNext_mem, hprev, hnext]
  have hn : ∀ a, (m.unlink b).next a = setLink m.next l₁.getLast? l₂.head? a := by
    intro a
    rw [next, hmem]
  have hp : ∀ a, (m.unlink b).prev a = setLink m.prev l₂.head? l₁.getLast? a := by
    intro a
    rw [prev, hmem]
  refine ⟨?_, (hb.remove hnd).congr fun a _ => hp a, ?_, fun a => ⟨by rw [hmem], fun ha => ?_⟩⟩
  · have hfirst : (m.unlink b).first = setHead m.first l₁.getLast? l₂.head? := by
      rw [unlink, ← hm₁, setPrev_first, hm₁, setNext_first, hprev, hnext]
    rw [hfirst]
    refine hl.remove.congr fun a ha => ?_
    have hab : a ≠ b := by
      rintro rfl
      rcases List.mem_append.1 ha with ha | ha
      · exact hb₁ ha
      · exact hb₂ ha
    rw [hn, Function.update_of_ne hab]
  · rw [unlink, setPrev_freeLists, setNext_freeLists]
  · obtain ⟨ha₁, ha₂⟩ : a ∉ l₁ ∧ a ∉ l₂ := by simpa using ha
    rw [hmem, setLink_of_ne fun e => ha₁ (List.mem_of_getLast? e),
      setLink_of_ne fun e => ha₂ (List.mem_of_head? e)]
    rfl

/-- The list after a new chunk was put at its head. -/
lemma pushLarge_spec (size : ℕ) (hl : IsList m.next m.first l) (hb : IsBack m.prev none l)
    (ha : a ∉ l) (ha0 : a ≠ 0) :
    IsList (m.pushLarge a size).next (m.pushLarge a size).first (a :: l) ∧
      IsBack (m.pushLarge a size).prev none (a :: l) ∧
      (m.pushLarge a size).freeLists = m.freeLists ∧ ((m.pushLarge a size).mem a).size = size ∧
      ∀ c, c ≠ a → ((m.pushLarge a size).mem c).size = (m.mem c).size ∧
        (c ∉ l → (m.pushLarge a size).mem c = m.mem c) := by
  have hptr : toPtr a = some a := if_neg ha0
  have hfirst := hl.head_eq
  have hself : (m.pushLarge a size).mem a =
      { next := l.head?, prev := none, allocated := false, size := size,
        sizeClass := numSizeClasses } := by
    rw [pushLarge, setPrev_mem, modify_self, hptr, show (m.modify a _).first = m.first from rfl,
      setLink_of_ne, hfirst]
    · simp [prev, modify_self]
    · rw [hfirst]
      exact fun e => ha (List.mem_of_head? e)
  have hother : ∀ c, c ≠ a → (m.pushLarge a size).mem c =
      { m.mem c with prev := setLink m.prev l.head? (some a) c } := by
    intro c hc
    have hlink : ∀ x, setLink (m.modify a x).prev l.head? (some a) c =
        setLink m.prev l.head? (some a) c := by
      intro x
      cases l.head? with
      | none => exact congrArg MemoryChunk.prev (modify_of_ne m x hc)
      | some q =>
        by_cases hcq : c = q
        · simp [setLink, hcq]
        · simp only [setLink, Function.update_of_ne hcq]
          exact congrArg MemoryChunk.prev (modify_of_ne m x hc)
    rw [pushLarge, setPrev_mem, modify_of_ne m _ hc, hptr,
      show (m.modify a _).first = m.first from rfl, hfirst, hlink]
  have hne : ∀ c ∈ l, c ≠ a := fun c hc => ne_of_mem_of_not_mem hc ha
  refine ⟨⟨?_, ?_⟩, ⟨?_, ?_⟩, ?_, by rw [hself], fun c hc => ⟨by rw [hother c hc], fun hcl => ?_⟩⟩
  · exact hptr
  · rw [next, hself]
    refine (hfirst ▸ hl).congr fun c hc => ?_
    rw [next, hother c (hne c hc)]
    rfl
  · rw [prev, hself]
  · refine (hb.push hl.nodup ha).2.congr fun c hc => ?_
    rw [prev, hother c (hne c hc), Function.update_of_ne (hne c hc)]
  · rw [pushLarge, setPrev_freeLists]
    rfl
  · rw [hother c hc, setLink_of_ne fun e => hcl (List.mem_of_head? e)]
    rfl

/-- Taking a chunk out changes links only. -/
lemma unlink_allocated (m : MemoryManager) (b a : ℕ) :
    ((m.unlink b).mem a).allocated = (m.mem a).allocated := by
  rw [unlink, setPrev_mem, setNext_mem]

/-- A new chunk is free, and the others are as they were. -/
lemma pushLarge_allocated (m : MemoryManager) (a size c : ℕ) :
    ((m.pushLarge a size).mem c).allocated = if c = a then false else (m.mem c).allocated := by
  rw [pushLarge]
  show ((setPrev _ _ _).mem c).allocated = _
  rw [setPrev_mem]
  by_cases hc : c = a
  · rw [hc, modify_self, if_pos rfl]
  · rw [modify_of_ne m _ hc, if_neg hc]

/-- The best fit loop ends, with a chunk of the list that is large enough, or with none. -/
lemma findBestFit_spec {cur : Option ℕ} {fuel : ℕ} (size : ℕ) (best : Option ℕ)
    (hl : IsList m.next cur l) (hfuel : l.length < fuel) :
    ∃ o, m.findBestFit size fuel best cur = some o ∧
      ∀ b, o = some b → b ∈ l ∧ size ≤ (m.mem b).size ∨ best = some b := by
  induction fuel generalizing cur best l with
  | zero => omega
  | succ fuel ih =>
    cases l with
    | nil =>
      obtain rfl : cur = none := hl
      exact ⟨best, rfl, fun b hb => .inr hb⟩
    | cons a l =>
      obtain ⟨rfl, hl⟩ := hl
      rw [List.length_cons] at hfuel
      simp only [findBestFit]
      split_ifs with hbetter
      · obtain ⟨o, hcode, ho⟩ := ih (some a) hl (by omega)
        refine ⟨o, hcode, fun b hb => .inl ?_⟩
        rcases ho b hb with ⟨hbl, hsz⟩ | hba
        · exact ⟨by simp [hbl], hsz⟩
        · obtain rfl : a = b := by simpa using hba
          simp only [Bool.and_eq_true, decide_eq_true_eq] at hbetter
          exact ⟨by simp, hbetter.1.2⟩
      · obtain ⟨o, hcode, ho⟩ := ih best hl (by omega)
        refine ⟨o, hcode, fun b hb => ?_⟩
        rcases ho b hb with ⟨hbl, hsz⟩ | hba
        · exact .inl ⟨by simp [hbl], hsz⟩
        · exact .inr hba

/-! ## Large requests -/

/-- The chunk `b` is off the lists and no block of a caller. -/
structure Taken (m : MemoryManager) (live : List ℕ) (r : Extent) (b : ℕ) (large : List ℕ) : Prop
    where
  links : IsList m.next m.first large
  back : IsBack m.prev none large
  small : ∀ i, m.freeLists i = none
  packed : Extent.Packed r ((b :: (large ++ live.map header)).map m.extent)
  range : r.base + r.len ≤ 2 ^ 32
  live_large : ∀ p ∈ live, p ≠ 0 ∧ (m.mem (header p)).sizeClass = numSizeClasses ∧
    (m.mem (header p)).next = none ∧ (m.mem (header p)).prev = none

/-- Packed blocks have different addresses, since their headers are not empty. -/
lemma nodup_of_packed (h : Extent.Packed r (l.map m.extent)) : l.Nodup := by
  have hnd := h.nodup_base fun e he => by
    obtain ⟨a, -, rfl⟩ := List.mem_map.1 he
    show 0 < chunkHeader + (m.mem a).size
    unfold chunkHeader
    omega
  rw [List.map_map] at hnd
  exact hnd.of_map _

/-- Chunks that keep their sizes keep their extents. -/
lemma extents_congr (h : ∀ a ∈ l, (m'.mem a).size = (m.mem a).size) :
    l.map m'.extent = l.map m.extent := by
  refine List.map_congr_left fun a ha => ?_
  rw [extent, extent, h a ha]

/-- The chunk that the best fit loop has found is taken out of the list. -/
lemma LargeOnly.taken (h : LargeOnly m live r l) (hb : b ∈ l) :
    ∃ l', Taken (m.unlink b) live r b l' ∧ ∀ a, ((m.unlink b).mem a).size = (m.mem a).size := by
  obtain ⟨l₁, l₂, rfl⟩ := List.append_of_mem hb
  obtain ⟨hl, hback, hsmall, hmem⟩ := unlink_spec h.links h.back
  have hnd := nodup_of_packed h.packed
  refine ⟨l₁ ++ l₂, ⟨hl, hback, fun i => by rw [hsmall, h.small], ?_, h.range, fun p hp => ?_⟩,
    fun a => (hmem a).1⟩
  · rw [extents_congr fun a _ => (hmem a).1]
    refine h.packed.perm (List.Perm.map _ ?_)
    simp only [List.append_assoc, List.cons_append]
    exact List.perm_middle
  · have hnot : header p ∉ l₁ ++ l₂ := by
      intro hp'
      have hdis := (List.nodup_append.1 hnd).2.2
      refine hdis (header p) ?_ (header p) (List.mem_map_of_mem hp) rfl
      rcases List.mem_append.1 hp' with hp' | hp'
      · exact List.mem_append_left _ hp'
      · exact List.mem_append_right _ (List.mem_cons_of_mem _ hp')
    rw [(hmem (header p)).2 hnot]
    exact h.live_large p hp

/-- For a chunk in the address space the arithmetic of the split does not wrap. -/
lemma splitChunk_eq (hsz : size ≤ (m.mem b).size) (hov : size + chunkHeader + minAllocSize < 2 ^ 32)
    (hend : b + chunkHeader + (m.mem b).size ≤ 2 ^ 32) :
    m.splitChunk b size =
      if size + chunkHeader + minAllocSize ≤ (m.mem b).size then
        (m.pushLarge (b + chunkHeader + size) ((m.mem b).size - size - chunkHeader)).modify b fun c =>
          { c with size := size }
      else m := by
  have hhead : chunkHeader = 20 := rfl
  have hadd : Word32.add (Word32.add size chunkHeader) minAllocSize =
      size + chunkHeader + minAllocSize := by
    rw [Word32.add_of_lt (show size + chunkHeader < 2 ^ 32 by omega), Word32.add_of_lt hov]
  rw [MemoryManager.splitChunk, hadd]
  split_ifs with hsplit
  · rw [Word32.sub_of_le (show (m.mem b).size < 2 ^ 32 by omega) hsz, Word32.sub_of_le (by omega) (by omega),
      Word32.add_of_lt (show b + chunkHeader < 2 ^ 32 by omega), Word32.add_of_lt (by omega)]
  · rfl

/-- `m'` is `m` after the chunk `b`, which is not on the large list, was made smaller where that leaves enough
room for another chunk. What is left over is `rest`, which is put at the head of the list. `others` are
blocks that are on no list. -/
structure Cut (m m' : MemoryManager) (r : Extent) (size b : ℕ) (l others rest : List ℕ) : Prop where
  links : IsList m'.next m'.first (rest ++ l)
  back : IsBack m'.prev none (rest ++ l)
  freeLists : m'.freeLists = m.freeLists
  packed : Extent.Packed r ((b :: (rest ++ l ++ others)).map m'.extent)
  le : size ≤ (m'.mem b).size
  rest_eq : rest = [] ∨ rest = [b + chunkHeader + (m'.mem b).size]
  bytes : (m.mem b).size = (m'.mem b).size + (rest.map fun t => (m'.extent t).len).sum
  rest_free : ∀ t ∈ rest, (m'.mem t).allocated = false
  same : ∀ c, c ≠ b → c ∉ rest → (m'.mem c).size = (m.mem c).size ∧
    (m'.mem c).allocated = (m.mem c).allocated ∧ (c ∉ l → m'.mem c = m.mem c)

/-- The split of a chunk whose size does not wrap. -/
lemma cut_splitChunk {others : List ℕ} (hl : IsList m.next m.first l) (hb : IsBack m.prev none l)
    (hpacked : Extent.Packed r ((b :: (l ++ others)).map m.extent)) (hr : r.base + r.len ≤ 2 ^ 32)
    (hsz : size ≤ (m.mem b).size) (hov : size + chunkHeader + minAllocSize < 2 ^ 32) :
    ∃ rest, Cut m (m.splitChunk b size) r size b l others rest := by
  have hin := (hpacked.within (m.extent b) (by simp)).2
  simp only [extent] at hin
  have hhead : chunkHeader = 20 := rfl
  rw [splitChunk_eq hsz hov (by omega)]
  split_ifs with hsplit
  · set sz := (m.mem b).size with hszdef
    set temp := b + chunkHeader + size with htempdef
    -- the chunk is cut in two
    have hcarve : Extent.Packed r (⟨b, chunkHeader + size⟩ ::
        ⟨temp, chunkHeader + (sz - size - chunkHeader)⟩ :: (l ++ others).map m.extent) := by
      refine hpacked.carve (e := m.extent b) ⟨?_, ?_⟩ ⟨?_, ?_⟩ (.inl ?_)
      all_goals simp only [extent, ← hszdef]
      all_goals omega
    have hnew : ∀ c ∈ l ++ others, c ≠ temp := by
      rintro c hc rfl
      have hap := (List.pairwise_cons.1 (List.pairwise_cons.1 hcarve.apart).2).1 _
        (List.mem_map_of_mem hc)
      simp only [Extent.Apart, extent] at hap
      omega
    have hbl : ∀ c ∈ l ++ others, c ≠ b := by
      rintro c hc rfl
      exact (List.nodup_cons.1 (nodup_of_packed hpacked)).1 hc
    obtain ⟨hl₁, hb₁, hsmall, htsize, hmem⟩ := pushLarge_spec (sz - size - chunkHeader) hl hb
      (fun ht => hnew temp (by simp [ht]) rfl) (show temp ≠ 0 by omega)
    have hallocated := pushLarge_allocated m temp (sz - size - chunkHeader)
    set m₁ := m.pushLarge temp (sz - size - chunkHeader) with hm₁
    set m₂ := m₁.modify b fun c => { c with size := size } with hm₂
    have hnb : ∀ c ≠ b, m₂.mem c = m₁.mem c := fun c hc => modify_of_ne m₁ _ hc
    have htb : temp ≠ b := by omega
    have hlb : ∀ c ∈ temp :: l, c ≠ b := by
      intro c hc
      rcases List.mem_cons.1 hc with rfl | hc
      · exact htb
      · exact hbl c (List.mem_append_left _ hc)
    have hbsize : (m₂.mem b).size = size := by rw [hm₂, modify_self]
    have htsize₂ : (m₂.mem temp).size = sz - size - chunkHeader := by rw [hnb temp htb, htsize]
    refine ⟨[temp], ?_, ?_, hsmall, ?_, hbsize.ge, .inr (by rw [hbsize]), ?_, fun t ht => ?_, fun c hcb hct => ?_⟩
    · exact hl₁.congr fun c hc => congrArg MemoryChunk.next (hnb c (hlb c hc))
    · exact hb₁.congr fun c hc => congrArg MemoryChunk.prev (hnb c (hlb c hc))
    · have hrest : (l ++ others).map m₂.extent = (l ++ others).map m.extent :=
        extents_congr fun c hc => by rw [hnb c (hbl c hc), (hmem c (hnew c hc)).1]
      rw [List.append_assoc, List.singleton_append, List.map_cons, List.map_cons, hrest, extent, extent, hbsize,
        htsize₂]
      exact hcarve
    · rw [hbsize, List.map_singleton, List.sum_singleton, extent, htsize₂]
      dsimp only
      omega
    · rw [List.mem_singleton.1 ht, hnb temp htb, hallocated, if_pos rfl]
    · have hct : c ≠ temp := fun heq => hct (List.mem_singleton.2 heq)
      rw [hnb c hcb]
      exact ⟨(hmem c hct).1, by rw [hallocated, if_neg hct], (hmem c hct).2⟩
  · refine ⟨[], hl, hb, rfl, ?_, hsz, .inl rfl, ?_, fun t ht => ?_, fun c _ _ => ⟨rfl, rfl, fun _ => rfl⟩⟩
    · exact hpacked
    · rw [List.map_nil, List.sum_nil, Nat.add_zero]
    · exact absurd ht List.not_mem_nil

/-- The split leaves the chunk with at least the requested size, and puts the rest on the list. -/
lemma Taken.splitChunk (h : Taken m live r b l) (hsz : size ≤ (m.mem b).size)
    (hov : size + chunkHeader + minAllocSize < 2 ^ 32) :
    ∃ l', Taken (m.splitChunk b size) live r b l' := by
  obtain ⟨rest, hcut⟩ := cut_splitChunk h.links h.back h.packed h.range hsz hov
  have hnd := nodup_of_packed hcut.packed
  have hnd₀ := nodup_of_packed h.packed
  refine ⟨rest ++ l, hcut.links, hcut.back, fun i => ?_, hcut.packed, h.range, fun p hp => ?_⟩
  · rw [hcut.freeLists, h.small]
  · have hlive : header p ∈ live.map header := List.mem_map_of_mem hp
    have hb : header p ≠ b := by
      rintro rfl
      exact (List.nodup_cons.1 hnd).1 (List.mem_append_right _ hlive)
    have hl : header p ∉ rest ++ l := fun hmem =>
      (List.nodup_append.1 (List.nodup_cons.1 hnd).2).2.2 _ hmem _ hlive rfl
    rw [(hcut.same _ hb fun hrest => hl (List.mem_append_left _ hrest)).2.2
      fun hmem => hl (List.mem_append_right _ hmem)]
    exact h.live_large p hp

/-- A chunk that is given to the caller keeps its size. -/
lemma size_modify_allocated (m : MemoryManager) (b a : ℕ) :
    ((m.modify b fun c =>
      { c with allocated := true, sizeClass := numSizeClasses, prev := none, next := none }).mem a).size =
        (m.mem a).size := by
  by_cases ha : a = b
  · rw [ha, modify_self]
  · rw [modify_of_ne m _ ha]

/-- The chunk is given to the caller. -/
lemma Taken.finish (h : Taken m live r b l) (hpos : 0 < (m.mem b).size) :
    Word32.add b chunkHeader ≠ 0 ∧ LargeOnly (m.modify b fun c =>
      { c with allocated := true, sizeClass := numSizeClasses, prev := none, next := none })
      (Word32.add b chunkHeader :: live) r l := by
  have hin := (h.packed.within (m.extent b) (by simp)).2
  simp only [extent] at hin
  have hr := h.range
  have hhead : chunkHeader = 20 := rfl
  have hadd : Word32.add b chunkHeader = b + chunkHeader := Word32.add_of_lt (by omega)
  have hsub : header (b + chunkHeader) = b := by
    rw [header, Word32.sub_of_le] <;> omega
  have hbl : ∀ c ∈ l ++ live.map header, c ≠ b := by
    rintro c hc rfl
    exact (List.nodup_cons.1 (nodup_of_packed h.packed)).1 hc
  rw [hadd]
  set m' := m.modify b fun c =>
    { c with allocated := true, sizeClass := numSizeClasses, prev := none, next := none } with hm'
  have hother : ∀ c ∈ l ++ live.map header, m'.mem c = m.mem c := fun c hc =>
    modify_of_ne m _ (hbl c hc)
  have hself : m'.mem b = { m.mem b with
      allocated := true, sizeClass := numSizeClasses, prev := none, next := none } := modify_self ..
  refine ⟨by omega, ?_, ?_, h.small, ?_, hr, fun p hp => ?_⟩
  · exact h.links.congr fun c hc => congrArg MemoryChunk.next (hother c (by simp [hc]))
  · exact h.back.congr fun c hc => congrArg MemoryChunk.prev (hother c (by simp [hc]))
  · have hpacked := h.packed
    rw [← extents_congr fun c _ => size_modify_allocated m b c] at hpacked
    refine hpacked.perm (List.Perm.map _ ?_)
    rw [List.map_cons, hsub]
    exact List.perm_middle.symm
  · rcases List.mem_cons.1 hp with rfl | hp
    · rw [hsub, hself]
      exact ⟨by omega, rfl, rfl, rfl⟩
    · rw [hother _ (List.mem_append_right _ (List.mem_map_of_mem hp))]
      exact h.live_large p hp

/-- The chunks on the large list. -/
def largeList (m : MemoryManager) : List ℕ := toList m.next listFuel m.first

/-- The list is the one that the links make. -/
lemma LargeOnly.largeList_eq (h : LargeOnly m live r l) : m.largeList = l :=
  h.links.toList_eq h.length_lt.le

/-- A large request that is served, or for which there is no chunk. -/
lemma LargeOnly.allocateLarge (h : LargeOnly m live r l) (hpos : 0 < size)
    (hsafe : size + chunkHeader + minAllocSize < 2 ^ 32 ∨ ∀ a ∈ l, (m.mem a).size < size) :
    ∃ m' p l', m.allocateLarge size = some (m', p) ∧
      LargeOnly m' (if p = 0 then live else p :: live) r l' := by
  obtain ⟨o, hfind, ho⟩ := findBestFit_spec size none h.links h.length_lt
  cases o with
  | none => exact ⟨m, 0, l, by simp [MemoryManager.allocateLarge, hfind], h⟩
  | some b =>
    obtain ⟨hbl, hsz⟩ : b ∈ l ∧ size ≤ (m.mem b).size := by
      rcases ho b rfl with hb | hb
      · exact hb
      · simp at hb
    have hov : size + chunkHeader + minAllocSize < 2 ^ 32 := by
      rcases hsafe with hov | hnone
      · exact hov
      · have := hnone b hbl
        omega
    obtain ⟨l₁, htaken, hsame⟩ := h.taken hbl
    obtain ⟨l₂, hsplit⟩ := htaken.splitChunk (by rw [hsame]; exact hsz) hov
    have hbsize : 0 < (((m.unlink b).splitChunk b size).mem b).size := by
      rw [MemoryManager.splitChunk]
      split_ifs
      · rw [modify_self]
        exact hpos
      · rw [hsame]
        omega
    obtain ⟨hp0, hfin⟩ := hsplit.finish hbsize
    refine ⟨((m.unlink b).splitChunk b size).modify b fun c =>
      { c with allocated := true, sizeClass := numSizeClasses, prev := none, next := none },
      Word32.add b chunkHeader, l₂, ?_, ?_⟩
    · simp only [MemoryManager.allocateLarge, hfind, Option.bind_eq_bind, Option.bind_some]
      rfl
    · rw [if_neg hp0]
      exact hfin

/-! ## Small requests -/

/-- The search of `refill_size_class` ends without a chunk when all chunks are too small. -/
lemma findBigChunk_eq_none {cur : Option ℕ} {fuel : ℕ} (before : Option ℕ) (hl : IsList m.next cur l)
    (hfuel : l.length < fuel) (hsmall : ∀ a ∈ l, (m.mem a).size < refillSize) :
    ∃ q, m.findBigChunk fuel before cur = some (q, none) := by
  induction fuel generalizing cur before l with
  | zero => omega
  | succ fuel ih =>
    cases l with
    | nil =>
      obtain rfl : cur = none := hl
      exact ⟨before, rfl⟩
    | cons a l =>
      obtain ⟨rfl, hl⟩ := hl
      rw [List.length_cons] at hfuel
      have ha := hsmall a (by simp)
      obtain ⟨q, hq⟩ := ih (some a) hl (by omega) fun c hc => hsmall c (by simp [hc])
      refine ⟨q, ?_⟩
      rw [findBigChunk, if_neg]
      · exact hq
      · simp only [Bool.and_eq_true, decide_eq_true_eq]
        omega

/-- A small request that no chunk can serve changes nothing. -/
lemma LargeOnly.allocateSmall (h : LargeOnly m live r l) {i : ℕ} (hi : i < numSizeClasses)
    (hsmall : ∀ a ∈ l, (m.mem a).size < refillSize) :
    m.allocateFromSizeClass size i = some (m, 0) := by
  obtain ⟨q, hq⟩ := findBigChunk_eq_none none h.links h.length_lt hsmall
  rw [allocateFromSizeClass, if_neg (by omega), h.small i]
  simp [refillSizeClass, hq, popClass, h.small i]

/-! ## Freeing -/

/-- Marking a chunk as free changes neither its links nor its size. -/
lemma modify_allocated (m : MemoryManager) (a c : ℕ) :
    (m.modify a fun x => { x with allocated := false }).mem c =
      { m.mem c with
        allocated := if c = a then false else (m.mem c).allocated } := by
  by_cases hc : c = a
  · rw [hc, modify_self, if_pos rfl]
  · rw [modify_of_ne m _ hc, if_neg hc]

/-- A chunk without neighbours is not merged. -/
lemma freeLarge_of_unlinked (hprev : (m.mem a).prev = none) (hnext : (m.mem a).next = none) :
    m.freeLarge a = some (m.modify a fun x => { x with allocated := false }) := by
  set m' := m.modify a fun x => { x with allocated := false } with hm'
  have hp : (m'.mem a).prev = none := by rw [hm', modify_allocated, hprev]
  have hn : (m'.mem a).next = none := by rw [hm', modify_allocated, hnext]
  obtain ⟨k, hk⟩ : ∃ k, listFuel = k + 1 := ⟨2 ^ 32 - 1, rfl⟩
  have hcp : coalescePrev (k + 1) m' a = some (m', a) := by rw [coalescePrev, hp]
  have hcn : coalesceNext (k + 1) m' a = some m' := by rw [coalesceNext, hn]
  rw [freeLarge, hk, ← hm', hcp, Option.bind_some, hcn]

/-- Marking a chunk as free keeps the invariant. -/
lemma LargeOnly.modify_allocated (h : LargeOnly m live r l) (a : ℕ) :
    LargeOnly (m.modify a fun x => { x with allocated := false }) live r l := by
  set m' := m.modify a fun x => { x with allocated := false } with hm'
  have hmem : ∀ c, m'.mem c = { m.mem c with
      allocated := if c = a then false else (m.mem c).allocated } :=
    MemoryManager.modify_allocated m a
  refine ⟨?_, ?_, h.small, ?_, h.range, fun q hq => ?_⟩
  · refine h.links.congr fun c _ => ?_
    rw [next, hmem, next]
  · refine h.back.congr fun c _ => ?_
    rw [prev, hmem, prev]
  · have hsize : ∀ c ∈ l ++ live.map header, (m'.mem c).size = (m.mem c).size := fun c _ => by
      rw [hmem]
    rw [extents_congr hsize]
    exact h.packed
  · rw [hmem]
    exact h.live_large q hq

/-- A large block that is freed is on no list any more. -/
lemma LargeOnly.free (h : LargeOnly m live r l) (hp : p ∈ live) :
    ∃ m', m.free p = some m' ∧ LargeOnly m' (live.erase p) r l := by
  obtain ⟨hp0, hclass, hnext, hprev⟩ := h.live_large p hp
  have hlt : ¬ (m.mem (header p)).sizeClass < numSizeClasses := by
    rw [hclass]
    omega
  have h' := h.modify_allocated (header p)
  refine ⟨m.modify (header p) fun x => { x with allocated := false }, ?_, h'.links, h'.back, h'.small,
    ?_, h.range, fun q hq => h'.live_large q (List.mem_of_mem_erase hq)⟩
  · rw [MemoryManager.free, if_neg hp0, if_neg hlt, freeLarge_of_unlinked hprev hnext]
  · refine h'.packed.sublist (List.Sublist.map _ (List.Sublist.append_left ?_ l))
    exact List.Sublist.map _ List.erase_sublist

/-- An initialised heap has no blocks but its one free chunk. -/
lemma largeOnly_onInitMemoryManager (mem : ℕ → MemoryChunk) {start size : ℕ}
    (hr : start + size ≤ 2 ^ 32) :
    ∃ l, LargeOnly (onInitMemoryManager mem start size) [] ⟨start, size⟩ l := by
  rw [onInitMemoryManager]
  split_ifs with hsize
  · exact ⟨[], rfl, trivial, fun _ => rfl, ⟨by simp, by simp⟩, hr, by simp⟩
  · by_cases h0 : start = 0
    · refine ⟨[], ?_, trivial, fun _ => rfl, ⟨by simp, by simp⟩, hr, by simp⟩
      exact if_pos h0
    · refine ⟨[start], ⟨if_neg h0, ?_⟩, ⟨?_, trivial⟩, fun _ => rfl, ⟨?_, by simp⟩, hr, by simp⟩
      · simp [next]
      · simp [prev]
      · intro e he
        obtain rfl : _ = e := (List.mem_singleton.1 he).symm
        simp only [Extent.Within, extent, Function.update_self]
        omega

end MemoryManager

open MemoryManager

/-! ## Runs -/

/-- The heap, and the pointers that callers hold. -/
structure Heap where
  manager : MemoryManager
  live : List ℕ

/-- A call of the heap's interface. -/
inductive HeapOp
  | malloc (size : ℕ)
  | free (ptr : ℕ)

namespace Heap

/-- The heap after `on_init_memory_manager`. -/
def init (mem : ℕ → MemoryChunk) (start size : ℕ) : Heap := ⟨onInitMemoryManager mem start size, []⟩

/-- The effect of a call; `none` if it does not return. -/
def step (s : Heap) : HeapOp → Option Heap
  | .malloc size => (s.manager.malloc size).map fun x =>
      ⟨x.1, if x.2 = 0 then s.live else x.2 :: s.live⟩
  | .free ptr => (s.manager.free ptr).map fun m => ⟨m, s.live.erase ptr⟩

/-- The calls that can occur: a size is a 32-bit word, and only live pointers are freed. -/
def Possible (s : Heap) : HeapOp → Prop
  | .malloc size => size < 2 ^ 32
  | .free ptr => ptr ∈ s.live

/-- No chunk is cut up for the class: its list is not empty, or no chunk on the large list is large
enough for that. -/
def RefillSafe (m : MemoryManager) (i : ℕ) : Prop :=
  m.freeLists i ≠ none ∨ ∀ a ∈ m.largeList, (m.mem a).size < refillSize

/-- No chunk is split wrongly: the size of a header and a minimal chunk can be added to the requested
size without overflow, or no chunk on the large list is large enough for the request. -/
def SplitSafe (m : MemoryManager) (size : ℕ) : Prop :=
  size + chunkHeader + minAllocSize < 2 ^ 32 ∨ ∀ a ∈ m.largeList, (m.mem a).size < size

/-- The calls that cut no chunk wrongly. -/
def CarvesSafely (s : Heap) : HeapOp → Prop
  | .malloc size =>
    if getSizeClassIndex (roundUp size) < numSizeClasses then
      RefillSafe s.manager (getSizeClassIndex (roundUp size))
    else SplitSafe s.manager (roundUp size)
  | .free _ => True

instance (m : MemoryManager) (i : ℕ) : Decidable (RefillSafe m i) :=
  inferInstanceAs (Decidable (_ ∨ ∀ a ∈ m.largeList, _))

instance (m : MemoryManager) (size : ℕ) : Decidable (SplitSafe m size) :=
  inferInstanceAs (Decidable (_ ∨ ∀ a ∈ m.largeList, _))

instance (s : Heap) : (op : HeapOp) → Decidable (s.Possible op)
  | .malloc size => inferInstanceAs (Decidable (size < 2 ^ 32))
  | .free ptr => inferInstanceAs (Decidable (ptr ∈ s.live))

instance (s : Heap) : (op : HeapOp) → Decidable (s.CarvesSafely op)
  | .malloc size => inferInstanceAs (Decidable
      (if getSizeClassIndex (roundUp size) < numSizeClasses then
        RefillSafe s.manager (getSizeClassIndex (roundUp size))
      else SplitSafe s.manager (roundUp size)))
  | .free _ => .isTrue trivial

/-- A request for a size class is not large. -/
lemma pos_of_large {size : ℕ} (h : ¬ getSizeClassIndex size < numSizeClasses) : 0 < size := by
  rcases Nat.eq_zero_or_pos size with rfl | hpos
  · exact absurd (by decide) h
  · exact hpos

/-- Every safe call returns and keeps the invariant. -/
lemma largeOnly_step {s : Heap} {r : Extent} {l : List ℕ} {op : HeapOp}
    (h : LargeOnly s.manager s.live r l) (hop : s.Possible op) (hsafe : s.CarvesSafely op) :
    ∃ s' l', s.step op = some s' ∧ LargeOnly s'.manager s'.live r l' := by
  cases op with
  | malloc size =>
    simp only [CarvesSafely, RefillSafe, SplitSafe, h.largeList_eq] at hsafe
    by_cases hi : getSizeClassIndex (roundUp size) < numSizeClasses
    · rw [if_pos hi] at hsafe
      have hsmall : ∀ a ∈ l, (s.manager.mem a).size < refillSize := by
        rcases hsafe with hne | hsmall
        · exact absurd (h.small _) hne
        · exact hsmall
      refine ⟨s, l, ?_, h⟩
      rw [step, MemoryManager.malloc, h.allocateSmall hi hsmall]
      rfl
    · rw [if_neg hi] at hsafe
      obtain ⟨m', p, l', hcode, h'⟩ := h.allocateLarge (pos_of_large hi) hsafe
      refine ⟨⟨m', _⟩, l', ?_, h'⟩
      rw [step, MemoryManager.malloc, allocateFromSizeClass, if_pos (by omega), hcode]
      rfl
  | free ptr =>
    obtain ⟨m', hcode, h'⟩ := h.free hop
    refine ⟨⟨m', _⟩, l, ?_, h'⟩
    rw [step, hcode]
    rfl

end Heap

/-- Every run of possible calls that cut no chunk wrongly returns, and the blocks lie side by side in
the range of the heap. -/
theorem separated_of_run {mem : ℕ → MemoryChunk} {start size : ℕ} (hr : start + size ≤ 2 ^ 32)
    {ops : List HeapOp} (hops : Run.Follows Heap.step (fun s op => s.Possible op ∧ s.CarvesSafely op)
      (Heap.init mem start size) ops) :
    ∃ s, Run.exec Heap.step (Heap.init mem start size) ops = some s ∧
      s.manager.Separated s.live ⟨start, size⟩ := by
  have hstep : ∀ (s : Heap) op, (∃ l, LargeOnly s.manager s.live ⟨start, size⟩ l) →
      s.Possible op ∧ s.CarvesSafely op →
      ∃ s', s.step op = some s' ∧ ∃ l, LargeOnly s'.manager s'.live ⟨start, size⟩ l := by
    rintro s op ⟨l, hs⟩ ⟨hop, hsafe⟩
    obtain ⟨s', l', hcode, hs'⟩ := Heap.largeOnly_step hs hop hsafe
    exact ⟨s', hcode, l', hs'⟩
  obtain ⟨s, hexec, l, hs⟩ := Run.exec_of_step hstep (largeOnly_onInitMemoryManager mem hr) hops
  exact ⟨s, hexec, hs.separated⟩

/-- Memory before anything is stored in it. -/
def blankChunks : ℕ → MemoryChunk := fun _ => ⟨none, none, false, 0, 0⟩

/-- Large requests on a small heap, of which the last is not served, and a small request that is not
served either. -/
def largeOps : List HeapOp :=
  [.malloc 1100, .malloc 1200, .free 4116, .malloc 30, .malloc 2000]

/-- A run with large requests only, after which nothing overlaps. -/
theorem separated_of_run_largeOps :
    Run.Follows Heap.step (fun s op => s.Possible op ∧ s.CarvesSafely op)
        (Heap.init blankChunks 4096 4000) largeOps ∧
      ∃ s, Run.exec Heap.step (Heap.init blankChunks 4096 4000) largeOps = some s ∧
        s.manager.Separated s.live ⟨4096, 4000⟩ := by
  have hops : Run.Follows Heap.step (fun s op => s.Possible op ∧ s.CarvesSafely op)
      (Heap.init blankChunks 4096 4000) largeOps := by
    decide +kernel
  exact ⟨hops, separated_of_run (by decide) hops⟩

/-- The first small request on a heap of 64 KB leaves a chunk of almost 4 GB on the large list. -/
theorem not_separated_of_small_malloc :
    Run.Follows Heap.step Heap.Possible (Heap.init blankChunks 0x100000 0x10000) [.malloc 16] ∧
      ∃ s, Run.exec Heap.step (Heap.init blankChunks 0x100000 0x10000) [.malloc 16] = some s ∧
        ¬ s.manager.Separated s.live ⟨0x100000, 0x10000⟩ := by
  have hhead : (Run.exec Heap.step (Heap.init blankChunks 0x100000 0x10000) [.malloc 16]).map
      (fun s => (s.manager.first, (s.manager.mem 0x101000).size)) =
        some (some 0x101000, 4294963196) := by
    decide +kernel
  refine ⟨by decide +kernel, ?_⟩
  obtain ⟨s, hs, hfields⟩ := Option.map_eq_some_iff.1 hhead
  refine ⟨s, hs, ?_⟩
  rintro ⟨large, small, hlarge, -, hpacked⟩
  obtain ⟨hfirst, hsize⟩ := Prod.mk.inj hfields
  cases large with
  | nil =>
    rw [isList_nil, hfirst] at hlarge
    simp at hlarge
  | cons a large =>
    obtain ⟨ha, -⟩ := hlarge
    obtain rfl : a = 0x101000 := by
      rw [hfirst] at ha
      simpa using ha.symm
    have hin := (hpacked.within (s.manager.extent 0x101000) (by simp)).2
    simp only [extent, hsize] at hin
    omega

end Jarvis
