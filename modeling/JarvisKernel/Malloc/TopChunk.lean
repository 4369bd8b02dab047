import JarvisKernel.Malloc.Runs

set_option relaxedAutoImplicit false
set_option autoImplicit false

/-!
# The large chunk at the top of the heap

A freed large block is on no list any more, since its links were cleared when it was allocated. So the
large list of a heap has one chunk at most, from whose start all memory is cut: the chunk at the top. The
chunks that were cut off lie below it, and are held by callers or are on the list of their class.

After `refill_size_class` the chunk at the top has a size of almost 4 GB, so that memory may be cut beyond
the end of the address space. The runs here keep below it, where no two headers overlap.

## Main definitions

* `Jarvis.MemoryManager.TopOnly` — the invariant: one large chunk at most, above all other chunks.
* `Jarvis.Heap.CutsBelow` — the rule: memory is cut below the end of the address space.

## Main results

* `Jarvis.MemoryManager.IsTop.allocateLarge`, `IsTop.refillSizeClass` — what is cut off the top.
* `Jarvis.MemoryManager.TopOnly.allocateClass` — what a request for a class returns.
* `Jarvis.Heap.TopInv.step` — the calls keep the invariant.
-/

namespace Jarvis

open LinkedList

namespace MemoryManager

variable {m m' : MemoryManager} {a p t i n size : ℕ} {l held : List ℕ} {small : ℕ → List ℕ}

/-! ## The invariant -/

/-- The header of the chunk at the top: it is free and has no neighbours. -/
structure IsTop (m : MemoryManager) (t : ℕ) : Prop where
  ne_zero : t ≠ 0
  lt : t < 2 ^ 32
  next : (m.mem t).next = none
  prev : (m.mem t).prev = none
  allocated : (m.mem t).allocated = false
  size_lt : (m.mem t).size < 2 ^ 32

/-- The header lies below the chunk at the top and below the end of the address space. -/
structure Below (m : MemoryManager) (a : ℕ) : Prop where
  pos : 0 < a
  lt : a + chunkHeader < 2 ^ 32
  below : ∀ t, m.first = some t → a < t

/-- The size of the chunks of a class. -/
def classSize (i : ℕ) : ℕ := sizeClasses.getD i 0

/-- The header of a block that a caller holds: one of a class has the size of the class, a large one has no
links. -/
def BlockHeader (c : MemoryChunk) : Prop :=
  c.sizeClass < numSizeClasses ∧ c.size = classSize c.sizeClass ∨
    c.sizeClass = numSizeClasses ∧ c.next = none ∧ c.prev = none

/-- The large list has one chunk at most, which lies above the chunks that callers hold and those on the
lists of the classes. -/
structure TopOnly (m : MemoryManager) (held : List ℕ) (small : ℕ → List ℕ) : Prop where
  top : ∀ t, m.first = some t → m.IsTop t ∧ (0 < (m.mem t).size → t + chunkHeader < 2 ^ 32)
  lists : ∀ i < numSizeClasses, IsList m.next (m.freeLists i) (small i)
  small_chunk : ∀ i < numSizeClasses, ∀ a ∈ small i,
    m.Below a ∧ (m.mem a).sizeClass = i ∧ (m.mem a).size = classSize i
  held_chunk : ∀ a ∈ held,
    m.Below a ∧ (∀ i < numSizeClasses, a ∉ small i) ∧ BlockHeader (m.mem a)
  nodup : held.Nodup

/-- The large list of a heap with one large chunk at most. -/
lemma mem_largeList (h : ∀ t, m.first = some t → m.IsTop t) : a ∈ m.largeList ↔ m.first = some a := by
  cases hfirst : m.first with
  | none =>
    have hnil : IsList m.next m.first [] := hfirst
    rw [largeList, hnil.toList_eq (Nat.zero_le _)]
    simp
  | some t =>
    have hone : IsList m.next m.first [t] := ⟨hfirst, (h t hfirst).next⟩
    rw [largeList, hone.toList_eq (show 1 ≤ listFuel from by decide)]
    simp [eq_comm]

/-! ## Large requests -/

/-- The manager with a free chunk as the only one on the large list. -/
def withTop (m : MemoryManager) (t size : ℕ) : MemoryManager :=
  { m with
    first := toPtr t
    mem := Function.update m.mem t
      { next := none, prev := none, allocated := false, size := size, sizeClass := numSizeClasses } }

/-- A chunk that is put in an empty list is the only one. -/
lemma pushLarge_of_none (h : m.first = none) (t size : ℕ) : m.pushLarge t size = m.withTop t size := by
  simp [pushLarge, withTop, modify, setPrev, h]

/-- The chunk at the top is taken out of the list. -/
lemma IsTop.unlink (h : m.IsTop t) : m.unlink t = { m with first := none } := by
  simp [MemoryManager.unlink, setNext, setPrev, h.next, h.prev]

/-- The best fit loop finds the chunk at the top, if it is large enough. -/
lemma IsTop.findBestFit (h : m.IsTop t) (hfirst : m.first = some t) (size : ℕ) :
    m.findBestFit size listFuel none m.first =
      some (if size ≤ (m.mem t).size then some t else none) := by
  obtain ⟨k, hk⟩ : ∃ k, listFuel = k + 2 := ⟨2 ^ 32 - 2, rfl⟩
  rw [hk, hfirst]
  simp [MemoryManager.findBestFit, h.next, h.allocated]

/-- What a large request does to the chunk at the top: it becomes the block, and what remains of it is the
new chunk at the top. -/
lemma IsTop.allocateLarge (h : m.IsTop t) (hfirst : m.first = some t)
    (halign : size % minAllocSize = 0) (hsz : size ≤ (m.mem t).size) :
    ∃ m', m.allocateLarge size = some (m', Word32.add t chunkHeader) ∧
      m'.freeLists = m.freeLists ∧ (m'.mem t).sizeClass = numSizeClasses ∧
      (m'.mem t).next = none ∧ (m'.mem t).prev = none ∧ size ≤ (m'.mem t).size ∧
      (((m.mem t).size < Word32.add (Word32.add size chunkHeader) minAllocSize ∧ m'.first = none ∧
          ∀ a, a ≠ t → m'.mem a = m.mem a) ∨
        Word32.add (Word32.add size chunkHeader) minAllocSize ≤ (m.mem t).size ∧
          Word32.add (Word32.add t chunkHeader) size ≠ t ∧
          m'.first = toPtr (Word32.add (Word32.add t chunkHeader) size) ∧
          m'.mem (Word32.add (Word32.add t chunkHeader) size) =
            { next := none, prev := none, allocated := false
              size := Word32.sub (Word32.sub (m.mem t).size size) chunkHeader
              sizeClass := numSizeClasses } ∧
          ∀ a, a ≠ t → a ≠ Word32.add (Word32.add t chunkHeader) size → m'.mem a = m.mem a) := by
  have hcode : m.allocateLarge size =
      some ((({ m with first := none } : MemoryManager).splitChunk t size).modify t fun c =>
        { c with allocated := true, sizeClass := numSizeClasses, prev := none, next := none },
        Word32.add t chunkHeader) := by
    rw [MemoryManager.allocateLarge, h.findBestFit hfirst, if_pos hsz]
    simp only [Option.bind_eq_bind, Option.bind_some, h.unlink]
    rfl
  rw [hcode]
  refine ⟨_, rfl, ?_⟩
  rw [splitChunk]
  split_ifs with hsplit
  · have hrest : Word32.add (Word32.add t chunkHeader) size ≠ t := by
      have ht := h.lt
      simp only [Word32.add, show chunkHeader = 20 from rfl, show minAllocSize = 16 from rfl]
        at halign ⊢
      omega
    set rest := Word32.add (Word32.add t chunkHeader) size with hrestdef
    rw [pushLarge_of_none rfl]
    refine ⟨rfl, by simp [modify], by simp [modify], by simp [modify], by simp [modify], .inr
      ⟨hsplit, hrest, rfl, ?_, fun a hat har => ?_⟩⟩
    · simp [modify, withTop, hrest]
    · simp [modify, withTop, hat, har]
  · refine ⟨rfl, by simp [modify], by simp [modify], by simp [modify], by simpa [modify] using hsz,
      .inl ⟨Nat.lt_of_not_le hsplit, rfl, fun a hat => ?_⟩⟩
    simp [modify, hat]

/-- A large request without a chunk that is large enough. -/
lemma allocateLarge_of_lt (h : ∀ t, m.first = some t → m.IsTop t ∧ (m.mem t).size < size) :
    m.allocateLarge size = some (m, 0) := by
  cases hfirst : m.first with
  | none =>
    obtain ⟨k, hk⟩ : ∃ k, listFuel = k + 1 := ⟨2 ^ 32 - 1, rfl⟩
    simp [MemoryManager.allocateLarge, hfirst, hk, MemoryManager.findBestFit]
  | some t =>
    obtain ⟨ht, hlt⟩ := h t hfirst
    rw [MemoryManager.allocateLarge, ht.findBestFit hfirst, if_neg (by omega)]
    simp

/-! ## Small requests -/

/-- The search of `refill_size_class` finds the chunk at the top, if it is large enough. -/
lemma IsTop.findBigChunk (h : m.IsTop t) (hfirst : m.first = some t) :
    m.findBigChunk listFuel none m.first =
      some (if refillSize ≤ (m.mem t).size then (none, some t) else (some t, none)) := by
  obtain ⟨k, hk⟩ : ∃ k, listFuel = k + 2 := ⟨2 ^ 32 - 2, rfl⟩
  rw [hk, hfirst, MemoryManager.findBigChunk, h.allocated, h.next]
  by_cases hsz : refillSize ≤ (m.mem t).size
  · simp [hsz]
  · simp [hsz, MemoryManager.findBigChunk]

/-- What putting a chunk on the list of a class does to the headers. -/
lemma pushClass_mem (m : MemoryManager) (i a c : ℕ) (hne : m.freeLists i ≠ some a) :
    (m.pushClass i a).mem c =
      { m.mem c with
        next := if c = a then m.freeLists i else (m.mem c).next
        prev := if m.freeLists i = some c then toPtr a else (m.mem c).prev } := by
  rw [pushClass]
  cases hlist : m.freeLists i with
  | none =>
    by_cases hc : c = a
    · simp [modify, setPrev, hlist, hc]
    · simp [modify, setPrev, hlist, hc]
  | some b =>
    rw [hlist] at hne
    by_cases hc : c = a
    · have hb : b ≠ a := fun hb => hne (by rw [hb])
      subst hc
      simp [modify, setPrev, hlist, hb, Ne.symm hb]
    · by_cases hb : b = c
      · subst hb
        simp [modify, setPrev, hlist, hc]
      · simp [modify, setPrev, hlist, hc, hb, Ne.symm hb]

/-- A chunk below `2 ^ 32` that is put on the list of a class. -/
lemma pushClass_spec (hl : IsList m.next (m.freeLists i) l) (ha : a ∉ l) (ha0 : a ≠ 0) :
    IsList (m.pushClass i a).next ((m.pushClass i a).freeLists i) (a :: l) ∧
      (m.pushClass i a).first = m.first ∧
      (∀ j, j ≠ i → (m.pushClass i a).freeLists j = m.freeLists j) ∧
      (∀ c, ((m.pushClass i a).mem c).size = (m.mem c).size ∧
        ((m.pushClass i a).mem c).sizeClass = (m.mem c).sizeClass ∧
        (c ≠ a → ((m.pushClass i a).mem c).next = (m.mem c).next)) ∧
      ∀ c, c ≠ a → c ∉ l → (m.pushClass i a).mem c = m.mem c := by
  have hhead : ∀ c ∉ l, m.freeLists i ≠ some c := by
    intro c hc hlist
    rw [hl.head_eq] at hlist
    exact hc (List.mem_of_head? hlist)
  have hmem := fun c => pushClass_mem m i a c (hhead a ha)
  have hnext : ∀ c, (m.pushClass i a).next c = if c = a then m.freeLists i else m.next c := by
    intro c
    rw [next, hmem]
    rfl
  refine ⟨⟨?_, ?_⟩, ?_, fun j hj => ?_, fun c => ?_, fun c hca hcl => ?_⟩
  · simp [pushClass, toPtr, ha0]
  · rw [hnext, if_pos rfl]
    refine hl.congr fun c hc => ?_
    rw [hnext, if_neg (ne_of_mem_of_not_mem hc ha)]
  · simp [pushClass, modify]
  · simp [pushClass, modify, hj]
  · rw [hmem]
    exact ⟨rfl, rfl, fun hca => if_neg hca⟩
  · rw [hmem, if_neg hca, if_neg (hhead c hcl)]

/-- The chunks that are cut for a class lie one behind the other, and are put on the list of the class.

**Proof sketch.** Induction on the number of chunks. The chunks on the list lie before the place where the
next one is cut, so that its header changes no size and no class of theirs. -/
lemma carveChunks_spec {pos : ℕ} (count size : ℕ) (hl : IsList m.next (m.freeLists i) l)
    (hlt : ∀ a ∈ l, a < pos) (hpos : 0 < pos) (hend : pos + count * (chunkHeader + size) < 2 ^ 32) :
    ∃ new, new.length = count ∧
      IsList (m.carveChunks i size count pos).next ((m.carveChunks i size count pos).freeLists i)
        (new ++ l) ∧
      (m.carveChunks i size count pos).first = m.first ∧
      (∀ j, j ≠ i → (m.carveChunks i size count pos).freeLists j = m.freeLists j) ∧
      (∀ a ∈ new, pos ≤ a ∧ a + (chunkHeader + size) ≤ pos + count * (chunkHeader + size) ∧
        ((m.carveChunks i size count pos).mem a).sizeClass = i ∧
        ((m.carveChunks i size count pos).mem a).size = size) ∧
      (0 < count → pos ∈ new) ∧
      (∀ a < pos, ((m.carveChunks i size count pos).mem a).size = (m.mem a).size ∧
        ((m.carveChunks i size count pos).mem a).sizeClass = (m.mem a).sizeClass) ∧
      ∀ a < pos, a ∉ l → (m.carveChunks i size count pos).mem a = m.mem a := by
  induction count generalizing m l pos with
  | zero =>
    exact ⟨[], rfl, hl, rfl, fun _ _ => rfl, by simp, by simp, fun _ _ => ⟨rfl, rfl⟩,
      fun _ _ _ => rfl⟩
  | succ count ih =>
    have hh : chunkHeader = 20 := rfl
    rw [Nat.add_mul, Nat.one_mul] at hend
    set m₁ := m.modify pos fun c =>
      { c with size := size, allocated := false, sizeClass := i, prev := none } with hm₁
    have hposl : pos ∉ l := fun hmem => Nat.lt_irrefl pos (hlt pos hmem)
    have hold : ∀ a, a ≠ pos → m₁.mem a = m.mem a := fun a ha => modify_of_ne m _ ha
    have hl₁ : IsList m₁.next (m₁.freeLists i) l := by
      refine hl.congr fun a ha => ?_
      rw [next, hold a (ne_of_mem_of_not_mem ha hposl)]
      rfl
    obtain ⟨hlist, hfirst, hothers, hsame, hframe⟩ := pushClass_spec hl₁ hposl (by omega)
    have hstep : Word32.add pos (Word32.add chunkHeader size) = pos + (chunkHeader + size) := by
      have hinner : Word32.add chunkHeader size = chunkHeader + size := Word32.add_of_lt (by omega)
      rw [hinner, Word32.add_of_lt (by omega)]
    have hlt₁ : ∀ a ∈ pos :: l, a < pos + (chunkHeader + size) := by
      intro a ha
      rcases List.mem_cons.1 ha with rfl | ha
      · omega
      · have := hlt a ha
        omega
    obtain ⟨new, hlen, hnew, hfirst', hothers', hchunk, -, hbelow, hrest⟩ :=
      ih hlist hlt₁ (by omega) (by omega)
    have hcode : m.carveChunks i size (count + 1) pos =
        (m₁.pushClass i pos).carveChunks i size count (pos + (chunkHeader + size)) := by
      rw [MemoryManager.carveChunks, hstep]
    rw [hcode]
    refine ⟨new ++ [pos], by simp [hlen], ?_, ?_, fun j hj => ?_, fun a ha => ?_, fun _ => by simp,
      fun a ha => ?_, fun a ha hal => ?_⟩
    · rw [List.append_assoc]
      exact hnew
    · rw [hfirst', hfirst]
      rfl
    · rw [hothers' j hj, hothers j hj]
      rfl
    · rw [Nat.add_mul, Nat.one_mul]
      rcases List.mem_append.1 ha with ha | ha
      · obtain ⟨hge, hle, hclass, hsize⟩ := hchunk a ha
        exact ⟨by omega, by omega, hclass, hsize⟩
      · obtain rfl : a = pos := by simpa using ha
        obtain ⟨hsize, hclass⟩ := hbelow a (by omega)
        refine ⟨le_rfl, by omega, ?_, ?_⟩
        · rw [hclass, (hsame a).2.1, hm₁, modify_self]
        · rw [hsize, (hsame a).1, hm₁, modify_self]
    · obtain ⟨hsize, hclass⟩ := hbelow a (by omega)
      rw [hsize, hclass, (hsame a).1, (hsame a).2.1, hold a (by omega)]
      exact ⟨rfl, rfl⟩
    · rw [hrest a (by omega) (by simp [hal]; omega), hframe a (by omega) hal, hold a (by omega)]

/-- A small chunk that is put in its list keeps its size and class. -/
lemma pushClass_fields (m : MemoryManager) (i a c : ℕ) :
    ((m.pushClass i a).mem c).size = (m.mem c).size ∧
      ((m.pushClass i a).mem c).sizeClass = (m.mem c).sizeClass := by
  rw [pushClass, setPrev_mem]
  by_cases hc : c = a
  · simp [modify, hc]
  · simp [modify, hc]

/-- The header is that of a chunk that was cut for the class. -/
def CutFor (m : MemoryManager) (i a : ℕ) : Prop :=
  (m.mem a).size = classSize i ∧ (m.mem a).sizeClass = i

/-- Wherever the chunks of a class lie, also if addresses wrap around: the headers that change are those of
chunks of the class, and the last of them is the head of the list. -/
lemma carveChunks_cutFor (count pos : ℕ) (hpos : pos < 2 ^ 32) :
    (m.carveChunks i (classSize i) count pos).first = m.first ∧
      (∀ a, m.CutFor i a → (m.carveChunks i (classSize i) count pos).CutFor i a) ∧
      (0 < count → (m.carveChunks i (classSize i) count pos).CutFor i pos ∧
        ∃ a < 2 ^ 32, a = (pos + (count - 1) * (chunkHeader + classSize i)) % 2 ^ 32 ∧
          (m.carveChunks i (classSize i) count pos).freeLists i = toPtr a ∧
          (m.carveChunks i (classSize i) count pos).CutFor i a) := by
  induction count generalizing m pos with
  | zero => exact ⟨rfl, fun _ h => h, fun h => absurd h (Nat.lt_irrefl 0)⟩
  | succ count ih =>
    rw [MemoryManager.carveChunks]
    set m₁ := (m.modify pos fun c =>
      { c with size := classSize i, allocated := false, sizeClass := i, prev := none }).pushClass i pos
      with hm₁
    have hfields : ∀ a, (m₁.mem a).size = (if a = pos then classSize i else (m.mem a).size) ∧
        (m₁.mem a).sizeClass = (if a = pos then i else (m.mem a).sizeClass) := by
      intro a
      rw [hm₁, (pushClass_fields _ i pos a).1, (pushClass_fields _ i pos a).2]
      by_cases ha : a = pos
      · simp [modify, ha]
      · simp [modify, ha]
    have hfirst₁ : m₁.first = m.first := by
      rw [hm₁, pushClass]
      simp [modify]
    have hlist₁ : m₁.freeLists i = toPtr pos := by
      rw [hm₁, pushClass]
      simp [modify]
    have hself : m₁.CutFor i pos := by
      rw [CutFor, (hfields pos).1, (hfields pos).2, if_pos rfl, if_pos rfl]
      exact ⟨rfl, rfl⟩
    have hkeep : ∀ a, m.CutFor i a → m₁.CutFor i a := by
      rintro a ⟨hsize, hclass⟩
      rw [CutFor, (hfields a).1, (hfields a).2, hsize, hclass]
      simp
    obtain ⟨hfirst, hcut, hlast⟩ :=
      ih (m := m₁) (Word32.add pos (Word32.add chunkHeader (classSize i))) (Nat.mod_lt _ (by decide))
    refine ⟨hfirst.trans hfirst₁, fun a ha => hcut a (hkeep a ha), fun _ => ⟨hcut pos hself, ?_⟩⟩
    rcases Nat.eq_zero_or_pos count with rfl | hcount
    · refine ⟨pos, hpos, ?_, hlist₁, hself⟩
      simp only [Nat.zero_add, Nat.sub_self, Nat.zero_mul, Nat.add_zero, Nat.mod_eq_of_lt hpos]
    · obtain ⟨a, hlt, ha, hhead, hcuta⟩ := (hlast hcount).2
      refine ⟨a, hlt, ?_, hhead, hcuta⟩
      obtain ⟨k, rfl⟩ : ∃ k, count = k + 1 := ⟨count - 1, by omega⟩
      rw [ha]
      simp only [Nat.add_sub_cancel, Nat.add_mul, Nat.one_mul, Word32.add]
      omega

/-- The number of chunks that `refill_size_class` cuts. -/
def refillCount (i : ℕ) : ℕ := max 1 (refillSize / (classSize i + chunkHeader))

/-- A refill has room for one chunk at least and all that it is cut into, and the size that is left has
wrapped around. -/
lemma refillCount_spec (hi : i < numSizeClasses) :
    0 < refillCount i ∧ refillCount i * (chunkHeader + classSize i) ≤ refillSize ∧
      minAllocSize ≤ classSize i ∧
      chunkHeader + minAllocSize < Word32.sub (classSize i) refillSize ∧
      Word32.sub (Word32.sub (classSize i) refillSize) chunkHeader < 2 ^ 32 := by
  revert i
  decide

/-- What `refill_size_class` does with the chunk at the top: the size of what remains is computed from the
size of the first chunk that was cut, and wraps around. -/
lemma IsTop.refillSizeClass (h : m.IsTop t) (hfirst : m.first = some t) (hi : i < numSizeClasses)
    (hsz : refillSize ≤ (m.mem t).size) :
    m.refillSizeClass i = some ((({ m with first := none } : MemoryManager).carveChunks i
      (classSize i) (refillCount i) t).withTop (Word32.add t refillSize)
        (Word32.sub (Word32.sub (classSize i) refillSize) chunkHeader)) := by
  obtain ⟨hcount, -, -, hrest, -⟩ := refillCount_spec hi
  have hunlink : m.unlinkAfter none t = { m with first := none } := by
    simp [unlinkAfter, setNext, setPrev, h.next]
  obtain ⟨hnone, -, hcut⟩ := carveChunks_cutFor (m := { m with first := none }) (i := i)
    (refillCount i) t h.lt
  set c := ({ m with first := none } : MemoryManager).carveChunks i (classSize i) (refillCount i) t
  have hsize : (c.mem t).size = classSize i := (hcut hcount).1.1
  have hcode : m.refillSizeClass i =
      if chunkHeader + minAllocSize < Word32.sub (c.mem t).size refillSize then
        some (c.pushLarge (Word32.add t refillSize)
          (Word32.sub (Word32.sub (c.mem t).size refillSize) chunkHeader))
      else some c := by
    rw [MemoryManager.refillSizeClass, h.findBigChunk hfirst, if_pos hsz]
    simp only [Option.bind_eq_bind, Option.bind_some, hunlink]
    rfl
  rw [hcode, hsize, if_pos hrest, pushLarge_of_none hnone]

/-! ## The invariant is kept -/

/-- A header is below a new chunk at the top if it was below the old one. -/
lemma Below.of_first (h : m.Below a) (hfirst : ∀ t', m'.first = some t' → ∃ t ≤ t', m.first = some t) :
    m'.Below a := by
  refine ⟨h.pos, h.lt, fun t' ht' => ?_⟩
  obtain ⟨t, hle, ht⟩ := hfirst t' ht'
  exact lt_of_lt_of_le (h.below t ht) hle

/-- The chunk at the top stays one if its header does not change. -/
lemma IsTop.of_mem (h : m.IsTop t) (hmem : m'.mem t = m.mem t) : m'.IsTop t where
  ne_zero := h.ne_zero
  lt := h.lt
  next := by rw [hmem, h.next]
  prev := by rw [hmem, h.prev]
  allocated := by rw [hmem, h.allocated]
  size_lt := by
    rw [hmem]
    exact h.size_lt

/-- The chunks of two classes are different. -/
lemma TopOnly.notMem_small (h : TopOnly m held small) {j : ℕ} (hi : i < numSizeClasses)
    (hj : j < numSizeClasses) (hji : j ≠ i) (ha : a ∈ small j) : a ∉ small i := by
  intro hai
  have hclass := (h.small_chunk j hj a ha).2.1
  exact hji (hclass.symm.trans (h.small_chunk i hi a hai).2.1)

/-- The headers that a change of the list of class `i` leaves as they are. -/
def Kept (held : List ℕ) (small : ℕ → List ℕ) (i a : ℕ) : Prop :=
  a ∈ held ∨ ∃ j < numSizeClasses, j ≠ i ∧ a ∈ small j

/-- Chunks that are kept lie below the top chunk. -/
lemma TopOnly.below_of_kept (h : TopOnly m held small) (ha : Kept held small i a) : m.Below a := by
  rcases ha with ha | ⟨j, hj, -, ha⟩
  · exact (h.held_chunk a ha).1
  · exact (h.small_chunk j hj a ha).1

/-- The list of one class is replaced by another one. -/
lemma TopOnly.update (h : TopOnly m held small)
    (htop : ∀ t, m'.first = some t → m'.IsTop t ∧ (0 < (m'.mem t).size → t + chunkHeader < 2 ^ 32))
    (hbelow : ∀ c, m.Below c → m'.Below c) (hlist : IsList m'.next (m'.freeLists i) l)
    (hothers : ∀ j, j ≠ i → m'.freeLists j = m.freeLists j)
    (hchunk : ∀ c ∈ l, m'.Below c ∧ (m'.mem c).sizeClass = i ∧ (m'.mem c).size = classSize i)
    (hkept : ∀ c, Kept held small i c → ∃ b, m'.mem c = { m.mem c with allocated := b })
    (hheld : ∀ c ∈ held, c ∉ l) : TopOnly m' held (Function.update small i l) where
  top := htop
  lists j hj := by
    by_cases hji : j = i
    · subst hji
      rw [Function.update_self]
      exact hlist
    · rw [Function.update_of_ne hji, hothers j hji]
      refine (h.lists j hj).congr fun c hc => ?_
      obtain ⟨b, hb⟩ := hkept c (.inr ⟨j, hj, hji, hc⟩)
      rw [next, hb]
      rfl
  small_chunk j hj c hc := by
    by_cases hji : j = i
    · subst hji
      rw [Function.update_self] at hc
      exact hchunk c hc
    · rw [Function.update_of_ne hji] at hc
      obtain ⟨b, hb⟩ := hkept c (.inr ⟨j, hj, hji, hc⟩)
      obtain ⟨hlow, hclass, hsize⟩ := h.small_chunk j hj c hc
      rw [hb]
      exact ⟨hbelow c hlow, hclass, hsize⟩
  held_chunk c hc := by
    obtain ⟨b, hb⟩ := hkept c (.inl hc)
    obtain ⟨hlow, hns, hhead⟩ := h.held_chunk c hc
    rw [hb]
    refine ⟨hbelow c hlow, fun j hj hmem => ?_, hhead⟩
    by_cases hji : j = i
    · subst hji
      rw [Function.update_self] at hmem
      exact hheld c hc hmem
    · rw [Function.update_of_ne hji] at hmem
      exact hns j hj hmem
  nodup := h.nodup

/-- The lists of the classes stay as they are. -/
lemma TopOnly.congr (h : TopOnly m held small)
    (htop : ∀ t, m'.first = some t → m'.IsTop t ∧ (0 < (m'.mem t).size → t + chunkHeader < 2 ^ 32))
    (hbelow : ∀ c, m.Below c → m'.Below c) (hlists : m'.freeLists = m.freeLists)
    (hmem : ∀ c, m.Below c → ∃ b, m'.mem c = { m.mem c with allocated := b }) :
    TopOnly m' held small where
  top := htop
  lists j hj := by
    rw [hlists]
    refine (h.lists j hj).congr fun c hc => ?_
    obtain ⟨b, hb⟩ := hmem c (h.small_chunk j hj c hc).1
    rw [next, hb]
    rfl
  small_chunk j hj c hc := by
    obtain ⟨hlow, hclass, hsize⟩ := h.small_chunk j hj c hc
    obtain ⟨b, hb⟩ := hmem c hlow
    rw [hb]
    exact ⟨hbelow c hlow, hclass, hsize⟩
  held_chunk c hc := by
    obtain ⟨hlow, hns, hhead⟩ := h.held_chunk c hc
    obtain ⟨b, hb⟩ := hmem c hlow
    rw [hb]
    exact ⟨hbelow c hlow, hns, hhead⟩
  nodup := h.nodup

/-- A block is handed out. -/
lemma TopOnly.hold (h : TopOnly m held small) (hb : m.Below a) (hns : ∀ j < numSizeClasses, a ∉ small j)
    (hhead : BlockHeader (m.mem a)) (ha : a ∉ held) : TopOnly m (a :: held) small where
  top := h.top
  lists := h.lists
  small_chunk := h.small_chunk
  held_chunk c hc := by
    rcases List.mem_cons.1 hc with rfl | hc
    · exact ⟨hb, hns, hhead⟩
    · exact h.held_chunk c hc
  nodup := List.nodup_cons.2 ⟨ha, h.nodup⟩

/-- The manager after the chunk `a` was taken off the list of a class. -/
def popped (m : MemoryManager) (i a : ℕ) : MemoryManager :=
  { m with
    freeLists := Function.update m.freeLists i (m.mem a).next
    mem := Function.update m.mem a { m.mem a with allocated := true } }

/-- The first chunk of a class is handed out. -/
lemma popClass_eq (hlist : m.freeLists i = some a) :
    m.popClass i = (m.popped i a, Word32.add a chunkHeader) := by
  rw [MemoryManager.popClass, hlist]
  rfl

/-- It is marked, and nothing else of a chunk changes. -/
lemma popped_mem (m : MemoryManager) (i a c : ℕ) : (m.popped i a).mem c =
    { m.mem c with allocated := if c = a then true else (m.mem c).allocated } := by
  by_cases hc : c = a
  · subst hc
    simp [popped]
  · simp [popped, hc]

/-- The first chunk on the list of a class becomes a block. -/
lemma TopOnly.popClass (h : TopOnly m held small) (hi : i < numSizeClasses)
    (hlist : m.freeLists i = some a) :
    ∃ rest, small i = a :: rest ∧ (m.popClass i).2 = a + chunkHeader ∧
      TopOnly (m.popClass i).1 (a :: held) (Function.update small i rest) := by
  have hl := h.lists i hi
  cases hsmall : small i with
  | nil =>
    rw [hsmall, isList_nil, hlist] at hl
    simp at hl
  | cons b rest =>
    rw [hsmall, isList_cons, hlist] at hl
    obtain ⟨hab, hrest⟩ := hl
    obtain rfl : a = b := Option.some.inj hab
    have hnd : (a :: rest).Nodup := hsmall ▸ (h.lists i hi).nodup
    have hai : a ∈ small i := by
      rw [hsmall]
      exact List.mem_cons_self
    have hrests : ∀ c ∈ rest, c ∈ small i := by
      intro c hc
      rw [hsmall]
      exact List.mem_cons_of_mem a hc
    have ha := h.small_chunk i hi a hai
    rw [popClass_eq hlist]
    set m₁ := m.popped i a with hm₁
    have hmem := popped_mem m i a
    have hnext : m₁.next = m.next := by
      funext c
      rw [next, hmem]
      rfl
    have hbelow : ∀ c, m.Below c → m₁.Below c := fun c hc => hc.of_first fun t ht => ⟨t, le_rfl, ht⟩
    have hupdate : TopOnly m₁ held (Function.update small i rest) := by
      refine h.update (fun t ht => ?_) hbelow ?_ (fun j hji => ?_) (fun c hc => ?_)
        (fun c _ => ⟨_, hmem c⟩) fun c hc hcr => (h.held_chunk c hc).2.1 i hi (hrests c hcr)
      · obtain ⟨htop, hend⟩ := h.top t ht
        have hsame : m₁.mem t = m.mem t := by
          rw [hmem, if_neg (Nat.ne_of_gt (ha.1.below t ht))]
        rw [hsame]
        exact ⟨htop.of_mem hsame, hend⟩
      · have hhead : m₁.freeLists i = m.next a := Function.update_self ..
        rw [hnext, hhead]
        exact hrest
      · simp [hm₁, popped, hji]
      · obtain ⟨hlow, hclass, hsize⟩ := h.small_chunk i hi c (hrests c hc)
        rw [hmem]
        exact ⟨hbelow c hlow, hclass, hsize⟩
    refine ⟨rest, rfl, Word32.add_of_lt ha.1.lt, hupdate.hold (hbelow a ha.1) (fun j hj hmemj => ?_) ?_
      fun hmemh => (h.held_chunk a hmemh).2.1 i hi hai⟩
    · by_cases hji : j = i
      · subst hji
        rw [Function.update_self] at hmemj
        exact (List.nodup_cons.1 hnd).1 hmemj
      · rw [Function.update_of_ne hji] at hmemj
        exact h.notMem_small hi hj hji hmemj hai
    · rw [hmem]
      exact .inl ⟨by simpa [ha.2.1] using hi, by simpa [ha.2.1] using ha.2.2⟩

/-- A refill of a class below the end of the address space. -/
lemma TopOnly.refillSizeClass (h : TopOnly m held small) (hi : i < numSizeClasses)
    (hfirst : m.first = some t) (hnone : m.freeLists i = none) (hsz : refillSize ≤ (m.mem t).size)
    (hend : t + refillSize + chunkHeader < 2 ^ 32) :
    ∃ m' new, m.refillSizeClass i = some m' ∧ new ≠ [] ∧
      TopOnly m' held (Function.update small i new) := by
  obtain ⟨htop, -⟩ := h.top t hfirst
  obtain ⟨hcount, hfit, -, -, hrest⟩ := refillCount_spec hi
  have hh : chunkHeader = 20 := rfl
  have hr : refillSize = 4096 := rfl
  have hpos : 0 < t := Nat.pos_of_ne_zero htop.ne_zero
  have hnil : IsList ({ m with first := none } : MemoryManager).next
      (({ m with first := none } : MemoryManager).freeLists i) [] := hnone
  obtain ⟨new, hlen, hlist, -, hothers, hchunk, -, -, hframe⟩ := carveChunks_spec
    (refillCount i) (classSize i) hnil (by simp) hpos (by omega)
  have hadd : Word32.add t refillSize = t + refillSize := Word32.add_of_lt (by omega)
  refine ⟨_, new, htop.refillSizeClass hfirst hi hsz, fun hnew => ?_, ?_⟩
  · rw [hnew, List.length_nil] at hlen
    omega
  rw [hadd]
  rw [List.append_nil] at hlist
  set c := ({ m with first := none } : MemoryManager).carveChunks i (classSize i) (refillCount i) t
  set m' := c.withTop (t + refillSize)
    (Word32.sub (Word32.sub (classSize i) refillSize) chunkHeader) with hm'
  have hfirst' : m'.first = some (t + refillSize) := by
    rw [hm', withTop, toPtr, if_neg (by omega)]
  have hself : m'.mem (t + refillSize) = { next := none, prev := none, allocated := false
                                           size := Word32.sub (Word32.sub (classSize i) refillSize)
                                             chunkHeader
                                           sizeClass := numSizeClasses } := by
    simp [hm', withTop]
  have hcut : ∀ a, a < t + refillSize → m'.mem a = c.mem a := by
    intro a ha
    simp [hm', withTop, Nat.ne_of_lt ha]
  have hold : ∀ a, m.Below a → m'.mem a = m.mem a := by
    intro a ha
    have hat := ha.below t hfirst
    rw [hcut a (by omega), hframe a hat (by simp)]
  have hbelow : ∀ a, m.Below a → m'.Below a := by
    refine fun a ha => ha.of_first fun t' ht' => ⟨t, ?_, hfirst⟩
    rw [hfirst'] at ht'
    obtain rfl := Option.some.inj ht'
    omega
  refine h.update (fun t' ht' => ?_) hbelow ?_ hothers (fun a ha => ?_)
    (fun a ha => ⟨_, hold a (h.below_of_kept ha)⟩) fun a ha hmem => ?_
  · rw [hfirst'] at ht'
    obtain rfl := Option.some.inj ht'
    refine ⟨⟨by omega, by omega, ?_, ?_, ?_, ?_⟩, fun _ => by omega⟩
    · rw [hself]
    · rw [hself]
    · rw [hself]
    · rw [hself]
      exact hrest
  · refine hlist.congr fun a ha => ?_
    have hle := (hchunk a ha).2.1
    rw [next, hcut a (by omega)]
    rfl
  · obtain ⟨hge, hle, hclass, hsize⟩ := hchunk a ha
    rw [hcut a (by omega)]
    refine ⟨⟨by omega, by omega, fun t' ht' => ?_⟩, hclass, hsize⟩
    rw [hfirst'] at ht'
    obtain rfl := Option.some.inj ht'
    omega
  · have hge := (hchunk a hmem).1
    have hlt := (h.held_chunk a ha).1.below t hfirst
    omega

/-- A large request that is cut below the end of the address space. -/
lemma TopOnly.allocateLarge (h : TopOnly m held small) (hfirst : m.first = some t) (hpos : 0 < size)
    (halign : size % minAllocSize = 0) (hsz : size ≤ (m.mem t).size)
    (hend : Word32.add (Word32.add size chunkHeader) minAllocSize ≤ (m.mem t).size →
      t + chunkHeader + size + chunkHeader < 2 ^ 32) :
    ∃ m', m.allocateLarge size = some (m', t + chunkHeader) ∧ TopOnly m' (t :: held) small := by
  have hh : chunkHeader = 20 := rfl
  obtain ⟨htop, htend⟩ := h.top t hfirst
  have htlt := htend (by omega)
  obtain ⟨m', hcode, hlists, hclass, hnext, hprev, -, hcases⟩ := htop.allocateLarge hfirst halign hsz
  rw [Word32.add_of_lt htlt] at hcode
  refine ⟨m', hcode, ?_⟩
  -- the chunk at the top lies higher than before, and the chunks below it are as they were
  obtain ⟨hfirst', hold, htop'⟩ : (∀ t', m'.first = some t' → t < t') ∧
      (∀ a < t, m'.mem a = m.mem a) ∧
      ∀ t', m'.first = some t' → m'.IsTop t' ∧ (0 < (m'.mem t').size → t' + chunkHeader < 2 ^ 32) := by
    rcases hcases with ⟨-, hnone, hframe⟩ | ⟨hsplit, -, hrest, hself, hframe⟩
    · refine ⟨fun t' ht' => ?_, fun a ha => hframe a (Nat.ne_of_lt ha), fun t' ht' => ?_⟩
      · rw [hnone] at ht'
        simp at ht'
      · rw [hnone] at ht'
        simp at ht'
    · have hadd : Word32.add (Word32.add t chunkHeader) size = t + chunkHeader + size := by
        have hlt := hend hsplit
        rw [Word32.add_of_lt htlt, Word32.add_of_lt (by omega)]
      have hsub : Word32.sub (Word32.sub (m.mem t).size size) chunkHeader < 2 ^ 32 :=
        Nat.mod_lt _ (by decide)
      rw [hadd] at hrest hself hframe
      rw [toPtr, if_neg (by omega)] at hrest
      refine ⟨fun t' ht' => ?_, fun a ha => hframe a (by omega) (by omega), fun t' ht' => ?_⟩
      · rw [hrest] at ht'
        obtain rfl := Option.some.inj ht'
        omega
      · rw [hrest] at ht'
        obtain rfl := Option.some.inj ht'
        have hlt := hend hsplit
        refine ⟨⟨by omega, by omega, ?_, ?_, ?_, ?_⟩, fun _ => hlt⟩
        · rw [hself]
        · rw [hself]
        · rw [hself]
        · rw [hself]
          exact hsub
  have hmem : ∀ a, m.Below a → m'.mem a = m.mem a := fun a ha => hold a (ha.below t hfirst)
  have hbelow : ∀ a, m.Below a → m'.Below a := fun a ha =>
    ha.of_first fun t' ht' => ⟨t, (hfirst' t' ht').le, hfirst⟩
  have hkept := h.congr htop' hbelow hlists fun a ha => ⟨_, hmem a ha⟩
  refine hkept.hold ⟨Nat.pos_of_ne_zero htop.ne_zero, htlt, hfirst'⟩ (fun j hj hmemj => ?_)
    (.inr ⟨hclass, hnext, hprev⟩) fun hmemh => ?_
  · exact Nat.lt_irrefl t ((h.small_chunk j hj t hmemj).1.below t hfirst)
  · exact Nat.lt_irrefl t ((h.held_chunk t hmemh).1.below t hfirst)

/-- The header of the block at an address. -/
lemma header_add (ha : a < 2 ^ 32) : header (Word32.add a chunkHeader) = a := by
  simp only [header, Word32.add, Word32.sub, show chunkHeader = 20 from rfl]
  omega

/-- Marking a block as free keeps the invariant. -/
lemma TopOnly.modify_allocated (h : TopOnly m held small) (a : ℕ) :
    TopOnly (m.modify a fun c => { c with allocated := false }) held small := by
  have hmem := MemoryManager.modify_allocated m a
  set m₁ := m.modify a fun c => { c with allocated := false }
  have hbelow : ∀ c, m.Below c → m₁.Below c := fun c hc => ⟨hc.pos, hc.lt, hc.below⟩
  refine h.congr (fun t ht => ?_) hbelow rfl fun c _ => ⟨_, hmem c⟩
  obtain ⟨htop, hend⟩ := h.top t ht
  refine ⟨⟨htop.ne_zero, htop.lt, ?_, ?_, ?_, ?_⟩, ?_⟩
  · rw [hmem, htop.next]
  · rw [hmem, htop.prev]
  · rw [hmem, htop.allocated]
    exact ite_self _
  · rw [hmem]
    exact htop.size_lt
  · rw [hmem]
    exact hend

/-- A block that is given back is not held any more. -/
lemma TopOnly.erase (h : TopOnly m held small) (a : ℕ) : TopOnly m (held.erase a) small :=
  ⟨h.top, h.lists, h.small_chunk, fun c hc => h.held_chunk c (List.mem_of_mem_erase hc),
    h.nodup.erase a⟩

/-- A chunk that no caller holds and no list has is put on the list of its class. -/
lemma TopOnly.pushClass (h : TopOnly m held small) (hi : i < numSizeClasses) (hb : m.Below a)
    (hns : ∀ j < numSizeClasses, a ∉ small j) (ha : a ∉ held) (hclass : (m.mem a).sizeClass = i)
    (hsize : (m.mem a).size = classSize i) :
    TopOnly (m.pushClass i a) held (Function.update small i (a :: small i)) := by
  obtain ⟨hlist, hfirst, hothers, hsame, hframe⟩ :=
    pushClass_spec (h.lists i hi) (hns i hi) (Nat.pos_iff_ne_zero.1 hb.pos)
  have hbelow : ∀ c, m.Below c → (m.pushClass i a).Below c :=
    fun c hc => ⟨hc.pos, hc.lt, fun t ht => hc.below t (hfirst ▸ ht)⟩
  refine h.update (fun t ht => ?_) hbelow hlist hothers (fun c hc => ?_) (fun c hc => ?_)
    fun c hc hmem => ?_
  · rw [hfirst] at ht
    obtain ⟨htop, hend⟩ := h.top t ht
    have hts : t ∉ small i := fun hmemt =>
      Nat.lt_irrefl t ((h.small_chunk i hi t hmemt).1.below t ht)
    have hmem := hframe t (Nat.ne_of_gt (hb.below t ht)) hts
    rw [hmem]
    exact ⟨htop.of_mem hmem, hend⟩
  · rw [(hsame c).1, (hsame c).2.1]
    rcases List.mem_cons.1 hc with rfl | hc
    · exact ⟨hbelow c hb, hclass, hsize⟩
    · obtain ⟨hlow, hcl, hsz⟩ := h.small_chunk i hi c hc
      exact ⟨hbelow c hlow, hcl, hsz⟩
  · refine ⟨_, hframe c ?_ ?_⟩
    · rcases hc with hc | ⟨j, hj, -, hc⟩
      · exact ne_of_mem_of_not_mem hc ha
      · exact ne_of_mem_of_not_mem hc (hns j hj)
    · rcases hc with hc | ⟨j, hj, hji, hc⟩
      · exact (h.held_chunk c hc).2.1 i hi
      · exact h.notMem_small hi hj hji hc
  · rcases List.mem_cons.1 hmem with rfl | hmem
    · exact ha hc
    · exact (h.held_chunk c hc).2.1 i hi hmem

/-- A block that is freed is put on the list of its class; a large one is on no list any more. -/
lemma TopOnly.free (h : TopOnly m held small) (ha : a ∈ held) :
    ∃ m' small', m.free (a + chunkHeader) = some m' ∧ TopOnly m' (held.erase a) small' := by
  obtain ⟨hb, hns, hhead⟩ := h.held_chunk a ha
  have hne : a + chunkHeader ≠ 0 := by
    have := hb.pos
    omega
  have hfree := (h.modify_allocated a).erase a
  have hmem := MemoryManager.modify_allocated m a a
  have hheader : header (a + chunkHeader) = a := by
    rw [← Word32.add_of_lt hb.lt, header_add (Nat.lt_of_le_of_lt (Nat.le_add_right _ _) hb.lt)]
  rw [MemoryManager.free, if_neg hne, hheader]
  rcases hhead with ⟨hclass, hsize⟩ | ⟨hclass, hnext, hprev⟩
  · rw [if_pos hclass]
    refine ⟨_, _, rfl, hfree.pushClass hclass ⟨hb.pos, hb.lt, hb.below⟩ hns ?_ ?_ ?_⟩
    · exact fun hmemh => (h.nodup.mem_erase_iff.1 hmemh).1 rfl
    · rw [hmem]
    · rw [hmem]
      exact hsize
  · rw [if_neg (by omega), freeLarge_of_unlinked hprev hnext]
    exact ⟨_, small, rfl, hfree⟩

/-- An initialised heap has one large chunk, or none. -/
lemma topOnly_onInitMemoryManager (mem : ℕ → MemoryChunk) {start size : ℕ}
    (hr : start + size ≤ 2 ^ 32) :
    TopOnly (onInitMemoryManager mem start size) [] (fun _ => []) := by
  have hh : chunkHeader = 20 := rfl
  rw [onInitMemoryManager]
  split_ifs with hsize
  · exact ⟨fun t ht => by simp at ht, fun _ _ => rfl, by simp, by simp, List.nodup_nil⟩
  · refine ⟨fun t ht => ?_, fun _ _ => rfl, by simp, by simp, List.nodup_nil⟩
    have hstart : start ≠ 0 ∧ start = t := by
      simp only [toPtr] at ht
      split_ifs at ht with h0
      exact ⟨h0, Option.some.inj ht⟩
    obtain ⟨h0, rfl⟩ := hstart
    refine ⟨⟨h0, by omega, by simp, by simp, by simp, ?_⟩, ?_⟩
    · simp only [Function.update_self]
      omega
    · simp only [Function.update_self]
      omega

/-! ## Sizes -/

/-- A rounded size is a 32-bit number. -/
lemma roundUp_lt (n : ℕ) : roundUp n < 2 ^ 32 := by
  simp only [roundUp, Word32.add, show minAllocSize = 16 from rfl]
  omega

/-- It is a multiple of `MIN_ALLOC_SIZE`. -/
lemma roundUp_mod (n : ℕ) : roundUp n % minAllocSize = 0 := Nat.mul_mod_left ..

/-- It has room for the size, if this is not too large. -/
lemma le_roundUp (hn : n + (minAllocSize - 1) < 2 ^ 32) : n ≤ roundUp n := by
  rw [roundUp, Word32.add_of_lt hn]
  simp only [show minAllocSize = 16 from rfl]
  omega

/-- Rounding a size up wraps around for the last sizes. -/
lemma roundUp_eq_zero (hn : n < 2 ^ 32) (hwrap : ¬ n + (minAllocSize - 1) < 2 ^ 32) :
    roundUp n = 0 := by
  simp only [roundUp, Word32.add, show minAllocSize = 16 from rfl] at hwrap ⊢
  omega

/-- The chunks of the class of a size are large enough for it. -/
lemma le_classSize (hi : getSizeClassIndex size < numSizeClasses) :
    size ≤ classSize (getSizeClassIndex size) := by
  have hlt : sizeClasses.findIdx (fun c => decide (size ≤ c)) < sizeClasses.length := hi
  have hget := List.findIdx_getElem (w := hlt)
  rw [List.getElem_eq_getD 0] at hget
  exact of_decide_eq_true hget

/-- The requests that are served from the large list. -/
lemma large_of_class (hi : ¬ getSizeClassIndex size < numSizeClasses) : 1024 < size := by
  by_contra hle
  apply hi
  refine List.findIdx_lt_length_of_exists ⟨1024, by decide, ?_⟩
  simpa using hle

/-- A class without a large chunk to cut is not refilled. -/
lemma refillSizeClass_of_lt (h : ∀ t, m.first = some t → m.IsTop t ∧ (m.mem t).size < refillSize) :
    m.refillSizeClass i = some m := by
  cases hfirst : m.first with
  | none =>
    obtain ⟨k, hk⟩ : ∃ k, listFuel = k + 1 := ⟨2 ^ 32 - 1, rfl⟩
    simp [MemoryManager.refillSizeClass, hfirst, hk, MemoryManager.findBigChunk]
  | some t =>
    obtain ⟨ht, hlt⟩ := h t hfirst
    rw [MemoryManager.refillSizeClass, ht.findBigChunk hfirst, if_neg (by omega)]
    simp

/-- What a request for a class does: it fails if there is no chunk, and takes a chunk of the class
otherwise, also if the refill wraps around. -/
lemma TopOnly.allocateClass (h : TopOnly m held small) (hi : i < numSizeClasses) (size : ℕ) :
    ∃ m' p, m.allocateFromSizeClass size i = some (m', p) ∧
      (p ≠ 0 → ∃ a, 0 < a ∧ a < 2 ^ 32 ∧ p = Word32.add a chunkHeader ∧ m'.CutFor i a) := by
  rw [allocateFromSizeClass, if_neg (by omega)]
  cases hlist : m.freeLists i with
  | some a =>
    obtain ⟨rest, hsmall, -, -⟩ := h.popClass hi hlist
    obtain ⟨hb, hclass, hsize⟩ := h.small_chunk i hi a (by rw [hsmall]; simp)
    refine ⟨_, _, by rw [popClass_eq hlist], fun _ => ⟨a, hb.pos, ?_, rfl, ?_⟩⟩
    · have := hb.lt
      omega
    · rw [CutFor, popped_mem]
      exact ⟨hsize, hclass⟩
  | none =>
    by_cases hbig : ∃ t, m.first = some t ∧ refillSize ≤ (m.mem t).size
    · obtain ⟨t, hfirst, hsz⟩ := hbig
      obtain ⟨htop, -⟩ := h.top t hfirst
      obtain ⟨hcount, hfit, -⟩ := refillCount_spec hi
      obtain ⟨-, -, hlast⟩ := carveChunks_cutFor (m := { m with first := none }) (i := i)
        (refillCount i) t htop.lt
      obtain ⟨a, hlt, ha, hhead, hcut⟩ := (hlast hcount).2
      rw [htop.refillSizeClass hfirst hi hsz]
      set c := ({ m with first := none } : MemoryManager).carveChunks i (classSize i) (refillCount i) t
      set m' := c.withTop (Word32.add t refillSize)
        (Word32.sub (Word32.sub (classSize i) refillSize) chunkHeader)
      have hhead' : m'.freeLists i = toPtr a := hhead
      by_cases ha0 : a = 0
      · refine ⟨m', 0, ?_, fun h0 => absurd rfl h0⟩
        rw [Option.map_some, MemoryManager.popClass, hhead', ha0]
        rfl
      · rw [toPtr, if_neg ha0] at hhead'
        refine ⟨_, _, by rw [Option.map_some, popClass_eq hhead'],
          fun _ => ⟨a, Nat.pos_of_ne_zero ha0, hlt, rfl, ?_⟩⟩
        -- the header of what remains is another one
        have hne : a ≠ Word32.add t refillSize := by
          obtain ⟨k, hk⟩ : ∃ k, refillCount i = k + 1 := ⟨refillCount i - 1, by omega⟩
          rw [hk, Nat.add_mul, Nat.one_mul] at hfit
          rw [ha, hk, Nat.add_sub_cancel]
          simp only [Word32.add, show chunkHeader = 20 from rfl, show refillSize = 4096 from rfl]
            at hfit ⊢
          omega
        have hmem : m'.mem a = c.mem a := Function.update_of_ne hne _ _
        rw [CutFor, popped_mem, hmem]
        exact hcut
    · refine ⟨m, 0, ?_, fun h0 => absurd rfl h0⟩
      rw [refillSizeClass_of_lt fun t ht =>
        ⟨(h.top t ht).1, Nat.lt_of_not_le fun hle => hbig ⟨t, ht, hle⟩⟩]
      rw [Option.map_some, MemoryManager.popClass, hlist]

/-- A request for a class without a chunk. -/
lemma allocateClass_of_lt (hi : i < numSizeClasses) (hlist : m.freeLists i = none)
    (h : ∀ t, m.first = some t → m.IsTop t ∧ (m.mem t).size < refillSize) (size : ℕ) :
    m.allocateFromSizeClass size i = some (m, 0) := by
  rw [allocateFromSizeClass, if_neg (by omega), hlist]
  show (m.refillSizeClass i).map (fun m' => m'.popClass i) = some (m, 0)
  rw [refillSizeClass_of_lt h, Option.map_some, MemoryManager.popClass, hlist]

/-- A request for a class that is served, with a refill below the end of the address space. -/
lemma TopOnly.serveClass (h : TopOnly m held small) (hi : i < numSizeClasses)
    (hchunk : m.freeLists i ≠ none ∨ ∃ t, m.first = some t ∧ refillSize ≤ (m.mem t).size ∧
      t + refillSize + chunkHeader < 2 ^ 32) (size : ℕ) :
    ∃ m' a small', m.allocateFromSizeClass size i = some (m', a + chunkHeader) ∧
      TopOnly m' (a :: held) small' := by
  rw [allocateFromSizeClass, if_neg (by omega)]
  cases hlist : m.freeLists i with
  | some a =>
    obtain ⟨rest, -, hp, h'⟩ := h.popClass hi hlist
    exact ⟨_, a, _, by rw [← hp], h'⟩
  | none =>
    obtain ⟨t, hfirst, hsz, hend⟩ := hchunk.resolve_left fun hne => hne hlist
    obtain ⟨m', new, hrefill, hnew, h'⟩ := h.refillSizeClass hi hfirst hlist hsz hend
    have hhead := h'.lists i hi
    rw [Function.update_self] at hhead
    cases new with
    | nil => exact absurd rfl hnew
    | cons a new =>
      obtain ⟨rest, -, hp, h''⟩ := h'.popClass hi hhead.1
      refine ⟨_, a, _, ?_, h''⟩
      rw [hrefill, Option.map_some, ← hp]

end MemoryManager

open MemoryManager

/-! ## Runs -/

namespace Heap

/-- The memory that a call cuts off a large chunk, and the header behind it, lie below the end of the
address space. -/
def CutsBelow (s : Heap) : HeapOp → Prop
  | .malloc size =>
    if getSizeClassIndex (roundUp size) < numSizeClasses then
      s.manager.freeLists (getSizeClassIndex (roundUp size)) ≠ none ∨
        ∀ a ∈ s.manager.largeList, refillSize ≤ (s.manager.mem a).size →
          a + refillSize + chunkHeader < 2 ^ 32
    else
      ∀ a ∈ s.manager.largeList, roundUp size ≤ (s.manager.mem a).size →
        Word32.add (Word32.add (roundUp size) chunkHeader) minAllocSize ≤ (s.manager.mem a).size →
          a + chunkHeader + roundUp size + chunkHeader < 2 ^ 32
  | .free _ => True

instance (s : Heap) : (op : HeapOp) → Decidable (s.CutsBelow op)
  | .malloc size => inferInstanceAs (Decidable
      (if getSizeClassIndex (roundUp size) < numSizeClasses then
        s.manager.freeLists (getSizeClassIndex (roundUp size)) ≠ none ∨
          ∀ a ∈ s.manager.largeList, refillSize ≤ (s.manager.mem a).size →
            a + refillSize + chunkHeader < 2 ^ 32
      else
        ∀ a ∈ s.manager.largeList, roundUp size ≤ (s.manager.mem a).size →
          Word32.add (Word32.add (roundUp size) chunkHeader) minAllocSize ≤ (s.manager.mem a).size →
            a + chunkHeader + roundUp size + chunkHeader < 2 ^ 32))
  | .free _ => .isTrue trivial

/-- The invariant, with the blocks that callers hold. -/
def TopInv (s : Heap) : Prop :=
  ∃ held small, s.live = held.map (· + chunkHeader) ∧ TopOnly s.manager held small

/-- Every call that cuts memory below the end of the address space returns and keeps the invariant. -/
lemma TopInv.step {s : Heap} {op : HeapOp} (h : s.TopInv) (hop : s.Possible op)
    (hcuts : s.CutsBelow op) : ∃ s', s.step op = some s' ∧ s'.TopInv := by
  obtain ⟨held, small, hlive, h⟩ := h
  have hmem : ∀ a, a ∈ s.manager.largeList ↔ s.manager.first = some a :=
    fun a => mem_largeList fun t ht => (h.top t ht).1
  cases op with
  | malloc size =>
    simp only [CutsBelow, hmem] at hcuts
    -- a block that is returned is held by the caller from then on
    have hreturn : ∀ m' a small', s.manager.malloc size = some (m', a + chunkHeader) →
        TopOnly m' (a :: held) small' → ∃ s', s.step (.malloc size) = some s' ∧ s'.TopInv := by
      intro m' a small' hcode h'
      refine ⟨⟨m', (a + chunkHeader) :: s.live⟩, ?_, a :: held, small', by rw [hlive]; rfl, h'⟩
      rw [Heap.step, hcode, Option.map_some, if_neg]
      simp [chunkHeader]
    have hfail : s.manager.malloc size = some (s.manager, 0) →
        ∃ s', s.step (.malloc size) = some s' ∧ s'.TopInv := by
      intro hcode
      refine ⟨s, ?_, held, small, hlive, h⟩
      rw [Heap.step, hcode]
      rfl
    by_cases hi : getSizeClassIndex (roundUp size) < numSizeClasses
    · rw [if_pos hi] at hcuts
      by_cases hchunk : s.manager.freeLists (getSizeClassIndex (roundUp size)) ≠ none ∨
          ∃ t, s.manager.first = some t ∧ refillSize ≤ (s.manager.mem t).size
      · have hserve : s.manager.freeLists (getSizeClassIndex (roundUp size)) ≠ none ∨
            ∃ t, s.manager.first = some t ∧ refillSize ≤ (s.manager.mem t).size ∧
              t + refillSize + chunkHeader < 2 ^ 32 := by
          rcases hcuts with hlist | hend
          · exact .inl hlist
          · refine hchunk.imp_right ?_
            rintro ⟨t, hfirst, hsz⟩
            exact ⟨t, hfirst, hsz, hend t hfirst hsz⟩
        obtain ⟨m', a, small', hcode, h'⟩ := h.serveClass hi hserve (roundUp size)
        exact hreturn m' a small' hcode h'
      · obtain ⟨hlist, hsmall⟩ := not_or.1 hchunk
        refine hfail (allocateClass_of_lt hi (not_not.1 hlist) (fun t ht => ?_) _)
        exact ⟨(h.top t ht).1, Nat.lt_of_not_le fun hle => hsmall ⟨t, ht, hle⟩⟩
    · rw [if_neg hi] at hcuts
      have hcode : s.manager.malloc size = s.manager.allocateLarge (roundUp size) := by
        rw [MemoryManager.malloc, allocateFromSizeClass, if_pos (by omega)]
      by_cases hbig : ∃ t, s.manager.first = some t ∧ roundUp size ≤ (s.manager.mem t).size
      · obtain ⟨t, hfirst, hsz⟩ := hbig
        have hpos := large_of_class hi
        obtain ⟨m', halloc, h'⟩ := h.allocateLarge hfirst (by omega) (roundUp_mod size) hsz
          (hcuts t hfirst hsz)
        exact hreturn m' t small (hcode.trans halloc) h'
      · refine hfail (hcode.trans (allocateLarge_of_lt fun t ht => ?_))
        exact ⟨(h.top t ht).1, Nat.lt_of_not_le fun hle => hbig ⟨t, ht, hle⟩⟩
  | free ptr =>
    have hptr : ptr ∈ s.live := hop
    rw [hlive] at hptr
    obtain ⟨a, ha, rfl⟩ := List.mem_map.1 hptr
    obtain ⟨m', small', hcode, h'⟩ := h.free ha
    refine ⟨⟨m', s.live.erase (a + chunkHeader)⟩, ?_, held.erase a, small', ?_, h'⟩
    · rw [Heap.step, hcode]
      rfl
    · rw [hlive, List.map_erase fun x y hxy => Nat.add_right_cancel hxy]

/-- At the start there is the top chunk only. -/
lemma topInv_init (mem : ℕ → MemoryChunk) {start size : ℕ} (hr : start + size ≤ 2 ^ 32) :
    (Heap.init mem start size).TopInv :=
  ⟨[], fun _ => [], rfl, topOnly_onInitMemoryManager mem hr⟩

end Heap

end Jarvis
