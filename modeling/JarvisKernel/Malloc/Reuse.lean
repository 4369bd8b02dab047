import JarvisKernel.Malloc.TopChunk

set_option relaxedAutoImplicit false
set_option autoImplicit false

/-!
# Blocks and their memory

What callers of `malloc` and `free` rely on, in every state that a run reaches: a block is as large as it
was asked for, and the memory of a block that was freed can be allocated again.

The last 15 sizes are rounded up to 0, and get blocks of the smallest class. A large block that is freed is
on no list any more, so that a loop of `malloc` and `free` uses up the chunk at the top.

## Main definitions

* `Jarvis.MemoryManager.Serves` — a block that is returned has the size that was asked for.
* `Jarvis.MemoryManager.Again`, `Jarvis.MemoryManager.NeverExhausts` — the memory of a freed block can be
  allocated again, once and any number of times.

## Main results

* `Jarvis.serves_of_run` — when a block is as large as it was asked for.
* `Jarvis.reusable_of_run` — when the memory of a block can be allocated again.
-/

namespace Jarvis

namespace MemoryManager

variable {m m' : MemoryManager} {a p t i n size : ℕ} {held : List ℕ} {small : ℕ → List ℕ}

/-! ## The size of a block -/

/-- `malloc` returns, and the block that it returns, if any, has at least the size that was asked for. -/
def Serves (m : MemoryManager) (n : ℕ) : Prop :=
  ∃ m' p, m.malloc n = some (m', p) ∧ (p ≠ 0 → n ≤ (m'.mem (header p)).size)

/-- `malloc` returns a block that has at least the rounded size. -/
lemma TopOnly.malloc_size (h : TopOnly m held small) (n : ℕ) :
    ∃ m' p, m.malloc n = some (m', p) ∧ (p ≠ 0 → roundUp n ≤ (m'.mem (header p)).size ∧
      (roundUp n = 0 → (m'.mem (header p)).size = minAllocSize)) := by
  rw [MemoryManager.malloc]
  by_cases hi : getSizeClassIndex (roundUp n) < numSizeClasses
  · obtain ⟨m', p, hcode, hblock⟩ := h.allocateClass hi (roundUp n)
    refine ⟨m', p, hcode, fun hp => ?_⟩
    obtain ⟨a, -, hlt, rfl, hsize, -⟩ := hblock hp
    rw [header_add hlt, hsize]
    refine ⟨le_classSize hi, fun hzero => ?_⟩
    rw [hzero]
    rfl
  · have hpos := large_of_class hi
    rw [allocateFromSizeClass, if_pos (by omega)]
    by_cases hbig : ∃ t, m.first = some t ∧ roundUp n ≤ (m.mem t).size
    · obtain ⟨t, hfirst, hsz⟩ := hbig
      obtain ⟨htop, -⟩ := h.top t hfirst
      obtain ⟨m', hcode, -, -, -, -, hsize, -⟩ := htop.allocateLarge hfirst (roundUp_mod n) hsz
      refine ⟨m', _, hcode, fun _ => ?_⟩
      rw [header_add htop.lt]
      exact ⟨hsize, fun hzero => by omega⟩
    · refine ⟨m, 0, allocateLarge_of_lt fun t ht => ?_, fun hp => absurd rfl hp⟩
      exact ⟨(h.top t ht).1, Nat.lt_of_not_le fun hle => hbig ⟨t, ht, hle⟩⟩

/-! ## Allocating again -/

/-- `malloc` returns a block. -/
def Succeeds (m : MemoryManager) (n : ℕ) : Prop := ∃ m' p, m.malloc n = some (m', p) ∧ p ≠ 0

/-- One round of a loop: `malloc`, and `free` of the block. It ends if there is no block. -/
def round (n : ℕ) (m : MemoryManager) : Option MemoryManager :=
  (m.malloc n).bind fun x => if x.2 = 0 then none else x.1.free x.2

/-- The loop, for a number of rounds. -/
def rounds (n : ℕ) : ℕ → MemoryManager → Option MemoryManager
  | 0, m => some m
  | k + 1, m => (round n m).bind (rounds n k)

/-- If `malloc` returns a block and the block is freed, `malloc` returns a block again. -/
def Again (m : MemoryManager) (n : ℕ) : Prop :=
  m.Succeeds n → ∃ m', round n m = some m' ∧ m'.Succeeds n

/-- If `malloc` returns a block, a loop of `malloc` and `free` does not end. -/
def NeverExhausts (m : MemoryManager) (n : ℕ) : Prop :=
  m.Succeeds n → ∀ k, ∃ m', rounds n k m = some m' ∧ m'.Succeeds n

/-- The list of the class starts with a chunk of the class. -/
structure ClassReady (m : MemoryManager) (i a : ℕ) : Prop where
  head : m.freeLists i = some a
  pos : 0 < a
  lt : a < 2 ^ 32
  block : Word32.add a chunkHeader ≠ 0
  sizeClass : (m.mem a).sizeClass = i

/-- A block of a class that is freed is the first chunk on the list of the class. -/
lemma free_class (hi : i < numSizeClasses) (hpos : 0 < a) (hlt : a < 2 ^ 32)
    (hblock : Word32.add a chunkHeader ≠ 0) (hclass : (m.mem a).sizeClass = i) :
    ∃ m', m.free (Word32.add a chunkHeader) = some m' ∧ ClassReady m' i a := by
  rw [MemoryManager.free, if_neg hblock, header_add hlt, hclass, if_pos hi]
  refine ⟨_, rfl, ⟨?_, hpos, hlt, hblock, ?_⟩⟩
  · simp [pushClass, toPtr, Nat.pos_iff_ne_zero.1 hpos]
  · rw [(pushClass_fields _ i a a).2, modify_self]
    exact hclass

/-- If its size class is ready, `malloc` takes the chunk at its head. -/
lemma ClassReady.malloc (h : ClassReady m i a) (hi : i < numSizeClasses)
    (hn : getSizeClassIndex (roundUp n) = i) :
    m.malloc n = some (m.popped i a, Word32.add a chunkHeader) := by
  rw [MemoryManager.malloc, hn, allocateFromSizeClass, if_neg (by omega), h.head]
  exact congrArg some (popClass_eq h.head)

/-- So that it succeeds. -/
lemma ClassReady.succeeds (h : ClassReady m i a) (hi : i < numSizeClasses)
    (hn : getSizeClassIndex (roundUp n) = i) : m.Succeeds n :=
  ⟨_, _, h.malloc hi hn, h.block⟩

/-- Any number of rounds return the same block. -/
lemma ClassReady.rounds (h : ClassReady m i a) (hi : i < numSizeClasses)
    (hn : getSizeClassIndex (roundUp n) = i) (k : ℕ) :
    ∃ m', rounds n k m = some m' ∧ ClassReady m' i a := by
  induction k generalizing m with
  | zero => exact ⟨m, rfl, h⟩
  | succ k ih =>
    have hclass : ((m.popped i a).mem a).sizeClass = i := by
      rw [popped_mem]
      exact h.sizeClass
    obtain ⟨m₁, hfree, h₁⟩ := free_class hi h.pos h.lt h.block hclass
    obtain ⟨m', hrounds, h'⟩ := ih h₁
    refine ⟨m', ?_, h'⟩
    rw [MemoryManager.rounds, round, h.malloc hi hn, Option.bind_some, if_neg h.block, hfree]
    exact hrounds

/-- The block of a class can be allocated again. -/
lemma TopOnly.round_class (h : TopOnly m held small)
    (hi : getSizeClassIndex (roundUp n) < numSizeClasses) (hsucc : m.Succeeds n) :
    ∃ m' a, round n m = some m' ∧ ClassReady m' (getSizeClassIndex (roundUp n)) a := by
  obtain ⟨m₁, p, hcode, hp⟩ := hsucc
  obtain ⟨m₂, q, hcode', hblock⟩ := h.allocateClass hi (roundUp n)
  rw [MemoryManager.malloc, hcode'] at hcode
  obtain ⟨rfl, rfl⟩ := Prod.mk.inj (Option.some.inj hcode)
  obtain ⟨a, hpos, hlt, rfl, -, hclass⟩ := hblock hp
  obtain ⟨m', hfree, h'⟩ := free_class hi hpos hlt hp hclass
  refine ⟨m', a, ?_, h'⟩
  rw [round, MemoryManager.malloc, hcode', Option.bind_some, if_neg hp, hfree]

/-! ## Large blocks -/

/-- The chunk at the top has room for a large block, and the block does not lie at address 0. -/
def Room (m : MemoryManager) (size t : ℕ) : Prop :=
  m.first = some t ∧ size ≤ (m.mem t).size ∧ Word32.add t chunkHeader ≠ 0

/-- What remains of the chunk at the top when a block is cut off, as `allocate_from_size_class` computes
it: its size and its address. -/
def restSize (m : MemoryManager) (size t : ℕ) : ℕ :=
  Word32.sub (Word32.sub (m.mem t).size size) chunkHeader

@[inherit_doc restSize]
def restAddress (size t : ℕ) : ℕ := Word32.add (Word32.add t chunkHeader) size

/-- The chunk at the top is split for a block. -/
def Splits (m : MemoryManager) (size t : ℕ) : Prop :=
  Word32.add (Word32.add size chunkHeader) minAllocSize ≤ (m.mem t).size

/-- The chunk at the top has room for two blocks, one after the other. -/
def RoomTwice (m : MemoryManager) (size : ℕ) : Prop :=
  ∃ t, Room m size t ∧ Splits m size t ∧ size ≤ restSize m size t ∧ restAddress size t ≠ 0 ∧
    Word32.add (restAddress size t) chunkHeader ≠ 0

section Large

variable (htop : ∀ t, m.first = some t → m.IsTop t)
  (hlarge : ¬ getSizeClassIndex (roundUp n) < numSizeClasses)

include htop hlarge

/-- A large request succeeds if the chunk at the top has room for it. -/
lemma succeeds_iff_room : m.Succeeds n ↔ ∃ t, Room m (roundUp n) t := by
  have hmalloc : m.malloc n = m.allocateLarge (roundUp n) := by
    rw [MemoryManager.malloc, allocateFromSizeClass, if_pos (by omega)]
  rw [Succeeds, hmalloc]
  by_cases hbig : ∃ t, m.first = some t ∧ roundUp n ≤ (m.mem t).size
  · obtain ⟨t, hfirst, hsz⟩ := hbig
    obtain ⟨m', hcode, -⟩ := (htop t hfirst).allocateLarge hfirst (roundUp_mod n) hsz
    rw [hcode]
    constructor
    · rintro ⟨_, _, heq, hp⟩
      obtain ⟨rfl, rfl⟩ := Prod.mk.inj (Option.some.inj heq)
      exact ⟨t, hfirst, hsz, hp⟩
    · rintro ⟨t', hfirst', -, hp⟩
      obtain rfl : t = t' := Option.some.inj (hfirst.symm.trans hfirst')
      exact ⟨m', _, rfl, hp⟩
  · rw [allocateLarge_of_lt fun t ht =>
      ⟨htop t ht, Nat.lt_of_not_le fun hle => hbig ⟨t, ht, hle⟩⟩]
    constructor
    · rintro ⟨_, _, heq, hp⟩
      obtain ⟨rfl, rfl⟩ := Prod.mk.inj (Option.some.inj heq)
      exact absurd rfl hp
    · rintro ⟨t, hfirst, hsz, -⟩
      exact absurd ⟨t, hfirst, hsz⟩ hbig

/-- A large block that is freed is on no list: after a round, the large list has what remained of the chunk
at the top, or nothing. -/
lemma round_large (hroom : Room m (roundUp n) t) :
    ∃ m', round n m = some m' ∧ (∀ t', m'.first = some t' → m'.IsTop t') ∧
      (¬ Splits m (roundUp n) t ∧ m'.first = none ∨
        Splits m (roundUp n) t ∧ m'.first = toPtr (restAddress (roundUp n) t) ∧
          (m'.mem (restAddress (roundUp n) t)).size = restSize m (roundUp n) t) := by
  obtain ⟨hfirst, hsz, hp⟩ := hroom
  have ht := htop t hfirst
  obtain ⟨m₁, hcode, -, hclass, hnext, hprev, -, hcases⟩ :=
    ht.allocateLarge hfirst (roundUp_mod n) hsz
  set m' := m₁.modify t fun c => { c with allocated := false } with hm'
  have hround : round n m = some m' := by
    rw [round, MemoryManager.malloc, allocateFromSizeClass, if_pos (by omega), hcode, Option.bind_some,
      if_neg hp, MemoryManager.free, if_neg hp, header_add ht.lt, hclass, if_neg (lt_irrefl _),
      freeLarge_of_unlinked hprev hnext]
  refine ⟨m', hround, ?_⟩
  rcases hcases with ⟨hsplit, hnone, -⟩ | ⟨hsplit, hne, hrest, hself, -⟩
  · have hfirst' : m'.first = none := hnone
    refine ⟨fun t' ht' => ?_, .inl ⟨Nat.not_le.2 hsplit, hfirst'⟩⟩
    rw [hfirst'] at ht'
    simp at ht'
  · have hfirst' : m'.first = toPtr (restAddress (roundUp n) t) := hrest
    have hmem : m'.mem (restAddress (roundUp n) t) =
        { next := none, prev := none, allocated := false, size := restSize m (roundUp n) t
          sizeClass := numSizeClasses } := by
      have hne' : restAddress (roundUp n) t ≠ t := hne
      rw [hm', modify_of_ne m₁ _ hne']
      exact hself
    refine ⟨fun t' ht' => ?_, .inr ⟨hsplit, hfirst', by rw [hmem]⟩⟩
    rw [hfirst', toPtr] at ht'
    split_ifs at ht' with h0
    obtain rfl := Option.some.inj ht'
    exact ⟨h0, Nat.mod_lt _ (by decide), by rw [hmem], by rw [hmem], by rw [hmem], by
      rw [hmem]
      exact Nat.mod_lt _ (by decide)⟩

/-- A large block can be allocated again if there was room for two. -/
lemma again_iff_of_large : m.Again n ↔ (∀ t, ¬ Room m (roundUp n) t) ∨ RoomTwice m (roundUp n) := by
  rw [Again, succeeds_iff_room htop hlarge]
  by_cases hroom : ∃ t, Room m (roundUp n) t
  · obtain ⟨t, hroom⟩ := hroom
    obtain ⟨m', hround, htop', hcases⟩ := round_large htop hlarge hroom
    have hunique : ∀ t', Room m (roundUp n) t' → t' = t := fun t' h' =>
      Option.some.inj (h'.1.symm.trans hroom.1)
    constructor
    · intro hagain
      obtain ⟨m₂, hround₂, hsucc⟩ := hagain ⟨t, hroom⟩
      obtain rfl : m' = m₂ := Option.some.inj (hround.symm.trans hround₂)
      obtain ⟨t', hfirst', hsz', hp'⟩ := (succeeds_iff_room htop' hlarge).1 hsucc
      rcases hcases with ⟨-, hnone⟩ | ⟨hsplit, hrest, hsize⟩
      · rw [hnone] at hfirst'
        simp at hfirst'
      · rw [hrest, toPtr] at hfirst'
        split_ifs at hfirst' with h0
        obtain rfl := Option.some.inj hfirst'
        exact .inr ⟨t, hroom, hsplit, hsize ▸ hsz', h0, hp'⟩
    · rintro (hno | ⟨t', hroom', hsplit, hsz, h0, hp⟩) -
      · exact absurd hroom (hno t)
      · obtain rfl := hunique t' hroom'
        refine ⟨m', hround, (succeeds_iff_room htop' hlarge).2 ?_⟩
        rcases hcases with ⟨hno, -⟩ | ⟨-, hrest, hsize⟩
        · exact absurd hsplit hno
        · refine ⟨restAddress (roundUp n) t', ?_, hsize ▸ hsz, hp⟩
          rw [hrest, toPtr, if_neg h0]
  · exact ⟨fun _ => .inl fun t ht => hroom ⟨t, ht⟩, fun _ h => absurd h hroom⟩

end Large

/-- A bound on the number of rounds for a chunk at the top: the size, which decreases in every round. One
size is an exception: 32 bytes below `2 ^ 32`, the test for a split wraps around, and what remains may be
larger than the chunk was. -/
def roundsLeft (size s : ℕ) : ℕ :=
  if s < size then 0
  else if size + chunkHeader ≤ s ∨ size ≠ 2 ^ 32 - 32 then s
  else 2 ^ 33 - s

/-- A split makes the remaining chunk smaller, and so the number of further splits. -/
lemma roundsLeft_lt (hpos : 0 < size) (hlt : size < 2 ^ 32) (halign : size % minAllocSize = 0) {s : ℕ}
    (hs : s < 2 ^ 32) (hsz : size ≤ s)
    (hsplit : Word32.add (Word32.add size chunkHeader) minAllocSize ≤ s) :
    roundsLeft size (Word32.sub (Word32.sub s size) chunkHeader) < roundsLeft size s := by
  simp only [Word32.add, show chunkHeader = 20 from rfl, show minAllocSize = 16 from rfl] at halign hsplit
  rw [Word32.sub_of_le hs hsz]
  simp only [roundsLeft, Word32.sub, show chunkHeader = 20 from rfl]
  split_ifs <;> omega

/-- A loop of `malloc` and `free` of a large block ends. -/
lemma exists_rounds_not_succeeds (htop : ∀ t, m.first = some t → m.IsTop t)
    (hlarge : ¬ getSizeClassIndex (roundUp n) < numSizeClasses) :
    ∃ k m', rounds n k m = some m' ∧ ¬ m'.Succeeds n := by
  have hpos := large_of_class hlarge
  -- the induction is on the number of rounds that the chunk at the top is good for
  obtain ⟨bound, hbound⟩ : ∃ bound, ∀ t, m.first = some t →
      roundsLeft (roundUp n) (m.mem t).size < bound := by
    cases hfirst : m.first with
    | none => exact ⟨0, fun t ht => by simp at ht⟩
    | some t =>
      refine ⟨roundsLeft (roundUp n) (m.mem t).size + 1, fun t' ht' => ?_⟩
      obtain rfl := Option.some.inj ht'
      exact Nat.lt_succ_self _
  induction bound generalizing m with
  | zero =>
    refine ⟨0, m, rfl, fun hsucc => ?_⟩
    obtain ⟨t, hfirst, -⟩ := (succeeds_iff_room htop hlarge).1 hsucc
    exact Nat.not_lt_zero _ (hbound t hfirst)
  | succ bound ih =>
    by_cases hsucc : m.Succeeds n
    · obtain ⟨t, hroom⟩ := (succeeds_iff_room htop hlarge).1 hsucc
      obtain ⟨m₁, hround, htop₁, hcases⟩ := round_large htop hlarge hroom
      obtain ⟨k, m', hrounds, hfail⟩ := ih htop₁ fun t₁ ht₁ => by
        rcases hcases with ⟨-, hnone⟩ | ⟨hsplit, hrest, hsize⟩
        · rw [hnone] at ht₁
          simp at ht₁
        · rw [hrest, toPtr] at ht₁
          split_ifs at ht₁ with h0
          obtain rfl := Option.some.inj ht₁
          have hlt := roundsLeft_lt (by omega) (roundUp_lt n) (roundUp_mod n)
            (htop t hroom.1).size_lt hroom.2.1 hsplit
          have hold := hbound t hroom.1
          rw [hsize, restSize]
          omega
      refine ⟨k + 1, m', ?_, hfail⟩
      rw [rounds, hround]
      exact hrounds
    · exact ⟨0, m, rfl, hsucc⟩

/-- The last sizes get a block of the smallest class, which is too small, unless there is none. -/
lemma TopOnly.serves_iff (h : TopOnly m held small) (hn : n < 2 ^ 32)
    (hcuts : m.freeLists 0 ≠ none ∨ ∀ a ∈ m.largeList, refillSize ≤ (m.mem a).size →
      a + refillSize + chunkHeader < 2 ^ 32) (hwrap : ¬ n + (minAllocSize - 1) < 2 ^ 32) :
    Serves m n ↔ m.freeLists 0 = none ∧ ∀ a ∈ m.largeList, (m.mem a).size < refillSize := by
  have hzero := roundUp_eq_zero hn hwrap
  have hmem := fun a => mem_largeList (a := a) fun t ht => (h.top t ht).1
  have hclass : ∀ n, roundUp n = 0 → m.malloc n = m.allocateFromSizeClass 0 0 := by
    intro n hn
    rw [MemoryManager.malloc, hn]
    rfl
  simp only [hmem] at hcuts ⊢
  rw [Serves]
  constructor
  · rintro ⟨m', p, hcode, hsize⟩
    by_contra hchunk
    obtain ⟨m₁, a, small', hserve, h₁⟩ := h.serveClass (i := 0) (by decide) (by
      rcases hcuts with hlist | hend
      · exact .inl hlist
      · by_cases hlist : m.freeLists 0 = none
        · obtain ⟨t, ht⟩ := not_forall.1 fun hall => hchunk ⟨hlist, hall⟩
          obtain ⟨hfirst, hsz⟩ := Classical.not_imp.1 ht
          exact .inr ⟨t, hfirst, Nat.le_of_not_lt hsz, hend t hfirst (Nat.le_of_not_lt hsz)⟩
        · exact .inl hlist) 0
    obtain ⟨m₂, q, hcode₂, hmin⟩ := h.malloc_size n
    rw [hclass n hzero, hserve] at hcode hcode₂
    obtain ⟨rfl, rfl⟩ := Prod.mk.inj (Option.some.inj hcode)
    obtain ⟨rfl, rfl⟩ := Prod.mk.inj (Option.some.inj hcode₂)
    have hne : a + chunkHeader ≠ 0 := by simp [chunkHeader]
    have hbig := hsize hne
    rw [(hmin hne).2 hzero, show minAllocSize = 16 from rfl] at hbig
    rw [show minAllocSize = 16 from rfl] at hwrap
    omega
  · rintro ⟨hlist, hsmall⟩
    refine ⟨m, 0, ?_, fun hp => absurd rfl hp⟩
    rw [hclass n hzero]
    exact allocateClass_of_lt (by decide) hlist (fun t ht => ⟨(h.top t ht).1, hsmall t ht⟩) 0

/-- A block of a class can be allocated again, any number of times. -/
lemma TopOnly.again_class (h : TopOnly m held small)
    (hi : getSizeClassIndex (roundUp n) < numSizeClasses) : Again m n ∧ NeverExhausts m n := by
  refine ⟨fun hsucc => ?_, fun hsucc k => ?_⟩
  · obtain ⟨m', a, hround, h'⟩ := h.round_class hi hsucc
    exact ⟨m', hround, h'.succeeds hi rfl⟩
  · cases k with
    | zero => exact ⟨m, rfl, hsucc⟩
    | succ k =>
      obtain ⟨m₁, a, hround, h₁⟩ := h.round_class hi hsucc
      obtain ⟨m', hrounds, h'⟩ := h₁.rounds hi rfl k
      refine ⟨m', ?_, h'.succeeds hi rfl⟩
      rw [rounds, hround]
      exact hrounds

/-- There is no room for a large block if all large chunks are smaller. -/
lemma TopOnly.not_room_iff (h : TopOnly m held small) (hpos : 0 < size) :
    (∀ t, ¬ Room m size t) ↔ ∀ a ∈ m.largeList, (m.mem a).size < size := by
  have hmem := fun a => mem_largeList (a := a) fun t ht => (h.top t ht).1
  simp only [hmem]
  constructor
  · intro hno t hfirst
    by_contra hsz
    have hend := (h.top t hfirst).2 (by omega)
    refine hno t ⟨hfirst, by omega, ?_⟩
    rw [Word32.add_of_lt hend]
    simp [chunkHeader]
  · rintro hsmall t ⟨hfirst, hsz, -⟩
    have := hsmall t hfirst
    omega

end MemoryManager

open MemoryManager

/-! ## Runs -/

/-- The states that are reached by calls that cut memory below the end of the address space. -/
lemma Heap.topInv_of_run {mem : ℕ → MemoryChunk} {start size : ℕ} (hr : start + size ≤ 2 ^ 32)
    {ops : List HeapOp} (hops : Run.Follows Heap.step (fun s op => s.Possible op ∧ s.CutsBelow op)
      (Heap.init mem start size) ops) :
    ∃ s, Run.exec Heap.step (Heap.init mem start size) ops = some s ∧ s.TopInv :=
  Run.exec_of_step (fun _ _ hs hop => hs.step hop.1 hop.2) (Heap.topInv_init mem hr) hops

/-- In every state that is reached by calls that cut memory below the end of the address space: a block is
as large as it was asked for, except for the last 15 sizes, which are rounded up to 0. For these a block of
the smallest class is returned, unless there is none. -/
theorem serves_of_run {mem : ℕ → MemoryChunk} {start size : ℕ} (hr : start + size ≤ 2 ^ 32)
    {ops : List HeapOp} (hops : Run.Follows Heap.step (fun s op => s.Possible op ∧ s.CutsBelow op)
      (Heap.init mem start size) ops) :
    ∃ s, Run.exec Heap.step (Heap.init mem start size) ops = some s ∧ ∀ n < 2 ^ 32,
      (n + (minAllocSize - 1) < 2 ^ 32 → Serves s.manager n) ∧
      (s.CutsBelow (.malloc n) → (Serves s.manager n ↔ n + (minAllocSize - 1) < 2 ^ 32 ∨
        s.manager.freeLists 0 = none ∧
          ∀ a ∈ s.manager.largeList, (s.manager.mem a).size < refillSize)) := by
  obtain ⟨s, hexec, held, small, -, h⟩ := Heap.topInv_of_run hr hops
  refine ⟨s, hexec, fun n hn => ?_⟩
  have hserves : n + (minAllocSize - 1) < 2 ^ 32 → Serves s.manager n := by
    intro hfit
    obtain ⟨m', p, hcode, hsize⟩ := h.malloc_size n
    exact ⟨m', p, hcode, fun hp => (le_roundUp hfit).trans (hsize hp).1⟩
  refine ⟨hserves, fun hcuts => ?_⟩
  by_cases hfit : n + (minAllocSize - 1) < 2 ^ 32
  · exact iff_of_true (hserves hfit) (.inl hfit)
  · simp only [Heap.CutsBelow, roundUp_eq_zero hn hfit] at hcuts
    rw [if_pos (by decide), show getSizeClassIndex 0 = 0 from rfl] at hcuts
    rw [h.serves_iff hn hcuts hfit]
    exact ⟨.inr, fun hor => hor.resolve_left hfit⟩

/-- A small and a large request, a block that is freed, and a request that gets it again. -/
def mixedOps : List HeapOp := [.malloc 16, .malloc 2000, .free 0x100FD4, .malloc 10]

/-- The run `mixedOps` meets the condition of `serves_of_run`. -/
lemma follows_mixedOps : Run.Follows Heap.step (fun s op => s.Possible op ∧ s.CutsBelow op)
    (Heap.init blankChunks 0x100000 0x10000) mixedOps := by
  decide +kernel

/-- After the run no request gets less than it asks for, if its size can be rounded. -/
theorem serves_of_run_mixedOps :
    0x100000 + 0x10000 ≤ 2 ^ 32 ∧ Run.Follows Heap.step (fun s op => s.Possible op ∧ s.CutsBelow op)
        (Heap.init blankChunks 0x100000 0x10000) mixedOps ∧
      ∃ s, Run.exec Heap.step (Heap.init blankChunks 0x100000 0x10000) mixedOps = some s ∧
        ∀ n < 2 ^ 32, n + (minAllocSize - 1) < 2 ^ 32 → Serves s.manager n := by
  obtain ⟨s, hexec, hserves⟩ := serves_of_run (by decide) follows_mixedOps
  exact ⟨by decide, follows_mixedOps, s, hexec, fun n hn => (hserves n hn).1⟩

/-- The largest size gets a block of 16 bytes. -/
theorem not_serves_max : ¬ Serves (Heap.init blankChunks 0x100000 0x10000).manager 0xFFFFFFFF := by
  have hcode : ((Heap.init blankChunks 0x100000 0x10000).manager.malloc 0xFFFFFFFF).map
      (fun x => (x.2, (x.1.mem (header x.2)).size)) = some (0x100FD4, 16) := by
    decide +kernel
  rintro ⟨m', p, hmalloc, hsize⟩
  rw [hmalloc, Option.map_some] at hcode
  obtain ⟨rfl, hsz⟩ := Prod.mk.inj (Option.some.inj hcode)
  have hsz' : (m'.mem (header 0x100FD4)).size = 16 := hsz
  have hlarge := hsize (by decide)
  omega

/-- In every state that is reached by calls that cut memory below the end of the address space: the memory
of a block of a class can be allocated again, any number of times. That of a large block can be allocated
again if the chunk at the top has room for two, and no loop over large blocks goes on for ever. -/
theorem reusable_of_run {mem : ℕ → MemoryChunk} {start size : ℕ} (hr : start + size ≤ 2 ^ 32)
    {ops : List HeapOp} (hops : Run.Follows Heap.step (fun s op => s.Possible op ∧ s.CutsBelow op)
      (Heap.init mem start size) ops) :
    ∃ s, Run.exec Heap.step (Heap.init mem start size) ops = some s ∧ ∀ n,
      (Again s.manager n ↔ getSizeClassIndex (roundUp n) < numSizeClasses ∨
        (∀ a ∈ s.manager.largeList, (s.manager.mem a).size < roundUp n) ∨
        RoomTwice s.manager (roundUp n)) ∧
      (NeverExhausts s.manager n ↔ getSizeClassIndex (roundUp n) < numSizeClasses ∨
        ∀ a ∈ s.manager.largeList, (s.manager.mem a).size < roundUp n) := by
  obtain ⟨s, hexec, held, small, -, h⟩ := Heap.topInv_of_run hr hops
  refine ⟨s, hexec, fun n => ?_⟩
  by_cases hi : getSizeClassIndex (roundUp n) < numSizeClasses
  · obtain ⟨hagain, hloop⟩ := h.again_class hi
    exact ⟨iff_of_true hagain (.inl hi), iff_of_true hloop (.inl hi)⟩
  · have htop := fun t ht => (h.top t ht).1
    have hpos := large_of_class hi
    rw [← h.not_room_iff (by omega : 0 < roundUp n)]
    simp only [hi, false_or]
    refine ⟨again_iff_of_large htop hi, ?_⟩
    constructor
    · intro hloop t hroom
      obtain ⟨k, m', hrounds, hfail⟩ := exists_rounds_not_succeeds htop hi
      obtain ⟨m'', hrounds', hsucc⟩ := hloop ((succeeds_iff_room htop hi).2 ⟨t, hroom⟩) k
      obtain rfl : m' = m'' := Option.some.inj (hrounds.symm.trans hrounds')
      exact hfail hsucc
    · intro hno hsucc
      obtain ⟨t, hroom⟩ := (succeeds_iff_room htop hi).1 hsucc
      exact absurd hroom (hno t)

/-- After the run, a block of 1000 bytes can be allocated and freed again and again. -/
theorem reusable_of_run_mixedOps :
    0x100000 + 0x10000 ≤ 2 ^ 32 ∧ Run.Follows Heap.step (fun s op => s.Possible op ∧ s.CutsBelow op)
        (Heap.init blankChunks 0x100000 0x10000) mixedOps ∧
      ∃ s, Run.exec Heap.step (Heap.init blankChunks 0x100000 0x10000) mixedOps = some s ∧
        Again s.manager 1000 ∧ NeverExhausts s.manager 1000 := by
  obtain ⟨s, hexec, hreusable⟩ := reusable_of_run (by decide) follows_mixedOps
  obtain ⟨hagain, hloop⟩ := hreusable 1000
  exact ⟨by decide, follows_mixedOps, s, hexec, hagain.2 (.inl (by decide)),
    hloop.2 (.inl (by decide))⟩

/-- On a heap of 4000 bytes, a block of 2000 bytes is freed and cannot be allocated again. -/
theorem not_again_large : ¬ Again (Heap.init blankChunks 4096 4000).manager 2000 := by
  have hfirst : ((Heap.init blankChunks 4096 4000).manager.malloc 2000).map Prod.snd = some 4116 := by
    decide +kernel
  have hsecond : ((round 2000 (Heap.init blankChunks 4096 4000).manager).bind fun m =>
      (m.malloc 2000).map Prod.snd) = some 0 := by
    decide +kernel
  intro hagain
  obtain ⟨⟨m, p⟩, hcode, hp⟩ := Option.map_eq_some_iff.1 hfirst
  obtain ⟨m', hround, m'', q, hcode', hq⟩ := hagain ⟨m, p, hcode, by
    rintro rfl
    simp at hp⟩
  rw [hround, Option.bind_some, hcode', Option.map_some] at hsecond
  exact hq (Option.some.inj hsecond)

end Jarvis
