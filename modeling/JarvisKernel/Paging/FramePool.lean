import JarvisKernel.Paging.PhysicalMemory

set_option relaxedAutoImplicit false
set_option autoImplicit false

/-!
# The pool of page frames

The frame manager keeps a counter of free frames, a bitmap and a count of references for each frame. They
are three records of one fact: which frames were handed out and not freed since. They agree after every
run of allocations and of frees of arbitrary addresses.

A call of `pfm_free_frame` frees the frame that contains the address.

## Main definitions

* `Jarvis.PageFrameManager.Consistent` — the counter, the bitmap and the references agree.
* `Jarvis.PageFrameManager.SameFrames` — the same frames are allocated.
* `Jarvis.FramePool` — the frame manager with the frames that were handed out.
* `Jarvis.FramePool.Sound` — the property of the pool.

## Main results

* `Jarvis.PageFrameManager.Consistent.pfmAllocateFrame`, `Consistent.pfmFreeFrame` — one call.
* `Jarvis.FramePool.sound_of_run` — the property holds after every run.
-/

namespace Jarvis

namespace PageFrameManager

open VirtualMemory

variable {m : PageFrameManager} {base address k : ℕ}

/-! ## The three records -/

/-- The frames lie side by side, a frame has one reference if its bit is set, and the counter is the number
of the bits that are clear. -/
structure Consistent (m : PageFrameManager) (base : ℕ) : Prop where
  placed : m.Placed base
  counted : m.Counted
  free : m.freeFrames + Bitmap.card m.frameBitmap m.totalFrames = m.totalFrames

/-- `pfm_init` gives a consistent manager, for a range that does not start at 0 and does not wrap around.

**Proof sketch.** Rounding the start up costs less than a page. Unless the start is aligned already, the
range then has at least one frame less than its rounded start leaves pages below `2 ^ 32`. -/
lemma consistent_pfmInit {start size : ℕ} (hstart : 0 < start) (hrange : start + size ≤ 2 ^ 32) :
    (pfmInit start size).Consistent (pageRound start) := by
  have hbase : pageRound start = if start + 4095 < 2 ^ 32 then (start + 4095) / 4096 * 4096 else 0 := by
    simp only [pageRound, pageAlign, Word32.add, show pageSize = 4096 from rfl]
    split_ifs <;> omega
  have haddr : ∀ k, Word32.mul k 4096 = k * 4096 % 2 ^ 32 := fun k => rfl
  refine ⟨⟨?_, fun k hk => ?_, fun hpos => ?_, ?_, ?_⟩, fun k hk => by simp [pfmInit], ?_⟩
  · show Word32.add (pageRound start) (Word32.mul 0 pageSize) = pageRound start
    rw [hbase, show Word32.mul 0 pageSize = 0 from rfl]
    unfold Word32.add
    split_ifs <;> omega
  · have hk' : k < size / 4096 := hk
    show Word32.add (pageRound start) (Word32.mul k 4096) = pageRound start + k * 4096
    rw [hbase, haddr]
    unfold Word32.add
    split_ifs <;> omega
  · have hpos' : 0 < size / 4096 := hpos
    rw [hbase]
    split_ifs <;> omega
  · rw [hbase, show pageSize = 4096 from rfl]
    split_ifs <;> omega
  · show pageRound start + size / 4096 * 4096 ≤ 2 ^ 32
    rw [hbase]
    split_ifs <;> omega
  · have hcard : Bitmap.card (pfmInit start size).frameBitmap (pfmInit start size).totalFrames = 0 := by
      simp [Bitmap.card, pfmInit]
    rw [hcard]
    rfl

/-- There are not more free frames than frames. -/
lemma Consistent.freeFrames_le (h : m.Consistent base) : m.freeFrames ≤ m.totalFrames := by
  have := h.free
  omega

/-- The number of frames fits into 32 bits. -/
lemma Consistent.total_lt (h : m.Consistent base) : m.totalFrames < 2 ^ 32 := by
  have hbound := h.placed.bound
  rw [show pageSize = 4096 from rfl] at hbound
  omega

/-- The counter is the number of clear bits. -/
lemma Consistent.freeFrames_eq (h : m.Consistent base) :
    m.freeFrames =
      ((Finset.range m.totalFrames).filter fun k => ¬ Bitmap.test m.frameBitmap k = true).card := by
  have hsum := Finset.card_filter_add_card_filter_not (s := Finset.range m.totalFrames)
    (fun k => Bitmap.test m.frameBitmap k = true)
  have hfree := h.free
  rw [Finset.card_range] at hsum
  unfold Bitmap.card at hfree
  omega

/-- With a clear bit, the counter is positive. -/
lemma Consistent.freeFrames_pos (h : m.Consistent base) (hk : k < m.totalFrames)
    (hclear : Bitmap.test m.frameBitmap k = false) : 0 < m.freeFrames := by
  rw [h.freeFrames_eq, Finset.card_pos]
  exact ⟨k, by simp [hk, hclear]⟩

/-- `pfm_allocate_frame` hands out a frame whose bit is clear, and fails if the counter is 0. -/
lemma Consistent.pfmAllocateFrame (h : m.Consistent base) :
    m.freeFrames = 0 ∧ (∀ k < m.totalFrames, Bitmap.test m.frameBitmap k = true) ∧
        m.pfmAllocateFrame = (m, 0) ∨
      ∃ k < m.totalFrames, Bitmap.test m.frameBitmap k = false ∧ 0 < m.freeFrames ∧
        (m.markAllocated k).Consistent base ∧
        (m.markAllocated k).freeFrames = m.freeFrames - 1 ∧ base + k * pageSize ≠ 0 ∧
        m.pfmAllocateFrame = (m.markAllocated k, base + k * pageSize) := by
  rcases pfmAllocateFrame_cases m with ⟨hall, hcode⟩ | ⟨k, hk, hclear, hcode⟩
  · refine .inl ⟨?_, hall, hcode⟩
    have hcard := Bitmap.card_eq hall
    have hfree := h.free
    omega
  · have hpos := h.freeFrames_pos hk hclear
    have hfrees : (m.markAllocated k).freeFrames = m.freeFrames - 1 := by
      have hle := h.freeFrames_le
      have hlt := h.total_lt
      exact Word32.sub_of_le (by omega) hpos
    refine .inr ⟨k, hk, hclear, hpos, ⟨h.placed.markAllocated k, h.counted.markAllocated hclear, ?_⟩,
      hfrees, ?_, ?_⟩
    · have hcard : Bitmap.card (m.markAllocated k).frameBitmap m.totalFrames =
          Bitmap.card m.frameBitmap m.totalFrames + 1 := Bitmap.card_set hk hclear
      have hfree := h.free
      show (m.markAllocated k).freeFrames + Bitmap.card (m.markAllocated k).frameBitmap m.totalFrames =
        m.totalFrames
      omega
    · have := h.placed.pos (by omega)
      omega
    · rw [hcode, h.placed.address k hk]

/-- Dropping the reference to a frame that is allocated. -/
lemma Consistent.dropReference (h : m.Consistent base) (hk : k < m.totalFrames)
    (hset : Bitmap.test m.frameBitmap k = true) : (m.dropReference k).Consistent base := by
  refine ⟨h.placed.dropReference k, h.counted.dropReference hk hset, ?_⟩
  have hcard := Bitmap.card_clear hk hset
  have hfree := h.free
  have hlt := h.total_lt
  rw [h.counted.dropReference_eq hk hset]
  show Word32.add m.freeFrames 1 + Bitmap.card (Bitmap.clear m.frameBitmap k) m.totalFrames =
    m.totalFrames
  rw [Word32.add_of_lt (by omega)]
  omega

/-- `pfm_free_frame` keeps the records in agreement, for every address. -/
lemma Consistent.pfmFreeFrame (h : m.Consistent base) (haddr : address < 2 ^ 32) :
    (m.pfmFreeFrame address).Consistent base := by
  rcases h.placed.pfmFreeFrame_cases _ haddr with ⟨k, hk, -, -, hset, hcode⟩ | ⟨-, hcode⟩
  · rw [hcode]
    exact h.dropReference hk hset
  · rw [hcode]
    exact h

/-- The bitmap, the counter of free frames and all references are the same. -/
structure SameFrames (m m' : PageFrameManager) : Prop where
  bitmap : ∀ k < m.totalFrames, Bitmap.test m'.frameBitmap k = Bitmap.test m.frameBitmap k
  freeFrames : m'.freeFrames = m.freeFrames
  references : ∀ k < m.totalFrames, (m'.frames k).referenceCount = (m.frames k).referenceCount

/-- Where the records agree, they are the same if the bitmap is. -/
lemma Consistent.sameFrames {m' : PageFrameManager} (h : m.Consistent base) (h' : m'.Consistent base)
    (htotal : m'.totalFrames = m.totalFrames)
    (hbits : ∀ k < m.totalFrames, Bitmap.test m'.frameBitmap k = Bitmap.test m.frameBitmap k) :
    m.SameFrames m' := by
  refine ⟨hbits, ?_, fun k hk => ?_⟩
  · rw [h'.freeFrames_eq, h.freeFrames_eq, htotal]
    congr 1
    refine Finset.filter_congr fun k hk => ?_
    rw [hbits k (Finset.mem_range.1 hk)]
  · rw [h'.counted k (htotal ▸ hk), h.counted k hk, hbits k hk]

end PageFrameManager

/-! ## Runs -/

open PageFrameManager VirtualMemory

/-- The frame manager, and the frames that were handed out and not freed since. -/
structure FramePool where
  manager : PageFrameManager
  held : List ℕ

namespace FramePool

variable {p : FramePool} {base : ℕ}

/-- The pool after `pfm_init`. -/
def init (start size : ℕ) : FramePool := ⟨pfmInit start size, []⟩

/-- One call. A frame that is returned is handed out, and a call of `pfm_free_frame` frees the frame that
contains the address. -/
def step (p : FramePool) : FrameOp → FramePool
  | .allocate =>
    ⟨p.manager.pfmAllocateFrame.1,
      if p.manager.pfmAllocateFrame.2 = 0 then p.held else p.manager.pfmAllocateFrame.2 :: p.held⟩
  | .free address =>
    ⟨p.manager.pfmFreeFrame address,
      p.held.filter fun a => ¬ (a ≤ address ∧ address < a + pageSize)⟩

/-- The counter of free frames is the number of clear bits, a bit is set if the frame has references, no
frame is handed out twice, and an allocation fails only if no frame is free. -/
structure Sound (p : FramePool) : Prop where
  free_count : p.manager.freeFrames = ((Finset.range p.manager.totalFrames).filter fun k =>
    ¬ Bitmap.test p.manager.frameBitmap k = true).card
  referenced : ∀ k < p.manager.totalFrames,
    Bitmap.test p.manager.frameBitmap k = true ↔ 0 < (p.manager.frames k).referenceCount
  fresh : p.manager.pfmAllocateFrame.2 ∉ p.held
  fails_iff : p.manager.pfmAllocateFrame.2 = 0 ↔ p.manager.freeFrames = 0

/-- The invariant: the records agree, and the bits are set of the frames that were handed out. -/
structure Inv (p : FramePool) (base : ℕ) : Prop where
  consistent : p.manager.Consistent base
  held_iff : ∀ k < p.manager.totalFrames,
    Bitmap.test p.manager.frameBitmap k = true ↔ base + k * pageSize ∈ p.held
  held_frame : ∀ a ∈ p.held, ∃ k < p.manager.totalFrames, a = base + k * pageSize

/-- The invariant is what the theorem says. -/
lemma Inv.sound (h : p.Inv base) : p.Sound := by
  have hzero : 0 ∉ p.held := by
    intro hmem
    obtain ⟨k, hk, hzero⟩ := h.held_frame 0 hmem
    have := h.consistent.placed.pos (by omega)
    omega
  refine ⟨h.consistent.freeFrames_eq, fun k hk => ?_, ?_, ?_⟩
  · rw [h.consistent.counted k hk]
    cases Bitmap.test p.manager.frameBitmap k <;> simp
  · rcases h.consistent.pfmAllocateFrame with ⟨-, -, hcode⟩ | ⟨k, hk, hclear, -, -, -, -, hcode⟩
    · rwa [hcode]
    · rw [hcode, ← h.held_iff k hk, hclear]
      simp
  · rcases h.consistent.pfmAllocateFrame with ⟨hfree, -, hcode⟩ | ⟨k, -, -, hpos, -, -, hne, hcode⟩
    · simp [hcode, hfree]
    · simp only [hcode, hne, false_iff]
      omega

/-- An allocation keeps the invariant. -/
lemma Inv.allocate (h : p.Inv base) : (p.step .allocate).Inv base := by
  rcases h.consistent.pfmAllocateFrame with ⟨-, -, hcode⟩ | ⟨k, hk, hclear, -, hcons, -, hne, hcode⟩
  · have hstep : p.step .allocate = p := by simp [step, hcode]
    rw [hstep]
    exact h
  · have hstep : p.step .allocate = ⟨p.manager.markAllocated k, (base + k * pageSize) :: p.held⟩ := by
      rw [step, hcode]
      simp only [if_neg hne]
    rw [hstep]
    refine ⟨hcons, fun j hj => ?_, fun a ha => ?_⟩
    · have hinj : base + j * pageSize = base + k * pageSize ↔ j = k := by
        rw [show pageSize = 4096 from rfl]
        omega
      show Bitmap.test (Bitmap.set p.manager.frameBitmap k) j = true ↔ _
      rw [Bitmap.test_set, List.mem_cons, hinj, ← h.held_iff j hj]
      simp
    · rcases List.mem_cons.1 ha with rfl | ha
      · exact ⟨k, hk, rfl⟩
      · exact h.held_frame a ha

/-- A free of an arbitrary address keeps the invariant.

**Proof sketch.** The frames do not overlap, so that the frame whose bit is cleared is the one frame that
contains the address. If no bit is cleared, no frame that was handed out contains it. -/
lemma Inv.free (h : p.Inv base) {address : ℕ} (haddr : address < 2 ^ 32) :
    (p.step (.free address)).Inv base := by
  have hp : pageSize = 4096 := rfl
  have hcons := h.consistent.pfmFreeFrame haddr
  rcases h.consistent.placed.pfmFreeFrame_cases _ haddr with
    ⟨k, hk, hge, hlt, hset, hcode⟩ | ⟨hclear, hcode⟩
  · have htotal := totalFrames_dropReference p.manager k
    refine ⟨hcons, fun j hj => ?_, fun a ha => ?_⟩
    · have hj' : j < p.manager.totalFrames := by
        rw [step, hcode, htotal] at hj
        exact hj
      have hinside : base + j * pageSize ≤ address ∧ address < base + j * pageSize + pageSize ↔
          j = k := by
        rw [hp] at hge hlt ⊢
        omega
      simp only [step, List.mem_filter, hinside]
      rw [hcode, h.consistent.counted.test_dropReference hk hset j, ← h.held_iff j hj']
      simp [and_comm]
    · obtain ⟨j, hj, rfl⟩ := h.held_frame a (List.mem_of_mem_filter ha)
      refine ⟨j, ?_, rfl⟩
      show j < (p.manager.pfmFreeFrame address).totalFrames
      rw [hcode, htotal]
      exact hj
  · have hheld : ∀ a ∈ p.held, ¬ (a ≤ address ∧ address < a + pageSize) := by
      rintro a ha ⟨hge, hlt⟩
      obtain ⟨j, hj, rfl⟩ := h.held_frame a ha
      have hset := (h.held_iff j hj).2 ha
      rw [hclear j hj hge hlt] at hset
      simp at hset
    have hstep : p.step (.free address) = p := by
      rw [step, hcode, List.filter_eq_self.2]
      intro a ha
      simpa only [decide_eq_true_eq] using hheld a ha
    rw [hstep]
    exact h

/-- The pool is sound after every run of allocations and of frees of arbitrary addresses. -/
theorem sound_of_run {start size : ℕ} (hstart : 0 < start) (hrange : start + size ≤ 2 ^ 32)
    {ops : List FrameOp} (hops : ∀ address, .free address ∈ ops → address < 2 ^ 32) :
    (ops.foldl step (init start size)).Sound := by
  have hinit : (init start size).Inv (pageRound start) :=
    ⟨consistent_pfmInit hstart hrange, fun k _ => by simp [init, pfmInit], by simp [init]⟩
  have hrun : (ops.foldl step (init start size)).Inv (pageRound start) := by
    refine List.foldlRecOn (motive := fun p => p.Inv (pageRound start)) ops step hinit
      fun p hp op hop => ?_
    cases op with
    | allocate => exact hp.allocate
    | free address => exact hp.free (hops address hop)
  exact hrun.sound

/-- Two frames, of which the first is freed by an address in it and a second time, and an address that
belongs to no frame. -/
def mixedFrees : List FrameOp :=
  [.allocate, .allocate, .free 0x1000005, .free 0x1000000, .free 0xFFF, .allocate]

/-- The counts are right also after the frames were freed twice. -/
theorem sound_of_run_mixedFrees :
    0 < 0x1000000 ∧ 0x1000000 + 0x2800 ≤ 2 ^ 32 ∧
      (mixedFrees.foldl step (init 0x1000000 0x2800)).Sound :=
  ⟨by decide, by decide, sound_of_run (by decide) (by decide) (by simp [mixedFrees])⟩

end FramePool

end Jarvis
