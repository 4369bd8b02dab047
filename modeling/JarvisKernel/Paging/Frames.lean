import JarvisKernel.Paging.Defs

set_option relaxedAutoImplicit false
set_option autoImplicit false

/-!
# Page frames

The frame manager of the paging code: a frame that is allocated has one reference and its bit is set,
and a frame that is free has none. What `pfm_allocate_frame` and `pfm_free_frame` do to the bitmap is
said here once.

## Main definitions

* `Jarvis.PageFrameManager.Counted` — references match the bitmap.
* `Jarvis.PageFrameManager.Placed` — the frames lie side by side.
* `Jarvis.PageFrameManager.Valid` — the frames lie at 16 MB and up, and references match the bitmap.

## Main results

* `Jarvis.PageFrameManager.pfmAllocateFrame_cases`, `Placed.pfmFreeFrame_cases` — what the functions do,
  for every address.
* `Jarvis.PageFrameManager.pfmAllocateFrame_spec`, `Jarvis.PageFrameManager.pfmFreeFrame_spec` — the
  effect on the bitmap.
-/

namespace Jarvis

namespace PageFrameManager

open VirtualMemory

variable {m : PageFrameManager} {k : ℕ}

/-! ## References -/

/-- A frame has one reference if its bit is set and none otherwise. -/
def Counted (m : PageFrameManager) : Prop :=
  ∀ k < m.totalFrames, (m.frames k).referenceCount = if Bitmap.test m.frameBitmap k then 1 else 0

/-- Allocating a frame moves no frame. -/
@[simp] lemma physicalAddress_markAllocated (m : PageFrameManager) (k j : ℕ) :
    ((m.markAllocated k).frames j).physicalAddress = (m.frames j).physicalAddress := by
  by_cases hjk : j = k
  · subst hjk
    simp [markAllocated]
  · simp [markAllocated, hjk]

/-- Marking a free frame as allocated. -/
lemma Counted.markAllocated (h : m.Counted) (hk : Bitmap.test m.frameBitmap k = false) :
    (m.markAllocated k).Counted := by
  intro j hj
  have hcount := h j hj
  rw [PageFrameManager.markAllocated]
  simp only [Bitmap.test_set]
  by_cases hjk : j = k
  · subst hjk
    rw [hk] at hcount
    simp only [Function.update_self, hcount]
    rfl
  · simpa only [Function.update_of_ne hjk, hjk, decide_false, Bool.false_or] using hcount

/-- Dropping the one reference to an allocated frame frees it. -/
lemma Counted.dropReference_eq (h : m.Counted) (hk : k < m.totalFrames)
    (hset : Bitmap.test m.frameBitmap k = true) :
    m.dropReference k = { m with
      frameBitmap := Bitmap.clear m.frameBitmap k
      freeFrames := Word32.add m.freeFrames 1
      frames := Function.update m.frames k { m.frames k with referenceCount := 0 } } := by
  have hcount : Word32.sub (m.frames k).referenceCount 1 = 0 := by
    rw [h k hk, hset]
    rfl
  simp only [PageFrameManager.dropReference, hcount, if_true]

/-- Nor does dropping a reference to one. -/
@[simp] lemma physicalAddress_dropReference (m : PageFrameManager) (k j : ℕ) :
    ((m.dropReference k).frames j).physicalAddress = (m.frames j).physicalAddress := by
  rw [dropReference]
  by_cases hjk : j = k
  · subst hjk
    split_ifs <;> simp
  · split_ifs <;> simp [hjk]

/-- Dropping a reference leaves the number of frames. -/
@[simp] lemma totalFrames_dropReference (m : PageFrameManager) (k : ℕ) :
    (m.dropReference k).totalFrames = m.totalFrames := by
  rw [dropReference]
  split_ifs <;> rfl

/-- A dropped frame has its bit cleared, the other bits are as before. -/
lemma Counted.test_dropReference (h : m.Counted) (hk : k < m.totalFrames)
    (hset : Bitmap.test m.frameBitmap k = true) (j : ℕ) :
    Bitmap.test (m.dropReference k).frameBitmap j =
      (!decide (j = k) && Bitmap.test m.frameBitmap j) := by
  rw [h.dropReference_eq hk hset]
  exact Bitmap.test_clear _ _ _

/-- Then the number of free frames is again the one of the cleared bits. -/
lemma Counted.dropReference (h : m.Counted) (hk : k < m.totalFrames)
    (hset : Bitmap.test m.frameBitmap k = true) : (m.dropReference k).Counted := by
  rw [h.dropReference_eq hk hset]
  intro j hj
  have hcount := h j hj
  simp only [Bitmap.test_clear]
  by_cases hjk : j = k
  · simp [hjk]
  · simpa only [Function.update_of_ne hjk, hjk, decide_false, Bool.not_false, Bool.true_and]
      using hcount

/-- `pfm_allocate_frame` marks a frame whose bit is clear, or all bits are set. -/
lemma pfmAllocateFrame_cases (m : PageFrameManager) :
    (∀ k < m.totalFrames, Bitmap.test m.frameBitmap k = true) ∧ m.pfmAllocateFrame = (m, 0) ∨
      ∃ k < m.totalFrames, Bitmap.test m.frameBitmap k = false ∧
        m.pfmAllocateFrame = (m.markAllocated k, (m.frames k).physicalAddress) := by
  unfold pfmAllocateFrame
  cases hfind : (List.range m.totalFrames).find? fun i => !Bitmap.test m.frameBitmap i with
  | none =>
    refine .inl ⟨fun k hk => ?_, rfl⟩
    simpa using List.find?_eq_none.1 hfind k (List.mem_range.2 hk)
  | some k =>
    have hk : k < m.totalFrames := List.mem_range.1 (List.mem_of_find?_eq_some hfind)
    exact .inr ⟨k, hk, by simpa using List.find?_some hfind, rfl⟩

/-! ## Addresses -/

/-- The frames lie side by side from `base` on, the address of a page other than the first one. -/
structure Placed (m : PageFrameManager) (base : ℕ) : Prop where
  first : (m.frames 0).physicalAddress = base
  address : ∀ k < m.totalFrames, (m.frames k).physicalAddress = base + k * pageSize
  pos : 0 < m.totalFrames → 0 < base
  aligned : base % pageSize = 0
  bound : base + m.totalFrames * pageSize ≤ 2 ^ 32

/-- The frames lie where they did after an allocation. -/
lemma Placed.markAllocated {base : ℕ} (h : m.Placed base) (k : ℕ) : (m.markAllocated k).Placed base :=
  ⟨by simp [h.first], fun j hj => by simp [h.address j hj], h.pos, h.aligned, h.bound⟩

/-- And after a reference was dropped. -/
lemma Placed.dropReference {base : ℕ} (h : m.Placed base) (k : ℕ) :
    (m.dropReference k).Placed base := by
  refine ⟨by simp [h.first], fun j hj => ?_, ?_, h.aligned, ?_⟩
  · rw [totalFrames_dropReference] at hj
    simp [h.address j hj]
  · simpa using h.pos
  · simpa using h.bound

/-- `pfm_free_frame` drops the reference to the allocated frame that contains the address, and does
nothing if there is none.

**Proof sketch.** The number of the frame is computed by a subtraction that wraps around for an address
below the frames. The difference is then at least the distance from the first frame to `2 ^ 32`, and the
number is past all frames. -/
lemma Placed.pfmFreeFrame_cases {base : ℕ} (h : m.Placed base) (address : ℕ) (haddr : address < 2 ^ 32) :
    (∃ k < m.totalFrames, base + k * pageSize ≤ address ∧ address < base + k * pageSize + pageSize ∧
        Bitmap.test m.frameBitmap k = true ∧ m.pfmFreeFrame address = m.dropReference k) ∨
      (∀ k < m.totalFrames, base + k * pageSize ≤ address →
        address < base + k * pageSize + pageSize → Bitmap.test m.frameBitmap k = false) ∧
        m.pfmFreeFrame address = m := by
  have hp : pageSize = 4096 := rfl
  rw [pfmFreeFrame, h.first]
  simp only [hp]
  by_cases hlow : address < base
  · have hbound := h.bound
    rw [hp] at hbound
    refine .inr ⟨fun k _ hk => by omega, if_pos ?_⟩
    unfold Word32.sub
    omega
  · rw [Word32.sub_of_le haddr (by omega)]
    by_cases hk : m.totalFrames ≤ (address - base) / 4096
    · exact .inr ⟨fun k hk' hge hlt => by omega, if_pos hk⟩
    · simp only [if_neg hk]
      cases hset : Bitmap.test m.frameBitmap ((address - base) / 4096) with
      | false =>
        refine .inr ⟨fun k _ hge hlt => ?_, if_pos rfl⟩
        rw [← hset]
        congr 1
        omega
      | true =>
        have hlt : (address - base) / 4096 < m.totalFrames := by omega
        have hge : base + (address - base) / 4096 * 4096 ≤ address := by omega
        have hend : address < base + (address - base) / 4096 * 4096 + 4096 := by omega
        refine .inl ⟨(address - base) / 4096, hlt, hge, hend, hset, ?_⟩
        rw [if_neg (by simp)]

/-! ## The frames from 16 MB on -/

/-- The number of the first managed page, `frameManagerStart / PAGE_SIZE`. -/
def firstPage : ℕ := 4096

/-- The frames are those from 16 MB on, and a frame has one reference if its bit is set and none
otherwise. -/
structure Valid (m : PageFrameManager) : Prop where
  first : (m.frames 0).physicalAddress = firstPage * pageSize
  address : ∀ k < m.totalFrames, (m.frames k).physicalAddress = (firstPage + k) * pageSize
  bound : (firstPage + m.totalFrames) * pageSize ≤ 2 ^ 32
  count : ∀ k < m.totalFrames,
    (m.frames k).referenceCount = if Bitmap.test m.frameBitmap k then 1 else 0

/-- `pfm_init` gives free frames. -/
lemma valid_pfmInit {size : ℕ} (hsize : frameManagerStart + size ≤ 2 ^ 32) :
    (pfmInit frameManagerStart size).Valid := by
  have hround : pageRound frameManagerStart = firstPage * pageSize := by decide
  have hle : size / pageSize * pageSize ≤ size := Nat.div_mul_le_self ..
  have hp : pageSize = 4096 := rfl
  have hf : firstPage = 4096 := rfl
  have hs : frameManagerStart = 16777216 := rfl
  have haddr : ∀ k, (firstPage + k) * pageSize < 2 ^ 32 →
      Word32.add (pageRound frameManagerStart) (Word32.mul k pageSize) =
        (firstPage + k) * pageSize := by
    intro k hk
    rw [Nat.add_mul] at hk ⊢
    rw [hround, Word32.mul, Nat.mod_eq_of_lt (by omega), Word32.add_of_lt hk]
  have hfirst : firstPage * pageSize = 16777216 := rfl
  constructor
  · show Word32.add (pageRound frameManagerStart) (Word32.mul 0 pageSize) = _
    rw [haddr 0 (by decide), Nat.add_zero]
  · intro k hk
    refine haddr k ?_
    have hk' : k < size / pageSize := hk
    have hmul : (k + 1) * pageSize ≤ size / pageSize * pageSize := Nat.mul_le_mul_right _ hk'
    rw [Nat.add_mul] at hmul ⊢
    omega
  · show (firstPage + size / pageSize) * pageSize ≤ 2 ^ 32
    rw [Nat.add_mul]
    omega
  · intro k _
    simp [pfmInit]

/-- The frames of a valid manager start at the first page. -/
lemma Valid.placed (h : m.Valid) : m.Placed (firstPage * pageSize) := by
  refine ⟨h.first, fun j hj => ?_, fun _ => by decide, by decide, ?_⟩
  · rw [h.address j hj, Nat.add_mul]
  · rw [← Nat.add_mul]
    exact h.bound

/-- Marking a free frame as allocated. -/
lemma Valid.markAllocated (h : m.Valid) (hk : Bitmap.test m.frameBitmap k = false) :
    (m.markAllocated k).Valid :=
  ⟨by simp [h.first], fun j hj => by simp [h.address j hj], h.bound, Counted.markAllocated h.count hk⟩

/-- Dropping the one reference to an allocated frame. -/
lemma Valid.dropReference (h : m.Valid) (hk : k < m.totalFrames)
    (hset : Bitmap.test m.frameBitmap k = true) :
    (m.dropReference k).Valid ∧ (m.dropReference k).totalFrames = m.totalFrames ∧
      ∀ j, Bitmap.test (m.dropReference k).frameBitmap j =
        (!decide (j = k) && Bitmap.test m.frameBitmap j) := by
  have hcounted : m.Counted := h.count
  refine ⟨⟨by simp [h.first], fun j hj => ?_, ?_, hcounted.dropReference hk hset⟩,
    totalFrames_dropReference m k, hcounted.test_dropReference hk hset⟩
  · rw [totalFrames_dropReference] at hj
    simp [h.address j hj]
  · simpa using h.bound

/-- `pfm_allocate_frame` sets a clear bit and returns the address of its frame, or there is none. -/
lemma pfmAllocateFrame_spec (h : m.Valid) :
    m.pfmAllocateFrame = (m, 0) ∨
      ∃ k < m.totalFrames, Bitmap.test m.frameBitmap k = false ∧
        m.pfmAllocateFrame = (m.markAllocated k, (firstPage + k) * pageSize) := by
  rcases pfmAllocateFrame_cases m with ⟨-, hnone⟩ | ⟨k, hk, hclear, hcode⟩
  · exact .inl hnone
  · exact .inr ⟨k, hk, hclear, by rw [hcode, h.address k hk]⟩

/-- `pfm_free_frame` drops the reference to an allocated frame, and does nothing for any other
page. -/
lemma pfmFreeFrame_spec (h : m.Valid) {f : ℕ} (hf : f < 2 ^ 20) :
    (∃ k < m.totalFrames, f = firstPage + k ∧ Bitmap.test m.frameBitmap k = true ∧
        m.pfmFreeFrame (f * pageSize) = m.dropReference k) ∨
      (∀ k < m.totalFrames, f = firstPage + k → Bitmap.test m.frameBitmap k = false) ∧
        m.pfmFreeFrame (f * pageSize) = m := by
  have hp : pageSize = 4096 := rfl
  rcases h.placed.pfmFreeFrame_cases (f * pageSize) (by rw [hp]; omega) with
    ⟨k, hk, hge, hlt, hset, hcode⟩ | ⟨hclear, hcode⟩
  · rw [hp] at hge hlt
    exact .inl ⟨k, hk, by omega, hset, hcode⟩
  · refine .inr ⟨fun k hk hfk => hclear k hk ?_ ?_, hcode⟩
    · rw [hfk, Nat.add_mul]
    · rw [hfk, Nat.add_mul, hp]
      omega

end PageFrameManager

end Jarvis
