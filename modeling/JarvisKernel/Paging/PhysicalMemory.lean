import JarvisKernel.Lib.Run
import JarvisKernel.Paging.Frames

set_option relaxedAutoImplicit false
set_option autoImplicit false

/-!
# The two allocators of physical memory

`on_init_core` gives the memory from 10 MB on to `malloc`, and `on_init_virtual_memory_manager` gives the
memory from 16 MB on to the frame manager. Both take the upper end from the amount of memory that the boot
loader reports, in products and differences of 32-bit words. The frames and the heap are disjoint only if
there are no frames.

## Main definitions

* `Jarvis.memorySize`, `Jarvis.frameManagerSize` — the sizes that the kernel computes.
* `Jarvis.PageFrameManager.FrameOp`, `Jarvis.PageFrameManager.frameStep` — calls of the frame manager.
* `Jarvis.CanReturn` — the frames that `pfm_allocate_frame` can return.

## Main results

* `Jarvis.PageFrameManager.exec_replicate_allocate` — frames are handed out in order.
* `Jarvis.frames_apart_iff` — when the frames lie in memory and outside the heap.
-/

namespace Jarvis

open VirtualMemory

/-! ## Sizes -/

/-- `heap` of `on_init_core`, 10 MB. -/
def heapStart : ℕ := 10 * 1024 * 1024

/-- `memory_size` of `on_init_core`, for a memory of `memupper` KB. -/
def memorySize (memupper : ℕ) : ℕ := Word32.sub (Word32.mul memupper 1024) heapStart

/-- `frame_manager_size` of `on_init_virtual_memory_manager`, for a memory of `memupper` KB. -/
def frameManagerSize (memupper : ℕ) : ℕ := Word32.sub (Word32.mul memupper 1024) frameManagerStart

/-! ## Calls of the frame manager -/

namespace PageFrameManager

variable {m : PageFrameManager}

/-- The calls of the frame manager. -/
inductive FrameOp where
  | allocate
  | free (address : ℕ)

/-- One call. -/
def frameStep (m : PageFrameManager) : FrameOp → Option PageFrameManager
  | .allocate => some m.pfmAllocateFrame.1
  | .free address => some (m.pfmFreeFrame address)

/-- The number of frames does not change. -/
lemma totalFrames_frameStep {m' : PageFrameManager} {op : FrameOp} (h : m.frameStep op = some m') :
    m'.totalFrames = m.totalFrames := by
  cases op with
  | allocate =>
    obtain rfl := Option.some.inj h
    rcases pfmAllocateFrame_cases m with ⟨-, hcode⟩ | ⟨k, -, -, hcode⟩
    · rw [hcode]
    · rw [hcode]
      rfl
  | free address =>
    obtain rfl := Option.some.inj h
    show (m.pfmFreeFrame address).totalFrames = _
    rw [pfmFreeFrame]
    split_ifs
    · rfl
    · rfl
    · exact totalFrames_dropReference m _

/-- The number of frames does not change along a run. -/
lemma totalFrames_exec {m' : PageFrameManager} {ops : List FrameOp}
    (h : Run.exec frameStep m ops = some m') : m'.totalFrames = m.totalFrames := by
  induction ops generalizing m with
  | nil =>
    obtain rfl := Option.some.inj h
    rfl
  | cons op ops ih =>
    obtain ⟨m₁, hstep, hexec⟩ := Option.bind_eq_some_iff.1 h
    rw [ih hexec, totalFrames_frameStep hstep]

/-- The first `n` frames are allocated, and no others. -/
structure FirstAllocated (m m' : PageFrameManager) (n : ℕ) : Prop where
  total : m'.totalFrames = m.totalFrames
  address : ∀ i, (m'.frames i).physicalAddress = (m.frames i).physicalAddress
  bit : ∀ i, Bitmap.test m'.frameBitmap i = decide (i < n)

/-- With the first `n` frames allocated, frame `n` is the next. -/
lemma FirstAllocated.pfmAllocateFrame {m' : PageFrameManager} {n : ℕ} (h : FirstAllocated m m' n)
    (hn : n < m.totalFrames) :
    FirstAllocated m m'.pfmAllocateFrame.1 (n + 1) ∧
      m'.pfmAllocateFrame.2 = (m.frames n).physicalAddress := by
  have hfind : (List.range m'.totalFrames).find? (fun i => !Bitmap.test m'.frameBitmap i) =
      some n := by
    rw [List.find?_range_eq_some]
    refine ⟨by rw [h.bit]; simp, by rw [h.total]; exact List.mem_range.2 hn, fun j hj => ?_⟩
    rw [h.bit]
    simp [hj]
  rw [PageFrameManager.pfmAllocateFrame, hfind]
  refine ⟨⟨h.total, fun i => ?_, fun i => ?_⟩, h.address n⟩
  · show ((m'.markAllocated n).frames i).physicalAddress = _
    by_cases hi : i = n
    · rw [hi, markAllocated]
      simp only [Function.update_self]
      exact h.address n
    · rw [markAllocated]
      simp only [Function.update_of_ne hi]
      exact h.address i
  · show Bitmap.test (Bitmap.set m'.frameBitmap n) i = _
    rw [Bitmap.test_set, h.bit]
    by_cases hi : i = n
    · simp [hi]
    · have : (i < n) ↔ (i < n + 1) := by omega
      simp [hi, this]

/-- From a manager without allocated frames, `n` calls of `pfm_allocate_frame` allocate the first `n`
frames. -/
lemma exec_replicate_allocate (hfree : ∀ i, Bitmap.test m.frameBitmap i = false) {n : ℕ}
    (hn : n ≤ m.totalFrames) :
    ∃ m', Run.exec frameStep m (List.replicate n .allocate) = some m' ∧ FirstAllocated m m' n := by
  induction n with
  | zero => exact ⟨m, rfl, rfl, fun _ => rfl, fun i => by rw [hfree i]; simp⟩
  | succ n ih =>
    obtain ⟨m', hexec, hfirst⟩ := ih (by omega)
    refine ⟨m'.pfmAllocateFrame.1, ?_, (hfirst.pfmAllocateFrame (by omega)).1⟩
    rw [List.replicate_succ', Run.exec_concat hexec]
    rfl

end PageFrameManager

/-! ## Frames and heap -/

open PageFrameManager

/-- `pfm_allocate_frame` returns the frame after some run of calls, for a memory of `memupper` KB. -/
def CanReturn (memupper f : ℕ) : Prop :=
  ∃ ops m, Run.exec frameStep (pfmInit frameManagerStart (frameManagerSize memupper)) ops = some m ∧
    m.pfmAllocateFrame.2 = f ∧ f ≠ 0

/-- The page at `f` lies in a memory of `memupper` KB from 16 MB on, and not in the heap. -/
structure InMemoryOutsideHeap (memupper f : ℕ) : Prop where
  start : frameManagerStart ≤ f
  stop : f + pageSize ≤ memupper * 1024
  apart : f + pageSize ≤ heapStart ∨ heapStart + memorySize memupper ≤ f

/-- The frame with number `n` can be returned. -/
lemma canReturn_frame {memupper n : ℕ} (hn : n < frameManagerSize memupper / pageSize)
    (hne : (n * 4096 % 2 ^ 32 + 16777216) % 2 ^ 32 ≠ 0) :
    CanReturn memupper ((n * 4096 % 2 ^ 32 + 16777216) % 2 ^ 32) := by
  obtain ⟨m, hexec, hfirst⟩ := exec_replicate_allocate
    (m := pfmInit frameManagerStart (frameManagerSize memupper)) (n := n)
    (fun i => by simp [pfmInit]) hn.le
  exact ⟨_, m, hexec, (hfirst.pfmAllocateFrame hn).2, hne⟩

/-- The frames that `pfm_allocate_frame` can return lie in memory and outside the heap exactly if the
memory ends in the first page after 16 MB, modulo 4 GB, so that there are none.

**Proof sketch.** If there are frames, the first is at 16 MB, and the heap has to end there; so the
memory ends between 10 MB and 16 MB, modulo 4 GB. The number of frames has then wrapped around, and one
of them is at 4096. -/
theorem frames_apart_iff (memupper : ℕ) :
    (∀ f, CanReturn memupper f → InMemoryOutsideHeap memupper f) ↔
      frameManagerStart ≤ Word32.mul memupper 1024 ∧
        Word32.mul memupper 1024 < frameManagerStart + pageSize := by
  have hp : pageSize = 4096 := rfl
  have hs : frameManagerStart = 16777216 := rfl
  have hh : heapStart = 10485760 := rfl
  have htotal : Word32.mul memupper 1024 < 2 ^ 32 := Nat.mod_lt _ (by decide)
  have hsize : frameManagerSize memupper =
      (2 ^ 32 - 16777216 + Word32.mul memupper 1024) % 2 ^ 32 := rfl
  have hheap : memorySize memupper = (2 ^ 32 - 10485760 + Word32.mul memupper 1024) % 2 ^ 32 := rfl
  set total := Word32.mul memupper 1024 with ht
  constructor
  · intro h
    by_contra hcond
    have hframes : 0 < frameManagerSize memupper / pageSize := by
      rw [hp]
      omega
    have hfirst := h _ (canReturn_frame hframes (by decide))
    have hfirstEq : (0 * 4096 % 2 ^ 32 + 16777216) % 2 ^ 32 = 16777216 := by decide
    rw [hfirstEq] at hfirst
    have hend : 10485760 ≤ total ∧ total < 16777216 := by
      rcases hfirst.apart with hlow | hhigh
      · omega
      · omega
    -- the frame that wraps around to the second page of memory
    have hwrap : 1044481 < frameManagerSize memupper / pageSize := by
      rw [hp]
      omega
    have hlast := (h _ (canReturn_frame hwrap (by decide))).start
    have hlastEq : (1044481 * 4096 % 2 ^ 32 + 16777216) % 2 ^ 32 = 4096 := by decide
    omega
  · rintro ⟨hlow, hhigh⟩ f ⟨ops, m, hexec, hret, hne⟩
    have hzero : m.totalFrames = 0 := by
      rw [totalFrames_exec hexec]
      show frameManagerSize memupper / pageSize = 0
      rw [hp]
      omega
    rw [pfmAllocateFrame, hzero] at hret
    exact absurd hret.symm hne

/-- With 32 MB of memory the first frame is in the heap. -/
theorem frame_in_heap : CanReturn 32768 16777216 ∧ ¬ InMemoryOutsideHeap 32768 16777216 := by
  refine ⟨canReturn_frame (n := 0) (by decide) (by decide), fun h => ?_⟩
  have hh := h.apart
  revert hh
  decide

end Jarvis
