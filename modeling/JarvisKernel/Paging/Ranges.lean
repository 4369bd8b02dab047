import Mathlib.Data.Nat.Count
import JarvisKernel.Paging.Coverage
import JarvisKernel.Paging.FramePool
import JarvisKernel.Paging.Translation

set_option relaxedAutoImplicit false
set_option autoImplicit false

/-!
# Ranges of pages

`vmm_allocate_pages` maps the pages of a range one by one to new frames, and unmaps those it has mapped if
it runs out of frames or of memory for a page table. The pages of the range may be mapped before the call:
the new entry then replaces the old one, which the roll-back does not restore. The address is rounded down
and the size is rounded up, each on its own.

The first pages of a range that are mapped to new frames are a window of the directory: allocating
extends it at one end, and the roll-back shrinks it at the other.

## Main definitions

* `Jarvis.VirtualMemory.Affords` — there are frames and tables for the first pages of a range.
* `Jarvis.VirtualMemory.Window` — the pages of a range that were mapped to new frames.
* `Jarvis.VirtualMemory.FailureKeeps`, `Jarvis.VirtualMemory.CoversRange` — the properties of
  `vmm_allocate_pages`.

## Main results

* `Jarvis.VirtualMemory.allocateLoop_cases` — what the loop does, and which pages it reaches.
* `Jarvis.VirtualMemory.failureKeeps_iff` — when a failed call leaves no trace.
* `Jarvis.VirtualMemory.coversRange_iff` — when a successful call maps every byte of the range.
-/

namespace Jarvis

namespace PageFrameManager

variable {m : PageFrameManager} {base k : ℕ}

/-- A frame that is allocated is freed by its address. -/
lemma Consistent.pfmFreeFrame_eq (h : m.Consistent base) (hk : k < m.totalFrames)
    (hset : Bitmap.test m.frameBitmap k = true) :
    m.pfmFreeFrame (base + k * pageSize) = m.dropReference k := by
  have hbound := h.placed.bound
  rw [show pageSize = 4096 from rfl] at hbound ⊢
  rcases h.placed.pfmFreeFrame_cases (base + k * 4096) (by omega) with
    ⟨j, hj, hge, hlt, -, hcode⟩ | ⟨hclear, -⟩
  · rw [show pageSize = 4096 from rfl] at hge hlt
    rw [hcode, show j = k by omega]
  · have := hclear k hk le_rfl (Nat.lt_add_of_pos_right (by decide))
    simp [this] at hset

end PageFrameManager

namespace VirtualMemory

open PageFrameManager

variable {v w : VirtualMemory} {d a address base flags i lo hi count k : ℕ} {g : ℕ → ℕ}

/-! ## Frames and tables for a range -/

/-- Page `i` of a range is the first one in a table that the directory does not have. -/
def NeedsTable (v : VirtualMemory) (d address i : ℕ) : Prop :=
  (v.directories d (dirIndex (pageAt address i))).present = false ∧
    ∀ j < i, dirIndex (pageAt address j) ≠ dirIndex (pageAt address i)

instance : DecidablePred (v.NeedsTable d address) := fun i =>
  inferInstanceAs (Decidable ((v.directories d (dirIndex (pageAt address i))).present = false ∧
    ∀ j < i, dirIndex (pageAt address j) ≠ dirIndex (pageAt address i)))

/-- There are frames for the first `k` pages of a range, and `malloc` returns the tables for them. -/
def Affords (v : VirtualMemory) (d address k : ℕ) : Prop :=
  k ≤ v.frameManager.freeFrames ∧
    ∀ n < Nat.count (v.NeedsTable d address) k, v.memory (v.mallocs + n) = true

instance : Decidable (v.Affords d address k) :=
  inferInstanceAs (Decidable (_ ∧ ∀ n < Nat.count (v.NeedsTable d address) k, _))

/-- No memory is needed for no pages. -/
lemma affords_zero : v.Affords d address 0 := ⟨Nat.zero_le _, by simp⟩

/-- One page more needs a frame, and a table if it is the first page in it. -/
lemma affords_succ : v.Affords d address (i + 1) ↔
    v.Affords d address i ∧ i < v.frameManager.freeFrames ∧
      (v.NeedsTable d address i →
        v.memory (v.mallocs + Nat.count (v.NeedsTable d address) i) = true) := by
  unfold Affords
  rw [Nat.count_succ]
  by_cases hneed : v.NeedsTable d address i
  · simp only [hneed, if_true, forall_const]
    constructor
    · rintro ⟨hfree, hmem⟩
      exact ⟨⟨by omega, fun n hn => hmem n (by omega)⟩, by omega, hmem _ (by omega)⟩
    · rintro ⟨⟨-, hmem⟩, hfree, hlast⟩
      refine ⟨by omega, fun n hn => ?_⟩
      rcases Nat.lt_succ_iff_lt_or_eq.1 hn with hlt | rfl
      · exact hmem n hlt
      · exact hlast
  · simp only [hneed, if_false, Nat.add_zero, false_imp_iff, and_true]
    constructor
    · rintro ⟨hfree, hmem⟩
      exact ⟨⟨by omega, hmem⟩, by omega⟩
    · rintro ⟨⟨-, hmem⟩, hfree⟩
      exact ⟨by omega, hmem⟩

/-- Memory for `k` pages is enough for fewer pages. -/
lemma Affords.mono {j : ℕ} (h : v.Affords d address k) (hj : j ≤ k) : v.Affords d address j :=
  ⟨hj.trans h.1, fun n hn => h.2 n (hn.trans_le (Nat.count_monotone _ hj))⟩

/-! ## Calls and counters -/

/-- What `pd_map_page` does to the counters and the tables, for a page other than the first one. -/
lemma pdMapPage_effect (v : VirtualMemory) (d address flags : ℕ) {physicalAddress : ℕ}
    (hp : physicalAddress ≠ 0) :
    (v.pdMapPage d address physicalAddress flags).1.frameManager = v.frameManager ∧
      ((v.pdMapPage d address physicalAddress flags).2 = false ∧
          (v.directories d (dirIndex address)).present = false ∧ v.memory v.mallocs = false ∨
        (v.pdMapPage d address physicalAddress flags).2 = true ∧
          ((v.directories d (dirIndex address)).present = false → v.memory v.mallocs = true) ∧
          (v.pdMapPage d address physicalAddress flags).1.memory = v.memory ∧
          (v.pdMapPage d address physicalAddress flags).1.mallocs = v.mallocs +
            (if (v.directories d (dirIndex address)).present then 0 else 1) ∧
          ∀ n, ((v.pdMapPage d address physicalAddress flags).1.directories d n).present = true ↔
            (v.directories d n).present = true ∨ dirIndex address = n) := by
  rw [pdMapPage, if_neg hp, ensureTable]
  cases hpres : (v.directories d (dirIndex address)).present with
  | true =>
    refine ⟨rfl, .inr ⟨rfl, by simp, rfl, rfl, fun n => ?_⟩⟩
    constructor
    · exact .inl
    · rintro (h | rfl)
      · exact h
      · exact hpres
  | false =>
    rw [mallocObject]
    cases hmem : v.memory v.mallocs with
    | false => exact ⟨rfl, .inl ⟨rfl, rfl, rfl⟩⟩
    | true =>
      refine ⟨rfl, .inr ⟨rfl, fun _ => rfl, rfl, rfl, fun n => ?_⟩⟩
      by_cases hn : dirIndex address = n
      · subst hn
        simp [VirtualMemory.setEntry, addTable]
      · simp [VirtualMemory.setEntry, addTable, hn, Ne.symm hn]

/-- The calls of `malloc` and the tables after the first `i` pages of a range were mapped. -/
structure TableProgress (v w : VirtualMemory) (d address i : ℕ) : Prop where
  memory : w.memory = v.memory
  mallocs : w.mallocs = v.mallocs + Nat.count (v.NeedsTable d address) i
  present : ∀ n, (w.directories d n).present = true ↔
    (v.directories d n).present = true ∨ ∃ j < i, dirIndex (pageAt address j) = n

/-- The first loop starts with nothing done. -/
lemma tableProgress_zero : TableProgress v v d address 0 := ⟨rfl, by simp, by simp⟩

/-- A table is missing if the page is the first one in it. -/
lemma TableProgress.needsTable_iff (h : TableProgress v w d address i) :
    v.NeedsTable d address i ↔ (w.directories d (dirIndex (pageAt address i))).present = false := by
  have hpres := h.present (dirIndex (pageAt address i))
  rw [← Bool.not_eq_true, hpres, NeedsTable, ← Bool.not_eq_true]
  simp only [not_or, not_exists, not_and, ne_eq]

/-- One page more: `pd_map_page` fails if it needs a table and there is no memory for it. -/
lemma TableProgress.pdMapPage (h : TableProgress v w d address i) {physicalAddress : ℕ}
    (hp : physicalAddress ≠ 0) (flags : ℕ) :
    (w.pdMapPage d (pageAt address i) physicalAddress flags).2 = false ∧ v.NeedsTable d address i ∧
        v.memory (v.mallocs + Nat.count (v.NeedsTable d address) i) = false ∨
      (w.pdMapPage d (pageAt address i) physicalAddress flags).2 = true ∧
        (v.NeedsTable d address i →
          v.memory (v.mallocs + Nat.count (v.NeedsTable d address) i) = true) ∧
        TableProgress v (w.pdMapPage d (pageAt address i) physicalAddress flags).1 d address
          (i + 1) := by
  have hneed := h.needsTable_iff
  obtain ⟨-, ⟨hfail, habs, hmem⟩ | ⟨hok, hmem, hmemory, hmallocs, hpres⟩⟩ :=
    pdMapPage_effect w d (pageAt address i) flags hp
  · refine .inl ⟨hfail, hneed.2 habs, ?_⟩
    rw [← h.memory, ← h.mallocs]
    exact hmem
  · refine .inr ⟨hok, fun hn => ?_, hmemory.trans h.memory, ?_, fun n => ?_⟩
    · rw [← h.memory, ← h.mallocs]
      exact hmem (hneed.1 hn)
    · rw [hmallocs, Nat.count_succ, h.mallocs]
      by_cases hn : v.NeedsTable d address i
      · rw [if_pos hn, hneed.1 hn]
        rfl
      · rw [if_neg hn, if_pos]
        · rfl
        · simpa using fun hp => hn (hneed.2 hp)
    · rw [hpres, h.present]
      constructor
      · rintro ((hold | ⟨j, hj, hjn⟩) | hin)
        · exact .inl hold
        · exact .inr ⟨j, by omega, hjn⟩
        · exact .inr ⟨i, by omega, hin⟩
      · rintro (hold | ⟨j, hj, hjn⟩)
        · exact .inl (.inl hold)
        · rcases Nat.lt_succ_iff_lt_or_eq.1 hj with hlt | rfl
          · exact .inl (.inr ⟨j, hlt, hjn⟩)
          · exact .inr hjn

/-- The counters and the tables after the first `i` pages of a range were mapped to new frames. -/
structure Progress (v w : VirtualMemory) (d address i : ℕ) : Prop where
  free : w.frameManager.freeFrames + i = v.frameManager.freeFrames
  memory : w.memory = v.memory
  mallocs : w.mallocs = v.mallocs + Nat.count (v.NeedsTable d address) i
  present : ∀ n, (w.directories d n).present = true ↔
    (v.directories d n).present = true ∨ ∃ j < i, dirIndex (pageAt address j) = n

/-- So does the second one. -/
lemma progress_zero : Progress v v d address 0 := ⟨rfl, rfl, by simp, by simp⟩

/-! ## The pages that were mapped -/

/-- The pages of a range have different entries. -/
lemma samePage_pageAt {j : ℕ} (hi : i < 2 ^ 20) (hj : j < 2 ^ 20) :
    SamePage (pageAt address i) (pageAt address j) ↔ i = j := by
  constructor
  · rintro ⟨hdir, htable⟩
    have hslot : slotAt 0 (pageAt address i) = slotAt 0 (pageAt address j) := by
      rw [slotAt, slotAt, hdir, htable]
    exact slotAt_pageAt_inj hi hj hslot
  · rintro rfl
    exact ⟨rfl, rfl⟩

/-- The pages of a range from `lo` up to `hi` are mapped to new frames, whose bits are set; `g` names the
frames. The pages before `lo` were unmapped, and what else there is is as in `v`. -/
structure Window (v w : VirtualMemory) (d address base lo hi : ℕ) (g : ℕ → ℕ) : Prop where
  separate : w.Separate d
  consistent : w.frameManager.Consistent base
  total : w.frameManager.totalFrames = v.frameManager.totalFrames
  other : ∀ a, (∀ j < hi, ¬ SamePage a (pageAt address j)) → w.frameOf d a = v.frameOf d a
  dropped : ∀ j < lo, w.frameOf d (pageAt address j) = none
  mapped : ∀ j, lo ≤ j → j < hi → w.frameOf d (pageAt address j) = some (base / pageSize + g j)
  fresh : ∀ j, lo ≤ j → j < hi → g j < v.frameManager.totalFrames ∧
    Bitmap.test v.frameManager.frameBitmap (g j) = false
  distinct : ∀ i j, lo ≤ i → i < hi → lo ≤ j → j < hi → g i = g j → i = j
  bits : ∀ k < v.frameManager.totalFrames, Bitmap.test w.frameManager.frameBitmap k = true ↔
    Bitmap.test v.frameManager.frameBitmap k = true ∨ ∃ j, lo ≤ j ∧ j < hi ∧ g j = k

/-- The loop invariant holds before the first page. -/
lemma window_zero (h : v.Separate d) (hc : v.frameManager.Consistent base) (g : ℕ → ℕ) :
    Window v v d address base 0 0 g where
  separate := h
  consistent := hc
  total := rfl
  other _ _ := rfl
  dropped j hj := absurd hj (Nat.not_lt_zero j)
  mapped j _ hj := absurd hj (Nat.not_lt_zero j)
  fresh j _ hj := absurd hj (Nat.not_lt_zero j)
  distinct i _ _ hi := absurd hi (Nat.not_lt_zero i)
  bits k _ := by simp

/-- A window without pages: the bits are those of `v`, and the pages before it are not mapped. -/
lemma Window.empty (h : Window v w d address base hi hi g) :
    (∀ k < v.frameManager.totalFrames, Bitmap.test w.frameManager.frameBitmap k =
        Bitmap.test v.frameManager.frameBitmap k) ∧
      ∀ a, w.frameOf d a =
        if ∃ j < hi, SamePage a (pageAt address j) then none else v.frameOf d a := by
  refine ⟨fun k hk => ?_, fun a => ?_⟩
  · have hbit := h.bits k hk
    have hnone : ¬ ∃ j, hi ≤ j ∧ j < hi ∧ g j = k := by
      rintro ⟨j, hge, hlt, -⟩
      omega
    simp only [hnone, or_false] at hbit
    exact Bool.eq_iff_iff.2 hbit
  · split_ifs with hpage
    · obtain ⟨j, hj, hsame⟩ := hpage
      rw [frameOf_of_samePage hsame, h.dropped j hj]
    · exact h.other a fun j hj hsame => hpage ⟨j, hj, hsame⟩

/-- The page of a frame. -/
lemma frame_div (base k : ℕ) :
    (base + k * pageSize) / pageSize = base / pageSize + k :=
  Nat.add_mul_div_right base k (by decide)

/-- The memory after frame `k` was allocated. -/
def withFrame (v : VirtualMemory) (k : ℕ) : VirtualMemory :=
  { v with frameManager := v.frameManager.markAllocated k }

/-- A page more is mapped to a frame whose bit was clear. -/
lemma Window.map (h : Window v w d address base 0 hi g) (hhi : hi < 2 ^ 20)
    (hk : k < w.frameManager.totalFrames) (hclear : Bitmap.test w.frameManager.frameBitmap k = false)
    (hcons : (w.frameManager.markAllocated k).Consistent base) (hne : base + k * pageSize ≠ 0)
    (flags : ℕ)
    (hok : ((w.withFrame k).pdMapPage d (pageAt address hi) (base + k * pageSize) flags).2 = true) :
    Window v ((w.withFrame k).pdMapPage d (pageAt address hi) (base + k * pageSize) flags).1
      d address base 0 (hi + 1) (Function.update g hi k) := by
  have hsep : (w.withFrame k).Separate d := ⟨h.separate.table_lt, h.separate.one_index⟩
  obtain ⟨hsep', hflat⟩ := hsep.pdMapPage (pageAt address hi) (base + k * pageSize) flags
  have hmanager := (pdMapPage_effect (w.withFrame k) d (pageAt address hi) flags hne).1
  simp only [hok, true_and, frame_div] at hflat
  -- frame `k` is none of those of the window, whose bits are set
  have hold : ∀ j < hi, g j ≠ k := by
    intro j hj hjk
    have hset := (h.bits k (h.total ▸ hk)).2 (.inr ⟨j, Nat.zero_le j, hj, hjk⟩)
    rw [hclear] at hset
    simp at hset
  have hupdate : ∀ j < hi, Function.update g hi k j = g j :=
    fun j hj => Function.update_of_ne (Nat.ne_of_lt hj) _ _
  have hfresh : Bitmap.test v.frameManager.frameBitmap k = false := by
    by_contra hset
    rw [(h.bits k (h.total ▸ hk)).2 (.inl (by simpa using hset))] at hclear
    simp at hclear
  refine ⟨hsep', hmanager ▸ hcons, hmanager ▸ h.total, fun a ha => ?_, fun j hj => ?_, fun j _ hj => ?_,
    fun j _ hj => ?_, fun j j' _ hj _ hj' heq => ?_, fun n hn => ?_⟩
  · rw [hflat, if_neg (ha hi (Nat.lt_succ_self hi))]
    exact h.other a fun j hj => ha j (by omega)
  · exact absurd hj (Nat.not_lt_zero j)
  · rcases Nat.lt_succ_iff_lt_or_eq.1 hj with hlt | rfl
    · rw [hflat, if_neg, hupdate j hlt]
      · exact h.mapped j (Nat.zero_le j) hlt
      · rw [samePage_pageAt (by omega) hhi]
        omega
    · rw [hflat, if_pos ⟨rfl, rfl⟩, Function.update_self]
  · rcases Nat.lt_succ_iff_lt_or_eq.1 hj with hlt | rfl
    · rw [hupdate j hlt]
      exact h.fresh j (Nat.zero_le j) hlt
    · rw [Function.update_self]
      exact ⟨h.total ▸ hk, hfresh⟩
  · rcases Nat.lt_succ_iff_lt_or_eq.1 hj with hlt | rfl
    · rcases Nat.lt_succ_iff_lt_or_eq.1 hj' with hlt' | rfl
      · rw [hupdate j hlt, hupdate j' hlt'] at heq
        exact h.distinct j j' (Nat.zero_le j) hlt (Nat.zero_le j') hlt' heq
      · rw [hupdate j hlt, Function.update_self] at heq
        exact absurd heq (hold j hlt)
    · rcases Nat.lt_succ_iff_lt_or_eq.1 hj' with hlt' | rfl
      · rw [hupdate j' hlt', Function.update_self] at heq
        exact absurd heq.symm (hold j' hlt')
      · rfl
  · rw [hmanager]
    show Bitmap.test (Bitmap.set w.frameManager.frameBitmap k) n = true ↔ _
    rw [Bitmap.test_set, Bool.or_eq_true, decide_eq_true_eq, h.bits n hn]
    constructor
    · rintro (rfl | hset | ⟨j, -, hj, rfl⟩)
      · exact .inr ⟨hi, Nat.zero_le hi, Nat.lt_succ_self hi, Function.update_self ..⟩
      · exact .inl hset
      · exact .inr ⟨j, Nat.zero_le j, Nat.lt_succ_of_lt hj, hupdate j hj⟩
    · rintro (hset | ⟨j, -, hj, hjn⟩)
      · exact .inr (.inl hset)
      · rcases Nat.lt_succ_iff_lt_or_eq.1 hj with hlt | rfl
        · rw [hupdate j hlt] at hjn
          exact .inr (.inr ⟨j, Nat.zero_le j, hlt, hjn⟩)
        · rw [Function.update_self] at hjn
          exact .inl hjn.symm

/-- The frame of a page that could not be mapped is handed back. -/
lemma Window.handBack (h : Window v w d address base 0 hi g)
    (hk : k < w.frameManager.totalFrames) (hclear : Bitmap.test w.frameManager.frameBitmap k = false)
    (hcons : (w.frameManager.markAllocated k).Consistent base) (hne : base + k * pageSize ≠ 0)
    (flags : ℕ)
    (hfail : ((w.withFrame k).pdMapPage d (pageAt address hi) (base + k * pageSize) flags).2 =
      false) :
    Window v (((w.withFrame k).pdMapPage d (pageAt address hi) (base + k * pageSize)
      flags).1.freeFrame (base + k * pageSize)) d address base 0 hi g := by
  have hsep : (w.withFrame k).Separate d := ⟨h.separate.table_lt, h.separate.one_index⟩
  obtain ⟨hsep', hflat⟩ := hsep.pdMapPage (pageAt address hi) (base + k * pageSize) flags
  have hmanager := (pdMapPage_effect (w.withFrame k) d (pageAt address hi) flags hne).1
  generalize ((w.withFrame k).pdMapPage d (pageAt address hi) (base + k * pageSize) flags) = r
    at hfail hsep' hflat hmanager ⊢
  simp only [hfail, Bool.false_eq_true, false_and, if_false] at hflat
  have hset : Bitmap.test (w.frameManager.markAllocated k).frameBitmap k = true := by
    show Bitmap.test (Bitmap.set w.frameManager.frameBitmap k) k = true
    simp [Bitmap.test_set]
  have hfree : (r.1.freeFrame (base + k * pageSize)).frameManager =
      (w.frameManager.markAllocated k).dropReference k := by
    rw [freeFrame, hmanager]
    exact hcons.pfmFreeFrame_eq hk hset
  refine ⟨⟨hsep'.table_lt, hsep'.one_index⟩, hfree ▸ hcons.dropReference hk hset, ?_,
    fun a ha => (hflat a).trans (h.other a ha), fun j hj => absurd hj (Nat.not_lt_zero j),
    fun j hlo hhi => ?_, h.fresh, h.distinct, fun n hn => ?_⟩
  · rw [hfree, totalFrames_dropReference]
    exact h.total
  · exact (hflat _).trans (h.mapped j hlo hhi)
  · have hbits : Bitmap.test (r.1.freeFrame (base + k * pageSize)).frameManager.frameBitmap n =
        Bitmap.test w.frameManager.frameBitmap n := by
      rw [hfree, hcons.counted.test_dropReference hk hset]
      show (!decide (n = k) && Bitmap.test (Bitmap.set w.frameManager.frameBitmap k) n) = _
      rw [Bitmap.test_set]
      by_cases hnk : n = k
      · simp [hnk, hclear]
      · simp [hnk]
    rw [hbits]
    exact h.bits n hn

/-- The first page of the window is unmapped, and its frame is free again. -/
lemma Window.unmap (h : Window v w d address base lo hi g) (hlo : lo < hi) (hhi : hi ≤ 2 ^ 20) :
    Window v (w.pdUnmapPage d (pageAt address lo)) d address base (lo + 1) hi g := by
  obtain ⟨hsep, hflat⟩ := h.separate.pdUnmapPage (pageAt address lo)
  obtain ⟨hk, -⟩ := h.fresh lo le_rfl hlo
  have hmapped := h.mapped lo le_rfl hlo
  have hset := (h.bits (g lo) hk).2 (.inr ⟨lo, le_rfl, hlo, rfl⟩)
  rw [← h.total] at hk
  have hmanager : (w.pdUnmapPage d (pageAt address lo)).frameManager =
      w.frameManager.dropReference (g lo) := by
    have hmap : w.isMapped d (pageAt address lo) = true := by
      rw [← isSome_frameOf, hmapped]
      rfl
    have hpage : (w.entry d (pageAt address lo)).pageBaseAddress = base / pageSize + g lo := by
      rw [frameOf, if_pos hmap] at hmapped
      exact Option.some.inj hmapped
    have haddr : (w.entry d (pageAt address lo)).pageBaseAddress * pageSize =
        base + g lo * pageSize := by
      rw [hpage, Nat.add_mul, Nat.div_mul_cancel (Nat.dvd_of_mod_eq_zero h.consistent.placed.aligned)]
    rw [pdUnmapPage, if_pos hmap, haddr]
    exact h.consistent.pfmFreeFrame_eq hk hset
  refine ⟨hsep, hmanager ▸ h.consistent.dropReference hk hset, ?_, fun a ha => ?_, fun j hj => ?_,
    fun j hj hjhi => ?_, fun j hj => h.fresh j (by omega),
    fun i j hi hihi hj => h.distinct i j (by omega) hihi (by omega), fun n hn => ?_⟩
  · rw [hmanager, totalFrames_dropReference]
    exact h.total
  · rw [hflat, if_neg (ha lo hlo)]
    exact h.other a ha
  · rw [hflat]
    split_ifs with hsame
    · rfl
    · rcases Nat.lt_succ_iff_lt_or_eq.1 hj with hlt | rfl
      · exact h.dropped j hlt
      · exact absurd ⟨rfl, rfl⟩ hsame
  · rw [hflat, if_neg]
    · exact h.mapped j (by omega) hjhi
    · rw [samePage_pageAt (by omega) (by omega)]
      omega
  · rw [hmanager, h.consistent.counted.test_dropReference hk hset, Bool.and_eq_true, h.bits n hn,
      Bool.not_eq_true', decide_eq_false_iff_not]
    have hclear := (h.fresh lo le_rfl hlo).2
    constructor
    · rintro ⟨hne, hset | ⟨j, hj, hjhi, rfl⟩⟩
      · exact .inl hset
      · refine .inr ⟨j, ?_, hjhi, rfl⟩
        rcases Nat.eq_or_lt_of_le hj with rfl | hlt
        · exact absurd rfl hne
        · exact hlt
    · rintro (hset' | ⟨j, hj, hjhi, rfl⟩)
      · refine ⟨?_, .inl hset'⟩
        rintro rfl
        rw [hclear] at hset'
        simp at hset'
      · refine ⟨fun heq => ?_, .inr ⟨j, by omega, hjhi, rfl⟩⟩
        have := h.distinct j lo (by omega) hjhi le_rfl hlo heq
        omega

/-- The roll-back unmaps all pages of the window. -/
lemma Window.unmapPages (h : Window v w d address base lo hi g) (hcount : lo + count = hi)
    (hhi : hi ≤ 2 ^ 20) : Window v (w.unmapPages d address count lo) d address base hi hi g := by
  induction count generalizing w lo with
  | zero =>
    obtain rfl : lo = hi := by omega
    exact h
  | succ count ih =>
    rw [VirtualMemory.unmapPages]
    exact ih (h.unmap (by omega) hhi) (by omega)

/-! ## The loop -/

/-- The loop of `vmm_allocate_pages` when a frame was found. -/
lemma allocateLoop_of_frame {p : ℕ} (hcode : w.frameManager.pfmAllocateFrame =
      (w.frameManager.markAllocated k, p)) (hp : p ≠ 0) (flags count : ℕ) :
    w.allocateLoop d address flags (count + 1) i =
      if ((w.withFrame k).pdMapPage d (pageAt address i) p flags).2 then
        ((w.withFrame k).pdMapPage d (pageAt address i) p flags).1.allocateLoop d address flags count
          (i + 1)
      else
        ((((w.withFrame k).pdMapPage d (pageAt address i) p flags).1.freeFrame p).unmapPages d address
          i 0, false) := by
  have hframe : w.allocateFrame = (w.withFrame k, p) := by
    rw [allocateFrame, hcode]
    rfl
  rw [VirtualMemory.allocateLoop, hframe]
  simp only [if_neg hp]
  rcases (w.withFrame k).pdMapPage d (pageAt address i) p flags with ⟨u, _ | _⟩
  · rfl
  · rfl

/-- One round of the loop of `vmm_allocate_pages`: a page more is mapped, or there is no frame or no table
for it, and the window is unmapped.

**Proof sketch.** A frame is found if the counter of free frames is positive. Mapping it fails if the
directory needs a table and `malloc` fails, and the frame is handed back then. -/
lemma Window.round (h : Window v w d address base 0 i g) (hprog : Progress v w d address i)
    (hi : i < 2 ^ 20) (hafford : v.Affords d address i) (flags count : ℕ) :
    (v.Affords d address (i + 1) ∧ ∃ u g, Window v u d address base 0 (i + 1) g ∧
        Progress v u d address (i + 1) ∧ w.allocateLoop d address flags (count + 1) i =
          u.allocateLoop d address flags count (i + 1)) ∨
      ¬ v.Affords d address (i + 1) ∧ ∃ u, Window v u d address base i i g ∧
        w.allocateLoop d address flags (count + 1) i = (u, false) := by
  have hfree := hprog.free
  rw [affords_succ]
  rcases h.consistent.pfmAllocateFrame with
    ⟨hzero, -, hcode⟩ | ⟨k, hk, hclear, hpos, hcons, hfrees, hne, hcode⟩
  · refine .inr ⟨fun hsucc => ?_, w.unmapPages d address i 0, h.unmapPages (by omega) hi.le, ?_⟩
    · have := hsucc.2.1
      omega
    · rw [VirtualMemory.allocateLoop, allocateFrame, hcode]
      simp
  · rw [allocateLoop_of_frame hcode hne]
    have hmap := fun hok => h.map hi hk hclear hcons hne flags hok
    have hback := fun hfail => h.handBack hk hclear hcons hne flags hfail
    have htables : TableProgress v (w.withFrame k) d address i :=
      ⟨hprog.memory, hprog.mallocs, hprog.present⟩
    have hmanager := (pdMapPage_effect (w.withFrame k) d (pageAt address i) flags hne).1
    have heffect := htables.pdMapPage hne flags
    generalize (w.withFrame k).pdMapPage d (pageAt address i) (base + k * pageSize) flags = r
      at hmap hback hmanager heffect ⊢
    obtain ⟨u, ok⟩ := r
    rcases heffect with ⟨rfl, hneed, hmem⟩ | ⟨rfl, hmem, htables'⟩
    · refine .inr ⟨fun hsucc => ?_, _, (hback rfl).unmapPages (by omega) hi.le, rfl⟩
      rw [hsucc.2.2 hneed] at hmem
      simp at hmem
    · refine .inl ⟨⟨hafford, by omega, hmem⟩, u, _, hmap rfl, ⟨?_, htables'.memory, htables'.mallocs,
        htables'.present⟩, rfl⟩
      rw [hmanager]
      show (w.frameManager.markAllocated k).freeFrames + (i + 1) = _
      omega

/-- The loop of `vmm_allocate_pages` maps all pages if there are frames and tables for them. Otherwise it
maps the first pages, for which there are, and unmaps them again. -/
lemma allocateLoop_cases (h : Window v w d address base 0 i g) (hprog : Progress v w d address i)
    (hfit : i + count ≤ 2 ^ 20) (hafford : v.Affords d address i) (flags : ℕ) :
    (v.Affords d address (i + count) ∧ (w.allocateLoop d address flags count i).2 = true ∧
        ∃ g, Window v (w.allocateLoop d address flags count i).1 d address base 0 (i + count) g) ∨
      ∃ n < i + count, v.Affords d address n ∧ ¬ v.Affords d address (n + 1) ∧
        (w.allocateLoop d address flags count i).2 = false ∧
        ∃ g, Window v (w.allocateLoop d address flags count i).1 d address base n n g := by
  induction count generalizing w i g with
  | zero => exact .inl ⟨hafford, rfl, g, h⟩
  | succ count ih =>
    rcases h.round hprog (by omega) hafford flags count with
      ⟨hsucc, u, g', hwindow, hprog', hcode⟩ | ⟨hstop, u, hwindow, hcode⟩
    · rw [hcode, ← Nat.add_assoc, Nat.add_right_comm]
      exact ih hwindow hprog' (by omega) hsucc
    · rw [hcode]
      exact .inr ⟨i, by omega, hafford, hstop, rfl, g, hwindow⟩

/-- What `vmm_allocate_pages` does. -/
lemma vmmAllocatePages_cases (h : v.Separate d) (hc : v.frameManager.Consistent base)
    (address size flags : ℕ) :
    (v.Affords d (pageAlign address) (pageRound size / pageSize) ∧
        (v.vmmAllocatePages d address size flags).2 = true ∧
        ∃ g, Window v (v.vmmAllocatePages d address size flags).1 d (pageAlign address) base 0
          (pageRound size / pageSize) g) ∨
      ∃ n < pageRound size / pageSize, v.Affords d (pageAlign address) n ∧
        ¬ v.Affords d (pageAlign address) (n + 1) ∧
        (v.vmmAllocatePages d address size flags).2 = false ∧
        ∃ g, Window v (v.vmmAllocatePages d address size flags).1 d (pageAlign address) base n n g := by
  have hfit : 0 + pageRound size / pageSize ≤ 2 ^ 20 := by
    have := pageRound_div_lt size
    omega
  have hprog : Progress v v d (pageAlign address) 0 := progress_zero
  have hloop := allocateLoop_cases (window_zero h hc id) hprog hfit affords_zero flags
  rw [Nat.zero_add] at hloop
  exact hloop

/-- A call keeps the tables separate and the records of the frames in agreement. -/
lemma vmmAllocatePages_keeps (h : v.Separate d) (hc : v.frameManager.Consistent base)
    (address size flags : ℕ) :
    (v.vmmAllocatePages d address size flags).1.Separate d ∧
      (v.vmmAllocatePages d address size flags).1.frameManager.Consistent base := by
  rcases vmmAllocatePages_cases h hc address size flags with
    ⟨-, -, g, hwindow⟩ | ⟨n, -, -, -, -, g, hwindow⟩
  · exact ⟨hwindow.separate, hwindow.consistent⟩
  · exact ⟨hwindow.separate, hwindow.consistent⟩

/-! ## Failed calls -/

/-- A call of `vmm_allocate_pages` that fails changes no translation, and no frame is allocated or
freed. -/
def FailureKeeps (v : VirtualMemory) (d address size flags : ℕ) : Prop :=
  (v.vmmAllocatePages d address size flags).2 = false →
    (∀ a < 2 ^ 32, (v.vmmAllocatePages d address size flags).1.pdGetPhysicalAddress d a =
        v.pdGetPhysicalAddress d a) ∧
      ∀ k < v.frameManager.totalFrames,
        Bitmap.test (v.vmmAllocatePages d address size flags).1.frameManager.frameBitmap k =
          Bitmap.test v.frameManager.frameBitmap k

/-- A page that is mapped has an address whose translation is not 0. -/
lemma exists_translation_ne_zero (hmap : v.isMapped d (pageAt (pageAlign address) i) = true) :
    ∃ a < 2 ^ 32, SamePage a (pageAt (pageAlign address) i) ∧ v.pdGetPhysicalAddress d a ≠ 0 := by
  have hp : pageSize = 4096 := rfl
  have haligned : pageAt (pageAlign address) i % 4096 = 0 := by
    simp only [pageAt, pageAlign, Word32.add, hp]
    omega
  have hlt : pageAt (pageAlign address) i < 2 ^ 32 := Nat.mod_lt _ (by decide)
  have hsame : SamePage (pageAt (pageAlign address) i + 1) (pageAt (pageAlign address) i) := by
    rw [samePage_iff (by omega) hlt, hp]
    omega
  refine ⟨pageAt (pageAlign address) i + 1, by omega, hsame, ?_⟩
  rw [pdGetPhysicalAddress_eq, frameOf_of_samePage hsame, frameOf, if_pos hmap]
  show _ + (pageAt (pageAlign address) i + 1) % pageSize ≠ 0
  rw [hp]
  omega

/-- A failed call leaves no trace unless a page of the range that it had mapped before it failed was mapped
already.

**Proof sketch.** The roll-back frees the new frames and unmaps their pages. A page that was mapped before
has lost its translation then, and this is the only change. -/
theorem failureKeeps_iff (h : v.Separate d) (hc : v.frameManager.Consistent base)
    (address size flags : ℕ) :
    v.FailureKeeps d address size flags ↔
      v.Affords d (pageAlign address) (pageRound size / pageSize) ∨
        ∀ j < pageRound size / pageSize, v.Affords d (pageAlign address) (j + 1) →
          v.isMapped d (pageAt (pageAlign address) j) = false := by
  rcases vmmAllocatePages_cases h hc address size flags with
    ⟨hall, hok, -⟩ | ⟨n, hn, hafford, hstop, hfail, g, hwindow⟩
  · simp [FailureKeeps, hok, hall]
  · have hnot : ¬ v.Affords d (pageAlign address) (pageRound size / pageSize) :=
      fun hall => hstop (hall.mono hn)
    obtain ⟨hbits, hflat⟩ := hwindow.empty
    simp only [FailureKeeps, hfail, true_imp_iff, hnot, false_or]
    constructor
    · rintro ⟨htrans, -⟩ j - hj
      by_contra hmap
      obtain ⟨a, ha, hsame, hne⟩ := exists_translation_ne_zero (by simpa using hmap)
      have hjn : j < n := by
        by_contra hge
        exact hstop (hj.mono (by omega))
      apply hne
      rw [← htrans a ha, pdGetPhysicalAddress_eq, hflat, if_pos ⟨j, hjn, hsame⟩]
    · intro hfree
      refine ⟨fun a _ => ?_, hbits⟩
      rw [pdGetPhysicalAddress_eq, pdGetPhysicalAddress_eq, hflat]
      split_ifs with hpage
      · obtain ⟨j, hj, hsame⟩ := hpage
        have hnone := hfree j (by omega) (hafford.mono hj)
        rw [frameOf_of_samePage hsame, frameOf_eq_none_iff.2 hnone]
      · rfl

/-- The directory of a process, with two frames in the system. -/
def twoFrames : VirtualMemory := (boot (fun _ => true) 0x2000 0x100000 0x100000).pdCreate.1

/-- `twoFrames` meets the assumptions on the paging structures. -/
lemma separate_twoFrames : twoFrames.Separate 1 ∧ twoFrames.frameManager.Consistent 0x1000000 := by
  have hempty : ∀ i, (twoFrames.directories 1 i).present = false := by
    intro i
    simp [twoFrames, boot, mapKernel, pdCreate, mallocObject]
  refine ⟨⟨fun i hi => ?_, fun i j hi => ?_⟩, ?_⟩
  · rw [hempty] at hi
    simp at hi
  · rw [hempty] at hi
    simp at hi
  · show (pfmInit frameManagerStart 0x2000).Consistent (pageRound frameManagerStart)
    exact consistent_pfmInit (by decide) (by decide)

/-- The process has mapped one page. -/
def onePage : VirtualMemory := (twoFrames.vmmAllocatePages 1 0x400000 0x1000 6).1

/-- So does `onePage`. -/
lemma separate_onePage : onePage.Separate 1 ∧ onePage.frameManager.Consistent 0x1000000 :=
  vmmAllocatePages_keeps separate_twoFrames.1 separate_twoFrames.2 _ _ _

/-- Mapping two pages over the one there is takes the last frame and fails, and the page is lost. -/
theorem not_failureKeeps_onePage :
    onePage.Separate 1 ∧ onePage.frameManager.Consistent 0x1000000 ∧
      ¬ onePage.FailureKeeps 1 0x400000 0x2000 6 := by
  refine ⟨separate_onePage.1, separate_onePage.2, fun hkeeps => ?_⟩
  have htrans := (hkeeps (by decide)).1 0x400000 (by decide)
  exact absurd htrans (by decide)

/-- When a failing call for two pages changes nothing, where the first one is mapped already. -/
theorem failureKeeps_iff_onePage :
    onePage.Separate 1 ∧ onePage.frameManager.Consistent 0x1000000 ∧
      (onePage.FailureKeeps 1 0x400000 0x2000 6 ↔
        onePage.Affords 1 (pageAlign 0x400000) (pageRound 0x2000 / pageSize) ∨
          ∀ j < pageRound 0x2000 / pageSize, onePage.Affords 1 (pageAlign 0x400000) (j + 1) →
            onePage.isMapped 1 (pageAt (pageAlign 0x400000) j) = false) :=
  ⟨separate_onePage.1, separate_onePage.2,
    failureKeeps_iff separate_onePage.1 separate_onePage.2 0x400000 0x2000 6⟩

/-! ## Successful calls -/

/-- After a call of `vmm_allocate_pages` that succeeds, every byte of the range is mapped. -/
def CoversRange (v : VirtualMemory) (d address size flags : ℕ) : Prop :=
  (v.vmmAllocatePages d address size flags).2 = true →
    ∀ k < size, (v.vmmAllocatePages d address size flags).1.isMapped d (Word32.add address k) = true

/-- The pages that are mapped after a successful call: those of the range, and those mapped before. -/
lemma Window.isMapped_iff (h : Window v w d address base 0 hi g) (a : ℕ) :
    w.isMapped d a = true ↔
      (∃ j < hi, SamePage a (pageAt address j)) ∨ v.isMapped d a = true := by
  rw [← isSome_frameOf, ← isSome_frameOf]
  by_cases hpage : ∃ j < hi, SamePage a (pageAt address j)
  · obtain ⟨j, hj, hsame⟩ := hpage
    rw [frameOf_of_samePage hsame, h.mapped j (Nat.zero_le j) hj]
    exact ⟨fun _ => .inl ⟨j, hj, hsame⟩, fun _ => rfl⟩
  · rw [h.other a fun j hj hsame => hpage ⟨j, hj, hsame⟩]
    exact ⟨.inr, fun hor => hor.resolve_left hpage⟩

/-- A byte of a range lies on one of its pages if it lies before the rounded size, counted from the start
of the first page.

**Proof sketch.** If there are pages, the size is at most `2 ^ 32 - 4096`, so that the distance of a byte
from the start of the first page does not wrap around. -/
lemma on_page_iff {size : ℕ} (address : ℕ) (hsize : size < 2 ^ 32) (hk : k < size) :
    (∃ j < pageRound size / pageSize, SamePage (Word32.add address k) (pageAt (pageAlign address) j)) ↔
      address % pageSize + k < pageRound size := by
  have hp : pageSize = 4096 := rfl
  have hround : pageRound size = if size + 4095 < 2 ^ 32 then (size + 4095) / 4096 * 4096 else 0 := by
    simp only [pageRound, pageAlign, Word32.add, hp]
    split_ifs <;> omega
  have hpage : ∀ j, SamePage (Word32.add address k) (pageAt (pageAlign address) j) ↔
      (k + address) % 2 ^ 32 / 4096 = (j * 4096 + address / 4096 * 4096) % 2 ^ 32 / 4096 := by
    intro j
    have hbyte : Word32.add address k < 2 ^ 32 := Nat.mod_lt _ (by decide)
    have hstart : pageAt (pageAlign address) j < 2 ^ 32 := Nat.mod_lt _ (by decide)
    rw [samePage_iff hbyte hstart]
    rfl
  simp only [hpage, hp]
  rw [hround]
  split_ifs with hwrap
  · constructor
    · rintro ⟨j, hj, hjpage⟩
      omega
    · intro hlt
      exact ⟨(address % 4096 + k) / 4096, by omega, by omega⟩
  · simp

/-- A successful call maps every byte of the range if the bytes past the rounded size, counted from the
start of the first page, were mapped before. -/
theorem coversRange_iff (h : v.Separate d) (hc : v.frameManager.Consistent base) {size : ℕ}
    (address : ℕ) (hsize : size < 2 ^ 32) (flags : ℕ) :
    v.CoversRange d address size flags ↔
      (v.Affords d (pageAlign address) (pageRound size / pageSize) →
        ∀ k < size, pageRound size ≤ address % pageSize + k →
          v.isMapped d (Word32.add address k) = true) := by
  rcases vmmAllocatePages_cases h hc address size flags with
    ⟨hall, hok, g, hwindow⟩ | ⟨n, hn, -, hstop, hfail, -⟩
  · simp only [CoversRange, hok, hall, true_imp_iff, hwindow.isMapped_iff]
    constructor
    · intro hcover k hk hge
      refine (hcover k hk).resolve_left fun hpage => ?_
      have := (on_page_iff address hsize hk).1 hpage
      omega
    · intro hold k hk
      by_cases hlt : address % pageSize + k < pageRound size
      · exact .inl ((on_page_iff address hsize hk).2 hlt)
      · exact .inr (hold k hk (by omega))
  · have hnot : ¬ v.Affords d (pageAlign address) (pageRound size / pageSize) :=
      fun hall => hstop (hall.mono hn)
    simp [CoversRange, hfail, hnot]

/-- Two bytes that lie on two pages: only the first one is mapped. -/
theorem not_coversRange_twoFrames :
    twoFrames.Separate 1 ∧ twoFrames.frameManager.Consistent 0x1000000 ∧
      ¬ twoFrames.CoversRange 1 0x400FFF 2 6 := by
  refine ⟨separate_twoFrames.1, separate_twoFrames.2, fun hcover => ?_⟩
  have hmapped := hcover (by decide) 1 (by decide)
  exact absurd hmapped (by decide)

/-- When a range of two bytes that lie on two pages is covered. -/
theorem coversRange_iff_twoFrames :
    twoFrames.Separate 1 ∧ twoFrames.frameManager.Consistent 0x1000000 ∧
      (twoFrames.CoversRange 1 0x400FFF 2 6 ↔
        (twoFrames.Affords 1 (pageAlign 0x400FFF) (pageRound 2 / pageSize) →
          ∀ k < 2, pageRound 2 ≤ 0x400FFF % pageSize + k →
            twoFrames.isMapped 1 (Word32.add 0x400FFF k) = true)) :=
  ⟨separate_twoFrames.1, separate_twoFrames.2,
    coversRange_iff separate_twoFrames.1 separate_twoFrames.2 0x400FFF (by decide) 6⟩

end VirtualMemory

end Jarvis
