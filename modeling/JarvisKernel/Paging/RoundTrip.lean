import JarvisKernel.Paging.Ranges

set_option relaxedAutoImplicit false
set_option autoImplicit false

/-!
# Ranges that are mapped and unmapped again

A range that was mapped to new frames by `vmm_allocate_pages` is unmapped again by `vmm_free_pages`, and
the frames are free again. `vmm_map_pages` maps a range to memory that exists. It takes no reference to the
frames in it, but `vmm_unmap_pages` and its own roll-back unmap pages as if they had been allocated for the
range, and drop a reference for each of them.

## Main definitions

* `Jarvis.VirtualMemory.vmmMapPages`, `Jarvis.VirtualMemory.vmmUnmapPages` — mapping what exists.
* `Jarvis.VirtualMemory.RoundTrips` — the property of allocating and freeing.
* `Jarvis.VirtualMemory.KeepsOwners` — the property of mapping and unmapping.

## Main results

* `Jarvis.VirtualMemory.roundTrips` — allocating and freeing a range is a round trip.
* `Jarvis.VirtualMemory.keepsOwners_iff` — when mapping and unmapping a range changes no record of frames.
-/

namespace Jarvis

namespace PageFrameManager

open VirtualMemory

variable {m : PageFrameManager} {base address k : ℕ}

/-! ## Frees of pages -/

/-- The address is that of a frame whose bit is set. -/
def Owned (m : PageFrameManager) (address : ℕ) : Prop :=
  ∃ k < m.totalFrames, (m.frames k).physicalAddress = address ∧
    Bitmap.test m.frameBitmap k = true

instance : Decidable (m.Owned address) := inferInstanceAs (Decidable (∃ k < m.totalFrames, _))

/-- Freeing a page that is not owned changes nothing. -/
lemma Placed.pfmFreeFrame_of_not_owned (h : m.Placed base) (haddr : address < 2 ^ 32)
    (halign : address % pageSize = 0) (hnot : ¬ m.Owned address) : m.pfmFreeFrame address = m := by
  have hb := h.aligned
  rcases h.pfmFreeFrame_cases address haddr with ⟨k, hk, hge, hlt, hset, -⟩ | ⟨-, hcode⟩
  · refine absurd ⟨k, hk, ?_, hset⟩ hnot
    rw [h.address k hk]
    rw [show pageSize = 4096 from rfl] at *
    omega
  · exact hcode

/-- What freeing a page does to a frame: if it is the frame of the page and its bit is set, it loses a
reference, and otherwise nothing changes. -/
lemma Placed.pfmFreeFrame_frame (h : m.Placed base) (haddr : address < 2 ^ 32)
    (halign : address % pageSize = 0) (hk : k < m.totalFrames) :
    (m.pfmFreeFrame address).Placed base ∧
      (m.pfmFreeFrame address).totalFrames = m.totalFrames ∧
      ((m.frames k).physicalAddress ≠ address →
        Bitmap.test (m.pfmFreeFrame address).frameBitmap k = Bitmap.test m.frameBitmap k ∧
        ((m.pfmFreeFrame address).frames k).referenceCount = (m.frames k).referenceCount) ∧
      ((m.frames k).physicalAddress = address → Bitmap.test m.frameBitmap k = true →
        ((m.pfmFreeFrame address).frames k).referenceCount =
          Word32.sub (m.frames k).referenceCount 1) := by
  have hb := h.aligned
  have hpage : pageSize = 4096 := rfl
  rw [hpage] at halign hb
  rw [h.address k hk]
  rcases h.pfmFreeFrame_cases address haddr with ⟨j, hj, hge, hlt, hset, hcode⟩ | ⟨hclear, hcode⟩
  · rw [hpage] at hge hlt ⊢
    rw [hcode]
    refine ⟨h.dropReference j, totalFrames_dropReference m j, fun hne => ?_, fun heq _ => ?_⟩
    · have hkj : k ≠ j := by
        rintro rfl
        omega
      rw [PageFrameManager.dropReference]
      split_ifs
      · refine ⟨?_, by simp [hkj]⟩
        show Bitmap.test (Bitmap.clear m.frameBitmap j) k = _
        simp [hkj]
      · exact ⟨rfl, by simp [hkj]⟩
    · obtain rfl : k = j := by omega
      rw [PageFrameManager.dropReference]
      split_ifs <;> simp
  · rw [hcode]
    refine ⟨h, rfl, fun _ => ⟨rfl, rfl⟩, fun heq hset => ?_⟩
    rw [hpage] at heq hclear
    rw [hclear k hk (by omega) (by omega)] at hset
    simp at hset

/-- A reference that is dropped is missing, also if the counter wraps around. -/
lemma sub_one_ne (c : ℕ) : Word32.sub c 1 ≠ c := by
  unfold Word32.sub
  omega

/-- Freeing different pages drops a reference to each allocated frame among them. -/
lemma Placed.referenceCount_foldl (h : m.Placed base) (hk : k < m.totalFrames) {ps : List ℕ}
    (hnodup : ps.Nodup) (hpages : ∀ p ∈ ps, p < 2 ^ 32 ∧ p % pageSize = 0)
    (hmem : (m.frames k).physicalAddress ∈ ps) (hset : Bitmap.test m.frameBitmap k = true) :
    ((ps.foldl PageFrameManager.pfmFreeFrame m).frames k).referenceCount =
      Word32.sub (m.frames k).referenceCount 1 := by
  -- a page that is not that of frame `k` leaves the frame as it is
  have hother : ∀ (ps : List ℕ) (m : PageFrameManager), m.Placed base → k < m.totalFrames →
      (∀ p ∈ ps, p < 2 ^ 32 ∧ p % pageSize = 0) → (m.frames k).physicalAddress ∉ ps →
      ((ps.foldl PageFrameManager.pfmFreeFrame m).frames k).referenceCount =
        (m.frames k).referenceCount := by
    intro ps
    induction ps with
    | nil => intro m _ _ _ _; rfl
    | cons p ps ih =>
      intro m h hk hpages hnot
      obtain ⟨hp, hps⟩ := List.forall_mem_cons.1 hpages
      obtain ⟨hplaced, htotal, hkeep, -⟩ := h.pfmFreeFrame_frame hp.1 hp.2 hk
      have hne : (m.frames k).physicalAddress ≠ p := fun he => hnot (by simp [he])
      rw [List.foldl_cons, ih _ hplaced (htotal ▸ hk) hps, (hkeep hne).2]
      rw [hplaced.address k (htotal ▸ hk), ← h.address k hk]
      exact fun hin => hnot (List.mem_cons_of_mem p hin)
  induction ps generalizing m with
  | nil => simp at hmem
  | cons p ps ih =>
    obtain ⟨hp, hps⟩ := List.forall_mem_cons.1 hpages
    obtain ⟨hnot, hnodup⟩ := List.nodup_cons.1 hnodup
    obtain ⟨hplaced, htotal, hkeep, hdrop⟩ := h.pfmFreeFrame_frame hp.1 hp.2 hk
    have haddr : ((m.pfmFreeFrame p).frames k).physicalAddress = (m.frames k).physicalAddress := by
      rw [hplaced.address k (htotal ▸ hk), h.address k hk]
    rw [List.foldl_cons]
    by_cases heq : (m.frames k).physicalAddress = p
    · rw [hother ps _ hplaced (htotal ▸ hk) hps (by rw [haddr, heq]; exact hnot), hdrop heq hset]
    · obtain ⟨hbit, hcount⟩ := hkeep heq
      rw [ih hplaced (htotal ▸ hk) hnodup hps, hcount]
      · rw [haddr]
        exact (List.mem_cons.1 hmem).resolve_left heq
      · rw [hbit]
        exact hset

/-- Freeing different pages changes no record of frames if and only if none of them is owned. -/
lemma Placed.foldl_pfmFreeFrame_iff (h : m.Placed base) {ps : List ℕ} (hnodup : ps.Nodup)
    (hpages : ∀ p ∈ ps, p < 2 ^ 32 ∧ p % pageSize = 0) :
    m.SameFrames (ps.foldl PageFrameManager.pfmFreeFrame m) ↔ ∀ p ∈ ps, ¬ m.Owned p := by
  constructor
  · rintro hsame p hp ⟨k, hk, rfl, hset⟩
    have hcount := hsame.references k hk
    rw [h.referenceCount_foldl hk hnodup hpages hp hset] at hcount
    exact sub_one_ne _ hcount
  · intro hnot
    have hfold : ps.foldl PageFrameManager.pfmFreeFrame m = m := by
      induction ps with
      | nil => rfl
      | cons p ps ih =>
        obtain ⟨hp, hps⟩ := List.forall_mem_cons.1 hpages
        obtain ⟨hfirst, hrest⟩ := List.forall_mem_cons.1 hnot
        rw [List.foldl_cons, h.pfmFreeFrame_of_not_owned hp.1 hp.2 hfirst]
        exact ih (List.nodup_cons.1 hnodup).2 hps hrest
    rw [hfold]
    exact ⟨fun _ _ => rfl, rfl, fun _ _ => rfl⟩

end PageFrameManager

namespace VirtualMemory

open PageFrameManager

variable {v w u : VirtualMemory} {d a address physicalAddress base size flags i j lo hi count : ℕ}
  {g : ℕ → ℕ}

/-! ## Allocating and freeing -/

/-- If `vmm_allocate_pages` succeeds, the pages of the range are mapped to different frames, and
`vmm_free_pages` then restores the translations and the records of frames. -/
def RoundTrips (v : VirtualMemory) (d address size flags : ℕ) : Prop :=
  (v.vmmAllocatePages d address size flags).2 = true →
    (∀ i < pageRound size / pageSize, ∃ f,
        (v.vmmAllocatePages d address size flags).1.frameOf d (pageAt (pageAlign address) i) = some f ∧
        ∀ j < pageRound size / pageSize, j ≠ i →
          (v.vmmAllocatePages d address size flags).1.frameOf d (pageAt (pageAlign address) j) ≠
            some f) ∧
      (∀ a < 2 ^ 32,
        ((v.vmmAllocatePages d address size flags).1.vmmFreePages d address size).pdGetPhysicalAddress
            d a = v.pdGetPhysicalAddress d a) ∧
      v.frameManager.SameFrames
        ((v.vmmAllocatePages d address size flags).1.vmmFreePages d address size).frameManager

/-- Allocating and freeing a range of which no page is mapped is a round trip.

**Proof sketch.** The pages of the range are a window of the directory, mapped to frames whose bits were
clear. Unmapping them shrinks the window until it is empty. -/
theorem roundTrips (h : v.Separate d) (hc : v.frameManager.Consistent base)
    (hfree : ∀ i < pageRound size / pageSize, v.isMapped d (pageAt (pageAlign address) i) = false)
    (flags : ℕ) : v.RoundTrips d address size flags := by
  intro hok
  rcases vmmAllocatePages_cases h hc address size flags with
    ⟨-, -, g, hwindow⟩ | ⟨n, -, -, -, hfail, -⟩
  · refine ⟨fun i hi => ⟨_, hwindow.mapped i (Nat.zero_le i) hi, fun j hj hji heq => ?_⟩, ?_⟩
    · rw [hwindow.mapped j (Nat.zero_le j) hj] at heq
      have hg := Nat.add_left_cancel (Option.some.inj heq)
      exact hji (hwindow.distinct j i (Nat.zero_le j) hj (Nat.zero_le i) hi hg)
    · have hrounds := pageRound_div_lt size
      have hempty := hwindow.unmapPages (Nat.zero_add _) (by omega)
      obtain ⟨hbits, hflat⟩ := hempty.empty
      refine ⟨fun a _ => ?_, hc.sameFrames hempty.consistent hempty.total hbits⟩
      rw [pdGetPhysicalAddress_eq, pdGetPhysicalAddress_eq, vmmFreePages, hflat]
      split_ifs with hpage
      · obtain ⟨i, hi, hsame⟩ := hpage
        rw [frameOf_of_samePage hsame, frameOf_eq_none_iff.2 (hfree i hi)]
      · rfl
  · rw [hfail] at hok
    simp at hok

/-- Two pages for a process that has mapped none. -/
theorem roundTrips_twoFrames :
    twoFrames.Separate 1 ∧ twoFrames.frameManager.Consistent 0x1000000 ∧
      (∀ i < pageRound 0x2000 / pageSize,
        twoFrames.isMapped 1 (pageAt (pageAlign 0x400000) i) = false) ∧
      (twoFrames.vmmAllocatePages 1 0x400000 0x2000 6).2 = true ∧
      twoFrames.RoundTrips 1 0x400000 0x2000 6 := by
  have hfree : ∀ i < pageRound 0x2000 / pageSize,
      twoFrames.isMapped 1 (pageAt (pageAlign 0x400000) i) = false := by decide
  exact ⟨separate_twoFrames.1, separate_twoFrames.2, hfree, by decide,
    roundTrips separate_twoFrames.1 separate_twoFrames.2 hfree 6⟩

/-! ## Mapping and unmapping what exists -/

/-- The loop of `vmm_map_pages` from page `i` on, with its roll-back. -/
def mapLoop (v : VirtualMemory) (d address physicalAddress flags : ℕ) :
    ℕ → ℕ → VirtualMemory × Bool
  | 0, _ => (v, true)
  | count + 1, i =>
    match v.pdMapPage d (pageAt address i) (pageAt physicalAddress i) flags with
    | (v, true) => mapLoop v d address physicalAddress flags count (i + 1)
    | (v, false) => (v.unmapPages d address i 0, false)

/-- `vmm_map_pages`; the truth value is `true` for the result 0. -/
def vmmMapPages (v : VirtualMemory) (d address physicalAddress size flags : ℕ) :
    VirtualMemory × Bool :=
  if physicalAddress = 0 then (v, false)
  else
    v.mapLoop d (pageAlign address) (pageAlign physicalAddress) flags (pageRound size / pageSize) 0

/-- `vmm_unmap_pages`. -/
def vmmUnmapPages (v : VirtualMemory) (d address size : ℕ) : VirtualMemory :=
  v.vmmFreePages d address size

/-- The memory after `vmm_map_pages`, and after `vmm_unmap_pages` of the same range if it succeeded. -/
def mapAndUnmap (v : VirtualMemory) (d address physicalAddress size flags : ℕ) : VirtualMemory :=
  match v.vmmMapPages d address physicalAddress size flags with
  | (w, true) => w.vmmUnmapPages d address size
  | (w, false) => w

/-- Mapping a range and unmapping it, or failing to map it, changes no record of frames. -/
def KeepsOwners (v : VirtualMemory) (d address physicalAddress size flags : ℕ) : Prop :=
  v.frameManager.SameFrames (v.mapAndUnmap d address physicalAddress size flags).frameManager

/-- The first `k` pages of a range can be mapped: none to the page at 0, and `malloc` returns the tables for
them. -/
def Mappable (v : VirtualMemory) (d address physicalAddress k : ℕ) : Prop :=
  (∀ j < k, pageAt physicalAddress j ≠ 0) ∧
    ∀ n < Nat.count (v.NeedsTable d address) k, v.memory (v.mallocs + n) = true

instance (k : ℕ) : Decidable (v.Mappable d address physicalAddress k) :=
  inferInstanceAs (Decidable ((∀ j < k, _) ∧ ∀ n < Nat.count (v.NeedsTable d address) k, _))

/-- No pages can be mapped. -/
lemma mappable_zero : v.Mappable d address physicalAddress 0 := ⟨by simp, by simp⟩

/-- One page more must not be mapped to 0, and needs a table if it is the first page in it. -/
lemma mappable_succ : v.Mappable d address physicalAddress (i + 1) ↔
    v.Mappable d address physicalAddress i ∧ pageAt physicalAddress i ≠ 0 ∧
      (v.NeedsTable d address i →
        v.memory (v.mallocs + Nat.count (v.NeedsTable d address) i) = true) := by
  simp only [Mappable, Nat.forall_lt_succ_right]
  rw [Nat.count_succ]
  by_cases hneed : v.NeedsTable d address i
  · simp only [hneed, if_true, forall_const, Nat.forall_lt_succ_right]
    tauto
  · simp only [hneed, if_false, Nat.add_zero, false_imp_iff, and_true]
    tauto

/-- If `k` pages can be mapped, fewer can. -/
lemma Mappable.mono {j k : ℕ} (h : v.Mappable d address physicalAddress k) (hj : j ≤ k) :
    v.Mappable d address physicalAddress j :=
  ⟨fun n hn => h.1 n (by omega), fun n hn => h.2 n (hn.trans_le (Nat.count_monotone _ hj))⟩

/-- The pages of a range from `lo` up to `hi` are mapped to those of a range of physical memory. -/
structure Mirrors (w : VirtualMemory) (d address physicalAddress lo hi : ℕ) : Prop where
  separate : w.Separate d
  mapped : ∀ j, lo ≤ j → j < hi →
    w.frameOf d (pageAt address j) = some (pageAt physicalAddress j / pageSize)

/-- One page more is mapped. -/
lemma Mirrors.map (h : Mirrors w d address physicalAddress 0 i) (hi : i < 2 ^ 20) (flags : ℕ)
    (hok : (w.pdMapPage d (pageAt address i) (pageAt physicalAddress i) flags).2 = true) :
    Mirrors (w.pdMapPage d (pageAt address i) (pageAt physicalAddress i) flags).1
      d address physicalAddress 0 (i + 1) := by
  obtain ⟨hsep, hflat⟩ := h.separate.pdMapPage (pageAt address i) (pageAt physicalAddress i) flags
  simp only [hok, true_and] at hflat
  refine ⟨hsep, fun j _ hj => ?_⟩
  rw [hflat]
  rcases Nat.lt_succ_iff_lt_or_eq.1 hj with hlt | rfl
  · rw [if_neg, h.mapped j (Nat.zero_le j) hlt]
    rw [samePage_pageAt (by omega) hi]
    omega
  · rw [if_pos ⟨rfl, rfl⟩]

/-- Unmapping the pages frees the pages of the range of physical memory.

**Proof sketch.** Induction on the number of pages. The first page is mapped, and its entry names the page
of physical memory, which is passed to `pfm_free_frame`. -/
lemma Mirrors.unmapPages (h : Mirrors w d address physicalAddress lo hi) (hcount : lo + count = hi)
    (hhi : hi ≤ 2 ^ 20) (halign : physicalAddress % pageSize = 0) :
    (w.unmapPages d address count lo).frameManager =
      ((List.range' lo count).map (pageAt physicalAddress)).foldl pfmFreeFrame w.frameManager := by
  induction count generalizing w lo with
  | zero => rfl
  | succ count ih =>
    obtain ⟨hsep, hflat⟩ := h.separate.pdUnmapPage (pageAt address lo)
    have hmapped := h.mapped lo le_rfl (by omega)
    have hmap : w.isMapped d (pageAt address lo) = true := by
      rw [← isSome_frameOf, hmapped]
      rfl
    have hpage : (w.entry d (pageAt address lo)).pageBaseAddress * pageSize =
        pageAt physicalAddress lo := by
      rw [frameOf, if_pos hmap] at hmapped
      rw [Option.some.inj hmapped, pageAt, Word32.add]
      rw [show pageSize = 4096 from rfl] at halign ⊢
      omega
    have hmanager : (w.pdUnmapPage d (pageAt address lo)).frameManager =
        w.frameManager.pfmFreeFrame (pageAt physicalAddress lo) := by
      rw [pdUnmapPage, if_pos hmap, hpage]
      rfl
    have hrest : Mirrors (w.pdUnmapPage d (pageAt address lo)) d address physicalAddress (lo + 1)
        hi := by
      refine ⟨hsep, fun j hj hjhi => ?_⟩
      rw [hflat, if_neg, h.mapped j (by omega) hjhi]
      rw [samePage_pageAt (by omega) (by omega)]
      omega
    rw [VirtualMemory.unmapPages, ih hrest (by omega), hmanager]
    rfl

/-- The loop of `vmm_map_pages` maps all pages, or the first ones, which it unmaps again. No frame is
allocated. -/
lemma mapLoop_cases (h : Mirrors w d address physicalAddress 0 i)
    (htables : TableProgress v w d address i) (hfit : i + count ≤ 2 ^ 20)
    (hmap : v.Mappable d address physicalAddress i) (flags : ℕ) :
    (v.Mappable d address physicalAddress (i + count) ∧
        ∃ u, w.mapLoop d address physicalAddress flags count i = (u, true) ∧
          u.frameManager = w.frameManager ∧ Mirrors u d address physicalAddress 0 (i + count)) ∨
      ∃ n < i + count, v.Mappable d address physicalAddress n ∧
        ¬ v.Mappable d address physicalAddress (n + 1) ∧
        ∃ u, w.mapLoop d address physicalAddress flags count i = (u.unmapPages d address n 0, false) ∧
          u.frameManager = w.frameManager ∧ Mirrors u d address physicalAddress 0 n := by
  induction count generalizing w i with
  | zero => exact .inl ⟨hmap, w, rfl, rfl, h⟩
  | succ count ih =>
    rw [VirtualMemory.mapLoop]
    by_cases hne : pageAt physicalAddress i = 0
    · refine .inr ⟨i, by omega, hmap, fun hsucc => (mappable_succ.1 hsucc).2.1 hne, w, ?_, rfl, h⟩
      rw [hne, VirtualMemory.pdMapPage, if_pos rfl]
    · have hmanager := (pdMapPage_effect w d (pageAt address i) flags hne).1
      have heffect := htables.pdMapPage hne flags
      have hmore := h.map (by omega) flags
      have hsep := h.separate.pdMapPage (pageAt address i) (pageAt physicalAddress i) flags
      generalize w.pdMapPage d (pageAt address i) (pageAt physicalAddress i) flags = r
        at hmanager heffect hmore hsep ⊢
      obtain ⟨u, ok⟩ := r
      rcases heffect with ⟨rfl, hneed, hmem⟩ | ⟨rfl, hmem, htables'⟩
      · refine .inr ⟨i, by omega, hmap, fun hsucc => ?_, u, rfl, hmanager, hsep.1, fun j hlo hj => ?_⟩
        · rw [(mappable_succ.1 hsucc).2.2 hneed] at hmem
          simp at hmem
        · rw [hsep.2, if_neg (by simp), h.mapped j hlo hj]
      · have hsucc := mappable_succ.2 ⟨hmap, hne, hmem⟩
        rcases ih (hmore rfl) htables' (by omega) hsucc with
          ⟨hall, u', hcode, hsame, hmirrors⟩ | ⟨n, hn, hmap', hstop, u', hcode, hsame, hmirrors⟩
        · rw [Nat.add_assoc, Nat.add_comm 1 count] at hall hmirrors
          exact .inl ⟨hall, u', hcode, hsame.trans hmanager, hmirrors⟩
        · exact .inr ⟨n, by omega, hmap', hstop, u', hcode, hsame.trans hmanager, hmirrors⟩

/-- What mapping and unmapping does to the frames: the pages that could be mapped are freed. -/
lemma frameManager_mapAndUnmap (h : v.Separate d) (address size flags : ℕ)
    (hp : physicalAddress ≠ 0) :
    ∃ n ≤ pageRound size / pageSize,
      (∀ j < pageRound size / pageSize,
        v.Mappable d (pageAlign address) (pageAlign physicalAddress) (j + 1) ↔ j < n) ∧
      (v.mapAndUnmap d address physicalAddress size flags).frameManager =
        ((List.range' 0 n).map (pageAt (pageAlign physicalAddress))).foldl pfmFreeFrame
          v.frameManager := by
  have hfit := pageRound_div_lt size
  have halign : pageAlign physicalAddress % pageSize = 0 := Nat.mul_mod_left ..
  have hstart : Mirrors v d (pageAlign address) (pageAlign physicalAddress) 0 0 :=
    ⟨h, fun j _ hj => absurd hj (Nat.not_lt_zero j)⟩
  have hcount : 0 + pageRound size / pageSize ≤ 2 ^ 20 := by omega
  have hloop := mapLoop_cases hstart tableProgress_zero hcount mappable_zero flags
  rw [Nat.zero_add] at hloop
  rw [mapAndUnmap, vmmMapPages, if_neg hp]
  rcases hloop with ⟨hall, u, hcode, hsame, hmirrors⟩ | ⟨n, hn, hmap, hstop, u, hcode, hsame, hmirrors⟩
  · refine ⟨pageRound size / pageSize, le_rfl, fun j hj => ⟨fun _ => hj, fun _ => hall.mono hj⟩, ?_⟩
    rw [hcode]
    show (u.unmapPages d (pageAlign address) (pageRound size / pageSize) 0).frameManager = _
    rw [hmirrors.unmapPages (Nat.zero_add _) (by omega) halign, hsame]
  · refine ⟨n, hn.le, fun j hj => ⟨fun hmap' => ?_, fun hjn => hmap.mono hjn⟩, ?_⟩
    · by_contra hge
      exact hstop (hmap'.mono (by omega))
    · rw [hcode]
      show (u.unmapPages d (pageAlign address) n 0).frameManager = _
      rw [hmirrors.unmapPages (Nat.zero_add _) (by omega) halign, hsame]

/-- Mapping and unmapping a range changes no record of frames if and only if no page that can be mapped is
mapped to a frame that is allocated.

**Proof sketch.** The pages that were mapped are unmapped again, after the mapping or in its roll-back. Each
of them frees its page of physical memory. The pages are different, so that a frame among them that is
allocated loses one reference. -/
theorem keepsOwners_iff (h : v.Separate d) (hplaced : v.frameManager.Placed base)
    (address physicalAddress size flags : ℕ) :
    v.KeepsOwners d address physicalAddress size flags ↔
      (physicalAddress ≠ 0 → ∀ j < pageRound size / pageSize,
        v.Mappable d (pageAlign address) (pageAlign physicalAddress) (j + 1) →
          ¬ v.frameManager.Owned (pageAt (pageAlign physicalAddress) j)) := by
  by_cases hp : physicalAddress = 0
  · simp only [KeepsOwners, mapAndUnmap, vmmMapPages, hp, ne_eq, not_true_eq_false,
      false_imp_iff, iff_true]
    exact ⟨fun _ _ => rfl, rfl, fun _ _ => rfl⟩
  · obtain ⟨n, hn, hreach, hmanager⟩ := frameManager_mapAndUnmap h address size flags hp
    have hfit := pageRound_div_lt size
    have hpage : pageSize = 4096 := rfl
    have hnodup : ((List.range' 0 n).map (pageAt (pageAlign physicalAddress))).Nodup := by
      refine List.Nodup.map_on (fun i hi j hj heq => ?_) List.nodup_range'
      have hi' := (List.mem_range'_1.1 hi).2
      have hj' := (List.mem_range'_1.1 hj).2
      simp only [pageAt, Word32.add, hpage] at heq
      omega
    have hpages : ∀ p ∈ (List.range' 0 n).map (pageAt (pageAlign physicalAddress)),
        p < 2 ^ 32 ∧ p % pageSize = 0 := by
      intro p hp
      obtain ⟨j, -, rfl⟩ := List.mem_map.1 hp
      simp only [pageAt, pageAlign, Word32.add, hpage]
      omega
    rw [KeepsOwners, hmanager, hplaced.foldl_pfmFreeFrame_iff hnodup hpages]
    simp only [List.forall_mem_map, List.mem_range'_1, hp, ne_eq, not_false_eq_true, true_imp_iff]
    constructor
    · intro hnot j hj hmap
      exact hnot j ⟨Nat.zero_le j, by have := (hreach j hj).1 hmap; omega⟩
    · rintro hnot j ⟨-, hj⟩
      exact hnot j (by omega) ((hreach j (by omega)).2 (by omega))

/-- A process has allocated a page, and maps its frame at another address: the frame is free when that
mapping is removed, while the first one is still there. -/
theorem not_keepsOwners_onePage :
    onePage.Separate 1 ∧ onePage.frameManager.Placed 0x1000000 ∧
      onePage.isMapped 1 0x800000 = false ∧
      onePage.pdGetPhysicalAddress 1 0x400000 = 0x1000000 ∧
      (onePage.mapAndUnmap 1 0x800000 0x1000000 0x1000 6).pdGetPhysicalAddress 1 0x400000 = 0x1000000 ∧
      Bitmap.test (onePage.mapAndUnmap 1 0x800000 0x1000000 0x1000 6).frameManager.frameBitmap 0 =
        false ∧
      ¬ onePage.KeepsOwners 1 0x800000 0x1000000 0x1000 6 := by
  refine ⟨separate_onePage.1, separate_onePage.2.placed, by decide, by decide, by decide, by decide,
    fun hkeeps => ?_⟩
  have hbit := hkeeps.bitmap 0 (by decide)
  exact absurd hbit (by decide)

/-- When mapping and unmapping a page at a given frame changes no record of frames. -/
theorem keepsOwners_iff_onePage :
    onePage.Separate 1 ∧ onePage.frameManager.Placed 0x1000000 ∧
      (onePage.KeepsOwners 1 0x800000 0x1001000 0x1000 6 ↔
        (0x1001000 ≠ 0 → ∀ j < pageRound 0x1000 / pageSize,
          onePage.Mappable 1 (pageAlign 0x800000) (pageAlign 0x1001000) (j + 1) →
            ¬ onePage.frameManager.Owned (pageAt (pageAlign 0x1001000) j))) :=
  ⟨separate_onePage.1, separate_onePage.2.placed,
    keepsOwners_iff separate_onePage.1 separate_onePage.2.placed 0x800000 0x1001000 0x1000 6⟩

end VirtualMemory

end Jarvis
