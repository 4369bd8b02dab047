import JarvisKernel.Lib.Ownership
import JarvisKernel.Lib.Run
import JarvisKernel.Paging.Frames
import JarvisKernel.Paging.Slots

set_option relaxedAutoImplicit false
set_option autoImplicit false

/-!
# Isolation of address spaces

Along every run of the operations on page directories, no managed frame is named by two entries, and the
bit of every named frame is set in the bitmap. The operations refine the steps of a resource's life:
`pfm_allocate_frame` hands a frame out, `pd_map_page` puts it in a slot, `pd_unmap_page` empties a slot,
and `pfm_free_frame` takes the frame back.

## Main definitions

* `Jarvis.VirtualMemory.Isolated` — the invariant.
* `Jarvis.VirtualMemory.SpaceOp`, `Jarvis.VirtualMemory.spaceStep` — the operations.

## Main results

* `Jarvis.VirtualMemory.pdUnmapPage_spec` — `pd_unmap_page` empties a slot and takes its frame back.
* `Jarvis.VirtualMemory.exclusive_of_run` — no frame is shared, and none that is mapped is free.
-/

namespace Jarvis

namespace VirtualMemory

open PageFrameManager Ownership

variable {v v' : VirtualMemory} {d address f k flags : ℕ} {e : PageTableEntry}

/-! ## The invariant -/

/-- No managed frame is named by two slots, and the bits of named frames are set. -/
structure Isolated (v : VirtualMemory) : Prop where
  shape : Shape v
  frames : v.frameManager.Valid
  page_lt : ∀ s f, v.named s = some f → f < 2 ^ 20
  exclusive : Exclusive v.Managed v.Used v.named

/-- The managed frames are those of the bitmap. -/
lemma managed_iff (h : v.frameManager.Valid) :
    v.Managed f ↔ ∃ k < v.frameManager.totalFrames, f = firstPage + k := by
  refine exists_congr fun k => and_congr_right fun hk => ?_
  rw [h.address k hk]
  refine ⟨fun he => ?_, fun he => by rw [he]⟩
  exact (Nat.eq_of_mul_eq_mul_right (by decide) he).symm

/-- The used ones have their bits set. -/
lemma used_iff (h : v.frameManager.Valid) :
    v.Used f ↔ ∃ k < v.frameManager.totalFrames, f = firstPage + k ∧
      Bitmap.test v.frameManager.frameBitmap k = true := by
  refine exists_congr fun k => and_congr_right fun hk => and_congr_left fun _ => ?_
  rw [h.address k hk]
  refine ⟨fun he => ?_, fun he => by rw [he]⟩
  exact (Nat.eq_of_mul_eq_mul_right (by decide) he).symm

/-- A managed page is a positive 20-bit number. -/
lemma Managed.lt (hf : v.Managed f) (h : v.frameManager.Valid) : 0 < f ∧ f < 2 ^ 20 := by
  obtain ⟨k, hk, rfl⟩ := (managed_iff h).1 hf
  have hmul := h.bound
  rw [show 2 ^ 32 = 2 ^ 20 * pageSize from rfl] at hmul
  have hbound := Nat.le_of_mul_le_mul_right hmul (by decide)
  have hfirst : firstPage = 4096 := rfl
  omega

/-- Memories that differ in their frames and tables only. -/
structure SameDirectories (v v' : VirtualMemory) : Prop where
  live : v'.live = v.live
  kernelDirectory : v'.kernelDirectory = v.kernelDirectory
  managed : v'.Managed = v.Managed

/-- Operations that keep all address spaces keep the directories. -/
lemma SameSpaces.sameDirectories (h : SameSpaces v v') : SameDirectories v v' :=
  ⟨h.live, h.kernelDirectory, h.managed⟩

/-- A state has its own directories. -/
lemma SameDirectories.refl (v : VirtualMemory) : SameDirectories v v := ⟨rfl, rfl, rfl⟩

/-- Directories that two steps keep. -/
lemma SameDirectories.trans {w : VirtualMemory} (h : SameDirectories v v')
    (h' : SameDirectories v' w) : SameDirectories v w :=
  ⟨h'.live.trans h.live, h'.kernelDirectory.trans h.kernelDirectory, h'.managed.trans h.managed⟩

/-! ## Handing frames out and taking them back -/

/-- `pfm_allocate_frame` returns 0 and changes nothing, or hands out a managed frame that no slot
names. -/
lemma allocateFrame_spec (h : Isolated v) :
    v.allocateFrame = (v, 0) ∨
      ∃ v' f, v.allocateFrame = (v', f * pageSize) ∧ Isolated v' ∧ SameDirectories v v' ∧
        v.Managed f ∧ ¬ v.Used f ∧ v'.named = v.named ∧ v'.directories = v.directories ∧
        v'.tables = v.tables ∧ ∀ x, v'.Used x ↔ v.Used x ∨ x = f := by
  rcases pfmAllocateFrame_spec h.frames with hnone | ⟨k, hk, hclear, hcode⟩
  · refine .inl ?_
    rw [allocateFrame, hnone]
  · set m' := v.frameManager.markAllocated k with hm'
    have hvalid : m'.Valid := h.frames.markAllocated hclear
    set v' : VirtualMemory := { v with frameManager := m' } with hv'
    have hman : v'.Managed = v.Managed := by
      funext x
      exact propext ((managed_iff (v := v') hvalid).trans (managed_iff h.frames).symm)
    have hused : ∀ x, v'.Used x ↔ v.Used x ∨ x = firstPage + k := by
      intro x
      rw [used_iff (v := v') hvalid, used_iff h.frames]
      show (∃ j < v.frameManager.totalFrames, x = firstPage + j ∧
        Bitmap.test (Bitmap.set v.frameManager.frameBitmap k) j = true) ↔ _
      simp only [Bitmap.test_set, Bool.or_eq_true, decide_eq_true_eq]
      constructor
      · rintro ⟨j, hj, hx, rfl | hset⟩
        · exact .inr hx
        · exact .inl ⟨j, hj, hx, hset⟩
      · rintro (⟨j, hj, hx, hset⟩ | hx)
        · exact ⟨j, hj, hx, .inr hset⟩
        · exact ⟨k, hk, hx, .inl rfl⟩
    refine .inr ⟨v', firstPage + k, ?_, ⟨?_, hvalid, h.page_lt, ?_⟩, ⟨rfl, rfl, hman⟩,
      (managed_iff h.frames).2 ⟨k, hk, rfl⟩, ?_, rfl, rfl, rfl, hused⟩
    · rw [allocateFrame, hcode]
    · exact ⟨h.shape.nodup, h.shape.kernel_live, h.shape.live_lt, h.shape.table_lt, h.shape.unshared,
        h.shape.kernel_low⟩
    · rw [hman]
      exact h.exclusive.mono fun x hx => (hused x).2 (.inl hx)
    · rw [used_iff h.frames]
      rintro ⟨j, -, hj, hset⟩
      obtain rfl : k = j := by omega
      rw [hclear] at hset
      simp at hset

/-- The frames after `pfm_free_frame`. -/
lemma freeFrame_spec (h : v.frameManager.Valid) (hf : f < 2 ^ 20) :
    (v.freeFrame (f * pageSize)).frameManager.Valid ∧
      SameDirectories v (v.freeFrame (f * pageSize)) ∧
      ∀ x, (v.freeFrame (f * pageSize)).Used x ↔ v.Used x ∧ x ≠ f := by
  rcases pfmFreeFrame_spec h hf with ⟨k, hk, rfl, hset, hcode⟩ | ⟨hclear, hcode⟩
  · obtain ⟨hvalid, htotal, htest⟩ := h.dropReference hk hset
    have hfm : (v.freeFrame ((firstPage + k) * pageSize)).frameManager =
        v.frameManager.dropReference k := hcode
    rw [← hfm] at hvalid htotal htest
    refine ⟨hvalid, ⟨rfl, rfl, ?_⟩, fun x => ?_⟩
    · funext x
      rw [eq_iff_iff, managed_iff hvalid, managed_iff h, htotal]
    · rw [used_iff hvalid, used_iff h, htotal]
      simp only [htest, Bool.and_eq_true, Bool.not_eq_true', decide_eq_false_iff_not]
      constructor
      · rintro ⟨j, hj, hx, hjk, hjset⟩
        exact ⟨⟨j, hj, hx, hjset⟩, by omega⟩
      · rintro ⟨⟨j, hj, hx, hjset⟩, hne⟩
        exact ⟨j, hj, hx, by omega, hjset⟩
  · have hsame : v.freeFrame (f * pageSize) = v := by rw [freeFrame, hcode]
    rw [hsame]
    refine ⟨h, .refl v, fun x => ⟨fun hx => ⟨hx, ?_⟩, And.left⟩⟩
    rintro rfl
    obtain ⟨k, hk, hxk, hset⟩ := (used_iff h).1 hx
    rw [hclear k hk hxk] at hset
    simp at hset

/-- Taking back a frame that no slot names. -/
lemma Isolated.freeFrame (h : Isolated v) (hf : f < 2 ^ 20) (hnot : ∀ s, v.named s ≠ some f) :
    Isolated (v.freeFrame (f * pageSize)) := by
  obtain ⟨hvalid, hsame, hused⟩ := freeFrame_spec h.frames hf
  refine ⟨⟨h.shape.nodup, h.shape.kernel_live, h.shape.live_lt, h.shape.table_lt, h.shape.unshared,
    h.shape.kernel_low⟩, hvalid, h.page_lt, ?_⟩
  rw [hsame.managed]
  exact h.exclusive.release hnot fun x hx hxu => (hused x).2 ⟨hxu, hx⟩

/-! ## Mapping and unmapping -/

/-- `pd_map_page` of a frame that was just handed out. -/
lemma Isolated.pdMapPage (h : Isolated v) (hd : d ∈ v.live) (hk : d ≠ v.kernelDirectory)
    (hman : v.Managed f) (hused : v.Used f) (hnot : ∀ s, v.named s ≠ some f) (flags : ℕ) :
    Isolated (v.pdMapPage d address (f * pageSize) flags).1 := by
  obtain ⟨hshape, hsame, hnamed⟩ := pdMapPage_spec address h.shape hd
    (fun hdk => absurd hdk hk) (f * pageSize) flags
  rw [Nat.mul_div_cancel _ (by decide)] at hnamed
  refine ⟨hshape, by rw [hsame.frameManager]; exact h.frames, ?_, ?_⟩
  · intro s x hs
    rw [hnamed] at hs
    split_ifs at hs
    · by_cases he : s = slotAt d address
      · rw [he, Function.update_self, Option.some.injEq] at hs
        rw [← hs]
        exact (hman.lt h.frames).2
      · rw [Function.update_of_ne he] at hs
        exact h.page_lt s x hs
    · exact h.page_lt s x hs
  · rw [hsame.managed, hsame.used, hnamed]
    split_ifs
    · exact h.exclusive.put hused hnot _
    · exact h.exclusive

/-- An address is mapped if its slot names a page. -/
lemma isMapped_iff (hd : d ∈ v.live) :
    v.isMapped d address = true ↔ v.named (slotAt d address) ≠ none := by
  rw [isMapped, named, entry]
  simp only [Bool.and_eq_true, slotAt, dirEntry, hd, true_and]
  split_ifs with hp
  · simp [hp]
  · simpa using hp

/-- The page that the slot of a mapped address names. -/
lemma named_of_isMapped (hd : d ∈ v.live) (hm : v.isMapped d address = true) :
    v.named (slotAt d address) = some (v.entry d address).pageBaseAddress := by
  rw [isMapped, Bool.and_eq_true] at hm
  rw [named, if_pos ⟨hd, hm.1, hm.2⟩]
  rfl

/-- `pd_unmap_page` empties the slot and takes the frame back. -/
lemma pdUnmapPage_spec (h : Isolated v) (hd : d ∈ v.live) (address : ℕ) :
    Isolated (v.pdUnmapPage d address) ∧ SameDirectories v (v.pdUnmapPage d address) ∧
      (v.pdUnmapPage d address).named = Function.update v.named (slotAt d address) none ∧
      ∀ x, (v.pdUnmapPage d address).Used x ↔
        v.Used x ∧ v.named (slotAt d address) ≠ some x := by
  rw [pdUnmapPage]
  split_ifs with hm
  · have hnamed := named_of_isMapped hd hm
    set f := (v.entry d address).pageBaseAddress with hf
    have hlt := h.page_lt _ _ hnamed
    set w := v.setEntry d address {} with hw
    have hpres : (v.directories d (dirIndex address)).present = true := by
      rw [isMapped, Bool.and_eq_true] at hm
      exact hm.1
    have hset : w.named = Function.update v.named (slotAt d address) none :=
      named_setEntry h.shape hd hpres {}
    obtain ⟨hvalid, hsame, hused⟩ := freeFrame_spec (v := w) h.frames hlt
    have hfinal : (w.freeFrame (f * pageSize)).named =
        Function.update v.named (slotAt d address) none := hset
    refine ⟨⟨⟨h.shape.nodup, h.shape.kernel_live, h.shape.live_lt, h.shape.table_lt,
      h.shape.unshared, h.shape.kernel_low⟩, hvalid, ?_, ?_⟩,
      ⟨hsame.live, hsame.kernelDirectory, hsame.managed⟩, hfinal, fun x => ?_⟩
    · intro s x hs
      rw [hfinal] at hs
      by_cases he : s = slotAt d address
      · rw [he, Function.update_self] at hs
        simp at hs
      · rw [Function.update_of_ne he] at hs
        exact h.page_lt s x hs
    · rw [hsame.managed, hfinal]
      by_cases hman : v.Managed f
      · exact (h.exclusive.drop _).release (h.exclusive.notMem_drop hman hnamed)
          fun x hx hxu => (hused x).2 ⟨hxu, hx⟩
      · refine (h.exclusive.drop _).mono fun x hxu => (hused x).2 ⟨hxu, ?_⟩
        rintro rfl
        obtain ⟨k, hk, hx, -⟩ := hxu
        exact hman ⟨k, hk, hx⟩
    · rw [hused x, hnamed, Ne, Ne, Option.some.injEq]
      exact and_congr Iff.rfl (not_congr eq_comm)
  · have hnone : v.named (slotAt d address) = none := by
      by_contra hne
      exact hm ((isMapped_iff hd).2 hne)
    refine ⟨h, .refl v, ?_, fun x => ?_⟩
    · rw [← hnone, Function.update_eq_self]
    · rw [hnone]
      simp

/-! ## Address spaces -/

/-- What unmapping one page keeps, unmapping a range keeps. -/
lemma unmapPages_induction {P : VirtualMemory → Prop}
    (hstep : ∀ w a, P w → P (w.pdUnmapPage d a)) {count i : ℕ} (h : P v) :
    P (v.unmapPages d address count i) := by
  induction count generalizing v i with
  | zero => exact h
  | succ count ih => exact ih (hstep v (pageAt address i) h)

/-- The memory `v'` is isolated, and has the directories of `v`. -/
structure Kept (v v' : VirtualMemory) : Prop where
  isolated : Isolated v'
  same : SameDirectories v v'

/-- What two steps keep. -/
lemma Kept.trans {w : VirtualMemory} (h : Kept v v') (h' : Kept v' w) : Kept v w :=
  ⟨h'.isolated, h.same.trans h'.same⟩

/-- Nothing needs to be done to keep them apart. -/
lemma Isolated.kept (h : Isolated v) : Kept v v := ⟨h, .refl v⟩

/-- A directory of a process: it exists, and is not that of the kernel. -/
structure IsProcessDirectory (v : VirtualMemory) (d : ℕ) : Prop where
  live : d ∈ v.live
  not_kernel : d ≠ v.kernelDirectory

/-- Directories of processes are directories of processes afterwards. -/
lemma IsProcessDirectory.of_same (hd : IsProcessDirectory v d) (h : SameDirectories v v') :
    IsProcessDirectory v' d :=
  ⟨h.live ▸ hd.live, h.kernelDirectory ▸ hd.not_kernel⟩

/-- Unmapping pages keeps the address spaces apart. -/
lemma Isolated.unmapPages (h : Isolated v) (hd : d ∈ v.live) (address count i : ℕ) :
    Kept v (v.unmapPages d address count i) := by
  refine unmapPages_induction (P := Kept v) (fun w a hw => ?_) h.kept
  obtain ⟨hiso, hsame, -, -⟩ := pdUnmapPage_spec hw.isolated (hw.same.live.symm ▸ hd) a
  exact hw.trans ⟨hiso, hsame⟩

/-- A frame that was handed out and is in no slot. -/
structure Pending (v : VirtualMemory) (f : ℕ) : Prop where
  managed : v.Managed f
  used : v.Used f
  unnamed : ∀ s, v.named s ≠ some f

/-- `pfm_allocate_frame` returns 0 and changes nothing, or hands out a frame that is in no slot. -/
lemma Isolated.allocateFrame (h : Isolated v) :
    v.allocateFrame = (v, 0) ∨
      ∃ w f, v.allocateFrame = (w, f * pageSize) ∧ f * pageSize ≠ 0 ∧ Kept v w ∧ w.Pending f ∧
        w.directories = v.directories ∧ w.tables = v.tables := by
  rcases allocateFrame_spec h with
    hnone | ⟨w, f, hcode, hiso, hsame, hman, hfree, hnamed, hdirs, htabs, hused⟩
  · exact .inl hnone
  · refine .inr ⟨w, f, hcode, ?_, ⟨hiso, hsame⟩, ⟨?_, (hused f).2 (.inr rfl), ?_⟩, hdirs, htabs⟩
    · exact Nat.mul_ne_zero (Nat.pos_iff_ne_zero.1 (hman.lt h.frames).1) (by decide)
    · rw [hsame.managed]
      exact hman
    · intro s hs
      rw [hnamed] at hs
      exact hfree (h.exclusive.used s f hman hs)

/-- A pending frame is mapped, or the call fails and it is still pending. -/
lemma Pending.pdMapPage (hp : v.Pending f) (h : Isolated v) (hd : IsProcessDirectory v d)
    (address flags : ℕ) :
    Kept v (v.pdMapPage d address (f * pageSize) flags).1 ∧
      ((v.pdMapPage d address (f * pageSize) flags).2 = false →
        (v.pdMapPage d address (f * pageSize) flags).1.Pending f) := by
  obtain ⟨-, hsame, hnamed⟩ := pdMapPage_spec address h.shape hd.live
    (fun hdk => absurd hdk hd.not_kernel) (f * pageSize) flags
  refine ⟨⟨h.pdMapPage hd.live hd.not_kernel hp.managed hp.used hp.unnamed flags,
    hsame.sameDirectories⟩, fun hfail => ⟨?_, ?_, ?_⟩⟩
  · rw [hsame.managed]
    exact hp.managed
  · rw [hsame.used]
    exact hp.used
  · rw [hnamed, hfail]
    exact hp.unnamed

/-- A pending frame may be taken back. -/
lemma Pending.freeFrame (hp : v.Pending f) (h : Isolated v) :
    Kept v (v.freeFrame (f * pageSize)) := by
  have hlt := (hp.managed.lt h.frames).2
  obtain ⟨-, hsame, -⟩ := freeFrame_spec h.frames hlt
  exact ⟨h.freeFrame hlt hp.unnamed, hsame⟩

/-- The loop of `vmm_allocate_pages` and its roll-back.

**Proof sketch.** Induction on the number of pages that are left. A round hands out a frame, which is
pending until it is mapped; if there is no frame, or no memory for a page table, the pending frame is
taken back and the pages before it are unmapped. -/
lemma Isolated.allocateLoop (h : Isolated v) (hd : IsProcessDirectory v d) (address flags : ℕ)
    (count i : ℕ) : Kept v (v.allocateLoop d address flags count i).1 := by
  induction count generalizing v i with
  | zero => exact h.kept
  | succ count ih =>
    rw [VirtualMemory.allocateLoop]
    rcases h.allocateFrame with hnone | ⟨w, f, hcode, hne, hw, hp, -, -⟩
    · rw [hnone]
      exact h.unmapPages hd.live address i 0
    · rw [hcode]
      simp only [if_neg hne]
      have hdw := hd.of_same hw.same
      obtain ⟨hmap, hfail⟩ := hp.pdMapPage hw.isolated hdw (pageAt address i) flags
      rcases hres : w.pdMapPage d (pageAt address i) (f * pageSize) flags with ⟨u, ok⟩
      rw [hres] at hmap hfail
      have hu := hw.trans hmap
      cases ok with
      | true => exact hu.trans (ih hu.isolated (hd.of_same hu.same) (i + 1))
      | false =>
        have hfree := hu.trans ((hfail rfl).freeFrame hu.isolated)
        exact hfree.trans (hfree.isolated.unmapPages (hd.of_same hfree.same).live address i 0)

/-- `vmm_allocate_pages` keeps the invariant. -/
lemma Isolated.vmmAllocatePages (h : Isolated v) (hd : IsProcessDirectory v d)
    (address size flags : ℕ) : Kept v (v.vmmAllocatePages d address size flags).1 :=
  h.allocateLoop hd _ _ _ _

/-- `vmm_free_pages` keeps the invariant. -/
lemma Isolated.vmmFreePages (h : Isolated v) (hd : d ∈ v.live) (address size : ℕ) :
    Kept v (v.vmmFreePages d address size) :=
  h.unmapPages hd _ _ _

/-! ## Page faults -/

/-- The demand paging branch maps a new frame, also over a page that is present. -/
lemma Isolated.demandPage (h : Isolated v) (hd : IsProcessDirectory v d)
    (regions : List MemoryRegion) (address : ℕ) : Kept v (v.demandPage d regions address).1 := by
  rw [VirtualMemory.demandPage]
  cases findRegion regions address with
  | none => exact h.kept
  | some region =>
    rcases h.allocateFrame with hnone | ⟨w, f, hcode, hne, hw, hp, -, -⟩
    · simp only [hnone]
      exact h.kept
    · simp only [hcode, if_neg hne]
      exact hw.trans (hp.pdMapPage hw.isolated (hd.of_same hw.same) _ _).1

/-- A pending frame may be put in a slot by an assignment of its entry. -/
lemma Pending.setEntry (hp : v.Pending f) (h : Isolated v) (hd : d ∈ v.live)
    (hpres : (v.directories d (dirIndex address)).present = true) (he : e.present = true)
    (hf : e.pageBaseAddress = f) : Kept v (v.setEntry d address e) := by
  have hset := named_setEntry h.shape hd hpres e
  rw [if_pos he, hf] at hset
  refine ⟨⟨h.shape.setEntry d address _, h.frames, ?_, ?_⟩, ⟨rfl, rfl, rfl⟩⟩
  · intro s x hs
    rw [hset] at hs
    by_cases hs' : s = slotAt d address
    · rw [hs', Function.update_self, Option.some.injEq] at hs
      rw [← hs]
      exact (hp.managed.lt h.frames).2
    · rw [Function.update_of_ne hs'] at hs
      exact h.page_lt s x hs
  · rw [hset]
    exact h.exclusive.put hp.used hp.unnamed _

/-- The copy-on-write branch makes a slot name a new frame. -/
lemma Isolated.copyOnWrite (h : Isolated v) (hd : IsProcessDirectory v d) (address : ℕ) :
    Kept v (v.copyOnWrite d address).1 := by
  rw [VirtualMemory.copyOnWrite]
  split_ifs with hm
  · rcases h.allocateFrame with hnone | ⟨w, f, hcode, hne, hw, hp, hdirs, htabs⟩
    · simp only [hnone]
      exact h.kept
    · simp only [hcode, if_neg hne, Nat.mul_div_cancel _ (show 0 < pageSize by decide)]
      have hent : w.entry d address = v.entry d address := by rw [entry, entry, hdirs, htabs]
      obtain ⟨hpres, hentry⟩ := Bool.and_eq_true_iff.1 hm.1
      refine hw.trans (hp.setEntry hw.isolated (hd.of_same hw.same).live ?_ ?_ rfl)
      · rw [hdirs]
        exact hpres
      · rw [hent]
        exact hentry
  · exact h.kept

/-- `page_fault_handler` keeps the invariant. -/
lemma Isolated.pageFaultHandler (h : Isolated v) (hd : IsProcessDirectory v d)
    (regions : List MemoryRegion) (address : ℕ) (code : FaultCode) :
    Kept v (v.pageFaultHandler d regions address code).1 := by
  rw [VirtualMemory.pageFaultHandler]
  split_ifs
  · exact h.kept
  · exact h.demandPage hd regions address
  · exact h.copyOnWrite hd address
  · exact h.kept

/-! ## Creating and destroying directories -/

/-- A slot of a directory entry that is not present names nothing. -/
lemma named_eq_none {s : Slot} (h : (v.dirEntry s).present = false) : v.named s = none := by
  rw [named, if_neg]
  simp [h]

/-- A directory that `malloc` returns is not in use. -/
lemma Shape.fresh (h : Shape v) : v.mallocs ∉ v.live := fun hd => lt_irrefl _ (h.live_lt _ hd)

/-- The directory that `pd_create` returns has no table: the kernel's part that it copies is empty. -/
lemma Shape.pdCreate_empty (h : Shape v) (hm : v.memory v.mallocs = true) (i : ℕ) :
    (v.pdCreate.1.directories v.mallocs i).present = false := by
  rw [pdCreate_directories_self hm]
  split_ifs with hi
  · exact h.kernel_low i hi
  · rfl

/-- `pd_create` changes no slot, since the new directory has no table. -/
lemma Shape.named_pdCreate (h : Shape v) : v.pdCreate.1.named = v.named := by
  cases hm : v.memory v.mallocs with
  | false =>
    rw [pdCreate_of_no_malloc hm]
    rfl
  | true =>
    funext s
    by_cases hs : s.directory = v.mallocs
    · have hnew : (v.pdCreate.1.dirEntry s).present = false := by
        rw [dirEntry, hs]
        exact h.pdCreate_empty hm _
      rw [named_eq_none hnew, named, if_neg]
      rw [hs]
      exact fun h' => h.fresh h'.1
    · have hdir : v.pdCreate.1.dirEntry s = v.dirEntry s := by
        rw [dirEntry, dirEntry, pdCreate_directories hm hs]
      have hlive : s.directory ∈ v.pdCreate.1.live ↔ s.directory ∈ v.live := by
        rw [pdCreate_of_malloc hm]
        show s.directory ∈ v.mallocs :: v.live ↔ _
        simp [hs]
      have htab : v.pdCreate.1.tables = v.tables := by rw [pdCreate_of_malloc hm]
      rw [named, named, hdir, htab]
      simp only [hlive]

/-- `pd_create` returns a directory with no page present, or fails; no other slot changes. -/
lemma Isolated.pdCreate (h : Isolated v) : Isolated v.pdCreate.1 := by
  have hnamed := h.shape.named_pdCreate
  cases hm : v.memory v.mallocs with
  | false =>
    rw [pdCreate_of_no_malloc hm]
    exact ⟨h.shape.mallocs_succ, h.frames, h.page_lt, h.exclusive⟩
  | true =>
    have hfresh := h.shape.fresh
    have hempty := h.shape.pdCreate_empty hm
    have hold := fun d => pdCreate_directories (d := d) hm
    have hcode := congrArg Prod.fst (pdCreate_of_malloc hm)
    have hlive : v.pdCreate.1.live = v.mallocs :: v.live := by rw [hcode]
    have hcount : v.pdCreate.1.mallocs = v.mallocs + 1 := by rw [hcode]
    have hframes : v.pdCreate.1.frameManager = v.frameManager := by rw [hcode]
    have hkernel : v.pdCreate.1.kernelDirectory = v.kernelDirectory := by rw [hcode]
    -- a present entry of an existing directory is one of an old directory
    have hpres : ∀ d ∈ v.pdCreate.1.live, ∀ i, (v.pdCreate.1.directories d i).present = true →
        d ∈ v.live ∧ v.pdCreate.1.directories d = v.directories d := by
      intro d hd i hi
      rw [hlive] at hd
      rcases List.mem_cons.1 hd with rfl | hd
      · rw [hempty i] at hi
        simp at hi
      · exact ⟨hd, hold d fun he => hfresh (he ▸ hd)⟩
    refine ⟨⟨?_, ?_, ?_, ?_, ?_, ?_⟩, ?_, ?_, ?_⟩
    · rw [hlive]
      exact List.nodup_cons.2 ⟨hfresh, h.shape.nodup⟩
    · rw [hkernel, hlive]
      exact List.mem_cons_of_mem _ h.shape.kernel_live
    · intro d hd
      rw [hlive] at hd
      rw [hcount]
      rcases List.mem_cons.1 hd with rfl | hd
      · omega
      · have := h.shape.live_lt d hd
        omega
    · intro d hd i hi
      obtain ⟨hlive, hdir⟩ := hpres d hd i hi
      rw [hdir] at hi ⊢
      rw [hcount]
      exact Nat.lt_succ_of_lt (h.shape.table_lt d hlive i hi)
    · intro d₁ hd₁ d₂ hd₂ i₁ i₂ hi₁ hi₂ heq
      obtain ⟨hlive₁, hdir₁⟩ := hpres d₁ hd₁ i₁ hi₁
      obtain ⟨hlive₂, hdir₂⟩ := hpres d₂ hd₂ i₂ hi₂
      rw [hdir₁] at hi₁ heq
      rw [hdir₂] at hi₂ heq
      exact h.shape.unshared d₁ hlive₁ d₂ hlive₂ i₁ i₂ hi₁ hi₂ heq
    · intro i hi
      rw [hkernel, hold _ fun he => hfresh (he ▸ h.shape.kernel_live)]
      exact h.shape.kernel_low i hi
    · rw [hframes]
      exact h.frames
    · rw [hnamed]
      exact h.page_lt
    · have hman : v.pdCreate.1.Managed = v.Managed := by
        funext f
        rw [Managed, Managed, hframes]
      have hused : v.pdCreate.1.Used = v.Used := by
        funext f
        rw [Used, Used, hframes]
      rw [hnamed, hman, hused]
      exact h.exclusive

/-- `pd_destroy` empties the slots of the directory; the frames in them stay in use. -/
lemma Isolated.pdDestroy (h : Isolated v) (d : ℕ) : Isolated (v.pdDestroy d) := by
  rw [VirtualMemory.pdDestroy]
  split_ifs with hd
  · exact h
  · have hsub : ∀ s x, ({ v with live := v.live.erase d } : VirtualMemory).named s = some x →
        v.named s = some x := by
      intro s x hs
      rw [named] at hs ⊢
      split_ifs at hs with hcond
      · rw [if_pos ⟨List.mem_of_mem_erase hcond.1, hcond.2⟩]
        exact hs
    refine ⟨⟨h.shape.nodup.erase d, ?_, ?_, ?_, ?_, h.shape.kernel_low⟩, h.frames,
      fun s x hs => h.page_lt s x (hsub s x hs), h.exclusive.of_subtable hsub⟩
    · exact (List.mem_erase_of_ne (Ne.symm hd)).2 h.shape.kernel_live
    · exact fun e he => h.shape.live_lt e (List.mem_of_mem_erase he)
    · exact fun e he => h.shape.table_lt e (List.mem_of_mem_erase he)
    · exact fun e he e' he' => h.shape.unshared e (List.mem_of_mem_erase he) e'
        (List.mem_of_mem_erase he')

/-! ## Initialisation -/

/-- A page below 16 MB is not managed. -/
lemma not_managed_of_lt (h : v.frameManager.Valid) (hf : f < firstPage) : ¬ v.Managed f := by
  rw [managed_iff h]
  rintro ⟨k, -, rfl⟩
  omega

/-- Mapping the kernel's pages to themselves. -/
lemma Isolated.mapKernel (h : Isolated v) {stop : ℕ} (hstop : stop ≤ frameManagerStart)
    (fuel address : ℕ) : Isolated (v.mapKernel stop fuel address) := by
  induction fuel generalizing v address with
  | zero => exact h
  | succ fuel ih =>
    rw [VirtualMemory.mapKernel]
    split_ifs with hlt
    · apply ih
      have hstart : frameManagerStart = 16777216 := rfl
      have hpage : address / pageSize < firstPage := by
        rw [show pageSize = 4096 from rfl, show firstPage = 4096 from rfl]
        omega
      have hfirst : firstPage < 2 ^ 20 := by decide
      have hlow : dirIndex address < kernelEntries := by
        rw [dirIndex, show kernelEntries = 768 from rfl]
        omega
      obtain ⟨hshape, hsame, hnamed⟩ := pdMapPage_spec address h.shape h.shape.kernel_live
        (fun _ => hlow) address 3
      refine ⟨hshape, by rw [hsame.frameManager]; exact h.frames, ?_, ?_⟩
      · intro s x hs
        rw [hnamed] at hs
        split_ifs at hs
        · by_cases he : s = slotAt v.kernelDirectory address
          · rw [he, Function.update_self, Option.some.injEq] at hs
            omega
          · rw [Function.update_of_ne he] at hs
            exact h.page_lt s x hs
        · exact h.page_lt s x hs
      · rw [hsame.managed, hsame.used, hnamed]
        split_ifs
        · exact h.exclusive.put_unmanaged (not_managed_of_lt h.frames hpage) _
        · exact h.exclusive
    · exact h

/-- The memory is isolated when the kernel was mapped. -/
lemma isolated_boot (memory : ℕ → Bool) {size kernelEnd : ℕ} (kernelStart : ℕ)
    (hsize : frameManagerStart + size ≤ 2 ^ 32) (hend : kernelEnd ≤ frameManagerStart) :
    Isolated (boot memory size kernelStart kernelEnd) := by
  refine Isolated.mapKernel ⟨⟨?_, ?_, ?_, ?_, ?_, ?_⟩, valid_pfmInit hsize, ?_, ?_, ?_⟩ hend _ _
  · exact List.nodup_singleton 0
  · exact List.mem_singleton_self 0
  · intro d hd
    rw [List.mem_singleton.1 hd]
    exact Nat.one_pos
  · intro d _ i hi
    simp at hi
  · intro d _ d' _ i i' hi
    simp at hi
  · intro i _
    rfl
  · intro s x hs
    simp [named, dirEntry] at hs
  · intro s s' x _ hs
    simp [named, dirEntry] at hs
  · intro s x _ hs
    simp [named, dirEntry] at hs

/-! ## Runs -/

/-- The operations on address spaces, as `create_process`, `mmap`, `munmap` and the interrupt handler
make them. The malloc outcomes are in the memory. -/
inductive SpaceOp where
  | create
  | allocate (d address size flags : ℕ)
  | free (d address size : ℕ)
  | fault (d : ℕ) (regions : List MemoryRegion) (address : ℕ) (code : FaultCode)
  | destroy (d : ℕ)

/-- One operation. -/
def spaceStep (v : VirtualMemory) : SpaceOp → Option VirtualMemory
  | .create => some v.pdCreate.1
  | .allocate d address size flags => some (v.vmmAllocatePages d address size flags).1
  | .free d address size => some (v.vmmFreePages d address size)
  | .fault d regions address code => some (v.pageFaultHandler d regions address code).1
  | .destroy d => some (v.pdDestroy d)

/-- The directory of an operation is that of a process, and exists. -/
def OnProcess (v : VirtualMemory) : SpaceOp → Prop
  | .create => True
  | .allocate d .. | .free d .. | .fault d .. | .destroy d => d ∈ v.live ∧ d ≠ v.kernelDirectory

instance (v : VirtualMemory) : DecidablePred v.OnProcess := fun op => by
  cases op <;> unfold OnProcess <;> infer_instance

/-- Every operation on the directory of a process keeps the invariant. -/
lemma Isolated.spaceStep (h : Isolated v) (op : SpaceOp) (hop : v.OnProcess op) :
    ∃ w, v.spaceStep op = some w ∧ Isolated w := by
  cases op with
  | create => exact ⟨_, rfl, h.pdCreate⟩
  | allocate d address size flags =>
    exact ⟨_, rfl, (h.vmmAllocatePages ⟨hop.1, hop.2⟩ address size flags).isolated⟩
  | free d address size => exact ⟨_, rfl, (h.vmmFreePages hop.1 address size).isolated⟩
  | fault d regions address code =>
    exact ⟨_, rfl, (h.pageFaultHandler ⟨hop.1, hop.2⟩ regions address code).isolated⟩
  | destroy d => exact ⟨_, rfl, h.pdDestroy d⟩

/-- Along every run of the operations on the directories of processes, no managed frame is named by two
present page table entries, and the bit of every managed frame that is named is set. -/
theorem exclusive_of_run (memory : ℕ → Bool) (size kernelStart kernelEnd : ℕ)
    (hsize : frameManagerStart + size ≤ 2 ^ 32) (hend : kernelEnd ≤ frameManagerStart)
    (ops : List SpaceOp)
    (h : Run.Follows spaceStep OnProcess (boot memory size kernelStart kernelEnd) ops) :
    ∃ v, Run.exec spaceStep (boot memory size kernelStart kernelEnd) ops = some v ∧
      (∀ s s' f, v.Managed f → v.named s = some f → v.named s' = some f → s = s') ∧
      ∀ s f, v.Managed f → v.named s = some f → v.Used f := by
  obtain ⟨v, hexec, hv⟩ := Run.exec_of_step (fun _ op hw hop => hw.spaceStep op hop)
    (isolated_boot memory kernelStart hsize hend) h
  exact ⟨v, hexec, hv.exclusive.unique, hv.exclusive.used⟩

/-- Two processes, one of which takes a copy-on-write fault, maps over its own pages, and is
destroyed. -/
def twoProcesses : List SpaceOp :=
  [.create, .allocate 2 0x1000 8192 5, .create, .allocate 4 0x1000 4096 7,
    .fault 2 [] 0x1000 ⟨false, true, true⟩, .allocate 2 0x2000 4096 7, .free 4 0x1000 4096, .destroy 4]

/-- Two processes map and unmap pages, and no frame is mapped twice. -/
theorem exclusive_of_run_twoProcesses :
    Run.Follows spaceStep OnProcess (boot (fun _ => true) 65536 0xFFF000 0x1000000) twoProcesses ∧
      ∃ v, Run.exec spaceStep (boot (fun _ => true) 65536 0xFFF000 0x1000000) twoProcesses = some v ∧
        (∀ s s' f, v.Managed f → v.named s = some f → v.named s' = some f → s = s') ∧
        ∀ s f, v.Managed f → v.named s = some f → v.Used f := by
  have h : Run.Follows spaceStep OnProcess (boot (fun _ => true) 65536 0xFFF000 0x1000000)
      twoProcesses := by decide +kernel
  exact ⟨h, exclusive_of_run _ _ _ _ (by decide) (by decide) twoProcesses h⟩

end VirtualMemory

end Jarvis
