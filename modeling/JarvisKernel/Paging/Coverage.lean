import JarvisKernel.Paging.Isolation

set_option relaxedAutoImplicit false
set_option autoImplicit false

/-!
# Frames that are accounted for

A frame whose bit is set is accounted for if a present entry of one of certain directories names it. The
operations on address spaces are the steps of a resource's life, as for isolation: a frame that was handed
out is pending until it is mapped, and a frame that is unmapped is handed back. They keep every frame
accounted for unless `pd_map_page` assigns an entry that is present.

## Main definitions

* `Jarvis.VirtualMemory.Accounted` — every frame whose bit is set is named by one of the directories.
* `Jarvis.VirtualMemory.RangeFree` — no page of a range is mapped.
* `Jarvis.VirtualMemory.FaultKeeps` — the page fault handler gives up no frame.

## Main results

* `Jarvis.VirtualMemory.Accounted.vmmAllocatePages`, `Accounted.vmmFreePages`,
  `Accounted.pageFaultHandler` — the operations keep every frame accounted for.
* `Jarvis.VirtualMemory.vmmAllocatePages_failed` — a failed call leaves a new directory empty.
-/

namespace Jarvis

namespace VirtualMemory

open PageFrameManager Ownership

variable {v v' : VirtualMemory} {d address f flags count i : ℕ} {visible visible' : ℕ → Prop}

/-! ## Frames that are accounted for -/

/-- Every frame whose bit is set is named by a present entry of one of the directories. -/
def Accounted (v : VirtualMemory) (visible : ℕ → Prop) : Prop :=
  ∀ f, v.Used f → ∃ s : Slot, visible s.directory ∧ v.named s = some f

/-- A frame in use is one under management. -/
lemma Used.managed (h : v.Used f) : v.Managed f := by
  obtain ⟨k, hk, haddr, -⟩ := h
  exact ⟨k, hk, haddr⟩

/-- The frames are accounted for if the slots of the directories cover those in use. -/
lemma accounted_iff :
    v.Accounted visible ↔
      Covered v.Managed v.Used (fun _ => False) (fun s : Slot => visible s.directory) v.named := by
  constructor
  · intro h f _ hf
    exact .inr (h f hf)
  · intro h f hf
    rcases h f hf.managed hf with hfalse | hs
    · exact hfalse.elim
    · exact hs

/-- `pd_unmap_page` hands the frame back whose entry it clears. -/
lemma Accounted.pdUnmapPage (ha : v.Accounted visible) (h : Isolated v) (hd : d ∈ v.live)
    (address : ℕ) : (v.pdUnmapPage d address).Accounted visible := by
  obtain ⟨-, hsame, hnamed, hused⟩ := pdUnmapPage_spec h hd address
  rw [accounted_iff] at ha ⊢
  rw [hsame.managed, hnamed]
  exact ha.drop fun x _ hx => (hused x).1 hx

/-- Unmapping keeps every frame accounted for. -/
lemma Accounted.unmapPages (ha : v.Accounted visible) (h : Isolated v) (hd : d ∈ v.live)
    (address count i : ℕ) : (v.unmapPages d address count i).Accounted visible := by
  have hrun : Kept v (v.unmapPages d address count i) ∧
      (v.unmapPages d address count i).Accounted visible := by
    refine unmapPages_induction (P := fun w => Kept v w ∧ w.Accounted visible)
      (fun w a hw => ?_) ⟨h.kept, ha⟩
    have hdw : d ∈ w.live := hw.1.same.live.symm ▸ hd
    obtain ⟨hiso, hsame, -, -⟩ := pdUnmapPage_spec hw.1.isolated hdw a
    exact ⟨hw.1.trans ⟨hiso, hsame⟩, hw.2.pdUnmapPage hw.1.isolated hdw a⟩
  exact hrun.2

/-- `vmm_free_pages` keeps the frames accounted for. -/
lemma Accounted.vmmFreePages (ha : v.Accounted visible) (h : Isolated v) (hd : d ∈ v.live)
    (address size : ℕ) : (v.vmmFreePages d address size).Accounted visible :=
  ha.unmapPages h hd _ _ _

/-- `pfm_allocate_frame` makes a frame pending, which is accounted for when it is mapped in an entry that
is not present, and when it is handed back. -/
lemma Accounted.allocateFrame (ha : v.Accounted visible) (h : Isolated v) :
    v.allocateFrame = (v, 0) ∨
      ∃ w f, v.allocateFrame = (w, f * pageSize) ∧ f * pageSize ≠ 0 ∧ Kept v w ∧ w.Pending f ∧
        w.named = v.named ∧ w.directories = v.directories ∧ w.memory = v.memory ∧
        w.mallocs = v.mallocs ∧
        Covered w.Managed w.Used (fun x => x = f) (fun s : Slot => visible s.directory) w.named := by
  rcases allocateFrame_spec h with
    hnone | ⟨w, f, hcode, hiso, hsame, hman, hfree, hnamed, hdirs, htabs, hused⟩
  · exact .inl hnone
  · have hw : w = { v with frameManager := v.frameManager.pfmAllocateFrame.1 } :=
      (Prod.ext_iff.1 hcode).1.symm
    refine .inr ⟨w, f, hcode, ?_, ⟨hiso, hsame⟩, ⟨?_, (hused f).2 (.inr rfl), ?_⟩, hnamed, hdirs, ?_,
      ?_, ?_⟩
    · exact Nat.mul_ne_zero (Nat.pos_iff_ne_zero.1 (hman.lt h.frames).1) (by decide)
    · rw [hsame.managed]
      exact hman
    · intro s hs
      rw [hnamed] at hs
      exact hfree (h.exclusive.used s f hman hs)
    · rw [hw]
    · rw [hw]
    · rw [hsame.managed, hnamed]
      exact (accounted_iff.1 ha).acquire fun x hx => (hused x).1 hx

/-- A pending frame that is mapped in an entry that was not present. -/
lemma accounted_pdMapPage (flags : ℕ) (hcov : Covered v.Managed v.Used (fun x => x = f)
      (fun s : Slot => visible s.directory) v.named)
    (h : Isolated v) (hd : IsProcessDirectory v d) (hv : visible d)
    (hempty : v.named (slotAt d address) = none)
    (hok : (v.pdMapPage d address (f * pageSize) flags).2 = true) :
    (v.pdMapPage d address (f * pageSize) flags).1.Accounted visible := by
  obtain ⟨-, hsame, hnamed⟩ := pdMapPage_spec address h.shape hd.live
    (fun hdk => absurd hdk hd.not_kernel) (f * pageSize) flags
  rw [hok, if_pos rfl, Nat.mul_div_cancel _ (by decide)] at hnamed
  rw [accounted_iff, hsame.managed, hsame.used, hnamed]
  exact hcov.put hv hempty

/-- A pending frame that is handed back because it could not be mapped. -/
lemma accounted_freeFrame (hcov : Covered v.Managed v.Used (fun x => x = f)
      (fun s : Slot => visible s.directory) v.named)
    (h : Isolated v) (hp : v.Pending f) : (v.freeFrame (f * pageSize)).Accounted visible := by
  obtain ⟨-, hsame, hused⟩ := freeFrame_spec h.frames (hp.managed.lt h.frames).2
  rw [accounted_iff, hsame.managed]
  exact hcov.release fun x hx => (hused x).1 hx

/-! ## Ranges of pages -/

/-- The pages of a range have different slots. -/
lemma slotAt_pageAt_inj {j : ℕ} (hi : i < 2 ^ 20) (hj : j < 2 ^ 20)
    (h : slotAt d (pageAt address i) = slotAt d (pageAt address j)) : i = j := by
  simp only [slotAt, Slot.mk.injEq, dirIndex, tableIndex, pageAt, Word32.add, true_and,
    show pageSize = 4096 from rfl] at h
  omega

/-- No page of a range is mapped, from page `i` on. -/
def RangeFree (v : VirtualMemory) (d address count i : ℕ) : Prop :=
  ∀ j < count, v.isMapped d (pageAt address (i + j)) = false

instance : Decidable (v.RangeFree d address count i) :=
  inferInstanceAs (Decidable (∀ j < count, v.isMapped d (pageAt address (i + j)) = false))

/-- The loop of `vmm_allocate_pages` keeps the frames accounted for, over pages that are not mapped.

**Proof sketch.** Induction on the number of pages that are left. The frame of a round is pending until
it is mapped in the slot of its page; the slots of the other pages are different ones, and stay empty. -/
lemma Accounted.allocateLoop (ha : v.Accounted visible) (h : Isolated v)
    (hd : IsProcessDirectory v d) (hv : visible d) (hfit : i + count ≤ 2 ^ 20)
    (hfree : ∀ j < count, v.named (slotAt d (pageAt address (i + j))) = none) :
    (v.allocateLoop d address flags count i).1.Accounted visible := by
  induction count generalizing v i with
  | zero => exact ha
  | succ count ih =>
    rw [VirtualMemory.allocateLoop]
    rcases ha.allocateFrame h with hnone | ⟨w, f, hcode, hne, hw, hp, hnamed, -, -, -, hcov⟩
    · rw [hnone]
      exact ha.unmapPages h hd.live address i 0
    · rw [hcode]
      simp only [if_neg hne]
      have hdw := hd.of_same hw.same
      obtain ⟨hmap, hfail⟩ := hp.pdMapPage hw.isolated hdw (pageAt address i) flags
      obtain ⟨-, hsame, hnew⟩ := pdMapPage_spec (pageAt address i) hw.isolated.shape hdw.live
        (fun hdk => absurd hdk hdw.not_kernel) (f * pageSize) flags
      have hempty : w.named (slotAt d (pageAt address i)) = none := by
        rw [hnamed]
        exact hfree 0 (Nat.succ_pos count)
      have hput := accounted_pdMapPage flags hcov hw.isolated hdw hv hempty
      rcases hres : w.pdMapPage d (pageAt address i) (f * pageSize) flags with ⟨u, ok⟩
      rw [hres] at hmap hfail hput hsame hnew
      have hu := hw.trans hmap
      cases ok with
      | true =>
        refine ih (hput rfl) hu.isolated (hd.of_same hu.same) (by omega) fun j hj => ?_
        simp only [if_true] at hnew
        rw [hnew, Function.update_of_ne]
        · rw [hnamed, show i + 1 + j = i + (j + 1) by omega]
          exact hfree (j + 1) (by omega)
        · intro hslot
          have := slotAt_pageAt_inj (by omega) (by omega) hslot
          omega
      | false =>
        have hcovu : Covered u.Managed u.Used (fun x => x = f)
            (fun s : Slot => visible s.directory) u.named := by
          simp only [Bool.false_eq_true, if_false] at hnew
          rw [hsame.managed, hsame.used, hnew]
          exact hcov
        have hback := accounted_freeFrame hcovu hu.isolated (hfail rfl)
        have hkept := hu.trans ((hfail rfl).freeFrame hu.isolated)
        exact hback.unmapPages hkept.isolated (hd.of_same hkept.same).live address i 0

/-- The number of pages of a rounded size. -/
lemma pageRound_div_lt (size : ℕ) : pageRound size / pageSize < 2 ^ 20 := by
  simp only [pageRound, pageAlign, Word32.add, show pageSize = 4096 from rfl]
  omega

/-- `vmm_allocate_pages` keeps the frames accounted for, over a range that is not mapped. -/
lemma Accounted.vmmAllocatePages (ha : v.Accounted visible) (h : Isolated v)
    (hd : IsProcessDirectory v d) (hv : visible d) {address size : ℕ} (flags : ℕ)
    (hfree : v.RangeFree d (pageAlign address) (pageRound size / pageSize) 0) :
    (v.vmmAllocatePages d address size flags).1.Accounted visible := by
  refine ha.allocateLoop h hd hv ?_ fun j hj => ?_
  · have := pageRound_div_lt size
    omega
  · by_contra hne
    have hmap := (isMapped_iff hd.live).2 hne
    rw [hfree j hj] at hmap
    simp at hmap

/-- Unmapping a range empties the slots of its pages, and changes no other. -/
lemma named_unmapPages (h : Isolated v) (hd : d ∈ v.live) (address count i : ℕ) (s : Slot) :
    (v.unmapPages d address count i).named s = none ∨
      (v.unmapPages d address count i).named s = v.named s ∧
        ∀ j < count, s ≠ slotAt d (pageAt address (i + j)) := by
  induction count generalizing v i with
  | zero => exact .inr ⟨rfl, fun j hj => absurd hj (Nat.not_lt_zero j)⟩
  | succ count ih =>
    rw [VirtualMemory.unmapPages]
    obtain ⟨hiso, hsame, hnamed, -⟩ := pdUnmapPage_spec h hd (pageAt address i)
    rcases ih hiso (hsame.live.symm ▸ hd) (i + 1) with hnone | ⟨heq, hother⟩
    · exact .inl hnone
    · rw [heq, hnamed]
      by_cases hs : s = slotAt d (pageAt address i)
      · rw [hs, Function.update_self]
        exact .inl rfl
      · rw [Function.update_of_ne hs]
        refine .inr ⟨rfl, fun j hj => ?_⟩
        cases j with
        | zero => exact hs
        | succ j =>
          have := hother j (by omega)
          rwa [show i + 1 + j = i + (j + 1) by omega] at this

/-- The slots of a directory are empty after the roll-back of `vmm_allocate_pages`, if those of the pages
before the one that failed were the only ones in use. -/
lemma named_rollback (h : Isolated v) (hd : d ∈ v.live)
    (honly : ∀ s : Slot, s.directory = d → v.named s ≠ none → ∃ j < i, s = slotAt d (pageAt address j))
    (s : Slot) (hs : s.directory = d) : (v.unmapPages d address i 0).named s = none := by
  rcases named_unmapPages h hd address i 0 s with hnone | ⟨heq, hother⟩
  · exact hnone
  · rw [heq]
    by_contra hne
    obtain ⟨j, hj, rfl⟩ := honly s hs hne
    apply hother j hj
    rw [Nat.zero_add]

/-- A failed `vmm_allocate_pages` leaves a directory empty that was empty before.

**Proof sketch.** Induction on the number of pages that are left: the slots of the directory in use are
those of the pages before page `i`, and the roll-back empties these. -/
lemma allocateLoop_failed (h : Isolated v) (hd : IsProcessDirectory v d)
    (honly : ∀ s : Slot, s.directory = d → v.named s ≠ none → ∃ j < i, s = slotAt d (pageAt address j))
    (hfail : (v.allocateLoop d address flags count i).2 = false) (s : Slot) (hs : s.directory = d) :
    (v.allocateLoop d address flags count i).1.named s = none := by
  induction count generalizing v i with
  | zero => simp [VirtualMemory.allocateLoop] at hfail
  | succ count ih =>
    rw [VirtualMemory.allocateLoop] at hfail ⊢
    rcases h.allocateFrame with hnone | ⟨w, f, hcode, hne, hw, hp, hdirs, htabs⟩
    · rw [hnone]
      exact named_rollback h hd.live honly s hs
    · rw [hcode] at hfail ⊢
      simp only [if_neg hne] at hfail ⊢
      have hnamed : w.named = v.named := by
        funext t
        rw [named, named, dirEntry, dirEntry, hw.same.live, hdirs, htabs]
      have hdw := hd.of_same hw.same
      obtain ⟨hmap, hpend⟩ := hp.pdMapPage hw.isolated hdw (pageAt address i) flags
      obtain ⟨-, -, hnew⟩ := pdMapPage_spec (pageAt address i) hw.isolated.shape hdw.live
        (fun hdk => absurd hdk hdw.not_kernel) (f * pageSize) flags
      rcases hres : w.pdMapPage d (pageAt address i) (f * pageSize) flags with ⟨u, ok⟩
      rw [hres] at hmap hpend hnew hfail
      have hu := hw.trans hmap
      cases ok with
      | true =>
        refine ih hu.isolated (hd.of_same hu.same) (fun t ht htn => ?_) hfail
        simp only [if_true] at hnew
        by_cases hti : t = slotAt d (pageAt address i)
        · exact ⟨i, Nat.lt_succ_self i, hti⟩
        · rw [hnew, Function.update_of_ne hti, hnamed] at htn
          obtain ⟨j, hj, hjt⟩ := honly t ht htn
          exact ⟨j, Nat.lt_succ_of_lt hj, hjt⟩
      | false =>
        simp only [Bool.false_eq_true, if_false] at hnew
        have hkept := hu.trans ((hpend rfl).freeFrame hu.isolated)
        refine named_rollback hkept.isolated (hd.of_same hkept.same).live (fun t ht htn => ?_) s hs
        have hsame : (u.freeFrame (f * pageSize)).named = u.named := rfl
        rw [hsame, hnew, hnamed] at htn
        exact honly t ht htn

/-- A failed `vmm_allocate_pages` leaves a directory empty that was empty before. -/
lemma vmmAllocatePages_failed (h : Isolated v) (hd : IsProcessDirectory v d)
    (hempty : ∀ s : Slot, s.directory = d → v.named s = none) (address size flags : ℕ)
    (hfail : (v.vmmAllocatePages d address size flags).2 = false) (s : Slot) (hs : s.directory = d) :
    (v.vmmAllocatePages d address size flags).1.named s = none :=
  allocateLoop_failed h hd (fun t ht htn => absurd (hempty t ht) htn) hfail s hs

/-! ## Page faults -/

/-- The bit of some frame is clear. -/
def FrameFree (v : VirtualMemory) : Prop :=
  ∃ k < v.frameManager.totalFrames, Bitmap.test v.frameManager.frameBitmap k = false

instance : Decidable v.FrameFree :=
  inferInstanceAs (Decidable (∃ k < v.frameManager.totalFrames, _))

/-- A frame is handed out only if its bit was clear. -/
lemma Isolated.frameFree (h : Isolated v) (hne : v.allocateFrame.2 ≠ 0) : v.FrameFree := by
  rcases pfmAllocateFrame_spec h.frames with hnone | ⟨k, hk, hclear, -⟩
  · rw [VirtualMemory.allocateFrame, hnone] at hne
    exact absurd rfl hne
  · exact ⟨k, hk, hclear⟩

/-- The page fault handler gives up no frame: with a frame to hand out, it neither copies a page on write
nor maps a page of a region that is present already, and `malloc` does not fail for a page table. -/
def FaultKeeps (v : VirtualMemory) (d : ℕ) (regions : List MemoryRegion) (address : ℕ)
    (code : FaultCode) : Prop :=
  code.user = true → v.FrameFree →
    if code.notPresent then
      findRegion regions address ≠ none →
        v.isMapped d (pageAlign address) = false ∧
          ((v.directories d (dirIndex (pageAlign address))).present = true ∨
            v.memory v.mallocs = true)
    else
      code.write = true → v.isMapped d address = true → (v.entry d address).readWrite = true

instance (regions : List MemoryRegion) (code : FaultCode) :
    Decidable (v.FaultKeeps d regions address code) := by
  unfold FaultKeeps
  infer_instance

/-- `pd_map_page` succeeds if the directory has a table for the address or `malloc` returns one. -/
lemma pdMapPage_succeeds {physicalAddress : ℕ} (flags : ℕ) (hne : physicalAddress ≠ 0)
    (htable : (v.directories d (dirIndex address)).present = true ∨ v.memory v.mallocs = true) :
    (v.pdMapPage d address physicalAddress flags).2 = true := by
  rw [pdMapPage, if_neg hne, ensureTable]
  split_ifs with hpres
  · rfl
  · rw [mallocObject, htable.resolve_left hpres]
    rfl

/-- The copy-on-write branch with no frame to hand out, or with a page that is writable. -/
lemma copyOnWrite_eq (h : Isolated v)
    (hkeep : v.FrameFree → v.isMapped d address = true → (v.entry d address).readWrite = true) :
    (v.copyOnWrite d address).1 = v := by
  rw [copyOnWrite]
  split_ifs with hm
  · rcases h.allocateFrame with hnone | ⟨w, f, hcode, hne, -⟩
    · simp only [hnone, if_true]
    · have hfree : v.FrameFree := by
        apply h.frameFree
        rw [hcode]
        exact hne
      have hrw := hkeep hfree hm.1
      rw [hm.2] at hrw
      simp at hrw
  · rfl

/-- The demand paging branch maps its frame in an entry that was not present. -/
lemma Accounted.demandPage (ha : v.Accounted visible) (h : Isolated v) (hd : IsProcessDirectory v d)
    (hv : visible d) {regions : List MemoryRegion} {address : ℕ}
    (hkeep : v.FrameFree → findRegion regions address ≠ none →
      v.isMapped d (pageAlign address) = false ∧
        ((v.directories d (dirIndex (pageAlign address))).present = true ∨
          v.memory v.mallocs = true)) : (v.demandPage d regions address).1.Accounted visible := by
  rw [VirtualMemory.demandPage]
  cases hreg : findRegion regions address with
  | none => exact ha
  | some region =>
    rcases ha.allocateFrame h with
      hnone | ⟨w, f, hcode, hne, hw, hp, hnamed, hdirs, hmem, hmal, hcov⟩
    · simp only [hnone]
      exact ha
    · have hfree : v.FrameFree := by
        apply h.frameFree
        rw [hcode]
        exact hne
      obtain ⟨hunmapped, htable⟩ := hkeep hfree (by rw [hreg]; simp)
      simp only [hcode, if_neg hne]
      refine accounted_pdMapPage _ hcov hw.isolated (hd.of_same hw.same) hv ?_ ?_
      · by_contra hslot
        rw [hnamed, ← Ne, ← isMapped_iff hd.live, hunmapped] at hslot
        simp at hslot
      · refine pdMapPage_succeeds _ hne ?_
        rw [hdirs, hmem, hmal]
        exact htable

/-- `page_fault_handler` keeps the frames accounted for if it gives up none. -/
lemma Accounted.pageFaultHandler (ha : v.Accounted visible) (h : Isolated v)
    (hd : IsProcessDirectory v d) (hv : visible d) {regions : List MemoryRegion} {address : ℕ}
    {code : FaultCode} (hkeep : v.FaultKeeps d regions address code) :
    (v.pageFaultHandler d regions address code).1.Accounted visible := by
  rw [VirtualMemory.pageFaultHandler]
  split_ifs with huser hpres hwrite
  · exact ha
  · refine ha.demandPage h hd hv fun hfree => ?_
    have := hkeep (by simpa using huser) hfree
    rwa [if_pos hpres] at this
  · rw [copyOnWrite_eq h fun hfree => ?_]
    · exact ha
    · have := hkeep (by simpa using huser) hfree
      rw [if_neg hpres] at this
      exact this hwrite
  · exact ha

/-! ## Creating and destroying directories -/

/-- The slots of a new directory are empty. -/
lemma Isolated.pdCreate_spec (h : Isolated v) {d : ℕ} (hd : v.pdCreate.2 = some d) :
    d ∉ v.live ∧ IsProcessDirectory v.pdCreate.1 d ∧
      ∀ s : Slot, s.directory = d → v.pdCreate.1.named s = none := by
  cases hm : v.memory v.mallocs with
  | false =>
    rw [pdCreate_of_no_malloc hm] at hd
    simp at hd
  | true =>
    have hcode := pdCreate_of_malloc hm
    rw [hcode] at hd
    obtain rfl := Option.some.inj hd
    have hfresh := h.shape.fresh
    refine ⟨hfresh, ⟨?_, ?_⟩, fun s hs => ?_⟩
    · rw [hcode]
      exact List.mem_cons_self
    · rw [hcode]
      exact fun he => hfresh (he ▸ h.shape.kernel_live)
    · rw [h.shape.named_pdCreate, named, if_neg]
      rw [hs]
      exact fun h' => hfresh h'.1

/-- `pd_create` allocates no frame, and keeps the directories that exist. -/
lemma pdCreate_frame (v : VirtualMemory) :
    v.pdCreate.1.frameManager = v.frameManager ∧
      v.pdCreate.1.kernelDirectory = v.kernelDirectory ∧ ∀ d ∈ v.live, d ∈ v.pdCreate.1.live := by
  cases hm : v.memory v.mallocs with
  | false =>
    rw [pdCreate_of_no_malloc hm]
    exact ⟨rfl, rfl, fun d hd => hd⟩
  | true =>
    rw [pdCreate_of_malloc hm]
    exact ⟨rfl, rfl, fun d hd => List.mem_cons_of_mem _ hd⟩

/-- So does creating a directory. -/
lemma Accounted.pdCreate (ha : v.Accounted visible) (h : Isolated v) :
    v.pdCreate.1.Accounted visible := by
  intro f hf
  rw [Used, (pdCreate_frame v).1] at hf
  rw [h.shape.named_pdCreate]
  exact ha f hf

/-- `pd_destroy` of a directory that is empty. -/
lemma Accounted.pdDestroy (ha : v.Accounted visible)
    (hempty : ∀ s : Slot, s.directory = d → v.named s = none) :
    (v.pdDestroy d).Accounted visible := by
  rw [VirtualMemory.pdDestroy]
  split_ifs with hk
  · exact ha
  · intro f hf
    obtain ⟨s, hs, hsf⟩ := ha f hf
    refine ⟨s, hs, ?_⟩
    have hne : s.directory ≠ d := by
      intro he
      rw [hempty s he] at hsf
      simp at hsf
    rw [named] at hsf ⊢
    simp only [List.mem_erase_of_ne hne]
    exact hsf

end VirtualMemory

end Jarvis
