import JarvisKernel.Paging.Permissions
import JarvisKernel.Paging.Ranges

set_option relaxedAutoImplicit false
set_option autoImplicit false

/-!
# Page faults and the contents of pages

The processor clears bit 0 of a page fault's error code when the page is not present, and sets it when the
rights of a page that is present do not allow the access. `page_fault_handler` reads the bit the other way
round: a fault on a page that is not present is not served, and a fault on a page that is present is served
with a new frame full of zeroes.

The handler accesses frames at their physical addresses. Here the memory has contents, and otherwise the
handler is the one of `JarvisKernel.Paging.Defs`.

## Main definitions

* `Jarvis.FaultState`, `Jarvis.FaultState.pageFaultHandler` — the handler with the contents of memory.
* `Jarvis.FaultState.HandlesFault` — what the handler is to do.

## Main results

* `Jarvis.FaultState.memory_pageFaultHandler` — the contents do not matter for the rest.
* `Jarvis.FaultState.handlesFault_iff` — when the handler does what it is to do.
-/

namespace Jarvis

open VirtualMemory PageFrameManager ProcessManager

/-! ## Contents -/

/-- `memset` of a page to 0. -/
def clearPage (bytes : ℕ → BitVec 8) (page : ℕ) : ℕ → BitVec 8 := fun a =>
  if page ≤ a ∧ a < page + pageSize then 0 else bytes a

/-- `memcpy` of a page. -/
def copyPage (bytes : ℕ → BitVec 8) (target source : ℕ) : ℕ → BitVec 8 := fun a =>
  if target ≤ a ∧ a < target + pageSize then bytes (source + (a - target)) else bytes a

/-- The memory, with the contents of physical memory. Page directories and page tables are objects of their own in
`memory`, not part of these contents. -/
structure FaultState where
  memory : VirtualMemory
  bytes : ℕ → BitVec 8

namespace FaultState

variable {s : FaultState} {d address errorCode base a : ℕ} {regions : List MemoryRegion}

/-- The copy-on-write branch of `page_fault_handler`. -/
def copyOnWrite (s : FaultState) (d address : ℕ) : FaultState × Bool :=
  if s.memory.isMapped d address ∧ (s.memory.entry d address).readWrite = false then
    match s.memory.allocateFrame with
    | (v, newPhysical) =>
      if newPhysical = 0 then ({ s with memory := v }, false)
      else
        let oldPhysical := (v.entry d address).pageBaseAddress * pageSize
        ({ memory := v.setEntry d address
            { v.entry d address with
              pageBaseAddress := newPhysical / pageSize
              readWrite := true }
           bytes := copyPage s.bytes newPhysical oldPhysical },
          true)
  else (s, false)

/-- The demand paging branch of `page_fault_handler`. -/
def demandPage (s : FaultState) (d : ℕ) (regions : List MemoryRegion) (address : ℕ) :
    FaultState × Bool :=
  match findRegion regions address with
  | none => (s, false)
  | some region =>
    match s.memory.allocateFrame with
    | (v, physicalAddress) =>
      if physicalAddress = 0 then ({ s with memory := v }, false)
      else
        match v.pdMapPage d (pageAlign address) physicalAddress region.flags with
        | (v, ok) => ({ memory := v, bytes := clearPage s.bytes physicalAddress }, ok)

/-- The bits of an error code, as the handler reads them. -/
def readCode (errorCode : ℕ) : FaultCode where
  notPresent := errorCode.testBit 0
  write := errorCode.testBit 1
  user := errorCode.testBit 2

/-- `page_fault_handler` for a process with the given directory and regions. The truth value says whether
the process continues. -/
def pageFaultHandler (s : FaultState) (d : ℕ) (regions : List MemoryRegion) (address errorCode : ℕ) :
    FaultState × Bool :=
  if (readCode errorCode).user = false then (s, false)
  else if (readCode errorCode).notPresent then s.demandPage d regions address
  else if (readCode errorCode).write then s.copyOnWrite d address
  else (s, false)

/-- The contents do not matter for the frames, the tables and the outcome. -/
lemma memory_pageFaultHandler (s : FaultState) (d : ℕ) (regions : List MemoryRegion)
    (address errorCode : ℕ) :
    ((s.pageFaultHandler d regions address errorCode).1.memory,
        (s.pageFaultHandler d regions address errorCode).2) =
      s.memory.pageFaultHandler d regions address (readCode errorCode) := by
  unfold pageFaultHandler VirtualMemory.pageFaultHandler
  split_ifs
  · rfl
  · unfold demandPage VirtualMemory.demandPage
    cases findRegion regions address with
    | none => rfl
    | some region =>
      dsimp only
      split_ifs <;> rfl
  · unfold copyOnWrite VirtualMemory.copyOnWrite
    dsimp only
    split_ifs <;> rfl
  · rfl

/-! ## The specification -/

/-- A user fault: bit 2 is set, and bit 0 is cleared exactly if the page is not present. -/
structure UserFault (s : FaultState) (d address errorCode : ℕ) : Prop where
  user : errorCode.testBit 2 = true
  present : errorCode.testBit 0 = s.memory.isMapped d address

/-- The address lies in a region of the process. -/
def InRegion (regions : List MemoryRegion) (address : ℕ) : Prop :=
  ∃ r ∈ regions, r.virtualAddress ≤ address ∧ address < r.virtualAddress + r.size

/-- There is a frame whose bit is clear. -/
def FrameFree (s : FaultState) : Prop :=
  ∃ k < s.memory.frameManager.totalFrames,
    Bitmap.test s.memory.frameManager.frameBitmap k = false

/-- A page that is not present, in a region, gets a frame full of zeroes; after a write to a page that
cannot be written the process continues only with a page that can, and with the same contents; and no other
page is translated differently. -/
structure HandlesFault (s : FaultState) (d : ℕ) (regions : List MemoryRegion)
    (address errorCode : ℕ) : Prop where
  demand : s.memory.isMapped d address = false → InRegion regions address → s.FrameFree →
    (s.pageFaultHandler d regions address errorCode).2 = true ∧
      ∃ f, (s.pageFaultHandler d regions address errorCode).1.memory.frameOf d address = some f ∧
        ∀ k < pageSize,
          (s.pageFaultHandler d regions address errorCode).1.bytes (f * pageSize + k) = 0
  write : s.memory.isMapped d address = true → errorCode.testBit 1 = true →
    s.memory.isWritable d address = false →
    (s.pageFaultHandler d regions address errorCode).2 = true →
      (s.pageFaultHandler d regions address errorCode).1.memory.isWritable d address = true ∧
        ∃ f f', s.memory.frameOf d address = some f ∧
          (s.pageFaultHandler d regions address errorCode).1.memory.frameOf d address = some f' ∧
          ∀ k < pageSize,
            (s.pageFaultHandler d regions address errorCode).1.bytes (f' * pageSize + k) =
              s.bytes (f * pageSize + k)
  other : ∀ a < 2 ^ 32, a / pageSize ≠ address / pageSize →
    (s.pageFaultHandler d regions address errorCode).1.memory.pdGetPhysicalAddress d a =
      s.memory.pdGetPhysicalAddress d a

/-! ## The handler -/

/-- A frame is allocated if there is one. -/
lemma allocateFrame_cases (h : s.memory.frameManager.Placed base) :
    ¬ s.FrameFree ∧ s.memory.allocateFrame = (s.memory, 0) ∨
      ∃ k < s.memory.frameManager.totalFrames, s.FrameFree ∧ base + k * pageSize ≠ 0 ∧
        s.memory.allocateFrame = (s.memory.withFrame k, base + k * pageSize) := by
  rcases pfmAllocateFrame_cases s.memory.frameManager with ⟨hall, hcode⟩ | ⟨k, hk, hclear, hcode⟩
  · refine .inl ⟨?_, by rw [allocateFrame, hcode]⟩
    rintro ⟨k, hk, hclear⟩
    rw [hall k hk] at hclear
    simp at hclear
  · refine .inr ⟨k, hk, ⟨k, hk, hclear⟩, ?_, ?_⟩
    · have := h.pos (by omega)
      omega
    · rw [allocateFrame, hcode, h.address k hk]
      rfl

/-- A fault on a page that is not present is not served. -/
lemma pageFaultHandler_of_not_mapped (hfault : s.UserFault d address errorCode)
    (hmap : s.memory.isMapped d address = false) (regions : List MemoryRegion) :
    s.pageFaultHandler d regions address errorCode = (s, false) := by
  have hpresent : errorCode.testBit 0 = false := hfault.present.trans hmap
  simp [pageFaultHandler, readCode, hfault.user, hpresent, copyOnWrite, hmap]

/-- A fault on a page that is present is served by the demand paging branch. -/
lemma pageFaultHandler_of_mapped (hfault : s.UserFault d address errorCode)
    (hmap : s.memory.isMapped d address = true) (regions : List MemoryRegion) :
    s.pageFaultHandler d regions address errorCode = s.demandPage d regions address := by
  have hpresent : errorCode.testBit 0 = true := hfault.present.trans hmap
  simp [pageFaultHandler, readCode, hfault.user, hpresent]

/-- Two addresses of one page. -/
lemma samePage_pageAlign (haddr : address < 2 ^ 32) : SamePage (pageAlign address) address := by
  have hp : pageSize = 4096 := rfl
  rw [samePage_iff (by rw [pageAlign, hp]; omega) haddr, pageAlign, hp]
  omega

/-- The demand paging branch changes the translation of one page only. -/
lemma demandPage_other (h : s.memory.Separate d) (hplaced : s.memory.frameManager.Placed base)
    (haddr : address < 2 ^ 32) (ha : a < 2 ^ 32) (hne : a / pageSize ≠ address / pageSize) :
    (s.demandPage d regions address).1.memory.pdGetPhysicalAddress d a =
      s.memory.pdGetPhysicalAddress d a := by
  have hother : ¬ SamePage a (pageAlign address) := by
    intro hsame
    have hpage := samePage_pageAlign haddr
    exact hne ((samePage_iff ha haddr).1 ⟨hsame.1.trans hpage.1, hsame.2.trans hpage.2⟩)
  rw [demandPage]
  cases findRegion regions address with
  | none => rfl
  | some region =>
    rcases allocateFrame_cases hplaced with ⟨-, hcode⟩ | ⟨k, -, -, hne', hcode⟩
    · simp only [hcode, if_true]
    · have hsep : (s.memory.withFrame k).Separate d := ⟨h.table_lt, h.one_index⟩
      simp only [hcode, if_neg hne']
      rw [pdGetPhysicalAddress_eq, pdGetPhysicalAddress_eq, (hsep.pdMapPage _ _ _).2,
        if_neg fun hsame => hother hsame.2]
      rfl

/-- The demand paging branch gives a page that is present a new frame full of zeroes, with the rights of
the region as far as the directory entry allows them. -/
lemma demandPage_of_mapped (h : s.memory.Separate d) (hplaced : s.memory.frameManager.Placed base)
    (haddr : address < 2 ^ 32) (hmap : s.memory.isMapped d address = true) {region : MemoryRegion}
    (hregion : findRegion regions address = some region) (hfree : s.FrameFree) :
    ∃ f, (s.demandPage d regions address).2 = true ∧
      (s.demandPage d regions address).1.memory.frameOf d address = some f ∧
      (s.demandPage d regions address).1.memory.isWritable d address =
        ((s.memory.directories d (dirIndex address)).readWrite && region.flags.testBit pteWritable) ∧
      ∀ k < pageSize, (s.demandPage d regions address).1.bytes (f * pageSize + k) = 0 := by
  rcases allocateFrame_cases hplaced with ⟨hnone, -⟩ | ⟨k, -, -, hne, hcode⟩
  · exact absurd hfree hnone
  have hsep : (s.memory.withFrame k).Separate d := ⟨h.table_lt, h.one_index⟩
  have hpage := samePage_pageAlign haddr
  have hpres : ((s.memory.withFrame k).directories d (dirIndex (pageAlign address))).present = true := by
    rw [hpage.1]
    exact present_of_isMapped hmap
  have hmapped : (s.memory.withFrame k).pdMapPage d (pageAlign address) (base + k * pageSize)
      region.flags = ((s.memory.withFrame k).setEntry d (pageAlign address)
        (newEntry (base + k * pageSize) region.flags), true) := by
    rw [pdMapPage, if_neg hne, ensureTable, if_pos hpres]
    rfl
  have hdemand : s.demandPage d regions address =
      ({ memory := (s.memory.withFrame k).setEntry d (pageAlign address)
          (newEntry (base + k * pageSize) region.flags)
         bytes := clearPage s.bytes (base + k * pageSize) }, true) := by
    simp only [demandPage, hregion, hcode, if_neg hne, hmapped]
  have hsame : SamePage address (pageAlign address) := ⟨hpage.1.symm, hpage.2.symm⟩
  rw [hdemand]
  refine ⟨(base + k * pageSize) / pageSize, rfl, ?_, ?_, fun n hn => if_pos ?_⟩
  · rw [hsep.frameOf_setEntry hpres, if_pos hsame]
    rfl
  · rw [isWritable, entry_setEntry_self hsame]
    rfl
  · have haligned := hplaced.aligned
    rw [show pageSize = 4096 from rfl] at haligned hn ⊢
    omega

/-- The demand paging branch returns only if it finds a region and a frame. -/
lemma exists_region_of_demandPage (hplaced : s.memory.frameManager.Placed base)
    (hok : (s.demandPage d regions address).2 = true) :
    ∃ region, findRegion regions address = some region ∧ s.FrameFree := by
  rw [demandPage] at hok
  cases hregion : findRegion regions address with
  | none => simp [hregion] at hok
  | some region =>
    rcases allocateFrame_cases hplaced with ⟨-, hnone⟩ | ⟨k, -, hfree, -, -⟩
    · simp [hregion, hnone] at hok
    · exact ⟨region, rfl, hfree⟩

/-- The handler on a page that is not present. -/
lemma handlesFault_iff_of_not_mapped (hfault : s.UserFault d address errorCode)
    (hmap : s.memory.isMapped d address = false) :
    s.HandlesFault d regions address errorCode ↔ ¬ (InRegion regions address ∧ s.FrameFree) := by
  have hcode := pageFaultHandler_of_not_mapped hfault hmap regions
  constructor
  · rintro hhandles ⟨hin, hfree⟩
    have hok := (hhandles.demand hmap hin hfree).1
    rw [hcode] at hok
    simp at hok
  · intro hnot
    refine ⟨fun _ hin hfree => absurd ⟨hin, hfree⟩ hnot, fun hmap' => ?_, fun a _ _ => by rw [hcode]⟩
    rw [hmap] at hmap'
    simp at hmap'

/-- The handler on a page that is present. -/
lemma handlesFault_iff_of_mapped (h : s.memory.Separate d) (hplaced : s.memory.frameManager.Placed base)
    (haddr : address < 2 ^ 32) (hfault : s.UserFault d address errorCode)
    (hmap : s.memory.isMapped d address = true) :
    s.HandlesFault d regions address errorCode ↔
      (errorCode.testBit 1 = true → s.memory.isWritable d address = false → s.FrameFree →
        ∀ region, findRegion regions address = some region →
          (s.memory.directories d (dirIndex address)).readWrite = true ∧
            region.flags.testBit pteWritable = true ∧
            ∀ k < pageSize,
              s.bytes ((s.memory.entry d address).pageBaseAddress * pageSize + k) = 0) := by
  have hframe : s.memory.frameOf d address = some (s.memory.entry d address).pageBaseAddress := by
    rw [frameOf, if_pos hmap]
  have hcode := pageFaultHandler_of_mapped hfault hmap regions
  constructor
  · intro hhandles hwrite hro hfree region hregion
    obtain ⟨f, hok, hf, hrights, hzero⟩ := demandPage_of_mapped h hplaced haddr hmap hregion hfree
    rw [← hcode] at hok hf hrights hzero
    obtain ⟨hwritable, f₁, f₂, hf₁, hf₂, hsame⟩ := hhandles.write hmap hwrite hro hok
    obtain rfl := Option.some.inj (hframe.symm.trans hf₁)
    obtain rfl := Option.some.inj (hf.symm.trans hf₂)
    rw [hrights, Bool.and_eq_true] at hwritable
    exact ⟨hwritable.1, hwritable.2, fun k hk => (hsame k hk).symm.trans (hzero k hk)⟩
  · intro hzeroes
    refine ⟨fun hmap' => ?_, fun _ hwrite hro hok => ?_, fun a ha hne => ?_⟩
    · rw [hmap] at hmap'
      simp at hmap'
    · rw [hcode] at hok ⊢
      obtain ⟨region, hregion, hfree⟩ := exists_region_of_demandPage hplaced hok
      obtain ⟨f, -, hf, hrights, hzero⟩ := demandPage_of_mapped h hplaced haddr hmap hregion hfree
      obtain ⟨hdir, hflags, hold⟩ := hzeroes hwrite hro hfree region hregion
      refine ⟨?_, _, f, hframe, hf, fun k hk => (hzero k hk).trans (hold k hk).symm⟩
      rw [hrights, hdir, hflags]
      rfl
    · rw [hcode]
      exact demandPage_other h hplaced haddr ha hne

/-- The handler does what it is to do unless a page that is not present lies in a region, with a frame free
for it, or a page that cannot be written is written to and gets a frame full of zeroes that cannot be
written either, or that does not have the contents of the page.

**Proof sketch.** With bit 0 read the other way round, a fault on a page that is not present ends in no
branch. A fault on a page that is present ends in the demand paging branch, which returns if it finds a
region and a frame. -/
theorem handlesFault_iff (h : s.memory.Separate d) (hplaced : s.memory.frameManager.Placed base)
    (haddr : address < 2 ^ 32) (hfault : s.UserFault d address errorCode)
    (regions : List MemoryRegion) :
    s.HandlesFault d regions address errorCode ↔
      (s.memory.isMapped d address = false → ¬ (InRegion regions address ∧ s.FrameFree)) ∧
        (s.memory.isMapped d address = true → errorCode.testBit 1 = true →
          s.memory.isWritable d address = false → s.FrameFree →
          ∀ region, findRegion regions address = some region →
            (s.memory.directories d (dirIndex address)).readWrite = true ∧
              region.flags.testBit pteWritable = true ∧
              ∀ k < pageSize,
                s.bytes ((s.memory.entry d address).pageBaseAddress * pageSize + k) = 0) := by
  cases hmap : s.memory.isMapped d address with
  | false =>
    simp only [true_imp_iff, Bool.false_eq_true, false_imp_iff, and_true]
    exact handlesFault_iff_of_not_mapped hfault hmap
  | true =>
    simp only [Bool.true_eq_false, false_imp_iff, true_and, true_imp_iff]
    exact handlesFault_iff_of_mapped h hplaced haddr hfault hmap

/-- A process with a region of which no page is mapped. -/
def newRegion : FaultState := ⟨twoFrames, fun _ => 0⟩

/-- Its region: the stack, with a frame free for each of its pages. -/
def newRegions : List MemoryRegion := [stackRegion]

/-- An access to the stack is a fault of the user. -/
lemma userFault_newRegion : newRegion.UserFault 1 userStackVirtual 4 := ⟨by decide, by decide⟩

/-- A read of a page that is not present, in the region: the process is terminated. -/
theorem not_handlesFault_newRegion :
    newRegion.memory.Separate 1 ∧ newRegion.memory.frameManager.Placed 0x1000000 ∧
      newRegion.UserFault 1 userStackVirtual 4 ∧
      (newRegion.pageFaultHandler 1 newRegions userStackVirtual 4).2 = false ∧
      ¬ newRegion.HandlesFault 1 newRegions userStackVirtual 4 := by
  have hkilled : (newRegion.pageFaultHandler 1 newRegions userStackVirtual 4).2 = false := by decide
  refine ⟨separate_twoFrames.1, separate_twoFrames.2.placed, userFault_newRegion, hkilled,
    fun hhandles => ?_⟩
  have hin : InRegion newRegions userStackVirtual :=
    ⟨stackRegion, List.mem_singleton_self _, by decide, by decide⟩
  have hok := (hhandles.demand (by decide) hin ⟨0, by decide, by decide⟩).1
  rw [hkilled] at hok
  simp at hok

/-- When the handler does what it should with the first access to the stack. -/
theorem handlesFault_iff_newRegion :
    newRegion.memory.Separate 1 ∧ newRegion.memory.frameManager.Placed 0x1000000 ∧
      userStackVirtual < 2 ^ 32 ∧ newRegion.UserFault 1 userStackVirtual 4 ∧
      (newRegion.HandlesFault 1 newRegions userStackVirtual 4 ↔
        (newRegion.memory.isMapped 1 userStackVirtual = false →
            ¬ (InRegion newRegions userStackVirtual ∧ newRegion.FrameFree)) ∧
          (newRegion.memory.isMapped 1 userStackVirtual = true → (4 : ℕ).testBit 1 = true →
            newRegion.memory.isWritable 1 userStackVirtual = false → newRegion.FrameFree →
            ∀ region, findRegion newRegions userStackVirtual = some region →
              (newRegion.memory.directories 1 (dirIndex userStackVirtual)).readWrite = true ∧
                region.flags.testBit pteWritable = true ∧
                ∀ k < pageSize, newRegion.bytes
                  ((newRegion.memory.entry 1 userStackVirtual).pageBaseAddress * pageSize + k) = 0)) :=
  ⟨separate_twoFrames.1, separate_twoFrames.2.placed, by decide, userFault_newRegion,
    handlesFault_iff separate_twoFrames.1 separate_twoFrames.2.placed (by decide) userFault_newRegion
      newRegions⟩

end FaultState

end Jarvis
