import JarvisKernel.Lib.NamedCells
import JarvisKernel.Paging.Faults
import JarvisKernel.Paging.Isolation

set_option relaxedAutoImplicit false
set_option autoImplicit false

/-!
# What processes find in their memory

The operations on address spaces of `src/kernel/memory/paging.c`, with the bytes of the frames, and the
stores that the processor makes through a page directory. An abstract memory has a byte for each address of
each address space, and says what an operation may change there: a store changes one byte of one address
space, a page fault clears one page or changes nothing, mapping and unmapping a range change the pages of the
range, and no operation changes another address space.

`vmm_allocate_pages` does not clear the frames that it hands out, so that the abstract memory leaves open what
a page holds that was just mapped.

## Main definitions

* `Jarvis.MemoryOp`, `Jarvis.FaultState.memoryStep` — the operations, with the bytes of the frames.
* `Jarvis.UserMemory`, `Jarvis.MemoryOp.Behaves` — the abstract memory, and its operations.
* `Jarvis.MemoryOp.Touches` — the bytes that an operation may change.

## Main results

* `Jarvis.FaultState.refines_of_run` — every run is a run of the abstract memory.
* `Jarvis.FaultState.readByte_of_run` — a process finds what it stored last, whatever others do.
-/

namespace Jarvis

open VirtualMemory PageFrameManager

namespace VirtualMemory

variable {v v' w : VirtualMemory} {d address f flags count i : ℕ} {s : Slot}

/-! ## What the operations do to slots -/

/-- The slot of an address is that of its page. -/
@[simp] lemma slotAt_pageAlign (d address : ℕ) : slotAt d (pageAlign address) = slotAt d address := by
  have hp : pageSize = 4096 := rfl
  rw [slotAt, slotAt, pageAlign, hp, dirIndex, dirIndex, tableIndex, tableIndex, Slot.mk.injEq]
  omega

/-- The slots depend on the directories and the tables only. -/
lemma named_congr (hlive : v'.live = v.live) (hdirs : v'.directories = v.directories)
    (htabs : v'.tables = v.tables) : v'.named = v.named := by
  funext s
  rw [named, named, dirEntry, dirEntry, hlive, hdirs, htabs]

/-- Unmapping a range empties the slots of its pages. -/
lemma named_unmapPages_range (h : Isolated v) (hd : d ∈ v.live) {j : ℕ} (hj : j < count) :
    (v.unmapPages d address count 0).named (slotAt d (pageAt address j)) = none := by
  rcases named_unmapPages h hd address count 0 (slotAt d (pageAt address j)) with hnone | ⟨-, hother⟩
  · exact hnone
  · exact absurd (by rw [Nat.zero_add]) (hother j hj)

/-- Unmapping a range keeps the slots of other pages. -/
lemma named_unmapPages_other (h : Isolated v) (hd : d ∈ v.live)
    (hs : ∀ j, i ≤ j → j < i + count → s ≠ slotAt d (pageAt address j)) :
    (v.unmapPages d address count i).named s = v.named s := by
  induction count generalizing v i with
  | zero => rfl
  | succ count ih =>
    obtain ⟨hiso, hsame, hnamed, -⟩ := pdUnmapPage_spec h hd (pageAt address i)
    rw [unmapPages, ih hiso (hsame.live.symm ▸ hd) fun j hj hj' => hs j (by omega) (by omega), hnamed,
      Function.update_of_ne (hs i le_rfl (by omega))]

/-- What the loop of `vmm_allocate_pages` does to the slots, when it is at page `i` of a range. -/
structure AllocatesRange (v v' : VirtualMemory) (d address count i : ℕ) (ok : Bool) : Prop where
  outside : ∀ s, (∀ j < i + count, s ≠ slotAt d (pageAt address j)) → v'.named s = v.named s
  mapped : ok = true → ∀ j, i ≤ j → j < i + count → v'.named (slotAt d (pageAt address j)) ≠ none
  kept : ok = true → ∀ s, v.named s ≠ none → v'.named s ≠ none
  undone : ok = false → ∀ j < i, v'.named (slotAt d (pageAt address j)) = none
  failed : ok = false → ∀ s, v'.named s = none ∨ v'.named s = v.named s
  owned : ∀ s f, v'.named s = some f → v.named s = some f ∨ v.Managed f

/-- The roll-back of the loop. -/
lemma AllocatesRange.of_unmapPages (h : Isolated w) (hd : d ∈ w.live) (hnamed : w.named = v.named) :
    AllocatesRange v (w.unmapPages d address i 0) d address count i false := by
  have hcases : ∀ s, (w.unmapPages d address i 0).named s = none ∨
      (w.unmapPages d address i 0).named s = v.named s := by
    intro s
    rw [← hnamed]
    exact (named_unmapPages h hd address i 0 s).imp_right And.left
  refine ⟨fun s hs => ?_, by simp, by simp, fun _ j hj => named_unmapPages_range h hd hj,
    fun _ => hcases, fun s f hf => ?_⟩
  · rw [named_unmapPages_other h hd fun j _ hj => hs j (by omega), hnamed]
  · rcases hcases s with hnone | hsame
    · rw [hnone] at hf
      simp at hf
    · exact .inl (hsame ▸ hf)

/-- The loop of `vmm_allocate_pages`.

**Proof sketch.** Induction on the number of pages that are left. A round that maps a page changes the slot of
the page, and the rest of the loop changes slots of the range. If the rest fails, it has also emptied the
slots of the pages before it, and with them the one of this round. -/
lemma allocateLoop_allocatesRange (h : Isolated v) (hd : IsProcessDirectory v d) (address flags count i : ℕ) :
    AllocatesRange v (v.allocateLoop d address flags count i).1 d address count i
      (v.allocateLoop d address flags count i).2 := by
  induction count generalizing v i with
  | zero =>
    exact ⟨fun _ _ => rfl, fun _ j hj hj' => by omega, fun _ _ hs => hs, by simp [allocateLoop],
      by simp [allocateLoop], fun _ _ hf => .inl hf⟩
  | succ count ih =>
    rw [allocateLoop]
    rcases h.allocateFrame with hnone | ⟨w, f, hcode, hne, hw, hp, hdirs, htabs⟩
    · rw [hnone]
      exact .of_unmapPages h hd.live rfl
    · have hwn : w.named = v.named := named_congr hw.same.live hdirs htabs
      have hdw := hd.of_same hw.same
      simp only [hcode, if_neg hne]
      obtain ⟨hmap, hfail⟩ := hp.pdMapPage hw.isolated hdw (pageAt address i) flags
      obtain ⟨-, -, hnamed⟩ := pdMapPage_spec (pageAt address i) hw.isolated.shape hdw.live
        (fun hdk => absurd hdk hdw.not_kernel) (f * pageSize) flags
      rw [Nat.mul_div_cancel _ (by decide)] at hnamed
      rcases hres : w.pdMapPage d (pageAt address i) (f * pageSize) flags with ⟨u, ok⟩
      rw [hres] at hmap hfail hnamed
      have hu := hw.trans hmap
      cases ok with
      | false =>
        have hfree := hu.trans ((hfail rfl).freeFrame hu.isolated)
        exact .of_unmapPages hfree.isolated (hd.of_same hfree.same).live (hnamed.trans hwn)
      | true =>
        simp only [if_true, hwn] at hnamed
        obtain ⟨hout, hmapped, hkept, hundone, hfailed, howned⟩ :=
          ih hu.isolated (hd.of_same hu.same) (i + 1)
        have hself : u.named (slotAt d (pageAt address i)) = some f := by
          rw [hnamed, Function.update_self]
        refine ⟨fun s hs => ?_, fun hok j hj hj' => ?_, fun hok s hs => ?_, fun hok j hj => ?_,
          fun hok s => ?_, fun s x hx => ?_⟩
        · rw [hout s fun j hj => hs j (by omega), hnamed, Function.update_of_ne (hs i (by omega))]
        · by_cases hji : j = i
          · rw [hji]
            exact hkept hok _ (by rw [hself]; simp)
          · exact hmapped hok j (by omega) (by omega)
        · refine hkept hok s ?_
          by_cases hsi : s = slotAt d (pageAt address i)
          · rw [hsi, hself]
            simp
          · rw [hnamed, Function.update_of_ne hsi]
            exact hs
        · exact hundone hok j (by omega)
        · by_cases hsi : s = slotAt d (pageAt address i)
          · rw [hsi]
            exact .inl (hundone hok i (by omega))
          · have hkeep := hfailed hok s
            rwa [hnamed, Function.update_of_ne hsi] at hkeep
        · rcases howned s x hx with hsx | hman
          · by_cases hsi : s = slotAt d (pageAt address i)
            · rw [hsi, hself, Option.some.injEq] at hsx
              rw [← hsx, ← hw.same.managed]
              exact .inr hp.managed
            · rw [hnamed, Function.update_of_ne hsi] at hsx
              exact .inl hsx
          · rw [hu.same.managed] at hman
            exact .inr hman

/-- `pd_destroy` empties the slots of the directory. -/
lemma named_pdDestroy (h : Shape v) (hd : d ≠ v.kernelDirectory) (s : Slot) :
    (v.pdDestroy d).named s = if s.directory = d then none else v.named s := by
  rw [pdDestroy, if_neg hd, named, named]
  have hmem : s.directory ∈ v.live.erase d ↔ s.directory ≠ d ∧ s.directory ∈ v.live :=
    h.nodup.mem_erase_iff
  simp only [hmem]
  by_cases hs : s.directory = d
  · rw [if_pos hs, if_neg fun h' => h'.1.1 hs]
  · simp only [hs, ne_eq, not_false_eq_true, true_and, if_false]
    rfl

/-- The frames in the slots of processes are managed. -/
def ProcessesOwn (v : VirtualMemory) : Prop :=
  ∀ s f, s.directory ≠ v.kernelDirectory → v.named s = some f → v.Managed f

/-- The frames stay managed if a slot gets only a frame it had or one that is managed. -/
lemma ProcessesOwn.of_same (h : ProcessesOwn v) (hsame : SameDirectories v v')
    (howned : ∀ s f, v'.named s = some f → v.named s = some f ∨ v.Managed f) : ProcessesOwn v' := by
  intro s f hs hf
  rw [hsame.kernelDirectory] at hs
  rw [hsame.managed]
  rcases howned s f hf with hold | hman
  · exact h s f hs hold
  · exact hman

/-- A new directory has no frames. -/
lemma ProcessesOwn.pdCreate (h : ProcessesOwn v) (hshape : Shape v) : ProcessesOwn v.pdCreate.1 := by
  have hsame : v.pdCreate.1.frameManager = v.frameManager ∧
      v.pdCreate.1.kernelDirectory = v.kernelDirectory := by
    cases hm : v.memory v.mallocs with
    | false => rw [pdCreate_of_no_malloc hm]; exact ⟨rfl, rfl⟩
    | true => rw [pdCreate_of_malloc hm]; exact ⟨rfl, rfl⟩
  intro s f hs hf
  rw [hshape.named_pdCreate] at hf
  rw [hsame.2] at hs
  rw [Managed, hsame.1]
  exact h s f hs hf

/-- Destroying a directory leaves the frames of the others. -/
lemma ProcessesOwn.pdDestroy (h : ProcessesOwn v) (hshape : Shape v) (hd : d ≠ v.kernelDirectory) :
    ProcessesOwn (v.pdDestroy d) := by
  intro s f hs hf
  rw [named_pdDestroy hshape hd] at hf
  rw [VirtualMemory.pdDestroy, if_neg hd] at hs ⊢
  split_ifs at hf
  exact h s f hs hf

end VirtualMemory

/-! ## The bytes of frames -/

/-- The bytes of a frame. -/
def frameCells (bytes : ℕ → BitVec 8) (f : ℕ) (k : Fin pageSize) : BitVec 8 := bytes (f * pageSize + k)

/-- The place of an address in its page. -/
def pageOffset (a : ℕ) : Fin pageSize := ⟨a % pageSize, Nat.mod_lt _ (by decide)⟩

section Bytes

variable {bytes : ℕ → BitVec 8} {f g : ℕ}

/-- An address lies in one page. -/
lemma page_eq_iff (f g : ℕ) {k : ℕ} (hk : k < pageSize) :
    g * pageSize ≤ f * pageSize + k ∧ f * pageSize + k < g * pageSize + pageSize ↔ f = g := by
  have hp : pageSize = 4096 := rfl
  rw [hp] at hk ⊢
  omega

/-- A page is cleared. -/
lemma frameCells_clearPage :
    frameCells (clearPage bytes (f * pageSize)) = Function.update (frameCells bytes) f fun _ => 0 := by
  funext x k
  rw [frameCells, clearPage]
  by_cases hx : x = f
  · rw [if_pos ((page_eq_iff x f k.isLt).2 hx), hx, Function.update_self]
  · rw [if_neg fun h => hx ((page_eq_iff x f k.isLt).1 h), Function.update_of_ne hx]
    rfl

/-- A page is copied. -/
lemma frameCells_copyPage :
    frameCells (copyPage bytes (f * pageSize) (g * pageSize)) =
      Function.update (frameCells bytes) f (frameCells bytes g) := by
  funext x k
  rw [frameCells, copyPage]
  by_cases hx : x = f
  · rw [if_pos ((page_eq_iff x f k.isLt).2 hx), hx, Function.update_self, Nat.add_sub_cancel_left]
    rfl
  · rw [if_neg fun h => hx ((page_eq_iff x f k.isLt).1 h), Function.update_of_ne hx]
    rfl

/-- A byte is stored. -/
lemma frameCells_update (k : Fin pageSize) (x : BitVec 8) :
    frameCells (Function.update bytes (f * pageSize + k) x) = NamedCells.write (frameCells bytes) f k x := by
  funext g j
  rw [NamedCells.write, frameCells]
  by_cases hg : g = f
  · rw [hg, Function.update_self]
    by_cases hjk : j = k
    · rw [hjk, Function.update_self, Function.update_self]
    · have hne : (j : ℕ) ≠ k := fun h => hjk (Fin.ext h)
      rw [Function.update_of_ne hjk, Function.update_of_ne (by omega)]
      rfl
  · rw [Function.update_of_ne hg, Function.update_of_ne fun h => hg ?_]
    · rfl
    · have hpage := (page_eq_iff g g j.isLt).2 rfl
      rw [h] at hpage
      exact ((page_eq_iff f g k.isLt).1 hpage).symm

end Bytes

namespace FaultState

variable {s s' : FaultState} {d d' address size flags errorCode : ℕ} {regions : List MemoryRegion}
  {a b : BitVec 32} {x : BitVec 8} {user : Bool}

/-- What the slots show of the frames. -/
def view (s : FaultState) : Slot → Fin pageSize → Option (BitVec 8) :=
  NamedCells.view s.memory.named (frameCells s.bytes)

/-- The byte at an address of an address space, where the processor finds it. -/
def readByte (s : FaultState) (d : ℕ) (a : BitVec 32) : Option (BitVec 8) :=
  if d ∈ s.memory.live ∧ s.memory.isMapped d a.toNat = true then
    some (s.bytes (s.memory.pdGetPhysicalAddress d a.toNat))
  else none

/-- The processor allows a store: the page is mapped and, in user mode, both of its entries allow writing and
user mode. -/
def Permits (s : FaultState) (user : Bool) (d : ℕ) (a : BitVec 32) : Prop :=
  s.memory.isMapped d a.toNat = true ∧
    (user = true → s.memory.isWritable d a.toNat = true ∧ s.memory.isUser d a.toNat = true)

instance : Decidable (s.Permits user d a) := inferInstanceAs (Decidable (_ ∧ _))

/-- A store of the processor; where it is not allowed it changes nothing. -/
def store (s : FaultState) (user : Bool) (d : ℕ) (a : BitVec 32) (x : BitVec 8) : FaultState :=
  if s.Permits user d a then
    { s with bytes := Function.update s.bytes (s.memory.pdGetPhysicalAddress d a.toNat) x }
  else s

/-- Where the processor finds the byte at an address, as the slots show it. -/
lemma readByte_eq_view (s : FaultState) (d : ℕ) (a : BitVec 32) :
    s.readByte d a = s.view (slotAt d a.toNat) (pageOffset a.toNat) := by
  rw [readByte, view]
  by_cases hd : d ∈ s.memory.live
  · by_cases hm : s.memory.isMapped d a.toNat = true
    · rw [if_pos ⟨hd, hm⟩, NamedCells.view_of_some (named_of_isMapped hd hm), pdGetPhysicalAddress, if_pos hm]
      rfl
    · have hnone : s.memory.named (slotAt d a.toNat) = none := by
        by_contra hne
        exact hm ((isMapped_iff hd).2 hne)
      rw [if_neg fun h => hm h.2, NamedCells.view_of_none hnone]
  · have hnone : s.memory.named (slotAt d a.toNat) = none := by
      rw [named, if_neg fun h => hd h.1]
    rw [if_neg fun h => hd h.1, NamedCells.view_of_none hnone]

/-- Addresses with one slot and one place in the page are equal. -/
lemma eq_of_slotAt_eq (hslot : slotAt d a.toNat = slotAt d' b.toNat)
    (hoff : pageOffset a.toNat = pageOffset b.toNat) : d = d' ∧ a = b := by
  have ha := a.isLt
  have hb := b.isLt
  simp only [slotAt, Slot.mk.injEq, dirIndex, tableIndex] at hslot
  simp only [pageOffset, Fin.mk.injEq, show pageSize = 4096 from rfl] at hoff
  exact ⟨hslot.1, BitVec.eq_of_toNat_eq (by omega)⟩

/-! ## Page faults -/

/-- A frame that no slot names is cleared and put in a slot. -/
lemma view_put_cleared {m : Slot → Option ℕ} {bytes : ℕ → BitVec 8} {f : ℕ} (hf : ∀ t, m t ≠ some f) (t : Slot) :
    NamedCells.view (Function.update m t (some f)) (frameCells (clearPage bytes (f * pageSize))) =
      Function.update (NamedCells.view m (frameCells bytes)) t fun _ => some 0 := by
  rw [NamedCells.view_put, frameCells_clearPage, NamedCells.view_fill hf, Function.update_self]

/-- The demand paging branch shows a page full of zeroes, or nothing new. -/
lemma demandPage_spec (h : Isolated s.memory) (hd : IsProcessDirectory s.memory d)
    (regions : List MemoryRegion) (address : ℕ) :
    (∀ t f, (s.demandPage d regions address).1.memory.named t = some f →
        s.memory.named t = some f ∨ s.memory.Managed f) ∧
      ((s.demandPage d regions address).1.view = s.view ∨
        (s.demandPage d regions address).1.view =
          Function.update s.view (slotAt d address) fun _ => some 0) := by
  rw [demandPage]
  cases findRegion regions address with
  | none => exact ⟨fun _ _ => .inl, .inl rfl⟩
  | some region =>
    rcases h.allocateFrame with hnone | ⟨w, f, hcode, hne, hw, hp, hdirs, htabs⟩
    · rw [hnone]
      dsimp only
      rw [if_pos rfl]
      exact ⟨fun _ _ => .inl, .inl rfl⟩
    · have hwn : w.named = s.memory.named := named_congr hw.same.live hdirs htabs
      have hdw := hd.of_same hw.same
      obtain ⟨-, -, hnamed⟩ := pdMapPage_spec (pageAlign address) hw.isolated.shape hdw.live
        (fun hdk => absurd hdk hdw.not_kernel) (f * pageSize) region.flags
      have hfree : ∀ t, s.memory.named t ≠ some f := by
        rw [← hwn]
        exact hp.unnamed
      rw [Nat.mul_div_cancel _ (by decide), hwn, slotAt_pageAlign] at hnamed
      simp only [hcode, if_neg hne]
      rcases hres : w.pdMapPage d (pageAlign address) (f * pageSize) region.flags with ⟨u, ok⟩
      rw [hres] at hnamed
      cases ok with
      | false =>
        have hsame : u.named = s.memory.named := hnamed
        refine ⟨fun t x hx => .inl (hsame ▸ hx), .inl ?_⟩
        show NamedCells.view u.named _ = _
        rw [hsame, frameCells_clearPage]
        exact NamedCells.view_fill hfree _
      | true =>
        have hput : u.named = Function.update s.memory.named (slotAt d address) (some f) := hnamed
        refine ⟨fun t x hx => ?_, .inr ?_⟩
        · by_cases ht : t = slotAt d address
          · have hman := hp.managed
            rw [hw.same.managed] at hman
            rw [ht] at hx
            have hself : u.named (slotAt d address) = some f := by rw [hput, Function.update_self]
            rw [hself, Option.some.injEq] at hx
            exact .inr (hx ▸ hman)
          · have hx' : u.named t = some x := hx
            rw [hput, Function.update_of_ne ht] at hx'
            exact .inl hx'
        · show NamedCells.view u.named _ = _
          rw [hput]
          exact view_put_cleared hfree _

/-- The copy-on-write branch shows what was there. -/
lemma copyOnWrite_spec (h : Isolated s.memory) (hd : IsProcessDirectory s.memory d) (address : ℕ) :
    (∀ t f, (s.copyOnWrite d address).1.memory.named t = some f →
        s.memory.named t = some f ∨ s.memory.Managed f) ∧
      (s.copyOnWrite d address).1.view = s.view := by
  rw [copyOnWrite]
  split_ifs with hm
  · rcases h.allocateFrame with hnone | ⟨w, f, hcode, hne, hw, hp, hdirs, htabs⟩
    · rw [hnone]
      dsimp only
      rw [if_pos rfl]
      exact ⟨fun _ _ => .inl, rfl⟩
    · have hwn : w.named = s.memory.named := named_congr hw.same.live hdirs htabs
      have hent : w.entry d address = s.memory.entry d address := by rw [entry, entry, hdirs, htabs]
      have hold := named_of_isMapped hd.live hm.1
      have hpres := present_of_isMapped hm.1
      have hentry : (s.memory.entry d address).present = true := (Bool.and_eq_true_iff.1 hm.1).2
      have hfree : ∀ t, s.memory.named t ≠ some f := by
        rw [← hwn]
        exact hp.unnamed
      have hput := named_setEntry hw.isolated.shape (hd.of_same hw.same).live (by rw [hdirs]; exact hpres)
        { w.entry d address with pageBaseAddress := f, readWrite := true }
      simp only [hcode, if_neg hne, Nat.mul_div_cancel _ (show 0 < pageSize by decide)]
      rw [hent] at hput ⊢
      rw [if_pos hentry, hwn] at hput
      refine ⟨fun t x hx => ?_, ?_⟩
      · rw [hput] at hx
        by_cases ht : t = slotAt d address
        · have hman := hp.managed
          rw [hw.same.managed] at hman
          rw [ht, Function.update_self, Option.some.injEq] at hx
          exact .inr (hx ▸ hman)
        · rw [Function.update_of_ne ht] at hx
          exact .inl hx
      · rw [view, view, hput, frameCells_copyPage, NamedCells.view_put, NamedCells.view_fill hfree,
          Function.update_self]
        refine Function.update_eq_self_iff.2 ?_
        funext c
        exact (NamedCells.view_of_some hold c).symm
  · exact ⟨fun _ _ => .inl, rfl⟩

/-- `page_fault_handler` shows a page full of zeroes, or nothing new. -/
lemma pageFaultHandler_spec (h : Isolated s.memory) (hd : IsProcessDirectory s.memory d)
    (regions : List MemoryRegion) (address errorCode : ℕ) :
    (∀ t f, (s.pageFaultHandler d regions address errorCode).1.memory.named t = some f →
        s.memory.named t = some f ∨ s.memory.Managed f) ∧
      ((s.pageFaultHandler d regions address errorCode).1.view = s.view ∨
        (s.pageFaultHandler d regions address errorCode).1.view =
          Function.update s.view (slotAt d address) fun _ => some 0) := by
  rw [pageFaultHandler]
  split_ifs
  · exact ⟨fun _ _ => .inl, .inl rfl⟩
  · exact demandPage_spec h hd regions address
  · exact (copyOnWrite_spec h hd address).imp_right .inl
  · exact ⟨fun _ _ => .inl, .inl rfl⟩

end FaultState

/-! ## The abstract memory -/

/-- A byte for each address of each address space that is mapped. -/
abbrev UserMemory : Type := ℕ → BitVec 32 → Option (BitVec 8)

/-- The operations on address spaces, and the stores that the processor makes. -/
inductive MemoryOp where
  | create
  | allocate (d address size flags : ℕ)
  | free (d address size : ℕ)
  | fault (d : ℕ) (regions : List MemoryRegion) (address errorCode : ℕ)
  | destroy (d : ℕ)
  | store (user : Bool) (d : ℕ) (a : BitVec 32) (x : BitVec 8)

/-- The address lies on a page of a range, as `vmm_allocate_pages` and `vmm_free_pages` go through it. -/
def InRange (address size : ℕ) (a : BitVec 32) : Prop :=
  ∃ i < pageRound size / pageSize, SamePage a.toNat (pageAt (pageAlign address) i)

namespace MemoryOp

/-- What an operation does to the abstract memory. -/
def Behaves : MemoryOp → UserMemory → UserMemory → Prop
  | create, u, u' => u' = u
  | allocate d address size _, u, u' =>
    (∀ d' a, ¬ (d' = d ∧ InRange address size a) → u' d' a = u d' a) ∧
      ((∀ a, InRange address size a → u' d a ≠ none) ∨ ∀ a, u' d a = none ∨ u' d a = u d a)
  | free d address size, u, u' =>
    (∀ d' a, ¬ (d' = d ∧ InRange address size a) → u' d' a = u d' a) ∧
      ∀ a, InRange address size a → u' d a = none
  | fault d _ address _, u, u' =>
    u' = u ∨ (∀ d' a, ¬ (d' = d ∧ SamePage a.toNat address) → u' d' a = u d' a) ∧
      ∀ a, SamePage a.toNat address → u' d a = some 0
  | destroy d, u, u' => u' = Function.update u d fun _ => none
  | store _ d a x, u, u' =>
    u' = u ∨ u d a ≠ none ∧ u' = Function.update u d (Function.update (u d) a (some x))

/-- The bytes that an operation may change. -/
def Touches (d : ℕ) (a : BitVec 32) : MemoryOp → Prop
  | create => False
  | allocate d' address size _ | free d' address size => d = d' ∧ InRange address size a
  | fault d' _ address _ => d = d' ∧ SamePage a.toNat address
  | destroy d' => d = d'
  | store _ d' a' _ => d = d' ∧ a = a'

/-- An operation keeps the bytes that it does not touch. -/
lemma Behaves.of_not_touches {op : MemoryOp} {u u' : UserMemory} (h : op.Behaves u u') {d : ℕ}
    {a : BitVec 32} (ht : ¬ op.Touches d a) : u' d a = u d a := by
  cases op with
  | create => rw [h]
  | allocate d' address size flags => exact h.1 d a ht
  | free d' address size => exact h.1 d a ht
  | fault d' regions address errorCode =>
    rcases h with rfl | ⟨hother, -⟩
    · rfl
    · exact hother d a ht
  | destroy d' =>
    have hu : u' = Function.update u d' fun _ => none := h
    rw [hu, Function.update_of_ne ht]
  | store user d' a' x =>
    rcases h with rfl | ⟨-, rfl⟩
    · rfl
    · by_cases hd : d = d'
      · subst hd
        rw [Function.update_self, Function.update_of_ne fun ha => ht ⟨rfl, ha⟩]
      · rw [Function.update_of_ne hd]

end MemoryOp

namespace FaultState

variable {s s' : FaultState} {d address size flags errorCode : ℕ} {regions : List MemoryRegion}
  {a b : BitVec 32} {x : BitVec 8} {user : Bool}

/-- One operation. -/
def memoryStep (s : FaultState) : MemoryOp → Option FaultState
  | .create => some { s with memory := s.memory.pdCreate.1 }
  | .allocate d address size flags =>
    some { s with memory := (s.memory.vmmAllocatePages d address size flags).1 }
  | .free d address size => some { s with memory := s.memory.vmmFreePages d address size }
  | .fault d regions address errorCode => some (s.pageFaultHandler d regions address errorCode).1
  | .destroy d => some { s with memory := s.memory.pdDestroy d }
  | .store user d a x => some (s.store user d a x)

/-- The directory of an operation is that of a process, and exists. -/
def OnProcess (s : FaultState) : MemoryOp → Prop
  | .create => True
  | .allocate d .. | .free d .. | .fault d .. | .destroy d | .store _ d .. =>
    d ∈ s.memory.live ∧ d ≠ s.memory.kernelDirectory

instance (s : FaultState) : DecidablePred s.OnProcess := fun op => by
  cases op <;> unfold OnProcess <;> infer_instance

/-- No frame is shared, and those that processes have are managed. -/
structure Private (s : FaultState) : Prop where
  isolated : Isolated s.memory
  own : ProcessesOwn s.memory

/-- An address is in a range of pages exactly if its slot is one of theirs. -/
lemma slotAt_eq_iff {d d' a address : ℕ} : slotAt d' a = slotAt d address ↔ d' = d ∧ SamePage a address := by
  rw [slotAt, slotAt, Slot.mk.injEq]
  rfl

/-- A byte does not change with its slot. -/
lemma readByte_congr {d : ℕ} (h : s'.view (slotAt d a.toNat) = s.view (slotAt d a.toNat)) :
    s'.readByte d a = s.readByte d a := by
  rw [readByte_eq_view, readByte_eq_view, h]

/-- A byte cannot be read exactly if its page has no frame. -/
lemma readByte_eq_none_iff {d : ℕ} :
    s.readByte d a = none ↔ s.memory.named (slotAt d a.toNat) = none := by
  rw [readByte_eq_view, view, NamedCells.view, Option.map_eq_none_iff]

/-- A page fault. -/
lemma behaves_fault (h : s.Private) (hd : IsProcessDirectory s.memory d) (regions : List MemoryRegion)
    (address errorCode : ℕ) :
    (MemoryOp.fault d regions address errorCode).Behaves s.readByte
      (s.pageFaultHandler d regions address errorCode).1.readByte := by
  rcases (pageFaultHandler_spec h.isolated hd regions address errorCode).2 with hsame | hclear
  · refine .inl ?_
    funext d' a
    exact readByte_congr (by rw [hsame])
  · refine .inr ⟨fun d' a hne => readByte_congr ?_, fun a ha => ?_⟩
    · rw [hclear, Function.update_of_ne fun he => hne (slotAt_eq_iff.1 he)]
    · rw [readByte_eq_view, hclear, slotAt_eq_iff.2 ⟨rfl, ha⟩, Function.update_self]

/-- `vmm_allocate_pages`. -/
lemma behaves_allocate (h : s.Private) (hd : IsProcessDirectory s.memory d) (address size flags : ℕ) :
    (MemoryOp.allocate d address size flags).Behaves s.readByte
      ({ s with memory := (s.memory.vmmAllocatePages d address size flags).1 } : FaultState).readByte := by
  have hrange := allocateLoop_allocatesRange h.isolated hd (pageAlign address) flags
    (pageRound size / pageSize) 0
  have hcode : s.memory.vmmAllocatePages d address size flags =
      s.memory.allocateLoop d (pageAlign address) flags (pageRound size / pageSize) 0 := rfl
  rw [← hcode] at hrange
  refine ⟨fun d' a hne => readByte_congr ?_, ?_⟩
  · refine NamedCells.view_congr (hrange.outside _ fun j hj he => hne ?_) fun _ _ => rfl
    obtain ⟨hdd, hpage⟩ := slotAt_eq_iff.1 he
    exact ⟨hdd, j, by omega, hpage⟩
  · cases hok : (s.memory.vmmAllocatePages d address size flags).2 with
    | true =>
      refine .inl fun a ⟨j, hj, hpage⟩ => ?_
      rw [Ne, readByte_eq_none_iff, slotAt_eq_iff.2 ⟨rfl, hpage⟩]
      exact hrange.mapped hok j (Nat.zero_le j) (by omega)
    | false =>
      refine .inr fun a => ?_
      rcases hrange.failed hok (slotAt d a.toNat) with hnone | hsame
      · exact .inl (readByte_eq_none_iff.2 hnone)
      · exact .inr (readByte_congr (NamedCells.view_congr hsame fun _ _ => rfl))

/-- `vmm_free_pages`. -/
lemma behaves_free (h : s.Private) (hd : d ∈ s.memory.live) (address size : ℕ) :
    (MemoryOp.free d address size).Behaves s.readByte
      ({ s with memory := s.memory.vmmFreePages d address size } : FaultState).readByte := by
  refine ⟨fun d' a hne => readByte_congr ?_, fun a ⟨j, hj, hpage⟩ => ?_⟩
  · refine NamedCells.view_congr (named_unmapPages_other h.isolated hd fun j _ hj he => hne ?_) fun _ _ => rfl
    obtain ⟨hdd, hpage⟩ := slotAt_eq_iff.1 he
    exact ⟨hdd, j, by omega, hpage⟩
  · rw [readByte_eq_none_iff, slotAt_eq_iff.2 ⟨rfl, hpage⟩]
    exact named_unmapPages_range h.isolated hd hj

/-- `pd_destroy`. -/
lemma behaves_destroy (h : s.Private) (hd : d ≠ s.memory.kernelDirectory) :
    (MemoryOp.destroy d).Behaves s.readByte
      ({ s with memory := s.memory.pdDestroy d } : FaultState).readByte := by
  show _ = Function.update _ _ _
  funext d' a
  have hnamed := named_pdDestroy h.isolated.shape hd (slotAt d' a.toNat)
  by_cases hdd : d' = d
  · rw [hdd] at hnamed ⊢
    rw [Function.update_self]
    exact readByte_eq_none_iff.2 (hnamed.trans (if_pos rfl))
  · rw [Function.update_of_ne hdd]
    exact readByte_congr (NamedCells.view_congr (hnamed.trans (if_neg hdd)) fun _ _ => rfl)

/-- A store changes one byte of one address space.

**Proof sketch.** The frame that the processor finds is one that a process has, so it is managed, and no other
slot names it. -/
lemma readByte_store (h : s.Private) (hd : IsProcessDirectory s.memory d) (hok : s.Permits user d a) :
    s.readByte d a ≠ none ∧
      (s.store user d a x).readByte =
        Function.update s.readByte d (Function.update (s.readByte d) a (some x)) := by
  have hnamed := named_of_isMapped hd.live hok.1
  set f := (s.memory.entry d a.toNat).pageBaseAddress with hf
  have hman : s.memory.Managed f := h.own _ f hd.not_kernel hnamed
  have hview : (s.store user d a x).view = Function.update s.view (slotAt d a.toNat)
      (Function.update (s.view (slotAt d a.toNat)) (pageOffset a.toNat) (some x)) := by
    rw [view, store, if_pos hok, pdGetPhysicalAddress, if_pos hok.1, ← hf]
    show NamedCells.view s.memory.named
      (frameCells (Function.update s.bytes (f * pageSize + (pageOffset a.toNat : ℕ)) x)) = _
    rw [frameCells_update]
    exact NamedCells.view_write hnamed
      (fun t ht => h.isolated.exclusive.unique t _ f hman ht hnamed) _ x
  refine ⟨?_, ?_⟩
  · rw [Ne, readByte_eq_none_iff, hnamed]
    simp
  · funext d' b
    by_cases hdb : d' = d ∧ b = a
    · obtain ⟨rfl, rfl⟩ := hdb
      rw [Function.update_self, Function.update_self, readByte_eq_view, hview, Function.update_self,
        Function.update_self]
    · have hold : Function.update s.readByte d (Function.update (s.readByte d) a (some x)) d' b =
          s.readByte d' b := by
        by_cases hdd : d' = d
        · subst hdd
          rw [Function.update_self, Function.update_of_ne fun hb => hdb ⟨rfl, hb⟩]
        · rw [Function.update_of_ne hdd]
      rw [hold, readByte_eq_view, readByte_eq_view, hview]
      by_cases hslot : slotAt d' b.toNat = slotAt d a.toNat
      · rw [hslot, Function.update_self, Function.update_of_ne fun hoff => hdb (eq_of_slotAt_eq hslot hoff)]
      · rw [Function.update_of_ne hslot]

/-- Every operation on the directory of a process returns, keeps frames private, and is an operation of the
abstract memory. -/
lemma private_memoryStep (s : FaultState) (op : MemoryOp) (h : s.Private) (hop : s.OnProcess op) :
    ∃ s', memoryStep s op = some s' ∧ s'.Private ∧ op.Behaves s.readByte s'.readByte := by
  obtain ⟨hiso, hown⟩ := h
  cases op with
  | create =>
    have hnamed := hiso.shape.named_pdCreate
    refine ⟨_, rfl, ⟨hiso.pdCreate, hown.pdCreate hiso.shape⟩, ?_⟩
    · funext d a
      exact readByte_congr (NamedCells.view_congr (congrFun hnamed _) fun _ _ => rfl)
  | allocate d address size flags =>
    have hd : IsProcessDirectory s.memory d := ⟨hop.1, hop.2⟩
    have hkept := hiso.vmmAllocatePages hd address size flags
    refine ⟨_, rfl, ⟨hkept.isolated, hown.of_same hkept.same ?_⟩, behaves_allocate ⟨hiso, hown⟩ hd _ _ _⟩
    exact (allocateLoop_allocatesRange hiso hd _ _ _ _).owned
  | free d address size =>
    have hkept := hiso.unmapPages hop.1 (pageAlign address) (pageRound size / pageSize) 0
    refine ⟨_, rfl, ⟨hkept.isolated, hown.of_same hkept.same fun t f hf => .inl ?_⟩,
      behaves_free ⟨hiso, hown⟩ hop.1 _ _⟩
    rcases named_unmapPages hiso hop.1 (pageAlign address) (pageRound size / pageSize) 0 t with
      hnone | ⟨hsame, -⟩
    · exact absurd (hnone.symm.trans hf) (by simp)
    · exact hsame.symm.trans hf
  | fault d regions address errorCode =>
    have hd : IsProcessDirectory s.memory d := ⟨hop.1, hop.2⟩
    have hmem := congrArg Prod.fst (memory_pageFaultHandler s d regions address errorCode)
    have hkept := hiso.pageFaultHandler hd regions address (readCode errorCode)
    rw [← hmem] at hkept
    exact ⟨_, rfl, ⟨hkept.isolated, hown.of_same hkept.same
      (pageFaultHandler_spec hiso hd regions address errorCode).1⟩, behaves_fault ⟨hiso, hown⟩ hd _ _ _⟩
  | destroy d =>
    exact ⟨_, rfl, ⟨hiso.pdDestroy d, hown.pdDestroy hiso.shape hop.2⟩, behaves_destroy ⟨hiso, hown⟩ hop.2⟩
  | store user d a x =>
    have hd : IsProcessDirectory s.memory d := ⟨hop.1, hop.2⟩
    refine ⟨_, rfl, ?_, ?_⟩
    · rw [store]
      split_ifs
      · exact ⟨hiso, hown⟩
      · exact ⟨hiso, hown⟩
    · by_cases hok : s.Permits user d a
      · exact .inr (readByte_store ⟨hiso, hown⟩ hd hok)
      · refine .inl ?_
        rw [store, if_neg hok]

/-! ## Runs -/

/-- The memory when the kernel was mapped, with bytes that may be any. -/
def boot (memory : ℕ → Bool) (size kernelStart kernelEnd : ℕ) (bytes : ℕ → BitVec 8) : FaultState :=
  ⟨VirtualMemory.boot memory size kernelStart kernelEnd, bytes⟩

/-- `pd_map_page` creates no directory. -/
lemma live_pdMapPage (v : VirtualMemory) (d address physicalAddress flags : ℕ) :
    (v.pdMapPage d address physicalAddress flags).1.live = v.live ∧
      (v.pdMapPage d address physicalAddress flags).1.kernelDirectory = v.kernelDirectory := by
  rw [pdMapPage, ensureTable, mallocObject]
  split_ifs
  · exact ⟨rfl, rfl⟩
  · exact ⟨rfl, rfl⟩
  · exact ⟨rfl, rfl⟩
  · exact ⟨rfl, rfl⟩

/-- Mapping the kernel's pages creates no directory. -/
lemma live_mapKernel (v : VirtualMemory) (stop fuel address : ℕ) :
    (v.mapKernel stop fuel address).live = v.live ∧
      (v.mapKernel stop fuel address).kernelDirectory = v.kernelDirectory := by
  induction fuel generalizing v address with
  | zero => exact ⟨rfl, rfl⟩
  | succ fuel ih =>
    rw [mapKernel]
    split_ifs
    · obtain ⟨hlive, hkernel⟩ := live_pdMapPage v v.kernelDirectory address address 3
      rw [(ih _ _).1, (ih _ _).2]
      exact ⟨hlive, hkernel⟩
    · exact ⟨rfl, rfl⟩

section Runs

variable (memory : ℕ → Bool) (size kernelStart kernelEnd : ℕ) (bytes : ℕ → BitVec 8)

/-- Frames are private when the kernel was mapped: there is no process yet. -/
lemma private_boot (hsize : frameManagerStart + size ≤ 2 ^ 32) (hend : kernelEnd ≤ frameManagerStart) :
    (boot memory size kernelStart kernelEnd bytes).Private := by
  refine ⟨isolated_boot memory kernelStart hsize hend, fun t f ht hf => ?_⟩
  obtain ⟨hlive, hkernel⟩ := live_mapKernel
    { frameManager := PageFrameManager.pfmInit frameManagerStart size
      kernelDirectory := 0
      directories := fun _ _ => {}
      tables := fun _ _ => {}
      live := [0]
      mallocs := 1
      memory := memory } kernelEnd (kernelEnd - kernelStart) kernelStart
  exfalso
  have hdir : t.directory ∈ (VirtualMemory.boot memory size kernelStart kernelEnd).live := by
    by_contra hnot
    have hf' : (VirtualMemory.boot memory size kernelStart kernelEnd).named t = some f := hf
    rw [named, if_neg fun h => hnot h.1] at hf'
    simp at hf'
  rw [VirtualMemory.boot, hlive, List.mem_singleton] at hdir
  exact ht (hdir.trans hkernel.symm)

/-- Every run of the operations on the directories of processes returns, and is a run of the abstract
memory: what an operation changes of the bytes that are found at the addresses of all address spaces is what
the abstract operation allows. -/
theorem refines_of_run (hsize : frameManagerStart + size ≤ 2 ^ 32) (hend : kernelEnd ≤ frameManagerStart)
    (ops : List MemoryOp)
    (h : Run.Follows memoryStep OnProcess (boot memory size kernelStart kernelEnd bytes) ops) :
    ∃ s, Run.exec memoryStep (boot memory size kernelStart kernelEnd bytes) ops = some s ∧
      Run.Traces MemoryOp.Behaves (boot memory size kernelStart kernelEnd bytes).readByte ops s.readByte := by
  obtain ⟨s, hexec, -, htraces⟩ := Run.traces_of_step readByte private_memoryStep
    (private_boot memory size kernelStart kernelEnd bytes hsize hend) h
  exact ⟨s, hexec, htraces⟩

/-- What a process stored last it finds, whatever other processes store, map, unmap and fault on, and whatever
it does itself to other bytes.

**Proof sketch.** The operations after the store are a run of the abstract memory, in which none of them
touches the byte. -/
theorem readByte_of_run (hsize : frameManagerStart + size ≤ 2 ^ 32) (hend : kernelEnd ≤ frameManagerStart)
    {ops ops' : List MemoryOp} {user : Bool} {d : ℕ} {a : BitVec 32} {x : BitVec 8} {s : FaultState}
    (h : Run.Follows memoryStep OnProcess (boot memory size kernelStart kernelEnd bytes)
      (ops ++ .store user d a x :: ops'))
    (hs : Run.exec memoryStep (boot memory size kernelStart kernelEnd bytes) ops = some s)
    (hok : s.Permits user d a) (hspare : ∀ op ∈ ops', ¬ op.Touches d a) :
    ∃ s', Run.exec memoryStep (boot memory size kernelStart kernelEnd bytes)
        (ops ++ .store user d a x :: ops') = some s' ∧ s'.readByte d a = some x := by
  obtain ⟨hbefore, hafter⟩ := Run.follows_append.1 h
  obtain ⟨s₁, hexec, hs₁⟩ := Run.exec_of_step (I := Private)
    (fun s op hi hop => (private_memoryStep s op hi hop).imp fun _ h' => ⟨h'.1, h'.2.1⟩)
    (private_boot memory size kernelStart kernelEnd bytes hsize hend) hbefore
  obtain rfl : s = s₁ := Option.some.inj (hs.symm.trans hexec)
  obtain ⟨hstore, hrest⟩ := hafter s hs
  obtain ⟨s₂, hstep, hs₂, -⟩ := private_memoryStep s _ hs₁ hstore
  obtain rfl : s.store user d a x = s₂ := Option.some.inj hstep
  obtain ⟨s', hexec', -, htraces⟩ := Run.traces_of_step readByte private_memoryStep hs₂ (hrest _ rfl)
  refine ⟨s', ?_, ?_⟩
  · rw [Run.exec_append, hs]
    exact hexec'
  · refine htraces.keeps (P := fun u => u d a = some x) (fun op hop u u' hbehaves hu => ?_) ?_
    · rw [hbehaves.of_not_touches (hspare op hop)]
      exact hu
    · rw [(readByte_store hs₁ ⟨hstore.1, hstore.2⟩ hok).2, Function.update_self, Function.update_self]

end Runs

/-- Two processes map the same addresses and store there; one faults on its page and is destroyed. -/
def twoWriters : List MemoryOp :=
  [.create, .allocate 2 0x1000 8192 7, .create, .allocate 4 0x1000 4096 7]

/-- What happens after the first process has stored. -/
def afterStore : List MemoryOp :=
  [.store true 4 0x1234 9, .fault 4 [] 0x1000 6, .store true 2 0x1235 8, .free 4 0x1000 4096, .destroy 4]

/-- The run `twoWriters` meets the condition of the theorems. -/
lemma follows_twoWriters :
    Run.Follows memoryStep OnProcess (boot (fun _ => true) 65536 0xFFF000 0x1000000 fun _ => 0)
      (twoWriters ++ .store true 2 0x1234 7 :: afterStore) := by decide +kernel

/-- Two processes that write at one address have memories of their own. -/
theorem refines_of_run_twoWriters :
    ∃ s, Run.exec memoryStep (boot (fun _ => true) 65536 0xFFF000 0x1000000 fun _ => 0)
        (twoWriters ++ .store true 2 0x1234 7 :: afterStore) = some s ∧
      Run.Traces MemoryOp.Behaves (boot (fun _ => true) 65536 0xFFF000 0x1000000 fun _ => 0).readByte
        (twoWriters ++ .store true 2 0x1234 7 :: afterStore) s.readByte :=
  refines_of_run _ _ _ _ _ (by decide) (by decide) _ follows_twoWriters

/-- A process reads what it stored, after the other one has stored, faulted and been destroyed. -/
theorem readByte_of_run_twoWriters :
    ∃ s', Run.exec memoryStep (boot (fun _ => true) 65536 0xFFF000 0x1000000 fun _ => 0)
        (twoWriters ++ .store true 2 0x1234 7 :: afterStore) = some s' ∧ s'.readByte 2 0x1234 = some 7 := by
  obtain ⟨s, hs, hok⟩ : ∃ s, Run.exec memoryStep
      (boot (fun _ => true) 65536 0xFFF000 0x1000000 fun _ => 0) twoWriters = some s ∧
        s.Permits true 2 0x1234 := ⟨_, rfl, by decide +kernel⟩
  refine readByte_of_run _ _ _ _ _ (by decide) (by decide) follows_twoWriters hs hok ?_
  intro op hop
  simp only [afterStore, List.mem_cons, List.not_mem_nil, or_false] at hop
  rcases hop with rfl | rfl | rfl | rfl | rfl
  · simp [MemoryOp.Touches]
  · simp [MemoryOp.Touches]
  · simp [MemoryOp.Touches]
  · simp [MemoryOp.Touches]
  · simp [MemoryOp.Touches]

end FaultState

end Jarvis
