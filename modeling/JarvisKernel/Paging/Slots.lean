import JarvisKernel.Paging.Defs

set_option relaxedAutoImplicit false
set_option autoImplicit false

/-!
# Page table entries as slots

A page table entry is a slot that may name a frame. Directories and tables are objects of their own, so
that an assignment to an entry changes one slot.

## Main definitions

* `Jarvis.VirtualMemory.Slot`, `Jarvis.VirtualMemory.named` — entries, and the frames they name.
* `Jarvis.VirtualMemory.Managed`, `Jarvis.VirtualMemory.Used` — the frames of the frame manager.
* `Jarvis.VirtualMemory.Shape` — directories and tables are objects of their own.

## Main results

* `Jarvis.VirtualMemory.ensureTable_spec`, `Jarvis.VirtualMemory.named_setEntry` — the effect on slots.
* `Jarvis.VirtualMemory.pdMapPage_spec` — `pd_map_page` assigns one slot.
-/

namespace Jarvis

namespace VirtualMemory

variable {v v' : VirtualMemory} {d address f k flags : ℕ} {e : PageTableEntry}

/-! ## Slots -/

/-- A page table entry, by the directory it is found in and the indices in the directory and in the
table. -/
structure Slot where
  directory : ℕ
  tableNumber : ℕ
  pageNumber : ℕ
  deriving DecidableEq

/-- The slot for an address. -/
def slotAt (d address : ℕ) : Slot := ⟨d, dirIndex address, tableIndex address⟩

/-- The directory entry that leads to a slot. -/
def dirEntry (v : VirtualMemory) (s : Slot) : PageDirectoryEntry :=
  v.directories s.directory s.tableNumber

/-- The page that a slot names: that of a present entry in a table that an entry of an existing directory
leads to. -/
def named (v : VirtualMemory) (s : Slot) : Option ℕ :=
  if s.directory ∈ v.live ∧ (v.dirEntry s).present ∧
      (v.tables (v.dirEntry s).pageTable s.pageNumber).present then
    some (v.tables (v.dirEntry s).pageTable s.pageNumber).pageBaseAddress
  else none

/-- The page is a frame of the frame manager. -/
def Managed (v : VirtualMemory) (f : ℕ) : Prop :=
  ∃ k < v.frameManager.totalFrames, (v.frameManager.frames k).physicalAddress = f * pageSize

/-- The page is a frame of the frame manager, and its bit is set. -/
def Used (v : VirtualMemory) (f : ℕ) : Prop :=
  ∃ k < v.frameManager.totalFrames, (v.frameManager.frames k).physicalAddress = f * pageSize ∧
    Bitmap.test v.frameManager.frameBitmap k = true

/-- Directories and tables are objects of their own: no table is shared, and what exists was returned by
an earlier `malloc`. The kernel directory is empty in the part that other directories copy. -/
structure Shape (v : VirtualMemory) : Prop where
  nodup : v.live.Nodup
  kernel_live : v.kernelDirectory ∈ v.live
  live_lt : ∀ d ∈ v.live, d < v.mallocs
  table_lt : ∀ d ∈ v.live, ∀ i, (v.directories d i).present → (v.directories d i).pageTable < v.mallocs
  unshared : ∀ d ∈ v.live, ∀ d' ∈ v.live, ∀ i i', (v.directories d i).present →
    (v.directories d' i').present →
    (v.directories d i).pageTable = (v.directories d' i').pageTable → d = d' ∧ i = i'
  kernel_low : ∀ i, kernelEntries ≤ i → (v.directories v.kernelDirectory i).present = false

/-- Two memories have the same frames, existing directories and kernel directory. -/
structure SameSpaces (v v' : VirtualMemory) : Prop where
  frameManager : v'.frameManager = v.frameManager
  live : v'.live = v.live
  kernelDirectory : v'.kernelDirectory = v.kernelDirectory

/-- The same address spaces have the same frames under management. -/
lemma SameSpaces.managed (h : SameSpaces v v') : v'.Managed = v.Managed := by
  funext f
  rw [Managed, Managed, h.frameManager]

/-- And the same ones in use. -/
lemma SameSpaces.used (h : SameSpaces v v') : v'.Used = v.Used := by
  funext f
  rw [Used, Used, h.frameManager]

/-- A call of `malloc` that is not used. -/
lemma Shape.mallocs_succ (h : Shape v) : Shape { v with mallocs := v.mallocs + 1 } :=
  ⟨h.nodup, h.kernel_live, fun d hd => Nat.lt_succ_of_lt (h.live_lt d hd),
    fun d hd i hi => Nat.lt_succ_of_lt (h.table_lt d hd i hi), h.unshared, h.kernel_low⟩

/-- The entry of a new table has it, the others are as before. -/
lemma directories_addTable (v : VirtualMemory) (d i flags t : ℕ) (d' i' : ℕ) :
    d' = d ∧ i' = i ∧ ((v.addTable d i flags t).directories d' i').present = true ∧
        ((v.addTable d i flags t).directories d' i').pageTable = t ∨
      ¬ (d' = d ∧ i' = i) ∧ (v.addTable d i flags t).directories d' i' = v.directories d' i' := by
  by_cases hd : d' = d
  · subst hd
    by_cases hi : i' = i
    · subst hi
      refine .inl ⟨rfl, rfl, ?_⟩
      simp [addTable]
    · refine .inr ⟨fun h => hi h.2, ?_⟩
      simp [addTable, hi]
  · refine .inr ⟨fun h => hd h.1, ?_⟩
    simp [addTable, hd]

/-- A table that was just returned by `malloc` may be added. -/
lemma Shape.addTable (h : Shape v) (hd : d ∈ v.live) {i : ℕ}
    (hk : d = v.kernelDirectory → i < kernelEntries) (flags : ℕ) :
    Shape ({ v with mallocs := v.mallocs + 1 }.addTable d i flags v.mallocs) := by
  set w : VirtualMemory := { v with mallocs := v.mallocs + 1 } with hw
  have hdir := directories_addTable w d i flags v.mallocs
  refine ⟨h.nodup, h.kernel_live, fun d hd => Nat.lt_succ_of_lt (h.live_lt d hd), ?_, ?_, ?_⟩
  · intro d' hd' i' hi'
    rcases hdir d' i' with ⟨-, -, -, ht⟩ | ⟨-, he⟩
    · rw [ht]
      exact Nat.lt_succ_self _
    · rw [he] at hi' ⊢
      exact Nat.lt_succ_of_lt (h.table_lt d' hd' i' hi')
  · intro d₁ hd₁ d₂ hd₂ i₁ i₂ hi₁ hi₂ heq
    rcases hdir d₁ i₁ with ⟨rfl, rfl, -, ht₁⟩ | ⟨-, he₁⟩
    · rcases hdir d₂ i₂ with ⟨rfl, rfl, -, -⟩ | ⟨-, he₂⟩
      · exact ⟨rfl, rfl⟩
      · rw [he₂] at hi₂ heq
        have hlt := h.table_lt d₂ hd₂ i₂ hi₂
        rw [ht₁] at heq
        exact absurd hlt (by rw [heq]; exact lt_irrefl _)
    · rcases hdir d₂ i₂ with ⟨rfl, rfl, -, ht₂⟩ | ⟨-, he₂⟩
      · rw [he₁] at hi₁ heq
        have hlt := h.table_lt d₁ hd₁ i₁ hi₁
        rw [ht₂] at heq
        exact absurd hlt (by rw [← heq]; exact lt_irrefl _)
      · rw [he₁] at hi₁ heq
        rw [he₂] at hi₂ heq
        exact h.unshared d₁ hd₁ d₂ hd₂ i₁ i₂ hi₁ hi₂ heq
  · intro i' hi'
    rcases hdir v.kernelDirectory i' with ⟨hkd, hii, -, -⟩ | ⟨-, he⟩
    · have := hk hkd.symm
      omega
    · show (((w.addTable d i flags v.mallocs).directories v.kernelDirectory) i').present = false
      rw [he]
      exact h.kernel_low i' hi'

/-- A new table changes no slot, since its entries are not present. -/
lemma named_addTable (h : Shape v) {i : ℕ} (hpres : (v.directories d i).present = false)
    (flags : ℕ) :
    ({ v with mallocs := v.mallocs + 1 }.addTable d i flags v.mallocs).named = v.named := by
  set w : VirtualMemory := { v with mallocs := v.mallocs + 1 } with hw
  funext s
  rcases directories_addTable w d i flags v.mallocs s.directory s.tableNumber with
    ⟨hd, hi, -, ht⟩ | ⟨-, he⟩
  · have hnew : ((w.addTable d i flags v.mallocs).tables
        ((w.addTable d i flags v.mallocs).dirEntry s).pageTable s.pageNumber).present = false := by
      rw [dirEntry, ht]
      simp [VirtualMemory.addTable]
    have hold : (v.dirEntry s).present = false := by rw [dirEntry, hd, hi, hpres]
    rw [named, if_neg (by simp [hnew]), named, if_neg (by simp [hold])]
  · by_cases hlive : s.directory ∈ v.live ∧ (v.dirEntry s).present
    · have hlt := h.table_lt s.directory hlive.1 s.tableNumber hlive.2
      have htab : (w.addTable d i flags v.mallocs).tables (v.dirEntry s).pageTable =
          v.tables (v.dirEntry s).pageTable := by
        have hne : (v.dirEntry s).pageTable ≠ v.mallocs := Nat.ne_of_lt hlt
        simp [VirtualMemory.addTable, hne, hw]
      have hdir : (w.addTable d i flags v.mallocs).dirEntry s = v.dirEntry s := he
      rw [named, named, hdir, htab]
      rfl
    · have hdir : (w.addTable d i flags v.mallocs).dirEntry s = v.dirEntry s := he
      have hlive' : (w.addTable d i flags v.mallocs).live = v.live := rfl
      rw [named, named, hdir, hlive', if_neg fun h' => hlive ⟨h'.1, h'.2.1⟩,
        if_neg fun h' => hlive ⟨h'.1, h'.2.1⟩]

variable (flags) in
/-- A directory gets a table for an address, unless `malloc` fails. No slot changes. -/
lemma ensureTable_spec (h : Shape v) (hd : d ∈ v.live)
    (hk : d = v.kernelDirectory → dirIndex address < kernelEntries) :
    Shape (v.ensureTable d address flags).1 ∧ SameSpaces v (v.ensureTable d address flags).1 ∧
      (v.ensureTable d address flags).1.named = v.named ∧
      ((v.ensureTable d address flags).2 = true →
        ((v.ensureTable d address flags).1.directories d (dirIndex address)).present = true) := by
  rw [ensureTable]
  split_ifs with hpres
  · exact ⟨h, ⟨rfl, rfl, rfl⟩, rfl, fun _ => hpres⟩
  · rw [mallocObject]
    cases hm : v.memory v.mallocs with
    | false => exact ⟨h.mallocs_succ, ⟨rfl, rfl, rfl⟩, rfl, by simp⟩
    | true =>
      refine ⟨h.addTable hd hk flags, ⟨rfl, rfl, rfl⟩, named_addTable h (by simpa using hpres) flags,
        fun _ => ?_⟩
      simp [VirtualMemory.addTable]

/-- Assigning an entry changes one slot. -/
lemma named_setEntry (h : Shape v) (hd : d ∈ v.live)
    (hpres : (v.directories d (dirIndex address)).present = true) (e : PageTableEntry) :
    (v.setEntry d address e).named = Function.update v.named (slotAt d address)
      (if e.present then some e.pageBaseAddress else none) := by
  funext s
  have hlive : (v.setEntry d address e).live = v.live := rfl
  have hdir : (v.setEntry d address e).dirEntry s = v.dirEntry s := rfl
  by_cases hs : s = slotAt d address
  · subst hs
    have hentry : (v.setEntry d address e).tables (v.dirEntry (slotAt d address)).pageTable
        (tableIndex address) = e := by
      simp [setEntry, dirEntry, slotAt]
    rw [Function.update_self, named, hlive, hdir]
    show (if d ∈ v.live ∧ (v.directories d (dirIndex address)).present = true ∧
      ((v.setEntry d address e).tables (v.dirEntry (slotAt d address)).pageTable
        (tableIndex address)).present = true then some ((v.setEntry d address e).tables
        (v.dirEntry (slotAt d address)).pageTable (tableIndex address)).pageBaseAddress else none) = _
    rw [hentry]
    simp [hd, hpres]
  · rw [Function.update_of_ne hs, named, named, hlive, hdir]
    by_cases hcond : s.directory ∈ v.live ∧ (v.dirEntry s).present
    · have hsame : (v.setEntry d address e).tables (v.dirEntry s).pageTable s.pageNumber =
          v.tables (v.dirEntry s).pageTable s.pageNumber := by
        by_cases ht : (v.dirEntry s).pageTable = (v.directories d (dirIndex address)).pageTable
        · obtain ⟨hsd, hsi⟩ := h.unshared s.directory hcond.1 d hd s.tableNumber (dirIndex address)
            hcond.2 hpres ht
          have hpage : s.pageNumber ≠ tableIndex address := by
            intro hp
            apply hs
            cases s
            simp only at hsd hsi hp
            rw [slotAt, hsd, hsi, hp]
          rw [setEntry, ht]
          simp [hpage]
        · simp [setEntry, ht]
      rw [hsame]
    · rw [if_neg fun h' => hcond ⟨h'.1, h'.2.1⟩, if_neg fun h' => hcond ⟨h'.1, h'.2.1⟩]

/-- Setting an entry of a table leaves the shape. -/
lemma Shape.setEntry (h : Shape v) (d address : ℕ) (e : PageTableEntry) :
    Shape (v.setEntry d address e) :=
  ⟨h.nodup, h.kernel_live, h.live_lt, h.table_lt, h.unshared, h.kernel_low⟩

variable (address) in
/-- `pd_map_page` makes the slot of the address name the page, or fails and changes no slot. -/
lemma pdMapPage_spec (h : Shape v) (hd : d ∈ v.live)
    (hk : d = v.kernelDirectory → dirIndex address < kernelEntries) (physicalAddress flags : ℕ) :
    Shape (v.pdMapPage d address physicalAddress flags).1 ∧
      SameSpaces v (v.pdMapPage d address physicalAddress flags).1 ∧
      (v.pdMapPage d address physicalAddress flags).1.named =
        if (v.pdMapPage d address physicalAddress flags).2 then
          Function.update v.named (slotAt d address) (some (physicalAddress / pageSize))
        else v.named := by
  by_cases hp : physicalAddress = 0
  · rw [pdMapPage, if_pos hp]
    exact ⟨h, ⟨rfl, rfl, rfl⟩, by simp⟩
  · rw [pdMapPage, if_neg hp]
    obtain ⟨hshape, hsame, hnamed, hpres⟩ := ensureTable_spec flags h hd hk
    rcases htab : v.ensureTable d address flags with ⟨w, ok⟩
    rw [htab] at hshape hsame hnamed hpres
    cases ok with
    | false => exact ⟨hshape, hsame, by simpa using hnamed⟩
    | true =>
      refine ⟨hshape.setEntry d address _, ⟨hsame.frameManager, hsame.live, hsame.kernelDirectory⟩, ?_⟩
      have hset := named_setEntry hshape (by rw [hsame.live]; exact hd) (hpres rfl)
        { present := true
          readWrite := flags.testBit pteWritable
          userSupervisor := flags.testBit pteUser
          writeThrough := flags.testBit pteWriteThrough
          cacheDisabled := flags.testBit pteCacheDisabled
          pageBaseAddress := physicalAddress / pageSize }
      rw [hnamed] at hset
      simpa using hset

end VirtualMemory

end Jarvis
