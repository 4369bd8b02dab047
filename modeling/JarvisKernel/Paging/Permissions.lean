import JarvisKernel.Paging.Translation

set_option relaxedAutoImplicit false
set_option autoImplicit false

/-!
# The rights of pages

The processor lets a page be written, or be used in user mode, only if the directory entry and the table
entry for it both allow this. `pd_map_page` writes the rights it is asked for into the table entry, but into
the directory entry only when it creates the table. The 1024 pages of a table share the rights of the page
that was mapped first.

## Main definitions

* `Jarvis.VirtualMemory.isWritable`, `Jarvis.VirtualMemory.isUser` — the rights of the page of an address.
* `Jarvis.MapHistory` — a directory with the flags that the pages were last mapped with.
* `Jarvis.MapHistory.RightsAsked` — every page has the rights that were last asked for.
* `Jarvis.MapHistory.Grants` — a call finds a directory entry that allows what it asks for.

## Main results

* `Jarvis.MapHistory.rightsAsked_iff` — when pages keep the rights that were asked for.
-/

namespace Jarvis

namespace VirtualMemory

variable {v w : VirtualMemory} {d a b address physicalAddress flags : ℕ}

/-! ## Rights -/

/-- The page of an address can be written: both of its entries allow it. -/
def isWritable (v : VirtualMemory) (d a : ℕ) : Bool :=
  (v.directories d (dirIndex a)).readWrite && (v.entry d a).readWrite

/-- The page of an address can be used in user mode: both of its entries allow it. -/
def isUser (v : VirtualMemory) (d a : ℕ) : Bool :=
  (v.directories d (dirIndex a)).userSupervisor && (v.entry d a).userSupervisor

/-- The page of an address is mapped, with the rights that the flags name. -/
structure HasRights (v : VirtualMemory) (d a flags : ℕ) : Prop where
  mapped : v.isMapped d a = true
  writable : v.isWritable d a = flags.testBit pteWritable
  user : v.isUser d a = flags.testBit pteUser

/-- The directory entry for an address allows what the flags name. -/
def Allows (v : VirtualMemory) (d address flags : ℕ) : Prop :=
  (flags.testBit pteWritable = true → (v.directories d (dirIndex address)).readWrite = true) ∧
    (flags.testBit pteUser = true → (v.directories d (dirIndex address)).userSupervisor = true)

instance : Decidable (v.Allows d address flags) := inferInstanceAs (Decidable (_ ∧ _))

/-- What the rights of a page depend on. -/
lemma HasRights.congr (h : v.HasRights d a flags)
    (hdir : w.directories d (dirIndex a) = v.directories d (dirIndex a))
    (hentry : w.entry d a = v.entry d a) : w.HasRights d a flags := by
  refine ⟨?_, ?_, ?_⟩
  · rw [isMapped, hdir, hentry]
    exact h.mapped
  · rw [isWritable, hdir, hentry]
    exact h.writable
  · rw [isUser, hdir, hentry]
    exact h.user

/-- A page that is mapped has a table. -/
lemma present_of_isMapped (h : v.isMapped d a = true) :
    (v.directories d (dirIndex a)).present = true := by
  rw [isMapped, Bool.and_eq_true] at h
  exact h.1

/-- The entry of a page after an assignment to it. -/
lemma entry_setEntry_self (hsame : SamePage a address) (e : PageTableEntry) :
    (v.setEntry d address e).entry d a = e := by
  obtain ⟨hi, hj⟩ := hsame
  simp [entry, setEntry, hi, hj]

/-- With tables of their own, the entries of other pages are as before. -/
lemma Separate.entry_setEntry_of_ne (h : v.Separate d)
    (hpres : (v.directories d (dirIndex address)).present = true)
    (hmap : (v.directories d (dirIndex a)).present = true) (hne : ¬ SamePage a address)
    (e : PageTableEntry) : (v.setEntry d address e).entry d a = v.entry d a := by
  by_cases ht : (v.directories d (dirIndex a)).pageTable =
      (v.directories d (dirIndex address)).pageTable
  · have hi := h.one_index _ _ hmap hpres ht
    have hj : tableIndex a ≠ tableIndex address := fun hj => hne ⟨hi, hj⟩
    simp [entry, VirtualMemory.setEntry, ht, hj]
  · simp [entry, VirtualMemory.setEntry, ht]

/-! ## One call -/

/-- The rights of the page that was mapped are those asked for if the directory entry allows them. -/
lemma hasRights_setEntry_iff (hpres : (v.directories d (dirIndex address)).present = true)
    (hsame : SamePage a address) :
    (v.setEntry d address (newEntry physicalAddress flags)).HasRights d a flags ↔
      v.Allows d address flags := by
  have hentry := entry_setEntry_self (v := v) (d := d) hsame (newEntry physicalAddress flags)
  have hdir : (v.setEntry d address (newEntry physicalAddress flags)).directories d (dirIndex a) =
      v.directories d (dirIndex address) := by
    rw [hsame.1]
    rfl
  have hmap : (v.setEntry d address (newEntry physicalAddress flags)).isMapped d a = true := by
    rw [isMapped, hdir, hentry, hpres]
    rfl
  have hand : ∀ x y : Bool, (x && y) = y ↔ (y = true → x = true) := by decide
  constructor
  · rintro ⟨-, hwrite, huser⟩
    rw [isWritable, hdir, hentry] at hwrite
    rw [isUser, hdir, hentry] at huser
    exact ⟨(hand _ _).1 hwrite, (hand _ _).1 huser⟩
  · rintro ⟨hwrite, huser⟩
    refine ⟨hmap, ?_, ?_⟩
    · rw [isWritable, hdir, hentry]
      exact (hand _ _).2 hwrite
    · rw [isUser, hdir, hentry]
      exact (hand _ _).2 huser

/-- The entry of a directory that `pd_map_page` creates allows what it was asked for. -/
lemma allows_withTable : (v.withTable d address flags).Allows d address flags := by
  simp [Allows, withTable, addTable]

/-- A new table changes the rights of no page that is mapped. -/
lemma Separate.hasRights_withTable (h : v.Separate d)
    (habs : (v.directories d (dirIndex address)).present = false) {f : ℕ} (ha : v.HasRights d a f) :
    (v.withTable d address flags).HasRights d a f := by
  have hpres := present_of_isMapped ha.mapped
  have hdir : (v.withTable d address flags).directories d (dirIndex a) =
      v.directories d (dirIndex a) := by
    apply directories_withTable_of_ne
    rintro ⟨-, hi⟩
    rw [hi, habs] at hpres
    simp at hpres
  refine ha.congr hdir ?_
  rw [entry, hdir, tables_withTable_of_lt (h.table_lt _ hpres)]
  rfl

/-- The condition under which `pd_map_page` gives a page the rights that it is asked for: the directory has
no entry for the page, or one that allows them. -/
def GrantsPage (v : VirtualMemory) (d address physicalAddress flags : ℕ) : Prop :=
  physicalAddress ≠ 0 → (v.directories d (dirIndex address)).present = true →
    v.Allows d address flags

instance : Decidable (v.GrantsPage d address physicalAddress flags) :=
  inferInstanceAs (Decidable (_ → _))

/-- `pd_map_page` gives the page the rights that it is asked for under this condition, and changes those of
no other page.

**Proof sketch.** The entry is assigned in a directory that has a table for it. Either the table was there,
and the directory entry is as before, or it is new, and the directory entry has the rights asked for. -/
lemma Separate.hasRights_pdMapPage (h : v.Separate d) (address physicalAddress flags : ℕ) :
    ((v.pdMapPage d address physicalAddress flags).2 = true →
        ∀ a, SamePage a address →
          ((v.pdMapPage d address physicalAddress flags).1.HasRights d a flags ↔
            v.GrantsPage d address physicalAddress flags)) ∧
      ((v.pdMapPage d address physicalAddress flags).2 = false →
        v.GrantsPage d address physicalAddress flags) ∧
      ∀ a f, (v.pdMapPage d address physicalAddress flags).2 = false ∨ ¬ SamePage a address →
        v.HasRights d a f → (v.pdMapPage d address physicalAddress flags).1.HasRights d a f := by
  rcases pdMapPage_cases v d address physicalAddress flags with
    ⟨hzero, hcode⟩ | ⟨hmem, hcode⟩ | ⟨u, hu, hcode⟩
  · rw [hcode]
    exact ⟨by simp, fun _ hne => absurd hzero hne, fun a f _ ha => ha⟩
  · have hfail : (v.pdMapPage d address physicalAddress flags).2 = false := by rw [hcode]
    refine ⟨by simp [hfail], fun _ hne hpres => ?_, fun a f _ ha => ?_⟩
    · rw [VirtualMemory.pdMapPage, if_neg hne, ensureTable, if_pos hpres] at hfail
      simp at hfail
    · rw [hcode]
      exact ha.congr (v := v) rfl rfl
  · have hne : physicalAddress ≠ 0 := by
      rintro rfl
      simp [VirtualMemory.pdMapPage] at hcode
    rw [hcode]
    -- the memory in which the entry is assigned has a table for it, and pages have the same rights
    obtain ⟨hsep, hpres, hallows, hkeep⟩ : u.Separate d ∧
        (u.directories d (dirIndex address)).present = true ∧
        (u.Allows d address flags ↔ v.GrantsPage d address physicalAddress flags) ∧
        ∀ a f, v.HasRights d a f → u.HasRights d a f := by
      rcases hu with ⟨rfl, hpres⟩ | ⟨rfl, habs⟩
      · exact ⟨h, hpres, ⟨fun hallow _ _ => hallow, fun hgrant => hgrant hne hpres⟩, fun _ _ ha => ha⟩
      · refine ⟨(h.withTable address flags habs).1, directories_withTable_self.1, ?_,
          fun a f ha => h.hasRights_withTable habs ha⟩
        refine ⟨fun _ _ hpres => ?_, fun _ => allows_withTable⟩
        rw [habs] at hpres
        simp at hpres
    refine ⟨fun _ a hsame => ?_, by simp, fun a f hother ha => ?_⟩
    · rw [hasRights_setEntry_iff hpres hsame, hallows]
    · have hne : ¬ SamePage a address := hother.resolve_left (by simp)
      have hu := hkeep a f ha
      exact hu.congr (v := u) rfl
        (hsep.entry_setEntry_of_ne hpres (present_of_isMapped hu.mapped) hne _)

end VirtualMemory

/-! ## Runs -/

open VirtualMemory

/-- The arguments of `pd_map_page` for a directory. -/
structure MapCall where
  address : ℕ
  physicalAddress : ℕ
  flags : ℕ

/-- The memory, and for the addresses of a directory the flags with which their page was last mapped. -/
structure MapHistory where
  memory : VirtualMemory
  asked : ℕ → Option ℕ

namespace MapHistory

variable {s s' : MapHistory} {d : ℕ}

/-- No page was mapped yet by a call. -/
def start (v : VirtualMemory) : MapHistory := ⟨v, fun _ => none⟩

/-- One call; a call that fails maps no page. -/
def step (d : ℕ) (s : MapHistory) (c : MapCall) : Option MapHistory :=
  match s.memory.pdMapPage d c.address c.physicalAddress c.flags with
  | (v, false) => some { s with memory := v }
  | (v, true) =>
    some ⟨v, fun a => if SamePage a c.address then some c.flags else s.asked a⟩

/-- Every page that was mapped by a call is mapped with the rights that the last of these calls asked
for. -/
def RightsAsked (d : ℕ) (s : MapHistory) : Prop :=
  ∀ a flags, s.asked a = some flags → s.memory.HasRights d a flags

/-- The rule for calls: the directory has no entry for the page, or one that allows what the flags name. -/
def Grants (d : ℕ) (s : MapHistory) (c : MapCall) : Prop :=
  s.memory.GrantsPage d c.address c.physicalAddress c.flags

instance (c : MapCall) : Decidable (s.Grants d c) :=
  inferInstanceAs (Decidable (s.memory.GrantsPage d _ _ _))

/-- The tables stay separate, whatever is mapped. -/
lemma separate_step {c : MapCall} (h : s.memory.Separate d) (hstep : step d s c = some s') :
    s'.memory.Separate d := by
  have hsep := (h.pdMapPage c.address c.physicalAddress c.flags).1
  rw [step] at hstep
  rcases hcode : s.memory.pdMapPage d c.address c.physicalAddress c.flags with ⟨v, ok⟩
  rw [hcode] at hsep hstep
  cases ok with
  | false => exact Option.some.inj hstep ▸ hsep
  | true => exact Option.some.inj hstep ▸ hsep

/-- A call keeps the property if and only if it follows the rule. -/
lemma rightsAsked_step_iff {c : MapCall} (h : s.memory.Separate d) (hs : RightsAsked d s)
    (hstep : step d s c = some s') : RightsAsked d s' ↔ s.Grants d c := by
  obtain ⟨hpage, hfail, hother⟩ := h.hasRights_pdMapPage c.address c.physicalAddress c.flags
  rw [step] at hstep
  rcases hcode : s.memory.pdMapPage d c.address c.physicalAddress c.flags with ⟨v, ok⟩
  rw [hcode] at hpage hfail hother hstep
  cases ok with
  | false =>
    obtain rfl := Option.some.inj hstep
    exact ⟨fun _ => hfail rfl, fun _ a f ha => hother a f (.inl rfl) (hs a f ha)⟩
  | true =>
    obtain rfl := Option.some.inj hstep
    constructor
    · intro hrights
      exact (hpage rfl c.address ⟨rfl, rfl⟩).1 (hrights c.address c.flags (if_pos ⟨rfl, rfl⟩))
    · intro hgrants a f ha
      by_cases hsame : SamePage a c.address
      · obtain rfl : c.flags = f := Option.some.inj ((if_pos hsame).symm.trans ha)
        exact (hpage rfl a hsame).2 hgrants
      · exact hother a f (.inr hsame) (hs a f ((if_neg hsame).symm.trans ha))

/-- At every point of a sequence of calls the pages have the rights that were last asked for, if and only if
no call asks for a right that the directory entry it finds does not allow.

**Proof sketch.** By the last lemma a call that follows the rule keeps the property, and the first call that
does not breaks it for its own page. -/
theorem rightsAsked_iff {v : VirtualMemory} (h : v.Separate d) (cs : List MapCall) :
    (∀ ds s, ds <+: cs → Run.exec (step d) (start v) ds = some s → RightsAsked d s) ↔
      Run.Follows (step d) (Grants d) (start v) cs := by
  have hsep : ∀ ds s, Run.exec (step d) (start v) ds = some s → s.memory.Separate d := by
    intro ds s hexec
    have hfree : Run.Follows (step d) (fun _ _ => True) (start v) ds :=
      Run.follows_iff.2 fun _ _ _ _ _ => trivial
    exact Run.inv_of_exec (I := fun s => s.memory.Separate d)
      (fun _ _ _ hs _ hstep => separate_step hs hstep) h hfree hexec
  constructor
  · intro hall
    refine Run.follows_iff.2 fun ds c s hds hexec => ?_
    obtain ⟨s', hstep⟩ : ∃ s', step d s c = some s' := by
      rw [step]
      split <;> exact ⟨_, rfl⟩
    have hlast := hall (ds ++ [c]) s' hds (by rw [Run.exec_concat hexec, hstep])
    have hbefore := hall ds s ((List.prefix_append ds [c]).trans hds) hexec
    exact (rightsAsked_step_iff (hsep ds s hexec) hbefore hstep).1 hlast
  · intro hfollows ds s hds hexec
    refine (Run.inv_of_exec (I := fun s => s.memory.Separate d ∧ RightsAsked d s) ?_ ?_
      (hfollows.of_isPrefix hds) hexec).2
    · rintro s c s' ⟨hs, hrights⟩ hgrants hstep
      exact ⟨separate_step hs hstep, (rightsAsked_step_iff hs hrights hstep).2 hgrants⟩
    · exact ⟨h, fun a flags ha => by simp [start] at ha⟩

/-- A page for the kernel only, and then two pages for the user in the table of the first one. -/
def neighbours : List MapCall := [⟨0x800000, 0x1000000, 1⟩, ⟨0x801000, 0x1001000, 7⟩]

/-- The second page can neither be written nor be used in user mode. -/
theorem not_rightsAsked_neighbours :
    unmapped.Separate 0 ∧
      ∃ s, Run.exec (step 0) (start unmapped) neighbours = some s ∧ s.asked 0x801000 = some 7 ∧
        s.memory.isWritable 0 0x801000 = false ∧ s.memory.isUser 0 0x801000 = false ∧
        ¬ RightsAsked 0 s := by
  refine ⟨separate_unmapped, _, rfl, rfl, rfl, rfl, fun hrights => ?_⟩
  have hwrite := (hrights 0x801000 7 rfl).writable
  exact absurd hwrite (by decide)

/-- The same two pages, with those for the user mapped first. -/
theorem rightsAsked_iff_neighbours :
    unmapped.Separate 0 ∧
      ((∀ ds s, ds <+: neighbours.reverse → Run.exec (step 0) (start unmapped) ds = some s →
          RightsAsked 0 s) ↔
        Run.Follows (step 0) (Grants 0) (start unmapped) neighbours.reverse) :=
  ⟨separate_unmapped, rightsAsked_iff separate_unmapped neighbours.reverse⟩

end MapHistory

end Jarvis
