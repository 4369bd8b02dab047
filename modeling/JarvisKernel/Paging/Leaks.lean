import JarvisKernel.Paging.Processes

set_option relaxedAutoImplicit false
set_option autoImplicit false

/-!
# Frames that are never handed back

A frame loses its last entry when `pd_map_page` assigns an entry that is present, when the copy-on-write
branch of the page fault handler makes an entry name another frame, when the handler cannot map the frame
it was given, and when the clean-up of `process_manager_tick` forgets a process with its directory: none
of these hands the frame back. A process that is terminated while it is in a queue can run again after it
was forgotten, and what it maps then is in the directory of no process.

Along the runs in which none of this happens, every frame whose bit is set is named by the kernel or by a
process of the table.

## Main definitions

* `Jarvis.Spaces.KeepsFrames` — the call gives up no frame.
* `Jarvis.Spaces.Inv` — the invariant.

## Main results

* `Jarvis.Spaces.noLeak_of_run` — no frame is leaked along runs of such calls.
* `Jarvis.Spaces.Inv.mmap_leaks` — an `mmap` over a page that is mapped leaks its frame.
-/

namespace Jarvis

namespace Spaces

open ProcessManager VirtualMemory

variable {s s' : Spaces} {v w : VirtualMemory} {d : ℕ} {c : Ptr}

/-! ## The condition and the invariant -/

/-- The property holds of the current process and its directory, if there are any. -/
def OnCurrent (s : Spaces) (P : Ptr → ℕ → Prop) : Prop :=
  ∀ c d, s.manager.currentProcess = some c → (s.manager.pcb c).pageDirectory = some d → P c d

instance (P : Ptr → ℕ → Prop) [∀ c d, Decidable (P c d)] : Decidable (s.OnCurrent P) :=
  match hc : s.manager.currentProcess with
  | none => .isTrue fun c d h => by simp [hc] at h
  | some c =>
    match hd : (s.manager.pcb c).pageDirectory with
    | none => .isTrue fun c' d h h' => by
      obtain rfl := Option.some.inj (hc.symm.trans h)
      simp [hd] at h'
    | some d => decidable_of_iff (P c d) <| by
      constructor
      · intro h c' d' hc' hd'
        obtain rfl := Option.some.inj (hc.symm.trans hc')
        obtain rfl := Option.some.inj (hd.symm.trans hd')
        exact h
      · intro h
        exact h c d hc hd

/-- The calls that give up no frame: `mmap` maps no page that is mapped, a page fault is served without
giving up a frame, only the current process is terminated, and a clean-up finds no page in the
directories of terminated processes. -/
def KeepsFrames (s : Spaces) : MemoryCall → Prop
  | .mmap addr len _ flags fd file _ =>
    s.OnCurrent fun _ d => len ≠ 0 → (mapsFile flags fd = true → file = true) →
      s.memory.RangeFree d (pageAlign addr) (pageRound len / pageSize) 0
  | .fault address code =>
    s.OnCurrent fun c d => s.memory.FaultKeeps d (s.manager.pcb c).memoryRegions address code
  | .other c =>
    s.calls.TerminatesUnqueued c ∧
      (s.calls.CleansUp c → ∀ pid p d, s.manager.processes pid = some p →
        (s.manager.pcb p).state = .terminated → (s.manager.pcb p).pageDirectory = some d →
        ∀ slot : Slot, slot.directory = d → s.memory.named slot = none)
  | _ => True

instance (addr len prot flags fd : ℕ) (file region : Bool) :
    Decidable (s.KeepsFrames (.mmap addr len prot flags fd file region)) :=
  inferInstanceAs (Decidable (s.OnCurrent _))

instance (address : ℕ) (code : FaultCode) : Decidable (s.KeepsFrames (.fault address code)) :=
  inferInstanceAs (Decidable (s.OnCurrent _))

/-- The manager and the memory are in order, every process has a directory of its own kind, and no frame
is leaked. -/
structure Inv (s : Spaces) : Prop where
  wellFormed : WellFormed s.manager
  isolated : Isolated s.memory
  directory : ∀ p, s.manager.Live p →
    ∃ d, (s.manager.pcb p).pageDirectory = some d ∧ IsProcessDirectory s.memory d
  noLeak : s.NoLeak

/-- The current process is in the table, so its directory can be seen. -/
lemma Inv.current (h : Inv s) (hc : s.manager.currentProcess = some c) :
    s.manager.Live c ∧
      ∃ d, (s.manager.pcb c).pageDirectory = some d ∧ IsProcessDirectory s.memory d ∧ s.Visible d := by
  have hlive : s.manager.Live c := by
    obtain ⟨Q, hq⟩ := h.wellFormed
    exact ((hq.running c).1 hc).1
  obtain ⟨d, hd, hdir⟩ := h.directory c hlive
  obtain ⟨pid, hpid⟩ := hlive
  exact ⟨⟨pid, hpid⟩, d, hd, hdir, .inr ⟨pid, c, hpid, hd⟩⟩

/-- The memory may change as long as no frame is leaked. -/
lemma Inv.of_memory (h : Inv s) (hk : Kept s.memory v) (ha : v.Accounted s.Visible) :
    Inv { s with memory := v } := by
  refine ⟨h.wellFormed, hk.isolated, fun p hp => ?_, ?_⟩
  · obtain ⟨d, hd, hdir⟩ := h.directory p hp
    exact ⟨d, hd, hdir.of_same hk.same⟩
  · intro f hf
    obtain ⟨slot, hvis, hslot⟩ := ha f hf
    refine ⟨slot, ?_, hslot⟩
    rcases hvis with hkernel | hproc
    · exact .inl (hkernel.trans hk.same.kernelDirectory.symm)
    · exact .inr hproc

/-! ## The calls of the process manager -/

/-- A call that creates no process keeps the invariant, if the processes it takes off the table have no
page mapped. -/
lemma Inv.call (h : Inv s) {c : Call} (hc : ¬ c.Creates) (hpos : s.calls.Possible c)
    (hkeep : s.KeepsFrames (.other c)) {calls : CallState} (hcall : s.calls.call c = some calls) :
    Inv { s with calls := calls } := by
  obtain ⟨calls', hcall', hwf⟩ := wellFormed_call h.wellFormed hpos hkeep.1
  obtain rfl : calls = calls' := Option.some.inj (hcall.symm.trans hcall')
  obtain ⟨hdir, hsub, hdue⟩ := keeps_call isFixed_pageDirectory hc hcall
  refine ⟨hwf, h.isolated, fun p ⟨i, hi⟩ => ?_, fun f hf => ?_⟩
  · obtain ⟨d, hd, hdd⟩ := h.directory p ⟨i, hsub i p hi⟩
    exact ⟨d, (hdir p).trans hd, hdd⟩
  · obtain ⟨slot, hvis, hslot⟩ := h.noLeak f hf
    refine ⟨slot, ?_, hslot⟩
    rcases hvis with hkernel | ⟨pid, p, hp, hd⟩
    · exact .inl hkernel
    · refine .inr ⟨pid, p, ?_, (hdir p).trans hd⟩
      -- a process that is forgotten has no page mapped, so it is not the one that maps the frame
      rcases processes_call h.wellFormed hcall hp with hkept | ⟨-, hterm⟩
      · exact hkept
      · by_cases hclean : s.calls.CleansUp c
        · have := hkeep.2 hclean pid p slot.directory hp hterm hd slot rfl
          rw [hslot] at this
          simp at this
        · show calls.manager.processes pid = some p
          rw [(hdue hclean).1]
          exact hp

/-! ## System calls and page faults -/

/-- Rounding a size twice is rounding it once. -/
lemma pageRound_pageRound (n : ℕ) : pageRound (pageRound n) = pageRound n := by
  simp only [pageRound, pageAlign, Word32.add, show pageSize = 4096 from rfl]
  omega

/-- A region record changes neither the queues nor the directories. -/
lemma Inv.addRegion (h : Inv s) (hc : s.manager.currentProcess = some c) (region : MemoryRegion) :
    Inv (s.addRegion c region) := by
  have hdir : Keeps Process.pageDirectory s.manager (s.addRegion c region).manager :=
    keeps_modify (f := fun x => { x with memoryRegions := region :: x.memoryRegions }) c fun _ => rfl
  refine ⟨?_, h.isolated, fun p hp => ?_, fun f hf => ?_⟩
  · exact h.wellFormed.modify_current hc
      (fun x => { x with memoryRegions := region :: x.memoryRegions }) rfl rfl rfl
  · obtain ⟨d, hd, hdd⟩ := h.directory p hp
    exact ⟨d, (hdir p).trans hd, hdd⟩
  · obtain ⟨slot, hvis, hslot⟩ := h.noLeak f hf
    refine ⟨slot, ?_, hslot⟩
    rcases hvis with hkernel | ⟨pid, p, hp, hd⟩
    · exact .inl hkernel
    · exact .inr ⟨pid, p, hp, (hdir p).trans hd⟩

/-- `mmap` keeps the invariant if it maps no page that is mapped. -/
lemma Inv.mmap (h : Inv s) {addr len prot flags fd : ℕ} {file region : Bool}
    (hkeep : s.KeepsFrames (.mmap addr len prot flags fd file region)) :
    Inv (s.mmap addr len prot flags fd file region).1 := by
  rw [Spaces.mmap]
  cases hc : s.manager.currentProcess with
  | none => exact h
  | some c =>
    obtain ⟨-, d, hd, hdir, hvis⟩ := h.current hc
    dsimp only
    by_cases hlen : len = 0
    · rw [if_pos hlen]
      exact h
    by_cases hfile : mapsFile flags fd = true ∧ file = false
    · rw [if_neg hlen, if_pos hfile]
      exact h
    have hopen : mapsFile flags fd = true → file = true := by
      intro hmaps
      by_contra hf
      exact hfile ⟨hmaps, by simpa using hf⟩
    have hfree := hkeep c d hc hd hlen hopen
    rw [← pageRound_pageRound] at hfree
    have hacc := h.noLeak.vmmAllocatePages h.isolated hdir hvis (mmapFlags prot) hfree
    have hkept := h.isolated.vmmAllocatePages hdir addr (pageRound len) (mmapFlags prot)
    rw [if_neg hlen, if_neg hfile, hd]
    rcases hres : s.memory.vmmAllocatePages d addr (pageRound len) (mmapFlags prot) with ⟨v, ok⟩
    rw [hres] at hacc hkept
    simp only [hres]
    cases ok with
    | false => exact h.of_memory hkept hacc
    | true =>
      cases region with
      | true => exact (h.of_memory hkept hacc).addRegion hc _
      | false =>
        have hlive := (hdir.of_same hkept.same).live
        exact h.of_memory (hkept.trans (hkept.isolated.vmmFreePages hlive addr (pageRound len)))
          (hacc.vmmFreePages hkept.isolated hlive addr (pageRound len))

/-- `munmap` keeps the invariant. -/
lemma Inv.munmap (h : Inv s) (addr len : ℕ) : Inv (s.munmap addr len).1 := by
  rw [Spaces.munmap]
  cases hc : s.manager.currentProcess with
  | none => exact h
  | some c =>
    obtain ⟨-, d, hd, hdir, -⟩ := h.current hc
    dsimp only
    split_ifs
    · exact h
    · simp only [hd]
      exact h.of_memory (h.isolated.vmmFreePages hdir.live addr (pageRound len))
        (h.noLeak.vmmFreePages h.isolated hdir.live addr (pageRound len))

/-- `page_fault_handler` keeps the invariant if it gives up no frame. It terminates the current process
only. -/
lemma Inv.pageFault (h : Inv s) {address : ℕ} {code : FaultCode}
    (hkeep : s.KeepsFrames (.fault address code)) (hstep : s.pageFault address code = some s') :
    Inv s' := by
  rw [Spaces.pageFault] at hstep
  split_ifs at hstep with huser
  cases hc : s.manager.currentProcess with
  | none => simp [hc] at hstep
  | some c =>
    obtain ⟨-, d, hd, hdir, hvis⟩ := h.current hc
    simp only [hc, hd] at hstep
    have hacc := h.noLeak.pageFaultHandler h.isolated hdir hvis (hkeep c d hc hd)
    have hkept := h.isolated.pageFaultHandler hdir (s.manager.pcb c).memoryRegions address code
    rcases hres : s.memory.pageFaultHandler d (s.manager.pcb c).memoryRegions address code with ⟨v, ok⟩
    rw [hres] at hacc hkept hstep
    have hmem := h.of_memory hkept hacc
    cases ok with
    | true =>
      obtain rfl := Option.some.inj hstep
      exact hmem
    | false =>
      obtain ⟨calls, hcall, rfl⟩ := Option.map_eq_some_iff.1 hstep
      have hterm : s.calls.TerminatesUnqueued (.terminate (s.manager.pcb c).pid (-1)) :=
        CallState.TerminatesCurrent.unqueued h.wellFormed (congrArg (Option.map _) hc)
      exact hmem.call (c := .terminate (s.manager.pcb c).pid (-1)) (fun hf => hf) trivial
        ⟨hterm, fun hf => hf.elim⟩ hcall

/-! ## Creation -/

/-- What `create_process` does to the memory: the directories that exist stay, and the new directory is
that of a process or, if the creation fails, is destroyed with nothing mapped. -/
structure CreatedSpace (v w : VirtualMemory) (d : Option ℕ) (ok : Bool) (visible : ℕ → Prop) :
    Prop where
  isolated : Isolated w
  kernel : w.kernelDirectory = v.kernelDirectory
  live : ∀ x ∈ v.live, x ∈ w.live
  failed : ok = false → w.Accounted visible
  created : ok = true → ∃ x, d = some x ∧ IsProcessDirectory w x ∧
    w.Accounted fun y => visible y ∨ y = x

/-- Destroying a new directory with nothing mapped is as if it had not been created. -/
lemma createdSpace_destroy {visible : ℕ → Prop} (hw : Isolated w)
    (hkernel : w.kernelDirectory = v.kernelDirectory) (hnew : d ∉ v.live)
    (hlive : ∀ x ∈ v.live, x ∈ w.live) (hd : d ≠ w.kernelDirectory)
    (ha : w.Accounted fun y => visible y ∨ y = d)
    (hempty : ∀ slot : Slot, slot.directory = d → w.named slot = none) :
    CreatedSpace v (w.pdDestroy d) (some d) false visible := by
  have hdestroy : w.pdDestroy d = { w with live := w.live.erase d } := by rw [pdDestroy, if_neg hd]
  refine ⟨hw.pdDestroy d, ?_, fun x hx => ?_, fun _ f hf => ?_, fun hf => by simp at hf⟩
  · rw [hdestroy]
    exact hkernel
  · rw [hdestroy]
    refine (List.mem_erase_of_ne ?_).2 (hlive x hx)
    rintro rfl
    exact hnew hx
  · obtain ⟨slot, hvis, hslot⟩ := ha.pdDestroy hempty f hf
    refine ⟨slot, hvis.resolve_right fun he => ?_, hslot⟩
    rw [hdestroy, named] at hslot
    split_ifs at hslot with hcond
    obtain ⟨hmem, hcond⟩ := hcond
    have hold := hempty slot he
    rw [named, if_pos ⟨List.mem_of_mem_erase hmem, hcond⟩] at hold
    simp at hold

/-- The page directory and the user stack of a new process. -/
lemma createSpace_spec (h : Isolated v) {visible : ℕ → Prop} (ha : v.Accounted visible)
    (privilege : PrivilegeLevel) (kernelStack : Bool) :
    CreatedSpace v (createSpace v privilege kernelStack).1
        (createSpace v privilege kernelStack).2.1 (createSpace v privilege kernelStack).2.2 visible ∧
      ((createSpace v privilege kernelStack).2.2 = true → kernelStack = true) ∧
      ((createSpace v privilege kernelStack).2.2 = false → kernelStack = true →
        privilege = .userMode ∨ (createSpace v privilege kernelStack).2.1 = none) := by
  have hiso := h.pdCreate
  have hacc := ha.pdCreate h
  obtain ⟨hframes, hkernel, hlive⟩ := pdCreate_frame v
  have hspec := fun d => h.pdCreate_spec (d := d)
  rw [createSpace]
  rcases hres : v.pdCreate with ⟨w, r⟩
  rw [hres] at hiso hacc hkernel hlive hspec
  cases r with
  | none => exact ⟨⟨hiso, hkernel, hlive, fun _ => hacc, fun hf => by simp at hf⟩, by simp, by simp⟩
  | some d =>
    obtain ⟨hnew, hdir, hempty⟩ := hspec d rfl
    have hacc' : w.Accounted fun y => visible y ∨ y = d := by
      intro f hf
      obtain ⟨slot, hvis, hslot⟩ := hacc f hf
      exact ⟨slot, .inl hvis, hslot⟩
    dsimp only
    cases kernelStack with
    | false =>
      exact ⟨createdSpace_destroy hiso hkernel hnew hlive hdir.not_kernel hacc' hempty, by simp, by simp⟩
    | true =>
      by_cases huser : privilege = .userMode
      · have hfree : w.RangeFree d (pageAlign userStackVirtual)
            (pageRound userStackSize / pageSize) 0 := by
          intro j _
          rw [← Bool.not_eq_true, isMapped_iff hdir.live, not_not]
          exact hempty _ rfl
        have hstack := hacc'.vmmAllocatePages hiso hdir (.inr rfl) stackRegion.flags hfree
        have hkept := hiso.vmmAllocatePages hdir userStackVirtual userStackSize stackRegion.flags
        have hfail := vmmAllocatePages_failed hiso hdir hempty userStackVirtual userStackSize
          stackRegion.flags
        simp only [Bool.true_eq_false, if_false, if_pos huser]
        rcases hal : w.vmmAllocatePages d userStackVirtual userStackSize stackRegion.flags with ⟨u, ok⟩
        rw [hal] at hstack hkept hfail
        have hkernel' : u.kernelDirectory = v.kernelDirectory :=
          hkept.same.kernelDirectory.trans hkernel
        have hlive' : ∀ x ∈ v.live, x ∈ u.live := by
          intro x hx
          rw [hkept.same.live]
          exact hlive x hx
        have hdir' := hdir.of_same hkept.same
        cases ok with
        | true =>
          exact ⟨⟨hkept.isolated, hkernel', hlive', fun hf => by simp at hf,
            fun _ => ⟨d, rfl, hdir', hstack⟩⟩, by simp, by simp⟩
        | false =>
          exact ⟨createdSpace_destroy hkept.isolated hkernel' hnew hlive' hdir'.not_kernel hstack
            (hfail rfl), by simp, fun _ _ => .inl huser⟩
      · simp only [Bool.true_eq_false, if_false, if_neg huser]
        exact ⟨⟨hiso, hkernel, hlive, fun hf => by simp at hf, fun _ => ⟨d, rfl, hdir, hacc'⟩⟩,
          by simp, by simp⟩

/-- A creation that fails changes neither the table nor the directories of the processes in it. -/
lemma Inv.create_failed (h : Inv s) {args : CreateArgs} {alloc : CreateAlloc} {m : ProcessManager}
    {e : CreateError} (hpos : ∀ p, alloc.process = some p → ¬ s.manager.Live p)
    (hc : s.manager.createProcess args alloc = some (m, .error e)) (hw : Isolated w)
    (hkernel : w.kernelDirectory = s.memory.kernelDirectory)
    (hlive : ∀ x ∈ s.memory.live, x ∈ w.live) (ha : w.Accounted s.Visible) :
    Inv { calls := { s.calls with manager := m }, memory := w } := by
  obtain ⟨l, hm, -⟩ := createProcess_error hc
  have hpcb : m.pcb = s.manager.pcb := by rw [hm]
  have hproc : m.processes = s.manager.processes := by rw [hm]
  obtain ⟨m', res, hc', hwf⟩ := h.wellFormed.createProcess args alloc hpos
  obtain ⟨rfl, -⟩ := Prod.ext_iff.1 (Option.some.inj (hc.symm.trans hc'))
  refine ⟨hwf, hw, fun p ⟨i, hi⟩ => ?_, fun f hf => ?_⟩
  · obtain ⟨d, hd, hdir⟩ := h.directory p ⟨i, by rw [← hproc]; exact hi⟩
    refine ⟨d, ?_, hlive d hdir.live, ?_⟩
    · show (m.pcb p).pageDirectory = some d
      rw [hpcb]
      exact hd
    · rw [hkernel]
      exact hdir.not_kernel
  · obtain ⟨slot, hvis, hslot⟩ := ha f hf
    refine ⟨slot, ?_, hslot⟩
    rcases hvis with hk | ⟨pid, p, hp, hd⟩
    · exact .inl (hk.trans hkernel.symm)
    · refine .inr ⟨pid, p, ?_, ?_⟩
      · show m.processes pid = some p
        rw [hproc]
        exact hp
      · show (m.pcb p).pageDirectory = some slot.directory
        rw [hpcb]
        exact hd

/-- A creation that succeeds adds a process with the new directory. -/
lemma Inv.create_succeeded (h : Inv s) {args : CreateArgs} {alloc : CreateAlloc} {m : ProcessManager}
    {pid : ℕ} (hpos : ∀ p, alloc.process = some p → ¬ s.manager.Live p)
    (hc : s.manager.createProcess args alloc = some (m, .ok pid)) (hd : alloc.pageDirectory = some d)
    (hw : Isolated w) (hkernel : w.kernelDirectory = s.memory.kernelDirectory)
    (hlive : ∀ x ∈ s.memory.live, x ∈ w.live) (hdir : IsProcessDirectory w d)
    (ha : w.Accounted fun y => s.Visible y ∨ y = d) :
    Inv { calls := { s.calls with manager := m }, memory := w } := by
  obtain ⟨m', res, hc', hwf⟩ := h.wellFormed.createProcess args alloc hpos
  obtain ⟨rfl, -⟩ := Prod.ext_iff.1 (Option.some.inj (hc.symm.trans hc'))
  obtain ⟨hfree, p, d', k, hp, hadd, hd', -⟩ := createProcess_ok hc
  obtain rfl : d = d' := Option.some.inj (hd.symm.trans hd')
  obtain ⟨hkeep, hproc⟩ := addProcess_keeps isFixed_pageDirectory.isStatic hadd
  have hnotlive := hpos p hp
  have hnew : (m.pcb p).pageDirectory = some d := by
    rw [hkeep p]
    show (Function.update s.manager.pcb p _ p).pageDirectory = some d
    rw [Function.update_self]
    rfl
  have hold : ∀ r, r ≠ p → (m.pcb r).pageDirectory = (s.manager.pcb r).pageDirectory := by
    intro r hr
    rw [hkeep r]
    show (Function.update s.manager.pcb p _ r).pageDirectory = _
    rw [Function.update_of_ne hr]
  have hself : m.processes pid = some p := by
    rw [hproc]
    exact Function.update_self ..
  have hother : ∀ i, i ≠ pid → m.processes i = s.manager.processes i := by
    intro i hi
    rw [hproc]
    exact Function.update_of_ne hi ..
  refine ⟨hwf, hw, fun r ⟨i, hi⟩ => ?_, fun f hf => ?_⟩
  · by_cases hip : i = pid
    · rw [hip] at hi
      obtain rfl : p = r := Option.some.inj (hself.symm.trans hi)
      exact ⟨d, hnew, hdir⟩
    · have hi' : s.manager.processes i = some r := by
        rw [← hother i hip]
        exact hi
      obtain ⟨x, hx, hxd⟩ := h.directory r ⟨i, hi'⟩
      have hr : r ≠ p := by
        rintro rfl
        exact hnotlive ⟨i, hi'⟩
      refine ⟨x, (hold r hr).trans hx, hlive x hxd.live, ?_⟩
      rw [hkernel]
      exact hxd.not_kernel
  · obtain ⟨slot, hvis, hslot⟩ := ha f hf
    refine ⟨slot, ?_, hslot⟩
    rcases hvis with (hk | ⟨i, r, hi, hr⟩) | hsd
    · exact .inl (hk.trans hkernel.symm)
    · have hip : i ≠ pid := by
        rintro rfl
        obtain ⟨Q, hq⟩ := h.wellFormed
        obtain ⟨hlt, hbit⟩ := findFreePid_eq_some hfree
        have := hq.bitmap i hlt
        rw [hbit, hi] at this
        simp at this
      have hrp : r ≠ p := by
        rintro rfl
        exact hnotlive ⟨i, hi⟩
      exact .inr ⟨i, r, (hother i hip).trans hi, (hold r hrp).trans hr⟩
    · exact .inr ⟨pid, p, hself, by rw [hsd]; exact hnew⟩

/-- `create_process` keeps the invariant. -/
lemma Inv.createProcess (h : Inv s) {args : CreateArgs} {process kernelStack : Option Ptr}
    {region : Bool} (hpos : ∀ p, process = some p → ¬ s.manager.Live p)
    (hstep : s.createProcess args process kernelStack region = some s') : Inv s' := by
  rw [Spaces.createProcess] at hstep
  split_ifs at hstep with hearly
  · obtain ⟨calls, hcall, rfl⟩ := Option.map_eq_some_iff.1 hstep
    obtain ⟨⟨m, res⟩, hc, rfl⟩ := Option.map_eq_some_iff.1 hcall
    cases res with
    | ok pid =>
      obtain ⟨-, p, d, k, -, -, hd, -⟩ := createProcess_ok hc
      simp at hd
    | error e => exact h.create_failed hpos hc h.isolated rfl (fun x hx => hx) h.noLeak
  · obtain ⟨hentry, hpid, hproc⟩ := not_or.1 hearly |>.imp_right not_or.1
    obtain ⟨hspace, hstack, hnone⟩ :=
      createSpace_spec h.isolated h.noLeak args.privilege kernelStack.isSome
    rcases hres : createSpace s.memory args.privilege kernelStack.isSome with ⟨w, d, ok⟩
    rw [hres] at hspace hstack hnone hstep
    obtain ⟨calls, hcall, rfl⟩ := Option.map_eq_some_iff.1 hstep
    obtain ⟨⟨m, res⟩, hc, rfl⟩ := Option.map_eq_some_iff.1 hcall
    cases res with
    | error e =>
      cases ok with
      | false =>
        exact h.create_failed hpos hc hspace.isolated hspace.kernel hspace.live (hspace.failed rfl)
      | true =>
        obtain ⟨x, hx, -⟩ := hspace.created rfl
        have hk : kernelStack ≠ none := Option.isSome_iff_ne_none.1 (hstack rfl)
        refine absurd hc (createProcess_ne_error hentry hpid hproc ?_ hk rfl)
        show d ≠ none
        rw [show d = some x from hx]
        simp
    | ok pid =>
      obtain ⟨-, p, d', k, -, -, hd, hk, hu⟩ := createProcess_ok hc
      have hd : d = some d' := hd
      have hk : kernelStack = some k := hk
      cases ok with
      | false =>
        have hsome : kernelStack.isSome = true := Option.isSome_iff_exists.2 ⟨k, hk⟩
        rcases hnone rfl hsome with huser | hd'
        · simpa using hu huser
        · rw [show d = none from hd'] at hd
          simp at hd
      | true =>
        obtain ⟨x, hx, hdir, hacc⟩ := hspace.created rfl
        obtain rfl : d' = x := Option.some.inj (hd.symm.trans hx)
        exact h.create_succeeded hpos hc hd hspace.isolated hspace.kernel hspace.live hdir hacc

/-! ## Runs -/

/-- A call that gives up no frame keeps the invariant. -/
lemma Inv.step (h : Inv s) {c : MemoryCall} (hc : s.Possible c ∧ s.KeepsFrames c)
    (hstep : s.step c = some s') : Inv s' := by
  cases c with
  | create args process kernelStack region => exact h.createProcess hc.1 hstep
  | mmap addr len prot flags fd file region =>
    obtain rfl := Option.some.inj hstep
    exact h.mmap hc.2
  | munmap addr len =>
    obtain rfl := Option.some.inj hstep
    exact h.munmap addr len
  | fault address code => exact h.pageFault hc.2 hstep
  | other c =>
    obtain ⟨calls, hcall, rfl⟩ := Option.map_eq_some_iff.1 hstep
    exact h.call hc.1.1 hc.1.2 hc.2 hcall

/-- `pd_map_page` hands out no frame. -/
lemma frameManager_pdMapPage (v : VirtualMemory) (d address physicalAddress flags : ℕ) :
    (v.pdMapPage d address physicalAddress flags).1.frameManager = v.frameManager := by
  rw [pdMapPage, ensureTable, mallocObject]
  split_ifs
  · rfl
  · rfl
  · rfl
  · rfl

/-- Mapping the kernel's pages hands out no frame. -/
lemma frameManager_mapKernel (v : VirtualMemory) (stop fuel address : ℕ) :
    (v.mapKernel stop fuel address).frameManager = v.frameManager := by
  induction fuel generalizing v address with
  | zero => rfl
  | succ fuel ih =>
    rw [mapKernel]
    split_ifs
    · rw [ih, frameManager_pdMapPage]
    · rfl

variable (pcb : Ptr → Process) (regFrames : ℕ → RegisterState) (cr3 : Option ℕ) (wrapper : ℕ)
  (memory : ℕ → Bool) (size kernelStart kernelEnd : ℕ)

/-- No frame is in use at the start. -/
lemma inv_init (hsize : frameManagerStart + size ≤ 2 ^ 32) (hend : kernelEnd ≤ frameManagerStart) :
    Inv (init pcb regFrames cr3 wrapper memory size kernelStart kernelEnd) := by
  refine ⟨wellFormed_processManagerInit pcb regFrames cr3 wrapper,
    isolated_boot memory kernelStart hsize hend, fun p ⟨i, hi⟩ => ?_, fun f hf => ?_⟩
  · simp [init, manager, CallState.init, processManagerInit] at hi
  · obtain ⟨k, -, -, hset⟩ := hf
    rw [show (init pcb regFrames cr3 wrapper memory size kernelStart kernelEnd).memory =
      boot memory size kernelStart kernelEnd from rfl, boot, frameManager_mapKernel] at hset
    simp [PageFrameManager.pfmInit, Bitmap.test] at hset

/-- In every run of calls that give up no frame, every frame whose bit is set is named by a present page
table entry of the kernel's directory or of the directory of a process of the table. -/
theorem noLeak_of_run (hsize : frameManagerStart + size ≤ 2 ^ 32)
    (hend : kernelEnd ≤ frameManagerStart) (cs : List MemoryCall)
    (h : Run.Follows step (fun s c => s.Possible c ∧ s.KeepsFrames c)
      (init pcb regFrames cr3 wrapper memory size kernelStart kernelEnd) cs) (s : Spaces)
    (hexec : Run.exec step (init pcb regFrames cr3 wrapper memory size kernelStart kernelEnd) cs =
      some s) : s.NoLeak :=
  (Run.inv_of_exec (fun _ _ _ hi hc hstep => hi.step hc hstep)
    (inv_init pcb regFrames cr3 wrapper memory size kernelStart kernelEnd hsize hend) h hexec).noLeak

/-- A user process maps a page, unmaps it, and faults on it. -/
def quietRun : List MemoryCall :=
  [.create { privilege := .userMode } (some 100) (some 4096) true, .other (.schedule 0), .other .tick,
    .mmap 0x1000 4096 2 4 (2 ^ 32 - 1) false true, .munmap 0x1000 4096,
    .fault 0x1000 ⟨true, false, true⟩]

/-- The machine at the start, with 16 frames. -/
def start : Spaces := init (fun _ => {}) (fun _ => {}) none 0 (fun _ => true) 65536 0xFFF000 0x1000000

/-- A process can be created at the start. -/
lemma possible_create_start (args : CreateArgs) (process kernelStack : Option Ptr) (region : Bool) :
    start.Possible (.create args process kernelStack region) := by
  rintro p - ⟨i, hi⟩
  simp [start, init, manager, CallState.init, processManagerInit] at hi

/-- The frame of the page that was faulted in is in use, and none is lost. -/
theorem noLeak_of_run_quietRun :
    ∃ s, Run.exec step start quietRun = some s ∧
      Bitmap.test s.memory.frameManager.frameBitmap 2 = true ∧ s.NoLeak := by
  have hrun : Run.Follows step (fun s c => s.Possible c ∧ s.KeepsFrames c) start quietRun := by
    refine ⟨⟨possible_create_start _ _ _ _, trivial⟩, fun s₁ h₁ => ?_⟩
    obtain rfl := Option.some.inj h₁
    refine ⟨⟨⟨fun h => h, trivial⟩, trivial, fun h => h.elim⟩, fun s₂ h₂ => ?_⟩
    obtain rfl := Option.some.inj h₂
    refine ⟨⟨⟨fun h => h, trivial⟩, trivial, fun h => absurd h.2 (by decide +kernel)⟩, fun s₃ h₃ => ?_⟩
    obtain rfl := Option.some.inj h₃
    refine ⟨⟨trivial, by decide +kernel⟩, fun s₄ h₄ => ?_⟩
    obtain rfl := Option.some.inj h₄
    refine ⟨⟨trivial, trivial⟩, fun s₅ h₅ => ?_⟩
    obtain rfl := Option.some.inj h₅
    exact ⟨⟨trivial, by decide +kernel⟩, fun _ _ => trivial⟩
  have hsome : (Run.exec step start quietRun).map
      (fun s => Bitmap.test s.memory.frameManager.frameBitmap 2) = some true := by decide +kernel
  obtain ⟨s, hs, hbit⟩ := Option.map_eq_some_iff.1 hsome
  exact ⟨s, hs, hbit, noLeak_of_run _ _ _ _ _ _ _ _ (by decide) (by decide) quietRun hrun s hs⟩

/-! ## Leaks -/

/-- Mapping a frame over a page that is mapped leaves the old frame in use and in no entry. -/
lemma remap_leaks (h : Isolated v) (hd : IsProcessDirectory v d) {address f flags : ℕ}
    (hm : v.isMapped d address = true) (hman : v.Managed (v.entry d address).pageBaseAddress)
    (hcode : v.allocateFrame = (w, f * pageSize)) (hne : f * pageSize ≠ 0)
    (hok : (w.pdMapPage d address (f * pageSize) flags).2 = true) :
    (w.pdMapPage d address (f * pageSize) flags).1.Used (v.entry d address).pageBaseAddress ∧
      ∀ s, (w.pdMapPage d address (f * pageSize) flags).1.named s ≠
        some (v.entry d address).pageBaseAddress := by
  have hslot := named_of_isMapped hd.live hm
  set x := (v.entry d address).pageBaseAddress with hx
  have hused := h.exclusive.used _ x hman hslot
  rcases allocateFrame_spec h with
    hnone | ⟨w', f', hcode', hiso, hsame, -, hfree, hnamed, -, -, hgrow⟩
  · rw [hcode] at hnone
    exact absurd (Prod.ext_iff.1 hnone).2 hne
  · obtain ⟨rfl, hf⟩ := Prod.ext_iff.1 (hcode.symm.trans hcode')
    obtain rfl : f = f' := Nat.eq_of_mul_eq_mul_right (by decide) hf
    have hdw := hd.of_same hsame
    obtain ⟨-, hspace, hnew⟩ := pdMapPage_spec address hiso.shape hdw.live
      (fun hdk => absurd hdk hdw.not_kernel) (f * pageSize) flags
    rw [hok, if_pos rfl, Nat.mul_div_cancel _ (by decide)] at hnew
    refine ⟨?_, fun s hs => ?_⟩
    · rw [hspace.used]
      exact (hgrow x).2 (.inl hused)
    · rw [hnew, hnamed] at hs
      by_cases he : s = slotAt d address
      · rw [he, Function.update_self, Option.some.injEq] at hs
        exact hfree (hs ▸ hused)
      · rw [Function.update_of_ne he] at hs
        exact he (h.exclusive.unique s _ x hman hs hslot)

/-- An anonymous `mmap` of one page over a page that is mapped leaks the frame of that page. -/
lemma Inv.mmap_leaks (h : Inv s) (hc : s.manager.currentProcess = some c)
    (hd : (s.manager.pcb c).pageDirectory = some d) {addr prot : ℕ}
    (hm : s.memory.isMapped d (pageAt (pageAlign addr) 0) = true)
    (hman : s.memory.Managed (s.memory.entry d (pageAt (pageAlign addr) 0)).pageBaseAddress)
    (hframe : s.memory.allocateFrame.2 ≠ 0) : ¬ (s.mmap addr pageSize prot 4 0 false true).1.NoLeak := by
  obtain ⟨-, d', hd', hdir, -⟩ := h.current hc
  obtain rfl : d = d' := Option.some.inj (hd.symm.trans hd')
  rcases h.isolated.allocateFrame with hnone | ⟨w, f, hcode, hne, -, -, hdirs, -⟩
  · rw [hnone] at hframe
    exact absurd rfl hframe
  have hpres : (w.directories d (dirIndex (pageAt (pageAlign addr) 0))).present = true := by
    rw [hdirs]
    exact (Bool.and_eq_true_iff.1 hm).1
  have hok := pdMapPage_succeeds (mmapFlags prot) hne (.inl hpres)
  obtain ⟨hused, hnot⟩ := remap_leaks h.isolated hdir hm hman hcode hne hok
  rcases hres : w.pdMapPage d (pageAt (pageAlign addr) 0) (f * pageSize) (mmapFlags prot) with ⟨u, ok⟩
  rw [hres] at hok hused hnot
  obtain rfl : ok = true := hok
  have halloc : s.memory.vmmAllocatePages d addr (pageRound pageSize) (mmapFlags prot) = (u, true) := by
    show s.memory.allocateLoop d (pageAlign addr) (mmapFlags prot) 1 0 = _
    rw [allocateLoop, hcode]
    simp only [if_neg hne, hres]
    rfl
  have hmem : (s.mmap addr pageSize prot 4 0 false true).1.memory = u := by
    rw [Spaces.mmap, hc]
    simp only [hd, halloc]
    rfl
  intro hno
  rw [NoLeak, hmem] at hno
  obtain ⟨slot, -, hslot⟩ := hno _ hused
  exact hnot slot hslot

/-- A process maps a page, and maps it again. -/
def remapRun : List MemoryCall :=
  [.create {} (some 100) (some 4096) true, .other (.schedule 0), .mmap 0x1000 4096 2 4 0 false true]

/-- The second `mmap` of a page leaks the frame that the first one mapped. -/
theorem leak_of_remap :
    ∃ cs s, Run.Follows step Possible start cs ∧ Run.exec step start cs = some s ∧ ¬ s.NoLeak := by
  have hrun : Run.Follows step (fun s c => s.Possible c ∧ s.KeepsFrames c) start remapRun := by
    refine ⟨⟨possible_create_start _ _ _ _, trivial⟩, fun s₁ h₁ => ?_⟩
    obtain rfl := Option.some.inj h₁
    refine ⟨⟨⟨fun h => h, trivial⟩, trivial, fun h => h.elim⟩, fun s₂ h₂ => ?_⟩
    obtain rfl := Option.some.inj h₂
    exact ⟨⟨trivial, by decide +kernel⟩, fun _ _ => trivial⟩
  have hstate : (Run.exec step start remapRun).map (fun s => (s.manager.currentProcess,
      (s.manager.pcb 100).pageDirectory, s.memory.isMapped 2 (pageAt (pageAlign 0x1000) 0),
      (s.memory.entry 2 (pageAt (pageAlign 0x1000) 0)).pageBaseAddress,
      decide (s.memory.allocateFrame.2 ≠ 0), decide (0 < s.memory.frameManager.totalFrames ∧
        (s.memory.frameManager.frames 0).physicalAddress = 4096 * pageSize))) =
      some (some 100, some 2, true, 4096, true, true) := by decide +kernel
  obtain ⟨s, hs, hfacts⟩ := Option.map_eq_some_iff.1 hstate
  simp only [Prod.mk.injEq, decide_eq_true_eq] at hfacts
  obtain ⟨hc, hd, hm, hbase, hframe, htotal, haddr⟩ := hfacts
  have hinv : Inv s := Run.inv_of_exec (fun _ _ _ hi hc hstep => hi.step hc hstep)
    (inv_init _ _ _ _ _ _ _ _ (by decide) (by decide)) hrun hs
  refine ⟨remapRun ++ [.mmap 0x1000 4096 2 4 0 false true], _, ?_, Run.exec_concat hs, ?_⟩
  · exact ⟨possible_create_start _ _ _ _, fun _ _ => ⟨⟨fun h => h, trivial⟩,
      fun _ _ => ⟨trivial, fun _ _ => ⟨trivial, fun _ _ => trivial⟩⟩⟩⟩
  · exact hinv.mmap_leaks hc hd hm (by rw [hbase]; exact ⟨0, htotal, haddr⟩) hframe

end Spaces

end Jarvis
