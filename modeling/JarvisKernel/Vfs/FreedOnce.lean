import JarvisKernel.Lib.Run
import JarvisKernel.Vfs.Ownership
import JarvisKernel.Vfs.Reads

set_option relaxedAutoImplicit false
set_option autoImplicit false

/-!
# Freeing what opening allocates

Every inode, `DeviceInfo` and `FileOperations` that opening a path allocates has to be passed to `free`
once, when the descriptor is closed or the open has failed. Who frees it is not the same everywhere. The
close functions of devices free the inode, which the VFS frees again; the `DeviceInfo` of a network
device, the operations of a file that cannot be opened and those of a directory that was opened as a file
are freed by nobody.

## Main definitions

* `Jarvis.OpenPath.Audit` — the VFS, with the descriptor to which each block belongs.
* `Jarvis.OpenPath.FreedOnce` — what is wanted.
* `Jarvis.OpenPath.Careful` — the calls that free every block once.
* `Jarvis.OpenPath.Tidy` — the invariant.

## Main results

* `Jarvis.OpenPath.vfsOpen_spec`, `Jarvis.OpenPath.vfsOpendir_spec`, `Jarvis.OpenPath.vfsClose_spec` — the
  calls.
* `Jarvis.OpenPath.freedOnce_of_run` — runs of careful calls.
-/

namespace Jarvis

namespace OpenPath

variable {s₀ s : Files OpenWorld} {v : Vfs OpenWorld} {path : CString} {b i : ℕ} {fd : ℤ}

/-! ## Careful calls -/

/-- There is a descriptor without references. -/
def HasSlot (v : Vfs OpenWorld) : Prop := ∃ j < maxFileDescriptors, (v.descriptors j).refCount = 0

instance : Decidable (HasSlot v) := by unfold HasSlot; infer_instance

/-- A path that `vfs_open` may be called for: if it is an ext4 file, there is memory for reading its
inode; if it is a device with a `DeviceInfo` or the ext4 root directory, there is a descriptor. -/
def CarefulOpen (v : Vfs OpenWorld) (path : CString) : Prop :=
  match lookup v.files path with
  | (_, none) => True
  | (_, some (_, .bare)) => True
  | (s, some (_, .ext4File)) =>
    s.world.memory s.world.mallocs = true ∧ s.world.memory (s.world.mallocs + 1) = true
  | (_, some _) => HasSlot v

instance : Decidable (CarefulOpen v path) := by unfold CarefulOpen; split <;> infer_instance

/-- A path that `vfs_opendir` may be called for: one with nothing behind it, or the ext4 root directory, if
there is memory for reading its inode and for the iterator. -/
def CarefulOpendir (v : Vfs OpenWorld) (path : CString) : Prop :=
  match lookup v.files path with
  | (_, none) => True
  | (_, some (_, .bare)) => True
  | (s, some (_, .ext4Root)) =>
    s.world.memory s.world.mallocs = true ∧ s.world.memory (s.world.mallocs + 1) = true ∧
      s.world.memory (s.world.mallocs + 2) = true
  | (_, some _) => False

instance : Decidable (CarefulOpendir v path) := by unfold CarefulOpendir; split <;> infer_instance

/-- `vfs_open` or `vfs_opendir` has opened descriptor `j` with what was found: pending are the inode `i`
and, unless it is 0, `block`. -/
structure Opens (v v' : Vfs OpenWorld) (j : ℕ) (found : Found) (i block : ℕ) : Prop where
  lt : j < maxFileDescriptors
  unused : (v.descriptors j).refCount = 0
  descriptors : ∃ flags, v'.descriptors =
    Function.update v.descriptors j (Vfs.opened i (opsOf found) flags)
  progress : Progress v.files v'.files fun b => b = i ∨ b = block ∧ block ≠ 0
  refCount : (v'.files.inodes i).refCount = 1
  ne : block ≠ i

/-- `vfs_open` or `vfs_opendir` has failed, and nothing is pending. -/
structure Fails (v v' : Vfs OpenWorld) : Prop where
  descriptors : v'.descriptors = v.descriptors
  progress : Progress v.files v'.files fun _ => False

/-- If there is a descriptor, `allocate_file_descriptor` finds one. -/
lemma allocateFileDescriptor_of_hasSlot (h : HasSlot v) (inode : ℕ)
    (ops : FileOperations OpenWorld) (flags : ℕ) :
    v.allocateFileDescriptor inode ops flags ≠ (v, -1) := by
  obtain ⟨j, hj, hfree⟩ := h
  unfold Vfs.allocateFileDescriptor
  generalize hslots : List.range maxFileDescriptors = slots
  have hmem : j ∈ slots := by rw [← hslots]; exact List.mem_range.2 hj
  cases hfind : slots.find? fun i => decide ((v.descriptors i).refCount = 0) with
  | none =>
    have := List.find?_eq_none.1 hfind j hmem
    simp [hfree] at this
  | some k =>
    intro he
    have := congrArg Prod.snd he
    simp only [] at this
    omega

/-- Freeing what is behind an inode, and the inode. -/
lemma HasInode.closeFile {type : FileType} {block : ℕ} (h : HasInode s₀ s i type block)
    (hzero : block ≠ 0) :
    Progress s₀ ((s.free block).vfsDestroyInode i) fun _ => False := by
  have hfreed := h.progress.free (b := block) (.inr ⟨rfl, hzero⟩)
  refine (hfreed.vfsDestroyInode (i := i) ⟨.inl rfl, Ne.symm h.ne⟩ ?_).congr fun b => ?_
  · rw [free_inodes]
    exact h.refCount
  · constructor
    · rintro ⟨⟨rfl | ⟨rfl, -⟩, hne⟩, hni⟩
      · exact hni rfl
      · exact hne rfl
    · exact False.elim

/-- The `open` function of what was found, in a careful call. -/
lemma openOp_spec {type : FileType} {block : ℕ} {found : Found} (h : HasInode s₀ s i type block)
    (hmounted : found = .ext4File ∨ found = .ext4Root → s.world.ext4Mounted = true)
    (hmemory : found = .ext4File → s.world.memory s.world.mallocs = true ∧
      s.world.memory (s.world.mallocs + 1) = true) (flags : ℕ) :
    ∃ s', ((opsOf found).openOp.elim (s, (0 : ℤ)) fun f => f s i flags) = (s', 0) ∧
      HasInode s₀ s' i type block := by
  cases found with
  | ext4File =>
    obtain ⟨hblock, hbuffer⟩ := hmemory rfl
    exact ext4FileOpen_spec h flags (hmounted (.inl rfl)) hblock hbuffer
  | bare => exact ⟨s, rfl, h⟩
  | otherDevice => exact ⟨s, rfl, h⟩
  | device => exact ⟨s, rfl, h⟩
  | ext4Root => exact ⟨s, rfl, h⟩

/-- **A careful `vfs_open`** fails and leaves nothing pending, or opens a descriptor.

**Proof sketch.** The lookup leaves the inode and what is behind it pending. The `open` function of an
ext4 file succeeds. If there is no descriptor, nothing is behind the inode, or it is a file, whose `close`
function frees the operations; then the inode is destroyed. -/
lemma vfsOpen_spec (hfresh : Fresh v.files) (hcareful : CarefulOpen v path) (flags : ℕ) :
    (∃ v', Vfs.vfsOpen resolve v path flags = (v', -1) ∧ Fails v v') ∨
      ∃ v', ∃ j : ℕ, ∃ i found block, Vfs.vfsOpen resolve v path flags = (v', (j : ℤ)) ∧
        (lookup v.files path).2 = some (i, found) ∧ Opens v v' j found i block ∧
        (found = .bare → block = 0) ∧
        (found = .ext4File → block ≠ 0 ∧ v'.files.world.privateData i = block) := by
  have hspec := lookup_spec hfresh path
  rw [CarefulOpen] at hcareful
  rcases hlook : lookup v.files path with ⟨s, _ | ⟨i, found⟩⟩
  · rw [hlook] at hspec
    refine .inl ⟨{ v with files := s }, ?_, rfl, hspec⟩
    simp only [Vfs.vfsOpen, resolve, hlook]
  rw [hlook] at hspec hcareful
  obtain ⟨type, block, hinode, hbare, -, hmounted⟩ := hspec
  have hmemory : found = .ext4File → s.world.memory s.world.mallocs = true ∧
      s.world.memory (s.world.mallocs + 1) = true := by
    rintro rfl
    exact hcareful
  obtain ⟨s', hopen, hinode'⟩ := openOp_spec hinode hmounted hmemory flags
  simp only [Vfs.vfsOpen, resolve, hlook, hopen]
  rw [if_neg (by simp)]
  rcases Vfs.allocateFileDescriptor_cases { v with files := s' } i (opsOf found) flags with
    hfull | ⟨j, hj, hunused, hcode⟩
  · simp only [hfull]
    have hnoSlot : ¬ HasSlot v := fun hslot =>
      allocateFileDescriptor_of_hasSlot (v := { v with files := s' }) hslot i (opsOf found) flags hfull
    refine .inl ⟨_, rfl, rfl, ?_⟩
    cases found with
    | bare =>
      obtain rfl := hbare.2 rfl
      exact hinode'.vfsDestroyInode
    | ext4File =>
      have hzero : block ≠ 0 := fun h0 => by simpa using hbare.1 h0
      show Progress v.files ((s'.free (s'.world.privateData i)).vfsDestroyInode i) _
      rw [hinode'.privateData]
      exact hinode'.closeFile hzero
    | otherDevice => exact absurd hcareful hnoSlot
    | device => exact absurd hcareful hnoSlot
    | ext4Root => exact absurd hcareful hnoSlot
  · have hnonneg : ¬ (j : ℤ) < 0 := by omega
    simp only [hcode, if_neg hnonneg]
    refine .inr ⟨_, j, i, found, block, rfl, rfl, ⟨hj, hunused, ⟨flags, rfl⟩, hinode'.progress,
      hinode'.refCount, hinode'.ne⟩, hbare.2, ?_⟩
    rintro rfl
    exact ⟨fun h0 => by simpa using hbare.1 h0, hinode'.privateData⟩

/-- **A careful `vfs_opendir`** fails and leaves nothing pending, or opens a descriptor for the root
directory, of which only the inode is pending. -/
lemma vfsOpendir_spec (hfresh : Fresh v.files) (hcareful : CarefulOpendir v path) :
    (∃ v', Vfs.vfsOpendir resolve v path = (v', -1) ∧ Fails v v') ∨
      ∃ v', ∃ j : ℕ, ∃ i, Vfs.vfsOpendir resolve v path = (v', (j : ℤ)) ∧
        (lookup v.files path).2 = some (i, .ext4Root) ∧ Opens v v' j .ext4Root i 0 := by
  have hspec := lookup_spec hfresh path
  rw [CarefulOpendir] at hcareful
  rcases hlook : lookup v.files path with ⟨s, _ | ⟨i, found⟩⟩
  · rw [hlook] at hspec
    refine .inl ⟨{ v with files := s }, ?_, rfl, hspec⟩
    simp only [Vfs.vfsOpendir, resolve, hlook]
  rw [hlook] at hspec hcareful
  obtain ⟨type, block, hinode, hbare, hdir, hmounted⟩ := hspec
  simp only [Vfs.vfsOpendir, resolve, hlook, hinode.type_eq]
  cases found with
  | bare =>
    obtain rfl := hbare.2 rfl
    rw [if_pos (by simp [hdir])]
    exact .inl ⟨_, rfl, rfl, hinode.vfsDestroyInode⟩
  | otherDevice => exact hcareful.elim
  | device => exact hcareful.elim
  | ext4File => exact hcareful.elim
  | ext4Root =>
    obtain rfl := hdir.2 rfl
    obtain ⟨hmemory, hbuffer, hiterator⟩ := hcareful
    have hzero : block ≠ 0 := fun h0 => by simpa using hbare.1 h0
    obtain ⟨s', hopen, hprogress, hone, hmounted', b, hpriv, hlt, hle, hb⟩ :=
      ext4DirOpendir_spec hinode hzero (hmounted (.inr rfl)) hmemory hbuffer hiterator
    have hcall : ((opsOf .ext4Root).opendirOp.elim (s, (0 : ℤ)) fun f => f s i) = (s', 0) := hopen
    rw [if_neg (by simp)]
    simp only [hcall]
    rw [if_neg (by simp)]
    rcases Vfs.allocateFileDescriptor_cases { v with files := s' } i (opsOf .ext4Root) Vfs.oRdonly with
      hfull | ⟨j, hj, hunused, hcode⟩
    · simp only [hfull]
      refine .inl ⟨_, rfl, rfl, ?_⟩
      show Progress v.files ((ext4DirClosedir s' i).1.vfsDestroyInode i) _
      rw [ext4DirClosedir, if_neg (by simp [hmounted']), hpriv]
      have hfreed := hprogress.freeUntracked hlt hle hb
      have hi := (hprogress.lt i rfl).1
      refine ((hfreed.setPrivateData hi).vfsDestroyInode rfl ?_).congr fun c => ?_
      · show ((s'.free b).inodes i).refCount = 1
        rw [free_inodes]
        exact hone
      · exact ⟨fun hc => hc.2 hc.1, False.elim⟩
    · have hnonneg : ¬ (j : ℤ) < 0 := by omega
      simp only [hcode, if_neg hnonneg]
      refine .inr ⟨_, j, i, rfl, rfl, hj, hunused, ⟨Vfs.oRdonly, rfl⟩, ?_, hone, ?_⟩
      · exact hprogress.congr fun c => by simp
      · have hi := (hprogress.lt i rfl).1
        omega

/-! ## Closing -/

/-- What closing a descriptor with inode `i` and what was found frees. -/
lemma close_frees (found : Found) (hi : i ≠ 0) (hone : (s.inodes i).refCount = 1)
    (hdevice : found ≠ .device) :
    ((Vfs.callClose s (opsOf found) i).vfsDestroyInode i).world = s.world ∧
      (∀ c, c ≠ i → ((Vfs.callClose s (opsOf found) i).vfsDestroyInode i).inodes c = s.inodes c) ∧
      ((Vfs.callClose s (opsOf found) i).vfsDestroyInode i).frees =
        ((if found = .ext4File then s.free (s.world.privateData i) else s).free i).frees := by
  obtain ⟨s', hcall⟩ : ∃ s', s' = if found = .ext4File then s.free (s.world.privateData i) else s :=
    ⟨_, rfl⟩
  have hclose : Vfs.callClose s (opsOf found) i = s' := by
    rw [hcall]
    cases found with
    | device => exact absurd rfl hdevice
    | ext4File => rfl
    | bare => rfl
    | otherDevice => rfl
    | ext4Root => rfl
  have hworld : s'.world = s.world := by
    rw [hcall]
    split_ifs
    · exact free_world
    · rfl
  have hinodes : s'.inodes = s.inodes := by
    rw [hcall]
    split_ifs
    · exact free_inodes
    · rfl
  have hone' : (s'.inodes i).refCount = 1 := by rw [hinodes, hone]
  rw [hclose, ← hcall, vfsDestroyInode_of_refCount hi hone']
  refine ⟨?_, fun c hc => ?_, ?_⟩
  · rw [free_world]
    exact hworld
  · rw [free_inodes, ← hinodes]
    exact Function.update_of_ne hc _ _
  · rw [free_of_ne hi, free_of_ne hi]
    rfl

/-! ## Audited runs -/

/-- The VFS with a record of its use: the descriptor to which each block belongs, `none` if the call that
allocated it has failed or the descriptor was closed; and for each open descriptor what was found for it,
and whether it was opened by `vfs_opendir`. -/
structure Audit where
  vfs : Vfs OpenWorld
  owner : ℕ → Option ℤ
  sessions : ℤ → Option (Found × Bool)

/-- Calls of the VFS. -/
inductive FileCall where
  | openFile (path : CString) (flags : ℕ)
  | opendir (path : CString)
  | close (fd : ℤ)

/-- Record a call of `vfs_open` or `vfs_opendir` that has returned `fd`. -/
def Audit.record (a : Audit) (v : Vfs OpenWorld) (fd : ℤ) (path : CString) (dir : Bool) : Audit where
  vfs := v
  owner b :=
    if a.vfs.files.world.mallocs < b ∧ b ≤ v.files.world.mallocs then
      if fd < 0 then none else some fd
    else a.owner b
  sessions :=
    if fd < 0 then a.sessions
    else
      Function.update a.sessions fd
        ((lookup a.vfs.files path).2.map fun result => (result.2, dir))

/-- One call. -/
def fileStep (a : Audit) : FileCall → Option Audit
  | .openFile path flags =>
    match Vfs.vfsOpen resolve a.vfs path flags with
    | (v, fd) => some (a.record v fd path false)
  | .opendir path =>
    match Vfs.vfsOpendir resolve a.vfs path with
    | (v, fd) => some (a.record v fd path true)
  | .close fd =>
    match Vfs.vfsClose a.vfs fd with
    | (v, result) =>
      if result < 0 then some { a with vfs := v }
      else
        some
          { vfs := v
            owner := fun b => if a.owner b = some fd then none else a.owner b
            sessions := Function.update a.sessions fd none }

/-- The beginning: the VFS is initialised, and no block was allocated for it. -/
def Audit.start (w : OpenWorld) : Audit where
  vfs := Vfs.vfsInit
    { world := { w with mallocs := 0, tracked := fun _ => false }
      inodes := fun _ => {} }
  owner _ := none
  sessions _ := none

/-- No inode, `DeviceInfo` or `FileOperations` was freed twice, and each one was freed that does not
belong to an open descriptor. -/
def FreedOnce (a : Audit) : Prop :=
  ∀ b, a.vfs.files.world.tracked b = true →
    a.vfs.files.frees b ≤ 1 ∧ (a.owner b = none → a.vfs.files.frees b = 1)

/-- A descriptor that `vfs_close` may be called for: it is not open, nothing is behind its inode but what
the close function of an ext4 file frees, or `vfs_opendir` has opened it. -/
def CarefulClose (a : Audit) (fd : ℤ) : Prop :=
  match a.sessions fd with
  | none => True
  | some (.bare, _) => True
  | some (.ext4File, _) => True
  | some (.ext4Root, dir) => dir = true
  | some _ => False

instance {a : Audit} : Decidable (CarefulClose a fd) := by unfold CarefulClose; split <;> infer_instance

/-- The calls that free every block once. -/
def Careful (a : Audit) : FileCall → Prop
  | .openFile path _ => CarefulOpen a.vfs path
  | .opendir path => CarefulOpendir a.vfs path
  | .close fd => CarefulClose a fd

instance : ∀ (a : Audit) (c : FileCall), Decidable (Careful a c)
  | a, .openFile path _ => inferInstanceAs (Decidable (CarefulOpen a.vfs path))
  | a, .opendir path => inferInstanceAs (Decidable (CarefulOpendir a.vfs path))
  | a, .close fd => inferInstanceAs (Decidable (CarefulClose a fd))

/-! ## The invariant -/

variable {a a' : Audit}

/-- What an open descriptor owns: its inode `i` and, unless it is 0, `block` are not freed yet, and what
else was allocated for it was freed once. -/
structure Owns (a : Audit) (fd : ℤ) (found : Found) (dir : Bool) (i block : ℕ) : Prop where
  nonneg : 0 ≤ fd
  lt : fd < maxFileDescriptors
  inode : (a.vfs.descriptors fd.toNat).inode = i
  ops : (a.vfs.descriptors fd.toNat).ops = some (opsOf found)
  references : (a.vfs.descriptors fd.toNat).refCount = 1
  inode_ne : i ≠ 0
  ne : block ≠ i
  refCount : (a.vfs.files.inodes i).refCount = 1
  bare : found = .bare ∨ found = .ext4Root ∧ dir = true → block = 0
  ext4File : found = .ext4File → block ≠ 0 ∧ a.vfs.files.world.privateData i = block
  owner : ∀ b, b = i ∨ b = block ∧ block ≠ 0 →
    a.owner b = some fd ∧ a.vfs.files.world.tracked b = true
  frees : ∀ b, a.owner b = some fd → a.vfs.files.world.tracked b = true →
    (b = i ∨ b = block ∧ block ≠ 0 → a.vfs.files.frees b = 0) ∧
      (¬ (b = i ∨ b = block ∧ block ≠ 0) → a.vfs.files.frees b = 1)

/-- The invariant of careful runs. -/
structure Tidy (a : Audit) : Prop where
  fresh : Fresh a.vfs.files
  ownerless : ∀ b, a.vfs.files.world.tracked b = true → a.owner b = none → a.vfs.files.frees b = 1
  owned : ∀ b fd, a.owner b = some fd → b ≤ a.vfs.files.world.mallocs ∧ (a.sessions fd).isSome
  closed : ∀ fd, a.sessions fd = none → ¬ a.vfs.IsOpen fd
  sessions : ∀ fd found dir, a.sessions fd = some (found, dir) →
    ∃ i block, Owns a fd found dir i block

/-- In a tidy state every block that was freed was freed once. -/
lemma Tidy.freedOnce (h : Tidy a) : FreedOnce a := by
  intro b ht
  cases ho : a.owner b with
  | none =>
    have hone := h.ownerless b ht ho
    exact ⟨by omega, fun _ => hone⟩
  | some fd =>
    refine ⟨?_, by simp⟩
    obtain ⟨⟨found, dir⟩, hsession⟩ := Option.isSome_iff_exists.1 (h.owned b fd ho).2
    obtain ⟨i, block, howns⟩ := h.sessions fd found dir hsession
    obtain ⟨hzero, hone⟩ := howns.frees b ho ht
    by_cases hp : b = i ∨ b = block ∧ block ≠ 0
    · rw [hzero hp]
      omega
    · exact Nat.le_of_eq (hone hp)

/-- The start is tidy. -/
lemma tidy_start (w : OpenWorld) : Tidy (Audit.start w) := by
  refine ⟨fun b _ => ⟨rfl, rfl⟩, fun b ht => ?_, fun b fd ho => ?_, fun fd _ ho => ho.2.2 rfl,
    fun fd found dir hs => ?_⟩
  · exact absurd ht (by simp [Audit.start, Vfs.vfsInit])
  · exact absurd ho (by simp [Audit.start])
  · exact absurd hs (by simp [Audit.start])

/-- What a descriptor owns is not touched by calls for other descriptors. -/
lemma Owns.frame {found : Found} {dir : Bool} {block : ℕ} (h : Owns a fd found dir i block)
    (hdesc : a'.vfs.descriptors fd.toNat = a.vfs.descriptors fd.toNat)
    (howner : ∀ b, a'.owner b = some fd ↔ a.owner b = some fd)
    (hsame : ∀ b, a.owner b = some fd → a'.vfs.files.frees b = a.vfs.files.frees b ∧
      a'.vfs.files.world.tracked b = a.vfs.files.world.tracked b ∧
      a'.vfs.files.inodes b = a.vfs.files.inodes b ∧
      a'.vfs.files.world.privateData b = a.vfs.files.world.privateData b) :
    Owns a' fd found dir i block := by
  obtain ⟨hi, -⟩ := h.owner i (.inl rfl)
  obtain ⟨-, -, hinodes, hpriv⟩ := hsame i hi
  refine ⟨h.nonneg, h.lt, ?_, ?_, ?_, h.inode_ne, h.ne, ?_, h.bare, ?_, ?_, ?_⟩
  · rw [hdesc, h.inode]
  · rw [hdesc, h.ops]
  · rw [hdesc, h.references]
  · rw [hinodes, h.refCount]
  · rw [hpriv]
    exact h.ext4File
  · intro b hb
    obtain ⟨ho, ht⟩ := h.owner b hb
    rw [howner, (hsame b ho).2.1]
    exact ⟨ho, ht⟩
  · intro b ho ht
    rw [howner] at ho
    obtain ⟨hfrees, htracked, -⟩ := hsame b ho
    rw [htracked] at ht
    rw [hfrees]
    exact h.frees b ho ht

/-- Blocks that were allocated before a call are not recorded for it. -/
lemma owner_record_of_le {v' : Vfs OpenWorld} {dir : Bool} (hb : b ≤ a.vfs.files.world.mallocs) :
    (a.record v' fd path dir).owner b = a.owner b :=
  if_neg fun hnew => absurd hnew.1 (by omega)

/-- A block from before a call that no descriptor owns was freed before. -/
lemma Tidy.ownerless_of_le {v' : Vfs OpenWorld} {dir : Bool} {pending : ℕ → Prop} (h : Tidy a)
    (hprogress : Progress a.vfs.files v'.files pending) (hle : b ≤ a.vfs.files.world.mallocs)
    (ht : v'.files.world.tracked b = true) (ho : (a.record v' fd path dir).owner b = none) :
    v'.files.frees b = 1 := by
  obtain ⟨hfrees, htracked, -⟩ := hprogress.old b hle
  rw [owner_record_of_le hle] at ho
  rw [htracked] at ht
  exact hfrees.trans (h.ownerless b ht ho)

/-- A call leaves alone what the other descriptors own. -/
lemma Tidy.owns_record {v' : Vfs OpenWorld} {found : Found} {dir dir' : Bool} {fd' : ℤ}
    {pending : ℕ → Prop} (h : Tidy a) (hprogress : Progress a.vfs.files v'.files pending)
    (hsession : a.sessions fd' = some (found, dir')) (hne : fd' ≠ fd)
    (hdesc : v'.descriptors fd'.toNat = a.vfs.descriptors fd'.toNat) :
    ∃ i block, Owns (a.record v' fd path dir) fd' found dir' i block := by
  obtain ⟨i, block, howns⟩ := h.sessions fd' found dir' hsession
  refine ⟨i, block, howns.frame hdesc (fun b => ?_) fun b ho => hprogress.old b (h.owned b fd' ho).1⟩
  by_cases hnew : a.vfs.files.world.mallocs < b
  · have hold : a.owner b ≠ some fd' := by
      intro ho
      have := (h.owned b fd' ho).1
      omega
    simp only [Audit.record]
    split_ifs
    · simp [hold]
    · simp [hold, Ne.symm hne]
    · rfl
  · rw [owner_record_of_le (by omega)]

/-- A call that has failed frees all that it has allocated. -/
lemma Tidy.fails {v' : Vfs OpenWorld} {dir : Bool} (h : Tidy a) (hfails : Fails a.vfs v') :
    Tidy (a.record v' (-1) path dir) := by
  obtain ⟨hdesc, hprogress⟩ := hfails
  have hrecord : ∀ b, (a.record v' (-1) path dir).owner b =
      if a.vfs.files.world.mallocs < b ∧ b ≤ v'.files.world.mallocs then none else a.owner b :=
    fun b => rfl
  refine ⟨hprogress.fresh, fun b ht ho => ?_, fun b fd ho => ?_, fun fd hclosed hopen => ?_,
    fun fd found dir' hsession => ?_⟩
  · by_cases hnew : a.vfs.files.world.mallocs < b
    · exact (hprogress.pending b hnew ht).2 id
    · exact h.ownerless_of_le hprogress (by omega) ht ho
  · rw [hrecord] at ho
    split_ifs at ho
    obtain ⟨hle, hsome⟩ := h.owned b fd ho
    exact ⟨Nat.le_trans hle hprogress.le, hsome⟩
  · refine h.closed fd hclosed ⟨hopen.1, hopen.2.1, ?_⟩
    rw [← hdesc]
    exact hopen.2.2
  · have hold : a.sessions fd = some (found, dir') := hsession
    obtain ⟨_, _, howns⟩ := h.sessions fd found dir' hold
    have hnonneg := howns.nonneg
    exact h.owns_record hprogress hold (by omega) (congrFun hdesc _)

/-- A descriptor that is not used owns nothing. -/
lemma Tidy.unused {j : ℕ} (h : Tidy a) (hunused : (a.vfs.descriptors j).refCount = 0) :
    a.sessions (j : ℤ) = none ∧ ∀ b, a.owner b ≠ some (j : ℤ) := by
  have hclosed : a.sessions (j : ℤ) = none := by
    rcases hs : a.sessions (j : ℤ) with _ | ⟨found, dir⟩
    · rfl
    · obtain ⟨_, _, howns⟩ := h.sessions _ _ _ hs
      have hreferences := howns.references
      rw [Int.toNat_natCast, hunused] at hreferences
      simp at hreferences
  refine ⟨hclosed, fun b ho => ?_⟩
  have hsome := (h.owned b _ ho).2
  rw [hclosed] at hsome
  simp at hsome

section Opened

variable {v' : Vfs OpenWorld} {j block i' : ℕ} {found : Found} {dir : Bool}

/-- The blocks that a call of `open` allocated belong to its descriptor, and the others to whom they did. -/
lemma owner_record_opened : (a.record v' j path dir).owner b =
    if a.vfs.files.world.mallocs < b ∧ b ≤ v'.files.world.mallocs then some (j : ℤ)
    else a.owner b := by
  have hnonneg : ¬ (j : ℤ) < 0 := by omega
  simp only [Audit.record, if_neg hnonneg]

/-- The descriptor has a session with the inode that was found. -/
lemma sessions_record_opened (hlook : (lookup a.vfs.files path).2 = some (i', found)) :
    (a.record v' j path dir).sessions = Function.update a.sessions (j : ℤ) (some (found, dir)) := by
  have hnonneg : ¬ (j : ℤ) < 0 := by omega
  simp only [Audit.record, if_neg hnonneg, hlook, Option.map_some]

/-- Only one place of the descriptor table is filled. -/
lemma Opens.descriptors_of_ne (hopens : Opens v v' j found i block) (hfd : 0 ≤ fd) (hne : fd ≠ j) :
    v'.descriptors fd.toNat = v.descriptors fd.toNat := by
  obtain ⟨flags, hdesc⟩ := hopens.descriptors
  rw [hdesc, Function.update_of_ne (by omega)]

/-- A descriptor that was just opened owns what is pending. -/
lemma Opens.owns (hopens : Opens a.vfs v' j found i block) (hnotowner : ∀ b, a.owner b ≠ some (j : ℤ))
    (hbare : found = .bare ∨ found = .ext4Root ∧ dir = true → block = 0)
    (hfile : found = .ext4File → block ≠ 0 ∧ v'.files.world.privateData i = block) :
    Owns (a.record v' j path dir) j found dir i block := by
  obtain ⟨hj, -, ⟨flags, hdesc⟩, hprogress, hone, hne⟩ := hopens
  have hslot : v'.descriptors (j : ℤ).toNat = Vfs.opened i (opsOf found) flags := by
    rw [hdesc, Int.toNat_natCast, Function.update_self]
  have hi := (hprogress.lt i (.inl rfl)).1
  refine ⟨Int.natCast_nonneg j, by omega, ?_, ?_, ?_, by omega, hne, hone, hbare, hfile, fun b hb => ?_,
    fun b ho ht => ?_⟩
  · exact congrArg FileDescriptor.inode hslot
  · exact congrArg FileDescriptor.ops hslot
  · exact congrArg FileDescriptor.refCount hslot
  · obtain ⟨hlt, hle, ht⟩ := hprogress.lt b hb
    rw [owner_record_opened, if_pos ⟨hlt, hle⟩]
    exact ⟨rfl, ht⟩
  · rw [owner_record_opened] at ho
    split_ifs at ho with hnew
    · exact hprogress.pending b hnew.1 ht
    · exact absurd ho (hnotowner b)

/-- Opening a descriptor keeps the invariant. -/
lemma Tidy.opens (h : Tidy a) (hopens : Opens a.vfs v' j found i block)
    (hlook : (lookup a.vfs.files path).2 = some (i', found))
    (hbare : found = .bare ∨ found = .ext4Root ∧ dir = true → block = 0)
    (hfile : found = .ext4File → block ≠ 0 ∧ v'.files.world.privateData i = block) :
    Tidy (a.record v' j path dir) := by
  have hprogress := hopens.progress
  have hsessions : (a.record v' j path dir).sessions =
      Function.update a.sessions (j : ℤ) (some (found, dir)) := sessions_record_opened hlook
  obtain ⟨-, hnotowner⟩ := h.unused hopens.unused
  refine ⟨hprogress.fresh, fun b ht ho => ?_, fun b fd ho => ?_, fun fd hfd hopen => ?_,
    fun fd found' dir' hsession => ?_⟩
  · have hle : b ≤ a.vfs.files.world.mallocs := by
      by_contra hlt
      have ht' : v'.files.world.tracked b = true := ht
      rw [owner_record_opened] at ho
      split_ifs at ho with hnew
      rw [(hprogress.fresh b (by omega)).2] at ht'
      simp at ht'
    exact h.ownerless_of_le hprogress hle ht ho
  · rw [owner_record_opened] at ho
    rw [hsessions]
    split_ifs at ho with hnew
    · obtain rfl := Option.some.inj ho
      exact ⟨hnew.2, by rw [Function.update_self]; rfl⟩
    · obtain ⟨hle, hsome⟩ := h.owned b fd ho
      refine ⟨Nat.le_trans hle hprogress.le, ?_⟩
      rw [Function.update_of_ne]
      · exact hsome
      · rintro rfl
        exact hnotowner b ho
  · rw [hsessions] at hfd
    have hfdj : fd ≠ (j : ℤ) := by
      rintro rfl
      rw [Function.update_self] at hfd
      simp at hfd
    rw [Function.update_of_ne hfdj] at hfd
    refine h.closed fd hfd ⟨hopen.1, hopen.2.1, ?_⟩
    rw [← hopens.descriptors_of_ne hopen.1 hfdj]
    exact hopen.2.2
  · by_cases hfdj : fd = (j : ℤ)
    · subst hfdj
      rw [hsessions, Function.update_self] at hsession
      obtain ⟨rfl, rfl⟩ := Prod.mk.inj (Option.some.inj hsession)
      exact ⟨i, block, hopens.owns hnotowner hbare hfile⟩
    · rw [hsessions, Function.update_of_ne hfdj] at hsession
      obtain ⟨_, _, howns⟩ := h.sessions fd found' dir' hsession
      exact h.owns_record hprogress hsession hfdj (hopens.descriptors_of_ne howns.nonneg hfdj)

end Opened

/-- `vfs_close` of an open descriptor. -/
lemma vfsClose_spec {found : Found} {dir : Bool} {block : ℕ} (h : Owns a fd found dir i block) :
    ∃ d : FileDescriptor OpenWorld, d.refCount = 0 ∧
      a.vfs.vfsClose fd =
        ({ files := (Vfs.callClose a.vfs.files (opsOf found) i).vfsDestroyInode i
           descriptors := Function.update a.vfs.descriptors fd.toNat d },
          0) := by
  have hopen : a.vfs.IsOpen fd := ⟨h.nonneg, h.lt, by rw [h.references]; simp⟩
  refine ⟨{ a.vfs.descriptors fd.toNat with refCount := 0, inode := 0, ops := none }, rfl, ?_⟩
  rw [Vfs.vfsClose, if_neg (not_not.2 hopen)]
  simp only [h.references, h.ops, h.inode, Nat.sub_self, if_true]
  rw [if_pos h.inode_ne]

/-- Closing a descriptor with care frees what it owns. -/
lemma Owns.frees_close {found : Found} {dir : Bool} {block : ℕ} (h : Owns a fd found dir i block)
    (hsession : a.sessions fd = some (found, dir)) (hcareful : CarefulClose a fd) :
    ((Vfs.callClose a.vfs.files (opsOf found) i).vfsDestroyInode i).world = a.vfs.files.world ∧
      (∀ c, c ≠ i → ((Vfs.callClose a.vfs.files (opsOf found) i).vfsDestroyInode i).inodes c =
        a.vfs.files.inodes c) ∧
      ∀ b, ((Vfs.callClose a.vfs.files (opsOf found) i).vfsDestroyInode i).frees b =
        a.vfs.files.frees b + if b = i ∨ b = block ∧ block ≠ 0 then 1 else 0 := by
  rw [CarefulClose, hsession] at hcareful
  have hdevice : found ≠ .device := by
    rintro rfl
    exact hcareful
  obtain ⟨hworld, hinodes, hfrees⟩ := close_frees found h.inode_ne h.refCount hdevice
  refine ⟨hworld, hinodes, fun b => ?_⟩
  rw [hfrees]
  by_cases hfile : found = .ext4File
  · obtain ⟨hzero, hpriv⟩ := h.ext4File hfile
    rw [if_pos hfile, hpriv]
    by_cases hbi : b = i
    · subst hbi
      rw [free_frees_self h.inode_ne, free_frees_of_ne (Ne.symm h.ne), if_pos (.inl rfl)]
    · rw [free_frees_of_ne hbi]
      by_cases hblock : b = block
      · subst hblock
        rw [free_frees_self hzero, if_pos (.inr ⟨rfl, hzero⟩)]
      · rw [free_frees_of_ne hblock, if_neg (by omega)]
        rfl
  · have hzero : block = 0 := by
      refine h.bare ?_
      cases found with
      | bare => exact .inl rfl
      | ext4Root => exact .inr ⟨rfl, hcareful⟩
      | otherDevice => exact hcareful.elim
      | device => exact hcareful.elim
      | ext4File => exact absurd rfl hfile
    rw [if_neg hfile]
    by_cases hbi : b = i
    · subst hbi
      rw [free_frees_self h.inode_ne, if_pos (.inl rfl)]
    · rw [free_frees_of_ne hbi, if_neg (by omega)]
      rfl

/-- The audit after a descriptor was closed. -/
def Audit.closed (a : Audit) (fd : ℤ) (files : Files OpenWorld) (d : FileDescriptor OpenWorld) : Audit where
  vfs := { files := files, descriptors := Function.update a.vfs.descriptors fd.toNat d }
  owner b := if a.owner b = some fd then none else a.owner b
  sessions := Function.update a.sessions fd none

section Closed

variable {found found' : Found} {dir dir' : Bool} {block j block' : ℕ} {files : Files OpenWorld}
  {d : FileDescriptor OpenWorld} (howns : Owns a fd found dir i block)
  (hworld : files.world = a.vfs.files.world)
  (hfrees : ∀ b, files.frees b = a.vfs.files.frees b + if b = i ∨ b = block ∧ block ≠ 0 then 1 else 0)

include howns

/-- Blocks of others are not freed. -/
lemma Owns.not_pending {b : ℕ} (ho : a.owner b ≠ some fd) : ¬ (b = i ∨ b = block ∧ block ≠ 0) :=
  fun hp => ho (howns.owner b hp).1

include hfrees

/-- The blocks of the descriptor have been freed once. -/
lemma Tidy.ownerless_closed (h : Tidy a) {b : ℕ} (ht : a.vfs.files.world.tracked b = true)
    (ho : (a.closed fd files d).owner b = none) : files.frees b = 1 := by
  have ho' : (if a.owner b = some fd then none else a.owner b) = none := ho
  rw [hfrees]
  by_cases hfd : a.owner b = some fd
  · obtain ⟨hzero, hone⟩ := howns.frees b hfd ht
    by_cases hp : b = i ∨ b = block ∧ block ≠ 0
    · rw [if_pos hp, hzero hp]
    · rw [if_neg hp, hone hp]
  · rw [if_neg hfd] at ho'
    rw [if_neg (howns.not_pending hfd)]
    exact h.ownerless b ht ho'

include hworld

/-- Another descriptor owns what it owned. -/
lemma Owns.owns_closed {fd' : ℤ} (howns' : Owns a fd' found' dir' j block') (hne : fd' ≠ fd)
    (hinodes : ∀ c, c ≠ i → files.inodes c = a.vfs.files.inodes c) :
    Owns (a.closed fd files d) fd' found' dir' j block' := by
  have hfd0 := howns.nonneg
  have hfd0' := howns'.nonneg
  refine howns'.frame ?_ (fun b => ?_) fun b ho => ?_
  · show Function.update a.vfs.descriptors fd.toNat d fd'.toNat = _
    rw [Function.update_of_ne (by omega)]
  · show (if a.owner b = some fd then none else a.owner b) = some fd' ↔ _
    split_ifs with hfd
    · rw [hfd]
      simp [Ne.symm hne]
    · rfl
  · have hpending : ¬ (b = i ∨ b = block ∧ block ≠ 0) := by
      apply howns.not_pending
      rw [ho]
      exact fun heq => hne (Option.some.inj heq)
    show files.frees b = _ ∧ files.world.tracked b = _ ∧ files.inodes b = _ ∧
      files.world.privateData b = _
    rw [hfrees, if_neg hpending, hworld, hinodes b (fun hb => hpending (.inl hb))]
    exact ⟨rfl, rfl, rfl, rfl⟩

end Closed

/-- Closing a descriptor with care leaves the others as they are. -/
lemma Tidy.close (h : Tidy a) (hcareful : CarefulClose a fd) :
    ∃ a', fileStep a (.close fd) = some a' ∧ Tidy a' := by
  rw [fileStep]
  rcases hsession : a.sessions fd with _ | ⟨found, dir⟩
  · have hclosed := h.closed fd hsession
    have hcall : a.vfs.vfsClose fd = (a.vfs, -1) := if_pos hclosed
    simp only [hcall]
    exact ⟨a, rfl, h⟩
  obtain ⟨i, block, howns⟩ := h.sessions fd found dir hsession
  obtain ⟨d, hd, hcall⟩ := vfsClose_spec howns
  obtain ⟨hworld, hinodes, hfrees⟩ := howns.frees_close hsession hcareful
  simp only [hcall]
  generalize (Vfs.callClose a.vfs.files (opsOf found) i).vfsDestroyInode i = files at *
  refine ⟨a.closed fd files d, rfl, fun b hb => ?_, fun b ht ho => ?_, fun b fd' ho => ?_,
    fun fd' hfd' hopen => ?_, fun fd' found' dir' hsession' => ?_⟩
  · have hb' : files.world.mallocs < b := hb
    rw [hworld] at hb'
    have hother : a.owner b ≠ some fd := fun ho => Nat.not_le_of_lt hb' (h.owned b fd ho).1
    show files.frees b = 0 ∧ files.world.tracked b = false
    rw [hfrees, hworld, if_neg (howns.not_pending hother)]
    exact h.fresh b hb'
  · have ht' : files.world.tracked b = true := ht
    rw [hworld] at ht'
    exact h.ownerless_closed howns hfrees ht' ho
  · have ho' : (if a.owner b = some fd then none else a.owner b) = some fd' := ho
    split_ifs at ho' with hfd
    obtain ⟨hle, hsome⟩ := h.owned b fd' ho'
    refine ⟨?_, ?_⟩
    · show b ≤ files.world.mallocs
      rw [hworld]
      exact hle
    · show (Function.update a.sessions fd none fd').isSome
      rw [Function.update_of_ne]
      · exact hsome
      · rintro rfl
        exact hfd ho'
  · have hnonneg := hopen.1
    have hfd0 := howns.nonneg
    have hreferences : (Function.update a.vfs.descriptors fd.toNat d fd'.toNat).refCount ≠ 0 := hopen.2.2
    have hclosed : Function.update a.sessions fd none fd' = none := hfd'
    by_cases hne : fd' = fd
    · subst hne
      rw [Function.update_self] at hreferences
      exact hreferences hd
    · rw [Function.update_of_ne hne] at hclosed
      rw [Function.update_of_ne (by omega)] at hreferences
      exact h.closed fd' hclosed ⟨hopen.1, hopen.2.1, hreferences⟩
  · have hs : Function.update a.sessions fd none fd' = some (found', dir') := hsession'
    have hne : fd' ≠ fd := by
      rintro rfl
      rw [Function.update_self] at hs
      simp at hs
    rw [Function.update_of_ne hne] at hs
    obtain ⟨j, block', howns'⟩ := h.sessions fd' found' dir' hs
    exact ⟨j, block', howns.owns_closed hworld hfrees howns' hne hinodes⟩

/-- Every careful call keeps the invariant. -/
lemma Tidy.fileStep (h : Tidy a) (c : FileCall) (hcareful : Careful a c) :
    ∃ a', fileStep a c = some a' ∧ Tidy a' := by
  cases c with
  | openFile path flags =>
    rw [OpenPath.fileStep]
    rcases vfsOpen_spec h.fresh hcareful flags with
      ⟨v', hcall, hfails⟩ | ⟨v', j, i, found, block, hcall, hlook, hopens, hbare, hfile⟩
    · simp only [hcall]
      exact ⟨_, rfl, h.fails hfails⟩
    · simp only [hcall]
      refine ⟨_, rfl, h.opens hopens hlook ?_ hfile⟩
      rintro (hfound | ⟨-, hdir⟩)
      · exact hbare hfound
      · simp at hdir
  | opendir path =>
    rw [OpenPath.fileStep]
    rcases vfsOpendir_spec h.fresh hcareful with ⟨v', hcall, hfails⟩ | ⟨v', j, i, hcall, hlook, hopens⟩
    · simp only [hcall]
      exact ⟨_, rfl, h.fails hfails⟩
    · simp only [hcall]
      exact ⟨_, rfl, h.opens hopens hlook (fun _ => rfl) (by simp)⟩
  | close fd => exact h.close hcareful

/-- **In every run of careful calls, every block that opening a path allocated is freed once** by the time
the descriptor is closed or the open has failed, and never twice. -/
theorem freedOnce_of_run (w : OpenWorld) (calls : List FileCall)
    (h : Run.Follows fileStep Careful (Audit.start w) calls) :
    ∃ a, Run.exec fileStep (Audit.start w) calls = some a ∧ FreedOnce a := by
  obtain ⟨a, hexec, ha⟩ := Run.exec_of_step (fun a c (ha : Tidy a) hok => ha.fileStep c hok)
    (tidy_start w) h
  exact ⟨a, hexec, ha.freedOnce⟩

/-- A block device, and ext4 at the root. -/
def smallWorld : OpenWorld where
  devfs := (Devfs.devfsInit.devfsRegisterDevice [104] .block 3 0 4096).1
  ext4Mounted := true
  route path := if path = [47, 100, 47, 104] then some (.devfs, [47, 104]) else some (.ext4, path)
  memory _ := true
  mallocs := 0
  tracked _ := false
  privateData _ := 0
  nextInodeNum := 1

/-- Opening and closing files and the root directory, and opening a device. -/
def carefulCalls : List FileCall :=
  [.openFile [47, 102] 1, .opendir [47], .close 0, .openFile [47, 103] 1, .close 1, .close 0,
    .openFile [47, 102] 1, .openFile [47, 100, 47, 104] 1, .close 0, .close 7]

/-- After these calls each block that belongs to no open descriptor was freed once. -/
theorem freedOnce_of_run_carefulCalls :
    Run.Follows fileStep Careful (Audit.start smallWorld) carefulCalls ∧
      ∃ a, Run.exec fileStep (Audit.start smallWorld) carefulCalls = some a ∧ FreedOnce a := by
  have h : Run.Follows fileStep Careful (Audit.start smallWorld) carefulCalls := by decide +kernel
  exact ⟨h, freedOnce_of_run smallWorld carefulCalls h⟩

/-- A device that is opened and closed: its inode is freed twice. -/
theorem not_freedOnce_device :
    ∃ a, Run.exec fileStep (Audit.start smallWorld) [.openFile [47, 100, 47, 104] 1, .close 0] = some a ∧
      ¬ FreedOnce a := by
  have hrun : ((Run.exec fileStep (Audit.start smallWorld)
      [.openFile [47, 100, 47, 104] 1, .close 0]).map fun a =>
        (a.vfs.files.world.tracked 2, a.vfs.files.frees 2)) = some (true, 2) := by decide +kernel
  obtain ⟨a, hexec, ha⟩ := Option.map_eq_some_iff.1 hrun
  obtain ⟨ht, hfrees⟩ := Prod.mk.inj ha
  refine ⟨a, hexec, fun hfreed => ?_⟩
  have := (hfreed 2 ht).1
  omega

end OpenPath

end Jarvis
