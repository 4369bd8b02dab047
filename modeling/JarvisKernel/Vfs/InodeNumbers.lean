import JarvisKernel.Vfs.Ownership
import JarvisKernel.Vfs.Reads

set_option relaxedAutoImplicit false
set_option autoImplicit false

/-!
# Numbers of inodes

`vfs_create_inode` numbers inodes with a counter of its own, which devfs and ext4 share, and ext4 takes
the number of an inode for its number on the disk. So a lookup of an ext4 path gives the number that the
history of lookups has come to, whatever the number on the disk is.

The operations of the VFS and of ext4 change the counter by looking up paths only. What else they do to
the state is arbitrary here.

## Main definitions

* `Jarvis.OpenPath.Operation`, `Jarvis.OpenPath.operate` — runs of VFS and ext4 operations.
* `Jarvis.OpenPath.created` — the number of inodes that a run creates.
* `Jarvis.OpenPath.RightInode` — a number leads to the inode of a file on the disk.

## Main results

* `Jarvis.OpenPath.nextInodeNum_operateAll` — the counter after a run.
* `Jarvis.OpenPath.rightInode_iff` — when two lookups of a path give its number on the disk.
-/

namespace Jarvis

namespace OpenPath

variable {s s' : Files OpenWorld} {v : Vfs OpenWorld} {path : CString} {b i : ℕ}

/-! ## The counter -/

/-- How many inodes `devfs_get_inode` creates. -/
def devfsCreates (s : Files OpenWorld) (path : CString) : ℕ :=
  if (s.world.devfs.findDeviceByName (Devfs.deviceName path)).isSome ∧
      s.world.memory s.world.mallocs = true then 1
  else 0

/-- How many inodes `ext4_get_inode` creates: one, if there is memory for the normalized path, for its
components and for the inode. -/
def ext4Creates (s : Files OpenWorld) : ℕ :=
  if s.world.ext4Mounted = true ∧ s.world.memory s.world.mallocs = true ∧
      s.world.memory (s.world.mallocs + 1) = true ∧ s.world.memory (s.world.mallocs + 2) = true then 1
  else 0

/-- How many inodes `vfs_resolve_path` creates. -/
def lookupCreates (s : Files OpenWorld) (path : CString) : ℕ :=
  if s.world.memory s.world.mallocs = true then
    match s.world.route path with
    | none => 0
    | some (.devfs, path) => devfsCreates (withMalloc s) path
    | some (.ext4, _) => ext4Creates (withMalloc s)
  else 0

/-- The counter after the given number of inodes. -/
def Advances (s s' : Files OpenWorld) (n : ℕ) : Prop :=
  s'.world.nextInodeNum = (s.world.nextInodeNum + n) % 2 ^ 32

/-- No inode was created if the counter is the same. -/
lemma Advances.zero (hlt : s.world.nextInodeNum < 2 ^ 32)
    (h : s'.world.nextInodeNum = s.world.nextInodeNum) : Advances s s' 0 := by
  rw [Advances, h, Nat.add_zero, Nat.mod_eq_of_lt hlt]

/-- A block takes no number. -/
lemma nextInodeNum_mallocBlock (tracked : Bool) :
    (mallocBlock s tracked).1.world.nextInodeNum = s.world.nextInodeNum := by
  rcases mallocBlock_cases s tracked with hcall | hcall
  · rw [hcall]
    rfl
  · rw [hcall]
    rfl

/-- Destroying an inode changes nothing of the rest. -/
lemma world_vfsDestroyInode : (s.vfsDestroyInode i).world = s.world := by
  rw [Files.vfsDestroyInode]
  by_cases hlast : i ≠ 0 ∧ 0 < (s.inodes i).refCount
  · rw [if_pos hlast]
    dsimp only
    split_ifs
    · exact free_world
    · rfl
  · rw [if_neg hlast]

/-- `vfs_create_inode` takes the next number, if there is memory. -/
lemma vfsCreateInode_number (s : Files OpenWorld) (type : FileType) (permissions : ℕ) :
    (s.world.memory s.world.mallocs = false ∧
        vfsCreateInode s type permissions = (withMalloc s, 0)) ∨
      (s.world.memory s.world.mallocs = true ∧ ∃ s', ∃ i,
        vfsCreateInode s type permissions = (s', i + 1) ∧
        s'.world.nextInodeNum = Word32.add s.world.nextInodeNum 1 ∧
        (s'.inodes (i + 1)).inodeNum = s.world.nextInodeNum) := by
  rw [vfsCreateInode]
  cases hmemory : s.world.memory s.world.mallocs with
  | false =>
    have hcall : mallocBlock s true = (withMalloc s, 0) := if_neg (by simp [hmemory])
    rw [hcall]
    exact .inl ⟨rfl, rfl⟩
  | true =>
    rw [mallocBlock_of_memory hmemory]
    refine .inr ⟨rfl, _, s.world.mallocs, rfl, rfl, ?_⟩
    dsimp only
    rw [Function.update_self]
    rfl

/-- Nor do the operations of a device. -/
lemma nextInodeNum_devfsOps (device : DeviceType) :
    (devfsOps s i device).1.world.nextInodeNum = s.world.nextInodeNum := by
  rw [devfsOps]
  have hcounter := nextInodeNum_mallocBlock (s := s) true
  generalize mallocBlock s true = result at hcounter ⊢
  rcases result with ⟨s₁, _ | ops⟩
  · exact hcounter
  · simp only []
    generalize hfreed : (if device = .net then s₁.free (ops + 1) else s₁) = s₂
    have hcounter₂ : s₂.world.nextInodeNum = s.world.nextInodeNum := by
      rw [← hfreed, ← hcounter]
      split_ifs
      · rw [free_world]
      · rfl
    have hcounter₃ := nextInodeNum_mallocBlock (s := s₂) true
    generalize mallocBlock s₂ true = result at hcounter₃ ⊢
    rcases result with ⟨s₃, _ | info⟩
    · rw [← hcounter₂, ← hcounter₃]
      simp only []
      split_ifs
      · rfl
      · rw [free_world]
    · rw [← hcounter₂, ← hcounter₃]
      simp only []
      split_ifs
      · rfl
      · rw [free_world]
        rfl

/-- `devfs_get_inode` takes a number for the inode that it creates. -/
lemma nextInodeNum_devfsGetInode (hlt : s.world.nextInodeNum < 2 ^ 32) :
    Advances s (devfsGetInode s path).1 (devfsCreates s path) := by
  rw [devfsGetInode, devfsCreates]
  cases s.world.devfs.findDeviceByName (Devfs.deviceName path) with
  | none =>
    rw [if_neg (by simp)]
    exact Advances.zero hlt rfl
  | some index =>
    generalize hdevice : (s.world.devfs.devices index).type = device
    generalize htype : (if device = .block then FileType.blockDevice else .charDevice) = type
    rcases vfsCreateInode_number s type 0x1B6 with
      ⟨hmemory, hcall⟩ | ⟨hmemory, s₁, i, hcall, hcounter, -⟩
    · simp only [hdevice, htype, hcall]
      rw [if_neg (by simp [hmemory])]
      exact Advances.zero hlt rfl
    · simp only [hdevice, htype, hcall]
      rw [if_pos (by simp [hmemory])]
      show (devfsOps s₁ (i + 1) device).1.world.nextInodeNum = _
      rw [nextInodeNum_devfsOps, hcounter, Word32.add, Nat.add_comm]

/-- A lookup has taken `n` numbers, and the inode that it has found has the one that was next. -/
def Numbered (s : Files OpenWorld) (n : ℕ) (result : Files OpenWorld × Option (ℕ × Found)) : Prop :=
  Advances s result.1 n ∧
    ∀ i found, result.2 = some (i, found) →
      (result.1.inodes i).inodeNum = s.world.nextInodeNum ∧ n = 1

/-- A lookup that takes no number has found nothing. -/
lemma Numbered.none (hlt : s.world.nextInodeNum < 2 ^ 32)
    (h : s'.world.nextInodeNum = s.world.nextInodeNum) : Numbered s 0 (s', none) :=
  ⟨Advances.zero hlt h, by simp⟩

/-- `ext4_find_inode` takes the next number. -/
lemma ext4NewInode_number (hlt : s.world.nextInodeNum < 2 ^ 32) (type : FileType) (permissions : ℕ)
    (found : Found) :
    Numbered s (if s.world.memory s.world.mallocs = true then 1 else 0)
      (ext4NewInode s type permissions found) := by
  rw [ext4NewInode]
  rcases vfsCreateInode_number s type permissions with
    ⟨hmemory, hcall⟩ | ⟨hmemory, s₁, i, hcall, hcounter, hnumber⟩
  · rw [hcall, if_neg (by simp [hmemory])]
    exact Numbered.none hlt rfl
  · simp only [hcall]
    rw [if_pos hmemory]
    have hadvances : s₁.world.nextInodeNum = (s.world.nextInodeNum + 1) % 2 ^ 32 := by
      rw [hcounter, Word32.add, Nat.add_comm]
    rcases mallocBlock_cases s₁ true with hops | hops
    · simp only [hops]
      refine ⟨?_, by simp⟩
      rw [Advances, world_vfsDestroyInode]
      exact hadvances
    · simp only [hops]
      refine ⟨hadvances, fun j found' hj => ?_⟩
      obtain ⟨rfl, -⟩ := Prod.mk.inj (Option.some.inj hj)
      exact ⟨hnumber, rfl⟩

/-- **A lookup of an ext4 path takes the next number**, whatever the path is. -/
lemma ext4GetInode_number (hlt : s.world.nextInodeNum < 2 ^ 32) (path : CString) :
    Numbered s (ext4Creates s) (ext4GetInode s path) := by
  rw [ext4GetInode, ext4Creates]
  by_cases hmounted : s.world.ext4Mounted = false
  · rw [if_pos hmounted, if_neg (by simp [hmounted])]
    exact Numbered.none hlt rfl
  rw [if_neg hmounted]
  have hmounted' : s.world.ext4Mounted = true := by simpa using hmounted
  cases hpath : s.world.memory s.world.mallocs with
  | false =>
    rw [mallocTemporary_eq hpath, if_neg (by simp)]
    exact Numbered.none hlt rfl
  | true =>
    simp only [mallocTemporary_eq hpath, ext4FindInode]
    cases hparts : s.world.memory (s.world.mallocs + 1) with
    | false =>
      rw [mallocTemporary_eq (s := withMalloc s) hparts, if_neg (by simp)]
      exact Numbered.none hlt rfl
    | true =>
      simp only [mallocTemporary_eq (s := withMalloc s) hparts, hmounted', true_and]
      by_cases hroot : vfsNormalizePath path [47] = [47]
      · rw [if_pos hroot]
        exact ext4NewInode_number (s := withMalloc (withMalloc s)) hlt _ _ _
      · rw [if_neg hroot]
        exact ext4NewInode_number (s := withMalloc (withMalloc s)) hlt _ _ _

/-- The counter after a lookup. -/
lemma nextInodeNum_lookup (hlt : s.world.nextInodeNum < 2 ^ 32) (path : CString) :
    Advances s (lookup s path).1 (lookupCreates s path) := by
  rw [lookup, lookupCreates]
  cases hpath : s.world.memory s.world.mallocs with
  | false =>
    rw [mallocTemporary_eq hpath, if_neg (by simp)]
    exact Advances.zero hlt rfl
  | true =>
    rw [mallocTemporary_eq hpath, if_pos rfl]
    show Advances s (match s.world.route path with
      | none => (withMalloc s, none)
      | some (.devfs, path) => devfsGetInode (withMalloc s) path
      | some (.ext4, path) => ext4GetInode (withMalloc s) path).1 _
    rcases s.world.route path with _ | ⟨_ | _, rest⟩
    · exact Advances.zero hlt rfl
    · exact (ext4GetInode_number (s := withMalloc s) hlt rest).1
    · exact nextInodeNum_devfsGetInode (s := withMalloc s) hlt

/-! ## Functions that do not look up paths -/

/-- `ext4_read_inode` takes no number. -/
lemma nextInodeNum_ext4ReadInode :
    (ext4ReadInode s).1.world.nextInodeNum = s.world.nextInodeNum := by
  rw [ext4ReadInode]
  have hcounter := nextInodeNum_mallocBlock (s := s) false
  generalize mallocBlock s false = result at hcounter ⊢
  rcases result with ⟨s₁, _ | block⟩
  · exact hcounter
  · simp only []
    rcases hcall : mallocTemporary s₁ with ⟨s₂, ok⟩
    obtain rfl : withMalloc s₁ = s₂ := congrArg Prod.fst hcall
    cases ok with
    | false =>
      show ((withMalloc s₁).free (block + 1)).world.nextInodeNum = _
      rw [free_world]
      exact hcounter
    | true => exact hcounter

/-- Nor does `ext4_file_open`. -/
lemma nextInodeNum_ext4FileOpen (i flags : ℕ) :
    (ext4FileOpen s i flags).1.world.nextInodeNum = s.world.nextInodeNum := by
  rw [ext4FileOpen]
  by_cases hmounted : s.world.ext4Mounted = false
  · rw [if_pos hmounted]
  rw [if_neg hmounted]
  have hcounter := nextInodeNum_ext4ReadInode (s := s)
  generalize ext4ReadInode s = result at hcounter ⊢
  rcases result with ⟨s₁, _ | block⟩
  · exact hcounter
  · show (s₁.free (block + 1)).world.nextInodeNum = _
    rw [free_world]
    exact hcounter

/-- Nor does `ext4_dir_opendir`. -/
lemma nextInodeNum_ext4DirOpendir :
    (ext4DirOpendir s i).1.world.nextInodeNum = s.world.nextInodeNum := by
  rw [ext4DirOpendir]
  by_cases hmounted : s.world.ext4Mounted = false
  · rw [if_pos hmounted]
  rw [if_neg hmounted]
  by_cases hdir : (s.inodes i).type ≠ .directory
  · rw [if_pos hdir]
  rw [if_neg hdir]
  have hcounter := nextInodeNum_ext4ReadInode (s := s)
  generalize ext4ReadInode s = result at hcounter ⊢
  rcases result with ⟨s₁, _ | block⟩
  · exact hcounter
  · simp only []
    have hcounter₂ := (nextInodeNum_mallocBlock (s := s₁) false).trans hcounter
    generalize mallocBlock s₁ false = result at hcounter₂ ⊢
    rcases result with ⟨s₂, _ | iterator⟩
    · show (s₂.free (block + 1)).world.nextInodeNum = _
      rw [free_world]
      exact hcounter₂
    · show (s₂.free (s₂.world.privateData i)).world.nextInodeNum = _
      rw [free_world]
      exact hcounter₂

/-- Nor does `ext4_dir_closedir`. -/
lemma nextInodeNum_ext4DirClosedir :
    (ext4DirClosedir s i).1.world.nextInodeNum = s.world.nextInodeNum := by
  rw [ext4DirClosedir]
  split_ifs
  · rfl
  · show (s.free (s.world.privateData i)).world.nextInodeNum = _
    rw [free_world]

/-- Nor does any function that `vfs_close` calls. -/
lemma nextInodeNum_callClose (found : Found) :
    (Vfs.callClose s (opsOf found) i).world.nextInodeNum = s.world.nextInodeNum := by
  cases found with
  | device =>
    show (devClose s i).1.world.nextInodeNum = _
    rw [devClose]
    split_ifs
    · rfl
    · rw [free_world, free_world]
  | ext4File =>
    show (s.free (s.world.privateData i)).world.nextInodeNum = _
    rw [free_world]
  | bare => rfl
  | otherDevice => rfl
  | ext4Root => rfl

/-- The counter has changed from `s` to `v'` by nothing, and no more than a descriptor for functions that
were installed is new in `v'`. -/
structure SameCounter (s : Files OpenWorld) (v v' : Vfs OpenWorld) : Prop where
  nextInodeNum : v'.files.world.nextInodeNum = s.world.nextInodeNum
  descriptors : v'.descriptors = v.descriptors ∨ ∃ j i found flags,
    v'.descriptors = Function.update v.descriptors j (Vfs.opened i (opsOf found) flags)

/-- `vfs_open` changes the counter by its lookup only. -/
lemma sameCounter_vfsOpen (v : Vfs OpenWorld) (path : CString) (flags : ℕ) :
    SameCounter (lookup v.files path).1 v (Vfs.vfsOpen resolve v path flags).1 := by
  rcases hlook : lookup v.files path with ⟨s, _ | ⟨i, found⟩⟩
  · simp only [Vfs.vfsOpen, resolve, hlook]
    exact ⟨rfl, .inl rfl⟩
  simp only [Vfs.vfsOpen, resolve, hlook]
  have hcounter : ((opsOf found).openOp.elim (s, (0 : ℤ)) fun f => f s i flags).1.world.nextInodeNum =
      s.world.nextInodeNum := by
    cases found with
    | ext4File => exact nextInodeNum_ext4FileOpen i flags
    | bare => rfl
    | otherDevice => rfl
    | device => rfl
    | ext4Root => rfl
  generalize ((opsOf found).openOp.elim (s, (0 : ℤ)) fun f => f s i flags) = result at hcounter ⊢
  obtain ⟨s', code⟩ := result
  simp only []
  by_cases hfailed : code ≠ 0
  · rw [if_pos hfailed]
    refine ⟨?_, .inl rfl⟩
    rw [world_vfsDestroyInode]
    exact hcounter
  rw [if_neg hfailed]
  rcases Vfs.allocateFileDescriptor_cases { v with files := s' } i (opsOf found) flags with
    hfull | ⟨j, -, -, hcode⟩
  · simp only [hfull]
    refine ⟨?_, .inl rfl⟩
    show ((Vfs.callClose s' (opsOf found) i).vfsDestroyInode i).world.nextInodeNum = _
    rw [world_vfsDestroyInode, nextInodeNum_callClose]
    exact hcounter
  · have hnonneg : ¬ (j : ℤ) < 0 := by omega
    simp only [hcode, if_neg hnonneg]
    exact ⟨hcounter, .inr ⟨j, i, found, flags, rfl⟩⟩

/-- `vfs_opendir` changes the counter by its lookup only. -/
lemma sameCounter_vfsOpendir (v : Vfs OpenWorld) (path : CString) :
    SameCounter (lookup v.files path).1 v (Vfs.vfsOpendir resolve v path).1 := by
  rcases hlook : lookup v.files path with ⟨s, _ | ⟨i, found⟩⟩
  · simp only [Vfs.vfsOpendir, resolve, hlook]
    exact ⟨rfl, .inl rfl⟩
  simp only [Vfs.vfsOpendir, resolve, hlook]
  by_cases hdir : (s.inodes i).type ≠ .directory
  · rw [if_pos hdir]
    refine ⟨?_, .inl rfl⟩
    rw [world_vfsDestroyInode]
  rw [if_neg hdir]
  have hcounter : ((opsOf found).opendirOp.elim (s, (0 : ℤ)) fun f => f s i).1.world.nextInodeNum =
      s.world.nextInodeNum := by
    cases found with
    | ext4Root => exact nextInodeNum_ext4DirOpendir
    | bare => rfl
    | otherDevice => rfl
    | device => rfl
    | ext4File => rfl
  generalize ((opsOf found).opendirOp.elim (s, (0 : ℤ)) fun f => f s i) = result at hcounter ⊢
  obtain ⟨s', code⟩ := result
  simp only []
  by_cases hfailed : code ≠ 0
  · rw [if_pos hfailed]
    refine ⟨?_, .inl rfl⟩
    rw [world_vfsDestroyInode]
    exact hcounter
  rw [if_neg hfailed]
  rcases Vfs.allocateFileDescriptor_cases { v with files := s' } i (opsOf found) Vfs.oRdonly with
    hfull | ⟨j, -, -, hcode⟩
  · simp only [hfull]
    refine ⟨?_, .inl rfl⟩
    show (((opsOf found).closedirOp.elim s' fun f => (f s' i).1).vfsDestroyInode i).world.nextInodeNum = _
    rw [world_vfsDestroyInode, ← hcounter]
    cases found with
    | ext4Root => exact nextInodeNum_ext4DirClosedir
    | bare => rfl
    | otherDevice => rfl
    | device => rfl
    | ext4File => rfl
  · have hnonneg : ¬ (j : ℤ) < 0 := by omega
    simp only [hcode, if_neg hnonneg]
    exact ⟨hcounter, .inr ⟨j, i, found, Vfs.oRdonly, rfl⟩⟩

/-! ## Runs -/

/-- Operations of the VFS and of ext4. `ext4_mkdir`, `ext4_rmdir` and `ext4_remove` call `ext4_get_inode`
for their paths. What functions do besides is anything that leaves the counter and the descriptors as they
are. -/
inductive Operation where
  | openFile (path : CString) (flags : ℕ)
  | opendir (path : CString)
  | close (fd : ℤ)
  | getInode (path : CString)
  | other (f : Files OpenWorld → Files OpenWorld)

/-- One operation. -/
def operate (v : Vfs OpenWorld) : Operation → Vfs OpenWorld
  | .openFile path flags => (Vfs.vfsOpen resolve v path flags).1
  | .opendir path => (Vfs.vfsOpendir resolve v path).1
  | .close fd => (Vfs.vfsClose v fd).1
  | .getInode path => { v with files := (ext4GetInode v.files path).1 }
  | .other f =>
    { v with files :=
        { f v.files with
          world := { (f v.files).world with nextInodeNum := v.files.world.nextInodeNum } } }

/-- A run. -/
def operateAll (v : Vfs OpenWorld) (ops : List Operation) : Vfs OpenWorld := ops.foldl operate v

/-- How many inodes an operation creates. -/
def creates (v : Vfs OpenWorld) : Operation → ℕ
  | .openFile path _ => lookupCreates v.files path
  | .opendir path => lookupCreates v.files path
  | .close _ => 0
  | .getInode _ => ext4Creates v.files
  | .other _ => 0

/-- How many inodes a run creates. -/
def created : Vfs OpenWorld → List Operation → ℕ
  | _, [] => 0
  | v, op :: ops => creates v op + created (operate v op) ops

/-- The state after `vfs_init`, with `next_inode_num` as it is initialised. -/
def boot (w : OpenWorld) : Vfs OpenWorld :=
  Vfs.vfsInit { world := { w with nextInodeNum := 1 }, inodes := fun _ => {} }

/-- Descriptors have functions that were installed, and the counter is a 32-bit number. -/
structure Installed (v : Vfs OpenWorld) : Prop where
  ops : ∀ j ops, (v.descriptors j).ops = some ops → ∃ found, ops = opsOf found
  lt : v.files.world.nextInodeNum < 2 ^ 32

/-- At the start there are no descriptors, and the counter is 1. -/
lemma installed_boot (w : OpenWorld) : Installed (boot w) :=
  ⟨fun j ops h => by simp [boot, Vfs.vfsInit] at h, by simp [boot, Vfs.vfsInit]⟩

/-- A step that keeps the counter gives descriptors functions that were installed. -/
lemma SameCounter.ops {v' : Vfs OpenWorld} (h : SameCounter s v v') (hv : Installed v) (j : ℕ)
    (ops : FileOperations OpenWorld) (hops : (v'.descriptors j).ops = some ops) :
    ∃ found, ops = opsOf found := by
  rcases h.descriptors with hdesc | ⟨k, i, found, flags, hdesc⟩
  · rw [hdesc] at hops
    exact hv.ops j ops hops
  · rw [hdesc] at hops
    by_cases hjk : j = k
    · rw [hjk, Function.update_self] at hops
      exact ⟨found, (Option.some.inj hops).symm⟩
    · rw [Function.update_of_ne hjk] at hops
      exact hv.ops j ops hops

/-- `vfs_close` leaves the counter as it is. -/
lemma vfsClose_counter (hv : Installed v) (fd : ℤ) :
    (v.vfsClose fd).1.files.world.nextInodeNum = v.files.world.nextInodeNum ∧
      ∀ j ops, ((v.vfsClose fd).1.descriptors j).ops = some ops → ∃ found, ops = opsOf found := by
  rw [Vfs.vfsClose]
  by_cases hopen : ¬ v.IsOpen fd
  · rw [if_pos hopen]
    exact ⟨rfl, hv.ops⟩
  rw [if_neg hopen]
  -- the functions of a descriptor that is written are those it had, or none
  have hslot : ∀ d : FileDescriptor OpenWorld,
      d.ops = none ∨ d.ops = (v.descriptors fd.toNat).ops → ∀ j ops,
        (Function.update v.descriptors fd.toNat d j).ops = some ops → ∃ found, ops = opsOf found := by
    intro d hd j ops hops
    by_cases hj : j = fd.toNat
    · rw [hj, Function.update_self] at hops
      rcases hd with hd | hd
      · rw [hd] at hops
        simp at hops
      · rw [hd] at hops
        exact hv.ops fd.toNat ops hops
    · rw [Function.update_of_ne hj] at hops
      exact hv.ops j ops hops
  by_cases hlast : (v.descriptors fd.toNat).refCount - 1 = 0
  · simp only [hlast, if_true]
    refine ⟨?_, hslot _ (.inl rfl)⟩
    rw [world_vfsDestroyInode]
    cases hops : (v.descriptors fd.toNat).ops with
    | none => rfl
    | some ops =>
      obtain ⟨found, rfl⟩ := hv.ops fd.toNat ops hops
      simp only []
      split_ifs
      · exact nextInodeNum_callClose found
      · rfl
  · simp only [hlast, if_false]
    exact ⟨trivial, hslot _ (.inr rfl)⟩

/-- **The counter after one operation.** -/
lemma operate_counter (hv : Installed v) (op : Operation) :
    Installed (operate v op) ∧ Advances v.files (operate v op).files (creates v op) := by
  have hmod : ∀ (v' : Vfs OpenWorld) {n : ℕ}, Advances v.files v'.files n →
      v'.files.world.nextInodeNum < 2 ^ 32 := by
    intro v' n hadvances
    rw [hadvances]
    exact Nat.mod_lt _ (by decide)
  have hlookup : ∀ {v' : Vfs OpenWorld} {path : CString}, SameCounter (lookup v.files path).1 v v' →
      Installed v' ∧ Advances v.files v'.files (lookupCreates v.files path) := by
    intro v' path hsame
    have hadvances : Advances v.files v'.files (lookupCreates v.files path) :=
      hsame.nextInodeNum.trans (nextInodeNum_lookup hv.lt path)
    exact ⟨⟨hsame.ops hv, hmod v' hadvances⟩, hadvances⟩
  cases op with
  | openFile path flags => exact hlookup (sameCounter_vfsOpen v path flags)
  | opendir path => exact hlookup (sameCounter_vfsOpendir v path)
  | close fd =>
    obtain ⟨hcounter, hops⟩ := vfsClose_counter hv fd
    have hadvances : Advances v.files (v.vfsClose fd).1.files 0 := Advances.zero hv.lt hcounter
    exact ⟨⟨hops, hmod _ hadvances⟩, hadvances⟩
  | getInode path =>
    have hadvances := (ext4GetInode_number hv.lt path).1
    exact ⟨⟨hv.ops, hmod (operate v (.getInode path)) hadvances⟩, hadvances⟩
  | other f => exact ⟨⟨hv.ops, hv.lt⟩, Advances.zero hv.lt rfl⟩

/-- **The counter after a run.**

**Proof sketch.** By induction on the run: the counter is a sum modulo `2 ^ 32` of what the operations
add. -/
lemma nextInodeNum_operateAll (hv : Installed v) (ops : List Operation) :
    Installed (operateAll v ops) ∧ Advances v.files (operateAll v ops).files (created v ops) := by
  induction ops generalizing v with
  | nil => exact ⟨hv, Advances.zero hv.lt rfl⟩
  | cons op ops ih =>
    obtain ⟨hop, hadvances⟩ := operate_counter hv op
    obtain ⟨hall, hrest⟩ := ih hop
    refine ⟨hall, ?_⟩
    show (operateAll (operate v op) ops).files.world.nextInodeNum = _
    rw [hrest, hadvances, created, Nat.mod_add_mod, Nat.add_assoc]

/-! ## Numbers on the disk -/

/-- Where an inode is on the disk, the block group and the index in its table, as `ext4_read_inode` and
`ext4_write_inode` compute it. -/
def inodePlace (inodesPerGroup num : ℕ) : ℕ × ℕ :=
  (Word32.sub num 1 / inodesPerGroup, Word32.sub num 1 % inodesPerGroup)

/-- The number of an inode is `m`, the number of the file on the disk, and `ext4_read_inode` and
`ext4_write_inode` find the inode of the file with it. -/
def RightInode (inodesPerGroup m num : ℕ) : Prop :=
  num = m ∧ inodePlace inodesPerGroup num = inodePlace inodesPerGroup m

/-- The place on the disk is right if the number is. -/
lemma rightInode_iff_eq {inodesPerGroup m num : ℕ} : RightInode inodesPerGroup m num ↔ num = m := by
  refine ⟨And.left, fun h => ⟨h, ?_⟩⟩
  rw [h]

/-- **When two lookups of a path give its number on the disk.** After any run from the start, a path is
looked up, and again after any other run. Both lookups give the number `m` of the file on the disk if and
only if so many inodes were created before that it is the turn of this number, and from the first lookup
to the second a multiple of `2 ^ 32` inodes was created.

**Proof sketch.** Each lookup gives the counter as it is, which is 1 and the number of inodes that were
created, modulo `2 ^ 32`. -/
theorem rightInode_iff (w : OpenWorld) (before between : List Operation) (path : CString)
    (inodesPerGroup m : ℕ) {s₁ s₂ : Files OpenWorld} {i₁ i₂ : ℕ} {found₁ found₂ : Found}
    (h₁ : ext4GetInode (operateAll (boot w) before).files path = (s₁, some (i₁, found₁)))
    (h₂ : ext4GetInode (operateAll (boot w) (before ++ .getInode path :: between)).files path =
      (s₂, some (i₂, found₂))) :
    (RightInode inodesPerGroup m (s₁.inodes i₁).inodeNum ∧
        RightInode inodesPerGroup m (s₂.inodes i₂).inodeNum) ↔
      (1 + created (boot w) before) % 2 ^ 32 = m ∧
        2 ^ 32 ∣ created (operateAll (boot w) before) (.getInode path :: between) := by
  obtain ⟨hbefore, hcounter⟩ := nextInodeNum_operateAll (installed_boot w) before
  obtain ⟨hlater, hcounter'⟩ := nextInodeNum_operateAll hbefore (.getInode path :: between)
  have hsplit : operateAll (boot w) (before ++ .getInode path :: between) =
      operateAll (operateAll (boot w) before) (.getInode path :: between) := List.foldl_append ..
  rw [hsplit] at h₂
  have hnum₁ := ((ext4GetInode_number hbefore.lt path).2 i₁ found₁ (by rw [h₁])).1
  have hnum₂ := ((ext4GetInode_number hlater.lt path).2 i₂ found₂ (by rw [h₂])).1
  rw [h₁] at hnum₁
  rw [h₂] at hnum₂
  have hboot : (boot w).files.world.nextInodeNum = 1 := rfl
  rw [Advances, hboot] at hcounter
  rw [Advances] at hcounter'
  rw [rightInode_iff_eq, rightInode_iff_eq, hnum₁, hnum₂, hcounter']
  have hlt := hbefore.lt
  generalize created (operateAll (boot w) before) (.getInode path :: between) = n at *
  generalize (operateAll (boot w) before).files.world.nextInodeNum = k at *
  rw [← hcounter]
  omega

/-- ext4 at the root, and a device. -/
def rootWorld : OpenWorld where
  devfs := (Devfs.devfsInit.devfsRegisterDevice [104] .char 4 0 8192).1
  ext4Mounted := true
  route path := if path = [47, 104] then some (.devfs, path) else some (.ext4, path)
  memory _ := true
  mallocs := 0
  tracked _ := false
  privateData _ := 0
  nextInodeNum := 1

/-- The result of a lookup, with the state after it. -/
lemma exists_state {result : Files OpenWorld × Option (ℕ × Found)} {found : Option (ℕ × Found)}
    (h : result.2 = found) : ∃ s, result = (s, found) :=
  ⟨result.1, Prod.ext rfl h⟩

/-- A device was opened before, so that the root directory has the number 2; the second lookup gives
another one. -/
theorem rightInode_iff_root :
    ∃ s₁ s₂ i₁ i₂ found₁ found₂,
      ext4GetInode (operateAll (boot rootWorld) [.openFile [47, 104] 1]).files [47] =
        (s₁, some (i₁, found₁)) ∧
      ext4GetInode (operateAll (boot rootWorld)
        ([.openFile [47, 104] 1] ++ .getInode [47] :: [.close 0])).files [47] =
        (s₂, some (i₂, found₂)) ∧
      ((RightInode 8 2 (s₁.inodes i₁).inodeNum ∧ RightInode 8 2 (s₂.inodes i₂).inodeNum) ↔
        (1 + created (boot rootWorld) [.openFile [47, 104] 1]) % 2 ^ 32 = 2 ∧
          2 ^ 32 ∣ created (operateAll (boot rootWorld) [.openFile [47, 104] 1])
            (.getInode [47] :: [.close 0])) := by
  have h₁ : (ext4GetInode (operateAll (boot rootWorld) [.openFile [47, 104] 1]).files [47]).2 =
      some (7, .ext4Root) := by decide +kernel
  have h₂ : (ext4GetInode (operateAll (boot rootWorld)
      ([.openFile [47, 104] 1] ++ .getInode [47] :: [.close 0])).files [47]).2 =
      some (11, .ext4Root) := by decide +kernel
  obtain ⟨s₁, hs₁⟩ := exists_state h₁
  obtain ⟨s₂, hs₂⟩ := exists_state h₂
  exact ⟨s₁, s₂, 7, 11, .ext4Root, .ext4Root, hs₁, hs₂,
    rightInode_iff rootWorld [.openFile [47, 104] 1] [.close 0] [47] 8 2 hs₁ hs₂⟩

/-- Two lookups of the root directory, one after the other, give two numbers. -/
theorem inodeNum_root_ne :
    ∃ s₁ s₂ i₁ i₂ found₁ found₂,
      ext4GetInode (boot rootWorld).files [47] = (s₁, some (i₁, found₁)) ∧
      ext4GetInode s₁ [47] = (s₂, some (i₂, found₂)) ∧
      (s₁.inodes i₁).inodeNum ≠ (s₂.inodes i₂).inodeNum := by
  have h₁ : (ext4GetInode (boot rootWorld).files [47]).2 = some (3, .ext4Root) := by decide +kernel
  have h₂ : (ext4GetInode (ext4GetInode (boot rootWorld).files [47]).1 [47]).2 =
      some (7, .ext4Root) := by decide +kernel
  exact ⟨_, _, _, _, _, _, Prod.ext rfl h₁, Prod.ext rfl h₂, by decide +kernel⟩

end OpenPath

end Jarvis
