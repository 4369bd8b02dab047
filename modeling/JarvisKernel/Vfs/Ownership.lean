import JarvisKernel.Vfs.OpenPath

set_option relaxedAutoImplicit false
set_option autoImplicit false

/-!
# Ownership of what opening allocates

What each function on the way of opening a path does to the blocks of memory that it allocates. A call in
progress is described by the blocks that are pending: those that it has allocated and that were not freed
yet.

## Main definitions

* `Jarvis.OpenPath.Progress` — a call in progress.
* `Jarvis.OpenPath.HasInode` — an inode is pending, and what is behind it.

## Main results

* `Jarvis.OpenPath.lookup_spec` — the blocks that are pending after a lookup.
* `Jarvis.OpenPath.ext4FileOpen_spec`, `Jarvis.OpenPath.ext4DirOpendir_spec` — opening an inode.
-/

namespace Jarvis

namespace OpenPath

variable {s₀ s s' : Files OpenWorld} {P : ℕ → Prop} {b i : ℕ}

/-! ## Calls in progress -/

/-- A call that began in `s₀` is in the state `s`: older blocks are as they were, and of the tracked
blocks that it has allocated those in `P` are pending and the others were freed once. -/
structure Progress (s₀ s : Files OpenWorld) (P : ℕ → Prop) : Prop where
  le : s₀.world.mallocs ≤ s.world.mallocs
  mounted : s.world.ext4Mounted = s₀.world.ext4Mounted
  old : ∀ b ≤ s₀.world.mallocs, s.frees b = s₀.frees b ∧ s.world.tracked b = s₀.world.tracked b ∧
    s.inodes b = s₀.inodes b ∧ s.world.privateData b = s₀.world.privateData b
  fresh : ∀ b, s.world.mallocs < b → s.frees b = 0 ∧ s.world.tracked b = false
  pending : ∀ b, s₀.world.mallocs < b → s.world.tracked b = true →
    (P b → s.frees b = 0) ∧ (¬ P b → s.frees b = 1)
  lt : ∀ b, P b → s₀.world.mallocs < b ∧ b ≤ s.world.mallocs ∧ s.world.tracked b = true

/-- Blocks that were not allocated yet are not tracked and were not freed. -/
def Fresh (s : Files OpenWorld) : Prop :=
  ∀ b, s.world.mallocs < b → s.frees b = 0 ∧ s.world.tracked b = false

/-- At the start nothing is pending. -/
lemma Progress.refl (h : Fresh s) : Progress s s fun _ => False := by
  refine ⟨Nat.le_refl _, rfl, fun b _ => ⟨rfl, rfl, rfl, rfl⟩, h, fun b hb ht => ?_, fun b hb => hb.elim⟩
  rw [(h b hb).2] at ht
  simp at ht

/-- The same pending blocks, said differently. -/
lemma Progress.congr {Q : ℕ → Prop} (h : Progress s₀ s P) (hPQ : ∀ b, P b ↔ Q b) :
    Progress s₀ s Q := by
  obtain rfl : P = Q := funext fun b => propext (hPQ b)
  exact h

/-- The state after a call of `malloc` without a block. -/
def withMalloc (s : Files OpenWorld) : Files OpenWorld :=
  { s with world := { s.world with mallocs := s.world.mallocs + 1 } }

/-- The state after `malloc` returned a block. -/
def withBlock (s : Files OpenWorld) (tracked : Bool) : Files OpenWorld :=
  { s with world :=
      { s.world with
        mallocs := s.world.mallocs + 1
        tracked := Function.update s.world.tracked (s.world.mallocs + 1) tracked } }

/-- A temporary block is there if there is memory. -/
lemma mallocTemporary_eq {ok : Bool} (h : s.world.memory s.world.mallocs = ok) :
    mallocTemporary s = (withMalloc s, ok) := congrArg (Prod.mk _) h

/-- A block is allocated or not. -/
lemma mallocBlock_cases (s : Files OpenWorld) (tracked : Bool) :
    mallocBlock s tracked = (withMalloc s, 0) ∨
      mallocBlock s tracked = (withBlock s tracked, s.world.mallocs + 1) := by
  rw [mallocBlock]
  split_ifs
  · exact .inr rfl
  · exact .inl rfl

/-- With memory there is a block. -/
lemma mallocBlock_of_memory {tracked : Bool} (h : s.world.memory s.world.mallocs = true) :
    mallocBlock s tracked = (withBlock s tracked, s.world.mallocs + 1) := if_pos h

/-- Without memory there is none. -/
lemma mallocBlock_of_not {tracked : Bool} (h : s.world.memory s.world.mallocs = false) :
    mallocBlock s tracked = (withMalloc s, 0) := if_neg (by simp [h])

/-- The other blocks are tracked as before. -/
lemma tracked_withBlock_of_ne {tracked : Bool} (hb : b ≠ s.world.mallocs + 1) :
    (withBlock s tracked).world.tracked b = s.world.tracked b := Function.update_of_ne hb _ _

/-- A call of `malloc` without a block keeps what is pending. -/
lemma Progress.withMalloc (h : Progress s₀ s P) : Progress s₀ (withMalloc s) P := by
  refine ⟨Nat.le_succ_of_le h.le, h.mounted, h.old, fun b hb => h.fresh b (Nat.lt_of_succ_lt hb), h.pending,
    fun b hb => ?_⟩
  obtain ⟨hlt, hle, ht⟩ := h.lt b hb
  exact ⟨hlt, Nat.le_succ_of_le hle, ht⟩

/-- A tracked block is pending when it was allocated. -/
lemma Progress.withBlock (h : Progress s₀ s P) :
    Progress s₀ (withBlock s true) fun b => P b ∨ b = s.world.mallocs + 1 := by
  have hle := h.le
  refine ⟨Nat.le_succ_of_le h.le, h.mounted, fun b hb => ?_, fun b hb => ?_, fun b hb ht => ?_,
    fun b hb => ?_⟩
  · obtain ⟨hfrees, ht, hinode, hpriv⟩ := h.old b hb
    exact ⟨hfrees, (tracked_withBlock_of_ne (by omega)).trans ht, hinode, hpriv⟩
  · have hb' : s.world.mallocs + 1 < b := hb
    rw [tracked_withBlock_of_ne (by omega)]
    exact h.fresh b (by omega)
  · by_cases hnew : b = s.world.mallocs + 1
    · have hfree := (h.fresh b (by omega)).1
      exact ⟨fun _ => hfree, fun hP => absurd (.inr hnew) hP⟩
    · rw [tracked_withBlock_of_ne hnew] at ht
      obtain ⟨hzero, hone⟩ := h.pending b hb ht
      refine ⟨fun hP => hzero ?_, fun hP => hone fun hPb => hP (.inl hPb)⟩
      rcases hP with hP | hP
      · exact hP
      · exact absurd hP hnew
  · rcases hb with hb | rfl
    · obtain ⟨hlt, hble, ht⟩ := h.lt b hb
      refine ⟨hlt, Nat.le_succ_of_le hble, ?_⟩
      rw [tracked_withBlock_of_ne (by omega)]
      exact ht
    · refine ⟨by omega, Nat.le_refl _, ?_⟩
      show Function.update s.world.tracked (s.world.mallocs + 1) true (s.world.mallocs + 1) = true
      rw [Function.update_self]

/-- A block that is not tracked does not matter. -/
lemma Progress.withUntracked (h : Progress s₀ s P) : Progress s₀ (OpenPath.withBlock s false) P := by
  have hle := h.le
  have hnew : (OpenPath.withBlock s false).world.tracked (s.world.mallocs + 1) = false :=
    Function.update_self ..
  refine ⟨Nat.le_succ_of_le h.le, h.mounted, fun b hb => ?_, fun b hb => ?_, fun b hb ht => ?_,
    fun b hb => ?_⟩
  · obtain ⟨hfrees, ht, hinode, hpriv⟩ := h.old b hb
    exact ⟨hfrees, (tracked_withBlock_of_ne (by omega)).trans ht, hinode, hpriv⟩
  · have hb' : s.world.mallocs + 1 < b := hb
    rw [tracked_withBlock_of_ne (by omega)]
    exact h.fresh b (by omega)
  · by_cases hb' : b = s.world.mallocs + 1
    · rw [hb', hnew] at ht
      simp at ht
    · rw [tracked_withBlock_of_ne hb'] at ht
      exact h.pending b hb ht
  · obtain ⟨hlt, hble, ht⟩ := h.lt b hb
    refine ⟨hlt, Nat.le_succ_of_le hble, ?_⟩
    rw [tracked_withBlock_of_ne (by omega)]
    exact ht

/-- `free` of a block that is not `NULL`. -/
lemma free_of_ne (hb : b ≠ 0) :
    s.free b = { s with frees := Function.update s.frees b (s.frees b + 1) } := if_neg hb

/-- A block that is freed was freed once more. -/
lemma free_frees_self (hb : b ≠ 0) : (s.free b).frees b = s.frees b + 1 := by
  rw [free_of_ne hb]
  exact Function.update_self ..

/-- The other blocks were not. -/
lemma free_frees_of_ne {c : ℕ} (hc : c ≠ b) : (s.free b).frees c = s.frees c := by
  rw [Files.free]
  split_ifs
  · rfl
  · exact Function.update_of_ne hc _ _

/-- The inodes stay. -/
lemma free_inodes : (s.free b).inodes = s.inodes := by
  rw [Files.free]
  split_ifs <;> rfl

/-- So does the rest. -/
lemma free_world : (s.free b).world = s.world := by
  rw [Files.free]
  split_ifs <;> rfl

/-- A pending block that is freed is no longer pending. -/
lemma Progress.free (h : Progress s₀ s P) (hb : P b) :
    Progress s₀ (s.free b) fun c => P c ∧ c ≠ b := by
  obtain ⟨hlt, hble, htb⟩ := h.lt b hb
  refine ⟨?_, ?_, fun c hc => ?_, fun c hc => ?_, fun c hc ht => ?_, fun c hc => ?_⟩
  · rw [free_world]
    exact h.le
  · rw [free_world]
    exact h.mounted
  · rw [free_frees_of_ne (by omega), free_world, free_inodes]
    exact h.old c hc
  · rw [free_world] at hc ⊢
    rw [free_frees_of_ne (by omega)]
    exact h.fresh c hc
  · rw [free_world] at ht
    by_cases hcb : c = b
    · subst hcb
      rw [free_frees_self (by omega), (h.pending c hc ht).1 hb]
      exact ⟨fun hP => absurd rfl hP.2, fun _ => rfl⟩
    · rw [free_frees_of_ne hcb]
      obtain ⟨hzero, hone⟩ := h.pending c hc ht
      exact ⟨fun hP => hzero hP.1, fun hP => hone fun hPc => hP ⟨hPc, hcb⟩⟩
  · rw [free_world]
    exact h.lt c hc.1

/-- Freeing a new block that is not tracked does not matter. -/
lemma Progress.freeUntracked (h : Progress s₀ s P) (hlt : s₀.world.mallocs < b)
    (hle : b ≤ s.world.mallocs) (ht : s.world.tracked b = false) : Progress s₀ (s.free b) P := by
  refine ⟨?_, ?_, fun c hc => ?_, fun c hc => ?_, fun c hc htc => ?_, ?_⟩
  · rw [free_world]
    exact h.le
  · rw [free_world]
    exact h.mounted
  · rw [free_frees_of_ne (by omega), free_world, free_inodes]
    exact h.old c hc
  · rw [free_world] at hc ⊢
    rw [free_frees_of_ne (by omega)]
    exact h.fresh c hc
  · rw [free_world] at htc
    have hcb : c ≠ b := by
      rintro rfl
      rw [ht] at htc
      simp at htc
    rw [free_frees_of_ne hcb]
    exact h.pending c hc htc
  · rw [free_world]
    exact h.lt

/-- Assignments to new inodes do not matter. -/
lemma Progress.of_inode (h : Progress s₀ s P) (hi : s₀.world.mallocs < i)
    (hfrees : s'.frees = s.frees) (hmallocs : s'.world.mallocs = s.world.mallocs)
    (htracked : s'.world.tracked = s.world.tracked)
    (hmounted : s'.world.ext4Mounted = s.world.ext4Mounted)
    (hinodes : ∀ c, c ≠ i → s'.inodes c = s.inodes c)
    (hpriv : ∀ c, c ≠ i → s'.world.privateData c = s.world.privateData c) : Progress s₀ s' P := by
  refine ⟨by rw [hmallocs]; exact h.le, hmounted.trans h.mounted, fun c hc => ?_, ?_, ?_, ?_⟩
  · rw [hfrees, htracked, hinodes c (by omega), hpriv c (by omega)]
    exact h.old c hc
  · rw [hfrees, htracked, hmallocs]
    exact h.fresh
  · rw [hfrees, htracked]
    exact h.pending
  · rw [htracked, hmallocs]
    exact h.lt

/-! ## Inodes -/

/-- The pending blocks are an inode and, unless it is 0, the block that its `private_data` points to. -/
structure HasInode (s₀ s : Files OpenWorld) (i : ℕ) (type : FileType) (block : ℕ) : Prop where
  progress : Progress s₀ s fun b => b = i ∨ b = block ∧ block ≠ 0
  refCount : (s.inodes i).refCount = 1
  type_eq : (s.inodes i).type = type
  privateData : s.world.privateData i = block
  ne : block ≠ i

/-- The `private_data` of a new inode is assigned without a free. -/
lemma Progress.setPrivateData {block : ℕ} (h : Progress s₀ s P) (hi : s₀.world.mallocs < i) :
    Progress s₀ (setPrivateData s i block) P := by
  refine h.of_inode hi rfl rfl rfl rfl (fun c _ => rfl) fun c hc => ?_
  exact Function.update_of_ne hc _ _

/-- An inode whose last reference is dropped is freed. -/
lemma vfsDestroyInode_of_refCount (hi : i ≠ 0) (hone : (s.inodes i).refCount = 1) :
    s.vfsDestroyInode i = (s.setRefCount i 0).free i := by
  rw [Files.vfsDestroyInode, if_pos ⟨hi, by omega⟩, hone]
  rfl

/-- Destroying an inode with one reference frees its block, which is pending no more. -/
lemma Progress.vfsDestroyInode (h : Progress s₀ s P) (hi : P i) (hone : (s.inodes i).refCount = 1) :
    Progress s₀ (s.vfsDestroyInode i) fun c => P c ∧ c ≠ i := by
  have hlt := (h.lt i hi).1
  rw [vfsDestroyInode_of_refCount (by omega) hone]
  have hset : Progress s₀ (s.setRefCount i 0) P :=
    h.of_inode hlt rfl rfl rfl rfl (fun c hc => Function.update_of_ne hc _ _) fun c _ => rfl
  exact hset.free hi

/-- An inode without anything behind it is gone when it is destroyed. -/
lemma HasInode.vfsDestroyInode {type : FileType} (h : HasInode s₀ s i type 0) :
    Progress s₀ (s.vfsDestroyInode i) fun _ => False := by
  refine (h.progress.vfsDestroyInode (.inl rfl) h.refCount).congr fun b => ?_
  constructor
  · rintro ⟨rfl | ⟨-, hzero⟩, hne⟩
    · exact hne rfl
    · exact hzero rfl
  · exact False.elim

/-- `vfs_create_inode`: there was no memory, or the inode is pending. -/
lemma vfsCreateInode_spec (h : Progress s₀ s fun _ => False) (type : FileType) (permissions : ℕ) :
    (∃ s', vfsCreateInode s type permissions = (s', 0) ∧ Progress s₀ s' fun _ => False) ∨
      ∃ s' i, vfsCreateInode s type permissions = (s', i + 1) ∧ HasInode s₀ s' (i + 1) type 0 := by
  rw [vfsCreateInode]
  rcases mallocBlock_cases s true with hcall | hcall
  · rw [hcall]
    exact .inl ⟨_, rfl, h.withMalloc⟩
  · rw [hcall]
    refine .inr ⟨_, s.world.mallocs, rfl, ?_⟩
    have hblock := h.withBlock
    have hlt : s₀.world.mallocs < s.world.mallocs + 1 := Nat.lt_succ_of_le h.le
    refine ⟨?_, ?_, ?_, Function.update_self .., by omega⟩
    · apply Progress.congr (P := fun b => False ∨ b = s.world.mallocs + 1)
      · refine hblock.of_inode hlt rfl rfl rfl rfl (fun c hc => ?_) fun c hc => ?_
        · exact Function.update_of_ne hc _ _
        · exact Function.update_of_ne hc _ _
      · intro b
        exact ⟨fun hb => .inl (hb.resolve_left id), fun hb => .inr (hb.resolve_right fun h0 => h0.2 rfl)⟩
    · dsimp only
      rw [Function.update_self]
    · dsimp only
      rw [Function.update_self]

/-- A block behind an inode. -/
lemma HasInode.attach {type : FileType} (h : HasInode s₀ s i type 0) (hle : i ≤ s.world.mallocs) :
    HasInode s₀ (OpenPath.setPrivateData (OpenPath.withBlock s true) i (s.world.mallocs + 1)) i type
      (s.world.mallocs + 1) := by
  have hlt := (h.progress.lt i (.inl rfl)).1
  refine ⟨?_, h.refCount, h.type_eq, Function.update_self .., by omega⟩
  refine (h.progress.withBlock.setPrivateData hlt).congr fun b => ?_
  constructor
  · rintro ((rfl | ⟨-, hzero⟩) | rfl)
    · exact .inl rfl
    · exact absurd rfl hzero
    · exact .inr ⟨rfl, by omega⟩
  · rintro (rfl | ⟨rfl, -⟩)
    · exact .inl (.inl rfl)
    · exact .inr rfl

/-- An inode that was found stays when a temporary block is allocated. -/
lemma HasInode.withMalloc {type : FileType} {block : ℕ} (h : HasInode s₀ s i type block) :
    HasInode s₀ (OpenPath.withMalloc s) i type block :=
  ⟨h.progress.withMalloc, h.refCount, h.type_eq, h.privateData, h.ne⟩

/-- A block that was allocated besides the inode, and is freed. -/
lemma HasInode.freeExtra {type : FileType} {block : ℕ}
    (h : Progress s₀ s fun c => (c = i ∨ c = block ∧ block ≠ 0) ∨ c = b)
    (hone : (s.inodes i).refCount = 1) (htype : (s.inodes i).type = type)
    (hpriv : s.world.privateData i = block) (hne : block ≠ i) (hi : b ≠ i) (hblock : b ≠ block) :
    HasInode s₀ (s.free b) i type block := by
  refine ⟨(h.free (.inr rfl)).congr fun c => ?_, ?_, ?_, ?_, hne⟩
  · constructor
    · rintro ⟨hc | rfl, hcb⟩
      · exact hc
      · exact absurd rfl hcb
    · rintro (rfl | ⟨rfl, hzero⟩)
      · exact ⟨.inl (.inl rfl), Ne.symm hi⟩
      · exact ⟨.inl (.inr ⟨rfl, hzero⟩), Ne.symm hblock⟩
  · rw [free_inodes, hone]
  · rw [free_inodes, htype]
  · rw [free_world, hpriv]

/-! ## Lookups -/

/-- The record that `devfs_get_inode` fills is freed again, and the `DeviceInfo` is left behind the
inode. -/
lemma devfsOps_spec {type : FileType} (h : HasInode s₀ s i type 0) (device : DeviceType) :
    ∃ s' found block, devfsOps s i device = (s', found) ∧ HasInode s₀ s' i type block ∧
      (block = 0 ↔ found = .bare) ∧ found ≠ .ext4File ∧ found ≠ .ext4Root := by
  obtain ⟨hlt, hle, -⟩ := h.progress.lt i (.inl rfl)
  rw [devfsOps]
  rcases mallocBlock_cases s true with hcall | hcall
  · rw [hcall]
    exact ⟨_, _, 0, rfl, h.withMalloc, by simp, by simp, by simp⟩
  rw [hcall]
  have hops := h.progress.withBlock
  by_cases hnet : device = .net
  · simp only [if_pos hnet]
    have hfreed : HasInode s₀ ((withBlock s true).free (s.world.mallocs + 1)) i type 0 :=
      HasInode.freeExtra hops h.refCount h.type_eq h.privateData h.ne (by omega) (by omega)
    rcases mallocBlock_cases ((withBlock s true).free (s.world.mallocs + 1)) true with hinfo | hinfo
    · rw [hinfo]
      exact ⟨_, _, 0, rfl, hfreed.withMalloc, by simp, by simp, by simp⟩
    · rw [hinfo]
      refine ⟨_, _, _, rfl, hfreed.attach ?_, by simp, by simp, by simp⟩
      exact (hfreed.progress.lt i (.inl rfl)).2.1
  · simp only [if_neg hnet]
    rcases mallocBlock_cases (withBlock s true) true with hinfo | hinfo
    · rw [hinfo]
      refine ⟨_, _, 0, rfl, ?_, by simp, by simp, by simp⟩
      exact HasInode.freeExtra hops.withMalloc h.refCount h.type_eq h.privateData h.ne (by omega)
        (by omega)
    · rw [hinfo]
      refine ⟨_, _, s.world.mallocs + 1 + 1, rfl, ?_, by simp, by simp, by simp⟩
      refine HasInode.freeExtra ((hops.withBlock.setPrivateData hlt).congr fun c => ?_) h.refCount
        h.type_eq (Function.update_self ..) (by omega) (by omega) (by omega)
      show ((c = i ∨ c = 0 ∧ 0 ≠ 0) ∨ c = s.world.mallocs + 1) ∨ c = s.world.mallocs + 1 + 1 ↔ _
      omega

/-- What a lookup leaves pending: nothing if it finds nothing, otherwise an inode and what is behind
it. -/
def LookupResult (s₀ : Files OpenWorld) : Files OpenWorld × Option (ℕ × Found) → Prop
  | (s, none) => Progress s₀ s fun _ => False
  | (s, some (i, found)) => ∃ type block, HasInode s₀ s i type block ∧
      (block = 0 ↔ found = .bare) ∧ (type = .directory ↔ found = .ext4Root) ∧
      (found = .ext4File ∨ found = .ext4Root → s.world.ext4Mounted = true)

/-- `devfs_get_inode` has found an inode with its blocks, or has left nothing behind. -/
lemma devfsGetInode_spec (h : Progress s₀ s fun _ => False) (path : CString) :
    LookupResult s₀ (devfsGetInode s path) := by
  rw [devfsGetInode]
  cases s.world.devfs.findDeviceByName (Devfs.deviceName path) with
  | none => exact h
  | some index =>
    generalize hdevice : (s.world.devfs.devices index).type = device
    generalize htype : (if device = .block then FileType.blockDevice else .charDevice) = type
    have hdir : type ≠ .directory := by
      rw [← htype]
      split_ifs <;> simp
    rcases vfsCreateInode_spec h type 0x1B6 with ⟨s', hcall, hs'⟩ | ⟨s', i, hcall, hs'⟩
    · simp only [hdevice, htype, hcall]
      exact hs'
    · obtain ⟨s₂, found, block, hops, hinode, hbare, hfile, hroot⟩ := devfsOps_spec hs' device
      simp only [hdevice, htype, hcall, hops]
      exact ⟨type, block, hinode, hbare, by simp [hdir, hroot], by simp [hfile, hroot]⟩

/-- So has `ext4_new_inode`. -/
lemma ext4NewInode_spec (h : Progress s₀ s fun _ => False) {type : FileType} {found : Found}
    (hbare : found ≠ .bare) (hdir : type = .directory ↔ found = .ext4Root)
    (hmounted : s₀.world.ext4Mounted = true) (permissions : ℕ) :
    LookupResult s₀ (ext4NewInode s type permissions found) := by
  rw [ext4NewInode]
  rcases vfsCreateInode_spec h type permissions with ⟨s', hcall, hs'⟩ | ⟨s', i, hcall, hs'⟩
  · rw [hcall]
    exact hs'
  · simp only [hcall]
    rcases mallocBlock_cases s' true with hops | hops
    · simp only [hops]
      exact hs'.withMalloc.vfsDestroyInode
    · simp only [hops]
      have hle := (hs'.progress.lt _ (.inl rfl)).2.1
      have hattach := hs'.attach hle
      exact ⟨type, _, hattach, by simp [hbare], hdir, fun _ => hattach.progress.mounted.trans hmounted⟩

/-- And `ext4_get_inode`. -/
lemma ext4GetInode_spec (h : Progress s₀ s fun _ => False) (path : CString) :
    LookupResult s₀ (ext4GetInode s path) := by
  rw [ext4GetInode]
  by_cases hunmounted : s.world.ext4Mounted = false
  · rw [if_pos hunmounted]
    exact h
  rw [if_neg hunmounted]
  have hmounted : s₀.world.ext4Mounted = true := by
    rw [← h.mounted]
    simpa using hunmounted
  rcases hcall : mallocTemporary s with ⟨s₁, ok⟩
  obtain rfl : withMalloc s = s₁ := congrArg Prod.fst hcall
  cases ok with
  | false => exact h.withMalloc
  | true =>
    simp only [ext4FindInode]
    rcases hcall₂ : mallocTemporary (withMalloc s) with ⟨s₂, ok⟩
    obtain rfl : withMalloc (withMalloc s) = s₂ := congrArg Prod.fst hcall₂
    cases ok with
    | false => exact h.withMalloc.withMalloc
    | true =>
      simp only []
      split_ifs
      · exact ext4NewInode_spec h.withMalloc.withMalloc (by simp) (by simp) hmounted _
      · exact ext4NewInode_spec h.withMalloc.withMalloc (by simp) (by simp) hmounted _

/-- **The blocks that are pending after a lookup.** -/
lemma lookup_spec (h : Fresh s) (path : CString) : LookupResult s (lookup s path) := by
  have hrefl := Progress.refl h
  rw [lookup]
  rcases hcall : mallocTemporary s with ⟨s₁, ok⟩
  obtain rfl : withMalloc s = s₁ := congrArg Prod.fst hcall
  cases ok with
  | false => exact hrefl.withMalloc
  | true =>
    simp only []
    rcases (withMalloc s).world.route path with _ | ⟨_ | _, rest⟩
    · exact hrefl.withMalloc
    · exact ext4GetInode_spec hrefl.withMalloc rest
    · exact devfsGetInode_spec hrefl.withMalloc rest

/-! ## Opening files and directories -/

/-- `ext4_read_inode`, when there is memory. -/
lemma ext4ReadInode_of_memory (hblock : s.world.memory s.world.mallocs = true)
    (hbuffer : s.world.memory (s.world.mallocs + 1) = true) :
    ext4ReadInode s = (withMalloc (withBlock s false), s.world.mallocs + 1) := by
  rw [ext4ReadInode, mallocBlock_of_memory hblock]
  simp only [mallocTemporary_eq (s := withBlock s false) hbuffer]

/-- The block of `ext4_read_inode` does not matter. -/
lemma HasInode.readInode {type : FileType} {block : ℕ} (h : HasInode s₀ s i type block) :
    HasInode s₀ (OpenPath.withMalloc (OpenPath.withBlock s false)) i type block :=
  ⟨h.progress.withUntracked.withMalloc, h.refCount, h.type_eq, h.privateData, h.ne⟩

/-- The block of `ext4_read_inode` is not tracked. -/
lemma tracked_readInode :
    (withMalloc (withBlock s false)).world.tracked (s.world.mallocs + 1) = false :=
  Function.update_self ..

/-- `ext4_file_open` succeeds when there is memory, and leaves nothing behind. -/
lemma ext4FileOpen_spec {type : FileType} {block : ℕ} (h : HasInode s₀ s i type block) (flags : ℕ)
    (hmounted : s.world.ext4Mounted = true) (hmemory : s.world.memory s.world.mallocs = true)
    (hbuffer : s.world.memory (s.world.mallocs + 1) = true) :
    ∃ s', ext4FileOpen s i flags = (s', 0) ∧ HasInode s₀ s' i type block := by
  rw [ext4FileOpen, if_neg (by simp [hmounted]), ext4ReadInode_of_memory hmemory hbuffer]
  refine ⟨_, rfl, ?_⟩
  have hread := h.readInode
  have hlt : s₀.world.mallocs < s.world.mallocs + 1 := Nat.lt_succ_of_le h.progress.le
  refine ⟨hread.progress.freeUntracked hlt ?_ tracked_readInode, ?_, ?_, ?_, h.ne⟩
  · exact Nat.le_succ _
  · rw [free_inodes, hread.refCount]
  · rw [free_inodes, hread.type_eq]
  · rw [free_world, hread.privateData]

/-- `ext4_dir_opendir` succeeds when there is memory, and frees what was behind the inode. -/
lemma ext4DirOpendir_spec {block : ℕ} (h : HasInode s₀ s i .directory block) (hzero : block ≠ 0)
    (hmounted : s.world.ext4Mounted = true) (hmemory : s.world.memory s.world.mallocs = true)
    (hbuffer : s.world.memory (s.world.mallocs + 1) = true)
    (hiterator : s.world.memory (s.world.mallocs + 2) = true) :
    ∃ s', ext4DirOpendir s i = (s', 0) ∧ (Progress s₀ s' fun b => b = i) ∧
      (s'.inodes i).refCount = 1 ∧ s'.world.ext4Mounted = true ∧
      ∃ b, s'.world.privateData i = b ∧ s₀.world.mallocs < b ∧ b ≤ s'.world.mallocs ∧
        s'.world.tracked b = false := by
  obtain ⟨hlt, hle, -⟩ := h.progress.lt i (.inl rfl)
  have hs₀ := h.progress.le
  have hread := h.readInode
  have hblock := (h.progress.lt block (.inr ⟨rfl, hzero⟩)).2.1
  rw [ext4DirOpendir, if_neg (by simp [hmounted]), if_neg (by simp [h.type_eq]),
    ext4ReadInode_of_memory hmemory hbuffer]
  have hcall : mallocBlock (withMalloc (withBlock s false)) false =
      (withBlock (withMalloc (withBlock s false)) false, s.world.mallocs + 2 + 1) :=
    mallocBlock_of_memory hiterator
  have hpriv : (withBlock (withMalloc (withBlock s false)) false).world.privateData i = block :=
    hread.privateData
  simp only [hcall, hpriv]
  have hfreed := hread.progress.withUntracked.free (b := block) (.inr ⟨rfl, hzero⟩)
  refine ⟨_, rfl, ?_, ?_, ?_, ?_⟩
  · refine (hfreed.setPrivateData hlt).congr fun b => ?_
    constructor
    · rintro ⟨rfl | ⟨rfl, -⟩, hne⟩
      · rfl
      · exact absurd rfl hne
    · rintro rfl
      exact ⟨.inl rfl, Ne.symm h.ne⟩
  · show (((withBlock (withMalloc (withBlock s false)) false).free block).inodes i).refCount = 1
    rw [free_inodes]
    exact h.refCount
  · show ((withBlock (withMalloc (withBlock s false)) false).free block).world.ext4Mounted = true
    rw [free_world]
    exact hmounted
  · refine ⟨s.world.mallocs + 1, Function.update_self .., by omega, ?_, ?_⟩
    · show s.world.mallocs + 1 ≤ ((withBlock (withMalloc (withBlock s false)) false).free block).world.mallocs
      rw [free_world]
      exact Nat.le_add_right _ 2
    · show ((withBlock (withMalloc (withBlock s false)) false).free block).world.tracked _ = false
      rw [free_world]
      refine (Function.update_of_ne ?_ _ _).trans tracked_readInode
      show s.world.mallocs + 1 ≠ s.world.mallocs + 2 + 1
      omega

end OpenPath

end Jarvis
