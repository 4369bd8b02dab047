import JarvisKernel.Ext4.BlockAddresses
import JarvisKernel.Vfs.Mount

set_option relaxedAutoImplicit false
set_option autoImplicit false

/-!
# Mounting an arbitrary disk

`ext4_mount` shifts and divides by what it finds on the disk. It prints a warning if the magic number is
another one, and mounts all the same. `kernel_main` takes a failed mount for a disk that is to be
formatted, and starts the installer; a blank disk has no number of blocks in a group, by which the mount
divides.

## Main definitions

* `Jarvis.Ext4.ext4Mount` — mounting a disk, with the operations that have no result.
* `Jarvis.Ext4.ValidSuperBlock` — the superblock of an ext4 file system.
* `Jarvis.Ext4.MountsSafely` — what is wanted of a mount.

## Main results

* `Jarvis.Ext4.result_mountTable`, `Jarvis.Ext4.status_vfsMount` — what the mount table and `kernel_main` make of
  the result.
* `Jarvis.Ext4.mountsSafely_iff` — it holds exactly if no disk is read, or the superblock is valid.
-/

namespace Jarvis

namespace Ext4

open ByteBuffer

variable {sectors : ℕ → ℕ → BitVec 8} {memory : ℕ → Bool}

/-! ## Mounting -/

/-- Operations that have no result: a shift by 32 or more, and a division by 0. -/
inductive MountFault where
  | shift
  | division
  deriving DecidableEq

/-- `ext4_read_super_block` of any disk. The block size is computed first, by a shift. -/
def readSuperBlock (sectors : ℕ → ℕ → BitVec 8) (memory : ℕ → Bool) : Except MountFault Ext4 :=
  let fs := ext4ReadSuperBlock sectors memory
  if 32 ≤ get32 fs.superBlock 24 then .error .shift
  else if fs.blocksPerGroup = 0 then .error .division
  else .ok fs

/-- `ext4_mount`: `ext4_fs_data` afterwards, and the result. `record` says whether there is memory for
`ext4_fs_data`, and `disks` are the active block devices. -/
def ext4Mount (mounted : Option Ext4) (source target : Option CString) (record : Bool)
    (disks : List (ℕ → ℕ → BitVec 8)) (memory : ℕ → Bool) : Except MountFault (Option Ext4 × ℤ) :=
  if source = none ∨ target = none then .ok (mounted, -1)
  else if mounted.isSome then .ok (mounted, -1)
  else if record = false then .ok (mounted, -1)
  else
    match disks with
    | [] => .ok (none, -1)
    | disk :: _ => (readSuperBlock disk memory).map fun fs => (some fs, 0)

/-- `kernel_main` after mounting: `system_hardware_status`. `vfs_mount` has the result 0 if `ext4_mount`
has, and otherwise -1. -/
def systemHardwareStatus (mountResult : ℤ) : ℕ := if mountResult = 0 then 1 else 2

/-- `init_user_mode` starts the installer, and not the shell. -/
def startsInstaller (installFlag status : ℕ) : Bool :=
  decide (installFlag = 0x12345678 ∨ status = 2)

/-- The mount table has the result of `ext4_mount`, for the superblock of the first disk. -/
lemma result_mountTable (t : MountTable) (mounted : Option Ext4) (source : Option CString)
    (target : CString) (record : Bool) (disks : List (ℕ → ℕ → BitVec 8)) (memory : ℕ → Bool)
    (hmounted : t.ext4.isSome = mounted.isSome) (hdisks : t.numBlockDevices = disks.length)
    (hsuper : ∀ disk ∈ disks.head?, t.blocksPerGroup = (ext4ReadSuperBlock disk memory).blocksPerGroup ∧
      get32 (ext4ReadSuperBlock disk memory).superBlock 24 < 32) :
    (t.ext4Mount source target record).map Prod.snd =
      (ext4Mount mounted source (some target) record disks memory).toOption.map Prod.snd := by
  unfold ext4Mount
  rw [MountTable.ext4Mount, hmounted, hdisks]
  simp only [reduceCtorEq, or_false]
  by_cases hsource : source = none
  · rw [if_pos hsource, if_pos hsource]
    rfl
  rw [if_neg hsource, if_neg hsource]
  by_cases hsome : mounted.isSome = true
  · rw [if_pos hsome, if_pos hsome]
    rfl
  rw [if_neg hsome, if_neg hsome]
  by_cases hrecord : record = false
  · rw [if_pos hrecord, if_pos hrecord]
    rfl
  rw [if_neg hrecord, if_neg hrecord]
  cases disks with
  | nil => rfl
  | cons disk disks =>
    obtain ⟨hgroup, hlog⟩ := hsuper disk rfl
    rw [if_neg (by simp), hgroup]
    dsimp only
    rw [readSuperBlock, if_neg (Nat.not_le_of_lt hlog)]
    split_ifs <;> rfl

/-- **The status of the hardware** after `kernel_main` has mounted ext4 is what the result of `ext4_mount` says,
also through the mount table. -/
lemma status_vfsMount (t : MountTable) (mounted : Option Ext4) (source : Option CString)
    (target fsType : CString) (record dup : Bool) (disks : List (ℕ → ℕ → BitVec 8)) (memory : ℕ → Bool)
    (hroom : t.numMountPoints < maxMountPoints) (hnew : t.findMount target = none)
    (hregistered : t.findFilesystem fsType = some .ext4) (hmounted : t.ext4.isSome = mounted.isSome)
    (hdisks : t.numBlockDevices = disks.length)
    (hsuper : ∀ disk ∈ disks.head?, t.blocksPerGroup = (ext4ReadSuperBlock disk memory).blocksPerGroup ∧
      get32 (ext4ReadSuperBlock disk memory).superBlock 24 < 32) :
    (t.vfsMount source target fsType record dup).map (fun r => systemHardwareStatus r.2) =
      (ext4Mount mounted source (some target) record disks memory).toOption.map
        fun r => systemHardwareStatus r.2 := by
  have hresult := result_mountTable t mounted source target record disks memory hmounted hdisks hsuper
  have hstatus := congrArg (Option.map systemHardwareStatus) hresult
  rw [Option.map_map, Option.map_map] at hstatus
  refine Eq.trans ?_ hstatus
  have hmount : t.mountFs .ext4 source target record = t.ext4Mount source target record := rfl
  rw [MountTable.vfsMount, if_neg (not_le.2 hroom), hnew, hregistered]
  dsimp only
  rw [hmount]
  rcases t.ext4Mount source target record with _ | ⟨t', result⟩
  · rfl
  · by_cases hzero : result = 0
    · simp [hzero]
    · simp [hzero, systemHardwareStatus]

/-! ## What is wanted -/

/-- The magic number is `EXT4_SUPER_MAGIC`, groups have blocks and inodes, and the block size is between
`EXT4_MIN_BLOCK_SIZE` and `EXT4_MAX_BLOCK_SIZE`. -/
structure ValidSuperBlock (fs : Ext4) : Prop where
  magic : get16 fs.superBlock 56 = 0xEF53
  blocksPerGroup : 0 < fs.blocksPerGroup
  inodesPerGroup : 0 < fs.inodesPerGroup
  minBlockSize : 1024 ≤ fs.blockSize
  maxBlockSize : fs.blockSize ≤ 65536

/-- What is wanted of a mount: all its operations have results, it succeeds only for a valid superblock,
and otherwise nothing is mounted and the installer is started. -/
def MountsSafely (mounted : Option Ext4) (outcome : Except MountFault (Option Ext4 × ℤ)) : Prop :=
  ∃ mounted' result, outcome = .ok (mounted', result) ∧
    (result = 0 ∧ (∃ fs, mounted' = some fs ∧ ValidSuperBlock fs) ∨
      result = -1 ∧ mounted' = mounted ∧
        ∀ installFlag, startsInstaller installFlag (systemHardwareStatus result) = true)

/-! ## Superblocks -/

/-- The block size of a disk that was read is that of its superblock. -/
lemma ValidSuperBlock.mounted (h : ValidSuperBlock (ext4ReadSuperBlock sectors memory)) :
    Mounted (ext4ReadSuperBlock sectors memory) :=
  ⟨rfl, h.minBlockSize, h.maxBlockSize⟩

/-- A valid superblock is read without faults: the shift is by 6 at most. -/
lemma ValidSuperBlock.readSuperBlock_eq (h : ValidSuperBlock (ext4ReadSuperBlock sectors memory)) :
    readSuperBlock sectors memory = .ok (ext4ReadSuperBlock sectors memory) := by
  have hmounted := h.mounted
  have hlog : get32 (ext4ReadSuperBlock sectors memory).superBlock 24 < 32 := by
    by_contra hle
    have hdvd : 2 ^ 32 ∣ 1024 * 2 ^ get32 (ext4ReadSuperBlock sectors memory).superBlock 24 :=
      (Nat.pow_dvd_pow 2 (Nat.le_of_not_lt hle)).mul_left 1024
    have hmin := h.minBlockSize
    rw [hmounted.blockSize, Word32.mul, Nat.mod_eq_zero_of_dvd hdvd] at hmin
    omega
  rw [readSuperBlock, if_neg (by omega), if_neg (Nat.ne_of_gt h.blocksPerGroup)]

/-- The kernel starts the installer if the mount failed. -/
lemma startsInstaller_of_failed (installFlag : ℕ) :
    startsInstaller installFlag (systemHardwareStatus (-1)) = true := by
  rw [startsInstaller, decide_eq_true_iff]
  exact .inr rfl

/-- Reading the superblock of a disk is safe iff it is valid. -/
lemma mountsSafely_readSuperBlock_iff (mounted : Option Ext4) :
    MountsSafely mounted ((readSuperBlock sectors memory).map fun fs => (some fs, 0)) ↔
      ValidSuperBlock (ext4ReadSuperBlock sectors memory) := by
  constructor
  · rintro ⟨mounted', result, hcall, hresult⟩
    rw [readSuperBlock] at hcall
    split_ifs at hcall with hshift hdivision
    · exact absurd hcall (by simp [Except.map])
    · exact absurd hcall (by simp [Except.map])
    · obtain ⟨hfs, hzero⟩ := Prod.mk.inj (Except.ok.inj hcall)
      rcases hresult with ⟨-, fs, hsome, hvalid⟩ | ⟨hnegative, -⟩
      · rw [Option.some.inj (hfs.trans hsome)]
        exact hvalid
      · exact absurd (hzero.trans hnegative) (by decide)
  · intro hvalid
    rw [hvalid.readSuperBlock_eq]
    exact ⟨_, 0, rfl, .inl ⟨rfl, _, rfl, hvalid⟩⟩

/-- **Mounting is safe** exactly if it fails before a disk is read, or the superblock is valid.

**Proof sketch.** The exits before the disk is read return -1 and leave what was mounted. After them the
only exit is the one with the result 0. -/
theorem mountsSafely_iff (mounted : Option Ext4) (source target : Option CString) (record : Bool)
    (disks : List (ℕ → ℕ → BitVec 8)) (memory : ℕ → Bool) :
    MountsSafely mounted (ext4Mount mounted source target record disks memory) ↔
      source = none ∨ target = none ∨ mounted.isSome = true ∨ record = false ∨
        ∀ disk ∈ disks.head?, ValidSuperBlock (ext4ReadSuperBlock disk memory) := by
  unfold ext4Mount
  split_ifs with hnull hmounted hrecord
  · refine iff_of_true ⟨mounted, -1, rfl, .inr ⟨rfl, rfl, startsInstaller_of_failed⟩⟩ ?_
    rcases hnull with hnull | hnull
    · exact .inl hnull
    · exact .inr (.inl hnull)
  · exact iff_of_true ⟨mounted, -1, rfl, .inr ⟨rfl, rfl, startsInstaller_of_failed⟩⟩
      (.inr (.inr (.inl hmounted)))
  · exact iff_of_true ⟨mounted, -1, rfl, .inr ⟨rfl, rfl, startsInstaller_of_failed⟩⟩
      (.inr (.inr (.inr (.inl hrecord))))
  · obtain ⟨hsource, htarget⟩ := not_or.1 hnull
    rw [or_iff_right hsource, or_iff_right htarget, or_iff_right hmounted, or_iff_right hrecord]
    cases disks with
    | nil =>
      refine iff_of_true ⟨none, -1, rfl, .inr ⟨rfl, ?_, startsInstaller_of_failed⟩⟩ (by simp)
      exact (Option.not_isSome_iff_eq_none.1 hmounted).symm
    | cons disk disks =>
      simp only [List.head?_cons, Option.mem_some_iff, forall_eq']
      exact mountsSafely_readSuperBlock_iff mounted

/-- On a blank disk the mount divides by 0, and a disk without the magic number is mounted. -/
theorem not_mountsSafely :
    ¬ MountsSafely none (ext4Mount none (some [47]) (some [47]) true [fun _ _ => 0] fun _ => true) ∧
      ¬ MountsSafely none (ext4Mount none (some [47]) (some [47]) true [wideDevice] fun _ => true) := by
  constructor
  · show ¬ MountsSafely none ((readSuperBlock (fun _ _ => 0) fun _ => true).map fun fs => (some fs, 0))
    rw [mountsSafely_readSuperBlock_iff]
    intro hvalid
    exact absurd hvalid.blocksPerGroup (by decide +kernel)
  · show ¬ MountsSafely none ((readSuperBlock wideDevice fun _ => true).map fun fs => (some fs, 0))
    rw [mountsSafely_readSuperBlock_iff]
    intro hvalid
    exact absurd hvalid.magic (by decide +kernel)

end Ext4

end Jarvis
