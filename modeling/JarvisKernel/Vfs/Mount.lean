import JarvisKernel.Lib.Table
import JarvisKernel.Text.Strings

set_option relaxedAutoImplicit false
set_option autoImplicit false

/-!
# Mount points

The mount table of `src/fs/vfs.c`, with the mount functions of ext4 and devfs. A mount point is recorded
in the table, and by ext4 once more, in a field of 64 bytes. A file system that was mounted can be
unmounted next, and everything is then as before, exactly if its target fits the field.

What else ext4 keeps about the disk is left out, apart from `blocks_per_group`, by which
`ext4_read_super_block` divides.

## Main definitions

* `Jarvis.MountTable` — the mount table, and what ext4 remembers of its mount.
* `Jarvis.MountTable.vfsMount`, `Jarvis.MountTable.vfsUmount` — the operations.

## Main results

* `Jarvis.MountTable.vfsMount_eq_zero_iff` — when a file system is mounted.
* `Jarvis.MountTable.umount_restores_iff` — when unmounting undoes mounting.
-/

namespace Jarvis

/-! ## Data types -/

/-- `MAX_MOUNT_POINTS`. -/
def maxMountPoints : ℕ := 32

/-- The file systems of the kernel. -/
inductive FileSystem where
  | ext4
  | devfs
  deriving DecidableEq

/-- `name` of a file system: `"ext4"` and `"devfs"`. -/
def FileSystem.name : FileSystem → CString
  | .ext4 => [101, 120, 116, 52]
  | .devfs => [100, 101, 118, 102, 115]

/-- `MountPoint`. The path is `NULL` if `strdup` had no memory. -/
structure MountPoint where
  path : Option CString := none
  fs : FileSystem := .ext4
  deriving DecidableEq

/-- `mount_points`, `num_mount_points` and `registered_filesystems` of the VFS, and of ext4
`ext4_fs_data->mount_point` if it is mounted. `numBlockDevices` and `blocksPerGroup` are what `ext4_mount`
finds: the number of block devices and the superblock's field on the first of them. `nullText` is the
string at address 0. -/
structure MountTable where
  mountPoints : ℕ → MountPoint
  numMountPoints : ℕ
  registered : List FileSystem
  ext4 : Option CString
  numBlockDevices : ℕ
  blocksPerGroup : ℕ
  nullText : CString

namespace MountTable

/-! ## Operations -/

/-- The text that `strcmp` finds at a path. -/
def text (t : MountTable) (path : Option CString) : CString := path.getD t.nullText

/-- The first mount point with the given text. -/
def findMount (t : MountTable) (target : CString) : Option ℕ :=
  (List.range t.numMountPoints).find? fun i => decide (t.text (t.mountPoints i).path = target)

/-- `find_filesystem`. -/
def findFilesystem (t : MountTable) (fsType : CString) : Option FileSystem :=
  t.registered.find? fun fs => decide (fs.name = fsType)

/-- `sizeof(ext4_fs_data->mount_point)`. -/
def mountPointSize : ℕ := 64

/-- `ext4_mount`; `memory` says whether `malloc` succeeds. There is no result if the superblock's
`blocks_per_group` is 0, since `ext4_read_super_block` divides by it. -/
def ext4Mount (t : MountTable) (source : Option CString) (target : CString) (memory : Bool) :
    Option (MountTable × ℤ) :=
  if source = none then some (t, -1)
  else if t.ext4.isSome then some (t, -1)
  else if memory = false then some (t, -1)
  else if t.numBlockDevices = 0 then some (t, -1)
  else if t.blocksPerGroup = 0 then none
  else some ({ t with ext4 := some (target.take (mountPointSize - 1)) }, 0)

/-- `ext4_umount`. -/
def ext4Umount (t : MountTable) (target : CString) : MountTable × ℤ :=
  if t.ext4 = some target then ({ t with ext4 := none }, 0) else (t, -1)

/-- `fs->mount`; that of devfs is `devfs_mount_impl`. -/
def mountFs (t : MountTable) (fs : FileSystem) (source : Option CString) (target : CString)
    (memory : Bool) : Option (MountTable × ℤ) :=
  match fs with
  | .ext4 => t.ext4Mount source target memory
  | .devfs => some (t, 0)

/-- `fs->umount`; that of devfs is `devfs_umount_impl`. -/
def umountFs (t : MountTable) (fs : FileSystem) (target : CString) : MountTable × ℤ :=
  match fs with
  | .ext4 => t.ext4Umount target
  | .devfs => (t, 0)

/-- The mount table with one more entry; `dup` says whether `strdup` succeeds. -/
def addMount (t : MountTable) (fs : FileSystem) (target : CString) (dup : Bool) : MountTable :=
  { t with
    mountPoints := Function.update t.mountPoints t.numMountPoints
      { path := if dup then some target else none, fs := fs }
    numMountPoints := t.numMountPoints + 1 }

/-- `vfs_mount`. -/
def vfsMount (t : MountTable) (source : Option CString) (target fsType : CString)
    (memory dup : Bool) : Option (MountTable × ℤ) :=
  if maxMountPoints ≤ t.numMountPoints then some (t, -1)
  else
    match t.findMount target with
    | some _ => some (t, -1)
    | none =>
      match t.findFilesystem fsType with
      | none => some (t, -1)
      | some fs =>
        match t.mountFs fs source target memory with
        | none => none
        | some (t, result) =>
          if result ≠ 0 then some (t, -1) else some (t.addMount fs target dup, 0)

/-- `vfs_umount`. -/
def vfsUmount (t : MountTable) (target : CString) : MountTable × ℤ :=
  match t.findMount target with
  | none => (t, -1)
  | some i =>
    match t.umountFs (t.mountPoints i).fs target with
    | (t, result) =>
      if result ≠ 0 then (t, -1)
      else
        ({ t with
            mountPoints := Table.moveDown t.mountPoints (t.numMountPoints - 1 - i) i
            numMountPoints := t.numMountPoints - 1 },
          0)

/-! ## What is mounted -/

/-- The same mount points. -/
structure SameTable (t t' : MountTable) : Prop where
  number : t'.numMountPoints = t.numMountPoints
  entries : ∀ i < t.numMountPoints, t'.mountPoints i = t.mountPoints i

/-- A table is the same as itself. -/
lemma SameTable.refl (t : MountTable) : SameTable t t := ⟨rfl, fun _ _ => rfl⟩

variable {t t' : MountTable} {source : Option CString} {target fsType : CString}
  {memory dup : Bool} {fs : FileSystem} {i : ℕ}

/-- What a file system needs to be mounted. -/
def CanMount (t : MountTable) (source : Option CString) (memory : Bool) : FileSystem → Prop
  | .ext4 => source ≠ none ∧ t.ext4 = none ∧ memory = true ∧ 0 < t.numBlockDevices ∧
      0 < t.blocksPerGroup
  | .devfs => True

/-- The ext4 state after a mount. -/
def ext4After (t : MountTable) (target : CString) : FileSystem → Option CString
  | .ext4 => some (target.take (mountPointSize - 1))
  | .devfs => t.ext4

/-- A file system returns 0 if it can be mounted, and otherwise -1, or nothing. -/
lemma mountFs_cases (t : MountTable) (source : Option CString) (target : CString) (memory : Bool)
    (fs : FileSystem) :
    (t.CanMount source memory fs ∧
        t.mountFs fs source target memory = some ({ t with ext4 := t.ext4After target fs }, 0)) ∨
      ¬ t.CanMount source memory fs ∧
        (t.mountFs fs source target memory = some (t, -1) ∨
          t.mountFs fs source target memory = none) := by
  cases fs with
  | devfs => exact .inl ⟨trivial, rfl⟩
  | ext4 =>
    rw [mountFs, ext4Mount, CanMount]
    split_ifs with h₁ h₂ h₃ h₄ h₅
    · exact .inr ⟨fun h => h.1 h₁, .inl rfl⟩
    · exact .inr ⟨fun h => by rw [h.2.1] at h₂; simp at h₂, .inl rfl⟩
    · exact .inr ⟨fun h => by rw [h.2.2.1] at h₃; simp at h₃, .inl rfl⟩
    · exact .inr ⟨fun h => by omega, .inl rfl⟩
    · exact .inr ⟨fun h => by omega, .inr rfl⟩
    · refine .inl ⟨⟨h₁, by simpa using h₂, by simpa using h₃, by omega, by omega⟩, rfl⟩

/-- `vfs_mount` accepts the call: the table has room, the target is not in it, and the file system is
registered and can be mounted. -/
structure Accepts (t : MountTable) (source : Option CString) (target fsType : CString)
    (memory : Bool) (fs : FileSystem) : Prop where
  room : t.numMountPoints < maxMountPoints
  unused : t.findMount target = none
  registered : t.findFilesystem fsType = some fs
  mountable : t.CanMount source memory fs

/-- The mount table after a mount. -/
def mounted (t : MountTable) (fs : FileSystem) (target : CString) (dup : Bool) : MountTable :=
  { t with ext4 := t.ext4After target fs }.addMount fs target dup

/-- `vfs_mount` adds a mount point if it accepts the call, and changes nothing otherwise. -/
lemma vfsMount_cases (t : MountTable) (source : Option CString) (target fsType : CString)
    (memory dup : Bool) :
    (∃ fs, t.Accepts source target fsType memory fs ∧
        t.vfsMount source target fsType memory dup = some (t.mounted fs target dup, 0)) ∨
      (∀ fs, ¬ t.Accepts source target fsType memory fs) ∧
        (t.vfsMount source target fsType memory dup = some (t, -1) ∨
          t.vfsMount source target fsType memory dup = none) := by
  rw [vfsMount]
  split_ifs with hroom
  · exact .inr ⟨fun fs h => absurd h.room (by omega), .inl rfl⟩
  · cases hfind : t.findMount target with
    | some i => exact .inr ⟨fun fs h => by simpa [hfind] using h.unused, .inl rfl⟩
    | none =>
      cases hfs : t.findFilesystem fsType with
      | none => exact .inr ⟨fun fs h => by simpa [hfs] using h.registered, .inl rfl⟩
      | some fs =>
        rcases mountFs_cases t source target memory fs with ⟨hcan, hres⟩ | ⟨hcan, hres⟩
        · refine .inl ⟨fs, ⟨by omega, hfind, hfs, hcan⟩, ?_⟩
          simp only [hres]
          rfl
        · refine .inr ⟨fun fs' h => hcan ?_, ?_⟩
          · obtain rfl : fs = fs' := Option.some.inj (hfs.symm.trans h.registered)
            exact h.mountable
          · rcases hres with hres | hres
            · left
              simp only [hres]
              rfl
            · right
              simp only [hres]

/-- `vfs_mount` returns 0 exactly if it accepts the call. -/
lemma vfsMount_eq_zero_iff :
    t.vfsMount source target fsType memory dup = some (t', 0) ↔
      ∃ fs, t.Accepts source target fsType memory fs ∧ t' = t.mounted fs target dup := by
  rcases vfsMount_cases t source target fsType memory dup with ⟨fs, hacc, hres⟩ | ⟨hno, hres | hres⟩
  · rw [hres]
    constructor
    · intro h
      obtain ⟨rfl, -⟩ := Prod.mk.inj (Option.some.inj h)
      exact ⟨fs, hacc, rfl⟩
    · rintro ⟨fs', hacc', rfl⟩
      obtain rfl : fs = fs' := Option.some.inj (hacc.registered.symm.trans hacc'.registered)
      rfl
  · rw [hres]
    refine ⟨fun h => ?_, fun ⟨fs, hacc, _⟩ => absurd hacc (hno fs)⟩
    simpa using (Prod.mk.inj (Option.some.inj h)).2
  · rw [hres]
    exact ⟨fun h => by simp at h, fun ⟨fs, hacc, _⟩ => absurd hacc (hno fs)⟩

/-! ## Unmounting -/

/-- The new mount point is found, unless its path is missing and something else is at address 0. -/
lemma findMount_mounted (hunused : t.findMount target = none) (fs : FileSystem) (dup : Bool) :
    (t.mounted fs target dup).findMount target =
      if dup = true ∨ t.nullText = target then some t.numMountPoints else none := by
  have hnone : ∀ i ∈ List.range t.numMountPoints,
      ¬ decide (t.text (t.mountPoints i).path = target) = true :=
    List.find?_eq_none.1 hunused
  rw [findMount]
  show (List.range (t.numMountPoints + 1)).find? _ = _
  rw [List.range_succ, List.find?_append]
  have hold : (List.range t.numMountPoints).find? (fun i =>
      decide ((t.mounted fs target dup).text ((t.mounted fs target dup).mountPoints i).path = target)) =
      none := by
    rw [List.find?_eq_none]
    intro i hi
    have hne : i ≠ t.numMountPoints := Nat.ne_of_lt (List.mem_range.1 hi)
    have hentry : (t.mounted fs target dup).mountPoints i = t.mountPoints i := by
      simp [mounted, addMount, hne]
    rw [hentry]
    exact hnone i hi
  have hnew : ((t.mounted fs target dup).mountPoints t.numMountPoints).path =
      if dup = true then some target else none := by
    simp [mounted, addMount]
  rw [hold, Option.none_or, List.find?_singleton, hnew]
  cases dup with
  | true => simp [text]
  | false =>
    have hnull : (t.mounted fs target false).nullText = t.nullText := rfl
    simp [text, hnull]

/-- The file system of the new mount point can be unmounted if its target fits the field. -/
lemma umountFs_mounted (hcan : t.CanMount source memory fs) (target : CString) (dup : Bool) :
    ((fs = .ext4 → target.length < mountPointSize) ∧
        (t.mounted fs target dup).umountFs fs target =
          ({ t.mounted fs target dup with ext4 := t.ext4 }, 0)) ∨
      ¬ (fs = .ext4 → target.length < mountPointSize) ∧
        (t.mounted fs target dup).umountFs fs target = (t.mounted fs target dup, -1) := by
  cases fs with
  | devfs => exact .inl ⟨by simp, rfl⟩
  | ext4 =>
    have hsize : mountPointSize = 64 := rfl
    have hext : (t.mounted .ext4 target dup).ext4 = some (target.take (mountPointSize - 1)) := rfl
    rw [umountFs, ext4Umount, hext]
    by_cases hlen : target.length < mountPointSize
    · have htake : target.take (mountPointSize - 1) = target := List.take_of_length_le (by omega)
      rw [htake, if_pos rfl, hcan.2.1]
      exact .inl ⟨fun _ => hlen, rfl⟩
    · have htake : target.take (mountPointSize - 1) ≠ target := by
        intro heq
        have hlength := congrArg List.length heq
        rw [List.length_take] at hlength
        omega
      rw [if_neg fun h => htake (Option.some.inj h)]
      exact .inr ⟨fun h => hlen (h rfl), rfl⟩

/-- Unmounting next undoes a mount: it returns 0, and the table and the ext4 state are as before. -/
def UmountRestores (t t' : MountTable) (target : CString) : Prop :=
  ∃ t'', t'.vfsUmount target = (t'', 0) ∧ SameTable t t'' ∧ t''.ext4 = t.ext4

/-- Unmounting undoes an accepted mount exactly if the target fits the field of ext4, and the mount point
is found again. -/
lemma umountRestores_mounted_iff (hunused : t.findMount target = none)
    (hcan : t.CanMount source memory fs) (dup : Bool) :
    UmountRestores t (t.mounted fs target dup) target ↔
      (fs = .ext4 → target.length < mountPointSize) ∧ (dup = true ∨ t.nullText = target) := by
  have hentry : ((t.mounted fs target dup).mountPoints t.numMountPoints).fs = fs := by
    simp [mounted, addMount]
  have hfind := findMount_mounted hunused fs dup
  by_cases hdup : dup = true ∨ t.nullText = target
  · rw [if_pos hdup] at hfind
    rcases umountFs_mounted hcan target dup with ⟨hlen, hres⟩ | ⟨hlen, hres⟩
    · refine ⟨fun _ => ⟨hlen, hdup⟩, fun _ => ?_⟩
      rw [UmountRestores, vfsUmount, hfind]
      simp only [hentry, hres]
      refine ⟨_, rfl, ⟨rfl, fun i hi => ?_⟩, rfl⟩
      show Table.moveDown _ (t.numMountPoints + 1 - 1 - t.numMountPoints) t.numMountPoints i = _
      rw [Table.moveDown_apply, if_neg (by omega)]
      simp [mounted, addMount, Nat.ne_of_lt hi]
    · refine ⟨fun ⟨t'', hcode, _, _⟩ => ?_, fun h => absurd h.1 hlen⟩
      rw [vfsUmount, hfind] at hcode
      simp only [hentry, hres] at hcode
      simpa using (Prod.mk.inj hcode).2
  · rw [if_neg hdup] at hfind
    refine ⟨fun ⟨t'', hcode, _, _⟩ => ?_, fun h => absurd h.2 hdup⟩
    rw [vfsUmount, hfind] at hcode
    simpa using (Prod.mk.inj hcode).2

/-- A file system that is not unmounted changes nothing. -/
lemma umountFs_cases (t : MountTable) (fs : FileSystem) (target : CString) :
    t.umountFs fs target = (t, -1) ∨ (t.umountFs fs target).2 = 0 := by
  cases fs with
  | devfs => exact .inr rfl
  | ext4 =>
    rw [umountFs, ext4Umount]
    split_ifs
    · exact .inr rfl
    · exact .inl rfl

/-- A call of `vfs_umount` that fails changes nothing. -/
lemma eq_of_vfsUmount_eq_neg (h : t.vfsUmount target = (t', -1)) : t' = t := by
  rw [vfsUmount] at h
  cases hfind : t.findMount target with
  | none =>
    rw [hfind] at h
    exact (Prod.mk.inj h).1.symm
  | some i =>
    rw [hfind] at h
    rcases umountFs_cases t (t.mountPoints i).fs target with hfs | hfs
    · simp only [hfs] at h
      exact (Prod.mk.inj h).1.symm
    · rcases hres : t.umountFs (t.mountPoints i).fs target with ⟨u, r⟩
      rw [hres] at hfs
      simp only [hres, show r = 0 from hfs] at h
      simpa using (Prod.mk.inj h).2

/-- For every state and every call: a mount is undone by unmounting next, and calls that fail leave the
table as it is, exactly if the target of an accepted mount of ext4 is shorter than 64 bytes and the path
of the mount point could be copied. -/
theorem umount_restores_iff (t : MountTable) (source : Option CString) (target fsType : CString)
    (memory dup : Bool) :
    ((∀ t', t.vfsMount source target fsType memory dup = some (t', 0) → UmountRestores t t' target) ∧
        (∀ t', t.vfsMount source target fsType memory dup = some (t', -1) → SameTable t t') ∧
        ∀ t', t.vfsUmount target = (t', -1) → SameTable t t') ↔
      ∀ fs, t.Accepts source target fsType memory fs →
        (fs = .ext4 → target.length < mountPointSize) ∧ (dup = true ∨ t.nullText = target) := by
  constructor
  · rintro ⟨hrestores, -, -⟩ fs hacc
    rw [← umountRestores_mounted_iff hacc.unused hacc.mountable]
    apply hrestores
    exact vfsMount_eq_zero_iff.2 ⟨fs, hacc, rfl⟩
  · intro h
    refine ⟨fun t' hmount => ?_, fun t' hmount => ?_, fun t' humount => ?_⟩
    · obtain ⟨fs, hacc, rfl⟩ := vfsMount_eq_zero_iff.1 hmount
      rw [umountRestores_mounted_iff hacc.unused hacc.mountable]
      exact h fs hacc
    · rcases vfsMount_cases t source target fsType memory dup with ⟨fs, -, hres⟩ | ⟨-, hres | hres⟩
      · rw [hres] at hmount
        simpa using (Prod.mk.inj (Option.some.inj hmount)).2
      · rw [hres] at hmount
        obtain ⟨rfl, -⟩ := Prod.mk.inj (Option.some.inj hmount)
        exact .refl t
      · rw [hres] at hmount
        simp at hmount
    · rw [eq_of_vfsUmount_eq_neg humount]
      exact .refl t

/-- A state with ext4 registered and nothing mounted. -/
def unmounted : MountTable where
  mountPoints _ := {}
  numMountPoints := 0
  registered := [.ext4]
  ext4 := none
  numBlockDevices := 1
  blocksPerGroup := 8192
  nullText := []

/-- ext4 cannot be unmounted from a target of 64 bytes. -/
theorem not_umount_long_target :
    ∃ t', unmounted.vfsMount (some [47]) (List.replicate 64 47) FileSystem.ext4.name true true =
        some (t', 0) ∧ ¬ UmountRestores unmounted t' (List.replicate 64 47) := by
  refine ⟨unmounted.mounted .ext4 (List.replicate 64 47) true, rfl, ?_⟩
  have hcan : unmounted.CanMount (some [47]) true .ext4 :=
    ⟨by decide, rfl, rfl, by decide, by decide⟩
  rw [umountRestores_mounted_iff (by decide) hcan]
  decide

end MountTable

end Jarvis
