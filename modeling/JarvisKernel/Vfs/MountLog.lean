import JarvisKernel.Lib.Run
import JarvisKernel.Vfs.Mount
import Mathlib.Data.List.Nodup
import Mathlib.Data.List.Perm.Subperm

set_option relaxedAutoImplicit false
set_option autoImplicit false

/-!
# Runs of mounting and unmounting

`vfs_register_filesystem`, `vfs_mount` and `vfs_umount` of `src/fs/vfs.c`, and `devfs_mount` and
`devfs_umount` of `src/fs/devfs.c`, over whole runs. The mount table is an array with a counter, in which
`vfs_umount` closes the gap, and ext4 remembers its mount once more in a field of its own. Whatever the
calls are, they return what they return for a log of the mounts, in the order in which they were made.

`devfs_init` writes the name of devfs through a pointer that is `NULL`, to address 0. Here the name is a text
of its own, which stays when the text at address 0 changes.

## Main definitions

* `Jarvis.VfsMounts`, `Jarvis.VfsMounts.mountStep` — the mount table with the state of devfs, and the calls.
* `Jarvis.MountLog`, `Jarvis.MountLog.logStep` — the log of the mounts, and what the calls do to it.
* `Jarvis.MountLog.Represents` — the log and the table are the same.

## Main results

* `Jarvis.MountLog.Represents.mountStep` — one call.
* `Jarvis.MountLog.answers_of_run` — every run.
-/

namespace Jarvis

/-! ## The calls -/

/-- `MAX_FILESYSTEMS`. -/
def maxFilesystems : ℕ := 16

namespace MountTable

/-- `vfs_register_filesystem`. -/
def vfsRegisterFilesystem (t : MountTable) (fs : FileSystem) : MountTable × ℤ :=
  if maxFilesystems ≤ t.registered.length then (t, -1)
  else if t.registered.any fun r => decide (r.name = fs.name) then (t, -1)
  else ({ t with registered := t.registered ++ [fs] }, 0)

/-- `vfs_umount` with a pointer that may be `NULL`: `strcmp` finds the text at address 0 there, and
`ext4_umount` refuses. -/
def vfsUmountPath (t : MountTable) (path : Option CString) : MountTable × ℤ :=
  match path with
  | some target => t.vfsUmount target
  | none =>
    match t.findMount t.nullText with
    | none => (t, -1)
    | some i =>
      if (t.mountPoints i).fs = .ext4 then (t, -1)
      else
        ({ t with
            mountPoints := Table.moveDown t.mountPoints (t.numMountPoints - 1 - i) i
            numMountPoints := t.numMountPoints - 1 },
          0)

end MountTable

/-- The mount table, and `devfs_mount_point` with its path; both pointers may be `NULL`. -/
structure VfsMounts where
  table : MountTable
  devfsMountPoint : Option (Option CString)

namespace VfsMounts

/-- `"none"`. -/
def noneText : CString := [110, 111, 110, 101]

/-- `devfs_mount`; `dup`, `memory` and `pointDup` say whether the memory for the path in the mount table, for
`devfs_mount_point` and for its path is there. -/
def devfsMount (s : VfsMounts) (mountPoint : CString) (dup memory pointDup : Bool) :
    Option (VfsMounts × ℤ) :=
  match s.table.vfsRegisterFilesystem .devfs with
  | (t, registered) =>
    if registered ≠ 0 then some ({ s with table := t }, -1)
    else
      match t.vfsMount (some noneText) mountPoint FileSystem.devfs.name true dup with
      | none => none
      | some (t, result) =>
        if result ≠ 0 then some ({ s with table := t }, -1)
        else
          some
            ({ table := t
               devfsMountPoint :=
                if memory then some (if pointDup then some mountPoint else none) else none },
              0)

/-- `devfs_umount`. -/
def devfsUmount (s : VfsMounts) : VfsMounts × ℤ :=
  match s.devfsMountPoint with
  | none => (s, -1)
  | some path =>
    match s.table.vfsUmountPath path with
    | (t, result) =>
      ({ table := t, devfsMountPoint := if result = 0 then none else s.devfsMountPoint }, result)

end VfsMounts

/-- The calls, with what happens outside of them: the block devices, the disk and the text at address 0
change. -/
inductive MountCall where
  | register (fs : FileSystem)
  | mount (source : Option CString) (target fsType : CString) (memory dup : Bool)
  | umount (target : CString)
  | devfsMount (mountPoint : CString) (dup memory pointDup : Bool)
  | devfsUmount
  | outside (numBlockDevices blocksPerGroup : ℕ) (nullText : CString)

namespace VfsMounts

/-- One call, with its result. It does not return if `ext4_mount` divides by 0. -/
def mountStep (s : VfsMounts) : MountCall → Option (VfsMounts × ℤ)
  | .register fs =>
    match s.table.vfsRegisterFilesystem fs with
    | (t, result) => some ({ s with table := t }, result)
  | .mount source target fsType memory dup =>
    (s.table.vfsMount source target fsType memory dup).map fun r => ({ s with table := r.1 }, r.2)
  | .umount target =>
    match s.table.vfsUmountPath (some target) with
    | (t, result) => some ({ s with table := t }, result)
  | .devfsMount mountPoint dup memory pointDup => s.devfsMount mountPoint dup memory pointDup
  | .devfsUmount => some s.devfsUmount
  | .outside numBlockDevices blocksPerGroup nullText =>
    some
      ({ s with table := { s.table with
          numBlockDevices := numBlockDevices, blocksPerGroup := blocksPerGroup, nullText := nullText } },
        0)

/-- The state after `vfs_init`. -/
def initial (nullText : CString) : VfsMounts where
  table :=
    { mountPoints := fun _ => {}
      numMountPoints := 0
      registered := []
      ext4 := none
      numBlockDevices := 0
      blocksPerGroup := 0
      nullText := nullText }
  devfsMountPoint := none

end VfsMounts

/-! ## The log of mounts -/

/-- A mount: the target of the call, whether it could be copied, and the file system. -/
structure LoggedMount where
  target : CString
  copied : Bool
  fs : FileSystem
  deriving DecidableEq

namespace LoggedMount

/-- The path in the mount table. -/
def path (m : LoggedMount) : Option CString := if m.copied then some m.target else none

/-- The entry of the mount table. -/
def mountPoint (m : LoggedMount) : MountPoint where
  path := m.path
  fs := m.fs

/-- A mount of ext4. -/
def isExt4 (m : LoggedMount) : Bool := decide (m.fs = .ext4)

/-- What ext4 remembers of its target. -/
def remembered (m : LoggedMount) : CString := m.target.take (MountTable.mountPointSize - 1)

/-- The file system lets itself be unmounted: ext4 wants what it remembers. -/
def Releases (m : LoggedMount) (path : Option CString) : Prop := m.fs = .ext4 → path = some m.remembered

instance (m : LoggedMount) (path : Option CString) : Decidable (m.Releases path) := by
  unfold Releases
  infer_instance

end LoggedMount

/-- The mounts in the order of their calls, the registered file systems, and what is outside. -/
structure MountLog where
  mounts : List LoggedMount
  registered : List FileSystem
  devfsMountPoint : Option (Option CString)
  numBlockDevices : ℕ
  blocksPerGroup : ℕ
  nullText : CString

namespace MountLog

/-- The mount is found under a target. -/
def named (l : MountLog) (target : CString) (m : LoggedMount) : Bool := decide (m.path.getD l.nullText = target)

/-- A file system is registered once. -/
def register (l : MountLog) (fs : FileSystem) : MountLog × ℤ :=
  if fs ∈ l.registered then (l, -1) else ({ l with registered := l.registered ++ [fs] }, 0)

/-- ext4 refuses without a source, memory or a device, and while it is mounted. -/
def Refuses (l : MountLog) (source : Option CString) (memory : Bool) (fs : FileSystem) : Prop :=
  fs = .ext4 ∧ (source = none ∨ l.mounts.any LoggedMount.isExt4 ∨ memory = false ∨ l.numBlockDevices = 0)

instance (l : MountLog) (source : Option CString) (memory : Bool) (fs : FileSystem) :
    Decidable (l.Refuses source memory fs) := by
  unfold Refuses
  infer_instance

/-- A mount is added at the end. -/
def mount (l : MountLog) (source : Option CString) (target fsType : CString) (memory dup : Bool) :
    Option (MountLog × ℤ) :=
  if maxMountPoints ≤ l.mounts.length ∨ l.mounts.any (l.named target) then some (l, -1)
  else
    match l.registered.find? fun fs => decide (fs.name = fsType) with
    | none => some (l, -1)
    | some fs =>
      if l.Refuses source memory fs then some (l, -1)
      else if fs = .ext4 ∧ l.blocksPerGroup = 0 then none
      else some ({ l with mounts := l.mounts ++ [⟨target, dup, fs⟩] }, 0)

/-- The first mount that is found is removed, if its file system lets itself be unmounted. -/
def umount (l : MountLog) (path : Option CString) : MountLog × ℤ :=
  match l.mounts.find? (l.named (path.getD l.nullText)) with
  | none => (l, -1)
  | some m =>
    if m.Releases path then ({ l with mounts := l.mounts.eraseP (l.named (path.getD l.nullText)) }, 0)
    else (l, -1)

/-- devfs is registered and mounted. -/
def devfsMount (l : MountLog) (mountPoint : CString) (dup memory pointDup : Bool) : Option (MountLog × ℤ) :=
  match l.register .devfs with
  | (l, registered) =>
    if registered ≠ 0 then some (l, -1)
    else
      (l.mount (some VfsMounts.noneText) mountPoint FileSystem.devfs.name true dup).map fun r =>
        if r.2 ≠ 0 then (r.1, -1)
        else
          ({ r.1 with devfsMountPoint :=
              if memory then some (if pointDup then some mountPoint else none) else none }, 0)

/-- What is mounted at the path that devfs remembers is removed. -/
def devfsUmount (l : MountLog) : MountLog × ℤ :=
  match l.devfsMountPoint with
  | none => (l, -1)
  | some path =>
    match l.umount path with
    | (l, result) => ({ l with devfsMountPoint := if result = 0 then none else l.devfsMountPoint }, result)

/-- One call. -/
def logStep (l : MountLog) : MountCall → Option (MountLog × ℤ)
  | .register fs => some (l.register fs)
  | .mount source target fsType memory dup => l.mount source target fsType memory dup
  | .umount target => some (l.umount (some target))
  | .devfsMount mountPoint dup memory pointDup => l.devfsMount mountPoint dup memory pointDup
  | .devfsUmount => some l.devfsUmount
  | .outside numBlockDevices blocksPerGroup nullText =>
    some ({ l with
      numBlockDevices := numBlockDevices, blocksPerGroup := blocksPerGroup, nullText := nullText }, 0)

/-- Nothing is mounted. -/
def empty (nullText : CString) : MountLog where
  mounts := []
  registered := []
  devfsMountPoint := none
  numBlockDevices := 0
  blocksPerGroup := 0
  nullText := nullText

/-! ## The log and the table -/

/-- The mount table has the mounts of the log, with different targets. What ext4 remembers is the target of
the one mount of ext4. -/
structure Shows (l : MountLog) (t : MountTable) : Prop where
  mounts : Table.toList t.mountPoints t.numMountPoints = l.mounts.map LoggedMount.mountPoint
  ext4 : (l.mounts.filter LoggedMount.isExt4).map LoggedMount.remembered = t.ext4.toList
  registered : t.registered = l.registered
  nodup : l.registered.Nodup
  room : l.mounts.length ≤ maxMountPoints
  distinct : l.mounts.Pairwise fun m m' => m.copied = true → m'.copied = true → m.target ≠ m'.target
  numBlockDevices : t.numBlockDevices = l.numBlockDevices
  blocksPerGroup : t.blocksPerGroup = l.blocksPerGroup
  nullText : t.nullText = l.nullText

/-- The log and the table are the same, also for devfs. -/
structure Represents (l : MountLog) (s : VfsMounts) : Prop where
  table : l.Shows s.table
  devfsMountPoint : s.devfsMountPoint = l.devfsMountPoint

variable {l l₁ l₂ : List LoggedMount} {g : MountLog} {t : MountTable} {s : VfsMounts} {m : LoggedMount}
  {target fsType : CString} {path source : Option CString} {memory dup : Bool} {fs : FileSystem}

namespace Shows

/-- The table has as many entries as the log has mounts. -/
lemma number (h : g.Shows t) : t.numMountPoints = g.mounts.length := by
  simpa using congrArg List.length h.mounts

/-- The entry of a mount. -/
lemma entry (h : g.Shows t) (hsplit : g.mounts = l₁ ++ m :: l₂) :
    l₁.length < t.numMountPoints ∧ t.mountPoints l₁.length = m.mountPoint := by
  have hlt : l₁.length < t.numMountPoints := by
    rw [h.number, hsplit]
    simp
  have hentry : (Table.toList t.mountPoints t.numMountPoints)[l₁.length]? = some (t.mountPoints l₁.length) :=
    Table.getElem?_toList hlt
  rw [h.mounts, hsplit] at hentry
  exact ⟨hlt, by simpa using hentry.symm⟩

/-- The search in the table is one in the log. -/
lemma findMount (h : g.Shows t) (target : CString) :
    t.findMount target = g.mounts.findIdx? (g.named target) := by
  have hnamed : (fun p : MountPoint => decide (t.text p.path = target)) ∘ LoggedMount.mountPoint =
      g.named target := by
    funext m
    simp only [Function.comp_apply, MountTable.text, named, h.nullText]
    rfl
  have hfind := Table.find?_range (fun p => decide (t.text p.path = target)) t.mountPoints t.numMountPoints
  rw [h.mounts, List.findIdx?_map, hnamed] at hfind
  exact hfind

/-- Nothing is found, or the first mount that answers to the target. -/
lemma findMount_cases (h : g.Shows t) (target : CString) :
    (t.findMount target = none ∧ g.mounts.find? (g.named target) = none) ∨
      ∃ l₁ m l₂, g.mounts = l₁ ++ m :: l₂ ∧ t.findMount target = some l₁.length ∧
        g.mounts.find? (g.named target) = some m ∧ g.mounts.eraseP (g.named target) = l₁ ++ l₂ := by
  rw [h.findMount]
  cases hfind : g.mounts.find? (g.named target) with
  | none => exact .inl ⟨List.findIdx?_eq_none_iff.2 (by simpa using hfind), rfl⟩
  | some m =>
    obtain ⟨hm, l₁, l₂, hsplit, hbefore⟩ := List.find?_eq_some_iff_append.1 hfind
    have hnot : ∀ a ∈ l₁, ¬ g.named target a = true := by simpa using hbefore
    refine .inr ⟨l₁, m, l₂, hsplit, ?_, rfl, ?_⟩
    · rw [hsplit, List.findIdx?_append, List.findIdx?_eq_none_iff.2 (by simpa using hnot), List.findIdx?_cons, hm]
      simp
    · rw [hsplit, List.eraseP_append_right _ hnot, List.eraseP_cons_of_pos hm]

/-- What ext4 remembers is the target of its mount. -/
lemma ext4_eq (h : g.Shows t) (hm : m ∈ g.mounts) (hext4 : m.fs = .ext4) : t.ext4 = some m.remembered := by
  have hmem : m.remembered ∈ (g.mounts.filter LoggedMount.isExt4).map LoggedMount.remembered :=
    List.mem_map_of_mem (List.mem_filter.2 ⟨hm, decide_eq_true hext4⟩)
  rw [h.ext4] at hmem
  exact Option.mem_toList.1 hmem

/-- ext4 is mounted if it remembers a mount. -/
lemma any_isExt4 (h : g.Shows t) : g.mounts.any LoggedMount.isExt4 = t.ext4.isSome := by
  rw [Bool.eq_iff_iff, List.any_eq_true]
  constructor
  · rintro ⟨m, hm, hext4⟩
    rw [h.ext4_eq hm (of_decide_eq_true hext4)]
    rfl
  · intro hsome
    obtain ⟨text, htext⟩ := Option.isSome_iff_exists.1 hsome
    have hmem : text ∈ (g.mounts.filter LoggedMount.isExt4).map LoggedMount.remembered := by
      rw [h.ext4, htext]
      simp
    obtain ⟨m, hm, -⟩ := List.mem_map.1 hmem
    exact ⟨m, (List.mem_filter.1 hm).1, (List.mem_filter.1 hm).2⟩

/-! ### The operations -/

/-- A file system is registered: its name is that of no other one, and the table has room for both. -/
lemma register (h : g.Shows t) (fs : FileSystem) :
    (g.register fs).1.Shows (t.vfsRegisterFilesystem fs).1 ∧
      (t.vfsRegisterFilesystem fs).2 = (g.register fs).2 := by
  have hname : ∀ r : FileSystem, r.name = fs.name ↔ r = fs := by
    cases fs <;> intro r <;> cases r <;> decide
  have hany : (t.registered.any fun r => decide (r.name = fs.name)) = true ↔ fs ∈ g.registered := by
    simp [List.any_eq_true, hname, h.registered]
  have hroom : t.registered.length < maxFilesystems := by
    have hsub : g.registered ⊆ [.ext4, .devfs] := by
      intro r _
      cases r <;> simp
    rw [h.registered]
    exact Nat.lt_of_le_of_lt (List.subperm_of_subset h.nodup hsub).length_le (by decide)
  rw [MountTable.vfsRegisterFilesystem, MountLog.register, if_neg (Nat.not_le.2 hroom)]
  by_cases hmem : fs ∈ g.registered
  · rw [if_pos (hany.2 hmem), if_pos hmem]
    exact ⟨h, rfl⟩
  · rw [if_neg fun hfound => hmem (hany.1 hfound), if_neg hmem]
    refine ⟨{ h with registered := congrArg (· ++ [fs]) h.registered, nodup := ?_ }, rfl⟩
    rw [← List.concat_eq_append]
    exact List.Nodup.concat hmem h.nodup

/-- A mount is added. -/
lemma add (h : g.Shows t) (hfs : fs = .ext4 → t.ext4 = none) (hroom : g.mounts.length < maxMountPoints)
    (hnew : ∀ m ∈ g.mounts, ¬ g.named target m = true) (dup : Bool) :
    Shows { g with mounts := g.mounts ++ [⟨target, dup, fs⟩] } (t.mounted fs target dup) := by
  refine { h with mounts := ?_, ext4 := ?_, room := ?_, distinct := ?_ }
  · rw [List.map_append, ← h.mounts]
    exact Table.toList_update t.mountPoints t.numMountPoints _
  · rw [List.filter_append, List.map_append, h.ext4]
    cases fs with
    | ext4 =>
      rw [hfs rfl]
      rfl
    | devfs => exact List.append_nil _
  · rw [List.length_append]
    exact hroom
  · rw [List.pairwise_append]
    refine ⟨h.distinct, List.pairwise_singleton _ _, fun m hm m' hm' hcopied _ heq => hnew m hm ?_⟩
    obtain rfl := List.mem_singleton.1 hm'
    rw [named, LoggedMount.path, if_pos hcopied, heq]
    exact decide_eq_true rfl

/-- `vfs_mount` adds a mount, or does not. -/
lemma mount (h : g.Shows t) (source : Option CString) (target fsType : CString) (memory dup : Bool) :
    Run.Alike (fun t g => Shows g t) (t.vfsMount source target fsType memory dup)
      (g.mount source target fsType memory dup) := by
  rw [MountTable.vfsMount, MountLog.mount, h.number]
  by_cases hroom : maxMountPoints ≤ g.mounts.length
  · rw [if_pos hroom, if_pos (.inl hroom)]
    exact .some h
  rw [if_neg hroom]
  rcases h.findMount_cases target with ⟨hnone, hfind⟩ | ⟨l₁, m, l₂, hsplit, hfound, hfind, -⟩
  · have hnew : ∀ m ∈ g.mounts, ¬ g.named target m = true := List.find?_eq_none.1 hfind
    have hany : ¬ g.mounts.any (g.named target) = true := by simpa using hnew
    rw [hnone, if_neg (not_or.2 ⟨hroom, hany⟩), MountTable.findFilesystem, h.registered]
    dsimp only
    cases hfs : g.registered.find? fun fs => decide (fs.name = fsType) with
    | none => exact .some h
    | some fs =>
      dsimp only
      cases fs with
      | devfs =>
        rw [if_neg fun hrefuses => FileSystem.noConfusion hrefuses.1,
          if_neg fun hzero => FileSystem.noConfusion hzero.1]
        exact .some (h.add (fun hfs => FileSystem.noConfusion hfs) (Nat.not_le.1 hroom) hnew dup)
      | ext4 =>
        rw [MountTable.mountFs, MountTable.ext4Mount, ← h.any_isExt4]
        have hdevices := h.numBlockDevices
        by_cases hrefuses : g.Refuses source memory .ext4
        · rw [if_pos hrefuses]
          have hany := hrefuses.2
          rw [← hdevices] at hany
          split_ifs with h₁ h₂ h₃ h₄
          · exact .some h
          · exact .some h
          · exact .some h
          · exact .some h
          · simp [h₁, h₂, h₃, h₄] at hany
          · simp [h₁, h₂, h₃, h₄] at hany
        · rw [if_neg hrefuses]
          obtain ⟨hsource, hnot⟩ := not_or.1 fun hor => hrefuses ⟨rfl, hor⟩
          obtain ⟨hfree, hnot⟩ := not_or.1 hnot
          obtain ⟨hmemory, hdevice⟩ := not_or.1 hnot
          rw [if_neg hsource, if_neg hfree, if_neg hmemory, if_neg fun hzero => hdevice (hdevices.symm.trans hzero)]
          by_cases hzero : g.blocksPerGroup = 0
          · rw [if_pos (h.blocksPerGroup.trans hzero), if_pos ⟨rfl, hzero⟩]
            exact .none
          · rw [if_neg fun ht => hzero (h.blocksPerGroup.symm.trans ht), if_neg fun hand => hzero hand.2]
            rw [h.any_isExt4] at hfree
            exact .some (h.add (fun _ => by simpa using hfree) (Nat.not_le.1 hroom) hnew dup)
  · have hany : g.mounts.any (g.named target) = true :=
      List.any_eq_true.2 ⟨m, List.mem_of_find?_eq_some hfind, List.find?_some hfind⟩
    rw [hfound, if_pos (.inr hany)]
    exact .some h

/-- The gap of a mount is closed. -/
lemma remove (h : g.Shows t) (hsplit : g.mounts = l₁ ++ m :: l₂) :
    Shows { g with mounts := l₁ ++ l₂ }
      { t with
        mountPoints := Table.moveDown t.mountPoints (t.numMountPoints - 1 - l₁.length) l₁.length
        numMountPoints := t.numMountPoints - 1
        ext4 := if m.fs = .ext4 then none else t.ext4 } := by
  have hext4 := h.ext4
  rw [hsplit, List.filter_append] at hext4
  have hsub : (l₁ ++ l₂).Sublist g.mounts := by
    rw [hsplit]
    exact (List.Sublist.refl l₁).append (List.sublist_cons_self m l₂)
  refine { h with
    mounts := ?_, ext4 := ?_, room := hsub.length_le.trans h.room, distinct := h.distinct.sublist hsub }
  · show Table.toList (Table.moveDown _ _ _) (t.numMountPoints - 1) = _
    rw [Table.toList_moveDown (h.entry hsplit).1, h.mounts, hsplit, List.map_append, List.map_cons,
      List.eraseIdx_append_of_length_le (by simp)]
    simp
  · show ((l₁ ++ l₂).filter LoggedMount.isExt4).map _ = _
    rw [List.filter_append]
    split_ifs with hfs
    · have hm : m.isExt4 = true := decide_eq_true hfs
      rw [List.filter_cons_of_pos hm, h.ext4_eq (by simp [hsplit]) hfs] at hext4
      have hlength := congrArg List.length hext4
      simp only [List.length_map, List.length_append, List.length_cons, Option.toList_some,
        List.length_nil] at hlength
      have hnil : l₁.filter LoggedMount.isExt4 ++ l₂.filter LoggedMount.isExt4 = [] := by
        apply List.eq_nil_of_length_eq_zero
        rw [List.length_append]
        omega
      rw [hnil]
      rfl
    · have hm : ¬ m.isExt4 = true := fun hm => hfs (of_decide_eq_true hm)
      rw [List.filter_cons_of_neg hm] at hext4
      exact hext4

/-- `vfs_umount` removes a mount, or does not. -/
lemma umount (h : g.Shows t) (path : Option CString) :
    (g.umount path).1.Shows (t.vfsUmountPath path).1 ∧ (t.vfsUmountPath path).2 = (g.umount path).2 := by
  rw [MountLog.umount]
  rcases h.findMount_cases (path.getD g.nullText) with ⟨hnone, hfind⟩ | ⟨l₁, m, l₂, hsplit, hfound, hfind, herase⟩
  · rw [hfind]
    cases path with
    | none =>
      rw [Option.getD_none, ← h.nullText] at hnone
      rw [MountTable.vfsUmountPath, hnone]
      exact ⟨h, rfl⟩
    | some target =>
      rw [Option.getD_some] at hnone
      rw [MountTable.vfsUmountPath, MountTable.vfsUmount, hnone]
      exact ⟨h, rfl⟩
  · have hfs : (t.mountPoints l₁.length).fs = m.fs := congrArg MountPoint.fs (h.entry hsplit).2
    have hremove := h.remove hsplit
    rw [hfind, herase]
    dsimp only
    cases path with
    | none =>
      rw [Option.getD_none, ← h.nullText] at hfound
      rw [MountTable.vfsUmountPath, hfound]
      dsimp only
      rw [hfs]
      by_cases hext4 : m.fs = .ext4
      · rw [if_pos hext4, if_neg fun hreleases : m.Releases none => absurd (hreleases hext4) (by simp)]
        exact ⟨h, rfl⟩
      · rw [if_neg hext4, if_pos (show m.Releases none from fun hfs => absurd hfs hext4)]
        rw [if_neg hext4] at hremove
        exact ⟨hremove, rfl⟩
    | some target =>
      rw [Option.getD_some] at hfound
      rw [MountTable.vfsUmountPath, MountTable.vfsUmount, hfound]
      dsimp only
      rw [hfs]
      cases hext4 : m.fs with
      | devfs =>
        have hnot : ¬ m.fs = .ext4 := by simp [hext4]
        rw [MountTable.umountFs, if_pos (show m.Releases (some target) from fun hfs => absurd hfs hnot)]
        rw [if_neg hnot] at hremove
        exact ⟨hremove, rfl⟩
      | ext4 =>
        rw [MountTable.umountFs, MountTable.ext4Umount, h.ext4_eq (by simp [hsplit]) hext4]
        rw [if_pos hext4] at hremove
        by_cases htarget : m.remembered = target
        · rw [if_pos (congrArg some htarget),
            if_pos (show m.Releases (some target) from fun _ => congrArg some htarget.symm)]
          exact ⟨hremove, rfl⟩
        · rw [if_neg fun heq => htarget (Option.some.inj heq),
            if_neg fun hreleases : m.Releases (some target) => htarget (Option.some.inj (hreleases hext4)).symm]
          exact ⟨h, rfl⟩

end Shows

/-! ## Every run -/

/-- A call of the mount table that leaves devfs as it is. -/
lemma Represents.of_alike (h : g.Represents s) {o : Option (MountTable × ℤ)} {o' : Option (MountLog × ℤ)}
    (halike : Run.Alike (fun t g => Shows g t) o o')
    (hkeep : ∀ r, o' = some r → r.1.devfsMountPoint = g.devfsMountPoint) :
    Run.Alike (fun s g => Represents g s) (o.map fun r => ({ s with table := r.1 }, r.2)) o' := by
  cases halike with
  | none => exact .none
  | some hpq => exact Option.Rel.some ⟨⟨hpq.1, h.devfsMountPoint.trans (hkeep _ rfl).symm⟩, hpq.2⟩

/-- Registering a file system says nothing of the devices. -/
lemma devfsMountPoint_register (g : MountLog) (fs : FileSystem) :
    (g.register fs).1.devfsMountPoint = g.devfsMountPoint := by
  rw [register]
  split_ifs <;> rfl

/-- Nor does mounting one. -/
lemma devfsMountPoint_mount {r : MountLog × ℤ} (h : g.mount source target fsType memory dup = some r) :
    r.1.devfsMountPoint = g.devfsMountPoint := by
  rw [mount] at h
  split_ifs at h
  · rw [← Option.some.inj h]
  · cases hfind : g.registered.find? fun fs => decide (fs.name = fsType) with
    | none =>
      rw [hfind] at h
      rw [← Option.some.inj h]
    | some fs =>
      rw [hfind] at h
      dsimp only at h
      split_ifs at h
      · rw [← Option.some.inj h]
      · rw [← Option.some.inj h]

/-- Nor does unmounting one. -/
lemma devfsMountPoint_umount (g : MountLog) (path : Option CString) :
    (g.umount path).1.devfsMountPoint = g.devfsMountPoint := by
  rw [umount]
  split
  · rfl
  · split_ifs <;> rfl

/-- `devfs_mount` is a registration and a mount. -/
lemma Represents.devfsMount (h : g.Represents s) (mountPoint : CString) (dup memory pointDup : Bool) :
    Run.Alike (fun s g => Represents g s) (s.devfsMount mountPoint dup memory pointDup)
      (g.devfsMount mountPoint dup memory pointDup) := by
  obtain ⟨htable, hres⟩ := h.table.register .devfs
  have hpoint := h.devfsMountPoint.trans (devfsMountPoint_register g .devfs).symm
  rw [VfsMounts.devfsMount, MountLog.devfsMount]
  rcases hreg : s.table.vfsRegisterFilesystem .devfs with ⟨t, r⟩
  rcases hreg' : g.register .devfs with ⟨g', r'⟩
  rw [hreg, hreg'] at htable hres
  rw [hreg'] at hpoint
  obtain rfl : r = r' := hres
  dsimp only
  by_cases hr : r = 0
  · rw [if_neg (not_not.2 hr), if_neg (not_not.2 hr)]
    have hmount := htable.mount (some VfsMounts.noneText) mountPoint FileSystem.devfs.name true dup
    rcases hm : t.vfsMount (some VfsMounts.noneText) mountPoint FileSystem.devfs.name true dup with _ | ⟨t', x⟩
    · rw [hm] at hmount
      cases hm' : g'.mount (some VfsMounts.noneText) mountPoint FileSystem.devfs.name true dup with
      | none => exact .none
      | some q =>
        rw [hm'] at hmount
        cases hmount
    · rw [hm] at hmount
      obtain ⟨g'', hm', hshows⟩ := hmount.exists_of_some
      rw [hm', Option.map_some]
      dsimp only
      by_cases hx : x = 0
      · rw [if_neg (not_not.2 hx), if_neg (not_not.2 hx)]
        exact .some ⟨{ hshows with }, rfl⟩
      · rw [if_pos hx, if_pos hx]
        exact .some ⟨hshows, hpoint.trans (devfsMountPoint_mount hm').symm⟩
  · rw [if_pos hr, if_pos hr]
    exact .some ⟨htable, hpoint⟩

/-- `devfs_umount` is an unmount of the path that devfs remembers. -/
lemma Represents.devfsUmount (h : g.Represents s) :
    g.devfsUmount.1.Represents s.devfsUmount.1 ∧ s.devfsUmount.2 = g.devfsUmount.2 := by
  rw [VfsMounts.devfsUmount, MountLog.devfsUmount, h.devfsMountPoint]
  cases hpoint : g.devfsMountPoint with
  | none => exact ⟨⟨h.table, h.devfsMountPoint⟩, rfl⟩
  | some path =>
    obtain ⟨htable, hres⟩ := h.table.umount path
    refine ⟨⟨{ htable with }, ?_⟩, hres⟩
    show (if (s.table.vfsUmountPath path).2 = 0 then none else some path) =
      if (g.umount path).2 = 0 then none else (g.umount path).1.devfsMountPoint
    rw [hres, devfsMountPoint_umount, hpoint]

/-- **One call**: the table and the log return the same, and are the same afterwards. -/
lemma Represents.mountStep (h : g.Represents s) (c : MountCall) :
    Run.Alike (fun s g => Represents g s) (s.mountStep c) (g.logStep c) := by
  cases c with
  | register fs =>
    obtain ⟨htable, hres⟩ := h.table.register fs
    exact Option.Rel.some ⟨⟨htable, h.devfsMountPoint.trans (devfsMountPoint_register g fs).symm⟩, hres⟩
  | mount source target fsType memory dup =>
    exact h.of_alike (h.table.mount source target fsType memory dup) fun r hr => devfsMountPoint_mount hr
  | umount target =>
    obtain ⟨htable, hres⟩ := h.table.umount (some target)
    exact Option.Rel.some ⟨⟨htable, h.devfsMountPoint.trans (devfsMountPoint_umount g _).symm⟩, hres⟩
  | devfsMount mountPoint dup memory pointDup => exact h.devfsMount mountPoint dup memory pointDup
  | devfsUmount => exact Option.Rel.some h.devfsUmount
  | outside numBlockDevices blocksPerGroup nullText =>
    exact .some ⟨{ h.table with
      numBlockDevices := rfl, blocksPerGroup := rfl, nullText := rfl }, h.devfsMountPoint⟩

/-- The empty log represents the table at the start. -/
lemma represents_empty (nullText : CString) : (empty nullText).Represents (VfsMounts.initial nullText) where
  table :=
    { mounts := rfl
      ext4 := rfl
      registered := rfl
      nodup := List.nodup_nil
      room := Nat.zero_le _
      distinct := List.Pairwise.nil
      numBlockDevices := rfl
      blocksPerGroup := rfl
      nullText := rfl }
  devfsMountPoint := rfl

/-- **The mount table over whole runs**: whatever the calls and their arguments are, which memory is there
and what changes outside, the calls return what they return for the log of the mounts, and afterwards the
mount table, the field of ext4 and the mount point of devfs are those of the log. The run of the table goes
on as far as that of the log. -/
theorem answers_of_run (nullText : CString) (calls : List MountCall) :
    Run.Alike (fun s g => Represents g s) (Run.answers VfsMounts.mountStep (VfsMounts.initial nullText) calls)
      (Run.answers logStep (empty nullText) calls) :=
  Run.answers_of_step (R := fun s g => Represents g s) (fun _ _ c h => h.mountStep c) (represents_empty nullText)
    calls

end MountLog

end Jarvis
