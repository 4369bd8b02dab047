import JarvisKernel.Vfs.FindMountPoint
import JarvisKernel.Vfs.MountLog

set_option relaxedAutoImplicit false
set_option autoImplicit false

/-!
# Routes

`vfs_resolve_path`, `vfs_mkdir`, `vfs_rmdir` and `vfs_remove` of `src/fs/vfs.c`: each passes its path on to a
function of one file system, with what is left of the path behind the mount point. After every run of calls
that mount and unmount, this is the mount of the log with the longest target that the path goes on behind.

## Main definitions

* `Jarvis.MountTable.vfsResolvePath`, `Jarvis.MountTable.vfsMkdir`, `Jarvis.MountTable.vfsRmdir`,
  `Jarvis.MountTable.vfsRemove` — the functions.
* `Jarvis.MountLog.route` — where a path leads.

## Main results

* `Jarvis.MountLog.Shows.pass_eq` — the search in the table finds the route.
* `Jarvis.MountLog.routes_of_run` — every run.
-/

namespace Jarvis

/-! ## The functions -/

/-- The functions of a file system that take a path. -/
inductive PathFunction where
  | getInode
  | mkdir (permissions : ℕ)
  | rmdir
  | remove
  deriving DecidableEq

/-- A call of a function of a file system. -/
structure PathCall where
  fs : FileSystem
  function : PathFunction
  path : CString
  deriving DecidableEq

/-- The function is there; devfs has `get_inode` only. -/
def FileSystem.has : FileSystem → PathFunction → Bool
  | .ext4, _ => true
  | .devfs, .getInode => true
  | .devfs, _ => false

/-- What `vfs_find_mount_point` finds in memory: the bytes on the stack, the arguments that `snprintf` reads,
whether the memory for both copies is there, and the variable for the rest of the path. -/
structure Lookup where
  stack : ℕ → ℕ → BitVec 8
  args : ℕ → BitVec 32
  memory : Bool
  dup : Bool
  pathInFs : Option CString

namespace MountTable

/-- The file system of the mount point that is found, and the rest of the path. -/
def pass (t : MountTable) (k : Lookup) (path : CString) : Option (FileSystem × CString) :=
  match t.vfsFindMountPoint k.stack k.args k.memory k.dup path k.pathInFs with
  | (some i, some pathInFs) => some ((t.mountPoints i).fs, pathInFs)
  | _ => none

/-- `vfs_resolve_path`: the call that it makes, which returns the inode. -/
def vfsResolvePath (t : MountTable) (k : Lookup) (path : Option CString) : Option PathCall :=
  match path with
  | none => none
  | some path => (t.pass k path).map fun r => ⟨r.1, .getInode, r.2⟩

/-- What `vfs_mkdir`, `vfs_rmdir` and `vfs_remove` do with the function that they call: their result, and the
call that they make. `result` are the results of the file systems. -/
def callFunction (t : MountTable) (k : Lookup) (result : PathCall → ℤ) (function : PathFunction)
    (path : Option CString) : ℤ × Option PathCall :=
  match path with
  | none => (-1, none)
  | some path =>
    if path.length = 0 then (-1, none)
    else
      match t.pass k path with
      | none => (-1, none)
      | some (fs, pathInFs) =>
        if fs.has function = false then (-1, none)
        else (result ⟨fs, function, pathInFs⟩, some ⟨fs, function, pathInFs⟩)

/-- `vfs_mkdir`. -/
def vfsMkdir (t : MountTable) (k : Lookup) (result : PathCall → ℤ) (path : Option CString)
    (permissions : ℕ) : ℤ × Option PathCall :=
  t.callFunction k result (.mkdir permissions) path

/-- `vfs_rmdir`. -/
def vfsRmdir (t : MountTable) (k : Lookup) (result : PathCall → ℤ) (path : Option CString) :
    ℤ × Option PathCall :=
  t.callFunction k result .rmdir path

/-- `vfs_remove`. -/
def vfsRemove (t : MountTable) (k : Lookup) (result : PathCall → ℤ) (path : Option CString) :
    ℤ × Option PathCall :=
  t.callFunction k result .remove path

end MountTable

/-! ## Routes -/

/-- The target was copied, is absolute, and fits the buffer of `vfs_find_mount_point`. -/
structure LoggedMount.Plain (m : LoggedMount) : Prop where
  copied : m.copied = true
  absolute : m.target.head? = some 47
  noNul : 0 ∉ m.target
  length_lt : m.target.length < 255

namespace MountLog

/-- The path goes on behind the target and its slash. -/
def leads (path : CString) (m : LoggedMount) : Bool := (MountTable.withSlash m.target).isPrefixOf path

/-- **Where a path leads**: to the mount with the longest target that it goes on behind, and of those to the
one that was mounted first; or else to the first mount of all. -/
def route (g : MountLog) (path : CString) : Option (FileSystem × CString) :=
  match (g.mounts.filter (leads path)).argmax fun m => (MountTable.withSlash m.target).length with
  | some m => some (m.fs, MountTable.restBehind path (MountTable.withSlash m.target).length)
  | none => g.mounts.head?.map fun m => (m.fs, MountTable.restBehind path m.target.length)

/-- The call that follows from the route. -/
def calls (g : MountLog) (k : Lookup) (function : PathFunction) (path : CString) : Option PathCall :=
  if k.memory = true ∧ k.dup = true then (g.route path).map fun r => ⟨r.1, function, r.2⟩ else none

/-- The result of a call with a path, which is that of the file system if this has the function. -/
def callFunction (g : MountLog) (k : Lookup) (result : PathCall → ℤ) (function : PathFunction)
    (path : CString) : ℤ × Option PathCall :=
  match (g.calls k function path).filter fun call => call.fs.has function with
  | none => (-1, none)
  | some call => (result call, some call)

variable {g : MountLog} {t : MountTable} {path : CString} {k : Lookup}

/-- The mount that an entry of the table shows. -/
def shown (t : MountTable) (i : ℕ) : LoggedMount where
  target := t.target i
  copied := true
  fs := (t.mountPoints i).fs

namespace Shows

/-- The mounts are those that the table shows. -/
lemma mounts_eq (h : g.Shows t) (hplain : ∀ m ∈ g.mounts, m.Plain) :
    g.mounts = (List.range t.numMountPoints).map (shown t) := by
  have hback : (g.mounts.map LoggedMount.mountPoint).map
      (fun p => (⟨t.text p.path, true, p.fs⟩ : LoggedMount)) = g.mounts := by
    rw [List.map_map]
    conv_rhs => rw [← List.map_id g.mounts]
    refine List.map_congr_left fun m hm => ?_
    obtain ⟨target, copied, fs⟩ := m
    obtain rfl : copied = true := (hplain _ hm).copied
    rfl
  rw [← hback, ← h.mounts, Table.toList, List.map_map]
  rfl

/-- The mounts that are shown are plain if all are. -/
lemma plain_shown (h : g.Shows t) (hplain : ∀ m ∈ g.mounts, m.Plain) {i : ℕ} (hi : i < t.numMountPoints) :
    (shown t i).Plain := by
  refine hplain _ ?_
  rw [h.mounts_eq hplain]
  exact List.mem_map_of_mem (List.mem_range.2 hi)

/-- Targets of the log are targets for the search. -/
lemma targets (h : g.Shows t) (hplain : ∀ m ∈ g.mounts, m.Plain) : t.Targets where
  absolute i hi := (h.plain_shown hplain hi).absolute
  noNul i hi := (h.plain_shown hplain hi).noNul
  length_lt i hi := (h.plain_shown hplain hi).length_lt
  distinct i hi j hj heq := by
    have hpairs := h.distinct
    rw [h.mounts_eq hplain, List.pairwise_map] at hpairs
    have hdiff : ∀ a b : ℕ, a < b → b < t.numMountPoints → t.target a ≠ t.target b := by
      intro a b hab hb
      have hrange := List.pairwise_iff_getElem.1 hpairs a b (by simp; omega) (by simpa using hb) hab
      simpa [shown] using hrange
    rcases Nat.lt_trichotomy i j with hlt | hsame | hlt
    · exact absurd heq (hdiff i j hlt hj)
    · exact hsame
    · exact absurd heq.symm (hdiff j i hlt hi)

/-- The first mount, if there is one. -/
lemma head_mounts (h : g.Shows t) (hplain : ∀ m ∈ g.mounts, m.Plain) :
    g.mounts.head? = if 0 < t.numMountPoints then some (shown t 0) else none := by
  rw [h.mounts_eq hplain, List.head?_map, List.head?_range]
  by_cases hn : 0 < t.numMountPoints
  · rw [if_neg hn.ne', if_pos hn]
    rfl
  · rw [if_pos (Nat.eq_zero_of_not_pos hn), if_neg hn]
    rfl

/-- The mount with the longest target is that of the loop over the table. -/
lemma argmax_mounts (h : g.Shows t) (hplain : ∀ m ∈ g.mounts, m.Plain) (path : CString) :
    (g.mounts.filter (leads path)).argmax (fun m => (MountTable.withSlash m.target).length) =
      (BestMatch.scan (fun j => MountTable.withSlash (t.target j) <+: path)
        (fun j => (MountTable.withSlash (t.target j)).length) t.numMountPoints).1.map (shown t) := by
  rw [h.mounts_eq hplain]
  exact BestMatch.argmax_eq_scan (fun i _ => List.isPrefixOf_iff_prefix) (fun i _ => rfl)
    fun j _ => MountTable.withSlash_pos (t.target j)

/-- **The search in the table finds the route** of an absolute path, if there is memory.

**Proof sketch.** The loop over the table finds the argument of the maximum in the log, or nothing; then the
first mount is taken. -/
lemma pass_eq (h : g.Shows t) (hplain : ∀ m ∈ g.mounts, m.Plain) (habs : path.head? = some 47) (k : Lookup) :
    t.pass k path = if k.memory = true ∧ k.dup = true then g.route path else none := by
  rw [MountTable.pass, MountTable.vfsFindMountPoint, route, h.argmax_mounts hplain, h.head_mounts hplain]
  cases hmemory : k.memory with
  | false =>
    rw [PathName.vfsNormalizePath, if_pos rfl, if_neg fun hand => Bool.false_ne_true hand.1]
  | true =>
    have hnormal : PathName.vfsNormalizePath k.args true path [47] = some path := by
      rw [PathName.vfsNormalizePath, if_neg (by decide), if_pos habs]
    rw [hnormal]
    dsimp only
    rw [MountTable.foldl_eq_scan (h.targets hplain)]
    have hcases := BestMatch.scan_cases (p := fun j => MountTable.withSlash (t.target j) <+: path)
      (fun j _ => MountTable.withSlash_pos (t.target j)) t.numMountPoints
    rcases hcases with ⟨hscan, -⟩ | ⟨i, hscan, -⟩
    · rw [hscan]
      by_cases hn : 0 < t.numMountPoints
      · rw [if_pos ⟨rfl, hn⟩, if_pos hn]
        cases k.dup with
        | false => rfl
        | true => rfl
      · rw [if_neg fun hand => hn hand.2, if_neg hn]
        split_ifs <;> rfl
    · rw [hscan, if_neg (by simp)]
      cases k.dup with
      | false => rfl
      | true => rfl

/-- `vfs_resolve_path` makes the call that follows from the route. -/
lemma vfsResolvePath_eq (h : g.Shows t) (hplain : ∀ m ∈ g.mounts, m.Plain) (habs : path.head? = some 47)
    (k : Lookup) : t.vfsResolvePath k (some path) = g.calls k .getInode path := by
  rw [MountTable.vfsResolvePath, calls, h.pass_eq hplain habs]
  split_ifs <;> rfl

/-- So does every other function. -/
lemma callFunction_eq (h : g.Shows t) (hplain : ∀ m ∈ g.mounts, m.Plain) (habs : path.head? = some 47)
    (k : Lookup) (result : PathCall → ℤ) (function : PathFunction) :
    t.callFunction k result function (some path) = g.callFunction k result function path := by
  have hne : path.length ≠ 0 := fun hnil => by simp [List.eq_nil_of_length_eq_zero hnil] at habs
  rw [MountTable.callFunction, MountLog.callFunction, calls, if_neg hne, h.pass_eq hplain habs]
  split_ifs with hmemory
  · cases g.route path with
    | none => rfl
    | some r =>
      dsimp only [Option.map_some]
      cases hhas : r.1.has function with
      | false =>
        rw [if_pos rfl, Option.filter_some, hhas]
        rfl
      | true =>
        rw [if_neg (by simp), Option.filter_some, hhas]
        rfl
  · rfl

end Shows

/-! ## Every run -/

/-- **Routes over whole runs**: after any calls that mount and unmount, if the mounted targets are absolute,
shorter than 255 bytes and could be copied, then `vfs_resolve_path`, `vfs_mkdir`, `vfs_rmdir` and
`vfs_remove` pass each absolute path on to the file system to which it leads in the log of the mounts, with
what is left of it, and return the result; or they return -1 and call nothing. -/
theorem routes_of_run (nullText : CString) (mountCalls : List MountCall) {s : VfsMounts} {results : List ℤ}
    (hrun : Run.answers VfsMounts.mountStep (VfsMounts.initial nullText) mountCalls = some (s, results)) :
    ∃ g, Run.answers logStep (empty nullText) mountCalls = some (g, results) ∧
      ((∀ m ∈ g.mounts, m.Plain) → ∀ (k : Lookup) (path : CString), path.head? = some 47 →
        s.table.vfsResolvePath k (some path) = g.calls k .getInode path ∧
          ∀ result permissions,
            s.table.vfsMkdir k result (some path) permissions =
                g.callFunction k result (.mkdir permissions) path ∧
              s.table.vfsRmdir k result (some path) = g.callFunction k result .rmdir path ∧
              s.table.vfsRemove k result (some path) = g.callFunction k result .remove path) := by
  have halike := Run.answers_of_step (R := fun s g => Represents g s) (fun _ _ c h => h.mountStep c)
    (represents_empty nullText) mountCalls
  rw [hrun] at halike
  obtain ⟨g, hlog, hrep⟩ := halike.exists_of_some
  refine ⟨g, hlog, fun hplain k path habs => ⟨hrep.table.vfsResolvePath_eq hplain habs k, ?_⟩⟩
  intro result permissions
  exact ⟨hrep.table.callFunction_eq hplain habs k result (.mkdir permissions),
    hrep.table.callFunction_eq hplain habs k result .rmdir,
    hrep.table.callFunction_eq hplain habs k result .remove⟩

/-- The mounts of `kernel_main`: devfs at `/dev`, and ext4 at `/`. -/
def bootCalls : List MountCall :=
  [.devfsMount [47, 100, 101, 118] true true true, .register .ext4, .outside 1 8192 [],
    .mount (some [47, 100, 101, 118, 47, 104, 100, 97, 48]) [47] FileSystem.ext4.name true true]

/-- A lookup with memory. -/
def plentiful : Lookup where
  stack _ _ := 0
  args _ := 0
  memory := true
  dup := true
  pathInFs := none

/-- After the mounts of `kernel_main`, the directory `/boot` is created by ext4, and `/dev/hda0` leads to devfs. -/
theorem routes_of_run_boot :
    ∃ s results,
      Run.answers VfsMounts.mountStep (VfsMounts.initial []) bootCalls = some (s, results) ∧
        s.table.vfsMkdir plentiful (fun _ => 0) (some [47, 98, 111, 111, 116]) 0 =
          (0, some ⟨.ext4, .mkdir 0, [98, 111, 111, 116]⟩) ∧
        s.table.vfsResolvePath plentiful (some [47, 100, 101, 118, 47, 104, 100, 97, 48]) =
          some ⟨.devfs, .getInode, [104, 100, 97, 48]⟩ := by
  obtain ⟨s, results, hrun⟩ : ∃ s results,
      Run.answers VfsMounts.mountStep (VfsMounts.initial []) bootCalls = some (s, results) := ⟨_, _, rfl⟩
  obtain ⟨g, hg, hroutes⟩ := routes_of_run [] bootCalls hrun
  have hlog : g = { empty [] with
      mounts := [⟨[47, 100, 101, 118], true, .devfs⟩, ⟨[47], true, .ext4⟩]
      registered := [.devfs, .ext4]
      devfsMountPoint := some (some [47, 100, 101, 118])
      numBlockDevices := 1
      blocksPerGroup := 8192 } :=
    (Prod.mk.inj (Option.some.inj hg)).1.symm
  have hplain : ∀ m ∈ g.mounts, m.Plain := by
    rw [hlog]
    intro m hm
    rcases List.mem_pair.1 hm with rfl | rfl
    · exact ⟨rfl, rfl, by decide, by decide⟩
    · exact ⟨rfl, rfl, by decide, by decide⟩
  refine ⟨s, results, hrun, ?_, ?_⟩
  · rw [((hroutes hplain plentiful _ rfl).2 (fun _ => 0) 0).1, hlog]
    rfl
  · rw [(hroutes hplain plentiful _ rfl).1, hlog]
    rfl

end MountLog

end Jarvis
