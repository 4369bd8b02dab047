import JarvisKernel.Lib.BestMatch
import JarvisKernel.Vfs.Mount
import JarvisKernel.Vfs.NormalizePath
import Mathlib.Data.List.Basic

set_option relaxedAutoImplicit false
set_option autoImplicit false

/-!
# Finding mount points

`vfs_find_mount_point` of `src/fs/vfs.c`. A path leads to the mount point with the longest target that it
starts with. Targets are compared with a slash at their end, so that `/dev` is not found for `/device`; but
the path `/dev` itself has no slash there, and the mount point `/dev` is not found for it.

## Main definitions

* `Jarvis.MountTable.vfsFindMountPoint` — the function.
* `Jarvis.MountTable.LongestPrefix` — the mount point that a path belongs to.
* `Jarvis.MountTable.FindsMountPoint` — what is wanted of the function.

## Main results

* `Jarvis.MountTable.vfsFindMountPoint_eq` — what is found.
* `Jarvis.MountTable.findsMountPoint_iff` — when it is what is wanted.
-/

namespace Jarvis

namespace MountTable

/-- `strncpy` to a buffer that had the bytes `dest` before. -/
def strncpy (dest : ℕ → BitVec 8) (src : CString) (n : ℕ) : ℕ → BitVec 8 := fun k =>
  if k < n then src.bytes k else dest k

/-! ## The function -/

/-- `mount_path` with a slash at its end, and its length. The target is not empty; `stack` are the bytes that
were in the buffer. -/
def mountPath (stack : ℕ → BitVec 8) (target : CString) : (ℕ → BitVec 8) × ℕ :=
  let mountLen := target.length
  let mountPath := strncpy stack target 255
  if mountPath (mountLen - 1) ≠ 47 then
    (Function.update (Function.update mountPath mountLen 47) (mountLen + 1) 0, mountLen + 1)
  else (mountPath, mountLen)

/-- The text of a mount point's path. -/
def target (t : MountTable) (i : ℕ) : CString := t.text (t.mountPoints i).path

/-- `vfs_find_mount_point`, with what `path_in_fs` points to afterwards. `memory` and `dup` say whether the
memory for the normalised path and for the copy of the rest is there, `args` are as for
`PathName.vfsNormalizePath`, and `stack i` are the bytes in the buffer in round `i`. -/
def vfsFindMountPoint (t : MountTable) (stack : ℕ → ℕ → BitVec 8) (args : ℕ → BitVec 32)
    (memory dup : Bool) (path : CString) (pathInFs : Option CString) : Option ℕ × Option CString :=
  match PathName.vfsNormalizePath args memory path [47] with
  | none => (none, pathInFs)
  | some normalizedPath =>
    let matched := (List.range t.numMountPoints).foldl
      (fun best i =>
        let mount := mountPath (stack i) (t.target i)
        if strncmp normalizedPath.bytes mount.1 mount.2 = 0 ∧ best.2 < mount.2 then (some i, mount.2)
        else best)
      (none, 0)
    let best : Option ℕ × ℕ :=
      if matched.1 = none ∧ 0 < t.numMountPoints then (some 0, (t.target 0).length) else matched
    match best.1 with
    | none => (none, none)
    | some i =>
      let rest := if best.2 < normalizedPath.length then normalizedPath.drop best.2 else [47]
      (some i, if dup then some rest else none)

/-! ## What is wanted -/

/-- The target is equal to the path, or followed in it by a slash; `/` is a prefix of everything. -/
def IsPrefix (target path : CString) : Prop := target = path ∨ target ++ [47] <+: path ∨ target = [47]

/-- Mount point `i` has the longest target that is a component-wise prefix of the path. -/
structure LongestPrefix (t : MountTable) (path : CString) (i : ℕ) : Prop where
  lt : i < t.numMountPoints
  isPrefix : IsPrefix (t.target i) path
  longest : ∀ j < t.numMountPoints, IsPrefix (t.target j) path → (t.target j).length ≤ (t.target i).length

/-- A target with its slash. -/
def withSlash (target : CString) : CString := if target.getLast? = some 47 then target else target ++ [47]

/-- What remains of the path after the target and its slash, or `/`. -/
def remainder (target path : CString) : CString :=
  if path.drop (withSlash target).length = [] then [47] else path.drop (withSlash target).length

/-- What is wanted: the mount point that the path belongs to is found, and the rest of the path. -/
def FindsMountPoint (t : MountTable) (stack : ℕ → ℕ → BitVec 8) (args : ℕ → BitVec 32)
    (memory dup : Bool) (path : CString) (pathInFs : Option CString) : Prop :=
  ∀ i, t.LongestPrefix path i →
    t.vfsFindMountPoint stack args memory dup path pathInFs = (some i, some (remainder (t.target i) path))

/-- The targets are distinct absolute paths shorter than 255 bytes. -/
structure Targets (t : MountTable) : Prop where
  absolute : ∀ i < t.numMountPoints, (t.target i).head? = some 47
  noNul : ∀ i < t.numMountPoints, 0 ∉ t.target i
  length_lt : ∀ i < t.numMountPoints, (t.target i).length < 255
  distinct : ∀ i < t.numMountPoints, ∀ j < t.numMountPoints, t.target i = t.target j → i = j

variable {t : MountTable} {stack : ℕ → ℕ → BitVec 8} {args : ℕ → BitVec 32} {memory dup : Bool}
  {path target : CString} {pathInFs : Option CString} {i : ℕ}

/-! ## What is found -/

/-- The length of a target with its slash. -/
lemma length_withSlash (target : CString) :
    (withSlash target).length = if target.getLast? = some 47 then target.length else target.length + 1 := by
  rw [withSlash]
  split_ifs <;> simp

/-- A target with its slash is not empty. -/
lemma withSlash_pos (target : CString) : 0 < (withSlash target).length := by
  rw [length_withSlash]
  split_ifs with hlast
  · cases target with
    | nil => simp at hlast
    | cons c target => exact Nat.succ_pos _
  · exact Nat.succ_pos _

/-- **The buffer has the target with its slash**, and its length. -/
lemma mountPath_spec (bytes : ℕ → BitVec 8) (hne : target ≠ []) (hlength : target.length < 255) :
    (mountPath bytes target).2 = (withSlash target).length ∧
      ∀ k < (withSlash target).length, (mountPath bytes target).1 k = (withSlash target).bytes k := by
  have hpos := List.length_pos_iff.2 hne
  have hlast : strncpy bytes target 255 (target.length - 1) = 47 ↔ target.getLast? = some 47 := by
    rw [strncpy, if_pos (by omega), CString.bytes_of_lt (Nat.sub_lt hpos Nat.one_pos),
      List.getLast?_eq_getElem?, List.getElem?_eq_getElem (Nat.sub_lt hpos Nat.one_pos),
      Option.some.injEq]
    exact UInt8.toBitVec_inj (a := target[target.length - 1]) (b := 47)
  rw [mountPath, withSlash]
  by_cases hslash : target.getLast? = some 47
  · rw [if_neg (not_not.2 (hlast.2 hslash)), if_pos hslash]
    refine ⟨rfl, fun k hk => ?_⟩
    show strncpy bytes target 255 k = _
    rw [strncpy, if_pos (by omega)]
  · rw [if_pos fun h => hslash (hlast.1 h), if_neg hslash]
    refine ⟨by simp, fun k hk => ?_⟩
    rw [List.length_append, List.length_singleton] at hk
    show Function.update (Function.update (strncpy bytes target 255) target.length 47)
      (target.length + 1) 0 k = _
    rw [Function.update_of_ne (by omega)]
    by_cases hend : k = target.length
    · rw [hend, Function.update_self, CString.bytes_of_lt (by simp), List.getElem_append_right le_rfl]
      simp
    · rw [Function.update_of_ne hend, strncpy, if_pos (by omega), CString.bytes_of_lt (by omega),
        CString.bytes_of_lt (by simp; omega), List.getElem_append_left (by omega)]

/-- The slash puts no terminator into the target. -/
lemma notMem_withSlash (h : 0 ∉ target) : 0 ∉ withSlash target := by
  rw [withSlash]
  split_ifs
  · exact h
  · simp [h]

/-- The comparison finds the target with its slash. -/
lemma strncmp_mountPath_iff (bytes : ℕ → BitVec 8) (hne : target ≠ []) (hlength : target.length < 255)
    (hnul : 0 ∉ target) (path : CString) :
    strncmp path.bytes (mountPath bytes target).1 (mountPath bytes target).2 = 0 ↔
      withSlash target <+: path := by
  obtain ⟨hlen, hbytes⟩ := mountPath_spec bytes hne hlength
  rw [← strncmp_eq_zero_iff_prefix (notMem_withSlash hnul), hlen, strncmp_eq_zero_iff, strncmp_eq_zero_iff]
  constructor
  · intro h k hk hbefore
    rw [h k hk hbefore, hbytes k hk]
  · intro h k hk hbefore
    rw [h k hk hbefore, hbytes k hk]

/-- Mount point `i` matches best. -/
def Matches (t : MountTable) (path : CString) (i : ℕ) : Prop :=
  BestMatch.Best (fun j => withSlash (t.target j) <+: path) (fun j => (withSlash (t.target j)).length)
    t.numMountPoints i

/-- What is left of the path behind the first `len` bytes, as `vfs_find_mount_point` copies it. -/
def restBehind (path : CString) (len : ℕ) : CString := if len < path.length then path.drop len else [47]

/-- The remainder is what lies behind the target and its slash. -/
lemma remainder_eq (target path : CString) :
    remainder target path = restBehind path (withSlash target).length := by
  rw [remainder, restBehind]
  by_cases hlen : (withSlash target).length < path.length
  · rw [if_pos hlen, if_neg fun hnil => ?_]
    exact absurd (List.drop_eq_nil_iff.1 hnil) (not_le.2 hlen)
  · rw [if_neg hlen, if_pos (List.drop_eq_nil_iff.2 (not_lt.1 hlen))]

/-- The loop over the table is that for the best match. -/
lemma foldl_eq_scan (h : t.Targets) (stack : ℕ → ℕ → BitVec 8) (path : CString) :
    (List.range t.numMountPoints).foldl
        (fun best i =>
          let mount := mountPath (stack i) (t.target i)
          if strncmp path.bytes mount.1 mount.2 = 0 ∧ best.2 < mount.2 then (some i, mount.2) else best)
        (none, 0) =
      BestMatch.scan (fun j => withSlash (t.target j) <+: path) (fun j => (withSlash (t.target j)).length)
        t.numMountPoints := by
  refine List.foldl_ext _ _ _ fun best i hi => ?_
  have hlt := List.mem_range.1 hi
  have hne : t.target i ≠ [] := fun hnil => by simpa [hnil] using h.absolute i hlt
  have hlength := (mountPath_spec (stack i) hne (h.length_lt i hlt)).1
  have hcmp := strncmp_mountPath_iff (stack i) hne (h.length_lt i hlt) (h.noNul i hlt) path
  dsimp only
  rw [BestMatch.step, hlength]
  rw [hlength] at hcmp
  simp only [hcmp]

/-- **What is found**: the best match, or else the first mount point. -/
lemma vfsFindMountPoint_cases (h : t.Targets) (habs : path.head? = some 47)
    (stack : ℕ → ℕ → BitVec 8) (args : ℕ → BitVec 32) (dup : Bool) (pathInFs : Option CString)
    (hpos : 0 < t.numMountPoints) :
    ∃ i len, t.vfsFindMountPoint stack args true dup path pathInFs =
        (some i, if dup then some (restBehind path len) else none) ∧
      ((t.Matches path i ∧ len = (withSlash (t.target i)).length) ∨
        (∀ j < t.numMountPoints, ¬ withSlash (t.target j) <+: path) ∧ i = 0 ∧ len = (t.target 0).length) := by
  have hnormal : PathName.vfsNormalizePath args true path [47] = some path := by
    rw [PathName.vfsNormalizePath, if_neg (by decide), if_pos habs]
  rw [vfsFindMountPoint, hnormal]
  dsimp only
  rw [foldl_eq_scan h]
  have hscan := BestMatch.scan_cases (p := fun j => withSlash (t.target j) <+: path)
    (fun j _ => withSlash_pos (t.target j)) t.numMountPoints
  rcases hscan with ⟨hscan, hnone⟩ | ⟨i, hscan, hbest⟩
  · rw [hscan, if_pos ⟨rfl, hpos⟩]
    exact ⟨0, _, rfl, .inr ⟨hnone, rfl, rfl⟩⟩
  · rw [hscan, if_neg (by simp)]
    exact ⟨i, _, rfl, .inl ⟨hbest, rfl⟩⟩

/-! ## When it is what is wanted -/

/-- A component-wise prefix with its slash starts the path, unless it is all of it. -/
lemma IsPrefix.withSlash_prefix (h : IsPrefix target path) (habs : path.head? = some 47) :
    withSlash target <+: path ∨ target = path ∧ ¬ withSlash target <+: path := by
  by_cases hslash : withSlash target <+: path
  · exact .inl hslash
  refine .inr ⟨?_, hslash⟩
  rcases h with heq | hstart | hroot
  · exact heq
  · refine absurd ?_ hslash
    rw [withSlash]
    split_ifs
    · exact (List.prefix_append target [47]).trans hstart
    · exact hstart
  · refine absurd ?_ hslash
    obtain ⟨rest, rfl⟩ := List.head?_eq_some_iff.1 habs
    rw [hroot]
    exact ⟨rest, rfl⟩

/-- The function gets along with mount point `i`: it matches best; or its target is the path, it is the
first of the table, and nothing matches. -/
def Matched (t : MountTable) (path : CString) (i : ℕ) : Prop :=
  t.Matches path i ∨
    t.target i = path ∧ i = 0 ∧ ∀ j < t.numMountPoints, ¬ withSlash (t.target j) <+: path

/-- **The mount point that a path belongs to is found** exactly if there is memory, and the path goes on
behind the target and its slash and no other target with its slash is longer there, or as long and before
it; or the path is the first target, without a slash at its end, and no target with its slash is a prefix.

**Proof sketch.** The loop finds the best match of the targets with their slashes. If there is none, the
path is the target. -/
theorem findsMountPoint_iff (h : t.Targets) (habs : path.head? = some 47) (stack : ℕ → ℕ → BitVec 8)
    (args : ℕ → BitVec 32) (memory dup : Bool) (pathInFs : Option CString) :
    t.FindsMountPoint stack args memory dup path pathInFs ↔
      ∀ i, t.LongestPrefix path i → memory = true ∧ dup = true ∧ t.Matched path i := by
  refine forall₂_congr fun i hi => ?_
  cases memory with
  | false =>
    refine iff_of_false (fun heq => ?_) fun hnot => Bool.noConfusion hnot.1
    rw [vfsFindMountPoint, PathName.vfsNormalizePath, if_pos rfl] at heq
    simp at heq
  | true =>
    obtain ⟨j, len, hres, hj⟩ := vfsFindMountPoint_cases h habs stack args dup pathInFs
      (Nat.zero_lt_of_lt hi.lt)
    rw [hres, and_iff_right rfl, Prod.mk.injEq, Option.some.injEq]
    cases dup with
    | false => exact iff_of_false (fun hnot => by simp at hnot) fun hnot => Bool.noConfusion hnot.1
    | true =>
      rw [and_iff_right rfl, if_pos rfl, Option.some.injEq, remainder_eq]
      rcases hj with ⟨hbest, rfl⟩ | ⟨hnone, rfl, rfl⟩
      · constructor
        · rintro ⟨rfl, -⟩
          exact .inl hbest
        · rintro (hmatch | ⟨-, -, hnone⟩)
          · rw [hbest.unique hmatch]
            exact ⟨rfl, rfl⟩
          · exact absurd hbest.isMatch (hnone j hbest.lt)
      · have hpath : t.target i = path := by
          rcases hi.isPrefix.withSlash_prefix habs with hstart | ⟨heq, -⟩
          · exact absurd hstart (hnone i hi.lt)
          · exact heq
        constructor
        · rintro ⟨rfl, -⟩
          exact .inr ⟨hpath, rfl, hnone⟩
        · rintro (hmatch | ⟨-, rfl, -⟩)
          · exact absurd hmatch.isMatch (hnone i hmatch.lt)
          · have hlength : path.length ≤ (withSlash path).length := by
              rw [length_withSlash]
              split_ifs <;> omega
            rw [hpath, restBehind, restBehind, if_neg (lt_irrefl _), if_neg (not_lt.2 hlength)]
            exact ⟨rfl, rfl⟩

/-- The mount points `/` and `/dev`. -/
def twoMounts : MountTable :=
  { unmounted with
    mountPoints := fun i => if i = 0 then ⟨some [47], .ext4⟩ else ⟨some [47, 100, 101, 118], .devfs⟩
    numMountPoints := 2 }

/-- The targets of `twoMounts` are absolute paths. -/
lemma targets_twoMounts : twoMounts.Targets where
  absolute := by decide
  noNul := by decide
  length_lt := by decide
  distinct := by decide

/-- The path `/dev/x`. -/
theorem findsMountPoint_iff_twoMounts :
    twoMounts.FindsMountPoint (fun _ _ => 0) (fun _ => 0) true true [47, 100, 101, 118, 47, 120] none := by
  refine (findsMountPoint_iff targets_twoMounts rfl _ _ true true none).2 fun i hi => ⟨rfl, rfl, .inl ?_⟩
  have hdev : IsPrefix (twoMounts.target 1) [47, 100, 101, 118, 47, 120] := .inr (.inl (by decide))
  have hle := hi.longest 1 (by decide) hdev
  have hlt := hi.lt
  obtain rfl : i = 1 := by
    rcases i with _ | _ | i
    · exact absurd hle (by decide)
    · rfl
    · exact absurd hlt (by simp [twoMounts])
  exact ⟨by decide, by decide, by decide, by decide⟩

/-- The path `/dev` belongs to the mount point `/dev`, and the mount point `/` is found with the path
`dev`. -/
theorem not_findsMountPoint :
    twoMounts.LongestPrefix [47, 100, 101, 118] 1 ∧
      twoMounts.vfsFindMountPoint (fun _ _ => 0) (fun _ => 0) true true [47, 100, 101, 118] none =
        (some 0, some [100, 101, 118]) ∧
      ¬ twoMounts.FindsMountPoint (fun _ _ => 0) (fun _ => 0) true true [47, 100, 101, 118] none := by
  have hlongest : twoMounts.LongestPrefix [47, 100, 101, 118] 1 :=
    ⟨by decide, .inl rfl, fun j hj _ => by
      rcases j with _ | _ | j
      · decide
      · exact le_rfl
      · exact absurd hj (by simp [twoMounts])⟩
  have hres : twoMounts.vfsFindMountPoint (fun _ _ => 0) (fun _ => 0) true true [47, 100, 101, 118] none =
      (some 0, some [100, 101, 118]) := by
    decide
  refine ⟨hlongest, hres, fun hfinds => ?_⟩
  have hone := hfinds 1 hlongest
  rw [hres] at hone
  simp at hone

end MountTable

end Jarvis
