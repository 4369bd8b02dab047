import JarvisKernel.Vfs.OpenPath

set_option relaxedAutoImplicit false
set_option autoImplicit false

/-!
# Relative paths

`vfs_normalize_path` of `src/fs/vfs.c` puts the current directory before a relative path. The path is to
be printed behind the directory by `snprintf` with the directive `%s`, which this `snprintf` does not have:
it copies the format instead, as far as the path would need room.

## Main definitions

* `Jarvis.PathName.vfsNormalizePath` — the function.
* `Jarvis.PathName.joinPath` — a directory and a path with a slash between them.
* `Jarvis.PathName.Normalizes` — what is wanted of the function.

## Main results

* `Jarvis.PathName.vfsNormalizePath_eq` — the path that lookups are given.
* `Jarvis.PathName.normalizes_iff` — when it is the wanted one.
-/

namespace Jarvis

namespace PathName

/-! ## The function -/

/-- `"/%s"`. -/
def slashFormat : CString := [47, 37, 115]

/-- `"%s"`. -/
def plainFormat : CString := [37, 115]

/-- `vfs_normalize_path`; `memory` says whether `malloc` succeeds, and `args` are the words of the further
arguments of `snprintf`, the first of which is the address of the path. -/
def vfsNormalizePath (args : ℕ → BitVec 32) (memory : Bool) (path currentDir : CString) :
    Option CString :=
  if memory = false then none
  else if path.head? = some 47 then some path
  else
    let newLen := currentDir.length + path.length + 2
    let format :=
      if 0 < currentDir.length ∧ currentDir.getD (currentDir.length - 1) 0 ≠ 47 then slashFormat
      else plainFormat
    some (currentDir ++ (snprintf (newLen - currentDir.length) format args).getD [])

/-- The directory and the path, with a slash between them unless the directory ends with one. -/
def joinPath (currentDir path : CString) : CString :=
  if currentDir.getLast? = some 47 then currentDir ++ path else currentDir ++ 47 :: path

/-- What is wanted: an absolute path is returned as it is, and a relative one behind the directory. -/
def Normalizes (args : ℕ → BitVec 32) (memory : Bool) (path currentDir : CString) : Prop :=
  vfsNormalizePath args memory path currentDir =
    some (if path.head? = some 47 then path else joinPath currentDir path)

variable {args : ℕ → BitVec 32} {memory : Bool} {path path' currentDir : CString}

/-! ## What is returned -/

/-- Whether the directory ends with a slash. -/
lemma getLast?_ne_iff (currentDir : CString) :
    0 < currentDir.length ∧ currentDir.getD (currentDir.length - 1) 0 ≠ 47 ↔
      currentDir ≠ [] ∧ currentDir.getLast? ≠ some 47 := by
  rw [List.length_pos_iff]
  refine and_congr_right fun hne => ?_
  have hlast : currentDir.length - 1 < currentDir.length :=
    Nat.sub_lt (List.length_pos_iff.2 hne) Nat.one_pos
  rw [List.getLast?_eq_getElem?, List.getD_eq_getElem?_getD, List.getElem?_eq_getElem hlast,
    Option.getD_some, ne_eq, ne_eq, Option.some.injEq]

/-- **The path that lookups are given**: the format in place of a relative path. -/
lemma vfsNormalizePath_eq (args : ℕ → BitVec 32) (memory : Bool) (path currentDir : CString) :
    vfsNormalizePath args memory path currentDir =
      if memory = false then none else some (OpenPath.vfsNormalizePath path currentDir) := by
  have hsize : currentDir.length + path.length + 2 - currentDir.length = path.length + 2 := by omega
  have hslash : ¬ [37, 100] <:+: slashFormat := by decide
  have hplain : ¬ [37, 100] <:+: plainFormat := by decide
  rw [vfsNormalizePath, OpenPath.vfsNormalizePath]
  by_cases hmemory : memory = false
  · rw [if_pos hmemory, if_pos hmemory]
  by_cases habs : path.head? = some 47
  · rw [if_neg hmemory, if_neg hmemory, if_pos habs, if_pos habs]
  rw [if_neg hmemory, if_neg hmemory, if_neg habs, if_neg habs]
  dsimp only
  rw [hsize]
  by_cases hdir : currentDir ≠ [] ∧ currentDir.getLast? ≠ some 47
  · rw [if_pos ((getLast?_ne_iff currentDir).2 hdir), if_pos hdir,
      snprintf_eq_take (Nat.succ_ne_zero _) hslash]
    rfl
  · rw [if_neg fun h => hdir ((getLast?_ne_iff currentDir).1 h), if_neg hdir,
      snprintf_eq_take (Nat.succ_ne_zero _) hplain]
    rfl

/-- The format is the path behind a slash. -/
lemma take_slashFormat_iff (path : CString) :
    slashFormat.take (path.length + 1) = 47 :: path ↔ path = [] ∨ path = [37] ∨ path = [37, 115] := by
  rcases path with _ | ⟨a, _ | ⟨b, _ | ⟨c, path⟩⟩⟩
  · exact iff_of_true rfl (.inl rfl)
  · simp [slashFormat, eq_comm (a := (37 : UInt8))]
  · simp [slashFormat, eq_comm (a := (37 : UInt8)), eq_comm (a := (115 : UInt8))]
  · simp [slashFormat]

/-- The format is the path. -/
lemma take_plainFormat_iff (path : CString) :
    plainFormat.take (path.length + 1) = path ↔ path = [37, 115] := by
  rcases path with _ | ⟨a, _ | ⟨b, _ | ⟨c, path⟩⟩⟩
  · exact iff_of_false (by decide) (by decide)
  · simp [plainFormat]
  · simp [plainFormat, eq_comm (a := (37 : UInt8)), eq_comm (a := (115 : UInt8))]
  · simp [plainFormat]

/-- **A path is normalised as is wanted** exactly if there is memory, and the path is absolute or happens to
be the format as far as it is copied.

**Proof sketch.** `snprintf` copies the format up to the length of the path and the slash. -/
theorem normalizes_iff (hdir : currentDir.head? = some 47) (args : ℕ → BitVec 32) (memory : Bool)
    (path : CString) :
    Normalizes args memory path currentDir ↔
      memory = true ∧ (path.head? = some 47 ∨ path = [37, 115] ∨
        currentDir.getLast? ≠ some 47 ∧ (path = [] ∨ path = [37])) := by
  have hne : currentDir ≠ [] := by
    rintro rfl
    simp at hdir
  rw [Normalizes, vfsNormalizePath_eq]
  cases memory with
  | false => exact iff_of_false (by simp) (by simp)
  | true =>
    rw [if_neg (by simp), Option.some.injEq, OpenPath.vfsNormalizePath, and_iff_right rfl, joinPath]
    by_cases habs : path.head? = some 47
    · rw [if_pos habs, if_pos habs]
      exact iff_of_true rfl (.inl habs)
    rw [if_neg habs, if_neg habs, or_iff_right habs]
    by_cases hlast : currentDir.getLast? = some 47
    · rw [if_neg fun h => h.2 hlast, if_pos hlast, List.append_cancel_left_eq, or_iff_left fun h => h.1 hlast]
      exact take_plainFormat_iff path
    · rw [if_pos ⟨hne, hlast⟩, if_neg hlast, List.append_cancel_left_eq, and_iff_right hlast]
      refine (take_slashFormat_iff path).trans ?_
      tauto

/-- The path `/a` in the directory `/d`. -/
theorem normalizes_iff_absolute : Normalizes (fun _ => 0) true [47, 97] [47, 100] :=
  (normalizes_iff rfl (fun _ => 0) true [47, 97]).2 ⟨rfl, .inl rfl⟩

/-- The paths `ab` and `cd` in the directory `/d` are both normalised to `/d/%s`. -/
theorem not_normalizes :
    vfsNormalizePath (fun _ => 0) true [97, 98] [47, 100] = some [47, 100, 47, 37, 115] ∧
      vfsNormalizePath (fun _ => 0) true [99, 100] [47, 100] = some [47, 100, 47, 37, 115] ∧
      ¬ Normalizes (fun _ => 0) true [97, 98] [47, 100] := by
  have hresult : vfsNormalizePath (fun _ => 0) true [97, 98] [47, 100] = some [47, 100, 47, 37, 115] := by
    decide
  refine ⟨hresult, by decide, fun hnormal => ?_⟩
  rw [Normalizes, hresult] at hnormal
  exact absurd hnormal (by decide)

end PathName

end Jarvis
