import JarvisKernel.Ext4.Directories
import JarvisKernel.Lib.Words

set_option relaxedAutoImplicit false
set_option autoImplicit false

/-!
# Path components

`vfs_parse_path` of `src/fs/vfs.c` goes over a path twice, first to count the components and then to copy
them. Behind a component it passes over any number of slashes, but at the start of the path over one only.
So a path that starts with two slashes has an empty component.

The memory for the components, which is freed again if there is not enough, is left out here.

## Main definitions

* `Jarvis.PathName.countLoop`, `Jarvis.PathName.splitLoop` — the loops.
* `Jarvis.PathName.vfsParsePath` — the function, for any outcome of its calls of `malloc`.

## Main results

* `Jarvis.PathName.pathComponents_eq` — the components are the words of the path, after an empty one if the
  path starts with two slashes.
* `Jarvis.PathName.vfsParsePath_eq_openPath` — the function refines the lookup of the directories.
* `Jarvis.PathName.parsesRuns_iff` — when there is no empty component.
-/

namespace Jarvis

namespace PathName

open Words

/-! ## The function -/

/-- To the end of a component, and to the start of the next one. -/
def skipComponent (path : CString) : CString := (path.dropWhile (· ≠ 47)).dropWhile (· = 47)

/-- One slash is passed over at the start. -/
def skipSlash (path : CString) : CString := if path.head? = some 47 then path.tail else path

/-- The loop that counts the components, with as many rounds as there are bytes. -/
def countLoop : ℕ → CString → ℕ
  | 0, _ => 0
  | _ + 1, [] => 0
  | rounds + 1, c :: path => countLoop rounds (skipComponent (c :: path)) + 1

/-- The loop that copies them, from component `i` on. `memory` says which calls of `malloc` succeed; call 0
is that for the table. -/
def splitLoop (memory : ℕ → Bool) : ℕ → ℕ → CString → Option (List CString)
  | 0, _, _ => some []
  | _ + 1, _, [] => some []
  | rounds + 1, i, c :: path =>
    if memory (i + 1) = false then none
    else
      (splitLoop memory rounds (i + 1) (skipComponent (c :: path))).map
        ((c :: path).takeWhile (· ≠ 47) :: ·)

/-- The components, `none` for `NULL`, and `*num_components`. -/
structure ParseResult where
  components : Option (List CString)
  numComponents : ℕ
  deriving DecidableEq

/-- `vfs_parse_path`. -/
def vfsParsePath (memory : ℕ → Bool) (path : CString) : ParseResult :=
  let count := countLoop path.length (skipSlash path)
  if memory 0 = false then ⟨none, 0⟩
  else
    match splitLoop memory path.length 0 (skipSlash path) with
    | none => ⟨none, 0⟩
    | some components => ⟨some components, count⟩

variable {memory : ℕ → Bool} {path : CString} {rounds i : ℕ}

/-! ## The loops -/

/-- Both loops find the same components. -/
lemma countLoop_eq (rounds : ℕ) (path : CString) :
    countLoop rounds path = (splitPath rounds path).length := by
  induction rounds generalizing path with
  | zero => rfl
  | succ rounds ih =>
    cases path with
    | nil => rfl
    | cons c path =>
      rw [countLoop, splitPath, List.length_cons, ih]
      rfl

/-- There are components if there is memory for every one. -/
lemma splitLoop_eq (memory : ℕ → Bool) (rounds i : ℕ) (path : CString) :
    splitLoop memory rounds i path =
      if ∀ k < (splitPath rounds path).length, memory (i + 1 + k) = true then some (splitPath rounds path)
      else none := by
  induction rounds generalizing i path with
  | zero => exact (if_pos fun k hk => absurd hk (Nat.not_lt_zero k)).symm
  | succ rounds ih =>
    cases path with
    | nil => exact (if_pos fun k hk => absurd hk (Nat.not_lt_zero k)).symm
    | cons c path =>
      have hiff : (∀ k < (splitPath (rounds + 1) (c :: path)).length, memory (i + 1 + k) = true) ↔
          memory (i + 1) = true ∧
            ∀ k < (splitPath rounds (skipComponent (c :: path))).length, memory (i + 1 + 1 + k) = true := by
        rw [splitPath, List.length_cons]
        constructor
        · intro h
          refine ⟨h 0 (Nat.succ_pos _), fun k hk => ?_⟩
          rw [Nat.add_right_comm]
          exact h (k + 1) (Nat.succ_lt_succ hk)
        · rintro ⟨hzero, hrest⟩ k hk
          cases k with
          | zero => exact hzero
          | succ k =>
            rw [← Nat.add_assoc, Nat.add_right_comm]
            exact hrest k (Nat.lt_of_succ_lt_succ hk)
      rw [splitLoop, ih]
      cases hmemory : memory (i + 1) with
      | false => rw [if_pos rfl, if_neg fun h => by simpa [hmemory] using (hiff.1 h).1]
      | true =>
        rw [if_neg (by simp)]
        by_cases hrest : ∀ k < (splitPath rounds (skipComponent (c :: path))).length,
            memory (i + 1 + 1 + k) = true
        · rw [if_pos hrest, if_pos (hiff.2 ⟨hmemory, hrest⟩)]
          rfl
        · rw [if_neg hrest, if_neg fun h => hrest (hiff.1 h).2]
          rfl

/-- A component ends before the path does. -/
lemma length_skipComponent (path : CString) : (skipComponent path).length ≤ path.length :=
  (List.length_dropWhile_le _ _).trans (List.length_dropWhile_le _ _)

/-- The next component does not start with a slash. -/
lemma head_skipComponent (path : CString) : (skipComponent path).head? ≠ some 47 := by
  have hhead := List.head?_dropWhile_not (fun c : UInt8 => decide (c = 47)) (path.dropWhile (· ≠ 47))
  intro hslash
  rw [skipComponent] at hslash
  rw [hslash] at hhead
  simp at hhead

/-- **The components of a path** that does not start with a slash are its words. -/
lemma splitPath_eq_words (hrounds : path.length ≤ rounds) (hhead : path.head? ≠ some 47) :
    splitPath rounds path = words 47 path := by
  induction rounds generalizing path with
  | zero =>
    rw [List.length_eq_zero_iff.1 (Nat.le_zero.1 hrounds), words_nil]
    rfl
  | succ rounds ih =>
    cases path with
    | nil => exact (words_nil 47).symm
    | cons c path =>
      have hc : c ≠ 47 := fun hc => hhead (by rw [hc]; rfl)
      have hshort : (skipComponent (c :: path)).length ≤ rounds := by
        rw [skipComponent, List.dropWhile_cons, if_pos (by simpa using hc)]
        exact (length_skipComponent path).trans (Nat.le_of_succ_le_succ hrounds)
      rw [words_cons hc, splitPath]
      exact congrArg _ (ih hshort (head_skipComponent _))

/-- A slash at the place where a component is looked for makes an empty one. -/
lemma splitPath_cons_slash (hrounds : path.length ≤ rounds) :
    splitPath (rounds + 1) (47 :: path) = [] :: words 47 path := by
  have hskip : skipComponent (47 :: path) = path.dropWhile (· = 47) := by
    rw [skipComponent, List.dropWhile_cons, if_neg (by simp), List.dropWhile_cons, if_pos (by simp)]
  have hhead := head_skipComponent (47 :: path)
  have hshort : (skipComponent (47 :: path)).length ≤ rounds := by
    rw [hskip]
    exact (List.length_dropWhile_le _ _).trans hrounds
  rw [splitPath, List.takeWhile_cons, if_neg (by simp)]
  refine congrArg _ ((splitPath_eq_words hshort hhead).trans ?_)
  rw [hskip, words_dropWhile]

/-- **The components that `vfs_parse_path` finds**: the words of the path, and before them an empty one if
the path starts with two slashes. -/
lemma pathComponents_eq (path : CString) :
    pathComponents path = if [47, 47] <+: path then [] :: words 47 path else words 47 path := by
  rw [pathComponents]
  cases path with
  | nil => rfl
  | cons c path =>
    by_cases hc : c = 47
    · subst hc
      rw [List.head?_cons, if_pos rfl, List.tail_cons, List.length_cons, words_cons_sep]
      cases path with
      | nil => rfl
      | cons d path =>
        by_cases hd : d = 47
        · subst hd
          rw [if_pos (by simp), words_cons_sep]
          exact splitPath_cons_slash (by simp)
        · rw [if_neg (by simpa using Ne.symm hd)]
          exact splitPath_eq_words (by simp) (by simpa using hd)
    · rw [List.head?_cons, if_neg (by simpa using hc), if_neg (by simp [Ne.symm hc])]
      exact splitPath_eq_words le_rfl (by simpa using hc)

/-- A slash at the start is skipped without changing the components. -/
lemma splitPath_skipSlash (path : CString) :
    splitPath path.length (skipSlash path) = pathComponents path := by
  rw [skipSlash, pathComponents]
  split_ifs <;> rfl

/-! ## Memory -/

/-- There is memory for the table and for every component. -/
def MemorySuffices (memory : ℕ → Bool) (path : CString) : Prop :=
  ∀ n ≤ (pathComponents path).length, memory n = true

instance (memory : ℕ → Bool) (path : CString) : Decidable (MemorySuffices memory path) := by
  unfold MemorySuffices
  infer_instance

/-- **The result of `vfs_parse_path`**. -/
lemma vfsParsePath_eq (memory : ℕ → Bool) (path : CString) :
    vfsParsePath memory path =
      if MemorySuffices memory path then ⟨some (pathComponents path), (pathComponents path).length⟩
      else ⟨none, 0⟩ := by
  have hiff : MemorySuffices memory path ↔
      memory 0 = true ∧ ∀ k < (pathComponents path).length, memory (0 + 1 + k) = true := by
    constructor
    · intro h
      exact ⟨h 0 (Nat.zero_le _), fun k hk => h _ (by omega)⟩
    · rintro ⟨hzero, hrest⟩ n hn
      cases n with
      | zero => exact hzero
      | succ n =>
        have hmemory := hrest n hn
        rwa [Nat.zero_add, Nat.add_comm] at hmemory
  rw [vfsParsePath, countLoop_eq, splitLoop_eq, splitPath_skipSlash]
  cases hzero : memory 0 with
  | false => rw [if_pos rfl, if_neg fun h => by simpa [hzero] using (hiff.1 h).1]
  | true =>
    rw [if_neg (by simp)]
    by_cases hrest : ∀ k < (pathComponents path).length, memory (0 + 1 + k) = true
    · rw [if_pos hrest, if_pos (hiff.2 ⟨hzero, hrest⟩)]
    · rw [if_neg hrest, if_neg fun h => hrest (hiff.1 h).2]

/-- Calls of `malloc` succeed if each of them does. -/
lemma mallocTemporaries_eq_true_iff (s : Files OpenWorld) (n : ℕ) :
    (OpenPath.mallocTemporaries s n).2 = true ↔
      ∀ k < n, s.world.memory (s.world.mallocs + k) = true := by
  induction n generalizing s with
  | zero => exact iff_of_true rfl fun k hk => absurd hk (Nat.not_lt_zero k)
  | succ n ih =>
    rw [OpenPath.mallocTemporaries, OpenPath.mallocTemporary]
    cases hmemory : s.world.memory s.world.mallocs with
    | false =>
      refine iff_of_false (by simp) fun h => ?_
      simpa [hmemory] using h 0 (Nat.succ_pos n)
    | true =>
      refine (ih _).trans ⟨fun h k hk => ?_, fun h k hk => ?_⟩
      · cases k with
        | zero => exact hmemory
        | succ k =>
          have hnext := h k (Nat.lt_of_succ_lt_succ hk)
          rwa [show s.world.mallocs + (k + 1) = s.world.mallocs + 1 + k by omega]
      · have hnext := h (k + 1) (Nat.succ_lt_succ hk)
        rwa [show s.world.mallocs + (k + 1) = s.world.mallocs + 1 + k by omega] at hnext

/-- The directories get their components from this function. -/
lemma vfsParsePath_eq_openPath (s : Files OpenWorld) (path : CString) :
    (OpenPath.vfsParsePath s path).2 =
      (vfsParsePath (fun n => s.world.memory (s.world.mallocs + n)) path).components := by
  have hiff : (OpenPath.mallocTemporaries s ((pathComponents path).length + 1)).2 = true ↔
      MemorySuffices (fun n => s.world.memory (s.world.mallocs + n)) path := by
    rw [mallocTemporaries_eq_true_iff, MemorySuffices]
    exact forall_congr' fun n => by rw [Nat.lt_succ_iff]
  rw [OpenPath.vfsParsePath, vfsParsePath_eq]
  rcases hmalloc : OpenPath.mallocTemporaries s ((pathComponents path).length + 1) with ⟨s', _ | _⟩
  all_goals rw [hmalloc] at hiff
  · rw [if_neg fun h => by simpa using hiff.2 h]
  · rw [if_pos (hiff.1 rfl)]

/-! ## The components -/

/-- **No component is empty** exactly if the path does not start with two slashes.

**Proof sketch.** Behind a component all slashes are passed over, so that the next round starts at a word or
at the end. At the start one slash is passed over, and another one ends an empty component. -/
theorem parsesRuns_iff (h : MemorySuffices memory path) :
    vfsParsePath memory path = ⟨some (words 47 path), (words 47 path).length⟩ ↔ ¬ [47, 47] <+: path := by
  rw [vfsParsePath_eq, if_pos h, pathComponents_eq, ParseResult.mk.injEq, Option.some.injEq]
  by_cases hslash : [47, 47] <+: path
  · rw [if_pos hslash]
    refine iff_of_false (fun heq => ?_) (not_not_intro hslash)
    simp at heq
  · rw [if_neg hslash]
    exact iff_of_true ⟨rfl, rfl⟩ hslash

/-- The path `/a//b/`. -/
theorem parsesRuns_iff_twoWords :
    vfsParsePath (fun _ => true) [47, 97, 47, 47, 98, 47] = ⟨some [[97], [98]], 2⟩ :=
  (parsesRuns_iff fun _ _ => rfl).2 (by decide)

/-- The path `//a` has an empty component. -/
theorem not_parsesRuns :
    MemorySuffices (fun _ => true) [47, 47, 97] ∧
      vfsParsePath (fun _ => true) [47, 47, 97] ≠
        ⟨some (words 47 [47, 47, 97]), (words 47 [47, 47, 97]).length⟩ := by
  decide

end PathName

end Jarvis
