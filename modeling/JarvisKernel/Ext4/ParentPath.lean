import JarvisKernel.Ext4.Balance
import JarvisKernel.Vfs.ParsePath

set_option relaxedAutoImplicit false
set_option autoImplicit false

/-!
# The path of the parent directory

`ext4_mkdir`, `ext4_rmdir` and `ext4_remove` put the components of a path together again, but for the last
one, in a buffer of `PATH_MAX` bytes. Each component is copied behind what is there, with a slash before it,
and nothing asks how much room is left. The result is then parsed once more by `ext4_get_inode`.

## Main definitions

* `Jarvis.ParentPath.buildParentPath` — the loop, with every write to the buffer.
* `Jarvis.ParentPath.SplitsPath` — what is wanted of the path and of the name behind it.

## Main results

* `Jarvis.ParentPath.fits_iff` — the writes stay in the buffer if the text does.
* `Jarvis.ParentPath.pathComponents_flatMap` — components that are put together are found again.
* `Jarvis.ParentPath.splitsPath_iff` — when a path is split as is wanted.
-/

namespace Jarvis

namespace ParentPath

open PathName Words

/-! ## The loop -/

/-- A buffer with a string, and the writes that were made to it: where, and how many bytes. -/
structure PathBuffer where
  text : CString
  writes : List (ℕ × ℕ)

namespace PathBuffer

/-- `strcpy` to an offset of the buffer. The string ends with the copy. -/
def strcpy (b : PathBuffer) (offset : ℕ) (source : CString) : PathBuffer where
  text := b.text.take offset ++ source
  writes := b.writes ++ [(offset, source.length + 1)]

/-- One round: `strlen`, a slash, and the component behind it. -/
def appendComponent (b : PathBuffer) (component : CString) : PathBuffer :=
  let len := b.text.length
  (b.strcpy len [47]).strcpy (len + 1) component

end PathBuffer

/-- `parent_path` of two or more components, from `parent_path[0] = '\0'` on. -/
def buildParentPath (components : List CString) : PathBuffer :=
  let b := components.dropLast.foldl PathBuffer.appendComponent ⟨[], [(0, 1)]⟩
  if b.text.length = 0 then b.strcpy 0 [47] else b

/-- What is wanted of the parent path and the name behind it, for the given components of the path: the
buffer is large enough, the parent path has all components but the last, and this is the name. -/
structure SplitsPath (path : CString) (components : List CString) : Prop where
  fits : ∀ write ∈ (buildParentPath (pathComponents path)).writes, write.1 + write.2 ≤ Volume.pathMax
  parses : pathComponents (buildParentPath (pathComponents path)).text = components.dropLast
  name : some ((pathComponents path).getLastD []) = components.getLast?

variable {b : PathBuffer} {path : CString} {components ws : List CString}

/-! ## The writes -/

/-- The writes go as far as the end of the string, and no further. -/
structure PathBuffer.Tight (b : PathBuffer) : Prop where
  le : ∀ write ∈ b.writes, write.1 + write.2 ≤ b.text.length + 1
  reached : ∃ write ∈ b.writes, write.1 + write.2 = b.text.length + 1

namespace PathBuffer

/-- Copying to the end of the buffer's text adds the source to it. -/
lemma text_strcpy (b : PathBuffer) (source : CString) :
    (b.strcpy b.text.length source).text = b.text ++ source := by
  rw [strcpy, List.take_length]

/-- A copy to the end of the string. -/
lemma Tight.strcpy (h : b.Tight) (source : CString) : (b.strcpy b.text.length source).Tight := by
  have hlength : (b.strcpy b.text.length source).text.length = b.text.length + source.length := by
    rw [text_strcpy, List.length_append]
  refine ⟨fun write hwrite => ?_, ⟨_, List.mem_append_right _ (List.mem_singleton_self _), ?_⟩⟩
  · rw [hlength]
    rcases List.mem_append.1 hwrite with hold | hnew
    · have hle := h.le write hold
      omega
    · obtain rfl := List.mem_singleton.1 hnew
      omega
  · rw [hlength]
    omega

/-- One round copies twice to the end of the string. -/
lemma appendComponent_eq (b : PathBuffer) (component : CString) :
    b.appendComponent component =
      (b.strcpy b.text.length [47]).strcpy (b.strcpy b.text.length [47]).text.length component := by
  rw [appendComponent, text_strcpy, List.length_append]
  rfl

/-- A component keeps the buffer free of anything behind its end. -/
lemma Tight.appendComponent (h : b.Tight) (component : CString) : (b.appendComponent component).Tight := by
  rw [appendComponent_eq]
  exact (h.strcpy [47]).strcpy component

/-- A component is added with a slash before it. -/
lemma text_appendComponent (b : PathBuffer) (component : CString) :
    (b.appendComponent component).text = b.text ++ 47 :: component := by
  rw [appendComponent_eq, text_strcpy, text_strcpy, List.append_assoc]
  rfl

/-- The whole loop. -/
lemma foldl_appendComponent (h : b.Tight) (ws : List CString) :
    (ws.foldl appendComponent b).Tight ∧
      (ws.foldl appendComponent b).text = b.text ++ ws.flatMap fun w => 47 :: w := by
  induction ws generalizing b with
  | nil => exact ⟨h, (List.append_nil _).symm⟩
  | cons w ws ih =>
    obtain ⟨htight, htext⟩ := ih (h.appendComponent w)
    refine ⟨htight, ?_⟩
    rw [List.foldl_cons, htext, text_appendComponent, List.append_assoc, List.flatMap_cons]

end PathBuffer

/-- **The parent path** of two or more components. -/
lemma buildParentPath_spec (h : 2 ≤ components.length) :
    (buildParentPath components).Tight ∧
      (buildParentPath components).text = components.dropLast.flatMap fun w => 47 :: w := by
  have hstart : (⟨[], [(0, 1)]⟩ : PathBuffer).Tight :=
    ⟨fun write hwrite => by rw [List.mem_singleton.1 hwrite]; exact le_rfl,
      ⟨_, List.mem_singleton_self _, rfl⟩⟩
  obtain ⟨htight, htext⟩ := PathBuffer.foldl_appendComponent hstart components.dropLast
  have hne : ¬ (components.dropLast.foldl PathBuffer.appendComponent ⟨[], [(0, 1)]⟩).text.length = 0 := by
    rw [htext, List.nil_append]
    cases hinit : components.dropLast with
    | nil =>
      have hlength := congrArg List.length hinit
      rw [List.length_dropLast, List.length_nil] at hlength
      omega
    | cons w ws => simp
  rw [buildParentPath, if_neg hne]
  exact ⟨htight, htext⟩

/-- The parent path is that of the directories. -/
lemma text_buildParentPath (h : 2 ≤ components.length) :
    (buildParentPath components).text = parentPath components := by
  rw [(buildParentPath_spec h).2, parentPath, if_neg (by omega)]

/-- **The writes stay in the buffer** if the parent path fits it with its end. -/
lemma fits_iff (h : 2 ≤ (pathComponents path).length) :
    (∀ write ∈ (buildParentPath (pathComponents path)).writes, write.1 + write.2 ≤ Volume.pathMax) ↔
      Volume.FitsBuffer path := by
  obtain ⟨hle, write, hwrite, heq⟩ := (buildParentPath_spec h).1
  rw [Volume.FitsBuffer, ← text_buildParentPath h]
  constructor
  · intro hfits
    have hlast := hfits write hwrite
    omega
  · intro hfits write' hwrite'
    have hend := hle write' hwrite'
    omega

/-! ## The components -/

/-- Components that are put together are found again. -/
lemma pathComponents_flatMap (h : ∀ w ∈ ws, w ≠ [] ∧ 47 ∉ w) :
    pathComponents (ws.flatMap fun w => 47 :: w) = ws := by
  have hslash : ¬ [47, 47] <+: ws.flatMap fun w => 47 :: w := by
    cases ws with
    | nil => simp
    | cons w ws =>
      obtain ⟨hne, hnot⟩ := h w List.mem_cons_self
      obtain ⟨c, w, rfl⟩ := List.exists_cons_of_ne_nil hne
      have hc : c ≠ 47 := fun hc => hnot (hc ▸ List.mem_cons_self)
      simp [Ne.symm hc]
  rw [pathComponents_eq, if_neg hslash, words_flatMap h]

/-- With an empty component before them, if there are any. -/
lemma pathComponents_flatMap_nil (h : ∀ w ∈ ws, w ≠ [] ∧ 47 ∉ w) :
    pathComponents (([] :: ws).flatMap fun w => 47 :: w) = if ws = [] then [] else [] :: ws := by
  have htext : (([] :: ws).flatMap fun w => 47 :: w) = 47 :: ws.flatMap fun w => 47 :: w := by
    rw [List.flatMap_cons]
    rfl
  rw [htext, pathComponents_eq, words_cons_sep, words_flatMap h]
  cases ws with
  | nil => rfl
  | cons w ws => rw [if_pos (by simp), if_neg (by simp)]

/-- The components of a path but for the last are words of it. -/
lemma of_mem_dropLast_words (path : CString) {w : CString} (h : w ∈ (words 47 path).dropLast) : w ≠ [] ∧ 47 ∉ w :=
  of_mem_words (List.mem_of_mem_dropLast h)

/-- The last component, read with a default. -/
lemma getLastD_eq (h : components ≠ []) : some (components.getLastD []) = components.getLast? := by
  rw [List.getLastD_eq_getLast?, List.getLast?_eq_some_getLast h]
  rfl

/-- **Paths without two slashes at the start** are split as is wanted if the parent path fits. -/
lemma splitsPath_of_words (hslash : ¬ [47, 47] <+: path) (h : 2 ≤ (words 47 path).length) :
    SplitsPath path (words 47 path) ↔ Volume.FitsBuffer path := by
  have hcomponents : pathComponents path = words 47 path := by rw [pathComponents_eq, if_neg hslash]
  rw [← hcomponents] at h ⊢
  refine ⟨fun hsplits => (fits_iff h).1 hsplits.fits, fun hfits => ⟨(fits_iff h).2 hfits, ?_, ?_⟩⟩
  · rw [(buildParentPath_spec h).2]
    refine pathComponents_flatMap fun w hw => of_mem_dropLast_words path ?_
    rwa [← hcomponents]
  · refine getLastD_eq fun hnil => ?_
    rw [hnil] at h
    simp at h

/-- The parent path of a path that starts with two slashes starts with two slashes, unless there is only
one word. -/
lemma pathComponents_of_slashes (hslash : [47, 47] <+: path) (h : words 47 path ≠ []) :
    pathComponents (buildParentPath (pathComponents path)).text =
      if (words 47 path).length = 1 then [] else [] :: (words 47 path).dropLast := by
  have hcomponents : pathComponents path = [] :: words 47 path := by rw [pathComponents_eq, if_pos hslash]
  have hpos := List.length_pos_iff.2 h
  have htwo : 2 ≤ (pathComponents path).length := by
    rw [hcomponents, List.length_cons]
    omega
  have hone : (words 47 path).dropLast = [] ↔ (words 47 path).length = 1 := by
    rw [← List.length_eq_zero_iff, List.length_dropLast]
    omega
  rw [(buildParentPath_spec htwo).2, hcomponents, List.dropLast_cons_of_ne_nil h,
    pathComponents_flatMap_nil fun w hw => of_mem_dropLast_words path hw]
  simp only [hone]

/-- **A path is split as is wanted** exactly if the parent path fits its buffer and the path does not start
with two slashes, or has two words behind them. The components are those that `vfs_parse_path` finds, or
those without an empty one; then no path that starts with two slashes is split.

**Proof sketch.** The writes go to the end of the parent path. Parsing it again gives the components back,
but for an empty one that is all there is. -/
theorem splitsPath_iff (path : CString) :
    (2 ≤ (pathComponents path).length →
      (SplitsPath path (pathComponents path) ↔
        Volume.FitsBuffer path ∧ ¬ ([47, 47] <+: path ∧ (words 47 path).length = 1))) ∧
    (2 ≤ (words 47 path).length →
      (SplitsPath path (words 47 path) ↔ Volume.FitsBuffer path ∧ ¬ [47, 47] <+: path)) := by
  by_cases hslash : [47, 47] <+: path
  · have hcomponents : pathComponents path = [] :: words 47 path := by
      rw [pathComponents_eq, if_pos hslash]
    constructor
    · intro h
      have hne : words 47 path ≠ [] := by
        intro hnil
        rw [hcomponents, hnil] at h
        simp at h
      have hparses := pathComponents_of_slashes hslash hne
      rw [and_iff_right hslash]
      constructor
      · intro hsplits
        refine ⟨(fits_iff h).1 hsplits.fits, fun hone => ?_⟩
        have hnil := hsplits.parses
        rw [hparses, if_pos hone, hcomponents, List.dropLast_cons_of_ne_nil hne] at hnil
        simp at hnil
      · rintro ⟨hfits, hone⟩
        refine ⟨(fits_iff h).2 hfits, ?_, getLastD_eq fun hnil => by simp [hnil] at h⟩
        rw [hparses, if_neg hone, hcomponents, List.dropLast_cons_of_ne_nil hne]
    · intro h
      have hne : words 47 path ≠ [] := by
        intro hnil
        rw [hnil] at h
        simp at h
      refine iff_of_false (fun hsplits => ?_) fun hnot => hnot.2 hslash
      have hparses := hsplits.parses
      rw [pathComponents_of_slashes hslash hne, if_neg (by omega)] at hparses
      have hlength := congrArg List.length hparses
      simp at hlength
  · have hcomponents : pathComponents path = words 47 path := by rw [pathComponents_eq, if_neg hslash]
    rw [hcomponents]
    refine ⟨fun h => ?_, fun h => ?_⟩
    · rw [splitsPath_of_words hslash h, and_iff_left fun hnot => hslash hnot.1]
    · rw [splitsPath_of_words hslash h, and_iff_left hslash]

/-- The path `/a/b`. -/
theorem splitsPath_iff_twoWords : SplitsPath [47, 97, 47, 98] (words 47 [47, 97, 47, 98]) :=
  ((splitsPath_iff [47, 97, 47, 98]).2 (by decide)).2
    ⟨by show (parentPath (pathComponents [47, 97, 47, 98])).length < Volume.pathMax; decide, by decide⟩

/-- A directory name of 255 letters, and a name in it: the parent path has 256 bytes, and its end is behind
the buffer. -/
def longPath : CString := 47 :: List.replicate 255 97 ++ [47, 98]

/-- A path that `ext4_mkdir` does not split into parent and name. -/
theorem not_splitsPath :
    2 ≤ (pathComponents longPath).length ∧ pathComponents longPath = words 47 longPath ∧
      ¬ SplitsPath longPath (pathComponents longPath) := by
  have htwo : 2 ≤ (pathComponents longPath).length := by decide +kernel
  refine ⟨htwo, by decide +kernel, fun hsplits => ?_⟩
  have hfits := (fits_iff htwo).1 hsplits.fits
  have hlength : (parentPath (pathComponents longPath)).length = 256 := by decide +kernel
  rw [Volume.FitsBuffer, hlength] at hfits
  exact absurd hfits (by decide)

end ParentPath

end Jarvis
