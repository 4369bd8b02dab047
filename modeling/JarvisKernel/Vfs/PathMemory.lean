import JarvisKernel.Ext4.Readdir
import JarvisKernel.Vfs.ParsePath

set_option relaxedAutoImplicit false
set_option autoImplicit false

/-!
# The memory of path components

`vfs_parse_path` and `vfs_free_path_components` of `src/fs/vfs.c` with the blocks of memory that they allocate,
write and free. A block is named by the number of the call of `malloc` that returns it, so that the table of the
components is block 0.

## Main definitions

* `Jarvis.PathMemory` — the table, the blocks, and what is allocated and freed.
* `Jarvis.PathMemory.vfsParsePath`, `Jarvis.PathMemory.vfsFreePathComponents` — the functions.
* `Jarvis.PathMemory.ParsesCleanly` — what is wanted.

## Main results

* `Jarvis.PathMemory.Filled.splitBlocks` — the loop that copies the components.
* `Jarvis.PathMemory.freed_vfsFreePathComponents` — what is freed.
* `Jarvis.PathMemory.vfsParsePath_parsesCleanly` — every outcome of the calls of `malloc`.
-/

namespace Jarvis

open PathName Words

/-- The memory during a call: the number of calls of `malloc` so far, the sizes and the bytes of blocks, the
table of the components with the places that are written, and the blocks that are allocated and freed. -/
structure PathMemory where
  calls : ℕ
  sizes : ℕ → BitVec 32
  text : ℕ → ℕ → BitVec 8
  table : ℕ → Option ℕ
  tableWrites : List ℕ
  allocated : List ℕ
  freed : List ℕ

namespace PathMemory

/-! ## The functions -/

/-- `malloc`. `memory` says which calls succeed. -/
def malloc (s : PathMemory) (memory : ℕ → Bool) (size : BitVec 32) : Option ℕ × PathMemory :=
  if memory s.calls then
    (some s.calls, { s with
      calls := s.calls + 1
      sizes := Function.update s.sizes s.calls size
      allocated := s.allocated ++ [s.calls] })
  else (none, { s with calls := s.calls + 1 })

/-- `free`. -/
def free (s : PathMemory) (block : ℕ) : PathMemory := { s with freed := s.freed ++ [block] }

/-- `components[i] = block`. -/
def setComponent (s : PathMemory) (i : ℕ) (block : Option ℕ) : PathMemory :=
  { s with table := Function.update s.table i block, tableWrites := s.tableWrites ++ [i] }

/-- `strncpy(block, start, len); block[len] = 0`. -/
def copyText (s : PathMemory) (block : ℕ) (start : CString) (len : ℕ) : PathMemory :=
  let copied := fun k => (Ext4.strncpy start.bytes len)[k]?.getD (s.text block k)
  { s with text := Function.update s.text block (Function.update copied len 0) }

/-- One round of the loop of `vfs_free_path_components`. -/
def freeComponent (s : PathMemory) (i : ℕ) : PathMemory :=
  match s.table i with
  | none => s
  | some block => s.free block

/-- `vfs_free_path_components`. -/
def vfsFreePathComponents (s : PathMemory) (components : Option ℕ) (numComponents : ℕ) : PathMemory :=
  match components with
  | none => s
  | some table => ((List.range numComponents).foldl freeComponent s).free table

/-- The loop that copies the components, from component `i` on. It ends before the end of the path if there is
no memory for a component. -/
def splitBlocks (memory : ℕ → Bool) : ℕ → ℕ → CString → PathMemory → Option (Bool × ℕ × PathMemory)
  | _, i, [], s => some (true, i, s)
  | 0, _, _ :: _, _ => none
  | rounds + 1, i, c :: path, s =>
    let len := ((c :: path).takeWhile (· ≠ 47)).length
    let (block, s) := s.malloc memory (BitVec.ofNat 32 (len + 1))
    match block with
    | none => some (false, i, s.setComponent i none)
    | some b =>
      splitBlocks memory rounds (i + 1) (skipComponent (c :: path))
        ((s.setComponent i (some b)).copyText b (c :: path) len)

/-- The table that is returned, `none` for `NULL`, the value of `*num_components` if there is one, and the
memory. -/
structure Parsed where
  components : Option ℕ
  numComponents : Option ℕ
  memory : PathMemory

/-- `vfs_parse_path`. -/
def vfsParsePath (memory : ℕ → Bool) (path : Option CString) (numComponents : Option ℕ) (s : PathMemory) :
    Option Parsed :=
  match path, numComponents with
  | some path, some _ =>
    let count := countLoop path.length (skipSlash path)
    let (components, s) := s.malloc memory (BitVec.ofNat 32 (4 * (count + 1)))
    match components with
    | none => some ⟨none, some 0, s⟩
    | some table =>
      (splitBlocks memory path.length 0 (skipSlash path) s).map fun r =>
        if r.1 then ⟨some table, some count, r.2.2.setComponent r.2.1 none⟩
        else ⟨none, some 0, r.2.2.vfsFreePathComponents (some table) r.2.1⟩
  | _, numComponents => some ⟨none, numComponents, s⟩

/-- The memory before the call. What is in the table and in the blocks is arbitrary. -/
def start (text : ℕ → ℕ → BitVec 8) (table : ℕ → Option ℕ) : PathMemory :=
  ⟨0, fun _ => 0, text, table, [], [], []⟩

/-! ## What is wanted -/

/-- A block has been allocated for a text with its end, and has a copy of it. -/
structure HasCopy (s : PathMemory) (block : ℕ) (text : CString) : Prop where
  size : s.sizes block = BitVec.ofNat 32 (text.length + 1)
  copy : TextAt (s.text block) 0 (text.map UInt8.toBitVec)

/-- The entries of the table lead to copies of the components, which have no slash. -/
def Entries (s : PathMemory) (components : List CString) : Prop :=
  ∀ i (h : i < components.length), 47 ∉ components[i] ∧
    ∃ block, s.table i = some block ∧ s.HasCopy block components[i]

/-- The components of a path: its words, and before them an empty one if the path starts with two slashes. -/
def components (path : CString) : List CString :=
  if [47, 47] <+: path then [] :: words 47 path else words 47 path

/-- What is wanted: as many components are counted as the path has, and the table is written in the places for
them and for the `NULL` behind them only. The call succeeds if `malloc` does so for the table and for each
component; then the table has copies of the components, and nothing was freed. If it fails, all that was
allocated was freed once. -/
structure ParsesCleanly (memory : ℕ → Bool) (path : CString) (r : Parsed) : Prop where
  counts : countLoop path.length (skipSlash path) = (components path).length
  writes : ∀ i ∈ r.memory.tableWrites, i ≤ (components path).length
  succeeds : r.components.isSome = true ↔ ∀ n ≤ (components path).length, memory n = true
  success : ∀ table, r.components = some table →
    r.numComponents = some (components path).length ∧ r.memory.table (components path).length = none ∧
      r.memory.Entries (components path) ∧ r.memory.freed = []
  failure : r.components = none →
    r.numComponents = some 0 ∧ (∀ block ∈ r.memory.allocated, r.memory.freed.count block = 1) ∧
      ∀ block ∈ r.memory.freed, block ∈ r.memory.allocated

variable {s : PathMemory} {memory : ℕ → Bool} {path w : CString} {done : List CString} {i n rounds : ℕ}

/-! ## Copies -/

/-- `strncpy` copies the start of a string. -/
lemma strncpy_append (hw : 0 ∉ w) (rest : CString) :
    Ext4.strncpy (w ++ rest).bytes w.length = w.map UInt8.toBitVec := by
  induction w with
  | nil => rfl
  | cons c w ih =>
    rw [List.mem_cons, not_or] at hw
    have hc : CString.bytes (c :: w ++ rest) 0 ≠ 0 := fun hzero => hw.1 (UInt8.toBitVec_inj.1 hzero).symm
    rw [List.length_cons, Ext4.strncpy, if_neg hc, List.map_cons, ← ih hw.2]
    rfl

/-- The copy of a text ends behind it. -/
lemma text_copyText (s : PathMemory) (block : ℕ) (hw : 0 ∉ w) (rest : CString) :
    TextAt ((s.copyText block (w ++ rest) w.length).text block) 0 (w.map UInt8.toBitVec) := by
  refine textAt_of_bytes hw fun k hk => ?_
  rw [copyText, Nat.zero_add]
  dsimp only
  rw [Function.update_self, strncpy_append hw]
  rcases Nat.lt_or_eq_of_le hk with hlt | rfl
  · rw [Function.update_of_ne hlt.ne, CString.bytes_of_lt hlt]
    simp [hlt]
  · rw [Function.update_self, CString.bytes_length]

/-! ## The loop -/

/-- The first `n` components have blocks, which are those behind the block of the table. -/
structure Allocated (s : PathMemory) (n : ℕ) : Prop where
  allocated : s.allocated = List.range (n + 1)
  freed : s.freed = []
  table : ∀ k < n, s.table k = some (k + 1)

/-- The components so far are in their blocks. -/
structure Filled (s : PathMemory) (done : List CString) : Prop extends s.Allocated done.length where
  calls : s.calls = done.length + 1
  writes : ∀ k ∈ s.tableWrites, k < done.length
  copies : ∀ k (h : k < done.length), 47 ∉ done[k] ∧ s.HasCopy (k + 1) done[k]

/-- A round with memory for a component. -/
lemma Filled.round (h : s.Filled done) (hmemory : memory (done.length + 1) = true) (hw : 0 ∉ w)
    (hslash : 47 ∉ w) (rest : CString) :
    (s.malloc memory (BitVec.ofNat 32 (w.length + 1))).1 = some (done.length + 1) ∧
      (((s.malloc memory (BitVec.ofNat 32 (w.length + 1))).2.setComponent done.length
        (some (done.length + 1))).copyText (done.length + 1) (w ++ rest) w.length).Filled (done ++ [w]) := by
  have hlength : (done ++ [w]).length = done.length + 1 := by rw [List.length_append, List.length_singleton]
  rw [malloc, h.calls, if_pos hmemory]
  refine ⟨rfl, ⟨⟨?_, h.freed, fun k hk => ?_⟩, ?_, fun k hk => ?_, fun k hk => ?_⟩⟩
  · show s.allocated ++ [done.length + 1] = _
    rw [h.allocated, hlength, List.range_succ (n := done.length + 1)]
  · show Function.update s.table done.length (some (done.length + 1)) k = _
    rw [hlength] at hk
    rcases Nat.lt_succ_iff_lt_or_eq.1 hk with hlt | rfl
    · rw [Function.update_of_ne hlt.ne, h.table k hlt]
    · rw [Function.update_self]
  · rw [hlength]
    rfl
  · rw [hlength]
    rcases List.mem_append.1 hk with hk | hk
    · exact (h.writes k hk).trans (Nat.lt_succ_self _)
    · rw [List.mem_singleton.1 hk]
      exact Nat.lt_succ_self _
  · rw [hlength] at hk
    rcases Nat.lt_succ_iff_lt_or_eq.1 hk with hlt | rfl
    · -- the blocks before are not written
      have hne : k + 1 ≠ done.length + 1 := by omega
      obtain ⟨hnot, hcopy⟩ := h.copies k hlt
      rw [List.getElem_append_left hlt]
      refine ⟨hnot, (Function.update_of_ne hne _ _).trans hcopy.size, ?_⟩
      show TextAt (Function.update s.text (done.length + 1) _ (k + 1)) 0 _
      rw [Function.update_of_ne hne]
      exact hcopy.copy
    · rw [List.getElem_concat_length rfl]
      exact ⟨hslash, Function.update_self _ _ _, text_copyText _ _ hw rest⟩

/-- A round without memory for a component ends the loop. -/
lemma Filled.fail (h : s.Filled done) (hmemory : memory (done.length + 1) = false) (size : BitVec 32) :
    (s.malloc memory size).1 = none ∧
      ((s.malloc memory size).2.setComponent done.length none).Allocated done.length ∧
      ∀ k ∈ ((s.malloc memory size).2.setComponent done.length none).tableWrites, k ≤ done.length := by
  rw [malloc, h.calls, if_neg (by simp [hmemory])]
  refine ⟨rfl, ⟨h.allocated, h.freed, fun k hk => ?_⟩, fun k hk => ?_⟩
  · show Function.update s.table done.length none k = _
    rw [Function.update_of_ne hk.ne, h.table k hk]
  · rcases List.mem_append.1 hk with hk | hk
    · exact (h.writes k hk).le
    · exact (List.mem_singleton.1 hk).le

/-- The rest of a path behind a component is a part of it. -/
lemma mem_of_mem_skipComponent {c : UInt8} (h : c ∈ skipComponent path) : c ∈ path :=
  (List.dropWhile_sublist _).subset ((List.dropWhile_sublist _).subset h)

/-- A place where a component is looked for is passed over. -/
lemma length_skipComponent_cons (c : UInt8) (path : CString) :
    (skipComponent (c :: path)).length ≤ path.length := by
  by_cases hc : c = 47
  · subst hc
    have hskip : skipComponent (47 :: path) = path.dropWhile (· = 47) := by
      rw [skipComponent, List.dropWhile_cons, if_neg (by simp), List.dropWhile_cons, if_pos (by simp)]
    rw [hskip]
    exact List.length_dropWhile_le _ _
  · rw [skipComponent, List.dropWhile_cons, if_pos (by simpa using hc)]
    exact length_skipComponent path

/-- **The loop that copies the components** leaves them in their blocks, or ends at the first one without memory.

**Proof sketch.** Induction on the rounds. A round with memory gives the next component its block, so that
the components so far are those before and this one. A round without memory leaves the blocks of those
before. -/
lemma Filled.splitBlocks (h : s.Filled done) (memory : ℕ → Bool) (hpath : 0 ∉ path)
    (hrounds : path.length ≤ rounds) :
    ∃ ok n s', PathMemory.splitBlocks memory rounds done.length path s = some (ok, n, s') ∧
      ((ok = true ∧ splitLoop memory rounds done.length path = some (splitPath rounds path) ∧
          n = (done ++ splitPath rounds path).length ∧ s'.Filled (done ++ splitPath rounds path)) ∨
        (ok = false ∧ splitLoop memory rounds done.length path = none ∧
          n < (done ++ splitPath rounds path).length ∧ s'.Allocated n ∧ ∀ k ∈ s'.tableWrites, k ≤ n)) := by
  induction rounds generalizing path s done with
  | zero =>
    obtain rfl := List.length_eq_zero_iff.1 (Nat.le_zero.1 hrounds)
    have hdone : done ++ splitPath 0 [] = done := List.append_nil done
    rw [hdone]
    exact ⟨true, _, s, rfl, Or.inl ⟨rfl, rfl, rfl, h⟩⟩
  | succ rounds ih =>
    cases path with
    | nil =>
      have hdone : done ++ splitPath (rounds + 1) [] = done := List.append_nil done
      rw [hdone]
      exact ⟨true, _, s, rfl, Or.inl ⟨rfl, rfl, rfl, h⟩⟩
    | cons c path =>
      have hlength : (done ++ splitPath (rounds + 1) (c :: path)).length =
          done.length + ((splitPath rounds (skipComponent (c :: path))).length + 1) := by
        rw [List.length_append, splitPath, List.length_cons]
        rfl
      cases hmemory : memory (done.length + 1) with
      | false =>
        obtain ⟨hnone, hallocated, hwrites⟩ :=
          h.fail hmemory (BitVec.ofNat 32 (((c :: path).takeWhile (· ≠ 47)).length + 1))
        refine ⟨false, done.length, _, ?_, Or.inr ⟨rfl, ?_, ?_, hallocated, hwrites⟩⟩
        · rw [PathMemory.splitBlocks]
          dsimp only
          rw [hnone]
        · rw [splitLoop, if_pos hmemory]
        · rw [hlength]
          exact Nat.lt_add_of_pos_right (Nat.succ_pos _)
      | true =>
        have hsplit : (c :: path).takeWhile (· ≠ 47) ++ (c :: path).dropWhile (· ≠ 47) = c :: path :=
          List.takeWhile_append_dropWhile
        have hw : 0 ∉ (c :: path).takeWhile (· ≠ 47) := fun hmem => hpath (List.takeWhile_subset _ hmem)
        have hslash : 47 ∉ (c :: path).takeWhile (· ≠ 47) := fun hmem => by
          simpa using List.mem_takeWhile_imp hmem
        obtain ⟨hsome, hround⟩ := h.round hmemory hw hslash ((c :: path).dropWhile (· ≠ 47))
        rw [hsplit] at hround
        have hnext : splitPath (rounds + 1) (c :: path) =
            (c :: path).takeWhile (· ≠ 47) :: splitPath rounds (skipComponent (c :: path)) := rfl
        obtain ⟨ok, n, s', hrun, hspec⟩ := ih hround (fun hmem => hpath (mem_of_mem_skipComponent hmem))
          ((length_skipComponent_cons c path).trans (Nat.le_of_succ_le_succ hrounds))
        rw [List.length_append, List.length_singleton] at hrun hspec
        rw [List.append_assoc, List.singleton_append, ← hnext] at hspec
        refine ⟨ok, n, s', ?_, ?_⟩
        · rw [PathMemory.splitBlocks]
          dsimp only
          rw [hsome]
          exact hrun
        · rw [splitLoop, if_neg (by simp [hmemory])]
          refine hspec.imp (And.imp_right (And.imp_left fun hloop => ?_))
            (And.imp_right (And.imp_left fun hloop => ?_))
          · rw [hloop]
            rfl
          · rw [hloop]
            rfl

/-! ## What is freed -/

/-- The loop frees the blocks of the components. -/
lemma foldl_freeComponent (h : s.Allocated n) {k : ℕ} (hk : k ≤ n) :
    (List.range k).foldl freeComponent s = { s with freed := (List.range k).map (· + 1) } := by
  induction k with
  | zero =>
    rw [List.range_zero, List.foldl_nil, List.map_nil, ← h.freed]
  | succ k ih =>
    rw [List.range_succ, List.foldl_append, ih (Nat.le_of_succ_le hk), List.foldl_cons, List.foldl_nil,
      freeComponent]
    dsimp only
    rw [h.table k hk, List.map_append, List.map_singleton]
    rfl

/-- **What `vfs_free_path_components` frees**: the blocks of the components, and the table. -/
lemma freed_vfsFreePathComponents (h : s.Allocated n) :
    s.vfsFreePathComponents (some 0) n = { s with freed := (List.range n).map (· + 1) ++ [0] } := by
  rw [vfsFreePathComponents, foldl_freeComponent h le_rfl]
  rfl

/-- Those are the blocks that are allocated. -/
lemma Allocated.perm (h : s.Allocated n) : ((List.range n).map (· + 1) ++ [0]).Perm s.allocated := by
  rw [h.allocated, List.range_succ_eq_map]
  exact List.perm_append_singleton 0 _

/-! ## The function -/

/-- The components so far are none if there is memory for the table. -/
lemma filled_start (hmemory : memory 0 = true) (text : ℕ → ℕ → BitVec 8) (table : ℕ → Option ℕ)
    (size : BitVec 32) :
    ((start text table).malloc memory size).1 = some 0 ∧
      ((start text table).malloc memory size).2.Filled [] := by
  have hcalls : memory (start text table).calls = true := hmemory
  rw [malloc, if_pos hcalls]
  refine ⟨rfl, ⟨⟨rfl, rfl, fun k hk => ?_⟩, rfl, fun k hk => ?_, fun k hk => ?_⟩⟩
  · exact absurd hk (Nat.not_lt_zero k)
  · exact absurd hk List.not_mem_nil
  · exact absurd hk (Nat.not_lt_zero k)

/-- The table and the components are the result if all the components have blocks. -/
lemma Filled.success (h : s.Filled done) :
    (∀ i ∈ (s.setComponent done.length none).tableWrites, i ≤ done.length) ∧
      (s.setComponent done.length none).table done.length = none ∧
      (s.setComponent done.length none).Entries done ∧ (s.setComponent done.length none).freed = [] := by
  refine ⟨fun k hk => ?_, Function.update_self _ _ _, fun k hk => ?_, h.freed⟩
  · rcases List.mem_append.1 hk with hk | hk
    · exact (h.writes k hk).le
    · exact (List.mem_singleton.1 hk).le
  · obtain ⟨hslash, hcopy⟩ := h.copies k hk
    exact ⟨hslash, k + 1, (Function.update_of_ne hk.ne _ _).trans (h.table k hk), hcopy.size, hcopy.copy⟩

/-- All blocks are freed if there is one component without memory. -/
lemma Allocated.failure (h : s.Allocated n) :
    (∀ block ∈ (s.vfsFreePathComponents (some 0) n).allocated,
        (s.vfsFreePathComponents (some 0) n).freed.count block = 1) ∧
      ∀ block ∈ (s.vfsFreePathComponents (some 0) n).freed,
        block ∈ (s.vfsFreePathComponents (some 0) n).allocated := by
  rw [freed_vfsFreePathComponents h]
  refine ⟨fun k hk => ?_, fun k hk => h.perm.mem_iff.1 hk⟩
  have hk : k ∈ s.allocated := hk
  have hnodup : s.allocated.Nodup := h.allocated ▸ List.nodup_range
  exact (h.perm.count_eq k).trans (List.count_eq_one_of_mem hnodup hk)

/-- What both passes find are the components of the path. -/
lemma components_eq (path : CString) : components path = pathComponents path :=
  (pathComponents_eq path).symm

/-- The function on lists of components succeeds if there is memory for all of them. -/
lemma isSome_components_iff (memory : ℕ → Bool) (path : CString) :
    (PathName.vfsParsePath memory path).components.isSome = true ↔
      ∀ n ≤ (components path).length, memory n = true := by
  rw [vfsParsePath_eq, components_eq]
  by_cases h : MemorySuffices memory path
  · rw [if_pos h]
    exact iff_of_true rfl h
  · rw [if_neg h]
    exact iff_of_false Bool.false_ne_true h

/-- The result refines that of the function on lists of components. -/
lemma vfsParsePath_spec (hpath : 0 ∉ path) (memory : ℕ → Bool) (numComponents : ℕ) (text : ℕ → ℕ → BitVec 8)
    (table : ℕ → Option ℕ) :
    ∃ r, vfsParsePath memory (some path) (some numComponents) (start text table) = some r ∧
      ParsesCleanly memory path r ∧
      r.numComponents = some (PathName.vfsParsePath memory path).numComponents ∧
      r.components.isSome = (PathName.vfsParsePath memory path).components.isSome := by
  have hcount : countLoop path.length (skipSlash path) = (components path).length := by
    rw [countLoop_eq, splitPath_skipSlash, components_eq]
  have hsplit : splitPath path.length (skipSlash path) = components path :=
    (splitPath_skipSlash path).trans (components_eq path).symm
  have hzero : 0 ∉ skipSlash path := fun hmem => hpath (by
    rw [skipSlash] at hmem
    split_ifs at hmem
    · exact List.mem_of_mem_tail hmem
    · exact hmem)
  have hlength : (skipSlash path).length ≤ path.length := by
    rw [skipSlash]
    split_ifs
    · exact List.length_tail ▸ Nat.sub_le _ _
    · exact le_rfl
  have hsuffices := isSome_components_iff memory path
  rw [PathName.vfsParsePath, hcount] at hsuffices ⊢
  rw [vfsParsePath, hcount]
  dsimp only at hsuffices ⊢
  cases hmemory : memory 0 with
  | false =>
    have hcalls : memory (start text table).calls = false := hmemory
    rw [malloc, if_neg (by simp [hcalls])]
    rw [if_pos (by simp [hmemory])] at hsuffices ⊢
    have hnothing : ∀ {P : ℕ → Prop}, ∀ k ∈ ([] : List ℕ), P k := fun k hk => absurd hk List.not_mem_nil
    refine ⟨_, rfl, ⟨hcount, hnothing, hsuffices, fun table hsome => ?_, fun _ => ⟨rfl, hnothing, hnothing⟩⟩,
      rfl, rfl⟩
    exact absurd hsome.symm (Option.some_ne_none table)
  | true =>
    obtain ⟨hsome, hfilled⟩ :=
      filled_start hmemory text table (BitVec.ofNat 32 (4 * ((components path).length + 1)))
    obtain ⟨ok, n, s', hrun, hspec⟩ := hfilled.splitBlocks memory hzero hlength
    rw [hsplit, List.nil_append] at hspec
    rw [List.length_nil] at hrun hspec
    rw [if_neg (by simp [hmemory])] at hsuffices ⊢
    rw [hsome]
    dsimp only
    rw [hrun]
    rcases hspec with ⟨rfl, hloop, rfl, hdone⟩ | ⟨rfl, hloop, hn, hallocated, hwrites⟩
    · rw [hloop] at hsuffices ⊢
      obtain ⟨hplaces, hlast, hentries, hfreed⟩ := hdone.success
      exact ⟨_, rfl, ⟨hcount, hplaces, hsuffices, fun _ _ => ⟨rfl, hlast, hentries, hfreed⟩,
        fun hnone => by cases hnone⟩, rfl, rfl⟩
    · rw [hloop] at hsuffices ⊢
      obtain ⟨honce, honly⟩ := hallocated.failure
      refine ⟨_, rfl, ⟨hcount, ?_, hsuffices, fun table hsome => ?_, fun _ => ⟨rfl, honce, honly⟩⟩, rfl, rfl⟩
      · show ∀ k ∈ (s'.vfsFreePathComponents (some 0) n).tableWrites, k ≤ _
        rw [freed_vfsFreePathComponents hallocated]
        exact fun k hk => (hwrites k hk).trans hn.le
      · exact absurd hsome.symm (Option.some_ne_none table)

/-- **Both passes of `vfs_parse_path` agree**, for every path and every outcome of the calls of `malloc`: the call
returns the components of the path if there is memory for all of them, and frees what it has allocated if not.

**Proof sketch.** Both loops pass over the same components. While the second one runs, the first components
are in their blocks, so that these and the table are what a failure frees. -/
theorem vfsParsePath_parsesCleanly (hpath : 0 ∉ path) (memory : ℕ → Bool) (numComponents : ℕ)
    (text : ℕ → ℕ → BitVec 8) (table : ℕ → Option ℕ) :
    ∃ r, vfsParsePath memory (some path) (some numComponents) (start text table) = some r ∧
      ParsesCleanly memory path r := by
  obtain ⟨r, hr, hclean, -, -⟩ := vfsParsePath_spec hpath memory numComponents text table
  exact ⟨r, hr, hclean⟩

/-- The path `/a//b` has two components, which are returned if there is memory for both of them. -/
theorem vfsParsePath_parsesCleanly_twoComponents :
    ∃ r, vfsParsePath (fun _ => true) (some [47, 97, 47, 47, 98]) (some 7) (start (fun _ _ => 5) fun _ => some 9) =
        some r ∧
      r.components = some 0 ∧ r.numComponents = some 2 ∧ r.memory.Entries [[97], [98]] ∧
        ParsesCleanly (fun _ => true) [47, 97, 47, 47, 98] r := by
  obtain ⟨r, hr, hclean⟩ :=
    vfsParsePath_parsesCleanly (show (0 : UInt8) ∉ [47, 97, 47, 47, 98] by decide) (fun _ => true) 7
      (fun _ _ => 5) fun _ => some 9
  have htable : r.components = some 0 := congrArg Parsed.components (Option.some.inj hr).symm
  obtain ⟨hnum, -, hentries, -⟩ := hclean.success 0 htable
  exact ⟨r, hr, htable, hnum, hentries, hclean⟩

end PathMemory

end Jarvis
