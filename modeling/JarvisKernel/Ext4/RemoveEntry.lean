import JarvisKernel.Ext4.DirBlocks
import JarvisKernel.Ext4.InodeSlots
import JarvisKernel.Ext4.MkdirFailures

set_option relaxedAutoImplicit false
set_option autoImplicit false

/-!
# Finding the entry that is removed

`ext4_remove` and `ext4_rmdir` compare the name of an entry with the last component of the path by
`strncmp`, up to the length of the entry's name. So they find an entry whose name is only the beginning of
the component, if it comes before the entry with that name.

## Main definitions

* `Jarvis.Ext4.matchesName` — the comparison of the loops.
* `Jarvis.Ext4.NamedFirst` — an entry that matches is the wanted one, or behind it.
* `Jarvis.Ext4.MarksNamed` — the wanted entry is marked, and nothing else in its block is written.
* `Jarvis.Volume.RemovesNamed`, `Jarvis.Volume.UnlinksNamed` — what is wanted of `ext4_remove` and of the
  scan of the parent directory in `ext4_rmdir`.

## Main results

* `Jarvis.Ext4.matchesName_bytes_iff` — names that match a component.
* `Jarvis.Volume.read_rewriteInode` — a directory block that was written, after its records were.
* `Jarvis.Volume.removesNamed_iff` — when the entry that is marked is the wanted one.
-/

namespace Jarvis

open ByteBuffer

namespace Ext4

open Records

variable {b name : ℕ → BitVec 8} {stop start p : ℕ} {offsets : List ℕ} {last : CString}

/-- The comparison in the loops: an entry that is used, and whose name is the given one as far as it
goes. -/
def matchesName (b name : ℕ → BitVec 8) (p : ℕ) : Bool :=
  decide (get32 b p ≠ 0 ∧ 0 < nameLen b p ∧ strncmp (fun k => b (p + 8 + k)) name (nameLen b p) = 0)

/-- A used entry with the given name. -/
def IsNamed (b : ℕ → BitVec 8) (p : ℕ) (last : CString) : Prop :=
  get32 b p ≠ 0 ∧ (entryAt b p).name = last.map UInt8.toBitVec

/-- The first bytes of a name are the beginning of a component, or the component with its end. -/
lemma prefix_bytes_iff (n : ℕ) (s : ℕ → BitVec 8) (last : CString) :
    ((List.range n).map s <+: last.map UInt8.toBitVec ↔
        n ≤ last.length ∧ ∀ k < n, s k = last.bytes k) ∧
      (last.map UInt8.toBitVec ++ [0] <+: (List.range n).map s ↔
        last.length < n ∧ ∀ k ≤ last.length, s k = last.bytes k) := by
  rw [List.prefix_iff_getElem, List.prefix_iff_getElem]
  simp only [List.length_map, List.length_range, List.length_append, List.length_singleton,
    List.getElem_map, List.getElem_range, exists_prop]
  constructor
  · constructor
    · rintro ⟨hle, h⟩
      exact ⟨hle, fun k hk => (h k hk).trans (CString.bytes_of_lt _).symm⟩
    · rintro ⟨hle, h⟩
      exact ⟨hle, fun k hk => (h k hk).trans (CString.bytes_of_lt _)⟩
  · have hbyte : ∀ k (hk : k < (last.map UInt8.toBitVec ++ [0]).length),
        (last.map UInt8.toBitVec ++ [0])[k] = last.bytes k := by
      intro k hk
      rcases Nat.lt_or_ge k last.length with hlt | hge
      · rw [List.getElem_append_left (by simpa using hlt), List.getElem_map, CString.bytes_of_lt hlt]
      · obtain rfl : k = last.length := by
          simp only [List.length_append, List.length_map, List.length_singleton] at hk
          omega
        rw [List.getElem_append_right (by simp), CString.bytes_length]
        simp
    refine and_congr_right fun hle => ?_
    constructor
    · intro h k hk
      rw [← h k (Nat.lt_succ_of_le hk), hbyte]
    · intro h k hk
      rw [h k (Nat.le_of_lt_succ hk), hbyte]

/-- **Names that match a component** are its beginnings, and those that go on behind a byte 0. -/
lemma matchesName_bytes_iff (hlast : (0 : UInt8) ∉ last) :
    matchesName b last.bytes p = true ↔ get32 b p ≠ 0 ∧ 0 < nameLen b p ∧
      ((entryAt b p).name <+: last.map UInt8.toBitVec ∨
        last.map UInt8.toBitVec ++ [0] <+: (entryAt b p).name) := by
  obtain ⟨hshort, hlong⟩ := prefix_bytes_iff (nameLen b p) (fun k => b (p + 8 + k)) last
  have hne : ∀ k < last.length, last.bytes k ≠ 0 := by
    intro k hk hzero
    rw [CString.bytes_of_lt hk] at hzero
    have hbyte : last[k] = 0 := UInt8.toBitVec_inj.1 hzero
    exact hlast (hbyte ▸ List.getElem_mem hk)
  rw [matchesName, decide_eq_true_iff, strncmp_eq_zero_iff, entryAt, hshort, hlong]
  refine and_congr_right fun _ => and_congr_right fun _ => ?_
  constructor
  · intro h
    -- as far as both go, they agree
    have hsame : ∀ k, k < nameLen b p → k ≤ last.length → b (p + 8 + k) = last.bytes k := by
      intro k
      induction k using Nat.strong_induction_on with
      | _ k ih =>
        intro hk hle
        refine h k hk fun j hj => ?_
        rw [ih j hj (by omega) (by omega)]
        exact hne j (by omega)
    rcases Nat.lt_or_ge last.length (nameLen b p) with hlt | hle
    · exact .inr ⟨hlt, fun k hk => hsame k (by omega) hk⟩
    · exact .inl ⟨hle, fun k hk => hsame k hk (by omega)⟩
  · rintro (⟨hle, h⟩ | ⟨hlt, h⟩) k hk hbefore
    · exact h k hk
    · refine h k (Nat.le_of_not_lt fun hgt => hbefore last.length hgt ?_)
      rw [h last.length le_rfl, CString.bytes_length]

/-! ## The scan -/

/-- A step of the search for the entry. -/
lemma findEntry_succ (blockSize : ℕ) (b name : ℕ → BitVec 8) (rounds offset : ℕ) :
    findEntry blockSize b name (rounds + 1) offset =
      if blockSize ≤ offset ∨ recLen b offset = 0 then none
      else if get32 b offset ≠ 0 ∧ 0 < nameLen b offset ∧
        strncmp (fun k => b (offset + 8 + k)) name (nameLen b offset) = 0 then some offset
      else findEntry blockSize b name rounds (offset + recLen b offset) := rfl

/-- **The loops of `ext4_remove` and `ext4_rmdir`** find the first entry that matches. -/
lemma DirTiles.findEntry_eq (h : DirTiles b stop start offsets) (name : ℕ → BitVec 8) {rounds : ℕ}
    (hrounds : offsets.length ≤ rounds) :
    findEntry stop b name rounds start = offsets.find? (matchesName b name) := by
  induction offsets generalizing start rounds with
  | nil =>
    cases h.tiles with
    | nil =>
      cases rounds with
      | zero => rfl
      | succ rounds => exact if_pos (.inl le_rfl)
  | cons q offsets ih =>
    obtain ⟨rounds, rfl⟩ := Nat.exists_eq_succ_of_ne_zero (Nat.ne_of_gt (Nat.zero_lt_of_lt hrounds))
    cases h.tiles with
    | cons hpos hrest =>
      have hlt := h.tiles.lt
      rw [findEntry_succ, if_neg (by omega), List.find?_cons]
      by_cases hmatch : matchesName b name q = true
      · rw [hmatch, if_pos (of_decide_eq_true hmatch)]
      · rw [Bool.not_eq_true] at hmatch
        rw [hmatch, if_neg (of_decide_eq_false hmatch)]
        exact ih h.tail (Nat.le_of_succ_le_succ hrounds)

/-- What is wanted of a scan: what it finds is a used entry with the given name. -/
def FindsNamed (b : ℕ → BitVec 8) (stop : ℕ) (offsets : List ℕ) (name : ℕ → BitVec 8) (last : CString) :
    Prop :=
  ∀ p, findEntry stop b name stop 0 = some p → p ∈ offsets ∧ IsNamed b p last

/-- An entry that matches has the given name, or is behind one that matches and has it. -/
def NamedFirst (b : ℕ → BitVec 8) (offsets : List ℕ) (name : ℕ → BitVec 8) (last : CString) : Prop :=
  ∀ p ∈ offsets, matchesName b name p = true →
    ∃ q ∈ offsets, q ≤ p ∧ matchesName b name q = true ∧ IsNamed b q last

/-- **A scan finds the wanted entry** exactly if no other one that matches comes first. -/
lemma DirTiles.findsNamed_iff (h : DirTiles b stop 0 offsets) (name : ℕ → BitVec 8) (last : CString) :
    FindsNamed b stop offsets name last ↔ NamedFirst b offsets name last := by
  have hlength := h.tiles.length_le
  have hfind := h.findEntry_eq name (show offsets.length ≤ stop by omega)
  have hsorted := h.tiles.pairwise
  rw [FindsNamed, hfind]
  -- an entry that matches is not before the first one
  have hfirst : ∀ p q, offsets.find? (matchesName b name) = some p → q ∈ offsets →
      matchesName b name q = true → p ≤ q := by
    intro p q hp hq hmatch
    obtain ⟨-, before, behind, rfl, hbefore⟩ := List.find?_eq_some_iff_append.1 hp
    rcases List.mem_append.1 hq with hq | hq
    · exact absurd hmatch (by simpa using hbefore q hq)
    rcases List.mem_cons.1 hq with rfl | hq
    · exact le_rfl
    · have hle := (List.pairwise_cons.1 (List.pairwise_append.1 hsorted).2.1).1 q hq
      omega
  constructor
  · intro hnamed p hp hmatch
    cases hfound : offsets.find? (matchesName b name) with
    | none => exact absurd hmatch (by simpa using List.find?_eq_none.1 hfound p hp)
    | some q =>
      obtain ⟨hq, hname⟩ := hnamed q hfound
      exact ⟨q, hq, hfirst q p hfound hp hmatch, List.find?_some hfound, hname⟩
  · intro hnamed p hp
    have hmem := List.mem_of_find?_eq_some hp
    obtain ⟨q, hq, hle, hmatch, hname⟩ := hnamed p hmem (List.find?_some hp)
    obtain rfl := Nat.le_antisymm (hfirst p q hp hq hmatch) hle
    exact ⟨hmem, hname⟩

/-! ## Parts of a block -/

variable {b' : ℕ → BitVec 8}

/-- The comparison depends on the bytes of the entry. -/
lemma EntryOk.matchesName_congr (h : EntryOk b p) (hsame : ∀ k, p ≤ k → k < p + recLen b p → b' k = b k)
    (name : ℕ → BitVec 8) : matchesName b' name p = matchesName b name p := by
  have hroom := h.room
  obtain ⟨-, -, hinode, -⟩ := h.congr hsame
  have hcount : nameLen b' p = nameLen b p := by
    rw [nameLen, nameLen, hsame (p + 6) (by omega) (by omega)]
  rw [matchesName, matchesName, decide_eq_decide, hinode, hcount, strncmp_eq_zero_iff,
    strncmp_eq_zero_iff]
  have hbyte : ∀ k < nameLen b p, b' (p + 8 + k) = b (p + 8 + k) := fun k hk =>
    hsame _ (by omega) (by omega)
  refine and_congr_right fun _ => and_congr_right fun _ => forall₂_congr fun k hk => ?_
  rw [hbyte k hk]
  refine imp_congr_left (forall₂_congr fun j hj => ?_)
  rw [hbyte j (by omega)]

/-- So does the name. -/
lemma EntryOk.isNamed_congr (h : EntryOk b p) (hsame : ∀ k, p ≤ k → k < p + recLen b p → b' k = b k)
    (last : CString) : IsNamed b' p last ↔ IsNamed b p last := by
  obtain ⟨-, -, hinode, hentry⟩ := h.congr hsame
  rw [IsNamed, IsNamed, hinode, hentry]

/-- Which entry is the first of its name depends on the bytes of the block only. -/
lemma DirTiles.namedFirst_congr (h : DirTiles b stop start offsets)
    (hsame : ∀ k, start ≤ k → k < stop → b' k = b k) (name : ℕ → BitVec 8) (last : CString) :
    NamedFirst b' offsets name last ↔ NamedFirst b offsets name last := by
  have hentry : ∀ p ∈ offsets, ∀ k, p ≤ k → k < p + recLen b p → b' k = b k := by
    intro p hp k hk hlt
    obtain ⟨hge, -, hle⟩ := h.tiles.bounds hp
    exact hsame k (by omega) (by omega)
  refine forall₂_congr fun p hp => ?_
  rw [(h.ok p hp).matchesName_congr (hentry p hp)]
  refine imp_congr_right fun _ => exists_congr fun q => and_congr_right fun hq => ?_
  rw [(h.ok q hq).matchesName_congr (hentry q hq), (h.ok q hq).isNamed_congr (hentry q hq)]

/-! ## The block that is written -/

variable {fs fs₁ fs' : Ext4} {num n : ℕ}

/-- The number of an inode and a block that holds no record: what a directory and its block are. -/
structure OwnBlock (fs : Ext4) (num n : ℕ) : Prop where
  layout : Layout fs
  ne_zero : num ≠ 0
  group : group .inode fs num < fs.blockGroupCount
  data : fs.HoldsData n

/-- The block depends on the layout only. -/
lemma OwnBlock.of_same (h : OwnBlock fs num n) (hsame : SameLayout fs fs') : OwnBlock fs' num n := by
  refine ⟨h.layout.of_same hsame, h.ne_zero, ?_, h.data.of_same hsame⟩
  rw [Ext4.group, hsame.perGroup, hsame.blockGroupCount]
  exact h.group

/-- What is wanted of the block of a directory, from before to after an entry is removed: a used entry with
the given name has inode 0 now, and the other bytes are what they were. -/
def MarksNamed (blockSize : ℕ) (before after : ℕ → BitVec 8) (offsets : List ℕ) (last : CString) : Prop :=
  ∃ p ∈ offsets, IsNamed before p last ∧ ∀ k < blockSize, after k = set32 before p 0 k

end Ext4

namespace Volume

open Ext4 Records

variable {v : Volume} {path last : CString} {parentNum : ℕ} {name : Option CString} {offsets : List ℕ}

/-! ## Writing back -/

/-- **A directory block that was written** is still what it was after its records and the superblock were
written. -/
lemma read_rewriteInode {n : ℕ} (h : OwnBlock v.fs parentNum n) (inode : ℕ → BitVec 8) :
    ∀ k < v.fs.blockSize,
      (v.ext4WriteInode parentNum inode).fs.ext4WriteSuperBlock.ext4ReadBlock n k =
        v.fs.ext4ReadBlock n k := by
  intro k hk
  have hkeeps := keepsBlock_ext4WriteInode h.layout h.ne_zero h.group h.data inode
  have h' := h.of_same hkeeps.layout
  obtain ⟨c, hsize, hc⟩ := h'.layout.exists_sectors
  rw [ext4ReadBlock_ext4WriteSuperBlock hsize hc h'.data.inDevice h'.data.superBlock
    (by rw [hkeeps.layout.blockSize]; exact hk), hkeeps.bytes k hk]

/-- Freeing the blocks and the inode of a file keeps the block of its directory. -/
lemma keepsBlock_freeFile {n : ℕ} (h : OwnBlock v.fs parentNum n) (targetNum : ℕ) :
    KeepsBlock n v.fs (v.freeFile targetNum).fs := by
  rw [freeFile]
  rcases ext4ReadInode_cases v targetNum with ⟨m, hcall⟩ | hcall
  · rw [hcall]
    exact keepsBlock_withMallocs v.fs _
  · have hread : KeepsBlock n v.fs (v.advance 2).fs := keepsBlock_withMallocs v.fs _
    rw [hcall]
    dsimp only
    generalize ((List.range 12).map (inodeBlock _)).filter (· ≠ 0) = blocks
    have h₁ := h.of_same hread.layout
    have hblocks := hread.trans (h₁.data.keepsBlock_foldl h₁.layout blocks)
    have h₂ := h.of_same hblocks.layout
    exact hblocks.trans (h₂.data.keepsBlock_release h₂.layout .inode targetNum)

/-- **The block that `ext4_remove` writes** has inode 0 at the entry, after all of its steps. -/
lemma read_removeEntry {entry : Entry} (h : OwnBlock v.fs parentNum (inodeBlock entry.parent 0)) :
    ∀ k < v.fs.blockSize,
      (v.removeEntry parentNum entry).fs.ext4ReadBlock (inodeBlock entry.parent 0) k =
        set32 entry.block entry.offset 0 k := by
  intro k hk
  obtain ⟨hlayout, hbytes⟩ := h.data.read_ext4WriteBlock h.layout (set32 entry.block entry.offset 0)
  have hwritten := h.of_same hlayout
  have hsize : (v.fs.ext4WriteBlock (inodeBlock entry.parent 0)
      (set32 entry.block entry.offset 0)).blockSize = v.fs.blockSize := rfl
  rw [removeEntry]
  dsimp only
  generalize v.fs.ext4WriteBlock _ _ = fs at hlayout hwritten hbytes hsize ⊢
  have hfile : KeepsBlock (inodeBlock entry.parent 0) fs _ :=
    keepsBlock_freeFile (v := { v with fs := fs }) hwritten (get32 entry.block entry.offset)
  have hk' : k < fs.blockSize := by rw [hsize]; exact hk
  rw [read_rewriteInode (hwritten.of_same hfile.layout) _ k (by rw [hfile.layout.blockSize]; exact hk')]
  exact (hfile.bytes k hk').trans (hbytes k hk)

/-- **The block that the scan of `ext4_rmdir` writes**, after all of its steps. -/
lemma read_rmdirUnlink {p : ℕ} {parent buffer bytes : ℕ → BitVec 8} {v₁ : Volume}
    (hread : v.ext4ReadInode parentNum = (v₁, some parent)) (targetNum : ℕ) (target : ℕ → BitVec 8)
    (hfind : findEntry v₁.fs.blockSize (v₁.readDirBlock buffer parent) bytes v₁.fs.blockSize 0 = some p)
    (h : OwnBlock v₁.fs parentNum (inodeBlock parent 0)) :
    ∀ k < v₁.fs.blockSize,
      (v.rmdirUnlink parentNum targetNum target buffer bytes).1.fs.ext4ReadBlock (inodeBlock parent 0) k =
        set32 (v₁.readDirBlock buffer parent) p 0 k := by
  intro k hk
  obtain ⟨hlayout, hbytes⟩ :=
    h.data.read_ext4WriteBlock h.layout (set32 (v₁.readDirBlock buffer parent) p 0)
  have hwritten := h.of_same hlayout
  have hsize : (v₁.fs.ext4WriteBlock (inodeBlock parent 0)
      (set32 (v₁.readDirBlock buffer parent) p 0)).blockSize = v₁.fs.blockSize := rfl
  rw [rmdirUnlink, hread]
  dsimp only
  rw [hfind]
  dsimp only
  generalize v₁.fs.ext4WriteBlock _ _ = fs at hlayout hwritten hbytes hsize ⊢
  -- the first block of the target is freed if it has one
  have hfreed : KeepsBlock (inodeBlock parent 0) fs
      (if inodeBlock target 0 ≠ 0 then fs.ext4FreeBlock (inodeBlock target 0) else fs) := by
    split_ifs
    · exact hwritten.data.keepsBlock_release hwritten.layout .block (inodeBlock target 0)
    · exact keepsBlock_withMallocs fs fs.mallocs
  have h₂ := hwritten.of_same hfreed.layout
  have hall := hfreed.trans (h₂.data.keepsBlock_release h₂.layout .inode targetNum)
  have hk' : k < fs.blockSize := by rw [hsize]; exact hk
  rw [read_rewriteInode (hwritten.of_same hall.layout) _ k (Nat.lt_of_lt_of_eq hk' hall.layout.blockSize.symm)]
  exact (hall.bytes k hk').trans (hbytes k hk)

/-! ## The parent directory -/

/-- The first block of a directory is well-formed. -/
structure HasDirBlock (v : Volume) (record : ℕ → BitVec 8) (offsets : List ℕ) : Prop where
  block : inodeBlock record 0 ≠ 0
  tiles : DirTiles (v.fs.ext4ReadBlock (inodeBlock record 0)) v.fs.blockSize 0 offsets

section DirBlock

variable {record : ℕ → BitVec 8}

/-- What is read of the block of a directory. -/
lemma HasDirBlock.readDirBlock_eq (h : v.HasDirBlock record offsets) (buffer : ℕ → BitVec 8) :
    ∀ k, 0 ≤ k → k < v.fs.blockSize →
      v.readDirBlock buffer record k = v.fs.ext4ReadBlock (inodeBlock record 0) k := by
  intro k _ hk
  rw [readDirBlock, if_pos h.block, readInto, if_pos hk]

/-- When a scan finds what is wanted, by the bytes on the device. -/
lemma HasDirBlock.findsNamed_iff (h : v.HasDirBlock record offsets) (buffer name : ℕ → BitVec 8)
    (last : CString) :
    FindsNamed (v.readDirBlock buffer record) v.fs.blockSize offsets name last ↔
      NamedFirst (v.fs.ext4ReadBlock (inodeBlock record 0)) offsets name last := by
  have hread := h.readDirBlock_eq buffer
  exact ((h.tiles.congr hread).1.findsNamed_iff name last).trans (h.tiles.namedFirst_congr hread name last)

/-- Without an entry of that name, such a scan finds nothing. -/
lemma HasDirBlock.findEntry_eq_none (h : v.HasDirBlock record offsets) {buffer name : ℕ → BitVec 8}
    (hnamed : FindsNamed (v.readDirBlock buffer record) v.fs.blockSize offsets name last)
    (hnone : ∀ p ∈ offsets, ¬ IsNamed (v.fs.ext4ReadBlock (inodeBlock record 0)) p last) :
    findEntry v.fs.blockSize (v.readDirBlock buffer record) name v.fs.blockSize 0 = none := by
  by_contra hfound
  obtain ⟨p, hp⟩ := Option.ne_none_iff_exists'.1 hfound
  obtain ⟨hmem, hname⟩ := hnamed p hp
  obtain ⟨-, -, hle⟩ := h.tiles.tiles.bounds hmem
  refine hnone p hmem (((h.tiles.ok p hmem).isNamed_congr (fun k hk hlt => ?_) last).1 hname)
  exact h.readDirBlock_eq buffer k (Nat.zero_le k) (by omega)

end DirBlock

/-! ## Removing files -/

/-- The last component of a path. -/
def lastComponent (path : CString) : CString := (pathComponents path).getLastD []

/-- The first block of the parent directory, as `ext4_remove` reads it from the inode. -/
def parentBlock (v : Volume) (parent : ℕ) : ℕ :=
  inodeBlock ((v.advance 1).nextRecord (v.inodeNum parent)) 0

/-- What is wanted of `ext4_remove`, after the parent directory was found: the entry that it finds is a used
one with the last component as its name; when it returns 0, such an entry is marked on the device, and
nothing else in the block of the directory is written; and without such an entry it fails and writes
nothing. -/
structure RemovesNamed (v : Volume) (path : CString) (v₁ : Volume) (parent : ℕ) (name : Option CString)
    (offsets : List ℕ) : Prop where
  finds : ∀ v₂ entry, v₁.findInParent (v₁.inodeNum parent) (v₁.nameBytes name) = (v₂, some entry) →
    entry.offset ∈ offsets ∧ IsNamed entry.block entry.offset (lastComponent path)
  marks : v₁.fs.OwnBlock (v₁.inodeNum parent) (v₁.parentBlock parent) → (v.ext4Remove path).2 = 0 →
    MarksNamed v₁.fs.blockSize (v₁.fs.ext4ReadBlock (v₁.parentBlock parent))
      ((v.ext4Remove path).1.fs.ext4ReadBlock (v₁.parentBlock parent)) offsets (lastComponent path)
  fails :
    (∀ p ∈ offsets, ¬ IsNamed (v₁.fs.ext4ReadBlock (v₁.parentBlock parent)) p (lastComponent path)) →
    (v.ext4Remove path).2 = -1 ∧ ∃ n, (v.ext4Remove path).1.fs = v.fs.withMallocs n

/-- Without an entry, `ext4_remove` fails and writes nothing. -/
lemma ext4Remove_of_none {v₁ : Volume} {parent m : ℕ}
    (hparent : v.findParent path false = (v₁, some (parent, name)))
    (hfind : v₁.findInParent (v₁.inodeNum parent) (v₁.nameBytes name) = (v₁.advance m, none)) :
    (v.ext4Remove path).2 = -1 ∧ ∃ n, (v.ext4Remove path).1.fs = v.fs.withMallocs n := by
  have hfs := fs_findParent v path false
  rw [hparent] at hfs
  rw [ext4Remove, hparent]
  dsimp only
  rw [hfind]
  exact ⟨rfl, _, congrArg (withMallocs · (v₁.fs.mallocs + m)) hfs⟩

/-- With an entry, `ext4_remove` marks it. -/
lemma ext4Remove_of_some {v₁ v₂ : Volume} {parent : ℕ} {entry : Entry}
    (hparent : v.findParent path false = (v₁, some (parent, name)))
    (hfind : v₁.findInParent (v₁.inodeNum parent) (v₁.nameBytes name) = (v₂, some entry)) :
    (v.ext4Remove path).1.fs = (v₂.removeEntry (v₁.inodeNum parent) entry).fs := by
  obtain ⟨m, found, hcall, -⟩ := findInParent_cases v₁ (v₁.inodeNum parent) (v₁.nameBytes name)
  obtain ⟨rfl, -⟩ := Prod.mk.inj (hfind.symm.trans hcall)
  rw [ext4Remove, hparent]
  dsimp only
  rw [hfind]
  rfl

/-- The marked block, when the entry that is found is the wanted one. -/
lemma HasDirBlock.marksNamed {record : ℕ → BitVec 8} (h : v.HasDirBlock record offsets)
    {buffer after : ℕ → BitVec 8} {p : ℕ} (hp : p ∈ offsets)
    (hname : IsNamed (v.readDirBlock buffer record) p last)
    (hafter : ∀ k < v.fs.blockSize, after k = set32 (v.readDirBlock buffer record) p 0 k) :
    MarksNamed v.fs.blockSize (v.fs.ext4ReadBlock (inodeBlock record 0)) after offsets last := by
  have hread := h.readDirBlock_eq buffer
  obtain ⟨-, -, hle⟩ := h.tiles.tiles.bounds hp
  refine ⟨p, hp, ((h.tiles.ok p hp).isNamed_congr (fun k _ hlt => ?_) last).1 hname, fun k hk => ?_⟩
  · exact hread k (Nat.zero_le k) (by omega)
  · rw [hafter k hk]
    exact set32_congr (hread k (Nat.zero_le k) hk)

/-- `ext4_remove`, for a parent directory that is well-formed. -/
lemma removesNamed_iff_namedFirst {v₁ : Volume} {parent : ℕ}
    (hparent : v.findParent path false = (v₁, some (parent, name)))
    (h : v₁.HasDirBlock ((v₁.advance 1).nextRecord (v₁.inodeNum parent)) offsets) :
    RemovesNamed v path v₁ parent name offsets ↔
      v₁.hasMemory 3 = false ∨
        NamedFirst (v₁.fs.ext4ReadBlock (v₁.parentBlock parent)) offsets (v₁.nameBytes name)
          (lastComponent path) := by
  rcases findInParent_memory v₁ (v₁.inodeNum parent) (v₁.nameBytes name) with
    ⟨hmemory, m, hfind⟩ | ⟨hmemory, hfind⟩
  · have hfails := ext4Remove_of_none hparent hfind
    refine iff_of_true ⟨fun v₂ entry hentry => ?_, fun _ hzero => ?_, fun _ => hfails⟩ (.inl hmemory)
    · rw [hfind] at hentry
      exact absurd (Prod.mk.inj hentry).2 (by simp)
    · rw [hfails.1] at hzero
      exact absurd hzero (by decide)
  · rw [hmemory, or_iff_right (by decide), parentBlock, ← h.findsNamed_iff (v₁.buffers v₁.fs.mallocs)]
    constructor
    · intro hremoves p hp
      rw [hp] at hfind
      exact hremoves.finds _ _ hfind
    · intro hnamed
      refine ⟨fun v₂ entry hentry => ?_, fun hown hzero => ?_, fun hnone => ?_⟩
      · rw [hfind] at hentry
        obtain ⟨p, hp, rfl⟩ := Option.map_eq_some_iff.1 (Prod.mk.inj hentry).2
        exact hnamed p hp
      · cases hscan : findEntry v₁.fs.blockSize (v₁.readDirBlock (v₁.buffers v₁.fs.mallocs)
            ((v₁.advance 1).nextRecord (v₁.inodeNum parent))) (v₁.nameBytes name) v₁.fs.blockSize 0 with
        | none =>
          rw [hscan] at hfind
          rw [(ext4Remove_of_none hparent hfind).1] at hzero
          exact absurd hzero (by decide)
        | some p =>
          rw [hscan] at hfind
          obtain ⟨hp, hname⟩ := hnamed p hscan
          rw [ext4Remove_of_some hparent hfind]
          exact h.marksNamed hp hname (read_removeEntry (v := v₁.advance 3)
            (hown.of_same (withMallocs_spec v₁.fs _).1))
      · rw [h.findEntry_eq_none hnamed hnone] at hfind
        exact ext4Remove_of_none hparent hfind

/-! ## Removing directories -/

/-- What is wanted of the scan of the parent directory in `ext4_rmdir`: the same as of `ext4_remove`. -/
structure UnlinksNamed (v : Volume) (parentNum targetNum : ℕ) (target buffer name : ℕ → BitVec 8)
    (last : CString) (offsets : List ℕ) : Prop where
  finds : ∀ v₁ parent p, v.ext4ReadInode parentNum = (v₁, some parent) →
    findEntry v.fs.blockSize (v.readDirBlock buffer parent) name v.fs.blockSize 0 = some p →
      p ∈ offsets ∧ IsNamed (v.readDirBlock buffer parent) p last
  marks : v.fs.OwnBlock parentNum (inodeBlock (v.nextRecord parentNum) 0) →
    (v.rmdirUnlink parentNum targetNum target buffer name).2 = 0 →
      MarksNamed v.fs.blockSize (v.fs.ext4ReadBlock (inodeBlock (v.nextRecord parentNum) 0))
        ((v.rmdirUnlink parentNum targetNum target buffer name).1.fs.ext4ReadBlock
          (inodeBlock (v.nextRecord parentNum) 0)) offsets last
  fails : (∀ p ∈ offsets, ¬ IsNamed (v.fs.ext4ReadBlock (inodeBlock (v.nextRecord parentNum) 0)) p last) →
    (v.rmdirUnlink parentNum targetNum target buffer name).2 = -1 ∧
      ∃ n, (v.rmdirUnlink parentNum targetNum target buffer name).1.fs = v.fs.withMallocs n

/-- Without memory, or without an entry, the scan fails and writes nothing. -/
lemma rmdirUnlink_of_none {targetNum m : ℕ} {target buffer bytes : ℕ → BitVec 8}
    {record : Option (ℕ → BitVec 8)} (hread : v.ext4ReadInode parentNum = (v.advance m, record))
    (hfind : ∀ parent, record = some parent →
      findEntry v.fs.blockSize (v.readDirBlock buffer parent) bytes v.fs.blockSize 0 = none) :
    (v.rmdirUnlink parentNum targetNum target buffer bytes).2 = -1 ∧
      ∃ n, (v.rmdirUnlink parentNum targetNum target buffer bytes).1.fs = v.fs.withMallocs n := by
  rw [rmdirUnlink, hread]
  cases record with
  | none => exact ⟨rfl, _, rfl⟩
  | some parent =>
    have hscan : findEntry (v.advance m).fs.blockSize ((v.advance m).readDirBlock buffer parent) bytes
        (v.advance m).fs.blockSize 0 = none := hfind parent rfl
    dsimp only
    rw [hscan]
    exact ⟨rfl, _, rfl⟩

/-- The scan of `ext4_rmdir`, for a parent directory that is well-formed. -/
lemma unlinksNamed_iff_namedFirst (h : v.HasDirBlock (v.nextRecord parentNum) offsets) (targetNum : ℕ)
    (target buffer name : ℕ → BitVec 8) (last : CString) :
    UnlinksNamed v parentNum targetNum target buffer name last offsets ↔
      v.hasMemory 2 = false ∨
        NamedFirst (v.fs.ext4ReadBlock (inodeBlock (v.nextRecord parentNum) 0)) offsets name last := by
  rcases ext4ReadInode_memory v parentNum with ⟨hmemory, m, hread⟩ | ⟨hmemory, hread⟩
  · have hfails : (v.rmdirUnlink parentNum targetNum target buffer name).2 = -1 ∧
        ∃ n, (v.rmdirUnlink parentNum targetNum target buffer name).1.fs = v.fs.withMallocs n :=
      rmdirUnlink_of_none hread fun parent hparent => absurd hparent (by simp)
    refine iff_of_true ⟨fun v₁ parent p hcall => ?_, fun _ hzero => ?_, fun _ => hfails⟩ (.inl hmemory)
    · rw [hread] at hcall
      exact absurd (Prod.mk.inj hcall).2 (by simp)
    · rw [hfails.1] at hzero
      exact absurd hzero (by decide)
  · rw [hmemory, or_iff_right (by decide), ← h.findsNamed_iff buffer]
    have hnone : findEntry v.fs.blockSize (v.readDirBlock buffer (v.nextRecord parentNum)) name
        v.fs.blockSize 0 = none →
          (v.rmdirUnlink parentNum targetNum target buffer name).2 = -1 ∧
            ∃ n, (v.rmdirUnlink parentNum targetNum target buffer name).1.fs = v.fs.withMallocs n := by
      intro hscan
      refine rmdirUnlink_of_none hread fun parent hparent => ?_
      obtain rfl := Option.some.inj hparent
      exact hscan
    constructor
    · intro hunlinks p hp
      exact hunlinks.finds _ _ p hread hp
    · intro hnamed
      refine ⟨fun v₁ parent p hcall hp => ?_, fun hown hzero => ?_, fun hno => ?_⟩
      · obtain ⟨-, hparent⟩ := Prod.mk.inj (hread.symm.trans hcall)
        obtain rfl := Option.some.inj hparent
        exact hnamed p hp
      · cases hscan : findEntry v.fs.blockSize (v.readDirBlock buffer (v.nextRecord parentNum)) name
            v.fs.blockSize 0 with
        | none =>
          rw [(hnone hscan).1] at hzero
          exact absurd hzero (by decide)
        | some p =>
          obtain ⟨hp, hname⟩ := hnamed p hscan
          have hscan' : findEntry (v.advance 2).fs.blockSize
              ((v.advance 2).readDirBlock buffer (v.nextRecord parentNum)) name (v.advance 2).fs.blockSize 0 =
                some p := hscan
          have hbytes := read_rmdirUnlink hread targetNum target hscan'
            (hown.of_same (withMallocs_spec v.fs _).1)
          exact h.marksNamed hp hname hbytes
      · exact hnone (h.findEntry_eq_none hnamed hno)

/-- **The entry that is removed** has the last component as its name exactly if there is no memory to look
for it, or no entry that matches the component comes before the one with that name.

**Proof sketch.** The loops find the first entry that matches. The condition and the loops read only bytes
of the block. What is written after the block of the directory are bitmaps, descriptors, the superblock and
an inode table. -/
theorem removesNamed_iff (v : Volume) :
    (∀ (v₁ : Volume) (path : CString) (parent : ℕ) (name : Option CString) (offsets : List ℕ),
      v.findParent path false = (v₁, some (parent, name)) →
      v₁.HasDirBlock ((v₁.advance 1).nextRecord (v₁.inodeNum parent)) offsets →
        (RemovesNamed v path v₁ parent name offsets ↔
          v₁.hasMemory 3 = false ∨
            NamedFirst (v₁.fs.ext4ReadBlock (v₁.parentBlock parent)) offsets (v₁.nameBytes name)
              (lastComponent path))) ∧
    ∀ (parentNum targetNum : ℕ) (target buffer name : ℕ → BitVec 8) (last : CString)
      (offsets : List ℕ), v.HasDirBlock (v.nextRecord parentNum) offsets →
        (UnlinksNamed v parentNum targetNum target buffer name last offsets ↔
          v.hasMemory 2 = false ∨
            NamedFirst (v.fs.ext4ReadBlock (inodeBlock (v.nextRecord parentNum) 0)) offsets name last) :=
  ⟨fun _ _ _ _ _ hparent h => removesNamed_iff_namedFirst hparent h,
    fun _ targetNum target buffer name last _ h =>
      unlinksNamed_iff_namedFirst h targetNum target buffer name last⟩

/-- The directory of the device has one entry, `a`, which has the whole block. -/
lemma hasDirBlock_fileVolume {record : ℕ → BitVec 8} (hfs : v.fs = fileVolume.fs)
    (hblock : inodeBlock record 0 = 6) : v.HasDirBlock record [0] := by
  have htiles : DirTiles (fileVolume.fs.ext4ReadBlock 6) fileVolume.fs.blockSize 0 [0] :=
    .cons ⟨by decide +kernel, by decide +kernel⟩ (by decide +kernel) (.nil _ _)
  refine ⟨by rw [hblock]; decide, ?_⟩
  rw [hblock, hfs]
  exact htiles

/-- The block of the directory is its own. -/
lemma ownBlock_fileVolume (hfs : v.fs = fileVolume.fs) : v.fs.OwnBlock 1 6 := by
  have h := oneGroup_fileVolume
  rw [hfs]
  refine ⟨h.layout, by decide, by decide +kernel, ?_, ?_, fun x hx => ?_⟩
  · rw [InDevice, h.blockSize]
    decide
  · rw [h.blockSize]
    decide
  · rcases h.location hx with ⟨-, hloc⟩ | ⟨-, hloc⟩ | ⟨-, hloc⟩ | ⟨-, hloc⟩ <;> omega

/-- Both `/a` and `/ab` are looked up in this directory. -/
lemma exists_findParent_fileVolume (c : CString) (hc : c = [97] ∨ c = [97, 98]) :
    ∃ v₁, fileVolume.findParent (47 :: c) false = (v₁, some (7, some c)) ∧ v₁.fs = fileVolume.fs ∧
      v₁.inodeNum 7 = 1 ∧ v₁.parentBlock 7 = 6 := by
  refine ⟨_, Prod.ext rfl ?_, fs_findParent fileVolume (47 :: c) false, ?_, ?_⟩
  all_goals rcases hc with rfl | rfl <;> decide +kernel

/-- To remove `/a` marks its entry, and so does the scan of `ext4_rmdir`. -/
theorem removesNamed_iff_fileVolume :
    (∃ v₁, fileVolume.findParent [47, 97] false = (v₁, some (7, some [97])) ∧
      (fileVolume.ext4Remove [47, 97]).2 = 0 ∧ v₁.fs.OwnBlock (v₁.inodeNum 7) (v₁.parentBlock 7) ∧
      RemovesNamed fileVolume [47, 97] v₁ 7 (some [97]) [0]) ∧
    (fileVolume.rmdirUnlink 1 1 (fun _ => 0) (fun _ => 0) (CString.bytes [97])).2 = 0 ∧
    UnlinksNamed fileVolume 1 1 (fun _ => 0) (fun _ => 0) (CString.bytes [97]) [97] [0] := by
  have hnamed : NamedFirst (fileVolume.fs.ext4ReadBlock 6) [0] (CString.bytes [97]) [97] := by
    intro p hp hmatch
    obtain rfl := List.mem_singleton.1 hp
    exact ⟨0, hp, le_rfl, hmatch, by decide +kernel, by decide +kernel⟩
  constructor
  · obtain ⟨v₁, hparent, hfs, hnum, hblock⟩ := exists_findParent_fileVolume [97] (.inl rfl)
    refine ⟨v₁, hparent, by decide +kernel, ?_, ((removesNamed_iff fileVolume).1 v₁ [47, 97] 7 (some [97])
      [0] hparent (hasDirBlock_fileVolume hfs hblock)).2 (.inr ?_)⟩
    · rw [hnum, hblock]
      exact ownBlock_fileVolume hfs
    · rw [hblock, hfs]
      exact hnamed
  · have hblock : inodeBlock (fileVolume.nextRecord 1) 0 = 6 := by decide +kernel
    refine ⟨by decide +kernel, ((removesNamed_iff fileVolume).2 1 1 (fun _ => 0) (fun _ => 0)
      (CString.bytes [97]) [97] [0] (hasDirBlock_fileVolume rfl hblock)).2 (.inr ?_)⟩
    rw [hblock]
    exact hnamed

/-- To remove `/ab` removes `/a`. -/
theorem not_removesNamed :
    ∃ (v v₁ : Volume) (path : CString) (parent : ℕ) (name : Option CString) (offsets : List ℕ),
      v.findParent path false = (v₁, some (parent, name)) ∧
      v₁.HasDirBlock ((v₁.advance 1).nextRecord (v₁.inodeNum parent)) offsets ∧
      (v.ext4Remove path).2 = 0 ∧ ¬ RemovesNamed v path v₁ parent name offsets := by
  obtain ⟨v₁, hparent, hfs, -, hblock⟩ := exists_findParent_fileVolume [97, 98] (.inr rfl)
  have htiles := hasDirBlock_fileVolume hfs hblock
  refine ⟨fileVolume, v₁, [47, 97, 98], 7, some [97, 98], [0], hparent, htiles, by decide +kernel,
    fun hremoves => ?_⟩
  rcases (removesNamed_iff_namedFirst hparent htiles).1 hremoves with hmemory | hnamed
  · rw [hasMemory, hfs] at hmemory
    exact absurd hmemory (by decide +kernel)
  · rw [hblock, hfs] at hnamed
    have hmatch : matchesName (fileVolume.fs.ext4ReadBlock 6) (CString.bytes [97, 98]) 0 = true := by
      decide +kernel
    obtain ⟨q, hq, -, -, -, hname⟩ := hnamed 0 (List.mem_singleton.2 rfl) hmatch
    obtain rfl := List.mem_singleton.1 hq
    exact absurd hname (by decide +kernel)

end Volume

end Jarvis
