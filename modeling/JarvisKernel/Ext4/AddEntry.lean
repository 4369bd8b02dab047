import JarvisKernel.Ext4.Balance
import JarvisKernel.Ext4.BlockAddresses
import JarvisKernel.Ext4.DirBlocks

set_option relaxedAutoImplicit false
set_option autoImplicit false

/-!
# Adding an entry to a directory block

`ext4_add_dir_entry` takes the first entry that is not used, or else the last one, whether that is used or
not. It writes the new entry over it with the smallest length that the new entry can have, and leaves the
bytes behind it as they are. The block stays well-formed only if these bytes are entries already.

## Main definitions

* `Jarvis.Ext4.newEntry`, `Jarvis.Ext4.insertEntry` — the new entry, and the block that has it.
* `Jarvis.Ext4.HasEntries` — a part of a block is well-formed and has given entries.
* `Jarvis.Volume.AddsEntry` — what is wanted of adding an entry.

## Main results

* `Jarvis.Ext4.inserted_iff` — when a block with the new entry is well-formed.
* `Jarvis.Volume.addsEntry_iff` — when `ext4_add_dir_entry` does what is wanted.
-/

namespace Jarvis

namespace Ext4

open ByteBuffer Records

variable {b : ℕ → BitVec 8} {stop p k num : ℕ} {name : CString} {type : FileType}
  {offsets before behind : List ℕ}

/-! ## The new entry -/

/-- `rec_len` of a new entry: its length as a multiple of 4. -/
def newRecLen (name : CString) : ℕ := (8 + name.length + 3) / 4 * 4

/-- The entry that is added. -/
def newEntry (name : CString) (num : ℕ) (type : FileType) : DirEntry where
  inode := num
  fileType := BitVec.ofNat 8 (entryType type)
  name := name.map UInt8.toBitVec

/-- A block with the new entry at an offset. -/
def insertEntry (b : ℕ → BitVec 8) (p num : ℕ) (name : CString) (type : FileType) : ℕ → BitVec 8 :=
  copy (setEntry b p num (newRecLen name) name.length (entryType type)) (p + 8) name.bytes name.length

/-- A new record has room for the name and ends at a multiple of four. -/
lemma newRecLen_ge (name : CString) : 8 + name.length ≤ newRecLen name ∧ newRecLen name % 4 = 0 := by
  rw [newRecLen]
  omega

/-- Only the bytes of the new entry are written. -/
lemma insertEntry_of_ne (h : k < p ∨ p + newRecLen name ≤ k) : insertEntry b p num name type k = b k := by
  obtain ⟨hge, -⟩ := newRecLen_ge name
  rw [insertEntry, copy, if_neg (by omega), setEntry_of_ne (by omega)]

/-- The fields of the new entry. -/
lemma fields_insertEntry (b : ℕ → BitVec 8) (p : ℕ) (type : FileType) (hname : name.length ≤ 255) (hnum : num < 2 ^ 32) :
    recLen (insertEntry b p num name type) p = newRecLen name ∧
      EntryOk (insertEntry b p num name type) p ∧
      get32 (insertEntry b p num name type) p = num ∧
      entryAt (insertEntry b p num name type) p = newEntry name num type := by
  obtain ⟨hge, haligned⟩ := newRecLen_ge name
  obtain ⟨hinode, hrec, hcount, htype⟩ := fields_setEntry b p num (newRecLen name) name.length
    (entryType type)
  have hsame : ∀ k < p + 8, insertEntry b p num name type k =
      setEntry b p num (newRecLen name) name.length (entryType type) k := by
    intro k hk
    rw [insertEntry, copy, if_neg (by omega)]
  have hinode' : get32 (insertEntry b p num name type) p = num := by
    rw [get32_congr fun k hk hlt => hsame k (by omega), hinode, Nat.mod_eq_of_lt hnum]
  have hrec' : recLen (insertEntry b p num name type) p = newRecLen name := by
    rw [recLen, get16_congr fun k hk hlt => hsame k (by omega), ← recLen, hrec, Nat.mod_eq_of_lt]
    rw [newRecLen]
    omega
  have hcount' : nameLen (insertEntry b p num name type) p = name.length := by
    rw [nameLen, hsame (p + 6) (by omega), ← nameLen, hcount, Nat.mod_eq_of_lt (by omega)]
  refine ⟨hrec', ⟨by rw [hrec']; exact haligned, by rw [hrec', hcount']; exact hge⟩, hinode', ?_⟩
  rw [entryAt, newEntry, hinode', hcount', hsame (p + 7) (by omega), htype, DirEntry.mk.injEq]
  refine ⟨rfl, rfl, List.ext_getElem (by simp) fun k hk _ => ?_⟩
  have hlt : k < name.length := by simpa using hk
  rw [List.getElem_map, List.getElem_map, List.getElem_range, insertEntry, copy, if_pos (by omega),
    Nat.add_sub_cancel_left, CString.bytes_of_lt hlt]

/-! ## The block with the new entry -/

/-- From an offset on, a block is well-formed and has the given entries, in any order. -/
def HasEntries (b : ℕ → BitVec 8) (stop start : ℕ) (entries : List DirEntry) : Prop :=
  ∃ offsets, DirTiles b stop start offsets ∧ (liveEntries b offsets).Perm entries

/-- **A block with a new entry** is well-formed and has the entries of before exactly if what is behind the
new entry has those that were at its place or behind it.

**Proof sketch.** The entries before the place are the same, and the new entry has its own length, so that
both tilings have the entries before the place in common, and the remaining bytes were not written. -/
lemma inserted_iff (type : FileType) (h : DirTiles b stop 0 offsets) (hplace : IsPlace b offsets before p behind)
    (hname : name.length ≤ 255) (hnum : num < 2 ^ 32) (hroom : p + newRecLen name ≤ stop) :
    HasEntries (insertEntry b p num name type) stop 0 (newEntry name num type :: liveEntries b offsets) ↔
      num ≠ 0 ∧ HasEntries b stop (p + newRecLen name) (liveEntries b (p :: behind)) := by
  obtain ⟨hrec, hok, hinode, hentry⟩ := fields_insertEntry b p type hname hnum
  obtain ⟨hge, -⟩ := newRecLen_ge name
  obtain rfl := hplace.split
  obtain ⟨hbefore, -⟩ := h.split
  have hahead : ∀ k, 0 ≤ k → k < p → insertEntry b p num name type k = b k :=
    fun k _ hk => insertEntry_of_ne (.inl hk)
  obtain ⟨hbefore', hlive⟩ := hbefore.congr hahead
  have hbehind : ∀ k, p + newRecLen name ≤ k → k < stop → b k = insertEntry b p num name type k :=
    fun k hk _ => (insertEntry_of_ne (.inr hk)).symm
  rw [liveEntries_append]
  constructor
  · rintro ⟨offsets', htiles, hperm⟩
    obtain ⟨rest, rfl, hrest⟩ := htiles.cut hbefore'.tiles (by omega)
    have hnew : num ≠ 0 := inode_ne_zero_of_mem (hperm.mem_iff.2 List.mem_cons_self)
    refine ⟨hnew, ?_⟩
    cases rest with
    | nil => exact absurd rfl (hrest.tiles.ne_nil (by omega))
    | cons q tail =>
      obtain rfl : q = p := by cases hrest.tiles; rfl
      have htail := hrest.tail
      rw [hrec] at htail
      obtain ⟨htail', htaillive⟩ := htail.congr hbehind
      refine ⟨tail, htail', ?_⟩
      rw [liveEntries_append, hlive, liveEntries_cons_of_pos (by rw [hinode]; exact hnew), hentry,
        ← htaillive] at hperm
      exact (List.perm_append_left_iff _).1 (List.perm_middle.symm.trans hperm).cons_inv
  · rintro ⟨hnew, tail, htail, hperm⟩
    obtain ⟨htail', htaillive⟩ := htail.congr fun k hk hlt => (hbehind k hk hlt).symm
    refine ⟨before ++ p :: tail, hbefore'.append (.cons hok (by rw [hrec]) htail'), ?_⟩
    rw [liveEntries_append, hlive, liveEntries_cons_of_pos (by rw [hinode]; exact hnew), hentry,
      htaillive]
    exact List.perm_middle.trans ((hperm.append_left _).cons _)

/-- A deleted entry of the same length is replaced. -/
lemma hasEntries_of_recLen_eq (h : DirTiles b stop 0 (before ++ p :: behind)) (hzero : get32 b p = 0)
    (hlength : recLen b p = newRecLen name) :
    HasEntries b stop (p + newRecLen name) (liveEntries b (p :: behind)) := by
  obtain ⟨-, hplace⟩ := h.split
  refine ⟨behind, ?_, by rw [liveEntries_cons_of_zero hzero]⟩
  rw [← hlength]
  exact hplace.tail

/-- The entries of a block depend on its bytes only. -/
lemma HasEntries.congr {b' : ℕ → BitVec 8} {start : ℕ} {entries : List DirEntry}
    (h : HasEntries b stop start entries) (hsame : ∀ k, start ≤ k → k < stop → b' k = b k) :
    HasEntries b' stop start entries := by
  obtain ⟨offsets, htiles, hperm⟩ := h
  obtain ⟨htiles', hlive⟩ := htiles.congr hsame
  exact ⟨offsets, htiles', by rw [hlive]; exact hperm⟩

/-- So does what a new entry changes of them. -/
lemma insertEntry_congr {b' : ℕ → BitVec 8} (h : b' k = b k) :
    insertEntry b' p num name type k = insertEntry b p num name type k := by
  simp only [insertEntry, copy, setEntry, set32, set16, Function.update_apply, h]

/-- The new entry can be added: there is no room for it, and the block is left as it is; or it is used, and
what is behind it has the entries that were at its place or behind it. -/
def Addable (b : ℕ → BitVec 8) (stop : ℕ) (offsets : List ℕ) (name : CString) (num : ℕ) : Prop :=
  ∃ before p behind, IsPlace b offsets before p behind ∧
    (stop < p + newRecLen name ∨
      num ≠ 0 ∧ HasEntries b stop (p + newRecLen name) (liveEntries b (p :: behind)))

end Ext4

namespace Volume

open ByteBuffer Records Ext4

variable {v : Volume} {dirInode num p : ℕ} {name : CString} {type : FileType} {offsets : List ℕ}

/-! ## The function -/

/-- The number of the block to which an entry is added. -/
def dirBlockNum (v : Volume) (dirInode : ℕ) : ℕ :=
  inodeBlock (v.heap (v.files.world.privateData dirInode)) 0

/-- What is wanted of adding an entry: it is one more entry of the block, or the block is as before. -/
def AddsEntry (v v' : Volume) (result : ℤ) (blockNum : ℕ) (offsets : List ℕ) (entry : DirEntry) : Prop :=
  result = 0 ∧ HasEntries (v'.fs.ext4ReadBlock blockNum) v.fs.blockSize 0
      (entry :: liveEntries (v.fs.ext4ReadBlock blockNum) offsets) ∨
    result = -1 ∧ v'.fs.ext4ReadBlock blockNum = v.fs.ext4ReadBlock blockNum

/-- The call for a place that was found. -/
lemma ext4AddDirEntry_of_place (hdir : (v.files.inodes dirInode).type = .directory)
    (hmemory : v.fs.memory v.fs.mallocs = true) (hblock : v.dirBlockNum dirInode ≠ 0)
    (hname : name.length ≤ 255)
    (hplace : findPlace v.fs.blockSize
      (v.fs.readInto (v.buffers v.fs.mallocs) (v.dirBlockNum dirInode)) (v.fs.blockSize + 1) 0 = some p) :
    v.ext4AddDirEntry dirInode (some name) num type = some
      (if v.fs.blockSize < p + newRecLen name then (v.advance 1, -1)
      else
        ({ v.advance 1 with
            fs := (v.advance 1).fs.ext4WriteBlock (v.dirBlockNum dirInode)
              (insertEntry (v.fs.readInto (v.buffers v.fs.mallocs) (v.dirBlockNum dirInode)) p num name
                type) }, 0)) := by
  have hdirectory : (v.advance 1).directoryBlock ((v.advance 1).inodeNum dirInode)
      (v.files.world.privateData dirInode) (v.buffers v.fs.mallocs) =
        (v.advance 1, some (v.fs.readInto (v.buffers v.fs.mallocs) (v.dirBlockNum dirInode))) :=
    if_pos hblock
  have hsize : (v.advance 1).fs.blockSize = v.fs.blockSize := rfl
  unfold ext4AddDirEntry
  dsimp only
  rw [if_neg (not_not.2 hdir), malloc_of_true hmemory]
  dsimp only
  rw [hdirectory]
  dsimp only
  rw [hsize, hplace, Nat.mod_eq_of_lt (by omega)]
  rfl

/-- Nothing is written without a directory or without memory. -/
lemma ext4AddDirEntry_of_exit (num : ℕ) (name : CString) (type : FileType)
    (h : (v.files.inodes dirInode).type ≠ .directory ∨ v.fs.memory v.fs.mallocs = false) :
    ∃ n, v.ext4AddDirEntry dirInode (some name) num type = some (v.advance n, -1) := by
  unfold ext4AddDirEntry
  dsimp only
  by_cases hdir : (v.files.inodes dirInode).type ≠ .directory
  · exact ⟨0, if_pos hdir⟩
  · refine ⟨1, ?_⟩
    rw [if_neg hdir, malloc_of_false (h.resolve_left hdir)]

/-- The call for a directory block that is well-formed. -/
lemma addsEntry_iff_of_place (hmounted : Mounted v.fs) (type : FileType) {before behind : List ℕ}
    (hdir : (v.files.inodes dirInode).type = .directory) (hmemory : v.fs.memory v.fs.mallocs = true)
    (hblock : v.dirBlockNum dirInode ≠ 0) (hname : name.length ≤ 255) (hnum : num < 2 ^ 32)
    (htiles : DirTiles (v.fs.ext4ReadBlock (v.dirBlockNum dirInode)) v.fs.blockSize 0 offsets)
    (hplace : IsPlace (v.fs.ext4ReadBlock (v.dirBlockNum dirInode)) offsets before p behind) :
    (∃ v' result, v.ext4AddDirEntry dirInode (some name) num type = some (v', result) ∧
      AddsEntry v v' result (v.dirBlockNum dirInode) offsets (newEntry name num type)) ↔
        v.fs.blockSize < p + newRecLen name ∨ num ≠ 0 ∧
          HasEntries (v.fs.ext4ReadBlock (v.dirBlockNum dirInode)) v.fs.blockSize (p + newRecLen name)
            (liveEntries (v.fs.ext4ReadBlock (v.dirBlockNum dirInode)) (p :: behind)) := by
  have hbuffer : ∀ k, 0 ≤ k → k < v.fs.blockSize →
      v.fs.readInto (v.buffers v.fs.mallocs) (v.dirBlockNum dirInode) k =
        v.fs.ext4ReadBlock (v.dirBlockNum dirInode) k := fun k _ hk => if_pos hk
  obtain ⟨htiles', -⟩ := htiles.congr hbuffer
  have hplace' := htiles.congr_isPlace hbuffer hplace
  have hlength := htiles.tiles.length_le
  have hbefore : before.length < v.fs.blockSize + 1 := by
    rw [hplace.split, List.length_append] at hlength
    omega
  rw [ext4AddDirEntry_of_place hdir hmemory hblock hname (htiles'.findPlace_eq hplace' hbefore)]
  by_cases hroom : v.fs.blockSize < p + newRecLen name
  · rw [if_pos hroom]
    exact iff_of_true ⟨_, _, rfl, .inr ⟨rfl, rfl⟩⟩ (.inl hroom)
  rw [if_neg hroom, or_iff_right hroom,
    ← inserted_iff type htiles hplace hname hnum (Nat.le_of_not_lt hroom)]
  -- what is read afterwards is the block with the new entry
  have hmounted' : Mounted (v.advance 1).fs := ⟨hmounted.blockSize, hmounted.min, hmounted.max⟩
  have hread : ∀ k, 0 ≤ k → k < v.fs.blockSize →
      ((v.advance 1).fs.ext4WriteBlock (v.dirBlockNum dirInode)
        (insertEntry (v.fs.readInto (v.buffers v.fs.mallocs) (v.dirBlockNum dirInode)) p num name
          type)).ext4ReadBlock (v.dirBlockNum dirInode) k =
        insertEntry (v.fs.ext4ReadBlock (v.dirBlockNum dirInode)) p num name type k := by
    intro k hge hk
    rw [hmounted'.ext4ReadBlock_ext4WriteBlock _ _ _ hk, if_pos rfl]
    exact insertEntry_congr (hbuffer k hge hk)
  constructor
  · rintro ⟨v', result, hcall, hadds⟩
    obtain ⟨rfl, rfl⟩ := Prod.mk.inj (Option.some.inj hcall)
    rcases hadds with ⟨-, hentries⟩ | ⟨hnegative, -⟩
    · exact hentries.congr fun k hge hk => (hread k hge hk).symm
    · exact absurd hnegative (by decide)
  · intro hentries
    exact ⟨_, 0, rfl, .inl ⟨rfl, hentries.congr hread⟩⟩

/-- **Adding an entry** to a well-formed directory block keeps it well-formed and the other entries as they
are exactly if no entry is added, or the bytes behind the new entry have the entries that were at its place
or behind it.

**Proof sketch.** The loop finds the first entry that is not used, or the last one. What is read from the
block afterwards is what was written, which is as before but for the new entry. -/
theorem addsEntry_iff (v : Volume) (hmounted : Mounted v.fs) (dirInode num : ℕ) (name : CString)
    (type : FileType) (offsets : List ℕ) (hname : 1 ≤ name.length ∧ name.length ≤ 255)
    (hnum : num < 2 ^ 32) (hblock : v.dirBlockNum dirInode ≠ 0)
    (htiles : DirTiles (v.fs.ext4ReadBlock (v.dirBlockNum dirInode)) v.fs.blockSize 0 offsets) :
    (∃ v' result, v.ext4AddDirEntry dirInode (some name) num type = some (v', result) ∧
      AddsEntry v v' result (v.dirBlockNum dirInode) offsets (newEntry name num type)) ↔
        (v.files.inodes dirInode).type ≠ .directory ∨ v.fs.memory v.fs.mallocs = false ∨
          Addable (v.fs.ext4ReadBlock (v.dirBlockNum dirInode)) v.fs.blockSize offsets name num := by
  by_cases hexit : (v.files.inodes dirInode).type ≠ .directory ∨ v.fs.memory v.fs.mallocs = false
  · obtain ⟨n, hcall⟩ := ext4AddDirEntry_of_exit num name type hexit
    refine iff_of_true ⟨_, _, hcall, .inr ⟨rfl, rfl⟩⟩ ?_
    rw [← or_assoc]
    exact .inl hexit
  rw [← or_assoc, or_iff_right hexit]
  obtain ⟨hdir, hmemory⟩ := not_or.1 hexit
  have hmemory' : v.fs.memory v.fs.mallocs = true := by simpa using hmemory
  have hiff : ∀ {before p behind}, IsPlace _ offsets before p behind → _ := fun hplace =>
    addsEntry_iff_of_place hmounted type (not_not.1 hdir) hmemory' hblock hname.2
      hnum htiles hplace
  constructor
  · intro hadds
    obtain ⟨before, p, behind, hplace⟩ :=
      exists_isPlace _ (htiles.tiles.ne_nil (Nat.lt_of_lt_of_le (by omega) hmounted.min))
    exact ⟨before, p, behind, hplace, (hiff hplace).1 hadds⟩
  · rintro ⟨before, p, behind, hplace, hbehind⟩
    exact (hiff hplace).2 hbehind

/-- A device with a directory in block 7. -/
def dirDevice (block : ℕ → BitVec 8) : ℕ → ℕ → BitVec 8 := fun sector k =>
  if sector = 14 then block k else if sector = 15 then block (512 + k) else wideDevice sector k

/-- The device, mounted. The inodes in memory have the block. -/
def dirVolume (block : ℕ → BitVec 8) : Volume where
  files := { world := OpenPath.rootWorld, inodes := fun _ => { type := .directory } }
  fs := ext4ReadSuperBlock (dirDevice block) fun _ => true
  buffers _ _ := 0
  heap _ := set32 (fun _ => 0) 40 7

/-- A directory with an entry that was deleted, of 12 bytes, between `.` and `..`. -/
def sparseBlock : ℕ → BitVec 8
  | 0 => 11
  | 4 => 12
  | 6 => 1
  | 8 => 46
  | 16 => 12
  | 24 => 2
  | 28 => 0xE8
  | 29 => 3
  | 30 => 2
  | 32 => 46
  | 33 => 46
  | _ => 0

/-- The entries of `sparseBlock` fill the block. -/
lemma dirTiles_sparseBlock :
    DirTiles ((dirVolume sparseBlock).fs.ext4ReadBlock 7) 1024 0 [0, 12, 24] := by
  refine .cons ⟨?_, ?_⟩ (q := 12) ?_ (.cons ⟨?_, ?_⟩ (q := 24) ?_ (.cons ⟨?_, ?_⟩ (q := 1024) ?_ (.nil _ _)))
  all_goals decide +kernel

/-- A name is put into the place of the entry that was deleted. -/
theorem addsEntry_iff_sparseBlock :
    ∃ v' result,
      (dirVolume sparseBlock).ext4AddDirEntry 0 (some [97]) 12 .regular = some (v', result) ∧
        AddsEntry (dirVolume sparseBlock) v' result 7 [0, 12, 24] (newEntry [97] 12 .regular) := by
  have hplace : IsPlace ((dirVolume sparseBlock).fs.ext4ReadBlock 7) [0, 12, 24] [0] 12 [24] :=
    ⟨rfl, by decide +kernel, .inl (by decide +kernel)⟩
  have htiles : DirTiles ((dirVolume sparseBlock).fs.ext4ReadBlock 7) 1024 0 ([0] ++ 12 :: [24]) :=
    dirTiles_sparseBlock
  have hbehind := hasEntries_of_recLen_eq htiles (by decide +kernel)
    (show recLen _ 12 = newRecLen [97] by decide +kernel)
  exact (addsEntry_iff (dirVolume sparseBlock)
    ⟨by decide +kernel, by decide +kernel, by decide +kernel⟩ 0 12 [97] .regular [0, 12, 24] (by decide)
    (by decide) (by decide +kernel) dirTiles_sparseBlock).2
      (.inr (.inr ⟨[0], 12, [24], hplace, .inr ⟨by decide, hbehind⟩⟩))

/-- In the block of a new directory, the first new entry takes the place of `..`, and nothing is behind. -/
theorem not_addsEntry :
    ∃ (v : Volume) (offsets : List ℕ), Mounted v.fs ∧ v.dirBlockNum 0 ≠ 0 ∧
      DirTiles (v.fs.ext4ReadBlock (v.dirBlockNum 0)) v.fs.blockSize 0 offsets ∧
      ¬ ∃ v' result, v.ext4AddDirEntry 0 (some [97]) 12 .regular = some (v', result) ∧
        AddsEntry v v' result (v.dirBlockNum 0) offsets (newEntry [97] 12 .regular) := by
  have htiles : DirTiles ((dirVolume (wideFileSystem.newDirBlock (fun _ => 0) 11 2)).fs.ext4ReadBlock 7)
      1024 0 [0, 12] := by
    refine .cons ⟨?_, ?_⟩ (q := 12) ?_ (.cons ⟨?_, ?_⟩ (q := 1024) ?_ (.nil _ _))
    all_goals decide +kernel
  have hmounted : Mounted (dirVolume (wideFileSystem.newDirBlock (fun _ => 0) 11 2)).fs :=
    ⟨by decide +kernel, by decide +kernel, by decide +kernel⟩
  refine ⟨dirVolume (wideFileSystem.newDirBlock (fun _ => 0) 11 2), [0, 12], hmounted,
    by decide +kernel, htiles, fun hadds => ?_⟩
  have hplace : IsPlace ((dirVolume (wideFileSystem.newDirBlock (fun _ => 0) 11 2)).fs.ext4ReadBlock 7)
      [0, 12] [0] 12 [] := ⟨rfl, by decide +kernel, .inr rfl⟩
  rcases (addsEntry_iff_of_place hmounted .regular rfl rfl (by decide +kernel) (by decide) (by decide) htiles
    hplace).1 hadds with hroom | ⟨-, offsets, hbehind, -⟩
  · exact absurd hroom (by decide +kernel)
  · cases hbehind.tiles with
    | cons hpos _ => exact absurd hpos (by decide +kernel)

end Volume

end Jarvis
