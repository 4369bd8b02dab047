import JarvisKernel.Ext4.BlockAddresses
import JarvisKernel.Ext4.FileRead
import JarvisKernel.Ext4.Scans

set_option relaxedAutoImplicit false
set_option autoImplicit false

/-!
# Listing a directory

`ext4_dir_opendir` makes the private data of an inode point to the inode that it has read, and loses the
iterator that it has allocated. `ext4_dir_readdir` takes the private data for both. So the mode of a directory
is the number of the current block, of which only the first 12 are read, and its access time is the address of
the buffer.

Blocks of memory are those of the VFS, and an address is the number of a block.

## Main definitions

* `Jarvis.Volume.ext4DirOpendir`, `Jarvis.Volume.ext4DirReaddir` — the functions.
* `Jarvis.Volume.ListsDirectory` — what is wanted of them.

## Main results

* `Jarvis.Ext4.DirTiles.nextLive_eq` — the inner loop finds the next entry that has a name.
* `Jarvis.Volume.listsDirectory_iff` — a directory is listed only if it has no entries.
-/

namespace Jarvis

namespace Ext4

open ByteBuffer Records

/-! ## Entries -/

/-- `strncpy`: what is written to its destination. -/
def strncpy (s : ℕ → BitVec 8) : ℕ → List (BitVec 8)
  | 0 => []
  | n + 1 => if s 0 = 0 then List.replicate (n + 1) 0 else s 0 :: strncpy (fun k => s (k + 1)) n

/-- The file type of the VFS for the type of an entry. -/
def fileTypeOf : ℕ → FileType
  | 2 => .regular
  | 1 => .directory
  | 6 => .blockDevice
  | 3 => .charDevice
  | 12 => .symlink
  | 13 => .pipe
  | 14 => .pipe
  | _ => .regular

/-- The inner loop of `ext4_dir_readdir`, in `rounds` rounds: the next entry that is used and has a name. -/
def nextLive (blockSize : ℕ) (b : ℕ → BitVec 8) : ℕ → ℕ → Option ℕ
  | 0, _ => none
  | rounds + 1, offset =>
    if blockSize ≤ offset ∨ recLen b offset = 0 then none
    else if get32 b offset ≠ 0 ∧ 0 < nameLen b offset then some offset
    else nextLive blockSize b rounds (offset + recLen b offset)

/-- Where `ext4_dir_readdir` finds an entry: the number of the block in the inode, the offset in it, and its
bytes. -/
structure DirPosition where
  block : ℕ
  offset : ℕ
  bytes : ℕ → BitVec 8

/-- The outer loop of `ext4_dir_readdir` from block `i` and `offset` on. A block is read at its start only. -/
def readdirLoop (fs : Ext4) (inode : ℕ → BitVec 8) : ℕ → ℕ → ℕ → (ℕ → BitVec 8) → Option DirPosition
  | 0, _, _, _ => none
  | rounds + 1, i, offset, buffer =>
    if 12 ≤ i ∨ inodeBlock inode i = 0 then none
    else
      let b := if offset = 0 then fs.readInto buffer (inodeBlock inode i) else buffer
      match nextLive fs.blockSize b fs.blockSize offset with
      | some p => some ⟨i, p, b⟩
      | none => readdirLoop fs inode rounds (i + 1) 0 b

variable {b : ℕ → BitVec 8} {stop start : ℕ} {offsets : List ℕ}

/-- A step of the search for the next entry in use. -/
lemma nextLive_succ (blockSize : ℕ) (b : ℕ → BitVec 8) (rounds offset : ℕ) :
    nextLive blockSize b (rounds + 1) offset =
      if blockSize ≤ offset ∨ recLen b offset = 0 then none
      else if get32 b offset ≠ 0 ∧ 0 < nameLen b offset then some offset
      else nextLive blockSize b rounds (offset + recLen b offset) := rfl

/-- A round of the inner loop goes where its scan goes, unless there is an entry. -/
lemma nextLive_scan (blockSize : ℕ) (b : ℕ → BitVec 8) (count rounds p : ℕ) :
    nextLive blockSize b (rounds + 1) p =
      ((readScan blockSize b count).next p).bind fun q =>
        if get32 b p ≠ 0 ∧ 0 < nameLen b p then some p else nextLive blockSize b rounds q := by
  rw [nextLive_succ, readScan]
  dsimp only
  rw [nextEntry]
  by_cases hend : blockSize ≤ p ∨ recLen b p = 0
  · rw [if_pos hend, if_pos hend]
    rfl
  · rw [if_neg hend, if_neg hend]
    rfl

/-- **The inner loop** finds the first entry that is used and has a name. -/
lemma DirTiles.nextLive_eq (h : DirTiles b stop start offsets) {rounds : ℕ}
    (hrounds : offsets.length ≤ rounds) :
    nextLive stop b rounds start =
      offsets.find? fun p => decide (get32 b p ≠ 0 ∧ 0 < nameLen b p) := by
  induction offsets generalizing start rounds with
  | nil =>
    cases h.tiles with
    | nil =>
      cases rounds with
      | zero => rfl
      | succ rounds => exact if_pos (.inl le_rfl)
  | cons q offsets ih =>
    obtain ⟨rounds, rfl⟩ := Nat.exists_eq_succ_of_ne_zero (Nat.ne_of_gt (Nat.zero_lt_of_lt hrounds))
    cases h.tiles with
    | cons hpos hrest =>
      have hlt := h.tiles.lt
      rw [nextLive_succ, if_neg (by omega), List.find?_cons]
      by_cases hlive : get32 b q ≠ 0 ∧ 0 < nameLen b q
      · rw [if_pos hlive, decide_eq_true hlive]
      · rw [if_neg hlive, decide_eq_false hlive]
        exact ih h.tail (Nat.le_of_succ_le_succ hrounds)

end Ext4

namespace OpenPath

/-! ## Opening -/

/-- `ext4_dir_opendir` succeeds: for a directory, with memory for the inode, for a buffer and for the
iterator. -/
def canOpendir (s : Files OpenWorld) (inode : ℕ) : Bool :=
  decide (s.world.ext4Mounted = true ∧ (s.inodes inode).type = .directory ∧
    s.world.memory s.world.mallocs = true ∧ s.world.memory (s.world.mallocs + 1) = true ∧
      s.world.memory (s.world.mallocs + 2) = true)

/-- If it succeeds, the private data is a block with the inode. -/
lemma ext4DirOpendir_of_canOpendir {s : Files OpenWorld} {inode : ℕ} (h : canOpendir s inode = true) :
    ∃ s', ext4DirOpendir s inode = (s', 0) ∧ s'.world.privateData inode ≠ 0 ∧
      s'.world.ext4Mounted = true ∧ (s'.inodes inode).type = .directory := by
  obtain ⟨hmounted, hdir, hmemory, hbuffer, hiterator⟩ := of_decide_eq_true h
  have hcall : mallocBlock (withMalloc (withBlock s false)) false =
      (withBlock (withMalloc (withBlock s false)) false, s.world.mallocs + 2 + 1) :=
    mallocBlock_of_memory hiterator
  rw [ext4DirOpendir, if_neg (by simp [hmounted]), if_neg (not_not.2 hdir),
    ext4ReadInode_of_memory hmemory hbuffer]
  simp only [hcall]
  refine ⟨_, rfl, ?_, ?_, ?_⟩
  · exact (Function.update_self ..).trans_ne (Nat.succ_ne_zero _)
  · show (Files.free (W := OpenWorld) _ _).world.ext4Mounted = true
    rw [free_world]
    exact hmounted
  · show ((Files.free (W := OpenWorld) _ _).inodes inode).type = .directory
    rw [free_inodes]
    exact hdir

/-- Without memory no inode is read. -/
lemma ext4ReadInode_of_not {s : Files OpenWorld}
    (h : s.world.memory s.world.mallocs = false ∨ s.world.memory (s.world.mallocs + 1) = false) :
    ∃ s', ext4ReadInode s = (s', 0) := by
  rw [ext4ReadInode]
  cases hblock : s.world.memory s.world.mallocs with
  | false =>
    rw [mallocBlock_of_not hblock]
    exact ⟨_, rfl⟩
  | true =>
    have hbuffer : (withBlock s false).world.memory (withBlock s false).world.mallocs = false :=
      h.resolve_left (by simp [hblock])
    rw [mallocBlock_of_memory hblock]
    simp only [mallocTemporary_eq hbuffer]
    exact ⟨_, rfl⟩

/-- `ext4_dir_opendir` fails where it cannot open. -/
lemma ext4DirOpendir_of_not {s : Files OpenWorld} {inode : ℕ} (h : canOpendir s inode = false) :
    (ext4DirOpendir s inode).2 = -1 := by
  have hfails := of_decide_eq_false h
  rw [ext4DirOpendir]
  by_cases hmounted : s.world.ext4Mounted = false
  · rw [if_pos hmounted]
  rw [if_neg hmounted]
  by_cases hdir : (s.inodes inode).type ≠ .directory
  · rw [if_pos hdir]
  rw [if_neg hdir]
  by_cases hread : s.world.memory s.world.mallocs = false ∨ s.world.memory (s.world.mallocs + 1) = false
  · obtain ⟨s', hcall⟩ := ext4ReadInode_of_not hread
    simp only [hcall]
  · obtain ⟨hblock, hbuffer⟩ := not_or.1 hread
    rw [Bool.not_eq_false] at hblock hbuffer
    have hiterator : s.world.memory (s.world.mallocs + 2) = false := by
      rw [← Bool.not_eq_true]
      intro hiterator
      exact hfails ⟨by simpa using hmounted, not_not.1 hdir, hblock, hbuffer, hiterator⟩
    have hcall : mallocBlock (withMalloc (withBlock s false)) false = _ := mallocBlock_of_not hiterator
    rw [ext4ReadInode_of_memory hblock hbuffer]
    simp only [hcall]

end OpenPath

namespace Volume

open ByteBuffer Ext4 Records

/-! ## The functions -/

/-- The inode that `ext4_dir_opendir` reads. -/
def openedInode (v : Volume) (inode : ℕ) : ℕ → BitVec 8 :=
  v.fs.inodeRecord (v.buffers v.fs.mallocs) (v.inodeNum inode)

/-- `ext4_dir_opendir`, with the bytes of the inode to which the private data points afterwards. -/
def ext4DirOpendir (v : Volume) (inode : ℕ) : Volume × ℤ :=
  match OpenPath.ext4DirOpendir v.files inode with
  | (files, result) =>
    if result ≠ 0 then ({ v with files := files }, result)
    else
      -- `atime`
      let record := set32 (v.openedInode inode) 8 currentTime
      let opened : Volume := { v.advance 1 with
        files := files
        heap := Function.update v.heap (files.world.privateData inode) record }
      (opened.ext4WriteInode (v.inodeNum inode) record, 0)

/-- The iterator of a directory, in `ext4_dir_readdir`: what the private data points to, or a new one. There
is none without memory. -/
def dirIterator (v : Volume) (inode : ℕ) : Volume × Option ℕ :=
  if v.files.world.privateData inode ≠ 0 then (v, some (v.files.world.privateData inode))
  else
    match OpenPath.mallocBlock v.files false with
    | (files, 0) => ({ v with files := files }, none)
    | (files, iterator) =>
      ({ v with
          files := OpenPath.setPrivateData files inode iterator
          heap := Function.update v.heap iterator
            (set32 (set32 (set32 (v.heap iterator) 0 0) 4 0) 8 0) },
        some iterator)

/-- The buffer of an iterator, which may have to be allocated. -/
def dirBuffer (v : Volume) (inode iterator : ℕ) : Volume × Option ℕ :=
  if get32 (v.heap iterator) 8 ≠ 0 then (v, some (get32 (v.heap iterator) 8))
  else
    match OpenPath.mallocBlock v.files false with
    | (files, 0) => ({ v with files := OpenPath.setPrivateData (files.free iterator) inode 0 }, none)
    | (files, buffer) =>
      ({ v with
          files := files
          heap := Function.update v.heap iterator (set32 (v.heap iterator) 8 buffer) },
        some buffer)

/-- `ext4_dir_readdir`: the bytes of `name`, and `*type`; there are none if the result is -1. -/
def ext4DirReaddir (v : Volume) (inode nameSize : ℕ) :
    Volume × Option (List (BitVec 8) × FileType) :=
  if v.files.world.ext4Mounted = false then (v, none)
  else if (v.files.inodes inode).type ≠ .directory then (v, none)
  else
    let data := v.files.world.privateData inode
    match v.dirIterator inode with
    | (v, none) => (v, none)
    | (v, some iterator) =>
      match v.dirBuffer inode iterator with
      | (v, none) => (v, none)
      | (v, some buffer) =>
        match readdirLoop v.fs (v.heap data) 12 (get32 (v.heap iterator) 0) (get32 (v.heap iterator) 4)
            (v.heap buffer) with
        | none =>
          ({ v with
              files := OpenPath.setPrivateData ((v.files.free buffer).free iterator) inode 0 }, none)
        | some ⟨i, p, b⟩ =>
          ({ v with
              heap := Function.update (Function.update v.heap buffer b) iterator
                (set32 (set32 (v.heap iterator) 0 i) 4 (p + recLen b p)) },
            some (strncpy (fun k => b (p + 8 + k)) (nameSize - 1) ++ [0], fileTypeOf (b (p + 7)).toNat))

/-- Calls of `ext4_dir_readdir` one after the other, by `vfs_readdir`. -/
def readdirCalls (inode : ℕ) : ℕ → Volume → Volume × List (Option (List (BitVec 8) × FileType))
  | 0, v => (v, [])
  | n + 1, v =>
    match v.ext4DirReaddir inode 256 with
    | (v, result) =>
      match readdirCalls inode n v with
      | (v, results) => (v, result :: results)

/-- One call of `readdir` and the calls behind it. -/
lemma readdirCalls_succ (inode n : ℕ) (v : Volume) :
    readdirCalls inode (n + 1) v =
      ((readdirCalls inode n (v.ext4DirReaddir inode 256).1).1,
        (v.ext4DirReaddir inode 256).2 :: (readdirCalls inode n (v.ext4DirReaddir inode 256).1).2) := rfl

/-! ## What is wanted -/

/-- The number of direct blocks of a directory. -/
def dirBlocks (v : Volume) (inode : ℕ) : ℕ := blocksEnd (v.openedInode inode) 12 0

/-- The number on the device of a direct block. -/
def dirBlock (v : Volume) (inode i : ℕ) : ℕ := inodeBlock (v.openedInode inode) i

/-- A directory whose direct blocks are well-formed. The mode has the bit `S_IFDIR`, and its blocks are not
the one with its inode. -/
structure IsDirectory (v : Volume) (inode : ℕ) (offsets : ℕ → List ℕ) : Prop where
  mounted : Mounted v.fs
  mode : (get16 (v.openedInode inode) 0).testBit 14 = true
  tiles : ∀ i < v.dirBlocks inode,
    DirTiles (v.fs.ext4ReadBlock (v.dirBlock inode i)) v.fs.blockSize 0 (offsets i)
  apart : ∀ i < v.dirBlocks inode, v.dirBlock inode i % v.fs.blockNumbers ≠
    (v.fs.inodePlace (v.inodeNum inode)).1 % v.fs.blockNumbers

/-- The entries that are used, in the order of the blocks. -/
def dirEntries (v : Volume) (inode : ℕ) (offsets : ℕ → List ℕ) : List DirEntry :=
  (List.range (v.dirBlocks inode)).flatMap fun i =>
    liveEntries (v.fs.ext4ReadBlock (v.dirBlock inode i)) (offsets i)

/-- A call returned an entry: its name, and a byte 0 behind it. -/
def Returned : Option (List (BitVec 8) × FileType) → Option DirEntry → Prop
  | none, none => True
  | some (name, _), some entry => entry.name ++ [0] <+: name
  | _, _ => False

/-- What is wanted of listing a directory: after it was opened, the calls return its entries, each once and
in order, and then -1; and its blocks stay as they are. -/
def ListsDirectory (v : Volume) (inode : ℕ) (offsets : ℕ → List ℕ) : Prop :=
  ∀ v₁, v.ext4DirOpendir inode = (v₁, 0) →
    List.Forall₂ Returned (readdirCalls inode ((v.dirEntries inode offsets).length + 1) v₁).2
        ((v.dirEntries inode offsets).map some ++ [none]) ∧
      ∀ i < v.dirBlocks inode, ∀ k < v.fs.blockSize,
        (readdirCalls inode ((v.dirEntries inode offsets).length + 1) v₁).1.fs.ext4ReadBlock
            (v.dirBlock inode i) k = v.fs.ext4ReadBlock (v.dirBlock inode i) k

/-! ## Listing -/

variable {v : Volume} {inode : ℕ} {offsets : ℕ → List ℕ}

/-- Writing an inode leaves the memory, and the blocks that do not have it. -/
lemma ext4WriteInode_keeps (h : Mounted v.fs) (n : ℕ) (x : ℕ → BitVec 8) :
    (v.ext4WriteInode n x).files = v.files ∧ (v.ext4WriteInode n x).heap = v.heap ∧
      ∀ b, b % v.fs.blockNumbers ≠ (v.fs.inodePlace n).1 % v.fs.blockNumbers →
        ∀ k < v.fs.blockSize, (v.ext4WriteInode n x).fs.ext4ReadBlock b k = v.fs.ext4ReadBlock b k := by
  rw [ext4WriteInode]
  rcases malloc_cases v with hcall | hcall
  · rw [hcall]
    exact ⟨rfl, rfl, fun b _ k _ => rfl⟩
  · rw [hcall]
    refine ⟨rfl, rfl, fun b hne k hk => ?_⟩
    have h' : Mounted (v.advance 1).fs := ⟨h.blockSize, h.min, h.max⟩
    dsimp only
    rw [h'.ext4ReadBlock_ext4WriteBlock _ _ _ hk]
    exact if_neg hne

/-- **After `ext4_dir_opendir`**, the private data is the inode that was read. -/
lemma ext4DirOpendir_of_directory (h : v.IsDirectory inode offsets)
    (hopen : OpenPath.canOpendir v.files inode = true) :
    ∃ v₁, v.ext4DirOpendir inode = (v₁, 0) ∧ v₁.files.world.ext4Mounted = true ∧
      (v₁.files.inodes inode).type = .directory ∧ v₁.files.world.privateData inode ≠ 0 ∧
      v₁.heap (v₁.files.world.privateData inode) = set32 (v.openedInode inode) 8 currentTime ∧
      ∀ i < v.dirBlocks inode, ∀ k < v.fs.blockSize,
        v₁.fs.ext4ReadBlock (v.dirBlock inode i) k = v.fs.ext4ReadBlock (v.dirBlock inode i) k := by
  obtain ⟨files, hcall, hdata, hmounted, hdir⟩ := OpenPath.ext4DirOpendir_of_canOpendir hopen
  rw [ext4DirOpendir, hcall]
  dsimp only
  rw [if_neg (not_not.2 rfl)]
  have hfs : Mounted (v.advance 1).fs := ⟨h.mounted.blockSize, h.mounted.min, h.mounted.max⟩
  obtain ⟨hfiles, hheap, hread⟩ := ext4WriteInode_keeps (v := { v.advance 1 with
      files := files
      heap := Function.update v.heap (files.world.privateData inode)
        (set32 (v.openedInode inode) 8 currentTime) }) hfs (v.inodeNum inode)
    (set32 (v.openedInode inode) 8 currentTime)
  refine ⟨_, rfl, ?_, ?_, ?_, ?_, fun i hi k hk => ?_⟩
  · rw [hfiles]
    exact hmounted
  · rw [hfiles]
    exact hdir
  · rw [hfiles]
    exact hdata
  · rw [hfiles, hheap]
    exact Function.update_self ..
  · exact hread _ (h.apart i hi) k hk

/-- The same for the directory that is really read. -/
lemma ext4DirOpendir_of_not (hopen : OpenPath.canOpendir v.files inode = false) :
    (v.ext4DirOpendir inode).2 = -1 := by
  have hfails := OpenPath.ext4DirOpendir_of_not hopen
  rw [ext4DirOpendir]
  dsimp only
  rw [hfails]
  rfl

/-- **A call of `ext4_dir_readdir`** for an inode that is a directory ends the listing: what it takes for the
current block is the mode. -/
lemma ext4DirReaddir_of_directory (nameSize : ℕ) (hmounted : v.files.world.ext4Mounted = true)
    (hdir : (v.files.inodes inode).type = .directory) (hdata : v.files.world.privateData inode ≠ 0)
    (hblock : 12 ≤ get32 (v.heap (v.files.world.privateData inode)) 0)
    (hbuffer : get32 (v.heap (v.files.world.privateData inode)) 8 ≠ 0) :
    ∃ v', v.ext4DirReaddir inode nameSize = (v', none) ∧ v'.fs = v.fs := by
  have hiterator : v.dirIterator inode = (v, some (v.files.world.privateData inode)) := if_pos hdata
  have haddress : v.dirBuffer inode (v.files.world.privateData inode) =
      (v, some (get32 (v.heap (v.files.world.privateData inode)) 8)) := if_pos hbuffer
  have hloop : ∀ offset buffer, readdirLoop v.fs (v.heap (v.files.world.privateData inode)) 12
      (get32 (v.heap (v.files.world.privateData inode)) 0) offset buffer = none :=
    fun _ _ => if_pos (.inl hblock)
  rw [ext4DirReaddir, if_neg (by simp [hmounted]), if_neg (not_not.2 hdir)]
  dsimp only
  rw [hiterator]
  dsimp only
  rw [haddress]
  dsimp only
  rw [hloop]
  exact ⟨_, rfl, rfl⟩

/-- A directory that can be opened is listed only if it has no entries.

**Proof sketch.** The first call takes the mode for the number of the current block. Since the mode has the
bit `S_IFDIR`, there are no blocks left, and the call returns -1. -/
lemma listsDirectory_iff_eq_nil (h : v.IsDirectory inode offsets)
    (hopen : OpenPath.canOpendir v.files inode = true) :
    v.ListsDirectory inode offsets ↔ v.dirEntries inode offsets = [] := by
  obtain ⟨v₁, hcall, hmounted, hdir, hdata, hheap, hblocks⟩ := ext4DirOpendir_of_directory h hopen
  have hmode : 12 ≤ get32 (v.openedInode inode) 0 := by
    have hbit := Nat.ge_two_pow_of_testBit h.mode
    rw [get32]
    omega
  obtain ⟨v₂, hfirst, hfs⟩ := ext4DirReaddir_of_directory 256 hmounted hdir hdata
    (by rw [hheap, get32_set32_of_ne (.inl (by omega))]; exact hmode)
    (by rw [hheap, get32_set32]; decide)
  constructor
  · intro hlists
    by_contra hne
    obtain ⟨entry, entries, hentries⟩ := List.exists_cons_of_ne_nil hne
    obtain ⟨hreturned, -⟩ := hlists v₁ hcall
    rw [hentries, readdirCalls_succ, hfirst] at hreturned
    cases hreturned with
    | cons hreturned _ => exact hreturned
  · intro hnone v₁' hcall'
    obtain ⟨rfl, -⟩ := Prod.mk.inj (hcall.symm.trans hcall')
    rw [hnone, readdirCalls_succ, hfirst]
    refine ⟨.cons trivial .nil, fun i hi k hk => ?_⟩
    exact (congrArg (fun fs => fs.ext4ReadBlock (v.dirBlock inode i) k) hfs).trans (hblocks i hi k hk)

/-- **A directory is listed** exactly if it cannot be opened, or has no entries. -/
theorem listsDirectory_iff (v : Volume) (inode : ℕ) (offsets : ℕ → List ℕ)
    (h : v.IsDirectory inode offsets) :
    v.ListsDirectory inode offsets ↔
      OpenPath.canOpendir v.files inode = false ∨ v.dirEntries inode offsets = [] := by
  cases hopen : OpenPath.canOpendir v.files inode with
  | false =>
    refine iff_of_true (fun v₁ hcall => ?_) (.inl rfl)
    have hfails := ext4DirOpendir_of_not hopen
    rw [hcall] at hfails
    exact absurd hfails (show (0 : ℤ) ≠ -1 by decide)
  | true =>
    rw [or_iff_right (by decide)]
    exact listsDirectory_iff_eq_nil h hopen

/-- A device with a directory in inode 1, of one block with one entry that has the given inode. -/
def directoryDevice (inode : BitVec 8) : ℕ → ℕ → BitVec 8
  | 10, 1 => 0x40
  | 12, 0 => inode
  | sector, k => fileDevice sector k

/-- The device, mounted, with an inode in memory for the directory. -/
def directoryVolume (inode : BitVec 8) : Volume where
  files := { world := OpenPath.rootWorld, inodes := fun _ => { inodeNum := 1, type := .directory } }
  fs := ext4ReadSuperBlock (directoryDevice inode) fun _ => true
  buffers _ _ := 0
  heap _ _ := 0

/-- Block 7 of `directoryVolume` is a directory. -/
lemma isDirectory_directoryVolume (inode : BitVec 8) (hinode : inode = 0 ∨ inode = 3) :
    (directoryVolume inode).IsDirectory 1 fun _ => [0] := by
  have hzero : ∀ i < (directoryVolume inode).dirBlocks 1, i = 0 := by
    rcases hinode with rfl | rfl <;> decide +kernel
  rcases hinode with rfl | rfl
  all_goals
    refine ⟨⟨by decide +kernel, by decide +kernel, by decide +kernel⟩, by decide +kernel, fun i hi => ?_,
      fun i hi => ?_⟩
    · obtain rfl := hzero i hi
      exact .cons ⟨by decide +kernel, by decide +kernel⟩ (by decide +kernel) (.nil _ _)
    · obtain rfl := hzero i hi
      decide +kernel

/-- A directory without an entry in use is listed as it should be. -/
theorem listsDirectory_iff_directoryVolume : (directoryVolume 0).ListsDirectory 1 fun _ => [0] :=
  (listsDirectory_iff (directoryVolume 0) 1 (fun _ => [0])
    (isDirectory_directoryVolume 0 (.inl rfl))).2 (.inr (by decide +kernel))

/-- A directory with an entry is listed as empty. -/
theorem not_listsDirectory :
    ∃ (v : Volume) (inode : ℕ) (offsets : ℕ → List ℕ), v.IsDirectory inode offsets ∧
      ¬ v.ListsDirectory inode offsets := by
  refine ⟨directoryVolume 3, 1, fun _ => [0], isDirectory_directoryVolume 3 (.inr rfl), ?_⟩
  rw [listsDirectory_iff_eq_nil (isDirectory_directoryVolume 3 (.inr rfl)) (by decide +kernel)]
  decide +kernel

end Volume

end Jarvis
