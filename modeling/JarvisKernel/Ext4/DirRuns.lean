import JarvisKernel.Ext4.DirLog
import JarvisKernel.Lib.Run

set_option relaxedAutoImplicit false
set_option autoImplicit false

/-!
# Directories over runs

Runs of calls of `ext4_add_dir_entry` on the directories that `ext4_mkdir` makes. The block of a directory is the log of
the entries that were added to it until the log ends exactly where the block does. Then the last entry looks like one
that reaches up to the end of the block, and it is overwritten by the next entry that is not longer.

## Main definitions

* `Jarvis.Volume.DirCall`, `Jarvis.Volume.addCall` — a call, and its step with the record of what it returned.
* `Jarvis.Volume.Overwrites` — the calls that overwrite an entry.
* `Jarvis.Volume.Logs` — the blocks are the logs of what was added to them.

## Main results

* `Jarvis.Volume.logBlock_mkdirWrite` — the block that `ext4_mkdir` writes.
* `Jarvis.Volume.logs_iff` — runs.
-/

namespace Jarvis

namespace Volume

open ByteBuffer Records Ext4

/-! ## New directories -/

/-- Writing an inode keeps the size of blocks. -/
lemma mounted_ext4WriteInode {v : Volume} (h : Mounted v.fs) (n : ℕ) (x : ℕ → BitVec 8) :
    Mounted (v.ext4WriteInode n x).fs ∧ (v.ext4WriteInode n x).fs.blockSize = v.fs.blockSize := by
  rw [ext4WriteInode]
  rcases malloc_cases v with hcall | hcall
  · rw [hcall]
    exact ⟨⟨h.blockSize, h.min, h.max⟩, rfl⟩
  · rw [hcall]
    exact ⟨⟨h.blockSize, h.min, h.max⟩, rfl⟩

/-- **The directory that `ext4_mkdir` makes** has the entries `.` and `..` in its block. -/
lemma logBlock_mkdirWrite {v : Volume} (hmounted : Mounted v.fs) {parentNum inodeNum : ℕ} (permissions dataBlock : ℕ)
    (hmade : (v.mkdirWrite parentNum permissions inodeNum dataBlock).2 ≠ 0) (hinode : inodeNum < 2 ^ 32)
    (hparent : parentNum < 2 ^ 32) :
    LogBlock ((v.mkdirWrite parentNum permissions inodeNum dataBlock).1.fs.ext4ReadBlock dataBlock) v.fs.blockSize
      ⟨inodeNum, 2, [46]⟩ ⟨parentNum, 2, [46, 46]⟩ [] := by
  unfold mkdirWrite at hmade ⊢
  rcases malloc_cases v with hcall | hcall
  · rw [hcall] at hmade
    exact absurd rfl hmade
  rw [hcall] at hmade ⊢
  dsimp only at hmade ⊢
  have hadvanced : Mounted (v.advance 1).fs := ⟨hmounted.blockSize, hmounted.min, hmounted.max⟩
  obtain ⟨hwritten, hsize⟩ := mounted_ext4WriteInode hadvanced inodeNum
    ((v.advance 1).fs.newDirInode permissions dataBlock)
  generalize (v.advance 1).ext4WriteInode inodeNum ((v.advance 1).fs.newDirInode permissions dataBlock) = w
    at hmade hwritten hsize ⊢
  replace hsize : w.fs.blockSize = v.fs.blockSize := hsize
  rcases malloc_cases w with hcall' | hcall'
  · rw [hcall'] at hmade
    exact absurd rfl hmade
  rw [hcall'] at hmade ⊢
  dsimp only at hmade ⊢
  have hw : Mounted (w.advance 1).fs := ⟨hwritten.blockSize, hwritten.min, hwritten.max⟩
  have hnew := logBlock_newDirBlock (w.advance 1).fs hw (w.buffers w.fs.mallocs) hmade hinode hparent
  have hblock : (w.advance 1).fs.blockSize = v.fs.blockSize := hsize
  rw [hblock] at hnew
  refine hnew.congr fun k hk => ?_
  exact (hw.ext4ReadBlock_ext4WriteBlock _ _ _ (by rwa [hblock])).trans (if_pos rfl)

/-! ## Calls -/

/-- A call of `ext4_add_dir_entry` for a directory whose block is one of those given. -/
structure DirCall (v : Volume) (blocks : Set ℕ) where
  dirInode : ℕ
  add : DirAdd
  mem : v.dirBlockNum dirInode ∈ blocks

/-- A call that was made: what `malloc` had for its buffer, and what it returned. -/
structure DirResult where
  dirInode : ℕ
  add : DirAdd
  memory : Bool
  result : ℤ

variable {v : Volume} {blocks : Set ℕ}

/-- A call, with the record of what it returned. -/
def addCall (s : Volume × List DirResult) (c : DirCall v blocks) : Option (Volume × List DirResult) :=
  (s.1.ext4AddDirEntry c.dirInode (some c.add.name) c.add.num c.add.type).map fun r =>
    (r.1, s.2 ++ [⟨c.dirInode, c.add, s.1.fs.memory s.1.fs.mallocs, r.2⟩])

/-- The entries that were added to a block: those of the calls that returned 0. -/
def addedTo (v : Volume) (results : List DirResult) (block : ℕ) : List DirAdd :=
  (results.filter fun r => v.dirBlockNum r.dirInode = block ∧ r.result = 0).map DirResult.add

/-- What a call ought to return: 0 if the inode is a directory, there is memory, and the entry has room behind those
that were added before. -/
def wantedResult (v : Volume) (results : List DirResult) (dirInode : ℕ) (a : DirAdd) (memory : Bool) : ℤ :=
  if (v.files.inodes dirInode).type = .directory ∧ memory = true ∧
    logEnd (v.addedTo results (v.dirBlockNum dirInode)) + a.length ≤ v.fs.blockSize then 0 else -1

/-- Every block is the log of the entries that were added to it, and every call has returned what it ought to. -/
structure Logs (v : Volume) (blocks : Set ℕ) (dot dotdot : ℕ → DirEntry) (s : Volume × List DirResult) : Prop where
  logs : ∀ n ∈ blocks, LogBlock (s.1.fs.ext4ReadBlock n) v.fs.blockSize (dot n) (dotdot n) (v.addedTo s.2 n)
  results : ∀ before r after, s.2 = before ++ r :: after →
    r.result = v.wantedResult before r.dirInode r.add r.memory

/-- A call overwrites an entry: the log of its block ends where the block does, and the new entry is not longer than
the last one. -/
def Overwrites (v : Volume) (s : Volume × List DirResult) (dirInode : ℕ) (a : DirAdd) : Prop :=
  (v.files.inodes dirInode).type = .directory ∧ s.1.fs.memory s.1.fs.mallocs = true ∧
    ∃ es last, v.addedTo s.2 (v.dirBlockNum dirInode) = es ++ [last] ∧ logEnd (es ++ [last]) = v.fs.blockSize ∧
      a.length ≤ last.length

/-- What the calls do not change. -/
structure Frame (v w : Volume) : Prop where
  files : w.files = v.files
  heap : w.heap = v.heap
  blockSize : w.fs.blockSize = v.fs.blockSize
  mounted : Mounted w.fs

/-! ## One call -/

variable {dot dotdot : ℕ → DirEntry} {s : Volume × List DirResult} {dirInode : ℕ} {a : DirAdd}

/-- A directory has the same block in every state of the run. -/
lemma Frame.dirBlockNum (h : Frame v s.1) (dirInode : ℕ) : s.1.dirBlockNum dirInode = v.dirBlockNum dirInode := by
  rw [Volume.dirBlockNum, Volume.dirBlockNum, h.files, h.heap]

/-- Allocating memory changes nothing of the rest. -/
lemma Frame.advance (h : Frame v s.1) (n : ℕ) : Frame v (s.1.advance n) :=
  ⟨h.files, h.heap, h.blockSize, h.mounted.blockSize, h.mounted.min, h.mounted.max⟩

/-- Nor does writing a block. -/
lemma Frame.write (h : Frame v s.1) (n : ℕ) (buffer : ℕ → BitVec 8) :
    Frame v { s.1.advance 1 with fs := (s.1.advance 1).fs.ext4WriteBlock n buffer } :=
  ⟨h.files, h.heap, h.blockSize, h.mounted.blockSize, h.mounted.min, h.mounted.max⟩

/-- One more call that returned what it ought to. -/
lemma Logs.concat (h : Logs v blocks dot dotdot s) {w : Volume} {r : DirResult}
    (hlogs : ∀ n ∈ blocks, LogBlock (w.fs.ext4ReadBlock n) v.fs.blockSize (dot n) (dotdot n)
      (v.addedTo (s.2 ++ [r]) n))
    (hr : r.result = v.wantedResult s.2 r.dirInode r.add r.memory) :
    Logs v blocks dot dotdot (w, s.2 ++ [r]) := by
  refine ⟨hlogs, fun before r' after heq => ?_⟩
  rcases List.eq_nil_or_concat after with rfl | ⟨after, r'', rfl⟩
  · obtain ⟨rfl, heq'⟩ := List.append_inj' heq rfl
    obtain rfl := List.singleton_inj.1 heq'
    exact hr
  · rw [List.concat_eq_append, ← List.cons_append, ← List.append_assoc] at heq
    exact h.results before r' after (List.append_inj' heq rfl).1

/-- A call that returned -1 adds no entry. -/
lemma addedTo_concat_of_ne {results : List DirResult} {r : DirResult} (h : r.result ≠ 0) (n : ℕ) :
    v.addedTo (results ++ [r]) n = v.addedTo results n := by
  rw [addedTo, List.filter_append, List.filter_singleton]
  simp [h, addedTo]

/-- The additions that succeeded, with one more of them. -/
lemma addedTo_concat_of_eq {results : List DirResult} {r : DirResult} (h : r.result = 0) (n : ℕ) :
    v.addedTo (results ++ [r]) n =
      v.addedTo results n ++ if v.dirBlockNum r.dirInode = n then [r.add] else [] := by
  rw [addedTo, List.filter_append, List.filter_singleton, List.map_append]
  by_cases hblock : v.dirBlockNum r.dirInode = n
  · simp [h, hblock, addedTo]
  · simp [h, hblock, addedTo]

/-- A call for which a place was found. -/
lemma addCall_of_place (hframe : Frame v s.1) (c : DirCall v blocks) {p : ℕ} (hblock : v.dirBlockNum c.dirInode ≠ 0)
    (hdir : (v.files.inodes c.dirInode).type = .directory) (hmemory : s.1.fs.memory s.1.fs.mallocs = true)
    (hplace : findPlace v.fs.blockSize
      (s.1.fs.readInto (s.1.buffers s.1.fs.mallocs) (v.dirBlockNum c.dirInode)) (v.fs.blockSize + 1) 0 = some p) :
    addCall s c = some
      (if v.fs.blockSize < p + c.add.length then
        (s.1.advance 1, s.2 ++ [⟨c.dirInode, c.add, true, -1⟩])
      else
        ({ s.1.advance 1 with
            fs := (s.1.advance 1).fs.ext4WriteBlock (v.dirBlockNum c.dirInode)
              (insertEntry (s.1.fs.readInto (s.1.buffers s.1.fs.mallocs) (v.dirBlockNum c.dirInode)) p c.add.num
                c.add.name c.add.type) },
          s.2 ++ [⟨c.dirInode, c.add, true, 0⟩])) := by
  rw [← hframe.blockSize, ← hframe.dirBlockNum] at hplace
  rw [← hframe.dirBlockNum] at hblock
  rw [← hframe.files] at hdir
  rw [addCall, ext4AddDirEntry_of_place hdir hmemory hblock c.add.name_le hplace, hmemory, hframe.blockSize,
    hframe.dirBlockNum, Option.map_some, DirAdd.length]
  split_ifs with hroom
  · rfl
  · rfl

/-- A call that finds no directory, or no memory. -/
lemma addCall_of_exit (c : DirCall v blocks)
    (h : (s.1.files.inodes c.dirInode).type ≠ .directory ∨ s.1.fs.memory s.1.fs.mallocs = false) :
    ∃ n, addCall s c = some
      (s.1.advance n, s.2 ++ [⟨c.dirInode, c.add, s.1.fs.memory s.1.fs.mallocs, -1⟩]) := by
  obtain ⟨n, hcall⟩ := ext4AddDirEntry_of_exit c.add.num c.add.name c.add.type h
  exact ⟨n, by rw [addCall, hcall]; rfl⟩

/-- A call that returned -1 leaves the logs, if it ought to return that. -/
lemma Logs.of_failed (h : Logs v blocks dot dotdot s) (n : ℕ) {memory : Bool}
    (hwanted : v.wantedResult s.2 dirInode a memory = -1) :
    Logs v blocks dot dotdot (s.1.advance n, s.2 ++ [⟨dirInode, a, memory, -1⟩]) := by
  refine h.concat (fun m hm => ?_) hwanted.symm
  rw [addedTo_concat_of_ne (show (-1 : ℤ) ≠ 0 by decide)]
  exact h.logs m hm

/-- A call that adds an entry to the log of its block. -/
lemma Logs.of_added (h : Logs v blocks dot dotdot s) (hframe : Frame v s.1)
    (hblocks : ∀ n ∈ blocks, 0 < n ∧ n < v.fs.blockNumbers) (c : DirCall v blocks)
    (hdir : (v.files.inodes c.dirInode).type = .directory)
    (hroom : logEnd (v.addedTo s.2 (v.dirBlockNum c.dirInode)) + c.add.length ≤ v.fs.blockSize) :
    Logs v blocks dot dotdot
      ({ s.1.advance 1 with
          fs := (s.1.advance 1).fs.ext4WriteBlock (v.dirBlockNum c.dirInode)
            (insertEntry (s.1.fs.readInto (s.1.buffers s.1.fs.mallocs) (v.dirBlockNum c.dirInode))
              (logEnd (v.addedTo s.2 (v.dirBlockNum c.dirInode))) c.add.num c.add.name c.add.type) },
        s.2 ++ [⟨c.dirInode, c.add, true, 0⟩]) := by
  have hmounted : Mounted (s.1.advance 1).fs := (hframe.advance 1).mounted
  have hnumbers : s.1.fs.blockNumbers = v.fs.blockNumbers := by rw [blockNumbers, blockNumbers, hframe.blockSize]
  refine h.concat (fun n hn => ?_) ?_
  · rw [addedTo_concat_of_eq rfl]
    have hread : ∀ k < v.fs.blockSize, _ = _ := fun k hk =>
      hmounted.ext4ReadBlock_ext4WriteBlock (v.dirBlockNum c.dirInode) n
        (insertEntry (s.1.fs.readInto (s.1.buffers s.1.fs.mallocs) (v.dirBlockNum c.dirInode))
          (logEnd (v.addedTo s.2 (v.dirBlockNum c.dirInode))) c.add.num c.add.name c.add.type)
        (show k < s.1.fs.blockSize by rwa [hframe.blockSize])
    have hmod : n % s.1.fs.blockNumbers = v.dirBlockNum c.dirInode % s.1.fs.blockNumbers ↔
        v.dirBlockNum c.dirInode = n := by
      rw [hnumbers, Nat.mod_eq_of_lt (hblocks n hn).2, Nat.mod_eq_of_lt (hblocks _ c.mem).2, eq_comm]
    by_cases hblock : v.dirBlockNum c.dirInode = n
    · subst hblock
      rw [if_pos rfl]
      have hbuffer : ∀ k < v.fs.blockSize,
          s.1.fs.readInto (s.1.buffers s.1.fs.mallocs) (v.dirBlockNum c.dirInode) k =
            s.1.fs.ext4ReadBlock (v.dirBlockNum c.dirInode) k := fun k hk => if_pos (by rwa [hframe.blockSize])
      refine (((h.logs _ hn).congr hbuffer).insert c.add hroom).congr fun k hk => ?_
      exact (hread k hk).trans (if_pos (hmod.2 rfl))
    · rw [if_neg hblock, List.append_nil]
      exact (h.logs n hn).congr fun k hk => (hread k hk).trans (if_neg fun hnot => hblock (hmod.1 hnot))
  · exact (if_pos ⟨hdir, rfl, hroom⟩).symm

/-- **One call** keeps the logs if and only if it does not overwrite an entry. -/
lemma Logs.addCall (h : Logs v blocks dot dotdot s) (hframe : Frame v s.1) (hmounted : Mounted v.fs)
    (hblocks : ∀ n ∈ blocks, 0 < n ∧ n < v.fs.blockNumbers) (c : DirCall v blocks) :
    ∃ s', addCall s c = some s' ∧ Frame v s'.1 ∧
      (¬ Overwrites v s c.dirInode c.add → Logs v blocks dot dotdot s') ∧
      (Overwrites v s c.dirInode c.add → ¬ Logs v blocks dot dotdot s') := by
  by_cases hexit : (s.1.files.inodes c.dirInode).type ≠ .directory ∨ s.1.fs.memory s.1.fs.mallocs = false
  · obtain ⟨n, hcall⟩ := addCall_of_exit c hexit
    have hnot : ¬ ((v.files.inodes c.dirInode).type = .directory ∧ s.1.fs.memory s.1.fs.mallocs = true) := by
      rw [← hframe.files]
      rintro ⟨hdir, hmemory⟩
      rcases hexit with hexit | hexit
      · exact hexit hdir
      · rw [hmemory] at hexit
        simp at hexit
    refine ⟨_, hcall, hframe.advance n, fun _ => h.of_failed n (if_neg fun hnot' => ?_), fun hover => ?_⟩
    · exact hnot ⟨hnot'.1, hnot'.2.1⟩
    · exact absurd ⟨hover.1, hover.2.1⟩ hnot
  obtain ⟨hdir, hmemory⟩ := not_or.1 hexit
  rw [not_not, hframe.files] at hdir
  have hmemory' : s.1.fs.memory s.1.fs.mallocs = true := by simpa using hmemory
  have hblock := (hblocks _ c.mem).1.ne'
  -- the buffer has the block
  have hlog := h.logs _ c.mem
  have hbuffer : ∀ k < v.fs.blockSize,
      s.1.fs.readInto (s.1.buffers s.1.fs.mallocs) (v.dirBlockNum c.dirInode) k =
        s.1.fs.ext4ReadBlock (v.dirBlockNum c.dirInode) k := fun k hk => if_pos (by rwa [hframe.blockSize])
  have halign : v.fs.blockSize % 4 = 0 := by
    obtain ⟨log, -, hsize⟩ := hmounted.exists_log
    rw [hsize]
    omega
  have hfits := hlog.fits
  obtain ⟨hplace, hlast⟩ := (hlog.congr hbuffer).findPlace_eq halign
  have hlength := c.add.length_ge
  by_cases hfull : logEnd (v.addedTo s.2 (v.dirBlockNum c.dirInode)) = v.fs.blockSize
  · -- the place is that of the last entry
    have hmin := hmounted.min
    have hwanted : v.wantedResult s.2 c.dirInode c.add true = -1 := if_neg fun hfit => by omega
    rcases List.eq_nil_or_concat (v.addedTo s.2 (v.dirBlockNum c.dirInode)) with hnil | ⟨es, last, hes⟩
    · rw [hnil, logEnd_nil] at hfull
      omega
    rw [List.concat_eq_append] at hes
    have hend := hfull
    rw [hes] at hend
    have hsum := logEnd_concat es last
    have hcall := addCall_of_place hframe c hblock hdir hmemory' (hlast es last hes hfull)
    split_ifs at hcall with hroom
    · refine ⟨_, hcall, hframe.advance 1, fun _ => h.of_failed 1 hwanted, ?_⟩
      rintro ⟨-, -, es', last', hes', -, hle⟩
      obtain ⟨rfl, hlast'⟩ := List.append_inj' (hes.symm.trans hes') rfl
      obtain rfl := List.singleton_inj.1 hlast'
      omega
    · refine ⟨_, hcall, hframe.write _ _, fun hnot => ?_, fun _ hlogs => ?_⟩
      · exact absurd ⟨hdir, hmemory', es, last, hes, hend, by omega⟩ hnot
      · have hresult := hlogs.results s.2 _ [] rfl
        rw [hwanted] at hresult
        exact absurd hresult (show ¬ (0 : ℤ) = -1 by decide)
  · have hcall := addCall_of_place hframe c hblock hdir hmemory' (hplace (by omega))
    have hnot : ¬ Overwrites v s c.dirInode c.add := by
      rintro ⟨-, -, es, last, hes, hend, -⟩
      exact hfull (by rw [hes, hend])
    split_ifs at hcall with hroom
    · refine ⟨_, hcall, hframe.advance 1, fun _ => h.of_failed 1 (if_neg fun hfit => ?_), fun hover => absurd hover hnot⟩
      exact absurd hfit.2.2 (not_le.2 hroom)
    · exact ⟨_, hcall, hframe.write _ _, fun _ => h.of_added hframe hblocks c hdir (not_lt.1 hroom),
        fun hover => absurd hover hnot⟩

/-! ## Runs -/

/-- **Directories over runs**: if blocks are those of new directories, in every interleaving of calls that add entries
to them, every block is at every moment the log of the entries that were added to it, in order, and every call returns
0 exactly if its entry has room, if and only if no call overwrites an entry.

**Proof sketch.** By induction on the calls. The entries of a log are used, so that the loop goes over them to the zeros
behind, or to the last entry if there are none. -/
theorem logs_iff (v : Volume) (hmounted : Mounted v.fs) (blocks : Set ℕ)
    (hblocks : ∀ n ∈ blocks, 0 < n ∧ n < v.fs.blockNumbers) (dot dotdot : ℕ → DirEntry)
    (hfresh : ∀ n ∈ blocks, LogBlock (v.fs.ext4ReadBlock n) v.fs.blockSize (dot n) (dotdot n) [])
    (calls : List (DirCall v blocks)) :
    (∀ done s, done <+: calls → Run.exec addCall (v, []) done = some s → Logs v blocks dot dotdot s) ↔
      Run.Follows addCall (fun s c => ¬ Overwrites v s c.dirInode c.add) (v, []) calls := by
  have hstart : Frame v v ∧ Logs v blocks dot dotdot (v, []) :=
    ⟨⟨rfl, rfl, rfl, hmounted⟩, hfresh, fun before r after heq => absurd heq (by simp)⟩
  refine Run.forall_prefix_iff (I := fun s => Frame v s.1 ∧ Logs v blocks dot dotdot s) (fun s h => h.2)
    (fun s c ⟨hframe, hlogs⟩ => ?_) hstart
  obtain ⟨s', hcall, hframe', hkeeps, hbreaks⟩ := hlogs.addCall hframe hmounted hblocks c
  exact ⟨s', hcall, fun hok => ⟨hframe', hkeeps hok⟩, fun hnot => hbreaks (not_not.1 hnot)⟩

/-- A new directory in block 7. -/
def newDirVolume : Volume := dirVolume (wideFileSystem.newDirBlock (fun _ => 0) 11 2)

/-- The entry `a` is added to it. -/
def addOne : DirCall newDirVolume {7} where
  dirInode := 0
  add := ⟨[97], 12, .regular, by decide, by decide, by decide, by decide⟩
  mem := by decide +kernel

/-- What is in its block. -/
lemma readBlock_newDirVolume {k : ℕ} (hk : k < 1024) :
    newDirVolume.fs.ext4ReadBlock 7 k = wideFileSystem.newDirBlock (fun _ => 0) 11 2 k := by
  have hsize : newDirVolume.fs.blockSize = 1024 := by decide +kernel
  have hsector : newDirVolume.fs.blockSector 7 = 14 := by decide +kernel
  rw [ext4ReadBlock, if_pos (by rwa [hsize]), hsector]
  by_cases hfirst : k < 512
  · rw [Nat.div_eq_of_lt hfirst, Nat.mod_eq_of_lt hfirst]
    rfl
  · obtain ⟨j, rfl⟩ := Nat.exists_eq_add_of_le (not_lt.1 hfirst)
    rw [Nat.add_div_left _ (by decide), Nat.div_eq_of_lt (by omega), Nat.add_mod_left, Nat.mod_eq_of_lt (by omega)]
    rfl

/-- Its block has the entry that was added. -/
theorem logs_iff_addOne :
    ∃ s, Run.exec addCall (newDirVolume, []) [addOne] = some s ∧
      Logs newDirVolume {7} (fun _ => ⟨11, 2, [46]⟩) (fun _ => ⟨2, 2, [46, 46]⟩) s := by
  have hmounted : Mounted newDirVolume.fs := ⟨by decide +kernel, by decide +kernel, by decide +kernel⟩
  have hsize : newDirVolume.fs.blockSize = 1024 := by decide +kernel
  have hblocks : ∀ n ∈ ({7} : Set ℕ), 0 < n ∧ n < newDirVolume.fs.blockNumbers := by
    rintro n rfl
    rw [blockNumbers, hsize]
    decide
  have hfresh : ∀ n ∈ ({7} : Set ℕ), LogBlock (newDirVolume.fs.ext4ReadBlock n) newDirVolume.fs.blockSize
      ⟨11, 2, [46]⟩ ⟨2, 2, [46, 46]⟩ [] := by
    rintro n rfl
    have hnew : LogBlock (wideFileSystem.newDirBlock (fun _ => 0) 11 2) 1024 ⟨11, 2, [46]⟩ ⟨2, 2, [46, 46]⟩ [] :=
      logBlock_newDirBlock wideFileSystem mounted_wideFileSystem (fun _ => 0) (by decide) (by decide) (by decide)
    exact hnew.congr fun k hk => readBlock_newDirVolume hk
  have hfollows : Run.Follows addCall (fun s (c : DirCall newDirVolume {7}) =>
      ¬ Overwrites newDirVolume s c.dirInode c.add) (newDirVolume, []) [addOne] := by
    refine ⟨?_, fun _ _ => trivial⟩
    rintro ⟨-, -, es, last, hes, -⟩
    exact absurd hes (by simp [addedTo])
  have hlogs := (logs_iff newDirVolume hmounted {7} hblocks (fun _ => ⟨11, 2, [46]⟩) (fun _ => ⟨2, 2, [46, 46]⟩) hfresh
    [addOne]).2 hfollows
  obtain ⟨s, hcall, -⟩ := (hlogs [] (newDirVolume, []) List.nil_prefix rfl).addCall
    ⟨rfl, rfl, rfl, hmounted⟩ hmounted hblocks addOne
  have hexec : Run.exec addCall (newDirVolume, []) [addOne] = some s := by
    rw [Run.exec, hcall]
    rfl
  exact ⟨s, hexec, hlogs [addOne] s List.prefix_rfl hexec⟩

end Volume

end Jarvis
