import JarvisKernel.Ext4.Allocator
import JarvisKernel.Ext4.Directories
import JarvisKernel.Vfs.InodeNumbers

set_option relaxedAutoImplicit false
set_option autoImplicit false

/-!
# Finding the parent directory

`ext4_mkdir`, `ext4_rmdir` and `ext4_remove` start by looking up the parent directory. It is found whatever
its path is: all that is needed are components and memory. One call of `malloc` for each component and one
for their table are followed by those for the parent path, the last component, the normalized path, its
components, the inode and its operations. Only the copy of the last component may fail.

## Main definitions

* `Jarvis.Volume.findsParent` — there are components and memory.
* `Jarvis.Volume.parentInode`, `Jarvis.Volume.parentName`, `Jarvis.Volume.parentType` — what is found then.

## Main results

* `Jarvis.Volume.findParent_of_finds`, `Jarvis.Volume.findParent_of_not` — the lookup.
-/

namespace Jarvis

namespace OpenPath

variable {s : Files OpenWorld} {path : CString} {n : ℕ}

/-! ## Memory -/

/-- The state after calls of `malloc` without a block. -/
def afterMallocs (s : Files OpenWorld) (n : ℕ) : Files OpenWorld :=
  { s with world := { s.world with mallocs := s.world.mallocs + n } }

/-- There is memory for the calls of `malloc` from the next on. -/
def HasMemory (s : Files OpenWorld) (n : ℕ) : Prop :=
  ∀ j < n, s.world.memory (s.world.mallocs + j) = true

instance (s : Files OpenWorld) (n : ℕ) : Decidable (HasMemory s n) :=
  inferInstanceAs (Decidable (∀ j < n, s.world.memory (s.world.mallocs + j) = true))

/-- Memory for the first call, and for those behind it. -/
lemma hasMemory_succ :
    HasMemory s (n + 1) ↔ s.world.memory s.world.mallocs = true ∧ HasMemory (withMalloc s) n := by
  rw [HasMemory, Nat.forall_lt_succ_left, HasMemory, withMalloc]
  simp only [Nat.add_zero, Nat.add_assoc, Nat.add_comm 1]

/-- Calls of `malloc` that are all made if there is memory for them. -/
lemma mallocTemporaries_of_memory (h : HasMemory s n) : mallocTemporaries s n = (afterMallocs s n, true) := by
  induction n generalizing s with
  | zero => rfl
  | succ n ih =>
    obtain ⟨hfirst, hrest⟩ := hasMemory_succ.1 h
    rw [mallocTemporaries, mallocTemporary_eq hfirst]
    dsimp only
    rw [ih hrest, afterMallocs, afterMallocs, withMalloc]
    simp only [Nat.add_assoc, Nat.add_comm 1]

/-- Otherwise one of them fails. -/
lemma mallocTemporaries_of_not (h : ¬ HasMemory s n) : (mallocTemporaries s n).2 = false := by
  induction n generalizing s with
  | zero => exact absurd (fun j hj => absurd hj (Nat.not_lt_zero j)) h
  | succ n ih =>
    rw [hasMemory_succ, not_and_or, Bool.not_eq_true] at h
    rw [mallocTemporaries]
    cases hfirst : s.world.memory s.world.mallocs with
    | false => rw [mallocTemporary_eq hfirst]
    | true =>
      rw [mallocTemporary_eq hfirst]
      exact ih (h.resolve_left (by simp [hfirst]))

/-! ## The inode -/

/-- What a lookup has found: an inode with the next number and the given type, and its operations in the
block behind it. -/
structure FoundAt (s s' : Files OpenWorld) (type : FileType) (inode : ℕ) : Prop where
  type : (s'.inodes inode).type = type
  number : (s'.inodes inode).inodeNum = s.world.nextInodeNum
  data : s'.world.privateData inode = inode + 1

/-- A new inode, if there is memory for it. -/
lemma vfsCreateInode_of_memory (h : s.world.memory s.world.mallocs = true) (type : FileType)
    (permissions : ℕ) :
    ∃ s₁, vfsCreateInode s type permissions = (s₁, s.world.mallocs + 1) ∧
      s₁.world.mallocs = s.world.mallocs + 1 ∧ s₁.world.memory = s.world.memory ∧
      (s₁.inodes (s.world.mallocs + 1)).type = type ∧
      (s₁.inodes (s.world.mallocs + 1)).inodeNum = s.world.nextInodeNum := by
  rw [vfsCreateInode, mallocBlock_of_memory h]
  refine ⟨_, rfl, rfl, rfl, ?_, ?_⟩
  · dsimp only
    rw [Function.update_self]
  · dsimp only
    rw [Function.update_self]
    rfl

/-- An inode with its operations, if there is memory for both. -/
lemma ext4NewInode_of_memory (h₀ : s.world.memory s.world.mallocs = true)
    (h₁ : s.world.memory (s.world.mallocs + 1) = true) (type : FileType) (permissions : ℕ)
    (found : Found) :
    ∃ s', ext4NewInode s type permissions found = (s', some (s.world.mallocs + 1, found)) ∧
      FoundAt s s' type (s.world.mallocs + 1) := by
  obtain ⟨s₁, hcall, hmallocs, hmemory, htype, hnumber⟩ := vfsCreateInode_of_memory h₀ type permissions
  have hops : s₁.world.memory s₁.world.mallocs = true := by rw [hmemory, hmallocs, h₁]
  rw [ext4NewInode, hcall]
  simp only [mallocBlock_of_memory hops]
  refine ⟨_, rfl, htype, hnumber, (Function.update_self ..).trans ?_⟩
  rw [hmallocs]

/-- Otherwise there is none. -/
lemma ext4NewInode_of_not (h : s.world.memory s.world.mallocs = false ∨
      s.world.memory (s.world.mallocs + 1) = false) (type : FileType) (permissions : ℕ) (found : Found) :
    (ext4NewInode s type permissions found).2 = none := by
  rw [ext4NewInode]
  cases h₀ : s.world.memory s.world.mallocs with
  | false =>
    rw [vfsCreateInode, mallocBlock_of_not h₀]
    rfl
  | true =>
    obtain ⟨s₁, hcall, hmallocs, hmemory, -⟩ := vfsCreateInode_of_memory h₀ type permissions
    have hops : s₁.world.memory s₁.world.mallocs = false := by
      rw [hmemory, hmallocs]
      exact h.resolve_left (by simp [h₀])
    rw [hcall]
    simp only [mallocBlock_of_not hops]

/-- A path is normalized to `"/"` only if it is this path. -/
lemma vfsNormalizePath_ne {path : CString} (h : path ≠ [47]) : vfsNormalizePath path [47] ≠ [47] := by
  rw [vfsNormalizePath]
  split_ifs with hslash hlast
  · exact h
  · simp at hlast
  · simp

/-- The type of the inode that `ext4_get_inode` creates: only that of `"/"` is a directory. -/
def lookupType (path : CString) : FileType := if path = [47] then .directory else .regular

/-- `ext4_get_inode` finds whatever path it is given, if there is memory. -/
lemma ext4GetInode_of_memory (hmounted : s.world.ext4Mounted = true) (h : HasMemory s 4) (path : CString) :
    ∃ s' found, ext4GetInode s path = (s', some (s.world.mallocs + 3, found)) ∧
      FoundAt s s' (lookupType path) (s.world.mallocs + 3) := by
  rw [ext4GetInode, if_neg (by simp [hmounted]), mallocTemporary_eq (h 0 (by decide))]
  dsimp only
  rw [ext4FindInode, mallocTemporary_eq (by exact h 1 (by decide)), lookupType]
  dsimp only
  by_cases hroot : path = [47]
  · obtain ⟨s', hcall, hfound⟩ := ext4NewInode_of_memory (s := withMalloc (withMalloc s))
      (h 2 (by decide)) (h 3 (by decide)) .directory 0x1ED .ext4Root
    rw [if_pos hroot, if_pos (by rw [hroot]; rfl)]
    exact ⟨s', _, hcall, hfound.type, hfound.number, hfound.data⟩
  · rw [if_neg hroot, if_neg (vfsNormalizePath_ne hroot)]
    obtain ⟨s', hcall, hfound⟩ := ext4NewInode_of_memory (s := withMalloc (withMalloc s))
      (h 2 (by decide)) (h 3 (by decide)) .regular 0x1A4 .ext4File
    exact ⟨s', _, hcall, hfound.type, hfound.number, hfound.data⟩

/-- Otherwise it finds nothing. -/
lemma ext4GetInode_of_not (h : ¬ HasMemory s 4) (path : CString) : (ext4GetInode s path).2 = none := by
  rw [ext4GetInode]
  split_ifs
  · rfl
  cases h₀ : s.world.memory s.world.mallocs with
  | false => rw [mallocTemporary_eq h₀]
  | true =>
    rw [mallocTemporary_eq h₀]
    dsimp only
    rw [ext4FindInode]
    cases h₁ : s.world.memory (s.world.mallocs + 1) with
    | false => rw [mallocTemporary_eq (by exact h₁)]
    | true =>
      have hrest : s.world.memory (s.world.mallocs + 2) = false ∨
          s.world.memory (s.world.mallocs + 3) = false := by
        by_contra hall
        simp only [not_or, Bool.not_eq_false] at hall
        refine h fun j hj => ?_
        obtain rfl | rfl | rfl | rfl : j = 0 ∨ j = 1 ∨ j = 2 ∨ j = 3 := by omega
        exacts [h₀, h₁, hall.1, hall.2]
      rw [mallocTemporary_eq (by exact h₁)]
      dsimp only
      split_ifs
      · exact ext4NewInode_of_not (s := withMalloc (withMalloc s)) hrest _ _ _
      · exact ext4NewInode_of_not (s := withMalloc (withMalloc s)) hrest _ _ _

/-! ## The path -/

/-- The parent path and the last component, after `vfs_parse_path` has found components: there is no memory
for the parent path, or the last component may be `NULL`. -/
lemma splitParent_cases (s : Files OpenWorld) (components : List CString) :
    (s.world.memory s.world.mallocs = false ∧
      ∃ s', splitParent s components = (s', none) ∨
        ∃ name, splitParent s components = (s', some (none, name))) ∨
    s.world.memory s.world.mallocs = true ∧
      splitParent s components = (afterMallocs s 2, some (some (parentPath components),
        if s.world.memory (s.world.mallocs + 1) then some (components.getLastD []) else none)) := by
  rw [splitParent, duplicate]
  cases h₀ : s.world.memory s.world.mallocs with
  | false =>
    rw [mallocTemporary_eq h₀]
    dsimp only
    refine .inl ⟨rfl, ?_⟩
    split_ifs
    · exact ⟨_, .inl rfl⟩
    · rcases duplicate (withMalloc s) (components.getLastD []) with ⟨s', name⟩
      exact ⟨s', .inr ⟨name, rfl⟩⟩
  | true =>
    rw [mallocTemporary_eq h₀]
    dsimp only
    rw [if_neg (by simp), duplicate]
    cases h₁ : s.world.memory (s.world.mallocs + 1) with
    | false =>
      rw [mallocTemporary_eq (by exact h₁)]
      exact .inr ⟨rfl, rfl⟩
    | true =>
      rw [mallocTemporary_eq (by exact h₁)]
      exact .inr ⟨rfl, rfl⟩

end OpenPath

namespace Volume

open OpenPath

variable {v : Volume} {path : CString}

/-! ## The parent directory -/

/-- There is memory for a call of `malloc` of the lookup, counted from its first one. -/
def lookupMemory (v : Volume) (j : ℕ) : Bool := v.files.world.memory (v.files.world.mallocs + j)

/-- The parent directory is found: ext4 is mounted, the path has components, and there is memory, but maybe
for the last component. -/
def findsParent (v : Volume) (path : CString) : Bool :=
  let n := (pathComponents path).length
  v.files.world.ext4Mounted &&
    decide (n ≠ 0 ∧ ∀ j < n + 7, j ≠ n + 2 → v.lookupMemory j = true)

/-- The block of its inode; that of its operations is behind it. -/
def parentInode (v : Volume) (path : CString) : ℕ := v.files.world.mallocs + (pathComponents path).length + 6

/-- The last component, or `NULL`. -/
def parentName (v : Volume) (path : CString) : Option CString :=
  if v.lookupMemory ((pathComponents path).length + 2) then some ((pathComponents path).getLastD [])
  else none

/-- What is found: the inode of the parent directory, and the last component. -/
structure ParentFound (v v' : Volume) (path : CString) : Prop where
  fs : v'.fs = v.fs
  buffers : v'.buffers = v.buffers
  heap : v'.heap = v.heap
  inode : FoundAt v.files v'.files (lookupType (parentPath (pathComponents path))) (v.parentInode path)

/-- The inode that is found is one of a directory only for the path `"/"`. -/
lemma ParentFound.isDirectory_iff {v' : Volume} (h : ParentFound v v' path) :
    (v'.files.inodes (v.parentInode path)).type = .directory ↔
      parentPath (pathComponents path) = [47] := by
  rw [h.inode.type, lookupType]
  split_ifs with hroot
  · exact iff_of_true rfl hroot
  · exact iff_of_false (by decide) hroot

/-- **The parent directory is found** whatever its path is, if there is memory. -/
lemma findParent_of_finds (h : v.findsParent path = true) (root : Bool) :
    ∃ v', v.findParent path root = (v', some (v.parentInode path, v.parentName path)) ∧
      ParentFound v v' path := by
  rw [findsParent, Bool.and_eq_true, decide_eq_true_iff] at h
  obtain ⟨hmounted, hne, hmemory⟩ := h
  have hpath : path ≠ [47] := by
    rintro rfl
    exact hne rfl
  have hparse : HasMemory v.files ((pathComponents path).length + 1) := fun j hj =>
    hmemory j (by omega) (by omega)
  rw [findParent, if_neg (by simp [hmounted]), vfsParsePath, mallocTemporaries_of_memory hparse]
  dsimp only
  rw [if_neg (by simp [hne, hpath])]
  rcases splitParent_cases (afterMallocs v.files ((pathComponents path).length + 1)) (pathComponents path)
    with ⟨hnot, -⟩ | ⟨-, hsplit⟩
  · have hparent := hmemory ((pathComponents path).length + 1) (by omega) (by omega)
    exact absurd (hnot.symm.trans hparent) (by decide)
  -- the inode is looked up behind the two strings
  have hget : HasMemory (afterMallocs (afterMallocs v.files ((pathComponents path).length + 1)) 2) 4 := by
    intro j hj
    have hlater := hmemory ((pathComponents path).length + 3 + j) (by omega) (by omega)
    have hplace : v.files.world.mallocs + ((pathComponents path).length + 1) + 2 + j =
        v.files.world.mallocs + ((pathComponents path).length + 3 + j) := by omega
    exact (congrArg v.files.world.memory hplace).trans hlater
  obtain ⟨files, found, hcall, hfound⟩ := ext4GetInode_of_memory
    (s := afterMallocs (afterMallocs v.files ((pathComponents path).length + 1)) 2) hmounted hget
    (parentPath (pathComponents path))
  have hinode : v.files.world.mallocs + ((pathComponents path).length + 1) + 2 + 3 =
      v.parentInode path := by
    rw [parentInode]
    omega
  have hname : v.parentName path = if v.files.world.memory
      (v.files.world.mallocs + ((pathComponents path).length + 1) + 1) then
        some ((pathComponents path).getLastD []) else none := rfl
  rw [hsplit, hname]
  dsimp only
  rw [Volume.ext4GetInode, hcall]
  dsimp only [afterMallocs] at hfound ⊢
  rw [hinode] at hfound ⊢
  exact ⟨_, rfl, rfl, rfl, rfl, hfound.type, hfound.number, hfound.data⟩

/-- **Otherwise nothing is found.** -/
lemma findParent_of_not (h : v.findsParent path = false) (root : Bool) :
    (v.findParent path root).2 = none := by
  rw [findParent]
  by_cases hmounted : v.files.world.ext4Mounted = false
  · rw [if_pos hmounted]
  rw [if_neg hmounted, vfsParsePath]
  by_cases hparse : HasMemory v.files ((pathComponents path).length + 1)
  swap
  · have hnot := mallocTemporaries_of_not hparse
    rcases hcall : mallocTemporaries v.files ((pathComponents path).length + 1) with ⟨files, _ | _⟩
    · rfl
    · rw [hcall] at hnot
      exact Bool.noConfusion hnot
  rw [mallocTemporaries_of_memory hparse]
  dsimp only
  by_cases hempty : (pathComponents path).length = 0 ∨ root = true ∧ path = [47]
  · rw [if_pos hempty]
  rw [if_neg hempty]
  rcases splitParent_cases (afterMallocs v.files ((pathComponents path).length + 1)) (pathComponents path)
    with ⟨-, files, hsplit | ⟨name, hsplit⟩⟩ | ⟨hparent, hsplit⟩
  · rw [hsplit]
  · rw [hsplit]
    rfl
  rw [hsplit]
  dsimp only
  rw [Volume.ext4GetInode]
  by_cases hget : HasMemory (afterMallocs (afterMallocs v.files ((pathComponents path).length + 1)) 2) 4
  · -- then there was memory for everything
    refine absurd h ?_
    rw [Bool.not_eq_false, findsParent, Bool.and_eq_true, decide_eq_true_iff]
    refine ⟨by simpa using hmounted, fun hzero => hempty (.inl hzero), fun j hj hne => ?_⟩
    rcases Nat.lt_or_ge j ((pathComponents path).length + 1) with hlt | hge
    · exact hparse j hlt
    obtain rfl | hlater : j = (pathComponents path).length + 1 ∨ (pathComponents path).length + 3 ≤ j := by
      omega
    · exact hparent
    · have hmemory := hget (j - ((pathComponents path).length + 3)) (by omega)
      have hplace : v.files.world.mallocs + ((pathComponents path).length + 1) + 2 +
          (j - ((pathComponents path).length + 3)) = v.files.world.mallocs + j := by omega
      exact (congrArg v.files.world.memory hplace).symm.trans hmemory
  · have hnone := ext4GetInode_of_not hget (parentPath (pathComponents path))
    generalize OpenPath.ext4GetInode _ (parentPath (pathComponents path)) = result at hnone ⊢
    obtain ⟨files, rfl⟩ : ∃ files, result = (files, none) := ⟨result.1, Prod.ext rfl hnone⟩
    rfl

/-! ## Reading the device -/

section Device

open Ext4

variable {n : ℕ}

/-- The state after calls of `malloc`. -/
def advance (v : Volume) (n : ℕ) : Volume := { v with fs := v.fs.withMallocs (v.fs.mallocs + n) }

/-- Without memory `malloc` fails. -/
lemma malloc_of_false (h : v.fs.memory v.fs.mallocs = false) : v.malloc = (v.advance 1, none) := by
  rw [malloc, malloc_eq h]
  rfl

/-- With memory it gives the next buffer. -/
lemma malloc_of_true (h : v.fs.memory v.fs.mallocs = true) :
    v.malloc = (v.advance 1, some (v.buffers v.fs.mallocs)) := by
  rw [malloc, malloc_eq h]
  rfl

/-- It does one or the other. -/
lemma malloc_cases (v : Volume) :
    v.malloc = (v.advance 1, none) ∨ v.malloc = (v.advance 1, some (v.buffers v.fs.mallocs)) := by
  cases hmemory : v.fs.memory v.fs.mallocs with
  | false => exact .inl (malloc_of_false hmemory)
  | true => exact .inr (malloc_of_true hmemory)

/-- `ext4_read_inode` only calls `malloc`. -/
lemma ext4ReadInode_cases (v : Volume) (num : ℕ) :
    (∃ n, v.ext4ReadInode num = (v.advance n, none)) ∨
      v.ext4ReadInode num =
        (v.advance 2, some (v.fs.inodeRecord (v.buffers (v.fs.mallocs + 1)) num)) := by
  rw [ext4ReadInode]
  rcases malloc_cases v with hcall | hcall
  · rw [hcall]
    exact .inl ⟨1, rfl⟩
  · simp only [hcall]
    rcases malloc_cases (v.advance 1) with hcall' | hcall'
    · rw [hcall']
      exact .inl ⟨2, rfl⟩
    · rw [hcall']
      exact .inr rfl

/-- There is memory for the next calls of `malloc`. -/
def hasMemory (v : Volume) (count : ℕ) : Bool :=
  decide (∀ i < count, v.fs.memory (v.fs.mallocs + i) = true)

/-- With memory an inode's record is read. -/
lemma ext4ReadInode_of_memory (h₀ : v.fs.memory v.fs.mallocs = true)
    (h₁ : v.fs.memory (v.fs.mallocs + 1) = true) :
    v.ext4ReadInode n =
      (v.advance 2, some (v.fs.inodeRecord (v.buffers (v.fs.mallocs + 1)) n)) := by
  rw [ext4ReadInode, malloc_of_true h₀]
  dsimp only
  rw [malloc_of_true (v := v.advance 1) h₁]
  rfl

/-- An inode is read only if there is memory for it and for a block. -/
lemma memory_of_ext4ReadInode {record : ℕ → BitVec 8} (h : (v.ext4ReadInode n).2 = some record) :
    v.fs.memory v.fs.mallocs = true ∧ v.fs.memory (v.fs.mallocs + 1) = true := by
  rw [ext4ReadInode] at h
  cases h₀ : v.fs.memory v.fs.mallocs with
  | false =>
    rw [malloc_of_false h₀] at h
    exact absurd h (by simp)
  | true =>
    rw [malloc_of_true h₀] at h
    dsimp only at h
    cases h₁ : (v.advance 1).fs.memory (v.advance 1).fs.mallocs with
    | false =>
      rw [malloc_of_false h₁] at h
      exact absurd h (by simp)
    | true => exact ⟨rfl, h₁⟩

/-- Memory for the first call, and for those behind it. -/
lemma hasMemory_succ (v : Volume) (n : ℕ) :
    v.hasMemory (n + 1) = true ↔ v.fs.memory v.fs.mallocs = true ∧ (v.advance 1).hasMemory n = true := by
  rw [hasMemory, hasMemory, decide_eq_true_iff, decide_eq_true_iff, Nat.forall_lt_succ_left, advance]
  simp only [withMallocs, Nat.add_zero, Nat.add_assoc, Nat.add_comm 1]

/-- No call needs no memory. -/
lemma hasMemory_zero (v : Volume) : v.hasMemory 0 = true := by
  rw [hasMemory, decide_eq_true_iff]
  intro i hi
  exact absurd hi (Nat.not_lt_zero i)

/-- What `ext4_read_inode` reads next, if there is memory. -/
def nextRecord (v : Volume) (num : ℕ) : ℕ → BitVec 8 :=
  v.fs.inodeRecord (v.buffers (v.fs.mallocs + 1)) num

/-- An inode is read if there is memory for it and for a block. -/
lemma ext4ReadInode_memory (v : Volume) (num : ℕ) :
    (v.hasMemory 2 = false ∧ ∃ m, v.ext4ReadInode num = (v.advance m, none)) ∨
      v.hasMemory 2 = true ∧ v.ext4ReadInode num = (v.advance 2, some (v.nextRecord num)) := by
  cases hmemory : v.hasMemory 2 with
  | true =>
    obtain ⟨h₀, hone⟩ := (v.hasMemory_succ 1).1 hmemory
    exact .inr ⟨rfl, ext4ReadInode_of_memory h₀ (((v.advance 1).hasMemory_succ 0).1 hone).1⟩
  | false =>
    rcases ext4ReadInode_cases v num with hnone | hsome
    · exact .inl ⟨rfl, hnone⟩
    · obtain ⟨h₀, h₁⟩ := memory_of_ext4ReadInode (congrArg Prod.snd hsome)
      have hall := (v.hasMemory_succ 1).2
        ⟨h₀, ((v.advance 1).hasMemory_succ 0).2 ⟨h₁, hasMemory_zero _⟩⟩
      rw [hmemory] at hall
      exact absurd hall (by decide)

/-- What `ext4_remove` finds in the parent directory. -/
lemma findInParent_memory (v : Volume) (num : ℕ) (name : ℕ → BitVec 8) :
    (v.hasMemory 3 = false ∧ ∃ m, v.findInParent num name = (v.advance m, none)) ∨
      v.hasMemory 3 = true ∧
        v.findInParent num name = (v.advance 3,
          (findEntry v.fs.blockSize
            (v.readDirBlock (v.buffers v.fs.mallocs) ((v.advance 1).nextRecord num)) name
              v.fs.blockSize 0).map fun offset =>
                ⟨(v.advance 1).nextRecord num,
                  v.readDirBlock (v.buffers v.fs.mallocs) ((v.advance 1).nextRecord num), offset⟩) := by
  have hiff := v.hasMemory_succ 2
  rw [findInParent]
  cases hmemory : v.fs.memory v.fs.mallocs with
  | false =>
    rw [hmemory] at hiff
    rw [malloc_of_false hmemory]
    refine .inl ⟨?_, 1, rfl⟩
    rw [← Bool.not_eq_true, hiff]
    simp
  | true =>
    rw [and_iff_right hmemory] at hiff
    rw [malloc_of_true hmemory]
    dsimp only
    rcases ext4ReadInode_memory (v.advance 1) num with ⟨hfalse, m, hcall⟩ | ⟨htrue, hcall⟩
    · rw [hcall]
      refine .inl ⟨by rw [← Bool.not_eq_true, hiff, hfalse]; decide, 1 + m, ?_⟩
      simp only [advance, withMallocs, Nat.add_assoc]
    · rw [hcall]
      exact .inr ⟨hiff.2 htrue, rfl⟩

end Device

end Volume

end Jarvis
