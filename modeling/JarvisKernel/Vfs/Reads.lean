import JarvisKernel.Lib.Run
import JarvisKernel.Vfs.Defs

set_option relaxedAutoImplicit false
set_option autoImplicit false

/-!
# Reading through descriptors

The reads of an open descriptor return consecutive slices of the file, from its beginning on, whatever
happens to other descriptors in between. The clients of the VFS are observed: for every descriptor that
was opened and not closed, what was read from it is recorded, with the contents that the file had.

## Main definitions

* `Jarvis.Vfs.ReadsContents` — what is assumed of the file systems.
* `Jarvis.Vfs.Observed` — the VFS, with the reads of every open descriptor.
* `Jarvis.Vfs.slices` — what reads of given sizes return.
* `Jarvis.Vfs.Faithful` — the invariant.

## Main results

* `Jarvis.Vfs.allocateFileDescriptor_cases`, `Jarvis.Vfs.vfsClose_cases` — the effect on the table.
* `Jarvis.Vfs.reads_of_run` — the reads of a descriptor, over all interleavings.
-/

namespace Jarvis

namespace Vfs

variable {W : Type} {v v' : Vfs W} {fd : ℤ}

/-! ## The descriptor table -/

/-- `allocate_file_descriptor` takes a slot without references, or there is none. -/
lemma allocateFileDescriptor_cases (v : Vfs W) (inode : ℕ) (ops : FileOperations W) (flags : ℕ) :
    (v.allocateFileDescriptor inode ops flags = (v, -1)) ∨
      ∃ i < maxFileDescriptors, (v.descriptors i).refCount = 0 ∧
        v.allocateFileDescriptor inode ops flags =
          ({ v with descriptors := Function.update v.descriptors i (opened inode ops flags) },
            (i : ℤ)) := by
  unfold allocateFileDescriptor
  generalize hslots : List.range maxFileDescriptors = slots
  cases hfind : slots.find? fun i => decide ((v.descriptors i).refCount = 0) with
  | none => exact .inl rfl
  | some i =>
    have hmem := List.mem_of_find?_eq_some hfind
    rw [← hslots] at hmem
    exact .inr ⟨i, List.mem_range.1 hmem, by simpa using List.find?_some hfind, rfl⟩

/-- `vfs_open` fails and leaves the table as it is, or takes a slot without references for the inode. -/
lemma vfsOpen_cases (resolve : ResolvePath W) (v : Vfs W) (path : CString) (flags : ℕ) :
    ((vfsOpen resolve v path flags).2 = -1 ∧
        (vfsOpen resolve v path flags).1.descriptors = v.descriptors) ∨
      ∃ files inode ops, ∃ i < maxFileDescriptors, (v.descriptors i).refCount = 0 ∧
        resolve v.files path = (files, some (inode, some ops)) ∧
        (vfsOpen resolve v path flags).2 = i ∧
        (vfsOpen resolve v path flags).1.descriptors =
          Function.update v.descriptors i (opened inode ops flags) := by
  rw [vfsOpen]
  rcases hres : resolve v.files path with ⟨files, _ | ⟨inode, _ | ops⟩⟩
  · exact .inl ⟨rfl, rfl⟩
  · exact .inl ⟨rfl, rfl⟩
  · simp only []
    rcases ops.openOp.elim (files, (0 : ℤ)) fun f => f files inode flags with ⟨files', result⟩
    simp only []
    by_cases hresult : result ≠ 0
    · rw [if_pos hresult]
      exact .inl ⟨rfl, rfl⟩
    · rw [if_neg hresult]
      rcases allocateFileDescriptor_cases { v with files := files' } inode ops flags with
        hfull | ⟨i, hi, hfree, hcode⟩
      · rw [hfull]
        exact .inl ⟨rfl, rfl⟩
      · rw [hcode]
        have hnonneg : ¬ (i : ℤ) < 0 := by omega
        simp only [if_neg hnonneg]
        exact .inr ⟨files, inode, ops, i, hi, hfree, rfl, rfl, rfl⟩

/-- `vfs_close` of a descriptor that is not open does nothing; otherwise one slot changes. -/
lemma vfsClose_cases (v : Vfs W) (fd : ℤ) :
    (¬ v.IsOpen fd ∧ v.vfsClose fd = (v, -1)) ∨
      (v.IsOpen fd ∧ (v.vfsClose fd).2 = 0 ∧ ∃ d : FileDescriptor W,
        d.refCount = (v.descriptors fd.toNat).refCount - 1 ∧
        (v.vfsClose fd).1.descriptors = Function.update v.descriptors fd.toNat d) := by
  rw [vfsClose]
  by_cases hopen : v.IsOpen fd
  · simp only [hopen, not_true_eq_false, if_false]
    refine .inr ⟨trivial, ?_⟩
    by_cases hlast : (v.descriptors fd.toNat).refCount - 1 = 0
    · rw [if_pos hlast]
      exact ⟨rfl, _, hlast.symm, rfl⟩
    · rw [if_neg hlast]
      exact ⟨rfl, { v.descriptors fd.toNat with refCount := (v.descriptors fd.toNat).refCount - 1 },
        rfl, rfl⟩
  · rw [if_pos hopen]
    exact .inl ⟨hopen, rfl⟩

/-- Closing a descriptor leaves every other slot as it is. -/
lemma descriptors_vfsClose_of_ne {i : ℕ} (hi : (i : ℤ) ≠ fd) :
    (v.vfsClose fd).1.descriptors i = v.descriptors i := by
  rcases vfsClose_cases v fd with ⟨-, hcode⟩ | ⟨hopen, -, d, -, hdesc⟩
  · rw [hcode]
  · rw [hdesc, Function.update_of_ne]
    intro he
    have := hopen.1
    omega

/-! ## What is assumed and observed -/

/-- The bytes of a file from `offset` on, at most `size` of them. -/
def slice (contents : List UInt8) (offset size : ℕ) : List UInt8 := (contents.drop offset).take size

/-- What reads of the given sizes return, from `offset` on. -/
def slices (contents : List UInt8) : ℕ → List ℕ → List (List UInt8)
  | _, [] => []
  | offset, size :: sizes =>
    slice contents offset size ::
      slices contents (offset + (slice contents offset size).length) sizes

/-- The file systems: a path that is resolved has an inode with file operations. Opening it succeeds, and
reading it returns the slices of its contents, which have less than 4 GB. -/
def ReadsContents (resolve : ResolvePath W) (contents : Files W → CString → List UInt8) : Prop :=
  ∀ files path files' inode ops, resolve files path = (files', some (inode, ops)) →
    (contents files path).length < 2 ^ 32 ∧
    ∃ o, ops = some o ∧
      (∀ f, o.openOp = some f → ∀ later flags, (f later inode flags).2 = 0) ∧
      ∃ read, o.readOp = some read ∧ ∀ later size offset,
        (read later inode size offset).2 = slice (contents files path) offset size

/-- The reads of an open descriptor: the contents of the file when it was opened, and for every read the
size that was asked for and the bytes that were returned. -/
structure Session where
  contents : List UInt8
  reads : List (ℕ × List UInt8) := []

/-- The VFS, with the reads of every open descriptor. -/
structure Observed (W : Type) where
  vfs : Vfs W
  sessions : ℤ → Option Session

/-- The calls of clients. -/
inductive ClientOp where
  | openFile (path : CString) (flags : ℕ)
  | readFile (fd : ℤ) (buffer : Bool) (size : ℕ)
  | closeFile (fd : ℤ)

variable (resolve : ResolvePath W) (contents : Files W → CString → List UInt8)

/-- One call. A read without a buffer asks for nothing. -/
def clientStep (c : Observed W) : ClientOp → Option (Observed W)
  | .openFile path flags =>
    match vfsOpen resolve c.vfs path flags with
    | (v, fd) =>
      some
        { vfs := v
          sessions := if 0 ≤ fd then
              Function.update c.sessions fd (some { contents := contents c.vfs.files path })
            else c.sessions }
  | .readFile fd buffer size =>
    match c.vfs.vfsRead fd buffer size with
    | (v, bytes) =>
      some
        { vfs := v
          sessions := Function.update c.sessions fd ((c.sessions fd).map fun s =>
            { s with reads := s.reads ++ [(if buffer then size else 0, bytes)] }) }
  | .closeFile fd =>
    match c.vfs.vfsClose fd with
    | (v, result) =>
      some
        { vfs := v
          sessions := if result = 0 then Function.update c.sessions fd none else c.sessions }

/-- The state after `vfs_init`. -/
def start (files : Files W) : Observed W where
  vfs := vfsInit files
  sessions _ := none

/-! ## The invariant -/

/-- The slot of a session: it has one reference, reads the contents of the session, and stands where the
reads of the session end. -/
structure SlotOf (s : Session) (d : FileDescriptor W) : Prop where
  refCount : d.refCount = 1
  length_lt : s.contents.length < 2 ^ 32
  offset_le : d.offset ≤ s.contents.length
  ops : ∃ o read, d.ops = some o ∧ o.readOp = some read ∧ ∀ files size offset,
    (read files d.inode size offset).2 = slice s.contents offset size
  reads : s.reads.map Prod.snd = slices s.contents 0 (s.reads.map Prod.fst)
  total : ((s.reads.map Prod.snd).map List.length).sum = d.offset

/-- The sessions are those of the open descriptors. -/
structure Faithful (c : Observed W) : Prop where
  closed : ∀ fd, c.sessions fd = none ↔ ¬ c.vfs.IsOpen fd
  slot : ∀ fd s, c.sessions fd = some s → SlotOf s (c.vfs.descriptors fd.toNat)

variable {resolve contents} {c : Observed W}

/-- One more read continues the slices. -/
lemma slices_append (file : List UInt8) (offset size : ℕ) (sizes : List ℕ) :
    slices file offset (sizes ++ [size]) = slices file offset sizes ++
      [slice file (offset + ((slices file offset sizes).map List.length).sum) size] := by
  induction sizes generalizing offset with
  | nil => simp [slices]
  | cons first sizes ih =>
    rw [List.cons_append, slices, ih]
    simp [slices, Nat.add_assoc]

/-- A slice does not go past the end of the file. -/
lemma length_slice_le (file : List UInt8) {offset : ℕ} (size : ℕ) (h : offset ≤ file.length) :
    offset + (slice file offset size).length ≤ file.length := by
  rw [slice, List.length_take, List.length_drop]
  omega

/-- A read that asks for `size` bytes and gets them. -/
lemma SlotOf.read {s : Session} {d : FileDescriptor W} (h : SlotOf s d) (size : ℕ) :
    SlotOf { s with reads := s.reads ++ [(size, slice s.contents d.offset size)] }
      { d with offset := Word32.add d.offset (slice s.contents d.offset size).length } := by
  have hle := length_slice_le s.contents size h.offset_le
  have hlt := h.length_lt
  have hoffset : Word32.add d.offset (slice s.contents d.offset size).length =
      d.offset + (slice s.contents d.offset size).length := Word32.add_of_lt (by omega)
  refine ⟨h.refCount, h.length_lt, ?_, h.ops, ?_, ?_⟩
  · show Word32.add _ _ ≤ _
    rw [hoffset]
    exact hle
  · simp only [List.map_append, List.map_cons, List.map_nil]
    rw [slices_append, ← h.reads, h.total, Nat.zero_add]
  · simp only [List.map_append, List.map_cons, List.map_nil, List.sum_append, List.sum_cons,
      List.sum_nil, Nat.add_zero]
    rw [h.total, hoffset]

/-- A slot is open if its number is valid and it has references. -/
lemma isOpen_natCast {i : ℕ} (hi : i < maxFileDescriptors) :
    v.IsOpen i ↔ (v.descriptors i).refCount ≠ 0 := by
  rw [IsOpen, Int.toNat_natCast]
  constructor
  · exact fun h => h.2.2
  · exact fun h => ⟨by omega, by omega, h⟩

/-- When one slot changes, the other descriptors are open as before. -/
lemma isOpen_update_of_ne {i : ℕ} {d : FileDescriptor W}
    (hdesc : v'.descriptors = Function.update v.descriptors i d) (hne : fd ≠ i) :
    v'.IsOpen fd ↔ v.IsOpen fd := by
  rw [IsOpen, IsOpen, hdesc]
  refine and_congr_right fun hnonneg => ?_
  rw [Function.update_of_ne]
  omega

/-- `vfs_read` of an open descriptor returns the next slice and moves the offset behind it. -/
lemma SlotOf.vfsRead {s : Session} (h : SlotOf s (v.descriptors fd.toNat)) (hopen : v.IsOpen fd)
    (buffer : Bool) (size : ℕ) :
    (v.vfsRead fd buffer size).2 =
        slice s.contents (v.descriptors fd.toNat).offset (if buffer then size else 0) ∧
      (v.vfsRead fd buffer size).1.descriptors = Function.update v.descriptors fd.toNat
        { v.descriptors fd.toNat with
          offset := Word32.add (v.descriptors fd.toNat).offset (v.vfsRead fd buffer size).2.length } := by
  have hstay : Word32.add (v.descriptors fd.toNat).offset 0 = (v.descriptors fd.toNat).offset := by
    have hle := h.offset_le
    have hlt := h.length_lt
    rw [Word32.add_of_lt (by omega), Nat.add_zero]
  cases buffer with
  | false =>
    rw [Vfs.vfsRead, if_pos (.inr rfl)]
    refine ⟨by simp [slice], ?_⟩
    rw [List.length_nil, hstay, Function.update_eq_self]
  | true =>
    obtain ⟨o, read, hops, hread, hslice⟩ := h.ops
    rw [Vfs.vfsRead, if_neg (by simp [hopen])]
    simp only [hops, Option.bind_some, hread]
    refine ⟨hslice _ _ _, ?_⟩
    split_ifs with hlen
    · rfl
    · have hzero : (read v.files (v.descriptors fd.toNat).inode size
          (v.descriptors fd.toNat).offset).2.length = 0 := by omega
      rw [hzero, hstay, ← hops, Function.update_eq_self]

/-- An open descriptor has a session. -/
lemma Faithful.isOpen {s : Session} (h : Faithful c) (hs : c.sessions fd = some s) :
    c.vfs.IsOpen fd := by
  by_contra hnot
  rw [(h.closed fd).2 hnot] at hs
  simp at hs

/-- The invariant after one slot and its session have changed. -/
lemma Faithful.update (h : Faithful c) {i : ℕ} {d : FileDescriptor W} {s : Option Session}
    (hi : i < maxFileDescriptors)
    (hdesc : v'.descriptors = Function.update c.vfs.descriptors i d)
    (hclosed : s = none ↔ d.refCount = 0) (hslot : ∀ t, s = some t → SlotOf t d) :
    Faithful { vfs := v', sessions := Function.update c.sessions (i : ℤ) s } := by
  refine ⟨fun fd => ?_, fun fd t ht => ?_⟩
  · show Function.update c.sessions (i : ℤ) s fd = none ↔ ¬ v'.IsOpen fd
    by_cases hne : fd = i
    · subst hne
      rw [Function.update_self, hclosed, isOpen_natCast hi, hdesc, Function.update_self, not_not]
    · rw [Function.update_of_ne hne, isOpen_update_of_ne hdesc hne]
      exact h.closed fd
  · show SlotOf t (v'.descriptors fd.toNat)
    have ht' : Function.update c.sessions (i : ℤ) s fd = some t := ht
    rw [hdesc]
    by_cases hne : fd = i
    · subst hne
      rw [Function.update_self] at ht'
      rw [Int.toNat_natCast, Function.update_self]
      exact hslot t ht'
    · rw [Function.update_of_ne hne] at ht'
      rw [Function.update_of_ne]
      · exact h.slot fd t ht'
      · have := (h.isOpen ht').1
        omega

/-- The invariant does not depend on the files. -/
lemma Faithful.of_descriptors (h : Faithful c) (hdesc : v'.descriptors = c.vfs.descriptors) :
    Faithful { vfs := v', sessions := c.sessions } := by
  refine ⟨fun fd => ?_, fun fd s hs => ?_⟩
  · show c.sessions fd = none ↔ ¬ v'.IsOpen fd
    rw [h.closed, IsOpen, IsOpen, hdesc]
  · show SlotOf s (v'.descriptors fd.toNat)
    rw [hdesc]
    exact h.slot fd s hs

/-- Opening keeps the invariant. -/
lemma Faithful.openFile (hfs : ReadsContents resolve contents) (h : Faithful c) (path : CString)
    (flags : ℕ) :
    ∃ c', clientStep resolve contents c (.openFile path flags) = some c' ∧ Faithful c' := by
  have hcases := vfsOpen_cases resolve c.vfs path flags
  rcases hcall : vfsOpen resolve c.vfs path flags with ⟨v, fd⟩
  rw [hcall] at hcases
  rw [clientStep, hcall]
  refine ⟨_, rfl, ?_⟩
  rcases hcases with ⟨rfl, hdesc⟩ | ⟨files, inode, ops, i, hi, -, hres, rfl, hdesc⟩
  · exact h.of_descriptors hdesc
  · have hnonneg : (0 : ℤ) ≤ i := by omega
    obtain ⟨hlt, o, ho, -, read, hread, hslice⟩ := hfs _ _ _ _ _ hres
    obtain rfl := Option.some.inj ho
    rw [if_pos hnonneg]
    refine h.update hi hdesc (by simp [opened]) fun t ht => ?_
    rw [← Option.some.inj ht]
    exact ⟨rfl, hlt, Nat.zero_le _, ⟨ops, read, rfl, hread, hslice⟩, rfl, rfl⟩

/-- Reading keeps the invariant. -/
lemma Faithful.readFile (h : Faithful c) (fd : ℤ) (buffer : Bool) (size : ℕ) :
    ∃ c', clientStep resolve contents c (.readFile fd buffer size) = some c' ∧ Faithful c' := by
  rw [Vfs.clientStep]
  cases hs : c.sessions fd with
  | none =>
    have hread : c.vfs.vfsRead fd buffer size = (c.vfs, []) := by
      rw [vfsRead, if_pos (.inl ((h.closed fd).1 hs))]
    rw [hread]
    refine ⟨_, rfl, ?_⟩
    rw [Option.map_none, ← hs, Function.update_eq_self]
    exact h
  | some s =>
    have hopen := h.isOpen hs
    have hslot := h.slot fd s hs
    obtain ⟨hbytes, hdesc⟩ := hslot.vfsRead hopen buffer size
    rcases hcall : c.vfs.vfsRead fd buffer size with ⟨v, bytes⟩
    rw [hcall] at hbytes hdesc
    refine ⟨_, rfl, ?_⟩
    rw [Option.map_some]
    have hfd : ((fd.toNat : ℕ) : ℤ) = fd := Int.toNat_of_nonneg hopen.1
    have hi : fd.toNat < maxFileDescriptors := by
      have := hopen.2.1
      omega
    have hread := hslot.read (if buffer then size else 0)
    rw [← hbytes] at hread
    rw [← hfd]
    refine h.update hi hdesc ?_ fun t ht => ?_
    · simp [hslot.refCount]
    · rw [← Option.some.inj ht]
      exact hread

/-- Closing keeps the invariant. -/
lemma Faithful.closeFile (h : Faithful c) (fd : ℤ) :
    ∃ c', clientStep resolve contents c (.closeFile fd) = some c' ∧ Faithful c' := by
  have hcases := vfsClose_cases c.vfs fd
  rcases hcall : c.vfs.vfsClose fd with ⟨v, result⟩
  rw [hcall] at hcases
  rw [clientStep, hcall]
  refine ⟨_, rfl, ?_⟩
  rcases hcases with ⟨hnot, hcode⟩ | ⟨hopen, rfl, d, hcount, hdesc⟩
  · obtain ⟨rfl, rfl⟩ := Prod.mk.inj hcode
    exact h
  · obtain ⟨s, hs⟩ : ∃ s, c.sessions fd = some s := by
      rw [← Option.ne_none_iff_exists']
      exact fun hnone => (h.closed fd).1 hnone hopen
    have hfd : ((fd.toNat : ℕ) : ℤ) = fd := Int.toNat_of_nonneg hopen.1
    have hi : fd.toNat < maxFileDescriptors := by
      have := hopen.2.1
      omega
    rw [if_pos rfl, ← hfd]
    refine h.update hi hdesc ?_ (by simp)
    rw [hcount, (h.slot fd s hs).refCount]
    simp

/-- Every call keeps the invariant. -/
lemma Faithful.clientStep (hfs : ReadsContents resolve contents) (h : Faithful c) (op : ClientOp) :
    ∃ c', clientStep resolve contents c op = some c' ∧ Faithful c' := by
  cases op with
  | openFile path flags => exact h.openFile hfs path flags
  | readFile fd buffer size => exact h.readFile fd buffer size
  | closeFile fd => exact h.closeFile fd

/-- Nothing has been read at the start. -/
lemma faithful_start (files : Files W) : Faithful (start files) := by
  refine ⟨fun fd => ⟨fun _ hopen => hopen.2.2 rfl, fun _ => rfl⟩, fun fd s hs => ?_⟩
  simp [start] at hs

/-- For every interleaving of opening, reading and closing any number of descriptors: the reads of an
open descriptor return consecutive slices of the file from its beginning on; a descriptor that is opened
gets a number that no open descriptor has; and closing a descriptor leaves every other slot as it is. -/
theorem reads_of_run (resolve : ResolvePath W) (contents : Files W → CString → List UInt8)
    (hfs : ReadsContents resolve contents) (files : Files W) (ops : List ClientOp) :
    ∃ c, Run.exec (clientStep resolve contents) (start files) ops = some c ∧
      (∀ fd s, c.sessions fd = some s →
        s.reads.map Prod.snd = slices s.contents 0 (s.reads.map Prod.fst)) ∧
      (∀ path flags, 0 ≤ (vfsOpen resolve c.vfs path flags).2 →
        c.sessions (vfsOpen resolve c.vfs path flags).2 = none) ∧
      ∀ fd (i : ℕ), (i : ℤ) ≠ fd → (c.vfs.vfsClose fd).1.descriptors i = c.vfs.descriptors i := by
  have hfollows : Run.Follows (clientStep resolve contents) (fun _ _ => True) (start files) ops := by
    rw [Run.follows_iff]
    intros
    trivial
  obtain ⟨c, hexec, hc⟩ := Run.exec_of_step (fun c op hc _ => hc.clientStep hfs op)
    (faithful_start files) hfollows
  refine ⟨c, hexec, fun fd s hs => (hc.slot fd s hs).reads, fun path flags hfd => ?_, fun fd i hi =>
    descriptors_vfsClose_of_ne hi⟩
  rcases vfsOpen_cases resolve c.vfs path flags with
    ⟨hfail, -⟩ | ⟨_, _, _, i, hi, hfree, -, hres, -⟩
  · rw [hfail] at hfd
    omega
  · rw [hres, hc.closed, isOpen_natCast hi]
    simp [hfree]

/-- A file system in which every path is a file with the bytes of its name. -/
def nameFs : ResolvePath Unit := fun files path =>
  (files, some (1, some { readOp := some fun files _ size offset =>
    (files, slice (path.take 255) offset size) }))

/-- Two descriptors that are read by turns, one of which is closed and opened again. -/
def twoReaders : List ClientOp :=
  [.openFile [104, 111, 109, 101] 1, .openFile [100, 101, 118] 1, .readFile 0 true 3,
    .readFile 1 true 2, .readFile 0 true 3, .closeFile 0, .openFile [116] 1, .readFile 1 true 9]

/-- Both readers get the bytes of their files in order. -/
theorem reads_of_run_twoReaders :
    ReadsContents nameFs (fun _ path => path.take 255) ∧
      ∃ c, Run.exec (clientStep nameFs fun _ path => path.take 255) (start { world := (), inodes := fun _ => {} })
          twoReaders = some c ∧
        (∀ fd s, c.sessions fd = some s →
          s.reads.map Prod.snd = slices s.contents 0 (s.reads.map Prod.fst)) ∧
        (∀ path flags, 0 ≤ (vfsOpen nameFs c.vfs path flags).2 →
          c.sessions (vfsOpen nameFs c.vfs path flags).2 = none) ∧
        ∀ fd (i : ℕ), (i : ℤ) ≠ fd → (c.vfs.vfsClose fd).1.descriptors i = c.vfs.descriptors i := by
  have hfs : ReadsContents nameFs (fun _ path => path.take 255) := by
    intro files path files' inode ops hres
    obtain ⟨-, hsome⟩ := Prod.mk.inj hres
    obtain ⟨rfl, rfl⟩ := Prod.mk.inj (Option.some.inj hsome)
    refine ⟨?_, _, rfl, fun f hf => by simp at hf, _, rfl, fun _ _ _ => rfl⟩
    rw [List.length_take]
    omega
  exact ⟨hfs, reads_of_run nameFs _ hfs _ twoReaders⟩

end Vfs

end Jarvis
