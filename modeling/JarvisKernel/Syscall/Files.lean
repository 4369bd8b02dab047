import JarvisKernel.Vfs.Reads

set_option relaxedAutoImplicit false
set_option autoImplicit false

/-!
# File system calls

The system calls on files of `src/kernel/syscall/syscall.c`. Processes have descriptor tables of their
own here, and a call finds its descriptor there. But `open` returns a descriptor of the VFS and enters
nothing in the table of the process: `alloc_fd` is never called. So `read`, `write` and `close` find no
descriptor, whatever was opened, and no sequence of them acts as the functions of the VFS do.

## Main definitions

* `Jarvis.Syscalls` — the VFS, the descriptor tables, and the current process.
* `Jarvis.Syscalls.syscallHandlerRead` and the other handlers.
* `Jarvis.Syscalls.Agrees` — calls that act as the functions of the VFS do.

## Main results

* `Jarvis.Syscalls.NoDescriptors.getFd` — no call finds a descriptor.
* `Jarvis.Syscalls.agrees_iff_nil` — only the empty sequence of calls agrees with the VFS.
-/

namespace Jarvis

/-- `FD_TABLE_SIZE` and `MAX_FILE_DESCRIPTOR_TABLES`. -/
def fdTableSize : ℕ := 64

@[inherit_doc fdTableSize]
def maxFileDescriptorTables : ℕ := 64

/-- `FileDescriptorTable`; a pointer to a descriptor is its number in the table of the VFS. -/
structure FileDescriptorTable where
  descriptors : ℕ → Option ℕ := fun _ => none
  pid : ℕ := 0
  inUse : Bool := false

/-- The state that system calls on files see; `current` is the PID of the current process. -/
structure Syscalls (W : Type) where
  vfs : Vfs W
  tables : ℕ → FileDescriptorTable
  current : Option ℕ

namespace Syscalls

variable {W : Type}

/-! ## Descriptor tables -/

/-- The table of a process. -/
def findTable (s : Syscalls W) (pid : ℕ) : Option ℕ :=
  (List.range maxFileDescriptorTables).find? fun i =>
    (s.tables i).inUse && decide ((s.tables i).pid = pid)

/-- A table that is not in use. -/
def findUnused (s : Syscalls W) : Option ℕ :=
  (List.range maxFileDescriptorTables).find? fun i => !(s.tables i).inUse

/-- `get_file_descriptor_table`. -/
def getFileDescriptorTable (s : Syscalls W) : Syscalls W × Option ℕ :=
  match s.current with
  | none => (s, none)
  | some pid =>
    match s.findTable pid with
    | some i => (s, some i)
    | none =>
      match s.findUnused with
      | none => (s, none)
      | some i =>
        ({ s with tables := Function.update s.tables i { pid := pid, inUse := true } }, some i)

/-- `get_fd`. -/
def getFd (s : Syscalls W) (fd : ℤ) : Syscalls W × Option ℕ :=
  match s.getFileDescriptorTable with
  | (s, none) => (s, none)
  | (s, some i) =>
    if fd < 0 ∨ (fdTableSize : ℤ) ≤ fd then (s, none) else (s, (s.tables i).descriptors fd.toNat)

/-- `free_fd`. -/
def freeFd (s : Syscalls W) (fd : ℤ) : Syscalls W :=
  match s.getFileDescriptorTable with
  | (s, none) => s
  | (s, some i) =>
    if fd < 0 ∨ (fdTableSize : ℤ) ≤ fd then s
    else
      { s with
        tables := Function.update s.tables i
          { s.tables i with
            descriptors := Function.update (s.tables i).descriptors fd.toNat none } }

/-! ## System calls -/

/-- A `size_t` as the `int` that a system call returns. -/
def asInt (n : ℕ) : ℤ := if n < 2 ^ 31 then n else n - 2 ^ 32

/-- `syscall_handler_open`; the path is `none` for `NULL`. -/
def syscallHandlerOpen (resolve : ResolvePath W) (s : Syscalls W) (path : Option CString)
    (flags : ℕ) : Syscalls W × ℤ :=
  match path with
  | none => (s, -1)
  | some path =>
    match Vfs.vfsOpen resolve s.vfs path flags with
    | (v, fd) => ({ s with vfs := v }, fd)

/-- `syscall_handler_read`. -/
def syscallHandlerRead (s : Syscalls W) (fd : ℤ) (count : ℕ) : Syscalls W × ℤ :=
  match s.getFd fd with
  | (s, none) => (s, -1)
  | (s, some p) =>
    let d := s.vfs.descriptors p
    match d.ops.bind (·.readOp) with
    | none => (s, -1)
    | some read =>
      match read s.vfs.files d.inode count d.offset with
      | (files, bytes) =>
        ({ s with
            vfs :=
              { files := files
                descriptors := if 0 < bytes.length then
                    Function.update s.vfs.descriptors p
                      { d with offset := Word32.add d.offset bytes.length }
                  else s.vfs.descriptors } },
          asInt bytes.length)

/-- `syscall_handler_write`, of the bytes of a buffer. -/
def syscallHandlerWrite (s : Syscalls W) (fd : ℤ) (bytes : List UInt8) : Syscalls W × ℤ :=
  match s.getFd fd with
  | (s, none) => (s, -1)
  | (s, some p) =>
    let d := s.vfs.descriptors p
    match d.ops.bind (·.writeOp) with
    | none => (s, -1)
    | some write =>
      match write s.vfs.files d.inode bytes d.offset with
      | (files, written) =>
        ({ s with
            vfs :=
              { files := files
                descriptors := if 0 < written then
                    Function.update s.vfs.descriptors p
                      { d with offset := Word32.add d.offset written }
                  else s.vfs.descriptors } },
          asInt written)

/-- `syscall_handler_close`. -/
def syscallHandlerClose (s : Syscalls W) (fd : ℤ) : Syscalls W × ℤ :=
  match s.getFd fd with
  | (s, none) => (s, -1)
  | (s, some _) => ({ s with vfs := (s.vfs.vfsClose fd).1 }.freeFd fd, 0)

/-- `syscall_handler_ioctl`. -/
def syscallHandlerIoctl (s : Syscalls W) (fd request : ℤ) (argp : ℕ) : Syscalls W × ℤ :=
  match s.getFd fd with
  | (s, none) => (s, -1)
  | (s, some p) =>
    match (s.vfs.descriptors p).ops.bind (·.ioctlOp) with
    | none => (s, -1)
    | some ioctl =>
      match ioctl s.vfs.files (s.vfs.descriptors p).inode request argp with
      | (files, result) => ({ s with vfs := { s.vfs with files := files } }, result)

/-! ## Runs -/

/-- What happens to this state: another process is current, a process makes a system call, or the kernel
itself changes the VFS, which may be in any way. -/
inductive SyscallOp (W : Type) where
  | switch (pid : Option ℕ)
  | openCall (path : Option CString) (flags : ℕ)
  | readCall (fd : ℤ) (count : ℕ)
  | writeCall (fd : ℤ) (bytes : List UInt8)
  | closeCall (fd : ℤ)
  | ioctlCall (fd request : ℤ) (argp : ℕ)
  | kernel (change : Vfs W → Vfs W)

/-- One step. -/
def syscallStep (resolve : ResolvePath W) (s : Syscalls W) : SyscallOp W → Option (Syscalls W)
  | .switch pid => some { s with current := pid }
  | .openCall path flags => some (syscallHandlerOpen resolve s path flags).1
  | .readCall fd count => some (s.syscallHandlerRead fd count).1
  | .writeCall fd bytes => some (s.syscallHandlerWrite fd bytes).1
  | .closeCall fd => some (s.syscallHandlerClose fd).1
  | .ioctlCall fd request argp => some (s.syscallHandlerIoctl fd request argp).1
  | .kernel change => some { s with vfs := change s.vfs }

/-- The state after the VFS was set up; the tables are static data. -/
def start (v : Vfs W) : Syscalls W where
  vfs := v
  tables _ := {}
  current := none

/-! ## No descriptors -/

/-- No table has an entry. -/
def NoDescriptors (s : Syscalls W) : Prop := ∀ i j, (s.tables i).descriptors j = none

variable {s : Syscalls W} {resolve : ResolvePath W}

/-- A table that is new has no entry. -/
lemma NoDescriptors.getFileDescriptorTable (h : NoDescriptors s) :
    NoDescriptors s.getFileDescriptorTable.1 ∧ s.getFileDescriptorTable.1.vfs = s.vfs := by
  unfold Syscalls.getFileDescriptorTable
  cases s.current with
  | none => exact ⟨h, rfl⟩
  | some pid =>
    simp only []
    cases s.findTable pid with
    | some i => exact ⟨h, rfl⟩
    | none =>
      simp only []
      cases s.findUnused with
      | none => exact ⟨h, rfl⟩
      | some i =>
        refine ⟨fun i' j => ?_, rfl⟩
        by_cases hi : i' = i
        · subst hi
          simp
        · simp only [Function.update_of_ne hi]
          exact h i' j

/-- No call finds a descriptor. -/
lemma NoDescriptors.getFd (h : NoDescriptors s) (fd : ℤ) :
    ∃ s', s.getFd fd = (s', none) ∧ NoDescriptors s' ∧ s'.vfs = s.vfs := by
  obtain ⟨hno, hvfs⟩ := h.getFileDescriptorTable
  unfold Syscalls.getFd
  rcases hcall : s.getFileDescriptorTable with ⟨s', _ | i⟩
  · rw [hcall] at hno hvfs
    exact ⟨s', rfl, hno, hvfs⟩
  · rw [hcall] at hno hvfs
    simp only []
    split_ifs
    · exact ⟨s', rfl, hno, hvfs⟩
    · refine ⟨s', ?_, hno, hvfs⟩
      rw [hno i]

/-- No step enters a descriptor in a table. -/
lemma NoDescriptors.syscallStep (h : NoDescriptors s) (resolve : ResolvePath W) (op : SyscallOp W) :
    ∃ s', syscallStep resolve s op = some s' ∧ NoDescriptors s' := by
  cases op with
  | switch pid => exact ⟨_, rfl, h⟩
  | openCall path flags =>
    refine ⟨_, rfl, ?_⟩
    cases path with
    | none => exact h
    | some path => exact h
  | readCall fd count =>
    obtain ⟨s', hcall, hno, -⟩ := h.getFd fd
    refine ⟨s', ?_, hno⟩
    simp only [Syscalls.syscallStep, syscallHandlerRead, hcall]
  | writeCall fd bytes =>
    obtain ⟨s', hcall, hno, -⟩ := h.getFd fd
    refine ⟨s', ?_, hno⟩
    simp only [Syscalls.syscallStep, syscallHandlerWrite, hcall]
  | closeCall fd =>
    obtain ⟨s', hcall, hno, -⟩ := h.getFd fd
    refine ⟨s', ?_, hno⟩
    simp only [Syscalls.syscallStep, syscallHandlerClose, hcall]
  | ioctlCall fd request argp =>
    obtain ⟨s', hcall, hno, -⟩ := h.getFd fd
    refine ⟨s', ?_, hno⟩
    simp only [Syscalls.syscallStep, syscallHandlerIoctl, hcall]
  | kernel change => exact ⟨_, rfl, h⟩

/-! ## Calls on a descriptor -/

/-- The calls of a process on an open descriptor. -/
inductive FileCall where
  | read (count : ℕ)
  | write (bytes : List UInt8)
  | close

/-- A call, as a system call. -/
def doSyscall (s : Syscalls W) (fd : ℤ) : FileCall → Syscalls W × ℤ
  | .read count => s.syscallHandlerRead fd count
  | .write bytes => s.syscallHandlerWrite fd bytes
  | .close => s.syscallHandlerClose fd

/-- A call, as a call of the VFS. -/
def doVfs (v : Vfs W) (fd : ℤ) : FileCall → Vfs W × ℤ
  | .read count => ((v.vfsRead fd true count).1, (v.vfsRead fd true count).2.length)
  | .write bytes => ((v.vfsWrite fd (some bytes)).1, (v.vfsWrite fd (some bytes)).2)
  | .close => v.vfsClose fd

/-- The state of a descriptor: its offset, the size of its inode, and whether its slot is free. -/
def view (v : Vfs W) (fd : ℤ) : ℕ × ℕ × Bool :=
  ((v.descriptors fd.toNat).offset, (v.files.inodes (v.descriptors fd.toNat).inode).size,
    decide ((v.descriptors fd.toNat).refCount = 0))

/-- Every call has the same result and the same effect on the descriptor, as a system call and as a call
of the VFS. -/
def Agrees (fd : ℤ) : Syscalls W → Vfs W → List FileCall → Prop
  | _, _, [] => True
  | s, v, call :: calls =>
    (s.doSyscall fd call).2 = (doVfs v fd call).2 ∧
      view (s.doSyscall fd call).1.vfs fd = view (doVfs v fd call).1 fd ∧
      Agrees fd (s.doSyscall fd call).1 (doVfs v fd call).1 calls

/-- A system call on a descriptor fails. -/
lemma NoDescriptors.doSyscall (h : NoDescriptors s) (fd : ℤ) (call : FileCall) :
    (s.doSyscall fd call).2 = -1 := by
  obtain ⟨s', hcall, -, -⟩ := h.getFd fd
  cases call with
  | read count => simp only [Syscalls.doSyscall, syscallHandlerRead, hcall]
  | write bytes => simp only [Syscalls.doSyscall, syscallHandlerWrite, hcall]
  | close => simp only [Syscalls.doSyscall, syscallHandlerClose, hcall]

/-- A call of the VFS on an open descriptor does not fail. -/
lemma doVfs_ne_neg {v : Vfs W} {fd : ℤ} (h : v.IsOpen fd) (call : FileCall) :
    (doVfs v fd call).2 ≠ -1 := by
  cases call with
  | read count =>
    rw [doVfs]
    omega
  | write bytes =>
    rw [doVfs]
    omega
  | close =>
    rw [doVfs]
    rcases Vfs.vfsClose_cases v fd with ⟨hnot, -⟩ | ⟨-, hzero, -⟩
    · exact absurd h hnot
    · rw [hzero]
      omega

/-- A descriptor that `open` returned is open. -/
lemma isOpen_of_open {path : Option CString} {flags : ℕ} {fd : ℤ} {s' : Syscalls W}
    (h : syscallHandlerOpen resolve s path flags = (s', fd)) (hfd : 0 ≤ fd) : s'.vfs.IsOpen fd := by
  cases path with
  | none =>
    obtain ⟨-, rfl⟩ := Prod.mk.inj h
    omega
  | some path =>
    have hcases := Vfs.vfsOpen_cases resolve s.vfs path flags
    rcases hcall : Vfs.vfsOpen resolve s.vfs path flags with ⟨v, fd'⟩
    rw [hcall] at hcases
    rw [syscallHandlerOpen, hcall] at h
    obtain ⟨rfl, rfl⟩ := Prod.mk.inj h
    rcases hcases with ⟨rfl, -⟩ | ⟨_, inode, ops, i, hi, -, -, rfl, hdesc⟩
    · omega
    · rw [Vfs.isOpen_natCast hi, hdesc, Function.update_self]
      simp [Vfs.opened]

/-- For every state that is reached, every process and every descriptor that it opens: the calls on the
descriptor agree with the functions of the VFS only if there are none. -/
theorem agrees_iff_nil (resolve : ResolvePath W) (v : Vfs W) (ops : List (SyscallOp W)) :
    ∃ s, Run.exec (syscallStep resolve) (start v) ops = some s ∧
      ∀ path flags s' fd, syscallHandlerOpen resolve s path flags = (s', fd) → 0 ≤ fd →
        ∀ calls, Agrees fd s' s'.vfs calls ↔ calls = [] := by
  have hfollows : Run.Follows (syscallStep resolve) (fun _ _ => True) (start v) ops := by
    rw [Run.follows_iff]
    intros
    trivial
  obtain ⟨s, hexec, hs⟩ := Run.exec_of_step (fun s op (hs : NoDescriptors s) _ => hs.syscallStep resolve op)
    (fun _ _ => rfl : NoDescriptors (start v)) hfollows
  refine ⟨s, hexec, fun path flags s' fd hopen hfd calls => ⟨fun hagrees => ?_, fun hnil => ?_⟩⟩
  · cases calls with
    | nil => rfl
    | cons call calls =>
      have hs' : NoDescriptors s' := by
        obtain ⟨s₁, hstep, hs₁⟩ := hs.syscallStep resolve (.openCall path flags)
        rw [Syscalls.syscallStep, hopen, Option.some.injEq] at hstep
        obtain rfl : s' = s₁ := hstep
        exact hs₁
      have hresult := hagrees.1
      rw [hs'.doSyscall fd call] at hresult
      exact absurd hresult.symm (doVfs_ne_neg (isOpen_of_open hopen hfd) call)
  · rw [hnil]
    trivial

/-- The process with PID 1, in a state in which nothing was opened. -/
def firstProcess : Syscalls Unit :=
  { start (Vfs.vfsInit { world := (), inodes := fun _ => {} }) with current := some 1 }

/-- A process opens a file and reads it: the system call returns -1, and `vfs_read` the 4 bytes. -/
theorem not_agrees_read :
    ∃ s', syscallHandlerOpen Vfs.nameFs firstProcess (some [104, 111, 109, 101]) 1 = (s', 0) ∧
      ¬ Agrees 0 s' s'.vfs [.read 4] := by
  have hfd : (syscallHandlerOpen Vfs.nameFs firstProcess (some [104, 111, 109, 101]) 1).2 = 0 := by
    decide +kernel
  have hresult : (doSyscall (syscallHandlerOpen Vfs.nameFs firstProcess
        (some [104, 111, 109, 101]) 1).1 0 (.read 4)).2 ≠
      (doVfs (syscallHandlerOpen Vfs.nameFs firstProcess
        (some [104, 111, 109, 101]) 1).1.vfs 0 (.read 4)).2 := by
    decide +kernel
  generalize syscallHandlerOpen Vfs.nameFs firstProcess (some [104, 111, 109, 101]) 1 = r
    at hfd hresult ⊢
  obtain ⟨s', fd⟩ := r
  obtain rfl : fd = 0 := hfd
  exact ⟨s', rfl, fun hagrees => hresult hagrees.1⟩

end Syscalls

end Jarvis
