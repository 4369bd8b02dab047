import JarvisKernel.Ext4.Balance

set_option relaxedAutoImplicit false
set_option autoImplicit false

/-!
# Reading files

`ext4_file_read` copies the bytes of a file block by block, up to the first hole and within the direct
blocks. The end of what is read is a sum of 32 bits. If it overflows, the size is not reduced to what the
file has; and if nothing is to be read at offset 0, the last block is the one of the last address there is.

The filesystem and the inode, which the code takes from the same pointer, are the records that they are
meant to be.

## Main definitions

* `Jarvis.Volume.ext4FileRead` — the function.
* `Jarvis.Ext4.fileByte` — the bytes of a file.
* `Jarvis.Volume.FileRead` — what is wanted of it.

## Main results

* `Jarvis.Ext4.fileReadLoop_eq` — the loop.
* `Jarvis.Volume.fileRead_iff` — what is wanted holds unless the sum overflows.
-/

namespace Jarvis

open ByteBuffer

namespace Ext4

variable {fs : Ext4} {inode scratch buffer : ℕ → BitVec 8} {i j offset rounds stop : ℕ}

/-! ## The function -/

/-- The loop of `ext4_file_read` from block `i` on: the buffer, and `bytes_read`. -/
def fileReadLoop (fs : Ext4) (inode scratch : ℕ → BitVec 8) (size startBlock endBlock startOffset : ℕ) :
    ℕ → ℕ → (ℕ → BitVec 8) → ℕ → (ℕ → BitVec 8) × ℕ
  | 0, _, buffer, bytesRead => (buffer, bytesRead)
  | rounds + 1, i, buffer, bytesRead =>
    if endBlock < i ∨ 12 ≤ i ∨ inodeBlock inode i = 0 then (buffer, bytesRead)
    else
      let block := fs.readInto scratch (inodeBlock inode i)
      let first := if i = startBlock then startOffset else 0
      let copySize := if i = endBlock then Word32.sub size bytesRead else fs.blockSize - first
      fileReadLoop fs inode scratch size startBlock endBlock startOffset rounds (i + 1)
        (copy buffer bytesRead (fun k => block (first + k)) copySize) (Word32.add bytesRead copySize)

/-! ## The loop -/

/-- Byte `j` of a file. -/
def fileByte (fs : Ext4) (inode : ℕ → BitVec 8) (j : ℕ) : BitVec 8 :=
  fs.ext4ReadBlock (inodeBlock inode (j / fs.blockSize)) (j % fs.blockSize)

/-- The first block from `i` on that is a hole or not a direct block. -/
def blocksEnd (inode : ℕ → BitVec 8) : ℕ → ℕ → ℕ
  | 0, i => i
  | rounds + 1, i => if 12 ≤ i ∨ inodeBlock inode i = 0 then i else blocksEnd inode rounds (i + 1)

/-- The loop ends behind its start. -/
lemma le_blocksEnd (inode : ℕ → BitVec 8) (rounds i : ℕ) : i ≤ blocksEnd inode rounds i := by
  induction rounds generalizing i with
  | zero => exact le_rfl
  | succ rounds ih =>
    rw [blocksEnd]
    split_ifs
    · exact le_rfl
    · exact (Nat.le_succ i).trans (ih (i + 1))

/-- How many bytes there are from `offset` to `stop` in the blocks before block `i`. -/
def bytesBefore (fs : Ext4) (offset stop i : ℕ) : ℕ := min stop (max offset (i * fs.blockSize)) - offset

/-- There are more bytes before a later block. -/
lemma bytesBefore_mono {k : ℕ} (h : i ≤ k) : bytesBefore fs offset stop i ≤ bytesBefore fs offset stop k := by
  have hmul : i * fs.blockSize ≤ k * fs.blockSize := Nat.mul_le_mul_right _ h
  rw [bytesBefore, bytesBefore]
  omega

/-- All bytes are in the blocks up to the last one. -/
lemma bytesBefore_behind {k : ℕ} (hpos : 0 < fs.blockSize) (hi : i = (stop - 1) / fs.blockSize + 1)
    (h : i ≤ k) : bytesBefore fs offset stop k = stop - offset := by
  have hdiv := Nat.lt_mul_div_succ (stop - 1) hpos
  have hmul : i * fs.blockSize ≤ k * fs.blockSize := Nat.mul_le_mul_right _ h
  rw [← hi, Nat.mul_comm] at hdiv
  rw [bytesBefore]
  omega

/-- Quotient and remainder of a place in block `i`. -/
lemma div_mod_of_place {b n i r : ℕ} (h : n = i * b + r) (hr : r < b) : n / b = i ∧ n % b = r := by
  subst h
  rw [Nat.mul_comm, Nat.mul_add_div (by omega), Nat.mul_add_mod, Nat.div_eq_of_lt hr,
    Nat.mod_eq_of_lt hr]
  exact ⟨rfl, rfl⟩

/-- One round of the loop copies the bytes of the file that are in block `i`. -/
lemma copy_block (inode scratch : ℕ → BitVec 8) (hpos : 0 < fs.blockSize)
    (hlt : fs.blockSize < 2 ^ 32) (hoffset : offset < stop)
    (hstop : stop ≤ 2 ^ 32) (hi : offset / fs.blockSize ≤ i) (hend : i ≤ (stop - 1) / fs.blockSize)
    (first copySize : ℕ) (hfirst : first = if i = offset / fs.blockSize then offset % fs.blockSize else 0)
    (hcopy : copySize = if i = (stop - 1) / fs.blockSize then
        Word32.sub ((stop - offset) % 2 ^ 32) (bytesBefore fs offset stop i) else fs.blockSize - first) :
    bytesBefore fs offset stop i < 2 ^ 32 ∧
      bytesBefore fs offset stop i + copySize = bytesBefore fs offset stop (i + 1) ∧
      ∀ j, bytesBefore fs offset stop i ≤ j → j < bytesBefore fs offset stop (i + 1) →
        (fs.readInto scratch (inodeBlock inode i)) (first + (j - bytesBefore fs offset stop i)) =
          fs.fileByte inode (offset + j) := by
  have hdiv := Nat.div_add_mod offset fs.blockSize
  have hmod := Nat.mod_lt offset hpos
  have hdiv' := Nat.div_add_mod (stop - 1) fs.blockSize
  have hmod' := Nat.mod_lt (stop - 1) hpos
  have hle : i * fs.blockSize ≤ (stop - 1) / fs.blockSize * fs.blockSize := Nat.mul_le_mul_right _ hend
  have hge : offset / fs.blockSize * fs.blockSize ≤ i * fs.blockSize := Nat.mul_le_mul_right _ hi
  rw [Nat.mul_comm] at hdiv hdiv'
  have hsucc : (i + 1) * fs.blockSize = i * fs.blockSize + fs.blockSize := Nat.succ_mul _ _
  -- where the bytes of block `i` begin and end
  have hbegin : offset + bytesBefore fs offset stop i = i * fs.blockSize + first := by
    rw [bytesBefore, hfirst]
    split_ifs with hstart
    · rw [← hstart] at hdiv
      omega
    · have hnext : (offset / fs.blockSize + 1) * fs.blockSize ≤ i * fs.blockSize :=
        Nat.mul_le_mul_right _ (by omega)
      rw [Nat.succ_mul] at hnext
      omega
  have hbefore : bytesBefore fs offset stop i < stop - offset := by
    rw [bytesBefore]
    omega
  have hfirstlt : first < fs.blockSize := by
    rw [hfirst]
    split_ifs <;> omega
  have hfinish : offset + bytesBefore fs offset stop (i + 1) = min stop (i * fs.blockSize + fs.blockSize) := by
    rw [bytesBefore, hsucc]
    omega
  refine ⟨by omega, ?_, fun j hge hlt => ?_⟩
  · rw [hcopy]
    split_ifs with hlast
    · rw [← hlast] at hdiv'
      rw [Word32.sub]
      omega
    · have hnext : (i + 1) * fs.blockSize ≤ (stop - 1) / fs.blockSize * fs.blockSize :=
        Nat.mul_le_mul_right _ (by omega)
      omega
  · obtain ⟨hblock, hplace⟩ := div_mod_of_place (n := offset + j) (b := fs.blockSize) (i := i)
      (r := first + (j - bytesBefore fs offset stop i)) (by omega) (by omega)
    rw [fileByte, hblock, hplace, readInto, if_pos (by omega)]

/-- A round of the loop, in a block that is not a hole. -/
lemma fileReadLoop_round (inode scratch buffer : ℕ → BitVec 8) (rounds : ℕ) (hpos : 0 < fs.blockSize)
    (hlt : fs.blockSize < 2 ^ 32) (hoffset : offset < stop)
    (hstop : stop ≤ 2 ^ 32) (hi : offset / fs.blockSize ≤ i) (hend : i ≤ (stop - 1) / fs.blockSize)
    (hblock : ¬ (12 ≤ i ∨ inodeBlock inode i = 0)) :
    fs.fileReadLoop inode scratch ((stop - offset) % 2 ^ 32) (offset / fs.blockSize)
        ((stop - 1) / fs.blockSize) (offset % fs.blockSize) (rounds + 1) i buffer
        (bytesBefore fs offset stop i % 2 ^ 32) =
      fs.fileReadLoop inode scratch ((stop - offset) % 2 ^ 32) (offset / fs.blockSize)
        ((stop - 1) / fs.blockSize) (offset % fs.blockSize) rounds (i + 1)
        (fun j =>
          if bytesBefore fs offset stop i ≤ j ∧ j < bytesBefore fs offset stop (i + 1) then
            fs.fileByte inode (offset + j)
          else buffer j)
        (bytesBefore fs offset stop (i + 1) % 2 ^ 32) := by
  obtain ⟨hbefore, hcopied, hbytes⟩ := copy_block inode scratch hpos hlt hoffset hstop hi hend _ _ rfl rfl
  rw [fileReadLoop, if_neg (by rintro (h | h); exacts [by omega, hblock h])]
  simp only [Nat.mod_eq_of_lt hbefore]
  generalize (if i = (stop - 1) / fs.blockSize then _ else _) = copySize at hcopied ⊢
  have hadd : Word32.add (bytesBefore fs offset stop i) copySize =
      bytesBefore fs offset stop (i + 1) % 2 ^ 32 := by
    rw [← hcopied, Word32.add, Nat.add_comm]
  rw [hadd]
  congr 1
  funext j
  rw [copy, hcopied]
  exact ite_congr rfl (fun hj => hbytes j hj.1 hj.2) fun _ => rfl

/-- Bytes that are written to two parts of a buffer, one behind the other. -/
lemma ite_range {first mid last j : ℕ} (hfirst : first ≤ mid) (hmid : mid ≤ last) (x y : BitVec 8) :
    (if mid ≤ j ∧ j < last then x else if first ≤ j ∧ j < mid then x else y) =
      if first ≤ j ∧ j < last then x else y := by
  by_cases hj : mid ≤ j
  · rw [if_neg (c := first ≤ j ∧ j < mid) (by omega)]
    exact ite_congr (by rw [eq_iff_iff]; omega) (fun _ => rfl) fun _ => rfl
  · rw [if_neg (c := mid ≤ j ∧ j < last) (by omega)]
    exact ite_congr (by rw [eq_iff_iff]; omega) (fun _ => rfl) fun _ => rfl

/-- **The loop** copies what is left of the file from `offset` to `stop`, up to the first hole.

**Proof sketch.** By induction on the rounds that are left. The bytes before block `i` have been copied;
a round copies those of block `i`. -/
lemma fileReadLoop_eq (inode scratch buffer : ℕ → BitVec 8) (rounds : ℕ) (hpos : 0 < fs.blockSize)
    (hlt : fs.blockSize < 2 ^ 32) (hoffset : offset < stop)
    (hstop : stop ≤ 2 ^ 32) (hi : offset / fs.blockSize ≤ i)
    (hend : i ≤ (stop - 1) / fs.blockSize + 1) :
    fs.fileReadLoop inode scratch ((stop - offset) % 2 ^ 32) (offset / fs.blockSize)
        ((stop - 1) / fs.blockSize) (offset % fs.blockSize) rounds i buffer
        (bytesBefore fs offset stop i % 2 ^ 32) =
      (fun j =>
          if bytesBefore fs offset stop i ≤ j ∧ j < bytesBefore fs offset stop (blocksEnd inode rounds i)
          then fs.fileByte inode (offset + j) else buffer j,
        bytesBefore fs offset stop (blocksEnd inode rounds i) % 2 ^ 32) := by
  induction rounds generalizing i buffer with
  | zero =>
    rw [fileReadLoop, blocksEnd]
    refine Prod.ext (funext fun j => ?_) rfl
    dsimp only
    rw [if_neg (by omega)]
  | succ rounds ih =>
    by_cases hlast : i = (stop - 1) / fs.blockSize + 1
    · -- all bytes have been copied
      rw [fileReadLoop, if_pos (.inl (by omega)), bytesBefore_behind hpos hlast le_rfl,
        bytesBefore_behind hpos hlast (le_blocksEnd inode (rounds + 1) i)]
      refine Prod.ext (funext fun j => ?_) rfl
      dsimp only
      rw [if_neg (by omega)]
    by_cases hhole : 12 ≤ i ∨ inodeBlock inode i = 0
    · rw [fileReadLoop, blocksEnd, if_pos (.inr hhole), if_pos hhole]
      refine Prod.ext (funext fun j => ?_) rfl
      dsimp only
      rw [if_neg (by omega)]
    · rw [fileReadLoop_round inode scratch buffer rounds hpos hlt hoffset hstop hi (by omega) hhole,
        ih _ (by omega) (by omega), blocksEnd, if_neg hhole]
      refine Prod.ext (funext fun j => ?_) rfl
      exact ite_range (bytesBefore_mono (Nat.le_succ i))
        (bytesBefore_mono (le_blocksEnd inode rounds (i + 1))) _ _

/-- The loop from the first block on. -/
lemma fileReadLoop_start (hpos : 0 < fs.blockSize) (hlt : fs.blockSize < 2 ^ 32) (hoffset : offset < stop)
    (hstop : stop ≤ 2 ^ 32) :
    fs.fileReadLoop inode scratch ((stop - offset) % 2 ^ 32) (offset / fs.blockSize)
        ((stop - 1) / fs.blockSize) (offset % fs.blockSize) rounds (offset / fs.blockSize) buffer 0 =
      (fun j =>
          if j < bytesBefore fs offset stop (blocksEnd inode rounds (offset / fs.blockSize)) then
            fs.fileByte inode (offset + j)
          else buffer j,
        bytesBefore fs offset stop (blocksEnd inode rounds (offset / fs.blockSize)) % 2 ^ 32) := by
  have hle : offset / fs.blockSize ≤ (stop - 1) / fs.blockSize :=
    Nat.div_le_div_right (Nat.le_sub_one_of_lt hoffset)
  have hzero : bytesBefore fs offset stop (offset / fs.blockSize) = 0 := by
    have hmul := Nat.div_mul_le_self offset fs.blockSize
    rw [bytesBefore]
    omega
  have hloop := fileReadLoop_eq inode scratch buffer rounds hpos hlt hoffset hstop le_rfl
    (Nat.le_succ_of_le hle)
  rw [hzero, Nat.zero_mod] at hloop
  simpa only [Nat.zero_le, true_and] using hloop

/-- No block is read if the first one is a hole or behind the last one. -/
lemma fileReadLoop_none {size first last start : ℕ}
    (h : last < start ∨ blocksEnd inode (rounds + 1) start = start) :
    fs.fileReadLoop inode scratch size start last first (rounds + 1) start buffer 0 = (buffer, 0) := by
  rw [fileReadLoop]
  rw [if_pos]
  rcases h with h | h
  · exact .inl h
  · right
    by_contra hnot
    rw [blocksEnd, if_neg hnot] at h
    have := le_blocksEnd inode rounds (start + 1)
    omega

/-- If the last block is the first one, all that is asked for is copied from it. -/
lemma fileReadLoop_single {size first start : ℕ} (hsize : size < 2 ^ 32)
    (h : blocksEnd inode (rounds + 2) start ≠ start) :
    fs.fileReadLoop inode scratch size start start first (rounds + 2) start buffer 0 =
      (copy buffer 0 (fun k => fs.readInto scratch (inodeBlock inode start) (first + k)) size, size) := by
  have hblock : ¬ (12 ≤ start ∨ inodeBlock inode start = 0) := by
    intro hhole
    rw [blocksEnd, if_pos hhole] at h
    exact h rfl
  have hsub : Word32.sub size 0 = size := by
    rw [Word32.sub]
    omega
  have hadd : Word32.add 0 size = size := by
    rw [Word32.add]
    omega
  rw [fileReadLoop, if_neg (by rintro (h | h); exacts [by omega, hblock h])]
  simp only [if_true, hsub, hadd]
  rw [fileReadLoop, if_pos (.inl (Nat.lt_succ_self start))]

end Ext4

namespace Volume

open Ext4

variable {v : Volume} {inode : ℕ → BitVec 8} {size offset : ℕ}

/-- `ext4_file_read`, of an inode: the buffer, and how many bytes were read. There is no result if it
divides by zero. -/
def ext4FileRead (v : Volume) (inode buffer : ℕ → BitVec 8) (size offset : ℕ) :
    Option (Volume × (ℕ → BitVec 8) × ℕ) :=
  let fileSize := get32 inode 4
  if fileSize ≤ offset then some (v, buffer, 0)
  else
    let size := if fileSize < Word32.add offset size then fileSize - offset else size
    let blockSize := v.fs.blockSize
    if blockSize = 0 then none
    else
      match v.malloc with
      | (v, none) => some (v, buffer, 0)
      | (v, some scratch) =>
        some (v, v.fs.fileReadLoop inode scratch size (offset / blockSize)
          (Word32.sub (Word32.add offset size) 1 / blockSize) (offset % blockSize) 12
          (offset / blockSize) buffer 0)

/-! ## What is wanted -/

/-- What is wanted of a result, for a file with the given bytes: no more bytes are read than were asked
for and than there are, they are those of the file, and the rest of the buffer stays as it is. -/
structure IsRead (file : ℕ → BitVec 8) (fileSize : ℕ) (buffer : ℕ → BitVec 8) (size offset : ℕ)
    (result : (ℕ → BitVec 8) × ℕ) : Prop where
  le_size : result.2 ≤ size
  le_file : result.2 ≤ fileSize - offset
  bytes : ∀ j < result.2, result.1 j = file (offset + j)
  rest : ∀ j, result.2 ≤ j → result.1 j = buffer j

/-- What is wanted of `ext4_file_read`, whatever is in the buffer. -/
def FileRead (v : Volume) (inode : ℕ → BitVec 8) (size offset : ℕ) : Prop :=
  ∀ buffer, ∃ v' result, v.ext4FileRead inode buffer size offset = some (v', result) ∧
    IsRead (v.fs.fileByte inode) (get32 inode 4) buffer size offset result

/-- If the sum of offset and size overflows, the last block must be before the first one, or there must
be no block to read; if it is `2 ^ 32`, the file must go on to the end of what is read. Of no bytes at
offset 0 there must be no first block. -/
def sumFits (fs : Ext4) (inode : ℕ → BitVec 8) (size offset : ℕ) : Bool :=
  let start := offset / fs.blockSize
  let stop := blocksEnd inode 12 start
  if 2 ^ 32 < offset + size then
    decide ((offset + size - 2 ^ 32 - 1) / fs.blockSize < start ∨ stop = start)
  else if offset + size = 2 ^ 32 then decide (stop * fs.blockSize ≤ get32 inode 4)
  else decide (size ≠ 0 ∨ offset ≠ 0 ∨ stop = 0)

/-- The condition for `ext4_file_read` to do what is wanted. -/
def readsFile (v : Volume) (inode : ℕ → BitVec 8) (size offset : ℕ) : Bool :=
  decide (get32 inode 4 ≤ offset) ||
    decide (v.fs.blockSize ≠ 0) &&
      (!v.fs.memory v.fs.mallocs || sumFits v.fs inode size offset)

/-- Nothing is read at first. -/
lemma isRead_zero (file : ℕ → BitVec 8) (fileSize : ℕ) (buffer : ℕ → BitVec 8) (size offset : ℕ) :
    IsRead file fileSize buffer size offset (buffer, 0) :=
  ⟨Nat.zero_le _, Nat.zero_le _, fun _ hj => absurd hj (Nat.not_lt_zero _), fun _ _ => rfl⟩

/-- What was read of the file is as wanted iff it is not too much. -/
lemma isRead_iff {file : ℕ → BitVec 8} {fileSize count : ℕ} (hsize : size < 2 ^ 32)
    (hcount : count ≤ 2 ^ 32) :
    (∀ buffer, IsRead file fileSize buffer size offset
        (fun j => if j < count then file (offset + j) else buffer j, count % 2 ^ 32)) ↔
      count ≤ size ∧ count ≤ fileSize - offset := by
  constructor
  · intro hall
    by_cases hlt : count < 2 ^ 32
    · have hread := hall fun _ => 0
      rw [Nat.mod_eq_of_lt hlt] at hread
      exact ⟨hread.le_size, hread.le_file⟩
    · -- no bytes are counted, and the first one is written
      obtain rfl : count = 2 ^ 32 := by omega
      have hrest := (hall fun _ => file offset + 1).rest 0 (Nat.le_refl 0)
      dsimp only at hrest
      rw [if_pos (by omega), Nat.add_zero] at hrest
      exfalso
      revert hrest
      generalize file offset = byte
      revert byte
      decide
  · rintro ⟨hle, hle'⟩ buffer
    rw [Nat.mod_eq_of_lt (by omega)]
    exact ⟨hle, hle', fun j hj => if_pos hj, fun j hj => if_neg (by omega)⟩

/-- What is wanted of the loop, for `count` bytes up to the last block. -/
def LoopReads (fs : Ext4) (inode scratch : ℕ → BitVec 8) (size offset count last : ℕ) : Prop :=
  ∀ buffer, IsRead (fs.fileByte inode) (get32 inode 4) buffer size offset
    (fs.fileReadLoop inode scratch count (offset / fs.blockSize) last (offset % fs.blockSize) 12
      (offset / fs.blockSize) buffer 0)

section Loop

variable {fs : Ext4} {scratch : ℕ → BitVec 8} {count last : ℕ}

/-- What is read if the last byte that is asked for is before `stop`. -/
lemma loopReads_iff (inode scratch : ℕ → BitVec 8) (hpos : 0 < fs.blockSize)
    (hlt : fs.blockSize < 2 ^ 32) (hsize : size < 2 ^ 32) {stop : ℕ} (hstart : offset < stop)
    (hstop : stop ≤ 2 ^ 32) :
    LoopReads fs inode scratch size offset ((stop - offset) % 2 ^ 32) ((stop - 1) / fs.blockSize) ↔
      bytesBefore fs offset stop (blocksEnd inode 12 (offset / fs.blockSize)) ≤ size ∧
        bytesBefore fs offset stop (blocksEnd inode 12 (offset / fs.blockSize)) ≤ get32 inode 4 - offset := by
  rw [← isRead_iff hsize (show bytesBefore fs offset stop
    (blocksEnd inode 12 (offset / fs.blockSize)) ≤ 2 ^ 32 by rw [bytesBefore]; omega)]
  exact forall_congr' fun buffer => by rw [fileReadLoop_start hpos hlt hstart hstop]

/-- Nothing is read if the last block is before the first one, or there is no block, or nothing is asked
for. -/
lemma loopReads_of_none (hle : last ≤ offset / fs.blockSize)
    (hnone : count = 0 ∨ last < offset / fs.blockSize ∨
      blocksEnd inode 12 (offset / fs.blockSize) = offset / fs.blockSize) :
    LoopReads fs inode scratch size offset count last := by
  intro buffer
  by_cases hblock : last < offset / fs.blockSize ∨
      blocksEnd inode 12 (offset / fs.blockSize) = offset / fs.blockSize
  · rw [fileReadLoop_none hblock]
    exact isRead_zero _ _ buffer size offset
  · obtain rfl := hnone.resolve_right hblock
    push Not at hblock
    rw [Nat.le_antisymm hle hblock.1, fileReadLoop_single (by omega) hblock.2, copy_zero]
    exact isRead_zero _ _ buffer size offset

/-- All that is asked for is read from one block, whether the file has it or not. -/
lemma LoopReads.le_file (h : LoopReads fs inode scratch size offset count last) (hcount : count < 2 ^ 32)
    (hle : last ≤ offset / fs.blockSize)
    (hblock : ¬ (last < offset / fs.blockSize ∨
      blocksEnd inode 12 (offset / fs.blockSize) = offset / fs.blockSize)) :
    count ≤ get32 inode 4 - offset := by
  push Not at hblock
  have hread := (h fun _ => 0).le_file
  rw [Nat.le_antisymm hle hblock.1, fileReadLoop_single hcount hblock.2] at hread
  exact hread

/-- The sum overflows, and is less than the offset. -/
lemma loopReads_overflow_iff (hsize : size < 2 ^ 32) (hoffset : offset < get32 inode 4)
    (hover : 2 ^ 32 < offset + size) :
    LoopReads fs inode scratch size offset size ((offset + size - 2 ^ 32 - 1) / fs.blockSize) ↔
      (offset + size - 2 ^ 32 - 1) / fs.blockSize < offset / fs.blockSize ∨
        blocksEnd inode 12 (offset / fs.blockSize) = offset / fs.blockSize := by
  have hfile := get32_lt inode 4
  have hle : (offset + size - 2 ^ 32 - 1) / fs.blockSize ≤ offset / fs.blockSize :=
    Nat.div_le_div_right (by omega)
  refine ⟨fun hall => ?_, fun hnone => loopReads_of_none hle (.inr hnone)⟩
  by_contra hblock
  have htoo := hall.le_file hsize hle hblock
  omega

/-- The sum is `2 ^ 32`, or nothing is asked for at offset 0: the last byte is the last one of all
addresses. -/
lemma loopReads_max_iff (hpos : 0 < fs.blockSize) (hlt : fs.blockSize < 2 ^ 32) (hsize : size < 2 ^ 32)
    (hoffset : offset < get32 inode 4) (hsum : (2 ^ 32 - offset) % 2 ^ 32 = size) :
    LoopReads fs inode scratch size offset size ((2 ^ 32 - 1) / fs.blockSize) ↔
      if offset = 0 then blocksEnd inode 12 0 = 0
      else blocksEnd inode 12 (offset / fs.blockSize) * fs.blockSize ≤ get32 inode 4 := by
  have hfile := get32_lt inode 4
  have hend' : offset / fs.blockSize * fs.blockSize ≤
      blocksEnd inode 12 (offset / fs.blockSize) * fs.blockSize :=
    Nat.mul_le_mul_right _ (le_blocksEnd inode 12 (offset / fs.blockSize))
  have hstop := loopReads_iff inode scratch hpos hlt hsize
    (show offset < 2 ^ 32 by omega) le_rfl
  rw [hsum] at hstop
  refine hstop.trans ?_
  split_ifs with hzero
  · subst hzero
    rw [bytesBefore, Nat.zero_div]
    have hblocks : blocksEnd inode 12 0 * fs.blockSize = 0 ↔ blocksEnd inode 12 0 = 0 := by
      rw [Nat.mul_eq_zero, or_iff_left (by omega)]
    omega
  · rw [bytesBefore]
    omega

/-- The last byte that is asked for is within the file. -/
lemma loopReads_within (hpos : 0 < fs.blockSize) (hlt : fs.blockSize < 2 ^ 32) (hsize : size < 2 ^ 32)
    (hoffset : offset < get32 inode 4) (hzero : size ≠ 0) :
    LoopReads fs inode scratch size offset (min size (get32 inode 4 - offset))
      ((offset + min size (get32 inode 4 - offset) - 1) / fs.blockSize) := by
  have hfile := get32_lt inode 4
  have hstop := loopReads_iff inode scratch hpos hlt hsize
    (show offset < offset + min size (get32 inode 4 - offset) by omega) (by omega)
  rw [Nat.add_sub_cancel_left, Nat.mod_eq_of_lt (by omega)] at hstop
  refine hstop.2 ?_
  rw [bytesBefore]
  omega

end Loop

/-- **The loop reads what is wanted** iff the sum of offset and size fits, or does no harm. -/
lemma fileReadLoop_iff (fs : Ext4) (inode scratch : ℕ → BitVec 8) (hpos : 0 < fs.blockSize)
    (hlt : fs.blockSize < 2 ^ 32) (hsize : size < 2 ^ 32) (hoffset : offset < get32 inode 4) :
    LoopReads fs inode scratch size offset
        (if get32 inode 4 < Word32.add offset size then get32 inode 4 - offset else size)
        (Word32.sub (Word32.add offset
          (if get32 inode 4 < Word32.add offset size then get32 inode 4 - offset else size)) 1 /
            fs.blockSize) ↔
      sumFits fs inode size offset = true := by
  have hfile := get32_lt inode 4
  have hadd : Word32.add offset size = (offset + size) % 2 ^ 32 := by rw [Word32.add, Nat.add_comm]
  rw [sumFits, hadd]
  by_cases hover : 2 ^ 32 < offset + size
  · have hsum : (offset + size) % 2 ^ 32 = offset + size - 2 ^ 32 := by omega
    have hsub : Word32.sub (offset + size - 2 ^ 32) 1 = offset + size - 2 ^ 32 - 1 :=
      Word32.sub_of_le (by omega) (by omega)
    rw [hsum, if_neg (by omega), hadd, hsum, if_pos hover, hsub, decide_eq_true_iff]
    exact loopReads_overflow_iff hsize hoffset hover
  rw [if_neg hover]
  by_cases hmax : offset + size = 2 ^ 32
  · rw [hmax, Nat.mod_self, if_neg (by omega), hadd, hmax, Nat.mod_self, if_pos rfl, decide_eq_true_iff]
    refine (loopReads_max_iff hpos hlt hsize hoffset (by omega)).trans ?_
    rw [if_neg (by omega)]
  rw [if_neg hmax, Nat.mod_eq_of_lt (by omega), decide_eq_true_iff]
  by_cases hzero : size = 0
  · subst hzero
    rw [if_neg (by omega), hadd, Nat.add_zero, Nat.mod_eq_of_lt (by omega)]
    by_cases hstart : offset = 0
    · subst hstart
      refine (loopReads_max_iff hpos hlt hsize hoffset (by omega)).trans ?_
      rw [if_pos rfl, Nat.zero_div]
      omega
    · -- nothing is copied from the block of the byte before
      refine iff_of_true ?_ (.inr (.inl hstart))
      rw [Word32.sub_of_le (by omega) (by omega)]
      exact loopReads_of_none (Nat.div_le_div_right (by omega)) (.inl rfl)
  · refine iff_of_true ?_ (.inl hzero)
    have hclamp : (if get32 inode 4 < offset + size then get32 inode 4 - offset else size) =
        min size (get32 inode 4 - offset) := by
      split_ifs <;> omega
    rw [hclamp, Word32.add_of_lt (by omega), Word32.sub_of_le (by omega) (by omega)]
    exact loopReads_within hpos hlt hsize hoffset hzero

/-- **A file is read as wanted** exactly if the sum of offset and size fits, or does no harm.

**Proof sketch.** Up to the first hole, the loop copies the bytes from the offset to the last one that is
asked for. This is also so if the sum is `2 ^ 32`, or 0, where the last byte is the last one of all
addresses; then the file has to go on to the end of the blocks that are copied. A sum that overflows
further is in front of the offset, and either no block is copied or more than the file has. -/
theorem fileRead_iff (v : Volume) (hsize : v.fs.blockSize < 2 ^ 32) (inode : ℕ → BitVec 8)
    (size offset : ℕ) (hword : size < 2 ^ 32) :
    v.FileRead inode size offset ↔ v.readsFile inode size offset = true := by
  rw [readsFile, Bool.or_eq_true, decide_eq_true_iff]
  by_cases hfile : get32 inode 4 ≤ offset
  · refine iff_of_true (fun buffer => ⟨v, (buffer, 0), if_pos hfile, ?_⟩) (.inl hfile)
    exact isRead_zero _ _ buffer size offset
  · rw [or_iff_right hfile, Bool.and_eq_true, decide_eq_true_iff]
    have hcall : ∀ buffer, v.ext4FileRead inode buffer size offset = _ := fun buffer => if_neg hfile
    by_cases hzero : v.fs.blockSize = 0
    · refine iff_of_false (fun hread => ?_) fun hall => hall.1 hzero
      obtain ⟨v', result, hsome, -⟩ := hread fun _ => 0
      rw [hcall, if_pos hzero] at hsome
      exact absurd hsome (by simp)
    · rw [and_iff_right hzero]
      cases hmemory : v.fs.memory v.fs.mallocs with
      | false =>
        refine iff_of_true (fun buffer => ⟨v.advance 1, (buffer, 0), ?_, ?_⟩) (by simp)
        · rw [hcall, if_neg hzero, malloc_of_false hmemory]
        · exact isRead_zero _ _ buffer size offset
      | true =>
        have hloop := fileReadLoop_iff (v.advance 1).fs inode (v.buffers v.fs.mallocs)
          (Nat.pos_of_ne_zero hzero) hsize hword (Nat.lt_of_not_le hfile)
        rw [Bool.not_true, Bool.false_or]
        refine Iff.trans (forall_congr' fun buffer => ?_) hloop
        rw [hcall, if_neg hzero, malloc_of_true hmemory]
        simp only [Option.some.injEq, Prod.mk.injEq]
        exact ⟨fun ⟨v', result, ⟨_, hresult⟩, hread⟩ => hresult ▸ hread,
          fun hread => ⟨v.advance 1, _, ⟨rfl, rfl⟩, hread⟩⟩

/-- The inode of a file with five bytes, in block 7. -/
def fiveBytes : ℕ → BitVec 8 := set32 (set32 (fun _ => 0) 4 5) 40 7

/-- A read of 9 bytes gets the three bytes of the file that lie behind offset 2. -/
theorem fileRead_iff_fileVolume : fileVolume.FileRead fiveBytes 9 2 :=
  (fileRead_iff fileVolume (by decide +kernel) fiveBytes 9 2 (by decide)).2 (by decide +kernel)

/-- To read nothing at offset 0 reads the whole block, and so does a size that ends at `2 ^ 32`. -/
theorem not_fileRead :
    ∃ (v : Volume) (inode : ℕ → BitVec 8), v.fs.blockSize < 2 ^ 32 ∧
      ¬ v.FileRead inode 0 0 ∧ ¬ v.FileRead inode 0xFFFFFFFF 1 := by
  have hcount : (fileVolume.ext4FileRead fiveBytes (fun _ => 0) 0 0).map (fun r => r.2.2) = some 1024 := by
    decide +kernel
  have hcount' : (fileVolume.ext4FileRead fiveBytes (fun _ => 0) 0xFFFFFFFF 1).map (fun r => r.2.2) =
      some 1023 := by decide +kernel
  refine ⟨fileVolume, fiveBytes, by decide +kernel, fun hread => ?_, fun hread => ?_⟩
  · obtain ⟨v', result, hcall, hresult⟩ := hread fun _ => 0
    have hle := hresult.le_size
    rw [hcall] at hcount
    have hresult' : result.2 = 1024 := Option.some.inj hcount
    rw [hresult'] at hle
    exact absurd hle (by decide)
  · obtain ⟨v', result, hcall, hresult⟩ := hread fun _ => 0
    have hle := hresult.le_file
    rw [hcall] at hcount'
    have hresult' : result.2 = 1023 := Option.some.inj hcount'
    rw [hresult'] at hle
    exact absurd hle (by decide +kernel)

end Volume

end Jarvis
