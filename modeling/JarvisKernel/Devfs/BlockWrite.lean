import JarvisKernel.Devfs.BlockRead

set_option relaxedAutoImplicit false
set_option autoImplicit false

/-!
# Writing block devices

`block_dev_write` of `src/fs/devfs.c` puts bytes on a device sector by sector. The first and the last sector
are read before, so that their other bytes are kept. The number of sectors is that of `block_dev_read`: a
range that needs one more is not written to its end.

## Main definitions

* `Jarvis.BlockDevice.blockDevWrite` — the function.
* `Jarvis.BlockDevice.WritesRange` — what is wanted of it.

## Main results

* `Jarvis.BlockDevice.Writes.blockWriteLoop` — the loop.
* `Jarvis.BlockDevice.writesRange_iff` — when what is wanted is written.
-/

namespace Jarvis

namespace BlockDevice

/-! ## The function -/

/-- `write`. -/
def writeSector (disk : ℕ → BitVec 8) (blockNum : ℕ) (buffer : ℕ → BitVec 8) : ℕ → BitVec 8 :=
  ByteBuffer.copy disk (512 * blockNum) buffer 512

/-- What `block_dev_write` has done: the bytes on the device, `sector_buffer` with what is behind it, and
`bytes_written`. -/
structure WriteState where
  disk : ℕ → BitVec 8
  sectorBuffer : ℕ → BitVec 8
  bytesWritten : ℕ

/-- A round of the loop of `block_dev_write`. -/
def blockWriteRound (d : BlockDevice) (buffer : ℕ → BitVec 8)
    (size startSector numSectors bufferOffset i : ℕ) (w : WriteState) : WriteState :=
  let sectorBuffer :=
    if i = 0 ∨ i = Word32.sub numSectors 1 then
      { d with disk := w.disk }.readSector w.sectorBuffer (Word32.add startSector i)
    else w.sectorBuffer
  let first := if i = 0 then bufferOffset else 0
  let copied := copySize size numSectors bufferOffset i w.bytesWritten
  let sectorBuffer := ByteBuffer.copy sectorBuffer first (fun k => buffer (w.bytesWritten + k)) copied
  { disk := writeSector w.disk (Word32.add startSector i) sectorBuffer
    sectorBuffer := sectorBuffer
    bytesWritten := Word32.add w.bytesWritten copied }

/-- The loop of `block_dev_write` from round `i` on. -/
def blockWriteLoop (d : BlockDevice) (buffer : ℕ → BitVec 8)
    (size startSector numSectors bufferOffset : ℕ) : ℕ → ℕ → WriteState → WriteState
  | 0, _, w => w
  | rounds + 1, i, w =>
    let w := d.blockWriteRound buffer size startSector numSectors bufferOffset i w
    if size ≤ w.bytesWritten then w
    else blockWriteLoop d buffer size startSector numSectors bufferOffset rounds (i + 1) w

/-- `block_dev_write`; there is no device if its pointer or its function `write` is missing. `stack` are the
bytes that are at `sector_buffer` and behind it. -/
def blockDevWrite (dev : Option BlockDevice) (stack buffer : ℕ → BitVec 8) (size offset : ℕ) :
    Option BlockDevice × ℕ :=
  match dev with
  | none => (none, 0)
  | some d =>
    let startSector := offset / 512
    let numSectors := sectorsOf size
    let bufferOffset := offset % 512
    let done := fun w : WriteState => (some { d with disk := w.disk }, w.bytesWritten)
    if d.blockCount < Word32.add startSector numSectors then
      let numSectors := Word32.sub d.blockCount startSector
      if numSectors = 0 then (some d, 0)
      else
        done (d.blockWriteLoop buffer size startSector numSectors bufferOffset numSectors 0 ⟨d.disk, stack, 0⟩)
    else
      done (d.blockWriteLoop buffer size startSector numSectors bufferOffset numSectors 0 ⟨d.disk, stack, 0⟩)

/-- The bytes of the device with those of the range from the buffer. -/
def overwritten (d : BlockDevice) (buffer : ℕ → BitVec 8) (size offset : ℕ) : ℕ → BitVec 8 :=
  ByteBuffer.copy d.disk offset buffer size

/-- What is wanted: all the bytes are written, nothing else is changed, and reading the range gives the
buffer, whatever is in memory then. -/
structure WritesRange (d : BlockDevice) (stack buffer : ℕ → BitVec 8) (size offset : ℕ) : Prop where
  returns : (blockDevWrite d stack buffer size offset).2 = size
  writes : (blockDevWrite d stack buffer size offset).1 =
    some { d with disk := d.overwritten buffer size offset }
  reads : ∀ stack' buffer' : ℕ → BitVec 8,
    (blockDevRead (blockDevWrite d stack buffer size offset).1 stack' buffer' size offset).bytesRead = size ∧
      ∀ k < size,
        (blockDevRead (blockDevWrite d stack buffer size offset).1 stack' buffer' size offset).buffer k =
          buffer k

variable {d : BlockDevice} {stack buffer : ℕ → BitVec 8} {size offset n i : ℕ}

/-! ## The loop -/

/-- The first `i` sectors were written. -/
structure Writes (d : BlockDevice) (buffer : ℕ → BitVec 8) (size offset n i : ℕ) (w : WriteState) :
    Prop where
  bytesWritten : w.bytesWritten = before size offset n i
  disk : w.disk = d.overwritten buffer (before size offset n i) offset

/-- The loop invariant holds before the first sector. -/
lemma Writes.start (d : BlockDevice) (stack buffer : ℕ → BitVec 8) (size offset n : ℕ) :
    Writes d buffer size offset n 0 ⟨d.disk, stack, 0⟩ where
  bytesWritten := (before_zero size offset n).symm
  disk := by rw [before_zero, overwritten, ByteBuffer.copy_zero]

/-- A round writes one more sector. -/
lemma Writes.round {w : WriteState} (hw : Writes d buffer size offset n i w) (h : Span size offset n)
    (hi : i < n) :
    Writes d buffer size offset n (i + 1)
      (d.blockWriteRound buffer size (offset / 512) n (offset % 512) i w) := by
  obtain ⟨hcount, hplace, hfits, hword, hsector, -, hmiddle⟩ := round_spec h hi _ _ rfl rfl
  have hlast : Word32.sub n 1 = n - 1 := by
    have hlt := h.lt
    have hsize := h.size_lt
    exact Word32.sub_of_le (by omega) h.pos
  have hfirst : (if i = 0 then offset % 512 else 0) = 0 ∨ i = 0 := by
    by_cases hzero : i = 0
    · exact .inr hzero
    · exact .inl (if_neg hzero)
  rw [blockWriteRound, hw.bytesWritten, hw.disk, hlast]
  generalize (if i = 0 then offset % 512 else 0) = first at *
  generalize copySize size n (offset % 512) i (before size offset n i) = copied at *
  rw [Word32.add_of_lt (by omega), Word32.add_of_lt (by omega)]
  refine ⟨hcount, ?_⟩
  funext k
  dsimp only
  rw [writeSector, overwritten, overwritten, ByteBuffer.copy, ByteBuffer.copy]
  by_cases hk : 512 * (offset / 512 + i) ≤ k ∧ k < 512 * (offset / 512 + i) + 512
  · rw [if_pos hk, ByteBuffer.copy]
    by_cases hcopied : first ≤ k - 512 * (offset / 512 + i) ∧ k - 512 * (offset / 512 + i) < first + copied
    · have hplace' : before size offset n i + (k - 512 * (offset / 512 + i) - first) = k - offset := by omega
      rw [if_pos hcopied, if_pos (by omega), hplace']
    · have hread : i = 0 ∨ i = n - 1 := by
        by_contra hnot
        rw [not_or] at hnot
        have hcopied' := hmiddle hnot.1 hnot.2
        omega
      have hdisk : 512 * (offset / 512 + i) + (k - 512 * (offset / 512 + i)) = k := by omega
      rw [if_neg hcopied, if_pos hread, readSector, if_pos (by omega), hdisk]
      show ByteBuffer.copy d.disk offset buffer (before size offset n i) k = _
      rw [ByteBuffer.copy]
      exact ite_congr (by rw [eq_iff_iff]; omega) (fun _ => rfl) fun _ => rfl
  · rw [if_neg hk, ByteBuffer.copy]
    exact ite_congr (by rw [eq_iff_iff]; omega) (fun _ => rfl) fun _ => rfl

/-- **The loop** writes all the sectors. -/
lemma Writes.blockWriteLoop {rounds : ℕ} {w : WriteState} (hw : Writes d buffer size offset n i w)
    (h : Span size offset n) (hi : i + rounds = n) :
    Writes d buffer size offset n n
      (d.blockWriteLoop buffer size (offset / 512) n (offset % 512) rounds i w) := by
  induction rounds generalizing i w with
  | zero =>
    obtain rfl : i = n := hi
    exact hw
  | succ rounds ih =>
    have hround := hw.round h (by omega)
    rw [BlockDevice.blockWriteLoop]
    split_ifs with hbreak
    · obtain ⟨-, -, -, -, -, hend, -⟩ := round_spec (i := i) h (by omega) _ _ rfl rfl
      rw [hround.bytesWritten] at hbreak
      rw [hend hbreak] at hround
      exact hround
    · exact ih hround (by omega)

/-! ## The range -/

/-- An offset on the device, or right behind it: the sectors of the size, as far as they are there. -/
lemma blockDevWrite_eq (hsize : size < 2 ^ 32) (hoffset : offset < 2 ^ 32) (hcount : d.blockCount < 2 ^ 32)
    (hle : offset / 512 ≤ d.blockCount) (stack buffer : ℕ → BitVec 8) :
    ∃ w, blockDevWrite d stack buffer size offset = (some { d with disk := w.disk }, w.bytesWritten) ∧
      w = d.blockWriteLoop buffer size (offset / 512) (d.sectorsRead size offset) (offset % 512)
        (d.sectorsRead size offset) 0 ⟨d.disk, stack, 0⟩ := by
  have hsectors := sectorsOf_lt hsize
  refine ⟨_, ?_, rfl⟩
  rw [blockDevWrite, Word32.add_of_lt (by omega), Word32.sub_of_le hcount hle, sectorsRead]
  dsimp only
  split_ifs with hclamp hzero
  · rw [hzero, Nat.min_zero]
    rfl
  · rw [Nat.min_eq_right (by omega)]
  · rw [Nat.min_eq_left (by omega)]

/-- For a range on the device the sectors of the size are there. -/
lemma sectorsRead_of_le (hsize : size < 2 ^ 32) (hrange : offset + size ≤ 512 * d.blockCount) :
    d.sectorsRead size offset = if size ≤ 2 ^ 32 - 512 then (size + 511) / 512 else 0 := by
  rw [sectorsRead, sectorsOf_eq hsize]
  split_ifs <;> omega

/-- **What is written**, if a single sector has all that is copied. -/
lemma blockDevWrite_of_span (hoffset : offset < 2 ^ 32) (hcount : d.blockCount < 2 ^ 32)
    (hrange : offset + size ≤ 512 * d.blockCount) (hpos : 0 < size) (hword : size ≤ 2 ^ 32 - 512)
    (hsingle : (size + 511) / 512 = 1 → offset % 512 + min size 512 ≤ 512) (stack buffer : ℕ → BitVec 8) :
    let written := min size (512 * (offset / 512 + (size + 511) / 512) - offset)
    blockDevWrite d stack buffer size offset =
      (some { d with disk := d.overwritten buffer written offset }, written) := by
  dsimp only
  have hsize : size < 2 ^ 32 := by omega
  obtain ⟨w, hres, hw⟩ := blockDevWrite_eq hsize hoffset hcount (by omega) stack buffer
  rw [sectorsRead_of_le hsize hrange, if_pos hword] at hw
  have hspan : Span size offset ((size + 511) / 512) := ⟨hsize, hoffset, by omega, by omega, hsingle⟩
  have hwrites := (Writes.start d stack buffer size offset _).blockWriteLoop hspan (Nat.zero_add _)
  rw [← hw] at hwrites
  rw [hres, hwrites.bytesWritten, hwrites.disk, before_last]

/-- A single sector is read: what is behind the buffer is copied with it. -/
lemma buffer_of_single (hsize : size < 2 ^ 32) (hsector : offset / 512 < 2 ^ 32) (stack buffer : ℕ → BitVec 8)
    (k : ℕ) (hk : k < min size 512) :
    (d.blockReadLoop stack size (offset / 512) 1 (offset % 512) 1 0 ⟨buffer, 0, [], []⟩).buffer k =
      d.readSector stack (offset / 512) (offset % 512 + k) := by
  have hround : (d.blockReadRound stack size (offset / 512) 1 (offset % 512) 0 ⟨buffer, 0, [], []⟩).buffer k =
      d.readSector stack (offset / 512) (offset % 512 + k) := by
    rw [blockReadRound, copySize_single hsize, Word32.add_of_lt (by omega)]
    show ByteBuffer.copy buffer 0 (fun j => d.readSector stack (offset / 512) (offset % 512 + j))
      (min size 512) k = _
    rw [ByteBuffer.copy, if_pos (by omega)]
    rfl
  rw [blockReadLoop]
  split_ifs
  · exact hround
  · exact hround

/-- A range that was written is read again. -/
lemma reads_of_writes {written : Option BlockDevice} (hcount : d.blockCount < 2 ^ 32)
    (hsize : size < 2 ^ 32) (hoffset : offset < 2 ^ 32) (hrange : offset + size ≤ 512 * d.blockCount)
    (hwritten : written = some { d with disk := d.overwritten buffer size offset })
    (hreadable : d.Readable size offset) (stack' buffer' : ℕ → BitVec 8) :
    (blockDevRead written stack' buffer' size offset).bytesRead = size ∧
      ∀ k < size, (blockDevRead written stack' buffer' size offset).buffer k = buffer k := by
  have hreads := (readsRange_iff { d with disk := d.overwritten buffer size offset } stack' buffer'
    hcount hsize hoffset).2 hreadable
  have hall : min size (512 * d.blockCount - offset) = size := by omega
  rw [hwritten]
  refine ⟨hreads.returns.trans hall, fun k hk => ?_⟩
  rw [hreads.fills k, if_pos (hk.trans_eq hall.symm)]
  show d.overwritten buffer size offset (offset + k) = _
  rw [overwritten, ByteBuffer.copy, if_pos (by omega), Nat.add_sub_cancel_left]

/-- If a single sector is not enough, then what is behind its buffer is read. -/
lemma not_reads_of_single (hcount : d.blockCount < 2 ^ 32) (hoffset : offset < 2 ^ 32)
    (hrange : offset + size ≤ 512 * d.blockCount) (hpos : 0 < size) (hle : size ≤ 512)
    (hmore : 512 < offset % 512 + size)
    (hreads : ∀ stack' buffer' : ℕ → BitVec 8, ∀ k < size,
      (blockDevRead d stack' buffer' size offset).buffer k = buffer k) : False := by
  have hsize : size < 2 ^ 32 := by omega
  -- the first byte behind the buffer is another one than the one that was written
  obtain ⟨byte, hbyte⟩ : ∃ byte, byte ≠ buffer (512 - offset % 512) :=
    ⟨buffer (512 - offset % 512) + 1, by bv_omega⟩
  have hread := hreads (fun _ => byte) buffer (512 - offset % 512) (by omega)
  have hsectors : d.sectorsRead size offset = 1 := by
    rw [sectorsRead_of_le hsize hrange, if_pos (by omega)]
    omega
  rw [blockDevRead_eq hsize hoffset hcount (by omega), hsectors,
    buffer_of_single hsize (by omega) _ _ _ (by omega), readSector, if_neg (by omega)] at hread
  exact hbyte hread

/-- If no sectors are counted, nothing is written. -/
lemma writesRange_of_none (hcount : d.blockCount < 2 ^ 32) (hsize : size < 2 ^ 32) (hoffset : offset < 2 ^ 32)
    (hrange : offset + size ≤ 512 * d.blockCount) (hnone : d.sectorsRead size offset = 0) :
    d.WritesRange stack buffer size offset ↔ size = 0 := by
  obtain ⟨w, hres, hw⟩ := blockDevWrite_eq hsize hoffset hcount (by omega) stack buffer
  rw [hnone, blockWriteLoop] at hw
  rw [hw] at hres
  constructor
  · intro hwrites
    have hreturns := hwrites.returns
    rw [hres] at hreturns
    exact hreturns.symm
  · rintro rfl
    have hwritten : (blockDevWrite d stack buffer 0 offset).1 =
        some { d with disk := d.overwritten buffer 0 offset } := by
      rw [hres, overwritten, ByteBuffer.copy_zero]
    have hreadable : d.Readable 0 offset := by
      rw [Readable]
      omega
    exact ⟨by rw [hres], hwritten, reads_of_writes hcount hsize hoffset hrange hwritten hreadable⟩

/-- If a single sector has all that is copied, then only the number of bytes is in question. -/
lemma writesRange_of_span (hcount : d.blockCount < 2 ^ 32) (hoffset : offset < 2 ^ 32)
    (hrange : offset + size ≤ 512 * d.blockCount) (hpos : 0 < size) (hword : size ≤ 2 ^ 32 - 512)
    (hsingle : (size + 511) / 512 = 1 → offset % 512 + min size 512 ≤ 512) :
    d.WritesRange stack buffer size offset ↔ offset % 512 + size ≤ 512 * ((size + 511) / 512) := by
  have hres := blockDevWrite_of_span hoffset hcount hrange hpos hword hsingle stack buffer
  dsimp only at hres
  constructor
  · intro hwrites
    have hreturns := hwrites.returns
    rw [hres] at hreturns
    dsimp only at hreturns
    omega
  · intro hfits
    have hall : min size (512 * (offset / 512 + (size + 511) / 512) - offset) = size := by omega
    rw [hall] at hres
    have hwritten := congrArg Prod.fst hres
    have hreadable : d.Readable size offset := by
      refine .inr ⟨by omega, .inr ⟨hword, ?_⟩⟩
      split_ifs with hone
      · omega
      · exact .inl hfits
    exact ⟨congrArg Prod.snd hres, hwritten,
      reads_of_writes hcount (by omega) hoffset hrange hwritten hreadable⟩

/-- **What is wanted is written** exactly if the range is in the sectors of the size.

**Proof sketch.** Each round writes the bytes of the range that are in its sector. If a single sector is
not enough, reading the range ends behind the buffer of a sector; if several are not, the returned number
is smaller than the size. -/
theorem writesRange_iff (stack buffer : ℕ → BitVec 8) (hcount : d.blockCount < 2 ^ 32)
    (hsize : size < 2 ^ 32) (hoffset : offset < 2 ^ 32) (hrange : offset + size ≤ 512 * d.blockCount) :
    d.WritesRange stack buffer size offset ↔
      size = 0 ∨ size ≤ 2 ^ 32 - 512 ∧ offset % 512 + size ≤ 512 * ((size + 511) / 512) := by
  by_cases hnone : size = 0 ∨ ¬ size ≤ 2 ^ 32 - 512
  · have hzero : d.sectorsRead size offset = 0 := by
      rw [sectorsRead_of_le hsize hrange]
      split_ifs <;> omega
    rw [writesRange_of_none hcount hsize hoffset hrange hzero]
    omega
  · rw [not_or, not_not] at hnone
    obtain ⟨hne, hword⟩ := hnone
    have hpos := Nat.pos_of_ne_zero hne
    rw [or_iff_right hne, and_iff_right hword]
    by_cases hsingle : (size + 511) / 512 = 1 ∧ ¬ offset % 512 + min size 512 ≤ 512
    · refine iff_of_false (fun hwrites => ?_) (by omega)
      have hreads := hwrites.reads
      rw [hwrites.writes] at hreads
      exact not_reads_of_single (d := { d with disk := d.overwritten buffer size offset }) hcount hoffset
        hrange hpos (by omega) (by omega) fun stack' buffer' => (hreads stack' buffer').2
    · exact writesRange_of_span hcount hoffset hrange hpos hword fun hone =>
        not_not.1 fun hnot => hsingle ⟨hone, hnot⟩

/-- A range in the middle of a sector. -/
theorem writesRange_iff_middle :
    WritesRange ⟨8, fun _ => 0⟩ (fun _ => 0) (fun _ => 1) 100 300 :=
  (writesRange_iff (d := ⟨8, fun _ => 0⟩) (fun _ => 0) (fun _ => 1) (by decide) (by decide) (by decide)
    (by decide)).2 (.inr ⟨by decide, by decide⟩)

/-- Two sectors are written for 1024 bytes at offset 100, which makes 924 bytes. -/
theorem not_writesRange :
    (blockDevWrite (some ⟨8, fun _ => 0⟩) (fun _ => 0) (fun _ => 1) 1024 100).2 = 924 ∧
      ¬ WritesRange ⟨8, fun _ => 0⟩ (fun _ => 0) (fun _ => 1) 1024 100 := by
  have hbytes : (blockDevWrite (some ⟨8, fun _ => 0⟩) (fun _ => 0) (fun _ => 1) 1024 100).2 = 924 := by
    decide +kernel
  refine ⟨hbytes, fun hwrites => ?_⟩
  have hreturns := hwrites.returns
  rw [hbytes] at hreturns
  exact absurd hreturns (by decide)

end BlockDevice

end Jarvis
