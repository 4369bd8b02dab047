import JarvisKernel.Lib.ByteBuffer
import JarvisKernel.Lib.Word32
import Mathlib.Data.List.Basic

set_option relaxedAutoImplicit false
set_option autoImplicit false

/-!
# Reading block devices

`block_dev_read` of `src/fs/devfs.c` copies bytes of a device sector by sector, through a buffer of one
sector. How many sectors it reads depends on the size alone, so that a range that does not start at a
sector may need one more; and if one sector is read, the copy of the first one is not shortened.

Sectors have 512 bytes. The functions of the driver transfer a whole sector. In memory the buffer of a
sector is followed by other variables.

## Main definitions

* `Jarvis.BlockDevice` — a device.
* `Jarvis.BlockDevice.blockDevRead` — the function.
* `Jarvis.BlockDevice.ReadsRange` — what is wanted of it.

## Main results

* `Jarvis.BlockDevice.round_spec` — which bytes a round copies.
* `Jarvis.BlockDevice.Reads.blockReadLoop` — the loop.
* `Jarvis.BlockDevice.readsRange_iff` — when what is wanted is read.
-/

namespace Jarvis

/-- `BlockDevice`: `block_count`, and the bytes on the device. -/
structure BlockDevice where
  blockCount : ℕ
  disk : ℕ → BitVec 8

namespace BlockDevice

/-! ## The function -/

/-- `read`, to a buffer that had the bytes `buffer` before. -/
def readSector (d : BlockDevice) (buffer : ℕ → BitVec 8) (blockNum : ℕ) : ℕ → BitVec 8 := fun k =>
  if k < 512 then d.disk (512 * blockNum + k) else buffer k

/-- `num_sectors`, before it is compared with the number of blocks. -/
def sectorsOf (size : ℕ) : ℕ := Word32.sub (Word32.add size 512) 1 / 512

/-- `copy_size` in round `i`, with what was copied before. -/
def copySize (size numSectors bufferOffset i done : ℕ) : ℕ :=
  if i = Word32.sub numSectors 1 then min (Word32.sub size done) 512
  else if i = 0 then 512 - bufferOffset
  else 512

/-- What `block_dev_read` has done: the buffer, `bytes_read`, the sectors that were read, and the copies out
of `sector_buffer`, by their places and lengths. -/
structure ReadState where
  buffer : ℕ → BitVec 8
  bytesRead : ℕ
  sectors : List ℕ
  copies : List (ℕ × ℕ)

/-- A round of the loop of `block_dev_read`. -/
def blockReadRound (d : BlockDevice) (stack : ℕ → BitVec 8)
    (size startSector numSectors bufferOffset i : ℕ) (r : ReadState) : ReadState :=
  let sectorBuffer := d.readSector stack (Word32.add startSector i)
  let first := if i = 0 then bufferOffset else 0
  let copied := copySize size numSectors bufferOffset i r.bytesRead
  { buffer := ByteBuffer.copy r.buffer r.bytesRead (fun k => sectorBuffer (first + k)) copied
    bytesRead := Word32.add r.bytesRead copied
    sectors := r.sectors ++ [Word32.add startSector i]
    copies := r.copies ++ [(first, copied)] }

/-- The loop of `block_dev_read` from round `i` on. -/
def blockReadLoop (d : BlockDevice) (stack : ℕ → BitVec 8)
    (size startSector numSectors bufferOffset : ℕ) : ℕ → ℕ → ReadState → ReadState
  | 0, _, r => r
  | rounds + 1, i, r =>
    let r := d.blockReadRound stack size startSector numSectors bufferOffset i r
    if size ≤ r.bytesRead then r
    else blockReadLoop d stack size startSector numSectors bufferOffset rounds (i + 1) r

/-- `block_dev_read`; there is no device if its pointer or its function `read` is missing. `stack` are the
bytes that are at `sector_buffer` and behind it. -/
def blockDevRead (dev : Option BlockDevice) (stack buffer : ℕ → BitVec 8) (size offset : ℕ) : ReadState :=
  let nothing : ReadState := ⟨buffer, 0, [], []⟩
  match dev with
  | none => nothing
  | some d =>
    let startSector := offset / 512
    let numSectors := sectorsOf size
    let bufferOffset := offset % 512
    if d.blockCount < Word32.add startSector numSectors then
      let numSectors := Word32.sub d.blockCount startSector
      if numSectors = 0 then nothing
      else d.blockReadLoop stack size startSector numSectors bufferOffset numSectors 0 nothing
    else d.blockReadLoop stack size startSector numSectors bufferOffset numSectors 0 nothing

/-- What is wanted: the bytes of the device from the offset on, as far as they are wanted and there, and
nothing else; from sectors of the device, and through the buffer. -/
structure ReadsRange (d : BlockDevice) (stack buffer : ℕ → BitVec 8) (size offset : ℕ) : Prop where
  returns : (blockDevRead d stack buffer size offset).bytesRead = min size (512 * d.blockCount - offset)
  fills : ∀ k, (blockDevRead d stack buffer size offset).buffer k =
    if k < min size (512 * d.blockCount - offset) then d.disk (offset + k) else buffer k
  sectors : ∀ s ∈ (blockDevRead d stack buffer size offset).sectors, s < d.blockCount
  copies : ∀ c ∈ (blockDevRead d stack buffer size offset).copies, c.1 + c.2 ≤ 512

/-! ## The bytes of a round -/

/-- The number of sectors is that of the size: at least one, unless nothing is to be transferred, and with
its last byte in the last one. A single sector has all the bytes that are copied from it. -/
structure Span (size offset n : ℕ) : Prop where
  size_lt : size < 2 ^ 32
  offset_lt : offset < 2 ^ 32
  pos : 0 < n
  lt : 512 * (n - 1) < size
  single : n = 1 → offset % 512 + min size 512 ≤ 512

/-- How many bytes of a range are in the first `i` sectors, when `n` sectors are transferred. -/
def before (size offset n i : ℕ) : ℕ :=
  min (min (offset + size) (512 * (offset / 512 + n))) (max offset (512 * (offset / 512 + i))) - offset

variable {d : BlockDevice} {stack buffer : ℕ → BitVec 8} {size offset n i : ℕ}

/-- Nothing has been read before the first sector. -/
lemma before_zero (size offset n : ℕ) : before size offset n 0 = 0 := by
  rw [before]
  omega

/-- All the bytes of the range, or up to the last sector. -/
lemma before_last (size offset n : ℕ) : before size offset n n = min size (512 * (offset / 512 + n) - offset) := by
  rw [before]
  omega

/-- The sectors before the last one are full, up to the offset in the first one. -/
lemma before_of_pos (h : Span size offset n) (hpos : 0 < i) (hi : i < n) :
    before size offset n i = 512 * i - offset % 512 := by
  have hlt := h.lt
  rw [before]
  omega

/-- **Which bytes a round copies**: those of the range that are in its sector. -/
lemma round_spec (h : Span size offset n) (hi : i < n) (first copied : ℕ)
    (hfirst : first = if i = 0 then offset % 512 else 0)
    (hcopied : copied = copySize size n (offset % 512) i (before size offset n i)) :
    before size offset n i + copied = before size offset n (i + 1) ∧
      offset + before size offset n i = 512 * (offset / 512 + i) + first ∧
      first + copied ≤ 512 ∧
      before size offset n (i + 1) < 2 ^ 32 ∧
      offset / 512 + i < 2 ^ 32 ∧
      (size ≤ before size offset n (i + 1) → i + 1 = n) ∧
      (i ≠ 0 → i ≠ n - 1 → copied = 512) := by
  obtain ⟨hsize, hoffset, -, hlt, hsingle⟩ := id h
  have hnow : before size offset n i = if i = 0 then 0 else 512 * i - offset % 512 := by
    split_ifs with hzero
    · rw [hzero, before_zero]
    · exact before_of_pos h (Nat.pos_of_ne_zero hzero) hi
  have hnext : before size offset n (i + 1) =
      if i + 1 = n then min size (512 * n - offset % 512) else 512 * (i + 1) - offset % 512 := by
    split_ifs with hlast
    · rw [hlast, before_last]
      omega
    · exact before_of_pos h (Nat.succ_pos i) (by omega)
  have hlast : Word32.sub n 1 = n - 1 := Word32.sub_of_le (by omega) (by omega)
  have hle : before size offset n i ≤ size := by
    rw [before]
    omega
  rw [copySize, hlast, Word32.sub_of_le hsize hle, hnow] at hcopied
  rw [hnow, hnext]
  have hsplit := Nat.div_add_mod offset 512
  have hrem : offset % 512 < 512 := Nat.mod_lt _ (by decide)
  clear hnow hnext hle hlast h
  generalize offset / 512 = start at *
  generalize offset % 512 = rem at *
  subst hfirst hcopied
  by_cases hzero : i = 0
  · subst hzero
    rw [if_pos rfl, if_pos rfl, if_pos rfl]
    by_cases hend : 0 + 1 = n
    · rw [if_pos hend, if_pos (by omega)]
      have hone := hsingle hend.symm
      omega
    · rw [if_neg hend, if_neg (by omega)]
      omega
  · rw [if_neg hzero, if_neg hzero, if_neg hzero]
    by_cases hend : i + 1 = n
    · rw [if_pos hend, if_pos (by omega)]
      omega
    · rw [if_neg hend, if_neg (by omega)]
      omega

/-! ## The loop -/

/-- The first `i` sectors were read. -/
structure Reads (d : BlockDevice) (buffer : ℕ → BitVec 8) (size offset n i : ℕ) (r : ReadState) : Prop where
  bytesRead : r.bytesRead = before size offset n i
  buffer : ∀ k, r.buffer k = if k < before size offset n i then d.disk (offset + k) else buffer k
  sectors : ∀ s ∈ r.sectors, s < offset / 512 + i
  copies : ∀ c ∈ r.copies, c.1 + c.2 ≤ 512

/-- The loop invariant holds before the first sector. -/
lemma Reads.start (d : BlockDevice) (buffer : ℕ → BitVec 8) (size offset n : ℕ) :
    Reads d buffer size offset n 0 ⟨buffer, 0, [], []⟩ where
  bytesRead := (before_zero size offset n).symm
  buffer k := by rw [before_zero, if_neg (Nat.not_lt_zero k)]
  sectors s hs := absurd hs List.not_mem_nil
  copies c hc := absurd hc List.not_mem_nil

/-- A round reads one more sector. -/
lemma Reads.round {r : ReadState} (hr : Reads d buffer size offset n i r) (h : Span size offset n)
    (hi : i < n) (stack : ℕ → BitVec 8) :
    Reads d buffer size offset n (i + 1)
      (d.blockReadRound stack size (offset / 512) n (offset % 512) i r) := by
  obtain ⟨hcount, hplace, hfits, hword, hsector, -, -⟩ := round_spec h hi _ _ rfl rfl
  rw [blockReadRound, hr.bytesRead]
  generalize (if i = 0 then offset % 512 else 0) = first at *
  generalize copySize size n (offset % 512) i (before size offset n i) = copied at *
  rw [Word32.add_of_lt (by omega), Word32.add_of_lt (by omega)]
  refine ⟨hcount, fun k => ?_, fun s hs => ?_, fun c hc => ?_⟩
  · show ByteBuffer.copy r.buffer (before size offset n i)
      (fun k => d.readSector stack (offset / 512 + i) (first + k)) copied k = _
    rw [ByteBuffer.copy]
    by_cases hk : before size offset n i ≤ k ∧ k < before size offset n i + copied
    · have hdisk : 512 * (offset / 512 + i) + (first + (k - before size offset n i)) = offset + k := by
        omega
      rw [if_pos hk, if_pos (by omega), readSector, if_pos (by omega), hdisk]
    · rw [if_neg hk, hr.buffer k]
      exact ite_congr (by rw [eq_iff_iff]; omega) (fun _ => rfl) fun _ => rfl
  · rcases List.mem_append.1 hs with hs | hs
    · exact (hr.sectors s hs).trans (Nat.lt_succ_self _)
    · rw [List.mem_singleton.1 hs]
      exact Nat.lt_succ_self _
  · rcases List.mem_append.1 hc with hc | hc
    · exact hr.copies c hc
    · rw [List.mem_singleton.1 hc]
      exact hfits

/-- **The loop** reads all the sectors.

**Proof sketch.** By induction on the rounds that are left. The loop is not left before the last round,
since the last sector has bytes of the range. -/
lemma Reads.blockReadLoop {rounds : ℕ} {r : ReadState} (hr : Reads d buffer size offset n i r)
    (h : Span size offset n) (hi : i + rounds = n) (stack : ℕ → BitVec 8) :
    Reads d buffer size offset n n
      (d.blockReadLoop stack size (offset / 512) n (offset % 512) rounds i r) := by
  induction rounds generalizing i r with
  | zero =>
    obtain rfl : i = n := hi
    exact hr
  | succ rounds ih =>
    have hround := hr.round h (by omega) stack
    rw [BlockDevice.blockReadLoop]
    split_ifs with hbreak
    · obtain ⟨-, -, -, -, -, hend, -⟩ := round_spec (i := i) h (by omega) _ _ rfl rfl
      rw [hround.bytesRead] at hbreak
      rw [hend hbreak] at hround
      exact hround
    · exact ih hround (by omega)

/-- What was read and copied is not forgotten. -/
lemma subset_blockReadLoop (d : BlockDevice) (stack : ℕ → BitVec 8) (rounds : ℕ) (r : ReadState) :
    r.sectors ⊆ (d.blockReadLoop stack size (offset / 512) n (offset % 512) rounds i r).sectors ∧
      r.copies ⊆ (d.blockReadLoop stack size (offset / 512) n (offset % 512) rounds i r).copies := by
  induction rounds generalizing i r with
  | zero => exact ⟨List.Subset.refl _, List.Subset.refl _⟩
  | succ rounds ih =>
    have hsectors : r.sectors ⊆
        (d.blockReadRound stack size (offset / 512) n (offset % 512) i r).sectors :=
      List.subset_append_left _ _
    have hcopies : r.copies ⊆
        (d.blockReadRound stack size (offset / 512) n (offset % 512) i r).copies :=
      List.subset_append_left _ _
    rw [BlockDevice.blockReadLoop]
    split_ifs
    · exact ⟨hsectors, hcopies⟩
    · obtain ⟨ihsectors, ihcopies⟩ := ih (i := i + 1)
        (d.blockReadRound stack size (offset / 512) n (offset % 512) i r)
      exact ⟨List.Subset.trans hsectors ihsectors, List.Subset.trans hcopies ihcopies⟩

/-! ## The range -/

/-- The sum of the size and a sector overflows for the last sizes. -/
lemma sectorsOf_eq (hsize : size < 2 ^ 32) :
    sectorsOf size = if size ≤ 2 ^ 32 - 512 then (size + 511) / 512 else 0 := by
  rw [sectorsOf, Word32.sub, Word32.add]
  split_ifs <;> omega

/-- The number of sectors fits into 32 bits with room to spare. -/
lemma sectorsOf_lt (hsize : size < 2 ^ 32) : sectorsOf size < 2 ^ 23 + 1 := by
  rw [sectorsOf_eq hsize]
  split_ifs <;> omega

/-- A single sector is the last one, and the size is not compared with the offset in it. -/
lemma copySize_single (hsize : size < 2 ^ 32) (bufferOffset : ℕ) :
    copySize size 1 bufferOffset 0 0 = min size 512 := by
  rw [copySize, if_pos (by decide), Word32.sub_of_le hsize (Nat.zero_le _), Nat.sub_zero]

/-- `num_sectors` for an offset on the device, or right behind it. -/
def sectorsRead (d : BlockDevice) (size offset : ℕ) : ℕ := min (sectorsOf size) (d.blockCount - offset / 512)

/-- An offset on the device, or right behind it: the sectors of the size, as far as they are there. -/
lemma blockDevRead_eq (hsize : size < 2 ^ 32) (hoffset : offset < 2 ^ 32) (hcount : d.blockCount < 2 ^ 32)
    (hle : offset / 512 ≤ d.blockCount) (stack buffer : ℕ → BitVec 8) :
    blockDevRead d stack buffer size offset =
      d.blockReadLoop stack size (offset / 512) (d.sectorsRead size offset) (offset % 512)
        (d.sectorsRead size offset) 0 ⟨buffer, 0, [], []⟩ := by
  have hsectors := sectorsOf_lt hsize
  rw [blockDevRead, Word32.add_of_lt (by omega), Word32.sub_of_le hcount hle, sectorsRead]
  dsimp only
  split_ifs with hclamp hzero
  · rw [hzero, Nat.min_zero]
    rfl
  · rw [Nat.min_eq_right (by omega)]
  · rw [Nat.min_eq_left (by omega)]

/-- An offset behind that: a sector that is not there is read. -/
lemma blockDevRead_behind (hsize : size < 2 ^ 32) (hoffset : offset < 2 ^ 32)
    (hlt : d.blockCount < offset / 512) (stack buffer : ℕ → BitVec 8) :
    offset / 512 ∈ (blockDevRead d stack buffer size offset).sectors := by
  have hsectors := sectorsOf_lt hsize
  have hnum : Word32.sub d.blockCount (offset / 512) ≠ 0 := by
    rw [Word32.sub_of_lt (by omega) hlt]
    omega
  rw [blockDevRead, Word32.add_of_lt (by omega)]
  dsimp only
  rw [if_pos (by omega), if_neg hnum]
  generalize Word32.sub d.blockCount (offset / 512) = num at *
  obtain ⟨rounds, hrounds⟩ := Nat.exists_eq_succ_of_ne_zero hnum
  have hfirst : Word32.add (offset / 512) 0 = offset / 512 := Word32.add_of_lt (by omega)
  have hmem : offset / 512 ∈
      (d.blockReadRound stack size (offset / 512) num (offset % 512) 0 ⟨buffer, 0, [], []⟩).sectors := by
    rw [blockReadRound, hfirst]
    exact List.mem_append_right _ (List.mem_singleton_self _)
  nth_rewrite 2 [hrounds]
  rw [blockReadLoop]
  split_ifs
  · exact hmem
  · exact (subset_blockReadLoop d stack _ _).1 hmem

/-- A single sector is read, and not all that is copied is in it. -/
lemma copies_of_single (hsize : size < 2 ^ 32) (stack buffer : ℕ → BitVec 8) :
    (offset % 512, min size 512) ∈
      (d.blockReadLoop stack size (offset / 512) 1 (offset % 512) 1 0 ⟨buffer, 0, [], []⟩).copies := by
  have hmem : (offset % 512, min size 512) ∈
      (d.blockReadRound stack size (offset / 512) 1 (offset % 512) 0 ⟨buffer, 0, [], []⟩).copies := by
    rw [blockReadRound, copySize_single hsize]
    exact List.mem_append_right _ (List.mem_singleton_self _)
  rw [blockReadLoop]
  split_ifs
  · exact hmem
  · exact hmem

/-- **The sectors that are read**, if a single one has all that is copied. -/
lemma reads_blockDevRead (hsize : size < 2 ^ 32) (hoffset : offset < 2 ^ 32)
    (hcount : d.blockCount < 2 ^ 32) (hlt : offset / 512 < d.blockCount) (hpos : 0 < size)
    (hword : size ≤ 2 ^ 32 - 512)
    (hsingle : d.sectorsRead size offset = 1 → offset % 512 + min size 512 ≤ 512)
    (stack buffer : ℕ → BitVec 8) :
    Reads d buffer size offset (d.sectorsRead size offset) (d.sectorsRead size offset)
      (blockDevRead d stack buffer size offset) := by
  have hspan : Span size offset (d.sectorsRead size offset) := by
    refine ⟨hsize, hoffset, ?_, ?_, hsingle⟩
    · rw [sectorsRead, sectorsOf_eq hsize, if_pos hword]
      omega
    · rw [sectorsRead, sectorsOf_eq hsize, if_pos hword]
      omega
  rw [blockDevRead_eq hsize hoffset hcount hlt.le]
  exact (Reads.start d buffer size offset _).blockReadLoop hspan (Nat.zero_add _) stack

/-- The device has the sectors that are needed for what is wanted: the offset is that of the sector right
behind the last one; or it is on the device, and nothing is wanted, or the size is at most `2 ^ 32 - 512`
and either one sector is read, which has all that is copied, or the bytes of the range are in the sectors of
the size, as far as there are any. -/
def Readable (d : BlockDevice) (size offset : ℕ) : Prop :=
  offset / 512 = d.blockCount ∨
    offset / 512 < d.blockCount ∧
      (size = 0 ∨
        size ≤ 2 ^ 32 - 512 ∧
          if min ((size + 511) / 512) (d.blockCount - offset / 512) = 1 then
            offset % 512 + min size 512 ≤ 512
          else
            offset % 512 + size ≤ 512 * ((size + 511) / 512) ∨
              d.blockCount ≤ offset / 512 + (size + 511) / 512)

/-- Nothing is read. -/
lemma readsRange_of_nothing (hrun : blockDevRead d stack buffer size offset = ⟨buffer, 0, [], []⟩) :
    d.ReadsRange stack buffer size offset ↔ min size (512 * d.blockCount - offset) = 0 := by
  constructor
  · intro hreads
    have hreturns := hreads.returns
    rw [hrun] at hreturns
    exact hreturns.symm
  · intro hzero
    refine ⟨?_, fun k => ?_, ?_, ?_⟩ <;> rw [hrun]
    · exact hzero.symm
    · rw [hzero, if_neg (Nat.not_lt_zero k)]
    · simp
    · simp

/-- The sectors of the size, as far as they are there, have the bytes of a range that starts `rem` bytes behind
the first of them. -/
lemma range_iff {start rem count : ℕ} (sectors : ℕ) (hpos : 0 < size) (hrem : rem < 512)
    (hlt : start < count) :
    min size (512 * (start + min sectors (count - start)) - (512 * start + rem)) =
        min size (512 * count - (512 * start + rem)) ↔
      rem + size ≤ 512 * sectors ∨ count ≤ start + sectors := by
  by_cases hend : count ≤ start + sectors
  · have hall : start + min sectors (count - start) = count := by omega
    rw [hall]
    exact iff_of_true rfl (.inr hend)
  · have hcut : 512 * (start + min sectors (count - start)) - (512 * start + rem) = 512 * sectors - rem := by
      omega
    rw [hcut, or_iff_left hend]
    omega

/-- Something is read. -/
lemma readsRange_of_lt (stack buffer : ℕ → BitVec 8) (hcount : d.blockCount < 2 ^ 32)
    (hoffset : offset < 2 ^ 32) (hlt : offset / 512 < d.blockCount) (hpos : 0 < size)
    (hword : size ≤ 2 ^ 32 - 512) :
    d.ReadsRange stack buffer size offset ↔
      if min ((size + 511) / 512) (d.blockCount - offset / 512) = 1 then
        offset % 512 + min size 512 ≤ 512
      else
        offset % 512 + size ≤ 512 * ((size + 511) / 512) ∨
          d.blockCount ≤ offset / 512 + (size + 511) / 512 := by
  have hsize : size < 2 ^ 32 := by omega
  have hsectors : d.sectorsRead size offset = min ((size + 511) / 512) (d.blockCount - offset / 512) := by
    rw [sectorsRead, sectorsOf_eq hsize, if_pos hword]
  by_cases hsingle : d.sectorsRead size offset = 1 ∧ ¬ offset % 512 + min size 512 ≤ 512
  · rw [hsectors] at hsingle
    rw [if_pos hsingle.1]
    refine iff_of_false (fun hreads => hsingle.2 ?_) hsingle.2
    refine hreads.copies (offset % 512, min size 512) ?_
    rw [blockDevRead_eq hsize hoffset hcount hlt.le, hsectors, hsingle.1]
    exact copies_of_single hsize stack buffer
  · have hall : d.sectorsRead size offset = 1 → offset % 512 + min size 512 ≤ 512 := fun hone =>
      not_not.1 fun hnot => hsingle ⟨hone, hnot⟩
    have hreads := reads_blockDevRead hsize hoffset hcount hlt hpos hword hall stack buffer
    rw [hsectors] at hreads hall
    have hbefore := before_last size offset (min ((size + 511) / 512) (d.blockCount - offset / 512))
    have hrange := range_iff ((size + 511) / 512) hpos (Nat.mod_lt offset (by decide)) hlt
    rw [Nat.div_add_mod, ← hbefore] at hrange
    generalize hn : min ((size + 511) / 512) (d.blockCount - offset / 512) = n at *
    -- only the number of bytes is in question
    have hiff : d.ReadsRange stack buffer size offset ↔
        before size offset n n = min size (512 * d.blockCount - offset) := by
      constructor
      · intro hrange
        rw [← hreads.bytesRead, hrange.returns]
      · intro heq
        refine ⟨hreads.bytesRead.trans heq, fun k => ?_, fun s hs => ?_, hreads.copies⟩
        · rw [hreads.buffer k, heq]
        · have hs := hreads.sectors s hs
          omega
    rw [hiff, hrange]
    split_ifs with hone
    · have hfits := hall hone
      refine iff_of_true ?_ hfits
      omega
    · exact Iff.rfl

/-- **What is wanted is read** exactly if the sectors of the size are those of the range.

**Proof sketch.** Each round copies the bytes of the range that are in its sector, unless the only sector
that is read does not have all that is copied. -/
theorem readsRange_iff (d : BlockDevice) (stack buffer : ℕ → BitVec 8) (hcount : d.blockCount < 2 ^ 32)
    (hsize : size < 2 ^ 32) (hoffset : offset < 2 ^ 32) :
    d.ReadsRange stack buffer size offset ↔ d.Readable size offset := by
  have hsectors := sectorsOf_eq hsize
  rw [Readable]
  rcases Nat.lt_or_ge d.blockCount (offset / 512) with hgt | hle
  · refine iff_of_false (fun hreads => ?_) ?_
    · have hsector := hreads.sectors _ (blockDevRead_behind hsize hoffset hgt stack buffer)
      omega
    · rintro (heq | ⟨hlt, -⟩)
      · exact hgt.ne' heq
      · exact hgt.not_gt hlt
  · have hrun := blockDevRead_eq hsize hoffset hcount hle stack buffer
    by_cases hnone : d.sectorsRead size offset = 0
    · rw [hnone, blockReadLoop] at hrun
      rw [readsRange_of_nothing hrun]
      rw [sectorsRead, hsectors] at hnone
      split_ifs at hnone ⊢ <;> omega
    · rw [sectorsRead, hsectors] at hnone
      have hword : size ≤ 2 ^ 32 - 512 := by
        by_contra hlarge
        rw [if_neg hlarge, Nat.zero_min] at hnone
        exact hnone rfl
      rw [if_pos hword] at hnone
      have hlt : offset / 512 < d.blockCount := by omega
      have hpos : 0 < size := by omega
      rw [readsRange_of_lt stack buffer hcount hoffset hlt hpos hword, or_iff_right hlt.ne,
        and_iff_right hlt, or_iff_right hpos.ne', and_iff_right hword]

/-- A range in the middle of a sector. -/
theorem readsRange_iff_middle :
    ReadsRange ⟨8, fun _ => 0⟩ (fun _ => 0) (fun _ => 0) 100 300 :=
  (readsRange_iff ⟨8, fun _ => 0⟩ (fun _ => 0) (fun _ => 0) (by decide) (by decide) (by decide)).2
    (.inr ⟨by decide, .inr ⟨by decide, by decide⟩⟩)

/-- Two sectors are read for 1024 bytes from offset 100, which makes 924 bytes. -/
theorem not_readsRange :
    (blockDevRead (some ⟨8, fun _ => 0⟩) (fun _ => 0) (fun _ => 0) 1024 100).bytesRead = 924 ∧
      ¬ ReadsRange ⟨8, fun _ => 0⟩ (fun _ => 0) (fun _ => 0) 1024 100 := by
  have hbytes : (blockDevRead (some ⟨8, fun _ => 0⟩) (fun _ => 0) (fun _ => 0) 1024 100).bytesRead = 924 := by
    decide +kernel
  refine ⟨hbytes, fun hreads => ?_⟩
  have hreturns := hreads.returns
  rw [hbytes] at hreturns
  exact absurd hreturns (by decide)

end BlockDevice

end Jarvis
