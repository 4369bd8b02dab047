import JarvisKernel.Ext4.Layout

set_option relaxedAutoImplicit false
set_option autoImplicit false

/-!
# Addresses of blocks

The first sector of a block is a product of 32 bits. The numbers of blocks that differ by a multiple of
`2 ^ 32 / block_size` have the same sectors, so that the blocks of a device are different exactly if they
have no more than `2 ^ 32` bytes together.

## Main definitions

* `Jarvis.Ext4.Mounted` — the block size is the one that was computed from the superblock.
* `Jarvis.Ext4.blockNumbers` — how many blocks have sectors of their own.
* `Jarvis.Ext4.ReadsBack` — what is wanted of reading after writing.

## Main results

* `Jarvis.Ext4.readsBack_iff` — it holds for blocks that have different sectors.
-/

namespace Jarvis

namespace Ext4

open ByteBuffer

variable {fs : Ext4} {b c k log n : ℕ}

/-! ## Block sizes -/

/-- The block size is `EXT4_MIN_BLOCK_SIZE << log_block_size`, and within the limits of ext4. -/
structure Mounted (fs : Ext4) : Prop where
  blockSize : fs.blockSize = Word32.mul 1024 (2 ^ get32 fs.superBlock 24)
  min : 1024 ≤ fs.blockSize
  max : fs.blockSize ≤ 65536

/-- The block size of a mounted file system is 1 KiB times a power of two up to 64. -/
lemma Mounted.exists_log (h : Mounted fs) : ∃ log ≤ 6, fs.blockSize = 1024 * 2 ^ log := by
  have hmin := h.min
  have hmax := h.max
  rw [h.blockSize, Word32.mul] at hmin hmax
  by_cases hlog : get32 fs.superBlock 24 < 22
  · have hlt : 1024 * 2 ^ get32 fs.superBlock 24 < 2 ^ 32 := by
      calc 1024 * 2 ^ get32 fs.superBlock 24 = 2 ^ (10 + get32 fs.superBlock 24) := by rw [Nat.pow_add]
        _ < 2 ^ 32 := Nat.pow_lt_pow_right (by omega) (by omega)
    rw [Nat.mod_eq_of_lt hlt] at hmax
    have hpow : 2 ^ get32 fs.superBlock 24 ≤ 2 ^ 6 := by omega
    exact ⟨_, (Nat.pow_le_pow_iff_right (by omega)).1 hpow, by
      rw [h.blockSize, Word32.mul, Nat.mod_eq_of_lt hlt]⟩
  · -- all bits are shifted out
    have hdvd : 2 ^ 32 ∣ 1024 * 2 ^ get32 fs.superBlock 24 := by
      have hten : 1024 * 2 ^ get32 fs.superBlock 24 = 2 ^ (10 + get32 fs.superBlock 24) := by
        rw [Nat.pow_add]
      rw [hten]
      exact Nat.pow_dvd_pow 2 (by omega)
    rw [Nat.mod_eq_zero_of_dvd hdvd] at hmin
    omega

/-- The number of blocks that have sectors of their own. -/
def blockNumbers (fs : Ext4) : ℕ := 2 ^ 32 / fs.blockSize

/-- The block size divides `2^32`, the range of the byte address. -/
lemma Mounted.blockNumbers_mul (h : Mounted fs) : fs.blockNumbers * fs.blockSize = 2 ^ 32 := by
  obtain ⟨log, hle, hlog⟩ := h.exists_log
  apply Nat.div_mul_cancel
  rw [hlog, show 1024 = 2 ^ 10 from rfl, ← Nat.pow_add]
  exact Nat.pow_dvd_pow 2 (by omega)

/-- A block is a positive number of sectors. -/
lemma Mounted.exists_sectors (h : Mounted fs) : ∃ c, fs.blockSize = 512 * c ∧ 0 < c := by
  obtain ⟨log, -, hlog⟩ := h.exists_log
  refine ⟨2 * 2 ^ log, by rw [hlog]; ring, ?_⟩
  exact Nat.mul_pos (by omega) (Nat.two_pow_pos log)

/-! ## Blocks with the same sectors -/

/-- The product of 32 bits depends on the number modulo `blockNumbers` only. -/
lemma Mounted.blockSector_mod (h : Mounted fs) (n : ℕ) :
    fs.blockSector n = fs.blockSector (n % fs.blockNumbers) := by
  have hmul : n * fs.blockSize =
      n % fs.blockNumbers * fs.blockSize + 2 ^ 32 * (n / fs.blockNumbers) := by
    calc n * fs.blockSize
        = (n % fs.blockNumbers + fs.blockNumbers * (n / fs.blockNumbers)) * fs.blockSize := by
          rw [Nat.mod_add_div]
      _ = n % fs.blockNumbers * fs.blockSize + fs.blockNumbers * fs.blockSize * (n / fs.blockNumbers) := by
          ring
      _ = _ := by rw [h.blockNumbers_mul]
  rw [blockSector, blockSector, Word32.mul, Word32.mul, hmul, Nat.add_mul_mod_self_left]

/-- Reading a block does not see the part of its number that is lost in the 32-bit address. -/
lemma Mounted.ext4ReadBlock_mod (h : Mounted fs) (n : ℕ) :
    fs.ext4ReadBlock n = fs.ext4ReadBlock (n % fs.blockNumbers) := by
  funext k
  rw [ext4ReadBlock, ext4ReadBlock, h.blockSector_mod n]

/-- Nor does writing one. -/
lemma Mounted.ext4WriteBlock_mod (h : Mounted fs) (n : ℕ) (buffer : ℕ → BitVec 8) :
    fs.ext4WriteBlock n buffer = fs.ext4WriteBlock (n % fs.blockNumbers) buffer := by
  rw [ext4WriteBlock, ext4WriteBlock, h.blockSector_mod]

/-- A number that has lost this part is one inside the device. -/
lemma Mounted.inDevice_mod (h : Mounted fs) (n : ℕ) : fs.InDevice (n % fs.blockNumbers) := by
  have hmul := h.blockNumbers_mul
  have hpos : 0 < fs.blockNumbers := by
    apply Nat.pos_of_ne_zero
    intro hzero
    rw [hzero, Nat.zero_mul] at hmul
    exact absurd hmul (by decide)
  rw [InDevice, ← hmul]
  exact Nat.mul_le_mul_right _ (Nat.mod_lt _ hpos)

/-- **Reading a block after any block was written.** -/
lemma Mounted.ext4ReadBlock_ext4WriteBlock (h : Mounted fs) (b c : ℕ) (buffer : ℕ → BitVec 8)
    (hk : k < fs.blockSize) :
    (fs.ext4WriteBlock b buffer).ext4ReadBlock c k =
      if c % fs.blockNumbers = b % fs.blockNumbers then buffer k else fs.ext4ReadBlock c k := by
  obtain ⟨s, hsize, hs⟩ := h.exists_sectors
  have hmounted : Mounted (fs.ext4WriteBlock b buffer) := ⟨h.blockSize, h.min, h.max⟩
  rw [hmounted.ext4ReadBlock_mod, h.ext4ReadBlock_mod c]
  have hread := Ext4.ext4ReadBlock_ext4WriteBlock hsize hs (h.inDevice_mod c) (h.inDevice_mod b) buffer hk
  rw [← h.ext4WriteBlock_mod] at hread
  exact hread

/-! ## Reading back -/

/-- What is wanted of two blocks: what was written to the first is read from it, and the second one stays
as it is. -/
def ReadsBack (fs : Ext4) (b c : ℕ) : Prop :=
  ∀ buffer : ℕ → BitVec 8, ∀ k < fs.blockSize,
    (fs.ext4WriteBlock b buffer).ext4ReadBlock b k = buffer k ∧
      (fs.ext4WriteBlock b buffer).ext4ReadBlock c k = fs.ext4ReadBlock c k

/-- Two blocks are different on the disk exactly if their numbers differ in what is left of them. -/
lemma Mounted.readsBack_iff_ne (h : Mounted fs) (b c : ℕ) :
    ReadsBack fs b c ↔ b % fs.blockNumbers ≠ c % fs.blockNumbers := by
  constructor
  · intro hreads heq
    have hpos : 0 < fs.blockSize := Nat.lt_of_lt_of_le (by omega) h.min
    obtain ⟨-, hkept⟩ := hreads (fun k => fs.ext4ReadBlock c k + 1) 0 hpos
    rw [h.ext4ReadBlock_ext4WriteBlock b c _ hpos, if_pos heq.symm] at hkept
    revert hkept
    generalize fs.ext4ReadBlock c 0 = byte
    revert byte
    decide
  · intro hne buffer k hk
    rw [h.ext4ReadBlock_ext4WriteBlock b b _ hk, h.ext4ReadBlock_ext4WriteBlock b c _ hk, if_pos rfl,
      if_neg (Ne.symm hne)]
    exact ⟨rfl, rfl⟩

/-- **Blocks are read back** exactly if they have different sectors; and this is so for all blocks of a
file system exactly if it has no more than `2 ^ 32` bytes.

**Proof sketch.** A block has the sectors of the block with its number modulo `blockNumbers`, for which
the product does not overflow. -/
theorem readsBack_iff (fs : Ext4) (h : Mounted fs) :
    (∀ b c, b < fs.blocksCountLo → c < fs.blocksCountLo → b ≠ c →
      (ReadsBack fs b c ↔ b % fs.blockNumbers ≠ c % fs.blockNumbers)) ∧
    ((∀ b c, b < fs.blocksCountLo → c < fs.blocksCountLo → b ≠ c → ReadsBack fs b c) ↔
      fs.blocksCountLo * fs.blockSize ≤ 2 ^ 32) := by
  have hpos : 0 < fs.blockSize := Nat.lt_of_lt_of_le (by omega) h.min
  have hcount : fs.blocksCountLo * fs.blockSize ≤ 2 ^ 32 ↔ fs.blocksCountLo ≤ fs.blockNumbers :=
    (Nat.le_div_iff_mul_le hpos).symm
  refine ⟨fun b c _ _ _ => h.readsBack_iff_ne b c, ?_⟩
  rw [hcount]
  constructor
  · intro hall
    by_contra hlt
    have hnumbers : 0 < fs.blockNumbers := Nat.div_pos (h.max.trans (by omega)) hpos
    have hreads := hall 0 fs.blockNumbers (by omega) (by omega) (by omega)
    rw [h.readsBack_iff_ne, Nat.mod_self, Nat.zero_mod] at hreads
    exact hreads rfl
  · intro hle b c hb hc hne
    rw [h.readsBack_iff_ne, Nat.mod_eq_of_lt (by omega), Nat.mod_eq_of_lt (by omega)]
    exact hne

/-- A device for a file system of 4 GiB and two blocks, of 1024 bytes each. -/
def wideDevice : ℕ → ℕ → BitVec 8
  | 2, 4 => 2
  | 2, 6 => 0x40
  | 2, 20 => 1
  | 2, 33 => 0x20
  | 2, 41 => 0x08
  | _, _ => 0

/-- The device, mounted. -/
def wideFileSystem : Ext4 := ext4ReadSuperBlock wideDevice fun _ => true

/-- `wideFileSystem` is mounted. -/
lemma mounted_wideFileSystem : Mounted wideFileSystem :=
  ⟨by decide +kernel, by decide +kernel, by decide +kernel⟩

/-- Block 2 can be written without changing block 1, which has the superblock. -/
theorem readsBack_iff_wideFileSystem : ReadsBack wideFileSystem 2 1 := by
  refine ((readsBack_iff wideFileSystem mounted_wideFileSystem).1 2 1 ?_ ?_ ?_).2 ?_
  · decide +kernel
  · decide +kernel
  · decide
  · decide +kernel

/-- The last block has the sectors of block 1, the one of the superblock. -/
theorem not_readsBack :
    ∃ fs b c, Mounted fs ∧ b < fs.blocksCountLo ∧ c < fs.blocksCountLo ∧ b ≠ c ∧ ¬ ReadsBack fs b c := by
  refine ⟨wideFileSystem, 0x400001, 1, mounted_wideFileSystem, by decide +kernel, by decide +kernel,
    by decide, ?_⟩
  rw [mounted_wideFileSystem.readsBack_iff_ne]
  decide +kernel

end Ext4

end Jarvis
