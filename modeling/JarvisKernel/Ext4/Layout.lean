import JarvisKernel.Ext4.Defs
import JarvisKernel.Lib.Table
import Mathlib.Data.Finset.Card
import Mathlib.Data.Finset.Prod
import Mathlib.Data.Finset.Range
import Mathlib.Tactic.Ring

set_option relaxedAutoImplicit false
set_option autoImplicit false

/-!
# The layout of an ext4 file system

Where the records of a file system are on the device. If they are in different blocks and the addresses
do not overflow, then writing one of them leaves the others as they are, and the allocator changes the
bitmap that it means to change and nothing else that is read later.

## Main definitions

* `Jarvis.Ext4.Record` — group descriptors, bitmaps and the blocks of inode tables.
* `Jarvis.Ext4.Layout` — the records are in different blocks.
* `Jarvis.Ext4.bit` — a bit of a bitmap.

## Main results

* `Jarvis.Ext4.ext4ReadBlock_ext4WriteBlock` — reading a block that was written.
* `Jarvis.Ext4.Layout.inodes_lt` — the numbers of inodes do not overflow.
* `Jarvis.Ext4.Layout.store` — the effect of writing back a bitmap.
-/

namespace Jarvis

namespace Ext4

open ByteBuffer

variable {fs fs' : Ext4} {c m n k : ℕ}

/-! ## Reading and writing blocks -/

/-- The addresses of a block do not overflow. -/
def InDevice (fs : Ext4) (n : ℕ) : Prop := (n + 1) * fs.blockSize ≤ 2 ^ 32

section Device

variable (hsize : fs.blockSize = 512 * c) (hc : 0 < c)

include hsize hc

omit hc in
/-- The sectors of a block of the device. -/
lemma InDevice.sectors_le (h : fs.InDevice n) : n * c + c ≤ 2 ^ 32 / 512 := by
  rw [InDevice, hsize] at h
  have hle : (n * c + c) * 512 ≤ 2 ^ 32 := by
    calc (n * c + c) * 512 = (n + 1) * (512 * c) := by ring
      _ ≤ 2 ^ 32 := h
  omega

/-- The first sector of a block of the device does not overflow. -/
lemma blockSector_eq (h : fs.InDevice n) : fs.blockSector n = n * c := by
  have hle := h.sectors_le hsize
  have hmul : n * fs.blockSize = 512 * (n * c) := by rw [hsize]; ring
  rw [blockSector, Word32.mul, hmul, Nat.mod_eq_of_lt (by omega), Nat.mul_div_cancel_left _ (by omega)]

/-- Nor do the others. -/
lemma add_blockSector (h : fs.InDevice n) {j : ℕ} (hj : j < c) :
    Word32.add (fs.blockSector n) j = n * c + j := by
  have hle := h.sectors_le hsize
  rw [blockSector_eq hsize hc h, Word32.add_of_lt (by omega)]

/-- A block of the device is read sector by sector. -/
lemma ext4ReadBlock_apply (h : fs.InDevice n) (hk : k < fs.blockSize) :
    fs.ext4ReadBlock n k = fs.sectors (n * c + k / 512) (k % 512) := by
  rw [ext4ReadBlock, if_pos hk, add_blockSector hsize hc h (by omega)]

/-- `ext4_write_block` writes the sectors of the block. -/
lemma sectors_ext4WriteBlock (h : fs.InDevice n) (buffer : ℕ → BitVec 8) (q : ℕ) :
    (fs.ext4WriteBlock n buffer).sectors q =
      if n * c ≤ q ∧ q < n * c + c then fun k => buffer ((q - n * c) * 512 + k) else fs.sectors q := by
  have hcount : fs.blockSize / 512 = c := by omega
  have hplace : ∀ i < c, Word32.add (fs.blockSector n) i = n * c + i := fun i hi =>
    add_blockSector hsize hc h hi
  show (List.range (fs.blockSize / 512)).foldl _ fs.sectors q = _
  rw [hcount]
  exact Table.foldl_update_apply fs.sectors (fun i k => buffer (i * 512 + k)) hplace q

omit hsize in
/-- A sector is in one block only. -/
lemma eq_of_sector {q : ℕ} (hm : m * c ≤ q ∧ q < m * c + c) (hn : n * c ≤ q ∧ q < n * c + c) :
    m = n := by
  have hm' : q / c = m := by
    rw [Nat.div_eq_iff hc]
    omega
  have hn' : q / c = n := by
    rw [Nat.div_eq_iff hc]
    omega
  rw [← hm', hn']

/-- **Reading a block after a block was written.** -/
lemma ext4ReadBlock_ext4WriteBlock (hm : fs.InDevice m) (hn : fs.InDevice n)
    (buffer : ℕ → BitVec 8) (hk : k < fs.blockSize) :
    (fs.ext4WriteBlock n buffer).ext4ReadBlock m k =
      if m = n then buffer k else fs.ext4ReadBlock m k := by
  have hread : (fs.ext4WriteBlock n buffer).ext4ReadBlock m k =
      (fs.ext4WriteBlock n buffer).sectors (m * c + k / 512) (k % 512) := by
    apply ext4ReadBlock_apply _ hc
    · exact hm
    · exact hk
    · exact hsize
  have hsector : m * c ≤ m * c + k / 512 ∧ m * c + k / 512 < m * c + c := by omega
  rw [hread, sectors_ext4WriteBlock hsize hc hn, ext4ReadBlock_apply hsize hc hm hk]
  by_cases hmn : m = n
  · subst hmn
    rw [if_pos hsector, if_pos rfl]
    congr 1
    omega
  · rw [if_neg fun hsector' => hmn (eq_of_sector hc hsector hsector'), if_neg hmn]

/-- The superblock is in one block only. -/
lemma ext4ReadBlock_ext4WriteSuperBlock (hm : fs.InDevice m) (hsuper : m ≠ 1024 / fs.blockSize)
    (hk : k < fs.blockSize) : fs.ext4WriteSuperBlock.ext4ReadBlock m k = fs.ext4ReadBlock m k := by
  have hread : fs.ext4WriteSuperBlock.ext4ReadBlock m k =
      fs.ext4WriteSuperBlock.sectors (m * c + k / 512) (k % 512) := by
    apply ext4ReadBlock_apply _ hc
    · exact hm
    · exact hk
    · exact hsize
  have hother : m * c + k / 512 ≠ 2 := by
    intro htwo
    apply hsuper
    rw [hsize, ← Nat.div_div_eq_div_mul]
    apply eq_of_sector hc (q := 2)
    · omega
    · exact ⟨Nat.div_mul_le_self 2 c, Nat.lt_div_mul_add hc⟩
  rw [hread, ext4ReadBlock_apply hsize hc hm hk]
  show Function.update fs.sectors 2 fs.superBlock _ _ = _
  rw [Function.update_of_ne hother]

end Device

/-! ## Records -/

/-- The number of blocks of the inode table of a group. -/
def inodeTableBlocks (fs : Ext4) : ℕ :=
  (fs.inodesPerGroup * fs.inodeSize + (fs.blockSize - 1)) / fs.blockSize

/-- The records of the file system: the descriptors and bitmaps of the groups, and the blocks of their
inode tables. -/
inductive Record where
  | descriptor (bg : ℕ)
  | bitmap (r : Resource) (bg : ℕ)
  | inodeTable (bg j : ℕ)
  deriving DecidableEq

/-- The descriptor of a group. -/
def bgd (fs : Ext4) (bg : ℕ) : ℕ → BitVec 8 := fs.ext4ReadBlock (fs.bgdBlock bg)

/-- The file system has the record. -/
def Record.Valid (fs : Ext4) : Record → Prop
  | .descriptor bg => bg < fs.blockGroupCount
  | .bitmap _ bg => bg < fs.blockGroupCount
  | .inodeTable bg j => bg < fs.blockGroupCount ∧ j < fs.inodeTableBlocks

/-- The block of a record. -/
def Record.location (fs : Ext4) : Record → ℕ
  | .descriptor bg => fs.bgdBlock bg
  | .bitmap r bg => get32 (fs.bgd bg) r.bitmapField
  | .inodeTable bg j => get32 (fs.bgd bg) 8 + j

/-- The file system has blocks of `1024 << log_block_size` bytes. The records are in different blocks,
none of them in the block of the superblock, and their addresses do not overflow. Neither do the numbers
of blocks. A bitmap has a bit for every block and every inode of the group. -/
structure Layout (fs : Ext4) : Prop where
  blockSize : ∃ log, fs.blockSize = 1024 * 2 ^ log
  perGroup_pos : ∀ r : Resource, 0 < r.perGroup fs
  perGroup_le : ∀ r : Resource, r.perGroup fs ≤ 8 * fs.blockSize
  blocks_lt : fs.blockGroupCount * fs.blocksPerGroup < 2 ^ 32
  inodeSize_pos : 0 < fs.inodeSize
  inDevice : ∀ x : Record, x.Valid fs → fs.InDevice (x.location fs)
  distinct : ∀ x y : Record, x.Valid fs → y.Valid fs → x.location fs = y.location fs → x = y
  superBlock : ∀ x : Record, x.Valid fs → x.location fs ≠ 1024 / fs.blockSize

/-- A bit of the bitmap of a group. -/
def bit (fs : Ext4) (r : Resource) (bg i : ℕ) : Bool :=
  Bitmap.test (fs.ext4ReadBlock ((Record.bitmap r bg).location fs)) i

/-- Blocks are made of sectors. -/
lemma Layout.exists_sectors (h : Layout fs) : ∃ c, fs.blockSize = 512 * c ∧ 0 < c := by
  obtain ⟨log, hlog⟩ := h.blockSize
  refine ⟨2 * 2 ^ log, by rw [hlog]; ring, ?_⟩
  exact Nat.mul_pos (by omega) (Nat.two_pow_pos log)

/-- They have 1024 bytes or more. -/
lemma Layout.blockSize_ge (h : Layout fs) : 1024 ≤ fs.blockSize := by
  obtain ⟨log, hlog⟩ := h.blockSize
  rw [hlog]
  exact Nat.le_mul_of_pos_right _ (Nat.two_pow_pos log)

/-- There is room for the inodes of a group in its inode table. -/
lemma Layout.inodeTable_bytes (h : Layout fs) :
    fs.inodesPerGroup * fs.inodeSize ≤ fs.inodeTableBlocks * fs.blockSize := by
  have hsize := h.blockSize_ge
  have hmod := Nat.div_add_mod (fs.inodesPerGroup * fs.inodeSize + (fs.blockSize - 1)) fs.blockSize
  have hlt := Nat.mod_lt (fs.inodesPerGroup * fs.inodeSize + (fs.blockSize - 1))
    (show 0 < fs.blockSize by omega)
  rw [inodeTableBlocks, Nat.mul_comm (_ / _)]
  omega

/-- The numbers of inodes do not overflow.

**Proof sketch.** The blocks of the inode tables and the first descriptor are different blocks of the
device, and there is at least one byte for every inode in the tables. -/
lemma Layout.inodes_lt (h : Layout fs) : fs.blockGroupCount * fs.inodesPerGroup < 2 ^ 32 := by
  have hsize := h.blockSize_ge
  by_cases hzero : fs.blockGroupCount = 0
  · rw [hzero, Nat.zero_mul]
    omega
  -- the blocks of the tables, and of the first descriptor
  let tables : Finset (ℕ × ℕ) := Finset.range fs.blockGroupCount ×ˢ Finset.range fs.inodeTableBlocks
  let place : ℕ × ℕ → ℕ := fun t => (Record.inodeTable t.1 t.2).location fs
  have hvalid : ∀ t ∈ tables, (Record.inodeTable t.1 t.2).Valid fs := by
    intro t ht
    obtain ⟨h₁, h₂⟩ := Finset.mem_product.1 ht
    exact ⟨Finset.mem_range.1 h₁, Finset.mem_range.1 h₂⟩
  have hdescriptor : (Record.descriptor 0).Valid fs := Nat.pos_of_ne_zero hzero
  have hinj : Set.InjOn place tables := by
    intro t ht u hu htu
    have := h.distinct _ _ (hvalid t ht) (hvalid u hu) htu
    obtain ⟨h₁, h₂⟩ := Record.inodeTable.inj this
    exact Prod.ext h₁ h₂
  have hnot : (Record.descriptor 0).location fs ∉ tables.image place := by
    intro hmem
    obtain ⟨t, ht, hplace⟩ := Finset.mem_image.1 hmem
    have := h.distinct _ _ (hvalid t ht) hdescriptor hplace
    simp at this
  have hlt : ∀ x : Record, x.Valid fs → x.location fs ∈ Finset.range (2 ^ 32 / fs.blockSize) := by
    intro x hx
    have hin : (x.location fs + 1) * fs.blockSize ≤ 2 ^ 32 := h.inDevice x hx
    rw [Finset.mem_range]
    exact (Nat.le_div_iff_mul_le (by omega)).2 hin
  have hcard : fs.blockGroupCount * fs.inodeTableBlocks + 1 ≤ 2 ^ 32 / fs.blockSize := by
    calc fs.blockGroupCount * fs.inodeTableBlocks + 1
        = (insert ((Record.descriptor 0).location fs) (tables.image place)).card := by
          rw [Finset.card_insert_of_notMem hnot, Finset.card_image_of_injOn hinj, Finset.card_product,
            Finset.card_range, Finset.card_range]
      _ ≤ (Finset.range (2 ^ 32 / fs.blockSize)).card := by
          apply Finset.card_le_card
          intro q hq
          rcases Finset.mem_insert.1 hq with rfl | hq
          · exact hlt _ hdescriptor
          · obtain ⟨t, ht, rfl⟩ := Finset.mem_image.1 hq
            exact hlt _ (hvalid t ht)
      _ = 2 ^ 32 / fs.blockSize := Finset.card_range _
  have hbytes : fs.inodesPerGroup ≤ fs.inodeTableBlocks * fs.blockSize :=
    (Nat.le_mul_of_pos_right _ h.inodeSize_pos).trans h.inodeTable_bytes
  have htotal : (fs.blockGroupCount * fs.inodeTableBlocks + 1) * fs.blockSize ≤ 2 ^ 32 :=
    (Nat.le_div_iff_mul_le (by omega)).1 hcard
  calc fs.blockGroupCount * fs.inodesPerGroup
      ≤ fs.blockGroupCount * (fs.inodeTableBlocks * fs.blockSize) := Nat.mul_le_mul_left _ hbytes
    _ = fs.blockGroupCount * fs.inodeTableBlocks * fs.blockSize := (Nat.mul_assoc _ _ _).symm
    _ < (fs.blockGroupCount * fs.inodeTableBlocks + 1) * fs.blockSize := by
        rw [Nat.add_mul]
        omega
    _ ≤ 2 ^ 32 := htotal

/-- The numbers of blocks and inodes do not overflow. -/
lemma Layout.numbers_lt (h : Layout fs) (r : Resource) :
    fs.blockGroupCount * r.perGroup fs < 2 ^ 32 := by
  cases r with
  | block => exact h.blocks_lt
  | inode => exact h.inodes_lt

/-! ## Writing back -/

/-- The superblocks agree on all but the counts of what is free and the time. -/
def SameGeometry (sb sb' : ℕ → BitVec 8) : Prop :=
  ∀ k, k < 8 ∨ 20 ≤ k ∧ k < 48 ∨ 52 ≤ k ∧ k < 274 → sb' k = sb k

/-- The records are where they were. -/
structure SameLayout (fs fs' : Ext4) : Prop where
  blockSize : fs'.blockSize = fs.blockSize
  blocksPerGroup : fs'.blocksPerGroup = fs.blocksPerGroup
  inodesPerGroup : fs'.inodesPerGroup = fs.inodesPerGroup
  blockGroupCount : fs'.blockGroupCount = fs.blockGroupCount
  memory : fs'.memory = fs.memory
  superBlock : SameGeometry fs.superBlock fs'.superBlock
  bgd : ∀ bg < fs.blockGroupCount, ∀ k < 12, fs'.bgd bg k = fs.bgd bg k

namespace SameLayout

/-- A file system has its own layout. -/
lemma refl (fs : Ext4) : SameLayout fs fs :=
  ⟨rfl, rfl, rfl, rfl, rfl, fun _ _ => rfl, fun _ _ _ _ => rfl⟩

/-- A layout that two steps keep. -/
lemma trans {fs'' : Ext4} (h : SameLayout fs fs') (h' : SameLayout fs' fs'') : SameLayout fs fs'' := by
  refine ⟨h'.blockSize.trans h.blockSize, h'.blocksPerGroup.trans h.blocksPerGroup,
    h'.inodesPerGroup.trans h.inodesPerGroup, h'.blockGroupCount.trans h.blockGroupCount,
    h'.memory.trans h.memory, fun k hk => (h'.superBlock k hk).trans (h.superBlock k hk),
    fun bg hbg k hk => ?_⟩
  exact (h'.bgd bg (by rw [h.blockGroupCount]; exact hbg) k hk).trans (h.bgd bg hbg k hk)

/-- The numbers of blocks and inodes in a group are in the superblock. -/
lemma perGroup (h : SameLayout fs fs') (r : Resource) : r.perGroup fs' = r.perGroup fs := by
  cases r with
  | block => exact h.blocksPerGroup
  | inode => exact h.inodesPerGroup

/-- So is the first data block. -/
lemma firstDataBlock (h : SameLayout fs fs') : fs'.firstDataBlock = fs.firstDataBlock :=
  get32_congr fun k hk hlt => h.superBlock k (by omega)

/-- And the size of inodes. -/
lemma inodeSize (h : SameLayout fs fs') : fs'.inodeSize = fs.inodeSize :=
  get16_congr fun k hk hlt => h.superBlock k (by omega)

/-- The descriptors are where they were. -/
lemma bgdBlock (h : SameLayout fs fs') (bg : ℕ) : fs'.bgdBlock bg = fs.bgdBlock bg := by
  rw [Ext4.bgdBlock, Ext4.bgdBlock, h.firstDataBlock]

/-- Inode tables have as many blocks. -/
lemma inodeTableBlocks (h : SameLayout fs fs') : fs'.inodeTableBlocks = fs.inodeTableBlocks := by
  rw [Ext4.inodeTableBlocks, Ext4.inodeTableBlocks, h.inodesPerGroup, h.inodeSize, h.blockSize]

/-- The records are the same. -/
lemma valid (h : SameLayout fs fs') (x : Record) : x.Valid fs' ↔ x.Valid fs := by
  cases x with
  | descriptor bg => rw [Record.Valid, Record.Valid, h.blockGroupCount]
  | bitmap r bg => rw [Record.Valid, Record.Valid, h.blockGroupCount]
  | inodeTable bg j => rw [Record.Valid, Record.Valid, h.blockGroupCount, h.inodeTableBlocks]

/-- They are where they were. -/
lemma location (h : SameLayout fs fs') {x : Record} (hx : x.Valid fs) :
    x.location fs' = x.location fs := by
  cases x with
  | descriptor bg => exact h.bgdBlock bg
  | bitmap r bg =>
    refine get32_congr fun k hk hlt => h.bgd bg hx k ?_
    cases r <;> simp only [Resource.bitmapField] at hlt <;> omega
  | inodeTable bg j =>
    show get32 (fs'.bgd bg) 8 + j = get32 (fs.bgd bg) 8 + j
    rw [get32_congr fun k hk hlt => h.bgd bg hx.1 k (by omega)]

end SameLayout

/-- The layout stays what it is. -/
lemma Layout.of_same (h : Layout fs) (hsame : SameLayout fs fs') : Layout fs' := by
  refine ⟨?_, ?_, ?_, ?_, ?_, fun x hx => ?_, fun x y hx hy hxy => ?_, fun x hx => ?_⟩
  · rw [hsame.blockSize]
    exact h.blockSize
  · intro r
    rw [hsame.perGroup]
    exact h.perGroup_pos r
  · intro r
    rw [hsame.perGroup, hsame.blockSize]
    exact h.perGroup_le r
  · rw [hsame.blockGroupCount, hsame.blocksPerGroup]
    exact h.blocks_lt
  · rw [hsame.inodeSize]
    exact h.inodeSize_pos
  · have hx' := (hsame.valid x).1 hx
    rw [InDevice, hsame.location hx', hsame.blockSize]
    exact h.inDevice x hx'
  · have hx' := (hsame.valid x).1 hx
    have hy' := (hsame.valid y).1 hy
    rw [hsame.location hx', hsame.location hy'] at hxy
    exact h.distinct x y hx' hy' hxy
  · have hx' := (hsame.valid x).1 hx
    rw [hsame.location hx', hsame.blockSize]
    exact h.superBlock x hx'

section Store

variable {r : Resource} {bg : ℕ} (bitmap : ℕ → BitVec 8) {bgd' sb : ℕ → BitVec 8}

variable (bgd' sb) in
/-- **Reading a block after a bitmap was written back.** -/
lemma Layout.read_store (h : Layout fs) (hbg : bg < fs.blockGroupCount) (hin : fs.InDevice n)
    (hn : n ≠ 1024 / fs.blockSize) (hk : k < fs.blockSize) :
    (fs.store bg ((Record.bitmap r bg).location fs) bitmap bgd' sb).ext4ReadBlock n k =
      if n = (Record.descriptor bg).location fs then bgd' k
      else if n = (Record.bitmap r bg).location fs then bitmap k else fs.ext4ReadBlock n k := by
  obtain ⟨c, hsize, hc⟩ := h.exists_sectors
  have hdescriptor : (Record.descriptor bg).Valid fs := hbg
  have hbitmap : (Record.bitmap r bg).Valid fs := hbg
  let written := fs.ext4WriteBlock ((Record.bitmap r bg).location fs) bitmap
  let written' := written.ext4WriteBlock (fs.bgdBlock bg) bgd'
  have hsuper : (fs.store bg ((Record.bitmap r bg).location fs) bitmap bgd' sb).ext4ReadBlock n k =
      written'.ext4ReadBlock n k := by
    apply ext4ReadBlock_ext4WriteSuperBlock _ hc
    · exact hin
    · exact hn
    · exact hk
    · exact hsize
  have hfirst : written.ext4ReadBlock n k = _ :=
    ext4ReadBlock_ext4WriteBlock hsize hc hin (h.inDevice _ hbitmap) bitmap hk
  have hsecond : written'.ext4ReadBlock n k =
      if n = (Record.descriptor bg).location fs then bgd' k else written.ext4ReadBlock n k := by
    apply ext4ReadBlock_ext4WriteBlock _ hc
    · exact hin
    · exact h.inDevice _ hdescriptor
    · exact hk
    · exact hsize
  rw [hsuper, hsecond, hfirst]

variable (bgd' sb) in
/-- Reading a record after a bitmap was written back. -/
lemma Layout.ext4ReadBlock_store (h : Layout fs) (hbg : bg < fs.blockGroupCount) {x : Record}
    (hx : x.Valid fs) (hk : k < fs.blockSize) :
    (fs.store bg ((Record.bitmap r bg).location fs) bitmap bgd' sb).ext4ReadBlock (x.location fs) k =
      if x = .descriptor bg then bgd' k
      else if x = .bitmap r bg then bitmap k else fs.ext4ReadBlock (x.location fs) k := by
  have hdescriptor : (Record.descriptor bg).Valid fs := hbg
  have hbitmap : (Record.bitmap r bg).Valid fs := hbg
  have heq : ∀ {y : Record}, y.Valid fs → (x.location fs = y.location fs ↔ x = y) := fun hy =>
    ⟨h.distinct x _ hx hy, fun hxy => by rw [hxy]⟩
  rw [h.read_store bitmap bgd' sb hbg (h.inDevice x hx) (h.superBlock x hx) hk]
  simp only [heq hdescriptor, heq hbitmap]

/-- The superblock after a bitmap was written back. -/
lemma sameGeometry_store (hsb : SameGeometry fs.superBlock sb) (n : ℕ) :
    SameGeometry fs.superBlock (fs.store bg n bitmap bgd' sb).superBlock := by
  intro k hk
  show set32 sb 48 currentTime k = _
  rw [set32_of_ne (by omega)]
  exact hsb k hk

/-- The descriptors after a bitmap was written back. -/
lemma Layout.bgd_store (h : Layout fs) (hbg : bg < fs.blockGroupCount)
    (hsb : SameGeometry fs.superBlock sb) {bg₁ : ℕ} (hbg₁ : bg₁ < fs.blockGroupCount)
    (hk : k < fs.blockSize) :
    (fs.store bg ((Record.bitmap r bg).location fs) bitmap bgd' sb).bgd bg₁ k =
      if bg₁ = bg then bgd' k else fs.bgd bg₁ k := by
  have hfirst : (fs.store bg ((Record.bitmap r bg).location fs) bitmap bgd' sb).firstDataBlock =
      fs.firstDataBlock :=
    get32_congr fun k hk hlt => sameGeometry_store bitmap hsb _ k (by omega)
  have hblock : (fs.store bg ((Record.bitmap r bg).location fs) bitmap bgd' sb).bgdBlock bg₁ =
      (Record.descriptor bg₁).location fs := by
    rw [Ext4.bgdBlock, hfirst]
    rfl
  rw [Ext4.bgd, hblock, h.ext4ReadBlock_store _ _ _ hbg (x := .descriptor bg₁) hbg₁ hk]
  by_cases he : bg₁ = bg
  · rw [if_pos (by rw [he]), if_pos he]
  · rw [if_neg (by simp [he]), if_neg (by simp), if_neg he]
    rfl

/-- Writing back a bitmap and a descriptor that names the same blocks leaves the records where they
are. -/
lemma Layout.sameLayout_store (h : Layout fs) (hbg : bg < fs.blockGroupCount)
    (hbgd : ∀ k < 12, bgd' k = fs.bgd bg k) (hsb : SameGeometry fs.superBlock sb) :
    SameLayout fs (fs.store bg ((Record.bitmap r bg).location fs) bitmap bgd' sb) := by
  have hsize := h.blockSize_ge
  refine ⟨rfl, rfl, rfl, rfl, rfl, sameGeometry_store bitmap hsb _, fun bg₁ hbg₁ k hk => ?_⟩
  rw [h.bgd_store bitmap hbg hsb hbg₁ (by omega)]
  by_cases he : bg₁ = bg
  · rw [if_pos he, hbgd k hk, he]
  · rw [if_neg he]

/-- **The effect of writing back a bitmap.** -/
lemma Layout.bit_store (h : Layout fs) (hbg : bg < fs.blockGroupCount)
    (hbgd : ∀ k < 12, bgd' k = fs.bgd bg k) (hsb : SameGeometry fs.superBlock sb) {r₁ : Resource}
    {bg₁ i : ℕ} (hbg₁ : bg₁ < fs.blockGroupCount) (hi : i < 8 * fs.blockSize) :
    (fs.store bg ((Record.bitmap r bg).location fs) bitmap bgd' sb).bit r₁ bg₁ i =
      if r₁ = r ∧ bg₁ = bg then Bitmap.test bitmap i else fs.bit r₁ bg₁ i := by
  have hsame := h.sameLayout_store (r := r) bitmap hbg hbgd hsb
  have hvalid : (Record.bitmap r₁ bg₁).Valid fs := hbg₁
  rw [bit, bit, hsame.location hvalid]
  have hread := h.ext4ReadBlock_store (r := r) bitmap bgd' sb hbg hvalid (k := i / 8) (by omega)
  rw [if_neg (by simp)] at hread
  by_cases he : r₁ = r ∧ bg₁ = bg
  · rw [if_pos he]
    rw [if_pos (by rw [he.1, he.2])] at hread
    rw [Bitmap.test, Bitmap.test, hread]
  · rw [if_neg he]
    rw [if_neg fun hrec => he (by simpa using hrec)] at hread
    rw [Bitmap.test, Bitmap.test, hread]

end Store

end Ext4

end Jarvis
