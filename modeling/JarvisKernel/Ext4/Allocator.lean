import JarvisKernel.Ext4.Layout

set_option relaxedAutoImplicit false
set_option autoImplicit false

/-!
# The allocator of ext4

What `ext4_allocate_block`, `ext4_free_block`, `ext4_allocate_inode` and `ext4_free_inode` do to the
bitmaps of a file system whose records are in different blocks. The number of a block or inode stands for
one bit of one bitmap; the functions compute the one from the other in two directions.

## Main definitions

* `Jarvis.Ext4.SameBitmaps`, `Jarvis.Ext4.ChangesBit` — effects on the bitmaps.
* `Jarvis.Ext4.Takes`, `Jarvis.Ext4.Frees` — a call that sets or clears a bit.
* `Jarvis.Ext4.Contract` — what is wanted of the functions in one state.
* `Jarvis.Ext4.Call`, `Jarvis.Ext4.call` — calls of the allocator.

## Main results

* `Jarvis.Ext4.allocate_cases`, `Jarvis.Ext4.release_cases` — all that the functions can do.
* `Jarvis.Ext4.Layout.allocate_spec`, `Jarvis.Ext4.Layout.release_spec` — what it does to the bitmaps.
* `Jarvis.Ext4.contract_of_run` — the contract holds after any calls.
-/

namespace Jarvis

namespace Ext4

open ByteBuffer

variable {fs fs₁ fs' : Ext4} {r : Resource} {bg i num : ℕ} {value : Bool}

/-! ## Effects on bitmaps -/

/-- The group of a number. -/
def group (r : Resource) (fs : Ext4) (num : ℕ) : ℕ := (num - 1) / r.perGroup fs

/-- The bit of a number in the bitmap of its group. -/
def index (r : Resource) (fs : Ext4) (num : ℕ) : ℕ := (num - 1) % r.perGroup fs

/-- A block or inode is allocated: its bit is set. -/
def Allocated (r : Resource) (fs : Ext4) (num : ℕ) : Prop :=
  fs.bit r (group r fs num) (index r fs num) = true

/-- No bit of a bitmap has changed. -/
def SameBitmaps (fs fs' : Ext4) : Prop :=
  ∀ r bg i, bg < fs.blockGroupCount → i < 8 * fs.blockSize → fs'.bit r bg i = fs.bit r bg i

/-- One bit has the given value, and no other bit of a bitmap has changed. -/
def SetsBit (fs fs' : Ext4) (r : Resource) (bg i : ℕ) (value : Bool) : Prop :=
  ∀ r' bg' i', bg' < fs.blockGroupCount → i' < 8 * fs.blockSize →
    fs'.bit r' bg' i' = if r' = r ∧ bg' = bg ∧ i' = i then value else fs.bit r' bg' i'

/-- The bit of a number has the given value, and no other bit of a bitmap has changed. -/
def ChangesBit (fs fs' : Ext4) (r : Resource) (num : ℕ) (value : Bool) : Prop :=
  SetsBit fs fs' r (group r fs num) (index r fs num) value

/-! ## Numbers and bits -/

/-- The number of a bit, without overflow. -/
lemma Layout.number_eq (h : Layout fs) (hbg : bg < fs.blockGroupCount) (hi : i < r.perGroup fs) :
    r.number fs bg i = bg * r.perGroup fs + i + 1 := by
  have hlt := h.numbers_lt r
  have hle : (bg + 1) * r.perGroup fs ≤ fs.blockGroupCount * r.perGroup fs := Nat.mul_le_mul_right _ hbg
  rw [Nat.add_mul, Nat.one_mul] at hle
  have hmul : Word32.mul bg (r.perGroup fs) = bg * r.perGroup fs := Nat.mod_eq_of_lt (by omega)
  have hadd : Word32.add (bg * r.perGroup fs) i = bg * r.perGroup fs + i :=
    Word32.add_of_lt (by omega)
  rw [Resource.number, hmul, hadd, Word32.add_of_lt (by omega)]

/-- The number of a bit stands for this bit. -/
lemma group_index_number (bg : ℕ) (hi : i < r.perGroup fs) :
    group r fs (bg * r.perGroup fs + i + 1) = bg ∧ index r fs (bg * r.perGroup fs + i + 1) = i := by
  rw [group, index, Nat.add_sub_cancel, Nat.add_comm]
  constructor
  · rw [Nat.add_mul_div_right _ _ (by omega), Nat.div_eq_of_lt hi, Nat.zero_add]
  · rw [Nat.add_mul_mod_self_right, Nat.mod_eq_of_lt hi]

/-! ## Records that are written back -/

/-- Taking one changes the counts of a descriptor, and not the places of the records before them. -/
lemma takeFromGroup_of_lt (bgd : ℕ → BitVec 8) {k : ℕ} (hk : k < 12) :
    r.takeFromGroup bgd k = bgd k := by
  have hlo : 12 ≤ r.countLoField := by cases r <;> decide
  have hhi : 12 ≤ r.countHiField := by cases r <;> decide
  rw [Resource.takeFromGroup]
  split_ifs
  · rw [set16_of_ne (by omega), set16_of_ne (by omega)]
  · rw [set16_of_ne (by omega)]

/-- Nor does giving one back. -/
lemma giveToGroup_of_lt (bgd : ℕ → BitVec 8) {k : ℕ} (hk : k < 12) :
    r.giveToGroup bgd k = bgd k := by
  have hlo : 12 ≤ r.countLoField := by cases r <;> decide
  have hhi : 12 ≤ r.countHiField := by cases r <;> decide
  rw [Resource.giveToGroup]
  split_ifs
  · rw [set16_of_ne (by omega), set16_of_ne (by omega), set16_of_ne (by omega)]
  · rw [set16_of_ne (by omega)]

/-- Of the superblock it changes the counts only. -/
lemma sameGeometry_takeFromSuper (r : Resource) (sb : ℕ → BitVec 8) :
    SameGeometry sb (r.takeFromSuper sb) := by
  intro k hk
  cases r with
  | block =>
    rw [Resource.takeFromSuper]
    split_ifs
    · rw [set32_of_ne (by omega), set32_of_ne (by omega)]
    · rw [set32_of_ne (by omega)]
  | inode => rw [Resource.takeFromSuper, set32_of_ne (by omega)]

/-- And so does giving one back. -/
lemma sameGeometry_giveToSuper (r : Resource) (sb : ℕ → BitVec 8) :
    SameGeometry sb (r.giveToSuper sb) := by
  intro k hk
  cases r with
  | block =>
    rw [Resource.giveToSuper]
    split_ifs
    · rw [set32_of_ne (by omega), set32_of_ne (by omega), set32_of_ne (by omega)]
    · rw [set32_of_ne (by omega)]
  | inode => rw [Resource.giveToSuper, set32_of_ne (by omega)]

/-- Writing back a bitmap with one bit changed. -/
lemma Layout.store_spec (h : Layout fs) (hbg : bg < fs.blockGroupCount)
    {bitmap bgd' sb : ℕ → BitVec 8}
    (hbitmap : ∀ j, Bitmap.test bitmap j = if j = i then value else fs.bit r bg j)
    (hbgd : ∀ k < 12, bgd' k = fs.bgd bg k) (hsb : SameGeometry fs.superBlock sb) :
    SameLayout fs (fs.store bg ((Record.bitmap r bg).location fs) bitmap bgd' sb) ∧
      SetsBit fs (fs.store bg ((Record.bitmap r bg).location fs) bitmap bgd' sb) r bg i value := by
  refine ⟨h.sameLayout_store bitmap hbg hbgd hsb, fun r' bg' j hbg' hj => ?_⟩
  rw [h.bit_store bitmap hbg hbgd hsb hbg' hj, hbitmap]
  by_cases hmap : r' = r ∧ bg' = bg
  · obtain ⟨rfl, rfl⟩ := hmap
    rw [if_pos ⟨rfl, rfl⟩]
    by_cases hji : j = i
    · rw [if_pos hji, if_pos ⟨rfl, rfl, hji⟩]
    · rw [if_neg hji, if_neg fun hall => hji hall.2.2]
  · rw [if_neg hmap, if_neg fun hall => hmap ⟨hall.1, hall.2.1⟩]

/-- Writing back a bitmap in which a bit was set. -/
lemma Layout.store_set (h : Layout fs) (hbg : bg < fs.blockGroupCount) (r : Resource) (i : ℕ)
    {bgd' sb : ℕ → BitVec 8} (hbgd : ∀ k < 12, bgd' k = fs.bgd bg k)
    (hsb : SameGeometry fs.superBlock sb) :
    SameLayout fs (fs.store bg ((Record.bitmap r bg).location fs)
        (Bitmap.set (fs.ext4ReadBlock ((Record.bitmap r bg).location fs)) i) bgd' sb) ∧
      SetsBit fs (fs.store bg ((Record.bitmap r bg).location fs)
        (Bitmap.set (fs.ext4ReadBlock ((Record.bitmap r bg).location fs)) i) bgd' sb) r bg i true := by
  refine h.store_spec hbg (fun j => ?_) hbgd hsb
  rw [Bitmap.test_set, bit]
  by_cases hji : j = i <;> simp [hji]

/-- Writing back a bitmap in which a bit was cleared. -/
lemma Layout.store_clear (h : Layout fs) (hbg : bg < fs.blockGroupCount) (r : Resource) (i : ℕ)
    {bgd' sb : ℕ → BitVec 8} (hbgd : ∀ k < 12, bgd' k = fs.bgd bg k)
    (hsb : SameGeometry fs.superBlock sb) :
    SameLayout fs (fs.store bg ((Record.bitmap r bg).location fs)
        (Bitmap.clear (fs.ext4ReadBlock ((Record.bitmap r bg).location fs)) i) bgd' sb) ∧
      SetsBit fs (fs.store bg ((Record.bitmap r bg).location fs)
        (Bitmap.clear (fs.ext4ReadBlock ((Record.bitmap r bg).location fs)) i) bgd' sb) r bg i false := by
  refine h.store_spec hbg (fun j => ?_) hbgd hsb
  rw [Bitmap.test_clear, bit]
  by_cases hji : j = i <;> simp [hji]

/-- A bit that is set in a file system with the same bitmaps. -/
lemma SetsBit.of_same (h : SetsBit fs₁ fs' r bg i value) (hsame : SameLayout fs fs₁)
    (hbits : SameBitmaps fs fs₁) : SetsBit fs fs' r bg i value := by
  intro r' bg' j hbg' hj
  rw [h r' bg' j (by rw [hsame.blockGroupCount]; exact hbg') (by rw [hsame.blockSize]; exact hj),
    hbits r' bg' j hbg' hj]

/-- The numbers of bits are those of the layout. -/
lemma SameLayout.number (h : SameLayout fs fs₁) (r : Resource) (bg i : ℕ) :
    r.number fs₁ bg i = r.number fs bg i := by
  rw [Resource.number, Resource.number, h.perGroup]

/-- The same bits are passed over. -/
lemma SameLayout.skipped (h : SameLayout fs fs₁) (r : Resource) (bg i : ℕ) :
    r.skipped fs₁ bg i = r.skipped fs bg i := by
  cases r with
  | inode => rfl
  | block =>
    rw [Resource.skipped, Resource.skipped, Resource.number, Resource.number, h.perGroup,
      h.firstDataBlock]

/-! ## Allocating -/

/-- What an allocating function does: it fails and no bitmap changes, or it sets a bit that was clear and
returns its number. -/
def AllocateResult (r : Resource) (fs : Ext4) (result : Ext4 × ℕ) : Prop :=
  SameLayout fs result.1 ∧
    (result.2 = 0 ∧ SameBitmaps fs result.1 ∨
      ∃ bg i, bg < fs.blockGroupCount ∧ i < r.perGroup fs ∧ r.skipped fs bg i = false ∧
        result.2 = bg * r.perGroup fs + i + 1 ∧ fs.bit r bg i = false ∧
        SetsBit fs result.1 r bg i true)

/-- The file system after calls of `malloc`. -/
def withMallocs (fs : Ext4) (n : ℕ) : Ext4 := { fs with mallocs := n }

/-- A call of `malloc` says whether there is memory. -/
lemma malloc_eq {ok : Bool} (h : fs.memory fs.mallocs = ok) :
    fs.malloc = (fs.withMallocs (fs.mallocs + 1), ok) := congrArg (Prod.mk _) h

/-- `malloc` changes nothing of the file system. -/
lemma withMallocs_spec (fs : Ext4) (n : ℕ) :
    SameLayout fs (fs.withMallocs n) ∧ SameBitmaps fs (fs.withMallocs n) :=
  ⟨⟨rfl, rfl, rfl, rfl, rfl, fun _ _ => rfl, fun _ _ _ _ => rfl⟩, fun _ _ _ _ _ => rfl⟩

/-- The file system after bit `i` of the bitmap of a group was set. -/
def taken (fs : Ext4) (r : Resource) (bg i : ℕ) : Ext4 :=
  fs.store bg ((Record.bitmap r bg).location fs)
    (Bitmap.set (fs.ext4ReadBlock ((Record.bitmap r bg).location fs)) i) (r.takeFromGroup (fs.bgd bg))
    (r.takeFromSuper fs.superBlock)

/-- An allocating function sets a bit that is clear, in a group that counts some that are free. -/
structure Takes (r : Resource) (fs : Ext4) (bg i : ℕ) : Prop where
  group : bg < fs.blockGroupCount
  index : i < r.perGroup fs
  skipped : r.skipped fs bg i = false
  clear : fs.bit r bg i = false
  counted : ¬ (get16 (fs.bgd bg) r.countLoField = 0 ∧ get16 (fs.bgd bg) r.countHiField = 0)

/-- The numbers do not depend on the calls of `malloc`. -/
lemma number_withMallocs (n : ℕ) : r.number (fs.withMallocs n) bg i = r.number fs bg i := by
  cases r <;> rfl

/-- Nor does what can be taken. -/
lemma Takes.of_withMallocs {n : ℕ} (h : Takes r (fs.withMallocs n) bg i) : Takes r fs bg i := by
  cases r <;> exact ⟨h.group, h.index, h.skipped, h.clear, h.counted⟩

/-- **The loop over the groups** only calls `malloc`, or it also sets a bit.

**Proof sketch.** By induction on the number of groups that are left. A group without free bits is passed
over, and so is one whose bits are all set or reserved. Otherwise the first bit that is clear is set. -/
lemma allocateFrom_cases (r : Resource) {count bg : ℕ} (hcount : bg + count ≤ fs.blockGroupCount) :
    (∃ n, allocateFrom r count bg fs = (fs.withMallocs n, 0)) ∨
      ∃ n bg' i, Takes r fs bg' i ∧
        allocateFrom r count bg fs = ((fs.withMallocs n).taken r bg' i, r.number fs bg' i) := by
  induction count generalizing bg fs with
  | zero => exact .inl ⟨fs.mallocs, rfl⟩
  | succ count ih =>
    rw [allocateFrom]
    dsimp only
    split_ifs with hnone
    · exact ih (by omega)
    cases hmemory : fs.memory fs.mallocs with
    | false =>
      rw [malloc_eq hmemory]
      exact .inl ⟨_, rfl⟩
    | true =>
      rw [malloc_eq hmemory]
      dsimp only
      cases hfind : (List.range (r.perGroup (fs.withMallocs (fs.mallocs + 1)))).find? fun i =>
          !r.skipped (fs.withMallocs (fs.mallocs + 1)) bg i &&
            !Bitmap.test ((fs.withMallocs (fs.mallocs + 1)).ext4ReadBlock
              (get32 (fs.ext4ReadBlock (fs.bgdBlock bg)) r.bitmapField)) i with
      | none =>
        have hrest : bg + 1 + count ≤ (fs.withMallocs (fs.mallocs + 1)).blockGroupCount := by
          show bg + 1 + count ≤ fs.blockGroupCount
          omega
        rcases ih hrest with ⟨n, hcall'⟩ | ⟨n, bg', i, htakes, hcall'⟩
        · exact .inl ⟨n, hcall'⟩
        · rw [number_withMallocs] at hcall'
          exact .inr ⟨n, bg', i, htakes.of_withMallocs, hcall'⟩
      | some i =>
        have hclear := List.find?_some hfind
        rw [Bool.and_eq_true, Bool.not_eq_true', Bool.not_eq_true'] at hclear
        have hi := List.mem_range.1 (List.mem_of_find?_eq_some hfind)
        have hbg : bg < fs.blockGroupCount := by omega
        have htakes : Takes r (fs.withMallocs (fs.mallocs + 1)) bg i :=
          ⟨hbg, hi, hclear.1, hclear.2, hnone⟩
        refine .inr ⟨fs.mallocs + 1, bg, i, htakes.of_withMallocs, ?_⟩
        rw [← number_withMallocs (fs.mallocs + 1)]
        rfl

/-- **What the allocating functions do.** -/
lemma allocate_cases (r : Resource) (fs : Ext4) :
    (∃ n, allocate r fs = (fs.withMallocs n, 0)) ∨
      ∃ n bg i, r.exhausted fs = false ∧ Takes r fs bg i ∧
        allocate r fs = ((fs.withMallocs n).taken r bg i, r.number fs bg i) := by
  rw [allocate]
  cases hexhausted : r.exhausted fs with
  | true => exact .inl ⟨fs.mallocs, rfl⟩
  | false =>
    have hcount : 0 + fs.blockGroupCount ≤ fs.blockGroupCount := by omega
    rcases allocateFrom_cases r hcount with ⟨n, hcall⟩ | ⟨n, bg, i, htakes, hcall⟩
    · exact .inl ⟨n, hcall⟩
    · exact .inr ⟨n, bg, i, rfl, htakes, hcall⟩

/-- Setting a bit. -/
lemma Layout.taken_spec (h : Layout fs) (hbg : bg < fs.blockGroupCount) (r : Resource) (i : ℕ) :
    SameLayout fs (fs.taken r bg i) ∧ SetsBit fs (fs.taken r bg i) r bg i true :=
  h.store_set hbg r i (fun _ hk => takeFromGroup_of_lt _ hk) (sameGeometry_takeFromSuper r _)

/-- **The allocating functions.** -/
lemma Layout.allocate_spec (h : Layout fs) (r : Resource) : AllocateResult r fs (allocate r fs) := by
  rcases allocate_cases r fs with ⟨n, hcall⟩ | ⟨n, bg, i, -, htakes, hcall⟩
  · obtain ⟨hsame, hbits⟩ := withMallocs_spec fs n
    rw [hcall]
    exact ⟨hsame, .inl ⟨rfl, hbits⟩⟩
  · obtain ⟨hsame, hbits⟩ := withMallocs_spec fs n
    have hbg : bg < (fs.withMallocs n).blockGroupCount := htakes.group
    obtain ⟨hlayout, hsets⟩ := (h.of_same hsame).taken_spec hbg r i
    rw [hcall]
    exact ⟨hsame.trans hlayout, .inr ⟨bg, i, htakes.group, htakes.index, htakes.skipped,
      h.number_eq htakes.group htakes.index, htakes.clear, hsets.of_same hsame hbits⟩⟩

/-! ## Freeing -/

/-- A number that a freeing function takes: it is in a group and not reserved. -/
def InGroup (r : Resource) (fs : Ext4) (num : ℕ) : Prop :=
  num ≠ 0 ∧ group r fs num < fs.blockGroupCount ∧ r.reserved fs num = false

/-- A freeing function clears a bit that is set, if there is memory for the buffer. -/
structure Frees (r : Resource) (fs : Ext4) (num : ℕ) : Prop where
  inGroup : InGroup r fs num
  memory : fs.memory fs.mallocs = true
  allocated : Allocated r fs num

/-- The file system after bit `i` of the bitmap of a group was cleared. -/
def given (fs : Ext4) (r : Resource) (bg i : ℕ) : Ext4 :=
  fs.store bg ((Record.bitmap r bg).location fs)
    (Bitmap.clear (fs.ext4ReadBlock ((Record.bitmap r bg).location fs)) i) (r.giveToGroup (fs.bgd bg))
    (r.giveToSuper fs.superBlock)

/-- **What the freeing functions do.** -/
lemma release_cases (r : Resource) (fs : Ext4) (num : ℕ) :
    (¬ Frees r fs num ∧ ∃ n, release r fs num = fs.withMallocs n) ∨
      (Frees r fs num ∧ release r fs num =
        (fs.withMallocs (fs.mallocs + 1)).given r (group r fs num) (index r fs num)) := by
  by_cases hzero : num = 0
  · exact .inl ⟨fun hfrees => hfrees.inGroup.1 hzero, fs.mallocs, if_pos hzero⟩
  by_cases hgroup : fs.blockGroupCount ≤ group r fs num
  · refine .inl ⟨fun hfrees => ?_, fs.mallocs, (if_neg hzero).trans (if_pos hgroup)⟩
    have := hfrees.inGroup.2.1
    omega
  by_cases hreserved : r.reserved fs num = true
  · refine .inl ⟨fun hfrees => ?_, fs.mallocs,
      (if_neg hzero).trans ((if_neg hgroup).trans (if_pos hreserved))⟩
    have := hfrees.inGroup.2.2
    simp [hreserved] at this
  have hstart : release r fs num = _ := (if_neg hzero).trans ((if_neg hgroup).trans (if_neg hreserved))
  cases hmemory : fs.memory fs.mallocs with
  | false =>
    rw [malloc_eq hmemory] at hstart
    refine .inl ⟨fun hfrees => ?_, _, hstart⟩
    have := hfrees.memory
    simp [hmemory] at this
  | true =>
    rw [malloc_eq hmemory] at hstart
    by_cases hfree : fs.bit r (group r fs num) (index r fs num) = false
    · refine .inl ⟨fun hfrees => ?_, _, hstart.trans (if_pos hfree)⟩
      have := hfrees.allocated
      simp [Allocated, hfree] at this
    · have hallocated : Allocated r fs num := by simpa [Allocated] using hfree
      exact .inr ⟨⟨⟨hzero, by omega, by simpa using hreserved⟩, hmemory, hallocated⟩,
        hstart.trans (if_neg hfree)⟩

/-- Clearing a bit. -/
lemma Layout.given_spec (h : Layout fs) (hbg : bg < fs.blockGroupCount) (r : Resource) (i : ℕ) :
    SameLayout fs (fs.given r bg i) ∧ SetsBit fs (fs.given r bg i) r bg i false :=
  h.store_clear hbg r i (fun _ hk => giveToGroup_of_lt _ hk) (sameGeometry_giveToSuper r _)

/-- **The freeing functions.** If there is memory for the buffer and the number is that of a block or
inode that is allocated, its bit is cleared; otherwise no bitmap changes. -/
lemma Layout.release_spec (h : Layout fs) (r : Resource) (num : ℕ) :
    SameLayout fs (release r fs num) ∧
      (InGroup r fs num ∧ fs.memory fs.mallocs = true ∧ Allocated r fs num ∧
          ChangesBit fs (release r fs num) r num false ∨
        ¬ (InGroup r fs num ∧ fs.memory fs.mallocs = true ∧ Allocated r fs num) ∧
          SameBitmaps fs (release r fs num)) := by
  rcases release_cases r fs num with ⟨hnot, n, hcall⟩ | ⟨hfrees, hcall⟩
  · obtain ⟨hsame, hbits⟩ := withMallocs_spec fs n
    rw [hcall]
    exact ⟨hsame, .inr ⟨fun hall => hnot ⟨hall.1, hall.2.1, hall.2.2⟩, hbits⟩⟩
  · obtain ⟨hsame, hbits⟩ := withMallocs_spec fs (fs.mallocs + 1)
    have hbg : group r fs num < (fs.withMallocs (fs.mallocs + 1)).blockGroupCount := hfrees.inGroup.2.1
    obtain ⟨hlayout, hsets⟩ := (h.of_same hsame).given_spec hbg r (index r fs num)
    rw [hcall]
    exact ⟨hsame.trans hlayout, .inl ⟨hfrees.inGroup, hfrees.memory, hfrees.allocated,
      hsets.of_same hsame hbits⟩⟩

/-! ## The contract -/

/-- A number that no group has, or that is reserved. -/
def OutOfRange (r : Resource) (fs : Ext4) (num : ℕ) : Prop :=
  num = 0 ∨ fs.blockGroupCount ≤ group r fs num ∨ r.reserved fs num = true

/-- The number of a block up to the last one of the file system, or of an inode. -/
def UpToLast (fs : Ext4) (num : ℕ) : Resource → Prop
  | .block => num ≤ fs.blocksCountLo
  | .inode => True

/-- What is wanted of the functions for blocks, or for inodes, in one state. Allocating returns a number
that is not allocated, and sets its bit and no other. Freeing what is allocated clears its bit and no
other, if there is memory for the buffer. Freeing what is not allocated or out of range changes no bitmap,
and neither does allocating when nothing is found. Freeing what was just allocated restores the bitmaps,
if there is memory for the buffer. -/
structure Contract (fs : Ext4) (r : Resource) : Prop where
  allocate : ∀ fs' num, Ext4.allocate r fs = (fs', num) → num ≠ 0 →
    ¬ Allocated r fs num ∧ ChangesBit fs fs' r num true
  allocate_none : ∀ fs', Ext4.allocate r fs = (fs', 0) → SameBitmaps fs fs'
  release : ∀ num, ¬ OutOfRange r fs num → UpToLast fs num r → Allocated r fs num →
    fs.memory fs.mallocs = true → ChangesBit fs (Ext4.release r fs num) r num false
  release_double : ∀ num, ¬ Allocated r fs num → SameBitmaps fs (Ext4.release r fs num)
  release_outOfRange : ∀ num, OutOfRange r fs num → SameBitmaps fs (Ext4.release r fs num)
  restore : ∀ fs' num, Ext4.allocate r fs = (fs', num) → fs'.memory fs'.mallocs = true →
    SameBitmaps fs (Ext4.release r fs' num)

/-- A number is in a group, or out of range. -/
lemma inGroup_iff : InGroup r fs num ↔ ¬ OutOfRange r fs num := by
  rw [InGroup, OutOfRange]
  cases r.reserved fs num <;> simp

/-- A bit that is not passed over has a number that is not reserved. -/
lemma Layout.reserved_eq_false (h : Layout fs) (hbg : bg < fs.blockGroupCount) (hi : i < r.perGroup fs)
    (hskip : r.skipped fs bg i = false) : r.reserved fs (bg * r.perGroup fs + i + 1) = false := by
  cases r with
  | inode => rfl
  | block =>
    rw [← h.number_eq (r := .block) hbg hi]
    exact hskip

/-- **Freeing what was just allocated restores the bitmaps.** -/
lemma Layout.restore (h : Layout fs) {fs' : Ext4} {num : ℕ} (halloc : Ext4.allocate r fs = (fs', num))
    (hmemory : fs'.memory fs'.mallocs = true) : SameBitmaps fs (Ext4.release r fs' num) := by
  have hspec := h.allocate_spec r
  rw [halloc] at hspec
  obtain ⟨hsame, ⟨rfl, hbits⟩ | ⟨bg, i, hbg, hi, hskip, rfl, hclear, hsets⟩⟩ := hspec
  · exact hbits
  have h' := h.of_same hsame
  have hi' : i < r.perGroup fs' := by rw [hsame.perGroup]; exact hi
  have hile : i < 8 * fs.blockSize := Nat.lt_of_lt_of_le hi (h.perGroup_le r)
  obtain ⟨hgroup, hindex⟩ := group_index_number bg hi'
  rw [hsame.perGroup] at hgroup hindex
  have hallocated : Allocated r fs' (bg * r.perGroup fs + i + 1) := by
    rw [Allocated, hgroup, hindex, hsets r bg i hbg hile, if_pos ⟨rfl, rfl, rfl⟩]
  have hin : InGroup r fs' (bg * r.perGroup fs + i + 1) := by
    refine ⟨by omega, ?_, ?_⟩
    · rw [hgroup, hsame.blockGroupCount]
      exact hbg
    · have hbg' : bg < fs'.blockGroupCount := by rw [hsame.blockGroupCount]; exact hbg
      have hres := h'.reserved_eq_false hbg' hi' (by rw [hsame.skipped, hskip])
      rw [hsame.perGroup] at hres
      exact hres
  obtain ⟨-, ⟨-, -, -, hchanges⟩ | ⟨hnot, -⟩⟩ := h'.release_spec r (bg * r.perGroup fs + i + 1)
  · intro r₁ bg₁ i₁ hbg₁ hi₁
    rw [hchanges r₁ bg₁ i₁ (by rw [hsame.blockGroupCount]; exact hbg₁)
      (by rw [hsame.blockSize]; exact hi₁), hgroup, hindex, hsets r₁ bg₁ i₁ hbg₁ hi₁]
    split_ifs with hbit
    · obtain ⟨rfl, rfl, rfl⟩ := hbit
      exact hclear.symm
    · rfl
  · exact absurd ⟨hin, hmemory, hallocated⟩ hnot

/-- **The contract holds in every file system whose records are in different blocks.** -/
lemma Layout.contract (h : Layout fs) (r : Resource) : Contract fs r where
  allocate fs' num halloc hnum := by
    have hspec := h.allocate_spec r
    rw [halloc] at hspec
    obtain ⟨-, ⟨hzero, -⟩ | ⟨bg, i, hbg, hi, -, rfl, hclear, hsets⟩⟩ := hspec
    · exact absurd hzero hnum
    · obtain ⟨hgroup, hindex⟩ := group_index_number bg hi
      rw [Allocated, ChangesBit, hgroup, hindex, hclear]
      exact ⟨by simp, hsets⟩
  allocate_none fs' halloc := by
    have hspec := h.allocate_spec r
    rw [halloc] at hspec
    obtain ⟨-, ⟨-, hbits⟩ | ⟨bg, i, -, -, -, hnum, -⟩⟩ := hspec
    · exact hbits
    · exact absurd hnum (by omega)
  release num hrange _ hallocated hmemory := by
    obtain ⟨-, ⟨-, -, -, hchanges⟩ | ⟨hnot, -⟩⟩ := h.release_spec r num
    · exact hchanges
    · exact absurd ⟨inGroup_iff.2 hrange, hmemory, hallocated⟩ hnot
  release_double num hfree := by
    obtain ⟨-, ⟨-, -, hallocated, -⟩ | ⟨-, hbits⟩⟩ := h.release_spec r num
    · exact absurd hallocated hfree
    · exact hbits
  release_outOfRange num hrange := by
    obtain ⟨-, ⟨hin, -⟩ | ⟨-, hbits⟩⟩ := h.release_spec r num
    · exact absurd hrange (inGroup_iff.1 hin)
    · exact hbits
  restore _ _ halloc hmemory := h.restore halloc hmemory

/-! ## Runs -/

/-- Calls of the allocator. -/
inductive Call where
  | allocateBlock
  | freeBlock (blockNum : ℕ)
  | allocateInode
  | freeInode (inodeNum : ℕ)

/-- The file system after a call. -/
def call (fs : Ext4) : Call → Ext4
  | .allocateBlock => fs.ext4AllocateBlock.1
  | .freeBlock blockNum => fs.ext4FreeBlock blockNum
  | .allocateInode => fs.ext4AllocateInode.1
  | .freeInode inodeNum => fs.ext4FreeInode inodeNum

/-- Every call keeps the layout. -/
lemma Layout.sameLayout_call (h : Layout fs) (c : Call) : SameLayout fs (fs.call c) := by
  cases c with
  | allocateBlock => exact (h.allocate_spec .block).1
  | freeBlock blockNum => exact (h.release_spec .block blockNum).1
  | allocateInode => exact (h.allocate_spec .inode).1
  | freeInode inodeNum => exact (h.release_spec .inode inodeNum).1

/-- So do all calls of a run. -/
lemma Layout.foldl_call (h : Layout fs) (calls : List Call) : Layout (calls.foldl call fs) := by
  induction calls generalizing fs with
  | nil => exact h
  | cons c calls ih => exact ih (h.of_same (h.sameLayout_call c))

/-- **After any calls with any arguments, the contract holds for blocks and for inodes.** -/
theorem contract_of_run (fs : Ext4) (h : Layout fs) (calls : List Call) (r : Resource) :
    Contract (calls.foldl call fs) r :=
  (h.foldl_call calls).contract r

/-- A device with eight blocks of 1024 bytes in a group for sixteen: the superblock, the descriptor of the
group, its bitmaps and the inode table are in blocks 1 to 5. The bits of blocks that the device does not
have are set. -/
def smallDevice : ℕ → ℕ → BitVec 8
  | 2, 4 => 8
  | 2, 12 => 3
  | 2, 16 => 6
  | 2, 20 => 1
  | 2, 32 => 16
  | 2, 40 => 8
  | 2, 88 => 128
  | 4, 0 => 3
  | 4, 4 => 4
  | 4, 8 => 5
  | 4, 12 => 3
  | 4, 14 => 6
  | 6, 0 => 0x1F
  | 6, 1 => 0xFF
  | 8, 0 => 0x03
  | _, _ => 0

/-- The device, mounted. The first call of `malloc` is the only one that succeeds. -/
def smallFileSystem : Ext4 := ext4ReadSuperBlock smallDevice fun n => decide (n = 0)

/-- A file system with one group, whose records are in blocks 2 to 5 of 1024 bytes. -/
structure OneGroup (fs : Ext4) : Prop where
  blockSize : fs.blockSize = 1024
  blockGroupCount : fs.blockGroupCount = 1
  inodeTableBlocks : fs.inodeTableBlocks = 1
  perGroup : ∀ r : Resource, 0 < r.perGroup fs ∧ r.perGroup fs ≤ 8192
  inodeSize : 0 < fs.inodeSize
  descriptor : (Record.descriptor 0).location fs = 2
  blockBitmap : (Record.bitmap .block 0).location fs = 3
  inodeBitmap : (Record.bitmap .inode 0).location fs = 4
  inodeTable : (Record.inodeTable 0 0).location fs = 5

/-- The records of the file system, one by one. -/
lemma OneGroup.location (h : OneGroup fs) {x : Record} (hx : x.Valid fs) :
    x = .descriptor 0 ∧ x.location fs = 2 ∨ x = .bitmap .block 0 ∧ x.location fs = 3 ∨
      x = .bitmap .inode 0 ∧ x.location fs = 4 ∨ x = .inodeTable 0 0 ∧ x.location fs = 5 := by
  cases x with
  | descriptor bg =>
    rw [Record.Valid, h.blockGroupCount] at hx
    obtain rfl : bg = 0 := by omega
    exact .inl ⟨rfl, h.descriptor⟩
  | bitmap r bg =>
    rw [Record.Valid, h.blockGroupCount] at hx
    obtain rfl : bg = 0 := by omega
    cases r with
    | block => exact .inr (.inl ⟨rfl, h.blockBitmap⟩)
    | inode => exact .inr (.inr (.inl ⟨rfl, h.inodeBitmap⟩))
  | inodeTable bg j =>
    rw [Record.Valid, h.blockGroupCount, h.inodeTableBlocks] at hx
    obtain rfl : bg = 0 := by omega
    obtain rfl : j = 0 := by omega
    exact .inr (.inr (.inr ⟨rfl, h.inodeTable⟩))

/-- The records of one group lie in different blocks. -/
lemma OneGroup.layout (h : OneGroup fs) : Layout fs := by
  refine ⟨⟨0, by rw [h.blockSize, Nat.pow_zero]⟩, fun r => (h.perGroup r).1, fun r => ?_, ?_, h.inodeSize,
    fun x hx => ?_, fun x y hx hy hxy => ?_, fun x hx => ?_⟩
  · rw [h.blockSize]
    exact (h.perGroup r).2
  · have hle : fs.blocksPerGroup ≤ 8192 := (h.perGroup .block).2
    rw [h.blockGroupCount]
    omega
  · rw [InDevice, h.blockSize]
    rcases h.location hx with ⟨-, hloc⟩ | ⟨-, hloc⟩ | ⟨-, hloc⟩ | ⟨-, hloc⟩ <;> omega
  · rcases h.location hx with ⟨rfl, hloc⟩ | ⟨rfl, hloc⟩ | ⟨rfl, hloc⟩ | ⟨rfl, hloc⟩ <;>
      rcases h.location hy with ⟨rfl, hloc'⟩ | ⟨rfl, hloc'⟩ | ⟨rfl, hloc'⟩ | ⟨rfl, hloc'⟩ <;>
      first
      | rfl
      | omega
  · rw [h.blockSize]
    rcases h.location hx with ⟨-, hloc⟩ | ⟨-, hloc⟩ | ⟨-, hloc⟩ | ⟨-, hloc⟩ <;> omega

/-- So do those of the small file system. -/
lemma layout_smallFileSystem : Layout smallFileSystem := by
  apply OneGroup.layout
  refine ⟨by decide +kernel, by decide +kernel, by decide +kernel, fun r => ?_, by decide +kernel,
    by decide +kernel, by decide +kernel, by decide +kernel, by decide +kernel⟩
  cases r <;> decide +kernel

/-- There the block and the inode that are allocated, and freed with numbers out of range, are as is
wanted. -/
theorem contract_of_run_smallFileSystem :
    Layout smallFileSystem ∧
      Contract ([.allocateBlock, .freeBlock 3, .allocateInode, .freeBlock 6, .freeInode 99].foldl call
        smallFileSystem) .block :=
  ⟨layout_smallFileSystem, contract_of_run smallFileSystem layout_smallFileSystem _ _⟩

/-- Without memory for the buffer, what was just allocated is not freed; and freeing block 9 of the eight
blocks changes a bitmap. -/
theorem not_restored_smallFileSystem :
    ∃ fs, Layout fs ∧
      ¬ SameBitmaps fs (fs.ext4AllocateBlock.1.ext4FreeBlock fs.ext4AllocateBlock.2) ∧
      ∃ num, fs.blocksCountLo < num ∧ ¬ SameBitmaps fs (fs.ext4FreeBlock num) := by
  have hlayout := layout_smallFileSystem
  refine ⟨smallFileSystem, hlayout, fun hsame => ?_, 9, by decide +kernel, fun hsame => ?_⟩
  · -- block 6 is allocated, and stays so
    have hnum : (allocate .block smallFileSystem).2 = 6 := by decide +kernel
    have hmallocs : (allocate .block smallFileSystem).1.mallocs = 1 := by decide +kernel
    obtain ⟨hfree, hchanges⟩ := (hlayout.contract .block).allocate
      (allocate .block smallFileSystem).1 6 (Prod.ext rfl hnum) (by decide)
    obtain ⟨hsame₁, -⟩ := hlayout.allocate_spec .block
    have hset := hchanges .block 0 5 (by decide +kernel) (by decide +kernel)
    rw [if_pos (by decide +kernel)] at hset
    obtain ⟨-, ⟨-, hmemory, -⟩ | ⟨-, hkept⟩⟩ := (hlayout.of_same hsame₁).release_spec .block 6
    · rw [hsame₁.memory, hmallocs] at hmemory
      exact absurd hmemory (by decide)
    · have hbit := hsame .block 0 5 (by decide +kernel) (by decide +kernel)
      have hstill := hkept .block 0 5 (by rw [hsame₁.blockGroupCount]; decide +kernel)
        (by rw [hsame₁.blockSize]; decide +kernel)
      rw [ext4AllocateBlock, ext4FreeBlock, hnum, hstill, hset] at hbit
      exact absurd hbit (by decide +kernel)
  · -- the bit of block 9 is set, and cleared
    obtain ⟨-, ⟨-, -, -, hchanges⟩ | ⟨hnot, -⟩⟩ := hlayout.release_spec .block 9
    · have hclear := hchanges .block 0 8 (by decide +kernel) (by decide +kernel)
      rw [if_pos (by decide +kernel)] at hclear
      have hbit := hsame .block 0 8 (by decide +kernel) (by decide +kernel)
      rw [ext4FreeBlock, hclear] at hbit
      exact absurd hbit (by decide +kernel)
    · exact hnot ⟨⟨by decide, by decide +kernel, by decide +kernel⟩, by decide +kernel, by
        show smallFileSystem.bit .block _ _ = true
        decide +kernel⟩

end Ext4

end Jarvis
