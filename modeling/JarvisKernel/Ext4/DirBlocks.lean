import JarvisKernel.Ext4.Directories
import JarvisKernel.Lib.Records

set_option relaxedAutoImplicit false
set_option autoImplicit false

/-!
# Directory blocks

A directory block is well-formed if its entries tile it, and every entry has room for its name. The live
entries are those whose inode is not 0.

## Main definitions

* `Jarvis.Ext4.DirEntry` — what an entry says.
* `Jarvis.Ext4.DirTiles` — entries at the given offsets tile a part of a block.
* `Jarvis.Ext4.liveEntries` — the entries that are used.
* `Jarvis.Ext4.IsPlace` — the place of a new entry.

## Main results

* `Jarvis.Ext4.DirTiles.congr` — a part of a block depends on its own bytes.
* `Jarvis.Ext4.DirTiles.findPlace_eq` — where `ext4_add_dir_entry` puts a new entry.
-/

namespace Jarvis

namespace Ext4

open ByteBuffer Records

variable {b b' : ℕ → BitVec 8} {start stop mid p k : ℕ} {offsets offsets' : List ℕ}

/-! ## Entries -/

/-- `rec_len` of the entry at an offset. -/
def recLen (b : ℕ → BitVec 8) (p : ℕ) : ℕ := get16 b (p + 4)

/-- `name_len` of the entry at an offset. -/
def nameLen (b : ℕ → BitVec 8) (p : ℕ) : ℕ := (b (p + 6)).toNat

/-- What an entry says: `inode`, `file_type`, and the bytes of `name`. -/
structure DirEntry where
  inode : ℕ
  fileType : BitVec 8
  name : List (BitVec 8)
  deriving DecidableEq

/-- The entry at an offset. -/
def entryAt (b : ℕ → BitVec 8) (p : ℕ) : DirEntry where
  inode := get32 b p
  fileType := b (p + 7)
  name := (List.range (nameLen b p)).map fun k => b (p + 8 + k)

/-- The length of an entry is a multiple of 4, and there is room for its name. -/
structure EntryOk (b : ℕ → BitVec 8) (p : ℕ) : Prop where
  aligned : recLen b p % 4 = 0
  room : 8 + nameLen b p ≤ recLen b p

/-- Entries at the given offsets tile the bytes of a block from `start` to `stop`. -/
structure DirTiles (b : ℕ → BitVec 8) (stop start : ℕ) (offsets : List ℕ) : Prop where
  tiles : Tiles (recLen b) stop start offsets
  ok : ∀ p ∈ offsets, EntryOk b p

/-- The entries that are used. -/
def liveEntries (b : ℕ → BitVec 8) (offsets : List ℕ) : List DirEntry :=
  (offsets.filter fun p => decide (get32 b p ≠ 0)).map (entryAt b)

/-- The entries in two parts of a block. -/
lemma liveEntries_append (b : ℕ → BitVec 8) (offsets offsets' : List ℕ) :
    liveEntries b (offsets ++ offsets') = liveEntries b offsets ++ liveEntries b offsets' := by
  rw [liveEntries, List.filter_append, List.map_append]
  rfl

/-- An entry that is used is live. -/
lemma liveEntries_cons_of_pos (h : get32 b p ≠ 0) :
    liveEntries b (p :: offsets) = entryAt b p :: liveEntries b offsets := by
  rw [liveEntries, List.filter_cons_of_pos (by simpa using h), List.map_cons]
  rfl

/-- A deleted one is not. -/
lemma liveEntries_cons_of_zero (h : get32 b p = 0) :
    liveEntries b (p :: offsets) = liveEntries b offsets := by
  rw [liveEntries, List.filter_cons_of_neg (by simpa using h)]
  rfl

/-- The inode of a live entry is not 0. -/
lemma inode_ne_zero_of_mem {entry : DirEntry} (h : entry ∈ liveEntries b offsets) : entry.inode ≠ 0 := by
  obtain ⟨p, hp, rfl⟩ := List.mem_map.1 h
  exact of_decide_eq_true (List.mem_filter.1 hp).2

/-! ## Parts of a block -/

/-- The fields of an entry depend on its own bytes. -/
lemma EntryOk.congr (h : EntryOk b p) (hsame : ∀ k, p ≤ k → k < p + recLen b p → b' k = b k) :
    recLen b' p = recLen b p ∧ EntryOk b' p ∧ get32 b' p = get32 b p ∧ entryAt b' p = entryAt b p := by
  have hroom := h.room
  have hrec : recLen b' p = recLen b p := get16_congr fun k hge hlt => hsame k (by omega) (by omega)
  have hname : nameLen b' p = nameLen b p := by
    rw [nameLen, nameLen, hsame (p + 6) (by omega) (by omega)]
  have hinode : get32 b' p = get32 b p := get32_congr fun k hge hlt => hsame k hge (by omega)
  refine ⟨hrec, ⟨by rw [hrec]; exact h.aligned, by rw [hrec, hname]; exact hroom⟩, hinode, ?_⟩
  rw [entryAt, entryAt, hinode, hname, hsame (p + 7) (by omega) (by omega), DirEntry.mk.injEq]
  refine ⟨rfl, rfl, List.map_congr_left fun k hk => ?_⟩
  have hlt := List.mem_range.1 hk
  exact hsame _ (by omega) (by omega)

namespace DirTiles

/-- A part of a block depends on its own bytes. -/
lemma congr (h : DirTiles b stop start offsets) (hsame : ∀ k, start ≤ k → k < stop → b' k = b k) :
    DirTiles b' stop start offsets ∧ liveEntries b' offsets = liveEntries b offsets := by
  have hentry : ∀ p ∈ offsets, recLen b' p = recLen b p ∧ EntryOk b' p ∧ get32 b' p = get32 b p ∧
      entryAt b' p = entryAt b p := by
    intro p hp
    obtain ⟨hge, -, hle⟩ := h.tiles.bounds hp
    exact (h.ok p hp).congr fun k hk hlt => hsame k (by omega) (by omega)
  refine ⟨⟨h.tiles.congr fun p hp => (hentry p hp).1, fun p hp => (hentry p hp).2.1⟩, ?_⟩
  have hfilter : (offsets.filter fun p => decide (get32 b' p ≠ 0)) =
      offsets.filter fun p => decide (get32 b p ≠ 0) :=
    List.filter_congr fun p hp => by rw [(hentry p hp).2.2.1]
  rw [liveEntries, liveEntries, hfilter]
  exact List.map_congr_left fun p hp => (hentry p (List.mem_filter.1 hp).1).2.2.2

/-- Nothing is left of a block at its end. -/
lemma nil (b : ℕ → BitVec 8) (stop : ℕ) : DirTiles b stop stop [] :=
  ⟨.nil, fun _ hp => absurd hp List.not_mem_nil⟩

/-- One more entry before those behind it. -/
lemma cons {q : ℕ} (hp : EntryOk b p) (hq : p + recLen b p = q) (h : DirTiles b stop q offsets) :
    DirTiles b stop p (p :: offsets) := by
  have hroom := hp.room
  subst hq
  refine ⟨.cons (by omega) h.tiles, fun q hq => ?_⟩
  rcases List.mem_cons.1 hq with rfl | hq
  · exact hp
  · exact h.ok q hq

/-- The entries behind the first one. -/
lemma tail (h : DirTiles b stop p (p :: offsets)) : DirTiles b stop (p + recLen b p) offsets :=
  ⟨h.tiles.tail, fun q hq => h.ok q (List.mem_cons_of_mem _ hq)⟩

/-- The entries before and behind a place. -/
lemma split (h : DirTiles b stop start (offsets ++ p :: offsets')) :
    DirTiles b p start offsets ∧ DirTiles b stop p (p :: offsets') := by
  obtain ⟨hbefore, hbehind⟩ := h.tiles.split
  exact ⟨⟨hbefore, fun q hq => h.ok q (List.mem_append_left _ hq)⟩,
    ⟨hbehind, fun q hq => h.ok q (List.mem_append_right _ hq)⟩⟩

/-- Two parts of a block are put together. -/
lemma append (h : DirTiles b mid start offsets) (h' : DirTiles b stop mid offsets') :
    DirTiles b stop start (offsets ++ offsets') := by
  refine ⟨h.tiles.append h'.tiles, fun q hq => ?_⟩
  rcases List.mem_append.1 hq with hq | hq
  · exact h.ok q hq
  · exact h'.ok q hq

/-- The part behind the first entries. -/
lemma cut (h : DirTiles b stop start offsets) (hfirst : Tiles (recLen b) mid start offsets')
    (hmid : mid ≤ stop) : ∃ rest, offsets = offsets' ++ rest ∧ DirTiles b stop mid rest := by
  obtain ⟨rest, rfl, hrest⟩ := h.tiles.cut hfirst hmid
  exact ⟨rest, rfl, hrest, fun q hq => h.ok q (List.mem_append_right _ hq)⟩

end DirTiles

/-! ## The place of a new entry -/

/-- A new entry takes the place of the first entry that is not used, or else of the last one. -/
structure IsPlace (b : ℕ → BitVec 8) (offsets before : List ℕ) (p : ℕ) (behind : List ℕ) : Prop where
  split : offsets = before ++ p :: behind
  used : ∀ q ∈ before, get32 b q ≠ 0
  last : get32 b p = 0 ∨ behind = []

/-- A block with entries has a place where the next one is put. -/
lemma exists_isPlace (b : ℕ → BitVec 8) (hne : offsets ≠ []) :
    ∃ before p behind, IsPlace b offsets before p behind := by
  induction offsets with
  | nil => exact absurd rfl hne
  | cons p behind ih =>
    by_cases hlast : get32 b p = 0 ∨ behind = []
    · exact ⟨[], p, behind, rfl, by simp, hlast⟩
    · obtain ⟨hused, hbehind⟩ := not_or.1 hlast
      obtain ⟨before, q, behind', hplace⟩ := ih hbehind
      refine ⟨p :: before, q, behind', by rw [hplace.split]; rfl, fun r hr => ?_, hplace.last⟩
      rcases List.mem_cons.1 hr with rfl | hr
      · exact hused
      · exact hplace.used r hr

/-- The place depends on the bytes of the entries. -/
lemma DirTiles.congr_isPlace {before behind : List ℕ} (h : DirTiles b stop start offsets)
    (hsame : ∀ k, start ≤ k → k < stop → b' k = b k) (hplace : IsPlace b offsets before p behind) :
    IsPlace b' offsets before p behind := by
  have hinode : ∀ q ∈ offsets, get32 b' q = get32 b q := by
    intro q hq
    obtain ⟨hge, -, hle⟩ := h.tiles.bounds hq
    exact ((h.ok q hq).congr fun k hk hlt => hsame k (by omega) (by omega)).2.2.1
  obtain ⟨rfl, hused, hlast⟩ := hplace
  refine ⟨rfl, fun q hq => ?_, ?_⟩
  · rw [hinode q (List.mem_append_left _ hq)]
    exact hused q hq
  · rw [hinode p (List.mem_append_right _ List.mem_cons_self)]
    exact hlast

/-- One round of the loop of `ext4_add_dir_entry`. -/
lemma findPlace_succ (blockSize : ℕ) (b : ℕ → BitVec 8) (rounds offset : ℕ) :
    findPlace blockSize b (rounds + 1) offset =
      if blockSize ≤ offset ∨ get32 b offset = 0 ∨ blockSize ≤ offset + recLen b offset then some offset
      else if recLen b offset = 0 then none
      else findPlace blockSize b rounds (offset + recLen b offset) := rfl

/-- **The loop of `ext4_add_dir_entry`** finds the place. -/
lemma DirTiles.findPlace_eq {before behind : List ℕ} {rounds : ℕ} (h : DirTiles b stop start offsets)
    (hplace : IsPlace b offsets before p behind) (hrounds : before.length < rounds) :
    findPlace stop b rounds start = some p := by
  induction before generalizing start offsets rounds with
  | nil =>
    obtain ⟨rounds, rfl⟩ := Nat.exists_eq_succ_of_ne_zero (Nat.ne_of_gt hrounds)
    obtain rfl := hplace.split
    cases h.tiles with
    | cons hpos hrest =>
      refine if_pos (.inr ?_)
      rcases hplace.last with hzero | rfl
      · exact .inl hzero
      · cases hrest with
        | nil => exact .inr le_rfl
  | cons q before ih =>
    obtain ⟨rounds, rfl⟩ := Nat.exists_eq_succ_of_ne_zero (Nat.ne_of_gt (Nat.zero_lt_of_lt hrounds))
    obtain ⟨hsplit, hused, hlast⟩ := hplace
    obtain rfl := hsplit
    cases h.tiles with
    | cons hpos hrest =>
      -- the place is behind, and so is the end of the block
      obtain ⟨hge, hlt, hle⟩ := hrest.bounds (List.mem_append_right before List.mem_cons_self)
      have hmore : ¬ (stop ≤ q ∨ get32 b q = 0 ∨ stop ≤ q + recLen b q) := by
        rintro (hend | hzero | hend)
        · omega
        · exact hused q List.mem_cons_self hzero
        · omega
      rw [findPlace_succ, if_neg hmore, if_neg (Nat.ne_of_gt hpos)]
      exact ih h.tail ⟨rfl, fun r hr => hused r (List.mem_cons_of_mem _ hr), hlast⟩
        (Nat.lt_of_succ_lt_succ hrounds)

/-! ## Writing an entry -/

/-- Bytes outside of the header of an entry are kept. -/
lemma setEntry_of_ne {inode length count type : ℕ} (h : k < p ∨ p + 8 ≤ k) :
    setEntry b p inode length count type k = b k := by
  rw [setEntry, Function.update_of_ne (by omega), Function.update_of_ne (by omega),
    set16_of_ne (by omega), set32_of_ne (by omega)]

/-- The fields of an entry that was written. -/
lemma fields_setEntry (b : ℕ → BitVec 8) (p inode length count type : ℕ) :
    get32 (setEntry b p inode length count type) p = inode % 2 ^ 32 ∧
      recLen (setEntry b p inode length count type) p = length % 2 ^ 16 ∧
      nameLen (setEntry b p inode length count type) p = count % 2 ^ 8 ∧
      setEntry b p inode length count type (p + 7) = BitVec.ofNat 8 type := by
  have hlow : ∀ k < p + 6, setEntry b p inode length count type k =
      set16 (set32 b p inode) (p + 4) length k := by
    intro k hk
    rw [setEntry, Function.update_of_ne (by omega), Function.update_of_ne (by omega)]
  refine ⟨?_, ?_, ?_, Function.update_self ..⟩
  · rw [get32_congr fun k hk hlt => hlow k (by omega),
      get32_congr fun k hk hlt => set16_of_ne (by omega), get32_set32]
  · rw [recLen, get16_congr fun k hk hlt => hlow k (by omega), get16_set16]
  · rw [nameLen, setEntry, Function.update_of_ne (by omega), Function.update_self, BitVec.toNat_ofNat]

end Ext4

end Jarvis
