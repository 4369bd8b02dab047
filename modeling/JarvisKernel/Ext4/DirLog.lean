import JarvisKernel.Ext4.AddEntry

set_option relaxedAutoImplicit false
set_option autoImplicit false

/-!
# The log of a directory

What a directory block becomes when entries are added to it. The block that `ext4_mkdir` makes has the entries `.` and
`..`. The first entry that is added takes the place of `..`, and every other one is put behind the last one, so that
the block is a log of the entries that were added, with zeros behind.

## Main definitions

* `Jarvis.Ext4.DirAdd` — an entry that can be added.
* `Jarvis.Ext4.logEnd`, `Jarvis.Ext4.logOffsets` — where the entries are.
* `Jarvis.Ext4.LogBlock` — the block of a directory to which entries were added.

## Main results

* `Jarvis.Ext4.LogBlock.findPlace_eq` — the place of a new entry.
* `Jarvis.Ext4.LogBlock.insert` — the block with a new entry.
* `Jarvis.Ext4.logBlock_newDirBlock` — a new directory.
-/

namespace Jarvis

namespace Ext4

open ByteBuffer Records

/-! ## Logs -/

/-- An entry that can be added: its name is not empty and has at most 255 characters, and it has an inode. -/
structure DirAdd where
  name : CString
  num : ℕ
  type : FileType
  name_pos : 1 ≤ name.length
  name_le : name.length ≤ 255
  num_ne_zero : num ≠ 0
  num_lt : num < 2 ^ 32

namespace DirAdd

/-- What the entry says. -/
def entry (a : DirAdd) : DirEntry := newEntry a.name a.num a.type

/-- `rec_len` of the entry. -/
def length (a : DirAdd) : ℕ := newRecLen a.name

/-- An entry has at least 12 bytes, and a multiple of 4. -/
lemma length_ge (a : DirAdd) : 12 ≤ a.length ∧ a.length % 4 = 0 := by
  have hpos := a.name_pos
  rw [length, newRecLen]
  omega

end DirAdd

/-- Where the entries end that were added behind `.`. -/
def logEnd (es : List DirAdd) : ℕ := 12 + (es.map DirAdd.length).sum

/-- The offsets of `.` and of the entries that were added. -/
def logOffsets (es : List DirAdd) : List ℕ := 0 :: (List.range es.length).map fun i => logEnd (es.take i)

/-- A directory without additions ends behind ".". -/
lemma logEnd_nil : logEnd [] = 12 := rfl

/-- An addition is put at the end. -/
lemma logEnd_concat (es : List DirAdd) (a : DirAdd) : logEnd (es ++ [a]) = logEnd es + a.length := by
  simp [logEnd, Nat.add_assoc]

/-- So that its place is the end of those before. -/
lemma logOffsets_concat (es : List DirAdd) (a : DirAdd) : logOffsets (es ++ [a]) = logOffsets es ++ [logEnd es] := by
  have hfirst : (List.range es.length).map (fun i => logEnd ((es ++ [a]).take i)) =
      (List.range es.length).map fun i => logEnd (es.take i) := by
    refine List.map_congr_left fun i hi => ?_
    rw [List.take_append_of_le_length (List.mem_range.1 hi).le]
  rw [logOffsets, List.length_append, List.length_singleton, List.range_succ, List.map_append, hfirst]
  simp [logOffsets]

/-- Behind "." all ends are multiples of four. -/
lemma logEnd_ge (es : List DirAdd) : 12 ≤ logEnd es ∧ logEnd es % 4 = 0 := by
  induction es using List.reverseRecOn with
  | nil => decide
  | append_singleton es a ih =>
    have hlength := a.length_ge
    rw [logEnd_concat]
    omega

/-- The block of a directory: the entry `.`, and behind it the entries that were added, with zeros up to the end of the
block. As long as none was added, there is the entry `..` up to the end of the block, and zeros behind its name. -/
structure LogBlock (b : ℕ → BitVec 8) (stop : ℕ) (dot dotdot : DirEntry) (es : List DirAdd) : Prop where
  tiles : DirTiles b (logEnd es) 0 (logOffsets es)
  entries : (logOffsets es).map (entryAt b) = dot :: es.map DirAdd.entry
  dot_used : dot.inode ≠ 0
  fits : logEnd es ≤ stop
  free : ∀ k, max 24 (logEnd es) ≤ k → k < stop → b k = 0
  fresh : es = [] → DirTiles b stop 12 [12] ∧ entryAt b 12 = dotdot

variable {b b' : ℕ → BitVec 8} {stop p : ℕ} {dot dotdot : DirEntry} {es : List DirAdd} {offsets : List ℕ} {start : ℕ}

/-- A block depends on its own bytes. -/
lemma LogBlock.congr (h : LogBlock b stop dot dotdot es) (hsame : ∀ k < stop, b' k = b k) :
    LogBlock b' stop dot dotdot es := by
  obtain ⟨htiles, hentries, hdot, hfits, hfree, hfresh⟩ := h
  have hentry : ∀ q ∈ logOffsets es, entryAt b' q = entryAt b q := by
    intro q hq
    obtain ⟨-, -, hle⟩ := htiles.tiles.bounds hq
    exact ((htiles.ok q hq).congr fun k _ hk => hsame k (by omega)).2.2.2
  refine ⟨(htiles.congr fun k _ hk => hsame k (by omega)).1, ?_, hdot, hfits, fun k hk hlt => ?_, fun hnil => ?_⟩
  · rw [List.map_congr_left hentry, hentries]
  · rw [hsame k hlt, hfree k hk hlt]
  · obtain ⟨hlast, hname⟩ := hfresh hnil
    obtain ⟨-, -, hle⟩ := hlast.tiles.bounds List.mem_cons_self
    refine ⟨(hlast.congr fun k _ hk => hsame k hk).1, ?_⟩
    rw [((hlast.ok 12 List.mem_cons_self).congr fun k _ hk => hsame k (by omega)).2.2.2, hname]

/-- All entries are used. -/
lemma LogBlock.used (h : LogBlock b stop dot dotdot es) : ∀ q ∈ logOffsets es, get32 b q ≠ 0 := by
  intro q hq
  have hmem : entryAt b q ∈ dot :: es.map DirAdd.entry := h.entries ▸ List.mem_map_of_mem hq
  have hinode : get32 b q = (entryAt b q).inode := rfl
  rw [hinode]
  rcases List.mem_cons.1 hmem with heq | hmem
  · rw [heq]
    exact h.dot_used
  · obtain ⟨a, -, heq⟩ := List.mem_map.1 hmem
    rw [← heq]
    exact a.num_ne_zero

/-! ## The place of a new entry -/

/-- The loop goes over entries that are used, up to one that is not, or that reaches up to the end of the block. -/
lemma findPlace_of_tiles {rounds : ℕ} (h : Tiles (recLen b) p start offsets) (hused : ∀ q ∈ offsets, get32 b q ≠ 0)
    (hp : p < stop) (hlast : get32 b p = 0 ∨ stop ≤ p + recLen b p) (hrounds : offsets.length < rounds) :
    findPlace stop b rounds start = some p := by
  induction offsets generalizing start rounds with
  | nil =>
    obtain ⟨rounds, rfl⟩ := Nat.exists_eq_succ_of_ne_zero (Nat.ne_of_gt hrounds)
    cases h with
    | nil => exact if_pos (.inr hlast)
  | cons q offsets ih =>
    obtain ⟨rounds, rfl⟩ := Nat.exists_eq_succ_of_ne_zero (Nat.ne_of_gt (Nat.zero_lt_of_lt hrounds))
    cases h with
    | cons hpos hrest =>
      have hle := hrest.le
      have hmore : ¬ (stop ≤ q ∨ get32 b q = 0 ∨ stop ≤ q + recLen b q) := by
        rintro (hend | hzero | hend)
        · omega
        · exact hused q List.mem_cons_self hzero
        · omega
      rw [findPlace_succ, if_neg hmore, if_neg (Nat.ne_of_gt hpos)]
      exact ih hrest (fun r hr => hused r (List.mem_cons_of_mem _ hr)) (Nat.lt_of_succ_lt_succ hrounds)

/-- **The place of a new entry** is behind the last one, or the last one itself if it ends where the block does. -/
lemma LogBlock.findPlace_eq (h : LogBlock b stop dot dotdot es) (halign : stop % 4 = 0) :
    (logEnd es < stop → findPlace stop b (stop + 1) 0 = some (logEnd es)) ∧
      ∀ fs last, es = fs ++ [last] → logEnd es = stop → findPlace stop b (stop + 1) 0 = some (logEnd fs) := by
  have hcount := h.tiles.tiles.length_le
  have hfits := h.fits
  obtain ⟨-, hmod⟩ := logEnd_ge es
  constructor
  · intro hroom
    refine findPlace_of_tiles h.tiles.tiles h.used hroom ?_ (by omega)
    by_cases hnil : es = []
    · obtain ⟨hlast, -⟩ := h.fresh hnil
      refine .inr ?_
      rw [hnil, logEnd_nil]
      exact hlast.tail.tiles.eq_of_nil.ge
    · -- the bytes behind the last entry are zeros
      refine .inl ?_
      have hend : 24 ≤ logEnd es := by
        obtain ⟨a, es', rfl⟩ := List.exists_cons_of_ne_nil hnil
        have hlength := a.length_ge
        rw [logEnd, List.map_cons, List.sum_cons]
        omega
      have hzero : ∀ k, logEnd es ≤ k → k < logEnd es + 4 → b k = (fun _ => 0 : ℕ → BitVec 8) k := by
        intro k hk hlt
        exact h.free k (by omega) (by omega)
      rw [get32_congr hzero]
      rfl
  · rintro fs last rfl hfull
    have htiles := h.tiles
    rw [logOffsets_concat] at htiles
    obtain ⟨hbefore, hbehind⟩ := htiles.split
    have hend : logEnd fs + recLen b (logEnd fs) = stop := by
      rw [← hfull]
      exact hbehind.tail.tiles.eq_of_nil
    have hlength := last.length_ge
    rw [logEnd_concat] at hfull
    have hused := h.used
    rw [logOffsets_concat] at hused hcount
    rw [List.length_append] at hcount
    exact findPlace_of_tiles hbefore.tiles (fun q hq => hused q (List.mem_append_left _ hq)) (by omega)
      (.inr hend.ge) (by omega)

/-! ## The block with a new entry -/

/-- **A new entry** behind the last one is one more entry of the log. -/
lemma LogBlock.insert (h : LogBlock b stop dot dotdot es) (a : DirAdd) (hroom : logEnd es + a.length ≤ stop) :
    LogBlock (insertEntry b (logEnd es) a.num a.name a.type) stop dot dotdot (es ++ [a]) := by
  obtain ⟨htiles, hentries, hdot, hfits, hfree, hfresh⟩ := h
  obtain ⟨hrec, hok, -, hentry⟩ := fields_insertEntry b (logEnd es) a.type a.name_le a.num_lt
  have hlength := a.length_ge
  obtain ⟨hge, -⟩ := logEnd_ge es
  have hbefore : ∀ k, 0 ≤ k → k < logEnd es → insertEntry b (logEnd es) a.num a.name a.type k = b k :=
    fun k _ hk => insertEntry_of_ne (.inl hk)
  have hsame : ∀ q ∈ logOffsets es, entryAt (insertEntry b (logEnd es) a.num a.name a.type) q = entryAt b q := by
    intro q hq
    obtain ⟨-, -, hle⟩ := htiles.tiles.bounds hq
    exact ((htiles.ok q hq).congr fun k _ hk => hbefore k (Nat.zero_le k) (by omega)).2.2.2
  refine ⟨?_, ?_, hdot, ?_, fun k hk hlt => ?_, fun hnil => absurd hnil (by simp)⟩
  · rw [logOffsets_concat, logEnd_concat]
    exact (htiles.congr hbefore).1.append (.cons hok (by rw [hrec]; rfl) (.nil _ _))
  · rw [logOffsets_concat, List.map_append, List.map_congr_left hsame, hentries, List.map_singleton, hentry,
      List.map_append]
    rfl
  · rwa [logEnd_concat]
  · rw [logEnd_concat] at hk
    have hbehind : insertEntry b (logEnd es) a.num a.name a.type k = b k := by
      refine insertEntry_of_ne (.inr ?_)
      show logEnd es + a.length ≤ k
      omega
    rw [hbehind]
    exact hfree k (by omega) hlt

/-- **A new directory** has the entries `.` and `..`. -/
lemma logBlock_newDirBlock (fs : Ext4) (hmounted : Mounted fs) (buffer : ℕ → BitVec 8) {inodeNum parentNum : ℕ}
    (hinode : inodeNum ≠ 0) (hinodeLt : inodeNum < 2 ^ 32) (hparent : parentNum < 2 ^ 32) :
    LogBlock (fs.newDirBlock buffer inodeNum parentNum) fs.blockSize ⟨inodeNum, 2, [46]⟩ ⟨parentNum, 2, [46, 46]⟩
      [] := by
  have hmin := hmounted.min
  have hmax := hmounted.max
  set b₁ := setEntry (fs.clearBlock buffer) 0 inodeNum 12 1 2 with hb₁
  set b₂ := copy b₁ 8 (CString.bytes [46]) 2 with hb₂
  set b₃ := setEntry b₂ 12 parentNum (Word32.sub fs.blockSize 12) 2 2 with hb₃
  have hblock : fs.newDirBlock buffer inodeNum parentNum = copy b₃ 20 (CString.bytes [46, 46]) 3 := rfl
  obtain ⟨hinode₁, hrec₁, hcount₁, htype₁⟩ := fields_setEntry (fs.clearBlock buffer) 0 inodeNum 12 1 2
  obtain ⟨hinode₃, hrec₃, hcount₃, htype₃⟩ := fields_setEntry b₂ 12 parentNum (Word32.sub fs.blockSize 12) 2 2
  rw [← hb₁] at hinode₁ hrec₁ hcount₁ htype₁
  rw [← hb₃] at hinode₃ hrec₃ hcount₃ htype₃
  generalize fs.newDirBlock buffer inodeNum parentNum = b at hblock ⊢
  subst hblock
  have hlow : ∀ k < 12, copy b₃ 20 (CString.bytes [46, 46]) 3 k = b₂ k := by
    intro k hk
    rw [copy, if_neg (by omega), hb₃, setEntry_of_ne (by omega)]
  have hfirst : ∀ k < 8, copy b₃ 20 (CString.bytes [46, 46]) 3 k = b₁ k := by
    intro k hk
    rw [hlow k (by omega), hb₂, copy, if_neg (by omega)]
  have hsecond : ∀ k < 20, copy b₃ 20 (CString.bytes [46, 46]) 3 k = b₃ k := by
    intro k hk
    rw [copy, if_neg (by omega)]
  generalize hb : copy b₃ 20 (CString.bytes [46, 46]) 3 = b at hlow hfirst hsecond ⊢
  have hsub : Word32.sub fs.blockSize 12 = fs.blockSize - 12 := by
    unfold Word32.sub
    omega
  -- the entry `.`
  have hrecDot : recLen b 0 = 12 := by
    rw [recLen, get16_congr fun k _ hk => hfirst k (by omega)]
    exact hrec₁
  have hcountDot : nameLen b 0 = 1 := by
    rw [nameLen, hfirst 6 (by omega)]
    exact hcount₁
  have hinodeDot : get32 b 0 = inodeNum := by
    rw [get32_congr fun k _ hk => hfirst k (by omega), hinode₁, Nat.mod_eq_of_lt hinodeLt]
  have hdot : entryAt b 0 = ⟨inodeNum, 2, [46]⟩ := by
    have hname : b 8 = 46 := by
      rw [hlow 8 (by omega), hb₂, copy, if_pos (by omega)]
      rfl
    rw [entryAt, hcountDot, hinodeDot, hfirst 7 (by omega), htype₁, List.range_one, List.map_singleton, hname]
    rfl
  -- the entry `..`
  have hrecDotdot : recLen b 12 = fs.blockSize - 12 := by
    rw [recLen, get16_congr fun k _ hk => hsecond k (by omega), ← recLen, hrec₃, hsub]
    omega
  have hcountDotdot : nameLen b 12 = 2 := by
    rw [nameLen, hsecond 18 (by omega)]
    exact hcount₃
  have hdotdot : entryAt b 12 = ⟨parentNum, 2, [46, 46]⟩ := by
    have hname : ∀ k < 2, b (12 + 8 + k) = 46 := by
      intro k hk
      rw [← hb, copy, if_pos (by omega)]
      obtain rfl | rfl : k = 0 ∨ k = 1 := by omega
      · rfl
      · rfl
    have hnames : (List.range 2).map (fun k => b (12 + 8 + k)) = [46, 46] := by
      rw [List.map_congr_left fun k hk => hname k (List.mem_range.1 hk)]
      rfl
    rw [entryAt, hcountDotdot, get32_congr fun k _ hk => hsecond k (by omega), hinode₃, Nat.mod_eq_of_lt hparent,
      hsecond 19 (by omega), htype₃, hnames]
    rfl
  have hmod : fs.blockSize % 4 = 0 := by
    obtain ⟨log, -, hsize⟩ := hmounted.exists_log
    rw [hsize]
    omega
  refine ⟨.cons ⟨by rw [hrecDot], by rw [hrecDot, hcountDot]; omega⟩ (by rw [hrecDot]; rfl) (.nil _ _), ?_, hinode,
    ?_, fun k hk hlt => ?_, fun _ => ⟨?_, hdotdot⟩⟩
  · show [entryAt b 0] = [_]
    rw [hdot]
  · rw [logEnd_nil]
    omega
  · rw [← hb, copy, if_neg (by omega), hb₃, setEntry_of_ne (by omega), hb₂, copy, if_neg (by omega), hb₁,
      setEntry_of_ne (by omega), clearBlock, if_pos hlt]
  · refine .cons ⟨?_, ?_⟩ (q := fs.blockSize) ?_ (.nil _ _)
    · rw [hrecDotdot]
      omega
    · rw [hrecDotdot, hcountDotdot]
      omega
    · rw [hrecDotdot]
      omega

end Ext4

end Jarvis
