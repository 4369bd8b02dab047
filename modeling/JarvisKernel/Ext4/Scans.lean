import JarvisKernel.Ext4.RemoveEntry

set_option relaxedAutoImplicit false
set_option autoImplicit false

/-!
# Scans of arbitrary directory blocks

The loops over the entries of a block read the fields of an entry wherever the lengths of the entries before
it lead. They stop at the end of the block, and most of them at an entry without length; the one of
`ext4_add_dir_entry` does not. None checks that an entry is within the block.

## Main definitions

* `Jarvis.Ext4.countScan`, `Jarvis.Ext4.findScan`, `Jarvis.Ext4.readScan`, `Jarvis.Ext4.placeScan` — the
  loops, with what they access.
* `Jarvis.Ext4.ScansWithin` — what is wanted of them.

## Main results

* `Jarvis.Ext4.findPlace_eq_none_iff` — the loop of `ext4_add_dir_entry` has a result iff it terminates.
* `Jarvis.Ext4.scansWithin_iff` — when all loops terminate and stay in the block.
-/

namespace Jarvis

namespace Ext4

open ByteBuffer Records

/-! ## The loops -/

/-- How many bytes of its first string `strncmp` reads. -/
def strncmpReads (s₁ s₂ : ℕ → BitVec 8) : ℕ → ℕ
  | 0 => 0
  | n + 1 =>
    if s₁ 0 ≠ 0 ∧ s₂ 0 ≠ 0 ∧ s₁ 0 = s₂ 0 then
      1 + strncmpReads (fun k => s₁ (k + 1)) (fun k => s₂ (k + 1)) n
    else 1

/-- How many bytes of its source `strncpy` reads. -/
def strncpyReads (s : ℕ → BitVec 8) : ℕ → ℕ
  | 0 => 0
  | n + 1 => if s 0 = 0 then 1 else 1 + strncpyReads (fun k => s (k + 1)) n

section Loops

variable (blockSize : ℕ) (b : ℕ → BitVec 8)

/-- To the next entry, unless this is the end of the block or an entry without length. -/
def nextEntry (p : ℕ) : Option ℕ :=
  if blockSize ≤ p ∨ recLen b p = 0 then none else some (p + recLen b p)

/-- `rec_len`; then `inode`; for an entry that is used `name_len`; and if it has a name, further bytes. -/
def entryAccesses (p : ℕ) (named : List (ℕ × ℕ)) : List (ℕ × ℕ) :=
  if blockSize ≤ p then []
  else
    (p + 4, 2) ::
      if recLen b p = 0 then []
      else
        (p, 4) ::
          if get32 b p = 0 then [] else (p + 6, 1) :: if nameLen b p = 0 then [] else named

/-- The loop of `ext4_rmdir` that counts entries. -/
def countScan : Scan where
  next := nextEntry blockSize b
  accesses p := entryAccesses blockSize b p []

/-- The loop of `ext4_remove`, and the second one of `ext4_rmdir`. They write the inode of the entry that
they find, which was read. -/
def findScan (name : ℕ → BitVec 8) : Scan where
  next p := if matchesName b name p = true then none else nextEntry blockSize b p
  accesses p :=
    entryAccesses blockSize b p [(p + 8, strncmpReads (fun k => b (p + 8 + k)) name (nameLen b p))]

/-- The inner loop of `ext4_dir_readdir`, over all calls: a call returns at an entry that has a name, and the
next one goes on behind it. `count` bytes of a name are copied. -/
def readScan (count : ℕ) : Scan where
  next := nextEntry blockSize b
  accesses p :=
    entryAccesses blockSize b p [(p + 8, strncpyReads (fun k => b (p + 8 + k)) count), (p + 7, 1)]

/-- The loop of `ext4_add_dir_entry`. -/
def placeScan : Scan where
  next p :=
    if blockSize ≤ p ∨ get32 b p = 0 ∨ blockSize ≤ p + recLen b p then none else some (p + recLen b p)
  accesses p := if blockSize ≤ p then [] else (p, 4) :: if get32 b p = 0 then [] else [(p + 4, 2)]

end Loops

variable {blockSize p q count rounds : ℕ} {b name : ℕ → BitVec 8}

/-! ## Rounds of the loops -/

/-- The next entry is the one behind the record. -/
lemma nextEntry_eq_some : nextEntry blockSize b p = some q ↔
    p < blockSize ∧ recLen b p ≠ 0 ∧ q = p + recLen b p := by
  rw [nextEntry]
  split_ifs with hend
  · exact iff_of_false (by simp) fun h => by omega
  · rw [Option.some.injEq]
    exact ⟨fun h => ⟨by omega, by omega, h.symm⟩, fun h => h.2.2.symm⟩

/-- The search for a place goes on behind an entry in use that is not the last. -/
lemma placeScan_eq_some : (placeScan blockSize b).next p = some q ↔
    p < blockSize ∧ get32 b p ≠ 0 ∧ p + recLen b p < blockSize ∧ q = p + recLen b p := by
  rw [placeScan]
  dsimp only
  split_ifs with hend
  · exact iff_of_false (by simp) fun h => by omega
  · rw [Option.some.injEq]
    exact ⟨fun h => ⟨by omega, by omega, by omega, h.symm⟩, fun h => h.2.2.2.symm⟩

/-- A round of `countEntries` is a step of its scan. -/
lemma countEntries_scan (blockSize : ℕ) (b : ℕ → BitVec 8) (rounds p : ℕ) :
    countEntries blockSize b (rounds + 1) p =
      ((countScan blockSize b).next p).elim 0 fun q =>
        (if get32 b p ≠ 0 ∧ 0 < nameLen b p then 1 else 0) + countEntries blockSize b rounds q := by
  show (if blockSize ≤ p ∨ recLen b p = 0 then 0 else _) = (nextEntry blockSize b p).elim _ _
  rw [nextEntry]
  by_cases hend : blockSize ≤ p ∨ recLen b p = 0
  · rw [if_pos hend, if_pos hend]
    rfl
  · rw [if_neg hend, if_neg hend]
    rfl

/-- A round of `findEntry`: the entry is found where the scan ends and the name matches. -/
lemma findEntry_scan (blockSize : ℕ) (b name : ℕ → BitVec 8) (rounds p : ℕ) :
    findEntry blockSize b name (rounds + 1) p =
      if p < blockSize ∧ recLen b p ≠ 0 ∧ matchesName b name p = true then some p
      else ((findScan blockSize b name).next p).bind (findEntry blockSize b name rounds) := by
  rw [findEntry_succ, findScan]
  dsimp only
  by_cases hend : blockSize ≤ p ∨ recLen b p = 0
  · rw [if_pos hend, if_neg (by omega), nextEntry, if_pos hend]
    split_ifs <;> rfl
  · by_cases hmatch : matchesName b name p = true
    · rw [if_neg hend, if_pos (of_decide_eq_true hmatch), if_pos ⟨by omega, by omega, hmatch⟩]
    · have hmatch' := of_decide_eq_false (Bool.not_eq_true _ ▸ hmatch)
      rw [if_neg hend, if_neg hmatch', if_neg fun h => hmatch h.2.2, if_neg hmatch, nextEntry,
        if_neg hend, Option.bind_some]

/-- A round of `findPlace`: the place is where the scan ends. -/
lemma findPlace_scan (blockSize : ℕ) (b : ℕ → BitVec 8) (rounds p : ℕ) :
    findPlace blockSize b (rounds + 1) p =
      ((placeScan blockSize b).next p).elim (some p) fun q =>
        if recLen b p = 0 then none else findPlace blockSize b rounds q := by
  rw [findPlace_succ, placeScan]
  dsimp only
  by_cases hend : blockSize ≤ p ∨ get32 b p = 0 ∨ blockSize ≤ p + recLen b p
  · rw [if_pos hend, if_pos hend]
    rfl
  · rw [if_neg hend, if_neg hend]
    rfl

/-! ## Termination -/

/-- A scan that goes to the next entry terminates. -/
lemma terminates_of_nextEntry {next : ℕ → Option ℕ}
    (h : ∀ p q, next p = some q → nextEntry blockSize b p = some q) : Terminates next 0 := by
  refine terminates_of_lt (blockSize + 2 ^ 16) fun p q _ hnext => ?_
  obtain ⟨hlt, hpos, rfl⟩ := nextEntry_eq_some.1 (h p q hnext)
  have hrec := get16_lt b (p + 4)
  rw [← recLen] at hrec
  omega

/-- **The loop of `ext4_add_dir_entry`** terminates iff it finds a place.

**Proof sketch.** By induction on the bytes that are left. A used entry without length is where the loop
stays. -/
lemma findPlace_eq_none_iff_of_lt (hrounds : blockSize - p < rounds) :
    findPlace blockSize b rounds p = none ↔ ¬ Terminates (placeScan blockSize b).next p := by
  induction rounds generalizing p with
  | zero => exact absurd hrounds (Nat.not_lt_zero _)
  | succ rounds ih =>
    rw [findPlace_scan]
    cases hnext : (placeScan blockSize b).next p with
    | none =>
      rw [Option.elim_none]
      exact iff_of_false (by simp) (not_not.2 (terminates_of_none hnext))
    | some q =>
      rw [Option.elim_some]
      obtain ⟨hlt, hused, hend, rfl⟩ := placeScan_eq_some.1 hnext
      by_cases hzero : recLen b p = 0
      · rw [if_pos hzero]
        rw [hzero, Nat.add_zero] at hnext
        exact iff_of_true rfl (not_terminates_of_eq .start hnext)
      · rw [if_neg hzero, terminates_next_iff hnext]
        exact ih (by omega)

/-- The search finds no place only if it does not end. -/
lemma findPlace_eq_none_iff (blockSize : ℕ) (b : ℕ → BitVec 8) :
    findPlace blockSize b (blockSize + 1) 0 = none ↔ ¬ Terminates (placeScan blockSize b).next 0 :=
  findPlace_eq_none_iff_of_lt (by omega)

/-- It terminates iff no used entry that it comes to has length 0. -/
lemma terminates_placeScan_iff :
    Terminates (placeScan blockSize b).next 0 ↔
      ∀ p < blockSize, Visits (placeScan blockSize b).next 0 p → get32 b p ≠ 0 → recLen b p ≠ 0 := by
  constructor
  · intro hends p hlt hvisits hused hzero
    have hstay : (placeScan blockSize b).next p = some p :=
      placeScan_eq_some.2 ⟨hlt, hused, by omega, by omega⟩
    exact not_terminates_of_eq hvisits hstay hends
  · intro hlengths
    refine terminates_of_lt blockSize fun p q hvisits hnext => ?_
    obtain ⟨hlt, hused, hend, rfl⟩ := placeScan_eq_some.1 hnext
    have hpos := hlengths p hlt hvisits hused
    omega

/-! ## Accesses -/

/-- What is wanted of the loops over a block: they terminate and access bytes of the block only. -/
structure ScansWithin (blockSize : ℕ) (b name : ℕ → BitVec 8) (count : ℕ) : Prop where
  counting : (countScan blockSize b).Within blockSize
  finding : (findScan blockSize b name).Within blockSize
  reading : (readScan blockSize b count).Within blockSize
  placing : (placeScan blockSize b).Within blockSize

/-- Wherever the lengths of the entries lead, the fields that are read are in the block, and so are the bytes
of names that are compared and copied; and no used entry that `ext4_add_dir_entry` comes to has length 0. -/
structure ChainInside (blockSize : ℕ) (b name : ℕ → BitVec 8) (count : ℕ) : Prop where
  fields : ∀ p < blockSize, Visits (nextEntry blockSize b) 0 p →
    p + 6 ≤ blockSize ∧ (recLen b p ≠ 0 → get32 b p ≠ 0 → p + 7 ≤ blockSize)
  compared : ∀ p < blockSize, Visits (findScan blockSize b name).next 0 p → recLen b p ≠ 0 →
    get32 b p ≠ 0 → nameLen b p ≠ 0 →
      p + 8 + strncmpReads (fun k => b (p + 8 + k)) name (nameLen b p) ≤ blockSize
  copied : ∀ p < blockSize, Visits (nextEntry blockSize b) 0 p → recLen b p ≠ 0 → get32 b p ≠ 0 →
    nameLen b p ≠ 0 → p + 8 + strncpyReads (fun k => b (p + 8 + k)) count ≤ blockSize
  lengths : ∀ p < blockSize, Visits (placeScan blockSize b).next 0 p → get32 b p ≠ 0 → recLen b p ≠ 0

/-- The accesses at an entry, by its fields. -/
lemma entryAccesses_iff {named : List (ℕ × ℕ)} :
    (∀ access ∈ entryAccesses blockSize b p named, access.1 + access.2 ≤ blockSize) ↔
      (p < blockSize → p + 6 ≤ blockSize ∧ (recLen b p ≠ 0 → get32 b p ≠ 0 → p + 7 ≤ blockSize ∧
        (nameLen b p ≠ 0 → ∀ access ∈ named, access.1 + access.2 ≤ blockSize))) := by
  rw [entryAccesses]
  by_cases hend : blockSize ≤ p
  · rw [if_pos hend]
    exact iff_of_true (by simp) fun hlt => by omega
  rw [if_neg hend, List.forall_mem_cons, imp_iff_right (Nat.lt_of_not_le hend)]
  refine and_congr_right fun hheader => ?_
  by_cases hrec : recLen b p = 0
  · rw [if_pos hrec]
    exact iff_of_true (by simp) fun hpos => absurd hrec hpos
  -- the inode is before the length
  have hinode : p + 4 ≤ blockSize := Nat.le_of_add_right_le hheader
  rw [if_neg hrec, List.forall_mem_cons, imp_iff_right hrec, and_iff_right hinode]
  by_cases hused : get32 b p = 0
  · rw [if_pos hused]
    exact iff_of_true (by simp) fun hpos => absurd hused hpos
  rw [if_neg hused, List.forall_mem_cons, imp_iff_right hused]
  refine and_congr_right fun _ => ?_
  by_cases hname : nameLen b p = 0
  · rw [if_pos hname]
    exact iff_of_true (by simp) fun hpos => absurd hname hpos
  · rw [if_neg hname, imp_iff_right hname]

/-- The loop of `ext4_add_dir_entry` reads the inode of an entry, and then its length. -/
lemma inside_placeScan (hheader : p < blockSize → p + 6 ≤ blockSize) :
    ∀ access ∈ (placeScan blockSize b).accesses p, access.1 + access.2 ≤ blockSize := by
  rw [placeScan]
  dsimp only
  intro access haccess
  by_cases hend : blockSize ≤ p
  · rw [if_pos hend] at haccess
    exact absurd haccess List.not_mem_nil
  have hsix := hheader (Nat.lt_of_not_le hend)
  rw [if_neg hend] at haccess
  rcases List.mem_cons.1 haccess with rfl | haccess
  · show p + 4 ≤ blockSize
    omega
  · split_ifs at haccess
    · exact absurd haccess List.not_mem_nil
    · obtain rfl := List.mem_singleton.1 haccess
      exact hsix

/-- The search for a name goes from entry to entry. -/
lemma nextEntry_of_findScan (h : (findScan blockSize b name).next p = some q) :
    nextEntry blockSize b p = some q := by
  rw [findScan] at h
  dsimp only at h
  split_ifs at h
  exact h

/-- What `findScan` comes to, the other loops come to. -/
lemma visits_of_findScan (h : Visits (findScan blockSize b name).next 0 p) :
    Visits (nextEntry blockSize b) 0 p :=
  h.rec_of .start fun _ _ hp hnext => hp.next (nextEntry_of_findScan hnext)

/-- Likewise for `placeScan`. -/
lemma visits_of_placeScan (h : Visits (placeScan blockSize b).next 0 p) :
    Visits (nextEntry blockSize b) 0 p := by
  refine h.rec_of .start fun p q hp hnext => ?_
  obtain ⟨hlt, -, -, rfl⟩ := placeScan_eq_some.1 hnext
  by_cases hzero : recLen b p = 0
  · rw [hzero]
    exact hp
  · exact hp.next (nextEntry_eq_some.2 ⟨hlt, hzero, rfl⟩)

/-- **All loops terminate and stay in the block** exactly if the lengths of the entries lead to entries that
are in the block, as far as they are read.

**Proof sketch.** A loop that leaves out entries of length 0 goes forward. The loop of `ext4_add_dir_entry`
does so unless it comes to a used entry of length 0. What a loop accesses at an entry depends on its
fields. -/
theorem scansWithin_iff (blockSize : ℕ) (b name : ℕ → BitVec 8) (count : ℕ) :
    ScansWithin blockSize b name count ↔ ChainInside blockSize b name count := by
  constructor
  · rintro ⟨hcount, hfind, hread, hplace⟩
    refine ⟨fun p hlt hp => ?_, fun p hlt hp hrec hused hname => ?_, fun p hlt hp hrec hused hname => ?_,
      terminates_placeScan_iff.1 hplace.terminates⟩
    · obtain ⟨hfields, hnameLen⟩ := entryAccesses_iff.1 (hcount.accesses p hp) hlt
      exact ⟨hfields, fun hrec hused => (hnameLen hrec hused).1⟩
    · obtain ⟨-, hnameLen⟩ := entryAccesses_iff.1 (hfind.accesses p hp) hlt
      exact (hnameLen hrec hused).2 hname _ List.mem_cons_self
    · obtain ⟨-, hnameLen⟩ := entryAccesses_iff.1 (hread.accesses p hp) hlt
      exact (hnameLen hrec hused).2 hname _ List.mem_cons_self
  · rintro ⟨hfields, hcompared, hcopied, hlengths⟩
    refine ⟨⟨?_, fun p hp => ?_⟩, ⟨?_, fun p hp => ?_⟩, ⟨?_, fun p hp => ?_⟩,
      ⟨terminates_placeScan_iff.2 hlengths, fun p hp => ?_⟩⟩
    · exact terminates_of_nextEntry fun p q hnext => hnext
    · refine entryAccesses_iff.2 fun hlt => ?_
      obtain ⟨hheader, hnameLen⟩ := hfields p hlt hp
      exact ⟨hheader, fun hrec hused => ⟨hnameLen hrec hused, by simp⟩⟩
    · exact terminates_of_nextEntry fun _ _ => nextEntry_of_findScan
    · refine entryAccesses_iff.2 fun hlt => ?_
      obtain ⟨hheader, hnameLen⟩ := hfields p hlt (visits_of_findScan hp)
      refine ⟨hheader, fun hrec hused => ⟨hnameLen hrec hused, fun hname access haccess => ?_⟩⟩
      obtain rfl := List.mem_singleton.1 haccess
      exact hcompared p hlt hp hrec hused hname
    · exact terminates_of_nextEntry fun p q hnext => hnext
    · refine entryAccesses_iff.2 fun hlt => ?_
      obtain ⟨hheader, hnameLen⟩ := hfields p hlt hp
      refine ⟨hheader, fun hrec hused => ⟨hnameLen hrec hused, fun hname access haccess => ?_⟩⟩
      have hname' := hcopied p hlt hp hrec hused hname
      rcases List.mem_pair.1 haccess with rfl | rfl
      · exact hname'
      · show p + 7 + 1 ≤ blockSize
        omega
    · exact inside_placeScan fun hlt => (hfields p hlt (visits_of_placeScan hp)).1

/-- A used entry of length 0 at the start of a block, and an entry that ends 2 bytes before the end. -/
theorem not_scansWithin :
    (∃ b, ∀ name count, ¬ ScansWithin 1024 b name count) ∧
      ∃ b, get32 b 0 = 0 ∧ ∀ name count, ¬ ScansWithin 1024 b name count := by
  constructor
  · refine ⟨set32 (fun _ => 0) 0 1, fun name count hwithin => ?_⟩
    have hstay : (placeScan 1024 (set32 (fun _ => 0) 0 1)).next 0 = some 0 := by decide +kernel
    exact not_terminates_of_eq .start hstay hwithin.placing.terminates
  · refine ⟨set16 (fun _ => 0) 4 1022, by decide +kernel, fun name count hwithin => ?_⟩
    have hnext : (countScan 1024 (set16 (fun _ => 0) 4 1022)).next 0 = some 1022 := by decide +kernel
    have haccess := hwithin.counting.accesses 1022 (.next .start hnext) (1026, 2) (by decide +kernel)
    exact absurd haccess (by decide)

end Ext4

end Jarvis
