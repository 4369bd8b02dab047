import JarvisKernel.Lib.Poll
import JarvisKernel.Lib.Word32
import Mathlib.Logic.Function.Basic

set_option relaxedAutoImplicit false
set_option autoImplicit false

/-!
# Reading a sector from the controller

`ide_read_sector` of `src/driver/block.c` waits until the controller is not busy, then until it has data,
and takes 256 words from it. Both loops have a counter, which is 0 after the 100001st poll if this one
succeeds, and wraps around if it does not: a controller that does not answer is not noticed. The second
loop does not look at the bit for busy.

The statuses and the data that the controller gives are arbitrary sequences. What is printed is left out.

## Main definitions

* `Jarvis.Ide.waitBusy`, `Jarvis.Ide.waitData` — the loops.
* `Jarvis.Ide.ideReadSector` — the function.
* `Jarvis.Ide.ReadsSafely` — what is wanted of it.
* `Jarvis.Ide.Answers` — the controller answers in time.

## Main results

* `Jarvis.Ide.waitBusy_eq`, `Jarvis.Ide.waitData_eq` — the loops poll.
* `Jarvis.Ide.readsSafely_iff` — what is wanted holds for controllers that answer.
-/

namespace Jarvis

namespace Ide

/-! ## The function -/

/-- A loop after it was left: the counter, how many statuses were read so far, how often the loop has
polled, and whether there was an error. -/
structure Waited where
  timeout : ℕ
  statuses : ℕ
  polls : ℕ
  error : Bool

/-- The loop that waits until the controller is not busy. -/
def waitBusy (status : ℕ → BitVec 8) : ℕ → ℕ → Waited
  | 0, i =>
    if status i &&& 0x80 ≠ 0 then ⟨Word32.sub 0 1, i + 1, i + 1, false⟩ else ⟨0, i + 1, i + 1, false⟩
  | timeout + 1, i =>
    if status i &&& 0x80 ≠ 0 then waitBusy status timeout (i + 1)
    else ⟨timeout + 1, i + 1, i + 1, false⟩

/-- The loop that waits for data, where `i` statuses were read and the loop has polled `polls` times. -/
def waitData (status : ℕ → BitVec 8) : ℕ → ℕ → ℕ → Waited
  | 0, i, polls =>
    if status i &&& 0x08 ≠ 0 then ⟨0, i + 1, polls + 1, false⟩
    else ⟨Word32.sub 0 1, i + 1, polls + 1, false⟩
  | timeout + 1, i, polls =>
    if status i &&& 0x08 ≠ 0 then ⟨timeout + 1, i + 1, polls + 1, false⟩
    else if status (i + 1) &&& 0x01 ≠ 0 then ⟨timeout, i + 2, polls + 1, true⟩
    else waitData status timeout (i + 2) (polls + 1)

/-- The buffer after `count` words of data. -/
def transfer (data : ℕ → BitVec 16) (buffer : ℕ → BitVec 8) : ℕ → ℕ → BitVec 8
  | 0 => buffer
  | i + 1 =>
    Function.update
      (Function.update (transfer data buffer i) (i * 2) (BitVec.setWidth 8 (data i &&& 0xFF)))
      (i * 2 + 1) (BitVec.setWidth 8 ((data i >>> 8) &&& 0xFF))

/-- What `ide_read_sector` has done when it returns: the buffer and the lock, the bytes that were written to
ports, how many words of data were taken, how many statuses were read, and how often each loop has
polled. -/
structure IdeRead where
  buffer : ℕ → BitVec 8
  lock : ℕ
  writes : List (ℕ × BitVec 8)
  words : ℕ
  statuses : ℕ
  busyPolls : ℕ
  dataPolls : ℕ

/-- The number of the sector, one sector, and the command for reading. -/
def readCommand (sector : BitVec 32) : List (ℕ × BitVec 8) :=
  [(0x1F6, BitVec.setWidth 8 (0xE0#32 ||| ((sector >>> 24) &&& 0x0F))),
    (0x1F2, 1),
    (0x1F3, BitVec.setWidth 8 (sector &&& 0xFF)),
    (0x1F4, BitVec.setWidth 8 ((sector >>> 8) &&& 0xFF)),
    (0x1F5, BitVec.setWidth 8 ((sector >>> 16) &&& 0xFF)),
    (0x1F7, 0x20)]

/-- `ide_read_sector` behind its first loop. -/
def readWhenNotBusy (status : ℕ → BitVec 8) (data : ℕ → BitVec 16) (writes : List (ℕ × BitVec 8))
    (buffer : ℕ → BitVec 8) (busy : Waited) : IdeRead :=
  let ready := waitData status 100000 busy.statuses 0
  if ready.error then ⟨buffer, 0, writes, 0, ready.statuses, busy.polls, ready.polls⟩
  else if ready.timeout = 0 then ⟨buffer, 0, writes, 0, ready.statuses, busy.polls, ready.polls⟩
  else ⟨transfer data buffer 256, 0, writes, 256, ready.statuses, busy.polls, ready.polls⟩

/-- `ide_read_sector`, with the statuses and the data that the controller gives. It does not return if the
lock of the device is taken. -/
def ideReadSector (status : ℕ → BitVec 8) (data : ℕ → BitVec 16) (lock : ℕ) (sector : BitVec 32)
    (buffer : ℕ → BitVec 8) : Option IdeRead :=
  if lock ≠ 0 then none
  else
    let writes := readCommand sector
    let busy := waitBusy status 100000 0
    if busy.timeout = 0 then some ⟨buffer, 0, writes, 0, busy.statuses, busy.polls, 0⟩
    else some (readWhenNotBusy status data writes buffer busy)

/-- The last status that was read has BSY clear and DRQ set, and each loop has polled 100000 times at
most. -/
structure Ready (status : ℕ → BitVec 8) (r : IdeRead) : Prop where
  not_busy : status (r.statuses - 1) &&& 0x80 = 0
  data : status (r.statuses - 1) &&& 0x08 ≠ 0
  busyPolls : r.busyPolls ≤ 100000
  dataPolls : r.dataPolls ≤ 100000

/-- What is wanted: the function returns with the lock released, and words are taken only from a controller
that is ready; otherwise the buffer is untouched. -/
structure ReadsSafely (status : ℕ → BitVec 8) (data : ℕ → BitVec 16) (lock : ℕ) (sector : BitVec 32)
    (buffer : ℕ → BitVec 8) : Prop where
  returns : lock = 0 → (ideReadSector status data lock sector buffer).isSome
  releases : ∀ r, ideReadSector status data lock sector buffer = some r → r.lock = 0
  transfers : ∀ r, ideReadSector status data lock sector buffer = some r → r.words ≠ 0 → Ready status r
  untouched : ∀ r, ideReadSector status data lock sector buffer = some r → r.words = 0 → r.buffer = buffer

/-! ## The loops -/

/-- Poll `i` of the first loop finds the controller not busy. -/
def NotBusy (status : ℕ → BitVec 8) (i : ℕ) : Prop := status i &&& 0x80 = 0

/-- Poll `j` of the second loop, from status `p` on, finds data. -/
def HasData (status : ℕ → BitVec 8) (p j : ℕ) : Prop := status (p + 2 * j) &&& 0x08 ≠ 0

/-- The status that is read after poll `j` of the second loop has the bit for errors. -/
def HasError (status : ℕ → BitVec 8) (p j : ℕ) : Prop := status (p + 2 * j + 1) &&& 0x01 ≠ 0

instance (status : ℕ → BitVec 8) : DecidablePred (NotBusy status) := fun i => by
  unfold NotBusy
  infer_instance

instance (status : ℕ → BitVec 8) (p : ℕ) : DecidablePred (HasData status p) := fun j => by
  unfold HasData
  infer_instance

instance (status : ℕ → BitVec 8) (p : ℕ) : DecidablePred (HasError status p) := fun j => by
  unfold HasError
  infer_instance

/-- The first loop polls until the controller is not busy. -/
lemma waitBusy_eq (status : ℕ → BitVec 8) (timeout i : ℕ) :
    waitBusy status timeout i =
      match Poll.wait (NotBusy status) (fun _ => False) timeout i with
      | .done j left => ⟨left, j + 1, j + 1, false⟩
      | .failed j => ⟨0, j + 1, j + 1, true⟩
      | .expired => ⟨Word32.sub 0 1, i + timeout + 1, i + timeout + 1, false⟩ := by
  induction timeout generalizing i with
  | zero =>
    rw [waitBusy, Poll.wait]
    by_cases hbusy : status i &&& 0x80 = 0
    · rw [if_neg (not_not.2 hbusy), if_pos (show NotBusy status i from hbusy)]
    · rw [if_pos hbusy, if_neg (show ¬ NotBusy status i from hbusy)]
  | succ timeout ih =>
    rw [waitBusy, Poll.wait]
    by_cases hbusy : status i &&& 0x80 = 0
    · rw [if_neg (not_not.2 hbusy), if_pos (show NotBusy status i from hbusy)]
    · have hsum : i + 1 + timeout = i + (timeout + 1) := by omega
      rw [if_pos hbusy, if_neg (show ¬ NotBusy status i from hbusy), if_neg not_false, ih, hsum]

/-- The second loop polls until there is data or an error. -/
lemma waitData_eq (status : ℕ → BitVec 8) (p timeout j : ℕ) :
    waitData status timeout (p + 2 * j) j =
      match Poll.wait (HasData status p) (HasError status p) timeout j with
      | .done k left => ⟨left, p + 2 * k + 1, k + 1, false⟩
      | .failed k => ⟨j + timeout - 1 - k, p + 2 * k + 2, k + 1, true⟩
      | .expired => ⟨Word32.sub 0 1, p + 2 * (j + timeout) + 1, j + timeout + 1, false⟩ := by
  induction timeout generalizing j with
  | zero =>
    rw [waitData, Poll.wait]
    by_cases hdata : status (p + 2 * j) &&& 0x08 ≠ 0
    · rw [if_pos hdata, if_pos (show HasData status p j from hdata)]
    · rw [if_neg hdata, if_neg (show ¬ HasData status p j from hdata)]
      rfl
  | succ timeout ih =>
    rw [waitData, Poll.wait]
    by_cases hdata : status (p + 2 * j) &&& 0x08 ≠ 0
    · rw [if_pos hdata, if_pos (show HasData status p j from hdata)]
    · rw [if_neg hdata, if_neg (show ¬ HasData status p j from hdata)]
      by_cases herror : status (p + 2 * j + 1) &&& 0x01 ≠ 0
      · have hleft : j + (timeout + 1) - 1 - j = timeout := by omega
        rw [if_pos herror, if_pos (show HasError status p j from herror)]
        dsimp only
        rw [hleft]
      · have hnext : p + 2 * j + 2 = p + 2 * (j + 1) := by omega
        have hsum : j + 1 + timeout = j + (timeout + 1) := by omega
        rw [if_neg herror, if_neg (show ¬ HasError status p j from herror), hnext, ih, hsum]

/-! ## The answers of the controller -/

/-- The second loop finds data within 100000 polls, and it is left by an error otherwise. -/
structure AnswersFrom (status : ℕ → BitVec 8) (p : ℕ) (found : ℕ → Prop) : Prop where
  found : ∀ j < 100000, Poll.DoneAt (HasData status p) (HasError status p) 0 j → found j
  not_silent : ¬ Poll.Silent (HasData status p) (HasError status p) 0 100000

/-- The controller answers in time. If it is not busy within 100000 polls, then it has data or an error
within 100000 polls of the second loop, and it is not busy when it has data. If it is always busy, then the
second loop does not find data within 100000 polls, but an error or data at the next one. -/
structure Answers (status : ℕ → BitVec 8) : Prop where
  ready : ∀ k < 100000, Poll.DoneAt (NotBusy status) (fun _ => False) 0 k →
    AnswersFrom status (k + 1) fun j => NotBusy status (k + 1 + 2 * j)
  busy : Poll.Silent (NotBusy status) (fun _ => False) 0 100000 → AnswersFrom status 100001 fun _ => False

/-- A result that is wanted. -/
structure Safe (status : ℕ → BitVec 8) (buffer : ℕ → BitVec 8) (r : IdeRead) : Prop where
  lock : r.lock = 0
  transfers : r.words ≠ 0 → Ready status r
  untouched : r.words = 0 → r.buffer = buffer

variable {status : ℕ → BitVec 8} {data : ℕ → BitVec 16} {lock : ℕ} {sector : BitVec 32}
  {buffer : ℕ → BitVec 8} {r : IdeRead}

/-- Whether a read was safe can be told from its result. -/
lemma readsSafely_iff_safe (h : ideReadSector status data lock sector buffer = some r) :
    ReadsSafely status data lock sector buffer ↔ Safe status buffer r := by
  constructor
  · intro hreads
    exact ⟨hreads.releases r h, hreads.transfers r h, hreads.untouched r h⟩
  · intro hsafe
    have hr : ∀ r', ideReadSector status data lock sector buffer = some r' → r' = r := fun r' hr' =>
      Option.some.inj (hr'.symm.trans h)
    refine ⟨fun _ => by rw [h]; rfl, fun r' hr' => ?_, fun r' hr' => ?_, fun r' hr' => ?_⟩
    · rw [hr r' hr']
      exact hsafe.lock
    · rw [hr r' hr']
      exact hsafe.transfers
    · rw [hr r' hr']
      exact hsafe.untouched

/-- Nothing is taken. -/
lemma safe_of_words (writes : List (ℕ × BitVec 8)) (statuses busyPolls dataPolls : ℕ) :
    Safe status buffer ⟨buffer, 0, writes, 0, statuses, busyPolls, dataPolls⟩ :=
  ⟨rfl, fun h => absurd rfl h, fun _ => rfl⟩

/-- Words are taken when poll `j` of the second loop, which began with status `p`, has found data. -/
lemma safe_transfer_iff (writes : List (ℕ × BitVec 8)) {p j : ℕ} (polls : ℕ) (hj : j < 100000)
    (hdata : HasData status p j) :
    Safe status buffer ⟨transfer data buffer 256, 0, writes, 256, p + 2 * j + 1, polls, j + 1⟩ ↔
      NotBusy status (p + 2 * j) ∧ polls ≤ 100000 := by
  have hlast : p + 2 * j + 1 - 1 = p + 2 * j := Nat.add_sub_cancel ..
  constructor
  · intro hsafe
    have hready := hsafe.transfers (by simp)
    have hbusy := hready.not_busy
    dsimp only at hbusy
    rw [hlast] at hbusy
    exact ⟨hbusy, hready.busyPolls⟩
  · rintro ⟨hbusy, hpolls⟩
    refine ⟨rfl, fun _ => ⟨?_, ?_, hpolls, hj⟩, fun h => absurd h (by simp)⟩
    · dsimp only
      rw [hlast]
      exact hbusy
    · dsimp only
      rw [hlast]
      exact hdata

/-- **Behind the first loop** the result is as is wanted if the second loop ends with data or an error. -/
lemma safe_readWhenNotBusy_iff (writes : List (ℕ × BitVec 8)) (busy : Waited) :
    Safe status buffer (readWhenNotBusy status data writes buffer busy) ↔
      AnswersFrom status busy.statuses fun j =>
        NotBusy status (busy.statuses + 2 * j) ∧ busy.polls ≤ 100000 := by
  have hdata := waitData_eq status busy.statuses 100000 0
  rw [Nat.mul_zero, Nat.add_zero] at hdata
  rw [readWhenNotBusy, hdata]
  rcases Poll.wait_cases (HasData status busy.statuses) (HasError status busy.statuses) 100000 0 with
    ⟨j, hj, hat, hres⟩ | ⟨j, hj, hat, hres⟩ | ⟨hsilent, hres⟩
  · rw [hres]
    dsimp only
    have hnot : ¬ Poll.Silent (HasData status busy.statuses) (HasError status busy.statuses) 0 100000 :=
      fun hsilent => hsilent.not_doneAt hj hat
    rw [if_neg (by simp)]
    split_ifs with htimeout
    · -- the last poll has found data
      refine iff_of_true (safe_of_words _ _ _ _) ⟨fun k hk hat' => ?_, hnot⟩
      rw [hat.unique hat'] at htimeout
      omega
    · rw [safe_transfer_iff _ _ (by omega) hat.isDone]
      constructor
      · intro hbusy
        refine ⟨fun k hk hat' => ?_, hnot⟩
        rw [← hat.unique hat']
        exact hbusy
      · exact fun hanswers => hanswers.found j (by omega) hat
  · rw [hres]
    dsimp only
    rw [if_pos rfl]
    exact iff_of_true (safe_of_words _ _ _ _)
      ⟨fun k _ hat' => absurd hat' (hat.not_doneAt k), fun hsilent => hsilent.not_failedAt hj hat⟩
  · rw [hres]
    dsimp only
    rw [if_neg (by simp), if_neg (by decide)]
    refine iff_of_false (fun hsafe => ?_) fun hanswers => hanswers.not_silent hsilent
    have hpolls := (hsafe.transfers (by simp)).dataPolls
    dsimp only at hpolls
    omega

/-- The controller is not busy at the first time in poll `k`. -/
lemma readsSafely_of_doneAt {k : ℕ} (hk : k ≤ 100000)
    (hat : Poll.DoneAt (NotBusy status) (fun _ => False) 0 k)
    (hres : Poll.wait (NotBusy status) (fun _ => False) 100000 0 = .done k (100000 - k)) :
    ReadsSafely status data 0 sector buffer ↔ Answers status := by
  have hbusy := waitBusy_eq status 100000 0
  rw [hres] at hbusy
  dsimp only at hbusy
  have hnot : ¬ Poll.Silent (NotBusy status) (fun _ => False) 0 100000 := fun hsilent =>
    hsilent.not_doneAt (by omega) hat
  by_cases htimeout : 100000 - k = 0
  · have hrun : ideReadSector status data 0 sector buffer =
        some ⟨buffer, 0, readCommand sector, 0, k + 1, k + 1, 0⟩ := by
      rw [ideReadSector, if_neg (by simp), hbusy, if_pos htimeout]
    rw [readsSafely_iff_safe hrun]
    refine iff_of_true (safe_of_words _ _ _ _) ⟨fun k' hk' hat' => ?_, fun hsilent => absurd hsilent hnot⟩
    rw [hat.unique hat'] at htimeout
    omega
  · have hrun : ideReadSector status data 0 sector buffer =
        some (readWhenNotBusy status data (readCommand sector) buffer ⟨100000 - k, k + 1, k + 1, false⟩) := by
      rw [ideReadSector, if_neg (by simp), hbusy, if_neg htimeout]
    rw [readsSafely_iff_safe hrun, safe_readWhenNotBusy_iff]
    constructor
    · intro hanswers
      refine ⟨fun k' _ hat' => ?_, fun hsilent => absurd hsilent hnot⟩
      rw [← hat.unique hat']
      exact ⟨fun j hj hdata => (hanswers.found j hj hdata).1, hanswers.not_silent⟩
    · intro hanswers
      have hready := hanswers.ready k (by omega) hat
      exact ⟨fun j hj hdata => ⟨hready.found j hj hdata, by dsimp only; omega⟩, hready.not_silent⟩

/-- The controller is busy all the time: the counter of the first loop is not 0 then. -/
lemma readsSafely_of_expired (hres : Poll.wait (NotBusy status) (fun _ => False) 100000 0 = .expired) :
    ReadsSafely status data 0 sector buffer ↔ AnswersFrom status 100001 fun _ => False := by
  have hbusy := waitBusy_eq status 100000 0
  rw [hres] at hbusy
  have hrun : ideReadSector status data 0 sector buffer =
      some (readWhenNotBusy status data (readCommand sector) buffer
        ⟨Word32.sub 0 1, 100001, 100001, false⟩) := by
    rw [ideReadSector, if_neg (by simp), hbusy]
    exact if_neg (by decide)
  rw [readsSafely_iff_safe hrun, safe_readWhenNotBusy_iff]
  constructor
  · intro hanswers
    refine ⟨fun j hj hdata => ?_, hanswers.not_silent⟩
    have hpolls := (hanswers.found j hj hdata).2
    dsimp only at hpolls
    omega
  · intro hanswers
    exact ⟨fun j hj hdata => (hanswers.found j hj hdata).elim, hanswers.not_silent⟩

/-- **What is wanted holds for controllers that answer** in time, and only for these.

**Proof sketch.** The first loop is left with a counter of 0, and the function returns, only if the last
poll succeeds. If the counter has expired, the second loop is entered, where data are taken too late. -/
theorem readsSafely_iff (status : ℕ → BitVec 8) (data : ℕ → BitVec 16) (lock : ℕ) (sector : BitVec 32)
    (buffer : ℕ → BitVec 8) :
    ReadsSafely status data lock sector buffer ↔ (lock = 0 → Answers status) := by
  by_cases hlock : lock = 0
  · subst hlock
    rw [imp_iff_right rfl]
    rcases Poll.wait_cases (NotBusy status) (fun _ => False) 100000 0 with
      ⟨k, hk, hat, hres⟩ | ⟨k, hk, hat, -⟩ | ⟨hsilent, hres⟩
    · rw [Nat.zero_add] at hk hres
      exact readsSafely_of_doneAt hk hat hres
    · exact absurd hat.hasFailed not_false
    · rw [readsSafely_of_expired hres]
      refine ⟨fun hanswers => ⟨fun k hk hat => ?_, fun _ => hanswers⟩, fun hanswers => hanswers.busy hsilent⟩
      exact absurd hat (hsilent.not_doneAt (by omega))
  · refine iff_of_true ⟨fun h => absurd h hlock, ?_, ?_, ?_⟩ fun h => absurd h hlock
    all_goals
      intro r hr
      rw [ideReadSector, if_pos hlock] at hr
      simp at hr

/-- All the statuses are `0xFF`, as they are without a drive: words are taken. -/
theorem not_readsSafely :
    ¬ ReadsSafely (fun _ => 0xFF) (fun _ => 0) 0 0 fun _ => 0 := by
  have hnever : ∀ i, ¬ NotBusy (fun _ => 0xFF) i := fun i => by
    show ¬ (0xFF : BitVec 8) &&& 0x80 = 0
    decide
  have hsilent : Poll.Silent (NotBusy fun _ => 0xFF) (fun _ => False) 0 100000 :=
    ⟨hnever _, fun k _ _ => ⟨hnever k, not_false⟩⟩
  rcases Poll.wait_cases (NotBusy fun _ => 0xFF) (fun _ => False) 100000 0 with
    ⟨k, -, hat, -⟩ | ⟨k, -, hat, -⟩ | ⟨-, hres⟩
  · exact absurd hat.isDone (hnever k)
  · exact absurd hat.hasFailed not_false
  · rw [readsSafely_of_expired hres]
    intro hanswers
    refine hanswers.found 0 (by decide) ⟨le_rfl, ?_, fun k hk hlt => absurd hlt (not_lt.2 hk)⟩
    show (0xFF : BitVec 8) &&& 0x08 ≠ 0
    decide

end Ide

end Jarvis
