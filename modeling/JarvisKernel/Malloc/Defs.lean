import Mathlib.Logic.Function.Basic
import JarvisKernel.Lib.Word32

set_option relaxedAutoImplicit false
set_option autoImplicit false

/-!
# The kernel heap

The functions of `src/kernel/memory/malloc.c` on a memory of chunk headers. A header is found at its
address; payloads are not modelled, since the allocator never reads them. Addresses and sizes are
32-bit words, and pointers are addresses with null as `none`.

The locks of the manager are left out: each call is made while no other one is under way, so a lock is
always free when it is taken. So is the output of `kernel_printf` and `print_memory_status`.

## Main definitions

* `Jarvis.MemoryChunk`, `Jarvis.MemoryManager` — headers, list heads and the memory.
* `Jarvis.MemoryManager.onInitMemoryManager`, `malloc`, `free` — the interface.
* `Jarvis.MemoryManager.allocateFromSizeClass`, `refillSizeClass` — the static functions.
-/

namespace Jarvis

/-- `MemoryChunk`. -/
structure MemoryChunk where
  next : Option ℕ
  prev : Option ℕ
  allocated : Bool
  size : ℕ
  sizeClass : ℕ

/-- `MemoryManager`, and the headers in memory. -/
structure MemoryManager where
  first : Option ℕ
  freeLists : ℕ → Option ℕ
  mem : ℕ → MemoryChunk

/-- `MIN_ALLOC_SIZE`. -/
def minAllocSize : ℕ := 16

/-- `NUM_SIZE_CLASSES`. -/
def numSizeClasses : ℕ := 7

/-- `size_classes`. -/
def sizeClasses : List ℕ := [16, 32, 64, 128, 256, 512, 1024]

/-- `sizeof(MemoryChunk)`. -/
def chunkHeader : ℕ := 20

/-- An address as a pointer. -/
def toPtr (a : ℕ) : Option ℕ := if a = 0 then none else some a

/-- `get_size_class_index`. -/
def getSizeClassIndex (size : ℕ) : ℕ := sizeClasses.findIdx fun c => size ≤ c

namespace MemoryManager

/-- A bound on the iterations of a loop over a list: there are only `2 ^ 32` addresses. -/
def listFuel : ℕ := 2 ^ 32

/-- The manager after a change of the header at `a`. -/
def modify (m : MemoryManager) (a : ℕ) (f : MemoryChunk → MemoryChunk) : MemoryManager :=
  { m with mem := Function.update m.mem a (f (m.mem a)) }

/-- `if (p) p->next = q; else manager->first = q;`. -/
def setNext (m : MemoryManager) (p q : Option ℕ) : MemoryManager :=
  match p with
  | some a => m.modify a fun c => { c with next := q }
  | none => { m with first := q }

/-- `if (p) p->prev = q;`. -/
def setPrev (m : MemoryManager) (p q : Option ℕ) : MemoryManager :=
  match p with
  | some a => m.modify a fun c => { c with prev := q }
  | none => m

/-! ## Large chunks -/

/-- The best fit loop: the smallest free chunk on the list that is large enough. -/
def findBestFit (m : MemoryManager) (size : ℕ) : ℕ → Option ℕ → Option ℕ → Option (Option ℕ)
  | 0, _, _ => none
  | _ + 1, best, none => some best
  | fuel + 1, best, some a =>
    let fits := !(m.mem a).allocated && decide (size ≤ (m.mem a).size)
    let better := match best with
      | none => true
      | some b => decide ((m.mem a).size < (m.mem b).size)
    findBestFit m size fuel (if fits && better then some a else best) (m.mem a).next

/-- Take a chunk out of the large list, through its own links. -/
def unlink (m : MemoryManager) (b : ℕ) : MemoryManager :=
  let m := m.setNext (m.mem b).prev (m.mem b).next
  m.setPrev (m.mem b).next (m.mem b).prev

/-- Write a free header of the given size at `a` and put it at the head of the large list. -/
def pushLarge (m : MemoryManager) (a size : ℕ) : MemoryManager :=
  let m := m.modify a fun _ =>
    { next := m.first, prev := none, allocated := false, size := size, sizeClass := numSizeClasses }
  let m := m.setPrev m.first (toPtr a)
  { m with first := toPtr a }

/-- Cut what the request leaves over off the chunk, if a chunk of the minimal size remains. -/
def splitChunk (m : MemoryManager) (b size : ℕ) : MemoryManager :=
  if Word32.add (Word32.add size chunkHeader) minAllocSize ≤ (m.mem b).size then
    let m := m.pushLarge (Word32.add (Word32.add b chunkHeader) size)
      (Word32.sub (Word32.sub (m.mem b).size size) chunkHeader)
    m.modify b fun c => { c with size := size }
  else m

/-- The large branch of `allocate_from_size_class`. -/
def allocateLarge (m : MemoryManager) (size : ℕ) : Option (MemoryManager × ℕ) := do
  let best ← m.findBestFit size listFuel none m.first
  match best with
  | none => return (m, 0)
  | some b =>
    let m := (m.unlink b).splitChunk b size
    let m := m.modify b fun c =>
      { c with allocated := true, sizeClass := numSizeClasses, prev := none, next := none }
    return (m, Word32.add b chunkHeader)

/-! ## Size classes -/

/-- The bytes that `refill_size_class` takes at a time. -/
def refillSize : ℕ := 4 * 1024

/-- The search of `refill_size_class`: the chunk before, and the first free chunk that is large
enough. -/
def findBigChunk (m : MemoryManager) :
    ℕ → Option ℕ → Option ℕ → Option (Option ℕ × Option ℕ)
  | 0, _, _ => none
  | _ + 1, prev, none => some (prev, none)
  | fuel + 1, prev, some a =>
    if !(m.mem a).allocated && decide (refillSize ≤ (m.mem a).size) then some (prev, some a)
    else findBigChunk m fuel (some a) (m.mem a).next

/-- Take the chunk `big` out of the large list, given the chunk before it. -/
def unlinkAfter (m : MemoryManager) (prev : Option ℕ) (big : ℕ) : MemoryManager :=
  let m := m.setNext prev (m.mem big).next
  m.setPrev (m.mem big).next prev

/-- Put the chunk at `a` at the head of the list of a class. -/
def pushClass (m : MemoryManager) (i a : ℕ) : MemoryManager :=
  let m := m.modify a fun c => { c with next := m.freeLists i }
  let m := m.setPrev (m.freeLists i) (toPtr a)
  { m with freeLists := Function.update m.freeLists i (toPtr a) }

/-- The loop that cuts chunks of a class out of the memory from `pos` on. -/
def carveChunks (m : MemoryManager) (i blockSize : ℕ) : ℕ → ℕ → MemoryManager
  | 0, _ => m
  | count + 1, pos =>
    let m := m.modify pos fun c =>
      { c with size := blockSize, allocated := false, sizeClass := i, prev := none }
    carveChunks (m.pushClass i pos) i blockSize count
      (Word32.add pos (Word32.add chunkHeader blockSize))

/-- `refill_size_class`. The remainder is computed from the size field of the big chunk, after the
first chunk of the class was written there. -/
def refillSizeClass (m : MemoryManager) (i : ℕ) : Option MemoryManager := do
  let blockSize := sizeClasses.getD i 0
  match ← m.findBigChunk listFuel none m.first with
  | (_, none) => return m
  | (prev, some big) =>
    let m := m.unlinkAfter prev big
    let count := max 1 (refillSize / (blockSize + chunkHeader))
    let m := m.carveChunks i blockSize count big
    let remaining := Word32.sub (m.mem big).size refillSize
    if chunkHeader + minAllocSize < remaining then
      return m.pushLarge (Word32.add big refillSize) (Word32.sub remaining chunkHeader)
    else return m

/-- The end of `allocate_from_size_class` for a class: take the first chunk of its list. -/
def popClass (m : MemoryManager) (i : ℕ) : MemoryManager × ℕ :=
  match m.freeLists i with
  | none => (m, 0)
  | some a =>
    let m := { m with freeLists := Function.update m.freeLists i (m.mem a).next }
    (m.modify a fun c => { c with allocated := true }, Word32.add a chunkHeader)

/-- `allocate_from_size_class`. -/
def allocateFromSizeClass (m : MemoryManager) (size i : ℕ) : Option (MemoryManager × ℕ) :=
  if numSizeClasses ≤ i then m.allocateLarge size
  else
    match m.freeLists i with
    | none => (m.refillSizeClass i).map fun m' => m'.popClass i
    | some _ => some (m.popClass i)

/-! ## The interface -/

/-- `on_init_memory_manager`. -/
def onInitMemoryManager (mem : ℕ → MemoryChunk) (start size : ℕ) : MemoryManager :=
  if size < chunkHeader then { first := none, freeLists := fun _ => none, mem := mem }
  else
    { first := toPtr start, freeLists := fun _ => none,
      mem := Function.update mem start
        { next := none, prev := none, allocated := false, size := size - chunkHeader,
          sizeClass := numSizeClasses } }

/-- The size that `malloc` asks for: `(size + MIN_ALLOC_SIZE - 1) & ~(MIN_ALLOC_SIZE - 1)`. -/
def roundUp (size : ℕ) : ℕ :=
  Word32.add size (minAllocSize - 1) / minAllocSize * minAllocSize

/-- `malloc`, after `on_init_memory_manager`; 0 is the null pointer. -/
def malloc (m : MemoryManager) (size : ℕ) : Option (MemoryManager × ℕ) :=
  m.allocateFromSizeClass (roundUp size) (getSizeClassIndex (roundUp size))

/-- The loop of `free` that merges a chunk with the chunks before it. -/
def coalescePrev : ℕ → MemoryManager → ℕ → Option (MemoryManager × ℕ)
  | 0, _, _ => none
  | fuel + 1, m, chunk =>
    match (m.mem chunk).prev with
    | none => some (m, chunk)
    | some p =>
      if (m.mem p).allocated then some (m, chunk)
      else
        let m := m.modify p fun c => { c with next := (m.mem chunk).next }
        let m := m.modify p fun c =>
          { c with size := Word32.add c.size (Word32.add (m.mem chunk).size chunkHeader) }
        coalescePrev fuel (m.setPrev (m.mem chunk).next (some p)) p

/-- The loop of `free` that merges a chunk with the chunks after it. -/
def coalesceNext : ℕ → MemoryManager → ℕ → Option MemoryManager
  | 0, _, _ => none
  | fuel + 1, m, chunk =>
    match (m.mem chunk).next with
    | none => some m
    | some n =>
      if (m.mem n).allocated then some m
      else
        let m := m.modify chunk fun c => { c with next := (m.mem n).next }
        let m := m.modify chunk fun c =>
          { c with size := Word32.add c.size (Word32.add (m.mem n).size chunkHeader) }
        coalesceNext fuel (m.setPrev (m.mem n).next (some chunk)) chunk

/-- `(MemoryChunk *)((size_t)ptr - sizeof(MemoryChunk))`: the header of the block with the payload at
`ptr`. -/
def header (ptr : ℕ) : ℕ := Word32.sub ptr chunkHeader

/-- The large branch of `free`. -/
def freeLarge (m : MemoryManager) (chunk : ℕ) : Option MemoryManager :=
  let m := m.modify chunk fun c => { c with allocated := false }
  (coalescePrev listFuel m chunk).bind fun x => coalesceNext listFuel x.1 x.2

/-- `free`. -/
def free (m : MemoryManager) (ptr : ℕ) : Option MemoryManager :=
  if ptr = 0 then some m
  else if (m.mem (header ptr)).sizeClass < numSizeClasses then
    some ((m.modify (header ptr) fun c => { c with allocated := false }).pushClass
      (m.mem (header ptr)).sizeClass (header ptr))
  else m.freeLarge (header ptr)

end MemoryManager

end Jarvis
