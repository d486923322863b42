import Shogun.Util.ByteMemory

/-!
# The kernel heap: `allocate` and `deallocate`

The model of `src/memory.c`.  The free list lives in memory itself: a `FreeSegment` at address
`seg` is the word `size` at `seg` and the word `next_segment` at `seg + 4`, and the `size` bytes
after this header are its data area.  A `UsedSegment` header is the single word `size` in front of
the pointer the caller got.  Both are laid out as the i386 compiler lays them out, so
`sizeof(FreeSegment) = 8` and `sizeof(UsedSegment) = 4`, and every computation is on 32-bit
unsigned words, wrap-around included.

The two list walks of the source are `while` loops over pointers read from memory.  They are run
here with a bound of `2^32` turns, and `none` means the bound was reached.  A walk never writes, so
it is determined by `current`, and after `2^32` turns some `current` has come up twice: `none`
stands for a walk that goes round a cyclic list forever.
-/

namespace Shogun.Memory

/-- `sizeof(FreeSegment)`. -/
def sizeofFreeSegment : UInt32 := 8

/-- `sizeof(UsedSegment)`; its `padding` array has length zero. -/
def sizeofUsedSegment : UInt32 := 4

/-- The allocator's state: memory and the static `first_free`, with `0` for `NULL`. -/
structure Heap where
  mem : ByteMemory
  firstFree : UInt32

namespace Heap

/-- `((FreeSegment*)seg)->size`, which is also `((UsedSegment*)seg)->size`. -/
def size (h : Heap) (seg : UInt32) : UInt32 := h.mem.load32 seg

/-- `seg->next_segment`. -/
def nextSegment (h : Heap) (seg : UInt32) : UInt32 := h.mem.load32 (seg + 4)

/-- `seg->size = v`. -/
def setSize (h : Heap) (seg v : UInt32) : Heap := { h with mem := h.mem.store32 seg v }

/-- `seg->next_segment = v`. -/
def setNextSegment (h : Heap) (seg v : UInt32) : Heap :=
  { h with mem := h.mem.store32 (seg + 4) v }

/-- Points the cell in front of a segment elsewhere: `first_free` when `prev` is `NULL`, the
`next_segment` of `prev` otherwise. -/
def setLink (h : Heap) (prev v : UInt32) : Heap :=
  if prev = 0 then { h with firstFree := v } else h.setNextSegment prev v

end Heap

/-! ### `allocate` -/

/-- The end of the segment at `current`, as the allocation loop computes it. -/
def segmentEnd (h : Heap) (current : UInt32) : UInt32 :=
  current + sizeofFreeSegment + h.size current

/-- Where the data of a block carved from the end of `current` would start. -/
def alignedDataPtr (h : Heap) (size alignment current : UInt32) : UInt32 :=
  (segmentEnd h current - size) &&& ~~~(alignment - 1)

/-- Where its `UsedSegment` header would start. -/
def headerPtr (h : Heap) (size alignment current : UInt32) : UInt32 :=
  alignedDataPtr h size alignment current - sizeofUsedSegment

/-- The bytes from that header to the end of the segment. -/
def fullAllocSize (h : Heap) (size alignment current : UInt32) : UInt32 :=
  segmentEnd h current - headerPtr h size alignment current

/-- The two tests on `current`: the header lies in the data area, and the block fits. -/
def fits (h : Heap) (size alignment current : UInt32) : Prop :=
  current + sizeofFreeSegment ≤ headerPtr h size alignment current
    ∧ fullAllocSize h size alignment current ≤ h.size current

instance (h : Heap) (size alignment current : UInt32) :
    Decidable (fits h size alignment current) :=
  inferInstanceAs (Decidable (_ ∧ _))

/-- Carves the block from the end of `current`: records its size, then shrinks `current` or, when
nothing remains, unlinks it.  The source's two last branches, for a remainder below
`sizeof(FreeSegment)` and for a larger one, have the same body. -/
def carve (h : Heap) (size alignment prev current : UInt32) : Heap :=
  let full := fullAllocSize h size alignment current
  let h := h.setSize (headerPtr h size alignment current) full
  let remainingSize := h.size current - full
  if remainingSize = 0 then h.setLink prev (h.nextSegment current)
  else if remainingSize < sizeofFreeSegment then h.setSize current (h.size current - full)
  else h.setSize current (h.size current - full)

/-- The search loop of `allocate`. -/
def allocateLoop (h : Heap) (size alignment : UInt32) :
    Nat → UInt32 → UInt32 → Option (Heap × UInt32)
  | 0, _, _ => none
  | fuel + 1, prev, current =>
    if current = 0 then some (h, 0)
    else if fits h size alignment current then
      some (carve h size alignment prev current, alignedDataPtr h size alignment current)
    else allocateLoop h size alignment fuel current (h.nextSegment current)

/-- `allocate(size, alignment)`: the heap afterwards and the pointer returned. -/
def allocate (h : Heap) (size alignment : UInt32) : Option (Heap × UInt32) :=
  if size = 0 then some (h, 0) else allocateLoop h size alignment (2 ^ 32) 0 h.firstFree

/-- `malloc(size)`. -/
def malloc (h : Heap) (size : UInt32) : Option (Heap × UInt32) := allocate h size 8

/-! ### `deallocate` -/

/-- `segments_adjacent(first, second)`. -/
def segmentsAdjacent (h : Heap) (first second : UInt32) : Prop :=
  second = first + sizeofFreeSegment + h.size first

instance (h : Heap) (first second : UInt32) : Decidable (segmentsAdjacent h first second) :=
  inferInstanceAs (Decidable (_ = _))

/-- The insertion loop of `deallocate`: the last segment below `freedBlock` at the front of the
list, and the one after it. -/
def findPlace (h : Heap) (freedBlock : UInt32) : Nat → UInt32 → UInt32 → Option (UInt32 × UInt32)
  | 0, _, _ => none
  | fuel + 1, prev, current =>
    if current ≠ 0 ∧ current < freedBlock then
      findPlace h freedBlock fuel current (h.nextSegment current)
    else some (prev, current)

/-- Joins `second` onto `first`, which is in front of it. -/
def absorb (h : Heap) (first second : UInt32) : Heap :=
  let h := h.setSize first (h.size first + sizeofFreeSegment + h.size second)
  h.setNextSegment first (h.nextSegment second)

/-- Links `freedBlock` in between `prev` and `current` and joins it with either neighbour it
touches. -/
def insertFreed (h : Heap) (freedBlock prev current : UInt32) : Heap :=
  let h := h.setNextSegment freedBlock current
  let h := h.setLink prev freedBlock
  let h := if current ≠ 0 ∧ segmentsAdjacent h freedBlock current then
      absorb h freedBlock current else h
  if prev ≠ 0 ∧ segmentsAdjacent h prev freedBlock then absorb h prev freedBlock else h

/-- `deallocate(ptr)`. -/
def deallocate (h : Heap) (ptr : UInt32) : Option Heap :=
  if ptr = 0 then some h
  else
    let usedHeader := ptr - sizeofUsedSegment
    let totalSize := h.size usedHeader
    -- the block becomes a free segment of `total_size - sizeof(UsedSegment)` bytes, in place
    let h := h.setSize usedHeader (totalSize - sizeofUsedSegment)
    let h := h.setNextSegment usedHeader 0
    (findPlace h usedHeader (2 ^ 32) 0 h.firstFree).map fun place =>
      insertFreed h usedHeader place.1 place.2

/-- `free(ptr)`. -/
def free (h : Heap) (ptr : UInt32) : Option Heap := deallocate h ptr

/-! ### Runs of a client -/

/-- What a client does with memory: it keeps a block for good, or frees it at once. -/
inductive HeapUse where
  | keep (size : UInt32)
  | use (size : UInt32)
  deriving DecidableEq, Repr

/-- The heap, the pointer to the block kept last, and the number of blocks freed since. -/
structure UseState where
  heap : Heap
  kept : Option UInt32
  freed : ℕ

/-- One `malloc`, and for a block that is not kept one `free`; a `NULL` pointer is freed as well. -/
def UseState.step (s : UseState) : HeapUse → Option UseState
  | .keep size => do
    let (h, p) ← malloc s.heap size
    pure (if p = 0 then { s with heap := h } else ⟨h, some p, 0⟩)
  | .use size => do
    let (h, p) ← malloc s.heap size
    let h ← free h p
    pure (if p = 0 then { s with heap := h } else { s with heap := h, freed := s.freed + 1 })

/-- The steps of a client in turn. -/
def UseState.run (s : UseState) (ops : List HeapUse) : Option UseState := ops.foldlM UseState.step s

end Shogun.Memory
