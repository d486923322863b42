import Shogun.Memory.Allocator

/-!
# Programs that use the heap

A program that allocates its structures with `malloc` and gives them back with `free` works on the
memory that the allocator's own headers are in.  `HeapState` is that memory together with the
pointers the program got and has not freed, which no function reads.

A field of a structure is the word, or for a `bool` the byte, at its offset.
-/

namespace Shogun.Memory

/-- The heap, and the pointers returned and not yet deallocated, the latest first. -/
structure HeapState where
  heap : Heap
  live : List UInt32

namespace HeapState

/-- `malloc(size)`: the state afterwards and the pointer returned; `none` if it does not return. -/
def malloc (m : HeapState) (size : UInt32) : Option (HeapState × UInt32) :=
  (Memory.malloc m.heap size).map fun r =>
    (⟨r.1, if r.2 = 0 then m.live else r.2 :: m.live⟩, r.2)

/-- `free(p)`; `none` if it does not return. -/
def free (m : HeapState) (p : UInt32) : Option HeapState :=
  (Memory.free m.heap p).map fun h => ⟨h, m.live.erase p⟩

/-- The field at offset `k` of the structure at `p`. -/
def field (m : HeapState) (p k : UInt32) : UInt32 := m.heap.mem.load32 (p + k)

def setField (m : HeapState) (p k v : UInt32) : HeapState :=
  { m with heap := { m.heap with mem := m.heap.mem.store32 (p + k) v } }

/-- The `bool` at offset `k` of the structure at `p`. -/
def boolField (m : HeapState) (p k : UInt32) : Bool := m.heap.mem (p + k) != 0

def setBoolField (m : HeapState) (p k : UInt32) (v : Bool) : HeapState :=
  { m with heap := { m.heap with mem := m.heap.mem.store8 (p + k) (if v then 1 else 0) } }

end HeapState

end Shogun.Memory
