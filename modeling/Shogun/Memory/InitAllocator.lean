import Shogun.Memory.Allocator

/-!
# Setting the heap up: `init_allocator`

The boot loader leaves a `multiboot_info` structure in memory, with the address and length of a
memory map.  `init_allocator` walks the map, picks the largest usable region by the low words of its
entries, and puts one free segment past the kernel and its stack if that region contains their end.

`kernel_end`, a symbol of the linker script, and the value of `esp` are parameters.  As in
`Shogun.Memory.Allocator` the loop is run with a bound of `2^32` turns; it does not write, so `none`
stands for a scan that never ends (`scan_terminates_iff` of `Shogun.Memory.Equiv.MemoryMap`).
-/

namespace Shogun.Memory

/-- `HEAP_SIZE`. -/
def heapSize : UInt32 := 2 * 1024 * 1024

/-- `struct memory_map_entry`. -/
structure MemoryMapEntry where
  size : UInt32
  baseAddrLow : UInt32
  baseAddrHigh : UInt32
  lengthLow : UInt32
  lengthHigh : UInt32
  type : UInt32
deriving DecidableEq

/-- `*(struct memory_map_entry*)current`. -/
def loadEntry (m : ByteMemory) (current : UInt32) : MemoryMapEntry where
  size := m.load32 current
  baseAddrLow := m.load32 (current + 4)
  baseAddrHigh := m.load32 (current + 8)
  lengthLow := m.load32 (current + 12)
  lengthHigh := m.load32 (current + 16)
  type := m.load32 (current + 20)

/-- `mb_info->flags`. -/
def flags (m : ByteMemory) (mbInfo : UInt32) : UInt32 := m.load32 mbInfo

/-- `mb_info->mmap_length`, behind eleven words. -/
def mmapLength (m : ByteMemory) (mbInfo : UInt32) : UInt32 := m.load32 (mbInfo + 44)

/-- `mb_info->mmap_addr`. -/
def mmapAddr (m : ByteMemory) (mbInfo : UInt32) : UInt32 := m.load32 (mbInfo + 48)

/-- `largest_region_addr` and `largest_region_size`. -/
structure LargestRegion where
  addr : UInt32
  size : UInt32
deriving DecidableEq

/-- The body of the scan but for the stride. -/
def updateLargest (entry : MemoryMapEntry) (largest : LargestRegion) : LargestRegion :=
  if entry.type = 1 ∧ entry.lengthLow > largest.size then
    if entry.lengthLow ≥ heapSize then ⟨entry.baseAddrLow, entry.lengthLow⟩ else largest
  else largest

/-- `current += entry->size + 4`. -/
def nextEntry (m : ByteMemory) (current : UInt32) : UInt32 :=
  current + ((loadEntry m current).size + 4)

/-- `while (current < end)`. -/
def scanLoop (m : ByteMemory) (stop : UInt32) : Nat → UInt32 → LargestRegion → Option LargestRegion
  | 0, _, _ => none
  | fuel + 1, current, largest =>
    if current < stop then
      scanLoop m stop fuel (nextEntry m current) (updateLargest (loadEntry m current) largest)
    else some largest

/-- The scan of the whole map. -/
def scanMemoryMap (m : ByteMemory) (mmapAddr mmapLength : UInt32) : Option LargestRegion :=
  scanLoop m (mmapAddr + mmapLength) (2 ^ 32) mmapAddr ⟨0, 0⟩

/-- `reserved_end`: the end of the kernel or the stack pointer, whichever is higher. -/
def reservedEnd (kernelEnd esp : UInt32) : UInt32 := if kernelEnd > esp then kernelEnd else esp

/-- The part of `init_allocator` behind the scan. -/
def installHeap (h : Heap) (kernelEnd esp : UInt32) (largest : LargestRegion) : Heap :=
  if largest.size = 0 then h
  else
    let reservedEnd := reservedEnd kernelEnd esp
    if largest.addr ≤ reservedEnd ∧ largest.addr + largest.size > reservedEnd then
      let heapStart := (reservedEnd + 7) &&& ~~~7
      let h := h.setSize heapStart
        (largest.size - (heapStart - largest.addr) - sizeofFreeSegment)
      let h := h.setNextSegment heapStart 0
      { h with firstFree := heapStart }
    else h

/-- `init_allocator(multiboot_info_ptr)`. -/
def initAllocator (h : Heap) (kernelEnd esp mbInfo : UInt32) : Option Heap :=
  if flags h.mem mbInfo &&& ((1 : UInt32) <<< 6) = 0 then some h
  else
    (scanMemoryMap h.mem (mmapAddr h.mem mbInfo) (mmapLength h.mem mbInfo)).map fun largest =>
      installHeap h kernelEnd esp largest

end Shogun.Memory
