import Shogun.Cpu.Equiv.Descriptor
import Shogun.Cpu.Tables
import Shogun.Util.ByteTable

/-!
# How the processor reads the tables

When a selector is loaded and when an interrupt is taken, the processor reads descriptors from
memory, behind the pointers of `lgdt` and `lidt`.  `none` is a fault.
-/

namespace Shogun.Cpu

/-! ### Descriptors in memory -/

/-- The descriptor with number `index` of a table; its last byte must not be beyond the limit. -/
def readDescriptor (mem : ByteMemory) (t : TablePointer) (index : ℕ) : Option ℕ :=
  if 8 * index + 7 ≤ t.limit.toNat then
    some (littleEndian ((List.range 8).map fun i => mem (t.base + .ofNat (8 * index + i))))
  else none

/-! ### Segments -/

namespace SegmentDescriptor

/-- The segment is present, and one of code or data. -/
def usable (d : SegmentDescriptor) : Bool := d.access.testBit 7 && d.access.testBit 4

def executable (d : SegmentDescriptor) : Bool := d.access.testBit 3

/-- Readable for a code segment, writable for a data segment. -/
def readableWritable (d : SegmentDescriptor) : Bool := d.access.testBit 1

/-- The privilege level. -/
def dpl (d : SegmentDescriptor) : ℕ := bitRange d.access 5 2

/-- The offset of the last byte; with bit 3 of the flags the limit counts pages. -/
def lastOffset (d : SegmentDescriptor) : ℕ :=
  if d.flags.testBit 3 then 4096 * d.limit + 4095 else d.limit

end SegmentDescriptor

/-- The segment a selector is looked up as: its upper 13 bits are an index, and bit 2 asks for a
local table, of which there is none.  Entry 0 is no segment.  The lower two bits, which a load
checks against privilege levels, are not looked at. -/
def segmentOf (mem : ByteMemory) (gdtr : TablePointer) (selector : ℕ) :
    Option SegmentDescriptor := do
  guard (selector.testBit 2 = false ∧ selector / 8 ≠ 0)
  let w ← readDescriptor mem gdtr (selector / 8)
  guard (decodeSegment w).usable
  pure (decodeSegment w)

/-! ### Interrupts -/

/-- Where an interrupt goes: the selector for `CS`, the linear address, and whether the gate leaves
the interrupt flag as it was. -/
structure InterruptEntry where
  cs : ℕ
  address : ℕ
  keepsFlag : Bool
  deriving DecidableEq, Repr

/-- Interrupt `v` in ring 0: the gate must be present and a 32-bit interrupt gate (type `0xE`) or
trap gate (type `0xF`), and its selector that of a code segment of ring 0 which holds the offset. -/
def enterInterrupt (mem : ByteMemory) (gdtr idtr : TablePointer) (v : UInt8) :
    Option InterruptEntry := do
  let w ← readDescriptor mem idtr v.toNat
  let gate := decodeGate w
  guard (gate.typeAttr.testBit 7)
  guard (bitRange gate.typeAttr 0 5 = 0xE ∨ bitRange gate.typeAttr 0 5 = 0xF)
  let segment ← segmentOf mem gdtr gate.selector
  guard (segment.executable ∧ segment.dpl = 0 ∧ gate.offset ≤ segment.lastOffset)
  pure ⟨gate.selector, (segment.base + gate.offset) % 2 ^ 32, gate.typeAttr.testBit 0⟩

/-! ### Tables in memory -/

/-- The array `gdt` in memory. -/
def gdtBytes (gdt : Fin 3 → GdtEntry) : List UInt8 := (List.ofFn gdt).flatMap GdtEntry.bytes

/-- The array `idt` in memory. -/
def idtBytes (idt : UInt8 → IdtEntry) : List UInt8 :=
  (List.range 256).flatMap fun i => (idt (.ofNat i)).bytes

end Shogun.Cpu
