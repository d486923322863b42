import Mathlib.Data.UInt
import Mathlib.Logic.Function.Basic
import Shogun.Util.BitRange

/-!
# Segment and gate descriptors (`gdt.c`, `idt.c`)

`create_descriptor` and `create_idt_descriptor` fill the packed entries of the two descriptor tables
field by field.
-/

namespace Shogun.Cpu

/-! ### The global descriptor table -/

/-- `GDTEntry`, its fields in the order of the packed structure. -/
structure GdtEntry where
  limitLow : UInt16
  baseLow : UInt16
  baseMid : UInt8
  accessByte : UInt8
  limitHighFlags : UInt8
  baseHigh : UInt8
  deriving DecidableEq, Repr

/-- The bytes of an entry in memory. -/
def GdtEntry.bytes (e : GdtEntry) : List UInt8 :=
  bytes16 e.limitLow ++ bytes16 e.baseLow
    ++ [e.baseMid, e.accessByte, e.limitHighFlags, e.baseHigh]

/-- The entry, which the call overwrites. -/
def createDescriptor (entry : GdtEntry) (base limit : UInt32) (accessByte flags : UInt8) :
    GdtEntry :=
  let entry := { entry with baseLow := (base &&& 0xFFFF).toUInt16 }
  let entry := { entry with baseMid := ((base >>> 16) &&& 0xFF).toUInt8 }
  let entry := { entry with baseHigh := ((base >>> 24) &&& 0xFF).toUInt8 }
  let entry := { entry with limitLow := (limit &&& 0xFFFF).toUInt16 }
  let entry := { entry with limitHighFlags := ((limit >>> 16) &&& 0x0F).toUInt8 }
  let entry := { entry with limitHighFlags := entry.limitHighFlags ||| (flags &&& 0xF0) }
  { entry with accessByte := accessByte }

/-! ### The interrupt descriptor table -/

/-- `IDTEntry`, its fields in the order of the packed structure. -/
structure IdtEntry where
  offsetLow : UInt16
  selector : UInt16
  zero : UInt8
  typeAttr : UInt8
  offsetHigh : UInt16
  deriving DecidableEq, Repr

/-- The bytes of an entry in memory. -/
def IdtEntry.bytes (e : IdtEntry) : List UInt8 :=
  bytes16 e.offsetLow ++ bytes16 e.selector ++ [e.zero, e.typeAttr] ++ bytes16 e.offsetHigh

/-- The entry, which the call overwrites. -/
def createIdtDescriptor (entry : IdtEntry) (offset : UInt32) (selector : UInt16)
    (typeAttr : UInt8) : IdtEntry :=
  let entry := { entry with offsetLow := (offset &&& 0xFFFF).toUInt16 }
  let entry := { entry with offsetHigh := ((offset >>> 16) &&& 0xFFFF).toUInt16 }
  let entry := { entry with selector := selector }
  let entry := { entry with zero := 0 }
  { entry with typeAttr := typeAttr }

/-- `IDT_PRESENT`. -/
def idtPresent : UInt8 := 0x80

/-- `IDT_INTERRUPT`. -/
def idtInterrupt : UInt8 := 0x0E

/-- The table `idt` after the call. -/
def idtSetHandler (idt : UInt8 → IdtEntry) (vector : UInt8) (handlerOffset : UInt32) :
    UInt8 → IdtEntry :=
  Function.update idt vector
    (createIdtDescriptor (idt vector) handlerOffset 0x08 (idtPresent ||| idtInterrupt))

end Shogun.Cpu
