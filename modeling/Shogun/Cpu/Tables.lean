import Shogun.Cpu.Descriptor

/-!
# The descriptor tables (`gdt.c`, `idt.c`, `generate_idt_init.py`)

`gdt_init` fills the three entries of `gdt`, and `idt_init` clears `idt` and then runs the 256 calls
that `generate_idt_init.py` has written into `idt_init.inc`.  Both load a pointer to their table.
-/

namespace Shogun.Cpu

/-! ### `gdt_init` -/

/-- `GDT_PRESENT`. -/
def gdtPresent : UInt8 := 0x80

/-- `GDT_RING_3`. -/
def gdtRing3 : UInt8 := 0x60

/-- `GDT_SEGMENT`. -/
def gdtSegment : UInt8 := 0x10

/-- `GDT_EXECUTABLE`. -/
def gdtExecutable : UInt8 := 0x08

/-- `GDT_READABLE`, which is `GDT_WRITABLE` for a data segment. -/
def gdtReadable : UInt8 := 0x02

/-- `GDT_CODE_SEGMENT`. -/
def gdtCodeSegment : UInt8 := 1

/-- `GDT_DATA_SEGMENT`. -/
def gdtDataSegment : UInt8 := 0

structure AccessByteBuilder where
  flags : UInt8
  deriving DecidableEq, Repr

def createAccessByte (isExecutable isReadableWritable dpl : UInt8) : AccessByteBuilder :=
  let flags := gdtPresent
  let flags := flags ||| ((dpl <<< 5) &&& gdtRing3)
  let flags := flags ||| gdtSegment
  let flags := if isExecutable ≠ 0 then flags ||| gdtExecutable else flags
  let flags := if isReadableWritable ≠ 0 then flags ||| gdtReadable else flags
  ⟨flags⟩

def accessByteBuild (builder : AccessByteBuilder) : UInt8 := builder.flags

/-- `GDTPointer` and `IDTPointer`. -/
structure TablePointer where
  limit : UInt16
  base : UInt32
  deriving DecidableEq, Repr

/-- The table `gdt` after the call. -/
def gdtInit (gdt : Fin 3 → GdtEntry) : Fin 3 → GdtEntry :=
  let gdt := Function.update gdt 0 ⟨0, 0, 0, 0, 0, 0⟩
  let codeAccessByte := accessByteBuild (createAccessByte gdtCodeSegment 1 0)
  let gdt := Function.update gdt 1 (createDescriptor (gdt 1) 0 0xFFFFF codeAccessByte 0xCF)
  let dataAccessByte := accessByteBuild (createAccessByte gdtDataSegment 1 0)
  Function.update gdt 2 (createDescriptor (gdt 2) 0 0xFFFFF dataAccessByte 0xCF)

/-- `sizeof(gdt) - 1` and the address of `gdt`. -/
def gdtPtr (gdtAddr : UInt32) : TablePointer := ⟨3 * 8 - 1, gdtAddr⟩

/-! ### `idt_init` -/

/-- `for i in 0..n: idt[i] = f(i, idt[i])`. -/
def forVectors (f : UInt8 → IdtEntry → IdtEntry) (idt : UInt8 → IdtEntry) : ℕ → UInt8 → IdtEntry
  | 0 => idt
  | i + 1 =>
    let idt := forVectors f idt i
    Function.update idt (UInt8.ofNat i) (f (UInt8.ofNat i) (idt (UInt8.ofNat i)))

/-- The table `idt` after the call, where the stub of a vector is at `interruptHandler`.  The second
loop is the text of `idt_init.inc`, one call for each vector. -/
def idtInit (interruptHandler : UInt8 → UInt32) (idt : UInt8 → IdtEntry) : UInt8 → IdtEntry :=
  let idt := forVectors (fun _ _ => ⟨0, 0, 0, 0, 0⟩) idt 256
  forVectors (fun v entry =>
    createIdtDescriptor entry (interruptHandler v) 0x08 (idtPresent ||| idtInterrupt)) idt 256

/-- `sizeof(idt) - 1` and the address of `idt`. -/
def idtPtr (idtAddr : UInt32) : TablePointer := ⟨256 * 8 - 1, idtAddr⟩

/-- A sequence of calls of `idt_set_handler`. -/
def idtSetHandlers (idt : UInt8 → IdtEntry) (calls : List (UInt8 × UInt32)) : UInt8 → IdtEntry :=
  calls.foldl (fun idt call => idtSetHandler idt call.1 call.2) idt

end Shogun.Cpu
