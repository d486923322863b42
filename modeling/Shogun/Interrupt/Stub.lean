import Shogun.Util.ByteMemory

/-!
# The interrupt stubs (`generate_interrupt_handlers.py`)

The generator writes one assembly stub for each vector: it saves the registers, calls a C function
and restores them before `iret`.  The CPU has pushed `EFLAGS`, `CS` and `EIP` by then, and for some
exceptions an error code.

A C function is given by what it does to the state between its call and its return.
-/

namespace Shogun.Interrupt

/-! ### The CPU -/

/-- What the stubs read and write. -/
structure Cpu where
  eax : UInt32
  ecx : UInt32
  edx : UInt32
  ebx : UInt32
  esp : UInt32
  ebp : UInt32
  esi : UInt32
  edi : UInt32
  ds : UInt16
  es : UInt16
  fs : UInt16
  gs : UInt16
  eip : UInt32
  cs : UInt16
  eflags : UInt32
  mem : ByteMemory

namespace Cpu

/-- A word goes on the stack. -/
def push (s : Cpu) (w : UInt32) : Cpu :=
  { s with esp := s.esp - 4, mem := s.mem.store32 (s.esp - 4) w }

/-- The word on top of the stack. -/
def top (s : Cpu) : UInt32 := s.mem.load32 s.esp

/-- `n` bytes come off the stack. -/
def drop (s : Cpu) (n : UInt32) : Cpu := { s with esp := s.esp + n }

end Cpu

/-- The exceptions with an error code. -/
def errorCodeVectors : List UInt8 := [8, 10, 11, 12, 13, 14, 17]

/-- What the CPU pushes when it takes interrupt `v`. -/
def Cpu.interrupt (s : Cpu) (v : UInt8) (errorCode : UInt32) : Cpu :=
  let s' := ((s.push s.eflags).push s.cs.toUInt32).push s.eip
  if v ∈ errorCodeVectors then s'.push errorCode else s'

/-! ### C functions -/

/-- The functions the stubs call. -/
inductive CFunction where
  | genericInterruptHandlerNoErrorCode
  | genericInterruptHandlerErrorCode
  | handleDivideByZero
  | handleGeneralProtectionFault
  | handlePageFault
  deriving DecidableEq, Repr

/-- The bytes of a function's arguments, which it may use as its own. -/
def CFunction.argBytes : CFunction → ℕ
  | .genericInterruptHandlerNoErrorCode => 4
  | .genericInterruptHandlerErrorCode => 4
  | .handleDivideByZero => 0
  | .handleGeneralProtectionFault => 0
  | .handlePageFault => 0

/-- The call of a C function: it returns with `ESP` as at the call, and leaves the stack frame of
its caller behind its arguments alone.  The frame of a stub has at most 17 words: the vector, four
segment registers, the eight of `pushal`, and the four the CPU has pushed. -/
structure CCall (argBytes : ℕ) where
  run : Cpu → Cpu
  esp_eq : ∀ s, (run s).esp = s.esp
  frame_eq : ∀ s i, argBytes ≤ i → i < 68 →
    (run s).mem (s.esp + .ofNat i) = s.mem (s.esp + .ofNat i)

/-! ### Instructions -/

/-- The segment registers a stub saves. -/
inductive Seg where
  | ds
  | es
  | fs
  | gs
  deriving DecidableEq, Repr

def Cpu.seg (s : Cpu) : Seg → UInt16
  | .ds => s.ds
  | .es => s.es
  | .fs => s.fs
  | .gs => s.gs

def Cpu.setSeg (s : Cpu) (r : Seg) (v : UInt16) : Cpu :=
  match r with
  | .ds => { s with ds := v }
  | .es => { s with es := v }
  | .fs => { s with fs := v }
  | .gs => { s with gs := v }

/-- The instructions of the stubs. -/
inductive Instr where
  | pushal
  /-- `pushl %ds` and so on -/
  | pushSeg (r : Seg)
  /-- `movl $n, %eax` -/
  | movEax (n : UInt32)
  /-- `movl %eax, %ds` and so on -/
  | movSeg (r : Seg)
  /-- `pushl $n` -/
  | push (n : UInt32)
  | call (f : CFunction)
  /-- `addl $n, %esp` -/
  | addEsp (n : UInt32)
  /-- `popl %ds` and so on -/
  | popSeg (r : Seg)
  | popal
  | iret
  deriving DecidableEq, Repr

/-- `popal` skips the word `pushal` stored for `ESP`. -/
def Cpu.popal (s : Cpu) : Cpu :=
  { s with
    edi := s.mem.load32 s.esp
    esi := s.mem.load32 (s.esp + 4)
    ebp := s.mem.load32 (s.esp + 8)
    ebx := s.mem.load32 (s.esp + 16)
    edx := s.mem.load32 (s.esp + 20)
    ecx := s.mem.load32 (s.esp + 24)
    eax := s.mem.load32 (s.esp + 28)
    esp := s.esp + 32 }

def Cpu.pushal (s : Cpu) : Cpu :=
  [s.eax, s.ecx, s.edx, s.ebx, s.esp, s.ebp, s.esi, s.edi].foldl Cpu.push s

/-- `popl` into a segment register. -/
def Cpu.popSeg (s : Cpu) (r : Seg) : Cpu := (s.drop 4).setSeg r s.top.toUInt16

/-- The effect of an instruction before `iret`. -/
def exec (calls : ∀ f : CFunction, CCall f.argBytes) (s : Cpu) : Instr → Cpu
  | .pushal => s.pushal
  | .pushSeg r => s.push (s.seg r).toUInt32
  | .movEax n => { s with eax := n }
  | .movSeg r => s.setSeg r s.eax.toUInt16
  | .push n => s.push n
  | .call f => (calls f).run s
  | .addEsp n => s.drop n
  | .popSeg r => s.popSeg r
  | .popal => s.popal
  | .iret => s

/-- The state in which a stub reaches `iret`. -/
def runStub (calls : ∀ f : CFunction, CCall f.argBytes) : List Instr → Cpu → Option Cpu
  | [], _ => none
  | .iret :: _, s => some s
  | i :: is, s => runStub calls is (exec calls s i)

/-! ### The generator -/

/-- The instructions every stub begins with: the registers are saved and the data segments set. -/
def saveRegisters : List Instr :=
  [.pushal, .pushSeg .ds, .pushSeg .es, .pushSeg .fs, .pushSeg .gs,
    .movEax 0x10, .movSeg .ds, .movSeg .es, .movSeg .fs, .movSeg .gs]

/-- The instructions every stub ends with. -/
def restoreRegisters : List Instr :=
  [.popSeg .gs, .popSeg .fs, .popSeg .es, .popSeg .ds, .popal, .iret]

/-- The template of a stub that passes its vector number. -/
def vectorHandler (f : CFunction) (num : UInt8) : List Instr :=
  saveRegisters ++ [.push num.toUInt32, .call f, .addEsp 4] ++ restoreRegisters

/-- The template of a stub that passes nothing. -/
def plainHandler (f : CFunction) : List Instr := saveRegisters ++ [.call f] ++ restoreRegisters

def generateAsmHandler (num : UInt8) : List Instr :=
  vectorHandler .genericInterruptHandlerNoErrorCode num

def generateErrorCodeHandler (num : UInt8) : List Instr :=
  if num = 0 then plainHandler .handleDivideByZero
  else if num = 13 then plainHandler .handleGeneralProtectionFault
  else if num = 14 then plainHandler .handlePageFault
  else if num ∈ [8, 10, 11, 12, 14, 17] then vectorHandler .genericInterruptHandlerErrorCode num
  else generateAsmHandler num

end Shogun.Interrupt
