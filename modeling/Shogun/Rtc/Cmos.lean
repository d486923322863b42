import Mathlib.Data.UInt
import Mathlib.Logic.Function.Basic

/-!
# CMOS registers (`rtc.c`)

A register is reached in two port accesses: its number goes to the control port `0x70`, which
latches the low seven bits, and its contents are read or written through the data port `0x71`.

The RTC interrupt handler selects register `0x0C` on the same latch, so the interrupt may come
between the two accesses of the main code.  It is one step: the handler runs with interrupts
disabled.
-/

namespace Shogun.Rtc

/-! ### The device -/

/-- The index latch and the registers. -/
structure Cmos where
  index : UInt8
  registers : UInt8 → UInt8

namespace Cmos

/-- A byte written to the control port. -/
def writeControl (c : Cmos) (value : UInt8) : Cmos := { c with index := value &&& 0x7F }

/-- A byte read from the data port. -/
def readData (c : Cmos) : UInt8 := c.registers c.index

/-- A byte written to the data port. -/
def writeData (c : Cmos) (value : UInt8) : Cmos :=
  { c with registers := Function.update c.registers c.index value }

end Cmos

/-! ### The driver -/

def cmosRegSeconds : UInt8 := 0x00

def cmosRegMinutes : UInt8 := 0x02

def cmosRegHours : UInt8 := 0x04

def cmosRegA : UInt8 := 0x0A

def cmosRegC : UInt8 := 0x0C

/-- What the accesses read of an `RTCDriver`; its two port handles are those of `0x70` and
`0x71`. -/
structure RtcDriver where
  nmiEnabled : Bool
  deriving DecidableEq, Repr

/-- `reg | nmi_mask`. -/
def regSelect (rtc : RtcDriver) (reg : UInt8) : UInt8 :=
  let nmiMask : UInt8 := if rtc.nmiEnabled then 0x00 else 0x80
  reg ||| nmiMask

/-- The byte read, and the device; a `NULL` driver reads `0`. -/
def readCmosRegister (rtc : Option RtcDriver) (c : Cmos) (reg : UInt8) : UInt8 × Cmos :=
  match rtc with
  | none => (0, c)
  | some rtc =>
    let c := c.writeControl (regSelect rtc reg)
    (c.readData, c)

def writeCmosRegister (rtc : Option RtcDriver) (c : Cmos) (reg value : UInt8) : Cmos :=
  match rtc with
  | none => c
  | some rtc => (c.writeControl (regSelect rtc reg)).writeData value

def clearRtcInterrupt (rtc : Option RtcDriver) (c : Cmos) : Cmos :=
  match rtc with
  | none => c
  | some rtc => (readCmosRegister (some rtc) c cmosRegC).2

/-! ### Accesses under interrupts -/

/-- What an access does behind its `reg_select`. -/
inductive CmosOp where
  | read
  | write (value : UInt8)
  deriving DecidableEq, Repr

/-- The port access of `read_cmos_register` or `write_cmos_register` that is next. -/
inductive AccessPc where
  /-- `write_port_b(rtc->control_port, reg_select)` -/
  | select
  /-- `value = read_port_b(rtc->data_port)` or `write_port_b(rtc->data_port, value)` -/
  | data
  /-- The call has returned. -/
  | done
  deriving DecidableEq, Repr

/-- A call on its way, with the byte it has read. -/
structure AccessState where
  pc : AccessPc
  value : UInt8
  cmos : Cmos

/-- What happens next: a port access of the call, or the RTC interrupt. -/
inductive AccessStep where
  | access
  | interrupt
  deriving DecidableEq, Repr

namespace AccessState

/-- The call before its first access. -/
def start (c : Cmos) : AccessState := ⟨.select, 0, c⟩

/-- The next port access of a call on register `reg`. -/
def access (rtc : RtcDriver) (reg : UInt8) (op : CmosOp) (a : AccessState) : AccessState :=
  match a.pc with
  | .select => { a with pc := .data, cmos := a.cmos.writeControl (regSelect rtc reg) }
  | .data =>
    match op with
    | .read => { a with pc := .done, value := a.cmos.readData }
    | .write value => { a with pc := .done, cmos := a.cmos.writeData value }
  | .done => a

/-- One step; `irq` is the driver the interrupt handler uses. -/
def step (rtc irq : RtcDriver) (reg : UInt8) (op : CmosOp) (a : AccessState) :
    AccessStep → AccessState
  | .access => a.access rtc reg op
  | .interrupt => { a with cmos := clearRtcInterrupt (some irq) a.cmos }

/-- The steps of an interleaving in turn. -/
def run (rtc irq : RtcDriver) (reg : UInt8) (op : CmosOp) (a : AccessState)
    (steps : List AccessStep) : AccessState :=
  steps.foldl (step rtc irq reg op) a

end AccessState

end Shogun.Rtc
