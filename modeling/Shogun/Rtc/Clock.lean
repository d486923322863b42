import Shogun.Rtc.HeapTimers
import Shogun.Rtc.InitRtc
import Shogun.Util.CString

/-!
# The system clock (`kernel.c`, `rtc.c`)

The RTC requests an interrupt for a periodic event, and then no further one until register C is
read.  `rtc_interrupt_handler` counts the tick and reads the register, through the handles of the
system's driver or, as long as there is none, through `acknowledge_rtc_interrupt`.

The RTC is connected and its interrupt enabled, so that a request is an immediate call of the
handler.  What the handler writes to the interrupt controllers is not part of the state here.
-/

namespace Shogun.Rtc

open Port

/-! ### The device -/

namespace Cmos

/-- `PIE`: periodic events are to request interrupts. -/
def periodicEnabled (c : Cmos) : Bool := c.registers cmosRegB &&& 0x40 != 0

/-- `IRQF`: an interrupt is requested, until register C is read. -/
def irqf (c : Cmos) : Bool := c.registers cmosRegC &&& 0x80 != 0

/-- A periodic event sets `PF`, and `IRQF` when it is to request an interrupt. -/
def periodicEvent (c : Cmos) : Cmos :=
  { c with
    registers := Function.update c.registers cmosRegC
      (c.registers cmosRegC ||| (if c.periodicEnabled then 0xC0 else 0x40)) }

/-- A read of register C clears its flags. -/
def clearFlags (c : Cmos) : Cmos :=
  { c with registers := Function.update c.registers cmosRegC 0 }

end Cmos

/-- The CMOS with its register C, which cannot be written and is cleared when it is read. -/
def rtcBus : PortBus Cmos where
  inB c port :=
    if port = cmosDataPort then (c.readData, if c.index = cmosRegC then c.clearFlags else c)
    else (0xFF, c)
  outB c port value :=
    if port = cmosControlPort then c.writeControl value
    else if port = cmosDataPort then if c.index = cmosRegC then c else c.writeData value
    else c

/-! ### The handler -/

/-- The globals of `kernel.c` and `rtc.c`, the port registry and the device.  `output` is what was
printed, and `handled` counts the calls of the handler; the code reads neither. -/
structure ClockState where
  registry : Registry
  cmos : Cmos
  systemRtcInstance : Option RtcPorts
  systemTickCount : UInt32
  rtcInterruptCount : UInt32
  timers : HeapTimers
  output : List UInt8
  handled : ℕ

/-- `clear_rtc_interrupt`, through the handles of the driver. -/
def RtcPorts.clearRtcInterrupt (r : Registry) (rtc : RtcPorts) (c : Cmos) : Cmos :=
  (rtc.readCmosRegister rtcBus r cmosRegC c).2

/-- `if (system_rtc_instance != NULL)` and its two branches. -/
def ClockState.acknowledge (s : ClockState) : ClockState :=
  match s.systemRtcInstance with
  | some rtc => { s with cmos := rtc.clearRtcInterrupt s.registry s.cmos }
  | none =>
    let (registry, cmos) := acknowledgeRtcInterrupt rtcBus s.registry s.cmos
    { s with registry := registry, cmos := cmos }

/-- The callbacks of the repository only wake the executor; `none` if the call does not return. -/
def rtcInterruptHandler (s : ClockState) : Option ClockState :=
  let s := { s with systemTickCount := s.systemTickCount + 1 }
  let s := { s with timers := s.timers.monotonicTimeIncrementGlobal }
  let s := s.acknowledge
  let s := { s with rtcInterruptCount := s.rtcInterruptCount + 1 }
  (s.timers.wakeUpListCheckAndExecute fun _ => []).map fun timers =>
    let s := { s with timers := timers }
    let s := if s.systemTickCount % 256 == 0 then { s with output := s.output ++ ascii "." } else s
    { s with handled := s.handled + 1 }

/-! ### Runs -/

/-- What happens next: a periodic event of the RTC, a call of `wake_up_list_add`, or a call on the
port registry by any driver. -/
inductive ClockOp where
  | event
  | add (call : WakeUp)
  | port (op : PortOp)
  deriving DecidableEq, Repr

namespace ClockState

/-- A periodic event, and the interrupt if `IRQF` goes from clear to set. -/
def event (s : ClockState) : Option ClockState :=
  let requested := s.cmos.irqf
  let s := { s with cmos := s.cmos.periodicEvent }
  if s.cmos.irqf && !requested then rtcInterruptHandler s else some s

/-- One step; `none` if it does not return. -/
def step (s : ClockState) : ClockOp → Option ClockState
  | .event => s.event
  | .add call => (s.timers.wakeUpListAdd call).map fun timers => { s with timers := timers }
  | .port op => some { s with registry := s.registry.step op }

/-- The steps of a run in turn. -/
def run (s : ClockState) (ops : List ClockOp) : Option ClockState := ops.foldlM step s

end ClockState

end Shogun.Rtc
