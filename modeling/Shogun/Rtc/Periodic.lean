import Shogun.Interrupt.Irq
import Shogun.Interrupt.Pic
import Shogun.Rtc.Clock

/-!
# Periodic interrupts (`rtc.c`)

`enable_rtc_interrupts` registers a handler for line 0 of the second controller, sets the rate and
the enable bit in the RTC and unmasks the line; `disable_rtc_interrupts` clears the enable bit and
takes the handler away.  Both go through the handles of a driver, which may be `NULL`.
-/

namespace Shogun.Rtc

open Interrupt Port

/-! ### The devices -/

/-- The RTC and the two interrupt controllers behind their ports. -/
def systemBus (onIcw1 : UInt8 → UInt8) : PortBus (Cmos × PicDevices) where
  inB d port :=
    if port = cmosControlPort ∨ port = cmosDataPort then
      let (value, cmos) := rtcBus.inB d.1 port
      (value, (cmos, d.2))
    else
      let (value, pics) := (picBus onIcw1).inB d.2 port
      (value, (d.1, pics))
  outB d port value :=
    if port = cmosControlPort ∨ port = cmosDataPort then (rtcBus.outB d.1 port value, d.2)
    else (d.1, (picBus onIcw1).outB d.2 port value)

/-! ### The calls -/

/-- The handlers, and the registry of ports with the handles of `idt.c` and the devices. -/
structure IrqState (σ : Type*) where
  handlers : InterruptRegistry
  pic : PicState σ

/-- `rtc_irq` of both calls. -/
def rtcIrq : IrqId := ⟨.irqPic2, 0⟩

section Calls

variable {σ : Type*}

/-- The registration answers `0`, so that there is no failure behind it. -/
def enableRtcInterrupts (bus : PortBus σ) (rtc : Option RtcPorts)
    (handler : Option InterruptHandler) (s : IrqState σ) : ℤ × IrqState σ :=
  match rtc with
  | none => (-1, s)
  | some rtc =>
    let handlers := registerInterruptHandlerIrq s.handlers rtcIrq handler
    let (regA, d) := rtc.readCmosRegister bus s.pic.registry cmosRegA s.pic.devices
    let regA := (regA &&& 0xF0) ||| 0x08
    let d := rtc.writeCmosRegister bus s.pic.registry cmosRegA regA d
    let (regB, d) := rtc.readCmosRegister bus s.pic.registry cmosRegB d
    let regB := regB ||| 0x40
    let d := rtc.writeCmosRegister bus s.pic.registry cmosRegB regB d
    (0, ⟨handlers, picUnmaskIrq bus { s.pic with devices := d } 8⟩)

def disableRtcInterrupts (bus : PortBus σ) (rtc : Option RtcPorts) (s : IrqState σ) :
    ℤ × IrqState σ :=
  match rtc with
  | none => (-1, s)
  | some rtc =>
    let (regB, d) := rtc.readCmosRegister bus s.pic.registry cmosRegB s.pic.devices
    let regB := regB &&& ~~~0x40
    let d := rtc.writeCmosRegister bus s.pic.registry cmosRegB regB d
    (0, ⟨unregisterInterruptHandlerIrq s.handlers rtcIrq, { s.pic with devices := d }⟩)

/-! ### Sequences of calls -/

/-- A call that concerns interrupts. -/
inductive IrqCall where
  | enable (rtc : Option RtcPorts) (handler : Option InterruptHandler)
  | disable (rtc : Option RtcPorts)
  | register (irqId : IrqId) (handler : Option InterruptHandler)
  | unregister (irqId : IrqId)
  deriving DecidableEq, Repr

/-- The effect of one call. -/
def IrqState.step (bus : PortBus σ) (s : IrqState σ) : IrqCall → IrqState σ
  | .enable rtc handler => (enableRtcInterrupts bus rtc handler s).2
  | .disable rtc => (disableRtcInterrupts bus rtc s).2
  | .register irqId handler =>
    { s with handlers := registerInterruptHandlerIrq s.handlers irqId handler }
  | .unregister irqId => { s with handlers := unregisterInterruptHandlerIrq s.handlers irqId }

/-- The calls of a sequence in turn. -/
def IrqState.run (bus : PortBus σ) (s : IrqState σ) (calls : List IrqCall) : IrqState σ :=
  calls.foldl (IrqState.step bus) s

end Calls

end Shogun.Rtc
