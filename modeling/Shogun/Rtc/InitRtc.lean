import Shogun.Port.PortIo
import Shogun.Rtc.Cmos

/-!
# Acquiring the RTC (`rtc.c`)

`init_rtc` requests the two CMOS ports, allocates the driver and selects the data format;
`acknowledge_rtc_interrupt` requests them for one read of register C.  Every port access goes
through the handles.  The outcome of `malloc` is part of the call.
-/

namespace Shogun.Rtc

open Port

def cmosControlPort : UInt16 := 0x70

def cmosDataPort : UInt16 := 0x71

def cmosRegB : UInt8 := 0x0B

/-- `RTCDriver`, with its handles. -/
structure RtcPorts where
  controlPort : Slot
  dataPort : Slot
  nmiEnabled : Bool
  deriving DecidableEq, Repr

namespace RtcPorts

variable {σ : Type*}

/-- What the accesses read of the driver but its handles. -/
def driver (rtc : RtcPorts) : RtcDriver := ⟨rtc.nmiEnabled⟩

/-- `read_cmos_register`, through the handles of the driver. -/
def readCmosRegister (bus : PortBus σ) (r : Registry) (rtc : RtcPorts) (reg : UInt8) (d : σ) :
    UInt8 × σ :=
  let d := writePortB bus r (some rtc.controlPort) (regSelect rtc.driver reg) d
  readPortB bus r (some rtc.dataPort) d

/-- `write_cmos_register`, through the handles of the driver. -/
def writeCmosRegister (bus : PortBus σ) (r : Registry) (rtc : RtcPorts) (reg value : UInt8)
    (d : σ) : σ :=
  let d := writePortB bus r (some rtc.controlPort) (regSelect rtc.driver reg) d
  writePortB bus r (some rtc.dataPort) value d

def setDataFormat (bus : PortBus σ) (r : Registry) (rtc : RtcPorts) (d : σ) : σ :=
  let (statusRegB, d) := rtc.readCmosRegister bus r cmosRegB d
  let statusRegB := statusRegB ||| ((1 : UInt8) <<< 1 ||| (1 : UInt8) <<< 2)
  rtc.writeCmosRegister bus r cmosRegB statusRegB d

end RtcPorts

variable {σ : Type*}

/-- The driver, `none` for `NULL`, the registry and the devices. -/
def initRtc (bus : PortBus σ) (r : Registry) (d : σ) (allocated : Bool) :
    Option RtcPorts × Registry × σ :=
  match requestPort r cmosControlPort with
  | (none, r) => (none, r, d)
  | (some controlPort, r) =>
    match requestPort r cmosDataPort with
    | (none, r) => (none, releasePort r (.slot controlPort), d)
    | (some dataPort, r) =>
      if !allocated then
        let r := releasePort r (.slot controlPort)
        let r := releasePort r (.slot dataPort)
        (none, r, d)
      else
        let rtc : RtcPorts := ⟨controlPort, dataPort, true⟩
        (some rtc, r, rtc.setDataFormat bus r d)

/-- The registry and the devices; the byte read is not used. -/
def acknowledgeRtcInterrupt (bus : PortBus σ) (r : Registry) (d : σ) : Registry × σ :=
  match requestPort r cmosControlPort with
  | (none, r) => (r, d)
  | (some controlPort, r) =>
    match requestPort r cmosDataPort with
    | (none, r) => (releasePort r (.slot controlPort), d)
    | (some dataPort, r) =>
      let nmiMask : UInt8 := 0x00
      let d := writePortB bus r (some controlPort) (cmosRegC ||| nmiMask) d
      let (_, d) := readPortB bus r (some dataPort) d
      let r := releasePort r (.slot dataPort)
      (releasePort r (.slot controlPort), d)

/-! ### The CMOS behind the ports -/

/-- The CMOS alone: the control port cannot be read, and other ports have no device. -/
def cmosBus : PortBus Cmos where
  inB c port := if port = cmosDataPort then (c.readData, c) else (0xFF, c)
  outB c port value :=
    if port = cmosControlPort then c.writeControl value
    else if port = cmosDataPort then c.writeData value
    else c

end Shogun.Rtc
