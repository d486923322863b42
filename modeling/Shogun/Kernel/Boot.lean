import Shogun.Interrupt.Deliver
import Shogun.Rtc.Periodic

/-!
# The boot of the kernel (`kernel.c`)

`kernel_main` up to its `sti`, with what concerns the port registry, the interrupt controllers, the
RTC and the handlers.  What the firmware has left in the devices is a parameter, and so is what the
boot cannot know: whether each `malloc` of `init_rtc` succeeds, and what the first test does to the
time of the RTC.
-/

namespace Shogun.Kernel

open Interrupt Port Rtc

/-- What decides how a boot goes on. -/
structure BootOutcome where
  /-- `malloc` of the driver succeeds in `test_rtc_basic_init`. -/
  basicInit : Bool
  /-- In `test_rtc_interrupt_registration`. -/
  registration : Bool
  /-- For `system_rtc_instance`. -/
  system : Bool
  /-- What `read_rtc_time` and `write_rtc_time` of the first test do to the device, and the device
  to itself meanwhile. -/
  time : Cmos → Cmos

variable (bus : PortBus (Cmos × PicDevices))

/-- `init_rtc`, and then `body` unless it has failed. -/
def withRtc (allocated : Bool)
    (body : RtcPorts → IrqState (Cmos × PicDevices) → IrqState (Cmos × PicDevices))
    (s : IrqState (Cmos × PicDevices)) : IrqState (Cmos × PicDevices) :=
  match initRtc bus s.pic.registry s.pic.devices allocated with
  | (none, r, d) => { s with pic := { s.pic with registry := r, devices := d } }
  | (some rtc, r, d) => body rtc { s with pic := { s.pic with registry := r, devices := d } }

/-- `release_port(rtc->control_port); release_port(rtc->data_port);` -/
def releaseRtc (rtc : RtcPorts) (s : IrqState (Cmos × PicDevices)) :
    IrqState (Cmos × PicDevices) :=
  let r := releasePort s.pic.registry (.slot rtc.controlPort)
  let r := releasePort r (.slot rtc.dataPort)
  { s with pic := { s.pic with registry := r } }

def testRtcBasicInit (o : BootOutcome) :
    IrqState (Cmos × PicDevices) → IrqState (Cmos × PicDevices) :=
  withRtc bus o.basicInit fun rtc s =>
    releaseRtc rtc
      { s with pic := { s.pic with devices := (o.time s.pic.devices.1, s.pic.devices.2) } }

def testRtcInterruptRegistration (o : BootOutcome) :
    IrqState (Cmos × PicDevices) → IrqState (Cmos × PicDevices) :=
  withRtc bus o.registration fun rtc s =>
    let (result, s) := enableRtcInterrupts bus (some rtc) (some .rtc) s
    let s := if result = 0 then (disableRtcInterrupts bus (some rtc) s).2 else s
    releaseRtc rtc s

/-- `kernel_main` up to its `sti`.  Interrupts that are taken on the way, `int $0x80` and
`int $0x81` among them, are left out: a handler leaves the masks, the registrations and the slots of
the port registry as it finds them. -/
def kernelMain (o : BootOutcome) (s : IrqState (Cmos × PicDevices)) :
    IrqState (Cmos × PicDevices) :=
  -- `init_output`
  let s := { s with pic := { s.pic with registry := (requestPort s.pic.registry 0x3F8).2 } }
  -- `idt_init`
  let s := { s with pic := picInitPorts s.pic }
  let s := { s with pic := picInit bus s.pic }
  let s := { s with pic := picRemap bus s.pic }
  let s := { s with pic := { s.pic with registry := initPortManager s.pic.registry } }
  -- `run_rtc_tests`
  let s := testRtcBasicInit bus o s
  let s := testRtcInterruptRegistration bus o s
  -- `system_rtc_instance`
  let s := withRtc bus o.system
    (fun rtc s => (enableRtcInterrupts bus (some rtc) (some .rtc) s).2) s
  let s := { s with handlers := registerInterruptHandler s.handlers 0x81 (some .custom) }
  let s := { s with handlers := unregisterInterruptHandler s.handlers 0x81 }
  -- `serial_irq`
  let s := { s with
    handlers := registerInterruptHandlerIrq s.handlers ⟨.irqPic1, 4⟩ (some .asyncSerial) }
  { s with pic := picUnmaskIrq bus s.pic 4 }

/-- The machine before `kernel_main`: static storage, and the devices as the firmware left them. -/
def bootState (c : Cmos) (masterBase masterMask slaveBase slaveMask : UInt8) :
    IrqState (Cmos × PicDevices) where
  handlers := ⟨fun _ => none, false⟩
  pic := ⟨.static, none, none, none, none,
    (c, ⟨⟨.mask, masterBase, masterMask⟩, ⟨.mask, slaveBase, slaveMask⟩⟩)⟩

end Shogun.Kernel
