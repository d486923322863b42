import Mathlib.Data.UInt
import Shogun.Port.PortIo

/-!
# Programming the interrupt controllers (`idt.c`)

The two 8259 controllers have a command port and a data port each.  `ICW1` on the command port
starts an initialisation, and the next three bytes on the data port are `ICW2` to `ICW4`; otherwise
the data port is the mask of interrupt lines.

The driver reaches the ports through the handles that `pic_init_ports` has requested.
-/

namespace Shogun.Interrupt

open Port

/-! ### The controllers -/

/-- What a controller takes the next byte on its data port for. -/
inductive PicPhase where
  | icw2
  | icw3
  | icw4
  | mask
  deriving DecidableEq, Repr

/-- A controller; the vector of its line `0` is `vectorBase`. -/
structure Pic where
  phase : PicPhase
  vectorBase : UInt8
  mask : UInt8
  deriving DecidableEq, Repr

namespace Pic

/-- A byte written to the command port.  `0x11` is `ICW1`, and `onIcw1` what it does to the mask;
other commands change neither the mask nor the vectors. -/
def writeCommand (onIcw1 : UInt8 → UInt8) (p : Pic) (value : UInt8) : Pic :=
  if value = 0x11 then { p with phase := .icw2, mask := onIcw1 p.mask } else p

/-- A byte written to the data port.  `ICW2` holds the upper five bits of the vectors; of `ICW3` and
`ICW4` nothing is kept. -/
def writeData (p : Pic) (value : UInt8) : Pic :=
  match p.phase with
  | .icw2 => { p with phase := .icw3, vectorBase := value &&& 0xF8 }
  | .icw3 => { p with phase := .icw4 }
  | .icw4 => { p with phase := .mask }
  | .mask => { p with mask := value }

/-- Line `i` is masked. -/
def masked (p : Pic) (i : ℕ) : Bool := p.mask.toNat.testBit i

end Pic

/-- The two controllers. -/
structure PicDevices where
  master : Pic
  slave : Pic
  deriving DecidableEq, Repr

/-- The controllers behind their ports; other ports have no device. -/
def picBus (onIcw1 : UInt8 → UInt8) : PortBus PicDevices where
  inB d port :=
    if port = 0x21 then (d.master.mask, d)
    else if port = 0xA1 then (d.slave.mask, d)
    else (0xFF, d)
  outB d port value :=
    if port = 0x20 then { d with master := d.master.writeCommand onIcw1 value }
    else if port = 0x21 then { d with master := d.master.writeData value }
    else if port = 0xA0 then { d with slave := d.slave.writeCommand onIcw1 value }
    else if port = 0xA1 then { d with slave := d.slave.writeData value }
    else d

/-! ### The driver -/

/-- The port registry, the static handles of `idt.c` (`none` is `NULL`) and the devices. -/
structure PicState (σ : Type*) where
  registry : Registry
  masterPicCmd : Option Slot
  masterPicData : Option Slot
  slavePicCmd : Option Slot
  slavePicData : Option Slot
  devices : σ

section Driver

variable {σ : Type*}

/-- `write_port_b(handle, value)`. -/
def PicState.write (bus : PortBus σ) (s : PicState σ) (handle : Option Slot) (value : UInt8) :
    PicState σ :=
  { s with devices := writePortB bus s.registry handle value s.devices }

/-- `read_port_b(handle)`. -/
def PicState.read (bus : PortBus σ) (s : PicState σ) (handle : Option Slot) :
    UInt8 × PicState σ :=
  let (value, devices) := readPortB bus s.registry handle s.devices
  (value, { s with devices := devices })

def picInitPorts (s : PicState σ) : PicState σ :=
  let (masterPicCmd, r) := requestPort s.registry 0x20
  let (masterPicData, r) := requestPort r 0x21
  let (slavePicCmd, r) := requestPort r 0xA0
  let (slavePicData, r) := requestPort r 0xA1
  ⟨r, masterPicCmd, masterPicData, slavePicCmd, slavePicData, s.devices⟩

def picInit (bus : PortBus σ) (s : PicState σ) : PicState σ :=
  if s.masterPicData.isSome && s.slavePicData.isSome then
    let s := s.write bus s.masterPicData 0xFF
    s.write bus s.slavePicData 0xFF
  else s

def picRemap (bus : PortBus σ) (s : PicState σ) : PicState σ :=
  if s.masterPicCmd.isSome && s.slavePicCmd.isSome && s.masterPicData.isSome
      && s.slavePicData.isSome then
    let (masterMask, s) := s.read bus s.masterPicData
    let (slaveMask, s) := s.read bus s.slavePicData
    let s := s.write bus s.masterPicCmd 0x11
    let s := s.write bus s.slavePicCmd 0x11
    let s := s.write bus s.masterPicData 0x40
    let s := s.write bus s.slavePicData 0x48
    let s := s.write bus s.masterPicData 0x04
    let s := s.write bus s.slavePicData 0x02
    let s := s.write bus s.masterPicData 0x01
    let s := s.write bus s.slavePicData 0x01
    let s := s.write bus s.masterPicData masterMask
    s.write bus s.slavePicData slaveMask
  else s

/-- `value = read_port_b(handle); value &= ~(1 << bit); write_port_b(handle, value);`, when there is
a handle. -/
def clearMaskBit (bus : PortBus σ) (s : PicState σ) (handle : Option Slot) (bit : UInt8) :
    PicState σ :=
  if handle.isSome then
    let (value, s) := s.read bus handle
    let value := value &&& ~~~((1 : UInt8) <<< bit)
    s.write bus handle value
  else s

def picUnmaskIrq (bus : PortBus σ) (s : PicState σ) (irq : UInt8) : PicState σ :=
  if irq < 8 then clearMaskBit bus s s.masterPicData irq
  else if irq ≥ 8 ∧ irq < 16 then
    let s := clearMaskBit bus s s.masterPicData 2
    clearMaskBit bus s s.slavePicData (irq - 8)
  else s

end Driver

end Shogun.Interrupt
