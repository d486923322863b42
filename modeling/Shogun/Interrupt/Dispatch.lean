import Mathlib.Data.Finset.Max
import Mathlib.Data.UInt
import Mathlib.Logic.Function.Basic

/-!
# Dispatching interrupts (`idt.c`, `kernel.c`, `async_executor.c`)

`generic_interrupt_handler_no_error_code` calls the handler registered for a vector and then ends
the interrupt at the two 8259 controllers.  Of the handlers only what they write to the controllers
is kept: `rtc_interrupt_handler` ends the interrupt too, the others write nothing.
-/

namespace Shogun.Interrupt

/-! ### The registry -/

/-- The interrupt handlers of the repository. -/
inductive InterruptHandler where
  /-- `rtc_interrupt_handler` -/
  | rtc
  /-- `async_serial_interrupt_handler` -/
  | asyncSerial
  /-- `custom_interrupt_handler` -/
  | custom
  deriving DecidableEq, Repr

/-- `interrupt_handlers` and `handlers_initialized`; `none` is a `NULL` entry. -/
structure InterruptRegistry where
  interruptHandlers : UInt8 → Option InterruptHandler
  handlersInitialized : Bool

def initInterruptRegistry (r : InterruptRegistry) : InterruptRegistry :=
  if r.handlersInitialized then r else ⟨fun _ => none, true⟩

/-- A `uint8_t` is below 256, so the call always answers `0`. -/
def registerInterruptHandler (r : InterruptRegistry) (vector : UInt8)
    (handler : Option InterruptHandler) : InterruptRegistry :=
  let r := initInterruptRegistry r
  { r with interruptHandlers := Function.update r.interruptHandlers vector handler }

def unregisterInterruptHandler (r : InterruptRegistry) (vector : UInt8) : InterruptRegistry :=
  let r := initInterruptRegistry r
  { r with interruptHandlers := Function.update r.interruptHandlers vector none }

/-! ### Ends of interrupt -/

/-- The command ports of the two controllers. -/
inductive PicPort where
  | master
  | slave
  deriving DecidableEq, Repr

/-- Whether `pic_init_ports` got the handles of the command ports. -/
structure PicHandles where
  masterPicCmd : Bool
  slavePicCmd : Bool
  deriving DecidableEq, Repr

/-- The command ports `0x20` is written to, in order. -/
def picSendEoi (h : PicHandles) (intNum : UInt8) : List PicPort :=
  if 0x48 ≤ intNum ∧ intNum ≤ 0x4F then
    (if h.slavePicCmd then [.slave] else []) ++ (if h.masterPicCmd then [.master] else [])
  else if 0x40 ≤ intNum ∧ intNum ≤ 0x47 then
    if h.masterPicCmd then [.master] else []
  else []

/-- What a handler writes there itself. -/
def InterruptHandler.eois (h : PicHandles) : InterruptHandler → List PicPort
  | .rtc => picSendEoi h 0x48
  | .asyncSerial => []
  | .custom => []

/-- What the call of a registered handler writes there. -/
def InterruptRegistry.callEois (r : InterruptRegistry) (h : PicHandles) (vector : UInt8) :
    List PicPort :=
  if r.handlersInitialized then
    match r.interruptHandlers vector with
    | some handler => handler.eois h
    | none => []
  else []

def genericInterruptHandlerNoErrorCode (r : InterruptRegistry) (h : PicHandles) (vector : UInt8) :
    List PicPort :=
  r.callEois h vector ++ picSendEoi h vector

/-! ### Sequences of dispatches -/

/-- A dispatch, or a change of the registry between two of them. -/
inductive DispatchOp where
  | dispatch (vector : UInt8)
  | register (vector : UInt8) (handler : Option InterruptHandler)
  | unregister (vector : UInt8)
  deriving DecidableEq, Repr

/-- The registry after one of them. -/
def InterruptRegistry.step (r : InterruptRegistry) : DispatchOp → InterruptRegistry
  | .dispatch _ => r
  | .register vector handler => registerInterruptHandler r vector handler
  | .unregister vector => unregisterInterruptHandler r vector

/-- The registry after a sequence of them. -/
def InterruptRegistry.run (r : InterruptRegistry) (ops : List DispatchOp) : InterruptRegistry :=
  ops.foldl InterruptRegistry.step r

/-- The ends of interrupt one of them writes. -/
def InterruptRegistry.stepEois (r : InterruptRegistry) (h : PicHandles) :
    DispatchOp → List PicPort
  | .dispatch vector => genericInterruptHandlerNoErrorCode r h vector
  | .register _ _ => []
  | .unregister _ => []

/-- The ends of interrupt a sequence of them writes. -/
def InterruptRegistry.eois (r : InterruptRegistry) (h : PicHandles) :
    List DispatchOp → List PicPort
  | [] => []
  | op :: ops => r.stepEois h op ++ (r.step op).eois h ops

/-! ### The 8259 pair -/

/-- The in-service bits of a pair of controllers; bit `0` has the highest priority. -/
structure PicPair where
  master : Finset (Fin 8)
  slave : Finset (Fin 8)
  deriving DecidableEq

/-- A non-specific end of interrupt clears the in-service bit of the highest priority. -/
def nonSpecificEoi (isr : Finset (Fin 8)) : Finset (Fin 8) :=
  if h : isr.Nonempty then isr.erase (isr.min' h) else isr

/-- `0x20` is written to a command port. -/
def PicPair.write (p : PicPair) : PicPort → PicPair
  | .master => { p with master := nonSpecificEoi p.master }
  | .slave => { p with slave := nonSpecificEoi p.slave }

/-- The bits in service for a vector: an IRQ of the slave is also one on line `2` of the
master. -/
def ownBits (vector : UInt8) : PicPair :=
  if 0x48 ≤ vector ∧ vector ≤ 0x4F then ⟨{2}, {Fin.ofNat 8 (vector.toNat - 0x48)}⟩
  else if 0x40 ≤ vector ∧ vector ≤ 0x47 then ⟨{Fin.ofNat 8 (vector.toNat - 0x40)}, ∅⟩
  else ⟨∅, ∅⟩

end Shogun.Interrupt
