import Shogun.Interrupt.Dispatch

/-!
# Handlers by interrupt line (`idt.c`)

Drivers register a handler for a line of one of the two controllers, or for a vector of their own.
The vectors of the lines are those that `pic_remap` sets up.
-/

namespace Shogun.Interrupt

inductive IrqIdType where
  | irqInternal
  | irqPic1
  | irqPic2
  deriving DecidableEq, Repr

structure IrqId where
  type : IrqIdType
  index : UInt8
  deriving DecidableEq, Repr

/-- The sums are those of a `uint8_t`. -/
def irqIdToVector (irqId : IrqId) : UInt8 :=
  match irqId.type with
  | .irqInternal => irqId.index
  | .irqPic1 => 64 + irqId.index
  | .irqPic2 => 72 + irqId.index

def registerInterruptHandlerIrq (r : InterruptRegistry) (irqId : IrqId)
    (handler : Option InterruptHandler) : InterruptRegistry :=
  registerInterruptHandler r (irqIdToVector irqId) handler

def unregisterInterruptHandlerIrq (r : InterruptRegistry) (irqId : IrqId) : InterruptRegistry :=
  unregisterInterruptHandler r (irqIdToVector irqId)

/-- The handler that an interrupt with `vector` calls. -/
def InterruptRegistry.handlerOf (r : InterruptRegistry) (vector : UInt8) :
    Option InterruptHandler :=
  if r.handlersInitialized then r.interruptHandlers vector else none

end Shogun.Interrupt
