import Shogun.Cpu.Processor
import Shogun.Interrupt.Irq
import Shogun.Interrupt.Pic
import Shogun.Interrupt.Stub

/-!
# From an interrupt line to a handler

A device raises a line of a controller; the controller passes a vector to the processor, which
enters the stub that it finds through the descriptor tables; the stub calls
`generic_interrupt_handler_no_error_code`, and that calls the handler registered for the vector it
is given.
-/

namespace Shogun.Interrupt

open Shogun.Cpu

/-! ### Lines -/

namespace PicDevices

/-- The line is not masked; one of the slave also needs the cascade. -/
def lineOpen (d : PicDevices) (line : Fin 16) : Bool :=
  if line.val < 8 then !d.master.masked line else !d.master.masked 2 && !d.slave.masked (line - 8)

/-- The vector a controller passes on for the line. -/
def lineVector (d : PicDevices) (line : Fin 16) : UInt8 :=
  if line.val < 8 then d.master.vectorBase + .ofNat line
  else d.slave.vectorBase + .ofNat (line - 8)

end PicDevices

/-! ### Stubs -/

/-- The C functions that a stub calls, each with the state at the call. -/
def stubCalls (calls : ∀ f : CFunction, CCall f.argBytes) :
    List Instr → Cpu → List (CFunction × Cpu)
  | [], _ => []
  | .iret :: _, _ => []
  | .call f :: is, s => (f, s) :: stubCalls calls is (exec calls s (.call f))
  | i :: is, s => stubCalls calls is (exec calls s i)

/-! ### Handlers -/

/-- A change of the registry, by a vector or by a line. -/
inductive HandlerCall where
  | register (vector : UInt8) (handler : Option InterruptHandler)
  | unregister (vector : UInt8)
  | registerIrq (irqId : IrqId) (handler : Option InterruptHandler)
  | unregisterIrq (irqId : IrqId)
  deriving DecidableEq, Repr

/-- The effect of one call. -/
def InterruptRegistry.change (r : InterruptRegistry) : HandlerCall → InterruptRegistry
  | .register vector handler => registerInterruptHandler r vector handler
  | .unregister vector => unregisterInterruptHandler r vector
  | .registerIrq irqId handler => registerInterruptHandlerIrq r irqId handler
  | .unregisterIrq irqId => unregisterInterruptHandlerIrq r irqId

/-- The calls of a sequence in turn. -/
def InterruptRegistry.changes (r : InterruptRegistry) (cs : List HandlerCall) : InterruptRegistry :=
  cs.foldl InterruptRegistry.change r

/-! ### The machine -/

/-- What decides where an interrupt goes: the controllers, the tables that were loaded, the code of
the stubs by its address, and the registry. -/
structure Machine where
  pics : PicDevices
  gdtr : TablePointer
  idtr : TablePointer
  codeAt : ℕ → Option (List Instr)
  handlers : InterruptRegistry

/-- The handler that runs when a device raises a line and the processor takes the interrupt, that is
with interrupts enabled and none of higher priority in service: `none` if nothing does, and
`some none` if no handler is registered.  Line `2` is the cascade and has no device. -/
def Machine.raiseLine (m : Machine) (calls : ∀ f : CFunction, CCall f.argBytes) (s : Cpu)
    (line : Fin 16) : Option (Option InterruptHandler) := do
  guard (line ≠ 2 ∧ m.pics.lineOpen line)
  let v := m.pics.lineVector line
  let entry ← enterInterrupt s.mem m.gdtr m.idtr v
  let stub ← m.codeAt entry.address
  match stubCalls calls stub (s.interrupt v 0) with
  -- the argument `uint8_t vector` is the low byte of the word on top of the stack
  | [(.genericInterruptHandlerNoErrorCode, t)] => some (m.handlers.handlerOf t.top.toUInt8)
  | _ => none

end Shogun.Interrupt
