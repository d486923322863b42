import Shogun.Interrupt.Deliver
import Shogun.Util.LastWrite

/-!
# The handler of a vector

* `handlerOf_register`, `handlerOf_unregister`: one change of the registry.
* `handlerOf_changes`: the last change of a vector decides.
-/

namespace Shogun.Interrupt

theorem handlerOf_register (r : InterruptRegistry) (vector v : UInt8)
    (handler : Option InterruptHandler) :
    (registerInterruptHandler r v handler).handlerOf vector
      = if vector = v then handler else r.handlerOf vector := by
  have hinit : (initInterruptRegistry r).handlersInitialized = true ∧
      (initInterruptRegistry r).interruptHandlers vector = r.handlerOf vector := by
    unfold initInterruptRegistry InterruptRegistry.handlerOf
    split_ifs with h
    · exact ⟨h, rfl⟩
    · exact ⟨rfl, rfl⟩
  rw [← hinit.2]
  unfold registerInterruptHandler InterruptRegistry.handlerOf
  dsimp only
  rw [hinit.1, if_pos rfl, Function.update_apply]

theorem handlerOf_unregister (r : InterruptRegistry) (vector v : UInt8) :
    (unregisterInterruptHandler r v).handlerOf vector
      = if vector = v then none else r.handlerOf vector :=
  handlerOf_register r vector v none

/-- The vector that a call is about. -/
def HandlerCall.vector : HandlerCall → UInt8
  | .register vector _ => vector
  | .unregister vector => vector
  | .registerIrq irqId _ => irqIdToVector irqId
  | .unregisterIrq irqId => irqIdToVector irqId

/-- The handler that it leaves there. -/
def HandlerCall.handler : HandlerCall → Option InterruptHandler
  | .register _ handler => handler
  | .unregister _ => none
  | .registerIrq _ handler => handler
  | .unregisterIrq _ => none

theorem handlerOf_change (r : InterruptRegistry) (c : HandlerCall) (v : UInt8) :
    (r.change c).handlerOf v = if v = c.vector then c.handler else r.handlerOf v := by
  cases c with
  | register vector handler => exact handlerOf_register r v vector handler
  | unregister vector => exact handlerOf_unregister r v vector
  | registerIrq irqId handler => exact handlerOf_register r v (irqIdToVector irqId) handler
  | unregisterIrq irqId => exact handlerOf_unregister r v (irqIdToVector irqId)

theorem handlerOf_changes (r : InterruptRegistry) (cs : List HandlerCall) (v : UInt8) :
    (r.changes cs).handlerOf v
      = (lastWrite (fun c => if v = c.vector then some c.handler else none) cs).getD
          (r.handlerOf v) := by
  induction cs using List.reverseRecOn with
  | nil => rfl
  | append_singleton cs c ih =>
    have hsnoc : r.changes (cs ++ [c]) = (r.changes cs).change c := by
      unfold InterruptRegistry.changes
      rw [List.foldl_append]
      rfl
    rw [hsnoc, handlerOf_change, lastWrite_concat, ih]
    split_ifs <;> rfl

end Shogun.Interrupt
