import Shogun.Async.HeapExecutor

/-!
# Serial writes (`async_executor.c`, `io.c`)

A serial write future sends its data to COM1 one byte for each poll that finds the transmitter
empty.  `AsyncSerialWriteFuture` is the `base`, and `data`, `len` and `written` at offsets 12, 16
and 20.  The data lie outside the heap, and nothing writes them; `text` is the memory there.

The log of the polls is what a reader at the data port of COM1 sees, with the future each byte comes
from; no function reads it.
-/

namespace Shogun.Async

/-! ### The port -/

/-- `SERIAL_LINE_STATUS_EMPTY`. -/
def serialLineStatusEmpty : UInt8 := 0x40

/-- The answer to the line status read from the port. -/
def serialIsTransmitEmpty (lineStatus : UInt8) : Bool := lineStatus &&& serialLineStatusEmpty != 0

/-- The bytes written to the data port once the wait for the transmitter has ended. -/
def writeSerial (c : UInt8) : List UInt8 := [c]

namespace HeapExecutor

/-! ### The future -/

/-- The new future, or `NULL` when `malloc` fails. -/
def asyncSerialWriteCreate (c : HeapExecutor) (data len : UInt32) :
    Option (HeapExecutor × UInt32) :=
  (c.newFuture .asyncSerialWrite 24).map fun (c', serialFuture) =>
    if serialFuture = 0 then (c', serialFuture)
    else
      let c' := c'.setField serialFuture 12 data
      let c' := c'.setField serialFuture 16 len
      let c' := c'.setField serialFuture 20 0
      let new : SerialWrite := ⟨c.futures.top, data, len⟩
      ({ c' with log := { c'.log with created := c'.log.created ++ [new] } }, serialFuture)

/-- The end of a poll of the future at `f`. -/
def record (c : HeapExecutor) (f : UInt32) (reads : List ℕ) (bytes : List UInt8)
    (state : FutureState) : HeapExecutor × FutureState :=
  let r : PollRecord := ⟨c.futures.number f, reads, bytes, state, c.field f 20⟩
  ({ c with log := { c.log with polls := c.log.polls ++ [r] } }, state)

/-- `lineStatus` is what the port answers. -/
def asyncSerialWritePoll (text : UInt32 → UInt8) (lineStatus : UInt8) (c : HeapExecutor)
    (f : UInt32) : HeapExecutor × FutureState :=
  if c.field f 20 < c.field f 16 then
    if serialIsTransmitEmpty lineStatus then
      let reads := [(c.field f 20).toNat]
      let bytes := writeSerial (text (c.field f 12 + c.field f 20))
      let c := c.setField f 20 (c.field f 20 + 1)
      if c.field f 20 < c.field f 16 then c.record f reads bytes .pending
      else c.record f reads bytes .ready
    else c.record f [] [] .pending
  else c.record f [] [] .ready

end HeapExecutor

end Shogun.Async
