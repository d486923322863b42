import Shogun.Logger.InterruptGuard
import Shogun.Util.BoundedQueue
import Shogun.Util.CString

/-!
# The ring buffer of the logger (`logger.c`)

`g_log_buffer` holds the entries between a log call and the next `logger_service`.  A push on a
full buffer moves `head` and `count` first, then writes at `tail` like any other push.
-/

namespace Shogun.Logger

/-- `LogEntry`. -/
structure LogEntry where
  level : LogLevel
  /-- `char message[MAX_LOG_MESSAGE_LENGTH]`. -/
  message : CharArray
  /-- `char module[64]`. -/
  module : CharArray

/-- `LOG_BUFFER_SIZE`. -/
def logBufferSize : UInt32 := 64

/-- `LogBuffer`. -/
structure LogBuffer where
  buffer : ℕ → LogEntry
  head : UInt32
  tail : UInt32
  count : UInt32

def loggerBufferIsFull (b : LogBuffer) : Bool := b.count ≥ logBufferSize

def loggerBufferIsEmpty (b : LogBuffer) : Bool := b.count == 0

def loggerBufferPush (b : LogBuffer) (entry : LogEntry) : LogBuffer :=
  let b :=
    if loggerBufferIsFull b then
      { b with head := (b.head + 1) % logBufferSize, count := b.count - 1 }
    else b
  { b with
    buffer := Function.update b.buffer b.tail.toNat entry
    tail := (b.tail + 1) % logBufferSize
    count := b.count + 1 }

/-- The answer is the entry copied out, or `none` where the source returns `0`. -/
def loggerBufferPop (b : LogBuffer) : Option LogEntry × LogBuffer :=
  if loggerBufferIsEmpty b then (none, b)
  else
    (some (b.buffer b.head.toNat),
      { b with head := (b.head + 1) % logBufferSize, count := b.count - 1 })

/-- What `logger_init` stores into `g_log_buffer`. -/
def LogBuffer.init (b : LogBuffer) : LogBuffer := { b with head := 0, tail := 0, count := 0 }

/-- The calls of a sequence in turn: what the pops answer, and the buffer after it. -/
def LogBuffer.run : LogBuffer → List (BoundedQueue.Op LogEntry) → List (Option LogEntry) × LogBuffer
  | b, [] => ([], b)
  | b, .push entry :: ops => (loggerBufferPush b entry).run ops
  | b, .pop :: ops =>
    let rest := (loggerBufferPop b).2.run ops
    ((loggerBufferPop b).1 :: rest.1, rest.2)

end Shogun.Logger
