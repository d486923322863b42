import Shogun.Async.HeapRun

/-!
# Sleeps and serial writes on one executor (`async_executor.c`)

Passes of `executor_run` over tasks of both kinds.  A poll of a sleep future reads the tick count, a
poll of a serial write future the line status of COM1, and both may have changed between any two
polls.

`SleepFuture` is the `base`, a `Future`, and `target_tick` at offset 12.
-/

namespace Shogun.Async

open Memory

/-- The poll function of a sleep future in the heap `m`, when the tick count is `currentTick`. -/
def sleepFuturePoll (m : HeapState) (currentTick future : UInt32) : FutureState :=
  if m.field future 12 ≤ currentTick then .ready else .pending

/-- What a poll finds: the tick count, and the answer of the line status port. -/
structure PollEnv where
  currentTick : UInt32
  lineStatus : UInt8

namespace HeapExecutor

/-- `vtable->poll(future)`, where `env` is what the poll of each future finds. -/
def taskPoll (text : UInt32 → UInt8) (asyncRtcFuturePoll : PollFn) (env : ℕ → PollEnv) : PollFn :=
  fun c f =>
    let e := env (c.futures.number f)
    (futureVTable? (c.field f 0)).bind fun
      | .sleepFuture => some (c, sleepFuturePoll c.memory e.currentTick f)
      | .asyncSerialWrite => some (asyncSerialWritePoll text e.lineStatus c f)
      | .asyncRtcFuture => asyncRtcFuturePoll c f

end HeapExecutor

end Shogun.Async
