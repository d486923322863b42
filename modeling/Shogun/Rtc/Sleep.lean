import Shogun.Async.Tasks
import Shogun.Rtc.HeapTimers

/-!
# Sleeping (`rtc.c`, `async_executor.c`)

`sleep_future_create` and `sleep_seconds` read the tick count, add the length of the sleep to it and
put an entry for the sum on the wake-up list.  A future is done when a poll finds the tick count at
or beyond its target; `sleep_seconds` tests the same in a busy wait.  `sleep_ticks` halts between
the tests, and gives up after a million halts.  All of it is 32-bit arithmetic.

`SleepFuture` is the `base`, a `Future`, and `target_tick` at offset 12.  It is in the heap that the
timers are in.
-/

namespace Shogun.Rtc

open Async Memory

/-- The callbacks on the list, as function pointers; both wake the executor. -/
def sleepFutureCallback : UInt32 := 1

def sleepCallback : UInt32 := 2

namespace HeapTimers

/-! ### The future -/

def setBoolField (c : HeapTimers) (p k : UInt32) (v : Bool) : HeapTimers :=
  { c with memory := c.memory.setBoolField p k v }

/-- The stores to the fields of a new future. -/
def fillSleepFuture (c : HeapTimers) (sleepFuture ticks : UInt32) : HeapTimers :=
  let c := c.setField sleepFuture 0 FutureVTable.sleepFuture.addr
  let c := c.setBoolField sleepFuture 4 false
  let c := c.setField sleepFuture 8 0
  c.setField sleepFuture 12 (c.monotonicTimeGetTicksGlobal + ticks)

/-- The new future, or `NULL` when `malloc` fails. -/
def sleepFutureCreate (c : HeapTimers) (ticks : UInt32) : Option (HeapTimers × UInt32) :=
  (c.memory.malloc 16).bind fun (m, sleepFuture) =>
    let c := { c with memory := m }
    if sleepFuture = 0 then some (c, sleepFuture)
    else
      let c := c.fillSleepFuture sleepFuture ticks
      (c.wakeUpListAdd ⟨c.field sleepFuture 12, sleepFutureCallback, 0⟩).map fun c =>
        (c, sleepFuture)

def sleepFuturePoll (c : HeapTimers) (future : UInt32) : FutureState :=
  Async.sleepFuturePoll c.memory c.monotonicTimeGetTicksGlobal future

/-- With it comes the local `sleep_future`.  The executor `ex` is in the same heap; what it had for
one is not read. -/
def sleepSecondsAsync (c : HeapTimers) (ex : HeapExecutor) (seconds : UInt32) :
    Option (HeapTimers × HeapExecutor × UInt32) :=
  let ticks := seconds * 256
  (c.sleepFutureCreate ticks).bind fun (c, sleepFuture) =>
    if sleepFuture = 0 then some (c, ex, sleepFuture)
    else
      let ex : HeapExecutor := { ex with memory := c.memory }
      (ex.executorSpawn sleepFuture).map fun ex =>
        ({ c with memory := ex.memory }, ex, sleepFuture)

/-- What happens next: a call of `wake_up_list_add`, the RTC interrupt with callbacks that leave the
list alone, or what other code does in the heap: it allocates, frees, or writes a word. -/
inductive SleepOp where
  | add (call : WakeUp)
  | tick
  | malloc (size : UInt32)
  | free (p : UInt32)
  | write (p k v : UInt32)
  deriving DecidableEq, Repr

/-- One step; `none` if it does not return. -/
def sleepStep (c : HeapTimers) : SleepOp → Option HeapTimers
  | .add call => c.wakeUpListAdd call
  | .tick => c.rtcTick fun _ => []
  | .malloc size => (c.memory.malloc size).map fun r => { c with memory := r.1 }
  | .free p => (c.memory.free p).map fun m => { c with memory := m }
  | .write p k v => some (c.setField p k v)

/-- The steps of a run in turn. -/
def sleepRun (c : HeapTimers) : List SleepOp → Option HeapTimers
  | [] => some c
  | op :: ops => (c.sleepStep op).bind fun c' => c'.sleepRun ops

end HeapTimers

/-! ### The busy wait -/

/-- `sleep_seconds` in its loop, or returned from it. -/
structure BusyWait where
  timers : HeapTimers
  targetTick : UInt32
  returned : Bool

/-- `sleep_seconds` up to its loop. -/
def HeapTimers.sleepSeconds (c : HeapTimers) (seconds : UInt32) : Option BusyWait :=
  let ticks := seconds * 256
  let targetTick := c.monotonicTimeGetTicksGlobal + ticks
  (c.wakeUpListAdd ⟨targetTick, sleepCallback, 0⟩).map fun c => ⟨c, targetTick, false⟩

/-- What happens next: a test of the loop, or the RTC interrupt. -/
inductive WaitStep where
  | test
  | tick
  deriving DecidableEq, Repr

namespace BusyWait

/-- One step; `none` if it does not return. -/
def step (w : BusyWait) : WaitStep → Option BusyWait
  | .test =>
    if w.timers.monotonicTimeGetTicksGlobal < w.targetTick then some w
    else some { w with returned := true }
  | .tick => (w.timers.rtcTick fun _ => []).map fun c => { w with timers := c }

/-- The steps of a schedule in turn. -/
def run (w : BusyWait) : List WaitStep → Option BusyWait
  | [] => some w
  | σ :: σs => (w.step σ).bind fun w' => w'.run σs

end BusyWait

/-! ### The halting wait -/

/-- `MAX_LOOP_COUNT`. -/
def maxLoopCount : ℕ := 1000000

/-- The locals of `sleep_ticks` in its loop; `system_tick_count` is read again behind every `hlt`.
-/
structure HaltLocals where
  currentTick : UInt32
  loopCounter : ℕ
  deriving DecidableEq, Repr

/-- The loop of `sleep_ticks` for at most `n` more rounds.  The halt in round `i` lasts until `tick
i` is the value of `system_tick_count`. -/
def haltLoop (tick : ℕ → UInt32) (targetTick : UInt32) : ℕ → HaltLocals → HaltLocals
  | 0, l => l
  | n + 1, l =>
    if l.currentTick < targetTick then
      haltLoop tick targetTick n ⟨tick l.loopCounter, l.loopCounter + 1⟩
    else l

/-- `sleep_ticks` started at `startTick`: the locals at its end, and whether it prints its warning;
`none` when it does not halt at all. -/
def sleepTicks (startTick ticks : UInt32) (tick : ℕ → UInt32) : Option (HaltLocals × Bool) :=
  if ticks = 0 then none
  else
    let targetTick := startTick + ticks
    let l := haltLoop tick targetTick maxLoopCount ⟨startTick, 0⟩
    some (l, l.loopCounter ≥ maxLoopCount)

end Shogun.Rtc
