import Shogun.Async.Pass
import Shogun.Memory.Client

/-!
# The executor in the heap (`async_executor.c`)

Tasks, futures and wakers are structures in the heap, at pointers that `malloc` has returned: `Task`
is `future` and `next`, at offsets 0 and 4; `Future` is `vtable`, `is_completed` and `waker`, at
offsets 0, 4 and 8, with what its kind adds behind; `Waker` is `wake`, `ref_count` and `data`.
`NULL` is `0`.  The executor itself is a global.

A function of the source is a function on the heap with the pointers; it is `none` when it does not
return, because a call of `malloc` or `free` does not, because it calls through a table that is none
of the repository's, or because the walk of the queue is still going on after `2^32` turns.
-/

namespace Shogun.Async

open Memory

/-- The numbers of the blocks of one kind, in the order `malloc` has handed them out: the address of
each, and the number of the latest at each address. -/
structure Numbering where
  addr : ℕ → UInt32
  number : UInt32 → ℕ
  top : ℕ

/-- The block at `p` gets the next number. -/
def Numbering.add (n : Numbering) (p : UInt32) : Numbering :=
  ⟨Function.update n.addr n.top p, Function.update n.number p n.top, n.top + 1⟩

/-- A serial write future: its number, and the arguments of `async_serial_write_create`. -/
structure SerialWrite where
  future : ℕ
  data : UInt32
  len : UInt32
  deriving DecidableEq, Repr

/-- A poll of a serial write future: the indices of `data` it read, the bytes it wrote to the data
port of COM1, its answer, and the field `written` after it. -/
structure PollRecord where
  future : ℕ
  reads : List ℕ
  bytes : List UInt8
  state : FutureState
  written : UInt32
  deriving DecidableEq, Repr

/-- The serial write futures that were created, and their polls. -/
structure SerialLog where
  created : List SerialWrite
  polls : List PollRecord

/-- The global executor, the flag `g_should_poll` and the heap.  No function reads the rest: the
numbers of the blocks, the events, and the log of serial writes. -/
structure HeapExecutor where
  memory : HeapState
  taskQueue : UInt32
  taskCount : UInt32
  shouldPoll : Bool
  tasks : Numbering
  futures : Numbering
  wakers : Numbering
  trace : List Event
  log : SerialLog

/-- The addresses of the vtables; all that matters is that they differ. -/
def FutureVTable.addr : FutureVTable → UInt32
  | .sleepFuture => 1
  | .asyncSerialWrite => 2
  | .asyncRtcFuture => 3

/-- The vtable at an address. -/
def futureVTable? (a : UInt32) : Option FutureVTable :=
  [.sleepFuture, .asyncSerialWrite, .asyncRtcFuture].find? (·.addr == a)

/-- `executor_waker_wake`, as a function pointer. -/
def executorWakerWake : UInt32 := 1

namespace HeapExecutor

def field (c : HeapExecutor) (p k : UInt32) : UInt32 := c.memory.field p k

def setField (c : HeapExecutor) (p k v : UInt32) : HeapExecutor :=
  { c with memory := c.memory.setField p k v }

def boolField (c : HeapExecutor) (p k : UInt32) : Bool := c.memory.boolField p k

def setBoolField (c : HeapExecutor) (p k : UInt32) (v : Bool) : HeapExecutor :=
  { c with memory := c.memory.setBoolField p k v }

def emit (c : HeapExecutor) (events : List Event) : HeapExecutor :=
  { c with trace := c.trace ++ events }

/-- `free(p)`, of the block `b`. -/
def freeBlock (c : HeapExecutor) (p : UInt32) (b : Block) : Option HeapExecutor :=
  (c.memory.free p).map fun m => { c with memory := m, trace := c.trace ++ [.free b] }

/-- An executor over the heap `m`, with no block of its own. -/
def boot (m : HeapState) : HeapExecutor :=
  let none : Numbering := ⟨fun _ => 0, fun _ => 0, 0⟩
  ⟨m, 0, 0, false, none, none, none, [], ⟨[], []⟩⟩

/-- The trace is the one from here on. -/
def executorInit (c : HeapExecutor) : HeapExecutor :=
  { c with taskQueue := 0, taskCount := 0, trace := [] }

/-! ### Spawning -/

/-- The new waker, or `NULL` when `malloc` fails. -/
def wakerCreate (c : HeapExecutor) (wakeFunc data : UInt32) : Option (HeapExecutor × UInt32) :=
  (c.memory.malloc 12).map fun (m, waker) =>
    let c := { c with memory := m }
    if waker = 0 then (c, waker)
    else
      let c := c.setField waker 0 wakeFunc
      let c := c.setField waker 8 data
      let c := c.setField waker 4 1
      ({ c with wakers := c.wakers.add waker }, waker)

def executorSpawn (c : HeapExecutor) (future : UInt32) : Option HeapExecutor :=
  (c.memory.malloc 8).bind fun (m, task) =>
    let c := { c with memory := m }
    if task = 0 then some c
    else
      let c := c.setField task 0 future
      (c.wakerCreate executorWakerWake 0).map fun (c, waker) =>
        let c := c.setField (c.field task 0) 8 waker
        let c := c.setField task 4 c.taskQueue
        let c := { c with taskQueue := task, tasks := c.tasks.add task }
        let c := { c with taskCount := c.taskCount + 1 }
        { c with shouldPoll := true }

/-- What the functions that create a future have in common: `malloc(size)`, and the stores to the
`base`.  The pointer is `NULL` when `malloc` fails. -/
def newFuture (c : HeapExecutor) (vtable : FutureVTable) (size : UInt32) :
    Option (HeapExecutor × UInt32) :=
  (c.memory.malloc size).map fun (m, future) =>
    let c := { c with memory := m }
    if future = 0 then (c, future)
    else
      let c := c.setField future 0 vtable.addr
      let c := c.setBoolField future 4 false
      let c := c.setField future 8 0
      ({ c with futures := c.futures.add future }, future)

/-! ### Polling -/

/-- A poll function of a vtable: what it does to the heap, and its answer. -/
abbrev PollFn : Type := HeapExecutor → UInt32 → Option (HeapExecutor × FutureState)

/-- The second component says whether the task can be removed. -/
def pollTask (poll : PollFn) (c : HeapExecutor) (task : UInt32) : Option (HeapExecutor × Bool) :=
  if c.boolField (c.field task 0) 4 then some (c, true)
  else
    (poll c (c.field task 0)).map fun (c', state) =>
      let c' := c'.emit [.poll (c.futures.number (c.field task 0)) state]
      if state = .ready then (c'.setBoolField (c'.field task 0) 4 true, true) else (c', false)

/-! ### Removing a task -/

/-- `vtable->cleanup(future)`; that of an RTC future frees it. -/
def cleanupFuture (c : HeapExecutor) (f : UInt32) : Option HeapExecutor :=
  (futureVTable? (c.field f 0)).bind fun vtable =>
    let n := c.futures.number f
    match vtable with
    | .sleepFuture | .asyncSerialWrite => some (c.emit [.cleanup n])
    | .asyncRtcFuture => (c.emit [.cleanup n]).freeBlock f (.future n)

/-- Drop the executor's reference to the waker; every mention of `future->waker` reads it anew. -/
def releaseWaker (c : HeapExecutor) (f : UInt32) : Option HeapExecutor :=
  let n := c.futures.number f
  let c := c.emit [.readWaker n]
  if c.field f 8 = 0 then some c
  else
    let c := c.emit [.readWaker n]
    let refCount := c.field (c.field f 8) 4
    let c := c.setField (c.field f 8) 4 (refCount - 1)
    if refCount = 1 then
      (c.emit [.readWaker n]).freeBlock (c.field f 8) (.waker (c.wakers.number (c.field f 8)))
    else some c

/-- What `executor_run` does with a task it has unlinked. -/
def releaseTask (c : HeapExecutor) (task : UInt32) : Option HeapExecutor := do
  let c ← c.cleanupFuture (c.field task 0)
  let c ← c.releaseWaker (c.field task 0)
  let c ← c.freeBlock (c.field task 0) (.future (c.futures.number (c.field task 0)))
  let c ← c.freeBlock task (.task (c.tasks.number task))
  some { c with taskCount := c.taskCount - 1 }

/-! ### One pass over the queue -/

/-- `*prev_ptr = v`, where `prev_ptr` is `&executor->task_queue` (`none`) or `&task->next`. -/
def storePrev (c : HeapExecutor) (prevPtr : Option UInt32) (v : UInt32) : HeapExecutor :=
  match prevPtr with
  | none => { c with taskQueue := v }
  | some task => c.setField task 4 v

/-- The locals of the inner loop. -/
structure PassLocals where
  current : UInt32
  prevPtr : Option UInt32
  hasReadyTasks : Bool
  deriving DecidableEq, Repr

/-- The body of `while (current)`. -/
def visitTask (poll : PollFn) (c : HeapExecutor) (l : PassLocals) :
    Option (HeapExecutor × PassLocals) := do
  let (c, shouldRemove) ← c.pollTask poll l.current
  if shouldRemove then
    let c := c.storePrev l.prevPtr (c.field l.current 4)
    let next := c.field l.current 4
    let c ← c.releaseTask l.current
    some (c, { l with current := next })
  else some (c, ⟨c.field l.current 4, some l.current, true⟩)

/-- `while (current)`. -/
def pollLoop (poll : PollFn) : ℕ → HeapExecutor → PassLocals → Option (HeapExecutor × PassLocals)
  | 0, c, l => if l.current = 0 then some (c, l) else none
  | fuel + 1, c, l =>
    if l.current = 0 then some (c, l)
    else (c.visitTask poll l).bind fun r => pollLoop poll fuel r.1 r.2

/-- One pass, with `has_ready_tasks` after it. -/
def executorPass (poll : PollFn) (c : HeapExecutor) : Option (HeapExecutor × Bool) :=
  if c.taskQueue = 0 then some (c, false)
  else
    (pollLoop poll (2 ^ 32) c ⟨c.taskQueue, none, false⟩).map fun r => (r.1, r.2.hasReadyTasks)

end HeapExecutor

end Shogun.Async
