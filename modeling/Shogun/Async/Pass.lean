import Mathlib.Logic.Function.Basic
import Shogun.Util.LinkedList

/-!
# The async executor (`async_executor.c`) with numbered blocks

`executor_spawn`, `poll_task` and one pass of the inner loop of `executor_run` over the task queue,
when the blocks of the executor lie apart.

This is the abstract model of `HeapExecutor`, which has the executor where the code has it, in the
heap of `memory.c`.  Here blocks are numbered in the order `malloc` hands them out, tasks, futures
and wakers each on their own; a number is never used again, and `free` writes to no block, so what a
block holds stays readable.  None of this is so for every heap, and the conditions under which the
code behaves as this model does are those of `HeapExecutor.Refines`.

Whether a `malloc` succeeds is part of the call.  The events a reader of the heap would see (polls,
calls of `cleanup`, reads of `future->waker`, calls of `free`) go to a trace.

The poll functions of the vtables are parameters: a pass takes, for each task, what polling its
future does, which is an answer and any number of calls of `executor_spawn`.
-/

namespace Shogun.Async

open LinkedList

inductive FutureState where
  | ready
  | pending
  deriving DecidableEq, Repr

/-- The vtables of the repository, one for each kind of future. -/
inductive FutureVTable where
  | sleepFuture
  | asyncSerialWrite
  | asyncRtcFuture
  deriving DecidableEq, Repr

structure Future where
  vtable : FutureVTable
  isCompleted : Bool
  waker : Option ℕ
  deriving DecidableEq, Repr

structure Task where
  future : ℕ
  next : Option ℕ
  deriving DecidableEq, Repr

/-- A block of the heap. -/
inductive Block where
  | task (t : ℕ)
  | future (f : ℕ)
  | waker (w : ℕ)
  deriving DecidableEq, Repr

inductive Event where
  /-- `vtable->poll(future)`, with its answer. -/
  | poll (future : ℕ) (state : FutureState)
  /-- `vtable->cleanup(future)`. -/
  | cleanup (future : ℕ)
  /-- A read of `future->waker`. -/
  | readWaker (future : ℕ)
  /-- `free(block)`. -/
  | free (block : Block)
  deriving DecidableEq, Repr

/-- The executor with the blocks its queue reaches.  `shouldPoll` is the global `g_should_poll`;
`taskTop` and `wakerTop` number the next blocks `malloc` hands out. -/
structure Executor where
  taskQueue : Option ℕ
  taskCount : UInt32
  shouldPoll : Bool
  tasks : ℕ → Task
  futures : ℕ → Future
  refCounts : ℕ → UInt32
  taskTop : ℕ
  wakerTop : ℕ
  trace : List Event

namespace Executor

/-- The pointer cells of the task queue. -/
def links (ex : Executor) : Links ℕ := ⟨ex.taskQueue, fun t => (ex.tasks t).next⟩

def emit (ex : Executor) (events : List Event) : Executor :=
  { ex with trace := ex.trace ++ events }

/-- `task->future = future`. -/
def setTaskFuture (ex : Executor) (t f : ℕ) : Executor :=
  { ex with tasks := Function.update ex.tasks t { ex.tasks t with future := f } }

/-- `task->next = next`. -/
def setTaskNext (ex : Executor) (t : ℕ) (next : Option ℕ) : Executor :=
  { ex with tasks := Function.update ex.tasks t { ex.tasks t with next := next } }

/-- `future->waker = waker`. -/
def setWaker (ex : Executor) (f : ℕ) (waker : Option ℕ) : Executor :=
  { ex with futures := Function.update ex.futures f { ex.futures f with waker := waker } }

/-- `future->is_completed = true`. -/
def setCompleted (ex : Executor) (f : ℕ) : Executor :=
  { ex with futures := Function.update ex.futures f { ex.futures f with isCompleted := true } }

/-- `*prev_ptr = v`, where `prev_ptr` is `&executor->task_queue` (`none`) or `&t->next`. -/
def storePrev (ex : Executor) (prevPtr v : Option ℕ) : Executor :=
  match prevPtr with
  | none => { ex with taskQueue := v }
  | some t => ex.setTaskNext t v

end Executor

/-- The trace is the one from here on. -/
def executorInit (ex : Executor) : Executor :=
  { ex with taskQueue := none, taskCount := 0, trace := [] }

/-- The new waker, or `NULL` when `malloc` fails. -/
def wakerCreate (ex : Executor) (allocated : Bool) : Executor × Option ℕ :=
  if allocated then
    ({ ex with
        refCounts := Function.update ex.refCounts ex.wakerTop 1
        wakerTop := ex.wakerTop + 1 }, some ex.wakerTop)
  else (ex, none)

/-- A call of `executor_spawn` and the outcomes of its two calls of `malloc`. -/
structure SpawnCall where
  future : ℕ
  taskAllocated : Bool
  wakerAllocated : Bool
  deriving DecidableEq, Repr

def executorSpawn (ex : Executor) (call : SpawnCall) : Executor :=
  if call.taskAllocated then
    let task := ex.taskTop
    let ex := { ex with taskTop := task + 1 }
    let ex := ex.setTaskFuture task call.future
    let (ex, waker) := wakerCreate ex call.wakerAllocated
    let ex := ex.setWaker call.future waker
    let ex := ex.setTaskNext task ex.taskQueue
    let ex := { ex with taskQueue := some task }
    let ex := { ex with taskCount := ex.taskCount + 1 }
    { ex with shouldPoll := true }
  else ex

/-- What a poll function does when it is called. -/
structure PollAnswer where
  spawns : List SpawnCall
  state : FutureState
  deriving DecidableEq, Repr

/-- The second component says whether the task can be removed. -/
def pollTask (ex : Executor) (answer : PollAnswer) (t : ℕ) : Executor × Bool :=
  if (ex.futures (ex.tasks t).future).isCompleted then (ex, true)
  else
    let ex := ex.emit [.poll (ex.tasks t).future answer.state]
    let ex := answer.spawns.foldl executorSpawn ex
    if answer.state = .ready then (ex.setCompleted (ex.tasks t).future, true)
    else (ex, false)

/-! ### Removing a task -/

/-- The `cleanup` of a vtable, by the blocks it frees; none of the three is `NULL`. -/
def FutureVTable.cleanup : FutureVTable → Option (ℕ → List Event)
  | .sleepFuture => some fun _ => []
  | .asyncSerialWrite => some fun _ => []
  | .asyncRtcFuture => some fun f => [.free (.future f)]

def cleanupFuture (ex : Executor) (f : ℕ) : Executor :=
  match (ex.futures f).vtable.cleanup with
  | some cleanup => ex.emit (.cleanup f :: cleanup f)
  | none => ex

/-- Drop the executor's reference to the waker; every mention of `future->waker` reads it anew. -/
def releaseWaker (ex : Executor) (f : ℕ) : Executor :=
  let ex := ex.emit [.readWaker f]
  match (ex.futures f).waker with
  | none => ex
  | some w =>
    let ex := ex.emit [.readWaker f]
    let refCount := ex.refCounts w
    let ex := { ex with refCounts := Function.update ex.refCounts w (refCount - 1) }
    if refCount = 1 then ex.emit [.readWaker f, .free (.waker w)] else ex

/-- What `executor_run` does with a task it has unlinked. -/
def releaseTask (ex : Executor) (t : ℕ) : Executor :=
  let ex := cleanupFuture ex (ex.tasks t).future
  let ex := releaseWaker ex (ex.tasks t).future
  let ex := ex.emit [.free (.future (ex.tasks t).future)]
  let ex := ex.emit [.free (.task t)]
  { ex with taskCount := ex.taskCount - 1 }

/-! ### One pass over the queue -/

/-- The locals of the inner loop. -/
structure Locals where
  current : Option ℕ
  prevPtr : Option ℕ
  hasReadyTasks : Bool
  deriving DecidableEq, Repr

/-- The body of `while (current)`. -/
def visitTask (answer : ℕ → PollAnswer) (ex : Executor) (l : Locals) (t : ℕ) :
    Executor × Locals :=
  let (ex, shouldRemove) := pollTask ex (answer t) t
  if shouldRemove then
    let ex := ex.storePrev l.prevPtr (ex.tasks t).next
    let l := { l with current := (ex.tasks t).next }
    (releaseTask ex t, l)
  else (ex, ⟨(ex.tasks t).next, some t, true⟩)

/-- `while (current)`; `none` if it is still running when the fuel is used up. -/
def pollLoop (answer : ℕ → PollAnswer) (fuel : ℕ) (ex : Executor) (l : Locals) :
    Option (Executor × Locals) :=
  match l.current, fuel with
  | none, _ => some (ex, l)
  | some _, 0 => none
  | some t, fuel + 1 =>
    let (ex, l) := visitTask answer ex l t
    pollLoop answer fuel ex l

/-- The loop ends at the end of the queue. -/
theorem pollLoop_of_current {l : Locals} (hcur : l.current = none) (answer : ℕ → PollAnswer)
    (fuel : ℕ) (ex : Executor) : pollLoop answer fuel ex l = some (ex, l) := by
  rw [pollLoop.eq_def, hcur]

/-- One pass, with `has_ready_tasks` after it.  The queue has no more tasks than were ever
allocated. -/
def executorPass (ex : Executor) (answer : ℕ → PollAnswer) : Option (Executor × Bool) :=
  match ex.taskQueue with
  | none => some (ex, false)
  | some t =>
    (pollLoop answer ex.taskTop ex ⟨some t, none, false⟩).map fun (ex, l) => (ex, l.hasReadyTasks)

end Shogun.Async
