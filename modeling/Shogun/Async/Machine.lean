import Mathlib.Logic.Relation
import Shogun.Async.Pass

/-!
# `executor_run` statement by statement

The loop of `executor_run` on the global executor as a step relation on a program counter, so that
`executor_wake_up`, which interrupt handlers call, can come between any two statements.

A statement that only reads and writes what the executor owns is one step; the calls of
`executor_spawn` that a poll makes are taken apart as well.  What the poll functions do and which
calls of `malloc` succeed is left open.  The blocks are numbered, as in a heap in which they lie
apart.
-/

namespace Shogun.Async

/-- `executor_wake_up`. -/
def executorWakeUp (ex : Executor) : Executor := { ex with shouldPoll := true }

/-- Where `executor_spawn` is with the task block it has got. -/
inductive SpawnPc where
  /-- `task->future = future` -/
  | setFuture
  /-- `task->future->waker = waker_create(...)` -/
  | setWaker
  /-- `task->next = executor->task_queue` -/
  | setNext
  /-- `executor->task_queue = task` -/
  | setQueue
  /-- `atomic_fetch_add(&executor->task_count, 1)` -/
  | count
  /-- `atomic_store(&g_should_poll, true)` -/
  | wake
  deriving DecidableEq, Repr

/-- The statement of `executor_run` that is next; the arguments are the locals of `poll_task`,
`executor_spawn` and the removal. -/
inductive Pc where
  /-- `bool has_ready_tasks = false` -/
  | clearHasReady
  /-- `if (executor->task_queue != NULL)` -/
  | testQueue
  /-- `Task* current = executor->task_queue` -/
  | setCurrent
  /-- `Task** prev_ptr = &executor->task_queue` -/
  | setPrev
  /-- `while (current)` -/
  | testCurrent
  /-- `if (task->future->is_completed)` in `poll_task` -/
  | testCompleted (task : ℕ)
  /-- Inside `vtable->poll`, which will answer `state`. -/
  | polling (task : ℕ) (state : FutureState)
  /-- Inside an `executor_spawn` that this poll has called. -/
  | spawning (task : ℕ) (state : FutureState) (new future : ℕ) (pc : SpawnPc)
  /-- `task->future->is_completed = true` -/
  | setCompleted (task : ℕ)
  /-- `*prev_ptr = current->next` -/
  | unlink (task : ℕ)
  /-- `current = current->next`, after `to_remove = current` -/
  | advance (task : ℕ)
  /-- `if (to_remove->future->vtable->cleanup) ...` -/
  | cleanup (toRemove : ℕ)
  /-- `if (to_remove->future->waker) ...` -/
  | releaseWaker (toRemove : ℕ)
  /-- `free(to_remove->future)` -/
  | freeFuture (toRemove : ℕ)
  /-- `free(to_remove)` -/
  | freeTask (toRemove : ℕ)
  /-- `atomic_fetch_sub(&executor->task_count, 1)` -/
  | uncount
  /-- `has_ready_tasks = true` -/
  | setHasReady (task : ℕ)
  /-- `prev_ptr = &current->next` -/
  | setPrevNext (task : ℕ)
  /-- `current = current->next` for a task that stays -/
  | next (task : ℕ)
  /-- `bool should_poll_current = atomic_load(&g_should_poll)` -/
  | loadShouldPoll
  /-- `if (!has_ready_tasks && !should_poll_current)` -/
  | testHalt
  /-- `sti; hlt; cli` -/
  | hlt
  /-- `atomic_store(&g_should_poll, false)` -/
  | clearShouldPoll
  deriving DecidableEq, Repr

/-- The executor, the locals of `executor_run` and its program counter. -/
structure Machine where
  pc : Pc
  ex : Executor
  locals : Locals
  shouldPollCurrent : Bool

namespace Machine

/-- One statement of the program, or an interrupt. -/
inductive Step : Machine → Machine → Prop where
  | wakeUp (m : Machine) : Step m { m with ex := executorWakeUp m.ex }
  | clearHasReady {m} : m.pc = .clearHasReady →
      Step m { m with pc := .testQueue, locals := { m.locals with hasReadyTasks := false } }
  | queueEmpty {m} : m.pc = .testQueue → m.ex.taskQueue = none →
      Step m { m with pc := .loadShouldPoll }
  | queueNonempty {m t} : m.pc = .testQueue → m.ex.taskQueue = some t →
      Step m { m with pc := .setCurrent }
  | setCurrent {m} : m.pc = .setCurrent →
      Step m { m with pc := .setPrev, locals := { m.locals with current := m.ex.taskQueue } }
  | setPrev {m} : m.pc = .setPrev →
      Step m { m with pc := .testCurrent, locals := { m.locals with prevPtr := none } }
  | currentNull {m} : m.pc = .testCurrent → m.locals.current = none →
      Step m { m with pc := .loadShouldPoll }
  | currentTask {m t} : m.pc = .testCurrent → m.locals.current = some t →
      Step m { m with pc := .testCompleted t }
  | completed {m t} : m.pc = .testCompleted t →
      (m.ex.futures (m.ex.tasks t).future).isCompleted = true →
      Step m { m with pc := .unlink t }
  | poll {m t state} : m.pc = .testCompleted t →
      (m.ex.futures (m.ex.tasks t).future).isCompleted = false →
      Step m { m with
        pc := .polling t state
        ex := m.ex.emit [.poll (m.ex.tasks t).future state] }
  | spawn {m t state f} : m.pc = .polling t state →
      Step m { m with
        pc := .spawning t state m.ex.taskTop f .setFuture
        ex := { m.ex with taskTop := m.ex.taskTop + 1 } }
  | spawnFails {m t state} : m.pc = .polling t state → Step m m
  | spawnSetFuture {m t state n f} : m.pc = .spawning t state n f .setFuture →
      Step m { m with
        pc := .spawning t state n f .setWaker
        ex := m.ex.setTaskFuture n f }
  | spawnSetWaker {m t state n f} (allocated : Bool) : m.pc = .spawning t state n f .setWaker →
      Step m { m with
        pc := .spawning t state n f .setNext
        ex := (wakerCreate m.ex allocated).1.setWaker f (wakerCreate m.ex allocated).2 }
  | spawnSetNext {m t state n f} : m.pc = .spawning t state n f .setNext →
      Step m { m with
        pc := .spawning t state n f .setQueue
        ex := m.ex.setTaskNext n m.ex.taskQueue }
  | spawnSetQueue {m t state n f} : m.pc = .spawning t state n f .setQueue →
      Step m { m with
        pc := .spawning t state n f .count
        ex := { m.ex with taskQueue := some n } }
  | spawnCount {m t state n f} : m.pc = .spawning t state n f .count →
      Step m { m with
        pc := .spawning t state n f .wake
        ex := { m.ex with taskCount := m.ex.taskCount + 1 } }
  | spawnWake {m t state n f} : m.pc = .spawning t state n f .wake →
      Step m { m with
        pc := .polling t state
        ex := { m.ex with shouldPoll := true } }
  | ready {m t} : m.pc = .polling t .ready → Step m { m with pc := .setCompleted t }
  | pending {m t} : m.pc = .polling t .pending → Step m { m with pc := .setHasReady t }
  | setCompleted {m t} : m.pc = .setCompleted t →
      Step m { m with pc := .unlink t, ex := m.ex.setCompleted (m.ex.tasks t).future }
  | unlink {m t} : m.pc = .unlink t →
      Step m { m with
        pc := .advance t
        ex := m.ex.storePrev m.locals.prevPtr (m.ex.tasks t).next }
  | advance {m t} : m.pc = .advance t →
      Step m { m with
        pc := .cleanup t
        locals := { m.locals with current := (m.ex.tasks t).next } }
  | cleanup {m t} : m.pc = .cleanup t →
      Step m { m with pc := .releaseWaker t, ex := cleanupFuture m.ex (m.ex.tasks t).future }
  | releaseWaker {m t} : m.pc = .releaseWaker t →
      Step m { m with pc := .freeFuture t, ex := releaseWaker m.ex (m.ex.tasks t).future }
  | freeFuture {m t} : m.pc = .freeFuture t →
      Step m { m with
        pc := .freeTask t
        ex := m.ex.emit [.free (.future (m.ex.tasks t).future)] }
  | freeTask {m t} : m.pc = .freeTask t →
      Step m { m with pc := .uncount, ex := m.ex.emit [.free (.task t)] }
  | uncount {m} : m.pc = .uncount →
      Step m { m with
        pc := .testCurrent
        ex := { m.ex with taskCount := m.ex.taskCount - 1 } }
  | setHasReady {m t} : m.pc = .setHasReady t →
      Step m { m with
        pc := .setPrevNext t
        locals := { m.locals with hasReadyTasks := true } }
  | setPrevNext {m t} : m.pc = .setPrevNext t →
      Step m { m with pc := .next t, locals := { m.locals with prevPtr := some t } }
  | next {m t} : m.pc = .next t →
      Step m { m with
        pc := .testCurrent
        locals := { m.locals with current := (m.ex.tasks t).next } }
  | loadShouldPoll {m} : m.pc = .loadShouldPoll →
      Step m { m with pc := .testHalt, shouldPollCurrent := m.ex.shouldPoll }
  | halt {m} : m.pc = .testHalt → m.locals.hasReadyTasks = false → m.shouldPollCurrent = false →
      Step m { m with pc := .hlt }
  | goOn {m} : m.pc = .testHalt →
      (m.locals.hasReadyTasks = true ∨ m.shouldPollCurrent = true) →
      Step m { m with pc := .clearShouldPoll }
  | resume {m} : m.pc = .hlt → Step m { m with pc := .clearHasReady }
  | clearShouldPoll {m} : m.pc = .clearShouldPoll →
      Step m { m with pc := .clearHasReady, ex := { m.ex with shouldPoll := false } }

/-- A run of the program, with interrupts anywhere. -/
def Reaches : Machine → Machine → Prop := Relation.ReflTransGen Step

end Machine

end Shogun.Async
