import Shogun.Async.Serial

/-!
# Runs of the executor in the heap

A poll function that is not one of the serial writes is a script: what it does to the heap, and its
answer.  A run starts at `executor_init`; a step is something done between two passes, or a pass of
the inner loop of `executor_run`.
-/

namespace Shogun.Async

open Memory

namespace HeapExecutor

/-! ### Poll functions in general -/

/-- What a poll function, or what runs between two passes, may do to the heap: allocate, free, write
a word of a block, create a future, and call `executor_spawn` on a future by its number. -/
inductive Action where
  | malloc (size : UInt32)
  | free (p : UInt32)
  | write (p k v : UInt32)
  | create (vtable : FutureVTable) (size : UInt32)
  | createSerialWrite (data len : UInt32)
  | spawn (future : ℕ)
  deriving DecidableEq, Repr

/-- One action.  A future that was never created has no pointer to pass. -/
def act (c : HeapExecutor) : Action → Option HeapExecutor
  | .malloc size => (c.memory.malloc size).map fun r => { c with memory := r.1 }
  | .free p => (c.memory.free p).map fun m => { c with memory := m }
  | .write p k v => some (c.setField p k v)
  | .create vtable size => (c.newFuture vtable size).map Prod.fst
  | .createSerialWrite data len => (c.asyncSerialWriteCreate data len).map Prod.fst
  | .spawn future =>
    if future < c.futures.top then c.executorSpawn (c.futures.addr future) else some c

/-- The actions in turn. -/
def acts (c : HeapExecutor) : List Action → Option HeapExecutor
  | [] => some c
  | a :: as => (c.act a).bind fun c' => c'.acts as

/-- What a poll of a future does, and its answer. -/
structure PollScript where
  actions : List Action
  state : FutureState
  deriving DecidableEq, Repr

/-- The poll functions that do what `script` says of each future. -/
def scriptedPoll (script : ℕ → PollScript) : PollFn := fun c f =>
  (futureVTable? (c.field f 0)).bind fun _ =>
    (c.acts (script (c.futures.number f)).actions).map fun c' =>
      (c', (script (c.futures.number f)).state)

/-- The poll functions of the executor in a pass: a serial write future finds `lineStatus` at the
port, and the others do what `script` says. -/
structure PassScript where
  lineStatus : ℕ → UInt8
  script : ℕ → PollScript

/-- `vtable->poll(future)`; `text` is the memory that the data of serial writes lie in. -/
def vtablePoll (text : UInt32 → UInt8) (pass : PassScript) : PollFn := fun c f =>
  if futureVTable? (c.field f 0) = some .asyncSerialWrite then
    some (asyncSerialWritePoll text (pass.lineStatus (c.futures.number f)) c f)
  else scriptedPoll pass.script c f

/-! ### Runs -/

/-- A step of a run, with what is known of the poll functions in a pass. -/
inductive RunOp (α : Type) where
  | act (a : Action)
  | pass (x : α)

/-- The effect of a step, where `poll` has the poll functions of each pass. -/
def runStep {α : Type} (poll : α → PollFn) (c : HeapExecutor) : RunOp α → Option HeapExecutor
  | .act a => c.act a
  | .pass x => (c.executorPass (poll x)).map Prod.fst

/-- The steps of a run in turn. -/
def run {α : Type} (poll : α → PollFn) (c : HeapExecutor) : List (RunOp α) → Option HeapExecutor
  | [] => some c
  | op :: ops => (c.runStep poll op).bind fun c' => c'.run poll ops

end HeapExecutor

end Shogun.Async
