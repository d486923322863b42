import Shogun.Async.Machine

/-!
# A pass is a run of the machine

`executorPass` runs the loop of `executor_run` as a function and `Machine` runs it statement by
statement.  `executorPass_reaches` connects the two: what the function computes, the machine reaches
without an interrupt.
-/

namespace Shogun.Async

namespace Machine

variable {ex : Executor} {l : Locals} {b : Bool} {t : ℕ}

/-- The statements of `executor_spawn`, called from a poll, do what `executorSpawn` does. -/
theorem reaches_executorSpawn (state : FutureState) (call : SpawnCall) :
    Reaches ⟨.polling t state, ex, l, b⟩ ⟨.polling t state, executorSpawn ex call, l, b⟩ := by
  obtain ⟨f, taskAllocated, wakerAllocated⟩ := call
  cases taskAllocated with
  | false => exact .refl
  | true =>
    refine .head (.spawn (f := f) rfl) <| .head (.spawnSetFuture rfl) <|
      .head (.spawnSetWaker wakerAllocated rfl) <| .head (.spawnSetNext rfl) <|
      .head (.spawnSetQueue rfl) <| .head (.spawnCount rfl) <| .head (.spawnWake rfl) ?_
    cases wakerAllocated <;> exact .refl

theorem reaches_foldl_executorSpawn (state : FutureState) (calls : List SpawnCall) :
    Reaches ⟨.polling t state, ex, l, b⟩
      ⟨.polling t state, calls.foldl executorSpawn ex, l, b⟩ := by
  induction calls generalizing ex with
  | nil => exact .refl
  | cons c calls ih => exact (reaches_executorSpawn state c).trans ih

theorem reaches_pollTask (answer : PollAnswer) :
    Reaches ⟨.testCompleted t, ex, l, b⟩
      ⟨if (pollTask ex answer t).2 then .unlink t else .setHasReady t, (pollTask ex answer t).1, l,
        b⟩ := by
  rw [pollTask]
  cases hdone : (ex.futures (ex.tasks t).future).isCompleted with
  | true => exact .single (.completed rfl hdone)
  | false =>
    have hpoll : Step ⟨.testCompleted t, ex, l, b⟩ ⟨.polling t answer.state,
      ex.emit [.poll (ex.tasks t).future answer.state], l, b⟩ := .poll rfl hdone
    refine .head hpoll <|
      (reaches_foldl_executorSpawn answer.state answer.spawns).trans ?_
    cases hstate : answer.state with
    | ready => exact .head (.ready rfl) (.single (.setCompleted rfl))
    | pending => exact .single (.pending rfl)

theorem reaches_releaseTask :
    Reaches ⟨.cleanup t, ex, l, b⟩ ⟨.testCurrent, releaseTask ex t, l, b⟩ :=
  .head (.cleanup rfl) <| .head (.releaseWaker rfl) <| .head (.freeFuture rfl) <|
    .head (.freeTask rfl) <| .single (.uncount rfl)

theorem reaches_visitTask (answer : ℕ → PollAnswer) (ht : l.current = some t) :
    Reaches ⟨.testCurrent, ex, l, b⟩
      ⟨.testCurrent, (visitTask answer ex l t).1, (visitTask answer ex l t).2, b⟩ := by
  refine .head (.currentTask rfl ht) <| (reaches_pollTask (answer t)).trans ?_
  rw [visitTask]
  cases hr : (pollTask ex (answer t) t).2 with
  | true =>
    simp only [hr, if_true]
    exact .head (.unlink rfl) <| .head (.advance rfl) reaches_releaseTask
  | false =>
    simp only [hr, Bool.false_eq_true, if_false]
    exact .head (.setHasReady rfl) <| .head (.setPrevNext rfl) <| .single (.next rfl)

theorem reaches_pollLoop {answer : ℕ → PollAnswer} {fuel : ℕ} {ex' : Executor} {l' : Locals}
    (h : pollLoop answer fuel ex l = some (ex', l')) :
    Reaches ⟨.testCurrent, ex, l, b⟩ ⟨.loadShouldPoll, ex', l', b⟩ := by
  induction fuel generalizing ex l with
  | zero =>
    cases hcur : l.current with
    | none =>
      rw [pollLoop_of_current hcur] at h
      obtain ⟨rfl, rfl⟩ := Prod.mk.inj (Option.some.inj h)
      exact .single (.currentNull rfl hcur)
    | some t =>
      rw [pollLoop.eq_def, hcur] at h
      exact absurd h (by simp)
  | succ fuel ih =>
    cases hcur : l.current with
    | none =>
      rw [pollLoop_of_current hcur] at h
      obtain ⟨rfl, rfl⟩ := Prod.mk.inj (Option.some.inj h)
      exact .single (.currentNull rfl hcur)
    | some t =>
      rw [pollLoop.eq_def, hcur] at h
      -- one round of the loop, and the machine is at its test again
      exact (reaches_visitTask answer hcur).trans (ih h)

end Machine

/-- What a pass computes, the machine reaches: from `if (executor->task_queue != NULL)` with
`has_ready_tasks` cleared to the load of the flag. -/
theorem executorPass_reaches {ex ex' : Executor} {answer : ℕ → PollAnswer} {hasReady : Bool}
    {l : Locals} (b : Bool) (hl : l.hasReadyTasks = false)
    (h : executorPass ex answer = some (ex', hasReady)) :
    ∃ l', l'.hasReadyTasks = hasReady
      ∧ Machine.Reaches ⟨.testQueue, ex, l, b⟩ ⟨.loadShouldPoll, ex', l', b⟩ := by
  obtain ⟨current, prevPtr, hasReadyTasks⟩ := l
  obtain rfl : hasReadyTasks = false := hl
  rw [executorPass] at h
  cases hq : ex.taskQueue with
  | none =>
    rw [hq] at h
    obtain ⟨rfl, rfl⟩ := Prod.mk.inj (Option.some.inj h)
    exact ⟨_, rfl, .single (.queueEmpty rfl hq)⟩
  | some t =>
    rw [hq] at h
    obtain ⟨⟨ex₁, l₁⟩, hloop, heq⟩ := Option.map_eq_some_iff.mp h
    obtain ⟨rfl, rfl⟩ := Prod.mk.inj heq
    -- the test of the queue and the two stores before the loop
    refine ⟨l₁, rfl, .head (.queueNonempty rfl hq) <| .head (.setCurrent rfl) <|
      .head (.setPrev rfl) ?_⟩
    have hreach := Machine.reaches_pollLoop (b := b) hloop
    show Machine.Reaches ⟨.testCurrent, ex, ⟨ex.taskQueue, none, false⟩, b⟩ _
    rw [hq]
    exact hreach

end Shogun.Async
