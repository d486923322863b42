import Shogun.Async.Equiv.Machine
import Shogun.Async.Equiv.Pass

/-!
# The executor does not halt with work queued

`hlt_only_when_empty`: however the polls answer and spawn and whenever interrupts wake the executor,
`executor_run` reaches `hlt` only with an empty queue.

The invariant (`Machine.Inv`) ties the queue to the part of it that the pass has not looked at.  As
long as no task has stayed, `prev_ptr` is `&executor->task_queue`, so removals keep
`task_queue = current`; only a spawn breaks that, and it sets `g_should_poll` before its poll
returns.  The flag is cleared only after it was seen set, and then the loop makes another pass.
-/

namespace Shogun.Async

namespace Machine

/-- Inside the pass: while no task has stayed, the queue is what the pass has ahead of it, unless
something was spawned. -/
def Walking (m : Machine) : Prop :=
  m.locals.hasReadyTasks = false →
    m.locals.prevPtr = none ∧ (m.ex.shouldPoll = false → m.ex.taskQueue = m.locals.current)

/-- What holds before each statement. -/
def Inv (m : Machine) : Prop :=
  match m.pc with
  | .clearHasReady | .testQueue | .setCurrent | .setHasReady _ | .clearShouldPoll => True
  | .setPrev => m.ex.taskQueue = m.locals.current
  | .testCurrent | .testCompleted _ | .polling _ _ | .setCompleted _ | .unlink _ => m.Walking
  | .spawning _ _ _ _ .count | .spawning _ _ _ _ .wake =>
    -- the new task is in the queue and the flag is not set yet
    m.locals.hasReadyTasks = false → m.locals.prevPtr = none
  | .spawning _ _ _ _ _ => m.Walking
  | .advance t =>
    m.locals.hasReadyTasks = false →
      m.locals.prevPtr = none ∧ m.ex.taskQueue = (m.ex.tasks t).next
  | .cleanup _ | .releaseWaker _ | .freeFuture _ | .freeTask _ | .uncount => m.Walking
  | .setPrevNext _ | .next _ => m.locals.hasReadyTasks = true
  | .loadShouldPoll =>
    m.locals.hasReadyTasks = false → m.ex.shouldPoll = false → m.ex.taskQueue = none
  | .testHalt =>
    m.locals.hasReadyTasks = false → m.shouldPollCurrent = false → m.ex.taskQueue = none
  | .hlt => m.ex.taskQueue = none

/-! ### Statements that leave the queue and the flag alone -/

theorem cleanupFuture_frame (ex : Executor) (f : ℕ) :
    (cleanupFuture ex f).taskQueue = ex.taskQueue
      ∧ (cleanupFuture ex f).shouldPoll = ex.shouldPoll := by
  rw [cleanupFuture]
  split <;> exact ⟨rfl, rfl⟩

theorem releaseWaker_frame (ex : Executor) (f : ℕ) :
    (releaseWaker ex f).taskQueue = ex.taskQueue
      ∧ (releaseWaker ex f).shouldPoll = ex.shouldPoll := by
  rw [releaseWaker]
  split
  · exact ⟨rfl, rfl⟩
  · dsimp only
    split <;> exact ⟨rfl, rfl⟩

theorem wakerCreate_frame (ex : Executor) (allocated : Bool) :
    (wakerCreate ex allocated).1.taskQueue = ex.taskQueue
      ∧ (wakerCreate ex allocated).1.shouldPoll = ex.shouldPoll := by
  cases allocated <;> exact ⟨rfl, rfl⟩

/-- A statement that leaves the queue, the flag and the locals alone keeps `Walking`. -/
theorem Walking.frame {m m' : Machine} (h : m.Walking) (hl : m'.locals = m.locals)
    (hq : m'.ex.taskQueue = m.ex.taskQueue) (hs : m'.ex.shouldPoll = m.ex.shouldPoll) :
    m'.Walking := by
  rw [Walking, hl, hq, hs]
  exact h

/-- An interrupt keeps the invariant: it only sets the flag. -/
theorem Inv.wakeUp {m : Machine} (h : m.Inv) :
    Inv { m with ex := executorWakeUp m.ex } := by
  have hwalk : m.Walking → Walking { m with ex := executorWakeUp m.ex } := fun hw hready =>
    ⟨(hw hready).1, fun hflag => absurd hflag (by simp [executorWakeUp])⟩
  obtain ⟨pc, ex, l, spc⟩ := m
  cases pc with
  | testCurrent | testCompleted | polling | setCompleted | unlink | cleanup | releaseWaker
  | freeFuture | freeTask | uncount => exact hwalk h
  | spawning t state n f pc =>
    cases pc with
    | count | wake => exact h
    | setFuture | setWaker | setNext | setQueue => exact hwalk h
  | loadShouldPoll => exact fun _ hflag => absurd hflag (by simp [executorWakeUp])
  | _ => exact h

/-- Every step keeps the invariant. -/
theorem Inv.step {m m' : Machine} (hi : m.Inv) (h : Step m m') : m'.Inv := by
  cases h with
  | wakeUp => exact hi.wakeUp
  | clearHasReady hpc => trivial
  | queueEmpty hpc hq => exact fun _ _ => hq
  | queueNonempty hpc hq => trivial
  | setCurrent hpc => exact (rfl : m.ex.taskQueue = m.ex.taskQueue)
  | setPrev hpc =>
    rw [Inv, hpc] at hi
    exact fun _ => ⟨rfl, fun _ => hi⟩
  | currentNull hpc hcur =>
    rw [Inv, hpc] at hi
    intro hready hflag
    exact ((hi hready).2 hflag).trans hcur
  | currentTask hpc hcur =>
    rw [Inv, hpc] at hi
    exact hi.frame rfl rfl rfl
  | completed hpc hdone =>
    rw [Inv, hpc] at hi
    exact hi.frame rfl rfl rfl
  | poll hpc hdone =>
    rw [Inv, hpc] at hi
    exact hi.frame rfl rfl rfl
  | spawn hpc =>
    rw [Inv, hpc] at hi
    exact hi.frame rfl rfl rfl
  | spawnFails hpc => exact hi
  | spawnSetFuture hpc =>
    rw [Inv, hpc] at hi
    exact hi.frame rfl rfl rfl
  | spawnSetWaker allocated hpc =>
    rw [Inv, hpc] at hi
    have hframe := wakerCreate_frame m.ex allocated
    exact hi.frame rfl hframe.1 hframe.2
  | spawnSetNext hpc =>
    rw [Inv, hpc] at hi
    exact hi.frame rfl rfl rfl
  | spawnSetQueue hpc =>
    -- from here to `spawnWake` the queue has a task that neither `current` nor the flag knows of
    rw [Inv, hpc] at hi
    exact fun hready => (hi hready).1
  | spawnCount hpc =>
    rw [Inv, hpc] at hi
    exact hi
  | spawnWake hpc =>
    rw [Inv, hpc] at hi
    exact fun hready => ⟨hi hready, fun hflag => absurd hflag (by simp)⟩
  | ready hpc =>
    rw [Inv, hpc] at hi
    exact hi.frame rfl rfl rfl
  | pending hpc => trivial
  | setCompleted hpc =>
    rw [Inv, hpc] at hi
    exact hi.frame rfl rfl rfl
  | unlink hpc =>
    rw [Inv, hpc] at hi
    -- as long as no task stayed, `prev_ptr` is the head cell
    intro hready
    have hprev := (hi hready).1
    refine ⟨hprev, ?_⟩
    show (m.ex.storePrev m.locals.prevPtr _).taskQueue
      = ((m.ex.storePrev m.locals.prevPtr _).tasks _).next
    rw [hprev]
    rfl
  | advance hpc =>
    rw [Inv, hpc] at hi
    exact fun hready => ⟨(hi hready).1, fun _ => (hi hready).2⟩
  | cleanup hpc =>
    rw [Inv, hpc] at hi
    have hframe := cleanupFuture_frame m.ex
    exact hi.frame rfl (hframe _).1 (hframe _).2
  | releaseWaker hpc =>
    rw [Inv, hpc] at hi
    have hframe := releaseWaker_frame m.ex
    exact hi.frame rfl (hframe _).1 (hframe _).2
  | freeFuture hpc =>
    rw [Inv, hpc] at hi
    exact hi.frame rfl rfl rfl
  | freeTask hpc =>
    rw [Inv, hpc] at hi
    exact hi.frame rfl rfl rfl
  | uncount hpc =>
    rw [Inv, hpc] at hi
    exact hi.frame rfl rfl rfl
  | setHasReady hpc =>
    -- from here on the pass cannot halt, and the invariant says nothing of the queue
    exact (rfl : true = true)
  | setPrevNext hpc =>
    rw [Inv, hpc] at hi
    exact hi
  | next hpc =>
    rw [Inv, hpc] at hi
    exact fun hready => absurd (hi.symm.trans hready) (by simp)
  | loadShouldPoll hpc =>
    rw [Inv, hpc] at hi
    exact hi
  | halt hpc hready hflag =>
    rw [Inv, hpc] at hi
    exact hi hready hflag
  | goOn hpc hor => trivial
  | resume hpc => trivial
  | clearShouldPoll hpc => trivial

theorem Inv.reaches {m m' : Machine} (hi : m.Inv) (h : Reaches m m') : m'.Inv := by
  induction h with
  | refl => exact hi
  | tail _ hstep ih => exact ih.step hstep

end Machine

/-- **`executor_run` halts only when the queue is empty.**  From any executor, whatever its queue
and whatever the flag says, every run of the loop that reaches `hlt`, with any polls, any spawns
made by them and `executor_wake_up` between any two statements, does so with
`task_queue == NULL`. -/
theorem hlt_only_when_empty {m m' : Machine} (hstart : m.pc = .clearHasReady)
    (hrun : Machine.Reaches m m') (hhlt : m'.pc = .hlt) : m'.ex.taskQueue = none := by
  have hi : m.Inv := by
    rw [Machine.Inv, hstart]
    trivial
  have hi' := hi.reaches hrun
  rwa [Machine.Inv, hhlt] at hi'

/-- One sleep that is ready at its first poll: the first pass removes it, and the second finds the
queue empty and the flag cleared. -/
theorem hlt_only_when_empty_oneTask :
    ∃ m', Machine.Reaches ⟨.clearHasReady, oneTask .sleepFuture, ⟨none, none, false⟩, false⟩ m'
      ∧ m'.pc = .hlt ∧ m'.ex.taskQueue = none := by
  obtain ⟨ex₁, hcode, hqueue, hflag⟩ : ∃ ex₁,
      executorPass (oneTask .sleepFuture) (fun _ => ⟨[], .ready⟩) = some (ex₁, false)
        ∧ ex₁.taskQueue = none ∧ ex₁.shouldPoll = true := ⟨_, rfl, rfl, rfl⟩
  obtain ⟨l, hl, hpass⟩ := executorPass_reaches (l := ⟨none, none, false⟩) false rfl hcode
  have hrun := hpass.trans <| .head (.loadShouldPoll rfl) <| .head (.goOn rfl (.inr hflag)) <|
    .head (.clearShouldPoll rfl) <| .head (.clearHasReady rfl) <| .head (.queueEmpty rfl hqueue) <|
    .head (.loadShouldPoll rfl) <| .single (.halt rfl rfl rfl)
  have hfull := Relation.ReflTransGen.head (.clearHasReady (m := ⟨.clearHasReady,
    oneTask .sleepFuture, ⟨none, none, false⟩, false⟩) rfl) hrun
  exact ⟨_, hfull, rfl, hlt_only_when_empty rfl hfull rfl⟩

end Shogun.Async
