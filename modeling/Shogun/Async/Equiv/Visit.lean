import Mathlib.Data.UInt
import Shogun.Async.Pass
import Shogun.Util.Sweep

/-!
# What a visit to one task does

The body of the inner loop of `executor_run` polls a task, which may spawn others, and unlinks and
releases it when it is done.  Each part has one lemma that says all of its effect:

* `executorSpawn_spec`, `foldl_executorSpawn_spec`: spawning pushes new tasks at the head and leaves
  the tasks that were there alone;
* `pollTask_spec`: `poll_task` answers `removes` and has the effect of the spawns of the poll;
* `releaseTask_eq`: releasing a task, with its events;
* `visitTask_spec`: the whole body.
-/

namespace Shogun.Async

open LinkedList LinkedList.Links

/-! ### The stores of the code -/

namespace Executor

variable (ex : Executor)

theorem setCompleted_futures_self (f : ℕ) :
    (ex.setCompleted f).futures f = { ex.futures f with isCompleted := true } :=
  Function.update_self _ _ _

theorem setCompleted_futures_of_ne {f g : ℕ} (h : g ≠ f) :
    (ex.setCompleted f).futures g = ex.futures g := Function.update_of_ne h _ _

theorem setTaskNext_future (t : ℕ) (v : Option ℕ) (u : ℕ) :
    ((ex.setTaskNext t v).tasks u).future = (ex.tasks u).future := by
  show (Function.update ex.tasks t _ u).future = _
  by_cases hu : u = t
  · rw [hu, Function.update_self]
  · rw [Function.update_of_ne hu]

theorem storePrev_links (prevPtr v : Option ℕ) :
    (ex.storePrev prevPtr v).links = ex.links.write prevPtr v := by
  cases prevPtr with
  | none => rfl
  | some t =>
    apply congrArg (Links.mk ex.taskQueue)
    ext1 u
    exact Function.apply_update (fun _ task => task.next) ex.tasks t _ u

/-- A store through `prev_ptr` changes nothing but a pointer cell of the queue. -/
theorem storePrev_frame (prevPtr v : Option ℕ) :
    (∀ u, ((ex.storePrev prevPtr v).tasks u).future = (ex.tasks u).future)
      ∧ (ex.storePrev prevPtr v).futures = ex.futures
      ∧ (ex.storePrev prevPtr v).refCounts = ex.refCounts
      ∧ (ex.storePrev prevPtr v).taskCount = ex.taskCount
      ∧ (ex.storePrev prevPtr v).taskTop = ex.taskTop
      ∧ (ex.storePrev prevPtr v).wakerTop = ex.wakerTop
      ∧ (ex.storePrev prevPtr v).trace = ex.trace := by
  cases prevPtr with
  | none => exact ⟨fun _ => rfl, rfl, rfl, rfl, rfl, rfl, rfl⟩
  | some t => exact ⟨ex.setTaskNext_future t v, rfl, rfl, rfl, rfl, rfl, rfl⟩

end Executor

/-! ### Spawning -/

/-- How many of the calls get a task block. -/
def spawnCount (calls : List SpawnCall) : ℕ := calls.countP (·.taskAllocated)

/-- `ex'` is `ex` after the spawns `calls`: the new tasks are pushed at the head, the latest first,
and nothing else that a queued task owns has changed. -/
structure Spawned (ex : Executor) (calls : List SpawnCall) (ex' : Executor) : Prop where
  taskTop : ex'.taskTop = ex.taskTop + spawnCount calls
  taskCount : ex'.taskCount = ex.taskCount + UInt32.ofNat (spawnCount calls)
  wakerTop_le : ex.wakerTop ≤ ex'.wakerTop
  trace : ex'.trace = ex.trace
  task : ∀ t < ex.taskTop, (ex'.tasks t).future = (ex.tasks t).future
  completed : ∀ f, (ex'.futures f).isCompleted = (ex.futures f).isCompleted
  future : ∀ f, (∀ c ∈ calls, c.future ≠ f) → ex'.futures f = ex.futures f
  refCount : ∀ w < ex.wakerTop, ex'.refCounts w = ex.refCounts w
  pushed : Pushed ex.links ex'.links ex.taskTop (spawnCount calls)

theorem Spawned.refl (ex : Executor) : Spawned ex [] ex where
  taskTop := rfl
  taskCount := (add_zero ex.taskCount).symm
  wakerTop_le := le_rfl
  trace := rfl
  task := fun _ _ => rfl
  completed := fun _ => rfl
  future := fun _ _ => rfl
  refCount := fun _ _ => rfl
  pushed := .refl _ _

section Spawn

variable (ex : Executor) (f : ℕ) (wakerAllocated : Bool)

theorem executorSpawn_tasks :
    (executorSpawn ex ⟨f, true, wakerAllocated⟩).tasks
      = Function.update ex.tasks ex.taskTop ⟨f, ex.taskQueue⟩ := by
  cases wakerAllocated <;>
    simp [executorSpawn, wakerCreate, Executor.setTaskFuture, Executor.setWaker,
      Executor.setTaskNext]

theorem executorSpawn_futures :
    (executorSpawn ex ⟨f, true, wakerAllocated⟩).futures
      = Function.update ex.futures f
          { ex.futures f with waker := if wakerAllocated then some ex.wakerTop else none } := by
  cases wakerAllocated <;> rfl

theorem executorSpawn_refCounts :
    (executorSpawn ex ⟨f, true, wakerAllocated⟩).refCounts
      = if wakerAllocated then Function.update ex.refCounts ex.wakerTop 1 else ex.refCounts := by
  cases wakerAllocated <;> rfl

theorem executorSpawn_wakerTop :
    (executorSpawn ex ⟨f, true, wakerAllocated⟩).wakerTop
      = if wakerAllocated then ex.wakerTop + 1 else ex.wakerTop := by
  cases wakerAllocated <;> rfl

theorem executorSpawn_links :
    (executorSpawn ex ⟨f, true, wakerAllocated⟩).links = ex.links.push ex.taskTop := by
  have hnext : (fun t => ((executorSpawn ex ⟨f, true, wakerAllocated⟩).tasks t).next)
      = Function.update (fun t => (ex.tasks t).next) ex.taskTop ex.taskQueue := by
    ext1 t
    rw [executorSpawn_tasks]
    exact Function.apply_update (fun _ task => task.next) ex.tasks ex.taskTop _ t
  cases wakerAllocated <;> exact congrArg (Links.mk (some ex.taskTop)) hnext

end Spawn

theorem executorSpawn_spec (ex : Executor) (call : SpawnCall) :
    Spawned ex [call] (executorSpawn ex call) := by
  obtain ⟨f, taskAllocated, wakerAllocated⟩ := call
  cases taskAllocated with
  | false => exact { Spawned.refl ex with future := fun _ _ => rfl }
  | true =>
    constructor
    · cases wakerAllocated <;> rfl
    · cases wakerAllocated <;> rfl
    · rw [executorSpawn_wakerTop]
      split <;> omega
    · cases wakerAllocated <;> rfl
    · intro t ht
      rw [executorSpawn_tasks, Function.update_of_ne ht.ne]
    · intro g
      rw [executorSpawn_futures]
      -- of the future only the waker is new
      by_cases hg : g = f
      · rw [hg, Function.update_self]
      · rw [Function.update_of_ne hg]
    · intro g hg
      rw [executorSpawn_futures, Function.update_of_ne (hg _ (List.mem_singleton_self _)).symm]
    · intro w hw
      rw [executorSpawn_refCounts]
      split
      · exact Function.update_of_ne hw.ne _ _
      · rfl
    · rw [executorSpawn_links]
      exact .push _ _

/-- Spawns one after the other. -/
theorem Spawned.trans {ex ex₁ ex₂ : Executor} {cs ds : List SpawnCall} (h₁ : Spawned ex cs ex₁)
    (h₂ : Spawned ex₁ ds ex₂) : Spawned ex (cs ++ ds) ex₂ := by
  have hcount : spawnCount (cs ++ ds) = spawnCount cs + spawnCount ds := List.countP_append
  constructor
  · rw [h₂.taskTop, h₁.taskTop, hcount, Nat.add_assoc]
  · rw [h₂.taskCount, h₁.taskCount, hcount, UInt32.ofNat_add, UInt32.add_assoc]
  · exact h₁.wakerTop_le.trans h₂.wakerTop_le
  · rw [h₂.trace, h₁.trace]
  · intro t ht
    rw [h₂.task t (by rw [h₁.taskTop]; omega), h₁.task t ht]
  · intro f
    rw [h₂.completed, h₁.completed]
  · intro f hf
    rw [h₂.future f fun c hc => hf c (List.mem_append_right _ hc),
      h₁.future f fun c hc => hf c (List.mem_append_left _ hc)]
  · intro w hw
    rw [h₂.refCount w (hw.trans_le h₁.wakerTop_le), h₁.refCount w hw]
  · rw [hcount]
    exact h₁.pushed.trans (h₁.taskTop ▸ h₂.pushed)

theorem foldl_executorSpawn_spec (ex : Executor) (calls : List SpawnCall) :
    Spawned ex calls (calls.foldl executorSpawn ex) := by
  induction calls generalizing ex with
  | nil => exact Spawned.refl ex
  | cons c calls ih => exact (executorSpawn_spec ex c).trans (ih (executorSpawn ex c))

/-! ### Polling a task -/

/-- The future of a task. -/
def Executor.futureOf (ex : Executor) (t : ℕ) : Future := ex.futures (ex.tasks t).future

/-- Whether the pass removes `t`: its future is completed already, or answers `FUTURE_READY`. -/
def removes (ex : Executor) (answer : ℕ → PollAnswer) (t : ℕ) : Bool :=
  (ex.futureOf t).isCompleted || (answer t).state = .ready

/-- The spawns made while the pass looks at `t`; a completed future is not polled. -/
def visitSpawns (ex : Executor) (answer : ℕ → PollAnswer) (t : ℕ) : List SpawnCall :=
  if (ex.futureOf t).isCompleted then [] else (answer t).spawns

def pollEvents (ex : Executor) (answer : ℕ → PollAnswer) (t : ℕ) : List Event :=
  if (ex.futureOf t).isCompleted then [] else [.poll (ex.tasks t).future (answer t).state]

/-- The polls of `t` spawn no task for the future of `t` itself. -/
def OwnFuture (ex : Executor) (answer : ℕ → PollAnswer) (t : ℕ) : Prop :=
  ∀ c ∈ visitSpawns ex answer t, c.future ≠ (ex.tasks t).future

/-- `ex'` is `ex` after `poll_task` on `t`. -/
structure Polled (ex : Executor) (answer : ℕ → PollAnswer) (t : ℕ) (ex' : Executor) : Prop where
  taskTop : ex'.taskTop = ex.taskTop + spawnCount (visitSpawns ex answer t)
  taskCount : ex'.taskCount
    = ex.taskCount + UInt32.ofNat (spawnCount (visitSpawns ex answer t))
  wakerTop_le : ex.wakerTop ≤ ex'.wakerTop
  trace : ex'.trace = ex.trace ++ pollEvents ex answer t
  task : ∀ u < ex.taskTop, (ex'.tasks u).future = (ex.tasks u).future
  completed : ∀ f, f ≠ (ex.tasks t).future →
    (ex'.futures f).isCompleted = (ex.futures f).isCompleted
  future : ∀ f, f ≠ (ex.tasks t).future → (∀ c ∈ visitSpawns ex answer t, c.future ≠ f) →
    ex'.futures f = ex.futures f
  own : OwnFuture ex answer t →
    (ex'.futures (ex.tasks t).future).vtable = (ex.futureOf t).vtable
      ∧ (ex'.futures (ex.tasks t).future).waker = (ex.futureOf t).waker
  kept : OwnFuture ex answer t → removes ex answer t = false →
    ex'.futures (ex.tasks t).future = ex.futureOf t
  refCount : ∀ w < ex.wakerTop, ex'.refCounts w = ex.refCounts w
  pushed : Pushed ex.links ex'.links ex.taskTop (spawnCount (visitSpawns ex answer t))

namespace Polled

variable {ex ex' : Executor} {answer : ℕ → PollAnswer} {t : ℕ}

theorem of_spawned
    (hs : Spawned (ex.emit (pollEvents ex answer t)) (visitSpawns ex answer t) ex') :
    Polled ex answer t ex' where
  taskTop := hs.taskTop
  taskCount := hs.taskCount
  wakerTop_le := hs.wakerTop_le
  trace := hs.trace
  task := hs.task
  completed := fun f _ => hs.completed f
  future := fun f _ => hs.future f
  own := fun hown => by rw [hs.future _ hown]; exact ⟨rfl, rfl⟩
  kept := fun hown _ => hs.future _ hown
  refCount := hs.refCount
  pushed := hs.pushed

theorem setCompleted (h : Polled ex answer t ex') (hr : removes ex answer t = true) :
    Polled ex answer t (ex'.setCompleted (ex.tasks t).future) where
  taskTop := h.taskTop
  taskCount := h.taskCount
  wakerTop_le := h.wakerTop_le
  trace := h.trace
  task := h.task
  completed := by
    intro f hf
    rw [Executor.setCompleted_futures_of_ne _ hf]
    exact h.completed f hf
  future := by
    intro f hf hspawns
    rw [Executor.setCompleted_futures_of_ne _ hf]
    exact h.future f hf hspawns
  own := by
    intro hown
    rw [Executor.setCompleted_futures_self]
    exact h.own hown
  kept := fun _ hk => absurd (hr.symm.trans hk) (by simp)
  refCount := h.refCount
  pushed := h.pushed

end Polled

theorem pollTask_spec {ex : Executor} (answer : ℕ → PollAnswer) {t : ℕ} (ht : t < ex.taskTop) :
    (pollTask ex (answer t) t).2 = removes ex answer t
      ∧ Polled ex answer t (pollTask ex (answer t) t).1 := by
  have hs := foldl_executorSpawn_spec (ex.emit (pollEvents ex answer t)) (visitSpawns ex answer t)
  have hp := Polled.of_spawned hs
  by_cases hdone : (ex.futureOf t).isCompleted
  · -- a completed future is not polled
    have hcode : pollTask ex (answer t) t = (ex, true) := if_pos hdone
    have hsame : (visitSpawns ex answer t).foldl executorSpawn (ex.emit (pollEvents ex answer t))
        = ex := by
      rw [visitSpawns, pollEvents, if_pos hdone, if_pos hdone, Executor.emit, List.append_nil]
      rfl
    rw [hsame] at hp
    rw [hcode, removes, hdone]
    exact ⟨rfl, hp⟩
  · have hspawns : visitSpawns ex answer t = (answer t).spawns := if_neg hdone
    have hevents : pollEvents ex answer t = [.poll (ex.tasks t).future (answer t).state] :=
      if_neg hdone
    have hfut := hs.task t ht
    rw [hspawns, hevents] at hp hfut
    by_cases hready : (answer t).state = .ready
    · -- a future that is ready is marked completed
      have hr : removes ex answer t = true := by simp [removes, hready]
      have hcode := (if_neg hdone).trans (if_pos hready) (a := pollTask ex (answer t) t)
      rw [hcode, hr]
      refine ⟨rfl, ?_⟩
      show Polled ex answer t (Executor.setCompleted _ _)
      rw [hfut]
      exact hp.setCompleted hr
    · have hr : removes ex answer t = false := by simp [removes, hready, hdone]
      have hcode := (if_neg hdone).trans (if_neg hready) (a := pollTask ex (answer t) t)
      rw [hcode, hr]
      exact ⟨rfl, hp⟩

/-! ### Releasing a task -/

/-- The call of `cleanup` on the future of `t`, and what it frees. -/
def cleanupEvents (ex : Executor) (t : ℕ) : List Event :=
  match (ex.futureOf t).vtable.cleanup with
  | some cleanup => .cleanup (ex.tasks t).future :: cleanup (ex.tasks t).future
  | none => []

/-- The reads of the waker of `t`, and its release. -/
def wakerEvents (ex : Executor) (t : ℕ) : List Event :=
  .readWaker (ex.tasks t).future ::
    match (ex.futureOf t).waker with
    | none => []
    | some w => .readWaker (ex.tasks t).future ::
        if ex.refCounts w = 1 then [.readWaker (ex.tasks t).future, .free (.waker w)] else []

/-- The events of removing `t`. -/
def releaseEvents (ex : Executor) (t : ℕ) : List Event :=
  cleanupEvents ex t ++ wakerEvents ex t
    ++ [.free (.future (ex.tasks t).future), .free (.task t)]

/-- The reference counts after removing `t`. -/
def releaseRefCounts (ex : Executor) (t : ℕ) : ℕ → UInt32 :=
  match (ex.futureOf t).waker with
  | none => ex.refCounts
  | some w => Function.update ex.refCounts w (ex.refCounts w - 1)

theorem cleanupFuture_eq (ex : Executor) (t : ℕ) :
    cleanupFuture ex (ex.tasks t).future = ex.emit (cleanupEvents ex t) := by
  rw [cleanupFuture, cleanupEvents, Executor.futureOf]
  cases (ex.futures (ex.tasks t).future).vtable <;> rfl

theorem releaseTask_eq (ex : Executor) (t : ℕ) :
    releaseTask ex t =
      { ex with
        trace := ex.trace ++ releaseEvents ex t
        taskCount := ex.taskCount - 1
        refCounts := releaseRefCounts ex t } := by
  rw [releaseTask, cleanupFuture_eq, releaseEvents, releaseRefCounts, wakerEvents,
    Executor.futureOf]
  cases hw : (ex.futures (ex.tasks t).future).waker with
  | none => simp [releaseWaker, Executor.emit, hw]
  | some w =>
    by_cases hone : ex.refCounts w = 1
    · simp [releaseWaker, Executor.emit, hw, hone]
    · simp [releaseWaker, Executor.emit, hw, hone]

/-- The events of a release are those of the blocks the task owns. -/
theorem releaseEvents_congr {ex ex' : Executor} {t : ℕ}
    (ht : (ex'.tasks t).future = (ex.tasks t).future)
    (hv : (ex'.futureOf t).vtable = (ex.futureOf t).vtable)
    (hw : (ex'.futureOf t).waker = (ex.futureOf t).waker)
    (href : ∀ w, (ex.futureOf t).waker = some w → ex'.refCounts w = ex.refCounts w) :
    releaseEvents ex' t = releaseEvents ex t := by
  rw [releaseEvents, releaseEvents, cleanupEvents, cleanupEvents, wakerEvents, wakerEvents, ht, hv,
    hw]
  cases hwaker : (ex.futureOf t).waker with
  | none => rfl
  | some w => simp only [href w hwaker]

/-! ### Visiting a task -/

def visitEvents (ex : Executor) (answer : ℕ → PollAnswer) (t : ℕ) : List Event :=
  pollEvents ex answer t ++ if removes ex answer t then releaseEvents ex t else []

/-- `(ex', l')` is the state after the body of the inner loop ran on `t`. -/
structure Visited (ex : Executor) (answer : ℕ → PollAnswer) (l : Locals) (t : ℕ)
    (ex' : Executor) (l' : Locals) : Prop where
  taskTop : ex'.taskTop = ex.taskTop + spawnCount (visitSpawns ex answer t)
  taskCount : ex'.taskCount + (if removes ex answer t then 1 else 0)
    = ex.taskCount + UInt32.ofNat (spawnCount (visitSpawns ex answer t))
  wakerTop_le : ex.wakerTop ≤ ex'.wakerTop
  task : ∀ u < ex.taskTop, (ex'.tasks u).future = (ex.tasks u).future
  completed : ∀ f, f ≠ (ex.tasks t).future →
    (ex'.futures f).isCompleted = (ex.futures f).isCompleted
  future : ∀ f, f ≠ (ex.tasks t).future → (∀ c ∈ visitSpawns ex answer t, c.future ≠ f) →
    ex'.futures f = ex.futures f
  kept : OwnFuture ex answer t → removes ex answer t = false →
    ex'.futures (ex.tasks t).future = ex.futureOf t
  refCount : OwnFuture ex answer t → ∀ w < ex.wakerTop,
    (removes ex answer t → (ex.futureOf t).waker ≠ some w) → ex'.refCounts w = ex.refCounts w
  trace : OwnFuture ex answer t → (∀ w, (ex.futureOf t).waker = some w → w < ex.wakerTop) →
    ex'.trace = ex.trace ++ visitEvents ex answer t
  sweeping : ∀ {removed pushes rest final}, removed t = removes ex answer t →
    pushes t = spawnCount (visitSpawns ex answer t) →
    Sweeping removed pushes ex.links l.prevPtr ex.taskTop (t :: rest) final →
    l'.current = rest.head?
      ∧ Sweeping removed pushes ex'.links l'.prevPtr ex'.taskTop rest final

section Visit

variable {ex ex₁ : Executor} {answer : ℕ → PollAnswer} {l : Locals} {t : ℕ}

/-- A task that stays is passed over. -/
theorem Polled.visited_of_kept (hp : Polled ex answer t ex₁) (hr : removes ex answer t = false) :
    Visited ex answer l t ex₁ ⟨(ex₁.tasks t).next, some t, true⟩ where
  taskTop := hp.taskTop
  taskCount := by
    rw [hr, hp.taskCount]
    exact add_zero _
  wakerTop_le := hp.wakerTop_le
  task := hp.task
  completed := hp.completed
  future := hp.future
  kept := hp.kept
  refCount := fun _ w hw _ => hp.refCount w hw
  trace := by
    intro _ _
    rw [hp.trace, visitEvents, hr]
    exact (congrArg (ex.trace ++ ·) (List.append_nil _)).symm
  sweeping := by
    intro removed pushes rest final hrem hpush h
    have hpushed := hp.pushed
    rw [← hpush] at hpushed
    -- `prev_ptr` goes on to `&current->next`
    rw [hp.taskTop, ← hpush]
    exact ⟨h.next_eq hpushed, h.advance hpushed (hrem.trans hr)⟩

/-- A task that goes is unlinked through `prev_ptr` and released. -/
theorem Polled.visited_of_removed (hp : Polled ex answer t ex₁) (ht : t < ex.taskTop)
    (hr : removes ex answer t = true) :
    Visited ex answer l t (releaseTask (ex₁.storePrev l.prevPtr (ex₁.tasks t).next) t)
      { l with current := ((ex₁.storePrev l.prevPtr (ex₁.tasks t).next).tasks t).next } := by
  obtain ⟨htask, hfut, href, hcount, htop, hwtop, htrace⟩ :=
    ex₁.storePrev_frame l.prevPtr (ex₁.tasks t).next
  have hlinks := ex₁.storePrev_links l.prevPtr (ex₁.tasks t).next
  set ex₂ := ex₁.storePrev l.prevPtr (ex₁.tasks t).next
  have htf : (ex₂.tasks t).future = (ex.tasks t).future := (htask t).trans (hp.task t ht)
  have hof : ex₂.futureOf t = ex₁.futures (ex.tasks t).future := by
    rw [Executor.futureOf, htf, hfut]
  rw [releaseTask_eq]
  refine
    { taskTop := htop.trans hp.taskTop
      taskCount := ?_
      wakerTop_le := hwtop ▸ hp.wakerTop_le
      task := fun u hu => (htask u).trans (hp.task u hu)
      completed := fun f hf => hfut ▸ hp.completed f hf
      future := fun f hf hs => hfut ▸ hp.future f hf hs
      kept := fun _ hk => absurd (hr.symm.trans hk) (by simp)
      refCount := ?_
      trace := ?_
      sweeping := ?_ }
  · -- `atomic_fetch_sub(&executor->task_count, 1)`
    rw [hr, if_pos rfl, ← hp.taskCount, ← hcount]
    exact UInt32.sub_add_cancel _ _
  · -- only the waker of the removed task is released
    intro hown w hw hne
    have hwaker : (ex₂.futureOf t).waker = (ex.futureOf t).waker := by
      rw [hof]
      exact (hp.own hown).2
    show releaseRefCounts ex₂ t w = _
    rw [releaseRefCounts, hwaker, href]
    cases hw' : (ex.futureOf t).waker with
    | none => exact hp.refCount w hw
    | some v =>
      have hwv : w ≠ v := by
        rintro rfl
        exact hne hr hw'
      exact (Function.update_of_ne hwv _ _).trans (hp.refCount w hw)
  · -- the poll has changed nothing the release reads
    intro hown hlt
    have hev : releaseEvents ex₂ t = releaseEvents ex t := by
      apply releaseEvents_congr htf
      · rw [hof]
        exact (hp.own hown).1
      · rw [hof]
        exact (hp.own hown).2
      · intro w hw
        rw [href]
        exact hp.refCount w (hlt w hw)
    show ex₂.trace ++ releaseEvents ex₂ t = _
    rw [hev, htrace, hp.trace, visitEvents, hr, if_pos rfl, List.append_assoc]
  · -- `current->next` is read again after the store through `prev_ptr`, which has not changed it
    intro removed pushes rest final hrem hpush h
    have hpushed := hp.pushed
    rw [← hpush] at hpushed
    have hnext : (ex₂.tasks t).next = rest.head? := by
      show ex₂.links.next t = _
      rw [hlinks, h.write_next hpushed, h.next_eq hpushed]
    refine ⟨hnext, ?_⟩
    show Sweeping removed pushes ex₂.links l.prevPtr ex₂.taskTop rest final
    rw [hlinks, htop, hp.taskTop, ← hpush]
    exact h.unlink hpushed (hrem.trans hr)

theorem visitTask_spec (answer : ℕ → PollAnswer) (l : Locals) (ht : t < ex.taskTop) :
    Visited ex answer l t (visitTask answer ex l t).1 (visitTask answer ex l t).2 := by
  obtain ⟨hres, hp⟩ := pollTask_spec answer ht
  cases hr : removes ex answer t with
  | true =>
    simp only [visitTask, hres, hr, if_true]
    exact hp.visited_of_removed ht hr
  | false =>
    simp only [visitTask, hres, hr, Bool.false_eq_true, if_false]
    exact hp.visited_of_kept hr

end Visit

/-! ### The events of a visit -/

section Events

variable {ex : Executor} {answer : ℕ → PollAnswer} {t : ℕ} {e : Event}

theorem mem_cleanupEvents (h : e ∈ cleanupEvents ex t) :
    e = .cleanup (ex.tasks t).future ∨ e = .free (.future (ex.tasks t).future) := by
  rw [cleanupEvents] at h
  cases hv : (ex.futureOf t).vtable with
  | sleepFuture => exact .inl (by simpa [hv, FutureVTable.cleanup] using h)
  | asyncSerialWrite => exact .inl (by simpa [hv, FutureVTable.cleanup] using h)
  | asyncRtcFuture => simpa [hv, FutureVTable.cleanup] using h

theorem mem_wakerEvents (h : e ∈ wakerEvents ex t) :
    e = .readWaker (ex.tasks t).future
      ∨ ∃ w, (ex.futureOf t).waker = some w ∧ e = .free (.waker w) := by
  rcases List.mem_cons.mp h with h | h
  · exact .inl h
  · cases hw : (ex.futureOf t).waker with
    | none => simp [hw] at h
    | some w =>
      simp only [hw] at h
      rcases List.mem_cons.mp h with h | h
      · exact .inl h
      · split at h
        · rcases List.mem_cons.mp h with h | h
          · exact .inl h
          · exact .inr ⟨w, rfl, List.mem_singleton.mp h⟩
        · exact absurd h List.not_mem_nil

/-- The events of releasing `t` are about the blocks of `t`. -/
theorem mem_releaseEvents (h : e ∈ releaseEvents ex t) :
    e = .cleanup (ex.tasks t).future ∨ e = .readWaker (ex.tasks t).future
      ∨ e = .free (.future (ex.tasks t).future) ∨ e = .free (.task t)
      ∨ ∃ w, (ex.futureOf t).waker = some w ∧ e = .free (.waker w) := by
  rcases List.mem_append.mp h with h | h
  · rcases List.mem_append.mp h with h | h
    · rcases mem_cleanupEvents h with h | h
      · exact .inl h
      · exact .inr (.inr (.inl h))
    · rcases mem_wakerEvents h with h | h
      · exact .inr (.inl h)
      · exact .inr (.inr (.inr (.inr h)))
  · rcases List.mem_cons.mp h with h | h
    · exact .inr (.inr (.inl h))
    · exact .inr (.inr (.inr (.inl (List.mem_singleton.mp h))))

/-- The events of a visit to `t` are a poll of its future and the release of its blocks. -/
theorem mem_visitEvents (h : e ∈ visitEvents ex answer t) :
    (∃ state, e = .poll (ex.tasks t).future state) ∨ e = .cleanup (ex.tasks t).future
      ∨ e = .readWaker (ex.tasks t).future ∨ e = .free (.future (ex.tasks t).future)
      ∨ e = .free (.task t) ∨ ∃ w, (ex.futureOf t).waker = some w ∧ e = .free (.waker w) := by
  rcases List.mem_append.mp h with h | h
  · rw [pollEvents] at h
    split at h
    · exact absurd h List.not_mem_nil
    · exact .inl ⟨_, List.mem_singleton.mp h⟩
  · split at h
    · exact .inr (mem_releaseEvents h)
    · exact absurd h List.not_mem_nil

theorem free_notMem_pollEvents (ex : Executor) (answer : ℕ → PollAnswer) (t : ℕ) (b : Block) :
    .free b ∉ pollEvents ex answer t := by
  rw [pollEvents]
  split <;> simp

end Events

end Shogun.Async
