import Shogun.Async.Equiv.HeapQueue

/-!
# Spawning during a pass

A poll may call `executor_spawn` on the executor that is polling it.  The new task goes to the head
of the queue, which the pass may still hold a pointer to.

`noTaskLost_iff`: when the blocks that polls get are clear and no RTC future is removed, a pass
loses no task exactly when the tasks it removes before the first one that stays spawn nothing.  Such
a task is unlinked through `&executor->task_queue`, and the store overwrites the head its own poll
has just pushed.
-/

namespace Shogun.Async

open Memory LinkedList.Links

/-- What the queue `ts'` after a pass over `ts` should be: it has every task spawned in the pass and
every task whose poll answered `FUTURE_PENDING`, none that was removed, and `task_count` is its
length. -/
structure Executor.NoTaskLost (ex : Executor) (answer : ℕ → PollAnswer) (ts : List ℕ)
    (ex' : Executor) (ts' : List ℕ) : Prop where
  spawned : ∀ t, ex.taskTop ≤ t → t < ex'.taskTop → t ∈ ts'
  pending : ∀ t ∈ ts, (ex.futureOf t).isCompleted = false → (answer t).state = .pending → t ∈ ts'
  removed : ∀ t ∈ ts, removes ex answer t = true → t ∉ ts'
  taskCount : ex'.taskCount = UInt32.ofNat ts'.length

section NoTaskLost

variable {ex ex' : Executor} {answer : ℕ → PollAnswer} {ts : List ℕ}

/-- Only the tasks spawned in the pass can be lost. -/
theorem noTaskLost_iff_spawned (hq : ex.Queue ts)
    (hcount : ex.taskCount = UInt32.ofNat ts.length)
    (htop : ex'.taskTop = ex.taskTop + (ts.map (spawnsOf ex answer)).sum)
    (hcount' : ex'.taskCount + UInt32.ofNat (ts.countP (removes ex answer))
      = ex.taskCount + UInt32.ofNat (ts.map (spawnsOf ex answer)).sum) :
    ex.NoTaskLost answer ts ex' (passQueue ex answer ts)
      ↔ ∀ t ∈ ts.takeWhile (removes ex answer), spawnsOf ex answer t = 0 := by
  have hspawned := pushed_mem_sweep_iff (removes ex answer) (spawnsOf ex answer) hq.lt_top
  have hmem := fun t (ht : t ∈ ts) => mem_passQueue_iff hq answer ht
  rw [← htop] at hspawned
  constructor
  · intro h
    exact hspawned.mp h.spawned
  · intro h
    constructor
    · exact hspawned.mpr h
    · -- a task whose poll was pending
      intro t ht hdone hpending
      rw [hmem t ht]
      simp [removes, hdone, hpending]
    · -- a task that was removed
      intro t ht hr hin
      rw [hmem t ht, hr] at hin
      exact Bool.noConfusion hin
    · exact counter_eq_length_sweep h hcount hcount'

/-- A task that is not completed spawns what its poll spawns. -/
theorem spawnsOf_eq_zero_iff {t : ℕ} :
    spawnsOf ex answer t = 0
      ↔ ((ex.futureOf t).isCompleted = false → spawnCount (answer t).spawns = 0) := by
  rw [spawnsOf, visitSpawns]
  cases (ex.futureOf t).isCompleted with
  | true => simp [spawnCount]
  | false => simp

end NoTaskLost

/-! ### The queue in the heap -/

namespace HeapExecutor

/-- The task at `p` is removed if the pass visits it: its future is completed, or its poll will
answer `FUTURE_READY`. -/
def removes (c : HeapExecutor) (script : ℕ → PollScript) (p : UInt32) : Bool :=
  c.completed p || (script (c.futureOf p)).state = .ready

/-- The numbers of the tasks at `ps`. -/
def numbers (c : HeapExecutor) (ps : List UInt32) : List ℕ := ps.map c.tasks.number

/-- What the queue `ps'` after a pass over `ps` should be: it has every task spawned in the pass and
every task whose poll answered `FUTURE_PENDING`, none that was removed, and `task_count` is its
length. -/
structure NoTaskLost (c : HeapExecutor) (script : ℕ → PollScript) (ps : List UInt32)
    (c' : HeapExecutor) (ps' : List UInt32) : Prop where
  spawned : ∀ t, c.tasks.top ≤ t → t < c'.tasks.top → t ∈ c'.numbers ps'
  pending : ∀ p ∈ ps, c.completed p = false → (script (c.futureOf p)).state = .pending →
    c.tasks.number p ∈ c'.numbers ps'
  removed : ∀ p ∈ ps, c.removes script p = true → c.tasks.number p ∉ c'.numbers ps'
  taskCount : c'.taskCount = UInt32.ofNat ps'.length

/-- What a poll of the future at `p` needs to do what the script says; `spawns` tells whether it
queues a task. -/
def ScriptOk (script : ℕ → PollScript) (spawns : ℕ → Prop) (c : HeapExecutor) (p : UInt32) :
    Prop :=
  c.ScriptSafe script p ∧
    (spawns (c.futures.number p) ↔ c.Spawns (script (c.futures.number p)).actions)

instance (script : ℕ → PollScript) (spawns : ℕ → Prop) [DecidablePred spawns] (c : HeapExecutor) :
    DecidablePred (c.ScriptOk script spawns) := fun _ => inferInstanceAs (Decidable (_ ∧ (_ ↔ _)))

/-- What is known of the answer of a poll of `f`. -/
def Answers (script : ℕ → PollScript) (spawns : ℕ → Prop) (f : ℕ) (answer : PollAnswer) : Prop :=
  answer.state = (script f).state ∧ (spawnCount answer.spawns ≠ 0 ↔ spawns f)

/-- The polls do what the script says. -/
theorem rule_scriptedPoll (script : ℕ → PollScript) (spawns : ℕ → Prop) :
    Rule (scriptedPoll script) (ScriptOk script spawns) (fun _ _ _ _ => True)
      (Answers script spawns) where
  poll := by
    rintro A σ pay c s f h - - hf - ⟨hacts, hspawns⟩
    rw [ScriptSafe, h.number_future hf] at hacts
    rw [h.number_future hf] at hspawns
    obtain ⟨c', σ', pay', s', calls, hcode, h', hacted, -, -, hcount⟩ :=
      h.scriptedPoll (J := fun _ _ _ => True) script (fun _ _ ha => ha)
        (fun _ _ _ _ _ _ => trivial) hf trivial hacts
    exact ⟨⟨calls, (script f).state⟩, c', σ', pay', s', hcode, h', hacted, trivial, rfl,
      hcount.trans hspawns.symm⟩
  settle := fun _ _ _ => trivial

section NoTaskLost

variable {c c' : HeapExecutor} {ps : List UInt32} {script : ℕ → PollScript} {spawns : ℕ → Prop}
  {answer : ℕ → PollAnswer} {p : UInt32}

theorem Queue.removes_eq (h : Queue c ps) (hp : p ∈ ps)
    (hR : c.completed p = false →
      Answers script spawns (c.futureOf p) (answer (c.tasks.number p))) :
    Async.removes c.toExecutor answer (c.tasks.number p) = c.removes script p := by
  rw [Async.removes, h.completed_eq hp, HeapExecutor.removes]
  cases hdone : c.completed p with
  | true => rfl
  | false => rw [(hR hdone).1]

/-- The heap keeps the tasks that the abstract queue keeps. -/
theorem noTaskLost_iff_toExecutor (h : Queue c ps)
    (hR : ∀ p ∈ ps, c.completed p = false →
      Answers script spawns (c.futureOf p) (answer (c.tasks.number p)))
    {ps' : List UInt32} {s' : Executor} {ts' : List ℕ} (hnumbers : c'.numbers ps' = ts')
    (htop : c'.tasks.top = s'.taskTop) (hcount : c'.taskCount = s'.taskCount) :
    c.NoTaskLost script ps c' ps' ↔ c.toExecutor.NoTaskLost answer (c.numbers ps) s' ts' := by
  have hlen : ps'.length = ts'.length := by rw [← hnumbers, numbers, List.length_map]
  constructor
  · rintro ⟨h1, h2, h3, h4⟩
    rw [hnumbers] at h1 h2 h3
    refine ⟨fun t hle hlt => h1 t hle (htop ▸ hlt), ?_, ?_, by rw [← hcount, h4, hlen]⟩
    · refine List.forall_mem_map.mpr fun p hp hdone hstate => ?_
      rw [h.completed_eq hp] at hdone
      exact h2 p hp hdone ((hR p hp hdone).1 ▸ hstate)
    · refine List.forall_mem_map.mpr fun p hp hrem => ?_
      rw [h.removes_eq hp (hR p hp)] at hrem
      exact h3 p hp hrem
  · rintro ⟨h1, h2, h3, h4⟩
    rw [numbers, List.forall_mem_map] at h2 h3
    refine ⟨?_, ?_, ?_, by rw [hcount, h4, hlen]⟩ <;> rw [hnumbers]
    · exact fun t hle hlt => h1 t hle (htop ▸ hlt)
    · intro p hp hdone hstate
      exact h2 p hp ((h.completed_eq hp).trans hdone) ((hR p hp hdone).1.trans hstate)
    · intro p hp hrem
      exact h3 p hp ((h.removes_eq hp (hR p hp)).trans hrem)

end NoTaskLost

end HeapExecutor

open HeapExecutor

/-- One task is queued, and a second future waits. -/
def HeapExecutor.spawnedOne : HeapExecutor :=
  after [.create .sleepFuture 16, .spawn 0, .create .asyncSerialWrite 24]

/-- Two tasks are queued, and a third future waits. -/
def HeapExecutor.spawnedTwo : HeapExecutor :=
  after [.create .sleepFuture 16, .spawn 0, .create .asyncSerialWrite 24, .spawn 1,
    .create .sleepFuture 16]

/-- **When the blocks that polls get are clear and no RTC future is removed, a pass loses no task if
and only if no task it removes before the first that stays spawns another.** -/
theorem noTaskLost_iff {c : HeapExecutor} {ps : List UInt32} (script : ℕ → PollScript)
    (spawns : ℕ → Prop) (hq : c.Queue ps) (hcount : c.taskCount = UInt32.ofNat ps.length)
    (hok : c.PassMeets (scriptedPoll script) fun c l =>
      c.VisitOk (scriptedPoll script) (ScriptOk script spawns) l.current) :
    ∃ c' hasReady ps', c.executorPass (scriptedPoll script) = some (c', hasReady)
      ∧ c'.links.Holds ps'
      ∧ (c.NoTaskLost script ps c' ps'
        ↔ ∀ p ∈ ps.takeWhile (c.removes script), c.completed p = false →
          ¬ spawns (c.futureOf p)) := by
  have h := hq.refines
  have htask : ∀ t ∈ ps.map c.tasks.number, c.Live (.task t) := List.forall_mem_map.mpr fun p hp =>
    hq.live_task hp
  have hfuture : ∀ t ∈ ps.map c.tasks.number, c.Live (.future (c.toExecutor.tasks t).future) :=
    fun t ht => hq.live_iff.mpr (h.refers.future_lt t (htask t ht))
  obtain ⟨answer, c', hasReady, σ', pay', s', s₀', hcode, habs, hagree, h', -, hmoved, hR⟩ :=
    h.executorPass (A := Set.univ) (rule_scriptedPoll script spawns) trivial
      (fun _ _ => Set.mem_univ _) hq.queue htask hfuture hok
  obtain ⟨s₁', r, habs', hholds, htop, hcount', -⟩ := executorPass_spec hq.queue answer
  obtain ⟨rfl, -⟩ := Prod.mk.inj (Option.some.inj (habs.symm.trans habs'))
  have htop' : c'.tasks.top = s₀'.taskTop := h'.taskTop.trans hagree.taskTop
  obtain ⟨hlinks, hnumbers⟩ := h'.links_holds (hagree.links.symm ▸ hholds)
    (h.live_passQueue htask hmoved (htop'.trans htop))
  -- what is known of the polls, at the pointers of the tasks
  have hR' : ∀ p ∈ ps, c.completed p = false →
      Answers script spawns (c.futureOf p) (answer (c.tasks.number p)) := by
    intro p hp hdone
    rw [← hq.futureOf_eq hp]
    exact hR.polled _ (List.mem_map_of_mem hp) ((hq.completed_eq hp).trans hdone)
  refine ⟨c', hasReady, _, hcode, hlinks, ?_⟩
  rw [noTaskLost_iff_toExecutor hq hR' hnumbers htop' (h'.taskCount.trans hagree.taskCount),
    numbers, noTaskLost_iff_spawned hq.queue (by rw [List.length_map]; exact hcount) htop hcount',
    takeWhile_map_of_eq fun p hp => hq.removes_eq hp (hR' p hp), List.forall_mem_map]
  apply forall₂_congr
  intro p hp
  have hmem := (List.takeWhile_prefix _).subset hp
  rw [spawnsOf_eq_zero_iff, hq.completed_eq hmem]
  refine imp_congr_right fun hdone => ?_
  rw [← (hR' p hmem hdone).2, Ne, not_not]

/-- A task that stays, and then one that is removed, may spawn; the last one is created by its
poll. -/
theorem noTaskLost_iff_twoTasks :
    ∃ c' hasReady ps', (spawnedTwo.executorPass (scriptedPoll fun f =>
        if f = 1 then ⟨[.spawn 2], .pending⟩ else ⟨[.create .sleepFuture 16, .spawn 3], .ready⟩))
        = some (c', hasReady)
      ∧ c'.links.Holds ps'
      ∧ spawnedTwo.NoTaskLost (fun f =>
        if f = 1 then ⟨[.spawn 2], .pending⟩ else ⟨[.create .sleepFuture 16, .spawn 3], .ready⟩)
        [5008, 5072] c' ps' := by
  obtain ⟨c', hasReady, ps', hcode, hholds, hiff⟩ :=
    noTaskLost_iff (c := spawnedTwo) (fun f =>
        if f = 1 then ⟨[.spawn 2], .pending⟩ else ⟨[.create .sleepFuture 16, .spawn 3], .ready⟩)
      (fun _ => True) (by decide +kernel : spawnedTwo.Queue [5008, 5072]) (by decide +kernel)
      (by decide +kernel)
  exact ⟨c', hasReady, ps', hcode, hholds, hiff.mpr (by decide +kernel)⟩

/-- The one task spawns another and is ready: the queue is empty after the pass, with `task_count`
at one.  The blocks that the poll gets are clear. -/
theorem not_noTaskLost_oneTask :
    spawnedOne.Queue [5072]
      ∧ (spawnedOne.PassMeets (scriptedPoll fun _ => ⟨[.spawn 1], .ready⟩) fun c l =>
        c.VisitOk (scriptedPoll fun _ => ⟨[.spawn 1], .ready⟩)
          (ScriptOk (fun _ => ⟨[.spawn 1], .ready⟩) fun _ => True) l.current)
      ∧ ∃ c' hasReady, spawnedOne.executorPass (scriptedPoll fun _ => ⟨[.spawn 1], .ready⟩)
            = some (c', hasReady)
          ∧ c'.links.Holds [] ∧ c'.taskCount = 1
          ∧ ¬ spawnedOne.NoTaskLost (fun _ => ⟨[.spawn 1], .ready⟩) [5072] c' [] := by
  refine ⟨by decide +kernel, by decide +kernel, ?_⟩
  have hcode : (spawnedOne.executorPass (scriptedPoll fun _ => ⟨[.spawn 1], .ready⟩)).map
      (fun r => (decide (r.1.links.Holds []), r.1.taskCount)) = some (true, 1) := by
    decide +kernel
  obtain ⟨⟨c', hasReady⟩, hcode, hend⟩ := Option.map_eq_some_iff.mp hcode
  obtain ⟨hholds, hcount⟩ := Prod.mk.inj hend
  refine ⟨c', hasReady, hcode, of_decide_eq_true hholds, hcount, fun h => ?_⟩
  have hlen := h.taskCount
  rw [show c'.taskCount = 1 from hcount] at hlen
  exact absurd hlen (by decide)

end Shogun.Async
