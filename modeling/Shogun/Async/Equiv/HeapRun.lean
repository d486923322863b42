import Shogun.Async.Equiv.HeapQueue

/-!
# Runs in the heap

`Holding` says that the heap holds an executor whose queued tasks are in use, each with a future of
its own.  An action between two passes keeps it (`Holding.act`), and so does a pass
(`Holding.pass`), as long as no future is queued that a task has already.
-/

namespace Shogun.Async

open Memory Memory.HeapState LinkedList LinkedList.Links

namespace HeapExecutor

variable {σ σ' : Blocks} {pay pay' : ℕ → List UInt32} {c c' : HeapExecutor} {s s' : Executor}
  {ts : List ℕ} {a : Action} {own : Set ℕ} {calls : List SpawnCall} {t f : ℕ}

/-- Every task in use has a future in use, and no two have the same. -/
structure TaskInv (c : HeapExecutor) (s : Executor) : Prop where
  future : ∀ t, c.Live (.task t) → c.Live (.future (s.tasks t).future)
  inj : ∀ t u, c.Live (.task t) → c.Live (.task u) →
    (s.tasks t).future = (s.tasks u).future → t = u

/-- The action queues no future that a task has. -/
def QueuesNew (c : HeapExecutor) (a : Action) : Prop :=
  ∀ f, a = .spawn f → c.Live (.future f) ∧
    ∀ t, c.Live (.task t) → c.field (c.tasks.addr t) 0 ≠ c.futures.addr f

/-- The tasks are those there were. -/
theorem TaskInv.same (h : TaskInv c s) (htasks : ∀ t, c'.Live (.task t) ↔ c.Live (.task t))
    (hfutures : ∀ f, c.Live (.future f) → c'.Live (.future f)) (hs : s'.tasks = s.tasks) :
    TaskInv c' s' where
  future := fun t ht => by
    rw [hs]
    exact hfutures _ (h.future t ((htasks t).mp ht))
  inj := fun t u ht hu heq => by
    rw [hs] at heq
    exact h.inj t u ((htasks t).mp ht) ((htasks u).mp hu) heq

/-- There is one more task, for a future in use that no task has. -/
theorem TaskInv.push (h : TaskInv c s) (hf : c'.Live (.future f))
    (htasks : ∀ u, c'.Live (.task u) → u = t ∨ c.Live (.task u) ∧ u ≠ t)
    (hfutures : ∀ f, c.Live (.future f) → c'.Live (.future f))
    (hnew : (s'.tasks t).future = f)
    (hold : ∀ u, u ≠ t → (s'.tasks u).future = (s.tasks u).future)
    (hne : ∀ u, c.Live (.task u) → (s.tasks u).future ≠ f) : TaskInv c' s' where
  future := by
    intro u hu
    rcases htasks u hu with rfl | ⟨hu, hut⟩
    · rwa [hnew]
    · rw [hold u hut]
      exact hfutures _ (h.future u hu)
  inj := by
    intro u v hu hv heq
    rcases htasks u hu with rfl | ⟨hu, hut⟩ <;> rcases htasks v hv with rfl | ⟨hv, hvt⟩
    · rfl
    · rw [hnew, hold v hvt] at heq
      exact absurd heq.symm (hne v hv)
    · rw [hnew, hold u hut] at heq
      exact absurd heq (hne u hu)
    · rw [hold u hut, hold v hvt] at heq
      exact h.inj u v hu hv heq

/-- The tasks in use after an action that frees nothing of the executor's. -/
theorem live_task_iff (hgrows : Extends c c') :
    c'.Live (.task t) ↔ t < c'.tasks.top ∧ .free (.task t) ∉ c.trace := by
  rw [← hgrows.trace]
  rfl

/-- An action that queues no future twice. -/
theorem TaskInv.did (h : TaskInv c s) (hr : Refines σ pay c s) (hr' : Refines σ' pay' c' s')
    (hdid : Did own pay c s a calls pay' c' s') (hnew : c.QueuesNew a) : TaskInv c' s' := by
  have hgrows := hdid.acted.grows
  have htasks := hdid.acted.agree.tasks
  have htop := hdid.acted.agree.taskTop
  have hfutures : ∀ f, c.Live (.future f) → c'.Live (.future f) := fun f hf => hgrows.live hf
  -- without a new task
  have hsame : s'.tasks = s.tasks → s'.taskTop = s.taskTop → TaskInv c' s' := by
    intro hs ht
    refine h.same (fun t => ?_) hfutures hs
    rw [live_task_iff hgrows, hr'.taskTop, ht, ← hr.taskTop]
    rfl
  cases hdid.calls with
  | none ha => exact hsame htasks htop
  | @spawn call hcall =>
    obtain ⟨f, taskAllocated, wakerAllocated⟩ := call
    cases taskAllocated with
    | false => exact hsame htasks htop
    | true =>
      obtain ⟨hf, hne⟩ := hnew f rfl
      have hs : s'.tasks = Function.update s.tasks s.taskTop ⟨f, s.taskQueue⟩ := by
        rw [htasks]
        exact executorSpawn_tasks s f wakerAllocated
      have ht : s'.taskTop = s.taskTop + 1 :=
        htop.trans (executorSpawn_spec s ⟨f, true, wakerAllocated⟩).taskTop
      refine h.push (t := s.taskTop) (hfutures f hf) (fun u hu => ?_) hfutures ?_ (fun u hu => ?_)
        fun u hu heq => hne u hu ?_
      · rw [live_task_iff hgrows, hr'.taskTop, ht, ← hr.taskTop] at hu
        by_cases hut : u = s.taskTop
        · exact .inl hut
        · exact .inr ⟨⟨by have := hr.taskTop; show u < c.tasks.top; omega, hu.2⟩, hut⟩
      · rw [hs, Function.update_self]
      · rw [hs, Function.update_of_ne hu]
      · rw [hr.taskFuture hu, heq]

/-- A task is removed with its future. -/
theorem TaskInv.settle {gone : Set Block} (h : TaskInv c s) (hset : Settled c s gone c' s')
    (hgone : gone = ∅ ∨ ∃ t, c.Live (.task t) ∧ gone = {.task t, .future (s.tasks t).future}) :
    TaskInv c' s' where
  future := by
    intro u hu
    obtain ⟨hu, hnot⟩ := (hset.task u).mp hu
    rw [hset.taskFuture, hset.future]
    refine ⟨h.future u hu, ?_⟩
    rcases hgone with rfl | ⟨t, ht, rfl⟩
    · exact Set.notMem_empty _
    · rintro (heq | heq)
      · exact absurd heq nofun
      · obtain rfl := h.inj u t hu ht (Block.future.inj heq)
        exact hnot (.inl rfl)
  inj := by
    intro u v hu hv heq
    rw [hset.taskFuture, hset.taskFuture] at heq
    exact h.inj u v ((hset.task u).mp hu).1 ((hset.task v).mp hv).1 heq

/-! ### Steps of a run -/

/-- The heap of `c` holds `s`, whose queue is `ts`. -/
structure Holding (σ : Blocks) (pay : ℕ → List UInt32) (c : HeapExecutor) (s : Executor)
    (ts : List ℕ) : Prop where
  refines : Refines σ pay c s
  inv : TaskInv c s
  holds : s.links.Holds ts
  task : ∀ t ∈ ts, c.Live (.task t)

namespace Holding

theorem future (h : Holding σ pay c s ts) :
    ∀ t ∈ ts, c.Live (.future (s.tasks t).future) := fun t ht => h.inv.future t (h.task t ht)

theorem queue (h : Holding σ pay c s ts) : s.Queue ts where
  holds := h.holds
  lt_top := fun t ht => h.refines.taskTop ▸ (h.task t ht).1
  futures_nodup := h.holds.nodup.map_on fun t ht u hu heq =>
    h.inv.inj t u (h.task t ht) (h.task u hu) heq

/-- The queue in the heap. -/
theorem links (h : Holding σ pay c s ts) :
    c.links.Holds (ts.map c.tasks.addr) ∧ (ts.map c.tasks.addr).map c.tasks.number = ts :=
  h.refines.links_holds h.holds h.task

/-- An executor without blocks. -/
def noBlocks : Executor :=
  ⟨none, 0, false, fun _ => ⟨0, none⟩, fun _ => ⟨.sleepFuture, false, none⟩, fun _ => 0, 0, 0, []⟩

/-- `executor_init` in a sound heap. -/
theorem init {m : HeapState} (hm : m.Sound) :
    Holding (fun _ => none) (fun _ => []) (boot m).executorInit (Async.executorInit noBlocks)
      [] where
  refines :=
    { holds := ⟨hm, nofun⟩
      taskQueue := rfl
      taskCount := rfl
      shouldPoll := rfl
      trace := rfl
      taskTop := rfl
      wakerTop := rfl
      content := fun b hb => by cases b <;> exact absurd hb.1 (Nat.not_lt_zero _)
      inj := fun b _ hb => by cases b <;> exact absurd hb.1 (Nat.not_lt_zero _)
      latest := fun b hb => by cases b <;> exact absurd hb.1 (Nat.not_lt_zero _)
      freed := nofun
      refers :=
        { queue_lt := nofun
          future_lt := fun t ht => absurd ht.1 (Nat.not_lt_zero _)
          next_lt := fun t ht => absurd ht.1 (Nat.not_lt_zero _)
          waker_live := fun f hf => absurd hf.1 (Nat.not_lt_zero _)
          waker_inj := fun f _ hf => absurd hf.1 (Nat.not_lt_zero _) } }
  inv := ⟨fun t ht => absurd ht.1 (Nat.not_lt_zero _),
    fun t _ ht => absurd ht.1 (Nat.not_lt_zero _)⟩
  holds := rfl
  task := fun _ ht => absurd ht List.not_mem_nil

/-- An action between two passes. -/
theorem act (h : Holding σ pay c s ts) (ha : c.Safe a) (hnew : c.QueuesNew a) :
    ∃ c' σ' pay' s' calls, c.act a = some c' ∧ Did ∅ pay c s a calls pay' c' s' ∧
      Holding σ' pay' c' s' ((List.range' s.taskTop (spawnCount calls)).reverse ++ ts) := by
  obtain ⟨c', σ', pay', s', calls, hcode, h', hdid⟩ := h.refines.act ha
  have hs := foldl_executorSpawn_spec s calls
  have hgrows := hdid.acted.grows
  have htop := hdid.acted.agree.taskTop
  refine ⟨c', σ', pay', s', calls, hcode, hdid, h', h.inv.did h.refines h' hdid hnew, ?_,
    fun t ht => ?_⟩
  · rw [hdid.acted.agree.links, ← List.append_nil (List.reverse _), List.append_assoc]
    have hpushed := hs.pushed none [] ts (Cursor.start h.holds) h.queue.lt_top
    simpa using hpushed.holds
  · rcases List.mem_append.mp ht with ht | ht
    · -- a new task
      rw [List.mem_reverse, List.mem_range'_1] at ht
      refine (Moved.of_extends h.refines hgrows).newTask t (h.refines.taskTop ▸ ht.1) ?_
      rw [h'.taskTop, htop, hs.taskTop]
      exact ht.2
    · exact hgrows.live (h.task t ht)

/-- A pass; `J` is what its polls keep, and `R` what is known of their answers. -/
theorem pass {poll : PollFn} {Ok : HeapExecutor → UInt32 → Prop}
    {J : Set ℕ → (ℕ → List UInt32) → HeapExecutor → Executor → Prop} {R : ℕ → PollAnswer → Prop}
    {A : Set ℕ} (h : Holding σ pay c s ts) (hr : Rule poll Ok J R)
    (hJ : ∀ {A pay c s}, J A pay c s → TaskInv c s) (hj : J A pay c s)
    (hA : ∀ t ∈ ts, (s.tasks t).future ∈ A)
    (hok : c.PassMeets poll fun c l => c.VisitOk poll Ok l.current) :
    ∃ answer c' hasReady σ' pay' s' s₀', c.executorPass poll = some (c', hasReady) ∧
      Async.executorPass s answer = some (s₀', hasReady) ∧ Agree c.futures.top s₀' s' ∧
      J (leftAfter s A ts) pay' c' s' ∧ Answered R s ts answer ∧ c.tasks.Grows c'.tasks ∧
      c.futures.Grows c'.futures ∧ Holding σ' pay' c' s' (passQueue s answer ts) := by
  obtain ⟨answer, c', hasReady, σ', pay', s', s₀', hcode, habs, hagree, h', hj', hmoved, hR⟩ :=
    h.refines.executorPass hr hj hA h.queue h.task h.future hok
  obtain ⟨s₁', r, habs', hholds, htop, -, -⟩ := executorPass_spec h.queue answer
  obtain ⟨rfl, -⟩ := Prod.mk.inj (Option.some.inj (habs.symm.trans habs'))
  have htop' : c'.tasks.top = s₀'.taskTop := h'.taskTop.trans hagree.taskTop
  exact ⟨answer, c', hasReady, σ', pay', s', s₀', hcode, habs, hagree, hj', hR, hmoved.tasks,
    hmoved.futures, h', hJ hj', hagree.links.symm ▸ hholds,
    h.refines.live_passQueue h.task hmoved (htop'.trans htop)⟩

end Holding

/-! ### Conditions on a run -/

/-- `P` holds of every step, in the state in which it is taken. -/
def RunMeets {α : Type} (poll : α → PollFn) (P : HeapExecutor → RunOp α → Prop) :
    HeapExecutor → List (RunOp α) → Prop
  | _, [] => True
  | c, op :: ops => P c op ∧ ∀ c', c.runStep poll op = some c' → RunMeets poll P c' ops

instance : DecidablePred c.QueuesNew
  | .spawn f =>
    decidable_of_iff (c.Live (.future f) ∧ ∀ t < c.tasks.top, c.Live (.task t) →
        c.field (c.tasks.addr t) 0 ≠ c.futures.addr f)
      ⟨fun ⟨hf, h⟩ _ heq => Action.spawn.inj heq ▸ ⟨hf, fun t ht => h t ht.1 ht⟩,
        fun h => ⟨(h f rfl).1, fun t _ ht => (h f rfl).2 t ht⟩⟩
  | .malloc _ | .free _ | .write _ _ _ | .create _ _ | .createSerialWrite _ _ => isTrue nofun

instance RunMeets.decidable {α : Type} {poll : α → PollFn} {P : HeapExecutor → RunOp α → Prop}
    [∀ c, DecidablePred (P c)] : ∀ (c : HeapExecutor) (ops : List (RunOp α)),
      Decidable (c.RunMeets poll P ops)
  | _, [] => isTrue trivial
  | c, op :: ops =>
    have : DecidablePred fun c' : HeapExecutor => c'.RunMeets poll P ops :=
      fun c' => RunMeets.decidable c' ops
    inferInstanceAs (Decidable (P c op ∧ ∀ c' ∈ c.runStep poll op, c'.RunMeets poll P ops))

end HeapExecutor

end Shogun.Async
