import Shogun.Async.Equiv.Visit

/-!
# What one pass of the executor does

The queue of an executor is the list of tasks that `Links.Holds` reads off its pointers.  This file
follows the pass of `executor_run` over it.

* `pollLoop_rule`: the invariant rule of the inner loop.
* `passQueue`: the queue after a pass, which is the sweep that removes the tasks that are done.
* `executorPass_spec`: a pass returns, and leaves the queue `passQueue` computes.
* `executorPass_trace`: the events of a pass, task by task.
-/

namespace Shogun.Async

open LinkedList LinkedList.Links

/-! ### The whole pass -/

/-- The invariant rule of the inner loop: `I` holds of the state and the tasks still ahead, and
visiting the next of them keeps it. -/
theorem pollLoop_rule (answer : ℕ → PollAnswer) {I : Executor → Locals → List ℕ → Prop}
    (hcurrent : ∀ ex l rest, I ex l rest → l.current = rest.head?)
    (hstep : ∀ ex l t rest, I ex l (t :: rest) →
      I (visitTask answer ex l t).1 (visitTask answer ex l t).2 rest)
    (rest : List ℕ) (fuel : ℕ) (ex : Executor) (l : Locals) (hfuel : rest.length ≤ fuel)
    (hI : I ex l rest) :
    ∃ ex' l', pollLoop answer fuel ex l = some (ex', l') ∧ I ex' l' [] := by
  induction rest generalizing fuel ex l with
  | nil =>
    exact ⟨ex, l, pollLoop_of_current (hcurrent _ _ _ hI) answer fuel ex, hI⟩
  | cons t rest ih =>
    obtain ⟨fuel, rfl⟩ : ∃ n, fuel = n + 1 := Nat.exists_eq_add_one.mpr (by simp at hfuel; omega)
    obtain ⟨ex', l', hcode, hI'⟩ :=
      ih fuel _ _ (by simpa using hfuel) (hstep _ _ _ _ hI)
    refine ⟨ex', l', ?_, hI'⟩
    rw [pollLoop.eq_def, hcurrent _ _ _ hI]
    exact hcode

/-- The queue of `ex` is `ts`, and its tasks have futures of their own. -/
structure Executor.Queue (ex : Executor) (ts : List ℕ) : Prop where
  holds : ex.links.Holds ts
  lt_top : ∀ t ∈ ts, t < ex.taskTop
  futures_nodup : (ts.map fun t => (ex.tasks t).future).Nodup

/-- The number of tasks spawned while the pass looks at `t`. -/
def spawnsOf (ex : Executor) (answer : ℕ → PollAnswer) (t : ℕ) : ℕ :=
  spawnCount (visitSpawns ex answer t)

/-- The queue after a pass over `ts`. -/
def passQueue (ex : Executor) (answer : ℕ → PollAnswer) (ts : List ℕ) : List ℕ :=
  sweep (removes ex answer) (spawnsOf ex answer) true ex.taskTop [] ts

/-- The invariant of the pass over `ts` that started in `ex₀`, with `rest` still ahead. -/
structure Walk (ex₀ : Executor) (answer : ℕ → PollAnswer) (ts : List ℕ) (ex : Executor)
    (l : Locals) (rest : List ℕ) : Prop where
  suffix : rest <:+ ts
  current : l.current = rest.head?
  sweeping : Sweeping (removes ex₀ answer) (spawnsOf ex₀ answer) ex.links l.prevPtr ex.taskTop rest
    (passQueue ex₀ answer ts)
  task : ∀ t ∈ ts, t < ex.taskTop ∧ (ex.tasks t).future = (ex₀.tasks t).future
  completed : ∀ t ∈ rest,
    (ex.futures (ex₀.tasks t).future).isCompleted = (ex₀.futureOf t).isCompleted
  taskTop : ex.taskTop + (rest.map (spawnsOf ex₀ answer)).sum
    = ex₀.taskTop + (ts.map (spawnsOf ex₀ answer)).sum
  taskCount : ex.taskCount + UInt32.ofNat (rest.map (spawnsOf ex₀ answer)).sum
      + UInt32.ofNat (ts.countP (removes ex₀ answer))
    = ex₀.taskCount + UInt32.ofNat (ts.map (spawnsOf ex₀ answer)).sum
      + UInt32.ofNat (rest.countP (removes ex₀ answer))

namespace Walk

variable {ex₀ ex : Executor} {answer : ℕ → PollAnswer} {ts rest : List ℕ} {l : Locals} {t : ℕ}

theorem start (hq : ex₀.Queue ts) (hasReady : Bool) :
    Walk ex₀ answer ts ex₀ ⟨ts.head?, none, hasReady⟩ ts where
  suffix := List.suffix_rfl
  current := rfl
  sweeping := .start hq.holds hq.lt_top
  task := fun t ht => ⟨hq.lt_top t ht, rfl⟩
  completed := fun _ _ => rfl
  taskTop := rfl
  taskCount := rfl

theorem futureOf_isCompleted (h : Walk ex₀ answer ts ex l rest) (ht : t ∈ rest) :
    (ex.futureOf t).isCompleted = (ex₀.futureOf t).isCompleted := by
  rw [Executor.futureOf, (h.task t (h.suffix.mem ht)).2]
  exact h.completed t ht

theorem removes_eq (h : Walk ex₀ answer ts ex l rest) (ht : t ∈ rest) :
    removes ex answer t = removes ex₀ answer t := by
  rw [removes, removes, h.futureOf_isCompleted ht]

theorem visitSpawns_eq (h : Walk ex₀ answer ts ex l rest) (ht : t ∈ rest) :
    visitSpawns ex answer t = visitSpawns ex₀ answer t := by
  rw [visitSpawns, visitSpawns, h.futureOf_isCompleted ht]

/-- The futures of the tasks behind `t` are not that of `t`. -/
theorem future_ne (hnd : (ts.map fun t => (ex₀.tasks t).future).Nodup)
    (h : Walk ex₀ answer ts ex l (t :: rest)) {u : ℕ} (hu : u ∈ rest) :
    (ex₀.tasks u).future ≠ (ex.tasks t).future := by
  rw [(h.task t (h.suffix.mem List.mem_cons_self)).2]
  have hsub := (h.suffix.sublist.map fun t => (ex₀.tasks t).future).nodup hnd
  rw [List.map_cons, List.nodup_cons] at hsub
  intro heq
  exact hsub.1 (heq ▸ List.mem_map_of_mem hu)

/-- Visiting a task keeps the invariant. -/
theorem step (hnd : (ts.map fun t => (ex₀.tasks t).future).Nodup)
    (h : Walk ex₀ answer ts ex l (t :: rest)) :
    Walk ex₀ answer ts (visitTask answer ex l t).1 (visitTask answer ex l t).2 rest := by
  have ht := h.task t (h.suffix.mem List.mem_cons_self)
  -- the visits so far have not changed what the pass will do with `t`
  have hr := h.removes_eq List.mem_cons_self
  have hs : spawnCount (visitSpawns ex answer t) = spawnsOf ex₀ answer t := by
    rw [h.visitSpawns_eq List.mem_cons_self, spawnsOf]
  have hv := visitTask_spec answer l ht.1
  obtain ⟨hcur, hsweep⟩ := hv.sweeping hr.symm hs.symm h.sweeping
  have htop := hv.taskTop
  have hcount := hv.taskCount
  rw [hr, hs] at hcount
  rw [hs] at htop
  refine
    { suffix := (List.suffix_cons t rest).trans h.suffix
      current := hcur
      sweeping := hsweep
      task := fun u hu => ?_
      completed := fun u hu => ?_
      taskTop := ?_
      taskCount := ?_ }
  · have hu' := h.task u hu
    exact ⟨by rw [htop]; exact Nat.lt_add_right _ hu'.1, (hv.task u hu'.1).trans hu'.2⟩
  · rw [hv.completed _ (h.future_ne hnd hu)]
    exact h.completed u (List.mem_cons_of_mem _ hu)
  · rw [htop, ← h.taskTop, List.map_cons, List.sum_cons, Nat.add_assoc]
  · have hc := h.taskCount
    rw [List.map_cons, List.sum_cons, UInt32.ofNat_add, ofNat_countP_cons] at hc
    grind

end Walk

theorem Executor.Queue.length_le {ex : Executor} {ts : List ℕ} (hq : ex.Queue ts) :
    ts.length ≤ ex.taskTop := by
  have hsub : ts ⊆ List.range ex.taskTop := fun t ht => List.mem_range.mpr (hq.lt_top t ht)
  have hlen := (hq.holds.nodup.subperm hsub).length_le
  rwa [List.length_range] at hlen

/-- The pass runs the inner loop from the head of the queue. -/
theorem executorPass_eq {ex : Executor} {ts : List ℕ} (hq : ex.Queue ts)
    (answer : ℕ → PollAnswer) :
    executorPass ex answer
      = (pollLoop answer ex.taskTop ex ⟨ts.head?, none, false⟩).map fun r =>
          (r.1, r.2.hasReadyTasks) := by
  have hhead : ex.taskQueue = ts.head? := hq.holds.head_eq
  rw [executorPass, hhead]
  cases ts with
  | nil =>
    rw [pollLoop.eq_def]
    rfl
  | cons t ts => rfl

/-- A pass returns, and leaves the queue that `passQueue` computes. -/
theorem executorPass_spec {ex : Executor} {ts : List ℕ} (hq : ex.Queue ts)
    (answer : ℕ → PollAnswer) :
    ∃ ex' hasReady, executorPass ex answer = some (ex', hasReady)
      ∧ ex'.links.Holds (passQueue ex answer ts)
      ∧ ex'.taskTop = ex.taskTop + (ts.map (spawnsOf ex answer)).sum
      ∧ ex'.taskCount + UInt32.ofNat (ts.countP (removes ex answer))
          = ex.taskCount + UInt32.ofNat (ts.map (spawnsOf ex answer)).sum
      ∧ ∀ t ∈ ts, t < ex'.taskTop ∧ (ex'.tasks t).future = (ex.tasks t).future := by
  obtain ⟨ex', l', hcode, hw⟩ := pollLoop_rule answer (fun _ _ _ h => h.current)
    (fun _ _ _ _ h => Walk.step hq.futures_nodup h) ts ex.taskTop ex ⟨ts.head?, none, false⟩
    hq.length_le (Walk.start hq false)
  refine ⟨ex', l'.hasReadyTasks, ?_, hw.sweeping.holds, hw.taskTop, ?_, hw.task⟩
  · rw [executorPass_eq hq, hcode]
    rfl
  · have hcount := hw.taskCount
    rw [List.map_nil, List.sum_nil, List.countP_nil] at hcount
    change ex'.taskCount + 0 + _ = _ + 0 at hcount
    rwa [UInt32.add_zero, UInt32.add_zero] at hcount

/-! ### The events of a pass -/

/-- The queue of `ex` is `ts`, counted by `task_count`; its tasks own their futures and their
wakers, which have the one reference `waker_create` gives them. -/
structure Executor.WellFormed (ex : Executor) (ts : List ℕ) : Prop extends ex.Queue ts where
  taskCount : ex.taskCount = UInt32.ofNat ts.length
  waker : ∀ t ∈ ts, ∀ w, (ex.futureOf t).waker = some w → w < ex.wakerTop ∧ ex.refCounts w = 1
  waker_inj : ∀ t ∈ ts, ∀ u ∈ ts, ∀ w, (ex.futureOf t).waker = some w →
    (ex.futureOf u).waker = some w → t = u

/-- No poll of the pass spawns a task for a future that is queued already. -/
def SpawnsNew (ex : Executor) (answer : ℕ → PollAnswer) (ts : List ℕ) : Prop :=
  ∀ t ∈ ts, ∀ c ∈ visitSpawns ex answer t, ∀ u ∈ ts, c.future ≠ (ex.tasks u).future

/-- The pass over `ts` has left alone the futures of the tasks in `rest`, which are still ahead, and
of those behind that stay. -/
def FuturesKept (ex₀ : Executor) (answer : ℕ → PollAnswer) (ts : List ℕ) (ex : Executor)
    (rest : List ℕ) : Prop :=
  ∀ t ∈ ts, (t ∈ rest ∨ removes ex₀ answer t = false) →
    ex.futures (ex₀.tasks t).future = ex₀.futureOf t

section Kept

variable {ex₀ ex : Executor} {answer : ℕ → PollAnswer} {ts rest : List ℕ} {l : Locals} {t : ℕ}

theorem FuturesKept.futureOf_eq (h : FuturesKept ex₀ answer ts ex rest)
    (hw : Walk ex₀ answer ts ex l rest) (ht : t ∈ rest) : ex.futureOf t = ex₀.futureOf t := by
  have hts := hw.suffix.mem ht
  rw [Executor.futureOf, (hw.task t hts).2]
  exact h t hts (.inl ht)

/-- A poll of the pass spawns no task for the future it polls. -/
theorem ownFuture_of_spawnsNew (hw : Walk ex₀ answer ts ex l rest)
    (hnew : SpawnsNew ex₀ answer ts) (ht : t ∈ rest) : OwnFuture ex answer t := by
  have hts := hw.suffix.mem ht
  intro c hc
  rw [hw.visitSpawns_eq ht] at hc
  rw [(hw.task t hts).2]
  exact hnew t hts c hc t hts

/-- A task that is ahead of a visit or stays was so before the visit, and is not removed by it. -/
theorem ahead_or_kept (hq : ex₀.Queue ts) (hw : Walk ex₀ answer ts ex l (t :: rest)) {u : ℕ}
    (hu : u ∈ rest ∨ removes ex₀ answer u = false) :
    (u ∈ t :: rest ∨ removes ex₀ answer u = false) ∧ (u = t → removes ex answer t = false) := by
  have hnot : t ∉ rest := (List.nodup_cons.mp (hw.suffix.sublist.nodup hq.holds.nodup)).1
  rcases hu with hu | hu
  · exact ⟨.inl (List.mem_cons_of_mem _ hu), fun heq => absurd (heq ▸ hu) hnot⟩
  · refine ⟨.inr hu, ?_⟩
    rintro rfl
    exact (hw.removes_eq List.mem_cons_self).trans hu

theorem FuturesKept.step (hq : ex₀.Queue ts) (hnew : SpawnsNew ex₀ answer ts)
    (hw : Walk ex₀ answer ts ex l (t :: rest)) (h : FuturesKept ex₀ answer ts ex (t :: rest)) :
    FuturesKept ex₀ answer ts (visitTask answer ex l t).1 rest := by
  have hmem : t ∈ t :: rest := List.mem_cons_self
  have hts := hw.suffix.mem hmem
  obtain ⟨hlt, htask⟩ := hw.task t hts
  have hv := visitTask_spec answer l hlt
  intro u hu hcase
  obtain ⟨hstill, hkeep⟩ := ahead_or_kept hq hw hcase
  rcases eq_or_ne u t with rfl | hne
  · have hk := hv.kept (ownFuture_of_spawnsNew hw hnew hmem) (hkeep rfl)
    rwa [htask, h.futureOf_eq hw hmem] at hk
  · have hfne : (ex₀.tasks u).future ≠ (ex₀.tasks t).future := fun heq =>
      hne (List.inj_on_of_nodup_map hq.futures_nodup hu hts heq)
    rw [hv.future _ (by rwa [htask]) fun c hc => ?_]
    · exact h u hu hstill
    · rw [hw.visitSpawns_eq hmem] at hc
      exact hnew t hts c hc u hu

/-- The tasks that stay keep their futures. -/
theorem executorPass_futures {ex' : Executor} {hasReady : Bool} (hq : ex.Queue ts)
    (hnew : SpawnsNew ex answer ts) (hcode : executorPass ex answer = some (ex', hasReady)) :
    ∀ t ∈ ts, removes ex answer t = false →
      ex'.futures (ex.tasks t).future = ex.futureOf t := by
  obtain ⟨ex₁, l₁, hloop, -, hkept⟩ := pollLoop_rule answer
    (I := fun ex₁ l rest => Walk ex answer ts ex₁ l rest ∧ FuturesKept ex answer ts ex₁ rest)
    (fun _ _ _ h => h.1.current)
    (fun _ _ _ _ h => ⟨h.1.step hq.futures_nodup, h.2.step hq hnew h.1⟩)
    ts ex.taskTop ex ⟨ts.head?, none, false⟩ hq.length_le ⟨Walk.start hq false, fun _ _ _ => rfl⟩
  obtain rfl : ex₁ = ex' := by
    rw [executorPass_eq hq, hloop] at hcode
    exact congrArg Prod.fst (Option.some.inj hcode)
  exact fun t ht hr => hkept t ht (.inr hr)

end Kept

/-- What the pass over `ts` has left alone when `rest` is still ahead: the blocks of the tasks
ahead, and of those behind that stay. -/
structure Trail (ex₀ : Executor) (answer : ℕ → PollAnswer) (ts : List ℕ) (ex : Executor)
    (rest : List ℕ) : Prop where
  trace : ex.trace ++ rest.flatMap (visitEvents ex₀ answer)
    = ex₀.trace ++ ts.flatMap (visitEvents ex₀ answer)
  wakerTop_le : ex₀.wakerTop ≤ ex.wakerTop
  future : FuturesKept ex₀ answer ts ex rest
  refCount : ∀ t ∈ ts, (t ∈ rest ∨ removes ex₀ answer t = false) → ∀ w,
    (ex₀.futureOf t).waker = some w → ex.refCounts w = ex₀.refCounts w

namespace Trail

variable {ex₀ ex : Executor} {answer : ℕ → PollAnswer} {ts rest : List ℕ} {l : Locals} {t : ℕ}

theorem start : Trail ex₀ answer ts ex₀ ts :=
  ⟨rfl, le_rfl, fun _ _ _ => rfl, fun _ _ _ _ _ => rfl⟩

theorem visitEvents_eq (hw : Walk ex₀ answer ts ex l rest) (h : Trail ex₀ answer ts ex rest)
    (ht : t ∈ rest) : visitEvents ex answer t = visitEvents ex₀ answer t := by
  have hts := hw.suffix.mem ht
  have htask := (hw.task t hts).2
  have hof := h.future.futureOf_eq hw ht
  have hrel : releaseEvents ex t = releaseEvents ex₀ t :=
    releaseEvents_congr htask (by rw [hof]) (by rw [hof]) fun w hw =>
      h.refCount t hts (.inl ht) w hw
  rw [visitEvents, visitEvents, pollEvents, pollEvents, hof, htask, hw.removes_eq ht, hrel]

/-- Visiting a task keeps the blocks of the others. -/
theorem step (hwf : ex₀.WellFormed ts) (hnew : SpawnsNew ex₀ answer ts)
    (hw : Walk ex₀ answer ts ex l (t :: rest)) (h : Trail ex₀ answer ts ex (t :: rest)) :
    Trail ex₀ answer ts (visitTask answer ex l t).1 rest := by
  have hmem : t ∈ t :: rest := List.mem_cons_self
  have hts := hw.suffix.mem hmem
  obtain ⟨hlt, htask⟩ := hw.task t hts
  have hof := h.future.futureOf_eq hw hmem
  have hv := visitTask_spec answer l hlt
  have hown := ownFuture_of_spawnsNew hw hnew hmem
  refine ⟨?_, h.wakerTop_le.trans hv.wakerTop_le, h.future.step hwf.toQueue hnew hw,
    fun u hu hcase w hwk => ?_⟩
  · rw [hv.trace hown, h.visitEvents_eq hw hmem, ← h.trace, List.flatMap_cons, List.append_assoc]
    intro w hwk
    rw [hof] at hwk
    exact (hwf.waker t hts w hwk).1.trans_le h.wakerTop_le
  · obtain ⟨hstill, hkeep⟩ := ahead_or_kept hwf.toQueue hw hcase
    rw [hv.refCount hown w ((hwf.waker u hu w hwk).1.trans_le h.wakerTop_le) fun hrem hwt => ?_]
    · exact h.refCount u hu hstill w hwk
    · rw [hof] at hwt
      obtain rfl := hwf.waker_inj u hu t hts w hwk hwt
      rw [hkeep rfl] at hrem
      exact Bool.noConfusion hrem

end Trail

theorem mem_kept {ex : Executor} {answer : ℕ → PollAnswer} {ts : List ℕ} {t : ℕ} :
    t ∈ ts.filter (!removes ex answer ·) ↔ t ∈ ts ∧ removes ex answer t = false := by
  rw [List.mem_filter, Bool.not_eq_true']

/-- A queued task is in the queue after the pass exactly when the pass does not remove it. -/
theorem mem_passQueue_iff {ex : Executor} {ts : List ℕ} {t : ℕ} (hq : ex.Queue ts)
    (answer : ℕ → PollAnswer) (ht : t ∈ ts) :
    t ∈ passQueue ex answer ts ↔ removes ex answer t = false :=
  mem_sweep_iff ht (hq.lt_top t ht)

/-- The events of a pass over a well-formed queue are those of its tasks in queue order, and the
tasks that stay keep their futures and wakers. -/
theorem executorPass_trace {ex ex' : Executor} {ts : List ℕ} {answer : ℕ → PollAnswer}
    {hasReady : Bool} (hwf : ex.WellFormed ts) (hnew : SpawnsNew ex answer ts)
    (hcode : executorPass ex answer = some (ex', hasReady)) :
    ex'.trace = ex.trace ++ ts.flatMap (visitEvents ex answer)
      ∧ ex.wakerTop ≤ ex'.wakerTop
      ∧ ∀ t ∈ ts, removes ex answer t = false →
          ex'.futures (ex.tasks t).future = ex.futureOf t
            ∧ ∀ w, (ex.futureOf t).waker = some w → ex'.refCounts w = ex.refCounts w := by
  have hq := hwf.toQueue
  obtain ⟨ex₁, l₁, hloop, -, hpast⟩ := pollLoop_rule answer
    (I := fun ex₁ l rest => Walk ex answer ts ex₁ l rest ∧ Trail ex answer ts ex₁ rest)
    (fun _ _ _ h => h.1.current)
    (fun _ _ _ _ h => ⟨h.1.step hq.futures_nodup, h.2.step hwf hnew h.1⟩)
    ts ex.taskTop ex ⟨ts.head?, none, false⟩ hq.length_le ⟨Walk.start hq false, Trail.start⟩
  obtain rfl : ex₁ = ex' := by
    rw [executorPass_eq hq, hloop] at hcode
    exact congrArg Prod.fst (Option.some.inj hcode)
  refine ⟨?_, hpast.wakerTop_le, fun t ht hr => ⟨hpast.future t ht (.inr hr),
    hpast.refCount t ht (.inr hr)⟩⟩
  have htrace := hpast.trace
  rwa [List.flatMap_nil, List.append_nil] at htrace

/-- Every event of the pass that does not come from visiting `t` comes from visiting another
task. -/
theorem flatMap_visitEvents_split (ex : Executor) (answer : ℕ → PollAnswer) {ts : List ℕ} {t : ℕ}
    (hnd : ts.Nodup) (ht : t ∈ ts) :
    ∃ before after, ts.flatMap (visitEvents ex answer)
        = before ++ (visitEvents ex answer t ++ after)
      ∧ ∀ e, e ∈ before ∨ e ∈ after → ∃ u ∈ ts, u ≠ t ∧ e ∈ visitEvents ex answer u := by
  obtain ⟨pre, post, rfl⟩ := List.append_of_mem ht
  obtain ⟨-, hnd', hdisj⟩ := List.nodup_append.mp hnd
  refine ⟨pre.flatMap (visitEvents ex answer), post.flatMap (visitEvents ex answer), ?_, ?_⟩
  · rw [List.flatMap_append, List.flatMap_cons]
  · rintro e (he | he)
    · obtain ⟨u, hu, hmem⟩ := List.mem_flatMap.mp he
      exact ⟨u, by simp [hu], hdisj u hu t (by simp), hmem⟩
    · obtain ⟨u, hu, hmem⟩ := List.mem_flatMap.mp he
      refine ⟨u, by simp [hu], ?_, hmem⟩
      rintro rfl
      exact (List.nodup_cons.mp hnd').1 hu

/-! ### Passes that spawn nothing -/

section Quiet

variable {ex ex' : Executor} {answer : ℕ → PollAnswer} {ts : List ℕ} {hasReady : Bool}

theorem visitSpawns_of_quiet (hspawns : ∀ t ∈ ts, (answer t).spawns = []) :
    ∀ t ∈ ts, visitSpawns ex answer t = [] := by
  intro t ht
  rw [visitSpawns, hspawns t ht, ite_self]

theorem SpawnsNew.of_quiet (hspawns : ∀ t ∈ ts, (answer t).spawns = []) :
    SpawnsNew ex answer ts := by
  intro t ht c hc
  rw [visitSpawns_of_quiet hspawns t ht] at hc
  exact absurd hc List.not_mem_nil

/-- A pass in which no poll spawns keeps the tasks it does not remove, and counts the others
down. -/
theorem Executor.Queue.pass (hq : ex.Queue ts) (hspawns : ∀ t ∈ ts, (answer t).spawns = [])
    (hcode : executorPass ex answer = some (ex', hasReady)) :
    ex'.Queue (ts.filter (!removes ex answer ·)) ∧
      (ex.taskCount = .ofNat ts.length →
        ex'.taskCount = .ofNat (ts.filter (!removes ex answer ·)).length) ∧
      ∀ t ∈ ts, (ex'.tasks t).future = (ex.tasks t).future := by
  -- no poll spawns, so the sweep is a filter and the counts are those of the removals
  have hzero : ∀ t ∈ ts, spawnsOf ex answer t = 0 := by
    intro t ht
    rw [spawnsOf, visitSpawns_of_quiet hspawns t ht]
    rfl
  have hsum : (ts.map (spawnsOf ex answer)).sum = 0 := by
    rw [List.sum_eq_zero_iff_forall_eq_nat, List.forall_mem_map]
    exact hzero
  obtain ⟨ex₁, r₁, hcode₁, hholds, htop, hcount, htask⟩ := executorPass_spec hq answer
  obtain ⟨rfl, rfl⟩ : ex₁ = ex' ∧ r₁ = hasReady := by
    have heq := Option.some.inj (hcode₁.symm.trans hcode)
    exact ⟨congrArg Prod.fst heq, congrArg Prod.snd heq⟩
  have hfilter := fun t (ht : t ∈ ts.filter (!removes ex answer ·)) => mem_kept.mp ht
  refine ⟨⟨?_, fun t ht => (htask t (hfilter t ht).1).1, ?_⟩, fun hlen => ?_,
    fun t ht => (htask t ht).2⟩
  · rwa [passQueue, sweep_eq_filter _ hzero] at hholds
  · rw [List.map_congr_left fun t ht => (htask t (hfilter t ht).1).2]
    exact (List.filter_sublist.map _).nodup hq.futures_nodup
  · rw [hsum, hlen, length_eq_countP_add_filter (removes ex answer) ts, UInt32.ofNat_add]
      at hcount
    change _ = _ + (0 : UInt32) at hcount
    grind

end Quiet

/-! ### Well-formed queues stay well formed -/

namespace Executor.WellFormed

variable {ex ex' : Executor} {ts : List ℕ}

theorem init (ex : Executor) : (executorInit ex).WellFormed [] where
  holds := rfl
  lt_top := by simp
  futures_nodup := List.nodup_nil
  taskCount := rfl
  waker := by simp
  waker_inj := by simp

/-- Spawning a task for a future that is not queued. -/
theorem spawn (h : ex.WellFormed ts) {f : ℕ} (hf : ∀ t ∈ ts, (ex.tasks t).future ≠ f)
    (wakerAllocated : Bool) :
    (executorSpawn ex ⟨f, true, wakerAllocated⟩).WellFormed (ex.taskTop :: ts) := by
  have hs := executorSpawn_spec ex ⟨f, true, wakerAllocated⟩
  have htasks := executorSpawn_tasks ex f wakerAllocated
  have hfutures := executorSpawn_futures ex f wakerAllocated
  have href := executorSpawn_refCounts ex f wakerAllocated
  have hwtop := executorSpawn_wakerTop ex f wakerAllocated
  set ex' := executorSpawn ex ⟨f, true, wakerAllocated⟩
  have hc := hs.pushed none [] ts (Cursor.start h.holds) h.lt_top
  have hmap : ts.map (fun t => (ex'.tasks t).future) = ts.map fun t => (ex.tasks t).future :=
    List.map_congr_left fun t ht => hs.task t (h.lt_top t ht)
  have htop : (ex'.tasks ex.taskTop).future = f := by
    rw [htasks, Function.update_self]
  have hold : ∀ t ∈ ts, ex'.futureOf t = ex.futureOf t := by
    intro t ht
    rw [Executor.futureOf, hs.task t (h.lt_top t ht), hfutures,
      Function.update_of_ne (hf t ht)]
    rfl
  have hwaker : (ex'.futureOf ex.taskTop).waker
      = if wakerAllocated then some ex.wakerTop else none := by
    rw [Executor.futureOf, htop, hfutures, Function.update_self]
  -- the new task's waker, when there is one, is the block that `waker_create` got
  have hnew : ∀ w, (ex'.futureOf ex.taskTop).waker = some w →
      wakerAllocated = true ∧ w = ex.wakerTop := by
    intro w hw
    rw [hwaker] at hw
    cases wakerAllocated with
    | true => exact ⟨rfl, (Option.some.inj hw).symm⟩
    | false => exact absurd hw (by simp)
  constructor
  · exact ⟨hc.holds, by
      simp only [List.forall_mem_cons]
      exact ⟨by rw [hs.taskTop]; exact Nat.lt_succ_self _, fun t ht => by
        rw [hs.taskTop]
        exact Nat.lt_add_right _ (h.lt_top t ht)⟩, by
      rw [List.map_cons, hmap, htop, List.nodup_cons]
      refine ⟨fun hmem => ?_, h.futures_nodup⟩
      obtain ⟨t, ht, heq⟩ := List.mem_map.mp hmem
      exact hf t ht heq⟩
  · rw [hs.taskCount, h.taskCount, List.length_cons, UInt32.ofNat_add]
    rfl
  · simp only [List.forall_mem_cons]
    refine ⟨fun w hw => ?_, fun t ht w hw => ?_⟩
    · obtain ⟨rfl, rfl⟩ := hnew w hw
      rw [hwtop, href, if_pos rfl, if_pos rfl]
      exact ⟨Nat.lt_succ_self _, Function.update_self _ _ _⟩
    · rw [hold t ht] at hw
      obtain ⟨hlt, hone⟩ := h.waker t ht w hw
      exact ⟨hlt.trans_le hs.wakerTop_le, (hs.refCount w hlt).trans hone⟩
  · have hcross : ∀ t ∈ ts, ∀ w, (ex'.futureOf ex.taskTop).waker = some w →
        (ex'.futureOf t).waker ≠ some w := by
      intro t ht w hw hwt
      rw [hold t ht] at hwt
      have hlt := (h.waker t ht w hwt).1
      obtain ⟨-, rfl⟩ := hnew w hw
      exact lt_irrefl _ hlt
    simp only [List.forall_mem_cons]
    refine ⟨⟨fun _ _ _ => trivial, fun u hu w hw hwu => absurd hwu (hcross u hu w hw)⟩,
      fun t ht => ⟨fun w hwt hw => absurd hwt (hcross t ht w hw), fun u hu w hwt hwu => ?_⟩⟩
    rw [hold t ht] at hwt
    rw [hold u hu] at hwu
    exact h.waker_inj t ht u hu w hwt hwu

/-- A pass in which no poll spawns keeps the tasks it does not remove. -/
theorem pass (h : ex.WellFormed ts) {answer : ℕ → PollAnswer} {hasReady : Bool}
    (hspawns : ∀ t ∈ ts, (answer t).spawns = [])
    (hcode : executorPass ex answer = some (ex', hasReady)) :
    ex'.WellFormed (ts.filter (!removes ex answer ·)) := by
  obtain ⟨hq, hcount, htask⟩ := h.toQueue.pass hspawns hcode
  obtain ⟨-, hwtop, hkept⟩ := executorPass_trace h (.of_quiet hspawns) hcode
  -- a task that stays has the future it had
  have hof : ∀ t ∈ ts.filter (!removes ex answer ·), ex'.futureOf t = ex.futureOf t := by
    intro t ht
    obtain ⟨hmem, hr⟩ := mem_kept.mp ht
    rw [Executor.futureOf, htask t hmem]
    exact (hkept t hmem hr).1
  refine ⟨hq, hcount h.taskCount, ?_, ?_⟩
  · intro t ht w hw
    obtain ⟨hmem, hr⟩ := mem_kept.mp ht
    rw [hof t ht] at hw
    obtain ⟨hlt, hone⟩ := h.waker t hmem w hw
    exact ⟨hlt.trans_le hwtop, ((hkept t hmem hr).2 w hw).trans hone⟩
  · intro t ht u hu w hwt hwu
    rw [hof t ht] at hwt
    rw [hof u hu] at hwu
    exact h.waker_inj t (mem_kept.mp ht).1 u (mem_kept.mp hu).1 w hwt hwu

end Executor.WellFormed

/-- An executor with one task, for a new future of the given kind. -/
def oneTask (vtable : FutureVTable) : Executor :=
  executorSpawn
    (executorInit
      { taskQueue := none
        taskCount := 0
        shouldPoll := true
        tasks := fun _ => ⟨0, none⟩
        futures := fun _ => ⟨vtable, false, none⟩
        refCounts := fun _ => 0
        taskTop := 0
        wakerTop := 0
        trace := [] })
    ⟨0, true, true⟩

theorem oneTask_wellFormed (vtable : FutureVTable) : (oneTask vtable).WellFormed [0] :=
  (Executor.WellFormed.init _).spawn (by simp) true

end Shogun.Async
