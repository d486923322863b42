import Shogun.Async.Equiv.HeapRun

/-!
# Runs of the executor

A run starts at `executor_init` and makes calls of `executor_spawn` and passes of the inner loop of
`executor_run` whose polls leave the queue alone.

`executorRun_invariant`: as long as the blocks that a run gets are clear, no future is queued twice
and no RTC future is removed, `task_count` is the length of the queue in every state, no future was
polled after it answered `FUTURE_READY`, and such a future was cleaned up exactly once; and the next
pass, whatever the polls answer, polls the tasks that are not completed in queue order and leaves
those that answered `FUTURE_PENDING`.
-/

namespace Shogun.Async

open Memory

/-- Polls that answer and leave the queue alone. -/
def quietAnswer (answer : ℕ → FutureState) (t : ℕ) : PollAnswer := ⟨[], answer t⟩

/-- The polls of a trace, with their answers. -/
def polls (τ : List Event) : List (ℕ × FutureState) :=
  τ.filterMap fun
    | .poll f state => some (f, state)
    | _ => none

/-- A poll after one that was ready is of another future. -/
def NotPolledAgain (p q : ℕ × FutureState) : Prop := p.2 = .ready → q.1 ≠ p.1

/-! ### The events of a pass -/

section Events

variable {ex : Executor} {ts : List ℕ} {t f : ℕ}

theorem polls_append (τ τ' : List Event) : polls (τ ++ τ') = polls τ ++ polls τ' :=
  List.filterMap_append

theorem polls_releaseEvents (ex : Executor) (t : ℕ) : polls (releaseEvents ex t) = [] := by
  apply List.filterMap_eq_nil_iff.mpr
  intro e he
  rcases mem_releaseEvents he with rfl | rfl | rfl | rfl | ⟨w, -, rfl⟩ <;> rfl

/-- A visit polls the task once, unless its future is completed already. -/
theorem polls_visitEvents (answer : ℕ → PollAnswer) :
    polls (visitEvents ex answer t)
      = if (ex.futureOf t).isCompleted then [] else [((ex.tasks t).future, (answer t).state)] := by
  rw [visitEvents, polls_append]
  have hrel : polls (if removes ex answer t then releaseEvents ex t else []) = [] := by
    split
    · exact polls_releaseEvents ex t
    · rfl
  rw [hrel, List.append_nil, pollEvents]
  split <;> rfl

/-- A pass polls every task that is not completed once, in queue order. -/
theorem polls_flatMap_visitEvents (answer : ℕ → PollAnswer) (ts : List ℕ) :
    polls (ts.flatMap (visitEvents ex answer))
      = (ts.filter fun t => !(ex.futureOf t).isCompleted).map fun t =>
          ((ex.tasks t).future, (answer t).state) := by
  induction ts with
  | nil => rfl
  | cons t ts ih =>
    rw [List.flatMap_cons, polls_append, polls_visitEvents, ih]
    cases hdone : (ex.futureOf t).isCompleted with
    | true => rw [List.filter_cons_of_neg (by simp [hdone])]; rfl
    | false => rw [List.filter_cons_of_pos (by simp [hdone])]; rfl

/-- A poll in a pass is of a queued task, with its answer. -/
theorem exists_of_mem_polls {answer : ℕ → PollAnswer} {p : ℕ × FutureState}
    (h : p ∈ polls (ts.flatMap (visitEvents ex answer))) :
    ∃ t ∈ ts, (ex.tasks t).future = p.1 ∧ (answer t).state = p.2 := by
  rw [polls_flatMap_visitEvents] at h
  obtain ⟨t, ht, rfl⟩ := List.mem_map.mp h
  exact ⟨t, (List.mem_filter.mp ht).1, rfl, rfl⟩

/-- In one pass no future is polled twice. -/
theorem pairwise_polls_flatMap {answer : ℕ → PollAnswer} (hq : ex.Queue ts) :
    (polls (ts.flatMap (visitEvents ex answer))).Pairwise NotPolledAgain := by
  rw [polls_flatMap_visitEvents, List.pairwise_map]
  have hnd : ts.Pairwise fun t u => (ex.tasks t).future ≠ (ex.tasks u).future :=
    List.pairwise_map.mp hq.futures_nodup
  exact (hnd.sublist List.filter_sublist).imp fun hne _ heq => hne heq.symm

/-- A pass cleans up the futures of the tasks it removes. -/
theorem exists_of_mem_cleanup {answer : ℕ → PollAnswer}
    (h : .cleanup f ∈ ts.flatMap (visitEvents ex answer)) :
    ∃ t ∈ ts, (ex.tasks t).future = f ∧ removes ex answer t = true := by
  obtain ⟨t, ht, he⟩ := List.mem_flatMap.mp h
  rcases List.mem_append.mp he with he | he
  · rw [pollEvents] at he
    split at he <;> simp at he
  · split at he
    · rename_i hr
      rcases mem_releaseEvents he with he | he | he | he | ⟨w, -, he⟩
      · exact ⟨t, ht, (Event.cleanup.inj he).symm, hr⟩
      all_goals exact Event.noConfusion he
    · exact absurd he List.not_mem_nil

theorem count_cleanup_releaseEvents (ex : Executor) (t : ℕ) :
    (releaseEvents ex t).count (.cleanup (ex.tasks t).future) = 1 := by
  have hwaker : (wakerEvents ex t).count (.cleanup (ex.tasks t).future) = 0 := by
    apply List.count_eq_zero_of_not_mem
    intro h
    rcases mem_wakerEvents h with h | ⟨w, -, h⟩ <;> exact Event.noConfusion h
  rw [releaseEvents, List.count_append, List.count_append, hwaker, cleanupEvents]
  cases (ex.futureOf t).vtable <;> simp [FutureVTable.cleanup]

/-- A removed task is cleaned up once. -/
theorem count_cleanup_of_removed {answer : ℕ → PollAnswer} (hq : ex.Queue ts) (ht : t ∈ ts)
    (hr : removes ex answer t = true) :
    (ts.flatMap (visitEvents ex answer)).count (.cleanup (ex.tasks t).future) = 1 := by
  obtain ⟨before, after, heq, hothers⟩ :=
    flatMap_visitEvents_split ex answer hq.holds.nodup ht
  have hnot : ∀ e, (∃ u ∈ ts, u ≠ t ∧ e ∈ visitEvents ex answer u) →
      e ≠ .cleanup (ex.tasks t).future := by
    rintro e ⟨u, hu, hne, he⟩ rfl
    have hmem : .cleanup (ex.tasks t).future ∈ [u].flatMap (visitEvents ex answer) := by
      simpa using he
    obtain ⟨v, hv, hvf, -⟩ := exists_of_mem_cleanup hmem
    obtain rfl := List.mem_singleton.mp hv
    exact hne (List.inj_on_of_nodup_map hq.futures_nodup hu ht hvf)
  have hpoll : (pollEvents ex answer t).count (.cleanup (ex.tasks t).future) = 0 := by
    apply List.count_eq_zero_of_not_mem
    intro h
    rw [pollEvents] at h
    split at h <;> simp at h
  rw [heq, List.count_append, List.count_append,
    List.count_eq_zero_of_not_mem fun h => hnot _ (hothers _ (.inl h)) rfl,
    List.count_eq_zero_of_not_mem fun h => hnot _ (hothers _ (.inr h)) rfl, visitEvents, hr,
    if_pos rfl, List.count_append, hpoll, count_cleanup_releaseEvents]

end Events

/-- A pass keeps the tasks that are not completed and answer `FUTURE_PENDING`. -/
theorem removes_quietAnswer (ex : Executor) (answer : ℕ → FutureState) (t : ℕ) :
    (!removes ex (quietAnswer answer) t)
      = (!(ex.futureOf t).isCompleted && answer t = .pending) := by
  rw [removes, quietAnswer]
  cases (ex.futureOf t).isCompleted <;> cases answer t <;> rfl

/-! ### The invariant of a run -/

/-- What holds of the executor after the futures `past` were queued. -/
structure RunInv (past : List ℕ) (ex : Executor) (ts : List ℕ) : Prop where
  wellFormed : ex.WellFormed ts
  mem_past : ∀ t ∈ ts, (ex.tasks t).future ∈ past
  future : ∀ f, f ∉ past → .cleanup f ∉ ex.trace ∧ (f, .ready) ∉ polls ex.trace
  queued : ∀ t ∈ ts, .cleanup (ex.tasks t).future ∉ ex.trace
    ∧ ((ex.tasks t).future, .ready) ∉ polls ex.trace
  gone : ∀ f ∈ past, (∀ t ∈ ts, (ex.tasks t).future ≠ f) → ex.trace.count (.cleanup f) = 1
  order : (polls ex.trace).Pairwise NotPolledAgain

namespace RunInv

variable {past : List ℕ} {ex ex' : Executor} {ts : List ℕ}

theorem init (ex : Executor) : RunInv [] (executorInit ex) [] where
  wellFormed := .init ex
  mem_past := by simp
  future := fun f _ => ⟨List.not_mem_nil, List.not_mem_nil⟩
  queued := by simp
  gone := by simp
  order := List.Pairwise.nil

theorem spawn (h : RunInv past ex ts) {f : ℕ} (hf : f ∉ past) (wakerAllocated : Bool) :
    RunInv (f :: past) (executorSpawn ex ⟨f, true, wakerAllocated⟩) (ex.taskTop :: ts) := by
  have hwf := h.wellFormed
  have hs := executorSpawn_spec ex ⟨f, true, wakerAllocated⟩
  have hne : ∀ t ∈ ts, (ex.tasks t).future ≠ f := fun t ht heq => hf (heq ▸ h.mem_past t ht)
  have htop : ((executorSpawn ex ⟨f, true, wakerAllocated⟩).tasks ex.taskTop).future = f := by
    rw [executorSpawn_tasks, Function.update_self]
  have htask := fun t ht => hs.task t (hwf.lt_top t ht)
  have hnew := hwf.spawn hne wakerAllocated
  set ex' := executorSpawn ex ⟨f, true, wakerAllocated⟩
  refine ⟨hnew, ?_, ?_, ?_, ?_, ?_⟩
  · simp only [List.forall_mem_cons]
    refine ⟨by rw [htop]; exact List.mem_cons_self, fun t ht => ?_⟩
    rw [htask t ht]
    exact List.mem_cons_of_mem _ (h.mem_past t ht)
  · -- an unspawned future other than `f`
    intro g hg
    rw [hs.trace]
    exact h.future g fun hmem => hg (List.mem_cons_of_mem _ hmem)
  · rw [hs.trace]
    simp only [List.forall_mem_cons]
    refine ⟨?_, fun t ht => ?_⟩
    · rw [htop]
      exact h.future f hf
    · rw [htask t ht]
      exact h.queued t ht
  · rw [hs.trace]
    intro g hg hall
    -- `f` has a task now, so a future without one is an earlier one
    rcases List.mem_cons.mp hg with rfl | hg
    · exact absurd htop (hall _ List.mem_cons_self)
    · apply h.gone g hg
      intro t ht
      rw [← htask t ht]
      exact hall t (List.mem_cons_of_mem _ ht)
  · rw [hs.trace]
    exact h.order

theorem pass (h : RunInv past ex ts) {answer : ℕ → FutureState} {hasReady : Bool}
    (hcode : executorPass ex (quietAnswer answer) = some (ex', hasReady)) :
    RunInv past ex' (ts.filter (!removes ex (quietAnswer answer) ·)) := by
  have hwf := h.wellFormed
  obtain ⟨htrace, -, -⟩ := executorPass_trace hwf
    (fun t _ c hc => absurd hc (by simp [visitSpawns, quietAnswer])) hcode
  have hnew := hwf.pass (fun _ _ => rfl) hcode
  have htask : ∀ t ∈ ts, (ex'.tasks t).future = (ex.tasks t).future := by
    obtain ⟨ex₁, r₁, hcode₁, -, -, -, htask⟩ := executorPass_spec hwf.toQueue (quietAnswer answer)
    obtain rfl : ex₁ = ex' := congrArg Prod.fst (Option.some.inj (hcode₁.symm.trans hcode))
    exact fun t ht => (htask t ht).2
  have hkept := fun t (ht : t ∈ ts.filter (!removes ex (quietAnswer answer) ·)) => mem_kept.mp ht
  refine ⟨hnew, fun t ht => ?_, fun f hf => ?_, fun t ht => ?_, fun f hf hall => ?_, ?_⟩
  · rw [htask t (hkept t ht).1]
    exact h.mem_past t (hkept t ht).1
  · -- a future that was never queued has no events in the pass
    rw [htrace, polls_append]
    refine ⟨fun hmem => ?_, fun hmem => ?_⟩
    · rcases List.mem_append.mp hmem with hmem | hmem
      · exact (h.future f hf).1 hmem
      · obtain ⟨t, ht, rfl, -⟩ := exists_of_mem_cleanup hmem
        exact hf (h.mem_past t ht)
    · rcases List.mem_append.mp hmem with hmem | hmem
      · exact (h.future f hf).2 hmem
      · obtain ⟨t, ht, rfl, -⟩ := exists_of_mem_polls hmem
        exact hf (h.mem_past t ht)
  · -- a task that stays was not cleaned up, and if it was polled, it was pending
    obtain ⟨hts, hr⟩ := hkept t ht
    have hsame : ∀ u ∈ ts, (ex.tasks u).future = (ex.tasks t).future → u = t := fun u hu heq =>
      List.inj_on_of_nodup_map hwf.futures_nodup hu hts heq
    rw [htask t hts, htrace, polls_append]
    refine ⟨fun hmem => ?_, fun hmem => ?_⟩
    · rcases List.mem_append.mp hmem with hmem | hmem
      · exact (h.queued t hts).1 hmem
      · obtain ⟨u, hu, hfut, hru⟩ := exists_of_mem_cleanup hmem
        rw [hsame u hu hfut, hr] at hru
        exact Bool.noConfusion hru
    · rcases List.mem_append.mp hmem with hmem | hmem
      · exact (h.queued t hts).2 hmem
      · obtain ⟨u, hu, hfut, hready⟩ := exists_of_mem_polls hmem
        rw [hsame u hu hfut] at hready
        simp [removes, hready] at hr
  · rw [htrace, List.count_append]
    by_cases hq : ∃ t ∈ ts, (ex.tasks t).future = f
    · -- the task of `f` is one that the pass removes
      obtain ⟨t, ht, rfl⟩ := hq
      have hr : removes ex (quietAnswer answer) t = true := by
        by_contra hr
        refine hall t (List.mem_filter.mpr ⟨ht, by simpa using hr⟩) (htask t ht)
      rw [List.count_eq_zero_of_not_mem (h.queued t ht).1,
        count_cleanup_of_removed hwf.toQueue ht hr]
    · -- its task left in an earlier pass, and was cleaned up there
      have hnone : .cleanup f ∉ ts.flatMap (visitEvents ex (quietAnswer answer)) := by
        intro hmem
        obtain ⟨t, ht, hfut, -⟩ := exists_of_mem_cleanup hmem
        exact hq ⟨t, ht, hfut⟩
      rw [List.count_eq_zero_of_not_mem hnone,
        h.gone f hf fun t ht hfut => hq ⟨t, ht, hfut⟩]
  · -- a future that was ready before is queued no longer, so this pass does not poll it
    rw [htrace, polls_append]
    refine List.pairwise_append.mpr ⟨h.order, pairwise_polls_flatMap hwf.toQueue, ?_⟩
    intro p hp q hq hready heq
    obtain ⟨t, ht, hfut, -⟩ := exists_of_mem_polls hq
    apply (h.queued t ht).2
    rw [hfut, heq, ← hready]
    exact hp

/-- Futures that no queued task has do not matter. -/
theorem agree {n : ℕ} (h : RunInv past ex ts) (hagree : Agree n ex ex')
    (hlt : ∀ t ∈ ts, (ex.tasks t).future < n) : RunInv past ex' ts := by
  obtain ⟨futures, rfl, hfutures⟩ := hagree
  have hof : ∀ t ∈ ts, futures (ex.tasks t).future = ex.futureOf t := fun t ht =>
    hfutures _ (hlt t ht)
  refine
    { wellFormed :=
        { h.wellFormed with
          holds := h.wellFormed.holds
          waker := fun t ht w hw => h.wellFormed.waker t ht w ((hof t ht) ▸ hw)
          waker_inj := fun t ht u hu w hw hw' =>
            h.wellFormed.waker_inj t ht u hu w ((hof t ht) ▸ hw) ((hof u hu) ▸ hw') }
      mem_past := h.mem_past
      future := h.future
      queued := h.queued
      gone := h.gone
      order := h.order }

theorem count_cleanup_le_one (h : RunInv past ex ts) (f : ℕ) :
    ex.trace.count (.cleanup f) ≤ 1 := by
  by_cases hf : f ∈ past
  · by_cases hq : ∃ t ∈ ts, (ex.tasks t).future = f
    · obtain ⟨t, ht, rfl⟩ := hq
      rw [List.count_eq_zero_of_not_mem (h.queued t ht).1]
      exact Nat.zero_le 1
    · exact (h.gone f hf fun t ht hfut => hq ⟨t, ht, hfut⟩).le
  · rw [List.count_eq_zero_of_not_mem (h.future f hf).1]
    exact Nat.zero_le 1

theorem count_cleanup_of_ready (h : RunInv past ex ts) {f : ℕ}
    (hready : (f, .ready) ∈ polls ex.trace) : ex.trace.count (.cleanup f) = 1 := by
  have hf : f ∈ past := by
    by_contra hf
    exact (h.future f hf).2 hready
  apply h.gone f hf
  intro t ht hfut
  apply (h.queued t ht).2
  rw [hfut]
  exact hready

end RunInv

/-! ### The run in the heap -/

namespace HeapExecutor

/-- The polls leave the queue alone. -/
def LeavesQueue (script : ℕ → PollScript) : Prop := ∀ f g, .spawn g ∉ (script f).actions

/-- What a pass needs: its polls can do what the script says, and no RTC future is removed. -/
def PassOk (c : HeapExecutor) (script : ℕ → PollScript) : Prop :=
  c.PassMeets (scriptedPoll script) fun c l =>
    c.VisitOk (scriptedPoll script) (ScriptSafe script) l.current

/-- What a step of a run needs. -/
def StepOk (c : HeapExecutor) : RunOp (ℕ → PollScript) → Prop
  | .act a => c.Safe a ∧ c.QueuesNew a
  | .pass script => c.PassOk script

/-- What is known of a poll that leaves the queue alone. -/
def AnswersQuietly (script : ℕ → PollScript) (f : ℕ) (answer : PollAnswer) : Prop :=
  answer = ⟨[], (script f).state⟩

theorem rule_leavesQueue {script : ℕ → PollScript} (hquiet : LeavesQueue script) :
    Rule (scriptedPoll script) (ScriptSafe script) (fun _ _ c s => TaskInv c s)
      (AnswersQuietly script) where
  poll := by
    intro A σ pay c s f h hj _ hf _ hok
    rw [ScriptSafe, h.number_future hf] at hok
    have hnew := hok.and (Q := fun a => ∀ g, a ≠ .spawn g) fun a ha g heq =>
      hquiet f g (heq ▸ ha)
    obtain ⟨c', σ', pay', s', calls, hcode, h', hacted, hj', hmem, -⟩ :=
      h.scriptedPoll (J := fun _ c s => TaskInv c s) script (fun _ _ ha => ha.1)
        (fun hr hr' _ ha hdid hj => hj.did hr hr' hdid fun g hg => absurd hg (ha.2 g)) hf hj hnew
    obtain rfl : calls = [] := List.eq_nil_iff_forall_not_mem.mpr fun call hcall =>
      hquiet f _ (hmem call hcall)
    exact ⟨⟨[], (script f).state⟩, c', σ', pay', s', hcode, h', hacted, hj', rfl⟩
  settle := fun hj hset hgone => hj.settle hset hgone

/-- What holds in a run, after the futures `past` were queued: each of them is queued or gone. -/
structure RunHolds (past : List ℕ) (σ : Blocks) (pay : ℕ → List UInt32) (c : HeapExecutor)
    (s : Executor) (ts : List ℕ) : Prop where
  holding : Holding σ pay c s ts
  run : RunInv past s ts
  past : ∀ f ∈ past, (∃ t ∈ ts, (s.tasks t).future = f) ∨ .free (.future f) ∈ c.trace

namespace RunHolds

variable {past : List ℕ} {σ : Blocks} {pay : ℕ → List UInt32} {c : HeapExecutor} {s : Executor}
  {ts : List ℕ}

theorem future_lt (h : RunHolds past σ pay c s ts) :
    ∀ t ∈ ts, (s.tasks t).future < c.futures.top := fun t ht => (h.holding.future t ht).1

/-- A future that is in use and that no task has was not queued before. -/
theorem not_past (h : RunHolds past σ pay c s ts) {f : ℕ} (hnew : c.QueuesNew (.spawn f)) :
    f ∉ past := by
  obtain ⟨hf, hne⟩ := hnew f rfl
  intro hmem
  rcases h.past f hmem with ⟨t, ht, rfl⟩ | hfree
  · exact hne t (h.holding.task t ht) (h.holding.refines.taskFuture (h.holding.task t ht))
  · exact hf.2 hfree

theorem act (h : RunHolds past σ pay c s ts) {a : Action} (ha : c.Safe a) (hnew : c.QueuesNew a) :
    ∃ past' c' σ' pay' s' ts', c.act a = some c' ∧ RunHolds past' σ' pay' c' s' ts' := by
  obtain ⟨c', σ', pay', s', calls, hcode, hdid, h'⟩ := h.holding.act ha hnew
  have hagree := hdid.acted.agree
  have htrace := hdid.acted.grows.trace
  -- no task is queued
  have hsame : Agree c.futures.top s s' → spawnCount calls = 0 →
      ∃ past' c' σ' pay' s' ts', c.act a = some c' ∧ RunHolds past' σ' pay' c' s' ts' := by
    intro hagree hcount
    rw [hcount] at h'
    refine ⟨past, c', σ', pay', s', ts, hcode, h', h.run.agree hagree h.future_lt, ?_⟩
    rw [hagree.tasks, htrace]
    exact h.past
  cases hdid.calls with
  | none _ => exact hsame hagree rfl
  | @spawn call hcall =>
    obtain ⟨f, taskAllocated, wakerAllocated⟩ := call
    cases taskAllocated with
    | false => exact hsame hagree rfl
    | true =>
      have hspawn := h.run.spawn (h.not_past hnew) wakerAllocated
      have htop : ((Async.executorSpawn s ⟨f, true, wakerAllocated⟩).tasks s.taskTop).future
          = f := by
        rw [executorSpawn_tasks, Function.update_self]
      have hold : ∀ t ∈ ts, ((Async.executorSpawn s ⟨f, true, wakerAllocated⟩).tasks t).future
          = (s.tasks t).future := fun t ht =>
        (executorSpawn_spec s _).task t (h.holding.queue.lt_top t ht)
      refine ⟨f :: past, c', σ', pay', s', s.taskTop :: ts, hcode, h',
        hspawn.agree hagree fun t ht => ?_, ?_⟩
      · rcases List.mem_cons.mp ht with rfl | ht
        · rw [htop]
          exact (hnew f rfl).1.1
        · rw [hold t ht]
          exact h.future_lt t ht
      · rw [hagree.tasks, htrace]
        simp only [List.forall_mem_cons]
        refine ⟨.inl ⟨_, List.mem_cons_self, htop⟩, fun g hg => (h.past g hg).imp_left ?_⟩
        rintro ⟨t, ht, rfl⟩
        exact ⟨t, List.mem_cons_of_mem _ ht, hold t ht⟩

/-- A removed task's future is freed. -/
theorem free_mem_visitEvents {answer : ℕ → PollAnswer} {t : ℕ} (hr : removes s answer t = true) :
    .free (.future (s.tasks t).future) ∈ visitEvents s answer t := by
  rw [visitEvents, hr, if_pos rfl, releaseEvents]
  simp

/-- What is known of the answers of a pass whose polls leave the queue alone. -/
theorem eq_quietAnswer {script : ℕ → PollScript} {answer : ℕ → PollAnswer}
    (hR : Answered (AnswersQuietly script) s ts answer) :
    answer = quietAnswer fun t => (answer t).state := by
  funext t
  by_cases ht : t ∈ ts ∧ (s.futureOf t).isCompleted = false
  · rw [quietAnswer, hR.polled t ht.1 ht.2]
  · rw [quietAnswer, hR.other t fun hmem => by
      rw [not_and, Bool.not_eq_false] at ht
      exact ht hmem]

/-- A pass whose polls leave the queue alone. -/
theorem pass (h : RunHolds past σ pay c s ts) {script : ℕ → PollScript}
    (hquiet : LeavesQueue script) (hok : c.PassOk script) :
    ∃ answer c' hasReady σ' pay' s', c.executorPass (scriptedPoll script) = some (c', hasReady) ∧
      c'.trace = c.trace ++ ts.flatMap (visitEvents s (quietAnswer answer)) ∧
      c.tasks.Grows c'.tasks ∧
      (∀ t ∈ ts, (s.futureOf t).isCompleted = false →
        answer t = (script (s.tasks t).future).state) ∧
      RunHolds past σ' pay' c' s' (ts.filter (!removes s (quietAnswer answer) ·)) := by
  obtain ⟨answer, c', hasReady, σ', pay', s', s₀', hcode, habs, hagree, -, hR, hgrows, hfutures,
    h'⟩ := h.holding.pass (A := Set.univ) (rule_leavesQueue hquiet) id h.holding.inv
      (fun _ _ => Set.mem_univ _) hok
  -- polls that spawn nothing are known by their answers alone
  have heq := eq_quietAnswer hR
  generalize hans : (fun t => (answer t).state) = states at heq
  subst heq
  have hrun := h.run.pass habs
  have hqueue : passQueue s (quietAnswer states) ts
      = ts.filter (!removes s (quietAnswer states) ·) :=
    (hagree.links ▸ h'.holds).unique hrun.wellFormed.holds
  obtain ⟨htrace, -, -⟩ := executorPass_trace h.run.wellFormed
    (fun t _ call hcall => absurd hcall (by simp [visitSpawns, quietAnswer])) habs
  obtain ⟨s₁, r, habs', -, -, -, htask⟩ := executorPass_spec h.holding.queue (quietAnswer states)
  obtain ⟨rfl, -⟩ := Prod.mk.inj (Option.some.inj (habs.symm.trans habs'))
  have hevents : c'.trace = c.trace ++ ts.flatMap (visitEvents s (quietAnswer states)) := by
    rw [h'.refines.trace, h.holding.refines.trace, ← htrace]
    obtain ⟨futures, rfl, -⟩ := hagree
    rfl
  rw [hqueue] at h'
  refine ⟨states, c', hasReady, σ', pay', s', hcode, hevents, hgrows, fun t ht hdone => ?_, h',
    hrun.agree hagree fun t ht => ?_, fun f hf => ?_⟩
  · exact congrArg PollAnswer.state (hR.polled t ht hdone)
  · obtain ⟨hts, -⟩ := mem_kept.mp ht
    rw [(htask t hts).2]
    exact h.future_lt t hts
  · rw [hevents, hagree.tasks]
    rcases h.past f hf with ⟨t, ht, rfl⟩ | hfree
    · cases hr : removes s (quietAnswer states) t with
      | true =>
        exact .inr (List.mem_append_right _
          (List.mem_flatMap.mpr ⟨t, ht, free_mem_visitEvents hr⟩))
      | false => exact .inl ⟨t, mem_kept.mpr ⟨ht, hr⟩, (htask t ht).2⟩
    · exact .inr (List.mem_append_left _ hfree)

/-- A run keeps the invariant. -/
theorem runs (h : RunHolds past σ pay c s ts) (ops : List (RunOp (ℕ → PollScript)))
    (hquiet : ∀ script, .pass script ∈ ops → LeavesQueue script)
    (hok : c.RunMeets scriptedPoll StepOk ops) :
    ∃ past' c' σ' pay' s' ts', c.run scriptedPoll ops = some c' ∧
      RunHolds past' σ' pay' c' s' ts' := by
  induction ops generalizing past σ pay c s ts with
  | nil => exact ⟨past, c, σ, pay, s, ts, rfl, h⟩
  | cons op ops ih =>
    obtain ⟨hop, hrest⟩ := hok
    have hquiet' : ∀ script, .pass script ∈ ops → LeavesQueue script := fun script hmem =>
      hquiet script (List.mem_cons_of_mem _ hmem)
    have hnext : ∃ past₁ c₁ σ₁ pay₁ s₁ ts₁, c.runStep scriptedPoll op = some c₁ ∧
        RunHolds past₁ σ₁ pay₁ c₁ s₁ ts₁ := by
      cases op with
      | act a => exact h.act hop.1 hop.2
      | pass script =>
        obtain ⟨answer, c₁, r, σ₁, pay₁, s₁, hcode, -, -, -, h₁⟩ :=
          h.pass (hquiet script List.mem_cons_self) hop
        exact ⟨past, c₁, σ₁, pay₁, s₁, _, congrArg (Option.map Prod.fst) hcode, h₁⟩
    obtain ⟨past₁, c₁, σ₁, pay₁, s₁, ts₁, hcode, h₁⟩ := hnext
    obtain ⟨past', c', σ', pay', s', ts', hrun, h'⟩ := ih h₁ hquiet' (hrest c₁ hcode)
    refine ⟨past', c', σ', pay', s', ts', ?_, h'⟩
    rw [HeapExecutor.run, hcode]
    exact hrun

end RunHolds

theorem filter_map_of_eq {α β : Type*} {P : β → Bool} {Q : α → Bool} {f : α → β} {xs : List α}
    (h : ∀ x ∈ xs, P (f x) = Q x) : (xs.map f).filter P = (xs.filter Q).map f := by
  rw [List.filter_map]
  exact congrArg (List.map f) (List.filter_congr h)

/-- What a pass should do: it polls the tasks at `ps` that are not completed once each, in
queue order, and leaves those that answer `FUTURE_PENDING`, in their order. -/
def PassFilters (c : HeapExecutor) (ps : List UInt32) (script : ℕ → PollScript) : Prop :=
  ∃ c' hasReady τ, c.executorPass (scriptedPoll script) = some (c', hasReady) ∧
    c'.trace = c.trace ++ τ ∧
    polls τ = (ps.filter fun p => !c.completed p).map
      (fun p => (c.futureOf p, (script (c.futureOf p)).state)) ∧
    c'.links.Holds
      (ps.filter fun p => !c.completed p && (script (c.futureOf p)).state = .pending)

/-- What should hold in every state of a run, with the tasks at `ps` queued. -/
structure RunKeeps (c : HeapExecutor) (ps : List UInt32) : Prop where
  holds : c.links.Holds ps
  taskCount : c.taskCount = UInt32.ofNat ps.length
  order : (polls c.trace).Pairwise NotPolledAgain
  cleanup_le : ∀ f, c.trace.count (.cleanup f) ≤ 1
  cleanup : ∀ f, (f, .ready) ∈ polls c.trace → c.trace.count (.cleanup f) = 1
  pass : ∀ script, LeavesQueue script → c.PassOk script → c.PassFilters ps script

end HeapExecutor

open HeapExecutor

instance (c : HeapExecutor) (script : ℕ → PollScript) : Decidable (c.PassOk script) :=
  inferInstanceAs (Decidable (c.PassMeets _ _))

instance (c : HeapExecutor) : DecidablePred c.StepOk
  | .act _ => inferInstanceAs (Decidable (_ ∧ _))
  | .pass _ => inferInstanceAs (Decidable (c.PassOk _))

/-- **The executor's run invariant**, in every run whose blocks are clear.  In every state the queue
is counted by `task_count`, no future was polled after it answered `FUTURE_READY`, and such a future
was cleaned up exactly once; and whatever the next pass answers, it polls the queued tasks that are
not completed once each in queue order and leaves exactly those that answered `FUTURE_PENDING`, in
their order. -/
theorem executorRun_invariant {m : HeapState} (hm : m.Sound)
    (ops : List (RunOp (ℕ → PollScript)))
    (hquiet : ∀ script, .pass script ∈ ops → LeavesQueue script)
    (hok : (boot m).executorInit.RunMeets scriptedPoll StepOk ops) :
    ∃ c ps, (boot m).executorInit.run scriptedPoll ops = some c ∧ c.RunKeeps ps := by
  have hinit : RunHolds [] (fun _ => none) (fun _ => []) (boot m).executorInit
      (Async.executorInit Holding.noBlocks) [] := ⟨.init hm, .init _, nofun⟩
  obtain ⟨past, c, σ, pay, s, ts, hcode, h⟩ := hinit.runs ops hquiet hok
  have hr := h.holding.refines
  have htrace := hr.trace
  refine ⟨c, ts.map c.tasks.addr, hcode, h.holding.links.1, ?_, ?_, ?_, ?_, ?_⟩
  · rw [hr.taskCount, List.length_map]
    exact h.run.wellFormed.taskCount
  · rw [htrace]
    exact h.run.order
  · rw [htrace]
    exact h.run.count_cleanup_le_one
  · rw [htrace]
    exact fun f hf => h.run.count_cleanup_of_ready hf
  · intro script hquiet hok
    obtain ⟨answer, c', hasReady, σ', pay', s', hcode, hevents, hgrows, hans, h'⟩ :=
      h.pass hquiet hok
    have hfut : ∀ t ∈ ts, c.futureOf (c.tasks.addr t) = (s.tasks t).future := fun t ht =>
      hr.futureOf_addr (h.holding.task t ht) (h.holding.future t ht)
    have hdone : ∀ t ∈ ts, c.completed (c.tasks.addr t) = (s.futureOf t).isCompleted := fun t ht =>
      hr.completed_addr (h.holding.task t ht) (h.holding.future t ht)
    refine ⟨c', hasReady, _, hcode, hevents, ?_, ?_⟩
    · have hpolled : ∀ t ∈ ts, (!c.completed (c.tasks.addr t)) = !(s.futureOf t).isCompleted :=
        fun t ht => congrArg not (hdone t ht)
      rw [polls_flatMap_visitEvents, filter_map_of_eq (P := fun p => !c.completed p) hpolled,
        List.map_map]
      refine List.map_congr_left fun t ht => ?_
      obtain ⟨hts, hnot⟩ := List.mem_filter.mp ht
      rw [Function.comp, hfut t hts, ← hans t hts (by simpa using hnot)]
      rfl
    · have hkept : ∀ t ∈ ts, (!c.completed (c.tasks.addr t) &&
          decide ((script (c.futureOf (c.tasks.addr t))).state = .pending))
            = !removes s (quietAnswer answer) t := by
        intro t ht
        rw [removes_quietAnswer, hdone t ht, hfut t ht]
        cases hd : (s.futureOf t).isCompleted with
        | true => rfl
        | false => rw [hans t ht hd]
      rw [filter_map_of_eq (f := c.tasks.addr) hkept, List.map_congr_left fun t ht =>
        (hgrows.addr t (h.holding.task t (mem_kept.mp ht).1).1).symm]
      exact h'.holding.links.1

/-- A run that removes one of two tasks, and creates and queues futures between its passes. -/
def HeapExecutor.twoPasses : List (RunOp (ℕ → PollScript)) :=
  [.act (.create .sleepFuture 16), .act (.spawn 0), .act (.createSerialWrite 7 3), .act (.spawn 1),
    .pass fun f => ⟨[.malloc 20], if f = 0 then .ready else .pending⟩,
    .act (.create .asyncRtcFuture 28), .act (.spawn 2), .pass fun _ => ⟨[], .pending⟩]

theorem executorRun_invariant_twoPasses :
    ∃ c ps, (boot emptyMemory).executorInit.run scriptedPoll twoPasses = some c ∧ c.RunKeeps ps :=
  executorRun_invariant (by decide +kernel) twoPasses (by simp [twoPasses, LeavesQueue])
    (by decide +kernel)

/-- The heap is nearly full.  The task that the pass removes leaves a segment that is recorded four
bytes too long, and the block of the next task ends in the header of another segment: the next call
of `malloc` overwrites the link to the task that is left, and the queue is no longer as long as
`task_count` says. -/
theorem not_runKeeps_nearlyFull :
    ∃ c, (boot emptyMemory).executorInit.run scriptedPoll
        [.act (.malloc 886), .act (.create .sleepFuture 16), .act (.spawn 0),
          .act (.create .sleepFuture 16), .act (.spawn 1),
          .pass fun f => ⟨[], if f = 0 then .ready else .pending⟩, .act (.create .sleepFuture 16),
          .act (.spawn 2), .act (.create .sleepFuture 16)] = some c
      ∧ c.links.Holds [4168, 4096, 4172] ∧ c.taskCount = 2 ∧ ∀ ps, ¬ c.RunKeeps ps := by
  have hcode : ((boot emptyMemory).executorInit.run scriptedPoll
        [.act (.malloc 886), .act (.create .sleepFuture 16), .act (.spawn 0),
          .act (.create .sleepFuture 16), .act (.spawn 1),
          .pass fun f => ⟨[], if f = 0 then .ready else .pending⟩, .act (.create .sleepFuture 16),
          .act (.spawn 2), .act (.create .sleepFuture 16)]).map
      (fun c => (decide (c.links.Holds [4168, 4096, 4172]), c.taskCount)) = some (true, 2) := by
    decide +kernel
  obtain ⟨c, hcode, hend⟩ := Option.map_eq_some_iff.mp hcode
  obtain ⟨hholds, hcount⟩ := Prod.mk.inj hend
  refine ⟨c, hcode, of_decide_eq_true hholds, hcount, fun ps h => ?_⟩
  have hlen := h.taskCount
  rw [h.holds.unique (of_decide_eq_true hholds), hcount] at hlen
  exact absurd hlen (by decide)

end Shogun.Async
