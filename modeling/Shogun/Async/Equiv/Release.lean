import Shogun.Async.Equiv.Pass

/-!
# Who frees a task's blocks

`executor_run` frees the waker, the future and the task of a task it removes, after it has called
the `cleanup` of the vtable.  `cleanup` is to release what the future holds; that of the sleep and
serial futures does nothing, but `async_rtc_future_cleanup` frees the future itself.

`releasedOnce_iff`: in a pass over any well-formed queue the blocks of removed tasks are freed once
each, futures are not read after they are freed, and the blocks of the others are left alone,
exactly when no removed task has an async RTC future.
-/

namespace Shogun.Async

/-- In the trace `τ` each block of `t` is freed exactly once, and `future->waker` is not read after
the future was freed. -/
def ReleasedOnce (ex : Executor) (τ : List Event) (t : ℕ) : Prop :=
  τ.count (.free (.task t)) = 1
    ∧ τ.count (.free (.future (ex.tasks t).future)) = 1
    ∧ (∀ w, (ex.futureOf t).waker = some w → τ.count (.free (.waker w)) = 1)
    ∧ ∀ pre post, τ = pre ++ .free (.future (ex.tasks t).future) :: post →
        .readWaker (ex.tasks t).future ∉ post

/-- In the trace `τ` no block of `t` is freed. -/
def NotFreed (ex : Executor) (τ : List Event) (t : ℕ) : Prop :=
  .free (.task t) ∉ τ
    ∧ .free (.future (ex.tasks t).future) ∉ τ
    ∧ ∀ w, (ex.futureOf t).waker = some w → .free (.waker w) ∉ τ

/-! ### The events of one task -/

section Events

variable {ex : Executor} {t : ℕ}

theorem cleanupEvents_of_ne (h : (ex.futureOf t).vtable ≠ .asyncRtcFuture) :
    cleanupEvents ex t = [.cleanup (ex.tasks t).future] := by
  rw [cleanupEvents]
  cases hv : (ex.futureOf t).vtable with
  | sleepFuture => rfl
  | asyncSerialWrite => rfl
  | asyncRtcFuture => exact absurd hv h

theorem cleanupEvents_of_eq (h : (ex.futureOf t).vtable = .asyncRtcFuture) :
    cleanupEvents ex t = [.cleanup (ex.tasks t).future, .free (.future (ex.tasks t).future)] := by
  rw [cleanupEvents, h]
  rfl

/-- The release of the waker frees no future and no task. -/
theorem free_notMem_wakerEvents {b : Block} (h : ∀ w, b ≠ .waker w) :
    .free b ∉ wakerEvents ex t := by
  intro hmem
  rcases mem_wakerEvents hmem with heq | ⟨w, -, heq⟩
  · exact Event.noConfusion heq
  · exact h w (Event.free.inj heq)

theorem count_free_wakerEvents {w : ℕ} (hw : (ex.futureOf t).waker = some w)
    (hone : ex.refCounts w = 1) : (wakerEvents ex t).count (.free (.waker w)) = 1 := by
  rw [wakerEvents, hw]
  simp [hone]

end Events

/-! ### The trace of a pass, split at one task -/

section Trace

variable {ex : Executor} {answer : ℕ → PollAnswer} {ts : List ℕ} {t : ℕ}

/-- The blocks of different tasks are different, so the events of the other tasks free no block of
`t` and do not read its future. -/
theorem others_leave_alone (hwf : ex.WellFormed ts) (ht : t ∈ ts) {e : Event}
    (h : ∃ u ∈ ts, u ≠ t ∧ e ∈ visitEvents ex answer u) :
    e ≠ .free (.task t) ∧ e ≠ .free (.future (ex.tasks t).future)
      ∧ e ≠ .readWaker (ex.tasks t).future
      ∧ ∀ w, (ex.futureOf t).waker = some w → e ≠ .free (.waker w) := by
  obtain ⟨u, hu, hne, he⟩ := h
  have hfut : (ex.tasks u).future ≠ (ex.tasks t).future := fun heq =>
    hne (List.inj_on_of_nodup_map hwf.futures_nodup hu ht heq)
  have hwaker : ∀ w, (ex.futureOf t).waker = some w → (ex.futureOf u).waker ≠ some w :=
    fun w hwt hwu => hne (hwf.waker_inj u hu t ht w hwu hwt)
  rcases mem_visitEvents he with ⟨state, rfl⟩ | rfl | rfl | rfl | rfl | ⟨w, hw, rfl⟩
  · exact ⟨by simp, by simp, by simp, fun _ _ => by simp⟩
  · exact ⟨by simp, by simp, by simp, fun _ _ => by simp⟩
  · exact ⟨by simp, by simp, by simpa using hfut, fun _ _ => by simp⟩
  · exact ⟨by simp, by simpa using hfut, by simp, fun _ _ => by simp⟩
  · exact ⟨by simpa using hne, by simp, by simp, fun _ _ => by simp⟩
  · refine ⟨by simp, by simp, by simp, fun v hv heq => ?_⟩
    obtain rfl : w = v := by simpa using heq
    exact hwaker w hv hw

theorem notFreed_of_kept (hwf : ex.WellFormed ts) (ht : t ∈ ts)
    (hr : removes ex answer t = false) :
    NotFreed ex (ts.flatMap (visitEvents ex answer)) t := by
  obtain ⟨before, after, heq, hothers⟩ :=
    flatMap_visitEvents_split ex answer hwf.holds.nodup ht
  have hown : ∀ b, .free b ∉ visitEvents ex answer t := by
    intro b
    rw [visitEvents, hr]
    simpa using free_notMem_pollEvents ex answer t b
  have key : ∀ b, .free b ∈ ts.flatMap (visitEvents ex answer) →
      ∃ u ∈ ts, u ≠ t ∧ .free b ∈ visitEvents ex answer u := by
    intro b hb
    rw [heq, List.mem_append, List.mem_append] at hb
    rcases hb with hb | hb | hb
    · exact hothers _ (.inl hb)
    · exact absurd hb (hown b)
    · exact hothers _ (.inr hb)
  refine ⟨fun h => ?_, fun h => ?_, fun w hw h => ?_⟩
  · exact (others_leave_alone hwf ht (key _ h)).1 rfl
  · exact (others_leave_alone hwf ht (key _ h)).2.1 rfl
  · exact (others_leave_alone hwf ht (key _ h)).2.2.2 w hw rfl

/-- The count of an event that only the visit to `t` can produce. -/
theorem count_flatMap_visitEvents {before after : List Event} {e : Event}
    (hbefore : e ∉ before) (hafter : e ∉ after) (es : List Event) :
    (before ++ (es ++ after)).count e = es.count e := by
  rw [List.count_append, List.count_append, List.count_eq_zero_of_not_mem hbefore,
    List.count_eq_zero_of_not_mem hafter, Nat.zero_add, Nat.add_zero]

/-- A removed task whose `cleanup` frees nothing is released once. -/
theorem releasedOnce_of_removed (hwf : ex.WellFormed ts) (ht : t ∈ ts)
    (hr : removes ex answer t = true) (hv : (ex.futureOf t).vtable ≠ .asyncRtcFuture) :
    ReleasedOnce ex (ts.flatMap (visitEvents ex answer)) t := by
  obtain ⟨before, after, heq, hothers⟩ :=
    flatMap_visitEvents_split ex answer hwf.holds.nodup ht
  have hown : visitEvents ex answer t = pollEvents ex answer t
      ++ (.cleanup (ex.tasks t).future :: wakerEvents ex t)
      ++ [.free (.future (ex.tasks t).future), .free (.task t)] := by
    rw [visitEvents, hr, if_pos rfl, releaseEvents, cleanupEvents_of_ne hv]
    simp
  have hpoll := fun b => List.count_eq_zero_of_not_mem (free_notMem_pollEvents ex answer t b)
  have hwaker : ∀ b : Block, (∀ w, b ≠ .waker w) → (wakerEvents ex t).count (.free b) = 0 :=
    fun b hb => List.count_eq_zero_of_not_mem (free_notMem_wakerEvents hb)
  -- the visits of the other tasks leave the blocks of this one alone
  have hbefore := fun e h => others_leave_alone hwf ht (hothers e (.inl h))
  have hafter := fun e h => others_leave_alone hwf ht (hothers e (.inr h))
  have hcount : ∀ b : Block, .free b ∉ before → .free b ∉ after →
      (ts.flatMap (visitEvents ex answer)).count (.free b)
        = (wakerEvents ex t).count (.free b)
          + [Event.free (.future (ex.tasks t).future), .free (.task t)].count (.free b) := by
    intro b hb ha
    rw [heq, count_flatMap_visitEvents hb ha, hown, List.count_append, List.count_append, hpoll,
      Nat.zero_add, List.count_cons_of_ne (by simp)]
  refine ⟨?_, ?_, fun w hw => ?_, fun pre post hsplit => ?_⟩
  · rw [hcount _ (fun h => (hbefore _ h).1 rfl) (fun h => (hafter _ h).1 rfl), hwaker _ (by simp)]
    simp
  · rw [hcount _ (fun h => (hbefore _ h).2.1 rfl) (fun h => (hafter _ h).2.1 rfl),
      hwaker _ (by simp)]
    simp
  · rw [hcount _ (fun h => (hbefore _ h).2.2.2 w hw rfl) (fun h => (hafter _ h).2.2.2 w hw rfl),
      count_free_wakerEvents hw (hwf.waker t ht w hw).2]
    simp
  · -- the future is freed once, so what follows is the rest of this visit and the later ones
    have hshape : ts.flatMap (visitEvents ex answer)
        = (before ++ pollEvents ex answer t ++ (.cleanup (ex.tasks t).future :: wakerEvents ex t))
          ++ .free (.future (ex.tasks t).future) :: (.free (.task t) :: after) := by
      rw [heq, hown]
      simp
    have hfront : .free (.future (ex.tasks t).future) ∉ before ++ pollEvents ex answer t
        ++ (.cleanup (ex.tasks t).future :: wakerEvents ex t) := by
      rw [List.mem_append, List.mem_append, List.mem_cons]
      rintro ((h | h) | h | h)
      · exact (hbefore _ h).2.1 rfl
      · exact free_notMem_pollEvents ex answer t _ h
      · exact Event.noConfusion h
      · exact free_notMem_wakerEvents (by simp) h
    have hback : .free (.future (ex.tasks t).future) ∉ .free (.task t) :: after := by
      rw [List.mem_cons]
      rintro (h | h)
      · simp at h
      · exact (hafter _ h).2.1 rfl
    obtain ⟨-, -, rfl⟩ :=
      (List.append_cons_inj_of_notMem hfront hback).mp (hshape.symm.trans hsplit)
    rw [List.mem_cons]
    rintro (h | h)
    · simp at h
    · exact (hafter _ h).2.2.1 rfl

/-- A removed RTC future is freed by its `cleanup` and again by `executor_run`. -/
theorem count_free_of_rtc (hwf : ex.WellFormed ts) (ht : t ∈ ts)
    (hr : removes ex answer t = true) (hv : (ex.futureOf t).vtable = .asyncRtcFuture) :
    (ts.flatMap (visitEvents ex answer)).count (.free (.future (ex.tasks t).future)) = 2 := by
  obtain ⟨before, after, heq, hothers⟩ :=
    flatMap_visitEvents_split ex answer hwf.holds.nodup ht
  rw [heq, count_flatMap_visitEvents (fun h => (others_leave_alone hwf ht (hothers _ (.inl h))).2.1
    rfl) (fun h => (others_leave_alone hwf ht (hothers _ (.inr h))).2.1 rfl), visitEvents, hr,
    if_pos rfl, releaseEvents, cleanupEvents_of_eq hv, List.count_append, List.count_append,
    List.count_append, List.count_eq_zero_of_not_mem (free_notMem_pollEvents ex answer t _),
    List.count_eq_zero_of_not_mem (free_notMem_wakerEvents (by simp))]
  simp

end Trace

/-- **A pass releases every removed task exactly once if and only if none of them has an async RTC
future.**  Its blocks are each passed to `free` once, its future is not read afterwards, and no
block of a task that stays is freed. -/
theorem releasedOnce_iff {ex : Executor} {ts : List ℕ} (answer : ℕ → PollAnswer)
    (hwf : ex.WellFormed ts) (hnew : SpawnsNew ex answer ts) :
    ∃ ex' hasReady ts' τ, executorPass ex answer = some (ex', hasReady)
      ∧ ex'.links.Holds ts' ∧ ex'.trace = ex.trace ++ τ
      ∧ (((∀ t ∈ ts, t ∉ ts' → ReleasedOnce ex τ t) ∧ ∀ t ∈ ts, t ∈ ts' → NotFreed ex τ t)
        ↔ ∀ t ∈ ts, removes ex answer t → (ex.futureOf t).vtable ≠ .asyncRtcFuture) := by
  obtain ⟨ex', hasReady, hcode, hholds, -⟩ := executorPass_spec hwf.toQueue answer
  obtain ⟨htrace, -, -⟩ := executorPass_trace hwf hnew hcode
  refine ⟨ex', hasReady, _, _, hcode, hholds, htrace, ?_⟩
  have hmem := fun t (ht : t ∈ ts) => mem_passQueue_iff hwf.toQueue answer ht
  constructor
  · -- the RTC future is freed by its cleanup and once more by the executor
    rintro ⟨hreleased, -⟩ t ht hr hv
    have honce := (hreleased t ht (by rw [hmem t ht, hr]; simp)).2.1
    rw [count_free_of_rtc hwf ht hr hv] at honce
    omega
  · intro hv
    refine ⟨fun t ht hout => ?_, fun t ht hin => ?_⟩
    · have hr : removes ex answer t = true := by
        rw [hmem t ht] at hout
        simpa using hout
      exact releasedOnce_of_removed hwf ht hr (hv t ht hr)
    · exact notFreed_of_kept hwf ht ((hmem t ht).mp hin)

theorem releasedOnce_iff_oneTask :
    ∃ ex' hasReady ts' τ, executorPass (oneTask .sleepFuture) (fun _ => ⟨[], .ready⟩)
        = some (ex', hasReady)
      ∧ ex'.links.Holds ts' ∧ ex'.trace = (oneTask .sleepFuture).trace ++ τ
      ∧ (∀ t ∈ [0], t ∉ ts' → ReleasedOnce (oneTask .sleepFuture) τ t)
      ∧ ∀ t ∈ [0], t ∈ ts' → NotFreed (oneTask .sleepFuture) τ t := by
  obtain ⟨ex', hasReady, ts', τ, hcode, hholds, htrace, hiff⟩ :=
    releasedOnce_iff (fun _ => ⟨[], .ready⟩) (oneTask_wellFormed .sleepFuture)
      (by intro t ht c hc; revert hc; simp [visitSpawns])
  refine ⟨ex', hasReady, ts', τ, hcode, hholds, htrace, hiff.mpr fun t ht _ => ?_⟩
  obtain rfl := List.mem_singleton.mp ht
  decide

/-- The one task reads an RTC clock and is ready: its future is freed by `cleanup`, read three times
and freed again. -/
theorem not_releasedOnce_oneTask :
    ∃ ex', executorPass (oneTask .asyncRtcFuture) (fun _ => ⟨[], .ready⟩) = some (ex', false)
      ∧ ex'.links.Holds []
      ∧ ex'.trace = (oneTask .asyncRtcFuture).trace ++ [.poll 0 .ready, .cleanup 0,
          .free (.future 0), .readWaker 0, .readWaker 0, .readWaker 0, .free (.waker 0),
          .free (.future 0), .free (.task 0)]
      ∧ ¬ ∀ t ∈ [0], t ∉ [] → ReleasedOnce (oneTask .asyncRtcFuture)
          [.poll 0 .ready, .cleanup 0, .free (.future 0), .readWaker 0, .readWaker 0,
            .readWaker 0, .free (.waker 0), .free (.future 0), .free (.task 0)] t := by
  refine ⟨_, rfl, rfl, rfl, fun h => ?_⟩
  have honce := (h 0 (by simp) (by simp)).2.1
  exact absurd honce (by decide)

end Shogun.Async
