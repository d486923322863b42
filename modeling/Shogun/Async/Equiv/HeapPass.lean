import Shogun.Async.Equiv.HeapSpawn
import Shogun.Async.Equiv.Pass

/-!
# A pass in the heap

`Rule` is what a poll function must do for a pass over the heap to be a pass of the abstract
executor.

* `Refines.releaseTask`: a removed task and its future are given back to the allocator.
* `Refines.visitTask`: the body of the walk.
* `Refines.executorPass`: a pass.
-/

namespace Shogun.Async

open Memory Memory.HeapState LinkedList LinkedList.Links

namespace HeapExecutor

variable {σ : Blocks} {pay : ℕ → List UInt32} {c c₁ c₂ : HeapExecutor} {s s₁ s₂ : Executor}
  {t f : ℕ} {b : Block}

/-- `c'` holds `s'` as `c` holds `s`, without the tasks and futures in `gone`; wakers may be gone
too. -/
structure Settled (c : HeapExecutor) (s : Executor) (gone : Set Block) (c' : HeapExecutor)
    (s' : Executor) : Prop where
  tasks : c'.tasks = c.tasks
  futures : c'.futures = c.futures
  wakers : c'.wakers = c.wakers
  log : c'.log = c.log
  task : ∀ t, c'.Live (.task t) ↔ c.Live (.task t) ∧ .task t ∉ gone
  future : ∀ f, c'.Live (.future f) ↔ c.Live (.future f) ∧ .future f ∉ gone
  taskFuture : ∀ t, (s'.tasks t).future = (s.tasks t).future
  vtable : ∀ f, (s'.futures f).vtable = (s.futures f).vtable

namespace Settled

variable {gone gone' : Set Block}

theorem refl (c : HeapExecutor) (s : Executor) : Settled c s ∅ c s :=
  ⟨rfl, rfl, rfl, rfl, fun _ => by simp, fun _ => by simp, fun _ => rfl, fun _ => rfl⟩

theorem trans (h : Settled c s gone c₁ s₁) (h' : Settled c₁ s₁ gone' c₂ s₂) :
    Settled c s (gone ∪ gone') c₂ s₂ where
  tasks := h'.tasks.trans h.tasks
  futures := h'.futures.trans h.futures
  wakers := h'.wakers.trans h.wakers
  log := h'.log.trans h.log
  task := fun t => by rw [h'.task, h.task, Set.mem_union, not_or, and_assoc]
  future := fun f => by rw [h'.future, h.future, Set.mem_union, not_or, and_assoc]
  taskFuture := fun t => (h'.taskFuture t).trans (h.taskFuture t)
  vtable := fun f => (h'.vtable f).trans (h.vtable f)

/-- The blocks `bs` were freed, and other events emitted. -/
theorem of_trace {v : List Event} {c' : HeapExecutor} {s' : Executor}
    (ht : c'.tasks = c.tasks) (hf : c'.futures = c.futures) (hw : c'.wakers = c.wakers)
    (hl : c'.log = c.log) (htrace : c'.trace = c.trace ++ v)
    (htask : ∀ t, .free (.task t) ∈ v ↔ .task t ∈ gone)
    (hfuture : ∀ f, .free (.future f) ∈ v ↔ .future f ∈ gone)
    (hs : ∀ t, (s'.tasks t).future = (s.tasks t).future)
    (hv : ∀ f, (s'.futures f).vtable = (s.futures f).vtable) : Settled c s gone c' s' where
  tasks := ht
  futures := hf
  wakers := hw
  log := hl
  task := by
    intro t
    show t < c'.tasks.top ∧ _ ∉ c'.trace ↔ (t < c.tasks.top ∧ _) ∧ _
    rw [ht, htrace, List.mem_append, not_or, htask, and_assoc]
  future := by
    intro f
    show f < c'.futures.top ∧ _ ∉ c'.trace ↔ (f < c.futures.top ∧ _) ∧ _
    rw [hf, htrace, List.mem_append, not_or, hfuture, and_assoc]
  taskFuture := hs
  vtable := hv

end Settled

/-! ### Releasing a task -/

/-- The steps of the release, each of which returns. -/
theorem releaseTask_eq_some {task : UInt32} {c₀ c₁ c₂ c₃ : HeapExecutor}
    (hcleanup : c.cleanupFuture (c.field task 0) = some c₀)
    (hwaker : c₀.releaseWaker (c₀.field task 0) = some c₁)
    (hfuture : c₁.freeBlock (c₁.field task 0) (.future (c₁.futures.number (c₁.field task 0)))
      = some c₂)
    (htask : c₂.freeBlock task (.task (c₂.tasks.number task)) = some c₃) :
    c.releaseTask task = some { c₃ with taskCount := c₃.taskCount - 1 } := by
  simp only [releaseTask, hcleanup, hwaker, hfuture, htask, Option.bind_eq_bind, Option.bind_some]

namespace Refines

theorem futureVTable?_addr (v : FutureVTable) : futureVTable? v.addr = some v := by
  cases v <;> rfl

theorem number_future (h : Refines σ pay c s) (hf : c.Live (.future f)) :
    c.futures.number (c.futures.addr f) = f := h.latest _ hf

/-- `vtable->cleanup(future)` of the kinds that free nothing. -/
theorem cleanupFuture (h : Refines σ pay c s) (hf : c.Live (.future f))
    (hv : (s.futures f).vtable ≠ .asyncRtcFuture) :
    c.cleanupFuture (c.futures.addr f) = some (c.emit [.cleanup f]) ∧
      Async.cleanupFuture s f = s.emit [.cleanup f] := by
  rw [HeapExecutor.cleanupFuture, h.vtable hf, futureVTable?_addr, h.number_future hf,
    Async.cleanupFuture]
  cases hvt : (s.futures f).vtable with
  | sleepFuture => exact ⟨rfl, rfl⟩
  | asyncSerialWrite => exact ⟨rfl, rfl⟩
  | asyncRtcFuture => exact absurd hvt hv

/-- `free` of a task or a future. -/
theorem freeBlock (h : Refines σ pay c s) (hb : c.Live b) (hw : ∀ w, b ≠ .waker w) :
    ∃ m σ', c.freeBlock (c.addr b) b
        = some { c with memory := m, trace := c.trace ++ [.free b] } ∧
      Refines σ' pay { c with memory := m, trace := c.trace ++ [.free b] } (s.emit [.free b]) := by
  obtain ⟨ws, hws, -⟩ := h.content b hb
  obtain ⟨m, hcode, hm⟩ := h.holds.free (h.holds.live hws)
  refine ⟨m, _, ?_, h.drop [b] hm ?_ ?_ ?_⟩
  · rw [HeapExecutor.freeBlock, hcode]
    rfl
  · intro b' hb' hne
    refine Function.update_of_ne (fun heq => hne ?_) _ _
    exact List.mem_singleton.mpr (h.inj b' b hb' hb heq)
  · intro b' hb'
    rw [List.mem_singleton.mp hb']
    exact hb
  · intro w hw'
    exact absurd (List.mem_singleton.mp hw').symm (hw w)

/-- `free` of a waker and then of its future; in between only the task is read. -/
theorem freeWakerFuture (h : Refines σ pay c s) (ht : c.Live (.task t)) (hf : c.Live (.future f))
    {w : ℕ} (hw : (s.futures f).waker = some w) :
    ∃ m m' σ', c.memory.free (c.wakers.addr w) = some m ∧
      m.field (c.tasks.addr t) 0 = c.futures.addr (s.tasks t).future ∧
      m.free (c.futures.addr f) = some m' ∧
      Refines σ' pay
        { c with memory := m', trace := c.trace ++ [.free (.waker w), .free (.future f)] }
        (s.emit [.free (.waker w), .free (.future f)]) := by
  have hlive : c.Live (.waker w) := h.refers.waker_live f hf w hw
  obtain ⟨ws, hws, -⟩ := h.content _ hlive
  obtain ⟨v, -, hvs⟩ := h.future_words hf
  have hne : c.tasks.addr t ≠ c.wakers.addr w := fun heq =>
    absurd (h.inj (.task t) (.waker w) ht hlive heq) nofun
  have hne' : c.futures.addr f ≠ c.wakers.addr w := fun heq =>
    absurd (h.inj (.future f) (.waker w) hf hlive heq) nofun
  obtain ⟨m, hcode, hm⟩ := h.holds.free (h.holds.live hws)
  obtain ⟨m', hcode', hm'⟩ := hm.free (hm.live ((Function.update_of_ne hne' _ _).trans hvs))
  refine ⟨m, m', _, hcode, ?_, hcode', h.drop [.waker w, .future f] hm' ?_ ?_ ?_⟩
  · exact hm.field (i := 0) ((Function.update_of_ne hne _ _).trans (h.task_words ht)) rfl rfl
  · intro b hb hnot
    rw [List.mem_cons, List.mem_singleton, not_or] at hnot
    have h1 : c.addr b ≠ c.wakers.addr w := fun heq => hnot.1 (h.inj b (.waker w) hb hlive heq)
    have h2 : c.addr b ≠ c.futures.addr f := fun heq => hnot.2 (h.inj b (.future f) hb hf heq)
    rw [Function.update_of_ne h2, show c.addr (.waker w) = c.wakers.addr w from rfl,
      Function.update_of_ne h1]
  · intro b hb
    rcases List.mem_cons.mp hb with rfl | hb
    · exact hlive
    · rw [List.mem_singleton.mp hb]
      exact hf
  · intro v hv g hg hgw
    rcases List.mem_cons.mp hv with heq | hv
    · obtain rfl := Block.waker.inj heq
      rw [h.refers.waker_inj g f hg hf v hgw hw]
      exact List.mem_cons_of_mem _ List.mem_cons_self
    · exact absurd (List.mem_singleton.mp hv) nofun

theorem releaseWaker_tasks (s : Executor) (f : ℕ) : (Async.releaseWaker s f).tasks = s.tasks := by
  rw [Async.releaseWaker]
  dsimp only
  split
  · rfl
  · split <;> rfl

/-- The waker of `f` is released and `f` freed; in between only the task `t` is read. -/
def ReleasesFuture (pay : ℕ → List UInt32) (c : HeapExecutor) (s : Executor) (t f : ℕ) : Prop :=
  ∃ c₁ c₂ σ', c.releaseWaker (c.futures.addr f) = some c₁ ∧
    c₁.field (c.tasks.addr t) 0 = c.futures.addr f ∧ c₁.futures = c.futures ∧
    c₁.tasks = c.tasks ∧ c₁.freeBlock (c.futures.addr f) (.future f) = some c₂ ∧
    Refines σ' pay c₂ ((Async.releaseWaker s f).emit [.free (.future f)]) ∧
    Settled c s {.future f} c₂ ((Async.releaseWaker s f).emit [.free (.future f)])

section Release

variable (h : Refines σ pay c s) (ht : c.Live (.task t)) (htf : (s.tasks t).future = f)
  (hf : c.Live (.future f))

include h htf in
theorem task_future (ht : c.Live (.task t)) : c.field (c.tasks.addr t) 0 = c.futures.addr f :=
  (h.taskFuture ht).trans (congrArg c.futures.addr htf)

theorem live_emit {events : List Event} (he : ∀ e ∈ events, e = .readWaker f) (hb : c.Live b) :
    (c.emit events).Live b :=
  ⟨hb.1, fun hmem => (List.mem_append.mp hmem).elim hb.2 fun hmem => absurd (he _ hmem) nofun⟩

include h ht htf hf

/-- There is no waker. -/
theorem releaseFuture_of_none (hw : (s.futures f).waker = none) : ReleasesFuture pay c s t f := by
  have hev : ∀ e ∈ [Event.readWaker f], e = .readWaker f := by simp
  have h₁ := h.emit fun b hmem => absurd (hev _ hmem) nofun
  obtain ⟨m, σ', hfree, h₂⟩ := h₁.freeBlock (live_emit hev hf) nofun
  have hnull : c.field (c.futures.addr f) 8 = 0 := by
    rw [h.waker hf, hw]
    rfl
  have habs : Async.releaseWaker s f = s.emit [.readWaker f] := by
    simp [Async.releaseWaker, Executor.emit, hw]
  refine ⟨c.emit [.readWaker f], _, σ', ?_, h.task_future htf ht, rfl, rfl, hfree, ?_, ?_⟩
  · rw [HeapExecutor.releaseWaker, h.number_future hf]
    exact if_pos hnull
  · rw [habs]
    exact h₂
  · rw [habs]
    exact Settled.of_trace (v := [.readWaker f, .free (.future f)]) rfl rfl rfl rfl
      (List.append_assoc ..) (by simp) (by simp) (fun _ => rfl) fun _ => rfl

omit htf in
/-- The reference count goes down. -/
theorem decrementRefCount {w : ℕ} (hw : (s.futures f).waker = some w) :
    ∃ c₁ σ₁, c₁ = (c.emit [.readWaker f, .readWaker f]).setField (c.wakers.addr w) 4
          (s.refCounts w - 1) ∧
      Refines σ₁ pay c₁
        { s.emit [.readWaker f, .readWaker f] with
          refCounts := Function.update s.refCounts w (s.refCounts w - 1) } ∧
      c₁.Live (.future f) ∧ c₁.Live (.task t) ∧
      c.releaseWaker (c.futures.addr f) = if s.refCounts w = 1 then
        (c₁.emit [.readWaker f]).freeBlock (c.wakers.addr w) (.waker w) else some c₁ := by
  have hev : ∀ e ∈ [Event.readWaker f, .readWaker f], e = .readWaker f := by simp
  have hlive := h.refers.waker_live f hf w hw
  have hwaker : c.field (c.futures.addr f) 8 = c.wakers.addr w := by
    rw [h.waker hf, hw]
    rfl
  have hcount : c.field (c.wakers.addr w) 4 = s.refCounts w := h.refCount hlive
  have hnum : c.wakers.number (c.wakers.addr w) = w := h.latest _ hlive
  obtain ⟨σ₁, h₁⟩ := (h.emit fun b hmem => absurd (hev _ hmem) nofun).setRefCount
    (live_emit hev hlive) (s.refCounts w - 1)
  have hwaker₁ : ((c.emit [.readWaker f, .readWaker f]).setField (c.wakers.addr w) 4
      (s.refCounts w - 1)).field (c.futures.addr f) 8 = c.wakers.addr w :=
    (h₁.waker (live_emit hev hf)).trans (congrArg (ptrOf c.wakers.addr) hw)
  refine ⟨_, σ₁, rfl, h₁, live_emit hev hf, live_emit hev ht, ?_⟩
  have hnull : c.field (c.futures.addr f) 8 ≠ 0 := hwaker ▸ h.addr_ne_zero hlive
  rw [HeapExecutor.releaseWaker, h.number_future hf]
  refine (if_neg hnull).trans ?_
  dsimp only
  have hemit : (c.emit [.readWaker f]).emit [.readWaker f] = c.emit [.readWaker f, .readWaker f] :=
    congrArg (fun τ => { c with trace := τ }) (List.append_assoc ..)
  rw [hemit]
  show (if (c.field (c.field (c.futures.addr f) 8) 4) = 1 then
    ((c.emit [.readWaker f, .readWaker f]).setField (c.field (c.futures.addr f) 8) 4
      (c.field (c.field (c.futures.addr f) 8) 4 - 1) |>.emit [.readWaker f]).freeBlock
        (((c.emit [.readWaker f, .readWaker f]).setField (c.field (c.futures.addr f) 8) 4
          (c.field (c.field (c.futures.addr f) 8) 4 - 1)).field (c.futures.addr f) 8)
        (.waker (c.wakers.number (((c.emit [.readWaker f, .readWaker f]).setField
          (c.field (c.futures.addr f) 8) 4
            (c.field (c.field (c.futures.addr f) 8) 4 - 1)).field (c.futures.addr f) 8)))
    else some ((c.emit [.readWaker f, .readWaker f]).setField (c.field (c.futures.addr f) 8) 4
      (c.field (c.field (c.futures.addr f) 8) 4 - 1))) = _
  rw [hwaker, hcount, hwaker₁, hnum]

/-- Others have a reference to the waker. -/
theorem releaseFuture_of_shared {w : ℕ} (hw : (s.futures f).waker = some w)
    (hone : s.refCounts w ≠ 1) : ReleasesFuture pay c s t f := by
  obtain ⟨c₁, σ₁, hc₁, h₁, hf₁, ht₁, hcode⟩ := h.decrementRefCount ht hf hw
  obtain ⟨m, σ', hfree, h₂⟩ := h₁.freeBlock hf₁ nofun
  have habs : Async.releaseWaker s f = { s.emit [.readWaker f, .readWaker f] with
      refCounts := Function.update s.refCounts w (s.refCounts w - 1) } := by
    simp [Async.releaseWaker, Executor.emit, hw, hone]
  subst hc₁
  refine ⟨_, _, σ', hcode.trans (if_neg hone), h₁.task_future htf ht₁, rfl, rfl, hfree, ?_, ?_⟩
  · rw [habs]
    exact h₂
  · rw [habs]
    exact Settled.of_trace (v := [.readWaker f, .readWaker f, .free (.future f)]) rfl rfl rfl rfl
      (List.append_assoc ..) (by simp) (by simp) (fun _ => rfl) fun _ => rfl

/-- The last reference goes. -/
theorem releaseFuture_of_last {w : ℕ} (hw : (s.futures f).waker = some w)
    (hone : s.refCounts w = 1) : ReleasesFuture pay c s t f := by
  obtain ⟨c₁, σ₁, hc₁, h₁, hf₁, ht₁, hcode⟩ := h.decrementRefCount ht hf hw
  have hev : ∀ e ∈ [Event.readWaker f], e = .readWaker f := by simp
  obtain ⟨m, m', σ', hfree, hread, hfree', h₂⟩ := (h₁.emit fun b hmem =>
    absurd (hev _ hmem) nofun).freeWakerFuture (live_emit hev ht₁) (live_emit hev hf₁) hw
  have habs : Async.releaseWaker s f = { s.emit [.readWaker f, .readWaker f] with
      refCounts := Function.update s.refCounts w (s.refCounts w - 1)
      trace := (s.trace ++ [.readWaker f, .readWaker f]) ++ [.readWaker f, .free (.waker w)] } := by
    simp [Async.releaseWaker, Executor.emit, hw, hone]
  subst hc₁
  refine ⟨_, _, σ', hcode.trans ((if_pos hone).trans (congrArg (Option.map _) hfree)),
    hread.trans (congrArg c.futures.addr htf), rfl, rfl, congrArg (Option.map _) hfree', ?_, ?_⟩
  · rw [habs]
    simpa [HeapExecutor.emit, Executor.emit, HeapExecutor.setField] using h₂
  · rw [habs]
    refine Settled.of_trace (v := [.readWaker f, .readWaker f, .readWaker f, .free (.waker w),
      .free (.future f)]) rfl rfl rfl rfl ?_ (by simp) (by simp) (fun _ => rfl) fun _ => rfl
    simp [HeapExecutor.emit, HeapExecutor.setField]

theorem releaseFuture : ReleasesFuture pay c s t f := by
  cases hw : (s.futures f).waker with
  | none => exact h.releaseFuture_of_none ht htf hf hw
  | some w =>
    by_cases hone : s.refCounts w = 1
    · exact h.releaseFuture_of_last ht htf hf hw hone
    · exact h.releaseFuture_of_shared ht htf hf hw hone

/-- What `executor_run` does with a task it has unlinked. -/
theorem releaseTask (hv : (s.futures f).vtable ≠ .asyncRtcFuture) :
    ∃ c' σ', c.releaseTask (c.tasks.addr t) = some c' ∧
      Refines σ' pay c' (Async.releaseTask s t) ∧
      Settled c s {.task t, .future f} c' (Async.releaseTask s t) := by
  obtain ⟨hclean, habs⟩ := h.cleanupFuture hf hv
  have hev : ∀ b, .free b ∉ [Event.cleanup f] := by simp
  have h₀ := h.emit hev
  have hlive₀ : ∀ {b}, c.Live b → (c.emit [.cleanup f]).Live b := fun hb =>
    ⟨hb.1, fun hmem => (List.mem_append.mp hmem).elim hb.2 (hev _)⟩
  obtain ⟨c₁, c₂, σ₂, hwaker, hread, hfutures, htasks, hfree, h₂, hset₂⟩ :=
    h₀.releaseFuture (hlive₀ ht) htf (hlive₀ hf)
  have ht₂ : c₂.Live (.task t) := (hset₂.task t).mpr ⟨hlive₀ ht, by simp⟩
  have htasks₂ : c₂.tasks = c.tasks := hset₂.tasks
  obtain ⟨m, σ₃, hfree', h₃⟩ := h₂.freeBlock ht₂ nofun
  have h₄ := h₃.setTaskCount (c₂.taskCount - 1)
  have hnum : c₂.tasks.number (c.tasks.addr t) = t := by
    have hlatest : c₂.tasks.number (c₂.tasks.addr t) = t := h₂.latest _ ht₂
    rw [htasks₂] at hlatest ⊢
    exact hlatest
  have haddr₂ : c₂.addr (.task t) = c.tasks.addr t := congrArg (·.addr t) htasks₂
  have hfnum : c₁.futures.number (c.futures.addr f) = f := by
    rw [hfutures]
    exact h.number_future hf
  have hread' : c₁.field (c.tasks.addr t) 0 = c.futures.addr f := hread
  have hfut₀ : (c.emit [.cleanup f]).field (c.tasks.addr t) 0 = c.futures.addr f :=
    h.task_future htf ht
  rw [haddr₂] at hfree'
  have hcode := releaseTask_eq_some (by rw [h.task_future htf ht, hclean])
    (by rw [hfut₀]; exact hwaker) (by rw [hread', hfnum]; exact hfree) (by rw [hnum, hfree'])
  have habs' : Async.releaseTask s t
      = { ((Async.releaseWaker (s.emit [.cleanup f]) f).emit [.free (.future f)]).emit
            [.free (.task t)] with
          taskCount := c₂.taskCount - 1 } := by
    have htf₀ : ((s.emit [.cleanup f]).tasks t).future = f := htf
    have htf₁ : ((Async.releaseWaker (s.emit [.cleanup f]) f).tasks t).future = f := by
      rw [releaseWaker_tasks]
      exact htf
    rw [Async.releaseTask, htf, habs]
    dsimp only
    rw [htf₀, htf₁, h₂.taskCount]
    rfl
  refine ⟨_, σ₃, hcode, ?_, ?_⟩
  · rw [habs']
    exact h₄
  · have hset₀ : Settled c s ∅ (c.emit [.cleanup f]) (s.emit [.cleanup f]) :=
      Settled.of_trace rfl rfl rfl rfl rfl (by simp) (by simp) (fun _ => rfl) fun _ => rfl
    have hset₃ : Settled c₂ ((Async.releaseWaker (s.emit [.cleanup f]) f).emit [.free (.future f)])
        {.task t} { c₂ with
          memory := m
          trace := c₂.trace ++ [.free (.task t)]
          taskCount := c₂.taskCount - 1 } (Async.releaseTask s t) :=
      Settled.of_trace rfl rfl rfl rfl rfl (by simp) (by simp) (fun u => by rw [habs']; rfl)
        fun g => by rw [habs']; rfl
    have hall := (hset₀.trans hset₂).trans hset₃
    rwa [Set.empty_union, Set.union_comm, Set.singleton_union] at hall

end Release

end Refines

/-- The steps of a visit that removes the task. -/
theorem visitTask_of_removed {poll : PollFn} {l : PassLocals} {c₃ : HeapExecutor}
    (hpoll : c.pollTask poll l.current = some (c₁, true))
    (hstore : c₁.storePrev l.prevPtr (c₁.field l.current 4) = c₂)
    (hrel : c₂.releaseTask l.current = some c₃) :
    c.visitTask poll l = some (c₃, { l with current := c₂.field l.current 4 }) := by
  simp only [visitTask, hpoll, hstore, hrel, Option.bind_eq_bind, Option.bind_some, if_true]

/-! ### The rule for a poll function -/

/-- The locals of the loop, with pointers to the tasks. -/
def ptrs (c : HeapExecutor) (l : Locals) : PassLocals :=
  ⟨ptrOf c.tasks.addr l.current, l.prevPtr.map c.tasks.addr, l.hasReadyTasks⟩

/-- The task `task` may be visited: its future may be polled if it is not completed, and is none
that its own `cleanup` frees if it is removed. -/
def VisitOk (poll : PollFn) (Ok : HeapExecutor → UInt32 → Prop) (c : HeapExecutor)
    (task : UInt32) : Prop :=
  (c.boolField (c.field task 0) 4 = false → Ok c (c.field task 0)) ∧
    (c.field (c.field task 0) 0 = FutureVTable.asyncRtcFuture.addr →
      ∀ r, c.pollTask poll task = some r → r.2 = false)

/-- What a poll function must do so that a pass over the heap is one of the abstract executor, where
`Ok` is what it needs, `J A` an invariant of the heap while the futures `A` are not polled yet, and
`R` what is known of the answers. -/
structure Rule (poll : PollFn) (Ok : HeapExecutor → UInt32 → Prop)
    (J : Set ℕ → (ℕ → List UInt32) → HeapExecutor → Executor → Prop) (R : ℕ → PollAnswer → Prop) :
    Prop where
  poll : ∀ {A σ pay c s f}, Refines σ pay c s → J A pay c s → f ∈ A → c.Live (.future f) →
    (s.futures f).isCompleted = false → Ok c (c.futures.addr f) →
    ∃ answer c' σ' pay' s', poll c (c.futures.addr f) = some (c', answer.state) ∧
      Refines σ' pay' c' s' ∧ Acted c s answer.spawns c' s' ∧ J (A \ {f}) pay' c' s' ∧ R f answer
  settle : ∀ {A pay c s gone c' s'}, J A pay c s → Settled c s gone c' s' →
    (gone = ∅ ∨ ∃ t, c.Live (.task t) ∧ gone = {.task t, .future (s.tasks t).future}) →
    J A pay c' s'

/-- Blocks are where they were; of the tasks and futures, those in `gone` may be freed. -/
structure Moved (c : HeapExecutor) (gone : Set Block) (c' : HeapExecutor) : Prop where
  tasks : c.tasks.Grows c'.tasks
  futures : c.futures.Grows c'.futures
  task : ∀ t, c.Live (.task t) → .task t ∉ gone → c'.Live (.task t)
  future : ∀ f, c.Live (.future f) → .future f ∉ gone → c'.Live (.future f)
  newTask : ∀ t, c.tasks.top ≤ t → t < c'.tasks.top → c'.Live (.task t)

namespace Moved

variable {gone gone' : Set Block}

theorem refl (c : HeapExecutor) : Moved c ∅ c :=
  ⟨.refl _, .refl _, fun _ h _ => h, fun _ h _ => h, fun _ hle hlt => absurd hlt (not_lt.mpr hle)⟩

theorem trans (h : Moved c gone c₁) (h' : Moved c₁ gone' c₂)
    (hold : ∀ t, .task t ∈ gone' → t < c.tasks.top) : Moved c (gone ∪ gone') c₂ where
  tasks := h.tasks.trans h'.tasks
  futures := h.futures.trans h'.futures
  task := fun t ht hn => h'.task t (h.task t ht fun hm => hn (.inl hm)) fun hm => hn (.inr hm)
  future := fun f hf hn =>
    h'.future f (h.future f hf fun hm => hn (.inl hm)) fun hm => hn (.inr hm)
  newTask := by
    intro t hle hlt
    by_cases ht : t < c₁.tasks.top
    · exact h'.task t (h.newTask t hle ht) fun hm => absurd (hold t hm) (not_lt.mpr hle)
    · exact h'.newTask t (not_lt.mp ht) hlt

theorem of_settled (h : Settled c s gone c₁ s₁) : Moved c gone c₁ where
  tasks := h.tasks ▸ .refl _
  futures := h.futures ▸ .refl _
  task := fun t ht hn => (h.task t).mpr ⟨ht, hn⟩
  future := fun f hf hn => (h.future f).mpr ⟨hf, hn⟩
  newTask := fun _ hle hlt => absurd (h.tasks ▸ hlt) (not_lt.mpr hle)

theorem of_extends (h : Refines σ pay c s) (he : Extends c c₁) : Moved c ∅ c₁ where
  tasks := he.tasks
  futures := he.futures
  task := fun _ ht _ => he.live ht
  future := fun _ hf _ => he.live hf
  newTask := by
    intro t hle hlt
    refine ⟨hlt, fun hmem => ?_⟩
    have hold : t < c.tasks.top := h.freed (.task t) (he.trace ▸ hmem)
    exact absurd hold (not_lt.mpr hle)

end Moved

namespace Refines

variable {poll : PollFn} {Ok : HeapExecutor → UInt32 → Prop}
  {J : Set ℕ → (ℕ → List UInt32) → HeapExecutor → Executor → Prop} {R : ℕ → PollAnswer → Prop}
  {A : Set ℕ}

theorem setCompleted_vtable (s : Executor) (g f : ℕ) :
    ((s.setCompleted g).futures f).vtable = (s.futures f).vtable := by
  by_cases hf : f = g
  · rw [hf, Executor.setCompleted_futures_self]
  · rw [Executor.setCompleted_futures_of_ne _ hf]

theorem settled_emit {events : List Event} (he : ∀ b, .free b ∉ events) :
    Settled c s ∅ (c.emit events) (s.emit events) :=
  Settled.of_trace (v := events) rfl rfl rfl rfl rfl (fun _ => by simp [he])
    (fun _ => by simp [he]) (fun _ => rfl) fun _ => rfl

/-- The futures that are not polled after a visit of `t`. -/
def leftOf (s : Executor) (A : Set ℕ) (t : ℕ) : Set ℕ :=
  if (s.futureOf t).isCompleted = true then A else A \ {(s.tasks t).future}

theorem mem_leftOf {t u : ℕ} (hu : (s.tasks u).future ∈ A)
    (hne : (s.tasks u).future ≠ (s.tasks t).future) : (s.tasks u).future ∈ leftOf s A t := by
  rw [leftOf]
  split
  · exact hu
  · exact ⟨hu, hne⟩

/-- `poll_task`. -/
theorem pollTask (hr : Rule poll Ok J R) (h : Refines σ pay c s) (hj : J A pay c s) (hA : f ∈ A)
    (ht : c.Live (.task t)) (htf : (s.tasks t).future = f) (hf : c.Live (.future f))
    (hok : (s.futures f).isCompleted = false → Ok c (c.futures.addr f)) :
    ∃ answer c' σ' pay' s',
      c.pollTask poll (c.tasks.addr t) = some (c', (Async.pollTask s answer t).2) ∧
      Refines σ' pay' c' s' ∧ J (leftOf s A t) pay' c' s' ∧
      Agree c.futures.top (Async.pollTask s answer t).1 s' ∧ Moved c ∅ c' ∧
      ((s.futures f).isCompleted = false → R f answer) ∧
      ((s.futures f).isCompleted = true → answer = ⟨[], .pending⟩) := by
  have hfut := h.task_future htf ht
  have hdone := h.isCompleted hf
  have hleft : leftOf s A t = if (s.futures f).isCompleted = true then A else A \ {f} := by
    rw [leftOf, Executor.futureOf, htf]
  by_cases hc : (s.futures f).isCompleted = true
  · -- the future is not polled again, so any answer would do
    rw [if_pos hc] at hleft
    rw [hleft]
    refine ⟨⟨[], .pending⟩, c, σ, pay, s, ?_, h, hj, ?_, .refl c, fun hn => ?_,
      fun _ => rfl⟩
    · have habs : (Async.pollTask s ⟨[], .pending⟩ t).2 = true := by
        rw [Async.pollTask, htf, if_pos hc]
      rw [habs, HeapExecutor.pollTask, hfut, hdone, if_pos hc]
    · have habs : (Async.pollTask s ⟨[], .pending⟩ t).1 = s := by
        rw [Async.pollTask, htf, if_pos hc]
      rw [habs]
      exact .refl _ s
    · exact Bool.noConfusion (hc.symm.trans hn)
  · have hn : (s.futures f).isCompleted = false := Bool.eq_false_iff.mpr hc
    rw [if_neg hc] at hleft
    rw [hleft]
    obtain ⟨answer, c₁, σ₁, pay₁, s₁, hpoll, h₁, hacted, hj₁, hR⟩ :=
      hr.poll h hj hA hf hn (hok hn)
    have hev : ∀ b, .free b ∉ [Event.poll f answer.state] := by simp
    have h₂ := h₁.emit hev
    have hset := settled_emit (c := c₁) (s := s₁) hev
    have hj₂ := hr.settle hj₁ hset (.inl rfl)
    have hmoved := (Moved.of_extends h hacted.grows).trans (.of_settled hset) (by simp)
    rw [Set.union_empty] at hmoved
    have hagree := hacted.agree.emit [.poll f answer.state]
    rw [← foldl_executorSpawn_emit] at hagree
    have htf₂ : ((s₁.emit [.poll f answer.state]).tasks t).future = f := by
      have hlt : t < s.taskTop := h.taskTop ▸ ht.1
      show (s₁.tasks t).future = f
      rw [hacted.agree.tasks, (foldl_executorSpawn_spec s answer.spawns).task t hlt, htf]
    -- `task->future` is read again after the poll, which may have spawned tasks
    have hread := h₂.task_future htf₂ (hmoved.task t ht (Set.notMem_empty _))
    have htasks : (c₁.emit [.poll f answer.state]).tasks.addr t = c.tasks.addr t :=
      hacted.grows.tasks.addr t ht.1
    have hfaddr : (c₁.emit [.poll f answer.state]).futures.addr f = c.futures.addr f :=
      hacted.grows.futures.addr f hf.1
    rw [htasks, hfaddr] at hread
    have hcode : c.pollTask poll (c.tasks.addr t)
        = if answer.state = .ready then
            some ((c₁.emit [.poll f answer.state]).setBoolField (c.futures.addr f) 4 true, true)
          else some (c₁.emit [.poll f answer.state], false) := by
      rw [HeapExecutor.pollTask, hfut, hdone, if_neg hc, hpoll, Option.map_some,
        h.number_future hf]
      dsimp only
      rw [hread]
      split <;> rfl
    have habs : Async.pollTask s answer t
        = if answer.state = .ready then
            (Executor.setCompleted (answer.spawns.foldl Async.executorSpawn
              (s.emit [.poll f answer.state])) f, true)
          else
            (answer.spawns.foldl Async.executorSpawn (s.emit [.poll f answer.state]), false) := by
      have htf₃ : ((answer.spawns.foldl Async.executorSpawn
          (s.emit [.poll f answer.state])).tasks t).future = f := by
        rw [← hagree.tasks, htf₂]
      rw [Async.pollTask, htf, if_neg hc]
      dsimp only
      rw [htf₃]
    by_cases hready : answer.state = .ready
    · rw [if_pos hready] at hcode habs
      obtain ⟨σ₃, h₃⟩ := h₂.setCompleted (hmoved.future f hf (Set.notMem_empty _))
      rw [hfaddr] at h₃
      have hset' : Settled (c₁.emit [.poll f answer.state]) (s₁.emit [.poll f answer.state]) ∅
          ((c₁.emit [.poll f answer.state]).setBoolField (c.futures.addr f) 4 true)
          ((s₁.emit [.poll f answer.state]).setCompleted f) :=
        Settled.of_trace (v := []) rfl rfl rfl rfl (List.append_nil _).symm (by simp) (by simp)
          (fun _ => rfl) fun g => setCompleted_vtable s₁ f g
      have hmoved' := hmoved.trans (.of_settled hset') (by simp)
      rw [Set.union_empty] at hmoved'
      refine ⟨answer, _, σ₃, pay₁, _, ?_, h₃, hr.settle hj₂ hset' (.inl rfl), ?_, hmoved',
        fun _ => hR, fun hd => absurd hd hc⟩
      · rw [hcode, habs]
      · rw [habs]
        exact hagree.setCompleted f
    · rw [if_neg hready] at hcode habs
      refine ⟨answer, _, σ₁, pay₁, _, ?_, h₂, hj₂, ?_, hmoved, fun _ => hR,
        fun hd => absurd hd hc⟩
      · rw [hcode, habs]
      · rw [habs]
        exact hagree

theorem pollTask_vtable (s : Executor) (answer : PollAnswer) (t f : ℕ) :
    ((Async.pollTask s answer t).1.futures f).vtable = (s.futures f).vtable := by
  have hspawns : ((answer.spawns.foldl Async.executorSpawn
      (s.emit [.poll (s.tasks t).future answer.state])).futures f).vtable = (s.futures f).vtable :=
    foldl_executorSpawn_vtable ..
  rw [Async.pollTask]
  split
  · rfl
  · dsimp only
    split
    · exact (setCompleted_vtable ..).trans hspawns
    · exact hspawns

theorem settled_storePrev (c : HeapExecutor) (s : Executor) (p : Option UInt32)
    (prevPtr : Option ℕ) (v : UInt32) (x : Option ℕ) :
    Settled c s ∅ (c.storePrev p v) (s.storePrev prevPtr x) := by
  have hs := s.storePrev_frame prevPtr x
  cases p <;>
    exact Settled.of_trace (v := []) rfl rfl rfl rfl (List.append_nil _).symm (by simp) (by simp)
      hs.1 fun f => by rw [hs.2.1]

/-- The blocks that a visit gives back. -/
def goneBlocks (s : Executor) (t : ℕ) (removed : Bool) : Set Block :=
  if removed then {.task t, .future (s.tasks t).future} else ∅

theorem task_mem_goneBlocks {removed : Bool} {u : ℕ}
    (h : Block.task u ∈ goneBlocks s t removed) : u = t ∧ removed = true := by
  rw [goneBlocks] at h
  split at h
  · rename_i hr
    rcases h with h | h
    · exact ⟨Block.task.inj h, hr⟩
    · exact absurd h nofun
  · exact absurd h (Set.notMem_empty _)

theorem future_mem_goneBlocks {removed : Bool} {g : ℕ}
    (h : Block.future g ∈ goneBlocks s t removed) : g = (s.tasks t).future ∧ removed = true := by
  rw [goneBlocks] at h
  split at h
  · rename_i hr
    rcases h with h | h
    · exact absurd h nofun
    · exact ⟨Block.future.inj h, hr⟩
  · exact absurd h (Set.notMem_empty _)

/-- What a visit does with a task that it removes: the store through `prev_ptr`, and the release. -/
theorem unlinkTask (h : Refines σ pay c s) (ht : c.Live (.task t))
    (hf : c.Live (.future (s.tasks t).future))
    (hv : (s.futures (s.tasks t).future).vtable ≠ .asyncRtcFuture) {p : Option ℕ}
    (hp : ∀ u, p = some u → c.Live (.task u)) :
    ∃ c₂ c' σ',
      c.storePrev (p.map c.tasks.addr) (c.field (c.tasks.addr t) 4) = c₂ ∧
      c₂.field (c.tasks.addr t) 4
        = ptrOf c.tasks.addr ((s.storePrev p (s.tasks t).next).tasks t).next ∧
      c₂.releaseTask (c.tasks.addr t) = some c' ∧
      Refines σ' pay c' (Async.releaseTask (s.storePrev p (s.tasks t).next) t) ∧
      Settled c s {.task t, .future (s.tasks t).future} c'
        (Async.releaseTask (s.storePrev p (s.tasks t).next) t) := by
  obtain ⟨σ₂, h₂⟩ := h.storePrev (x := (s.tasks t).next) hp (h.refers.next_lt t ht)
  have hset₂ := settled_storePrev c s (p.map c.tasks.addr) p
    (ptrOf c.tasks.addr (s.tasks t).next) (s.tasks t).next
  have hframe := s.storePrev_frame p (s.tasks t).next
  generalize hc₂ : c.storePrev (p.map c.tasks.addr) (ptrOf c.tasks.addr (s.tasks t).next) = c₂
    at h₂ hset₂
  generalize s.storePrev p (s.tasks t).next = s₂ at h₂ hset₂ hframe ⊢
  have ht₂ : c₂.Live (.task t) := (hset₂.task t).mpr ⟨ht, Set.notMem_empty _⟩
  have hf₂ : c₂.Live (.future (s.tasks t).future) :=
    (hset₂.future _).mpr ⟨hf, Set.notMem_empty _⟩
  -- the store leaves the task's future and the kind of the future alone
  have hv₂ : (s₂.futures (s.tasks t).future).vtable ≠ .asyncRtcFuture := by
    rw [hframe.2.1]
    exact hv
  obtain ⟨c', σ', hrel, h', hset'⟩ := h₂.releaseTask ht₂ (hframe.1 t) hf₂ hv₂
  have htasks₂ : c₂.tasks = c.tasks := hset₂.tasks
  rw [htasks₂] at hrel
  refine ⟨c₂, c', σ', ?_, ?_, hrel, h', ?_⟩
  · rw [h.taskNext ht, hc₂]
  · rw [← htasks₂]
    exact h₂.taskNext ht₂
  · have hall := hset₂.trans hset'
    rwa [Set.empty_union] at hall

/-- The body of the walk. -/
theorem visitTask (hr : Rule poll Ok J R) (h : Refines σ pay c s) (hj : J A pay c s)
    (ht : c.Live (.task t)) (hf : c.Live (.future (s.tasks t).future))
    (hA : (s.tasks t).future ∈ A) {l : Locals}
    (hcur : l.current = some t) (hprev : ∀ u, l.prevPtr = some u → c.Live (.task u))
    (hok : c.VisitOk poll Ok (c.tasks.addr t)) :
    ∃ answer c' σ' pay' s',
      c.visitTask poll (ptrs c l)
        = some (c', ptrs c' (Async.visitTask (fun _ => answer) s l t).2) ∧
      Refines σ' pay' c' s' ∧ J (leftOf s A t) pay' c' s' ∧
      Agree c.futures.top (Async.visitTask (fun _ => answer) s l t).1 s' ∧
      Moved c (goneBlocks s t (removes s (fun _ => answer) t)) c' ∧
      ((s.futureOf t).isCompleted = false → R (s.tasks t).future answer) ∧
      ((s.futureOf t).isCompleted = true → answer = ⟨[], .pending⟩) := by
  have hfut := h.task_future rfl ht
  have hokf : (s.futures (s.tasks t).future).isCompleted = false →
      Ok c (c.futures.addr (s.tasks t).future) := by
    intro hn
    have := hok.1
    rw [hfut, h.isCompleted hf] at this
    exact this hn
  obtain ⟨answer, c₁, σ₁, pay₁, s₁, hcode, h₁, hj₁, hagree, hmoved, hR⟩ :=
    h.pollTask hr hj hA ht rfl hf hokf
  obtain ⟨hres, hp⟩ := pollTask_spec (fun _ => answer) (h.taskTop ▸ ht.1 : t < s.taskTop)
  -- the poll leaves the visited task and its future where they were
  have ht₁ : c₁.Live (.task t) := hmoved.task t ht (Set.notMem_empty _)
  have htf₁ : (s₁.tasks t).future = (s.tasks t).future := by
    rw [hagree.tasks]
    exact hp.task t (h.taskTop ▸ ht.1)
  have htaddr : c₁.tasks.addr t = c.tasks.addr t := hmoved.tasks.addr t ht.1
  have hprevptr : l.prevPtr.map c.tasks.addr = l.prevPtr.map c₁.tasks.addr := by
    cases hl : l.prevPtr with
    | none => rfl
    | some u => exact congrArg some (hmoved.tasks.addr u (hprev u hl).1).symm
  have hcurptr : (ptrs c l).current = c.tasks.addr t := by
    rw [ptrs, hcur]
    rfl
  cases hrem : removes s (fun _ => answer) t with
  | false =>
    have hnext : c₁.field (c.tasks.addr t) 4 = ptrOf c₁.tasks.addr (s₁.tasks t).next := by
      rw [← htaddr]
      exact h₁.taskNext ht₁
    have habs : Async.visitTask (fun _ => answer) s l t
        = ((Async.pollTask s answer t).1,
            ⟨((Async.pollTask s answer t).1.tasks t).next, some t, true⟩) := by
      simp only [Async.visitTask, hres, hrem, Bool.false_eq_true, if_false]
    refine ⟨answer, c₁, σ₁, pay₁, s₁, ?_, h₁, hj₁, ?_, ?_, hR⟩
    · rw [HeapExecutor.visitTask, hcurptr, hcode, habs, hres, hrem]
      show some (_, _) = some (_, _)
      rw [hnext, ptrs, ← hagree.tasks]
      dsimp only
      rw [Option.map_some, htaddr]
    · rw [habs]
      exact hagree
    · rw [hrem]
      exact hmoved
  | true =>
    have hf₁ : c₁.Live (.future (s₁.tasks t).future) :=
      htf₁.symm ▸ hmoved.future _ hf (Set.notMem_empty _)
    -- an RTC future would be freed by its `cleanup` too
    have hv : (s₁.futures (s₁.tasks t).future).vtable ≠ .asyncRtcFuture := by
      rw [htf₁, hagree.future hf.1, pollTask_vtable]
      intro hv
      have := hok.2 (by rw [hfut, h.vtable hf, hv]) _ hcode
      rw [hres, hrem] at this
      exact Bool.noConfusion this
    obtain ⟨c₂, c₃, σ₃, hstore, hnext, hrel, h₃, hset⟩ := h₁.unlinkTask ht₁ hf₁ hv
      fun u hu => hmoved.task u (hprev u hu) (Set.notMem_empty _)
    rw [htaddr] at hstore hnext hrel
    have hagree₂ := hagree.storePrev l.prevPtr (s₁.tasks t).next
    have htf₂ := ((s₁.storePrev_frame l.prevPtr (s₁.tasks t).next).1 t).trans htf₁
    generalize s₁.storePrev l.prevPtr (s₁.tasks t).next = s₂ at hnext h₃ hset hagree₂ htf₂
    have habs : Async.visitTask (fun _ => answer) s l t
        = (Async.releaseTask ((Async.pollTask s answer t).1.storePrev l.prevPtr
              (s₁.tasks t).next) t,
            { l with current := (s₂.tasks t).next }) := by
      simp only [Async.visitTask, hres, hrem, if_true, ← hagree.tasks, ← hagree₂.tasks]
    refine ⟨answer, c₃, σ₃, pay₁, _, ?_, h₃, hr.settle hj₁ hset (.inr ⟨t, ht₁, rfl⟩), ?_, ?_, hR⟩
    · have hprev₁ : (ptrs c l).prevPtr = l.prevPtr.map c₁.tasks.addr := hprevptr
      rw [visitTask_of_removed (l := ptrs c l) (by rw [hcurptr, hcode, hres, hrem])
        (by rw [hcurptr, hprev₁, hstore]) (by rw [hcurptr, hrel]), hcurptr, hnext, habs, ptrs, ptrs,
        hset.tasks]
      dsimp only
      rw [hprevptr]
    · rw [habs]
      apply hagree₂.releaseTask
      rw [← hagree₂.tasks, htf₂]
      exact hf.1
    · have hall := hmoved.trans (.of_settled hset) fun u hu => ?_
      · rw [Set.empty_union, htf₁] at hall
        rwa [hrem, goneBlocks, if_pos rfl]
      · rcases hu with hu | hu
        · exact Block.task.inj hu ▸ ht.1
        · cases hu

end Refines

/-! ### The whole walk -/

/-- `P` holds of every visit of the walk. -/
def LoopMeets (poll : PollFn) (P : HeapExecutor → PassLocals → Prop) :
    ℕ → HeapExecutor → PassLocals → Prop
  | 0, _, _ => True
  | fuel + 1, c, l => l.current ≠ 0 →
    P c l ∧ ∀ c' l', c.visitTask poll l = some (c', l') → LoopMeets poll P fuel c' l'

/-- `P` holds of every visit of a pass. -/
def PassMeets (poll : PollFn) (P : HeapExecutor → PassLocals → Prop) (c : HeapExecutor) : Prop :=
  LoopMeets poll P (2 ^ 32) c ⟨c.taskQueue, none, false⟩

theorem Moved.mono {gone gone' : Set Block} (h : Moved c gone c₁) (hsub : gone ⊆ gone') :
    Moved c gone' c₁ :=
  { h with
    task := fun t ht hn => h.task t ht fun hm => hn (hsub hm)
    future := fun f hf hn => h.future f hf fun hm => hn (hsub hm) }

theorem visitTask_prevPtr (answer : ℕ → PollAnswer) (l : Locals) (ht : t < s.taskTop) :
    (Async.visitTask answer s l t).2.prevPtr
      = if removes s answer t = true then l.prevPtr else some t := by
  obtain ⟨hres, -⟩ := pollTask_spec answer ht
  simp only [Async.visitTask, hres]
  split <;> rfl

/-- The walk has `rest` ahead. -/
structure Ahead (c : HeapExecutor) (s : Executor) (n : ℕ) (l : Locals) (rest : List ℕ) : Prop where
  current : l.current = rest.head?
  cursor : ∃ front, Cursor s.links l.prevPtr front rest ∧ ∀ x ∈ front ++ rest, x < s.taskTop
  prevPtr : ∀ u, l.prevPtr = some u → c.Live (.task u)
  task : ∀ t ∈ rest, c.Live (.task t)
  future : ∀ t ∈ rest, c.Live (.future (s.tasks t).future)
  future_lt : ∀ t ∈ rest, (s.tasks t).future < n
  nodup : (rest.map fun t => (s.tasks t).future).Nodup

namespace Ahead

variable {l : Locals} {rest : List ℕ} {n : ℕ}

theorem notMem (h : Ahead c s n l (t :: rest)) :
    t ∉ rest ∧ (∀ u, l.prevPtr = some u → u ≠ t) ∧
      ∀ u ∈ rest, (s.tasks u).future ≠ (s.tasks t).future := by
  obtain ⟨front, hc, -⟩ := h.cursor
  obtain ⟨-, hnd, hdisj⟩ := List.nodup_append.mp hc.holds.nodup
  have hmap := h.nodup
  rw [List.map_cons, List.nodup_cons] at hmap
  refine ⟨(List.nodup_cons.mp hnd).1, fun u hu => ?_, fun u hu heq => hmap.1 ?_⟩
  · obtain ⟨init, rfl⟩ := hc.cell_eq u hu
    exact hdisj u (by simp) t List.mem_cons_self
  · rw [← heq]
    exact List.mem_map_of_mem hu

/-- The next visit. -/
theorem step (h : Ahead c s n l (t :: rest)) (hlt : t < s.taskTop) {answer : PollAnswer}
    (hn : n ≤ c.futures.top)
    (hagree : Agree c.futures.top (Async.visitTask (fun _ => answer) s l t).1 s₁)
    (hmoved : Moved c (Refines.goneBlocks s t (removes s (fun _ => answer) t)) c₁) :
    Ahead c₁ s₁ n (Async.visitTask (fun _ => answer) s l t).2 rest ∧
      (∀ u ∈ rest, (s₁.tasks u).future = (s.tasks u).future) ∧
      ∀ u ∈ rest, (s₁.futureOf u).isCompleted = (s.futureOf u).isCompleted := by
  obtain ⟨hnot, hprev, hfut⟩ := h.notMem
  have hv := visitTask_spec (fun _ => answer) l hlt
  obtain ⟨front, hc, htop⟩ := h.cursor
  have hsweeping : Sweeping (removes s fun _ => answer) (spawnsOf s fun _ => answer) s.links
      l.prevPtr s.taskTop (t :: rest) _ := ⟨front, hc, htop, rfl⟩
  obtain ⟨hcur, front', hc', htop', -⟩ := hv.sweeping rfl rfl hsweeping
  have htask : ∀ u ∈ rest, (s₁.tasks u).future = (s.tasks u).future := by
    intro u hu
    rw [hagree.tasks]
    exact hv.task u (htop u (by simp [hu]))
  have hstay : ∀ u, u ≠ t → c.Live (.task u) → c₁.Live (.task u) := by
    intro u hne hu
    refine hmoved.task u hu fun hm => ?_
    exact hne (Refines.task_mem_goneBlocks hm).1
  refine ⟨⟨hcur, ⟨front', ?_, ?_⟩, fun u hu => ?_, fun u hu => ?_, fun u hu => ?_, fun u hu => ?_,
    ?_⟩, htask, fun u hu => ?_⟩
  · rw [hagree.links]
    exact hc'
  · rw [hagree.taskTop]
    exact htop'
  · -- the cell behind belongs to a task that stays
    rw [visitTask_prevPtr (fun _ => answer) l hlt] at hu
    split at hu
    · exact hstay u (hprev u hu) (h.prevPtr u hu)
    · rename_i hr
      obtain rfl := Option.some.inj hu
      exact hmoved.task t (h.task t List.mem_cons_self) fun hm =>
        hr (Refines.task_mem_goneBlocks hm).2
  · exact hstay u (fun heq => hnot (heq ▸ hu)) (h.task u (List.mem_cons_of_mem _ hu))
  · rw [htask u hu]
    refine hmoved.future _ (h.future u (List.mem_cons_of_mem _ hu)) fun hm => hfut u hu ?_
    exact (Refines.future_mem_goneBlocks hm).1
  · rw [htask u hu]
    exact h.future_lt u (List.mem_cons_of_mem _ hu)
  · rw [List.map_congr_left htask]
    exact (List.nodup_cons.mp h.nodup).2
  · rw [Executor.futureOf, htask u hu,
      hagree.future ((h.future_lt u (List.mem_cons_of_mem _ hu)).trans_le hn)]
    exact hv.completed _ (hfut u hu)

end Ahead

/-- The blocks of the tasks of `ts` that the pass removes. -/
def removedBlocks (s : Executor) (answer : ℕ → PollAnswer) (ts : List ℕ) : Set Block :=
  {b | ∃ t ∈ ts, removes s answer t = true ∧ (b = .task t ∨ b = .future (s.tasks t).future)}

/-- `answer` has what is known of the polls of the pass over `ts`, and nothing else. -/
structure Answered (R : ℕ → PollAnswer → Prop) (s : Executor) (ts : List ℕ)
    (answer : ℕ → PollAnswer) : Prop where
  polled : ∀ t ∈ ts, (s.futureOf t).isCompleted = false → R (s.tasks t).future (answer t)
  other : ∀ t, (t ∈ ts → (s.futureOf t).isCompleted = true) → answer t = ⟨[], .pending⟩

section Walk

variable {poll : PollFn} {Ok : HeapExecutor → UInt32 → Prop}
  {J : Set ℕ → (ℕ → List UInt32) → HeapExecutor → Executor → Prop} {R : ℕ → PollAnswer → Prop}
  {A : Set ℕ} {n : ℕ} {l : Locals} {rest ts : List ℕ} {s₀ : Executor}

/-- The futures that are not polled after the visits of `ts`. -/
def leftAfter (s : Executor) (A : Set ℕ) (ts : List ℕ) : Set ℕ :=
  {f | f ∈ A ∧ ∀ t ∈ ts, (s.futureOf t).isCompleted = false → (s.tasks t).future ≠ f}

theorem leftAfter_cons (htask : ∀ u ∈ rest, (s₁.tasks u).future = (s.tasks u).future)
    (hdone : ∀ u ∈ rest, (s₁.futureOf u).isCompleted = (s.futureOf u).isCompleted) :
    leftAfter s₁ (Refines.leftOf s A t) rest = leftAfter s A (t :: rest) := by
  have hrest : ∀ f, (∀ u ∈ rest, (s₁.futureOf u).isCompleted = false → (s₁.tasks u).future ≠ f)
      ↔ ∀ u ∈ rest, (s.futureOf u).isCompleted = false → (s.tasks u).future ≠ f := fun f =>
    forall₂_congr fun u hu => by rw [htask u hu, hdone u hu]
  ext f
  rw [leftAfter, leftAfter, Set.mem_ofPred_eq, Set.mem_ofPred_eq, hrest, List.forall_mem_cons,
    Refines.leftOf]
  cases hc : (s.futureOf t).isCompleted with
  | true => simp
  | false =>
    simp only [Bool.false_eq_true, if_false, forall_const, Set.mem_sdiff, Set.mem_singleton_iff,
      ne_eq, and_assoc, eq_comm (a := f)]

/-- The next visit changes nothing that is known of the futures ahead. -/
theorem Ahead.visit (ha : Ahead c s n l (t :: rest)) (hA : ∀ u ∈ t :: rest, (s.tasks u).future ∈ A)
    (htask : ∀ u ∈ rest, (s₁.tasks u).future = (s.tasks u).future) :
    ∀ u ∈ rest, (s₁.tasks u).future ∈ Refines.leftOf s A t := by
  intro u hu
  rw [htask u hu]
  exact Refines.mem_leftOf (hA u (List.mem_cons_of_mem _ hu)) (ha.notMem.2.2 u hu)

/-- What the visit of `t` and the rest of the walk give back, the walk does. -/
theorem goneBlocks_union_removedBlocks_subset {answer : ℕ → PollAnswer} {a : PollAnswer}
    (ht : t ∉ rest) (htask : ∀ u ∈ rest, (s₁.tasks u).future = (s.tasks u).future)
    (hdone : ∀ u ∈ rest, (s₁.futureOf u).isCompleted = (s.futureOf u).isCompleted) :
    Refines.goneBlocks s t (removes s (fun _ => a) t) ∪ removedBlocks s₁ answer rest
      ⊆ removedBlocks s (Function.update answer t a) (t :: rest) := by
  refine Set.union_subset (fun b hb => ?_) ?_
  · cases hrem : removes s (fun _ => a) t with
    | false =>
      rw [hrem] at hb
      exact absurd hb (Set.notMem_empty _)
    | true =>
      rw [hrem] at hb
      refine ⟨t, List.mem_cons_self, ?_, hb⟩
      rw [← hrem, removes, removes, Function.update_self]
  · rintro b ⟨u, hu, hrem, hb⟩
    refine ⟨u, List.mem_cons_of_mem _ hu, ?_, htask u hu ▸ hb⟩
    rw [← hrem, removes, removes, hdone u hu, Function.update_of_ne (ne_of_mem_of_not_mem hu ht)]

/-- What is known of the answer to `t` and of those to the rest. -/
theorem Answered.cons {answer : ℕ → PollAnswer} {a : PollAnswer}
    (h : Answered R s₁ rest answer) (ht : t ∉ rest)
    (htask : ∀ u ∈ rest, (s₁.tasks u).future = (s.tasks u).future)
    (hdone : ∀ u ∈ rest, (s₁.futureOf u).isCompleted = (s.futureOf u).isCompleted)
    (hpolled : (s.futureOf t).isCompleted = false → R (s.tasks t).future a)
    (hother : (s.futureOf t).isCompleted = true → a = ⟨[], .pending⟩) :
    Answered R s (t :: rest) (Function.update answer t a) where
  polled := by
    intro u hu hn
    rcases List.mem_cons.mp hu with rfl | hu
    · rw [Function.update_self]
      exact hpolled hn
    · rw [Function.update_of_ne (ne_of_mem_of_not_mem hu ht), ← htask u hu]
      exact h.polled u hu ((hdone u hu).trans hn)
  other := by
    intro u hu
    by_cases heq : u = t
    · rw [heq, Function.update_self]
      exact hother (heq ▸ hu (heq ▸ List.mem_cons_self))
    · rw [Function.update_of_ne heq]
      refine h.other u fun hmem => ?_
      rw [hdone u hmem]
      exact hu (List.mem_cons_of_mem _ hmem)

/-- Every visit is allowed if the invariant says so. -/
theorem Refines.loopMeets (hr : Rule poll Ok J R)
    (hvisit : ∀ {A σ pay c s t}, Refines σ pay c s → J A pay c s → c.Live (.task t) →
      c.Live (.future (s.tasks t).future) → (s.tasks t).future ∈ A →
      c.VisitOk poll Ok (c.tasks.addr t))
    (h : Refines σ pay c s) (hj : J A pay c s) (hA : ∀ t ∈ rest, (s.tasks t).future ∈ A)
    (hn : n ≤ c.futures.top) (ha : Ahead c s n l rest) (fuel : ℕ) :
    LoopMeets poll (fun c l => c.VisitOk poll Ok l.current) fuel c (ptrs c l) := by
  induction rest generalizing fuel σ pay c s l A with
  | nil =>
    have hcur : l.current = none := ha.current
    cases fuel with
    | zero => trivial
    | succ fuel => exact fun hne => absurd (by rw [ptrs, hcur]; rfl) hne
  | cons t rest ih =>
    cases fuel with
    | zero => trivial
    | succ fuel =>
      intro hne
      have hcur : l.current = some t := ha.current
      have ht := ha.task t List.mem_cons_self
      have hf := ha.future t List.mem_cons_self
      have hAt := hA t List.mem_cons_self
      have hptr : (ptrs c l).current = c.tasks.addr t := by
        rw [ptrs, hcur]
        rfl
      have hok := hvisit h hj ht hf hAt
      refine ⟨?_, fun c' l' hcode' => ?_⟩
      · dsimp only
        rw [hptr]
        exact hok
      obtain ⟨a, c₁, σ₁, pay₁, s₁, hcode, h₁, hj₁, hagree₁, hmoved₁, -⟩ :=
        h.visitTask hr hj ht hf hAt hcur ha.prevPtr hok
      obtain ⟨rfl, rfl⟩ := Prod.mk.inj (Option.some.inj (hcode.symm.trans hcode'))
      obtain ⟨ha₁, htask, -⟩ := ha.step (h.taskTop ▸ ht.1) hn hagree₁ hmoved₁
      exact ih h₁ hj₁ (ha.visit hA htask) (hn.trans hmoved₁.futures.top_le) ha₁ fuel

/-- `while (current)`. -/
theorem Refines.pollLoop (hr : Rule poll Ok J R)
    (h : Refines σ pay c s) (hj : J A pay c s) (hA : ∀ t ∈ rest, (s.tasks t).future ∈ A)
    (hagree : Agree n s₀ s) (hn : n ≤ c.futures.top)
    (ha : Ahead c s n l rest) (fuel : ℕ) (hfuel : rest.length ≤ fuel)
    (hok : LoopMeets poll (fun c l => c.VisitOk poll Ok l.current) fuel c (ptrs c l)) :
    ∃ answer c' l' σ' pay' s' s₀',
      HeapExecutor.pollLoop poll fuel c (ptrs c l) = some (c', ptrs c' l') ∧
      Refines σ' pay' c' s' ∧ J (leftAfter s A rest) pay' c' s' ∧ Agree n s₀' s' ∧
      (∀ answer', (∀ t ∈ rest, answer' t = answer t) → ∀ k, rest.length ≤ k →
        Async.pollLoop answer' k s₀ l = some (s₀', l')) ∧
      Moved c (removedBlocks s answer rest) c' ∧ Answered R s rest answer := by
  induction rest generalizing fuel σ pay c s s₀ l A with
  | nil =>
    have hcur : l.current = none := ha.current
    have hleft : leftAfter s A [] = A := by simp [leftAfter]
    refine ⟨fun _ => ⟨[], .pending⟩, c, l, σ, pay, s, s₀, ?_, h, hleft.symm ▸ hj, hagree,
      fun answer' _ k _ => ?_,
      (Moved.refl c).mono (Set.empty_subset _), fun _ hu => absurd hu List.not_mem_nil,
      fun _ _ => rfl⟩
    · have hnull : (ptrs c l).current = 0 := by
        rw [ptrs, hcur]
        rfl
      cases fuel <;> exact if_pos hnull
    · exact pollLoop_of_current hcur answer' k s₀
  | cons t rest ih =>
    obtain ⟨fuel, rfl⟩ : ∃ k, fuel = k + 1 :=
      Nat.exists_eq_add_one.mpr (Nat.lt_of_lt_of_le (Nat.succ_pos _) hfuel)
    have hcur : l.current = some t := ha.current
    have ht := ha.task t List.mem_cons_self
    have hlt : t < s.taskTop := h.taskTop ▸ ht.1
    have hptr : (ptrs c l).current = c.tasks.addr t := by
      rw [ptrs, hcur]
      rfl
    have hne : (ptrs c l).current ≠ 0 := hptr ▸ h.addr_ne_zero ht
    obtain ⟨hvisit, hrest⟩ := hok hne
    rw [hptr] at hvisit
    obtain ⟨a, c₁, σ₁, pay₁, s₁, hcode, h₁, hj₁, hagree₁, hmoved₁, hR, hother⟩ :=
      h.visitTask hr hj ht (ha.future t List.mem_cons_self) (hA t List.mem_cons_self) hcur
        ha.prevPtr hvisit
    obtain ⟨ha₁, htask, hdone⟩ := ha.step hlt hn hagree₁ hmoved₁
    obtain ⟨hsame, habs⟩ := hagree.visitTask (fun _ => a) l (hagree.taskTop ▸ hlt)
      (hagree.tasks ▸ ha.future_lt t List.mem_cons_self)
    obtain ⟨answer, c', l', σ', pay', s', s₀', hcode', h', hj', hagree', habs', hmoved', hR'⟩ :=
      ih h₁ hj₁ (ha.visit hA htask) (habs.trans (hagree₁.mono hn))
        (hn.trans hmoved₁.futures.top_le) ha₁ fuel (Nat.le_of_succ_le_succ hfuel) (hrest _ _ hcode)
    have hold : ∀ u ∈ rest, Function.update answer t a u = answer u := fun u hu =>
      Function.update_of_ne (ne_of_mem_of_not_mem hu ha.notMem.1) _ _
    rw [leftAfter_cons htask hdone] at hj'
    refine ⟨Function.update answer t a, c', l', σ', pay', s', s₀', ?_, h', hj', hagree', ?_, ?_,
      hR'.cons ha.notMem.1 htask hdone hR hother⟩
    · rw [HeapExecutor.pollLoop, if_neg hne, hcode]
      exact hcode'
    · -- the abstract loop makes the same visit, and then goes on as the rest does
      intro answer' hans k hk
      obtain ⟨k, rfl⟩ : ∃ j, k = j + 1 :=
        Nat.exists_eq_add_one.mpr (Nat.lt_of_lt_of_le (Nat.succ_pos _) hk)
      have ht' : answer' t = a := by
        rw [hans t List.mem_cons_self, Function.update_self]
      have hvisit : Async.visitTask answer' s₀ l t = Async.visitTask (fun _ => a) s₀ l t := by
        simp only [Async.visitTask, ht']
      rw [Async.pollLoop.eq_def, hcur]
      dsimp only
      rw [hvisit, ← hsame]
      exact habs' answer' (fun u hu => (hans u (List.mem_cons_of_mem _ hu)).trans (hold u hu)) k
        (Nat.le_of_succ_le_succ hk)
    · refine (hmoved₁.trans hmoved' fun u hu => ?_).mono
        (goneBlocks_union_removedBlocks_subset ha.notMem.1 htask hdone)
      obtain ⟨v, hv, -, hb | hb⟩ := hu
      · obtain rfl := Block.task.inj hb
        exact (ha.task u (List.mem_cons_of_mem _ hv)).1
      · cases hb

/-- The pass starts the walk at the head of the queue. -/
theorem executorPass_eq_pollLoop (poll : PollFn) (c : HeapExecutor) :
    c.executorPass poll = (pollLoop poll (2 ^ 32) c ⟨c.taskQueue, none, false⟩).map fun r =>
      (r.1, r.2.hasReadyTasks) := by
  rw [executorPass]
  split
  · rename_i hnull
    have hend : pollLoop poll (2 ^ 32) c ⟨c.taskQueue, none, false⟩
        = some (c, ⟨c.taskQueue, none, false⟩) := if_pos hnull
    rw [hend]
    rfl
  · rfl

/-- The walk starts at the head of the queue. -/
theorem Refines.ahead (h : Refines σ pay c s) (hq : s.Queue ts)
    (htask : ∀ t ∈ ts, c.Live (.task t)) (hfuture : ∀ t ∈ ts, c.Live (.future (s.tasks t).future)) :
    Ahead c s c.futures.top ⟨ts.head?, none, false⟩ ts ∧
      ptrs c ⟨ts.head?, none, false⟩ = ⟨c.taskQueue, none, false⟩ := by
  refine ⟨{ current := rfl
            cursor := ⟨[], Cursor.start hq.holds, hq.lt_top⟩
            prevPtr := nofun
            task := htask
            future := hfuture
            future_lt := fun t ht => (hfuture t ht).1
            nodup := hq.futures_nodup }, ?_⟩
  have hhead : s.taskQueue = ts.head? := hq.holds.head_eq
  rw [ptrs, h.taskQueue, hhead]
  rfl

/-- Every visit of a pass is allowed if the invariant says so. -/
theorem Refines.passMeets (hr : Rule poll Ok J R)
    (hvisit : ∀ {A σ pay c s t}, Refines σ pay c s → J A pay c s → c.Live (.task t) →
      c.Live (.future (s.tasks t).future) → (s.tasks t).future ∈ A →
      c.VisitOk poll Ok (c.tasks.addr t))
    (h : Refines σ pay c s) (hj : J A pay c s) (hA : ∀ t ∈ ts, (s.tasks t).future ∈ A)
    (hq : s.Queue ts) (htask : ∀ t ∈ ts, c.Live (.task t))
    (hfuture : ∀ t ∈ ts, c.Live (.future (s.tasks t).future)) :
    c.PassMeets poll fun c l => c.VisitOk poll Ok l.current := by
  obtain ⟨ha, hptrs⟩ := h.ahead hq htask hfuture
  have hmeets := h.loopMeets hr hvisit hj hA le_rfl ha (2 ^ 32)
  rwa [hptrs] at hmeets

/-- A pass over the heap is one of the abstract executor. -/
theorem Refines.executorPass (hr : Rule poll Ok J R) (h : Refines σ pay c s) (hj : J A pay c s)
    (hA : ∀ t ∈ ts, (s.tasks t).future ∈ A) (hq : s.Queue ts) (htask : ∀ t ∈ ts, c.Live (.task t))
    (hfuture : ∀ t ∈ ts, c.Live (.future (s.tasks t).future))
    (hok : c.PassMeets poll fun c l => c.VisitOk poll Ok l.current) :
    ∃ answer c' hasReady σ' pay' s' s₀', c.executorPass poll = some (c', hasReady) ∧
      Async.executorPass s answer = some (s₀', hasReady) ∧ Agree c.futures.top s₀' s' ∧
      Refines σ' pay' c' s' ∧ J (leftAfter s A ts) pay' c' s' ∧
      Moved c (removedBlocks s answer ts) c' ∧ Answered R s ts answer := by
  obtain ⟨ha, hptrs⟩ := h.ahead hq htask hfuture
  have hlen : ts.length ≤ 2 ^ 32 := length_le_of_inj hq.holds.nodup fun t ht u hu heq =>
    Block.task.inj (h.inj (.task t) (.task u) (htask t ht) (htask u hu) heq)
  obtain ⟨answer, c', l', σ', pay', s', s₀', hcode, h', hj', hagree, habs, hmoved, hR⟩ :=
    h.pollLoop hr hj hA (.refl _ s) le_rfl ha (2 ^ 32) hlen (hptrs ▸ hok)
  refine ⟨answer, c', l'.hasReadyTasks, σ', pay', s', s₀', ?_, ?_, hagree, h', hj', hmoved, hR⟩
  · rw [executorPass_eq_pollLoop, ← hptrs, hcode]
    rfl
  · rw [Async.executorPass_eq hq, habs answer (fun _ _ => rfl) _ hq.length_le]
    rfl

end Walk

/-! ### The queue -/

/-- The future of the task at `p`. -/
def futureOf (c : HeapExecutor) (p : UInt32) : ℕ := c.futures.number (c.field p 0)

/-- The future of the task at `p` is completed. -/
def completed (c : HeapExecutor) (p : UInt32) : Bool := c.boolField (c.field p 0) 4

theorem Refines.futureOf_addr (h : Refines σ pay c s) (ht : c.Live (.task t))
    (hf : c.Live (.future (s.tasks t).future)) :
    c.futureOf (c.tasks.addr t) = (s.tasks t).future := by
  rw [futureOf, h.taskFuture ht, h.number_future hf]

theorem Refines.completed_addr (h : Refines σ pay c s) (ht : c.Live (.task t))
    (hf : c.Live (.future (s.tasks t).future)) :
    c.completed (c.tasks.addr t) = (s.futureOf t).isCompleted := by
  rw [completed, h.taskFuture ht, h.isCompleted hf, Executor.futureOf]

section Moved

variable {ts : List ℕ} {answer : ℕ → PollAnswer}

theorem Moved.task_of_stays (hmoved : Moved c (removedBlocks s answer ts) c₁)
    (hr : removes s answer t = false) (ht : c.Live (.task t)) : c₁.Live (.task t) := by
  refine hmoved.task t ht ?_
  rintro ⟨u, -, hrem, hb | hb⟩
  · rw [← Block.task.inj hb, hr] at hrem
    exact Bool.noConfusion hrem
  · exact absurd hb nofun

theorem Moved.future_of_stays (hmoved : Moved c (removedBlocks s answer ts) c₁)
    (hq : s.Queue ts) (hmem : t ∈ ts) (hr : removes s answer t = false)
    (hf : c.Live (.future (s.tasks t).future)) : c₁.Live (.future (s.tasks t).future) := by
  refine hmoved.future _ hf ?_
  rintro ⟨u, hu, hrem, hb | hb⟩
  · exact absurd hb nofun
  · -- another task has another future
    obtain rfl := List.inj_on_of_nodup_map hq.futures_nodup hmem hu (Block.future.inj hb)
    rw [hr] at hrem
    exact Bool.noConfusion hrem

/-- The tasks that are queued after a pass are in use. -/
theorem Refines.live_passQueue (h : Refines σ pay c s) (htask : ∀ t ∈ ts, c.Live (.task t))
    (hmoved : Moved c (removedBlocks s answer ts) c₁)
    (htop : c₁.tasks.top = s.taskTop + (ts.map (spawnsOf s answer)).sum) :
    ∀ t ∈ passQueue s answer ts, c₁.Live (.task t) := by
  intro t ht
  rcases of_mem_sweep ht with ⟨hle, hlt⟩ | ⟨hmem, hstays⟩
  · exact hmoved.newTask t (h.taskTop ▸ hle) (htop ▸ hlt)
  · exact hmoved.task_of_stays hstays (htask t hmem)

end Moved

/-- The queue in the heap is that of the addresses. -/
theorem Refines.links_holds (h : Refines σ pay c s) {ts : List ℕ} (hl : s.links.Holds ts)
    (hts : ∀ t ∈ ts, c.Live (.task t)) :
    c.links.Holds (ts.map c.tasks.addr) ∧ (ts.map c.tasks.addr).map c.tasks.number = ts := by
  have hhead : c.links.head = s.links.head.map c.tasks.addr := by
    show ptr? c.taskQueue = _
    rw [h.taskQueue]
    exact ptr?_ptrOf fun t ht => h.addr_ne_zero (hts t (hl.head_mem ht))
  constructor
  · show Chain c.links.next c.links.head _ none
    rw [hhead]
    refine Chain.map hl fun t ht => ?_
    show ptr? (c.field (c.tasks.addr t) 4) = _
    rw [h.taskNext (hts t ht)]
    exact ptr?_ptrOf fun u hu => h.addr_ne_zero (hts u (hl.next_mem ht hu))
  · rw [List.map_map]
    exact (List.map_congr_left fun t ht => h.latest _ (hts t ht)).trans (List.map_id ts)

end HeapExecutor

end Shogun.Async
