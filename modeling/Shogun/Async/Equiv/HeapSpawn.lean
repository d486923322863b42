import Shogun.Async.Equiv.HeapExecutor

/-!
# Spawning in the heap

What a poll function may do to the heap, as an effect on the abstract executor.  A future that is
created there is one that the abstract executor has had all along: `Agree` is equality but for the
futures of later numbers.

* `Refines.executorSpawn`: a call of `executor_spawn`, when the blocks it gets are clear.
* `Refines.newFuture`: a new future.
* `Acted`: what a poll function did, as calls of `executor_spawn`.
-/

namespace Shogun.Async

open Memory Memory.HeapState

/-! ### Equal but for new futures -/

/-- The executors differ at most in the futures from `n` on. -/
def Agree (n : ℕ) (s s' : Executor) : Prop :=
  ∃ futures, s' = { s with futures := futures } ∧ ∀ f < n, futures f = s.futures f

namespace Agree

variable {n n' : ℕ} {s s' s'' : Executor}

theorem refl (n : ℕ) (s : Executor) : Agree n s s := ⟨s.futures, rfl, fun _ _ => rfl⟩

theorem mono (h : Agree n s s') (hle : n' ≤ n) : Agree n' s s' := by
  obtain ⟨futures, rfl, hf⟩ := h
  exact ⟨futures, rfl, fun f hlt => hf f (hlt.trans_le hle)⟩

theorem trans (h : Agree n s s') (h' : Agree n s' s'') : Agree n s s'' := by
  obtain ⟨futures, rfl, hf⟩ := h
  obtain ⟨futures', rfl, hf'⟩ := h'
  exact ⟨futures', rfl, fun f hlt => (hf' f hlt).trans (hf f hlt)⟩

theorem future (h : Agree n s s') {f : ℕ} (hf : f < n) : s'.futures f = s.futures f := by
  obtain ⟨futures, rfl, hfut⟩ := h
  exact hfut f hf

theorem tasks (h : Agree n s s') : s'.tasks = s.tasks := by
  obtain ⟨futures, rfl, -⟩ := h
  rfl

theorem links (h : Agree n s s') : s'.links = s.links := by
  obtain ⟨futures, rfl, -⟩ := h
  rfl

theorem taskCount (h : Agree n s s') : s'.taskCount = s.taskCount := by
  obtain ⟨futures, rfl, -⟩ := h
  rfl

theorem taskTop (h : Agree n s s') : s'.taskTop = s.taskTop := by
  obtain ⟨futures, rfl, -⟩ := h
  rfl

theorem emit (h : Agree n s s') (events : List Event) :
    Agree n (s.emit events) (s'.emit events) := by
  obtain ⟨futures, rfl, hf⟩ := h
  exact ⟨futures, rfl, hf⟩

/-- An update of one future. -/
theorem update {futures : ℕ → Future} (hf : ∀ f < n, futures f = s.futures f) {g : ℕ}
    {F F' : Future} (hF : g < n → F' = F) :
    ∀ f < n, Function.update futures g F' f = Function.update s.futures g F f := by
  intro f hlt
  by_cases hfg : f = g
  · rw [hfg, Function.update_self, Function.update_self, hF (hfg ▸ hlt)]
  · rw [Function.update_of_ne hfg, Function.update_of_ne hfg, hf f hlt]

theorem setCompleted (h : Agree n s s') (f : ℕ) :
    Agree n (s.setCompleted f) (s'.setCompleted f) := by
  obtain ⟨futures, rfl, hf⟩ := h
  refine ⟨_, rfl, update hf fun hlt => ?_⟩
  dsimp only
  rw [hf f hlt]

theorem storePrev (h : Agree n s s') (prevPtr x : Option ℕ) :
    Agree n (s.storePrev prevPtr x) (s'.storePrev prevPtr x) := by
  obtain ⟨futures, rfl, hf⟩ := h
  cases prevPtr <;> exact ⟨futures, rfl, hf⟩

theorem executorSpawn (h : Agree n s s') (call : SpawnCall) :
    Agree n (executorSpawn s call) (executorSpawn s' call) := by
  obtain ⟨futures, rfl, hf⟩ := h
  obtain ⟨f, taskAllocated, wakerAllocated⟩ := call
  cases taskAllocated with
  | false => exact ⟨futures, rfl, hf⟩
  | true =>
    refine ⟨(Async.executorSpawn { s with futures := futures } ⟨f, true, wakerAllocated⟩).futures,
      by cases wakerAllocated <;> rfl, ?_⟩
    rw [executorSpawn_futures, executorSpawn_futures]
    exact update hf fun hlt => by
      dsimp only
      rw [hf f hlt]

theorem foldl_executorSpawn (h : Agree n s s') (calls : List SpawnCall) :
    Agree n (calls.foldl Async.executorSpawn s) (calls.foldl Async.executorSpawn s') := by
  induction calls generalizing s s' with
  | nil => exact h
  | cons call calls ih => exact ih (h.executorSpawn call)

/-- The release of a task whose future is an old one. -/
theorem releaseTask (h : Agree n s s') {t : ℕ} (ht : (s.tasks t).future < n) :
    Agree n (releaseTask s t) (releaseTask s' t) := by
  have hof : s'.futureOf t = s.futureOf t := by
    rw [Executor.futureOf, h.tasks, h.future ht]
    rfl
  have href : s'.refCounts = s.refCounts := by
    obtain ⟨futures, rfl, -⟩ := h
    rfl
  have hevents : releaseEvents s' t = releaseEvents s t :=
    releaseEvents_congr (by rw [h.tasks]) (by rw [hof]) (by rw [hof]) fun w _ => by rw [href]
  have hcounts : releaseRefCounts s' t = releaseRefCounts s t := by
    rw [releaseRefCounts, releaseRefCounts, hof, href]
  rw [releaseTask_eq, releaseTask_eq, hevents, hcounts]
  obtain ⟨futures, rfl, hf⟩ := h
  exact ⟨futures, rfl, hf⟩

theorem pollTask (h : Agree n s s') (answer : PollAnswer) {t : ℕ} (ht : (s.tasks t).future < n) :
    (pollTask s' answer t).2 = (pollTask s answer t).2
      ∧ Agree n (pollTask s answer t).1 (pollTask s' answer t).1 := by
  rw [Async.pollTask, Async.pollTask, h.tasks, h.future ht]
  by_cases hdone : (s.futures (s.tasks t).future).isCompleted = true
  · rw [if_pos hdone, if_pos hdone]
    exact ⟨rfl, h⟩
  · have hs := (h.emit [.poll (s.tasks t).future answer.state]).foldl_executorSpawn answer.spawns
    rw [if_neg hdone, if_neg hdone]
    dsimp only
    split
    · refine ⟨rfl, ?_⟩
      dsimp only
      rw [hs.tasks]
      exact hs.setCompleted _
    · exact ⟨rfl, hs⟩

theorem visitTask (h : Agree n s s') (answer : ℕ → PollAnswer) (l : Locals) {t : ℕ}
    (hlt : t < s.taskTop) (ht : (s.tasks t).future < n) :
    (visitTask answer s' l t).2 = (visitTask answer s l t).2
      ∧ Agree n (visitTask answer s l t).1 (visitTask answer s' l t).1 := by
  obtain ⟨hres, hp⟩ := h.pollTask (answer t) ht
  have hfut := (pollTask_spec answer hlt).2.task t hlt
  simp only [Async.visitTask, hres]
  split
  · have hstore := hp.storePrev l.prevPtr ((Async.pollTask s (answer t) t).1.tasks t).next
    rw [hp.tasks, hstore.tasks]
    refine ⟨rfl, hstore.releaseTask ?_⟩
    rw [((Async.pollTask s (answer t) t).1.storePrev_frame l.prevPtr _).1, hfut]
    exact ht
  · rw [hp.tasks]
    exact ⟨rfl, hp⟩

end Agree

/-- A store to the trace commutes with the spawns. -/
theorem foldl_executorSpawn_emit (s : Executor) (events : List Event) (calls : List SpawnCall) :
    calls.foldl executorSpawn (s.emit events) = (calls.foldl executorSpawn s).emit events := by
  induction calls generalizing s with
  | nil => rfl
  | cons call calls ih =>
    have hcall : executorSpawn (s.emit events) call = (executorSpawn s call).emit events := by
      obtain ⟨f, taskAllocated, wakerAllocated⟩ := call
      cases taskAllocated <;> cases wakerAllocated <;> rfl
    rw [List.foldl_cons, hcall, ih]
    rfl

/-- A spawn leaves the kind of a future. -/
theorem executorSpawn_vtable (s : Executor) (call : SpawnCall) (f : ℕ) :
    ((executorSpawn s call).futures f).vtable = (s.futures f).vtable := by
  obtain ⟨g, taskAllocated, wakerAllocated⟩ := call
  cases taskAllocated with
  | false => rfl
  | true =>
    rw [executorSpawn_futures]
    by_cases hfg : f = g
    · rw [hfg, Function.update_self]
    · rw [Function.update_of_ne hfg]

theorem foldl_executorSpawn_vtable (s : Executor) (calls : List SpawnCall) (f : ℕ) :
    ((calls.foldl executorSpawn s).futures f).vtable = (s.futures f).vtable := by
  induction calls generalizing s with
  | nil => rfl
  | cons call calls ih => exact (ih _).trans (executorSpawn_vtable s call f)

/-- The abstract executor has a new future. -/
def Executor.addFuture (s : Executor) (f : ℕ) (vtable : FutureVTable) : Executor :=
  { s with futures := Function.update s.futures f ⟨vtable, false, none⟩ }

namespace HeapExecutor

/-! ### The blocks that stay -/

/-- Every block of `c` is where it was, and nothing is freed. -/
structure Extends (c c' : HeapExecutor) : Prop where
  tasks : c.tasks.Grows c'.tasks
  futures : c.futures.Grows c'.futures
  wakers : c.wakers.Grows c'.wakers
  trace : c'.trace = c.trace

namespace Extends

variable {c c' c'' : HeapExecutor} {b : Block}

theorem refl (c : HeapExecutor) : Extends c c := ⟨.refl _, .refl _, .refl _, rfl⟩

theorem trans (h : Extends c c') (h' : Extends c' c'') : Extends c c'' :=
  ⟨h.tasks.trans h'.tasks, h.futures.trans h'.futures, h.wakers.trans h'.wakers,
    h'.trace.trans h.trace⟩

theorem created (h : Extends c c') (hb : c.Created b) : c'.Created b := by
  cases b with
  | task t => exact hb.trans_le h.tasks.top_le
  | future f => exact hb.trans_le h.futures.top_le
  | waker w => exact hb.trans_le h.wakers.top_le

theorem live (h : Extends c c') (hb : c.Live b) : c'.Live b :=
  ⟨h.created hb.1, by rw [h.trace]; exact hb.2⟩

end Extends

/-- What the two calls of `malloc` in `executor_spawn` get: clear blocks, or nothing. -/
def SpawnServed (c : HeapExecutor) (future : UInt32) : Prop :=
  c.memory.Full 8 ∨ c.memory.Clear 8 ∧ ∀ m task, c.memory.malloc 8 = some (m, task) →
    (m.setField task 0 future).Clear 12 ∨ (m.setField task 0 future).Full 12

/-! ### Spawning and the blocks of others -/

/-- What `waker_create` does to the blocks of others. -/
theorem wakerCreate_holds {c : HeapExecutor} {σ : Blocks} (h : c.memory.Holds σ)
    (hs : c.memory.Clear 12 ∨ c.memory.Full 12) (wake data : UInt32) :
    ∃ c' waker, c.wakerCreate wake data = some (c', waker) ∧ c'.memory.Holds σ := by
  rcases hs with hc | hfull
  · obtain ⟨m, p, hcode, hp0, hp, h₁, ho⟩ := h.malloc hc (by decide) (by decide)
    obtain ⟨ws, hlen, h₂⟩ := h₁.add (n := 3) ho
    have h₃ := h₂.setField (k := 0) (i := 0) (Function.update_self ..) rfl (by omega) wake
    have h₄ := h₃.setField (k := 8) (i := 2) (Function.update_self ..) rfl (by simp [hlen]) data
    have h₅ := h₄.setField (k := 4) (i := 1) (Function.update_self ..) rfl (by simp [hlen]) 1
    rw [Function.update_idem, Function.update_idem, Function.update_idem] at h₅
    rw [HeapExecutor.wakerCreate, hcode, Option.map_some]
    dsimp only
    rw [if_neg hp0]
    exact ⟨_, p, rfl, h₅.forget hp⟩
  · refine ⟨c, 0, ?_, h⟩
    rw [HeapExecutor.wakerCreate, hfull.malloc (by decide), Option.map_some]
    rfl

/-- What `executor_spawn` does to the blocks of others: it sets the waker of the future. -/
theorem executorSpawn_holds {c : HeapExecutor} {σ : Blocks} {future : UInt32} {ws : List UInt32}
    (h : c.memory.Holds σ) (hf : σ future = some ws) (hlen : 2 < ws.length)
    (hs : c.SpawnServed future) :
    ∃ c' waker, c.executorSpawn future = some c' ∧
      c'.memory.Holds (Function.update σ future (some (ws.set 2 waker))) := by
  rcases hs with hfull | ⟨hc, hs⟩
  · refine ⟨c, ws[2], ?_, ?_⟩
    · rw [HeapExecutor.executorSpawn, hfull.malloc (by decide), Option.bind_some]
      rfl
    · rw [List.set_getElem_self, ← hf, Function.update_eq_self]
      exact h
  · obtain ⟨m, p, hcode, hp0, hp, h₁, ho⟩ := h.malloc hc (by decide) (by decide)
    obtain ⟨vs, hlen', h₂⟩ := h₁.add (n := 2) ho
    have h₃ := h₂.setField (k := 0) (i := 0) (Function.update_self ..) rfl (by omega) future
    rw [Function.update_idem] at h₃
    obtain ⟨c₄, waker, hwaker, h₄⟩ := wakerCreate_holds
      (c := ({ c with memory := m } : HeapExecutor).setField p 0 future) h₃ (hs m p hcode)
      executorWakerWake 0
    have hne : future ≠ p := by
      rintro rfl
      exact absurd (hf.symm.trans hp) nofun
    have hread : c₄.field p 0 = future :=
      h₄.field (i := 0) (Function.update_self ..) rfl (by simp [hlen'])
    -- the store of the waker goes to the future, the others to the new block
    have h₅ := h₄.setField (k := 8) (i := 2) ((Function.update_of_ne hne _ _).trans hf) rfl hlen
      waker
    have h₆ := h₅.setField (k := 4) (i := 1)
      ((Function.update_of_ne hne.symm _ _).trans (Function.update_self ..)) rfl (by simp [hlen'])
      c₄.taskQueue
    rw [Function.update_comm hne, Function.update_idem, Function.update_comm hne.symm] at h₆
    rw [HeapExecutor.executorSpawn, hcode, Option.bind_some]
    dsimp only
    rw [if_neg hp0, hwaker, Option.map_some]
    dsimp only
    rw [hread]
    refine ⟨_, waker, rfl, h₆.forget ?_⟩
    rw [Function.update_of_ne hne.symm]
    exact hp

namespace Refines

variable {σ : Blocks} {pay : ℕ → List UInt32} {c : HeapExecutor} {s : Executor} {f : ℕ}

/-! ### Spawning -/

theorem set_two {ws : List UInt32} (hlen : ws.length = 2) (a b : UInt32) :
    (ws.set 0 a).set 1 b = [a, b] := by
  match ws, hlen with
  | [_, _], _ => rfl

theorem set_three {ws : List UInt32} (hlen : ws.length = 3) (a b d : UInt32) :
    ((ws.set 0 a).set 2 d).set 1 b = [a, b, d] := by
  match ws, hlen with
  | [_, _, _], _ => rfl

/-- What is not in use by the executor, and not free, in both heaps. -/
def KeepsUntracked (σ : Blocks) (c : HeapExecutor) (σ' : Blocks) (c' : HeapExecutor) : Prop :=
  ∀ q ws, σ q = some ws → (∀ b, c.Live b → c.addr b ≠ q) →
    σ' q = some ws ∧ ∀ b, c'.Live b → c'.addr b ≠ q

/-- `waker_create`, when the block it gets is clear or it gets none. -/
theorem wakerCreate (h : Refines σ pay c s) (hs : c.memory.Clear 12 ∨ c.memory.Full 12)
    (wake data : UInt32) :
    ∃ c' allocated σ', c.wakerCreate wake data
        = some (c', ptrOf c'.wakers.addr (Async.wakerCreate s allocated).2) ∧
      Refines σ' pay c' (Async.wakerCreate s allocated).1 ∧ Extends c c' ∧
      KeepsUntracked σ c σ' c' ∧
      (∀ w, (Async.wakerCreate s allocated).2 = some w → c'.Live (.waker w) ∧ s.wakerTop ≤ w) ∧
      c'.futures = c.futures ∧ c'.tasks = c.tasks ∧ c'.log = c.log := by
  rcases hs with hc | hfull
  · obtain ⟨m, p, ws, hcode, hp0, hlen, hp, h₁⟩ := h.malloc (n := 2) hc rfl (by decide)
    have hne : ∀ b, c.Live b → c.addr b ≠ p := h.addr_ne hp
    have h₂ := h₁.setUntracked (k := 0) (i := 0) (Function.update_self ..) hne rfl (by omega) wake
    have h₃ := h₂.setUntracked (k := 8) (i := 2) (Function.update_self ..) hne rfl
      (by simp [hlen]) data
    have h₄ := h₃.setUntracked (k := 4) (i := 1) (Function.update_self ..) hne rfl
      (by simp [hlen]) 1
    rw [Function.update_idem, Function.update_idem, Function.update_idem, set_three hlen] at h₄
    have h₅ := h₄.addWaker hne (Function.update_self ..)
    have ht := h₄.tracks_waker p
    refine ⟨_, true, _, ?_, h₅, ⟨.refl _, .refl _, .add _ _, rfl⟩, ?_, ?_, rfl, rfl, rfl⟩
    · rw [HeapExecutor.wakerCreate, hcode, Option.map_some]
      dsimp only
      rw [if_neg hp0]
      show some (_, p) = some (_, (c.wakers.add p).addr s.wakerTop)
      rw [← h.wakerTop, Numbering.add_addr_top]
    · -- a block that is none of the executor's, such as a task not queued yet
      intro q vs hq hother
      have hqp : q ≠ p := by
        rintro rfl
        exact absurd (hq.symm.trans hp) nofun
      refine ⟨(Function.update_of_ne hqp _ _).trans hq, fun b hb => ?_⟩
      rcases (ht.live b).mp hb with rfl | hb
      · exact fun heq => hqp (heq.symm.trans ht.addr_new)
      · exact fun heq => hother b hb ((ht.addr b hb).symm.trans heq)
    · intro w hw
      obtain rfl := Option.some.inj hw
      exact ⟨(ht.live _).mpr (.inl (congrArg Block.waker h.wakerTop.symm)), le_rfl⟩
  · refine ⟨c, false, σ, ?_, h, .refl c, fun q vs hq hother => ⟨hq, hother⟩, nofun, rfl, rfl,
      rfl⟩
    rw [HeapExecutor.wakerCreate, hfull.malloc (by decide), Option.map_some]
    rfl

theorem executorSpawn_eq {s s₁ : Executor} {f : ℕ} {wakerAllocated : Bool}
    (h : s₁ = (Async.wakerCreate s wakerAllocated).1.setWaker f
      (Async.wakerCreate s wakerAllocated).2) :
    Async.executorSpawn s ⟨f, true, wakerAllocated⟩
      = { s₁ with
          taskQueue := some s₁.taskTop
          tasks := Function.update s₁.tasks s₁.taskTop ⟨f, s₁.taskQueue⟩
          taskTop := s₁.taskTop + 1
          taskCount := s₁.taskCount + 1
          shouldPoll := true } := by
  subst h
  cases wakerAllocated <;>
    simp [Async.executorSpawn, Async.wakerCreate, Executor.setTaskFuture, Executor.setWaker,
      Executor.setTaskNext]

/-- `executor_spawn` on a future in use. -/
theorem executorSpawn (h : Refines σ pay c s) (hf : c.Live (.future f))
    (hs : c.SpawnServed (c.futures.addr f)) :
    ∃ c' σ' call, c.executorSpawn (c.futures.addr f) = some c' ∧
      Refines σ' pay c' (Async.executorSpawn s call) ∧ Extends c c' ∧ call.future = f ∧
      (call.taskAllocated = true ↔ c.memory.Clear 8) ∧ c'.futures = c.futures ∧ c'.log = c.log := by
  rcases hs with hfull | ⟨hc, hs⟩
  · refine ⟨c, σ, ⟨f, false, false⟩, ?_, h, .refl c, rfl, ⟨nofun, fun hc => ?_⟩, rfl, rfl⟩
    · rw [HeapExecutor.executorSpawn, hfull.malloc (by decide), Option.bind_some]
      rfl
    · exact absurd hc hfull.not_clear
  · obtain ⟨m, p, ws, hcode, hp0, hlen, hp, h₁⟩ := h.malloc (n := 1) hc rfl (by decide)
    have hne : ∀ b, c.Live b → c.addr b ≠ p := h.addr_ne hp
    have h₂ := h₁.setUntracked (k := 0) (i := 0) (Function.update_self ..) hne rfl (by omega)
      (c.futures.addr f)
    obtain ⟨c₃, allocated, σ₃, hwaker, h₃, he, hkeep, hnew, hfut, -, hlog⟩ :=
      h₂.wakerCreate (hs m p hcode) executorWakerWake 0
    obtain ⟨hσ₃, hne₃⟩ := hkeep p _ (Function.update_self ..) hne
    have hf₃ : c₃.Live (.future f) := he.live hf
    have haddr : c₃.futures.addr f = c.futures.addr f := he.futures.addr f hf.1
    have he' : Extends c c₃ := ⟨he.tasks, he.futures, he.wakers, he.trace⟩
    have hfut' : c₃.futures = c.futures := hfut
    have htrace : c₃.trace = c.trace := he.trace
    obtain ⟨vs, h₄⟩ := h₃.setWaker hf₃ (fun w hw => (hnew w hw).1) fun w hw g hg hgw => by
      -- a waker that another future has is not the new one
      have hg' : c.Live (.future g) := by
        refine ⟨?_, htrace ▸ hg.2⟩
        show g < c.futures.top
        rw [← hfut']
        exact hg.1
      have hgw' : (s.futures g).waker = some w := by cases allocated <;> exact hgw
      have hlt := (h.refers.waker_live g hg' w hgw').1
      rw [show c.Created (.waker w) = (w < c.wakers.top) from rfl, h.wakerTop] at hlt
      exact absurd (hnew w hw).2 (not_le.mpr hlt)
    have hfp : p ≠ c₃.futures.addr f := (hne₃ _ hf₃).symm
    have hσ₄ := (Function.update_of_ne hfp (some vs) σ₃).trans hσ₃
    have hread : c₃.field p 0 = c.futures.addr f :=
      h₃.holds.field (i := 0) hσ₃ rfl (by simp [hlen])
    have h₅ := h₄.setUntracked (k := 4) (i := 1) hσ₄ hne₃ rfl (by simp [hlen]) c₃.taskQueue
    rw [set_two hlen] at h₅
    have h₆ := h₅.linkTask hne₃ hf₃.1 (by rw [Function.update_self, ← haddr]; rfl)
    rw [← executorSpawn_eq rfl] at h₆
    refine ⟨_, _, ⟨f, true, allocated⟩, ?_, h₆, ?_, rfl, ⟨fun _ => hc, fun _ => rfl⟩, hfut', hlog⟩
    · rw [HeapExecutor.executorSpawn, hcode, Option.bind_some]
      dsimp only
      rw [if_neg hp0, hwaker, Option.map_some]
      dsimp only
      rw [hread, ← haddr]
      rfl
    · exact he'.trans ⟨.add _ _, .refl _, .refl _, rfl⟩

/-! ### Creating a future -/

theorem set_base {ws : List UInt32} {n : ℕ} (hlen : ws.length = n + 3) (a b d : UInt32) :
    ∃ rest, rest.length = n ∧ ((ws.set 0 a).set 1 b).set 2 d = a :: b :: d :: rest := by
  match ws, hlen with
  | _ :: _ :: _ :: rest, hlen => exact ⟨rest, by simpa using hlen, rfl⟩

/-- The creation of a future, when the block it gets is clear. -/
theorem newFuture (h : Refines σ pay c s) (vtable : FutureVTable) {size : UInt32} {n : ℕ}
    (hsize : size.toNat = 4 * (n + 3)) (hlt : size.toNat < 2 ^ 31) (hc : c.memory.Clear size) :
    ∃ c' σ' ws, c.newFuture vtable size = some (c', c'.futures.addr c.futures.top) ∧
      ws.length = n ∧
      Refines σ' (Function.update pay c.futures.top ws) c' (s.addFuture c.futures.top vtable) ∧
      Extends c c' ∧ c'.futures.top = c.futures.top + 1 ∧ c'.tasks = c.tasks ∧
      c'.log = c.log ∧ c'.Live (.future c.futures.top) := by
  obtain ⟨m, p, ws, hcode, hp0, hlen, hp, h₁⟩ := h.malloc (n := n + 2) hc hsize hlt
  have hne : ∀ b, c.Live b → c.addr b ≠ p := h.addr_ne hp
  have h₂ := h₁.setUntracked (k := 0) (i := 0) (Function.update_self ..) hne rfl (by omega)
    vtable.addr
  obtain ⟨w, hw, h₃⟩ := h₂.setBoolUntracked (k := 4) (i := 1) (Function.update_self ..) hne rfl
    (by simp [hlen]) false
  have h₄ := h₃.setUntracked (k := 8) (i := 2) (Function.update_self ..) hne rfl (by simp [hlen]) 0
  obtain ⟨rest, hrest, hset⟩ := set_base hlen vtable.addr w 0
  rw [Function.update_idem, Function.update_idem, Function.update_idem, hset] at h₄
  have h₅ := h₄.addFuture hne hw (Function.update_self ..)
  have hlive := (h₄.tracks_future p).live (.future c.futures.top)
  refine ⟨_, _, rest, ?_, hrest, h₅, ⟨.refl _, .add _ _, .refl _, rfl⟩, rfl, rfl, rfl,
    hlive.mpr (.inl rfl)⟩
  rw [HeapExecutor.newFuture, hcode, Option.map_some]
  dsimp only
  rw [if_neg hp0]
  show some (_, p) = some (_, (c.futures.add p).addr c.futures.top)
  rw [Numbering.add_addr_top]

end Refines

/-! ### What a poll does -/

/-- `c'` holds `s'` after what a poll did to `c`, which holds `s`; on the abstract side that is the
calls of `executor_spawn`. -/
structure Acted (c : HeapExecutor) (s : Executor) (calls : List SpawnCall) (c' : HeapExecutor)
    (s' : Executor) : Prop where
  grows : Extends c c'
  agree : Agree c.futures.top (calls.foldl Async.executorSpawn s) s'

section Acted

variable {pay pay₁ pay₂ : ℕ → List UInt32} {c c₁ c₂ : HeapExecutor} {s s₁ s₂ : Executor}
  {calls calls' : List SpawnCall}

theorem Acted.refl (c : HeapExecutor) (s : Executor) : Acted c s [] c s := ⟨.refl c, .refl _ s⟩

theorem Acted.trans (h : Acted c s calls c₁ s₁) (h' : Acted c₁ s₁ calls' c₂ s₂) :
    Acted c s (calls ++ calls') c₂ s₂ where
  grows := h.grows.trans h'.grows
  agree := by
    rw [List.foldl_append]
    exact (h.agree.foldl_executorSpawn calls').trans (h'.agree.mono h.grows.futures.top_le)

end Acted

end HeapExecutor

end Shogun.Async
