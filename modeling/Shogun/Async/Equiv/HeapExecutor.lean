import Shogun.Async.Equiv.Visit
import Shogun.Async.HeapExecutor
import Shogun.Memory.Equiv.BlockStore

/-!
# The executor in the heap is the executor of numbered blocks

`Refines`: the heap holds what the abstract executor has, each block that was handed out and not
freed at an address of its own.  This file has the steps that both sides are made of: stores to the
fields of a block, a new block, and `free`.
-/

namespace Shogun.Async

open Memory Memory.HeapState LinkedList LinkedList.Links

namespace Numbering

variable {n : Numbering} {p q : UInt32} {d : ℕ}

theorem add_addr_top : (n.add p).addr n.top = p := Function.update_self ..

theorem add_addr (hd : d < n.top) : (n.add p).addr d = n.addr d :=
  Function.update_of_ne hd.ne _ _

theorem add_number_self : (n.add p).number p = n.top := Function.update_self ..

theorem add_number (hq : q ≠ p) : (n.add p).number q = n.number q :=
  Function.update_of_ne hq _ _

theorem lt_add_top : d < (n.add p).top ↔ d = n.top ∨ d < n.top :=
  Nat.lt_succ_iff_lt_or_eq.trans or_comm

/-- The blocks of `n` are where they were in `n'`. -/
structure Grows (n n' : Numbering) : Prop where
  top_le : n.top ≤ n'.top
  addr : ∀ d < n.top, n'.addr d = n.addr d

theorem Grows.refl (n : Numbering) : Grows n n := ⟨le_rfl, fun _ _ => rfl⟩

theorem Grows.add (n : Numbering) (p : UInt32) : Grows n (n.add p) :=
  ⟨Nat.le_succ _, fun _ hd => add_addr hd⟩

theorem Grows.trans {n n₁ n₂ : Numbering} (h : Grows n n₁) (h' : Grows n₁ n₂) : Grows n n₂ :=
  ⟨h.top_le.trans h'.top_le, fun d hd => (h'.addr d (hd.trans_le h.top_le)).trans (h.addr d hd)⟩

theorem latest_add_top : (n.add p).number ((n.add p).addr n.top) = n.top := by
  rw [add_addr_top, add_number_self]

theorem latest_add (hd : d < n.top) (hne : n.addr d ≠ p) (hl : n.number (n.addr d) = d) :
    (n.add p).number ((n.add p).addr d) = d := by
  rw [add_addr hd, add_number hne, hl]

/-- What is in use after the block `n.top` of its kind was handed out. -/
theorem live_add (kind : ℕ → Block) {trace : List Event} (hnew : .free (kind n.top) ∉ trace) :
    d < (n.add p).top ∧ .free (kind d) ∉ trace
      ↔ d = n.top ∨ d < n.top ∧ .free (kind d) ∉ trace := by
  rw [lt_add_top]
  constructor
  · rintro ⟨rfl | hlt, hfree⟩
    · exact .inl rfl
    · exact .inr ⟨hlt, hfree⟩
  · rintro (rfl | ⟨hlt, hfree⟩)
    · exact ⟨.inl rfl, hnew⟩
    · exact ⟨.inr hlt, hfree⟩

end Numbering

namespace HeapExecutor

/-- The pointer cells of the task queue. -/
def links (c : HeapExecutor) : Links UInt32 where
  head := ptr? c.taskQueue
  next p := ptr? (c.field p 4)

/-! ### The relation -/

section Blocks

variable (c : HeapExecutor)

def addr : Block → UInt32
  | .task t => c.tasks.addr t
  | .future f => c.futures.addr f
  | .waker w => c.wakers.addr w

/-- `malloc` has handed the block out. -/
def Created : Block → Prop
  | .task t => t < c.tasks.top
  | .future f => f < c.futures.top
  | .waker w => w < c.wakers.top

/-- The block was handed out and is not freed. -/
def Live (b : Block) : Prop := c.Created b ∧ .free b ∉ c.trace

/-- The block is the latest at its address. -/
def Latest : Block → Prop
  | .task t => c.tasks.number (c.tasks.addr t) = t
  | .future f => c.futures.number (c.futures.addr f) = f
  | .waker w => c.wakers.number (c.wakers.addr w) = w

/-- The words of a block; `pay` is what a future has behind its `base`. -/
def Content (pay : ℕ → List UInt32) (s : Executor) : Block → List UInt32 → Prop
  | .task t, ws => ws = [c.futures.addr (s.tasks t).future, ptrOf c.tasks.addr (s.tasks t).next]
  | .future f, ws => ∃ w : UInt32, (w.toUInt8 != 0) = (s.futures f).isCompleted ∧
      ws = (s.futures f).vtable.addr :: w :: ptrOf c.wakers.addr (s.futures f).waker :: pay f
  | .waker w, ws => ∃ wake data, ws = [wake, s.refCounts w, data]

/-- In `c'` the block `b₀`, at `p`, is in use besides the blocks in use in `c`. -/
structure Tracks (b₀ : Block) (p : UInt32) (c' : HeapExecutor) : Prop where
  live : ∀ b, c'.Live b ↔ b = b₀ ∨ c.Live b
  addr_new : c'.addr b₀ = p
  latest_new : c'.Latest b₀
  addr : ∀ b, c.Live b → c'.addr b = c.addr b
  latest : ∀ b, c.Live b → c.addr b ≠ p → c.Latest b → c'.Latest b

/-- The pointers in the blocks in use are to blocks that were handed out; the waker of a future is
in use, and no other future has it. -/
structure Refers (s : Executor) : Prop where
  queue_lt : ∀ t, s.taskQueue = some t → t < c.tasks.top
  future_lt : ∀ t, c.Live (.task t) → (s.tasks t).future < c.futures.top
  next_lt : ∀ t, c.Live (.task t) → ∀ u, (s.tasks t).next = some u → u < c.tasks.top
  waker_live : ∀ f, c.Live (.future f) → ∀ w, (s.futures f).waker = some w → c.Live (.waker w)
  waker_inj : ∀ f g, c.Live (.future f) → c.Live (.future g) → ∀ w,
    (s.futures f).waker = some w → (s.futures g).waker = some w → f = g

end Blocks

/-- The heap of `c` holds the executor `s`: its blocks are among the blocks of `σ`. -/
structure Refines (σ : Blocks) (pay : ℕ → List UInt32) (c : HeapExecutor) (s : Executor) :
    Prop where
  holds : c.memory.Holds σ
  taskQueue : c.taskQueue = ptrOf c.tasks.addr s.taskQueue
  taskCount : c.taskCount = s.taskCount
  shouldPoll : c.shouldPoll = s.shouldPoll
  trace : c.trace = s.trace
  taskTop : c.tasks.top = s.taskTop
  wakerTop : c.wakers.top = s.wakerTop
  content : ∀ b, c.Live b → ∃ ws, σ (c.addr b) = some ws ∧ c.Content pay s b ws
  inj : ∀ b b', c.Live b → c.Live b' → c.addr b = c.addr b' → b = b'
  latest : ∀ b, c.Live b → c.Latest b
  freed : ∀ b, .free b ∈ c.trace → c.Created b
  refers : c.Refers s

namespace Refines

variable {σ : Blocks} {pay : ℕ → List UInt32} {c : HeapExecutor} {s : Executor} {t f w : ℕ}
  {b : Block} {m : HeapState} {p : UInt32} {ws : List UInt32}

/-! ### Reading -/

theorem addr_ne_zero (h : Refines σ pay c s) (hb : c.Live b) : c.addr b ≠ 0 := by
  obtain ⟨ws, hws, -⟩ := h.content b hb
  exact h.holds.ne_zero hws

theorem task_words (h : Refines σ pay c s) (ht : c.Live (.task t)) :
    σ (c.tasks.addr t)
      = some [c.futures.addr (s.tasks t).future, ptrOf c.tasks.addr (s.tasks t).next] := by
  obtain ⟨ws, hws, rfl⟩ := h.content _ ht
  exact hws

theorem taskFuture (h : Refines σ pay c s) (ht : c.Live (.task t)) :
    c.field (c.tasks.addr t) 0 = c.futures.addr (s.tasks t).future :=
  h.holds.field (i := 0) (h.task_words ht) rfl rfl

theorem taskNext (h : Refines σ pay c s) (ht : c.Live (.task t)) :
    c.field (c.tasks.addr t) 4 = ptrOf c.tasks.addr (s.tasks t).next :=
  h.holds.field (i := 1) (h.task_words ht) rfl rfl

theorem future_words (h : Refines σ pay c s) (hf : c.Live (.future f)) :
    ∃ w : UInt32, (w.toUInt8 != 0) = (s.futures f).isCompleted ∧
      σ (c.futures.addr f) = some ((s.futures f).vtable.addr :: w
        :: ptrOf c.wakers.addr (s.futures f).waker :: pay f) := by
  obtain ⟨ws, hws, w, hw, rfl⟩ := h.content _ hf
  exact ⟨w, hw, hws⟩

theorem vtable (h : Refines σ pay c s) (hf : c.Live (.future f)) :
    c.field (c.futures.addr f) 0 = (s.futures f).vtable.addr := by
  obtain ⟨w, -, hws⟩ := h.future_words hf
  exact h.holds.field (i := 0) hws rfl rfl

theorem isCompleted (h : Refines σ pay c s) (hf : c.Live (.future f)) :
    c.boolField (c.futures.addr f) 4 = (s.futures f).isCompleted := by
  obtain ⟨w, hw, hws⟩ := h.future_words hf
  rw [← hw]
  exact h.holds.boolField (i := 1) hws rfl rfl

theorem waker (h : Refines σ pay c s) (hf : c.Live (.future f)) :
    c.field (c.futures.addr f) 8 = ptrOf c.wakers.addr (s.futures f).waker := by
  obtain ⟨w, -, hws⟩ := h.future_words hf
  exact h.holds.field (i := 2) hws rfl rfl

/-- A field of a future behind its `base`. -/
theorem payload (h : Refines σ pay c s) (hf : c.Live (.future f)) {k v : UInt32} {i : ℕ}
    (hk : k.toNat = 4 * (i + 3)) (hv : (pay f)[i]? = some v) :
    c.field (c.futures.addr f) k = v := by
  obtain ⟨w, -, hws⟩ := h.future_words hf
  exact h.holds.field hws hk hv

theorem refCount (h : Refines σ pay c s) (hw : c.Live (.waker w)) :
    c.field (c.wakers.addr w) 4 = s.refCounts w := by
  obtain ⟨ws, hws, wake, data, rfl⟩ := h.content _ hw
  exact h.holds.field (i := 1) hws rfl rfl

/-! ### Writing -/

/-- What happens to memory that belongs to no block in use. -/
theorem untracked (h : Refines σ pay c s) (hp : ∀ b, c.Live b → c.addr b ≠ p)
    {x : Option (List UInt32)} (hm : m.Holds (Function.update σ p x)) :
    Refines (Function.update σ p x) pay { c with memory := m } s :=
  { h with
    holds := hm
    content := fun b hb => by
      obtain ⟨ws, hws, hc⟩ := h.content b hb
      exact ⟨ws, (Function.update_of_ne (hp b hb) _ _).trans hws, hc⟩
    refers := { h.refers with } }

/-- An address that `σ` says nothing of is that of no block in use. -/
theorem addr_ne (h : Refines σ pay c s) (hp : σ p = none) : ∀ b, c.Live b → c.addr b ≠ p := by
  rintro b hb rfl
  obtain ⟨ws, hws, -⟩ := h.content b hb
  exact absurd (hws.symm.trans hp) (by simp)

/-- A block gets other words. -/
theorem rewrite (h : Refines σ pay c s) (hb : c.Live b)
    (hm : m.Holds (Function.update σ (c.addr b) (some ws))) {pay' : ℕ → List UInt32}
    {tasks : ℕ → Task} {futures : ℕ → Future} {refCounts : ℕ → UInt32}
    (hself : c.Content pay'
      { s with tasks := tasks, futures := futures, refCounts := refCounts } b ws)
    (hother : ∀ b', b' ≠ b → c.Live b' → ∀ vs, c.Content pay s b' vs →
      c.Content pay' { s with tasks := tasks, futures := futures, refCounts := refCounts } b' vs)
    (href : c.Refers { s with tasks := tasks, futures := futures, refCounts := refCounts }) :
    Refines (Function.update σ (c.addr b) (some ws)) pay' { c with memory := m }
      { s with tasks := tasks, futures := futures, refCounts := refCounts } where
  holds := hm
  taskQueue := h.taskQueue
  taskCount := h.taskCount
  shouldPoll := h.shouldPoll
  trace := h.trace
  taskTop := h.taskTop
  wakerTop := h.wakerTop
  content := by
    intro b' hb'
    by_cases hne : b' = b
    · rw [hne]
      exact ⟨ws, Function.update_self .., hself⟩
    · obtain ⟨vs, hvs, hc⟩ := h.content b' hb'
      refine ⟨vs, ?_, hother b' hne hb' vs hc⟩
      exact (Function.update_of_ne (fun heq => hne (h.inj b' b hb' hb heq)) _ _).trans hvs
  inj := h.inj
  latest := h.latest
  freed := h.freed
  refers := { href with }

/-- `task->next = x`. -/
theorem setTaskNext (h : Refines σ pay c s) (ht : c.Live (.task t)) {x : Option ℕ}
    (hx : ∀ u, x = some u → u < c.tasks.top) :
    ∃ σ', Refines σ' pay (c.setField (c.tasks.addr t) 4 (ptrOf c.tasks.addr x))
      (s.setTaskNext t x) := by
  have hm := h.holds.setField (h.task_words ht) (k := 4) (i := 1) rfl (Nat.lt_add_one 1)
    (ptrOf c.tasks.addr x)
  refine ⟨_, h.rewrite ht hm ?_ ?_ { h.refers with future_lt := ?_, next_lt := ?_ }⟩
  · show _ = _
    dsimp only
    rw [Function.update_self]
    rfl
  · intro b' hne _ vs hc
    cases b' with
    | task u =>
      have hu : u ≠ t := fun heq => hne (heq ▸ rfl)
      show _ = _
      dsimp only
      rw [Function.update_of_ne hu]
      exact hc
    | future f => exact hc
    | waker w => exact hc
  · intro u hu
    show ((s.setTaskNext t x).tasks u).future < _
    rw [s.setTaskNext_future t x u]
    exact h.refers.future_lt u hu
  · intro u hu d hd
    by_cases hut : u = t
    · rw [hut] at hd
      dsimp only at hd
      rw [Function.update_self] at hd
      exact hx d hd
    · dsimp only at hd
      rw [Function.update_of_ne hut] at hd
      exact h.refers.next_lt u hu d hd

/-- A future gets other words. -/
theorem rewriteFuture (h : Refines σ pay c s) (hf : c.Live (.future f)) {F : Future}
    (pay' : ℕ → List UInt32) {w : UInt32} (hw : (w.toUInt8 != 0) = F.isCompleted)
    (hpay : ∀ g, g ≠ f → pay' g = pay g)
    (hlive : ∀ w, F.waker = some w → c.Live (.waker w))
    (hinj : ∀ w, F.waker = some w → ∀ g, c.Live (.future g) → (s.futures g).waker = some w → g = f)
    (hm : m.Holds (Function.update σ (c.futures.addr f)
      (some (F.vtable.addr :: w :: ptrOf c.wakers.addr F.waker :: pay' f)))) :
    Refines (Function.update σ (c.futures.addr f)
        (some (F.vtable.addr :: w :: ptrOf c.wakers.addr F.waker :: pay' f))) pay'
      { c with memory := m } { s with futures := Function.update s.futures f F } := by
  refine h.rewrite hf hm ?_ ?_ { h.refers with waker_live := ?_, waker_inj := ?_ }
  · refine ⟨w, ?_⟩
    dsimp only
    rw [Function.update_self]
    exact ⟨hw, rfl⟩
  · intro b' hne _ vs hc
    cases b' with
    | task u => exact hc
    | future g =>
      have hg : g ≠ f := fun heq => hne (heq ▸ rfl)
      show ∃ _, _
      dsimp only
      rw [Function.update_of_ne hg, hpay g hg]
      exact hc
    | waker w => exact hc
  · intro g hg v hv
    dsimp only at hv
    by_cases hgf : g = f
    · rw [hgf, Function.update_self] at hv
      exact hlive v hv
    · rw [Function.update_of_ne hgf] at hv
      exact h.refers.waker_live g hg v hv
  · -- two futures with one waker: `f` is neither, or both
    intro g g' hg hg' v hv hv'
    dsimp only at hv hv'
    by_cases hgf : g = f
    · rw [hgf, Function.update_self] at hv
      by_cases hgf' : g' = f
      · rw [hgf, hgf']
      · rw [Function.update_of_ne hgf'] at hv'
        rw [hgf]
        exact (hinj v hv g' hg' hv').symm
    · rw [Function.update_of_ne hgf] at hv
      by_cases hgf' : g' = f
      · rw [hgf', Function.update_self] at hv'
        rw [hgf']
        exact hinj v hv' g hg hv
      · rw [Function.update_of_ne hgf'] at hv'
        exact h.refers.waker_inj g g' hg hg' v hv hv'

/-- `future->waker = x`, with a waker of its own. -/
theorem setWaker (h : Refines σ pay c s) (hf : c.Live (.future f)) {x : Option ℕ}
    (hlive : ∀ w, x = some w → c.Live (.waker w))
    (hinj : ∀ w, x = some w → ∀ g, c.Live (.future g) → (s.futures g).waker ≠ some w) :
    ∃ ws, Refines (Function.update σ (c.futures.addr f) (some ws)) pay
      (c.setField (c.futures.addr f) 8 (ptrOf c.wakers.addr x)) (s.setWaker f x) := by
  obtain ⟨w, hw, hws⟩ := h.future_words hf
  have hm := h.holds.setField hws (k := 8) (i := 2) rfl (by simp) (ptrOf c.wakers.addr x)
  exact ⟨_, h.rewriteFuture hf (F := { s.futures f with waker := x }) pay hw (fun _ _ => rfl)
    hlive
    (fun w hx g hg hgw => absurd hgw (hinj w hx g hg)) hm⟩

/-- `future->is_completed = true`. -/
theorem setCompleted (h : Refines σ pay c s) (hf : c.Live (.future f)) :
    ∃ σ', Refines σ' pay (c.setBoolField (c.futures.addr f) 4 true) (s.setCompleted f) := by
  obtain ⟨w, hw, hws⟩ := h.future_words hf
  obtain ⟨v, hv, hm⟩ := h.holds.setBoolField hws (k := 4) (i := 1) rfl (by simp) true
  exact ⟨_, h.rewriteFuture hf (F := { s.futures f with isCompleted := true }) pay hv
    (fun _ _ => rfl) (h.refers.waker_live f hf)
    (fun w hx g hg hgw => h.refers.waker_inj g f hg hf w hgw hx) hm⟩

/-- A store behind the `base` of a future. -/
theorem setPayload (h : Refines σ pay c s) (hf : c.Live (.future f)) {k : UInt32} {i : ℕ}
    (hk : k.toNat = 4 * (i + 3)) (hi : i < (pay f).length) (v : UInt32) :
    ∃ σ', Refines σ' (Function.update pay f ((pay f).set i v))
      (c.setField (c.futures.addr f) k v) s := by
  obtain ⟨w, hw, hws⟩ := h.future_words hf
  have hm := h.holds.setField hws hk (by simp; omega) v
  have hset := h.rewriteFuture hf (F := s.futures f)
    (Function.update pay f ((pay f).set i v)) hw (fun g hg => Function.update_of_ne hg _ _)
    (h.refers.waker_live f hf) (fun w hx g hg hgw => h.refers.waker_inj g f hg hf w hgw hx)
    (by rw [Function.update_self]; exact hm)
  rw [Function.update_eq_self] at hset
  exact ⟨_, hset⟩

/-- More is known of a future than its `base`: all the words of its block. -/
theorem extendPayload (h : Refines σ pay c s) (hf : c.Live (.future f)) {n : ℕ}
    (ho : c.memory.Owns (c.futures.addr f) (4 * (n + 4))) :
    ∃ σ' ws, Refines σ' (Function.update pay f ws) c s ∧
      ws.length = max (n + 1) (pay f).length := by
  obtain ⟨w, hw, hws⟩ := h.future_words hf
  obtain ⟨rest, hlen, hm⟩ := h.holds.extend hws ho
  have hext := h.rewriteFuture hf (F := s.futures f)
    (Function.update pay f (pay f ++ rest)) hw (fun g hg => Function.update_of_ne hg _ _)
    (h.refers.waker_live f hf) (fun w hx g hg hgw => h.refers.waker_inj g f hg hf w hgw hx)
    (by rw [Function.update_self]; exact hm)
  rw [Function.update_eq_self] at hext
  refine ⟨_, _, hext, ?_⟩
  simp only [List.cons_append, List.length_cons] at hlen
  omega

/-- `waker->ref_count = v`. -/
theorem setRefCount (h : Refines σ pay c s) (hw : c.Live (.waker w)) (v : UInt32) :
    ∃ σ', Refines σ' pay (c.setField (c.wakers.addr w) 4 v)
      { s with refCounts := Function.update s.refCounts w v } := by
  obtain ⟨ws, hws, wake, data, rfl⟩ := h.content _ hw
  have hm := h.holds.setField hws (k := 4) (i := 1) rfl (by simp) v
  refine ⟨_, h.rewrite hw hm ⟨wake, data, ?_⟩ ?_ { h.refers with }⟩
  · dsimp only
    rw [Function.update_self]
    rfl
  · intro b' hne _ vs hc
    cases b' with
    | task u => exact hc
    | future g => exact hc
    | waker u =>
      have hu : u ≠ w := fun heq => hne (heq ▸ rfl)
      show ∃ _, _
      dsimp only
      rw [Function.update_of_ne hu]
      exact hc

/-! ### The globals -/

theorem setTaskCount (h : Refines σ pay c s) (n : UInt32) :
    Refines σ pay { c with taskCount := n } { s with taskCount := n } :=
  { h with
    taskCount := rfl
    refers := { h.refers with } }

theorem setShouldPoll (h : Refines σ pay c s) (v : Bool) :
    Refines σ pay { c with shouldPoll := v } { s with shouldPoll := v } :=
  { h with
    shouldPoll := rfl
    refers := { h.refers with } }

/-- No function reads the log. -/
theorem setLog (h : Refines σ pay c s) (log : SerialLog) : Refines σ pay { c with log := log } s :=
  { h with refers := { h.refers with } }

/-- Events that free nothing. -/
theorem emit (h : Refines σ pay c s) {events : List Event} (he : ∀ b, .free b ∉ events) :
    Refines σ pay (c.emit events) (s.emit events) := by
  have hlive : ∀ {b}, (c.emit events).Live b → c.Live b := fun hb =>
    ⟨hb.1, fun hmem => hb.2 (List.mem_append_left _ hmem)⟩
  have hlive' : ∀ {b}, c.Live b → (c.emit events).Live b := fun hb =>
    ⟨hb.1, fun hmem => (List.mem_append.mp hmem).elim hb.2 (he _)⟩
  exact { h with
    trace := congrArg (· ++ events) h.trace
    content := fun b hb => h.content b (hlive hb)
    inj := fun b b' hb hb' => h.inj b b' (hlive hb) (hlive hb')
    latest := fun b hb => h.latest b (hlive hb)
    freed := fun b hb => (List.mem_append.mp hb).elim (h.freed b) fun hmem => absurd hmem (he b)
    refers :=
      { queue_lt := h.refers.queue_lt
        future_lt := fun t ht => h.refers.future_lt t (hlive ht)
        next_lt := fun t ht => h.refers.next_lt t (hlive ht)
        waker_live := fun f hf w hw => hlive' (h.refers.waker_live f (hlive hf) w hw)
        waker_inj := fun f g hf hg => h.refers.waker_inj f g (hlive hf) (hlive hg) } }

/-- `*prev_ptr = x`. -/
theorem storePrev (h : Refines σ pay c s) {prevPtr x : Option ℕ}
    (hprev : ∀ t, prevPtr = some t → c.Live (.task t)) (hx : ∀ u, x = some u → u < c.tasks.top) :
    ∃ σ', Refines σ' pay (c.storePrev (prevPtr.map c.tasks.addr) (ptrOf c.tasks.addr x))
      (s.storePrev prevPtr x) := by
  cases prevPtr with
  | none =>
    exact ⟨σ, { h with
      taskQueue := rfl
      refers := { h.refers with queue_lt := hx } }⟩
  | some t => exact h.setTaskNext (hprev t rfl) hx

/-! ### Allocating -/

section Malloc

variable {size k v : UInt32}

/-- `malloc` of a block that is clear. -/
theorem malloc (h : Refines σ pay c s) (hc : c.memory.Clear size) {n : ℕ}
    (hsize : size.toNat = 4 * (n + 1)) (hlt : size.toNat < 2 ^ 31) :
    ∃ m p ws, c.memory.malloc size = some (m, p) ∧ p ≠ 0 ∧ ws.length = n + 1 ∧ σ p = none ∧
      Refines (Function.update σ p (some ws)) pay { c with memory := m } s := by
  obtain ⟨m, p, hcode, hp0, hp, hm, ho⟩ := h.holds.malloc hc (by omega) hlt
  rw [hsize] at ho
  obtain ⟨ws, hlen, hadd⟩ := hm.add ho
  exact ⟨m, p, ws, hcode, hp0, hlen, hp, h.untracked (h.addr_ne hp) hadd⟩

/-- `malloc` of a block that is not looked at again. -/
theorem malloc_other (h : Refines σ pay c s) (hc : c.memory.Clear size) (hlow : 4 ≤ size.toNat)
    (hlt : size.toNat < 2 ^ 31) :
    ∃ m p, c.memory.malloc size = some (m, p) ∧ Refines σ pay { c with memory := m } s := by
  obtain ⟨m, p, hcode, -, -, hm, -⟩ := h.holds.malloc hc hlow hlt
  exact ⟨m, p, hcode, { h with holds := hm, refers := { h.refers with } }⟩

/-- A store to a block that is not one of the executor's yet. -/
theorem setUntracked (h : Refines σ pay c s) (hσ : σ p = some ws)
    (hp : ∀ b, c.Live b → c.addr b ≠ p) {i : ℕ} (hk : k.toNat = 4 * i) (hi : i < ws.length)
    (v : UInt32) :
    Refines (Function.update σ p (some (ws.set i v))) pay (c.setField p k v) s :=
  h.untracked hp (h.holds.setField hσ hk hi v)

theorem setBoolUntracked (h : Refines σ pay c s) (hσ : σ p = some ws)
    (hp : ∀ b, c.Live b → c.addr b ≠ p) {i : ℕ} (hk : k.toNat = 4 * i) (hi : i < ws.length)
    (v : Bool) :
    ∃ w : UInt32, (w.toUInt8 != 0) = v ∧
      Refines (Function.update σ p (some (ws.set i w))) pay (c.setBoolField p k v) s := by
  obtain ⟨w, hw, hm⟩ := h.holds.setBoolField hσ hk hi v
  exact ⟨w, hw, h.untracked hp hm⟩

end Malloc

/-! ### New blocks -/

theorem tracks_task (h : Refines σ pay c s) (p : UInt32) :
    c.Tracks (.task c.tasks.top) p { c with tasks := c.tasks.add p } where
  live := by
    rintro (t | f | w)
    · rw [Block.task.injEq]
      exact Numbering.live_add .task fun hmem => absurd (h.freed _ hmem) (Nat.lt_irrefl _)
    · exact ⟨.inr, fun hb => hb.resolve_left nofun⟩
    · exact ⟨.inr, fun hb => hb.resolve_left nofun⟩
  addr_new := Numbering.add_addr_top
  latest_new := Numbering.latest_add_top
  addr := by
    rintro (t | f | w) hb
    · exact Numbering.add_addr hb.1
    · rfl
    · rfl
  latest := by
    rintro (t | f | w) hb hne hl
    · exact Numbering.latest_add hb.1 hne hl
    · exact hl
    · exact hl

theorem tracks_future (h : Refines σ pay c s) (p : UInt32) :
    c.Tracks (.future c.futures.top) p { c with futures := c.futures.add p } where
  live := by
    rintro (t | f | w)
    · exact ⟨.inr, fun hb => hb.resolve_left nofun⟩
    · rw [Block.future.injEq]
      exact Numbering.live_add .future fun hmem => absurd (h.freed _ hmem) (Nat.lt_irrefl _)
    · exact ⟨.inr, fun hb => hb.resolve_left nofun⟩
  addr_new := Numbering.add_addr_top
  latest_new := Numbering.latest_add_top
  addr := by
    rintro (t | f | w) hb
    · rfl
    · exact Numbering.add_addr hb.1
    · rfl
  latest := by
    rintro (t | f | w) hb hne hl
    · exact hl
    · exact Numbering.latest_add hb.1 hne hl
    · exact hl

theorem tracks_waker (h : Refines σ pay c s) (p : UInt32) :
    c.Tracks (.waker c.wakers.top) p { c with wakers := c.wakers.add p } where
  live := by
    rintro (t | f | w)
    · exact ⟨.inr, fun hb => hb.resolve_left nofun⟩
    · exact ⟨.inr, fun hb => hb.resolve_left nofun⟩
    · rw [Block.waker.injEq]
      exact Numbering.live_add .waker fun hmem => absurd (h.freed _ hmem) (Nat.lt_irrefl _)
  addr_new := Numbering.add_addr_top
  latest_new := Numbering.latest_add_top
  addr := by
    rintro (t | f | w) hb
    · rfl
    · rfl
    · exact Numbering.add_addr hb.1
  latest := by
    rintro (t | f | w) hb hne hl
    · exact hl
    · exact hl
    · exact Numbering.latest_add hb.1 hne hl

/-- The blocks are as they were, with a new one. -/
theorem track (h : Refines σ pay c s) {b₀ : Block} {c' : HeapExecutor}
    (pay' : ℕ → List UInt32) (s' : Executor) (ht : c.Tracks b₀ p c')
    (hp : ∀ b, c.Live b → c.addr b ≠ p)
    (hσ : σ p = some ws) (hnew : c'.Content pay' s' b₀ ws)
    (hold : ∀ b, c.Live b → ∀ vs, c.Content pay s b vs → c'.Content pay' s' b vs) :
    (∀ b, c'.Live b → ∃ vs, σ (c'.addr b) = some vs ∧ c'.Content pay' s' b vs)
      ∧ (∀ b b', c'.Live b → c'.Live b' → c'.addr b = c'.addr b' → b = b')
      ∧ ∀ b, c'.Live b → c'.Latest b := by
  refine ⟨fun b hb => ?_, fun b b' hb hb' heq => ?_, fun b hb => ?_⟩
  · rcases (ht.live b).mp hb with rfl | hb
    · exact ⟨ws, by rw [ht.addr_new, hσ], hnew⟩
    · obtain ⟨vs, hvs, hc⟩ := h.content b hb
      exact ⟨vs, by rw [ht.addr b hb, hvs], hold b hb vs hc⟩
  · rcases (ht.live b).mp hb with rfl | hb <;> rcases (ht.live b').mp hb' with rfl | hb'
    · rfl
    · rw [ht.addr_new, ht.addr b' hb'] at heq
      exact absurd heq.symm (hp b' hb')
    · rw [ht.addr_new, ht.addr b hb] at heq
      exact absurd heq (hp b hb)
    · rw [ht.addr b hb, ht.addr b' hb'] at heq
      exact h.inj b b' hb hb' heq
  · rcases (ht.live b).mp hb with rfl | hb
    · exact ht.latest_new
    · exact ht.latest b hb (hp b hb) (h.latest b hb)

/-- A block becomes the next waker. -/
theorem addWaker (h : Refines σ pay c s) (hp : ∀ b, c.Live b → c.addr b ≠ p) {wake data : UInt32}
    (hσ : σ p = some [wake, 1, data]) :
    Refines σ pay { c with wakers := c.wakers.add p }
      { s with
        refCounts := Function.update s.refCounts s.wakerTop 1
        wakerTop := s.wakerTop + 1 } := by
  have ht := h.tracks_waker p
  have hlive : ∀ {b}, c.Live b → ({ c with wakers := c.wakers.add p } : HeapExecutor).Live b :=
    fun hb => (ht.live _).mpr (.inr hb)
  obtain ⟨hcontent, hinj, hlatest⟩ := h.track pay
    { s with
      refCounts := Function.update s.refCounts s.wakerTop 1
      wakerTop := s.wakerTop + 1 } ht hp hσ
    ⟨wake, data, by dsimp only; rw [h.wakerTop, Function.update_self]⟩ fun b hb vs hc => by
      cases b with
      | task t => exact hc
      | future f =>
        obtain ⟨w, hw, hvs⟩ := hc
        refine ⟨w, hw, hvs.trans ?_⟩
        -- the numbers of the wakers in use stay as they are
        have hlt : ∀ d, (s.futures f).waker = some d → d < c.wakers.top := fun d hd =>
          (h.refers.waker_live f hb d hd).1
        show _ = _ :: _ :: ptrOf (Function.update c.wakers.addr c.wakers.top p) _ :: _
        rw [ptrOf_update hlt]
      | waker w =>
        have hne : w ≠ s.wakerTop := h.wakerTop ▸ hb.1.ne
        obtain ⟨wake, data, hvs⟩ := hc
        refine ⟨wake, data, hvs.trans ?_⟩
        dsimp only
        rw [Function.update_of_ne hne]
  exact
    { holds := h.holds
      taskQueue := h.taskQueue
      taskCount := h.taskCount
      shouldPoll := h.shouldPoll
      trace := h.trace
      taskTop := h.taskTop
      wakerTop := congrArg (· + 1) h.wakerTop
      content := hcontent
      inj := hinj
      latest := hlatest
      freed := fun b hb => by
        have hcr := h.freed b hb
        cases b with
        | waker w => exact Nat.lt_succ_of_lt hcr
        | _ => exact hcr
      refers :=
        { h.refers with
          waker_live := fun f hf w hw => hlive (h.refers.waker_live f hf w hw) } }

/-- A block becomes the next future. -/
theorem addFuture (h : Refines σ pay c s) (hp : ∀ b, c.Live b → c.addr b ≠ p)
    {vtable : FutureVTable} {w : UInt32} (hw : (w.toUInt8 != 0) = false)
    (hσ : σ p = some (vtable.addr :: w :: 0 :: ws)) :
    Refines σ (Function.update pay c.futures.top ws) { c with futures := c.futures.add p }
      { s with futures := Function.update s.futures c.futures.top ⟨vtable, false, none⟩ } := by
  have ht := h.tracks_future p
  obtain ⟨hcontent, hinj, hlatest⟩ := h.track
    (Function.update pay c.futures.top ws)
    { s with futures := Function.update s.futures c.futures.top ⟨vtable, false, none⟩ } ht hp hσ
    ⟨w, by dsimp only; rw [Function.update_self, Function.update_self]; exact ⟨hw, rfl⟩⟩
    fun b hb vs hc => by
      cases b with
      | task t =>
        show vs = [(c.futures.add p).addr _, _]
        rw [Numbering.add_addr (h.refers.future_lt t hb)]
        exact hc
      | future f =>
        have hne : f ≠ c.futures.top := hb.1.ne
        show ∃ _, _
        dsimp only
        rw [Function.update_of_ne hne, Function.update_of_ne hne]
        exact hc
      | waker w => exact hc
  -- the new future has no waker
  have hold : ∀ g, ({ c with futures := c.futures.add p } : HeapExecutor).Live (.future g) →
      ∀ w, (Function.update s.futures c.futures.top ⟨vtable, false, none⟩ g).waker = some w →
      c.Live (.future g) ∧ (s.futures g).waker = some w := by
    intro g hg w hgw
    by_cases hne : g = c.futures.top
    · rw [hne, Function.update_self] at hgw
      exact absurd hgw nofun
    · rw [Function.update_of_ne hne] at hgw
      refine ⟨((ht.live _).mp hg).resolve_left fun heq => hne (Block.future.inj heq), hgw⟩
  exact
    { holds := h.holds
      taskQueue := h.taskQueue
      taskCount := h.taskCount
      shouldPoll := h.shouldPoll
      trace := h.trace
      taskTop := h.taskTop
      wakerTop := h.wakerTop
      content := hcontent
      inj := hinj
      latest := hlatest
      freed := fun b hb => by
        have hcr := h.freed b hb
        cases b with
        | future f => exact Nat.lt_succ_of_lt hcr
        | _ => exact hcr
      refers :=
        { queue_lt := h.refers.queue_lt
          future_lt := fun t ht => Nat.lt_succ_of_lt (h.refers.future_lt t ht)
          next_lt := h.refers.next_lt
          waker_live := fun g hg w hgw =>
            h.refers.waker_live g (hold g hg w hgw).1 w (hold g hg w hgw).2
          waker_inj := fun g g' hg hg' w hgw hgw' =>
            h.refers.waker_inj g g' (hold g hg w hgw).1 (hold g' hg' w hgw').1 w
              (hold g hg w hgw).2 (hold g' hg' w hgw').2 } }

/-- A block becomes the next task, at the head of the queue. -/
theorem addTask (h : Refines σ pay c s) (hp : ∀ b, c.Live b → c.addr b ≠ p)
    (hf : f < c.futures.top) (hσ : σ p = some [c.futures.addr f, c.taskQueue]) :
    Refines σ pay { c with taskQueue := p, tasks := c.tasks.add p }
      { s with
        taskQueue := some s.taskTop
        tasks := Function.update s.tasks s.taskTop ⟨f, s.taskQueue⟩
        taskTop := s.taskTop + 1 } := by
  have ht := h.tracks_task p
  have hqueue : ptrOf (c.tasks.add p).addr s.taskQueue = c.taskQueue := by
    rw [h.taskQueue]
    exact ptrOf_update h.refers.queue_lt p
  obtain ⟨hcontent, hinj, hlatest⟩ := h.track pay
    { s with tasks := Function.update s.tasks s.taskTop ⟨f, s.taskQueue⟩ } ht hp hσ
    (by
      show _ = _
      dsimp only
      rw [h.taskTop, Function.update_self, hqueue]) fun b hb vs hc => by
      cases b with
      | task t =>
        have hne : t ≠ s.taskTop := h.taskTop ▸ hb.1.ne
        show vs = [_, ptrOf (Function.update c.tasks.addr c.tasks.top p) _]
        dsimp only
        rw [Function.update_of_ne hne, ptrOf_update (h.refers.next_lt t hb)]
        exact hc
      | future f => exact hc
      | waker w => exact hc
  -- a task in use is the new one or an old one
  have hold : ∀ {t}, ({ c with tasks := c.tasks.add p } : HeapExecutor).Live (.task t) →
      t ≠ s.taskTop → c.Live (.task t) := by
    intro t hlive hne
    exact ((ht.live _).mp hlive).resolve_left fun heq =>
      hne ((Block.task.inj heq).trans h.taskTop)
  exact
    { holds := h.holds
      taskQueue := by
        show p = ptrOf (c.tasks.add p).addr (some s.taskTop)
        rw [← h.taskTop]
        exact Numbering.add_addr_top.symm
      taskCount := h.taskCount
      shouldPoll := h.shouldPoll
      trace := h.trace
      taskTop := congrArg (· + 1) h.taskTop
      wakerTop := h.wakerTop
      content := hcontent
      inj := hinj
      latest := hlatest
      freed := fun b hb => by
        have hcr := h.freed b hb
        cases b with
        | task t => exact Nat.lt_succ_of_lt hcr
        | _ => exact hcr
      refers :=
        { queue_lt := fun t htop => by
            obtain rfl := Option.some.inj htop
            exact h.taskTop ▸ Nat.lt_succ_self _
          future_lt := fun t hlive => by
            dsimp only
            by_cases hne : t = s.taskTop
            · rw [hne, Function.update_self]
              exact hf
            · rw [Function.update_of_ne hne]
              exact h.refers.future_lt t (hold hlive hne)
          next_lt := fun t hlive u hu => by
            dsimp only at hu
            by_cases hne : t = s.taskTop
            · rw [hne, Function.update_self] at hu
              exact Nat.lt_succ_of_lt (h.refers.queue_lt u hu)
            · rw [Function.update_of_ne hne] at hu
              exact Nat.lt_succ_of_lt (h.refers.next_lt t (hold hlive hne) u hu)
          waker_live := h.refers.waker_live
          waker_inj := h.refers.waker_inj } }

/-- The new task is counted, and the executor woken. -/
theorem linkTask (h : Refines σ pay c s) (hp : ∀ b, c.Live b → c.addr b ≠ p)
    (hf : f < c.futures.top) (hσ : σ p = some [c.futures.addr f, c.taskQueue]) :
    Refines σ pay
      { c with
        taskQueue := p
        tasks := c.tasks.add p
        taskCount := c.taskCount + 1
        shouldPoll := true }
      { s with
        taskQueue := some s.taskTop
        tasks := Function.update s.tasks s.taskTop ⟨f, s.taskQueue⟩
        taskTop := s.taskTop + 1
        taskCount := s.taskCount + 1
        shouldPoll := true } := by
  have hadd := ((h.addTask hp hf hσ).setTaskCount (c.taskCount + 1)).setShouldPoll true
  rw [h.taskCount] at hadd ⊢
  exact hadd

/-! ### Freeing -/

/-- The blocks `bs` are no longer in use. -/
theorem drop (h : Refines σ pay c s) {σ' : Blocks} (bs : List Block) (hm : m.Holds σ')
    (hσ : ∀ b, c.Live b → b ∉ bs → σ' (c.addr b) = σ (c.addr b)) (hbs : ∀ b ∈ bs, c.Live b)
    (hwaker : ∀ w, .waker w ∈ bs → ∀ f, c.Live (.future f) → (s.futures f).waker = some w →
      .future f ∈ bs) :
    Refines σ' pay { c with memory := m, trace := c.trace ++ bs.map .free }
      (s.emit (bs.map .free)) := by
  have hlive : ∀ {b},
      ({ c with memory := m, trace := c.trace ++ bs.map .free } : HeapExecutor).Live b →
        c.Live b ∧ b ∉ bs := by
    rintro b ⟨hcr, hfree⟩
    rw [List.mem_append, not_or] at hfree
    exact ⟨⟨hcr, hfree.1⟩, fun hmem => hfree.2 (List.mem_map_of_mem hmem)⟩
  have hlive' : ∀ {b}, c.Live b → b ∉ bs →
      ({ c with memory := m, trace := c.trace ++ bs.map .free } : HeapExecutor).Live b := by
    intro b hb hnot
    refine ⟨hb.1, fun hmem => ?_⟩
    rcases List.mem_append.mp hmem with hmem | hmem
    · exact hb.2 hmem
    · obtain ⟨b', hb', heq⟩ := List.mem_map.mp hmem
      exact hnot (Event.free.inj heq ▸ hb')
  exact
    { holds := hm
      taskQueue := h.taskQueue
      taskCount := h.taskCount
      shouldPoll := h.shouldPoll
      trace := congrArg (· ++ bs.map .free) h.trace
      taskTop := h.taskTop
      wakerTop := h.wakerTop
      content := fun b hb => by
        obtain ⟨ws, hws, hc⟩ := h.content b (hlive hb).1
        exact ⟨ws, (hσ b (hlive hb).1 (hlive hb).2).trans hws, hc⟩
      inj := fun b b' hb hb' => h.inj b b' (hlive hb).1 (hlive hb').1
      latest := fun b hb => h.latest b (hlive hb).1
      freed := fun b hb => by
        rcases List.mem_append.mp hb with hb | hb
        · exact h.freed b hb
        · obtain ⟨b', hb', heq⟩ := List.mem_map.mp hb
          exact Event.free.inj heq ▸ (hbs b' hb').1
      refers :=
        { queue_lt := h.refers.queue_lt
          future_lt := fun t ht => h.refers.future_lt t (hlive ht).1
          next_lt := fun t ht => h.refers.next_lt t (hlive ht).1
          waker_live := fun f hf w hw => by
            -- a waker goes with its future only
            refine hlive' (h.refers.waker_live f (hlive hf).1 w hw) fun hmem => ?_
            exact (hlive hf).2 (hwaker w hmem f (hlive hf).1 hw)
          waker_inj := fun f g hf hg => h.refers.waker_inj f g (hlive hf).1 (hlive hg).1 } }

end Refines

end HeapExecutor

end Shogun.Async
