import Shogun.Async.Equiv.Serial
import Shogun.Async.Tasks

/-!
# Tasks do not hold each other up

* `FutureData.waits`: whether a future is pending after its polls.
* `rule_taskPoll`: what a poll does to the future it polls, and leaves alone of the others.
* `tasks_run`: after every list of passes the queue holds the tasks whose own polls have left them
  pending, and each serial write has sent the bytes its own polls have.
-/

namespace Shogun.Async

open Memory

/-! ### Several polls of one future -/

/-- What the poll function reads of a future behind its `base`. -/
inductive FutureData where
  | sleep (targetTick : UInt32)
  | serial (data len written : UInt32)

namespace FutureData

def vtable : FutureData → FutureVTable
  | .sleep _ => .sleepFuture
  | .serial _ _ _ => .asyncSerialWrite

def words : FutureData → List UInt32
  | .sleep targetTick => [targetTick]
  | .serial data len written => [data, len, written]

/-- A write has not written more than its length. -/
def InRange : FutureData → Prop
  | .sleep _ => True
  | .serial _ len written => written ≤ len

/-- The polls among `es` that find the transmitter empty. -/
def chances (es : List PollEnv) : ℕ := es.countP fun e => serialIsTransmitEmpty e.lineStatus

/-- The future after polls that find `es`. -/
def after (es : List PollEnv) : FutureData → FutureData
  | .sleep targetTick => .sleep targetTick
  | .serial data len written =>
    .serial data len (.ofNat (min (written.toNat + chances es) len.toNat))

/-- Whether a future that was pending is so after polls that find `es`: a sleep is while the tick
count is below its target, a write while it has had fewer chances than it has bytes left. -/
def waits (es : List PollEnv) : FutureData → Bool
  | .sleep targetTick => es.all fun e => e.currentTick < targetTick
  | .serial _ len written => es.isEmpty || written.toNat + chances es < len.toNat

/-- The bytes that a future sends in polls that find `es`. -/
def sent (text : UInt32 → UInt8) (es : List PollEnv) : FutureData → List UInt8
  | .sleep _ => []
  | .serial data len written =>
    (List.range (min (chances es) (len.toNat - written.toNat))).map fun i =>
      textAt text data (written.toNat + i)

/-- The answer of a poll that finds `e`. -/
def answer (d : FutureData) (e : PollEnv) : FutureState :=
  if d.waits [e] then .pending else .ready

variable {d : FutureData} {text : UInt32 → UInt8} {data len written : UInt32}

theorem waits_nil (d : FutureData) : d.waits [] = true := by
  cases d <;> rfl

theorem sent_nil (d : FutureData) : d.sent text [] = [] := by
  cases d with
  | sleep _ => rfl
  | serial data len written => simp [sent, chances]

theorem vtable_after (d : FutureData) (es : List PollEnv) : (d.after es).vtable = d.vtable := by
  cases d <;> rfl

theorem vtable_addr_ne (d : FutureData) : d.vtable.addr ≠ FutureVTable.asyncRtcFuture.addr := by
  cases d with
  | sleep _ => exact (by decide : (1 : UInt32) ≠ 3)
  | serial _ _ _ => exact (by decide : (2 : UInt32) ≠ 3)

theorem chances_cons (e : PollEnv) (es : List PollEnv) :
    chances (e :: es) = chances [e] + chances es := by
  rw [chances, ← List.singleton_append, List.countP_append]
  rfl

theorem chances_singleton (e : PollEnv) :
    chances [e] = if serialIsTransmitEmpty e.lineStatus then 1 else 0 := by
  rw [chances, List.countP_singleton]

/-- The count of bytes written stays below the length. -/
theorem toNat_after (len written : UInt32) (es : List PollEnv) :
    (UInt32.ofNat (min (written.toNat + chances es) len.toNat)).toNat
      = min (written.toNat + chances es) len.toNat :=
  UInt32.toNat_ofNat_of_lt' ((Nat.min_le_right ..).trans_lt len.toNat_lt)

theorem inRange_after (h : d.InRange) (es : List PollEnv) : (d.after es).InRange := by
  cases d with
  | sleep _ => trivial
  | serial data len written =>
    show UInt32.ofNat _ ≤ len
    rw [UInt32.le_iff_toNat_le, toNat_after]
    exact Nat.min_le_right ..

/-- A future is pending after several polls if the first leaves it pending and the others do. -/
theorem waits_cons (d : FutureData) (e : PollEnv) (es : List PollEnv) :
    d.waits (e :: es) = (d.waits [e] && (d.after [e]).waits es) := by
  cases d with
  | sleep targetTick =>
    show (_ && es.all _) = ((_ && true) && es.all _)
    rw [Bool.and_true]
  | serial data len written =>
    have hrest : ((serial data len written).after [e]).waits es = true ↔
        es = [] ∨ min (written.toNat + chances [e]) len.toNat + chances es < len.toNat := by
      show (es.isEmpty || decide (_ < _)) = true ↔ _
      rw [toNat_after, Bool.or_eq_true, List.isEmpty_iff, decide_eq_true_eq]
    rw [Bool.eq_iff_iff, Bool.and_eq_true, hrest]
    show (false || decide (_ < _)) = true ↔ (false || decide (_ < _)) = true ∧ _
    rw [Bool.false_or, Bool.false_or, decide_eq_true_eq, decide_eq_true_eq, chances_cons e es]
    cases es with
    | nil => simp [chances]
    | cons e' es =>
      simp only [reduceCtorEq, false_or]
      omega

/-- What a write sends continues what it has sent. -/
theorem firstBytes_after (text : UInt32 → UInt8) (data : UInt32) (h : written ≤ len)
    (es : List PollEnv) :
    firstBytes (textAt text data) (min (written.toNat + chances es) len.toNat)
      = firstBytes (textAt text data) written.toNat
        ++ (serial data len written).sent text es := by
  rw [UInt32.le_iff_toNat_le] at h
  have hmin : min (written.toNat + chances es) len.toNat
      = written.toNat + min (chances es) (len.toNat - written.toNat) := by omega
  rw [hmin, firstBytes, List.range_add, List.map_append, List.map_map]
  rfl

theorem sent_cons (text : UInt32 → UInt8) (h : d.InRange) (e : PollEnv) (es : List PollEnv) :
    d.sent text (e :: es) = d.sent text [e] ++ (d.after [e]).sent text es := by
  cases d with
  | sleep _ => rfl
  | serial data len written =>
    have hfirst := firstBytes_after text data h [e]
    have hrest := firstBytes_after text data (inRange_after h [e]) es
    have hmin : min (min (written.toNat + chances [e]) len.toNat + chances es) len.toNat
        = min (written.toNat + chances (e :: es)) len.toNat := by
      rw [chances_cons e es]
      omega
    rw [toNat_after, hmin, firstBytes_after text data h, hfirst, List.append_assoc] at hrest
    exact List.append_cancel_left hrest

/-- A future that has answered `FUTURE_READY` has nothing left to send. -/
theorem sent_of_ready (text : UInt32 → UInt8) {e : PollEnv} (hd : d.waits [e] = false)
    (es : List PollEnv) : (d.after [e]).sent text es = [] := by
  cases d with
  | sleep _ => rfl
  | serial data len written =>
    have hall : len.toNat ≤ written.toNat + chances [e] := by
      have hlt : (false || decide (written.toNat + chances [e] < len.toNat)) = false := hd
      rwa [Bool.false_or, decide_eq_false_iff_not, Nat.not_lt] at hlt
    show (List.range (min _ (len.toNat - _))).map _ = []
    rw [toNat_after, Nat.min_eq_right hall, Nat.sub_self, Nat.min_zero]
    rfl

end FutureData

/-! ### One poll -/

/-- What a poll of a serial write with `len` bytes left does, by `FutureData`. -/
theorem PollSpec.eq_after {text : UInt32 → UInt8} {data len written : UInt32} {r : PollRecord}
    {e : PollEnv} (h : PollSpec text e.lineStatus data len written r) (hle : written ≤ len) :
    [data, len, r.written] = ((FutureData.serial data len written).after [e]).words ∧
      r.bytes = (FutureData.serial data len written).sent text [e] ∧
      r.state = (FutureData.serial data len written).answer e := by
  have hprogress : r.written.toNat = min (written.toNat + FutureData.chances [e]) len.toNat := by
    rw [FutureData.chances_singleton]
    exact h.progress
  refine ⟨?_, ?_, ?_⟩
  · have hwritten := hprogress.trans (FutureData.toNat_after len written [e]).symm
    rw [UInt32.toNat_inj.mp hwritten]
    rfl
  · have hbytes := h.bytes
    rw [hprogress, FutureData.firstBytes_after text data hle] at hbytes
    exact (List.append_cancel_left hbytes).symm
  · have hwaits : (FutureData.serial data len written).waits [e] = true ↔ r.state ≠ .ready := by
      show (false || decide (_ < _)) = true ↔ _
      rw [Bool.false_or, decide_eq_true_eq, ne_eq, h.ready, ← UInt32.toNat_inj, hprogress]
      omega
    rw [FutureData.answer]
    cases hstate : r.state with
    | ready => rw [if_neg fun hw => hwaits.mp hw hstate]
    | pending => rw [if_pos (hwaits.mpr (hstate ▸ nofun))]

namespace HeapExecutor

variable {σ : Blocks} {pay : ℕ → List UInt32} {c : HeapExecutor} {s : Executor}
  {text : UInt32 → UInt8} {d : FutureData} {f : ℕ}

/-- The future polled is as it should be after its poll, and no other has changed. -/
theorem Refines.taskPoll (h : Refines σ pay c s) (text : UInt32 → UInt8) (hf : c.Live (.future f))
    (hv : (s.futures f).vtable = d.vtable) (hpay : pay f = d.words) (hd : d.InRange)
    (asyncRtcFuturePoll : PollFn) (env : ℕ → PollEnv) :
    ∃ c' σ', HeapExecutor.taskPoll text asyncRtcFuturePoll env c (c.futures.addr f)
        = some (c', d.answer (env f)) ∧
      Refines σ' (Function.update pay f (d.after [env f]).words) c' s ∧ Extends c c' ∧
      ∀ g, bytesOf c'.log.polls g
        = bytesOf c.log.polls g ++ if f = g then d.sent text [env f] else [] := by
  have hvtable : futureVTable? (c.field (c.futures.addr f) 0) = some d.vtable := by
    rw [h.vtable hf, futureVTable?_addr, hv]
  rw [HeapExecutor.taskPoll, hvtable, Option.bind_some, h.number_future hf]
  cases d with
  | sleep targetTick =>
    have htarget : c.memory.field (c.futures.addr f) 12 = targetTick :=
      h.payload hf (i := 0) rfl (congrArg (·[0]?) hpay)
    refine ⟨c, σ, ?_, ?_, .refl c, fun g => ?_⟩
    · show some (c, _) = some (c, if (_ && true) = true then _ else _)
      rw [sleepFuturePoll, htarget, Bool.and_true]
      by_cases hlt : (env f).currentTick < targetTick
      · rw [if_neg (UInt32.not_le.mpr hlt), if_pos (decide_eq_true hlt)]
      · rw [if_pos (UInt32.not_lt.mp hlt), if_neg (by simpa using hlt)]
    · have hself : ((FutureData.sleep targetTick).after [env f]).words = pay f := hpay.symm
      rw [hself, Function.update_eq_self]
      exact h
    · show _ = _ ++ if f = g then [] else []
      rw [ite_self, List.append_nil]
  | serial data len written =>
    obtain ⟨m, σ', r, hcode, h', hr, hspec⟩ := h.asyncSerialWritePoll text hf hpay hd
      (env f).lineStatus
    obtain ⟨hwords, hbytes, hstate⟩ := hspec.eq_after hd
    refine ⟨addPoll { c with memory := m } r, σ', ?_, hwords ▸ h', ⟨.refl _, .refl _, .refl _, rfl⟩,
      fun g => ?_⟩
    · show some _ = _
      rw [hcode, hstate]
    · show bytesOf (c.log.polls ++ [r]) g = _
      rw [bytesOf_append, hr, hbytes]

/-! ### The rule -/

/-- What a pass keeps that finds `env`, where the futures `F` had the data `d` and the polls before
it were `polls`.  The futures `A` are not polled yet. -/
structure Passing (text : UInt32 → UInt8) (env : ℕ → PollEnv) (F : Set ℕ) (d : ℕ → FutureData)
    (polls : List PollRecord) (A : Set ℕ) (pay : ℕ → List UInt32) (c : HeapExecutor)
    (s : Executor) : Prop where
  subset : A ⊆ F
  vtable : ∀ f ∈ F, (s.futures f).vtable = (d f).vtable
  ahead : ∀ f ∈ A, pay f = (d f).words
  behind : ∀ f ∈ F, f ∉ A → pay f = ((d f).after [env f]).words
  bytes : ∀ f, f ∈ A ∨ f ∉ F → bytesOf c.log.polls f = bytesOf polls f
  sent : ∀ f ∈ F, f ∉ A →
    bytesOf c.log.polls f = bytesOf polls f ++ (d f).sent text [env f]

/-- A poll is of the future it polls alone. -/
theorem rule_taskPoll (text : UInt32 → UInt8) (asyncRtcFuturePoll : PollFn) (env : ℕ → PollEnv)
    {F : Set ℕ} {d : ℕ → FutureData} (hd : ∀ f ∈ F, (d f).InRange) (polls : List PollRecord) :
    Rule (HeapExecutor.taskPoll text asyncRtcFuturePoll env) (fun _ _ => True)
      (Passing text env F d polls) fun f answer => answer = ⟨[], (d f).answer (env f)⟩ where
  poll := by
    intro A σ pay c s f h hj hA hf _ _
    have hF := hj.subset hA
    obtain ⟨c', σ', hcode, h', hext, hbytes⟩ := h.taskPoll text hf (hj.vtable f hF)
      (hj.ahead f hA) (hd f hF) asyncRtcFuturePoll env
    refine ⟨⟨[], (d f).answer (env f)⟩, c', σ', _, s, hcode, h', ⟨hext, .refl _ s⟩, ?_, rfl⟩
    refine ⟨Set.sdiff_subset.trans hj.subset, hj.vtable, ?_, ?_, ?_, ?_⟩
    · rintro g ⟨hg, hne⟩
      rw [Function.update_of_ne hne]
      exact hj.ahead g hg
    · intro g hg hnot
      by_cases hgf : g = f
      · rw [hgf, Function.update_self]
      · rw [Function.update_of_ne hgf]
        exact hj.behind g hg fun hmem => hnot ⟨hmem, hgf⟩
    · intro g hg
      have hne : f ≠ g := by
        rintro rfl
        exact hg.elim (fun hmem => hmem.2 rfl) fun hnot => hnot hF
      rw [hbytes, if_neg hne, List.append_nil]
      exact hj.bytes g (hg.imp And.left id)
    · -- a future behind is the one polled here, or one polled before
      intro g hg hnot
      rw [hbytes]
      by_cases hgf : f = g
      · rw [if_pos hgf, hgf, hj.bytes g (.inl (hgf ▸ hA))]
      · rw [if_neg hgf, List.append_nil]
        exact hj.sent g hg fun hmem => hnot ⟨hmem, fun heq => hgf heq.symm⟩
  settle := by
    intro A pay c s gone c' s' hj hset _
    refine { hj with vtable := fun f hf => ?_, bytes := ?_, sent := ?_ }
    · rw [hset.vtable]
      exact hj.vtable f hf
    · rw [hset.log]
      exact hj.bytes
    · rw [hset.log]
      exact hj.sent

/-! ### Passes -/

variable {ts : List ℕ} {ds : ℕ → FutureData}

/-- The heap of `c` holds `s`, whose queue is `ts`.  The futures of its tasks have the data `ds`,
and none has answered `FUTURE_READY`. -/
structure Waiting (σ : Blocks) (pay : ℕ → List UInt32) (c : HeapExecutor) (s : Executor)
    (ts : List ℕ) (ds : ℕ → FutureData) : Prop where
  refines : Refines σ pay c s
  queue : s.Queue ts
  taskCount : s.taskCount = .ofNat ts.length
  task : ∀ t ∈ ts, c.Live (.task t)
  future : ∀ t ∈ ts, c.Live (.future (s.tasks t).future)
  fresh : ∀ t ∈ ts, (s.futureOf t).isCompleted = false
  vtable : ∀ t ∈ ts, (s.futureOf t).vtable = (ds (s.tasks t).future).vtable
  words : ∀ t ∈ ts, pay (s.tasks t).future = (ds (s.tasks t).future).words
  inRange : ∀ t ∈ ts, (ds (s.tasks t).future).InRange

/-- The tasks of `ts` that are pending after the passes `envs`. -/
def remaining (s : Executor) (ds : ℕ → FutureData) (envs : List (ℕ → PollEnv)) (ts : List ℕ) :
    List ℕ :=
  ts.filter fun t => (ds (s.tasks t).future).waits (envs.map (· (s.tasks t).future))

/-- What the passes `envs` over `ts` have done. -/
structure Progress (text : UInt32 → UInt8) (c : HeapExecutor) (s : Executor) (ts : List ℕ)
    (ds : ℕ → FutureData) (envs : List (ℕ → PollEnv)) (c' : HeapExecutor) : Prop where
  grows : c.tasks.Grows c'.tasks
  bytes : ∀ t ∈ ts, bytesOf c'.log.polls (s.tasks t).future
    = bytesOf c.log.polls (s.tasks t).future
      ++ (ds (s.tasks t).future).sent text (envs.map (· (s.tasks t).future))
  other : ∀ f, (∀ t ∈ ts, (s.tasks t).future ≠ f) →
    bytesOf c'.log.polls f = bytesOf c.log.polls f

namespace Waiting

/-- Before a pass no future of the queue is polled. -/
theorem passing (h : Waiting σ pay c s ts ds) (text : UInt32 → UInt8) (env : ℕ → PollEnv) :
    Passing text env {f | ∃ t ∈ ts, (s.tasks t).future = f} ds c.log.polls
      {f | ∃ t ∈ ts, (s.tasks t).future = f} pay c s where
  subset := subset_rfl
  vtable := by
    rintro f ⟨t, ht, rfl⟩
    exact h.vtable t ht
  ahead := by
    rintro f ⟨t, ht, rfl⟩
    exact h.words t ht
  behind := fun f hf hnot => absurd hf hnot
  bytes := fun _ _ => rfl
  sent := fun f hf hnot => absurd hf hnot

/-- A pass polls every task once and keeps those that answer `FUTURE_PENDING`. -/
theorem pass (h : Waiting σ pay c s ts ds) (text : UInt32 → UInt8) (asyncRtcFuturePoll : PollFn)
    (env : ℕ → PollEnv) :
    ∃ c' hasReady σ' pay' s',
      c.executorPass (HeapExecutor.taskPoll text asyncRtcFuturePoll env) = some (c', hasReady) ∧
      Waiting σ' pay' c' s' (remaining s ds [env] ts) (fun f => (ds f).after [env f]) ∧
      (∀ t ∈ ts, (s'.tasks t).future = (s.tasks t).future) ∧
      Progress text c s ts ds [env] c' := by
  have hr := rule_taskPoll text asyncRtcFuturePoll env
    (F := {f | ∃ t ∈ ts, (s.tasks t).future = f}) (d := ds)
    (by rintro f ⟨t, ht, rfl⟩; exact h.inRange t ht) c.log.polls
  have hj := h.passing text env
  have hA : ∀ t ∈ ts, (s.tasks t).future ∈ {f | ∃ t ∈ ts, (s.tasks t).future = f} :=
    fun t ht => ⟨t, ht, rfl⟩
  -- none of the futures is one of those that free themselves
  have hok := h.refines.passMeets hr (fun h hj ht hf hA => ⟨fun _ => trivial, fun hv => by
    rw [h.task_future rfl ht, h.vtable hf, hj.vtable _ (hj.subset hA)] at hv
    exact absurd hv (FutureData.vtable_addr_ne _)⟩) hj hA h.queue h.task h.future
  obtain ⟨answer, c', hasReady, σ', pay', s', s₀, hcode, habs, hagree, h', hj', hmoved, hR⟩ :=
    h.refines.executorPass hr hj hA h.queue h.task h.future hok
  have hanswer : ∀ t ∈ ts, answer t
      = ⟨[], (ds (s.tasks t).future).answer (env (s.tasks t).future)⟩ :=
    fun t ht => hR.polled t ht (h.fresh t ht)
  have hquiet : ∀ t ∈ ts, (answer t).spawns = [] := fun t ht => by rw [hanswer t ht]
  have hremoves : ∀ t ∈ ts, (!Async.removes s answer t)
      = (ds (s.tasks t).future).waits [env (s.tasks t).future] := by
    intro t ht
    rw [Async.removes, h.fresh t ht, hanswer t ht, FutureData.answer]
    cases (ds (s.tasks t).future).waits [env (s.tasks t).future] <;> rfl
  obtain ⟨hq, hcount, htask⟩ := h.queue.pass hquiet habs
  have hkept := executorPass_futures h.queue (.of_quiet hquiet) habs
  rw [List.filter_congr hremoves] at hq hcount
  have hleft : leftAfter s {f | ∃ t ∈ ts, (s.tasks t).future = f} ts = ∅ := by
    rw [Set.eq_empty_iff_forall_notMem]
    rintro f ⟨⟨t, ht, hf⟩, hne⟩
    exact hne t ht (h.fresh t ht) hf
  rw [hleft] at hj'
  have htask' : ∀ t ∈ ts, (s'.tasks t).future = (s.tasks t).future := fun t ht => by
    rw [hagree.tasks, htask t ht]
  have hstays : ∀ t ∈ remaining s ds [env] ts, t ∈ ts ∧ Async.removes s answer t = false := by
    intro t ht
    obtain ⟨hmem, hw⟩ := List.mem_filter.mp ht
    refine ⟨hmem, ?_⟩
    rw [← Bool.not_eq_true', hremoves t hmem]
    exact hw
  -- a task that stays has the future it had
  have hfuture : ∀ t ∈ remaining s ds [env] ts, s'.futureOf t = s.futureOf t := by
    intro t ht
    obtain ⟨hmem, hstay⟩ := hstays t ht
    rw [Executor.futureOf, htask' t hmem, hagree.future (h.future t hmem).1]
    exact hkept t hmem hstay
  refine ⟨c', hasReady, σ', pay', s', hcode, ?_, htask', hmoved.tasks, ?_, ?_⟩
  · constructor
    · exact h'
    · obtain ⟨futures, rfl, -⟩ := hagree
      exact ⟨hq.holds, hq.lt_top, hq.futures_nodup⟩
    · rw [hagree.taskCount]
      exact hcount h.taskCount
    · intro t ht
      obtain ⟨hmem, hstay⟩ := hstays t ht
      exact hmoved.task_of_stays hstay (h.task t hmem)
    · intro t ht
      obtain ⟨hmem, hstay⟩ := hstays t ht
      rw [htask' t hmem]
      exact hmoved.future_of_stays h.queue hmem hstay (h.future t hmem)
    · intro t ht
      rw [hfuture t ht]
      exact h.fresh t (hstays t ht).1
    · intro t ht
      obtain ⟨hmem, -⟩ := hstays t ht
      rw [hfuture t ht, htask' t hmem, FutureData.vtable_after]
      exact h.vtable t hmem
    · intro t ht
      obtain ⟨hmem, -⟩ := hstays t ht
      rw [htask' t hmem]
      exact hj'.behind _ (hA t hmem) (Set.notMem_empty _)
    · intro t ht
      obtain ⟨hmem, -⟩ := hstays t ht
      rw [htask' t hmem]
      exact FutureData.inRange_after (h.inRange t hmem) _
  · exact fun t ht => hj'.sent _ (hA t ht) (Set.notMem_empty _)
  · intro f hf
    refine hj'.bytes f (.inr ?_)
    rintro ⟨t, ht, hft⟩
    exact hf t ht hft

/-- Every list of passes returns. -/
theorem run (h : Waiting σ pay c s ts ds) (text : UInt32 → UInt8) (asyncRtcFuturePoll : PollFn)
    (envs : List (ℕ → PollEnv)) :
    ∃ c' σ' pay' s' ds',
      c.run (HeapExecutor.taskPoll text asyncRtcFuturePoll) (envs.map .pass) = some c' ∧
      Waiting σ' pay' c' s' (remaining s ds envs ts) ds' ∧ Progress text c s ts ds envs c' := by
  induction envs generalizing σ pay c s ts ds with
  | nil =>
    refine ⟨c, σ, pay, s, ds, rfl, ?_, .refl _, fun t _ => ?_, fun _ _ => rfl⟩
    · have hall : remaining s ds [] ts = ts :=
        List.filter_eq_self.mpr fun t _ => FutureData.waits_nil _
      rw [hall]
      exact h
    · exact ((congrArg _ (FutureData.sent_nil _)).trans (List.append_nil _)).symm
  | cons env envs ih =>
    obtain ⟨c₁, r, σ₁, pay₁, s₁, hcode, h₁, htask, hp₁⟩ := h.pass text asyncRtcFuturePoll env
    obtain ⟨c', σ', pay', s', ds', hrun, h', hp⟩ := ih h₁
    -- what is pending after this pass and the others is pending after all
    have hmem : ∀ t ∈ remaining s ds [env] ts, t ∈ ts := fun t ht => (List.mem_filter.mp ht).1
    have hremaining : remaining s₁ (fun f => (ds f).after [env f]) envs (remaining s ds [env] ts)
        = remaining s ds (env :: envs) ts := by
      rw [remaining, remaining, List.filter_filter]
      refine List.filter_congr fun t ht => ?_
      rw [htask t ht, Bool.and_comm]
      exact (FutureData.waits_cons _ _ _).symm
    rw [hremaining] at h'
    refine ⟨c', σ', pay', s', ds', ?_, h', hp₁.grows.trans hp.grows, fun t ht => ?_, fun f hf => ?_⟩
    · show (c.runStep _ (.pass env)).bind _ = _
      rw [runStep, hcode]
      exact hrun
    · rw [List.map_cons, FutureData.sent_cons text (h.inRange t ht), ← List.append_assoc]
      by_cases hw : (ds (s.tasks t).future).waits [env (s.tasks t).future] = true
      · have hb := hp.bytes t (List.mem_filter.mpr ⟨ht, hw⟩)
        rw [htask t ht, hp₁.bytes t ht] at hb
        exact hb
      · -- the task was removed in this pass, and its future is that of no other
        rw [FutureData.sent_of_ready text (Bool.eq_false_iff.mpr hw), List.append_nil, hp.other]
        · exact hp₁.bytes t ht
        · intro u hu heq
          rw [htask u (hmem u hu)] at heq
          obtain rfl := List.inj_on_of_nodup_map h.queue.futures_nodup (hmem u hu) ht heq
          exact hw (List.mem_filter.mp hu).2
    · rw [hp.other f fun u hu => ?_, hp₁.other f hf]
      rw [htask u (hmem u hu)]
      exact hf u (hmem u hu)

end Waiting

/-! ### Queues in the heap -/

/-- The future `f` as it is in the heap. -/
def dataOf (c : HeapExecutor) (f : ℕ) : FutureData :=
  let p := c.futures.addr f
  if c.field p 0 = FutureVTable.sleepFuture.addr then .sleep (c.field p 12)
  else .serial (c.field p 12) (c.field p 16) (c.field p 20)

/-- The tasks of the queue are at `ps`, counted by `task_count`.  Their futures are sleeps and
serial writes, and none has answered `FUTURE_READY`. -/
structure TaskQueue (c : HeapExecutor) (ps : List UInt32) : Prop extends Queue c ps where
  taskCount : c.taskCount = .ofNat ps.length
  fresh : ∀ p ∈ ps, c.completed p = false
  kind : ∀ p ∈ ps, c.field (c.field p 0) 0 ≠ FutureVTable.asyncRtcFuture.addr
  ownsFuture : ∀ p ∈ ps,
    c.memory.Owns (c.field p 0) (12 + 4 * (c.dataOf (c.futureOf p)).words.length)
  inRange : ∀ p ∈ ps, (c.dataOf (c.futureOf p)).InRange

/-- What several futures have behind their `base`. -/
theorem Refines.extendPayloads (h : Refines σ pay c s) (fs : List ℕ) {n : ℕ → ℕ}
    (hn : ∀ f ∈ fs, 0 < n f) (hf : ∀ f ∈ fs, c.Live (.future f))
    (ho : ∀ f ∈ fs, c.memory.Owns (c.futures.addr f) (12 + 4 * n f))
    (hpay : ∀ f ∈ fs, (pay f).length ≤ n f) :
    ∃ σ' pay', Refines σ' pay' c s ∧ (∀ f ∈ fs, (pay' f).length = n f) ∧
      ∀ f ∉ fs, pay' f = pay f := by
  induction fs generalizing σ pay with
  | nil => exact ⟨σ, pay, h, nofun, fun _ _ => rfl⟩
  | cons f fs ih =>
    rw [List.forall_mem_cons] at hn hf ho hpay
    have ho' : c.memory.Owns (c.futures.addr f) (4 * (n f - 1 + 4)) := by
      rw [show 4 * (n f - 1 + 4) = 12 + 4 * n f by omega]
      exact ho.1
    obtain ⟨σ₁, ws, h₁, hws⟩ := h.extendPayload hf.1 ho'
    have hlen : ws.length = n f := by omega
    obtain ⟨σ', pay', h', hlens, hother⟩ := ih h₁ hn.2 hf.2 ho.2 (fun g hg => by
      by_cases hgf : g = f
      · rw [hgf, Function.update_self, hlen]
      · rw [Function.update_of_ne hgf]
        exact hpay.2 g hg)
    refine ⟨σ', pay', h', ?_, fun g hg => ?_⟩
    · rw [List.forall_mem_cons]
      refine ⟨?_, hlens⟩
      by_cases hmem : f ∈ fs
      · exact hlens f hmem
      · rw [hother f hmem, Function.update_self, hlen]
    · rw [List.mem_cons, not_or] at hg
      rw [hother g hg.2, Function.update_of_ne hg.1]

/-- A future that is not that of an RTC read is what `dataOf` reads. -/
theorem Refines.words_dataOf (h : Refines σ pay c s) (hf : c.Live (.future f))
    (hlen : (pay f).length = (c.dataOf f).words.length) : pay f = (c.dataOf f).words := by
  refine List.ext_getElem? fun i => ?_
  by_cases hi : i < (pay f).length
  · have hfield : ∀ {k : UInt32}, k.toNat = 4 * (i + 3) →
        (pay f)[i]? = some (c.field (c.futures.addr f) k) := fun hk => by
      rw [List.getElem?_eq_getElem hi, h.payload hf hk (List.getElem?_eq_getElem hi)]
    revert hi
    rw [hlen, dataOf]
    split
    · intro hi
      obtain rfl : i = 0 := Nat.lt_one_iff.mp hi
      exact hfield rfl
    · intro hi
      have hi' : i < 3 := hi
      interval_cases i <;> exact hfield rfl
  · rw [List.getElem?_eq_none (Nat.not_lt.mp hi), List.getElem?_eq_none (hlen ▸ Nat.not_lt.mp hi)]

namespace TaskQueue

variable {ps : List UInt32} {p : UInt32}

/-- The kind of a future is what `dataOf` takes it for. -/
theorem vtable_eq (h : TaskQueue c ps) (hp : p ∈ ps) :
    (c.toExecutor.futures (c.futureOf p)).vtable = (c.dataOf (c.futureOf p)).vtable := by
  have hkind := h.kind p hp
  rw [← h.addr_futureOf hp] at hkind
  obtain ⟨v, hv⟩ := Option.isSome_iff_exists.mp (h.vtable _ (h.future_names hp).1)
  have hfield := futureVTable?_eq_some hv
  show (futureVTable? (c.field (c.futures.addr (c.futureOf p)) 0)).getD .sleepFuture = _
  rw [dataOf]
  change futureVTable? (c.field (c.futures.addr (c.futureOf p)) 0) = some v at hv
  change v.addr = c.field (c.futures.addr (c.futureOf p)) 0 at hfield
  rw [hv, ← hfield]
  cases v with
  | sleepFuture => rfl
  | asyncSerialWrite => rfl
  | asyncRtcFuture => exact absurd hfield.symm hkind

theorem waiting (h : TaskQueue c ps) :
    ∃ σ pay, Waiting σ pay c c.toExecutor (ps.map c.tasks.number) c.dataOf := by
  have hlive : ∀ f ∈ ps.map c.futureOf, c.Live (.future f) :=
    List.forall_mem_map.mpr fun p hp => h.live_future hp
  obtain ⟨σ, pay, hr, hpay, -⟩ := h.refines.extendPayloads (ps.map c.futureOf)
    (n := fun f => (c.dataOf f).words.length)
    (fun f _ => by cases c.dataOf f <;> exact Nat.succ_pos _) hlive
    (List.forall_mem_map.mpr fun p hp => h.addr_futureOf hp ▸ h.ownsFuture p hp)
    fun _ _ => Nat.zero_le _
  refine ⟨σ, pay, hr, h.queue, ?_, ?_, ?_, ?_, ?_, ?_, ?_⟩
  · rw [List.length_map]
    exact h.taskCount
  · exact List.forall_mem_map.mpr fun p hp => h.live_task hp
  all_goals
    rw [List.forall_mem_map]
    intro p hp
  · rw [h.futureOf_eq hp]
    exact h.live_future hp
  · exact (h.completed_eq hp).trans (h.fresh p hp)
  · rw [Executor.futureOf, h.futureOf_eq hp]
    exact h.vtable_eq hp
  · rw [h.futureOf_eq hp]
    exact hr.words_dataOf (h.live_future hp) (hpay _ (List.mem_map_of_mem hp))
  · rw [h.futureOf_eq hp]
    exact h.inRange p hp

end TaskQueue

instance : DecidablePred FutureData.InRange
  | .sleep _ => isTrue trivial
  | .serial _ len written => inferInstanceAs (Decidable (written ≤ len))

instance (ps : List UInt32) : Decidable (TaskQueue c ps) :=
  decidable_of_iff (Queue c ps ∧ c.taskCount = .ofNat ps.length
      ∧ (∀ p ∈ ps, c.completed p = false)
      ∧ (∀ p ∈ ps, c.field (c.field p 0) 0 ≠ FutureVTable.asyncRtcFuture.addr)
      ∧ (∀ p ∈ ps, c.memory.Owns (c.field p 0) (12 + 4 * (c.dataOf (c.futureOf p)).words.length))
      ∧ ∀ p ∈ ps, (c.dataOf (c.futureOf p)).InRange)
    ⟨fun ⟨h1, h2, h3, h4, h5, h6⟩ => ⟨h1, h2, h3, h4, h5, h6⟩,
      fun h => ⟨h.toQueue, h.taskCount, h.fresh, h.kind, h.ownsFuture, h.inRange⟩⟩

/-- The task at `p` is pending after the passes `envs`. -/
def waits (c : HeapExecutor) (envs : List (ℕ → PollEnv)) (p : UInt32) : Bool :=
  (c.dataOf (c.futureOf p)).waits (envs.map (· (c.futureOf p)))

/-- The bytes that the task at `p` sends in the passes `envs`. -/
def sent (text : UInt32 → UInt8) (c : HeapExecutor) (envs : List (ℕ → PollEnv)) (p : UInt32) :
    List UInt8 :=
  (c.dataOf (c.futureOf p)).sent text (envs.map (· (c.futureOf p)))

end HeapExecutor

open HeapExecutor

/-- **Tasks do not hold each other up.**  From a queue of sleeps and serial writes none of which is
done, every list of passes returns; the queue is then that of the tasks whose own polls have left
them pending, and every task has sent what its own polls let it send: a sleep nothing, a write its
next bytes in order, one for each poll that found the transmitter empty. -/
theorem tasks_run {c : HeapExecutor} {ps : List UInt32} (h : c.TaskQueue ps)
    (text : UInt32 → UInt8) (asyncRtcFuturePoll : PollFn) (envs : List (ℕ → PollEnv)) :
    ∃ c', c.run (taskPoll text asyncRtcFuturePoll) (envs.map .pass) = some c' ∧
      c'.links.Holds (ps.filter (c.waits envs)) ∧
      c'.taskCount = .ofNat (ps.filter (c.waits envs)).length ∧
      (∀ p ∈ ps, bytesOf c'.log.polls (c.futureOf p)
        = bytesOf c.log.polls (c.futureOf p) ++ c.sent text envs p) ∧
      ∀ f, (∀ p ∈ ps, c.futureOf p ≠ f) → bytesOf c'.log.polls f = bytesOf c.log.polls f := by
  obtain ⟨σ, pay, hw⟩ := h.waiting
  obtain ⟨c', σ', pay', s', ds', hcode, hw', hp⟩ := hw.run text asyncRtcFuturePoll envs
  have hfilter : remaining c.toExecutor c.dataOf envs (ps.map c.tasks.number)
      = (ps.filter (c.waits envs)).map c.tasks.number := by
    rw [remaining, List.filter_map]
    refine congrArg _ (List.filter_congr fun p hp => ?_)
    rw [Function.comp_apply, h.futureOf_eq hp]
    rfl
  have hqueue : (remaining c.toExecutor c.dataOf envs (ps.map c.tasks.number)).map c'.tasks.addr
      = ps.filter (c.waits envs) := by
    rw [hfilter, List.map_map]
    refine (List.map_congr_left fun p hmem => ?_).trans (List.map_id _)
    obtain ⟨hlt, haddr⟩ := h.names p (List.mem_filter.mp hmem).1
    exact (hp.grows.addr _ hlt).trans haddr
  refine ⟨c', hcode, ?_, ?_, fun p hmem => ?_, fun f hf => hp.other f ?_⟩
  · rw [← hqueue]
    exact (hw'.refines.links_holds hw'.queue.holds hw'.task).1
  · rw [hw'.refines.taskCount, hw'.taskCount, hfilter, List.length_map]
  · have hbytes := hp.bytes _ (List.mem_map_of_mem hmem)
    rw [h.futureOf_eq hmem] at hbytes
    exact hbytes
  · rw [List.forall_mem_map]
    intro p hmem
    rw [h.futureOf_eq hmem]
    exact hf p hmem

/-- A sleep to tick 256, and a write of two bytes. -/
def HeapExecutor.sleepAndWrite : HeapExecutor :=
  after [.create .sleepFuture 16, .write 5088 12 256, .spawn 0, .createSerialWrite 104 2, .spawn 1]

/-- The sleep ends while the write waits for the transmitter, with one of its bytes sent. -/
theorem tasks_run_sleepAndWrite :
    ∃ c', sleepAndWrite.run (taskPoll UInt32.toUInt8 fun _ _ => none)
        [.pass fun _ => ⟨100, 0x60⟩, .pass fun _ => ⟨256, 0x20⟩] = some c' ∧
      c'.links.Holds [5008] ∧ c'.taskCount = 1 ∧
      bytesOf c'.log.polls 0 = [] ∧ bytesOf c'.log.polls 1 = [104] := by
  have hq : sleepAndWrite.TaskQueue [5008, 5072] := by decide +kernel
  obtain ⟨c', hcode, hholds, hcount, hbytes, -⟩ := tasks_run hq UInt32.toUInt8 (fun _ _ => none)
    [fun _ => ⟨100, 0x60⟩, fun _ => ⟨256, 0x20⟩]
  have hfilter : [5008, 5072].filter (sleepAndWrite.waits [fun _ => ⟨100, 0x60⟩,
      fun _ => ⟨256, 0x20⟩]) = [5008] := by decide +kernel
  rw [hfilter] at hholds hcount
  refine ⟨c', hcode, hholds, hcount, ?_, ?_⟩
  · refine (hbytes 5072 (by decide)).trans ?_
    decide +kernel
  · refine (hbytes 5008 (by decide)).trans ?_
    decide +kernel

end Shogun.Async
