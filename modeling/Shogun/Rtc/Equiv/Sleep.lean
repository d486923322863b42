import Shogun.Async.Equiv.HeapQueue
import Shogun.Rtc.Equiv.Holding
import Shogun.Rtc.Sleep
import Shogun.Util.WrapClock

/-!
# When sleeps end

A sleep that starts at tick `t` ends at the first test that finds the tick count at or beyond
`t + ticks`, all modulo `2^32`.

`neverEarly_iff`: a sleep of `s` seconds never ends early and a future of `sleep_future_create`
answers on time exactly when `t + 256 * s < 2^32` and `t < 2^31`.  From longer sleeps or later
starts on, the target wraps and the tick count is beyond it too soon, or the tick count wraps and a
future that was ready is pending again.

All of this is as long as the blocks that `malloc` hands out are clear: where a block shares a word
with the header of another one, `target_tick` can change when that one is freed.
-/

namespace Shogun.Rtc

open LinkedList LinkedList.Links Async Memory Memory.HeapState WrapClock

namespace HeapTimers

/-- Monotonic time and the list are initialised, the entries of the list are at `ps`, and it is tick
`t`. -/
structure Running (c : HeapTimers) (ps : List UInt32) (t : UInt32) : Prop where
  queue : Queue c ps
  clock : c.monotonicTime ≠ 0
  tickCount : c.field c.monotonicTime 0 = t
  fired_lt : ∀ x ∈ c.fired, x.entry < c.added

/-! ### The conditions on the blocks -/

/-- What `sleep_future_create` gets: a clear block for the future, and a clear block or none for its
entry. -/
def ClearCreate (c : HeapTimers) (ticks : UInt32) : Prop :=
  c.memory.Clear 16 ∧ ∀ m f, c.memory.malloc 16 = some (m, f) →
    (({ c with memory := m } : HeapTimers).fillSleepFuture f ticks).memory.Clear 16 ∨
      (({ c with memory := m } : HeapTimers).fillSleepFuture f ticks).memory.Full 16

/-- And what `executor_spawn` gets after it. -/
def ClearAsync (c : HeapTimers) (ex : HeapExecutor) (seconds : UInt32) : Prop :=
  c.ClearCreate (seconds * 256) ∧ ∀ c' f, c.sleepFutureCreate (seconds * 256) = some (c', f) →
    ({ ex with memory := c'.memory } : HeapExecutor).SpawnServed f

/-- The block at `p` is not that of the future `f`, of the timers, or of an entry on the list. -/
structure Foreign (f : UInt32) (c : HeapTimers) (p : UInt32) : Prop where
  future : p ≠ f
  clock : p ≠ c.monotonicTime
  list : p ≠ c.wakeUpList
  entry : ∀ ps, c.links.Holds ps → p ∉ ps

/-- What is asked of a step while the future `f` sleeps: `malloc` hands out a clear block or none,
and other code frees and writes only blocks of its own. -/
def SleepOk (f : UInt32) (c : HeapTimers) : SleepOp → Prop
  | .add _ => c.memory.Clear 16 ∨ c.memory.Full 16
  | .tick => True
  | .malloc size =>
    4 ≤ size.toNat ∧ size.toNat < 2 ^ 31 ∧ (c.memory.Clear size ∨ c.memory.Full size)
  | .free p => p ∈ c.memory.live ∧ c.Foreign f p
  | .write p k _ => c.memory.Owns p (k.toNat + 4) ∧ c.Foreign f p

/-- Every step of a run is as asked. -/
def SleepMeets (f : UInt32) : HeapTimers → List SleepOp → Prop
  | _, [] => True
  | c, op :: ops => c.SleepOk f op ∧ ∀ c', c.sleepStep op = some c' → SleepMeets f c' ops

/-! ### Sleeping long enough -/

/-- A sleep of `seconds` does not end, and its entry does not fire, before so many ticks have
come. -/
structure NeverEarly (c : HeapTimers) (seconds : UInt32) : Prop where
  /-- `sleep_seconds_async`, whatever else is added to the list or done in the heap meanwhile. -/
  async : ∀ ex, c.ClearAsync ex seconds →
    ∃ c₁ ex₁ f, c.sleepSecondsAsync ex seconds = some (c₁, ex₁, f) ∧ f ≠ 0 ∧
      ∀ ops, c₁.SleepMeets f ops → ∃ c₂, c₁.sleepRun ops = some c₂ ∧
        (ops.count .tick < 256 * seconds.toNat → c₂.sleepFuturePoll f = .pending ∧
          (c₁.added ≠ c.added → ∀ x ∈ c₂.fired, x.entry ≠ c.added))
  /-- `sleep_seconds`. -/
  wait : ∃ w, c.sleepSeconds seconds = some w ∧ ∀ σs, ∃ w', w.run σs = some w' ∧
    (σs.count .tick < 256 * seconds.toNat → w'.returned = false ∧
      (w.timers.added ≠ c.added → ∀ x ∈ w'.timers.fired, x.entry ≠ c.added))

/-- The future of `sleep_future_create(n)` is pending until `n` ticks have come, and from then on
ready until `2^31` have. -/
def AnswersOnTime (c : HeapTimers) (n : UInt32) : Prop :=
  ∃ c₁ f, c.sleepFutureCreate n = some (c₁, f) ∧ f ≠ 0 ∧
    ∀ ops, c₁.SleepMeets f ops → ∃ c₂, c₁.sleepRun ops = some c₂ ∧
      (ops.count .tick < n.toNat → c₂.sleepFuturePoll f = .pending) ∧
      (n.toNat ≤ ops.count .tick → ops.count .tick ≤ 2 ^ 31 → c₂.sleepFuturePoll f = .ready)

end HeapTimers

/-! ### The clock -/

/-- The tick count after `k` ticks. -/
def after (t : UInt32) (k : ℕ) : UInt32 := t + UInt32.ofNat k

theorem after_zero (t : UInt32) : after t 0 = t := UInt32.add_zero t

/-! ### The numbered entries -/

namespace TimerState

/-- Entry `e` waits for tick `target` and has not fired. -/
structure Unfired (s : TimerState) (e : ℕ) (target : UInt32) : Prop where
  lt_top : e < s.top
  wakeUpTick : (s.nodes e).wakeUpTick = target
  not_fired : ∀ x ∈ s.fired, x.entry ≠ e

variable {s s' : TimerState} {t target : UInt32} {e : ℕ}

namespace Unfired

/-- The entry that `wake_up_list_add` makes. -/
theorem of_add (h : s.Running t) {call : AddCall} (hcall : call.allocated = true) :
    (wakeUpListAdd s call).Unfired s.top call.wakeUpTick := by
  obtain ⟨call, allocated⟩ := call
  obtain rfl : allocated = true := hcall
  obtain ⟨es, hq⟩ := h.queue
  have hadded := wakeUpListAdd_spec hq.hasWakeUpList ⟨call, true⟩
  have hcontent := wakeUpListAdd_content hq.hasWakeUpList call
  refine ⟨?_, congrArg WakeUp.wakeUpTick hcontent, ?_⟩
  · rw [hadded.top]
    exact Nat.lt_succ_self _
  · rw [hadded.fired]
    exact fun x hx => (h.fired_lt x hx).ne

theorem add (hu : s.Unfired e target) (h : s.Running t) (call : AddCall) :
    (wakeUpListAdd s call).Unfired e target := by
  obtain ⟨es, hq⟩ := h.queue
  have hadded := wakeUpListAdd_spec hq.hasWakeUpList call
  have hcontent := hadded.sameClock.content e hu.lt_top
  refine ⟨hadded.top ▸ Nat.lt_add_right _ hu.lt_top, ?_, ?_⟩
  · exact (congrArg WakeUp.wakeUpTick hcontent).trans hu.wakeUpTick
  · rw [hadded.fired]
    exact hu.not_fired

/-- A tick before the target does not fire the entry. -/
theorem tick (hu : s.Unfired e target) (h : s.Running t) {es : List ℕ} (ht : Ticked s es s')
    (hlt : t + 1 < target) : s'.Unfired e target := by
  have hcontent := ht.content e hu.lt_top
  refine ⟨ht.top ▸ hu.lt_top, ?_, ?_⟩
  · exact (congrArg WakeUp.wakeUpTick hcontent).trans hu.wakeUpTick
  · rw [ht.fired]
    intro x hx
    rcases List.mem_append.mp hx with hx | hx
    · exact hu.not_fired x hx
    · rintro rfl
      obtain ⟨d, -, hfire⟩ := List.mem_filterMap.mp hx
      -- only an entry whose tick has come fires
      have hnow : nextTick s = t + 1 := by
        rw [(nextTick_eq h.hasMonotonicTime).1, h.tickCount]
      rw [← entry_of_firing hfire, firing, due, hu.wakeUpTick, hnow,
        decide_eq_false (UInt32.not_le.mpr hlt)] at hfire
      exact absurd hfire (by simp)

end Unfired

end TimerState

/-! ### Steps -/

section Steps

variable {c c' : HeapTimers} {s : TimerState} {t : UInt32} {f : UInt32} {ws : List UInt32}

/-- What a step leaves of the timers: the clock has moved by `k` ticks, and an entry whose target is
later has not fired. -/
structure Passed (s : TimerState) (t : UInt32) (k : ℕ) (s' : TimerState) : Prop where
  running : s'.Running (after t k)
  unfired : ∀ e target, s.Unfired e target → (∀ j ≤ k, after t j < target) → s'.Unfired e target

theorem Passed.refl (h : s.Running t) : Passed s t 0 s :=
  ⟨(after_zero t).symm ▸ h, fun _ _ hu _ => hu⟩

theorem Passed.add (h : s.Running t) (call : AddCall) : Passed s t 0 (wakeUpListAdd s call) :=
  ⟨(after_zero t).symm ▸ h.add call, fun _ _ hu _ => hu.add h call⟩

theorem Passed.tick {s' : TimerState} (h : s.Running t)
    (hcode : rtcTick (fun _ => []) s = some s') : Passed s t 1 s' := by
  obtain ⟨⟨es, ht⟩, h'⟩ := h.tick hcode
  exact ⟨h', fun _ _ hu hlt => hu.tick h ht (hlt 1 le_rfl)⟩

theorem after_after (t : UInt32) (j k : ℕ) : after (after t j) k = after t (j + k) := by
  rw [after, after, after, UInt32.ofNat_add, UInt32.add_assoc]

theorem Passed.trans {s₁ s₂ : TimerState} {j k : ℕ} (h₁ : Passed s t j s₁)
    (h₂ : Passed s₁ (after t j) k s₂) : Passed s t (j + k) s₂ := by
  refine ⟨after_after t j k ▸ h₂.running, fun e target hu hlt => ?_⟩
  refine h₂.unfired e target (h₁.unfired e target hu fun i hi => hlt i (by omega)) fun i hi => ?_
  rw [after_after]
  exact hlt (j + i) (by omega)

/-- A step of a run in which the future at `f` sleeps. -/
theorem Holding.sleepStep (h : Holding [(f, ws)] c s) (hr : s.Running t) (op : HeapTimers.SleepOp)
    (hok : c.SleepOk f op) :
    ∃ c' s', c.sleepStep op = some c' ∧ Holding [(f, ws)] c' s' ∧
      Passed s t ([op].count .tick) s' := by
  -- what other code does to a block of its own leaves the timers and the future alone
  have hother : ∀ {p}, c.Foreign f p → ∀ {m : HeapState}, m.Sound →
      (∀ q vs, Record c.memory q vs → q ≠ p → Record m q vs) →
      Holding [(f, ws)] { c with memory := m } s := by
    intro p hp m hm hkeep
    obtain ⟨addr, es, href, hq⟩ := h
    have hframe : ∀ r ∈ [(f, ws)], r.1 ≠ p := by
      intro r hmem
      rw [List.mem_singleton.mp hmem]
      exact hp.future.symm
    exact ⟨addr, es, href.other
      (other_of_foreign href hq hp.clock hp.list hp.entry hframe) hm hkeep, hq⟩
  cases op with
  | add call =>
    obtain ⟨c', allocated, hcode, h'⟩ := h.add hok call
    exact ⟨c', _, hcode, h', .add hr _⟩
  | tick =>
    obtain ⟨c', s', hcode, habs, h'⟩ := h.tick
    exact ⟨c', s', hcode, h', .tick hr habs⟩
  | malloc size =>
    obtain ⟨hlow, hlt, hc | hfull⟩ := hok
    · obtain ⟨addr, es, href, hq⟩ := h
      obtain ⟨m, p, hcode, hg⟩ := href.sound.malloc hc hlow hlt
      refine ⟨{ c with memory := m }, s, ?_, ⟨addr, es, href.other (p := p) ?_ hg.sound
        fun q vs hv _ => hv.keep href.sound (hg.keeps q hv.owns.live), hq⟩, .refl hr⟩
      · rw [HeapTimers.sleepStep, hcode]
        rfl
      · -- the new block is none of those in use
        have hnew : ∀ {q vs}, Record c.memory q vs → q ≠ p := fun hv heq =>
          hg.not_live (heq ▸ hv.owns.live)
        refine ⟨fun heq => ?_, (hnew href.list).symm, fun e he => hnew (href.entry e he),
          fun r hmem => hnew (href.frame r hmem)⟩
        by_cases hnull : c.monotonicTime = 0
        · exact hg.ne_zero (heq.trans hnull)
        · exact hnew (href.clock hnull) heq.symm
    · -- there is no block, and nothing changes
      have hsize : size ≠ 0 := by
        rintro rfl
        exact absurd hlow (by decide)
      refine ⟨c, s, ?_, h, .refl hr⟩
      rw [HeapTimers.sleepStep, hfull.malloc hsize]
      rfl
  | free p =>
    obtain ⟨hlive, hp⟩ := hok
    have hm := h.sound
    obtain ⟨m, hcode, hfreed⟩ := hm.free hlive
    refine ⟨{ c with memory := m }, s, ?_, hother hp hfreed.sound fun q vs hv hne =>
      hv.keep hm (hfreed.keeps q hv.owns.live hne), .refl hr⟩
    rw [HeapTimers.sleepStep, hcode]
    rfl
  | write p k v =>
    obtain ⟨howns, hp⟩ := hok
    have hm := h.sound
    have hw : Written c.memory p (c.memory.setField p k v) := hm.setField howns le_rfl
    exact ⟨c.setField p k v, s, rfl, hother hp hw.sound fun q vs hv hne =>
      hv.keep hm (hw.keeps q hv.owns.live hne), .refl hr⟩

/-- A run in which the future at `f` sleeps. -/
theorem Holding.sleepRun (h : Holding [(f, ws)] c s) (hr : s.Running t)
    (ops : List HeapTimers.SleepOp) (hok : c.SleepMeets f ops) :
    ∃ c' s', c.sleepRun ops = some c' ∧ Holding [(f, ws)] c' s' ∧
      Passed s t (ops.count .tick) s' := by
  induction ops generalizing c s t with
  | nil => exact ⟨c, s, rfl, h, .refl hr⟩
  | cons op ops ih =>
    obtain ⟨c₁, s₁, hcode, h₁, hp₁⟩ := h.sleepStep hr op hok.1
    obtain ⟨c', s', hrest, h', hp'⟩ := ih h₁ hp₁.running (hok.2 c₁ hcode)
    refine ⟨c', s', ?_, h', ?_⟩
    · rw [HeapTimers.sleepRun, hcode]
      exact hrest
    · rw [← List.singleton_append, List.count_append]
      exact hp₁.trans hp'

end Steps

/-! ### Creating a future -/

section Creation

variable {c : HeapTimers} {s : TimerState} {t : UInt32} {ws : List UInt32} {f : UInt32}

/-- The entry that a call has added, if it has added one, waits for `target`. -/
def Entered (s s' : TimerState) (target : UInt32) : Prop :=
  s'.top ≠ s.top → s'.Unfired s.top target

theorem Entered.add (h : s.Running t) (call : AddCall) :
    Entered s (wakeUpListAdd s call) call.wakeUpTick := by
  intro htop
  refine .of_add h (Bool.eq_true_of_not_eq_false fun hcall => htop ?_)
  obtain ⟨es, hq⟩ := h.queue
  rw [(wakeUpListAdd_spec hq.hasWakeUpList call).top, addCount,
    List.countP_cons_of_neg (by simp [hcall])]
  rfl

/-- The stores to the fields of a new future set its target. -/
theorem fillSleepFuture_spec (h : Holding [(f, ws)] c s) (hlen : ws.length = 4) (ticks : UInt32) :
    ∃ ws', ws'.length = 4 ∧ ws'[3]? = some (monotonicTimeGetTicksGlobal s + ticks) ∧
      Holding [(f, ws')] (c.fillSleepFuture f ticks) s := by
  obtain ⟨ws₁, hlen₁, h₁⟩ := h.change (m := c.memory.setField f 0 FutureVTable.sleepFuture.addr)
    (P := fun vs => vs.length = 4) fun σ hσ hf =>
      ⟨_, by simpa using hlen, hσ.setField hf (i := 0) rfl (by omega) _⟩
  obtain ⟨ws₂, hlen₂, h₂⟩ := h₁.change
    (m := (c.setField f 0 FutureVTable.sleepFuture.addr).memory.setBoolField f 4 false)
    (P := fun vs => vs.length = 4) fun σ hσ hf => by
      obtain ⟨w, -, hσ'⟩ := hσ.setBoolField hf (k := 4) (i := 1) rfl (by omega) false
      exact ⟨_, by simpa using hlen₁, hσ'⟩
  obtain ⟨ws₃, hlen₃, h₃⟩ := h₂.change
    (m := ((c.setField f 0 FutureVTable.sleepFuture.addr).setBoolField f 4 false).memory.setField
      f 8 0)
    (P := fun vs => vs.length = 4) fun σ hσ hf =>
      ⟨_, by simpa using hlen₂, hσ.setField hf (i := 2) rfl (by omega) _⟩
  have hticks := h₃.getTicks
  obtain ⟨ws₄, ⟨hlen₄, htarget⟩, h₄⟩ := h₃.change
    (m := (((c.setField f 0 FutureVTable.sleepFuture.addr).setBoolField f 4 false).setField
      f 8 0).memory.setField f 12 (monotonicTimeGetTicksGlobal s + ticks))
    (P := fun vs => vs.length = 4 ∧ vs[3]? = some (monotonicTimeGetTicksGlobal s + ticks))
    fun σ hσ hf => ⟨_, ⟨by simpa using hlen₃, by simp [hlen₃]⟩,
      hσ.setField hf (i := 3) rfl (by omega) _⟩
  refine ⟨ws₄, hlen₄, htarget, ?_⟩
  rw [← hticks] at h₄
  exact h₄

/-- `sleep_future_create`. -/
theorem sleepFutureCreate_spec (h : Holding [] c s) (hr : s.Running t) {ticks : UInt32}
    (hc : c.ClearCreate ticks) :
    ∃ c' f ws s', c.sleepFutureCreate ticks = some (c', f) ∧ f ≠ 0 ∧ ws.length = 4 ∧
      ws[3]? = some (t + ticks) ∧ Holding [(f, ws)] c' s' ∧ s'.Running t ∧
      Entered s s' (t + ticks) := by
  obtain ⟨addr, es, href, hq⟩ := h
  obtain ⟨m, f, vs, hcode, hf0, hlen, -, h₁⟩ := href.alloc (n := 3) rfl (by decide) hc.1
  obtain ⟨ws, hlen', htarget, h₂⟩ := fillSleepFuture_spec ⟨addr, es, h₁, hq⟩ hlen ticks
  obtain ⟨c', allocated, hadd, h₃⟩ :=
    h₂.add (hc.2 m f hcode) ⟨t + ticks, sleepFutureCallback, 0⟩
  rw [hr.getTicks] at htarget
  have hread : (({ c with memory := m } : HeapTimers).fillSleepFuture f ticks).field f 12
      = t + ticks := (h₂.frame List.mem_cons_self).field (i := 3) rfl htarget
  refine ⟨c', f, ws, _, ?_, hf0, hlen', htarget, h₃, hr.add _, .add hr _⟩
  rw [HeapTimers.sleepFutureCreate, hcode, Option.bind_some]
  dsimp only
  rw [if_neg hf0, hread, hadd]
  rfl

/-- `sleep_seconds_async`: the target stays the one of `sleep_future_create`. -/
theorem sleepSecondsAsync_spec (h : Holding [] c s) (hr : s.Running t) {seconds : UInt32}
    {ex : HeapExecutor} (hc : c.ClearAsync ex seconds) :
    ∃ c' ex' f ws s', c.sleepSecondsAsync ex seconds = some (c', ex', f) ∧ f ≠ 0 ∧
      ws[3]? = some (t + seconds * 256) ∧ Holding [(f, ws)] c' s' ∧ s'.Running t ∧
      Entered s s' (t + seconds * 256) := by
  obtain ⟨c₁, f, ws, s', hcode, hf0, hlen, htarget, h₁, hr₁, hentry⟩ :=
    sleepFutureCreate_spec h hr hc.1
  have hserved := hc.2 c₁ f hcode
  obtain ⟨ex', hspawn⟩ : ∃ ex', ({ ex with memory := c₁.memory } : HeapExecutor).executorSpawn f
      = some ex' := by
    obtain ⟨ex', -, hspawn, -⟩ := HeapExecutor.executorSpawn_holds
      (c := { ex with memory := c₁.memory }) (σ := Function.update (fun _ => none) f (some ws))
      (Holds.insert ⟨h₁.sound, fun _ _ hq => absurd hq nofun⟩ (h₁.frame List.mem_cons_self))
      (Function.update_self ..) (by omega) hserved
    exact ⟨ex', hspawn⟩
  obtain ⟨ws', htarget', h₂⟩ := h₁.change (m := ex'.memory)
    (P := fun vs => vs[3]? = some (t + seconds * 256)) fun σ hσ hf => by
      obtain ⟨ex'', waker, hspawn', hσ'⟩ := HeapExecutor.executorSpawn_holds
        (c := { ex with memory := c₁.memory }) hσ hf (by omega) hserved
      obtain rfl := Option.some.inj (hspawn.symm.trans hspawn')
      exact ⟨_, by rwa [List.getElem?_set_ne (by decide)], hσ'⟩
  refine ⟨_, ex', f, ws', s', ?_, hf0, htarget', h₂, hr₁, hentry⟩
  rw [HeapTimers.sleepSecondsAsync, hcode, Option.bind_some]
  dsimp only
  rw [if_neg hf0, hspawn]
  rfl

theorem poll_eq_pending_iff {target : UInt32} (h : Holding [(f, ws)] c s) (hr : s.Running t)
    (htarget : ws[3]? = some target) : c.sleepFuturePoll f = .pending ↔ t < target := by
  have hread : c.memory.field f 12 = target :=
    (h.frame List.mem_cons_self).field (i := 3) rfl htarget
  rw [HeapTimers.sleepFuturePoll, Async.sleepFuturePoll, hread, h.getTicks, hr.getTicks,
    ← UInt32.not_le]
  split <;> simp [*]

theorem poll_eq_ready_iff {target : UInt32} (h : Holding [(f, ws)] c s) (hr : s.Running t)
    (htarget : ws[3]? = some target) : c.sleepFuturePoll f = .ready ↔ target ≤ t := by
  rw [← UInt32.not_lt, ← poll_eq_pending_iff h hr htarget]
  cases c.sleepFuturePoll f <;> simp

end Creation

/-! ### The busy wait -/

namespace BusyWait

variable {F : List (UInt32 × List UInt32)} {w : BusyWait} {s : TimerState} {t : UInt32}

/-- A schedule of the busy wait: the loop ends at the first test that finds the target reached. -/
theorem run_spec (h : Holding F w.timers s) (hr : s.Running t) (σs : List WaitStep) :
    ∃ w' s', w.run σs = some w' ∧ Holding F w'.timers s' ∧ Passed s t (σs.count .tick) s' ∧
      w'.targetTick = w.targetTick ∧
      (w.returned = false → (∀ k ≤ σs.count .tick, after t k < w.targetTick) →
        w'.returned = false) := by
  induction σs generalizing w s t with
  | nil => exact ⟨w, s, rfl, h, .refl hr, rfl, fun hw _ => hw⟩
  | cons σ σs ih =>
    cases σ with
    | test =>
      rw [List.count_cons_of_ne (by simp)]
      by_cases htest : w.timers.monotonicTimeGetTicksGlobal < w.targetTick
      · obtain ⟨w', s', hrun, hrest⟩ := ih h hr
        refine ⟨w', s', ?_, hrest⟩
        rw [run, step, if_pos htest]
        exact hrun
      · obtain ⟨w', s', hrun, h', hp, htarget, -⟩ := ih (w := { w with returned := true }) h hr
        refine ⟨w', s', ?_, h', hp, htarget, fun _ hlt => ?_⟩
        · rw [run, step, if_neg htest]
          exact hrun
        · -- the test comes after no further tick
          have hnow := hlt 0 (Nat.zero_le _)
          rw [after_zero] at hnow
          rw [h.getTicks, hr.getTicks] at htest
          exact absurd hnow htest
    | tick =>
      obtain ⟨c₁, s₁, hcode, habs, h₁⟩ := h.tick
      have hp₁ : Passed s t 1 s₁ := .tick hr habs
      obtain ⟨w', s', hrun, h', hp', htarget, hret⟩ :=
        ih (w := { w with timers := c₁ }) h₁ hp₁.running
      refine ⟨w', s', ?_, h', ?_, htarget, fun hw hlt => hret hw fun k hk => ?_⟩
      · rw [run, step, hcode]
        exact hrun
      · rw [List.count_cons_self, Nat.add_comm]
        exact hp₁.trans hp'
      · -- `k` ticks after this one are `k + 1` ticks from here
        rw [after_after, Nat.add_comm]
        refine hlt (k + 1) ?_
        rw [List.count_cons_self]
        exact Nat.succ_le_succ hk

/-- A test after some ticks. -/
theorem run_test (h : Holding F w.timers s) (hr : s.Running t) (k : ℕ) :
    ∃ w', w.run (List.replicate k .tick ++ [.test]) = some w' ∧
      (w'.returned = false → after t k < w.targetTick) := by
  induction k generalizing w s t with
  | zero =>
    rw [List.replicate_zero, List.nil_append, run, step, h.getTicks, hr.getTicks, after_zero]
    by_cases htest : t < w.targetTick
    · exact ⟨w, if_pos htest ▸ rfl, fun _ => htest⟩
    · exact ⟨{ w with returned := true }, if_neg htest ▸ rfl, nofun⟩
  | succ k ih =>
    obtain ⟨c₁, s₁, hcode, habs, h₁⟩ := h.tick
    obtain ⟨w', hrun, hret⟩ :=
      ih (w := { w with timers := c₁ }) h₁ (Passed.tick hr habs).running
    refine ⟨w', ?_, fun hw => ?_⟩
    · rw [List.replicate_succ, List.cons_append, run, step, hcode]
      exact hrun
    · have hlt := hret hw
      rwa [after_after, Nat.add_comm] at hlt

end BusyWait

/-! ### Durations -/

section Durations

variable {c : HeapTimers} {s : TimerState} {t : UInt32}

theorem seconds_mul (seconds : UInt32) : seconds * 256 = UInt32.ofNat (256 * seconds.toNat) := by
  rw [UInt32.ofNat_mul, UInt32.ofNat_toNat, UInt32.mul_comm]
  rfl

theorem after_lt_after_iff (t : UInt32) (j k : ℕ) :
    after t j < after t k ↔ (t.toNat + j) % 2 ^ 32 < (t.toNat + k) % 2 ^ 32 := by
  rw [UInt32.lt_iff_toNat_lt, after, after, toNat_add_ofNat, toNat_add_ofNat]

/-- The entry that was added before some ticks has not fired. -/
theorem not_fired {s₁ s₂ : TimerState} {c₁ c₂ : HeapTimers} {F F₁ F₂ : List (UInt32 × List UInt32)}
    {target : UInt32} {k : ℕ} (h : Holding F c s) (h₁ : Holding F₁ c₁ s₁) (h₂ : Holding F₂ c₂ s₂)
    (hentry : Entered s s₁ target) (hp : Passed s₁ t k s₂) (hlt : ∀ j ≤ k, after t j < target) :
    c₁.added ≠ c.added → ∀ x ∈ c₂.fired, x.entry ≠ c.added := by
  rw [h.added, h₁.added, h₂.fired]
  exact fun htop => (hp.unfired _ _ (hentry htop) hlt).not_fired

/-- With a target that does not wrap, no sleep ends early. -/
theorem neverEarly_of_lt (h : Holding [] c s) (hr : s.Running t) {seconds : UInt32}
    (hc : c.memory.Clear 16 ∨ c.memory.Full 16)
    (hlt : t.toNat + 256 * seconds.toNat < 2 ^ 32) : c.NeverEarly seconds := by
  have hbefore : ∀ k < 256 * seconds.toNat, after t k < t + seconds * 256 := by
    rw [seconds_mul]
    intro k hk
    exact (after_lt_after_iff t k _).mpr ((forall_lt_deadline_iff t.toNat_lt _).mpr hlt k hk)
  constructor
  · -- `sleep_seconds_async`: the future stays pending
    intro ex hasync
    obtain ⟨c₁, ex₁, f, ws, s₁, hcode, hf0, htarget, h₁, hr₁, hentry⟩ :=
      sleepSecondsAsync_spec h hr hasync
    refine ⟨c₁, ex₁, f, hcode, hf0, fun ops hops => ?_⟩
    obtain ⟨c₂, s₂, hrun, h₂, hp⟩ := h₁.sleepRun hr₁ ops hops
    refine ⟨c₂, hrun, fun hcount => ⟨?_, ?_⟩⟩
    · exact (poll_eq_pending_iff h₂ hp.running htarget).mpr (hbefore _ hcount)
    · exact not_fired h h₁ h₂ hentry hp fun k hk => hbefore k (hk.trans_lt hcount)
  · -- `sleep_seconds`: the loop goes on
    obtain ⟨c₁, allocated, hadd, h₁⟩ := h.add hc ⟨t + seconds * 256, sleepCallback, 0⟩
    refine ⟨⟨c₁, t + seconds * 256, false⟩, ?_, fun σs => ?_⟩
    · rw [HeapTimers.sleepSeconds, h.getTicks, hr.getTicks, hadd]
      rfl
    · obtain ⟨w', s', hrun, h', hp, -, hret⟩ := BusyWait.run_spec
        (w := ⟨c₁, t + seconds * 256, false⟩) h₁ (hr.add _) σs
      refine ⟨w', hrun, fun hcount => ?_⟩
      have hall : ∀ k ≤ σs.count .tick, after t k < t + seconds * 256 :=
        fun k hk => hbefore k (hk.trans_lt hcount)
      exact ⟨hret rfl hall, not_fired h h₁ h' (.add hr _) hp hall⟩

/-- If no sleep ends early, the target does not wrap. -/
theorem lt_of_neverEarly (h : Holding [] c s) (hr : s.Running t) {seconds : UInt32}
    (hc : c.memory.Clear 16 ∨ c.memory.Full 16) (hs : c.NeverEarly seconds) :
    t.toNat + 256 * seconds.toNat < 2 ^ 32 := by
  apply (forall_lt_deadline_iff t.toNat_lt _).mp
  intro k hk
  obtain ⟨w, hcode, hwait⟩ := hs.wait
  obtain ⟨c₁, allocated, hadd, h₁⟩ := h.add hc ⟨t + seconds * 256, sleepCallback, 0⟩
  rw [HeapTimers.sleepSeconds, h.getTicks, hr.getTicks, hadd] at hcode
  obtain rfl := Option.some.inj hcode
  obtain ⟨w', hrun, hlt⟩ := BusyWait.run_test
    (w := ⟨c₁, t + seconds * 256, false⟩) h₁ (hr.add _) k
  obtain ⟨w'', hrun', hearly⟩ := hwait (List.replicate k .tick ++ [.test])
  obtain rfl := Option.some.inj (hrun.symm.trans hrun')
  have hbefore := hlt (hearly (by simpa using hk)).1
  rw [seconds_mul] at hbefore
  exact (after_lt_after_iff t k _).mp hbefore

/-- Ticks alone ask nothing of the heap. -/
theorem sleepMeets_ticks (f : UInt32) (c : HeapTimers) (k : ℕ) :
    c.SleepMeets f (List.replicate k .tick) := by
  induction k generalizing c with
  | zero => trivial
  | succ k ih => exact ⟨trivial, fun c' _ => ih c'⟩

/-- A future answers on time exactly when the clock does not wrap within `2^31` ticks. -/
theorem answersOnTime_iff (h : Holding [] c s) (hr : s.Running t) {n : UInt32}
    (hc : c.ClearCreate n) (hn : n.toNat < 2 ^ 31) : c.AnswersOnTime n ↔ t.toNat < 2 ^ 31 := by
  have hwindow := deadline_window_iff t.toNat_lt hn.le (show 2 ^ 31 < 2 ^ 32 by decide)
  have htarget' : t + n = after t n.toNat := by rw [after, UInt32.ofNat_toNat]
  have hready : ∀ k, after t n.toNat ≤ after t k
      ↔ (t.toNat + n.toNat) % 2 ^ 32 ≤ (t.toNat + k) % 2 ^ 32 := fun k => by
    rw [← UInt32.not_lt, after_lt_after_iff, not_lt]
  rw [show t.toNat < 2 ^ 31 ↔ t.toNat + 2 ^ 31 < 2 ^ 32 by omega, ← hwindow]
  obtain ⟨c₁, f, ws, s₁, hcode, hf0, -, htarget, h₁, hr₁, -⟩ := sleepFutureCreate_spec h hr hc
  -- a poll after some run sees the clock at so many ticks after the start
  have hpoll : ∀ ops, c₁.SleepMeets f ops → ∃ c₂, c₁.sleepRun ops = some c₂ ∧
      (c₂.sleepFuturePoll f = .pending ↔ (t.toNat + ops.count .tick) % 2 ^ 32
        < (t.toNat + n.toNat) % 2 ^ 32) ∧
      (c₂.sleepFuturePoll f = .ready ↔ (t.toNat + n.toNat) % 2 ^ 32
        ≤ (t.toNat + ops.count .tick) % 2 ^ 32) := by
    intro ops hops
    obtain ⟨c₂, s₂, hrun, h₂, hp⟩ := h₁.sleepRun hr₁ ops hops
    refine ⟨c₂, hrun, ?_, ?_⟩
    · rw [poll_eq_pending_iff h₂ hp.running htarget, htarget', after_lt_after_iff]
    · rw [poll_eq_ready_iff h₂ hp.running htarget, htarget', hready]
  constructor
  · rintro ⟨c₁', f', hcode', -, hon⟩
    obtain ⟨rfl, rfl⟩ := Prod.mk.inj (Option.some.inj (hcode.symm.trans hcode'))
    have hticks : ∀ k, (k < n.toNat → (t.toNat + k) % 2 ^ 32 < (t.toNat + n.toNat) % 2 ^ 32) ∧
        (n.toNat ≤ k → k ≤ 2 ^ 31 →
          (t.toNat + n.toNat) % 2 ^ 32 ≤ (t.toNat + k) % 2 ^ 32) := by
      intro k
      obtain ⟨c₂, hrun, hpending, hready⟩ := hpoll _ (sleepMeets_ticks f c₁ k)
      obtain ⟨c₂', hrun', hearly, hlate⟩ := hon _ (sleepMeets_ticks f c₁ k)
      obtain rfl := Option.some.inj (hrun.symm.trans hrun')
      rw [List.count_replicate_self] at hpending hready hearly hlate
      exact ⟨fun hk => hpending.mp (hearly hk), fun hk hle => hready.mp (hlate hk hle)⟩
    exact ⟨fun k => (hticks k).1, fun k => (hticks k).2⟩
  · rintro ⟨hearly, hlate⟩
    refine ⟨c₁, f, hcode, hf0, fun ops hops => ?_⟩
    obtain ⟨c₂, hrun, hpending, hready⟩ := hpoll ops hops
    exact ⟨c₂, hrun, fun hk => hpending.mpr (hearly _ hk),
      fun hk hle => hready.mpr (hlate _ hk hle)⟩

end Durations

/-- The timers that a heap holds. -/
theorem HeapTimers.Running.holding {c : HeapTimers} {ps : List UInt32} {t : UInt32}
    (h : c.Running ps t) : Holding [] c (c.toTimers ps) ∧ (c.toTimers ps).Running t :=
  ⟨.of_queue h.queue, bne_iff_ne.mpr h.clock, h.tickCount, ⟨_, h.queue.queue⟩, h.fired_lt⟩

/-- **A sleep of `seconds` that starts at tick `t` never ends early if and only if
`t + 256 * seconds < 2^32`, and a future for fewer than `2^31` ticks answers on time if and only if
`t < 2^31`**, as long as the blocks that `malloc` hands out are clear. -/
theorem neverEarly_iff {c : HeapTimers} {ps : List UInt32} {t : UInt32} (h : c.Running ps t)
    (hc : c.memory.Clear 16 ∨ c.memory.Full 16) (seconds n : UInt32) (hn : n.toNat < 2 ^ 31) :
    (c.NeverEarly seconds ↔ t.toNat + 256 * seconds.toNat < 2 ^ 32) ∧
      (c.ClearCreate n → (c.AnswersOnTime n ↔ t.toNat < 2 ^ 31)) := by
  obtain ⟨hh, hr⟩ := h.holding
  exact ⟨⟨lt_of_neverEarly hh hr hc, neverEarly_of_lt hh hr hc⟩,
    fun hcreate => answersOnTime_iff hh hr hcreate hn⟩

/-! ### Concrete timers -/

namespace HeapTimers

instance (c : HeapTimers) (ticks : UInt32) : Decidable (c.ClearCreate ticks) :=
  decidable_of_iff (c.memory.Clear 16 ∧ ∀ r ∈ c.memory.malloc 16,
      (({ c with memory := r.1 } : HeapTimers).fillSleepFuture r.2 ticks).memory.Clear 16 ∨
        (({ c with memory := r.1 } : HeapTimers).fillSleepFuture r.2 ticks).memory.Full 16)
    (and_congr_right fun _ => ⟨fun h m f hr => h (m, f) hr, fun h r hr => h r.1 r.2 hr⟩)

instance (c : HeapTimers) (ex : HeapExecutor) (seconds : UInt32) :
    Decidable (c.ClearAsync ex seconds) :=
  decidable_of_iff (c.ClearCreate (seconds * 256) ∧ ∀ r ∈ c.sleepFutureCreate (seconds * 256),
      ({ ex with memory := r.1.memory } : HeapExecutor).SpawnServed r.2)
    (and_congr_right fun _ => ⟨fun h c' f hr => h (c', f) hr, fun h r hr => h r.1 r.2 hr⟩)

instance (c : HeapTimers) (ps : List UInt32) (t : UInt32) : Decidable (c.Running ps t) :=
  decidable_of_iff (Queue c ps ∧ c.monotonicTime ≠ 0 ∧ c.field c.monotonicTime 0 = t ∧
      ∀ x ∈ c.fired, x.entry < c.added)
    ⟨fun ⟨h1, h2, h3, h4⟩ => ⟨h1, h2, h3, h4⟩,
      fun h => ⟨h.queue, h.clock, h.tickCount, h.fired_lt⟩⟩

/-- The timers with the entries `calls` at tick `t`. -/
def atTick (t : UInt32) (calls : List WakeUp) : HeapTimers :=
  (withEntries calls).setField (withEntries calls).monotonicTime 0 t

end HeapTimers

/-- One second and five ticks, from the third tick on, with an entry for the fourth on the list. -/
theorem neverEarly_iff_oneEntry :
    (HeapTimers.atTick 3 [⟨4, 1, 0⟩]).NeverEarly 1 ∧
      (HeapTimers.atTick 3 [⟨4, 1, 0⟩]).AnswersOnTime 5 := by
  have hrun : (HeapTimers.atTick 3 [⟨4, 1, 0⟩]).Running [5056] 3 := by decide +kernel
  have hsleep := neverEarly_iff hrun (by decide +kernel) 1 5 (by decide)
  exact ⟨hsleep.1.mpr (by decide), (hsleep.2 (by decide +kernel)).mpr (by decide)⟩

/-- One second from the last tick before the clock wraps: the future is ready at once, in a heap
with nothing freed. -/
theorem not_neverEarly_last :
    (HeapTimers.atTick 0xFFFFFFFF []).Running [] 0xFFFFFFFF ∧
      (HeapTimers.atTick 0xFFFFFFFF []).memory.Clear 16 ∧
      ¬ (HeapTimers.atTick 0xFFFFFFFF []).NeverEarly 1 := by
  refine ⟨by decide +kernel, by decide +kernel, fun h => ?_⟩
  obtain ⟨c₁, ex₁, f, hcode, -, hrun⟩ := h.async (.boot emptyMemory) (by decide +kernel)
  obtain ⟨c₂, hnone, hearly⟩ := hrun [] trivial
  obtain rfl := Option.some.inj hnone
  have hready : ((HeapTimers.atTick 0xFFFFFFFF []).sleepSecondsAsync (.boot emptyMemory) 1).map
      (fun r => r.1.sleepFuturePoll r.2.2) = some .ready := by decide +kernel
  rw [hcode] at hready
  have hpending := (hearly (by decide)).1
  exact absurd (hpending.symm.trans (Option.some.inj hready)) (by decide)

end Shogun.Rtc
