import Shogun.Memory.Equiv.BlockStore
import Shogun.Rtc.Equiv.HeapQueue

/-!
# Timers that share the heap

`Holding F c s`: the heap holds the timers `s` with their list, and the blocks `F` of someone else.
The code keeps it through additions, ticks, and whatever other code does to blocks that are neither
the timers' nor in `F`.
-/

namespace Shogun.Rtc

open Memory Memory.HeapState LinkedList LinkedList.Links

/-! ### What other code does -/

namespace Refines

variable {F : List (UInt32 × List UInt32)} {addr : ℕ → UInt32} {T T' : Set ℕ} {c : HeapTimers}
  {s : TimerState} {m : HeapState} {p : UInt32} {ws ws' : List UInt32}

/-- Entries that are no longer tracked. -/
theorem mono (h : Refines F addr T c s) (hT : T' ⊆ T) : Refines F addr T' c s :=
  { h with
    entry := fun e he => h.entry e (hT he)
    entry_ne := fun e he => h.entry_ne e (hT he)
    frame_ne := fun r hr => ⟨(h.frame_ne r hr).1, (h.frame_ne r hr).2.1, fun e he =>
      (h.frame_ne r hr).2.2 e (hT he)⟩
    entryOf := fun e he => h.entryOf e (hT he)
    lt_top := fun e he => h.lt_top e (hT he)
    next_lt := fun e he => h.next_lt e (hT he) }

/-- The block at `p` is none of those that `Refines` tells of. -/
structure Other (F : List (UInt32 × List UInt32)) (addr : ℕ → UInt32) (T : Set ℕ) (c : HeapTimers)
    (p : UInt32) : Prop where
  clock : p ≠ c.monotonicTime
  list : p ≠ c.wakeUpList
  entry : ∀ e ∈ T, addr e ≠ p
  frame : ∀ r ∈ F, r.1 ≠ p

/-- What other code does to a block of its own. -/
theorem other (h : Refines F addr T c s) (hp : Other F addr T c p) (hm : m.Sound)
    (hkeep : ∀ q vs, Record c.memory q vs → q ≠ p → Record m q vs) :
    Refines F addr T { c with memory := m } s :=
  { h with
    sound := hm
    clock := fun hne => hkeep _ _ (h.clock hne) hp.clock.symm
    list := hkeep _ _ h.list hp.list.symm
    entry := fun e he => hkeep _ _ (h.entry e he) (hp.entry e he)
    frame := fun r hr => hkeep _ _ (h.frame r hr) (hp.frame r hr) }

/-- What happens to a block of someone else. -/
theorem frameChange (h : Refines ((p, ws) :: F) addr T c s) (hne : ∀ r ∈ F, r.1 ≠ p) (hm : m.Sound)
    (hp : Record m p ws') (hkeep : ∀ q vs, Record c.memory q vs → q ≠ p → Record m q vs) :
    Refines ((p, ws') :: F) addr T { c with memory := m } s := by
  obtain ⟨hclock, hlist, hentry⟩ := h.frame_ne _ List.mem_cons_self
  have htail : Refines F addr T c s :=
    { h with
      frame := fun r hr => h.frame r (List.mem_cons_of_mem _ hr)
      frame_ne := fun r hr => h.frame_ne r (List.mem_cons_of_mem _ hr) }
  have h' := htail.other ⟨hclock, hlist, fun e he => (hentry e he).symm, hne⟩ hm hkeep
  exact { h' with
    frame := List.forall_mem_cons.mpr ⟨hp, h'.frame⟩
    frame_ne := List.forall_mem_cons.mpr ⟨⟨hclock, hlist, hentry⟩, h'.frame_ne⟩ }

end Refines

/-! ### A running clock -/

namespace TimerState

/-- Monotonic time and the list are initialised, and it is tick `t`. -/
structure Running (s : TimerState) (t : UInt32) : Prop where
  hasMonotonicTime : s.hasMonotonicTime = true
  tickCount : s.tickCount = t
  queue : ∃ es, s.Queue es
  fired_lt : ∀ x ∈ s.fired, x.entry < s.top

variable {s s' : TimerState} {t : UInt32}

theorem Running.getTicks (h : s.Running t) : monotonicTimeGetTicksGlobal s = t := by
  rw [monotonicTimeGetTicksGlobal, if_pos h.hasMonotonicTime, h.tickCount]

theorem Running.add (h : s.Running t) (call : AddCall) : (wakeUpListAdd s call).Running t := by
  obtain ⟨es, hq⟩ := h.queue
  have hadded := wakeUpListAdd_spec hq.hasWakeUpList call
  refine ⟨hadded.sameClock.hasMonotonicTime.trans h.hasMonotonicTime,
    hadded.sameClock.tickCount.trans h.tickCount, ⟨_, hadded.queue hq⟩, ?_⟩
  rw [hadded.fired, hadded.top]
  exact fun x hx => Nat.lt_add_right _ (h.fired_lt x hx)

theorem Running.tick (h : s.Running t) (hcode : rtcTick (fun _ => []) s = some s') :
    (∃ es, Ticked s es s') ∧ s'.Running (t + 1) := by
  obtain ⟨es, hq⟩ := h.queue
  obtain ⟨s'', hcode', ht⟩ := rtcTick_spec hq
  obtain rfl := Option.some.inj (hcode'.symm.trans hcode)
  refine ⟨⟨es, ht⟩, ht.hasMonotonicTime.trans h.hasMonotonicTime, ?_, ⟨_, ht.queue⟩, ?_⟩
  · rw [ht.tickCount, (nextTick_eq h.hasMonotonicTime).2, h.tickCount]
  · rw [ht.fired, ht.top]
    intro x hx
    rcases List.mem_append.mp hx with hx | hx
    · exact h.fired_lt x hx
    · obtain ⟨e, he, hfire⟩ := List.mem_filterMap.mp hx
      rw [entry_of_firing hfire]
      exact hq.lt_top e he

end TimerState

/-! ### The timers in the heap -/

/-- The heap of `c` holds the timers `s` and their list; the blocks `F` belong to someone else. -/
def Holding (F : List (UInt32 × List UInt32)) (c : HeapTimers) (s : TimerState) : Prop :=
  ∃ addr es, Refines F addr {e | e ∈ es} c s ∧ s.Queue es

namespace Holding

variable {F : List (UInt32 × List UInt32)} {c : HeapTimers} {s : TimerState} {p : UInt32}
  {ws : List UInt32}

theorem of_queue {ps : List UInt32} (h : HeapTimers.Queue c ps) : Holding [] c (c.toTimers ps) :=
  ⟨_, _, h.refines, h.queue⟩

/-- After initialisation the clock is at zero. -/
theorem init {m : HeapState} (hm : m.Sound) (hc : HeapTimers.ClearInit m) :
    ∃ c, HeapTimers.init m = some c ∧ ∃ a : TimerState, Holding [] c a ∧ a.Running 0 := by
  obtain ⟨c, hcode, href⟩ := HeapTimers.init_refines hm hc
  have hs := RunState.init (fun _ => ⟨⟨0, 0, 0⟩, none⟩) 0
  exact ⟨c, hcode, _, ⟨_, [], href.mono (by simp), hs.queue⟩, hs.hasMonotonicTime, hs.tickCount,
    ⟨_, hs.queue⟩, fun _ hx => absurd hx List.not_mem_nil⟩

theorem sound (h : Holding F c s) : c.memory.Sound := by
  obtain ⟨addr, es, href, -⟩ := h
  exact href.sound

theorem hasWakeUpList (h : Holding F c s) : s.hasWakeUpList = true := by
  obtain ⟨addr, es, -, hq⟩ := h
  exact hq.hasWakeUpList

theorem added (h : Holding F c s) : c.added = s.top := by
  obtain ⟨addr, es, href, -⟩ := h
  exact href.added

theorem fired (h : Holding F c s) : c.fired = s.fired := by
  obtain ⟨addr, es, href, -⟩ := h
  exact href.fired

theorem getTicks (h : Holding F c s) :
    c.monotonicTimeGetTicksGlobal = monotonicTimeGetTicksGlobal s := by
  obtain ⟨addr, es, href, -⟩ := h
  exact href.getTicks

theorem frame (h : Holding F c s) {r : UInt32 × List UInt32} (hr : r ∈ F) :
    Record c.memory r.1 r.2 := by
  obtain ⟨addr, es, href, -⟩ := h
  exact href.frame r hr

/-- `wake_up_list_add`, when the block it gets is clear or it gets none. -/
theorem add (h : Holding F c s) (hc : c.memory.Clear 16 ∨ c.memory.Full 16) (call : WakeUp) :
    ∃ c' allocated, c.wakeUpListAdd call = some c' ∧
      Holding F c' (wakeUpListAdd s ⟨call, allocated⟩) := by
  obtain ⟨addr, es, href, hq⟩ := h
  rcases hc with hc | hfull
  · obtain ⟨c', addr', T', hcode, he⟩ := href.add hc call
    refine ⟨c', true, hcode, addr', s.top :: es, he.refines.mono ?_,
      (wakeUpListAdd_spec hq.hasWakeUpList ⟨call, true⟩).queue hq⟩
    intro e he'
    rcases List.mem_cons.mp he' with rfl | he'
    · refine he.new _ le_rfl ?_
      rw [wakeUpListAdd_eq hq.hasWakeUpList]
      exact Nat.lt_succ_self _
    · exact he.old he'
  · refine ⟨c, false, ?_, addr, es, ?_, ?_⟩
    · rw [HeapTimers.wakeUpListAdd, if_neg href.wakeUpList_ne_zero, hfull.malloc (by decide)]
      rfl
    all_goals
      rw [wakeUpListAdd, hq.hasWakeUpList]
      assumption

/-- A tick, with callbacks that leave the list alone. -/
theorem tick (h : Holding F c s) :
    ∃ c' s', c.rtcTick (fun _ => []) = some c' ∧ rtcTick (fun _ => []) s = some s' ∧
      Holding F c' s' := by
  obtain ⟨addr, es, href, hq⟩ := h
  obtain ⟨c', addr', T', s', hcode, habs, hv⟩ := href.rtcTick hq fun _ he => he
  obtain ⟨s'', habs', ht⟩ := rtcTick_spec hq
  obtain rfl := Option.some.inj (habs.symm.trans habs')
  refine ⟨c', s', hcode, habs, addr', _, hv.refines.mono ?_, ht.queue⟩
  intro e he
  obtain ⟨hmem, hstays⟩ := List.mem_filter.mp he
  refine hv.old ⟨hmem, ?_⟩
  rintro ⟨-, hdue⟩
  rw [hdue] at hstays
  exact Bool.noConfusion hstays

/-- The block at `p` is none of the timers' and none of `F`. -/
theorem other_of_foreign {addr : ℕ → UInt32} {es : List ℕ} (href : Refines F addr {e | e ∈ es} c s)
    (hq : s.Queue es) (hclock : p ≠ c.monotonicTime) (hlist : p ≠ c.wakeUpList)
    (hentry : ∀ ps, c.links.Holds ps → p ∉ ps) (hframe : ∀ r ∈ F, r.1 ≠ p) :
    Refines.Other F addr {e | e ∈ es} c p := by
  refine ⟨hclock, hlist, fun e he heq => ?_, hframe⟩
  obtain ⟨hholds, -⟩ := href.holds (fun _ he => he) hq.holds
  exact hentry _ hholds (List.mem_map.mpr ⟨e, he, heq⟩)

/-- The block `ws` of someone else becomes one of which `P` holds, and no other block changes. -/
theorem change (h : Holding [(p, ws)] c s) {m : HeapState} {P : List UInt32 → Prop}
    (hstep : ∀ σ : Blocks, c.memory.Holds σ → σ p = some ws →
      ∃ ws', P ws' ∧ m.Holds (Function.update σ p (some ws'))) :
    ∃ ws', P ws' ∧ Holding [(p, ws')] { c with memory := m } s := by
  obtain ⟨addr, es, href, hq⟩ := h
  have hr : Record c.memory p ws := href.frame _ List.mem_cons_self
  have hone : c.memory.Holds (Function.update (fun _ => none) p (some ws)) :=
    Holds.insert ⟨href.sound, fun _ _ hq => absurd hq nofun⟩ hr
  obtain ⟨ws', hP, hm⟩ := hstep _ hone (Function.update_self ..)
  refine ⟨ws', hP, addr, es, href.frameChange nofun hm.sound
    (hm.record p ws' (Function.update_self ..)) fun q vs hv hqp => ?_, hq⟩
  -- the step does not touch a second block
  obtain ⟨ws'', -, hm'⟩ := hstep _ (hone.insert hv) (by
    rw [Function.update_of_ne hqp.symm, Function.update_self])
  exact hm'.record q vs (by rw [Function.update_of_ne hqp, Function.update_self])

end Holding

end Shogun.Rtc
