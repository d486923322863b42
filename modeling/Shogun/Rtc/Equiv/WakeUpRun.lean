import Mathlib.Order.Bounds.Basic
import Shogun.Rtc.Equiv.Check

/-!
# Runs of the abstract wake-up list

A run after `monotonic_time_init_global` and `wake_up_list_init` is a sequence of calls of
`wake_up_list_add` and of ticks, each an increment of the tick count and a check of the list, with
callbacks that leave the list alone.

`RunState`: as long as fewer than `2^32` ticks have come, every entry that was added fires at the
first tick after its addition that has reached its target, and only there; the list holds the
entries that are not due yet, the latest first, and `entry_count` is its length.  `RunState.add` and
`RunState.tick` are the two steps.
-/

namespace Shogun.Rtc

open LinkedList LinkedList.Links

/-! ### The entries of a run -/

/-- An entry that a run adds, with the number of ticks that came before. -/
structure Addition extends WakeUp where
  entry : ℕ
  addedAt : ℕ
  deriving DecidableEq, Repr

/-- The entries that `ops` adds, in order, when the next entry is `top` and `ticks` ticks have
come. -/
def additions (top ticks : ℕ) : List WakeOp → List Addition
  | [] => []
  | .add call :: ops => ⟨call, top, ticks⟩ :: additions (top + 1) ticks ops
  | .tick :: ops => additions top (ticks + 1) ops

/-- The tick at which the entry is due. -/
def Addition.dueAt (a : Addition) : ℕ := max (a.addedAt + 1) a.wakeUpTick.toNat

/-- The entry is due at the first tick after its addition that has reached its target. -/
theorem Addition.dueAt_isLeast (a : Addition) :
    IsLeast {k | a.addedAt < k ∧ a.wakeUpTick.toNat ≤ k} a.dueAt := by
  refine ⟨⟨?_, le_max_right _ _⟩, fun k hk => max_le hk.1 hk.2⟩
  exact Nat.lt_of_succ_le (le_max_left _ _)

/-- The calls of the entry's callback, when they are made at `tick`. -/
def Addition.firings (a : Addition) (tick : ℕ) : List Firing :=
  if a.callback = 0 then [] else [⟨a.entry, a.callback, a.callbackData, UInt32.ofNat tick⟩]

/-- The entries of a run that are not due when `ticks` ticks have come, the latest first. -/
def waiting (ticks : ℕ) (as : List Addition) : List Addition :=
  (as.filter (ticks < ·.dueAt)).reverse

/-- An entry added after `n` ticks waits in front of the others. -/
theorem waiting_concat {n : ℕ} (as : List Addition) {a : Addition} (ha : a.addedAt = n) :
    waiting n (as ++ [a]) = a :: waiting n as := by
  have hlate : n < a.dueAt := by
    rw [Addition.dueAt, ha]
    omega
  rw [waiting, waiting, List.filter_append, List.reverse_append,
    List.filter_cons_of_pos (by simpa using hlate)]
  rfl

theorem additions_append (top ticks : ℕ) (xs ys : List WakeOp) :
    additions top ticks (xs ++ ys)
      = additions top ticks xs
        ++ additions (top + (additions top ticks xs).length) (ticks + xs.count .tick) ys := by
  induction xs generalizing top ticks with
  | nil => simp [additions]
  | cons op xs ih =>
    cases op with
    | add call =>
      simp only [List.cons_append, additions, ih, List.length_cons, List.count_cons]
      simp [Nat.add_assoc, Nat.add_comm 1]
    | tick =>
      simp only [List.cons_append, additions, ih, List.count_cons]
      simp [Nat.add_assoc, Nat.add_comm 1]

/-- The entries are numbered in order. -/
theorem map_entry_additions (top ticks : ℕ) (ops : List WakeOp) :
    (additions top ticks ops).map Addition.entry
      = List.range' top (additions top ticks ops).length := by
  induction ops generalizing top ticks with
  | nil => rfl
  | cons op ops ih =>
    cases op with
    | add call =>
      rw [additions, List.map_cons, ih, List.length_cons, List.range'_succ]
    | tick => exact ih top (ticks + 1)

/-- An entry was added before the ticks that have come since. -/
theorem addedAt_le {top ticks : ℕ} {ops : List WakeOp} {a : Addition}
    (h : a ∈ additions top ticks ops) : a.addedAt ≤ ticks + ops.count .tick := by
  induction ops generalizing top ticks with
  | nil => exact absurd h List.not_mem_nil
  | cons op ops ih =>
    cases op with
    | add call =>
      rw [List.count_cons_of_ne (by simp)]
      rcases List.mem_cons.mp h with rfl | h
      · exact Nat.le_add_right _ _
      · exact ih h
    | tick =>
      rw [List.count_cons_self]
      have := ih h
      omega

/-! ### The callbacks of a check -/

/-- A check calls the callback of an entry of the list at most once. -/
theorem filter_filterMap_firing (s : TimerState) (tick : UInt32) (e : ℕ) {es : List ℕ}
    (hnd : es.Nodup) :
    (es.filterMap (firing s tick)).filter (·.entry = e)
      = if e ∈ es then (firing s tick e).toList else [] := by
  induction es with
  | nil => rfl
  | cons d es ih =>
    obtain ⟨hd, hnd⟩ := List.nodup_cons.mp hnd
    have hcons : (d :: es).filterMap (firing s tick)
        = (firing s tick d).toList ++ es.filterMap (firing s tick) := by
      rw [List.filterMap_cons]
      cases firing s tick d <;> rfl
    rw [hcons, List.filter_append, ih hnd]
    -- the list has no entry twice, so `e` fires here or in the rest
    by_cases hde : e = d
    · have hself : (firing s tick d).toList.filter (·.entry = d) = (firing s tick d).toList := by
        apply List.filter_eq_self.mpr
        intro x hx
        rw [Option.mem_toList] at hx
        simpa using entry_of_firing hx
      rw [hde, hself, if_neg hd, if_pos List.mem_cons_self, List.append_nil]
    · have hother : (firing s tick d).toList.filter (·.entry = e) = [] := by
        apply List.filter_eq_nil_iff.mpr
        intro x hx
        rw [Option.mem_toList] at hx
        rw [entry_of_firing hx]
        simpa using Ne.symm hde
      rw [hother, List.nil_append]
      simp [hde]

/-! ### The invariant of a run -/

/-- The state `s` after the steps `ops` from `initTimers`, whose next entry is `top`. -/
structure RunState (top : ℕ) (ops : List WakeOp) (s : TimerState) : Prop where
  hasMonotonicTime : s.hasMonotonicTime = true
  tickCount : s.tickCount = UInt32.ofNat (ops.count .tick)
  top_eq : s.top = top + (additions top 0 ops).length
  queue : s.Queue ((waiting (ops.count .tick) (additions top 0 ops)).map Addition.entry)
  content : ∀ a ∈ additions top 0 ops,
    (s.nodes a.entry).toWakeUp = a.toWakeUp
  entryCount : s.entryCount
    = UInt32.ofNat (waiting (ops.count .tick) (additions top 0 ops)).length
  fired : ∀ a ∈ additions top 0 ops, s.fired.filter (·.entry = a.entry)
    = if a.dueAt ≤ ops.count .tick then a.firings a.dueAt else []
  fired_mem : ∀ x ∈ s.fired, ∃ a ∈ additions top 0 ops, a.entry = x.entry
  freed_mem : ∀ e ∈ s.freed, ∃ a ∈ additions top 0 ops, a.entry = e ∧ a.dueAt ≤ ops.count .tick

namespace RunState

variable {top : ℕ} {ops : List WakeOp} {s : TimerState}

theorem init (nodes : ℕ → WakeUpEntry) (top : ℕ) : RunState top [] (initTimers nodes top) where
  hasMonotonicTime := rfl
  tickCount := rfl
  top_eq := rfl
  queue := ⟨rfl, rfl, fun _ h => absurd h List.not_mem_nil⟩
  content := fun _ h => absurd h List.not_mem_nil
  entryCount := rfl
  fired := fun _ h => absurd h List.not_mem_nil
  fired_mem := fun _ h => absurd h List.not_mem_nil
  freed_mem := fun _ h => absurd h List.not_mem_nil

/-- The entries of the run have numbers below `s.top`. -/
theorem entry_lt (h : RunState top ops s) {a : Addition} (ha : a ∈ additions top 0 ops) :
    a.entry < s.top := by
  have hmem : a.entry ∈ (additions top 0 ops).map Addition.entry := List.mem_map_of_mem ha
  rw [map_entry_additions, List.mem_range'_1] at hmem
  rw [h.top_eq]
  exact hmem.2

theorem add (h : RunState top ops s) (call : WakeUp) :
    RunState top (ops ++ [.add call]) (wakeUpListAdd s ⟨call, true⟩) := by
  have hlist := h.queue.hasWakeUpList
  have hadded := wakeUpListAdd_spec hlist ⟨call, true⟩
  have hticks : (ops ++ [WakeOp.add call]).count .tick = ops.count .tick := by
    simp
  have hadds : additions top 0 (ops ++ [.add call])
      = additions top 0 ops ++ [⟨call, s.top, ops.count .tick⟩] := by
    rw [additions_append, ← h.top_eq, Nat.zero_add]
    rfl
  have hwait := waiting_concat (additions top 0 ops)
    (a := ⟨call, s.top, ops.count .tick⟩) rfl
  constructor
  · rw [hadded.sameClock.hasMonotonicTime, h.hasMonotonicTime]
  · rw [hadded.sameClock.tickCount, h.tickCount, hticks]
  · rw [hadded.top, h.top_eq, hadds, List.length_append]
    rfl
  · rw [hticks, hadds, hwait]
    exact hadded.queue h.queue
  · rw [hadds]
    intro a ha
    rcases List.mem_append.mp ha with ha | ha
    · -- the earlier entries keep their contents
      rw [hadded.sameClock.content _ (h.entry_lt ha)]
      exact h.content a ha
    · obtain rfl := List.mem_singleton.mp ha
      exact wakeUpListAdd_content hlist call
  · rw [hticks, hadds, hwait, hadded.entryCount, h.entryCount, List.length_cons, UInt32.ofNat_add]
    rfl
  · rw [hticks, hadds, hadded.fired]
    intro a ha
    rcases List.mem_append.mp ha with ha | ha
    · exact h.fired a ha
    · -- the new entry has not fired
      obtain rfl := List.mem_singleton.mp ha
      rw [if_neg (by simp [Addition.dueAt])]
      apply List.filter_eq_nil_iff.mpr
      intro x hx
      obtain ⟨a, ha, heq⟩ := h.fired_mem x hx
      have := h.entry_lt ha
      simp only [decide_eq_true_eq]
      omega
  · rw [hadds, hadded.fired]
    intro x hx
    obtain ⟨a, ha, heq⟩ := h.fired_mem x hx
    exact ⟨a, List.mem_append_left _ ha, heq⟩
  · rw [hadds, hticks, hadded.freed]
    intro e he
    obtain ⟨a, ha, hdue⟩ := h.freed_mem e he
    exact ⟨a, List.mem_append_left _ ha, hdue⟩

/-- At the next tick an entry's tick has come exactly when the entry is due. -/
theorem due_iff (h : RunState top ops s) (hticks : ops.count .tick + 1 < 2 ^ 32) {a : Addition}
    (ha : a ∈ additions top 0 ops) :
    due s (UInt32.ofNat (ops.count .tick + 1)) a.entry
      = decide (a.dueAt ≤ ops.count .tick + 1) := by
  have hcontent : (s.nodes a.entry).wakeUpTick = a.wakeUpTick :=
    congrArg WakeUp.wakeUpTick (h.content a ha)
  have hadded := addedAt_le ha
  rw [due, hcontent, decide_eq_decide, UInt32.le_iff_toNat_le,
    UInt32.toNat_ofNat_of_lt' hticks, Addition.dueAt, max_le_iff]
  omega

theorem firing_toList (h : RunState top ops s) (hticks : ops.count .tick + 1 < 2 ^ 32)
    {a : Addition} (ha : a ∈ additions top 0 ops) :
    (firing s (UInt32.ofNat (ops.count .tick + 1)) a.entry).toList
      = if a.dueAt ≤ ops.count .tick + 1 then a.firings (ops.count .tick + 1) else [] := by
  have hcall : (s.nodes a.entry).callback = a.callback :=
    congrArg WakeUp.callback (h.content a ha)
  have hdata : (s.nodes a.entry).callbackData = a.callbackData :=
    congrArg WakeUp.callbackData (h.content a ha)
  rw [firing, h.due_iff hticks ha, hcall, hdata, Addition.firings]
  by_cases hdue : a.dueAt ≤ ops.count .tick + 1
  · by_cases hnull : a.callback = 0
    · rw [if_neg fun h => h.2 hnull, if_pos hdue, if_pos hnull]
      rfl
    · rw [if_pos ⟨by simpa using hdue, hnull⟩, if_pos hdue, if_neg hnull]
      rfl
  · rw [if_neg hdue, if_neg (by simpa using fun h => absurd h hdue)]
    rfl

/-- The entries that wait for the tick after next are those that wait for the next and are not due
then. -/
theorem filter_waiting (n : ℕ) (as : List Addition) :
    (waiting n as).filter (fun a => !decide (a.dueAt ≤ n + 1)) = waiting (n + 1) as := by
  rw [waiting, waiting, List.filter_reverse, List.filter_filter]
  congr 1
  apply List.filter_congr
  intro a _
  rw [Bool.eq_iff_iff]
  simp only [Bool.and_eq_true, Bool.not_eq_true', decide_eq_false_iff_not, decide_eq_true_eq]
  omega

theorem mem_waiting {n : ℕ} {as : List Addition} {a : Addition} :
    a ∈ waiting n as ↔ a ∈ as ∧ n < a.dueAt := by
  rw [waiting, List.mem_reverse, List.mem_filter, decide_eq_true_eq]

theorem entry_inj {a b : Addition} (ha : a ∈ additions top 0 ops) (hb : b ∈ additions top 0 ops)
    (h : a.entry = b.entry) : a = b := by
  have hnd : ((additions top 0 ops).map Addition.entry).Nodup := by
    rw [map_entry_additions]
    exact List.nodup_range'
  exact List.inj_on_of_nodup_map hnd ha hb h

theorem tick (h : RunState top ops s) (hticks : ops.count .tick + 1 < 2 ^ 32) :
    ∃ s', rtcTick (fun _ => []) s = some s' ∧ RunState top (ops ++ [.tick]) s' := by
  obtain ⟨s', hcode, ht⟩ := rtcTick_spec h.queue
  refine ⟨s', hcode, ?_⟩
  obtain ⟨hnow, htick⟩ := nextTick_eq h.hasMonotonicTime
  have hsucc : s.tickCount + 1 = UInt32.ofNat (ops.count .tick + 1) := by
    rw [h.tickCount, UInt32.ofNat_add]
    rfl
  rw [hsucc] at hnow htick
  have hcount : (ops ++ [WakeOp.tick]).count .tick = ops.count .tick + 1 := by simp
  have hadds : additions top 0 (ops ++ [.tick]) = additions top 0 ops := by
    rw [additions_append]
    exact List.append_nil _
  have hqueue := ht.queue
  have hec := ht.entryCount
  have hfired := ht.fired
  have hfreed := ht.freed
  rw [hnow] at hqueue hec hfired hfreed
  set es := (waiting (ops.count .tick) (additions top 0 ops)).map Addition.entry
  set now := UInt32.ofNat (ops.count .tick + 1)
  -- what the check finds due is what the history says is due
  have hdue : ∀ a ∈ waiting (ops.count .tick) (additions top 0 ops),
      due s now a.entry = decide (a.dueAt ≤ ops.count .tick + 1) :=
    fun a ha => h.due_iff hticks (mem_waiting.mp ha).1
  have hleft : es.filter (!due s now ·)
      = (waiting (ops.count .tick + 1) (additions top 0 ops)).map Addition.entry := by
    rw [← filter_waiting, List.filter_map]
    congr 1
    exact List.filter_congr fun a ha => congrArg (!·) (hdue a ha)
  have hnd : es.Nodup := h.queue.holds.nodup
  constructor
  · exact ht.hasMonotonicTime.trans h.hasMonotonicTime
  · rw [hcount, ht.tickCount, htick]
  · rw [ht.top, hadds, h.top_eq]
  · rw [hcount, hadds, ← hleft]
    exact hqueue
  · rw [hadds]
    intro a ha
    rw [ht.content _ (h.entry_lt ha)]
    exact h.content a ha
  · rw [hcount, hadds]
    have hlen := congrArg List.length hleft
    rw [List.length_map] at hlen
    have hes : UInt32.ofNat es.length = s.entryCount := by
      rw [List.length_map, h.entryCount]
    rw [length_eq_countP_add_filter (due s now), UInt32.ofNat_add] at hes
    rw [← hlen]
    grind
  · rw [hadds, hcount, hfired]
    intro a ha
    rw [List.filter_append, h.fired a ha, filter_filterMap_firing s now _ hnd]
    by_cases hle : a.dueAt ≤ ops.count .tick
    · -- it fired before, and is no longer in the list
      have hout : a.entry ∉ es := by
        intro hmem
        obtain ⟨b, hb, heq⟩ := List.mem_map.mp hmem
        obtain ⟨hb, hlate⟩ := mem_waiting.mp hb
        rw [entry_inj hb ha heq] at hlate
        omega
      rw [if_pos hle, if_neg hout, if_pos (by omega), List.append_nil]
    · have hin : a.entry ∈ es := List.mem_map_of_mem (mem_waiting.mpr ⟨ha, not_le.mp hle⟩)
      rw [if_neg hle, if_pos hin, List.nil_append, h.firing_toList hticks ha]
      by_cases hnext : a.dueAt ≤ ops.count .tick + 1
      · have heq : ops.count .tick + 1 = a.dueAt := by omega
        rw [if_pos hnext, if_pos hnext, heq]
      · rw [if_neg hnext, if_neg hnext]
  · rw [hadds, hfired]
    intro x hx
    rcases List.mem_append.mp hx with hx | hx
    · exact h.fired_mem x hx
    · obtain ⟨e, he, hfire⟩ := List.mem_filterMap.mp hx
      obtain ⟨a, ha, rfl⟩ := List.mem_map.mp he
      exact ⟨a, (mem_waiting.mp ha).1, (entry_of_firing hfire).symm⟩
  · rw [hadds, hcount, hfreed]
    intro e he
    rcases List.mem_append.mp he with he | he
    · obtain ⟨a, ha, heq, hdue'⟩ := h.freed_mem e he
      exact ⟨a, ha, heq, by omega⟩
    · obtain ⟨hmem, he⟩ := List.mem_filter.mp he
      obtain ⟨a, ha, rfl⟩ := List.mem_map.mp hmem
      rw [hdue a ha, decide_eq_true_eq] at he
      exact ⟨a, (mem_waiting.mp ha).1, rfl, he⟩

end RunState

end Shogun.Rtc
