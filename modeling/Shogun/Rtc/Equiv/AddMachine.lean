import Shogun.Rtc.AddMachine
import Shogun.Rtc.Equiv.HeapQueue

/-!
# The window of `wake_up_list_add`

Between `new_entry->next = wake_up_list->entries` and `wake_up_list->entries = new_entry` the call
holds a pointer to the head of the list.  If the RTC interrupt comes there and that entry is due,
the handler unlinks and frees it, and the second store links it in again behind the new entry.

* `settled_of_quiet`: for every list in the heap and every interleaving, the list is in order when
  the call has returned, also after any further ticks, as long as no tick inside the window finds
  the head entry due and the block that the call gets is clear.
* `not_settled_oneEntry`: the window of a call.
-/

namespace Shogun.Rtc

open Memory Memory.HeapState LinkedList LinkedList.Links

/-- Without interrupts the statements do what `wakeUpListAdd` does. -/
theorem run_statements (c : HeapTimers) (call : WakeUp) :
    ((AddState.start c call).run (List.replicate 8 .statement)).map AddState.timers
      = c.wakeUpListAdd call := by
  rw [HeapTimers.wakeUpListAdd]
  by_cases hnull : c.wakeUpList = 0
  · simp [AddState.start, AddState.run, AddState.step, AddState.statement, hnull]
  · rw [if_neg hnull]
    cases hcode : c.memory.malloc 16 with
    | none => simp [AddState.start, AddState.run, AddState.step, AddState.statement, hnull, hcode]
    | some r =>
      obtain ⟨m, p⟩ := r
      by_cases hp : p = 0
      · simp [AddState.start, AddState.run, AddState.step, AddState.statement, hnull, hcode, hp]
      · simp only [AddState.start, AddState.run, AddState.step, AddState.statement, hnull, hcode,
          hp,
          List.replicate, if_false, Option.map_some, Option.bind_some]
        rfl

namespace HeapTimers

/-- The list is in order: no callback was called twice for one entry, every entry that can be
reached from `wake_up_list->entries` is in use and was not freed, and `entry_count` is the length of
the list. -/
structure Settled (c : HeapTimers) : Prop where
  fired_once : ∀ e, c.fired.countP (·.entry = e) ≤ 1
  reached : ∀ p, c.links.Reaches p → p ∈ c.memory.live ∧ c.entryOf p ∉ c.freed
  entryCount : ∃ ps, c.links.Holds ps ∧ c.field c.wakeUpList 4 = UInt32.ofNat ps.length

/-- The list before the call: `ps`, counted by `entry_count`, with nothing recorded yet. -/
structure InitialList (c : HeapTimers) (ps : List UInt32) : Prop where
  queue : c.Queue ps
  entryCount : c.field c.wakeUpList 4 = UInt32.ofNat ps.length
  fired : c.fired = []
  freed : c.freed = []

/-- The next tick finds the head entry due. -/
def headDue (c : HeapTimers) : Bool :=
  c.field c.wakeUpList 0 != 0 &&
    c.field (c.field c.wakeUpList 0) 0 ≤ c.monotonicTimeIncrementGlobal.monotonicTimeGetTicksGlobal

end HeapTimers

/-- What a step must not run into: a `malloc` whose block is not clear, although there is one, and a
tick that finds the head entry due between the two stores of the call. -/
def AddState.Quiet (a : AddState) : AddStep → Prop
  | .statement => a.pc = .allocate → a.timers.memory.Clear 16 ∨ a.timers.memory.Full 16
  | .tick => a.pc = .setEntries → a.timers.headDue = false

/-- Every step of the interleaving is quiet. -/
def AddState.QuietRun : AddState → List AddStep → Prop
  | _, [] => True
  | a, σ :: σs => a.Quiet σ ∧ ∀ a', a.step σ = some a' → a'.QuietRun σs

/-! ### Lists on which nothing has gone wrong -/

/-- The entries of the list are not freed; an entry whose callback was called is, and it was called
once. -/
structure Clean (s : TimerState) (es : List ℕ) : Prop where
  not_freed : ∀ e ∈ es, e ∉ s.freed
  freed_lt : ∀ e ∈ s.freed, e < s.top
  fired_freed : ∀ x ∈ s.fired, x.entry ∈ s.freed
  fired_nodup : (s.fired.map Firing.entry).Nodup

section Tick

variable {s s' : TimerState} {es : List ℕ}

/-- A check calls callbacks in list order, at most one for each entry. -/
theorem map_entry_filterMap_firing_sublist (s : TimerState) (tick : UInt32) (es : List ℕ) :
    ((es.filterMap (firing s tick)).map Firing.entry).Sublist (es.filter (due s tick)) := by
  induction es with
  | nil => exact List.Sublist.slnil
  | cons e es ih =>
    cases hfire : firing s tick e with
    | none =>
      rw [List.filterMap_cons_none hfire, List.filter_cons]
      split
      · exact ih.cons e
      · exact ih
    | some x =>
      have hdue : due s tick e = true := by
        by_contra hdue
        rw [firing, if_neg fun h => hdue h.1] at hfire
        exact absurd hfire (by simp)
      rw [List.filterMap_cons_some hfire, List.filter_cons_of_pos hdue, List.map_cons,
        entry_of_firing hfire]
      exact ih.cons_cons e

theorem Clean.tick (h : Clean s es) (hq : s.Queue es) (ht : Ticked s es s') :
    Clean s' (es.filter (!due s (nextTick s) ·)) := by
  have hsub := map_entry_filterMap_firing_sublist s (nextTick s) es
  constructor
  · intro e he hfreed
    obtain ⟨hmem, hnot⟩ := List.mem_filter.mp he
    rw [ht.freed] at hfreed
    rcases List.mem_append.mp hfreed with hfreed | hfreed
    · exact h.not_freed e hmem hfreed
    · -- what this tick frees is due, and what stays is not
      have hdue := (List.mem_filter.mp hfreed).2
      rw [hdue] at hnot
      exact Bool.noConfusion hnot
  · rw [ht.freed, ht.top]
    intro e he
    rcases List.mem_append.mp he with he | he
    · exact h.freed_lt e he
    · exact hq.lt_top e (List.mem_of_mem_filter he)
  · rw [ht.fired, ht.freed]
    intro x hx
    rcases List.mem_append.mp hx with hx | hx
    · exact List.mem_append_left _ (h.fired_freed x hx)
    · exact List.mem_append_right _ (hsub.subset (List.mem_map_of_mem hx))
  · rw [ht.fired, List.map_append]
    refine List.nodup_append.mpr ⟨h.fired_nodup, ?_, ?_⟩
    · exact hsub.nodup (hq.holds.nodup.filter _)
    · -- an entry that fires now is in the list, so it was not freed before
      rintro e he d hd rfl
      obtain ⟨x, hx, rfl⟩ := List.mem_map.mp he
      exact h.not_freed _ (List.mem_of_mem_filter (hsub.subset hd)) (h.fired_freed x hx)

theorem Clean.fired_once (h : Clean s es) (e : ℕ) : s.fired.countP (·.entry = e) ≤ 1 := by
  have hcount := List.nodup_iff_count_le_one.mp h.fired_nodup e
  rw [List.count, List.countP_map] at hcount
  refine le_of_eq_of_le (List.countP_congr fun x _ => ?_) hcount
  simp

end Tick

/-! ### The phases of the call -/

/-- The heap of `c` holds the list `es`, on which nothing has gone wrong; `pending` of its entries
are not counted yet. -/
structure InOrder (F : List (UInt32 × List UInt32)) (addr : ℕ → UInt32) (T : Set ℕ)
    (c : HeapTimers) (s : TimerState) (es : List ℕ) (pending : UInt32) : Prop where
  refines : Refines F addr T c s
  queue : s.Queue es
  tracked : ∀ e ∈ es, e ∈ T
  clean : Clean s es
  entryCount : s.entryCount + pending = UInt32.ofNat es.length

/-- The block that the call has got, before its `next` is set: it is the entry `e`. -/
structure Pending (addr : ℕ → UInt32) (c : HeapTimers) (s : TimerState) (p : UInt32) (e : ℕ) :
    Prop where
  addr_eq : addr e = p
  entryOf : c.entryOf p = e
  lt_top : e < s.top
  not_freed : e ∉ s.freed

/-- Inside the window: the new entry points to the head of the list. -/
structure Window (addr : ℕ → UInt32) (T : Set ℕ) (s : TimerState) (es : List ℕ) (p : UInt32)
    (e : ℕ) : Prop where
  tracked : e ∈ T
  addr_eq : addr e = p
  not_mem : e ∉ es
  not_freed : e ∉ s.freed
  next : (s.nodes e).next = s.entries

/-- The invariant of an interleaving. -/
def Phase (a : AddState) : Prop :=
  match a.pc with
  | .testList | .allocate | .done => ∃ addr T s es, InOrder [] addr T a.timers s es 0
  | .setWakeUpTick | .setCallback | .setCallbackData | .setNext =>
    ∃ addr T s es ws e, ws.length = 4 ∧ InOrder [(a.newEntry, ws)] addr T a.timers s es 0 ∧
      Pending addr a.timers s a.newEntry e
  | .setEntries => ∃ addr T s es e, InOrder [] addr T a.timers s es 0 ∧
      Window addr T s es a.newEntry e
  | .count => ∃ addr T s es, InOrder [] addr T a.timers s es 1

section Phases

variable {F : List (UInt32 × List UInt32)} {addr : ℕ → UInt32} {T : Set ℕ} {c c' : HeapTimers}
  {s : TimerState} {es : List ℕ} {k p : UInt32} {e : ℕ} {ws : List UInt32}

theorem InOrder.tick (h : InOrder F addr T c s es k) :
    ∃ c' addr' T' s', c.rtcTick (fun _ => []) = some c' ∧ Ticked s es s' ∧
      Refines.Visited F addr T c s {d | d ∈ es ∧ due s (nextTick s) d = true} addr' T' c' s' ∧
      InOrder F addr' T' c' s' (es.filter (!due s (nextTick s) ·)) k := by
  obtain ⟨c', addr', T', s', hcode, habs, hv⟩ := h.refines.rtcTick h.queue h.tracked
  obtain ⟨s'', habs', ht⟩ := rtcTick_spec h.queue
  obtain rfl := Option.some.inj (habs.symm.trans habs')
  refine ⟨c', addr', T', s', hcode, ht, hv, hv.refines, ht.queue, fun e he => ?_,
    h.clean.tick h.queue ht, ?_⟩
  · obtain ⟨hmem, hstays⟩ := List.mem_filter.mp he
    refine hv.old ⟨h.tracked e hmem, ?_⟩
    rintro ⟨-, hdue⟩
    rw [hdue] at hstays
    exact Bool.noConfusion hstays
  · have hcount := h.entryCount
    have hcount' := ht.entryCount
    rw [length_eq_countP_add_filter (due s (nextTick s)) es, UInt32.ofNat_add] at hcount
    grind

/-- A check numbers no entry. -/
theorem checkLoop_entryOf (tick : UInt32) (fuel : ℕ) (c : HeapTimers) (l : HeapTimers.CheckPtrs)
    (hcode : HeapTimers.checkLoop (fun _ => []) tick fuel c l = some c') :
    c'.entryOf = c.entryOf := by
  induction fuel generalizing c l with
  | zero =>
    rw [HeapTimers.checkLoop] at hcode
    split at hcode
    · rw [Option.some.inj hcode]
    · cases hcode
  | succ fuel ih =>
    rw [HeapTimers.checkLoop] at hcode
    split at hcode
    · rw [Option.some.inj hcode]
    · obtain ⟨⟨c₁, l₁⟩, hvisit, hrest⟩ := Option.bind_eq_some_iff.mp hcode
      rw [ih c₁ l₁ hrest]
      rw [HeapTimers.visitEntry] at hvisit
      split at hvisit
      · obtain ⟨c₂, hcall, hvisit⟩ := Option.bind_eq_some_iff.mp hvisit
        obtain ⟨c₃, hfree, hvisit⟩ := Option.bind_eq_some_iff.mp hvisit
        obtain ⟨m, -, rfl⟩ := Option.map_eq_some_iff.mp hfree
        obtain ⟨rfl, rfl⟩ := Prod.mk.inj (Option.some.inj hvisit)
        show c₂.entryOf = c.entryOf
        rw [HeapTimers.runCallback] at hcall
        split at hcall <;> obtain rfl := Option.some.inj hcall <;> rfl
      · obtain ⟨rfl, rfl⟩ := Prod.mk.inj (Option.some.inj hvisit)
        rfl

theorem rtcTick_entryOf (hcode : c.rtcTick (fun _ => []) = some c') : c'.entryOf = c.entryOf := by
  have hinc : c.monotonicTimeIncrementGlobal.entryOf = c.entryOf := by
    rw [HeapTimers.monotonicTimeIncrementGlobal]
    split <;> rfl
  rw [HeapTimers.rtcTick, HeapTimers.wakeUpListCheckAndExecute] at hcode
  split at hcode
  · rw [← Option.some.inj hcode, hinc]
  · rw [checkLoop_entryOf _ _ _ _ hcode, hinc]

/-- A tick does not touch the block of the call. -/
theorem Pending.tick {addr' : ℕ → UInt32} {T' : Set ℕ} {s' : TimerState} {gone : Set ℕ}
    (hp : Pending addr c s p e) (he : e ∉ es) (hcode : c.rtcTick (fun _ => []) = some c')
    (ht : Ticked s es s') (hv : Refines.Visited F addr T c s gone addr' T' c' s') :
    Pending addr' c' s' p e := by
  refine ⟨(hv.addr e hp.lt_top).trans hp.addr_eq, ?_, hp.lt_top.trans_le hv.top_le, ?_⟩
  · rw [rtcTick_entryOf hcode]
    exact hp.entryOf
  · rw [ht.freed, List.mem_append, not_or]
    exact ⟨hp.not_freed, fun hmem => he (List.mem_of_mem_filter hmem)⟩

/-- A tick that does not find the head entry due leaves the saved pointer valid. -/
theorem Window.tick {addr' : ℕ → UInt32} {T' : Set ℕ} {s' : TimerState}
    (hw : Window addr T s es p e) (hlt : e < s.top) (hq : s.Queue es)
    (hquiet : ∀ d, s.entries = some d → due s (nextTick s) d = false)
    (ht : Ticked s es s')
    (hv : Refines.Visited F addr T c s {d | d ∈ es ∧ due s (nextTick s) d = true} addr' T' c' s') :
    Window addr' T' s' (es.filter (!due s (nextTick s) ·)) p e := by
  refine ⟨hv.old ⟨hw.tracked, fun h => hw.not_mem h.1⟩, (hv.addr e hlt).trans hw.addr_eq,
    fun hmem => hw.not_mem (List.mem_of_mem_filter hmem), ?_, ?_⟩
  · rw [ht.freed, List.mem_append, not_or]
    exact ⟨hw.not_freed, fun hmem => hw.not_mem (List.mem_of_mem_filter hmem)⟩
  · have hhead : s.entries = es.head? := hq.holds.head_eq
    have hhead' : s'.entries = (es.filter (!due s (nextTick s) ·)).head? := ht.queue.holds.head_eq
    rw [ht.next e hlt (.inl hw.not_mem), hw.next, hhead, hhead']
    cases es with
    | nil => rfl
    | cons d es =>
      rw [List.filter_cons_of_pos (by rw [hquiet d hhead]; rfl)]
      rfl

/-- The test of the head entry reads what the abstract list has. -/
theorem headDue_eq (h : Refines F addr T c s) {d : ℕ} (hd : s.entries = some d) (hT : d ∈ T) :
    c.headDue = due s (nextTick s) d := by
  obtain ⟨hinc, -⟩ := h.increment
  have htick : c.monotonicTimeIncrementGlobal.monotonicTimeGetTicksGlobal = nextTick s :=
    hinc.getTicks
  have hne := h.addr_ne_zero hT
  rw [HeapTimers.headDue, h.head, hd]
  show (addr d != 0 && decide (c.field (addr d) 0 ≤ _)) = _
  rw [h.wakeUpTick hT, htick, due, bne_iff_ne.mpr hne, Bool.true_and]

/-- `new_entry = malloc(...)`, when the block is clear. -/
theorem InOrder.allocate (h : InOrder [] addr T c s es 0) (hc : c.memory.Clear 16) :
    ∃ m p addr' ws e, c.memory.malloc 16 = some (m, p) ∧ p ≠ 0 ∧ ws.length = 4 ∧
      InOrder [(p, ws)] addr' T (({ c with memory := m } : HeapTimers).number p)
        { s with top := s.top + 1 } es 0 ∧
      Pending addr' (({ c with memory := m } : HeapTimers).number p) { s with top := s.top + 1 } p
        e := by
  obtain ⟨m, p, ws, hcode, hp0, hlen, -, h₀⟩ := h.refines.alloc (n := 3) rfl (by decide) hc
  refine ⟨m, p, _, ws, s.top, hcode, hp0, hlen, ⟨h₀.number, ?_, h.tracked, ?_, h.entryCount⟩,
    Function.update_self .., (Function.update_self p _ _).trans h.refines.added,
    Nat.lt_succ_self _, fun hmem => ?_⟩
  · exact ⟨h.queue.hasWakeUpList, h.queue.holds,
      fun e he => Nat.lt_succ_of_lt (h.queue.lt_top e he)⟩
  · exact ⟨h.clean.not_freed, fun e he => Nat.lt_succ_of_lt (h.clean.freed_lt e he),
      h.clean.fired_freed, h.clean.fired_nodup⟩
  · exact lt_irrefl _ (h.clean.freed_lt _ hmem)

/-- A store to a field of the new block. -/
theorem InOrder.setFrame (h : InOrder [(p, ws)] addr T c s es 0) {k : UInt32} {i : ℕ}
    (hk : k.toNat = 4 * i) (hi : i < ws.length) (v : UInt32) :
    InOrder [(p, ws.set i v)] addr T (c.setField p k v) s es 0 :=
  ⟨h.refines.setFrame (by simp) hk hi v, h.queue, h.tracked, h.clean, h.entryCount⟩

theorem Pending.not_mem (hp : Pending addr c s p e) (h : InOrder [(p, ws)] addr T c s es k) :
    e ∉ T := by
  intro he
  exact (h.refines.frame_ne (p, ws) List.mem_cons_self).2.2 e he hp.addr_eq.symm

/-- `new_entry->next = wake_up_list->entries` makes the block an entry and opens the window. -/
theorem InOrder.setNext (h : InOrder [(p, ws)] addr T c s es 0) (hlen : ws.length = 4)
    (hp : Pending addr c s p e) :
    ∃ s', InOrder [] addr (insert e T) (c.setField p 12 (c.field c.wakeUpList 0)) s' es 0 ∧
      Window addr (insert e T) s' es p e := by
  have he := hp.not_mem h
  have h₁ := h.refines.setFrame (by simp) (k := 12) (i := 3) rfl (by omega) (ptrOf addr s.entries)
  rw [← h.refines.head] at h₁
  obtain ⟨w₀, w₁, w₂, w₃, rfl⟩ : ∃ w₀ w₁ w₂ w₃, ws = [w₀, w₁, w₂, w₃] := by
    match ws, hlen with
    | [w₀, w₁, w₂, w₃], _ => exact ⟨w₀, w₁, w₂, w₃, rfl⟩
  change Refines [(p, [w₀, w₁, w₂, c.field c.wakeUpList 0])] addr T _ s at h₁
  have hwords : [w₀, w₁, w₂, c.field c.wakeUpList 0]
      = WakeUpEntry.words addr ⟨⟨w₀, w₁, w₂⟩, s.entries⟩ := by
    rw [WakeUpEntry.words, h.refines.head]
  rw [hwords] at h₁
  have h₂ := h₁.track hp.addr_eq (by simp) hp.entryOf hp.lt_top h.refines.entries_lt
  have hother : ∀ d ∈ es, Function.update s.nodes e ⟨⟨w₀, w₁, w₂⟩, s.entries⟩ d = s.nodes d := by
    intro d hd
    refine Function.update_of_ne ?_ _ _
    rintro rfl
    exact he (h.tracked d hd)
  refine ⟨{ s with nodes := Function.update s.nodes e ⟨⟨w₀, w₁, w₂⟩, s.entries⟩ },
    ⟨h₂, ⟨h.queue.hasWakeUpList, ?_, h.queue.lt_top⟩,
    fun d hd => Set.mem_insert_of_mem _ (h.tracked d hd),
    ⟨h.clean.not_freed, h.clean.freed_lt, h.clean.fired_freed, h.clean.fired_nodup⟩, h.entryCount⟩,
    Set.mem_insert _ _, hp.addr_eq, fun hmem => he (h.tracked e hmem), hp.not_freed, ?_⟩
  · exact Chain.frame h.queue.holds fun d hd => congrArg WakeUpEntry.next (hother d hd)
  · show (Function.update s.nodes e _ e).next = s.entries
    rw [Function.update_self]

/-- `wake_up_list->entries = new_entry` closes the window. -/
theorem InOrder.setEntries (h : InOrder [] addr T c s es 0) (hw : Window addr T s es p e) :
    InOrder [] addr T (c.setField c.wakeUpList 0 p) { s with entries := some e } (e :: es) 1 := by
  have hlt := h.refines.lt_top e hw.tracked
  have h₁ := h.refines.setHead (x := some e) fun d hd => Option.some.inj hd ▸ hlt
  rw [ptrOf, hw.addr_eq] at h₁
  refine ⟨h₁, ⟨h.queue.hasWakeUpList, ⟨rfl, ?_⟩, List.forall_mem_cons.mpr ⟨hlt, h.queue.lt_top⟩⟩,
    List.forall_mem_cons.mpr ⟨hw.tracked, h.tracked⟩, ⟨List.forall_mem_cons.mpr ⟨hw.not_freed,
    h.clean.not_freed⟩, h.clean.freed_lt, h.clean.fired_freed, h.clean.fired_nodup⟩, ?_⟩
  · show Chain s.links.next (s.nodes e).next es none
    rw [hw.next]
    exact h.queue.holds
  · have hcount := h.entryCount
    rw [UInt32.add_zero] at hcount
    rw [List.length_cons, UInt32.ofNat_add, ← hcount]
    rfl

/-- `atomic_fetch_add(&wake_up_list->entry_count, 1)`. -/
theorem InOrder.count (h : InOrder [] addr T c s es 1) :
    InOrder [] addr T (c.setField c.wakeUpList 4 (c.field c.wakeUpList 4 + 1))
      { s with entryCount := s.entryCount + 1 } es 0 := by
  rw [h.refines.count]
  refine ⟨h.refines.setCount _, ⟨h.queue.hasWakeUpList, h.queue.holds, h.queue.lt_top⟩, h.tracked,
    ⟨h.clean.not_freed, h.clean.freed_lt, h.clean.fired_freed, h.clean.fired_nodup⟩, ?_⟩
  exact (UInt32.add_zero _).trans h.entryCount

theorem InOrder.settled (h : InOrder [] addr T c s es 0) : c.Settled := by
  obtain ⟨hholds, -⟩ := h.refines.holds h.tracked h.queue.holds
  refine ⟨fun e => ?_, fun p hp => ?_, _, hholds, ?_⟩
  · rw [h.refines.fired]
    exact h.clean.fired_once e
  · obtain ⟨e, he, rfl⟩ := List.mem_map.mp (hholds.mem_of_reaches hp)
    have hT := h.tracked e he
    refine ⟨(h.refines.entry e hT).owns.live, ?_⟩
    rw [h.refines.entryOf e hT, h.refines.freed]
    exact h.clean.not_freed e he
  · have hcount := h.entryCount
    rw [UInt32.add_zero] at hcount
    rw [h.refines.count, hcount, List.length_map]

end Phases

/-! ### Whole interleavings -/

section Run

variable {a : AddState}

/-- A quiet statement of the call. -/
theorem Phase.statement (h : Phase a) (hquiet : a.Quiet .statement) :
    ∃ a', a.step .statement = some a' ∧ Phase a' := by
  obtain ⟨pc, call, new, c⟩ := a
  cases pc with
  | testList =>
    obtain ⟨addr, T, s, es, h⟩ := h
    refine ⟨_, rfl, ?_⟩
    rw [if_neg h.refines.wakeUpList_ne_zero]
    exact ⟨addr, T, s, es, h⟩
  | allocate =>
    obtain ⟨addr, T, s, es, h⟩ := h
    rcases hquiet rfl with hclear | hfull
    · -- the new block is a record of its own until `next` is set
      obtain ⟨m, p, addr', ws, e, hcode, hp0, hlen, h', hp⟩ := h.allocate hclear
      refine ⟨⟨.setWakeUpTick, call, p, _⟩, ?_, addr', T, _, es, ws, e, hlen, h', hp⟩
      show (c.memory.malloc 16).map _ = _
      rw [hcode, Option.map_some]
      dsimp only
      rw [if_neg hp0]
      rfl
    · refine ⟨⟨.done, call, 0, c⟩, ?_, addr, T, s, es, h⟩
      show (c.memory.malloc 16).map _ = _
      rw [hfull.malloc (by decide), Option.map_some]
      rfl
  | setWakeUpTick =>
    obtain ⟨addr, T, s, es, ws, e, hlen, h, hp⟩ := h
    exact ⟨_, rfl, addr, T, s, es, ws.set 0 _, e, by simpa using hlen,
      h.setFrame rfl (by omega) _, hp.addr_eq, hp.entryOf, hp.lt_top, hp.not_freed⟩
  | setCallback =>
    obtain ⟨addr, T, s, es, ws, e, hlen, h, hp⟩ := h
    exact ⟨_, rfl, addr, T, s, es, ws.set 1 _, e, by simpa using hlen,
      h.setFrame rfl (by omega) _, hp.addr_eq, hp.entryOf, hp.lt_top, hp.not_freed⟩
  | setCallbackData =>
    obtain ⟨addr, T, s, es, ws, e, hlen, h, hp⟩ := h
    exact ⟨_, rfl, addr, T, s, es, ws.set 2 _, e, by simpa using hlen,
      h.setFrame rfl (by omega) _, hp.addr_eq, hp.entryOf, hp.lt_top, hp.not_freed⟩
  | setNext =>
    obtain ⟨addr, T, s, es, ws, e, hlen, h, hp⟩ := h
    obtain ⟨s', h', hw⟩ := h.setNext hlen hp
    exact ⟨_, rfl, addr, _, s', es, e, h', hw⟩
  | setEntries =>
    obtain ⟨addr, T, s, es, e, h, hw⟩ := h
    exact ⟨_, rfl, addr, T, _, _, h.setEntries hw⟩
  | count =>
    obtain ⟨addr, T, s, es, h⟩ := h
    exact ⟨_, rfl, addr, T, _, es, h.count⟩
  | done => exact ⟨_, rfl, h⟩

/-- A quiet tick. -/
theorem Phase.tick (h : Phase a) (hquiet : a.Quiet .tick) :
    ∃ a', a.step .tick = some a' ∧ Phase a' := by
  obtain ⟨pc, call, new, c⟩ := a
  have hstep : ∀ {c'}, c.rtcTick (fun _ => []) = some c' →
      AddState.step ⟨pc, call, new, c⟩ .tick = some ⟨pc, call, new, c'⟩ := by
    intro c' hcode
    rw [AddState.step, hcode]
    rfl
  cases pc with
  | testList | allocate | done | count =>
    obtain ⟨addr, T, s, es, h⟩ := h
    obtain ⟨c', addr', T', s', hcode, -, -, h'⟩ := h.tick
    exact ⟨_, hstep hcode, addr', T', s', _, h'⟩
  | setWakeUpTick | setCallback | setCallbackData | setNext =>
    obtain ⟨addr, T, s, es, ws, e, hlen, h, hp⟩ := h
    obtain ⟨c', addr', T', s', hcode, ht, hv, h'⟩ := h.tick
    have he : e ∉ es := fun hmem => hp.not_mem h (h.tracked e hmem)
    exact ⟨_, hstep hcode, addr', T', s', _, ws, e, hlen, h', hp.tick he hcode ht hv⟩
  | setEntries =>
    obtain ⟨addr, T, s, es, e, h, hw⟩ := h
    obtain ⟨c', addr', T', s', hcode, ht, hv, h'⟩ := h.tick
    refine ⟨_, hstep hcode, addr', T', s', _, e, h', ?_⟩
    refine hw.tick (h.refines.lt_top e hw.tracked) h.queue (fun d hd => ?_) ht hv
    rw [← headDue_eq h.refines hd (h.tracked d (h.queue.holds.head_mem hd))]
    exact hquiet rfl

/-- An interleaving whose steps are quiet keeps the invariant. -/
theorem Phase.run (σs : List AddStep) (h : Phase a) (hquiet : a.QuietRun σs) :
    ∃ a', a.run σs = some a' ∧ Phase a' := by
  induction σs generalizing a with
  | nil => exact ⟨a, rfl, h⟩
  | cons σ σs ih =>
    have hstep : ∃ a', a.step σ = some a' ∧ Phase a' := by
      cases σ with
      | statement => exact h.statement hquiet.1
      | tick => exact h.tick hquiet.1
    obtain ⟨a₁, hcode, h₁⟩ := hstep
    obtain ⟨a', hrun, h'⟩ := ih h₁ (hquiet.2 a₁ hcode)
    refine ⟨a', ?_, h'⟩
    rw [AddState.run, hcode]
    exact hrun

/-- How many statements of the call are left. -/
def AddPc.left : AddPc → ℕ
  | .testList => 8
  | .allocate => 7
  | .setWakeUpTick => 6
  | .setCallback => 5
  | .setCallbackData => 4
  | .setNext => 3
  | .setEntries => 2
  | .count => 1
  | .done => 0

theorem left_eq_zero_iff {pc : AddPc} : pc.left = 0 ↔ pc = .done := by
  cases pc <;> decide

theorem left_statement {a a' : AddState} (h : a.statement = some a') :
    a'.pc.left ≤ a.pc.left - 1 := by
  obtain ⟨pc, call, new, c⟩ := a
  cases pc with
  | testList =>
    obtain rfl := Option.some.inj h
    show (if c.wakeUpList = 0 then AddPc.done else .allocate).left ≤ 7
    split <;> decide
  | allocate =>
    obtain ⟨⟨m, p⟩, -, rfl⟩ := Option.map_eq_some_iff.mp h
    dsimp only
    split
    · exact Nat.zero_le _
    · exact le_rfl
  | _ =>
    obtain rfl := Option.some.inj h
    exact le_rfl

/-- An interleaving with all statements of the call in it ends with the call returned. -/
theorem left_run {σs : List AddStep} {a' : AddState} (h : a.run σs = some a') :
    a'.pc.left ≤ a.pc.left - σs.count .statement := by
  induction σs generalizing a with
  | nil =>
    obtain rfl := Option.some.inj h
    exact le_rfl
  | cons σ σs ih =>
    obtain ⟨a₁, hstep, hrun⟩ := Option.bind_eq_some_iff.mp h
    have hle := ih hrun
    cases σ with
    | statement =>
      have := left_statement hstep
      rw [List.count_cons_self]
      omega
    | tick =>
      obtain ⟨s, -, rfl⟩ := Option.map_eq_some_iff.mp hstep
      rw [List.count_cons_of_ne (by decide)]
      exact hle

end Run

/-- **Once a call of `wake_up_list_add` and any further ticks are over, the list is in order**, when
no tick between `new_entry->next = entries` and `entries = new_entry` found the head entry due and
the block that the call got is clear.  Such an interleaving does not get stuck, and eight statements
are enough for the call to return. -/
theorem settled_of_quiet {c : HeapTimers} {ps : List UInt32} (hinit : c.InitialList ps)
    (call : WakeUp) (σs : List AddStep) (hquiet : (AddState.start c call).QuietRun σs) :
    ∃ a', (AddState.start c call).run σs = some a'
      ∧ (8 ≤ σs.count .statement → a'.pc = .done)
      ∧ (a'.pc = .done → a'.timers.Settled) := by
  have hstart : Phase (AddState.start c call) := by
    refine ⟨_, _, _, _, hinit.queue.refines, hinit.queue.queue, fun e he => he, ?_, ?_⟩
    · constructor <;> simp [HeapTimers.toTimers, hinit.fired, hinit.freed]
    · rw [List.length_map, ← hinit.entryCount]
      exact UInt32.add_zero _
  obtain ⟨a', hrun, hphase⟩ := hstart.run σs hquiet
  refine ⟨a', hrun, fun hall => ?_, fun hdone => ?_⟩
  · have hleft := left_run hrun
    have hzero : a'.pc.left = 0 := by
      change _ ≤ 8 - _ at hleft
      omega
    exact left_eq_zero_iff.mp hzero
  · rw [Phase, hdone] at hphase
    obtain ⟨addr, T, s, es, h⟩ := hphase
    exact h.settled

instance (c : HeapTimers) (ps : List UInt32) : Decidable (c.InitialList ps) :=
  decidable_of_iff (c.Queue ps ∧ c.field c.wakeUpList 4 = UInt32.ofNat ps.length ∧ c.fired = []
      ∧ c.freed = [])
    ⟨fun ⟨h1, h2, h3, h4⟩ => ⟨h1, h2, h3, h4⟩,
      fun h => ⟨h.queue, h.entryCount, h.fired, h.freed⟩⟩

instance (a : AddState) : ∀ σ, Decidable (a.Quiet σ)
  | .statement => inferInstanceAs
    (Decidable (a.pc = .allocate → a.timers.memory.Clear 16 ∨ a.timers.memory.Full 16))
  | .tick => inferInstanceAs (Decidable (a.pc = .setEntries → a.timers.headDue = false))

instance AddState.QuietRun.decidable : ∀ (a : AddState) (σs : List AddStep),
    Decidable (a.QuietRun σs)
  | _, [] => isTrue trivial
  | a, σ :: σs =>
    have : DecidablePred fun a' : AddState => a'.QuietRun σs :=
      fun a' => AddState.QuietRun.decidable a' σs
    inferInstanceAs (Decidable (a.Quiet σ ∧ ∀ a' ∈ a.step σ, a'.QuietRun σs))

/-- The tick comes before the window: the due entry is gone when the call reads the head. -/
theorem settled_of_quiet_oneEntry :
    ∃ a', (AddState.start (.withEntries [⟨1, 7, 0⟩]) ⟨9, 7, 0⟩).run
        (List.replicate 5 .statement ++ .tick :: List.replicate 3 .statement) = some a'
      ∧ a'.pc = .done ∧ a'.timers.Settled := by
  have hinit : (HeapTimers.withEntries [⟨1, 7, 0⟩]).InitialList [5056] := by decide +kernel
  obtain ⟨a', hrun, hdone, hsettled⟩ := settled_of_quiet hinit ⟨9, 7, 0⟩
    (List.replicate 5 .statement ++ .tick :: List.replicate 3 .statement) (by decide +kernel)
  exact ⟨a', hrun, hdone (by decide), hsettled (hdone (by decide))⟩

/-- The tick comes inside the window: the new entry points to the freed one, whose number is `0`.
The block that the call gets is clear. -/
theorem not_settled_oneEntry :
    (HeapTimers.withEntries [⟨1, 7, 0⟩]).InitialList [5056]
      ∧ (HeapTimers.withEntries [⟨1, 7, 0⟩]).memory.Clear 16
      ∧ ∃ a', (AddState.start (.withEntries [⟨1, 7, 0⟩]) ⟨9, 7, 0⟩).run
          (List.replicate 6 .statement ++ .tick :: List.replicate 2 .statement) = some a'
        ∧ a'.pc = .done ∧ a'.timers.freed = [0] ∧ a'.timers.links.Reaches 5056
        ∧ a'.timers.entryOf 5056 = 0 ∧ ¬ a'.timers.Settled := by
  refine ⟨by decide +kernel, by decide +kernel, ?_⟩
  have hcode : ((AddState.start (.withEntries [⟨1, 7, 0⟩]) ⟨9, 7, 0⟩).run
      (List.replicate 6 .statement ++ .tick :: List.replicate 2 .statement)).map
        (fun a => (a.pc, a.timers.freed, decide (a.timers.links.Holds [5032, 5056]),
          a.timers.entryOf 5056)) = some (.done, [0], true, 0) := by
    decide +kernel
  obtain ⟨a', hrun, hend⟩ := Option.map_eq_some_iff.mp hcode
  simp only [Prod.mk.injEq] at hend
  obtain ⟨hpc, hfreed, hholds, hof⟩ := hend
  have hreach : a'.timers.links.Reaches 5056 := ⟨[5032], none, of_decide_eq_true hholds⟩
  refine ⟨a', hrun, hpc, hfreed, hreach, hof, fun h => ?_⟩
  have hnot := (h.reached 5056 hreach).2
  rw [hof, hfreed] at hnot
  exact hnot (by decide)

end Shogun.Rtc
