import Mathlib.Data.UInt
import Shogun.Rtc.WakeUpList
import Shogun.Util.Sweep

/-!
# What a check of the wake-up list does

`wake_up_list_check_and_execute` is a sweep of the list that removes the entries that are due and
calls their callbacks, which may push new ones.

* `wakeUpListAdd_spec`, `foldl_wakeUpListAdd_spec`: adding pushes new entries at the head.
* `visitEntry_spec`: the body of the walk.
* `checkLoop_rule`: the invariant rule of the walk.
* `wakeUpListCheckAndExecute_spec`: a check returns; the list it leaves, the callbacks it called and
  the entries it freed.
-/

namespace Shogun.Rtc

open LinkedList LinkedList.Links

/-! ### Stores -/

namespace TimerState

variable (s : TimerState)

theorem setNext_content (e : ℕ) (v : Option ℕ) (d : ℕ) :
    ((s.setNext e v).nodes d).toWakeUp = (s.nodes d).toWakeUp := by
  show (Function.update s.nodes e _ d).toWakeUp = _
  by_cases hd : d = e
  · rw [hd, Function.update_self]
  · rw [Function.update_of_ne hd]

theorem storePrev_links (prevPtr v : Option ℕ) :
    (s.storePrev prevPtr v).links = s.links.write prevPtr v := by
  cases prevPtr with
  | none => rfl
  | some e =>
    apply congrArg (Links.mk s.entries)
    ext1 d
    exact Function.apply_update (fun _ entry => entry.next) s.nodes e _ d

theorem storePrev_next {prevPtr : Option ℕ} {d : ℕ} (h : prevPtr ≠ some d) (v : Option ℕ) :
    ((s.storePrev prevPtr v).nodes d).next = (s.nodes d).next := by
  cases prevPtr with
  | none => rfl
  | some e =>
    have hd : d ≠ e := by
      rintro rfl
      exact h rfl
    exact congrArg WakeUpEntry.next (Function.update_of_ne hd _ _)

/-- `s'` differs from `s` in the list alone: the clock is the same, and so is what the entries that
`s` has allocated say. -/
structure SameClock (s' : TimerState) : Prop where
  hasMonotonicTime : s'.hasMonotonicTime = s.hasMonotonicTime
  tickCount : s'.tickCount = s.tickCount
  hasWakeUpList : s'.hasWakeUpList = s.hasWakeUpList
  content : ∀ e < s.top, (s'.nodes e).toWakeUp = (s.nodes e).toWakeUp

theorem SameClock.refl : s.SameClock s := ⟨rfl, rfl, rfl, fun _ _ => rfl⟩

theorem SameClock.trans {s s₁ s₂ : TimerState} (h₁ : s.SameClock s₁) (h₂ : s₁.SameClock s₂)
    (htop : s.top ≤ s₁.top) : s.SameClock s₂ where
  hasMonotonicTime := h₂.hasMonotonicTime.trans h₁.hasMonotonicTime
  tickCount := h₂.tickCount.trans h₁.tickCount
  hasWakeUpList := h₂.hasWakeUpList.trans h₁.hasWakeUpList
  content := fun e he => (h₂.content e (he.trans_le htop)).trans (h₁.content e he)

/-- A store through `prev_ptr` changes nothing but a pointer cell of the list. -/
theorem storePrev_frame (prevPtr v : Option ℕ) :
    s.SameClock (s.storePrev prevPtr v)
      ∧ (s.storePrev prevPtr v).entryCount = s.entryCount
      ∧ (s.storePrev prevPtr v).top = s.top
      ∧ (s.storePrev prevPtr v).fired = s.fired
      ∧ (s.storePrev prevPtr v).freed = s.freed := by
  cases prevPtr with
  | none => exact ⟨⟨rfl, rfl, rfl, fun _ _ => rfl⟩, rfl, rfl, rfl, rfl⟩
  | some e =>
    exact ⟨⟨rfl, rfl, rfl, fun d _ => s.setNext_content e v d⟩, rfl, rfl, rfl, rfl⟩

end TimerState

/-! ### Adding entries -/

/-- How many of the calls get an entry. -/
def addCount (calls : List AddCall) : ℕ := calls.countP (·.allocated)

/-- `s'` is `s` after the calls `calls` of `wake_up_list_add`. -/
structure Added (s : TimerState) (calls : List AddCall) (s' : TimerState) : Prop where
  sameClock : s.SameClock s'
  top : s'.top = s.top + addCount calls
  entryCount : s'.entryCount = s.entryCount + UInt32.ofNat (addCount calls)
  fired : s'.fired = s.fired
  freed : s'.freed = s.freed
  next : ∀ e < s.top, (s'.nodes e).next = (s.nodes e).next
  pushed : Pushed s.links s'.links s.top (addCount calls)

theorem Added.refl (s : TimerState) : Added s [] s where
  sameClock := .refl s
  top := rfl
  entryCount := (add_zero s.entryCount).symm
  fired := rfl
  freed := rfl
  next := fun _ _ => rfl
  pushed := .refl _ _

theorem Added.trans {s s₁ s₂ : TimerState} {cs ds : List AddCall} (h₁ : Added s cs s₁)
    (h₂ : Added s₁ ds s₂) : Added s (cs ++ ds) s₂ := by
  have hcount : addCount (cs ++ ds) = addCount cs + addCount ds := List.countP_append
  constructor
  · exact h₁.sameClock.trans h₂.sameClock (by rw [h₁.top]; omega)
  · rw [h₂.top, h₁.top, hcount, Nat.add_assoc]
  · rw [h₂.entryCount, h₁.entryCount, hcount, UInt32.ofNat_add, UInt32.add_assoc]
  · rw [h₂.fired, h₁.fired]
  · rw [h₂.freed, h₁.freed]
  · intro e he
    rw [h₂.next e (by rw [h₁.top]; omega), h₁.next e he]
  · rw [hcount]
    exact h₁.pushed.trans (h₁.top ▸ h₂.pushed)

section Add

variable {s : TimerState} (hlist : s.hasWakeUpList = true) (call : WakeUp)

include hlist

theorem wakeUpListAdd_eq :
    wakeUpListAdd s ⟨call, true⟩
      = { s with
          top := s.top + 1
          nodes := Function.update s.nodes s.top ⟨call, s.entries⟩
          entries := some s.top
          entryCount := s.entryCount + 1 } := by
  simp [wakeUpListAdd, hlist, TimerState.setWakeUpTick, TimerState.setCallback,
    TimerState.setCallbackData, TimerState.setNext]

theorem wakeUpListAdd_links :
    (wakeUpListAdd s ⟨call, true⟩).links = s.links.push s.top := by
  rw [wakeUpListAdd_eq hlist]
  apply congrArg (Links.mk (some s.top))
  ext1 e
  exact Function.apply_update (fun _ entry => entry.next) s.nodes s.top _ e

/-- What the new entry says. -/
theorem wakeUpListAdd_content :
    ((wakeUpListAdd s ⟨call, true⟩).nodes s.top).toWakeUp = call := by
  rw [wakeUpListAdd_eq hlist]
  exact congrArg WakeUpEntry.toWakeUp (Function.update_self s.top _ s.nodes)

omit call in
theorem wakeUpListAdd_spec (call : AddCall) : Added s [call] (wakeUpListAdd s call) := by
  obtain ⟨call, allocated⟩ := call
  cases allocated with
  | false =>
    have hcode : wakeUpListAdd s ⟨call, false⟩ = s := by
      simp [wakeUpListAdd]
    rw [hcode]
    exact { Added.refl s with }
  | true =>
    have hlinks := wakeUpListAdd_links hlist call
    rw [wakeUpListAdd_eq hlist] at hlinks ⊢
    refine ⟨⟨rfl, rfl, rfl, fun e he => ?_⟩, rfl, rfl, rfl, rfl, fun e he => ?_, ?_⟩
    · exact congrArg WakeUpEntry.toWakeUp (Function.update_of_ne he.ne _ _)
    · exact congrArg WakeUpEntry.next (Function.update_of_ne he.ne _ _)
    · rw [hlinks]
      exact .push _ _

omit call in
theorem foldl_wakeUpListAdd_spec (calls : List AddCall) :
    Added s calls (calls.foldl wakeUpListAdd s) := by
  induction calls generalizing s with
  | nil => exact Added.refl s
  | cons c calls ih =>
    have h₁ := wakeUpListAdd_spec hlist c
    exact h₁.trans (ih (h₁.sameClock.hasWakeUpList.trans hlist))

end Add

/-! ### Visiting an entry -/

/-- The entry's tick has come. -/
def due (s : TimerState) (tick : UInt32) (e : ℕ) : Bool := (s.nodes e).wakeUpTick ≤ tick

/-- The call of the entry's callback by a check at `tick`, if it makes one. -/
def firing (s : TimerState) (tick : UInt32) (e : ℕ) : Option Firing :=
  if due s tick e ∧ (s.nodes e).callback ≠ 0 then
    some ⟨e, (s.nodes e).callback, (s.nodes e).callbackData, tick⟩
  else none

theorem entry_of_firing {s : TimerState} {tick : UInt32} {e : ℕ} {x : Firing}
    (h : firing s tick e = some x) : x.entry = e := by
  rw [firing] at h
  split at h
  · obtain rfl := Option.some.inj h
    rfl
  · exact absurd h (by simp)

/-- What is added while a check at `tick` looks at the entry. -/
def rearmed (s : TimerState) (rearm : ℕ → List AddCall) (tick : UInt32) (e : ℕ) : List AddCall :=
  if (firing s tick e).isSome then rearm e else []

section Visit

variable {s : TimerState} {rearm : ℕ → List AddCall} {tick : UInt32} {l : CheckLocals} {e : ℕ}

theorem runCallback_spec (rearm : ℕ → List AddCall) (hlist : s.hasWakeUpList = true)
    (hdue : due s tick e = true) :
    Added { s with fired := s.fired ++ (firing s tick e).toList } (rearmed s rearm tick e)
      (runCallback rearm tick s e) := by
  by_cases hnull : (s.nodes e).callback = 0
  · have hnone : firing s tick e = none := if_neg fun h => h.2 hnull
    have hsame : { s with fired := s.fired ++ [] } = s := by
      rw [List.append_nil]
    rw [runCallback, if_pos hnull, rearmed, hnone]
    show Added { s with fired := s.fired ++ [] } [] s
    rw [hsame]
    exact Added.refl s
  · have hsome : firing s tick e = some _ := if_pos ⟨hdue, hnull⟩
    rw [runCallback, if_neg hnull, rearmed, hsome]
    exact foldl_wakeUpListAdd_spec (s := { s with
      fired := s.fired ++ [⟨e, (s.nodes e).callback, (s.nodes e).callbackData, tick⟩] }) hlist
      (rearm e)

/-- `(s', l')` is the state after the body of the walk ran on `e`. -/
structure VisitedEntry (s : TimerState) (rearm : ℕ → List AddCall) (tick : UInt32)
    (l : CheckLocals) (e : ℕ) (s' : TimerState) (l' : CheckLocals) : Prop where
  sameClock : s.SameClock s'
  top : s'.top = s.top + addCount (rearmed s rearm tick e)
  entryCount : s'.entryCount + (if due s tick e then 1 else 0)
    = s.entryCount + UInt32.ofNat (addCount (rearmed s rearm tick e))
  fired : s'.fired = s.fired ++ (firing s tick e).toList
  freed : s'.freed = s.freed ++ if due s tick e then [e] else []
  prevPtr : l'.prevPtr = if due s tick e then l.prevPtr else some e
  next : ∀ d < s.top, l.prevPtr ≠ some d → (s'.nodes d).next = (s.nodes d).next
  sweeping : ∀ {removed pushes rest final}, removed e = due s tick e →
    pushes e = addCount (rearmed s rearm tick e) →
    Sweeping removed pushes s.links l.prevPtr s.top (e :: rest) final →
    l'.current = rest.head? ∧ Sweeping removed pushes s'.links l'.prevPtr s'.top rest final

/-- An entry that is not due is passed over. -/
theorem visitedEntry_of_not_due (hdue : due s tick e = false) :
    VisitedEntry s rearm tick l e s ⟨(s.nodes e).next, some e⟩ := by
  have hfiring : firing s tick e = none := by
    rw [firing, hdue]
    exact if_neg fun h => Bool.noConfusion h.1
  have hnone : addCount (rearmed s rearm tick e) = 0 := by
    rw [rearmed, hfiring]
    rfl
  refine ⟨.refl s, ?_, ?_, ?_, ?_, ?_, fun _ _ _ => rfl, fun hrem hpush h => ?_⟩
  · rw [hnone, Nat.add_zero]
  · rw [hnone, hdue]
    rfl
  · rw [hfiring]
    exact (List.append_nil _).symm
  · rw [hdue]
    exact (List.append_nil _).symm
  · rw [hdue]
    rfl
  · -- nothing is pushed, and `prev` goes on to this entry
    have hpushed := Pushed.refl s.links s.top
    rw [← hnone, ← hpush] at hpushed
    have hadv := h.advance hpushed (hrem.trans hdue)
    rw [hpush, hnone] at hadv
    exact ⟨h.next_eq hpushed, hadv⟩

/-- An entry that is due is unlinked through `prev_ptr` and freed, after its callback. -/
theorem visitedEntry_of_due (hlist : s.hasWakeUpList = true) (hdue : due s tick e = true)
    {s₂ : TimerState} (hs₂ : s₂ = (runCallback rearm tick s e).storePrev l.prevPtr
      ((runCallback rearm tick s e).nodes e).next) :
    VisitedEntry s rearm tick l e
      { s₂ with freed := s₂.freed ++ [e], entryCount := s₂.entryCount - 1 }
      { l with current := (s₂.nodes e).next } := by
  have ha := runCallback_spec rearm hlist hdue
  set s₁ := runCallback rearm tick s e
  obtain ⟨hclock, hcount, htop, hfired, hfreed⟩ := s₁.storePrev_frame l.prevPtr (s₁.nodes e).next
  have hlinks := s₁.storePrev_links l.prevPtr (s₁.nodes e).next
  rw [← hs₂] at hclock hcount htop hfired hfreed hlinks
  have hclock' := ha.sameClock.trans hclock (by rw [ha.top]; exact Nat.le_add_right _ _)
  refine ⟨⟨hclock'.hasMonotonicTime, hclock'.tickCount, hclock'.hasWakeUpList, hclock'.content⟩,
    htop.trans ha.top, ?_, hfired.trans ha.fired, ?_, by rw [hdue]; rfl, fun d hd hne => ?_,
    fun {_ _ rest _} hrem hpush h => ?_⟩
  · rw [hdue, if_pos rfl, ← ha.entryCount, ← hcount]
    exact UInt32.sub_add_cancel _ _
  · rw [hdue, if_pos rfl]
    exact congrArg (· ++ [e]) (hfreed.trans ha.freed)
  · rw [← ha.next d hd, ← s₁.storePrev_next hne (s₁.nodes e).next, ← hs₂]
  · have hpushed : Pushed s.links s₁.links s.top _ := ha.pushed
    rw [← hpush] at hpushed
    -- the callback has pushed in front of the list, so `next` is as before
    have hnext : (s₂.nodes e).next = rest.head? := by
      show s₂.links.next e = _
      rw [hlinks, h.write_next hpushed, h.next_eq hpushed]
    refine ⟨hnext, ?_⟩
    show Sweeping _ _ s₂.links l.prevPtr s₂.top _ _
    rw [hlinks, htop, ha.top, ← hpush]
    exact h.unlink hpushed (hrem.trans hdue)

theorem visitEntry_spec (rearm : ℕ → List AddCall) (tick : UInt32) (l : CheckLocals) (e : ℕ)
    (hlist : s.hasWakeUpList = true) :
    VisitedEntry s rearm tick l e (visitEntry rearm tick s l e).1
      (visitEntry rearm tick s l e).2 := by
  cases hdue : due s tick e with
  | true =>
    have htick : (s.nodes e).wakeUpTick ≤ tick := by simpa [due] using hdue
    rw [visitEntry, if_pos htick]
    exact visitedEntry_of_due hlist hdue rfl
  | false =>
    have hcode : visitEntry rearm tick s l e = (s, ⟨(s.nodes e).next, some e⟩) :=
      if_neg (by simpa [due] using hdue)
    rw [hcode]
    exact visitedEntry_of_not_due hdue

end Visit

/-! ### The whole check -/

/-- The invariant rule of the walk: `I` holds of the state and the entries still ahead, and visiting
the next of them keeps it. -/
theorem checkLoop_rule {rearm : ℕ → List AddCall} {tick : UInt32}
    {I : TimerState → CheckLocals → List ℕ → Prop}
    (hcurrent : ∀ s l rest, I s l rest → l.current = rest.head?)
    (hstep : ∀ s l e rest, I s l (e :: rest) →
      I (visitEntry rearm tick s l e).1 (visitEntry rearm tick s l e).2 rest)
    (rest : List ℕ) (fuel : ℕ) (s : TimerState) (l : CheckLocals) (hfuel : rest.length ≤ fuel)
    (hI : I s l rest) :
    ∃ s' l', checkLoop rearm tick fuel s l = some (s', l') ∧ I s' l' [] := by
  induction rest generalizing fuel s l with
  | nil =>
    refine ⟨s, l, ?_, hI⟩
    rw [checkLoop.eq_def, hcurrent _ _ _ hI]
    rfl
  | cons e rest ih =>
    obtain ⟨fuel, rfl⟩ : ∃ n, fuel = n + 1 :=
      Nat.exists_eq_add_one.mpr (Nat.lt_of_lt_of_le (Nat.succ_pos _) hfuel)
    obtain ⟨s', l', hcode, hI'⟩ :=
      ih fuel _ _ (Nat.le_of_succ_le_succ hfuel) (hstep _ _ _ _ hI)
    refine ⟨s', l', ?_, hI'⟩
    rw [checkLoop.eq_def, hcurrent _ _ _ hI]
    exact hcode

/-- The list of `s` is `es`. -/
structure TimerState.Queue (s : TimerState) (es : List ℕ) : Prop where
  hasWakeUpList : s.hasWakeUpList = true
  holds : s.links.Holds es
  lt_top : ∀ e ∈ es, e < s.top

/-- Calls of `wake_up_list_add` push their entries in front of the list. -/
theorem Added.queue {s s' : TimerState} {calls : List AddCall} {es : List ℕ}
    (h : Added s calls s') (hq : s.Queue es) :
    s'.Queue ((List.range' s.top (addCount calls)).reverse ++ es) := by
  have hc := h.pushed none [] es (Cursor.start hq.holds) hq.lt_top
  have hholds := hc.holds
  rw [List.append_nil] at hholds
  refine ⟨h.sameClock.hasWakeUpList.trans hq.hasWakeUpList, hholds, fun e he => ?_⟩
  rw [h.top]
  rcases List.mem_append.mp he with he | he
  · exact (List.mem_range'_1.mp (List.mem_reverse.mp he)).2
  · exact Nat.lt_add_right _ (hq.lt_top e he)

/-- The number of entries added while the check looks at `e`. -/
def addsOf (s : TimerState) (rearm : ℕ → List AddCall) (tick : UInt32) (e : ℕ) : ℕ :=
  addCount (rearmed s rearm tick e)

/-- The list after a check of `es`. -/
def checkQueue (s : TimerState) (rearm : ℕ → List AddCall) (tick : UInt32) (es : List ℕ) :
    List ℕ :=
  sweep (due s tick) (addsOf s rearm tick) true s.top [] es

/-- The invariant of the check of `es` that started in `s₀`, with `rest` still ahead. -/
structure CheckWalk (s₀ : TimerState) (rearm : ℕ → List AddCall) (tick : UInt32) (es : List ℕ)
    (s : TimerState) (l : CheckLocals) (rest : List ℕ) : Prop where
  suffix : rest <:+ es
  current : l.current = rest.head?
  sameClock : s₀.SameClock s
  sweeping : Sweeping (due s₀ tick) (addsOf s₀ rearm tick) s.links l.prevPtr s.top rest
    (checkQueue s₀ rearm tick es)
  top : s.top + (rest.map (addsOf s₀ rearm tick)).sum
    = s₀.top + (es.map (addsOf s₀ rearm tick)).sum
  top_le : s₀.top ≤ s.top
  entryCount : s.entryCount + UInt32.ofNat (rest.map (addsOf s₀ rearm tick)).sum
      + UInt32.ofNat (es.countP (due s₀ tick))
    = s₀.entryCount + UInt32.ofNat (es.map (addsOf s₀ rearm tick)).sum
      + UInt32.ofNat (rest.countP (due s₀ tick))
  fired : s.fired ++ rest.filterMap (firing s₀ tick) = s₀.fired ++ es.filterMap (firing s₀ tick)
  freed : s.freed ++ rest.filter (due s₀ tick) = s₀.freed ++ es.filter (due s₀ tick)
  prevPtr : ∀ c, l.prevPtr = some c → c ∈ es ∧ due s₀ tick c = false
  next : ∀ d < s₀.top, (d ∉ es ∨ due s₀ tick d = true) → (s.nodes d).next = (s₀.nodes d).next

namespace CheckWalk

variable {s₀ s : TimerState} {rearm : ℕ → List AddCall} {tick : UInt32} {es rest : List ℕ}
  {l : CheckLocals} {e : ℕ}

theorem start (rearm : ℕ → List AddCall) (tick : UInt32) (hq : s₀.Queue es) :
    CheckWalk s₀ rearm tick es s₀ ⟨es.head?, none⟩ es where
  suffix := List.suffix_rfl
  current := rfl
  sameClock := .refl s₀
  sweeping := .start hq.holds hq.lt_top
  top := rfl
  top_le := le_rfl
  entryCount := rfl
  fired := rfl
  freed := rfl
  prevPtr := fun c hc => absurd hc (by simp)
  next := fun _ _ _ => rfl

/-- Entries that say the same are due at the same time and fire alike. -/
theorem firing_eq {s s' : TimerState} (h : (s'.nodes e).toWakeUp = (s.nodes e).toWakeUp)
    (tick : UInt32) : due s' tick e = due s tick e ∧ firing s' tick e = firing s tick e := by
  have htick : (s'.nodes e).wakeUpTick = (s.nodes e).wakeUpTick := congrArg WakeUp.wakeUpTick h
  have hcall : (s'.nodes e).callback = (s.nodes e).callback := congrArg WakeUp.callback h
  have hdata : (s'.nodes e).callbackData = (s.nodes e).callbackData :=
    congrArg WakeUp.callbackData h
  constructor
  · rw [due, due, htick]
  · rw [firing, firing, due, due, htick, hcall, hdata]

/-- Visiting an entry keeps the invariant. -/
theorem step (hq : s₀.Queue es) (h : CheckWalk s₀ rearm tick es s l (e :: rest)) :
    CheckWalk s₀ rearm tick es (visitEntry rearm tick s l e).1 (visitEntry rearm tick s l e).2
      rest := by
  have hlt := hq.lt_top e (h.suffix.mem List.mem_cons_self)
  -- the check so far has not changed what the entry says
  obtain ⟨hdue, hfire⟩ := firing_eq (h.sameClock.content e hlt) tick
  have hadds : addCount (rearmed s rearm tick e) = addsOf s₀ rearm tick e := by
    rw [addsOf, rearmed, rearmed, hfire]
  have hv := visitEntry_spec rearm tick l e
    (h.sameClock.hasWakeUpList.trans hq.hasWakeUpList)
  obtain ⟨hcur, hsweep⟩ := hv.sweeping hdue.symm hadds.symm h.sweeping
  have htop := hv.top
  have hcount := hv.entryCount
  have hfired := hv.fired
  have hfreed := hv.freed
  rw [hdue, hadds] at hcount
  rw [hadds] at htop
  rw [hfire] at hfired
  rw [hdue] at hfreed
  refine
    { suffix := (List.suffix_cons e rest).trans h.suffix
      current := hcur
      sameClock := h.sameClock.trans hv.sameClock h.top_le
      sweeping := hsweep
      top := ?_
      top_le := h.top_le.trans (htop ▸ Nat.le_add_right _ _)
      entryCount := ?_
      fired := ?_
      freed := ?_
      prevPtr := ?_
      next := ?_ }
  · rw [htop, ← h.top, List.map_cons, List.sum_cons, Nat.add_assoc]
  · have hc := h.entryCount
    rw [List.map_cons, List.sum_cons, UInt32.ofNat_add, ofNat_countP_cons] at hc
    grind
  · rw [hfired, ← h.fired, List.append_assoc, List.filterMap_cons]
    cases firing s₀ tick e <;> rfl
  · rw [hfreed, ← h.freed, List.append_assoc, List.filter_cons]
    cases due s₀ tick e <;> rfl
  · intro c hc
    rw [hv.prevPtr, hdue] at hc
    cases hd : due s₀ tick e with
    | true =>
      -- unlinking leaves `prev_ptr` where it is
      rw [hd, if_pos rfl] at hc
      exact h.prevPtr c hc
    | false =>
      rw [hd, if_neg (by simp)] at hc
      obtain rfl := Option.some.inj hc
      exact ⟨h.suffix.mem List.mem_cons_self, hd⟩
  · -- only the links of entries that stay are written
    intro d hd hor
    rw [hv.next d (hd.trans_le h.top_le), h.next d hd hor]
    intro hprev
    obtain ⟨hmem, hstay⟩ := h.prevPtr d hprev
    rcases hor with hor | hor
    · exact hor hmem
    · rw [hstay] at hor
      exact Bool.noConfusion hor

end CheckWalk

theorem TimerState.Queue.length_le {s : TimerState} {es : List ℕ} (hq : s.Queue es) :
    es.length ≤ s.top := by
  have hsub : es ⊆ List.range s.top := fun e he => List.mem_range.mpr (hq.lt_top e he)
  have hlen := (hq.holds.nodup.subperm hsub).length_le
  rwa [List.length_range] at hlen

/-- A check at `tick` returns: `s'` is the state after it. -/
structure Checked (s : TimerState) (rearm : ℕ → List AddCall) (tick : UInt32) (es : List ℕ)
    (s' : TimerState) : Prop where
  sameClock : s.SameClock s'
  holds : s'.links.Holds (checkQueue s rearm tick es)
  top : s'.top = s.top + (es.map (addsOf s rearm tick)).sum
  entryCount : s'.entryCount + UInt32.ofNat (es.countP (due s tick))
    = s.entryCount + UInt32.ofNat (es.map (addsOf s rearm tick)).sum
  fired : s'.fired = s.fired ++ es.filterMap (firing s tick)
  freed : s'.freed = s.freed ++ es.filter (due s tick)
  next : ∀ d < s.top, (d ∉ es ∨ due s tick d = true) → (s'.nodes d).next = (s.nodes d).next

theorem wakeUpListCheckAndExecute_spec {s : TimerState} {es : List ℕ} (hq : s.Queue es)
    (rearm : ℕ → List AddCall) :
    ∃ s', wakeUpListCheckAndExecute rearm s = some s'
      ∧ Checked s rearm (monotonicTimeGetTicksGlobal s) es s' := by
  have hhead : s.entries = es.head? := hq.holds.head_eq
  obtain ⟨s', l', hcode, hw⟩ := checkLoop_rule (fun _ _ _ h => h.current)
    (fun _ _ _ _ h => CheckWalk.step hq h) es s.top s ⟨es.head?, none⟩ hq.length_le
    (CheckWalk.start rearm (monotonicTimeGetTicksGlobal s) hq)
  refine ⟨s', ?_, hw.sameClock, hw.sweeping.holds, hw.top, ?_, ?_, ?_, hw.next⟩
  · rw [wakeUpListCheckAndExecute, if_pos hq.hasWakeUpList, hhead, hcode]
    rfl
  · have hcount := hw.entryCount
    rw [List.map_nil, List.sum_nil, List.countP_nil] at hcount
    change s'.entryCount + 0 + _ = _ + 0 at hcount
    rwa [UInt32.add_zero, UInt32.add_zero] at hcount
  · have hfired := hw.fired
    rwa [List.filterMap_nil, List.append_nil] at hfired
  · have hfreed := hw.freed
    rwa [List.filter_nil, List.append_nil] at hfreed

/-! ### A tick -/

/-- The tick count that the check of the next tick reads. -/
def nextTick (s : TimerState) : UInt32 :=
  monotonicTimeGetTicksGlobal (monotonicTimeIncrementGlobal s)

/-- With monotonic time initialised the next tick is one further. -/
theorem nextTick_eq {s : TimerState} (h : s.hasMonotonicTime = true) :
    nextTick s = s.tickCount + 1
      ∧ (monotonicTimeIncrementGlobal s).tickCount = s.tickCount + 1 := by
  have hinc : monotonicTimeIncrementGlobal s = { s with tickCount := s.tickCount + 1 } := if_pos h
  rw [nextTick, hinc]
  exact ⟨if_pos h, rfl⟩

/-- `s'` is `s` after a tick whose callbacks leave the list `es` alone. -/
structure Ticked (s : TimerState) (es : List ℕ) (s' : TimerState) : Prop where
  hasMonotonicTime : s'.hasMonotonicTime = s.hasMonotonicTime
  tickCount : s'.tickCount = (monotonicTimeIncrementGlobal s).tickCount
  content : ∀ e < s.top, (s'.nodes e).toWakeUp = (s.nodes e).toWakeUp
  top : s'.top = s.top
  queue : s'.Queue (es.filter (!due s (nextTick s) ·))
  entryCount : s'.entryCount + UInt32.ofNat (es.countP (due s (nextTick s))) = s.entryCount
  fired : s'.fired = s.fired ++ es.filterMap (firing s (nextTick s))
  freed : s'.freed = s.freed ++ es.filter (due s (nextTick s))
  next : ∀ d < s.top, (d ∉ es ∨ due s (nextTick s) d = true) →
    (s'.nodes d).next = (s.nodes d).next

theorem rtcTick_spec {s : TimerState} {es : List ℕ} (hq : s.Queue es) :
    ∃ s', rtcTick (fun _ => []) s = some s' ∧ Ticked s es s' := by
  -- the increment only moves the clock
  obtain ⟨tickCount, hinc⟩ :
      ∃ tickCount, monotonicTimeIncrementGlobal s = { s with tickCount := tickCount } := by
    rw [monotonicTimeIncrementGlobal]
    split
    · exact ⟨_, rfl⟩
    · exact ⟨s.tickCount, rfl⟩
  have hq' : (monotonicTimeIncrementGlobal s).Queue es := by
    rw [hinc]
    exact ⟨hq.hasWakeUpList, hq.holds, hq.lt_top⟩
  obtain ⟨s', hcode, hc⟩ := wakeUpListCheckAndExecute_spec hq' fun _ => []
  change Checked (monotonicTimeIncrementGlobal s) _ (nextTick s) es s' at hc
  have hzero : ∀ e, addsOf (monotonicTimeIncrementGlobal s) (fun _ => []) (nextTick s) e = 0 := by
    intro e
    rw [addsOf, rearmed, ite_self]
    rfl
  have hsum : (es.map (addsOf (monotonicTimeIncrementGlobal s) (fun _ => []) (nextTick s))).sum
      = 0 := by
    rw [List.sum_eq_zero_iff_forall_eq_nat, List.forall_mem_map]
    exact fun e _ => hzero e
  have htop := hc.top
  have hcount := hc.entryCount
  have hholds := hc.holds
  rw [hsum] at htop hcount
  rw [checkQueue, sweep_eq_filter _ fun e _ => hzero e] at hholds
  change _ = _ + (0 : UInt32) at hcount
  rw [UInt32.add_zero] at hcount
  refine ⟨s', hcode, ?_⟩
  have hclock := hc.sameClock
  have hfired := hc.fired
  have hfreed := hc.freed
  have hnext := hc.next
  rw [hinc] at hclock hfired hfreed hnext hholds hcount htop
  exact
    { hasMonotonicTime := hclock.hasMonotonicTime
      tickCount := hclock.tickCount.trans (by rw [hinc])
      content := hclock.content
      top := htop
      queue := ⟨hclock.hasWakeUpList.trans hq.hasWakeUpList, hholds, fun e he => by
        rw [htop]
        exact hq.lt_top e (List.mem_of_mem_filter he)⟩
      entryCount := hcount
      fired := hfired
      freed := hfreed
      next := hnext }

end Shogun.Rtc
