import Shogun.Rtc.Equiv.HeapTimers
import Shogun.Rtc.Equiv.WakeUpRun

/-!
# Runs of the wake-up list in the heap

A run after `monotonic_time_init_global` and `wake_up_list_init` is a sequence of calls of
`wake_up_list_add` and of ticks, each an increment of the tick count and a check of the list, with
callbacks that leave the list alone.

* `wakeUpRun_exactly_once`: as long as the blocks that the run gets are clear and fewer than `2^32`
  ticks have come, every entry that was added fires at the first tick after its addition that has
  reached its target, and only there; the list holds the entries that are not due yet, the latest
  first, and `entry_count` is its length.
* `not_onTime_reusingRun`: an entry whose block shares a word with another one can be lost.
-/

namespace Shogun.Rtc

open Memory Memory.HeapState LinkedList LinkedList.Links

namespace HeapTimers

/-! ### The conditions on the blocks -/

/-- The blocks that initialisation gets are clear. -/
def ClearInit (m : HeapState) : Prop :=
  m.Clear 4 ∧ ∀ c, (boot m).monotonicTimeInitGlobal = some c → c.memory.Clear 8

/-- The blocks that the calls of `wake_up_list_add` of a run get are clear. -/
def ClearRun (c : HeapTimers) : List WakeOp → Prop
  | [] => True
  | .add call :: ops =>
    c.memory.Clear 16 ∧ ∀ c', c.step (.add call) = some c' → c'.ClearRun ops
  | .tick :: ops => ∀ c', c.step .tick = some c' → c'.ClearRun ops

/-- What the entry at `p` says. -/
def wakeUpAt (c : HeapTimers) (p : UInt32) : WakeUp := ⟨c.field p 0, c.field p 4, c.field p 8⟩

/-! ### Initialisation -/

theorem monotonicTimeInitGlobal_boot {m : HeapState} (hm : m.Sound) (hc : m.Clear 4) :
    ∃ c, (boot m).monotonicTimeInitGlobal = some c ∧ c = { boot c.memory with
        monotonicTime := c.monotonicTime } ∧
      c.memory.Sound ∧ Record c.memory c.monotonicTime [0] := by
  obtain ⟨m₁, p, hcode, hg⟩ := hm.malloc hc (by decide) (by decide)
  have hr : Record m₁ p [m₁.field p 0] := Record.of_owns 1 hg.owns
  refine ⟨⟨m₁.setField p 0 0, p, 0, fun _ => 0, 0, [], []⟩, ?_, rfl, ?_, ?_⟩
  · show ((m.malloc 4).map _) = _
    rw [hcode, Option.map_some]
    dsimp only
    rw [if_pos hg.ne_zero]
    rfl
  · exact (hg.sound.setField hr.owns (k := 0) (Nat.le_refl 4)).sound
  · exact hr.setField hg.sound (i := 0) rfl (by simp) 0

/-- After initialisation the list is empty and the clock is at zero. -/
theorem init_refines {m : HeapState} (hm : m.Sound) (hc : ClearInit m) :
    ∃ c, init m = some c ∧
      Refines [] (fun _ => 0) ∅ c (initTimers (fun _ => ⟨⟨0, 0, 0⟩, none⟩) 0) := by
  obtain ⟨c, hcode, hc₀, hsound, hclock⟩ := monotonicTimeInitGlobal_boot hm hc.1
  obtain ⟨m₁, p, hcode', hg⟩ := hsound.malloc (hc.2 c hcode) (by decide) (by decide)
  have hr : Record m₁ p [m₁.field p 0, m₁.field p 4] := Record.of_owns 2 hg.owns
  -- the two stores to the list leave the clock at zero
  have hw := hg.sound.setField (v := 0) hr.owns (k := 0) (Nat.le_add_left 4 4)
  have hr₁ := hr.setField hg.sound (k := 0) (i := 0) rfl (by simp) 0
  have hw₁ := hw.sound.setField (v := 0) hr₁.owns (k := 4) (Nat.le_refl 8)
  have hr₂ := hr₁.setField hw.sound (k := 4) (i := 1) rfl (by simp) 0
  have hne : c.monotonicTime ≠ p := fun heq => hg.not_live (heq ▸ hclock.owns.live)
  have hclock₁ := hclock.keep hsound (hg.keeps _ hclock.owns.live)
  have hclock₂ := hclock₁.keep hg.sound (hw.keeps _ hclock₁.owns.live hne)
  have hclock₃ := hclock₂.keep hw.sound (hw₁.keeps _ hclock₂.owns.live hne)
  have hnull : c.monotonicTime ≠ 0 := by
    obtain ⟨segs, l⟩ := hsound
    exact l.ne_zero hclock.owns.live
  have hlist : c.wakeUpList = 0 := by
    rw [hc₀]
    rfl
  have hinit : init m = some { boot ((m₁.setField p 0 0).setField p 4 0) with
      monotonicTime := c.monotonicTime, wakeUpList := p } := by
    rw [init, hcode, Option.bind_some, wakeUpListInit, if_pos hlist, hcode', Option.map_some]
    dsimp only
    rw [if_pos hg.ne_zero, hc₀]
    rfl
  refine ⟨_, hinit, ?_⟩
  constructor
  case sound => exact hw₁.sound
  case hasMonotonicTime => exact (bne_iff_ne.mpr hnull).symm
  case clock => exact fun _ => hclock₃
  case list => exact hr₂
  case clock_ne => exact hne
  case entries_lt => exact fun _ hd => nomatch hd
  all_goals first | rfl | simp

/-! ### The invariant of a run -/

/-- The heap after the steps `ops` holds the timers of the abstract run. -/
def Sim (ops : List WakeOp) (c : HeapTimers) : Prop :=
  ∃ addr T s, Refines [] addr T c s ∧ RunState 0 ops s ∧
    ∀ a ∈ waiting (ops.count .tick) (additions 0 0 ops), a.entry ∈ T

namespace Sim

variable {ops : List WakeOp} {c : HeapTimers}

theorem init {m : HeapState} (hm : m.Sound) (hc : ClearInit m) :
    ∃ c, HeapTimers.init m = some c ∧ Sim [] c := by
  obtain ⟨c, hcode, href⟩ := init_refines hm hc
  exact ⟨c, hcode, _, _, _, href, RunState.init _ 0, by simp [waiting, additions]⟩

theorem add (h : Sim ops c) (call : WakeUp) (hc : c.memory.Clear 16) :
    ∃ c', c.step (.add call) = some c' ∧ Sim (ops ++ [.add call]) c' := by
  obtain ⟨addr, T, s, href, hrun, hT⟩ := h
  obtain ⟨c', addr', T', hcode, he⟩ := href.add hc call
  refine ⟨c', hcode, addr', T', _, he.refines, hrun.add call, ?_⟩
  have hadds : additions 0 0 (ops ++ [.add call])
      = additions 0 0 ops ++ [⟨call, s.top, ops.count .tick⟩] := by
    rw [additions_append, ← hrun.top_eq, Nat.zero_add]
    rfl
  have hticks : (ops ++ [WakeOp.add call]).count .tick = ops.count .tick := by simp
  rw [hticks, hadds, waiting_concat (n := ops.count .tick) _ rfl]
  refine List.forall_mem_cons.mpr ⟨he.new s.top le_rfl ?_, fun a ha => he.old (hT a ha)⟩
  rw [wakeUpListAdd_eq href.hasWakeUpList]
  exact Nat.lt_succ_self _

theorem tick (h : Sim ops c) (hticks : ops.count .tick + 1 < 2 ^ 32) :
    ∃ c', c.step .tick = some c' ∧ Sim (ops ++ [.tick]) c' := by
  obtain ⟨addr, T, s, href, hrun, hT⟩ := h
  obtain ⟨c', addr', T', s', hcode, habs, hv⟩ := href.rtcTick hrun.queue fun e he => by
    obtain ⟨a, ha, rfl⟩ := List.mem_map.mp he
    exact hT a ha
  obtain ⟨s'', habs', hrun'⟩ := hrun.tick hticks
  obtain rfl := Option.some.inj (habs.symm.trans habs')
  refine ⟨c', hcode, addr', T', s', hv.refines, hrun', ?_⟩
  have hadds : additions 0 0 (ops ++ [.tick]) = additions 0 0 ops := by
    rw [additions_append]
    exact List.append_nil _
  have hcount : (ops ++ [WakeOp.tick]).count .tick = ops.count .tick + 1 := by simp
  rw [hcount, hadds]
  intro a ha
  obtain ⟨ha, hlate⟩ := RunState.mem_waiting.mp ha
  -- an entry that still waits was not due at this tick
  refine hv.old ⟨hT a (RunState.mem_waiting.mpr ⟨ha, by omega⟩), ?_⟩
  rintro ⟨-, hdue⟩
  obtain ⟨hnow, -⟩ := nextTick_eq hrun.hasMonotonicTime
  have hsucc : s.tickCount + 1 = UInt32.ofNat (ops.count .tick + 1) := by
    rw [hrun.tickCount, UInt32.ofNat_add]
    rfl
  rw [hnow, hsucc, hrun.due_iff hticks ha, decide_eq_true_eq] at hdue
  omega

/-- The rest of a run keeps the invariant. -/
theorem run (h : Sim ops c) (rest : List WakeOp) (hc : c.ClearRun rest)
    (hticks : (ops ++ rest).count .tick < 2 ^ 32) :
    ∃ c', c.run rest = some c' ∧ Sim (ops ++ rest) c' := by
  induction rest generalizing ops c with
  | nil => exact ⟨c, rfl, by rwa [List.append_nil]⟩
  | cons op rest ih =>
    have hsplit : ops ++ op :: rest = ops ++ [op] ++ rest := by simp
    rw [hsplit] at hticks ⊢
    have hstep : ∃ c', c.step op = some c' ∧ Sim (ops ++ [op]) c' ∧ c'.ClearRun rest := by
      cases op with
      | add call =>
        obtain ⟨c', hcode, h'⟩ := h.add call hc.1
        exact ⟨c', hcode, h', hc.2 c' hcode⟩
      | tick =>
        rw [List.count_append, List.count_append] at hticks
        obtain ⟨c', hcode, h'⟩ := h.tick (by simp at hticks; omega)
        exact ⟨c', hcode, h', hc c' hcode⟩
    obtain ⟨c₁, hcode, h₁, hc₁⟩ := hstep
    obtain ⟨c', hrun, h'⟩ := ih h₁ hc₁ hticks
    refine ⟨c', ?_, h'⟩
    rw [HeapTimers.run, hcode]
    exact hrun

end Sim

/-! ### Every entry fires once, and on time -/

/-- What the run `ops` promises of the timers after it: the list is that of the entries not due yet,
the latest first, and `entry_count` is its length; the callback of an entry (when it is not `NULL`)
was called once, at the first tick `k` after the addition that has reached the entry's target, if
the run has come that far, and not at all otherwise; and no other callback was called. -/
structure OnTime (ops : List WakeOp) (c : HeapTimers) : Prop where
  list : ∃ ps, c.links.Holds ps ∧
    ps.map c.entryOf = (waiting (ops.count .tick) (additions 0 0 ops)).map (·.entry) ∧
    ps.map c.wakeUpAt = (waiting (ops.count .tick) (additions 0 0 ops)).map (·.toWakeUp) ∧
    c.field c.wakeUpList 4 = UInt32.ofNat ps.length
  fired : ∀ a ∈ additions 0 0 ops, ∀ k, IsLeast {k | a.addedAt < k ∧ a.wakeUpTick.toNat ≤ k} k →
    c.fired.filter (·.entry = a.entry) = if k ≤ ops.count .tick then a.firings k else []
  fired_mem : ∀ x ∈ c.fired, ∃ a ∈ additions 0 0 ops, a.entry = x.entry

theorem Sim.onTime {ops : List WakeOp} {c : HeapTimers} (h : Sim ops c) : OnTime ops c := by
  obtain ⟨addr, T, s, href, hrun, hT⟩ := h
  have hT' : ∀ e ∈ (waiting (ops.count .tick) (additions 0 0 ops)).map (·.entry), e ∈ T := by
    intro e he
    obtain ⟨a, ha, rfl⟩ := List.mem_map.mp he
    exact hT a ha
  obtain ⟨hholds, hof⟩ := href.holds hT' hrun.queue.holds
  refine ⟨⟨_, hholds, hof, ?_, ?_⟩, fun a ha k hk => ?_, ?_⟩
  · rw [List.map_map, List.map_map]
    refine List.map_congr_left fun a ha => ?_
    have he := hT a ha
    show (⟨c.field (addr a.entry) 0, c.field (addr a.entry) 4, c.field (addr a.entry) 8⟩ : WakeUp)
      = a.toWakeUp
    rw [href.wakeUpTick he, href.callback he, href.callbackData he]
    exact hrun.content a (RunState.mem_waiting.mp ha).1
  · rw [href.count, hrun.entryCount, List.length_map, List.length_map]
  · rw [href.fired, hk.unique a.dueAt_isLeast]
    exact hrun.fired a ha
  · rw [href.fired]
    exact hrun.fired_mem

/-! ### A heap with nothing freed -/

section Fresh

variable {F : List (UInt32 × List UInt32)} {addr : ℕ → UInt32} {T : Set ℕ} {c c' : HeapTimers}
  {s : TimerState} {room : ℕ} {g : FreeSegment}

theorem fresh_init {m : HeapState} (hf : Fresh m room g) (hroom : 34 < room) :
    ClearInit m ∧ ∀ c, init m = some c → ∃ g', Fresh c.memory (room - 34) g' := by
  have hclear : m.Clear 4 := hf.clear (by decide) (by decide) (by show 4 + 11 ≤ room; omega)
  obtain ⟨m₁, p, hcode, hg⟩ := Sound.malloc ⟨_, hf.layout⟩ hclear (by decide) (by decide)
  obtain ⟨g₁, hf₁⟩ := hf.malloc (by decide) (by decide) (by show 4 + 11 < room; omega) hcode
  have hf₂ := hf₁.setField hg.owns (k := 0) (Nat.le_refl 4) 0
  have hinit : (boot m).monotonicTimeInitGlobal
      = some { boot (m₁.setField p 0 0) with monotonicTime := p } := by
    show ((m.malloc 4).map _) = _
    rw [hcode, Option.map_some]
    dsimp only
    rw [if_pos hg.ne_zero]
    rfl
  -- the clock's block took at most 15 bytes, and that of the list takes at most 19
  change Fresh _ (room - 15) g₁ at hf₂
  have hclear' : (m₁.setField p 0 0).Clear 8 :=
    hf₂.clear (by decide) (by decide) (by show 8 + 11 ≤ room - 15; omega)
  refine ⟨⟨hclear, fun c hc => ?_⟩, fun c hc => ?_⟩
  · obtain rfl := Option.some.inj (hinit.symm.trans hc)
    exact hclear'
  · obtain ⟨m₂, q, hcode', hg'⟩ := Sound.malloc ⟨_, hf₂.layout⟩ hclear' (by decide) (by decide)
    obtain ⟨g₂, hf₃⟩ :=
      hf₂.malloc (by decide) (by decide) (by show 8 + 11 < room - 15; omega) hcode'
    change Fresh _ (room - 15 - 19) g₂ at hf₃
    have ho := Sound.owns_setField ⟨_, hf₃.layout⟩ hg'.owns (k := 0) (v := 0) (Nat.le_add_left 4 4)
      hg'.owns
    have hf₄ := (hf₃.setField hg'.owns (k := 0) (Nat.le_add_left 4 4) 0).setField ho (k := 4)
      (Nat.le_refl 8) 0
    have hlist : init m = some { boot ((m₂.setField q 0 0).setField q 4 0) with
        monotonicTime := p, wakeUpList := q } := by
      rw [init, hinit, Option.bind_some]
      show ((m₁.setField p 0 0).malloc 8).map _ = _
      rw [hcode', Option.map_some]
      dsimp only
      rw [if_pos hg'.ne_zero]
      rfl
    obtain rfl := Option.some.inj (hlist.symm.trans hc)
    rw [Nat.sub_sub] at hf₄
    exact ⟨g₂, hf₄⟩

/-- `wake_up_list_add` keeps the heap fresh. -/
theorem fresh_add (h : Refines F addr T c s) (hf : Fresh c.memory room g) (hroom : 27 < room)
    (call : WakeUp) (hcode : c.wakeUpListAdd call = some c') :
    ∃ g', Fresh c'.memory (room - 27) g' := by
  have hclear : c.memory.Clear 16 :=
    hf.clear (by decide) (by decide) (by show 16 + 11 ≤ room; omega)
  obtain ⟨m, p, hmalloc, hg⟩ := h.sound.malloc hclear (by decide) (by decide)
  obtain ⟨g', hf'⟩ := hf.malloc (by decide) (by decide) (by exact hroom) hmalloc
  have hlist : m.Owns c.wakeUpList 8 := h.list.owns.keep (hg.keeps _ h.list.owns.live)
  -- the stores are to the new block and to the list
  have hstore : ∀ {m q a r b} {k : UInt32}, Fresh m (room - 27) g' ∧ m.Owns q a ∧ m.Owns r b →
      k.toNat + 4 ≤ a → ∀ v, Fresh (m.setField q k v) (room - 27) g' ∧
        (m.setField q k v).Owns q a ∧ (m.setField q k v).Owns r b := by
    rintro m q a r b k ⟨hf, hq, hr⟩ hk v
    exact ⟨hf.setField hq hk v, Sound.owns_setField ⟨_, hf.layout⟩ hq hk hq,
      Sound.owns_setField ⟨_, hf.layout⟩ hq hk hr⟩
  have h₁ := hstore ⟨hf', hg.owns, hlist⟩ (k := 0) (Nat.le_add_left 4 12) call.wakeUpTick
  have h₂ := hstore h₁ (k := 4) (Nat.le_add_left 8 8) call.callback
  have h₃ := hstore h₂ (k := 8) (Nat.le_add_left 12 4) call.callbackData
  have h₄ := hstore h₃ (k := 12) (Nat.le_refl 16)
    ((((m.setField p 0 call.wakeUpTick).setField p 4 call.callback).setField p 8
      call.callbackData).field c.wakeUpList 0)
  have h₅ := hstore ⟨h₄.1, h₄.2.2, h₄.2.1⟩ (k := 0) (Nat.le_add_left 4 4) p
  have h₆ := fun v => hstore h₅ (k := 4) (Nat.le_refl 8) v
  rw [HeapTimers.wakeUpListAdd, if_neg h.wakeUpList_ne_zero, hmalloc, Option.map_some] at hcode
  dsimp only at hcode
  rw [if_neg hg.ne_zero] at hcode
  obtain rfl := Option.some.inj hcode
  exact ⟨g', (h₆ _).1⟩

/-- A check that frees nothing does nothing. -/
theorem checkLoop_freed (tick : UInt32) (fuel : ℕ) (c : HeapTimers) (l : CheckPtrs)
    (hcode : checkLoop (fun _ => []) tick fuel c l = some c') :
    c' = c ∨ c.freed.length < c'.freed.length := by
  induction fuel generalizing c l with
  | zero =>
    rw [checkLoop] at hcode
    split at hcode
    · exact .inl (Option.some.inj hcode).symm
    · cases hcode
  | succ fuel ih =>
    rw [checkLoop] at hcode
    split at hcode
    · exact .inl (Option.some.inj hcode).symm
    · obtain ⟨⟨c₁, l₁⟩, hvisit, hrest⟩ := Option.bind_eq_some_iff.mp hcode
      have hih := ih c₁ l₁ hrest
      rw [visitEntry] at hvisit
      split at hvisit
      · -- a due entry is freed
        obtain ⟨c₂, hcall, hvisit⟩ := Option.bind_eq_some_iff.mp hvisit
        obtain ⟨c₃, hfree, hvisit⟩ := Option.bind_eq_some_iff.mp hvisit
        obtain ⟨m, -, rfl⟩ := Option.map_eq_some_iff.mp hfree
        have hsame : c₂.freed = c.freed := by
          rw [runCallback] at hcall
          split at hcall <;> obtain rfl := Option.some.inj hcall <;> rfl
        obtain ⟨rfl, rfl⟩ := Prod.mk.inj (Option.some.inj hvisit)
        have hlen : ∀ x, (c₂.freed ++ [x]).length = c.freed.length + 1 := by
          intro x
          rw [List.length_append, hsame]
          rfl
        change _ ∨ (c₂.freed ++ [_]).length < _ at hih
        rw [hlen] at hih
        rcases hih with rfl | hih
        · refine .inr ?_
          show _ < (c₂.freed ++ [_]).length
          rw [hlen]
          exact Nat.lt_succ_self _
        · exact .inr (Nat.lt_of_succ_lt hih)
      · obtain ⟨rfl, rfl⟩ := Prod.mk.inj (Option.some.inj hvisit)
        exact hih

/-- A tick that frees nothing moves the clock and keeps the heap fresh. -/
theorem fresh_tick (h : Refines F addr T c s) (hcode : c.rtcTick (fun _ => []) = some c')
    (hfreed : c'.freed = []) :
    c.freed = [] ∧ ∀ room g, Fresh c.memory room g → Fresh c'.memory room g := by
  obtain ⟨hinc, hwake⟩ := h.increment
  rw [rtcTick, wakeUpListCheckAndExecute, if_neg hinc.wakeUpList_ne_zero] at hcode
  rcases checkLoop_freed _ _ _ _ hcode with rfl | hlt
  · rw [monotonicTimeIncrementGlobal] at hfreed ⊢
    split
    · rename_i hnull
      rw [if_pos hnull] at hfreed
      exact ⟨hfreed, fun _ _ hf => hf.setField (h.clock hnull).owns (k := 0) (Nat.le_refl 4) _⟩
    · rename_i hnull
      rw [if_neg hnull] at hfreed
      exact ⟨hfreed, fun _ _ hf => hf⟩
  · rw [hfreed] at hlt
    exact absurd hlt (Nat.not_lt_zero _)

/-- Nothing that the run has added is due when it adds an entry. -/
def AddsFirst (ops : List WakeOp) : Prop :=
  ∀ k < ops.length, ops[k]? ≠ some .tick →
    ∀ a ∈ additions 0 0 (ops.take k), (ops.take k).count .tick < a.dueAt

/-- As long as no entry was due before the last addition, the blocks of the run are clear. -/
theorem Sim.clearRun {ops : List WakeOp} (h : Sim ops c)
    (hf : c.freed = [] → ∃ g, Fresh c.memory room g) (rest : List WakeOp)
    (hroom : 27 * rest.countP (· ≠ .tick) < room) (hticks : (ops ++ rest).count .tick < 2 ^ 32)
    (hadds : AddsFirst (ops ++ rest)) : c.ClearRun rest := by
  induction rest generalizing ops c room with
  | nil => trivial
  | cons op rest ih =>
    have hsplit : ops ++ op :: rest = ops ++ [op] ++ rest := by simp
    cases op with
    | add call =>
      -- nothing was due yet, so nothing was freed
      have hfreed : c.freed = [] := by
        obtain ⟨addr, T, s, href, hrun, -⟩ := h
        rw [href.freed]
        apply List.eq_nil_iff_forall_not_mem.mpr
        intro e he
        obtain ⟨a, ha, -, hdue⟩ := hrun.freed_mem e he
        have hlate := hadds ops.length (by simp) (by simp)
        rw [List.take_left] at hlate
        exact absurd (hlate a ha) (not_lt.mpr hdue)
      rw [List.countP_cons_of_pos (by simp)] at hroom
      obtain ⟨g, hf⟩ := hf hfreed
      have hclear : c.memory.Clear 16 :=
        hf.clear (by decide) (by decide) (by show 16 + 11 ≤ room; omega)
      refine ⟨hclear, fun c' hcode => ?_⟩
      obtain ⟨c₁, hcode₁, h₁⟩ := h.add call hclear
      obtain rfl := Option.some.inj (hcode₁.symm.trans hcode)
      obtain ⟨addr, T, s, href, -, -⟩ := h
      rw [hsplit] at hticks hadds
      exact ih h₁ (fun _ => fresh_add href hf (by omega) call hcode) (by omega) hticks hadds
    | tick =>
      intro c' hcode
      rw [List.countP_cons_of_neg (by simp)] at hroom
      rw [hsplit] at hticks hadds
      obtain ⟨c₁, hcode₁, h₁⟩ := h.tick (by simp [List.count_append] at hticks ⊢; omega)
      obtain rfl := Option.some.inj (hcode₁.symm.trans hcode)
      obtain ⟨addr, T, s, href, -, -⟩ := h
      refine ih h₁ (fun hfreed => ?_) hroom hticks hadds
      obtain ⟨hbefore, hkeep⟩ := fresh_tick href hcode hfreed
      obtain ⟨g, hf⟩ := hf hbefore
      exact ⟨g, hkeep _ _ hf⟩

/-- In a heap with nothing freed and room for the entries, the blocks of a run are clear when no
entry is due before the last addition. -/
theorem clearRun_of_fresh {m : HeapState} {ops : List WakeOp} (hf : Fresh m room g)
    (hroom : 34 + 27 * ops.countP (· ≠ .tick) < room) (hticks : ops.count .tick < 2 ^ 32)
    (hadds : AddsFirst ops) : ClearInit m ∧ ∀ c₀, init m = some c₀ → c₀.ClearRun ops := by
  obtain ⟨hinit, hfresh⟩ := fresh_init hf (by omega)
  refine ⟨hinit, fun c₀ hcode => ?_⟩
  obtain ⟨c, hcode', h⟩ := Sim.init ⟨_, hf.layout⟩ hinit
  obtain rfl := Option.some.inj (hcode'.symm.trans hcode)
  exact h.clearRun (fun _ => hfresh c hcode) ops (by omega) hticks hadds

end Fresh

end HeapTimers

/-- **Every entry fires exactly once, and on time**, in every run of fewer than `2^32` ticks whose
blocks are clear. -/
theorem wakeUpRun_exactly_once (m : HeapState) (hm : m.Sound) (hinit : HeapTimers.ClearInit m)
    (ops : List WakeOp) (hticks : ops.count .tick < 2 ^ 32) :
    ∃ c₀, HeapTimers.init m = some c₀ ∧
      (c₀.ClearRun ops → ∃ c, c₀.run ops = some c ∧ c.OnTime ops) := by
  obtain ⟨c₀, hcode, h₀⟩ := HeapTimers.Sim.init hm hinit
  refine ⟨c₀, hcode, fun hc => ?_⟩
  obtain ⟨c, hrun, h⟩ := h₀.run ops hc (by simpa using hticks)
  exact ⟨c, hrun, h.onTime⟩

theorem wakeUpRun_exactly_once_emptyMemory :
    ∃ c₀ c, HeapTimers.init emptyMemory = some c₀ ∧
      c₀.run [.add ⟨2, 7, 0⟩, .tick, .add ⟨2, 8, 1⟩, .tick, .tick] = some c ∧
      c.OnTime [.add ⟨2, 7, 0⟩, .tick, .add ⟨2, 8, 1⟩, .tick, .tick] := by
  have hfirst : HeapTimers.AddsFirst [.add ⟨2, 7, 0⟩, .tick, .add ⟨2, 8, 1⟩, .tick, .tick] := by
    rw [HeapTimers.AddsFirst]
    decide
  obtain ⟨hinit, hclear⟩ :=
    HeapTimers.clearRun_of_fresh fresh_emptyMemory (by decide) (by decide) hfirst
  obtain ⟨c₀, hcode, hrun⟩ := wakeUpRun_exactly_once emptyMemory ⟨_, fresh_emptyMemory.layout⟩ hinit
    [.add ⟨2, 7, 0⟩, .tick, .add ⟨2, 8, 1⟩, .tick, .tick] (by decide)
  obtain ⟨c, hrun, hon⟩ := hrun (hclear c₀ hcode)
  exact ⟨c₀, c, hcode, hrun, hon⟩

/-- Three entries, of which two are freed by the ticks that follow.  The fourth takes the block of
the third, and its `next` is the size word of the second. -/
def reusingRun : List WakeOp :=
  [.add ⟨5, 1, 0⟩, .add ⟨2, 1, 0⟩, .add ⟨1, 1, 0⟩, .tick, .add ⟨100, 1, 0⟩, .tick, .tick, .tick,
    .tick]

/-- The first entry of `reusingRun` is lost: five ticks have come and its callback was not called,
although every call of `malloc` has succeeded. -/
theorem not_onTime_reusingRun :
    ∃ c₀ c, emptyMemory.Sound ∧ HeapTimers.ClearInit emptyMemory ∧
      HeapTimers.init emptyMemory = some c₀ ∧ c₀.run reusingRun = some c ∧ c.added = 4 ∧
      ¬ c.OnTime reusingRun := by
  have hcode : ((HeapTimers.init emptyMemory).bind (·.run reusingRun)).map
      (fun c => (c.added, c.fired)) = some (4, [⟨2, 1, 0, 1⟩, ⟨1, 1, 0, 2⟩]) := by
    decide +kernel
  obtain ⟨c, hrun, hfired⟩ := Option.map_eq_some_iff.mp hcode
  obtain ⟨c₀, hinit, hrun⟩ := Option.bind_eq_some_iff.mp hrun
  obtain ⟨hadded, hfired⟩ := Prod.mk.inj hfired
  refine ⟨c₀, c, ⟨_, fresh_emptyMemory.layout⟩,
    (HeapTimers.fresh_init fresh_emptyMemory (by decide)).1, hinit, hrun, hadded, fun hon => ?_⟩
  -- the entry with target 5 has the number 0
  have hlost := hon.fired ⟨⟨5, 1, 0⟩, 0, 0⟩ (by decide) 5 ⟨⟨by decide, by decide⟩, fun k hk => hk.2⟩
  rw [hfired] at hlost
  exact absurd hlost (by decide)

end Shogun.Rtc
