import Shogun.Rtc.Clock
import Shogun.Rtc.Equiv.Holding
import Shogun.Rtc.Equiv.InitRtc
import Shogun.Util.ByteMask
import Shogun.Util.Loop

/-!
# Which ticks the system clock counts

* `Acknowledges`: the handler gets to read register C.
* `acknowledge_spec`: it clears `IRQF` if and only if it gets there.
* `Ticking`: the counters, the timers and the dots printed are those of the calls of the handler.
* `clock_counts`: as long as every interrupt is acknowledged the clock counts every periodic event,
  and after the first that is not it counts no event any more.
-/

namespace Shogun.Rtc

open Port Memory

/-! ### The device -/

namespace Cmos

variable (c : Cmos)

theorem irqf_periodicEvent : c.periodicEvent.irqf = (c.irqf || c.periodicEnabled) := by
  unfold irqf periodicEvent
  dsimp only
  rw [Function.update_self]
  cases hpie : c.periodicEnabled with
  | true =>
    rw [if_pos rfl, Bool.or_true]
    exact bne_iff_ne.mpr (UInt8.or_and_ne_zero (by decide) _)
  | false =>
    rw [if_neg Bool.false_ne_true, Bool.or_false, UInt8.or_and_of_disjoint (by decide)]

/-- The enable bit is in another register than the flags. -/
theorem periodicEnabled_update (value : UInt8) (index : UInt8) :
    (⟨index, Function.update c.registers cmosRegC value⟩ : Cmos).periodicEnabled
      = c.periodicEnabled := by
  unfold periodicEnabled
  dsimp only
  rw [Function.update_of_ne (by decide)]

theorem irqf_clearFlags : c.clearFlags.irqf = false := by
  unfold irqf clearFlags
  dsimp only
  rw [Function.update_self]
  rfl

/-- Only the contents of register C decide whether an interrupt is requested. -/
theorem irqf_congr {c c' : Cmos} (h : c'.registers cmosRegC = c.registers cmosRegC) :
    c'.irqf = c.irqf := by
  unfold irqf
  rw [h]

end Cmos

/-! ### Acknowledging -/

/-- The handler gets to read register C: the driver's handle of the data port is still that of the
port, and so is the one of the control port, unless register C is selected already; without a driver
both ports are free and there is a slot for each. -/
def ClockState.Acknowledges (s : ClockState) : Prop :=
  match s.systemRtcInstance with
  | some rtc =>
    (s.registry.portRegistry rtc.dataPort).port = cmosDataPort ∧
      ((s.registry.portRegistry rtc.controlPort).port = cmosControlPort ∨ s.cmos.index = cmosRegC)
  | none =>
    isPortInUse s.registry cmosControlPort = false ∧ isPortInUse s.registry cmosDataPort = false ∧
      ∃ i j, i ≠ j ∧ (s.registry.portRegistry i).inUse = false ∧
        (s.registry.portRegistry j).inUse = false

/-- What a read of a port does to the device. -/
theorem rtcBus_inB (c : Cmos) (port : UInt16) :
    (rtcBus.inB c port).2
      = if port = cmosDataPort ∧ c.index = cmosRegC then c.clearFlags else c := by
  unfold rtcBus
  dsimp only
  by_cases hport : port = cmosDataPort
  · rw [if_pos hport, ite_and, if_pos hport]
  · rw [if_neg hport, ite_and, if_neg hport]

/-- A read of register C, through handles of any ports: it clears the flags if it gets there, and
leaves register C alone if not. -/
theorem clearRtcInterrupt_spec (r : Registry) (rtc : RtcPorts) (c : Cmos) :
    ((r.portRegistry rtc.dataPort).port = cmosDataPort ∧
        ((r.portRegistry rtc.controlPort).port = cmosControlPort ∨ c.index = cmosRegC) →
      rtc.clearRtcInterrupt r c = ⟨cmosRegC, c.clearFlags.registers⟩) ∧
    (¬ ((r.portRegistry rtc.dataPort).port = cmosDataPort ∧
        ((r.portRegistry rtc.controlPort).port = cmosControlPort ∨ c.index = cmosRegC)) →
      (rtc.clearRtcInterrupt r c).registers cmosRegC = c.registers cmosRegC) := by
  have hselect : regSelect rtc.driver cmosRegC &&& 0x7F = cmosRegC := by
    unfold regSelect RtcPorts.driver
    cases rtc.nmiEnabled <;> rfl
  have hports : cmosDataPort ≠ cmosControlPort := by decide
  unfold RtcPorts.clearRtcInterrupt RtcPorts.readCmosRegister readPortB writePortB
  dsimp only
  rw [rtcBus_inB]
  generalize (r.portRegistry rtc.controlPort).port = control
  generalize (r.portRegistry rtc.dataPort).port = data
  -- the select leaves register C alone
  have hout : (rtcBus.outB c control (regSelect rtc.driver cmosRegC)).registers cmosRegC
      = c.registers cmosRegC := by
    show (if control = cmosControlPort then _
      else if control = cmosDataPort then _ else c).registers cmosRegC = _
    split_ifs with hcontrol hdata hindex
    · rfl
    · rfl
    · exact Function.update_of_ne (Ne.symm hindex) _ _
    · rfl
  constructor
  · rintro ⟨rfl, hor⟩
    have hselected : rtcBus.outB c control (regSelect rtc.driver cmosRegC)
        = ⟨cmosRegC, c.registers⟩ := by
      show (if control = cmosControlPort then _ else if control = cmosDataPort then _ else c) = _
      split_ifs with hcontrol hdata hindex
      · rw [Cmos.writeControl, hselect]
      · rw [← hindex]
      · exact absurd (hor.resolve_left hcontrol) hindex
      · rw [← hor.resolve_left hcontrol]
    rw [hselected, if_pos ⟨rfl, rfl⟩]
    rfl
  · intro hnot
    rw [if_neg]
    · exact hout
    rintro ⟨hdata, hindex⟩
    apply hnot
    refine ⟨hdata, ?_⟩
    by_cases hcontrol : control = cmosControlPort
    · exact .inl hcontrol
    · right
      rw [← hindex]
      show c.index = (if control = cmosControlPort then _
        else if control = cmosDataPort then _ else c).index
      rw [if_neg hcontrol]
      split_ifs <;> rfl

/-- What `acknowledge_rtc_interrupt` does: it reads register C if it gets both ports. -/
theorem acknowledgeRtcInterrupt_spec {r : Registry} (h : r.Valid) (c : Cmos) :
    (acknowledgeRtcInterrupt rtcBus r c).1.Valid ∧
    (isPortInUse r cmosControlPort = false ∧ isPortInUse r cmosDataPort = false ∧
        (∃ i j, i ≠ j ∧ (r.portRegistry i).inUse = false ∧ (r.portRegistry j).inUse = false) →
      (acknowledgeRtcInterrupt rtcBus r c).2 = ⟨cmosRegC, c.clearFlags.registers⟩) ∧
    (¬ (isPortInUse r cmosControlPort = false ∧ isPortInUse r cmosDataPort = false ∧
        ∃ i j, i ≠ j ∧ (r.portRegistry i).inUse = false ∧ (r.portRegistry j).inUse = false) →
      (acknowledgeRtcInterrupt rtcBus r c).2 = c) := by
  unfold acknowledgeRtcInterrupt
  rcases requestPort_cases h cmosControlPort with
    ⟨hused, hr⟩ | ⟨-, hfull, hr⟩ | ⟨hcontrol, i, hi, hr⟩
  · rw [hr]
    exact ⟨h.ready, fun hfree => absurd (hfree.1.symm.trans hused) Bool.false_ne_true, fun _ => rfl⟩
  · rw [hr]
    refine ⟨h.ready, ?_, fun _ => rfl⟩
    rintro ⟨-, -, i, j, -, hi, -⟩
    exact absurd (hi.symm.trans (hfull i)) Bool.false_ne_true
  · -- the control port is granted, and takes one slot
    have hg := granted_of_requestPort h hr
    have hother : ∀ j, j ≠ i → ((r.ready.fill i cmosControlPort).portRegistry j).inUse
        = (r.portRegistry j).inUse := by
      intro j hji
      rw [fill_of_ne _ hji, h.ready_inUse]
    rw [hr]
    dsimp only
    rcases requestPort_cases hg.valid cmosDataPort with
      ⟨hused, hr'⟩ | ⟨-, hfull, hr'⟩ | ⟨hdata, j, hj, hr'⟩
    · rw [hr']
      dsimp only
      refine ⟨hg.valid.ready.releasePort _, ?_, fun _ => rfl⟩
      rintro ⟨-, hfree, -⟩
      have hused' := ((hg.inUse cmosDataPort).mp hused).resolve_left (by decide)
      exact absurd (hfree.symm.trans hused') Bool.false_ne_true
    · rw [hr']
      dsimp only
      refine ⟨hg.valid.ready.releasePort _, ?_, fun _ => rfl⟩
      rintro ⟨-, -, k, l, hkl, hk, hl⟩
      -- one of two free slots is left
      by_cases hki : k = i
      · have hli : l ≠ i := by
          rintro rfl
          exact hkl hki
        exact absurd (hl.symm.trans ((hother l hli).symm.trans (hfull l))) Bool.false_ne_true
      · exact absurd (hk.symm.trans ((hother k hki).symm.trans (hfull k))) Bool.false_ne_true
    · have hg' := granted_of_requestPort hg.valid hr'
      obtain ⟨hij, hslot, hslot'⟩ := slots_of_granted hg hg'
      rw [hr']
      dsimp only
      refine ⟨(hg'.valid.releasePort _).releasePort _, ?_, ?_⟩
      · intro _
        unfold writePortB readPortB
        dsimp only
        rw [hslot, hslot']
        rfl
      · intro hnot
        refine absurd ⟨hcontrol, ?_, i, j, hij, hi, ?_⟩ hnot
        · exact (unused_of_granted hg hg').2
        · rw [← hother j hij.symm, hj]

/-- `t` is `s` after its interrupt was acknowledged, or was to be. -/
structure Acknowledged (s t : ClockState) : Prop where
  valid : t.registry.Valid
  other : t = { s with registry := t.registry, cmos := t.cmos }
  flags : s.Acknowledges → t.cmos = ⟨cmosRegC, s.cmos.clearFlags.registers⟩
  kept : ¬ s.Acknowledges → t.cmos.registers cmosRegC = s.cmos.registers cmosRegC

theorem acknowledge_spec {s : ClockState} (h : s.registry.Valid) :
    Acknowledged s s.acknowledge := by
  obtain ⟨registry, cmos, instance', systemTickCount, rtcInterruptCount, timers, output,
    handled⟩ := s
  cases instance' with
  | some rtc =>
    obtain ⟨hflags, hkept⟩ := clearRtcInterrupt_spec registry rtc cmos
    exact ⟨h, rfl, hflags, hkept⟩
  | none =>
    obtain ⟨hvalid, hflags, hkept⟩ := acknowledgeRtcInterrupt_spec h cmos
    exact ⟨hvalid, rfl, hflags, fun hnot => congrArg (Cmos.registers · cmosRegC) (hkept hnot)⟩

/-! ### The handler -/

/-- The dots printed in `n` ticks from tick `t` on. -/
def dotsPrinted (t n : ℕ) : ℕ := (t + n) / 256 - t / 256

theorem dotsPrinted_succ (t n : ℕ) :
    dotsPrinted t (n + 1) = dotsPrinted t n + if (t + (n + 1)) % 256 = 0 then 1 else 0 := by
  unfold dotsPrinted
  split_ifs <;> omega

/-- `2^32` ticks are a whole number of seconds, so that a wrap of the counter does not matter. -/
theorem tick_mod_iff (t : UInt32) (n : ℕ) :
    (t + UInt32.ofNat n + 1) % 256 = 0 ↔ (t.toNat + (n + 1)) % 256 = 0 := by
  rw [← UInt32.toNat_inj, UInt32.toNat_mod, UInt32.toNat_add, UInt32.toNat_add, UInt32.toNat_ofNat',
    show (256 : UInt32).toNat = 256 from rfl, show (1 : UInt32).toNat = 1 from rfl,
    show (0 : UInt32).toNat = 0 from rfl]
  omega

/-- `t` is `s` after a call of the handler. -/
structure Handled (s t : ClockState) : Prop where
  valid : t.registry.Valid
  systemTickCount : t.systemTickCount = s.systemTickCount + 1
  rtcInterruptCount : t.rtcInterruptCount = s.rtcInterruptCount + 1
  systemRtcInstance : t.systemRtcInstance = s.systemRtcInstance
  timers : s.timers.rtcTick (fun _ => []) = some t.timers
  output : t.output
    = s.output ++ if (s.systemTickCount + 1) % 256 = 0 then ascii "." else []
  handled : t.handled = s.handled + 1
  flags : s.Acknowledges → t.cmos = ⟨cmosRegC, s.cmos.clearFlags.registers⟩
  kept : ¬ s.Acknowledges → t.cmos.registers cmosRegC = s.cmos.registers cmosRegC

theorem rtcInterruptHandler_spec {s : ClockState} {timers : HeapTimers} (h : s.registry.Valid)
    (htick : s.timers.rtcTick (fun _ => []) = some timers) :
    ∃ t, rtcInterruptHandler s = some t ∧ Handled s t := by
  have hack := acknowledge_spec (s := { s with
    systemTickCount := s.systemTickCount + 1
    timers := s.timers.monotonicTimeIncrementGlobal }) h
  unfold rtcInterruptHandler
  dsimp only
  generalize ClockState.acknowledge _ = u at hack
  rw [hack.other]
  dsimp only
  rw [show s.timers.monotonicTimeIncrementGlobal.wakeUpListCheckAndExecute (fun _ => [])
    = some timers from htick]
  refine ⟨_, rfl, ?_⟩
  by_cases hdot : (s.systemTickCount + 1) % 256 = 0
  · dsimp only
    rw [if_pos (beq_iff_eq.mpr hdot)]
    exact ⟨hack.valid, rfl, rfl, rfl, htick, by rw [if_pos hdot], rfl, hack.flags, hack.kept⟩
  · dsimp only
    rw [if_neg (by rwa [beq_iff_eq])]
    exact ⟨hack.valid, rfl, rfl, rfl, htick, by rw [if_neg hdot, List.append_nil], rfl, hack.flags,
      hack.kept⟩

/-! ### Runs -/

/-- The state `s` after some steps from `s₀`, of which `wakeOps` are those on the timers. -/
structure Ticking (s₀ : ClockState) (wakeOps : List WakeOp) (s : ClockState) : Prop where
  valid : s.registry.Valid
  systemTickCount : s.systemTickCount = s₀.systemTickCount + UInt32.ofNat s.handled
  rtcInterruptCount : s.rtcInterruptCount = s₀.rtcInterruptCount + UInt32.ofNat s.handled
  timers : s₀.timers.run wakeOps = some s.timers
  holding : ∃ a : TimerState, Holding [] s.timers a ∧ a.Running (UInt32.ofNat s.handled)
  output : s.output
    = s₀.output ++ List.replicate (dotsPrinted s₀.systemTickCount.toNat s.handled) 46
  enabled : s.cmos.irqf = false → s.cmos.periodicEnabled = true

theorem run_concat {s t : ClockState} {ops : List ClockOp} (h : s.run ops = some t) (op : ClockOp) :
    s.run (ops ++ [op]) = t.step op :=
  (foldlM_append_of_eq_some h [op]).trans (bind_pure (t.step op))

theorem timers_run_concat {c c' : HeapTimers} {ops : List WakeOp} (h : c.run ops = some c')
    (op : WakeOp) : c.run (ops ++ [op]) = c'.step op := by
  induction ops generalizing c with
  | nil =>
    obtain rfl := Option.some.inj h
    show (c.step op).bind some = _
    cases c.step op <;> rfl
  | cons op' ops ih =>
    obtain ⟨c₁, hstep, hrest⟩ := Option.bind_eq_some_iff.mp h
    rw [List.cons_append, HeapTimers.run, hstep]
    exact ih hrest

/-- While an interrupt is requested a periodic event does not request another. -/
theorem event_of_irqf {s : ClockState} (h : s.cmos.irqf = true) :
    s.event = some { s with cmos := s.cmos.periodicEvent } := by
  unfold ClockState.event
  dsimp only
  rw [h, Bool.not_true, Bool.and_false, if_neg Bool.false_ne_true]

/-- A request of an interrupt calls the handler. -/
theorem event_of_clear {s : ClockState} (h : s.cmos.irqf = false)
    (henabled : s.cmos.periodicEnabled = true) :
    s.event = rtcInterruptHandler { s with cmos := s.cmos.periodicEvent } := by
  unfold ClockState.event
  dsimp only
  rw [Cmos.irqf_periodicEvent, h, henabled]
  rfl

namespace Ticking

variable {s₀ s t : ClockState} {wakeOps : List WakeOp}

/-- `wake_up_list_add`, when the block it gets is clear or it gets none. -/
theorem add (h : Ticking s₀ wakeOps s)
    (hc : s.timers.memory.Clear 16 ∨ s.timers.memory.Full 16) (call : WakeUp) :
    ∃ t, s.step (.add call) = some t ∧ Ticking s₀ (wakeOps ++ [.add call]) t ∧
      t.handled = s.handled ∧ t.cmos = s.cmos := by
  obtain ⟨a, ha, hr⟩ := h.holding
  obtain ⟨timers, allocated, hcode, ha'⟩ := ha.add hc call
  refine ⟨{ s with timers := timers }, ?_, ?_, rfl, rfl⟩
  · rw [ClockState.step, hcode]
    rfl
  · exact
      { h with
        timers := (timers_run_concat h.timers _).trans hcode
        holding := ⟨_, ha', hr.add _⟩ }

theorem port (h : Ticking s₀ wakeOps s) (op : PortOp) :
    Ticking s₀ wakeOps { s with registry := s.registry.step op } :=
  { h with valid := h.valid.step op }

/-- A periodic event that requests no interrupt. -/
theorem eventIgnored (h : Ticking s₀ wakeOps s) (hirqf : s.cmos.irqf = true) :
    Ticking s₀ wakeOps { s with cmos := s.cmos.periodicEvent } :=
  { h with
    enabled := by
      intro hclear
      rw [Cmos.irqf_periodicEvent, hirqf, Bool.true_or] at hclear
      exact absurd hclear.symm Bool.false_ne_true }

/-- One that does. -/
theorem eventHandled (h : Ticking s₀ wakeOps s) (hclear : s.cmos.irqf = false) :
    ∃ t, s.event = some t ∧ Ticking s₀ (wakeOps ++ [.tick]) t ∧ t.handled = s.handled + 1 ∧
      (t.cmos.irqf = false ↔ s.Acknowledges) := by
  obtain ⟨a, ha, hr⟩ := h.holding
  obtain ⟨timers, a', htick, habs, ha'⟩ := ha.tick
  have henabled := h.enabled hclear
  obtain ⟨t, hcode, ht⟩ := rtcInterruptHandler_spec
    (s := { s with cmos := s.cmos.periodicEvent }) h.valid htick
  have htimers := ht.timers
  obtain rfl : timers = t.timers := Option.some.inj (htick.symm.trans htimers)
  have hsucc : t.handled = s.handled + 1 := ht.handled
  have hack : ClockState.Acknowledges { s with cmos := s.cmos.periodicEvent } ↔ s.Acknowledges :=
    Iff.rfl
  have hcleared : s.Acknowledges → t.cmos.irqf = false ∧ t.cmos.periodicEnabled = true := by
    intro hs
    rw [ht.flags (hack.mpr hs)]
    refine ⟨s.cmos.periodicEvent.irqf_clearFlags, ?_⟩
    rw [Cmos.clearFlags, Cmos.periodicEnabled_update, Cmos.periodicEvent,
      Cmos.periodicEnabled_update]
    exact henabled
  have hkept : ¬ s.Acknowledges → t.cmos.irqf = true := by
    intro hs
    rw [Cmos.irqf_congr (ht.kept (fun hs' => hs (hack.mp hs'))), Cmos.irqf_periodicEvent, henabled,
      Bool.or_true]
  refine ⟨t, (event_of_clear hclear henabled).trans hcode, ?_, hsucc, ?_⟩
  · constructor
    · exact ht.valid
    · rw [ht.systemTickCount, hsucc, UInt32.ofNat_add, ← UInt32.add_assoc, ← h.systemTickCount]
      rfl
    · rw [ht.rtcInterruptCount, hsucc, UInt32.ofNat_add, ← UInt32.add_assoc, ← h.rtcInterruptCount]
      rfl
    · exact (timers_run_concat h.timers .tick).trans htimers
    · rw [hsucc, UInt32.ofNat_add]
      exact ⟨a', ha', (hr.tick habs).2⟩
    · rw [ht.output, hsucc, dotsPrinted_succ, List.replicate_add, ← List.append_assoc, ← h.output]
      dsimp only
      rw [h.systemTickCount]
      congr 1
      by_cases hdot : (s₀.systemTickCount.toNat + (s.handled + 1)) % 256 = 0
      · rw [if_pos ((tick_mod_iff _ _).mpr hdot), if_pos hdot]
        rfl
      · rw [if_neg (fun hdot' => hdot ((tick_mod_iff _ _).mp hdot')), if_neg hdot]
        rfl
    · intro hirqf
      by_cases hs : s.Acknowledges
      · exact (hcleared hs).2
      · exact absurd (hirqf.symm.trans (hkept hs)) Bool.false_ne_true
  · constructor
    · intro hirqf
      by_contra hs
      exact absurd (hirqf.symm.trans (hkept hs)) Bool.false_ne_true
    · exact fun hs => (hcleared hs).1

end Ticking

/-- The step on the timers that a step of the clock is, if its interrupt is handled. -/
def ClockOp.wakeOp : ClockOp → Option WakeOp
  | .event => some .tick
  | .add call => some (.add call)
  | .port _ => none

/-- Every periodic event of a run finds a state in which its interrupt will be acknowledged. -/
def AllAcknowledged (s₀ : ClockState) (ops : List ClockOp) : Prop :=
  ∀ pre post t, ops = pre ++ .event :: post → s₀.run pre = some t → t.Acknowledges

theorem AllAcknowledged.init {s₀ : ClockState} {ops : List ClockOp} {op : ClockOp}
    (h : AllAcknowledged s₀ (ops ++ [op])) : AllAcknowledged s₀ ops := by
  rintro pre post t rfl hrun
  exact h pre (post ++ [op]) t (by simp) hrun

/-- Every call of `wake_up_list_add` of a run gets a clear block, or none. -/
def AddsClear (s₀ : ClockState) (ops : List ClockOp) : Prop :=
  ∀ pre call post t, ops = pre ++ .add call :: post → s₀.run pre = some t →
    t.timers.memory.Clear 16 ∨ t.timers.memory.Full 16

theorem AddsClear.init {s₀ : ClockState} {ops rest : List ClockOp}
    (h : AddsClear s₀ (ops ++ rest)) : AddsClear s₀ ops := by
  rintro pre call post t rfl hrun
  exact h pre call (post ++ rest) t (by simp) hrun

/-- What holds of every run. -/
theorem exists_ticking {s₀ : ClockState} (h : Ticking s₀ [] s₀) (hclear : s₀.cmos.irqf = false)
    (hhandled : s₀.handled = 0) (ops : List ClockOp) (hadds : AddsClear s₀ ops) :
    ∃ s wakeOps, s₀.run ops = some s ∧ Ticking s₀ wakeOps s ∧
      (AllAcknowledged s₀ ops → s.cmos.irqf = false ∧ s.handled = ops.count .event ∧
        wakeOps = ops.filterMap ClockOp.wakeOp) := by
  induction ops using List.reverseRecOn with
  | nil => exact ⟨s₀, [], rfl, h, fun _ => ⟨hclear, hhandled, rfl⟩⟩
  | append_singleton ops op ih =>
    obtain ⟨s, wakeOps, hrun, hs, hall⟩ := ih hadds.init
    rw [run_concat hrun, List.count_append, List.filterMap_append]
    cases op with
    | add call =>
      obtain ⟨t, hcode, ht, hhandled', hcmos⟩ := hs.add (hadds ops call [] s rfl hrun) call
      refine ⟨t, _, hcode, ht, fun hack => ?_⟩
      obtain ⟨hirqf, hcount, hops⟩ := hall hack.init
      rw [hcmos, hhandled']
      exact ⟨hirqf, hcount, by rw [hops]; rfl⟩
    | port op =>
      refine ⟨_, _, rfl, hs.port op, fun hack => ?_⟩
      obtain ⟨hirqf, hcount, hops⟩ := hall hack.init
      exact ⟨hirqf, hcount, by rw [hops]; exact (List.append_nil _).symm⟩
    | event =>
      cases hirqf : s.cmos.irqf with
      | true =>
        refine ⟨_, _, event_of_irqf hirqf, hs.eventIgnored hirqf, fun hack => ?_⟩
        exact absurd ((hall hack.init).1.symm.trans hirqf) Bool.false_ne_true
      | false =>
        obtain ⟨t, hcode, ht, hsucc, hiff⟩ := hs.eventHandled hirqf
        refine ⟨t, _, hcode, ht, fun hack => ?_⟩
        obtain ⟨-, hcount, hops⟩ := hall hack.init
        refine ⟨hiff.mpr (hack ops [] s rfl hrun), ?_, by rw [hops]; rfl⟩
        rw [hsucc, hcount]
        rfl

/-- While an interrupt is requested that was not acknowledged, no call of the handler comes. -/
theorem handled_of_irqf {s t : ClockState} (h : s.cmos.irqf = true) {ops : List ClockOp}
    (hrun : s.run ops = some t) : t.handled = s.handled := by
  induction ops generalizing s with
  | nil => rw [← Option.some.inj hrun]
  | cons op ops ih =>
    obtain ⟨s₁, hstep, (hrest : s₁.run ops = some t)⟩ := Option.bind_eq_some_iff.mp hrun
    cases op with
    | add call =>
      obtain ⟨timers, -, rfl⟩ := Option.map_eq_some_iff.mp hstep
      exact ih (s := { s with timers := timers }) h hrest
    | port op =>
      obtain rfl := Option.some.inj hstep
      exact ih (s := { s with registry := s.registry.step op }) h hrest
    | event =>
      obtain rfl := Option.some.inj ((event_of_irqf h).symm.trans hstep)
      exact ih (s := { s with cmos := s.cmos.periodicEvent })
        (by rw [Cmos.irqf_periodicEvent, h, Bool.true_or]) hrest

/-- **The clock counts every tick until one is not acknowledged, and none after that.**  From every
port registry that calls can lead to, with the timers initialised in a sound heap, the RTC's
periodic interrupt enabled and none requested, and for every sequence of periodic events, calls on
the port registry and calls of `wake_up_list_add` that get clear blocks or none: the three tick
counters and the dots printed are those of the calls of the handler; if every event finds the
handler able to read register C, every event is counted and the timers are those of the run of their
own steps; and behind the first event that does not, no event is counted any more. -/
theorem clock_counts (ports : List PortOp) (c : Cmos) (systemRtcInstance : Option RtcPorts)
    (t₀ n₀ : UInt32) (m : HeapState) (hm : m.Sound) (hinit : HeapTimers.ClearInit m)
    (henabled : c.periodicEnabled = true) (hclear : c.irqf = false) (ops : List ClockOp) :
    ∃ timers, HeapTimers.init m = some timers ∧
      let s₀ : ClockState :=
        ⟨Registry.static.run ports, c, systemRtcInstance, t₀, n₀, timers, [], 0⟩
      AddsClear s₀ ops → ∃ s, s₀.run ops = some s ∧
        s.systemTickCount = t₀ + UInt32.ofNat s.handled ∧
        s.rtcInterruptCount = n₀ + UInt32.ofNat s.handled ∧
        s.timers.monotonicTimeGetTicksGlobal = UInt32.ofNat s.handled ∧
        s.output = List.replicate ((t₀.toNat + s.handled) / 256 - t₀.toNat / 256) 46 ∧
        (AllAcknowledged s₀ ops → s.handled = ops.count .event ∧
          timers.run (ops.filterMap ClockOp.wakeOp) = some s.timers) ∧
        ∀ pre post t, ops = pre ++ .event :: post → s₀.run pre = some t → AllAcknowledged s₀ pre →
          ¬ t.Acknowledges → s.handled = pre.count .event + 1 := by
  obtain ⟨timers, hcode, a, hhold, hr⟩ := Holding.init hm hinit
  refine ⟨timers, hcode, ?_⟩
  intro s₀ hadds
  have hstart : Ticking s₀ [] s₀ :=
    { valid := valid_static.run ports
      systemTickCount := (add_zero t₀).symm
      rtcInterruptCount := (add_zero n₀).symm
      timers := rfl
      holding := ⟨_, hhold, hr⟩
      output := by simp [s₀, dotsPrinted]
      enabled := fun _ => henabled }
  obtain ⟨s, wakeOps, hrun, hs, hall⟩ := exists_ticking hstart hclear rfl ops hadds
  obtain ⟨a, ha, hr'⟩ := hs.holding
  refine ⟨s, hrun, hs.systemTickCount, hs.rtcInterruptCount, ha.getTicks.trans hr'.getTicks, ?_, ?_,
    ?_⟩
  · exact hs.output
  · intro hack
    obtain ⟨-, hcount, rfl⟩ := hall hack
    exact ⟨hcount, hs.timers⟩
  · rintro pre post t rfl hpre hack hnot
    obtain ⟨t', wakeOps', hpre', ht, hall'⟩ := exists_ticking hstart hclear rfl pre hadds.init
    obtain rfl : t' = t := Option.some.inj (hpre'.symm.trans hpre)
    obtain ⟨hirqf, hcount, -⟩ := hall' hack
    obtain ⟨u, hcode, -, hsucc, hiff⟩ := ht.eventHandled hirqf
    have hirqf' : u.cmos.irqf = true := by
      rw [← Bool.not_eq_false]
      exact fun hfalse => hnot (hiff.mp hfalse)
    rw [ClockState.run, foldlM_append_of_eq_some hpre] at hrun
    obtain ⟨u', hcode', hpost⟩ := Option.bind_eq_some_iff.mp hrun
    obtain rfl : u = u' := Option.some.inj (hcode.symm.trans hcode')
    rw [handled_of_irqf hirqf' hpost, hsucc, hcount]

/-- A driver holds the two ports while the system has none, as in the tests of the kernel: of two
periodic events one is counted. -/
theorem clock_counts_stalled :
    let c : Cmos := ⟨0, Function.update (fun _ => 0) cmosRegB 0x42⟩
    ∃ timers, HeapTimers.init emptyMemory = some timers ∧
      let s₀ : ClockState := ⟨Registry.static.run [.request 0x70, .request 0x71], c, none, 0, 0,
        timers, [], 0⟩
      ∃ s, s₀.run [.add ⟨1, 1, 0⟩, .event, .event] = some s ∧ s.handled = 1 ∧
        s.timers.monotonicTimeGetTicksGlobal = 1 := by
  intro c
  have hclear : ∀ timers ∈ HeapTimers.init emptyMemory, timers.memory.Clear 16 := by decide +kernel
  obtain ⟨timers, hcode, hcounts⟩ := clock_counts [.request 0x70, .request 0x71] c none 0 0
    emptyMemory ⟨_, fresh_emptyMemory.layout⟩
    (HeapTimers.fresh_init fresh_emptyMemory (by decide)).1 (by decide) (by decide)
    [.add ⟨1, 1, 0⟩, .event, .event]
  refine ⟨timers, hcode, ?_⟩
  intro s₀
  obtain ⟨s, hrun, -, -, hticks, -, -, hstall⟩ := hcounts fun pre call post t hops hpre => by
    cases pre with
    | nil =>
      obtain rfl := Option.some.inj hpre
      exact .inl (hclear timers hcode)
    | cons op pre =>
      have hmem : ClockOp.add call ∈ [ClockOp.event, .event] := by simp [(List.cons.inj hops).2]
      simp at hmem
  obtain ⟨t, hadd, -⟩ := Option.bind_eq_some_iff.mp hrun
  have hhandled : s.handled = 1 := by
    refine hstall [.add ⟨1, 1, 0⟩] [.event] t rfl ?_ ?_ ?_
    · show (s₀.step _).bind some = _
      rw [hadd]
      rfl
    · intro pre post t hops
      have hmem : ClockOp.event ∈ [ClockOp.add ⟨1, 1, 0⟩] := by simp [hops]
      simp at hmem
    · obtain ⟨timers', -, rfl⟩ := Option.map_eq_some_iff.mp hadd
      rintro ⟨hfree, -⟩
      have hheld : isPortInUse (Registry.static.run [.request 0x70, .request 0x71]) cmosControlPort
          = true := by decide
      exact absurd (hfree.symm.trans hheld) Bool.false_ne_true
  exact ⟨s, hrun, hhandled, by rw [hticks, hhandled]; rfl⟩

end Shogun.Rtc
