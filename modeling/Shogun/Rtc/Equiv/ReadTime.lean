import Mathlib.Data.Nat.Bitwise
import Shogun.Rtc.Equiv.Cmos
import Shogun.Rtc.ReadTime

/-!
# When the time read is one the device has shown

* `view`: what the call would deliver if the rest of its round were read at once.
* `Consistent`: as long as the round is not altered, that is a time the registers held during the
  call; and an altered round that is not torn has its update still in progress.
* `readRtcTime_snapshot`: so a call delivers such a time if no update that alters its last round
  also ends before the closing check.
* `readRtcTime_torn`: the roll-over of a minute that is over before the check.
-/

namespace Shogun.Rtc

open ReadState

/-! ### The device -/

theorem updateInProgress_setUip (c : Cmos) :
    updateInProgress (c.setUip.registers cmosRegA) = true := by
  have hbit : (c.registers cmosRegA ||| 0x80) &&& 0x80 = 0x80 := by
    apply UInt8.toNat_inj.mp
    rw [UInt8.toNat_and, UInt8.toNat_or, Nat.and_or_distrib_right, Nat.and_self,
      show (0x80 : UInt8).toNat = 2 ^ 7 from rfl, Nat.and_two_pow]
    cases (c.registers cmosRegA).toNat.testBit 7 <;> rfl
  show ((c.registers cmosRegA ||| 0x80) &&& 0x80 != 0) = true
  rw [hbit]
  rfl

/-! ### The invariant -/

/-- What the call would deliver if it read the rest of its round at once. -/
def view (pc : ReadPc) (timeData now : RtcTime) : RtcTime :=
  match pc with
  | .minutesSelect | .minutesData => { now with seconds := timeData.seconds }
  | .hoursSelect | .hoursData => { timeData with hours := now.hours }
  | .checkSelect | .checkData | .done => timeData
  | _ => now

/-- The register a data access is about. -/
def ReadPc.register : ReadPc → Option UInt8
  | .waitData | .checkData => some cmosRegA
  | .secondsData => some cmosRegSeconds
  | .minutesData => some cmosRegMinutes
  | .hoursData => some cmosRegHours
  | _ => none

structure Consistent (s : ReadState) (altered torn : Prop) : Prop where
  index : ∀ r, s.pc.register = some r → s.cmos.index = r
  now : s.pc ≠ .done → s.cmos.time ∈ s.seen
  view : ¬ altered → view s.pc s.timeData s.cmos.time ∈ s.seen
  updating : altered → ¬ torn → updateInProgress (s.cmos.registers cmosRegA) = true
  done : s.pc = .done → altered → torn

namespace Consistent

variable {s : ReadState} {altered torn : Prop}

theorem readData_eq (h : Consistent s altered torn) {r : UInt8} (hr : s.pc.register = some r) :
    s.cmos.readData = s.cmos.registers r := by
  unfold Cmos.readData
  rw [h.index r hr]

/-- Selecting a register changes the latch only. -/
theorem select (h : Consistent s altered torn) (rtc : RtcDriver) {reg : UInt8} (hreg : reg < 128)
    {next : ReadPc} (hnext : next.register = some reg) (hpc : s.pc ≠ .done)
    (hview : ∀ timeData now, Rtc.view next timeData now = Rtc.view s.pc timeData now) :
    Consistent (s.select rtc reg next) altered torn := by
  unfold ReadState.select
  rw [writeControl_regSelect rtc s.cmos hreg]
  refine ⟨?_, ?_, ?_, h.updating, ?_⟩
  · intro r hr
    rw [hnext] at hr
    exact Option.some.inj hr
  · intro _
    exact h.now hpc
  · intro haltered
    show Rtc.view next s.timeData s.cmos.time ∈ s.seen
    rw [hview]
    exact h.view haltered
  · intro hdone
    rw [show next = .done from hdone] at hnext
    cases hnext

/-- Going to an access that selects, with the same view or none yet. -/
theorem goto (h : Consistent s altered torn) (hpc : s.pc ≠ .done) {next : ReadPc}
    {timeData : RtcTime}
    (hnext : next.register = none) (hdone : next ≠ .done)
    (hview : ¬ altered → Rtc.view next timeData s.cmos.time ∈ s.seen) :
    Consistent { s with pc := next, timeData := timeData } altered torn := by
  refine ⟨?_, fun _ => h.now hpc, hview, h.updating, fun heq => absurd heq hdone⟩
  intro r hr
  rw [show next.register = some r from hr] at hnext
  cases hnext

/-- The first read of a round: what the round delivers is the time itself. -/
theorem beginRound (h : Consistent s altered torn) (rtc : RtcDriver) (hpc : s.pc = .secondsData) :
    Consistent (s.access rtc) False False := by
  obtain ⟨pc, timeData, cmos, seen⟩ := s
  obtain rfl : pc = .secondsData := hpc
  unfold ReadState.access
  dsimp only
  rw [h.readData_eq rfl]
  exact ⟨by simp [ReadPc.register], fun _ => h.now (by simp), fun _ => h.now (by simp),
    fun hf => hf.elim, by simp⟩

/-- Every other port access of the driver keeps the invariant. -/
theorem access (h : Consistent s altered torn) (rtc : RtcDriver) (hpc : s.pc ≠ .secondsData) :
    Consistent (s.access rtc) altered torn := by
  obtain ⟨pc, timeData, cmos, seen⟩ := s
  cases pc with
  | waitSelect => exact h.select rtc (by decide) rfl (by simp) fun _ _ => rfl
  | secondsSelect => exact h.select rtc (by decide) rfl (by simp) fun _ _ => rfl
  | minutesSelect => exact h.select rtc (by decide) rfl (by simp) fun _ _ => rfl
  | hoursSelect => exact h.select rtc (by decide) rfl (by simp) fun _ _ => rfl
  | checkSelect => exact h.select rtc (by decide) rfl (by simp) fun _ _ => rfl
  | secondsData => exact absurd rfl hpc
  -- a new round: the view is the time itself
  | waitData =>
    unfold ReadState.access
    dsimp only
    split_ifs
    · exact h.goto (by simp) rfl (by simp) fun _ => h.now (by simp)
    · exact h.goto (by simp) rfl (by simp) fun _ => h.now (by simp)
  -- the register read is what the view says of it
  | minutesData =>
    unfold ReadState.access
    dsimp only
    rw [h.readData_eq rfl]
    exact h.goto (by simp) rfl (by simp) h.view
  | hoursData =>
    unfold ReadState.access
    dsimp only
    rw [h.readData_eq rfl]
    exact h.goto (by simp) rfl (by simp) h.view
  | checkData =>
    unfold ReadState.access
    dsimp only
    rw [h.readData_eq rfl]
    split_ifs with hupdating
    · exact h.goto (by simp) rfl (by simp) fun _ => h.now (by simp)
    · -- an altered round whose update is still in progress does not get here
      refine ⟨by simp [ReadPc.register], by simp, h.view, h.updating, ?_⟩
      intro _ haltered
      by_contra htorn
      exact hupdating (h.updating haltered htorn)
  | done => exact h

theorem setUip (h : Consistent s altered torn) :
    Consistent { s with cmos := s.cmos.setUip } altered torn :=
  ⟨h.index, h.now, h.view, fun _ _ => updateInProgress_setUip s.cmos, h.done⟩

/-- The update ends: an altered round is torn from now on. -/
theorem clearUip (h : Consistent s altered torn) :
    Consistent { s with cmos := s.cmos.clearUip } altered (altered ∨ torn) := by
  refine ⟨h.index, h.now, h.view, ?_, ?_⟩
  · intro haltered htorn
    exact absurd (.inl haltered) htorn
  · intro _ haltered
    exact .inl haltered

/-- A change that does not alter the round does not change the view of it. -/
theorem view_of_not_alters {pc : ReadPc} (timeData : RtcTime) {old new : RtcTime}
    (h : alters pc old new = false) {seen : List RtcTime}
    (hold : Rtc.view pc timeData old ∈ seen) :
    Rtc.view pc timeData new ∈ if pc = .done then seen else new :: seen := by
  unfold alters at h
  cases pc with
  | waitSelect | waitData | secondsSelect | secondsData => exact List.mem_cons_self
  | minutesSelect | minutesData =>
    rw [Bool.or_eq_false_iff, bne_eq_false_iff_eq, bne_eq_false_iff_eq] at h
    apply List.mem_cons_of_mem
    unfold Rtc.view at hold ⊢
    dsimp only at hold ⊢
    rw [← h.1, ← h.2]
    exact hold
  | hoursSelect | hoursData =>
    rw [bne_eq_false_iff_eq] at h
    apply List.mem_cons_of_mem
    unfold Rtc.view at hold ⊢
    dsimp only at hold ⊢
    rw [← h]
    exact hold
  | checkSelect | checkData => exact List.mem_cons_of_mem _ hold
  | done => exact hold

theorem change (h : Consistent s altered torn) (next : RtcTime → RtcTime) :
    Consistent (s.change next)
      ((updateInProgress (s.cmos.registers cmosRegA)
        && alters s.pc s.cmos.time (next s.cmos.time)) = true ∨ altered) torn := by
  unfold ReadState.change
  by_cases hupdating : updateInProgress (s.cmos.registers cmosRegA) = true
  · rw [if_pos hupdating, hupdating, Bool.true_and]
    refine ⟨h.index, ?_, ?_, fun _ _ => hupdating, ?_⟩
    · intro hpc
      show next s.cmos.time ∈ if s.pc = .done then s.seen else next s.cmos.time :: s.seen
      rw [if_neg hpc]
      exact List.mem_cons_self
    · intro haltered
      obtain ⟨halters, haltered⟩ := not_or.mp haltered
      exact view_of_not_alters s.timeData (Bool.eq_false_of_not_eq_true halters) (h.view haltered)
    · intro hdone haltered
      -- after the call a change alters nothing
      have hnot : ¬ alters s.pc s.cmos.time (next s.cmos.time) = true := by
        rw [show s.pc = .done from hdone]
        simp [alters]
      exact h.done hdone (haltered.resolve_left hnot)
  · rw [if_neg hupdating, Bool.eq_false_of_not_eq_true hupdating, Bool.false_and]
    simpa using h

/-- Every step keeps the invariant, with what it makes of the round. -/
theorem step (h : Consistent s altered torn) (rtc : RtcDriver) (next : RtcTime → RtcTime)
    (σ : ReadStep) :
    Consistent (s.step rtc next σ)
      ((rounds rtc next).alters s σ = true ∨ altered ∧ ¬ (rounds rtc next).begins s σ = true)
      (((rounds rtc next).ends σ = true ∧ altered)
        ∨ torn ∧ ¬ (rounds rtc next).begins s σ = true) := by
  cases σ with
  | access =>
    by_cases hpc : s.pc = .secondsData
    · simpa [rounds, ReadState.step, hpc] using h.beginRound rtc hpc
    · simpa [rounds, ReadState.step, hpc] using h.access rtc hpc
  | setUip => simpa [rounds, ReadState.step] using h.setUip
  | change => simpa [rounds, ReadState.step] using h.change next
  | clearUip => simpa [rounds, ReadState.step] using h.clearUip

theorem run (h : Consistent s False False) (rtc : RtcDriver) (next : RtcTime → RtcTime)
    (steps : List ReadStep) :
    Consistent (s.run rtc next steps) ((rounds rtc next).Altered s steps.reverse)
      (s.Torn rtc next steps) := by
  have hrun := (rounds rtc next).rule s h (fun s _ _ σ h => h.step rtc next σ) steps.reverse
  rw [Rounds.after, List.reverse_reverse] at hrun
  exact hrun

/-- A call that has returned and was not torn was not altered, so that it delivers a time the
registers held. -/
theorem mem_seen_of_done (h : Consistent s altered torn) (hdone : s.pc = .done) (htorn : ¬ torn) :
    s.timeData ∈ s.seen := by
  have hview := h.view fun haltered => htorn (h.done hdone haltered)
  rw [hdone] at hview
  exact hview

end Consistent

theorem consistent_start (c : Cmos) (timeData : RtcTime) :
    Consistent (start c timeData) False False where
  index := by simp [start, ReadPc.register]
  now := fun _ => List.mem_cons_self
  view := fun _ => List.mem_cons_self
  updating := fun h => h.elim
  done := by simp [start]

/-- **The time delivered is one the registers held during the call**, in every interleaving in
which no update that alters the last round also ends before the closing check. -/
theorem readRtcTime_snapshot (rtc : RtcDriver) (next : RtcTime → RtcTime) (c : Cmos)
    (timeData : RtcTime) (steps : List ReadStep)
    (hdone : ((start c timeData).run rtc next steps).pc = .done)
    (htorn : ¬ (start c timeData).Torn rtc next steps) :
    ((start c timeData).run rtc next steps).timeData
      ∈ ((start c timeData).run rtc next steps).seen :=
  ((consistent_start c timeData).run rtc next steps).mem_seen_of_done hdone htorn

/-! ### A minute that rolls over -/

/-- The time a second later, as the device counts in 24-hour binary format. -/
def nextSecond (t : RtcTime) : RtcTime :=
  if t.seconds < 59 then { t with seconds := t.seconds + 1 }
  else if t.minutes < 59 then ⟨0, t.minutes + 1, t.hours⟩
  else if t.hours < 23 then ⟨0, 0, t.hours + 1⟩
  else ⟨0, 0, 0⟩

/-- A device that shows a time. -/
def showing (t : RtcTime) : Cmos := Cmos.setTime ⟨0, fun _ => 0⟩ t

/-- An update between two rounds and one that leaves the registers still to be read alone. -/
theorem readRtcTime_snapshot_update :
    let steps : List ReadStep :=
      [.access, .access, .access, .access, .setUip, .change, .access, .access, .access, .access,
        .access, .access, .clearUip, .access, .access, .access, .access, .setUip, .change,
        .clearUip, .access, .access, .access, .access, .access, .access]
    let s := (start (showing ⟨30, 5, 12⟩) ⟨0, 0, 0⟩).run ⟨true⟩ nextSecond steps
    (s.pc = .done ∧ ¬ (start (showing ⟨30, 5, 12⟩) ⟨0, 0, 0⟩).Torn ⟨true⟩ nextSecond steps) ∧
      s.timeData ∈ s.seen := by
  intro steps s
  have hdone : s.pc = .done := by decide
  have htorn : ¬ (start (showing ⟨30, 5, 12⟩) ⟨0, 0, 0⟩).Torn ⟨true⟩ nextSecond steps := by
    decide +kernel
  refine ⟨⟨hdone, htorn⟩, ?_⟩
  exact readRtcTime_snapshot ⟨true⟩ nextSecond (showing ⟨30, 5, 12⟩) ⟨0, 0, 0⟩ steps hdone htorn

/-- At `12:00:59` the driver reads the seconds; the device then updates to `12:01:00` and clears
`UIP`; the driver delivers `12:01:59`, which the registers never held. -/
theorem readRtcTime_torn :
    let s := (start (showing ⟨59, 0, 12⟩) ⟨0, 0, 0⟩).run ⟨true⟩ nextSecond
      [.access, .access, .access, .access, .setUip, .change, .clearUip, .access, .access, .access,
        .access, .access, .access]
    s.pc = .done ∧ s.timeData = ⟨59, 1, 12⟩ ∧ s.seen = [⟨0, 1, 12⟩, ⟨59, 0, 12⟩] ∧
      s.timeData ∉ s.seen := by
  decide

end Shogun.Rtc
