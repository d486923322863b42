import Mathlib.Logic.Function.Iterate
import Shogun.Rtc.Clock
import Shogun.Rtc.Equiv.ReadTime
import Shogun.Rtc.WriteTime

/-!
# When the time written is the one the device goes on from

* `Writing`: as long as the round is not altered, the registers it has written hold what it wrote,
  and once it is over the time written, as many seconds later as the device has counted since.
* `writeRtcTime_takes`: so a call that returns has set the time at one instant, unless an update
  that alters its last round also ends before the closing check.
* `writeRtcTime_read`: what a call of `read_rtc_time` then delivers.
-/

namespace Shogun.Rtc

open WriteState

/-! ### The invariant -/

/-- What the registers hold of the time written, at `pc`. -/
def written (pc : WritePc) (timeData now : RtcTime) (next : RtcTime → RtcTime) (since : ℕ) : Prop :=
  match pc with
  | .minutesSelect | .minutesData => now.seconds = timeData.seconds
  | .hoursSelect | .hoursData => now.seconds = timeData.seconds ∧ now.minutes = timeData.minutes
  | .checkSelect | .checkData | .done => now = next^[since] timeData
  | _ => True

/-- The register a data access is about. -/
def WritePc.register : WritePc → Option UInt8
  | .waitData | .checkData => some cmosRegA
  | .secondsData => some cmosRegSeconds
  | .minutesData => some cmosRegMinutes
  | .hoursData => some cmosRegHours
  | _ => none

/-- The registers that the call or an update of the device writes. -/
def guardedRegs : List UInt8 := [cmosRegSeconds, cmosRegMinutes, cmosRegHours, cmosRegA]

/-- A call with `timeData` on a device that held `registers`. -/
structure Writing (next : RtcTime → RtcTime) (timeData : RtcTime) (registers : UInt8 → UInt8)
    (s : WriteState) (altered torn : Prop) : Prop where
  index : ∀ r, s.pc.register = some r → s.cmos.index = r
  written : ¬ altered → written s.pc timeData s.cmos.time next s.since
  updating : altered → ¬ torn → updateInProgress (s.cmos.registers cmosRegA) = true
  done : s.pc = .done → altered → torn
  other : ∀ reg, reg ∉ guardedRegs → s.cmos.registers reg = registers reg
  rate : s.cmos.registers cmosRegA &&& 0x7F = registers cmosRegA &&& 0x7F

namespace Writing

variable {next : RtcTime → RtcTime} {timeData : RtcTime} {registers : UInt8 → UInt8}
  {s : WriteState} {altered torn : Prop}

theorem readData_eq (h : Writing next timeData registers s altered torn) {r : UInt8}
    (hr : s.pc.register = some r) : s.cmos.readData = s.cmos.registers r := by
  unfold Cmos.readData
  rw [h.index r hr]

theorem writeData_eq (h : Writing next timeData registers s altered torn) {r : UInt8}
    (hr : s.pc.register = some r) (value : UInt8) :
    s.cmos.writeData value = ⟨r, Function.update s.cmos.registers r value⟩ := by
  unfold Cmos.writeData
  rw [h.index r hr]

/-- A register of the time is written. -/
theorem other_update (h : Writing next timeData registers s altered torn) {r : UInt8}
    (hr : r ∈ guardedRegs) (value : UInt8) {reg : UInt8}
    (hreg : reg ∉ guardedRegs) :
    Function.update s.cmos.registers r value reg = registers reg := by
  have hne : reg ≠ r := by
    rintro rfl
    exact hreg hr
  rw [Function.update_of_ne hne]
  exact h.other reg hreg

/-- Selecting a register changes the latch only. -/
theorem select (h : Writing next timeData registers s altered torn) (rtc : RtcDriver) {reg : UInt8}
    (hreg : reg < 128) {pc : WritePc} (hpc : pc.register = some reg)
    (hwritten : ∀ now since, Rtc.written s.pc timeData now next since →
      Rtc.written pc timeData now next since) :
    Writing next timeData registers (s.select rtc reg pc) altered torn := by
  unfold WriteState.select
  rw [writeControl_regSelect rtc s.cmos hreg]
  refine ⟨?_, ?_, h.updating, ?_, h.other, h.rate⟩
  · intro r hr
    rw [hpc] at hr
    exact Option.some.inj hr
  · intro haltered
    exact hwritten _ _ (h.written haltered)
  · intro hdone
    rw [show pc = .done from hdone] at hpc
    cases hpc

/-- Going on to an access of which nothing has been written yet. -/
theorem goto (h : Writing next timeData registers s altered torn) {pc : WritePc}
    (hpc : pc.register = none) (hdone : pc ≠ .done)
    (hwritten : ∀ now since, Rtc.written pc timeData now next since) :
    Writing next timeData registers { s with pc := pc } altered torn := by
  refine ⟨?_, fun _ => hwritten _ _, h.updating, fun heq => absurd heq hdone, h.other, h.rate⟩
  intro r hr
  rw [show pc.register = some r from hr] at hpc
  cases hpc

/-- The first write of a round. -/
theorem beginRound (h : Writing next timeData registers s altered torn) (rtc : RtcDriver)
    (hpc : s.pc = .secondsData) :
    Writing next timeData registers (s.access rtc timeData) False False := by
  obtain ⟨pc, cmos, since⟩ := s
  obtain rfl : pc = .secondsData := hpc
  unfold WriteState.access
  dsimp only
  rw [h.writeData_eq rfl]
  exact ⟨by simp [WritePc.register], fun _ => rfl, fun hf => hf.elim, by simp,
    fun _ => h.other_update (by decide) _, h.rate⟩

/-- Every other port access of the driver keeps the invariant. -/
theorem access (h : Writing next timeData registers s altered torn) (rtc : RtcDriver)
    (hpc : s.pc ≠ .secondsData) :
    Writing next timeData registers (s.access rtc timeData) altered torn := by
  obtain ⟨pc, cmos, since⟩ := s
  cases pc with
  | waitSelect => exact h.select rtc (by decide) rfl fun _ _ h => h
  | secondsSelect => exact h.select rtc (by decide) rfl fun _ _ h => h
  | minutesSelect => exact h.select rtc (by decide) rfl fun _ _ h => h
  | hoursSelect => exact h.select rtc (by decide) rfl fun _ _ h => h
  | checkSelect => exact h.select rtc (by decide) rfl fun _ _ h => h
  | secondsData => exact absurd rfl hpc
  | waitData =>
    unfold WriteState.access
    dsimp only
    split_ifs
    · exact h.goto rfl (by simp) fun _ _ => trivial
    · exact h.goto rfl (by simp) fun _ _ => trivial
  | minutesData =>
    unfold WriteState.access
    dsimp only
    rw [h.writeData_eq rfl]
    exact ⟨by simp [WritePc.register], fun haltered => ⟨h.written haltered, rfl⟩, h.updating,
      by simp, fun _ => h.other_update (by decide) _, h.rate⟩
  | hoursData =>
    unfold WriteState.access
    dsimp only
    rw [h.writeData_eq rfl]
    refine ⟨by simp [WritePc.register], fun haltered => ?_, h.updating, by simp,
      fun _ => h.other_update (by decide) _, h.rate⟩
    obtain ⟨hseconds, hminutes⟩ := h.written haltered
    show RtcTime.mk cmos.time.seconds cmos.time.minutes timeData.hours = timeData
    rw [show cmos.time.seconds = timeData.seconds from hseconds,
      show cmos.time.minutes = timeData.minutes from hminutes]
  | checkData =>
    unfold WriteState.access
    dsimp only
    rw [h.readData_eq rfl]
    split_ifs with hupdating
    · exact h.goto rfl (by simp) fun _ _ => trivial
    · -- an altered round whose update is still in progress does not get here
      refine ⟨by simp [WritePc.register], h.written, h.updating, ?_, h.other, h.rate⟩
      intro _ haltered
      by_contra htorn
      exact hupdating (h.updating haltered htorn)
  | done => exact h

/-- `UIP` is the highest bit of register A. -/
theorem rate_setUip (a : UInt8) : (a ||| 0x80) &&& 0x7F = a &&& 0x7F := by
  apply UInt8.toNat_inj.mp
  rw [UInt8.toNat_and, UInt8.toNat_or, UInt8.toNat_and, Nat.and_or_distrib_right,
    show (0x80 : UInt8).toNat &&& (0x7F : UInt8).toNat = 0 from rfl, Nat.or_zero]

theorem rate_clearUip (a : UInt8) : (a &&& 0x7F) &&& 0x7F = a &&& 0x7F := by
  apply UInt8.toNat_inj.mp
  rw [UInt8.toNat_and, UInt8.toNat_and, Nat.and_assoc, Nat.and_self]

theorem setUip (h : Writing next timeData registers s altered torn) :
    Writing next timeData registers { s with cmos := s.cmos.setUip } altered torn :=
  ⟨h.index, h.written, fun _ _ => updateInProgress_setUip s.cmos, h.done,
    fun _ => h.other_update (by decide) _, (rate_setUip _).trans h.rate⟩

/-- The update ends: an altered round is torn from now on. -/
theorem clearUip (h : Writing next timeData registers s altered torn) :
    Writing next timeData registers { s with cmos := s.cmos.clearUip } altered
      (altered ∨ torn) := by
  refine ⟨h.index, h.written, ?_, ?_, fun _ => h.other_update (by decide) _,
    (rate_clearUip _).trans h.rate⟩
  · intro haltered htorn
    exact absurd (.inl haltered) htorn
  · intro _ haltered
    exact .inl haltered

/-- A change that does not alter the round leaves what it has written; behind the round the device
counts on from there. -/
theorem written_of_not_alters {pc : WritePc} {old : RtcTime} {since : ℕ}
    (h : alters pc old (next old) = false) (hold : Rtc.written pc timeData old next since) :
    Rtc.written pc timeData (next old) next (since + 1) := by
  unfold alters at h
  cases pc with
  | waitSelect | waitData | secondsSelect | secondsData => trivial
  | minutesSelect | minutesData =>
    rw [bne_eq_false_iff_eq] at h
    exact h.symm.trans hold
  | hoursSelect | hoursData =>
    rw [Bool.or_eq_false_iff, bne_eq_false_iff_eq, bne_eq_false_iff_eq] at h
    exact ⟨h.1.symm.trans hold.1, h.2.symm.trans hold.2⟩
  | checkSelect | checkData | done =>
    show next old = next^[since + 1] timeData
    rw [Function.iterate_succ_apply', show old = next^[since] timeData from hold]

theorem change (h : Writing next timeData registers s altered torn) :
    Writing next timeData registers (s.change next)
      ((updateInProgress (s.cmos.registers cmosRegA)
        && alters s.pc s.cmos.time (next s.cmos.time)) = true ∨ altered) torn := by
  unfold WriteState.change
  by_cases hupdating : updateInProgress (s.cmos.registers cmosRegA) = true
  · rw [if_pos hupdating, hupdating, Bool.true_and]
    refine ⟨h.index, ?_, fun _ _ => hupdating, ?_, ?_, h.rate⟩
    · intro haltered
      obtain ⟨halters, haltered⟩ := not_or.mp haltered
      exact written_of_not_alters (Bool.eq_false_of_not_eq_true halters) (h.written haltered)
    · intro hdone haltered
      -- after the call a change alters nothing
      have hnot : ¬ alters s.pc s.cmos.time (next s.cmos.time) = true := by
        rw [show s.pc = .done from hdone]
        simp [alters]
      exact h.done hdone (haltered.resolve_left hnot)
    · intro reg hreg
      have hne : ∀ r ∈ guardedRegs, reg ≠ r := by
        rintro r hr rfl
        exact hreg hr
      show Function.update _ cmosRegHours _ reg = _
      rw [Function.update_of_ne (hne _ (by decide)), Function.update_of_ne (hne _ (by decide)),
        Function.update_of_ne (hne _ (by decide))]
      exact h.other reg hreg
  · rw [if_neg hupdating, Bool.eq_false_of_not_eq_true hupdating, Bool.false_and]
    simpa using h

/-- Every step keeps the invariant, with what it makes of the round. -/
theorem step (h : Writing next timeData registers s altered torn) (rtc : RtcDriver)
    (σ : ReadStep) :
    Writing next timeData registers (s.step rtc next timeData σ)
      ((rounds rtc next timeData).alters s σ = true
        ∨ altered ∧ ¬ (rounds rtc next timeData).begins s σ = true)
      (((rounds rtc next timeData).ends σ = true ∧ altered)
        ∨ torn ∧ ¬ (rounds rtc next timeData).begins s σ = true) := by
  cases σ with
  | access =>
    by_cases hpc : s.pc = .secondsData
    · simpa [rounds, WriteState.step, hpc] using h.beginRound rtc hpc
    · simpa [rounds, WriteState.step, hpc] using h.access rtc hpc
  | setUip => simpa [rounds, WriteState.step] using h.setUip
  | change => simpa [rounds, WriteState.step] using h.change
  | clearUip => simpa [rounds, WriteState.step] using h.clearUip

theorem run (h : Writing next timeData registers s False False) (rtc : RtcDriver)
    (steps : List ReadStep) :
    Writing next timeData registers (s.run rtc next timeData steps)
      ((rounds rtc next timeData).Altered s steps.reverse) (s.Torn rtc next timeData steps) := by
  have hrun := (rounds rtc next timeData).rule s h (fun s _ _ σ h => h.step rtc σ) steps.reverse
  rw [Rounds.after, List.reverse_reverse] at hrun
  exact hrun

/-- The registers when the call has returned. -/
theorem time_of_done (h : Writing next timeData registers s altered torn) (hdone : s.pc = .done)
    (htorn : ¬ torn) : s.cmos.time = next^[s.since] timeData := by
  have hwritten := h.written fun haltered => htorn (h.done hdone haltered)
  rw [hdone] at hwritten
  exact hwritten

end Writing

theorem writing_start (next : RtcTime → RtcTime) (timeData : RtcTime) (c : Cmos) :
    Writing next timeData c.registers (start c) False False where
  index := by simp [start, WritePc.register]
  written := fun _ => trivial
  updating := fun h => h.elim
  done := by simp [start]
  other := fun _ _ => rfl
  rate := rfl

/-- Periodic interrupts stay as they were. -/
theorem periodicEnabled_write (rtc : RtcDriver) (next : RtcTime → RtcTime) (timeData : RtcTime)
    (steps : List ReadStep) (c : Cmos) :
    ((start c).run rtc next timeData steps).cmos.periodicEnabled = c.periodicEnabled := by
  unfold Cmos.periodicEnabled
  rw [((writing_start next timeData c).run rtc steps).other cmosRegB (by decide)]

/-! ### Whole calls -/

/-- The port accesses that are left when no update is in progress. -/
def WritePc.accesses : WritePc → ℕ
  | .waitSelect => 10
  | .waitData => 9
  | .secondsSelect => 8
  | .secondsData => 7
  | .minutesSelect => 6
  | .minutesData => 5
  | .hoursSelect => 4
  | .hoursData => 3
  | .checkSelect => 2
  | .checkData => 1
  | .done => 0

/-- Without an update an access gets on, and starts none. -/
theorem Writing.access_accesses {next : RtcTime → RtcTime} {timeData : RtcTime}
    {registers : UInt8 → UInt8} {s : WriteState} {altered torn : Prop}
    (h : Writing next timeData registers s altered torn) (rtc : RtcDriver)
    (hquiet : updateInProgress (s.cmos.registers cmosRegA) = false) :
    (s.access rtc timeData).pc.accesses = s.pc.accesses - 1 ∧
      (s.access rtc timeData).cmos.registers cmosRegA = s.cmos.registers cmosRegA := by
  obtain ⟨pc, cmos, since⟩ := s
  cases pc with
  | waitSelect | secondsSelect | minutesSelect | hoursSelect | checkSelect | done =>
    exact ⟨rfl, rfl⟩
  | waitData | checkData =>
    unfold WriteState.access
    dsimp only
    rw [h.readData_eq rfl, hquiet]
    exact ⟨rfl, rfl⟩
  | secondsData | minutesData | hoursData =>
    unfold WriteState.access
    dsimp only
    rw [h.writeData_eq rfl]
    exact ⟨rfl, rfl⟩

/-- So a call is over after the accesses that are left. -/
theorem Writing.run_access {next : RtcTime → RtcTime} {timeData : RtcTime}
    {registers : UInt8 → UInt8} {s : WriteState} {altered torn : Prop}
    (h : Writing next timeData registers s altered torn) (rtc : RtcDriver)
    (hquiet : updateInProgress (s.cmos.registers cmosRegA) = false) (n : ℕ) :
    (s.run rtc next timeData (List.replicate n .access)).pc.accesses = s.pc.accesses - n := by
  induction n generalizing s altered torn with
  | zero => rfl
  | succ n ih =>
    obtain ⟨haccesses, hregA⟩ := h.access_accesses rtc hquiet
    show ((s.access rtc timeData).run rtc next timeData (List.replicate n .access)).pc.accesses = _
    have hstep : Writing next timeData registers (s.access rtc timeData) _ _ := h.step rtc .access
    rw [ih hstep (by rw [hregA]; exact hquiet), haccesses, Nat.sub_sub, Nat.add_comm]

/-- **The time is set at one instant.**  In every interleaving of a call with the device: when the
call has returned, the registers hold the time written as many updates later as the device has made
since the hours were written, unless an update that alters the last round also ended before the
closing check; no register changes but those of the time and the `UIP` bit of register A; and from
every point on at which no update is in progress, ten port accesses without one complete it. -/
theorem writeRtcTime_takes (rtc : RtcDriver) (next : RtcTime → RtcTime) (c : Cmos)
    (timeData : RtcTime) (steps : List ReadStep) :
    let s := (start c).run rtc next timeData steps
    (s.pc = .done → ¬ (start c).Torn rtc next timeData steps →
      s.cmos.time = next^[s.since] timeData) ∧
    (∀ reg, reg ∉ guardedRegs → s.cmos.registers reg = c.registers reg) ∧
    s.cmos.registers cmosRegA &&& 0x7F = c.registers cmosRegA &&& 0x7F ∧
    (updateInProgress (s.cmos.registers cmosRegA) = false →
      (s.run rtc next timeData (List.replicate 10 .access)).pc = .done) := by
  intro s
  have h : Writing next timeData c.registers s _ _ := (writing_start next timeData c).run rtc steps
  refine ⟨h.time_of_done, h.other, h.rate, ?_⟩
  intro hquiet
  have hleft := h.run_access rtc hquiet 10
  have hle : s.pc.accesses ≤ 10 := by cases s.pc <;> decide
  rw [Nat.sub_eq_zero_of_le hle] at hleft
  generalize (s.run rtc next timeData (List.replicate 10 .access)).pc = pc at hleft
  cases pc <;> first | rfl | exact absurd hleft (by decide)

/-! ### Reading it back -/

/-- A port access of `read_rtc_time` changes no register. -/
theorem access_registers (rtc : RtcDriver) (s : ReadState) :
    (s.access rtc).cmos.registers = s.cmos.registers ∧ (s.access rtc).seen = s.seen := by
  obtain ⟨pc, timeData, cmos, seen⟩ := s
  cases pc <;> exact ⟨rfl, rfl⟩

/-- The times that a call of `read_rtc_time` sees: those that the updates have made so far. -/
structure Counted (next : RtcTime → RtcTime) (t : RtcTime) (n : ℕ) (s : ReadState) : Prop where
  now : ∃ k ≤ n, s.cmos.time = next^[k] t
  seen : ∀ x ∈ s.seen, ∃ k ≤ n, x = next^[k] t

namespace Counted

variable {next : RtcTime → RtcTime} {t : RtcTime} {n : ℕ} {s : ReadState}

/-- A step that leaves the time alone. -/
theorem keeps (h : Counted next t n s) {s' : ReadState} (htime : s'.cmos.time = s.cmos.time)
    (hseen : s'.seen = s.seen) : Counted next t n s' :=
  ⟨by rw [htime]; exact h.now, by rw [hseen]; exact h.seen⟩

theorem mono (h : Counted next t n s) : Counted next t (n + 1) s where
  now := by
    obtain ⟨k, hk, heq⟩ := h.now
    exact ⟨k, hk.trans (Nat.le_succ n), heq⟩
  seen := by
    intro x hx
    obtain ⟨k, hk, heq⟩ := h.seen x hx
    exact ⟨k, hk.trans (Nat.le_succ n), heq⟩

theorem change (h : Counted next t n s) : Counted next t (n + 1) (s.change next) := by
  unfold ReadState.change
  by_cases hupdating : updateInProgress (s.cmos.registers cmosRegA) = true
  · rw [if_pos hupdating]
    have hnew : ∃ k ≤ n + 1, next s.cmos.time = next^[k] t := by
      obtain ⟨k, hk, heq⟩ := h.now
      exact ⟨k + 1, Nat.succ_le_succ hk, by rw [Function.iterate_succ_apply', heq]⟩
    refine ⟨hnew, ?_⟩
    intro x hx
    dsimp only at hx
    split_ifs at hx
    · exact h.mono.seen x hx
    · rcases List.mem_cons.mp hx with rfl | hx
      · exact hnew
      · exact h.mono.seen x hx
  · rw [if_neg hupdating]
    exact h.mono

theorem step (h : Counted next t n s) (rtc : RtcDriver) (σ : ReadStep) :
    Counted next t (n + [σ].count .change) (s.step rtc next σ) := by
  cases σ with
  | access =>
    obtain ⟨hregisters, hseen⟩ := access_registers rtc s
    exact h.keeps (by unfold ReadState.step Cmos.time; rw [hregisters]) hseen
  | setUip => exact h.keeps rfl rfl
  | change => exact h.change
  | clearUip => exact h.keeps rfl rfl

theorem run (h : Counted next t n s) (rtc : RtcDriver) (steps : List ReadStep) :
    Counted next t (n + steps.count .change) (s.run rtc next steps) := by
  induction steps generalizing n s with
  | nil => exact h
  | cons σ steps ih =>
    rw [← List.singleton_append, List.count_append, ← Nat.add_assoc]
    exact ih (h.step rtc σ)

end Counted

/-- **What was written is read back.**  For every interleaving of a call of `write_rtc_time` with
the device and then of a call of `read_rtc_time`: if both have returned and neither round was torn,
the time delivered is the time written, as many updates later as the device has made since the hours
were written and at most all those during the read. -/
theorem writeRtcTime_read (rtc rtc' : RtcDriver) (next : RtcTime → RtcTime) (c : Cmos)
    (timeData array : RtcTime) (ws rs : List ReadStep)
    (hwdone : ((start c).run rtc next timeData ws).pc = .done)
    (hwtorn : ¬ (start c).Torn rtc next timeData ws)
    (hrdone : ((ReadState.start ((start c).run rtc next timeData ws).cmos array).run rtc' next
      rs).pc = .done)
    (hrtorn : ¬ (ReadState.start ((start c).run rtc next timeData ws).cmos array).Torn rtc' next
      rs) :
    ∃ k ≤ rs.count .change,
      ((ReadState.start ((start c).run rtc next timeData ws).cmos array).run rtc' next rs).timeData
        = next^[k + ((start c).run rtc next timeData ws).since] timeData := by
  have htime := ((writing_start next timeData c).run rtc ws).time_of_done hwdone hwtorn
  generalize (start c).run rtc next timeData ws = w at htime hrdone hrtorn ⊢
  have hread := (consistent_start w.cmos array).run rtc' next rs
  have hcounted : Counted next w.cmos.time 0 (ReadState.start w.cmos array) := by
    refine ⟨⟨0, le_rfl, rfl⟩, ?_⟩
    intro x hx
    exact ⟨0, le_rfl, List.mem_singleton.mp hx⟩
  have hseen := (hcounted.run rtc' rs).seen
  obtain ⟨k, hk, heq⟩ := hseen _ (hread.mem_seen_of_done hrdone hrtorn)
  refine ⟨k, by omega, ?_⟩
  rw [Function.iterate_add_apply, ← htime]
  exact heq

/-- The test of the kernel at `12:34:56`, with an update between the two calls. -/
theorem writeRtcTime_read_test :
    let w := (start (showing ⟨56, 34, 12⟩)).run ⟨true⟩ nextSecond ⟨56, 34, 11⟩
      (List.replicate 10 .access ++ [.setUip, .change, .clearUip])
    (w.pc = .done ∧ w.since = 1) ∧
      ∃ k ≤ 0, ((ReadState.start w.cmos ⟨0, 0, 0⟩).run ⟨true⟩ nextSecond
        (List.replicate 10 .access)).timeData = nextSecond^[k + w.since] ⟨56, 34, 11⟩ := by
  refine ⟨by decide, ?_⟩
  exact writeRtcTime_read ⟨true⟩ ⟨true⟩ nextSecond (showing ⟨56, 34, 12⟩) ⟨56, 34, 11⟩ ⟨0, 0, 0⟩ _
    (List.replicate 10 .access) (by decide) (by decide +kernel) (by decide) (by decide +kernel)

end Shogun.Rtc
