import Shogun.Rtc.ReadTime

/-!
# Writing the time (`write_rtc_time` in `rtc.c`)

`update_guarded_op` with `write_time_guarded_op`: it waits until no update is in progress, writes
the three registers, and starts again if an update is in progress then.  As for `read_rtc_time`,
every port access is a step of its own and the device goes on between them.

The field `since` counts what the device did; the driver does not read it.  `Torn` says of an
interleaving what its updates have done to the round that is on its way.
-/

namespace Shogun.Rtc

/-! ### The driver -/

/-- The port access of `write_rtc_time` that is next. -/
inductive WritePc where
  /-- The select of register A in `while (update_in_progress(rtc))` -/
  | waitSelect
  /-- The read of it, and the test of the loop -/
  | waitData
  /-- `write_cmos_register(rtc, CMOS_REG_SECONDS, time_data[0])` -/
  | secondsSelect
  | secondsData
  /-- `write_cmos_register(rtc, CMOS_REG_MINUTES, time_data[1])` -/
  | minutesSelect
  | minutesData
  /-- `write_cmos_register(rtc, CMOS_REG_HOURS, time_data[2])` -/
  | hoursSelect
  | hoursData
  /-- The select of register A in `if (!update_in_progress(rtc))` -/
  | checkSelect
  /-- The read of it, and `return` or the next round of `while (1)` -/
  | checkData
  /-- The call has returned. -/
  | done
  deriving DecidableEq, Repr

/-- A call on its way. -/
structure WriteState where
  pc : WritePc
  cmos : Cmos
  /-- The changes the device has made since the hours were written last. -/
  since : ℕ

namespace WriteState

/-- The call before its first access. -/
def start (c : Cmos) : WriteState := ⟨.waitSelect, c, 0⟩

/-- The register number goes to the control port. -/
def select (rtc : RtcDriver) (reg : UInt8) (next : WritePc) (s : WriteState) : WriteState :=
  { s with pc := next, cmos := s.cmos.writeControl (regSelect rtc reg) }

/-- The next port access of a call with `timeData`. -/
def access (rtc : RtcDriver) (timeData : RtcTime) (s : WriteState) : WriteState :=
  match s.pc with
  | .waitSelect => s.select rtc cmosRegA .waitData
  | .waitData =>
    { s with pc := if updateInProgress s.cmos.readData then .waitSelect else .secondsSelect }
  | .secondsSelect => s.select rtc cmosRegSeconds .secondsData
  | .secondsData =>
    { s with pc := .minutesSelect, cmos := s.cmos.writeData timeData.seconds }
  | .minutesSelect => s.select rtc cmosRegMinutes .minutesData
  | .minutesData => { s with pc := .hoursSelect, cmos := s.cmos.writeData timeData.minutes }
  | .hoursSelect => s.select rtc cmosRegHours .hoursData
  | .hoursData =>
    { s with pc := .checkSelect, cmos := s.cmos.writeData timeData.hours, since := 0 }
  | .checkSelect => s.select rtc cmosRegA .checkData
  | .checkData =>
    { s with pc := if updateInProgress s.cmos.readData then .waitSelect else .done }
  | .done => s

/-- The device changes the time, which it does only while `UIP` is set. -/
def change (next : RtcTime → RtcTime) (s : WriteState) : WriteState :=
  if updateInProgress (s.cmos.registers cmosRegA) then
    { s with cmos := s.cmos.setTime (next s.cmos.time), since := s.since + 1 }
  else s

/-- One step; `next` is the time after a time. -/
def step (rtc : RtcDriver) (next : RtcTime → RtcTime) (timeData : RtcTime) (s : WriteState) :
    ReadStep → WriteState
  | .access => s.access rtc timeData
  | .setUip => { s with cmos := s.cmos.setUip }
  | .change => s.change next
  | .clearUip => { s with cmos := s.cmos.clearUip }

/-- The steps of an interleaving in turn. -/
def run (rtc : RtcDriver) (next : RtcTime → RtcTime) (timeData : RtcTime) (s : WriteState)
    (steps : List ReadStep) : WriteState :=
  steps.foldl (step rtc next timeData) s

/-! ### Updates in a round -/

/-- Does a change of the time concern a register that the round at `pc` has written, while others
are still to be written? -/
def alters (pc : WritePc) (old new : RtcTime) : Bool :=
  match pc with
  | .minutesSelect | .minutesData => old.seconds != new.seconds
  | .hoursSelect | .hoursData => old.seconds != new.seconds || old.minutes != new.minutes
  | _ => false

/-- A round begins when the seconds are written.  The device alters it when it changes a register
that was written while others are still to be written, and has ended the update when it clears
`UIP`. -/
def rounds (rtc : RtcDriver) (next : RtcTime → RtcTime) (timeData : RtcTime) :
    Rounds WriteState ReadStep where
  step := step rtc next timeData
  begins s σ := σ = .access && s.pc = .secondsData
  alters s σ := σ = .change && updateInProgress (s.cmos.registers cmosRegA)
    && alters s.pc s.cmos.time (next s.cmos.time)
  ends σ := σ = .clearUip

/-- In the last round of the interleaving the device has changed a register that was written,
before the round was over, and has ended the update since. -/
def Torn (rtc : RtcDriver) (next : RtcTime → RtcTime) (timeData : RtcTime) (s : WriteState)
    (steps : List ReadStep) : Prop :=
  (rounds rtc next timeData).Torn s steps.reverse

instance (rtc : RtcDriver) (next : RtcTime → RtcTime) (timeData : RtcTime) (s : WriteState)
    (steps : List ReadStep) : Decidable (s.Torn rtc next timeData steps) :=
  inferInstanceAs (Decidable ((rounds rtc next timeData).Torn s steps.reverse))

end WriteState

end Shogun.Rtc
