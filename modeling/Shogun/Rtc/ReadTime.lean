import Shogun.Rtc.Cmos
import Shogun.Util.Rounds

/-!
# Reading the time (`read_rtc_time` in `rtc.c`)

`update_guarded_op` waits until no update is in progress, reads the three registers, and starts
again if an update is in progress then.  Every port access of it is a step of its own, and the
device goes on between them: it may set `UIP`, change the time while that is set, and clear it.

The field `seen` records what the registers held; the driver does not read it.  `Torn` says
of an interleaving what its updates have done to the round that is on its way.
-/

namespace Shogun.Rtc

/-- What the three time registers hold. -/
structure RtcTime where
  seconds : UInt8
  minutes : UInt8
  hours : UInt8
  deriving DecidableEq, Repr

/-! ### The device -/

namespace Cmos

def time (c : Cmos) : RtcTime :=
  ⟨c.registers cmosRegSeconds, c.registers cmosRegMinutes, c.registers cmosRegHours⟩

def setTime (c : Cmos) (t : RtcTime) : Cmos :=
  { c with
    registers :=
      Function.update
        (Function.update (Function.update c.registers cmosRegSeconds t.seconds) cmosRegMinutes
          t.minutes)
        cmosRegHours t.hours }

def setUip (c : Cmos) : Cmos :=
  { c with registers := Function.update c.registers cmosRegA (c.registers cmosRegA ||| 0x80) }

def clearUip (c : Cmos) : Cmos :=
  { c with registers := Function.update c.registers cmosRegA (c.registers cmosRegA &&& 0x7F) }

end Cmos

/-- `(status_reg_a & (1 << 7)) != 0`. -/
def updateInProgress (statusRegA : UInt8) : Bool := statusRegA &&& 0x80 != 0

/-! ### The driver -/

/-- The port access of `read_rtc_time` that is next. -/
inductive ReadPc where
  /-- The select of register A in `while (update_in_progress(rtc))` -/
  | waitSelect
  /-- The read of it, and the test of the loop -/
  | waitData
  /-- `time_data[0] = read_cmos_register(rtc, CMOS_REG_SECONDS)` -/
  | secondsSelect
  | secondsData
  /-- `time_data[1] = read_cmos_register(rtc, CMOS_REG_MINUTES)` -/
  | minutesSelect
  | minutesData
  /-- `time_data[2] = read_cmos_register(rtc, CMOS_REG_HOURS)` -/
  | hoursSelect
  | hoursData
  /-- The select of register A in `if (!update_in_progress(rtc))` -/
  | checkSelect
  /-- The read of it, and `return` or the next round of `while (1)` -/
  | checkData
  /-- The call has returned `time_data`. -/
  | done
  deriving DecidableEq, Repr

/-- A call on its way. -/
structure ReadState where
  pc : ReadPc
  timeData : RtcTime
  cmos : Cmos
  /-- The contents of the time registers at the instants of the call so far. -/
  seen : List RtcTime

/-- What happens next: a port access of the driver, or a step of the device. -/
inductive ReadStep where
  | access
  | setUip
  | change
  | clearUip
  deriving DecidableEq, Repr

namespace ReadState

/-- The call before its first access; `timeData` is what its array holds. -/
def start (c : Cmos) (timeData : RtcTime) : ReadState :=
  ⟨.waitSelect, timeData, c, [c.time]⟩

/-- The register number goes to the control port. -/
def select (rtc : RtcDriver) (reg : UInt8) (next : ReadPc) (s : ReadState) : ReadState :=
  { s with pc := next, cmos := s.cmos.writeControl (regSelect rtc reg) }

/-- The next port access. -/
def access (rtc : RtcDriver) (s : ReadState) : ReadState :=
  match s.pc with
  | .waitSelect => s.select rtc cmosRegA .waitData
  | .waitData =>
    { s with pc := if updateInProgress s.cmos.readData then .waitSelect else .secondsSelect }
  | .secondsSelect => s.select rtc cmosRegSeconds .secondsData
  | .secondsData =>
    { s with pc := .minutesSelect, timeData := { s.timeData with seconds := s.cmos.readData } }
  | .minutesSelect => s.select rtc cmosRegMinutes .minutesData
  | .minutesData =>
    { s with pc := .hoursSelect, timeData := { s.timeData with minutes := s.cmos.readData } }
  | .hoursSelect => s.select rtc cmosRegHours .hoursData
  | .hoursData =>
    { s with pc := .checkSelect, timeData := { s.timeData with hours := s.cmos.readData } }
  | .checkSelect => s.select rtc cmosRegA .checkData
  | .checkData =>
    { s with pc := if updateInProgress s.cmos.readData then .waitSelect else .done }
  | .done => s

/-- The device changes the time, which it does only while `UIP` is set. -/
def change (next : RtcTime → RtcTime) (s : ReadState) : ReadState :=
  if updateInProgress (s.cmos.registers cmosRegA) then
    let new := next s.cmos.time
    { s with
      cmos := s.cmos.setTime new
      seen := if s.pc = .done then s.seen else new :: s.seen }
  else s

/-- One step; `next` is the time after a time. -/
def step (rtc : RtcDriver) (next : RtcTime → RtcTime) (s : ReadState) : ReadStep → ReadState
  | .access => s.access rtc
  | .setUip => { s with cmos := s.cmos.setUip }
  | .change => s.change next
  | .clearUip => { s with cmos := s.cmos.clearUip }

/-- The steps of an interleaving in turn. -/
def run (rtc : RtcDriver) (next : RtcTime → RtcTime) (s : ReadState) (steps : List ReadStep) :
    ReadState :=
  steps.foldl (step rtc next) s

/-! ### Updates in a round -/

/-- Does a change of the time concern a register that the round at `pc` has begun to read and has
not read yet? -/
def alters (pc : ReadPc) (old new : RtcTime) : Bool :=
  match pc with
  | .minutesSelect | .minutesData => old.minutes != new.minutes || old.hours != new.hours
  | .hoursSelect | .hoursData => old.hours != new.hours
  | _ => false

/-- A round begins when the seconds are read.  The device alters it when it changes a register that
is still to be read, and has ended the update when it clears `UIP`. -/
def rounds (rtc : RtcDriver) (next : RtcTime → RtcTime) : Rounds ReadState ReadStep where
  step := step rtc next
  begins s σ := σ = .access && s.pc = .secondsData
  alters s σ := σ = .change && updateInProgress (s.cmos.registers cmosRegA)
    && alters s.pc s.cmos.time (next s.cmos.time)
  ends σ := σ = .clearUip

/-- In the last round of the interleaving the device has changed a register that was still to be
read, and has ended the update since. -/
def Torn (rtc : RtcDriver) (next : RtcTime → RtcTime) (s : ReadState) (steps : List ReadStep) :
    Prop :=
  (rounds rtc next).Torn s steps.reverse

instance (rtc : RtcDriver) (next : RtcTime → RtcTime) (s : ReadState) (steps : List ReadStep) :
    Decidable (s.Torn rtc next steps) :=
  inferInstanceAs (Decidable ((rounds rtc next).Torn s steps.reverse))

end ReadState

end Shogun.Rtc
