import Shogun.Logger.Equiv.Buffer
import Shogun.Logger.Equiv.Format
import Shogun.Logger.Log

/-!
# The logger from end to end

* `LoggerOp`, `LoggerState.run`: any sequence of calls after `logger_init`.
* `History`: what a sequence of calls says about the next `logger_service`: the level in force and
  the accepted log calls since the service before.
* `Logs`: the buffer holds the entries of the last 64 of them.
* `loggerService_text`: so a service passes their lines to `output_string`.
-/

namespace Shogun.Logger

open BoundedQueue CharArray

/-! ### Runs -/

/-- The arguments of a log call whose format finds the arguments it asks for. -/
structure LogArgs where
  locals : LogLocals
  module : CString
  format : CString
  args : List Arg
  matching : (expand format.text args).isSome

/-- The full expansion of the message. -/
def LogArgs.message (a : LogArgs) : List UInt8 := (expand a.format.text a.args).get a.matching

/-- A call of the logger. -/
inductive LoggerOp where
  | log (level : LogLevel) (a : LogArgs)
  | debug (a : LogArgs)
  | info (a : LogArgs)
  | warning (a : LogArgs)
  | error (a : LogArgs)
  | setModuleLevel (module : CString) (level : LogLevel)
  | service

/-- The effect of one call. -/
def LoggerState.step (s : LoggerState) : LoggerOp → Option LoggerState
  | .log level a => loggerLog a.locals s level a.module a.format a.args
  | .debug a => loggerDebug a.locals s a.module a.format a.args
  | .info a => loggerInfo a.locals s a.module a.format a.args
  | .warning a => loggerWarning a.locals s a.module a.format a.args
  | .error a => loggerError a.locals s a.module a.format a.args
  | .setModuleLevel module level => some (loggerSetModuleLevel s module level)
  | .service => (loggerService s).map Prod.snd

/-- The calls of a sequence in turn. -/
def LoggerState.run (s : LoggerState) (ops : List LoggerOp) : Option LoggerState :=
  ops.foldlM LoggerState.step s

/-! ### What the calls say -/

/-- The level most recently given to `logger_set_module_level`, and the log calls accepted since
the last `logger_service`. -/
structure History where
  level : LogLevel
  accepted : List (LogLevel × LogArgs)

/-- A log call is accepted if its level is at least the level in force. -/
def History.log (h : History) (level : LogLevel) (a : LogArgs) : History :=
  if h.level.toNat ≤ level.toNat then { h with accepted := h.accepted ++ [(level, a)] } else h

def History.step (h : History) : LoggerOp → History
  | .log level a => h.log level a
  | .debug a => h.log .debug a
  | .info a => h.log .info a
  | .warning a => h.log .warning a
  | .error a => h.log .error a
  | .setModuleLevel _ level => { h with level }
  | .service => { h with accepted := [] }

/-- The history of a sequence of calls after `logger_init`. -/
def history (ops : List LoggerOp) : History := ops.foldl History.step ⟨.info, []⟩

/-- The line of an accepted call. -/
def line (call : LogLevel × LogArgs) : List UInt8 :=
  ascii "[" ++ logLevelToString call.1 ++ ascii "] " ++ call.2.module.text.take 63 ++ ascii ": "
    ++ call.2.message.take 255 ++ ascii "\n"

/-! ### One call -/

/-- The entry a call pushes. -/
def entryOf (call : LogLevel × LogArgs) : LogEntry where
  level := call.1
  message :=
    (copyUpTo 255 call.2.locals.entry.message 0 call.2.message).1.set
      (copyUpTo 255 call.2.locals.entry.message 0 call.2.message).2 0
  module := copyModule call.2.locals.entry.module call.2.module

/-- The level functions only turn the comparison of `logger_log` round. -/
theorem loggerLevel_eq (level : LogLevel) (locals : LogLocals) (s : LoggerState)
    (module format : CString) (args : List Arg) :
    loggerLevel level locals s module format args
      = loggerLog locals s level module format args := by
  unfold loggerLevel loggerLog
  dsimp only
  by_cases h : level.toNat < (loggerGetModuleLevel s module).toNat
  · rw [if_neg (by omega), if_pos h]
  · rw [if_pos (by omega), if_neg h]

theorem logGuarded_eq (s : LoggerState) (level : LogLevel) (a : LogArgs) :
    logGuarded a.locals s level a.module a.format a.args
      = some { s with
          guard := interruptGuardRelease (interruptGuardAcquire s.guard)
          buffer := loggerBufferPush s.buffer (entryOf (level, a)) } := by
  have hexpand : expand a.format.text a.args = some a.message := (Option.some_get a.matching).symm
  unfold logGuarded
  dsimp only
  rw [simpleFormatString_eq a.locals.format _ _ hexpand]
  rfl

/-- The entry of a call is put out as the call's line. -/
theorem outputEntry_entryOf (call : LogLevel × LogArgs) :
    outputEntry (entryOf call) = some (line call) := by
  obtain ⟨level, a⟩ := call
  have hexpand : expand a.format.text a.args = some a.message := (Option.some_get a.matching).symm
  have hmodule := textAt_copyUpTo 63 a.locals.entry.module a.module.zero_notMem
  have hmessage := textAt_copyUpTo 255 a.locals.entry.message
    (zero_notMem_expand _ _ _ a.format.zero_notMem hexpand)
  have hreadModule := readString_eq hmodule
    (Nat.lt_succ_of_le (List.length_take_le 63 a.module.text))
  have hreadMessage := readString_eq hmessage
    (Nat.lt_succ_of_le (List.length_take_le 255 a.message))
  -- both texts have their `NUL` inside their arrays
  unfold outputEntry
  show (Option.bind _ fun _ => Option.bind _ _) = _
  rw [show (entryOf (level, a)).module.readString moduleSize 0 = _ from hreadModule,
    show (entryOf (level, a)).message.readString maxLogMessageLength.toNat 0 = _ from hreadMessage]
  rfl

/-! ### The service loop -/

/-- The service loop puts out every entry and leaves the buffer empty. -/
theorem serviceLoop_eq {b : LogBuffer} {calls : List (LogLevel × LogArgs)}
    (hb : Represents b (calls.map entryOf)) {fuel : ℕ} (hfuel : calls.length < fuel) :
    ∃ b', serviceLoop fuel b = some ((calls.map line).flatten, b') ∧ Represents b' [] := by
  induction calls generalizing b fuel with
  | nil =>
    obtain ⟨fuel, rfl⟩ := Nat.exists_eq_add_one.mpr hfuel
    -- an empty buffer ends the loop
    obtain ⟨hanswer, hnext⟩ := hb.pop
    refine ⟨(loggerBufferPop b).2, ?_, hnext⟩
    rw [serviceLoop, ← Prod.eta (loggerBufferPop b), hanswer]
    rfl
  | cons call calls ih =>
    rw [List.length_cons] at hfuel
    obtain ⟨fuel, rfl⟩ := Nat.exists_eq_add_one.mpr (Nat.zero_lt_of_lt hfuel)
    obtain ⟨hanswer, hnext⟩ := hb.pop
    obtain ⟨b', hrest, hlast⟩ := ih hnext (Nat.lt_of_succ_lt_succ hfuel)
    refine ⟨b', ?_, hlast⟩
    rw [serviceLoop, ← Prod.eta (loggerBufferPop b), hanswer]
    show (outputEntry (entryOf call)).bind _ = _
    rw [outputEntry_entryOf, Option.bind_some, hrest]
    rfl

/-! ### Every run -/

/-- The logger has taken in a history: the level in force, and the entries of the last 64 accepted
calls in the buffer. -/
structure Logs (s : LoggerState) (h : History) : Prop where
  level_eq : s.defaultLevel = h.level
  represents : Represents s.buffer ((h.accepted.rtake 64).map entryOf)

theorem logs_init (s : LoggerState) : Logs (loggerInit s).1 ⟨.info, []⟩ :=
  ⟨rfl, represents_init s.buffer⟩

/-- The last calls' entries are the last entries. -/
theorem map_rtake (calls : List (LogLevel × LogArgs)) :
    (calls.rtake 64).map entryOf = (calls.map entryOf).rtake 64 := by
  unfold List.rtake
  rw [List.map_drop, List.length_map]

namespace Logs

variable {s : LoggerState} {h : History}

theorem log (hs : Logs s h) (level : LogLevel) (a : LogArgs) :
    ∃ s', loggerLog a.locals s level a.module a.format a.args = some s' ∧
      Logs s' (h.log level a) := by
  unfold loggerLog loggerGetModuleLevel History.log
  dsimp only
  rw [hs.level_eq]
  by_cases hlevel : level.toNat < h.level.toNat
  · rw [if_pos hlevel, if_neg (by omega)]
    exact ⟨s, rfl, hs⟩
  · rw [if_neg hlevel, if_pos (by omega), logGuarded_eq]
    refine ⟨_, rfl, hs.level_eq, ?_⟩
    -- the buffer drops its oldest entry when it holds 64
    have hpush := hs.represents.push (entryOf (level, a))
    rw [map_rtake, push_rtake (by decide)] at hpush
    show Represents (loggerBufferPush s.buffer (entryOf (level, a))) _
    rw [map_rtake, List.map_append, List.map_singleton]
    exact hpush

theorem logLevel (hs : Logs s h) (level : LogLevel) (a : LogArgs) :
    ∃ s', loggerLevel level a.locals s a.module a.format a.args = some s' ∧
      Logs s' (h.log level a) := by
  rw [loggerLevel_eq]
  exact hs.log level a

theorem service (hs : Logs s h) :
    ∃ s', loggerService s = some (((h.accepted.rtake 64).map line).flatten, s') ∧
      Logs s' { h with accepted := [] } := by
  have hlen : (h.accepted.rtake 64).length < s.buffer.count.toNat + 1 := by
    rw [← hs.represents.length_eq, List.length_map]
    exact Nat.lt_succ_self _
  obtain ⟨b', hloop, hlast⟩ := serviceLoop_eq hs.represents hlen
  refine ⟨{ s with buffer := b' }, ?_, hs.level_eq, hlast⟩
  unfold loggerService
  rw [hloop]
  rfl

/-- Every call keeps the logger in step with the history. -/
theorem step (hs : Logs s h) (op : LoggerOp) :
    ∃ s', s.step op = some s' ∧ Logs s' (h.step op) := by
  cases op with
  | log level a => exact hs.log level a
  | debug a => exact hs.logLevel .debug a
  | info a => exact hs.logLevel .info a
  | warning a => exact hs.logLevel .warning a
  | error a => exact hs.logLevel .error a
  | setModuleLevel module level => exact ⟨_, rfl, rfl, hs.represents⟩
  | service =>
    obtain ⟨s', hservice, hlogs⟩ := hs.service
    refine ⟨s', ?_, hlogs⟩
    show (loggerService s).map Prod.snd = some s'
    rw [hservice]
    rfl

theorem run (hs : Logs s h) (ops : List LoggerOp) :
    ∃ s', s.run ops = some s' ∧ Logs s' (ops.foldl History.step h) := by
  induction ops generalizing s h with
  | nil => exact ⟨s, rfl, hs⟩
  | cons op ops ih =>
    obtain ⟨s', hstep, hlogs⟩ := hs.step op
    obtain ⟨s'', hrun, hlast⟩ := ih hlogs
    refine ⟨s'', ?_, hlast⟩
    unfold LoggerState.run
    rw [List.foldlM_cons, hstep]
    exact hrun

end Logs

/-- **A service puts out the last 64 accepted log calls since the service before**, and the level
functions are `logger_log` at their level. -/
theorem loggerService_text (s₀ : LoggerState) (ops : List LoggerOp) :
    (∃ s s', (loggerInit s₀).1.run ops = some s ∧
      loggerService s = some ((((history ops).accepted.rtake 64).map line).flatten, s')) ∧
    ∀ locals s module format args,
      loggerDebug locals s module format args = loggerLog locals s .debug module format args ∧
      loggerInfo locals s module format args = loggerLog locals s .info module format args ∧
      loggerWarning locals s module format args = loggerLog locals s .warning module format args ∧
      loggerError locals s module format args = loggerLog locals s .error module format args := by
  constructor
  · obtain ⟨s, hrun, hlogs⟩ := (logs_init s₀).run ops
    obtain ⟨s', hservice, -⟩ := hlogs.service
    exact ⟨s, s', hrun, hservice⟩
  · intro locals s module format args
    exact ⟨loggerLevel_eq .., loggerLevel_eq .., loggerLevel_eq .., loggerLevel_eq ..⟩

end Shogun.Logger
