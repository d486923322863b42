import Shogun.Logger.Buffer
import Shogun.Logger.Format

/-!
# The log functions and the service loop (`logger.c`)

A log call fills a `LogEntry` on its stack inside the interrupt guard and pushes it; the service
loop pops the entries and passes their text to `output_string`.  The answer `none` stands for a
call whose format does not find its arguments, or a text without its `NUL`.
-/

namespace Shogun.Logger

open CharArray

/-- The state of the logger: `g_log_buffer`, `g_logger.default_level` and the interrupt guard.
`g_logger.buffer` always points to `g_log_buffer`. -/
structure LoggerState where
  guard : GuardState
  buffer : LogBuffer
  defaultLevel : LogLevel

/-- The state, and the text passed to `output_string`. -/
def loggerInit (s : LoggerState) : LoggerState × List UInt8 :=
  ({ s with buffer := s.buffer.init, defaultLevel := .info }, ascii "Logger initialized!\n")

def loggerGetModuleLevel (s : LoggerState) (_module : CString) : LogLevel := s.defaultLevel

def loggerSetModuleLevel (s : LoggerState) (_module : CString) (level : LogLevel) : LoggerState :=
  { s with defaultLevel := level }

/-- Only the four enumerators are passed as levels, so the `default` case is not reached. -/
def logLevelToString : LogLevel → List UInt8
  | .debug => ascii "DEBUG"
  | .info => ascii "INFO"
  | .warning => ascii "WARNING"
  | .error => ascii "ERROR"

/-! ### Log calls -/

/-- What the uninitialised locals of a log call hold. -/
structure LogLocals where
  entry : LogEntry
  format : FormatLocals

/-- `MAX_LOG_MESSAGE_LENGTH`. -/
def maxLogMessageLength : UInt32 := 256

/-- `sizeof(entry.module)`. -/
def moduleSize : ℕ := 64

/-- The loop that copies `module` into the entry, and the `NUL` behind it. -/
def copyModule (array : CharArray) (module : CString) : CharArray :=
  let (array, i) := copyUpTo (moduleSize - 1) array 0 module.text
  array.set i 0

/-- The part of a log call between `interrupt_guard_acquire` and `interrupt_guard_release`, these
included. -/
def logGuarded (locals : LogLocals) (s : LoggerState) (level : LogLevel) (module format : CString)
    (args : List Arg) : Option LoggerState := do
  let s := { s with guard := interruptGuardAcquire s.guard }
  let entry := { locals.entry with level, module := copyModule locals.entry.module module }
  let (message, _) ←
    simpleFormatString locals.format entry.message maxLogMessageLength format args
  let s := { s with buffer := loggerBufferPush s.buffer { entry with message } }
  return { s with guard := interruptGuardRelease s.guard }

def loggerLog (locals : LogLocals) (s : LoggerState) (level : LogLevel) (module format : CString)
    (args : List Arg) : Option LoggerState :=
  let moduleLevel := loggerGetModuleLevel s module
  if level.toNat < moduleLevel.toNat then some s
  else logGuarded locals s level module format args

/-- The body that `logger_debug`, `logger_info`, `logger_warning` and `logger_error` share. -/
def loggerLevel (level : LogLevel) (locals : LogLocals) (s : LoggerState) (module format : CString)
    (args : List Arg) : Option LoggerState :=
  let moduleLevel := loggerGetModuleLevel s module
  if level.toNat ≥ moduleLevel.toNat then logGuarded locals s level module format args
  else some s

def loggerDebug : LogLocals → LoggerState → CString → CString → List Arg → Option LoggerState :=
  loggerLevel .debug

def loggerInfo : LogLocals → LoggerState → CString → CString → List Arg → Option LoggerState :=
  loggerLevel .info

def loggerWarning : LogLocals → LoggerState → CString → CString → List Arg → Option LoggerState :=
  loggerLevel .warning

def loggerError : LogLocals → LoggerState → CString → CString → List Arg → Option LoggerState :=
  loggerLevel .error

/-! ### The service loop -/

/-- The texts passed to `output_string` for one entry, put together. -/
def outputEntry (entry : LogEntry) : Option (List UInt8) := do
  let module ← entry.module.readString moduleSize 0
  let message ← entry.message.readString maxLogMessageLength.toNat 0
  return ascii "[" ++ logLevelToString entry.level ++ ascii "] " ++ module ++ ascii ": " ++ message
    ++ ascii "\n"

/-- `while (logger_buffer_pop(&entry))`, `none` after `fuel` rounds without an end. -/
def serviceLoop : ℕ → LogBuffer → Option (List UInt8 × LogBuffer)
  | 0, _ => none
  | fuel + 1, b =>
    match loggerBufferPop b with
    | (none, b) => some ([], b)
    | (some entry, b) => do
      let line ← outputEntry entry
      let (rest, b) ← serviceLoop fuel b
      return (line ++ rest, b)

/-- The text passed to `output_string`, and the state.  Every round takes an entry, so that one
test more than there are entries is enough. -/
def loggerService (s : LoggerState) : Option (List UInt8 × LoggerState) := do
  let (text, b) ← serviceLoop (s.buffer.count.toNat + 1) s.buffer
  return (text, { s with buffer := b })

end Shogun.Logger
