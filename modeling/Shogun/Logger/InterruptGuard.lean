import Mathlib.Data.List.Count

/-!
# The interrupt guard of the logger (`logger.c`)

`interrupt_guard_acquire` and `interrupt_guard_release` bracket the critical section of every log
call.  The guard is a nesting counter and the CPU's interrupt flag; it keeps no copy of the flag.

`atomic_uint_fast32_t` is 32 bits wide on i386, so the counter is a `UInt32` and wraps.
-/

namespace Shogun.Logger

/-- What the guard reads and writes: the interrupt flag of the CPU and
`interrupt_guard_counter`. -/
structure GuardState where
  interruptFlag : Bool
  interruptGuardCounter : UInt32
  deriving DecidableEq, Repr

/-- `cli`, then `atomic_fetch_add`. -/
def interruptGuardAcquire (s : GuardState) : GuardState :=
  { interruptFlag := false, interruptGuardCounter := s.interruptGuardCounter + 1 }

/-- `atomic_fetch_sub`, then `sti` when the new count is zero. -/
def interruptGuardRelease (s : GuardState) : GuardState :=
  let newCount := s.interruptGuardCounter - 1
  { interruptFlag := if newCount = 0 then true else s.interruptFlag
    interruptGuardCounter := newCount }

/-- A call on the guard. -/
inductive GuardOp where
  | acquire
  | release
  deriving DecidableEq, Repr

/-- The effect of one call. -/
def GuardState.step (s : GuardState) : GuardOp → GuardState
  | .acquire => interruptGuardAcquire s
  | .release => interruptGuardRelease s

/-- The calls of a sequence in turn. -/
def GuardState.run (s : GuardState) (ops : List GuardOp) : GuardState :=
  ops.foldl GuardState.step s

/-! ### The guard calls of the log functions -/

/-- The levels of a log call, least severe first. -/
inductive LogLevel where
  | debug
  | info
  | warning
  | error
  deriving DecidableEq, Repr

/-- The value of the enumerator in C. -/
def LogLevel.toNat : LogLevel → ℕ
  | .debug => 0
  | .info => 1
  | .warning => 2
  | .error => 3

/-- `logger_log` returns early below the module's level; else it enters the guard once. -/
def loggerLogGuard (moduleLevel level : LogLevel) : List GuardOp :=
  if level.toNat < moduleLevel.toNat then [] else [.acquire, .release]

/-- The body that `logger_debug`, `logger_info`, `logger_warning` and `logger_error` share. -/
def loggerLevelGuard (level moduleLevel : LogLevel) : List GuardOp :=
  if level.toNat ≥ moduleLevel.toNat then [.acquire, .release] else []

def loggerDebugGuard : LogLevel → List GuardOp := loggerLevelGuard .debug

def loggerInfoGuard : LogLevel → List GuardOp := loggerLevelGuard .info

def loggerWarningGuard : LogLevel → List GuardOp := loggerLevelGuard .warning

def loggerErrorGuard : LogLevel → List GuardOp := loggerLevelGuard .error

/-- A call of one of the log functions; the first argument is the level
`logger_get_module_level` answers to it. -/
inductive LogCall where
  | log (moduleLevel level : LogLevel)
  | debug (moduleLevel : LogLevel)
  | info (moduleLevel : LogLevel)
  | warning (moduleLevel : LogLevel)
  | error (moduleLevel : LogLevel)
  deriving DecidableEq, Repr

/-- The guard calls it makes. -/
def LogCall.guardOps : LogCall → List GuardOp
  | .log moduleLevel level => loggerLogGuard moduleLevel level
  | .debug moduleLevel => loggerDebugGuard moduleLevel
  | .info moduleLevel => loggerInfoGuard moduleLevel
  | .warning moduleLevel => loggerWarningGuard moduleLevel
  | .error moduleLevel => loggerErrorGuard moduleLevel

end Shogun.Logger
