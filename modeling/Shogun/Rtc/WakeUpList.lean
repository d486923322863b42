import Mathlib.Logic.Function.Basic
import Shogun.Util.LinkedList

/-!
# The wake-up list as a list of numbered entries

What the functions of `rtc.c` do to the clock and to the wake-up list when the entries lie apart.
The RTC interrupt increments the tick count and walks the wake-up list: entries whose tick has come
are unlinked and freed and their callback is called.  `wake_up_list_add` pushes an entry at the
head.

This is the abstract model of `HeapTimers`, which has the list where the code has it, in the heap of
`memory.c`.  Here an entry has a number, in the order `malloc` hands them out, a number is never
used again, and `free` writes to no entry.  None of this is so for every heap, and the conditions
under which the code behaves as this model does are those of `Refines`.

Whether a `malloc` succeeds is part of the call, and so are the calls of `wake_up_list_add` that a
callback makes.  The calls of callbacks and of `free` are recorded.
-/

namespace Shogun.Rtc

open LinkedList

/-- What an entry of the list says; the callback is a function pointer, `0` when it is `NULL`. -/
structure WakeUp where
  wakeUpTick : UInt32
  callback : UInt32
  callbackData : UInt32
  deriving DecidableEq, Repr

/-- An entry of the list. -/
structure WakeUpEntry extends WakeUp where
  next : Option ℕ
  deriving DecidableEq, Repr

/-- A call of the callback of `entry`, made by a check at `tick`. -/
structure Firing where
  entry : ℕ
  callback : UInt32
  callbackData : UInt32
  tick : UInt32
  deriving DecidableEq, Repr

/-- The globals `monotonic_time` and `wake_up_list`, which are `NULL` until they are initialised,
and the entries.  `top` numbers the next entry `malloc` hands out. -/
structure TimerState where
  hasMonotonicTime : Bool
  tickCount : UInt32
  hasWakeUpList : Bool
  entries : Option ℕ
  entryCount : UInt32
  nodes : ℕ → WakeUpEntry
  top : ℕ
  fired : List Firing
  freed : List ℕ

/-! ### Monotonic time -/

def monotonicTimeInitGlobal (s : TimerState) (allocated : Bool) : TimerState :=
  if !s.hasMonotonicTime && allocated then { s with hasMonotonicTime := true, tickCount := 0 }
  else s

def monotonicTimeGetTicksGlobal (s : TimerState) : UInt32 :=
  if s.hasMonotonicTime then s.tickCount else 0

def monotonicTimeIncrementGlobal (s : TimerState) : TimerState :=
  if s.hasMonotonicTime then { s with tickCount := s.tickCount + 1 } else s

/-! ### The list -/

namespace TimerState

/-- The pointer cells of the list. -/
def links (s : TimerState) : Links ℕ := ⟨s.entries, fun e => (s.nodes e).next⟩

def setWakeUpTick (s : TimerState) (e : ℕ) (tick : UInt32) : TimerState :=
  { s with nodes := Function.update s.nodes e { s.nodes e with wakeUpTick := tick } }

def setCallback (s : TimerState) (e : ℕ) (callback : UInt32) : TimerState :=
  { s with nodes := Function.update s.nodes e { s.nodes e with callback := callback } }

def setCallbackData (s : TimerState) (e : ℕ) (data : UInt32) : TimerState :=
  { s with nodes := Function.update s.nodes e { s.nodes e with callbackData := data } }

def setNext (s : TimerState) (e : ℕ) (next : Option ℕ) : TimerState :=
  { s with nodes := Function.update s.nodes e { s.nodes e with next := next } }

/-- `*prev_ptr = v`, where `prev_ptr` is `&wake_up_list->entries` (`none`) or `&e->next`. -/
def storePrev (s : TimerState) (prevPtr v : Option ℕ) : TimerState :=
  match prevPtr with
  | none => { s with entries := v }
  | some e => s.setNext e v

end TimerState

def wakeUpListInit (s : TimerState) (allocated : Bool) : TimerState :=
  if !s.hasWakeUpList && allocated then
    { s with hasWakeUpList := true, entries := none, entryCount := 0 }
  else s

/-- A call of `wake_up_list_add` and the outcome of its `malloc`. -/
structure AddCall extends WakeUp where
  allocated : Bool
  deriving DecidableEq, Repr

def wakeUpListAdd (s : TimerState) (call : AddCall) : TimerState :=
  if !s.hasWakeUpList then s
  else if !call.allocated then s
  else
    let newEntry := s.top
    let s := { s with top := newEntry + 1 }
    let s := s.setWakeUpTick newEntry call.wakeUpTick
    let s := s.setCallback newEntry call.callback
    let s := s.setCallbackData newEntry call.callbackData
    let s := s.setNext newEntry s.entries
    let s := { s with entries := some newEntry }
    { s with entryCount := s.entryCount + 1 }

/-- `current->callback(current->callback_data)`, when there is one; `rearm` is what the callback of
each entry adds. -/
def runCallback (rearm : ℕ → List AddCall) (currentTick : UInt32) (s : TimerState) (e : ℕ) :
    TimerState :=
  if (s.nodes e).callback = 0 then s
  else
    let firing := ⟨e, (s.nodes e).callback, (s.nodes e).callbackData, currentTick⟩
    (rearm e).foldl wakeUpListAdd { s with fired := s.fired ++ [firing] }

/-- The locals of the walk. -/
structure CheckLocals where
  current : Option ℕ
  prevPtr : Option ℕ
  deriving DecidableEq, Repr

/-- The body of `while (current)`. -/
def visitEntry (rearm : ℕ → List AddCall) (currentTick : UInt32) (s : TimerState)
    (l : CheckLocals) (e : ℕ) : TimerState × CheckLocals :=
  if (s.nodes e).wakeUpTick ≤ currentTick then
    let s := runCallback rearm currentTick s e
    let s := s.storePrev l.prevPtr (s.nodes e).next
    let l := { l with current := (s.nodes e).next }
    let s := { s with freed := s.freed ++ [e] }
    ({ s with entryCount := s.entryCount - 1 }, l)
  else (s, ⟨(s.nodes e).next, some e⟩)

/-- `while (current)`; `none` if it is still running when the fuel is used up. -/
def checkLoop (rearm : ℕ → List AddCall) (currentTick : UInt32) (fuel : ℕ) (s : TimerState)
    (l : CheckLocals) : Option (TimerState × CheckLocals) :=
  match l.current, fuel with
  | none, _ => some (s, l)
  | some _, 0 => none
  | some e, fuel + 1 =>
    let (s, l) := visitEntry rearm currentTick s l e
    checkLoop rearm currentTick fuel s l

/-- The list has no more entries than were ever allocated. -/
def wakeUpListCheckAndExecute (rearm : ℕ → List AddCall) (s : TimerState) : Option TimerState :=
  if s.hasWakeUpList then
    (checkLoop rearm (monotonicTimeGetTicksGlobal s) s.top s ⟨s.entries, none⟩).map Prod.fst
  else some s

/-- What `rtc_interrupt_handler` does to the timers. -/
def rtcTick (rearm : ℕ → List AddCall) (s : TimerState) : Option TimerState :=
  wakeUpListCheckAndExecute rearm (monotonicTimeIncrementGlobal s)

/-! ### Runs -/

/-- A step of a run: a call of `wake_up_list_add` that gets its entry, or an RTC interrupt whose
callbacks leave the list alone. -/
inductive WakeOp where
  | add (call : WakeUp)
  | tick
  deriving DecidableEq, Repr

/-- The timers before initialisation, over memory with any contents. -/
def bootTimers (nodes : ℕ → WakeUpEntry) (top : ℕ) : TimerState :=
  { hasMonotonicTime := false
    tickCount := 0
    hasWakeUpList := false
    entries := none
    entryCount := 0
    nodes := nodes
    top := top
    fired := []
    freed := [] }

/-- The timers after `monotonic_time_init_global` and `wake_up_list_init`. -/
def initTimers (nodes : ℕ → WakeUpEntry) (top : ℕ) : TimerState :=
  wakeUpListInit (monotonicTimeInitGlobal (bootTimers nodes top) true) true

end Shogun.Rtc
