import Shogun.Rtc.HeapTimers

/-!
# `wake_up_list_add` under interrupts

`sleep_future_create` and `sleep_seconds` call `wake_up_list_add` with interrupts enabled, so the
RTC interrupt may come between any two of its statements.  The interrupt is one step: the handler
runs with interrupts disabled.
-/

namespace Shogun.Rtc

/-- The statement of `wake_up_list_add` that is next. -/
inductive AddPc where
  /-- `if (wake_up_list == NULL) return` -/
  | testList
  /-- `new_entry = malloc(...)`, and `return` when it is `NULL` -/
  | allocate
  /-- `new_entry->wake_up_tick = wake_up_tick` -/
  | setWakeUpTick
  /-- `new_entry->callback = callback` -/
  | setCallback
  /-- `new_entry->callback_data = callback_data` -/
  | setCallbackData
  /-- `new_entry->next = wake_up_list->entries` -/
  | setNext
  /-- `wake_up_list->entries = new_entry` -/
  | setEntries
  /-- `atomic_fetch_add(&wake_up_list->entry_count, 1)` -/
  | count
  /-- The call has returned. -/
  | done
  deriving DecidableEq, Repr

/-- A call of `wake_up_list_add` on its way. -/
structure AddState where
  pc : AddPc
  call : WakeUp
  newEntry : UInt32
  timers : HeapTimers

namespace AddState

/-- The call before its first statement. -/
def start (c : HeapTimers) (call : WakeUp) : AddState := ⟨.testList, call, 0, c⟩

/-- `new_entry->field = v`, and on to `pc`. -/
def store (a : AddState) (k v : UInt32) (pc : AddPc) : AddState :=
  { a with pc := pc, timers := a.timers.setField a.newEntry k v }

/-- The next statement; `none` if it does not return. -/
def statement (a : AddState) : Option AddState :=
  let c := a.timers
  match a.pc with
  | .testList => some { a with pc := if c.wakeUpList = 0 then .done else .allocate }
  | .allocate =>
    (c.memory.malloc 16).map fun (m, newEntry) =>
      let c := { c with memory := m }
      if newEntry = 0 then { a with pc := .done, newEntry := newEntry, timers := c }
      else { a with pc := .setWakeUpTick, newEntry := newEntry, timers := c.number newEntry }
  | .setWakeUpTick => some (a.store 0 a.call.wakeUpTick .setCallback)
  | .setCallback => some (a.store 4 a.call.callback .setCallbackData)
  | .setCallbackData => some (a.store 8 a.call.callbackData .setNext)
  | .setNext => some (a.store 12 (c.field c.wakeUpList 0) .setEntries)
  | .setEntries => some { a with pc := .count, timers := c.setField c.wakeUpList 0 a.newEntry }
  | .count =>
    some { a with
      pc := .done
      timers := c.setField c.wakeUpList 4 (c.field c.wakeUpList 4 + 1) }
  | .done => some a

end AddState

/-- What happens next: a statement of the call, or the RTC interrupt. -/
inductive AddStep where
  | statement
  | tick
  deriving DecidableEq, Repr

namespace AddState

/-- One step; `none` if it does not return. -/
def step (a : AddState) : AddStep → Option AddState
  | .statement => a.statement
  | .tick => (a.timers.rtcTick fun _ => []).map fun c => { a with timers := c }

/-- The steps of an interleaving in turn. -/
def run (a : AddState) : List AddStep → Option AddState
  | [] => some a
  | σ :: σs => (a.step σ).bind fun a' => a'.run σs

end AddState

end Shogun.Rtc
