import Shogun.Memory.Client
import Shogun.Rtc.WakeUpList

/-!
# Monotonic time and the wake-up list (`rtc.c`)

The clock, the list and its entries are structures in the heap, at pointers that `malloc` has
returned.  `MonotonicTime` is the word `tick_count`; `WakeUpList` is `entries` at offset 0 and
`entry_count` at offset 4; `WakeUpEntry` is `wake_up_tick`, `callback`, `callback_data` and `next`,
at offsets 0, 4, 8 and 12.  `NULL` is `0`.

A function of the source is a function on the heap with the pointers; it is `none` when it does not
return, because a call of `malloc` or `free` does not or because the walk of the list is still going
on after `2^32` turns.
-/

namespace Shogun.Rtc

open Memory

/-- The globals `monotonic_time` and `wake_up_list`, which are `NULL` until they are initialised,
and the heap they point into.  No function reads the rest: the number of the entry that was handed
out last at each address, how many there were, and the calls of callbacks and of `free`. -/
structure HeapTimers where
  memory : HeapState
  monotonicTime : UInt32
  wakeUpList : UInt32
  entryOf : UInt32 → ℕ
  added : ℕ
  fired : List Firing
  freed : List ℕ

namespace HeapTimers

def field (c : HeapTimers) (p k : UInt32) : UInt32 := c.memory.field p k

def setField (c : HeapTimers) (p k v : UInt32) : HeapTimers :=
  { c with memory := c.memory.setField p k v }

/-- The entry at `p` gets the next number. -/
def number (c : HeapTimers) (p : UInt32) : HeapTimers :=
  { c with entryOf := Function.update c.entryOf p c.added, added := c.added + 1 }

/-- `free` of an entry. -/
def freeEntry (c : HeapTimers) (p : UInt32) : Option HeapTimers :=
  (c.memory.free p).map fun m => { c with memory := m, freed := c.freed ++ [c.entryOf p] }

/-! ### Monotonic time -/

def monotonicTimeInitGlobal (c : HeapTimers) : Option HeapTimers :=
  if c.monotonicTime = 0 then
    (c.memory.malloc 4).map fun (m, p) =>
      let c := { c with memory := m, monotonicTime := p }
      if p ≠ 0 then c.setField p 0 0 else c
  else some c

def monotonicTimeGetTicksGlobal (c : HeapTimers) : UInt32 :=
  if c.monotonicTime ≠ 0 then c.field c.monotonicTime 0 else 0

def monotonicTimeIncrementGlobal (c : HeapTimers) : HeapTimers :=
  if c.monotonicTime ≠ 0 then
    c.setField c.monotonicTime 0 (c.field c.monotonicTime 0 + 1)
  else c

/-! ### The list -/

def wakeUpListInit (c : HeapTimers) : Option HeapTimers :=
  if c.wakeUpList = 0 then
    (c.memory.malloc 8).map fun (m, p) =>
      let c := { c with memory := m, wakeUpList := p }
      if p ≠ 0 then (c.setField p 0 0).setField p 4 0 else c
  else some c

/-- The stores to the fields of a new entry. -/
def fillEntry (c : HeapTimers) (newEntry : UInt32) (call : WakeUp) : HeapTimers :=
  let c := c.setField newEntry 0 call.wakeUpTick
  let c := c.setField newEntry 4 call.callback
  let c := c.setField newEntry 8 call.callbackData
  c.setField newEntry 12 (c.field c.wakeUpList 0)

/-- The new entry becomes the head of the list, and is counted. -/
def linkEntry (c : HeapTimers) (newEntry : UInt32) : HeapTimers :=
  let c := c.setField c.wakeUpList 0 newEntry
  c.setField c.wakeUpList 4 (c.field c.wakeUpList 4 + 1)

def wakeUpListAdd (c : HeapTimers) (call : WakeUp) : Option HeapTimers :=
  if c.wakeUpList = 0 then some c
  else
    (c.memory.malloc 16).map fun (m, newEntry) =>
      let c := { c with memory := m }
      if newEntry = 0 then c
      else ((c.number newEntry).fillEntry newEntry call).linkEntry newEntry

/-- The call of the callback of `current` is recorded. -/
def fire (c : HeapTimers) (currentTick current : UInt32) : HeapTimers :=
  { c with
    fired := c.fired ++ [⟨c.entryOf current, c.field current 4, c.field current 8, currentTick⟩] }

/-- The calls of `wake_up_list_add` that a callback makes. -/
def addAll (c : HeapTimers) : List WakeUp → Option HeapTimers
  | [] => some c
  | call :: calls => (c.wakeUpListAdd call).bind fun c' => c'.addAll calls

/-- `current->callback(current->callback_data)`, when there is one; `rearm` is what the callback of
each entry adds. -/
def runCallback (rearm : ℕ → List WakeUp) (currentTick : UInt32) (c : HeapTimers)
    (current : UInt32) : Option HeapTimers :=
  if c.field current 4 = 0 then some c
  else (c.fire currentTick current).addAll (rearm (c.entryOf current))

/-- The locals of the walk; `prevPtr` is `&wake_up_list->entries` or the `&current->next` of an
entry. -/
structure CheckPtrs where
  current : UInt32
  prevPtr : UInt32
  deriving DecidableEq, Repr

/-- The body of `while (current)`. -/
def visitEntry (rearm : ℕ → List WakeUp) (currentTick : UInt32) (c : HeapTimers) (l : CheckPtrs) :
    Option (HeapTimers × CheckPtrs) :=
  if c.field l.current 0 ≤ currentTick then do
    let c ← runCallback rearm currentTick c l.current
    let c := c.setField l.prevPtr 0 (c.field l.current 12)
    let next := c.field l.current 12
    let c ← c.freeEntry l.current
    some (c.setField c.wakeUpList 4 (c.field c.wakeUpList 4 - 1), ⟨next, l.prevPtr⟩)
  else some (c, ⟨c.field l.current 12, l.current + 12⟩)

/-- `while (current)`. -/
def checkLoop (rearm : ℕ → List WakeUp) (currentTick : UInt32) :
    ℕ → HeapTimers → CheckPtrs → Option HeapTimers
  | 0, c, l => if l.current = 0 then some c else none
  | fuel + 1, c, l =>
    if l.current = 0 then some c
    else (visitEntry rearm currentTick c l).bind fun r => checkLoop rearm currentTick fuel r.1 r.2

def wakeUpListCheckAndExecute (rearm : ℕ → List WakeUp) (c : HeapTimers) : Option HeapTimers :=
  if c.wakeUpList = 0 then some c
  else
    checkLoop rearm c.monotonicTimeGetTicksGlobal (2 ^ 32) c
      ⟨c.field c.wakeUpList 0, c.wakeUpList⟩

/-- What `rtc_interrupt_handler` does to the timers. -/
def rtcTick (rearm : ℕ → List WakeUp) (c : HeapTimers) : Option HeapTimers :=
  c.monotonicTimeIncrementGlobal.wakeUpListCheckAndExecute rearm

/-! ### Runs -/

/-- The effect of a step of a run, with callbacks that leave the list alone. -/
def step (c : HeapTimers) : WakeOp → Option HeapTimers
  | .add call => c.wakeUpListAdd call
  | .tick => c.rtcTick fun _ => []

/-- The steps of a run in turn. -/
def run (c : HeapTimers) : List WakeOp → Option HeapTimers
  | [] => some c
  | op :: ops => (c.step op).bind fun c' => c'.run ops

/-- The timers before initialisation. -/
def boot (m : HeapState) : HeapTimers := ⟨m, 0, 0, fun _ => 0, 0, [], []⟩

/-- `monotonic_time_init_global` and `wake_up_list_init`. -/
def init (m : HeapState) : Option HeapTimers :=
  (boot m).monotonicTimeInitGlobal.bind wakeUpListInit

end HeapTimers

end Shogun.Rtc
