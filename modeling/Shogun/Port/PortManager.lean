import Mathlib.Data.List.FinRange
import Mathlib.Logic.Function.Basic

/-!
# The port registry (`port_manager.c`)

Drivers ask for an I/O port and get the address of a slot of a fixed table as their handle.  A
released slot keeps its port number and is handed out again by the next request that finds it
first.
-/

namespace Shogun.Port

/-- `PortHandle`; nothing reads its `next`. -/
structure PortHandle where
  port : UInt16
  inUse : Bool
  deriving DecidableEq, Repr

/-- `MAX_TRACKED_PORTS`. -/
def maxTrackedPorts : ℕ := 64

/-- An index into `port_registry`. -/
abbrev Slot : Type := Fin maxTrackedPorts

/-- The static variables of `port_manager.c`. -/
structure Registry where
  portRegistry : Slot → PortHandle
  initialized : Bool

/-- The contents of static storage. -/
def Registry.static : Registry where
  portRegistry := fun _ => ⟨0, false⟩
  initialized := false

/-- What a caller can pass as a handle. -/
inductive Handle where
  | null
  | slot (i : Slot)
  /-- A pointer that is not to a slot of the table. -/
  | outside
  deriving DecidableEq, Repr

def initPortManager (r : Registry) : Registry :=
  if r.initialized then r else ⟨fun _ => ⟨0, false⟩, true⟩

/-- `port_registry[i].in_use && port_registry[i].port == port`. -/
def Registry.holds (r : Registry) (port : UInt16) (i : Slot) : Bool :=
  (r.portRegistry i).inUse && (r.portRegistry i).port == port

def isPortInUse (r : Registry) (port : UInt16) : Bool :=
  (List.finRange maxTrackedPorts).any (r.holds port)

/-- The slot handed out, `none` for `NULL`, and the registry. -/
def requestPort (r : Registry) (port : UInt16) : Option Slot × Registry :=
  let r := if r.initialized then r else initPortManager r
  if (List.finRange maxTrackedPorts).any (r.holds port) then (none, r)
  else
    match (List.finRange maxTrackedPorts).find? fun i => !(r.portRegistry i).inUse with
    | some i => (some i, { r with portRegistry := Function.update r.portRegistry i ⟨port, true⟩ })
    | none => (none, r)

def releasePort (r : Registry) : Handle → Registry
  | .null => r
  | .outside => r
  | .slot i =>
    if (r.portRegistry i).inUse then
      { r with
        portRegistry :=
          Function.update r.portRegistry i { r.portRegistry i with inUse := false } }
    else r

/-! ### Sequences of calls -/

/-- A call on the registry. -/
inductive PortOp where
  | request (port : UInt16)
  | release (handle : Handle)
  deriving DecidableEq, Repr

/-- The effect of one call. -/
def Registry.step (r : Registry) : PortOp → Registry
  | .request port => (requestPort r port).2
  | .release handle => releasePort r handle

/-- The calls of a sequence in turn. -/
def Registry.run (r : Registry) (ops : List PortOp) : Registry := ops.foldl Registry.step r

end Shogun.Port
