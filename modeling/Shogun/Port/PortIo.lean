import Shogun.Port.PortManager

/-!
# Access through a handle (`io.c`)

`read_port_b` and `write_port_b` access the port that the slot of a handle holds at that time.  What
is behind the ports is a parameter.
-/

namespace Shogun.Port

/-- The devices behind the ports: what `inb` answers and what `inb` and `outb` change. -/
structure PortBus (σ : Type*) where
  inB : σ → UInt16 → UInt8 × σ
  outB : σ → UInt16 → UInt8 → σ

variable {σ : Type*}

/-- The byte read, and the devices; a `NULL` handle reads `0`. -/
def readPortB (bus : PortBus σ) (r : Registry) (handle : Option Slot) (d : σ) : UInt8 × σ :=
  match handle with
  | none => (0, d)
  | some i => bus.inB d (r.portRegistry i).port

def writePortB (bus : PortBus σ) (r : Registry) (handle : Option Slot) (value : UInt8) (d : σ) :
    σ :=
  match handle with
  | none => d
  | some i => bus.outB d (r.portRegistry i).port value

end Shogun.Port
