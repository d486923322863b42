import Shogun.Memory.Allocator
import Shogun.Terminal.PutNumber

/-!
# The dump of the free list (`memory.c`)

`debug_print_free_list` prints a line for each segment of the free list.  The source has `\\n` in
its strings, so that a backslash and an `n` stand at the end of each line.

The text is what is passed to `output_string`; `stack` is what the uninitialised arrays of `put_hex`
and `put_u32` hold, by what was printed before the call.  The loop is run with a bound, as those of
`allocate` and `deallocate` are.
-/

namespace Shogun.Memory

open Terminal

variable (stack : List UInt8 → CharArray)

/-- `put_hex(num)`, after `out` was printed. -/
def printHex (out : List UInt8) (num : UInt32) : Option (List UInt8) :=
  (putHex (stack out) num).map (out ++ ·)

/-- `put_u32(num)`, after `out` was printed. -/
def printU32 (out : List UInt8) (num : UInt32) : Option (List UInt8) :=
  (putU32 (stack out) num).map (out ++ ·)

/-- The body of `while (current != NULL)`. -/
def printSegment (h : Heap) (out : List UInt8) (current : UInt32) : Option (List UInt8) := do
  let startAddr := current
  let endAddr := startAddr + sizeofFreeSegment + h.size current
  let out ← printHex stack out startAddr
  let out := out ++ ascii ": "
  let out ← printHex stack out endAddr
  let out := out ++ ascii ", FreeSegment \x7b size: "
  let out ← printU32 stack out (h.size current)
  let out := out ++ ascii ", next_segment: "
  let out ← if h.nextSegment current ≠ 0 then printHex stack out (h.nextSegment current)
    else some (out ++ ascii "0x0")
  return out ++ ascii " \x7d\\n"

/-- `while (current != NULL)`. -/
def debugPrintLoop (h : Heap) : ℕ → List UInt8 → UInt32 → Option (List UInt8)
  | 0, _, _ => none
  | fuel + 1, out, current =>
    if current ≠ 0 then do
      let out ← printSegment stack h out current
      debugPrintLoop h fuel out (h.nextSegment current)
    else some out

def debugPrintFreeList (h : Heap) (out : List UInt8) : Option (List UInt8) :=
  if h.firstFree = 0 then some (out ++ ascii "Free list is empty\\n")
  else debugPrintLoop stack h (2 ^ 32) out h.firstFree

end Shogun.Memory
