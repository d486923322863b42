import Shogun.Util.ByteMemory
import Shogun.Util.Loop

/-!
# Copying bytes (`libc.c`)

`memcpy` runs over the flat memory, one byte a round from the lowest index up.  `size_t` is 32 bits
wide and `p[i]` is the byte at `p + i`, which goes round at the top of memory.
-/

namespace Shogun.Memory

/-- `p[i] = v`. -/
def setByte (m : ByteMemory) (p : UInt32) (i : ℕ) (v : UInt8) : ByteMemory := fun a =>
  if a = p + .ofNat i then v else m a

/-- The memory after `memcpy(dest, src, num)`.  Each byte is read from the memory the rounds before
have left. -/
def memcpy (m : ByteMemory) (dest src num : UInt32) : ByteMemory :=
  forLoop num.toNat (fun i m => setByte m dest i (m (src + .ofNat i))) m

end Shogun.Memory
