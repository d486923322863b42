import Shogun.Terminal.IntToString

/-!
# Printing numbers (`terminal.c`)

`put_i32`, `put_u32`, `put_u64` and `put_hex` write the text of a number into an array on their
stack and pass it to `output_string`.  What they pass, put together, is the text that is answered;
`none` stands for an array that holds no `NUL`.  The arrays are uninitialised, so their contents are
an argument.
-/

namespace Shogun.Terminal

open CharArray

def putI32 (buffer : CharArray) (num : Int32) : Option (List UInt8) := do
  let buffer ← intToString num buffer
  buffer.readString 12 0

def putU32 (buffer : CharArray) (num : UInt32) : Option (List UInt8) := do
  let buffer ← uintToString num buffer
  buffer.readString 11 0

/-- The zeros that `put_u64` puts in front of the lower half. -/
def zeroPadding (lower : UInt32) : List UInt8 :=
  if lower < 10 then ascii "000000000"
  else if lower < 100 then ascii "00000000"
  else if lower < 1000 then ascii "0000000"
  else if lower < 10000 then ascii "000000"
  else if lower < 100000 then ascii "00000"
  else if lower < 1000000 then ascii "0000"
  else if lower < 10000000 then ascii "000"
  else if lower < 100000000 then ascii "00"
  else if lower < 1000000000 then ascii "0"
  else []

/-- `upperBuffer` and `buffer` are the arrays of `put_u32(upper)` and of `put_u64`; a number below
`2 ^ 32` is printed by the call of `put_u32` alone. -/
def putU64 (upperBuffer buffer : CharArray) (num : UInt64) : Option (List UInt8) :=
  let upper := (num >>> 32).toUInt32
  let lower := num.toUInt32
  if upper ≠ 0 then do
    let upperText ← putU32 upperBuffer upper
    let buffer ← uintToString lower buffer
    let lowerText ← buffer.readString 11 0
    return upperText ++ zeroPadding lower ++ lowerText
  else putU32 upperBuffer lower

/-! ### `put_hex` -/

/-- `hex_chars[i]`. -/
def hexChars (i : UInt32) : UInt8 := (ascii "0123456789ABCDEF").getD i.toNat 0

/-- `for (i = 8; i > 0; i--)`, by recursion on `i`. -/
def hexLoop : ℕ → CharArray → UInt32 → CharArray
  | 0, buffer, _ => buffer
  | i + 1, buffer, num =>
    hexLoop i (buffer.set (i + 1 + 1) (hexChars (num &&& 0xF))) (num >>> 4)

def putHex (buffer : CharArray) (num : UInt32) : Option (List UInt8) :=
  let buffer := buffer.set 0 48
  let buffer := buffer.set 1 120
  let buffer := hexLoop 8 buffer num
  let buffer := buffer.set 10 0
  buffer.readString 11 0

end Shogun.Terminal
