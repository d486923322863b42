import Mathlib.Data.UInt
import Shogun.Util.CString

/-!
# Decimal numerals (`terminal.c`)

`int_to_string` stores the digits of a number lowest first, a minus sign behind them, and reverses
the text in place.  Numbers are 32-bit two's complement, so `num = -num` leaves the least of them
negative, and `/` and `%` round towards zero.  `uint_to_string` does the same with an unsigned
number, without a sign.
-/

namespace Shogun.Terminal

/-- `(num % 10) + '0'`, stored into a `char`. -/
def digitChar (num : Int32) : UInt8 := (num % 10 + 48).toUInt32.toUInt8

/-- `while (num != 0)`: the array and `i` after it, `none` after `fuel` rounds without an end. -/
def digitLoop : ℕ → CharArray → ℕ → Int32 → Option (CharArray × ℕ)
  | 0, _, _, _ => none
  | fuel + 1, buffer, i, num =>
    if num ≠ 0 then digitLoop fuel (buffer.set i (digitChar num)) (i + 1) (num / 10)
    else some (buffer, i)

/-- A 32-bit number has at most ten digits, so that eleven tests of the loop condition are
enough. -/
def digitFuel : ℕ := 11

def intToString (num : Int32) (buffer : CharArray) : Option CharArray :=
  if num = 0 then some ((buffer.set 0 48).set 1 0)
  else do
    let negative := decide (num < 0)
    let num := if negative then -num else num
    let (buffer, i) ← digitLoop digitFuel buffer 0 num
    let (buffer, i) := if negative then (buffer.set i 45, i + 1) else (buffer, i)
    return (buffer.set i 0).reverseLoop 0 (i - 1)

/-! ### Unsigned numbers -/

/-- `(num % 10) + '0'`, stored into a `char`. -/
def uintDigitChar (num : UInt32) : UInt8 := (num % 10 + 48).toUInt8

/-- `while (num != 0)`: the array and `i` after it, `none` after `fuel` rounds without an end. -/
def uintDigitLoop : ℕ → CharArray → ℕ → UInt32 → Option (CharArray × ℕ)
  | 0, _, _, _ => none
  | fuel + 1, buffer, i, num =>
    if num ≠ 0 then uintDigitLoop fuel (buffer.set i (uintDigitChar num)) (i + 1) (num / 10)
    else some (buffer, i)

def uintToString (num : UInt32) (buffer : CharArray) : Option CharArray :=
  if num = 0 then some ((buffer.set 0 48).set 1 0)
  else do
    let (buffer, i) ← uintDigitLoop digitFuel buffer 0 num
    return (buffer.set i 0).reverseLoop 0 (i - 1)

end Shogun.Terminal
