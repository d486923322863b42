import Shogun.Terminal.IntToString

/-!
# The message formatter (`simple_format_string` in `logger.c`)

The formatter copies the format into a bounded array, `%s`, `%d` and `%x` replaced by the
arguments.  `dst` always is `buffer + written`, so one counter stands for both; `written` never
passes `buffer_size - 1`, so a natural number does for the `size_t`.

The answer `none` stands for a `va_arg` that does not find the argument it asks for.
-/

namespace Shogun.Logger

open CharArray Terminal

/-- An argument of a log call: what `va_arg` can be asked for. -/
inductive Arg where
  /-- A `char*`, `none` for `NULL`. -/
  | str (s : Option CString)
  | int (n : Int32)
  | uint (n : UInt32)

/-- `if (written < buffer_size - 1) { *dst++ = c; written++; }`. -/
def putIfRoom (limit : ℕ) (c : UInt8) (out : CharArray × ℕ) : CharArray × ℕ :=
  if out.2 < limit then (out.1.set out.2 c, out.2 + 1) else out

/-! ### `%d` -/

/-- `while (num_str[i] && written < buffer_size - 1)`, by recursion on the room that is left. -/
def copyNumStr (numStr : CharArray) : ℕ → CharArray → ℕ → ℕ → CharArray × ℕ
  | 0, buffer, written, _ => (buffer, written)
  | room + 1, buffer, written, i =>
    if numStr i = 0 then (buffer, written)
    else copyNumStr numStr room (buffer.set written (numStr i)) (written + 1) (i + 1)

/-! ### `%x` -/

/-- The character of a nibble. -/
def hexChar (digit : UInt32) : UInt8 :=
  if digit < 10 then (48 + digit).toUInt8 else (97 + (digit - 10)).toUInt8

/-- `while (n > 0)`: `temp` and `pos` after it, `none` after `fuel` rounds without an end. -/
def nibbleLoop : ℕ → CharArray → ℕ → UInt32 → Option (CharArray × ℕ)
  | 0, _, _, _ => none
  | fuel + 1, temp, pos, n =>
    if n > 0 then nibbleLoop fuel (temp.set pos (hexChar (n &&& 0xF))) (pos + 1) (n >>> 4)
    else some (temp, pos)

/-- A 32-bit number has eight nibbles, so that nine tests of the loop condition are enough. -/
def nibbleFuel : ℕ := 9

/-- `for (int j = pos - 1; j >= 0; j--)`, by recursion on `j + 1`. -/
def putTemp (limit : ℕ) (temp : CharArray) : ℕ → CharArray × ℕ → CharArray × ℕ
  | 0, out => out
  | j + 1, out => putTemp limit temp j (putIfRoom limit (temp j) out)

/-! ### The formatter -/

/-- What the uninitialised arrays of a call hold: `num_str` and `temp` at the conversion whose
character stands in front of the rest of the format. -/
structure FormatLocals where
  numStr : List UInt8 → CharArray
  temp : List UInt8 → CharArray

/-- `switch (*src)` behind a `%`; `src` is the rest of the format. -/
def formatConversion (locals : FormatLocals) (limit : ℕ) (c : UInt8) (src : List UInt8)
    (args : List Arg) (out : CharArray × ℕ) : Option (List Arg × CharArray × ℕ) :=
  if c = 115 then -- 's'
    match args with
    | .str (some s) :: args => some (args, copyUpTo limit out.1 out.2 s.text)
    | .str none :: args => some (args, out)
    | _ => none
  else if c = 100 then -- 'd'
    match args with
    | .int num :: args => do
      let numStr ← intToString num (locals.numStr src)
      return (args, copyNumStr numStr (limit - out.2) out.1 out.2 0)
    | _ => none
  else if c = 120 then -- 'x'
    match args with
    | .uint num :: args =>
      if num = 0 then some (args, putIfRoom limit 48 out)
      else do
        let (temp, pos) ← nibbleLoop nibbleFuel (locals.temp src) 0 num
        return (args, putTemp limit temp pos out)
    | _ => none
  else some (args, putIfRoom limit c out)

/-- `while (*src && written < buffer_size - 1)`.  A `%` at the end of the format has no character
behind it and is copied. -/
def formatLoop (locals : FormatLocals) (limit : ℕ) :
    List UInt8 → List Arg → CharArray × ℕ → Option (CharArray × ℕ)
  | [], _, out => some out
  | [c], _, out =>
    if out.2 < limit then some (out.1.set out.2 c, out.2 + 1) else some out
  | c :: d :: src, args, out =>
    if out.2 < limit then
      if c = 37 then do -- '%'
        let (args, out) ← formatConversion locals limit d src args out
        formatLoop locals limit src args out
      else formatLoop locals limit (d :: src) args (out.1.set out.2 c, out.2 + 1)
    else some out

/-- The array and the number written, before it is returned as an `int`; `buffer_size - 1` wraps for
an empty array. -/
def simpleFormatString (locals : FormatLocals) (buffer : CharArray) (bufferSize : UInt32)
    (format : CString) (args : List Arg) : Option (CharArray × ℕ) := do
  let (buffer, written) ← formatLoop locals (bufferSize - 1).toNat format.text args (buffer, 0)
  return (buffer.set written 0, written)

end Shogun.Logger
