import Mathlib.Data.UInt
import Mathlib.Logic.Function.Basic
import Shogun.Util.CString
import Shogun.Util.Loop

/-!
# The VGA text terminal (`terminal.c`)

The screen is an array of 80 by 25 sixteen-bit cells, row by row.  `char` is signed, so a byte from
`0x80` on is sign-extended before it is put into a cell.
-/

namespace Shogun.Terminal

/-- The static variables of `terminal.c`.  `stores` records the indices of `vga_buffer` stored to,
last first; no function reads it. -/
structure VgaState where
  vgaBuffer : ℕ → UInt16
  terminalRow : UInt8
  terminalColumn : UInt8
  terminalColor : UInt8
  stores : List ℕ

/-- `VGA_WIDTH`. -/
def vgaWidth : ℕ := 80

/-- `VGA_HEIGHT`. -/
def vgaHeight : ℕ := 25

/-- `vga_buffer[i] = entry`. -/
def VgaState.store (s : VgaState) (i : ℕ) (entry : UInt16) : VgaState :=
  { s with vgaBuffer := Function.update s.vgaBuffer i entry, stores := i :: s.stores }

/-- `(uint16_t)c | (uint16_t)color << 8`. -/
def vgaEntry (c color : UInt8) : UInt16 := c.toInt8.toInt16.toUInt16 ||| color.toUInt16 <<< 8

def putChar (s : VgaState) (c color : UInt8) (x y : ℕ) : VgaState :=
  s.store (y * vgaWidth + x) (vgaEntry c color)

/-- `' ' | (uint16_t)terminal_color << 8`. -/
def blankEntry (color : UInt8) : UInt16 := (32 : UInt16) ||| color.toUInt16 <<< 8

def scrollTerminal (s : VgaState) : VgaState :=
  let s := forLoop (vgaHeight - 1) (fun y s =>
    forLoop vgaWidth (fun x s =>
      s.store (y * vgaWidth + x) (s.vgaBuffer ((y + 1) * vgaWidth + x))) s) s
  forLoop vgaWidth (fun x s =>
    s.store ((vgaHeight - 1) * vgaWidth + x) (blankEntry s.terminalColor)) s

def clearTerminal (s : VgaState) : VgaState :=
  let s := forLoop vgaHeight (fun y s =>
    forLoop vgaWidth (fun x s => putChar s 32 s.terminalColor x y) s) s
  { s with terminalRow := 0, terminalColumn := 0 }

/-- `if (terminal_row >= VGA_HEIGHT)`, which ends `terminal_put_cursor` and the newline branch of
`terminal_put_char`. -/
def scrollIfBelow (s : VgaState) : VgaState :=
  if s.terminalRow.toNat ≥ vgaHeight then { scrollTerminal s with terminalRow := 24 } else s

def terminalPutCursor (s : VgaState) : VgaState :=
  let s := { s with terminalColumn := s.terminalColumn + 1 }
  let s :=
    if s.terminalColumn.toNat ≥ vgaWidth then
      { s with terminalColumn := 0, terminalRow := s.terminalRow + 1 }
    else s
  scrollIfBelow s

def terminalPutChar (s : VgaState) (c : UInt8) : VgaState :=
  if c = 10 then -- '\n'
    scrollIfBelow { s with terminalColumn := 0, terminalRow := s.terminalRow + 1 }
  else
    terminalPutCursor
      (putChar s c s.terminalColor s.terminalColumn.toNat s.terminalRow.toNat)

def writeString (s : VgaState) (str : CString) : VgaState := str.text.foldl terminalPutChar s

end Shogun.Terminal
