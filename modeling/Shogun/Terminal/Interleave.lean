import Shogun.Serial.Uart
import Shogun.Terminal.Vga

/-!
# `write_string` under interrupts (`terminal.c`)

The RTC interrupt handler prints a dot every 256 ticks, and `output_string(".")` there uses the same
cursor as the code that it interrupts.  So `write_string` is taken here one access to the static
variables and to the screen at a time: `terminal_column++` reads the column and writes it back, a
step of `scroll_terminal` reads a cell and stores it one row higher.  The interrupt may come between
any two accesses; the handler runs with interrupts disabled, so that its own `terminal_put_char` is
one step.
-/

namespace Shogun.Terminal

open Serial (Writer)

/-- The access of `write_string` that is next. -/
inductive PutPc where
  /-- `terminal_column` and `terminal_row` are read as the arguments of `put_char`. -/
  | arguments
  /-- `vga_buffer[y * VGA_WIDTH + x] = entry` -/
  | store (x y : ℕ)
  /-- The read of `terminal_column++` -/
  | readColumn
  /-- The write of `terminal_column++` -/
  | writeColumn (column : UInt8)
  /-- `if (terminal_column >= VGA_WIDTH)` -/
  | testColumn
  /-- `terminal_column = 0` -/
  | zeroColumn
  /-- The read of `terminal_row++` -/
  | readRow
  /-- The write of `terminal_row++` -/
  | writeRow (row : UInt8)
  /-- `if (terminal_row >= VGA_HEIGHT)` -/
  | testRow
  /-- The read of `vga_buffer[(y + 1) * VGA_WIDTH + x]` in `scroll_terminal` -/
  | load (y x : ℕ)
  /-- `vga_buffer[y * VGA_WIDTH + x] = entry` in `scroll_terminal` -/
  | copy (y x : ℕ) (entry : UInt16)
  /-- `vga_buffer[(VGA_HEIGHT - 1) * VGA_WIDTH + x] = ' ' | (uint16_t)terminal_color << 8` -/
  | blank (x : ℕ)
  /-- `terminal_row = VGA_HEIGHT - 1` -/
  | setRow
  /-- The call has returned. -/
  | done
  deriving DecidableEq, Repr

/-- A call on its way; `str` is the part of the string from `str[i]` on.  `printed` records the
characters that are done, and who printed them. -/
structure PutState where
  pc : PutPc
  str : List UInt8
  vga : VgaState
  printed : List (Writer × UInt8)

/-- What happens next: an access of the call, or the RTC interrupt that prints a dot. -/
inductive PutStep where
  | access
  | dot
  deriving DecidableEq, Repr

/-- The start of the loop body for `str[i]`, or the end of the loop. -/
def PutPc.enter : List UInt8 → PutPc
  | [] => .done
  | c :: _ => if c = 10 then .zeroColumn else .arguments

/-- The two loops over the rows that are copied, behind the cell in row `y` and column `x`. -/
def PutPc.nextCell (y x : ℕ) : PutPc :=
  if x + 1 < vgaWidth then .load y (x + 1)
  else if y + 1 < vgaHeight - 1 then .load (y + 1) 0
  else .blank 0

namespace PutState

/-- `write_string(str)` before its first access. -/
def start (vga : VgaState) (str : List UInt8) : PutState := ⟨.enter str, str, vga, []⟩

/-- `i++`, and the next round of the loop. -/
def next (s : PutState) : PutState :=
  match s.str with
  | [] => { s with pc := .done }
  | c :: str => { s with pc := .enter str, str := str, printed := s.printed ++ [(.main, c)] }

/-- The next access of the call. -/
def access (s : PutState) : PutState :=
  match s.pc with
  | .arguments =>
    { s with pc := .store s.vga.terminalColumn.toNat s.vga.terminalRow.toNat }
  | .store x y =>
    match s.str with
    | [] => s
    | c :: _ => { s with pc := .readColumn, vga := putChar s.vga c s.vga.terminalColor x y }
  | .readColumn => { s with pc := .writeColumn (s.vga.terminalColumn + 1) }
  | .writeColumn column =>
    { s with pc := .testColumn, vga := { s.vga with terminalColumn := column } }
  | .testColumn =>
    { s with pc := if s.vga.terminalColumn.toNat ≥ vgaWidth then .zeroColumn else .testRow }
  | .zeroColumn => { s with pc := .readRow, vga := { s.vga with terminalColumn := 0 } }
  | .readRow => { s with pc := .writeRow (s.vga.terminalRow + 1) }
  | .writeRow row => { s with pc := .testRow, vga := { s.vga with terminalRow := row } }
  | .testRow =>
    if s.vga.terminalRow.toNat ≥ vgaHeight then { s with pc := .load 0 0 } else s.next
  | .load y x => { s with pc := .copy y x (s.vga.vgaBuffer ((y + 1) * vgaWidth + x)) }
  | .copy y x entry =>
    { s with pc := .nextCell y x, vga := s.vga.store (y * vgaWidth + x) entry }
  | .blank x =>
    { s with
      pc := if x + 1 < vgaWidth then .blank (x + 1) else .setRow
      vga := s.vga.store ((vgaHeight - 1) * vgaWidth + x) (blankEntry s.vga.terminalColor) }
  | .setRow => { s with vga := { s.vga with terminalRow := 24 } }.next
  | .done => s

/-- `write_string(".")` in the handler. -/
def dot (s : PutState) : PutState :=
  { s with vga := terminalPutChar s.vga 46, printed := s.printed ++ [(.handler, 46)] }

def step (s : PutState) : PutStep → PutState
  | .access => s.access
  | .dot => s.dot

/-- The steps of an interleaving in turn. -/
def run (s : PutState) (steps : List PutStep) : PutState := steps.foldl step s

end PutState

end Shogun.Terminal
