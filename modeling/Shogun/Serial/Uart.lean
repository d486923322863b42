import Mathlib.Data.UInt
import Shogun.Async.Serial
import Shogun.Port.PortIo

/-!
# The serial port (`io.c`)

COM1 is a 16550 behind the ports `0x3F8` to `0x3FD`.  Bytes written to its data port wait in the
transmit FIFO, go to the shift register one by one and from there to the line; in loopback mode they
come back to the receiver instead.  A byte written to a full FIFO is lost.

`init_serial` and `write_serial_string` are taken one port access at a time, since the port goes on
between them.  The RTC interrupt handler writes a dot to the port every 256 ticks, which may come
between any two accesses of the main code; the handler waits for the port itself and is one step.
-/

namespace Shogun.Serial

open Async Port

/-! ### The port -/

/-- A 16550.  `line` is what has gone out on the line and `dropped` what was written to a full FIFO,
both in order; the driver reads neither. -/
structure Uart where
  interruptEnable : UInt8
  divisorLow : UInt8
  divisorHigh : UInt8
  fifoControl : UInt8
  lineControl : UInt8
  modemControl : UInt8
  receiveBuffer : UInt8
  fifo : List UInt8
  shift : Option UInt8
  line : List UInt8
  dropped : List UInt8
  deriving DecidableEq, Repr

namespace Uart

/-- `DLAB`: the first two ports are those of the divisor. -/
def dlab (u : Uart) : Bool := u.lineControl &&& 0x80 != 0

def loopback (u : Uart) : Bool := u.modemControl &&& 0x10 != 0

/-- The bytes that fit into the transmit FIFO; without it there is one holding register. -/
def depth (u : Uart) : ℕ := if u.fifoControl &&& 0x01 != 0 then 16 else 1

/-- The line status: bit 5 says that the FIFO is empty, bit 6 that the shift register is, too. -/
def lineStatus (u : Uart) : UInt8 :=
  (if u.fifo.isEmpty then 0x20 else 0x00) |||
    (if u.fifo.isEmpty && u.shift.isNone then 0x40 else 0x00)

/-- A byte written to the data port. -/
def transmit (u : Uart) (value : UInt8) : Uart :=
  if u.fifo.length < u.depth then { u with fifo := u.fifo ++ [value] }
  else { u with dropped := u.dropped ++ [value] }

/-- A byte written to the FIFO control port; bit 2 empties the transmit FIFO. -/
def writeFifoControl (u : Uart) (value : UInt8) : Uart :=
  { u with fifoControl := value, fifo := if value &&& 0x04 != 0 then [] else u.fifo }

/-- The next byte goes from the FIFO to the shift register, if that is free. -/
def load (u : Uart) : Uart :=
  match u.shift, u.fifo with
  | none, b :: fifo => { u with shift := some b, fifo := fifo }
  | _, _ => u

/-- The byte in the shift register is done. -/
def finish (u : Uart) : Uart :=
  match u.shift with
  | none => u
  | some b =>
    if u.loopback then { u with shift := none, receiveBuffer := b }
    else { u with shift := none, line := u.line ++ [b] }

/-- What was written and is not done, in order. -/
def pending (u : Uart) : List UInt8 := u.shift.toList ++ u.fifo

/-- The port until it has nothing more to do. -/
def drain (u : Uart) : Uart :=
  if u.loopback then
    { u with shift := none, fifo := [], receiveBuffer := u.pending.getLast?.getD u.receiveBuffer }
  else { u with shift := none, fifo := [], line := u.line ++ u.pending }

end Uart

def serialCom1 : UInt16 := 0x3F8

/-- The ports of COM1.  Ports that the driver does not read, and those of no device, answer
`0xFF`. -/
def uartBus : PortBus Uart where
  inB u port :=
    if port = serialCom1 then (if u.dlab then u.divisorLow else u.receiveBuffer, u)
    else if port = serialCom1 + 5 then (u.lineStatus, u)
    else (0xFF, u)
  outB u port value :=
    if port = serialCom1 then
      if u.dlab then { u with divisorLow := value } else u.transmit value
    else if port = serialCom1 + 1 then
      if u.dlab then { u with divisorHigh := value } else { u with interruptEnable := value }
    else if port = serialCom1 + 2 then u.writeFifoControl value
    else if port = serialCom1 + 3 then { u with lineControl := value }
    else if port = serialCom1 + 4 then { u with modemControl := value }
    else u

/-! ### `init_serial` -/

/-- An `out_b` or an `in_b`. -/
inductive PortAccess where
  | outB (port : UInt16) (value : UInt8)
  | inB (port : UInt16)
  deriving DecidableEq, Repr

/-- The effect of an access; `init_serial` does nothing with the byte it reads. -/
def PortAccess.apply (u : Uart) : PortAccess → Uart
  | .outB port value => uartBus.outB u port value
  | .inB port => (uartBus.inB u port).2

/-- The accesses of `init_serial` with a handle of `port`. -/
def initSerialAccesses (port : UInt16) : List PortAccess :=
  [.outB (port + 1) 0x00, .outB (port + 3) 0x80, .outB (port + 0) 0x03, .outB (port + 1) 0x00,
    .outB (port + 3) 0x03, .outB (port + 2) 0xC7, .outB (port + 4) 0x0B, .outB (port + 4) 0x1E,
    .outB (port + 0) 0xAE, .inB (port + 0), .outB (port + 4) 0x0F]

/-- What happens next: an access of the driver, or a step of the port. -/
inductive InitStep where
  | access
  | load
  | finish
  deriving DecidableEq, Repr

/-- `init_serial` on its way, with the accesses it has still to make. -/
structure InitState where
  rest : List PortAccess
  uart : Uart

/-- `init_serial` before its first access, and the registry; without a handle there is none. -/
def initSerial (r : Registry) (u : Uart) : InitState × Registry :=
  match requestPort r serialCom1 with
  | (none, r) => (⟨[], u⟩, r)
  | (some handle, r) => (⟨initSerialAccesses (r.portRegistry handle).port, u⟩, r)

namespace InitState

def step (s : InitState) : InitStep → InitState
  | .access =>
    match s.rest with
    | [] => s
    | a :: rest => ⟨rest, a.apply s.uart⟩
  | .load => { s with uart := s.uart.load }
  | .finish => { s with uart := s.uart.finish }

/-- The steps of an interleaving in turn. -/
def run (s : InitState) (steps : List InitStep) : InitState := steps.foldl step s

end InitState

/-! ### `write_serial_string` -/

/-- The port access of `write_serial_string` that is next. -/
inductive WritePc where
  /-- The read of the line status in `write_serial('\r')` -/
  | pollReturn
  /-- `out_b(SERIAL_DATA_PORT(SERIAL_COM1), '\r')` -/
  | sendReturn
  /-- The read of the line status in `write_serial(str[i])` -/
  | poll
  /-- `out_b(SERIAL_DATA_PORT(SERIAL_COM1), str[i])` -/
  | send
  /-- The call has returned. -/
  | done
  deriving DecidableEq, Repr

/-- The code that writes to the port. -/
inductive Writer where
  | main
  | handler
  deriving DecidableEq, Repr

/-- What `writer` wrote of the bytes in a record, in order. -/
def Writer.bytes (writer : Writer) (log : List (Writer × UInt8)) : List UInt8 :=
  (log.filter fun p => p.1 = writer).map Prod.snd

/-- A call on its way; `str` is the part of the string from `str[i]` on, and `sent` records what was
written to the data port, and by whom. -/
structure WriteState where
  pc : WritePc
  str : List UInt8
  uart : Uart
  sent : List (Writer × UInt8)

/-- What happens next: an access of the call, a step of the port, or the RTC interrupt that prints a
dot. -/
inductive WriteStep where
  | access
  | load
  | finish
  | dot
  deriving DecidableEq, Repr

/-- The start of the loop body for `str[i]`, or the end of the loop. -/
def WritePc.enter : List UInt8 → WritePc
  | [] => .done
  | c :: _ => if c = 10 then .pollReturn else .poll

namespace WriteState

/-- `write_serial_string(str)` before its first access. -/
def start (u : Uart) (str : List UInt8) : WriteState := ⟨.enter str, str, u, []⟩

/-- `serial_is_transmit_empty()`. -/
def transmitEmpty (s : WriteState) : Bool :=
  serialIsTransmitEmpty (uartBus.inB s.uart (serialCom1 + 5)).1

/-- A byte goes to the data port. -/
def out (s : WriteState) (writer : Writer) (value : UInt8) : WriteState :=
  { s with
    uart := uartBus.outB s.uart serialCom1 value
    sent := s.sent ++ [(writer, value)] }

/-- The next port access of the call. -/
def access (s : WriteState) : WriteState :=
  match s.pc with
  | .pollReturn => if s.transmitEmpty then { s with pc := .sendReturn } else s
  | .sendReturn => { s.out .main 13 with pc := .poll }
  | .poll => if s.transmitEmpty then { s with pc := .send } else s
  | .send =>
    match s.str with
    | [] => s
    | c :: str => { s.out .main c with pc := .enter str, str := str }
  | .done => s

/-- `write_serial_string(".")` in the handler, which waits until the port is done. -/
def dot (s : WriteState) : WriteState := { s with uart := s.uart.drain }.out .handler 46

def step (s : WriteState) : WriteStep → WriteState
  | .access => s.access
  | .load => { s with uart := s.uart.load }
  | .finish => { s with uart := s.uart.finish }
  | .dot => s.dot

/-- The steps of an interleaving in turn. -/
def run (s : WriteState) (steps : List WriteStep) : WriteState := steps.foldl step s

end WriteState

end Shogun.Serial
