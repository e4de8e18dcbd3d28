import RvBoard.Fdt
import RvBoard.Plic

/-!
# Serial port

A 16550A. The guest writes bytes that the host drains, and reads bytes that the host has put into
the receive FIFO. Transmission completes at once, so the transmitter is empty unless the buffer to
the host is full.
-/

set_option autoImplicit false

namespace RvBoard

structure Uart where
  ier : UInt8 := 0
  fcr : UInt8 := 0
  lcr : UInt8 := 0x03
  mcr : UInt8 := 0
  scr : UInt8 := 0
  dll : UInt8 := 0x01
  dlm : UInt8 := 0
  rx : List UInt8 := []
  tx : Array UInt8 := #[]
  threPending : Bool := false
deriving DecidableEq, Repr

namespace Uart

def name : String := "serial"
def size : UInt64 := 0x100
def clockFrequency : UInt32 := 3686400

def rxCapacity : Nat := 16
def txCapacity : Nat := 4096

def ierData : UInt8 := 0x01
def ierThre : UInt8 := 0x02
def lsrData : UInt8 := 0x01
def lsrEmpty : UInt8 := 0x60
def modemStatus : UInt8 := 0xb0

/-- The divisor latch takes the place of the first two registers. -/
def dlab (uart : Uart) : Bool :=
  uart.lcr &&& 0x80 != 0

def canTransmit (uart : Uart) : Bool :=
  uart.tx.size < txCapacity

def lineStatus (uart : Uart) : UInt8 :=
  (if uart.rx.isEmpty then 0 else lsrData) ||| (if uart.canTransmit then lsrEmpty else 0)

inductive Cause where
  | none
  | transmitter
  | data
deriving DecidableEq, Repr

def Cause.id : Cause → UInt8
  | .none => 0x01
  | .transmitter => 0x02
  | .data => 0x04

/-- The reason to interrupt; received data comes first. -/
def cause (uart : Uart) : Cause :=
  if uart.ier &&& ierData != 0 && !uart.rx.isEmpty then .data
  else if uart.ier &&& ierThre != 0 && uart.threPending then .transmitter
  else .none

def interrupt (uart : Uart) : Bool :=
  uart.cause != .none

def fifoBits (uart : Uart) : UInt8 :=
  if uart.fcr &&& 1 != 0 then 0xc0 else 0

def identify (uart : Uart) : UInt8 × Uart :=
  let cause := uart.cause
  (cause.id ||| uart.fifoBits,
    if cause = .transmitter then { uart with threPending := false } else uart)

def receive (uart : Uart) : UInt8 × Uart :=
  match uart.rx with
  | [] => (0, uart)
  | byte :: rest => (byte, { uart with rx := rest })

def read (uart : Uart) (offset : UInt64) : UInt8 × Uart :=
  match offset with
  | 0 => if uart.dlab then (uart.dll, uart) else uart.receive
  | 1 => (if uart.dlab then uart.dlm else uart.ier, uart)
  | 2 => uart.identify
  | 3 => (uart.lcr, uart)
  | 4 => (uart.mcr, uart)
  | 5 => (uart.lineStatus, uart)
  | 6 => (modemStatus, uart)
  | 7 => (uart.scr, uart)
  | _ => (0, uart)

/-- Whether reading a register updates the interrupt line: received data is taken, or the interrupt of
the transmitter. -/
def readUpdates (uart : Uart) (offset : UInt64) : Bool :=
  match offset with
  | 0 => !uart.dlab
  | 2 => uart.cause == .transmitter
  | _ => false

def transmit (uart : Uart) (byte : UInt8) : Uart :=
  if uart.canTransmit then { uart with tx := uart.tx.push byte, threPending := true }
  else { uart with threPending := true }

def setIer (uart : Uart) (value : UInt8) : Uart :=
  let rises := uart.ier &&& ierThre == 0 && value &&& 0x0f &&& ierThre != 0
  { uart with ier := value &&& 0x0f, threPending := uart.threPending || rises }

def setFcr (uart : Uart) (value : UInt8) : Uart :=
  { uart with
    rx := if value &&& 2 != 0 then [] else uart.rx
    tx := if value &&& 4 != 0 then #[] else uart.tx
    fcr := value &&& 1 }

def write (uart : Uart) (offset : UInt64) (value : UInt8) : Uart :=
  match offset with
  | 0 => if uart.dlab then { uart with dll := value } else uart.transmit value
  | 1 => if uart.dlab then { uart with dlm := value } else uart.setIer value
  | 2 => uart.setFcr value
  | 3 => { uart with lcr := value }
  | 4 => { uart with mcr := value &&& 0x1f }
  | 7 => { uart with scr := value }
  | _ => uart

def drain (uart : Uart) (limit : Nat) : Array UInt8 × Uart :=
  (uart.tx.extract 0 limit, { uart with tx := uart.tx.extract limit uart.tx.size })

def canPut (uart : Uart) : Bool :=
  uart.rx.length < rxCapacity

def put (uart : Uart) (byte : UInt8) : Uart :=
  if uart.canPut then { uart with rx := uart.rx ++ [byte] } else uart

/-- Of some bytes from the host at least the first is taken, which updates the interrupt line. -/
def takes (uart : Uart) (bytes : List UInt8) : Bool :=
  uart.canPut && !bytes.isEmpty

def reset (uart : Uart) : Uart :=
  { tx := uart.tx }

def describe (base : UInt64) (line : Line) : List Fdt.Token :=
  Fdt.node (name ++ "@" ++ String.ofList (Nat.toDigits 16 base.toNat)) ([
    .text "compatible" "ns16550a",
    .reg base size,
    .u32 "clock-frequency" clockFrequency]
    ++ Fdt.interrupt (UInt32.ofNat line.val))

end Uart

end RvBoard
