import RvBoard.Device.Uart

/-!
# Host console

The host's end of a serial line. What was typed waits in the order of its arrival until the receive
FIFO of the port has room for it, so the port never has to drop a byte.
-/

set_option autoImplicit false

namespace RvBoard

structure Console where
  /-- What was typed since the line was served last. -/
  typed : List UInt8 := []
  pending : List UInt8 := []
deriving DecidableEq, Repr

namespace Console

def type (console : Console) (bytes : List UInt8) : Console :=
  { console with typed := console.typed ++ bytes }

def collect (console : Console) : Console :=
  { pending := console.pending ++ console.typed }

/-- Puts bytes while there is room, and gives those that are left. -/
def fill : List UInt8 → Uart → List UInt8 × Uart
  | [], port => ([], port)
  | byte :: rest, port =>
    if port.canPut then fill rest (port.put byte) else (byte :: rest, port)

def pump (console : Console) (port : Uart) : List UInt8 × Console × Uart :=
  let (output, port) := port.drain port.tx.size
  let (pending, port) := fill console.collect.pending port
  (output.toList, { pending := pending }, port)

end Console

end RvBoard
