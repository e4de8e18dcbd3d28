import RvBoard.Board.Run
import RvBoard.Device.Console

/-!
# The host's side of the board

What the host does with the devices of the board between steps: it serves serial ports,
looks at disks, and makes them fail.
-/

set_option autoImplicit false

namespace RvBoard

namespace Bus

def touch {α : Type} (id : DeviceId) (missing : α) (action : Device → Wires → α × Device × Wires)
    (bus : Bus) : α × Bus :=
  if known : id < bus.devices.size then
    let ⟨windows, devices, wires, held⟩ := bus
    let device := devices[id]
    let devices := devices.setIfInBounds id .clint
    let (result, device, wires) := action device wires
    (result, ⟨windows, devices.setIfInBounds id device, wires, held⟩)
  else (missing, bus)

end Bus

namespace Device

def put (bytes : List UInt8) (device : Device) (wires : Wires) : Bool × Device × Wires :=
  match device with
  | .uart line port =>
    let updates := port.takes bytes
    let port := bytes.foldl Uart.put port
    (port.canPut, .uart line port, wires.update line updates port.interrupt)
  | other => (false, other, wires)

def pump (console : Console) (device : Device) (wires : Wires) :
    (List UInt8 × Console) × Device × Wires :=
  match device with
  | .uart line port =>
    let updates := port.takes console.collect.pending
    let (output, console, port) := console.pump port
    ((output, console), .uart line port, wires.update line updates port.interrupt)
  | other => (([], console), other, wires)

def drain (limit : Option Nat) (device : Device) (wires : Wires) : List UInt8 × Device × Wires :=
  match device with
  | .uart line port =>
    let (bytes, port) := port.drain (limit.getD port.tx.size)
    (bytes.toList, .uart line port, wires)
  | other => ([], other, wires)

def store? : Device → Option BlockStore
  | .block _ transport => some transport.backend.store
  | _ => none

def mapStore (change : BlockStore → BlockStore) : Device → Device
  | .block line transport =>
    .block line { transport with backend := ⟨change transport.backend.store⟩ }
  | other => other

end Device

namespace Board

def touch {α : Type} (id : DeviceId) (missing : α) (action : Device → Wires → α × Device × Wires)
    (board : Board) : α × Board :=
  let (hart, board) := board.takeHart
  let (⟨bus, tlb, mode, root⟩, hart) := hart.takeMemory
  let (result, bus) := bus.touch id missing action
  (result, { board with hart := { hart with memory := ⟨bus, tlb, mode, root⟩ } })

def put (id : DeviceId) (bytes : List UInt8) : Board → Bool × Board :=
  touch id false (Device.put bytes)

def pump (id : DeviceId) (console : Console) : Board → (List UInt8 × Console) × Board :=
  touch id ([], console) (Device.pump console)

def drain (id : DeviceId) (limit : Option Nat) : Board → List UInt8 × Board :=
  touch id [] (Device.drain limit)

def readDisk (id : DeviceId) (offset n : Nat) (board : Board) : Except StoreError ByteArray :=
  match (board.bus.device? id).bind Device.store? with
  | some store => store.read offset n
  | none => .error .broken

def breakDisk (id : DeviceId) (operation : Option StoreOperation) (board : Board) : Board :=
  board.mapBus (Bus.mapDevice id fun device wires =>
    (device.mapStore fun store => { store with broken := operation }, wires))

def setWallTime (time : UInt64) (board : Board) : Board :=
  board.mapWires fun wires => { wires with wallTime := time }

end Board

end RvBoard
