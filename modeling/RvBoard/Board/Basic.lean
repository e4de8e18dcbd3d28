import RvBoard.Debug.Stub

/-!
# The board

A hart with its bus, the devices in the order in which they were added, and what the host holds
beside them: the debugger stub, the boot arguments and the state of the run. Devices can be added
until the first reset.
-/

set_option autoImplicit false

namespace RvBoard

inductive RunState where
  | stopped
  | running
  | restarting
deriving DecidableEq, Repr

def RunState.text : RunState → String
  | stopped => "Stopped"
  | running => "Running"
  | restarting => "Restarting"

inductive BoardError where
  | overlap (error : OverlapError)
  | line (error : Plic.BindError)
  | alreadyConfigured
  | notReset
  | bootInfoTooLarge (size : Nat)
  | noMmioSpace (size : UInt64)
  | portInUse (port : UInt16)

def BoardError.name : BoardError → String
  | .overlap _ => "Overlap"
  | .line (.duplicate _ _) => "Duplicate"
  | .line (.outOfRange _) => "OutOfRange"
  | .alreadyConfigured => "AlreadyConfigured"
  | .notReset => "NotReset"
  | .bootInfoTooLarge _ => "BootInfoTooLarge"
  | .noMmioSpace _ => "NoMmioSpace"
  | .portInUse _ => "Debug"

def BoardError.message : BoardError → String
  | .overlap error => error.message
  | .line error => error.message
  | .alreadyConfigured => "devices can only be added before the first reset"
  | .notReset => "the board must be reset before it is initialized"
  | .bootInfoTooLarge size =>
    "boot information of " ++ toString size ++ " bytes does not fit in the boot ROM"
  | .noMmioSpace size =>
    "no free " ++ Hex.word size ++ " byte slot left in the MMIO window"
  | .portInUse port =>
    "cannot listen on port " ++ toString port.toNat ++ ": Address already in use (os error 98)"

structure Board where
  hart : Hart := {}
  devices : Array DeviceId := #[]
  standardOutput : Option DeviceId := none
  bootArguments : String := ""
  state : RunState := .stopped
  wasReset : Bool := false
  exitCode : Option UInt16 := none
  stub : Option Debug.Stub := none
  network : Debug.Network := {}

namespace Board

def mmioFirst : UInt64 := 0x10000000
def mmioLimit : UInt64 := 0x20000000
def mmioAlign : UInt64 := 0x1000

def bus (board : Board) : Bus := board.hart.bus

def wires (board : Board) : Wires := board.hart.wires

def takeHart (board : Board) : Hart × Board :=
  let hart := board.hart
  (hart, { board with hart := {} })

def mapHart (change : Hart → Hart) (board : Board) : Board :=
  let (hart, board) := board.takeHart
  { board with hart := change hart }

def mapBus (change : Bus → Bus) (board : Board) : Board :=
  board.mapHart (Hart.mapBus change)

def mapWires (change : Wires → Wires) (board : Board) : Board :=
  board.mapHart (Hart.mapWires change)

def onBus {ε α : Type} (operation : EStateM ε Bus α) (board : Board) : Except ε α × Board :=
  let (hart, board) := board.takeHart
  let (result, hart) := hart.onBus operation
  (result, { board with hart := hart })

def addDevice (base : Option UInt64) (device : Device) (board : Board) :
    Except BoardError (DeviceId × Board) := do
  if board.wasReset then throw .alreadyConfigured
  let (id, bus) := board.bus.addDevice device
  let bus ←
    match base with
    | some base => (bus.bind base id).mapError .overlap
    | none => pure bus
  return (id, { board.mapBus (fun _ => bus) with devices := board.devices.push id })

def addMmioDevice (device : Device) (board : Board) :
    Except BoardError ((UInt64 × DeviceId) × Board) := do
  match board.bus.findFree? device.size mmioFirst mmioLimit mmioAlign with
  | none => throw (.noMmioSpace device.size)
  | some base =>
    let (id, board) ← board.addDevice (some base) device
    return ((base, id), board)

def addRam (size : Nat) (board : Board) : Except BoardError (DeviceId × Board) :=
  board.addDevice (some Ram.base) (.ram (Ram.ofSize size))

def bindLine (number : UInt32) (owner : String) (board : Board) :
    Except BoardError (Line × Board) := do
  let (line, plic) ← (board.wires.signals.plic.bind number owner).mapError .line
  return (line, board.mapWires fun wires =>
    { wires with signals := { wires.signals with plic := plic } })

/-- The devices that every board has, at their places; the boot ROM is the first. -/
def builtIn : List (UInt64 × Device) := [
  (BootRom.base, .bootRom BootRom.empty),
  (SystemController.base, .controller {}),
  (Clint.base, .clint),
  (Plic.base, .plic)]

def bootRomId : DeviceId := 0

def new : Except BoardError Board :=
  builtIn.foldlM (fun board (base, device) => do return (← board.addDevice (some base) device).2) {}

def isRunning (board : Board) : Bool :=
  board.state == .running

def isRestarting (board : Board) : Bool :=
  board.state == .restarting

def setRunning (running : Bool) (board : Board) : Board :=
  { board with state := if running then .running else .stopped }

/-- Lets debuggers connect; a stub that did so before goes away with its connections. -/
def enableDebugger (port : UInt16) (halt : Bool) (board : Board) :
    Except BoardError (UInt16 × Board) := do
  match Debug.Stub.bind port halt board.network with
  | none => throw (.portInUse port)
  | some (stub, network) =>
    let network :=
      match board.stub with
      | some old => (old.release network).2.dropWaiting
      | none => network
    return (stub.port, { board with stub := some stub, network := network })

end Board

end RvBoard
