import RvBoard.Board.DeviceStep
import RvBoard.Board.DeviceTree

/-!
# Running the board

The hart runs in slices, after each of which all devices make a step and requests of the guest are
carried out.
-/

set_option autoImplicit false

namespace RvBoard.Board

def pollInterval : UInt64 := 128

/-- Everything returns to its state after power-on, except what devices keep over a reset. -/
def reset (board : Board) : Board :=
  let board := { board with wasReset := true, exitCode := none }
  let board := board.mapWires fun wires =>
    { wires with control := none, signals := { wires.signals with pins := {} } }
  let devices := board.devices
  board.mapHart fun hart =>
    hart.reset.mapBus fun bus => devices.foldl (fun bus id => bus.resetDevice id) bus

def prepareBoot (board : Board) : Except BoardError Board := do
  if !board.wasReset then throw .notReset
  let tree := Fdt.blob board.deviceTree
  match BootRom.bootInfo? board.firmwareEntry tree with
  | none => throw (.bootInfoTooLarge (tree.size + BootRom.treeOffset))
  | some (_, rom) =>
    let board := board.mapBus (Bus.mapDevice bootRomId fun _ wires => (.bootRom rom, wires))
    return { board with state := if board.isRestarting then .running else board.state }

def stepDevices (board : Board) : Board :=
  let devices := board.devices
  board.mapBus fun bus => devices.foldl (fun bus id => bus.stepDevice id) bus

def handleRequest (board : Board) : Board :=
  let request := board.wires.control
  let board := board.mapWires fun wires => { wires with control := none }
  match request with
  | some .powerOff => { board with state := .stopped }
  | some (.fail code) => { board with state := .stopped, exitCode := some code }
  | some .reset => { board.reset with state := .restarting }
  | none => board

def pollDebugger (board : Board) : Bool × Board :=
  match board.stub with
  | none => (false, board)
  | some stub =>
    let (hart, board) := board.takeHart
    let (stub, network, hart) := stub.poll board.network hart
    (stub.isHalted, { board with hart := hart, stub := some stub, network := network })

def reportBreakpoint (board : Board) : Board :=
  match board.stub with
  | none => board
  | some stub =>
    let (stub, network) := stub.reportStop .trap board.network
    { board with stub := some stub, network := network }

def slice (cycles : UInt64) (board : Board) : Option UInt64 × Board :=
  let (hart, board) := board.takeHart
  let ((spent, reason), hart) := hart.run (min cycles pollInterval)
  let board := { board with hart := hart }.stepDevices
  match reason with
  | .budget => (some spent, board)
  | .breakpoint => (none, board.reportBreakpoint)
  | .yield => (some spent, board.handleRequest)

/-- Slices until the cycles are spent or something stops the run. Every slice but the last spends
cycles, which bounds their number. -/
def runFor : Nat → UInt64 → Board → Board
  | 0, _, board => board
  | slices + 1, remaining, board =>
    if remaining = 0 || !board.isRunning then board
    else
      match board.pollDebugger with
      | (true, board) => board
      | (false, board) =>
        match board.slice remaining with
        | (none, board) => board
        | (some spent, board) =>
          runFor slices (if spent ≤ remaining then remaining - spent else 0) board

def step (cycles : UInt64) (board : Board) : Board :=
  runFor (cycles.toNat + 1) cycles board

end RvBoard.Board
