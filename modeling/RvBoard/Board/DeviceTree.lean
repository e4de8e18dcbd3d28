import RvBoard.Board.Basic

/-!
# Device tree of the board

What the guest is told of the hardware: the boot arguments, the hart, the memories, and all other
devices on one bus, each in the order of their addresses.
-/

set_option autoImplicit false

namespace RvBoard.Board

def outputPath? (board : Board) : Option String := do
  let id ← board.standardOutput
  let base ← board.bus.baseOf? id
  return "/soc/" ++ board.bus.nameOf id ++ "@" ++ String.ofList (Hex.digits base.toNat)

def chosen (board : Board) : List Fdt.Token :=
  Fdt.node "chosen" (
    .text "bootargs" board.bootArguments ::
    board.outputPath?.toList.map fun path => .text "stdout-path" path)

def hartNode : List Fdt.Token :=
  Fdt.node "cpus" ([
    .u32 "#address-cells" 1,
    .u32 "#size-cells" 0,
    .u32 "timebase-frequency" hartFrequency.toUInt32]
    ++ Fdt.node "cpu@0" ([
      .text "device_type" "cpu",
      .u32 "reg" 0,
      .text "status" "okay",
      .text "compatible" "riscv",
      .text "riscv,isa" "rv64imac",
      .text "mmu-type" "riscv,sv39"]
      ++ Fdt.node "interrupt-controller" [
        .u32 "#interrupt-cells" 1,
        .flag "interrupt-controller",
        .text "compatible" "riscv,cpu-intc",
        .u32 "phandle" Fdt.hartHandle]))

def describe (memories : Bool) (bus : Bus) : List Fdt.Token :=
  bus.windows.toList.flatMap fun window =>
    match bus.device? window.device with
    | some device => if device.isMemory == memories then device.describe window.start else []
    | none => []

def deviceTree (board : Board) : List Fdt.Token :=
  Fdt.node "" ([
    .u32 "#address-cells" 2,
    .u32 "#size-cells" 2,
    .text "compatible" "riscv-virtio",
    .text "model" "riscv-board-vm"]
    ++ board.chosen
    ++ hartNode
    ++ describe true board.bus
    ++ Fdt.node "soc" ([
      .u32 "#address-cells" 2,
      .u32 "#size-cells" 2,
      .text "compatible" "simple-bus",
      .flag "ranges"]
      ++ describe false board.bus))

/-- Firmware starts at the beginning of the first memory. -/
def firmwareEntry (board : Board) : UInt64 :=
  let isMemory (window : Window) : Bool :=
    match board.bus.device? window.device with
    | some device => device.isMemory
    | none => false
  match board.bus.windows.find? isMemory with
  | some window => window.start
  | none => Ram.base

end RvBoard.Board
