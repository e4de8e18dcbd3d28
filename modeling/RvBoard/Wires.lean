import RvBoard.Plic

/-!
# Wires between the devices

What the devices of a board share beside the address map: the cycle counter, the interrupt
controller with the hart's pins, the request line of the system controller, and the time of day.
-/

set_option autoImplicit false

namespace RvBoard

inductive ControlRequest where
  | powerOff
  | reset
  | fail (code : UInt16)
deriving DecidableEq, Repr

def ControlRequest.text : ControlRequest → String
  | powerOff => "PowerOff"
  | reset => "Reset"
  | fail code => "Fail(" ++ toString code.toNat ++ ")"

structure Wires where
  clock : UInt64 := 0
  signals : Plic.Signals := {}
  control : Option ControlRequest := none
  wallTime : UInt64 := 0

def Wires.drive (wires : Wires) (line : Line) (level : Bool) : Wires :=
  { wires with signals := wires.signals.drive line level }

/-- A device that has nothing new to say leaves its line as it is. -/
def Wires.update (wires : Wires) (line : Line) (changed level : Bool) : Wires :=
  { wires with signals := if changed then wires.signals.drive line level else wires.signals }

end RvBoard
