import RvBoard.Wires

/-!
# System controller

One register through which the guest powers the board off, restarts it, or reports a failure.
-/

set_option autoImplicit false

namespace RvBoard

structure SystemController where
  command : UInt32 := 0
deriving DecidableEq, Repr

namespace SystemController

def name : String := "test"
def base : UInt64 := 0x100000
def size : UInt64 := 0x1000

def failCode : UInt16 := 0x3333
def powerOffCode : UInt16 := 0x5555
def resetCode : UInt16 := 0x7777

def request? (command : UInt32) : Option ControlRequest :=
  let code := command.toUInt16
  if code = powerOffCode then some .powerOff
  else if code = resetCode then some .reset
  else if code = failCode then some (.fail (command >>> 16).toUInt16)
  else none

def isCommand (offset : UInt64) (size : Nat) : Bool :=
  offset == 0 && (size == 2 || size == 3)

def load (controller : SystemController) (offset : UInt64) (size : Nat) : Except MemFault UInt64 :=
  if isCommand offset size then .ok controller.command.toUInt64
  else if offset < SystemController.size then .ok 0
  else .error .loadAccess

def store (controller : SystemController) (wires : Wires) (offset : UInt64) (size : Nat)
    (value : UInt64) : Except MemFault Unit × SystemController × Wires :=
  if isCommand offset size then
    let command := value.toUInt32
    let control :=
      match request? command with
      | some request => some request
      | none => wires.control
    (.ok (), ⟨command⟩, { wires with control := control })
  else if offset < SystemController.size then (.ok (), controller, wires)
  else (.error .storeAccess, controller, wires)

def syscon (name compatible : String) (code : UInt16) : List Fdt.Token :=
  Fdt.node name [
    .text "compatible" compatible,
    .u32 "regmap" Fdt.controllerHandle,
    .u32 "offset" 0,
    .u32 "value" code.toUInt32]

def describe (base : UInt64) : List Fdt.Token :=
  Fdt.node (name ++ "@" ++ String.ofList (Nat.toDigits 16 base.toNat)) [
    .texts "compatible" ["sifive,test1", "sifive,test0", "syscon"],
    .reg base size,
    .u32 "phandle" Fdt.controllerHandle]
  ++ syscon "poweroff" "syscon-poweroff" powerOffCode
  ++ syscon "reboot" "syscon-reboot" resetCode

end SystemController

end RvBoard
