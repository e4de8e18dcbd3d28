import RvBoard.Wires
import RvBoard.Word

/-!
# Core-local interruptor

The software interrupt of the hart, its timer compare value, and the cycle counter as `mtime`,
which ignores writes.
-/

set_option autoImplicit false

namespace RvBoard.Clint

def name : String := "clint"
def base : UInt64 := 0x2000000
def size : UInt64 := 0x10000

inductive Register where
  | msip
  | mtimecmp
  | mtimecmpHigh
  | mtime
  | mtimeHigh

def Register.ofOffset? (offset : UInt64) : Option Register :=
  match offset with
  | 0x0 => some .msip
  | 0x4000 => some .mtimecmp
  | 0x4004 => some .mtimecmpHigh
  | 0xbff8 => some .mtime
  | 0xbffc => some .mtimeHigh
  | _ => none

def read (wires : Wires) : Register → UInt64
  | .msip => if wires.signals.pins.pending &&& Mip.msip != 0 then 1 else 0
  | .mtimecmp => wires.signals.pins.mtimecmp
  | .mtimecmpHigh => wires.signals.pins.mtimecmp >>> 32
  | .mtime => wires.clock
  | .mtimeHigh => wires.clock >>> 32

def setPins (wires : Wires) (pins : Pins) : Wires :=
  { wires with signals := { wires.signals with pins := pins } }

def setCompare (wires : Wires) (value : UInt64) : Wires :=
  setPins wires { wires.signals.pins with mtimecmp := value }

def write (wires : Wires) (size : Nat) (value : UInt64) : Register → Wires
  | .msip => setPins wires (wires.signals.pins.set Mip.msip (value &&& 1 != 0))
  | .mtimecmp =>
    if size = 3 then setCompare wires value
    else setCompare wires (replaceHalf wires.signals.pins.mtimecmp value.toUInt32 false)
  | .mtimecmpHigh => setCompare wires (replaceHalf wires.signals.pins.mtimecmp value.toUInt32 true)
  | .mtime => wires
  | .mtimeHigh => wires

def load (wires : Wires) (offset : UInt64) (size : Nat) : Except MemFault UInt64 :=
  if size < 2 then .error .loadAccess
  else
    match Register.ofOffset? offset with
    | none => .error .loadAccess
    | some register =>
      let value := read wires register
      .ok (if size = 2 then value &&& 0xffffffff else value)

def store (wires : Wires) (offset : UInt64) (size : Nat) (value : UInt64) :
    Except MemFault Unit × Wires :=
  if size < 2 then (.error .storeAccess, wires)
  else
    match Register.ofOffset? offset with
    | none => (.error .storeAccess, wires)
    | some register => (.ok (), write wires size value register)

def reset (wires : Wires) : Wires :=
  setPins wires { wires.signals.pins.set Mip.msip false with mtimecmp := 0xffffffffffffffff }

def describe (base : UInt64) : List Fdt.Token :=
  Fdt.node (name ++ "@" ++ String.ofList (Nat.toDigits 16 base.toNat)) [
    .texts "compatible" ["sifive,clint0", "riscv,clint0"],
    .reg base size,
    .cells "interrupts-extended" [Fdt.hartHandle, 3, Fdt.hartHandle, 7]]

end RvBoard.Clint
