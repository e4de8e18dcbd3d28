/-!
# Interrupt pins of the hart

The external lines that show in `mip`, and the timer compare value.
-/

set_option autoImplicit false

namespace RvBoard

namespace Mip

def bit (number : Nat) : UInt64 :=
  UInt64.ofNat (1 <<< number)

def ssip : UInt64 := bit 1
def msip : UInt64 := bit 3
def mtip : UInt64 := bit 7
def seip : UInt64 := bit 9
def meip : UInt64 := bit 11

end Mip

structure Pins where
  pending : UInt64 := 0
  mtimecmp : UInt64 := 0xffffffffffffffff
deriving DecidableEq, Repr

def Pins.set (pins : Pins) (mask : UInt64) (level : Bool) : Pins :=
  { pins with pending := if level then pins.pending ||| mask else pins.pending &&& ~~~mask }

end RvBoard
