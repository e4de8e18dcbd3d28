/-!
# Privilege levels
-/

set_option autoImplicit false

namespace RvBoard

inductive Privilege where
  | user
  | supervisor
  | machine
deriving DecidableEq, Repr

namespace Privilege

def bits : Privilege → UInt64
  | user => 0
  | supervisor => 1
  | machine => 3

def ofBits (value : UInt64) : Privilege :=
  match value &&& 3 with
  | 3 => machine
  | 1 => supervisor
  | _ => user

def all : List Privilege := [user, supervisor, machine]

def letter : Privilege → String
  | user => "U"
  | supervisor => "S"
  | machine => "M"

def below (a b : Privilege) : Bool :=
  a.bits < b.bits

end Privilege

end RvBoard
