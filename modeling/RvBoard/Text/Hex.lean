/-!
# Hexadecimal text

Lower-case digits, as the board prints them, and digits of either case, as it reads them.
-/

set_option autoImplicit false

namespace RvBoard.Hex

def digit (n : Nat) : Char :=
  Nat.digitChar (n % 16)

def byte (value : UInt8) : List Char :=
  [digit (value.toNat / 16), digit value.toNat]

def digits (n : Nat) : List Char :=
  Nat.toDigits 16 n

def word (value : UInt64) : String :=
  "0x" ++ String.ofList (digits value.toNat)

def padded (width : Nat) (value : UInt64) : String :=
  let text := digits value.toNat
  String.ofList (List.replicate (width - text.length) '0' ++ text)

def bytes (block : List UInt8) : List Char :=
  block.flatMap byte

def digitValue? (char : UInt8) : Option UInt8 :=
  if 0x30 ≤ char ∧ char ≤ 0x39 then some (char - 0x30)
  else if 0x61 ≤ char ∧ char ≤ 0x66 then some (char - 0x61 + 10)
  else if 0x41 ≤ char ∧ char ≤ 0x46 then some (char - 0x41 + 10)
  else none

end RvBoard.Hex
