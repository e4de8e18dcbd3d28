import RvBoard.Text.Hex

/-!
# Numbers on the command line

Unsigned numbers in decimal or, behind a leading 0x, in hexadecimal, sizes with a unit behind
them, and signed numbers. A plus sign is allowed before the digits.
-/

set_option autoImplicit false

namespace RvBoard.CommandLine

inductive NumberError where
  | empty
  | badDigit
  | tooLarge
  | tooSmall
deriving DecidableEq, Repr

def NumberError.message : NumberError → String
  | empty => "cannot parse integer from empty string"
  | badDigit => "invalid digit found in string"
  | tooLarge => "number too large to fit in target type"
  | tooSmall => "number too small to fit in target type"

def digit? (radix : Nat) (char : Char) : Option Nat :=
  if char.toNat < 128 then
    ((Hex.digitValue? (UInt8.ofNat char.toNat)).map UInt8.toNat).filter (· < radix)
  else none

/-- The value of digits up to a limit; the first fault decides. -/
def readDigits (radix limit : Nat) (beyond : NumberError) :
    Nat → List Char → Except NumberError Nat
  | value, [] => .ok value
  | value, char :: rest =>
    match digit? radix char with
    | none => .error .badDigit
    | some digit =>
      let value := value * radix + digit
      if limit < value then .error beyond else readDigits radix limit beyond value rest

def maxWord : Nat := 0xffffffffffffffff
def maxSigned : Nat := 0x7fffffffffffffff

def readUnsigned (radix : Nat) : List Char → Except NumberError UInt64
  | [] => .error .empty
  | ['+'] => .error .badDigit
  | '+' :: digits => (readDigits radix maxWord .tooLarge 0 digits).map UInt64.ofNat
  | digits => (readDigits radix maxWord .tooLarge 0 digits).map UInt64.ofNat

def readSigned : List Char → Except NumberError Int
  | [] => .error .empty
  | ['+'] => .error .badDigit
  | ['-'] => .error .badDigit
  | '-' :: digits => (readDigits 10 (maxSigned + 1) .tooSmall 0 digits).map fun value => -(value : Int)
  | '+' :: digits => (readDigits 10 maxSigned .tooLarge 0 digits).map Int.ofNat
  | digits => (readDigits 10 maxSigned .tooLarge 0 digits).map Int.ofNat

def readNumber : List Char → Except NumberError UInt64
  | '0' :: 'x' :: digits => readUnsigned 16 digits
  | '0' :: 'X' :: digits => readUnsigned 16 digits
  | digits => readUnsigned 10 digits

def unitShift? : Char → Option Nat
  | 'k' | 'K' => some 10
  | 'm' | 'M' => some 20
  | 'g' | 'G' => some 30
  | _ => none

def splitUnit (text : List Char) : List Char × Nat :=
  match text.getLast?.bind unitShift? with
  | some shift => (text.dropLast, shift)
  | none => (text, 0)

def sizeOf? (value : UInt64) (shift : Nat) : Option Nat :=
  let size := value.toNat <<< shift
  if 0 < size ∧ size ≤ maxWord then some size else none

end RvBoard.CommandLine
