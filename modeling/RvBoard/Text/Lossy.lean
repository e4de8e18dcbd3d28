/-!
# Lossy text

Bytes read as UTF-8, with a replacement character for each longest piece that cannot be part of
any encoding.
-/

set_option autoImplicit false

namespace RvBoard.Lossy

def replacement : Char := Char.ofNat 0xfffd

/-- The length of the encoding that starts with a byte, and the bytes that may come second. -/
def lead? (byte : UInt8) : Option (Nat × UInt8 × UInt8) :=
  if byte < 0x80 then some (1, 0x80, 0xbf)
  else if 0xc2 ≤ byte ∧ byte ≤ 0xdf then some (2, 0x80, 0xbf)
  else if byte = 0xe0 then some (3, 0xa0, 0xbf)
  else if byte = 0xed then some (3, 0x80, 0x9f)
  else if 0xe1 ≤ byte ∧ byte ≤ 0xef then some (3, 0x80, 0xbf)
  else if byte = 0xf0 then some (4, 0x90, 0xbf)
  else if 0xf1 ≤ byte ∧ byte ≤ 0xf3 then some (4, 0x80, 0xbf)
  else if byte = 0xf4 then some (4, 0x80, 0x8f)
  else none

/-- How many bytes may follow the first of an encoding of `n` bytes, as far as they are there. -/
def following (n : Nat) (low high : UInt8) : List UInt8 → Nat
  | [] => 0
  | byte :: rest =>
    match n with
    | 0 => 0
    | n + 1 => if low ≤ byte ∧ byte ≤ high then 1 + following n 0x80 0xbf rest else 0

def codePoint (length : Nat) (first : UInt8) (rest : List UInt8) : Nat :=
  let bits := if length = 1 then first.toNat else first.toNat % (1 <<< (7 - length))
  rest.foldl (fun value byte => value * 64 + byte.toNat % 64) bits

/-- The first character, and how many bytes behind the first byte it takes. -/
def character (first : UInt8) (rest : List UInt8) : Char × Nat :=
  match lead? first with
  | none => (replacement, 0)
  | some (length, low, high) =>
    let count := following (length - 1) low high rest
    if count = length - 1 then (Char.ofNat (codePoint length first (rest.take count)), count)
    else (replacement, count)

def decode : List UInt8 → List Char
  | [] => []
  | first :: rest =>
    let (char, count) := character first rest
    char :: decode (rest.drop count)
termination_by bytes => bytes.length
decreasing_by
  simp only [List.length_drop, List.length_cons]
  omega

end RvBoard.Lossy
