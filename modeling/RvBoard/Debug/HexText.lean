import RvBoard.Bytes
import RvBoard.Debug.Packet

/-!
# Numbers in packets

Bytes are written as two digits each and registers as their bytes, lowest first; addresses and
lengths are plain numbers of up to sixteen digits.
-/

set_option autoImplicit false

namespace RvBoard.Debug

def encodeBytes (block : List UInt8) : List UInt8 :=
  (Hex.bytes block).map fun char => UInt8.ofNat char.toNat

def decodeBytes? : List UInt8 → Option (List UInt8)
  | [] => some []
  | [_] => none
  | high :: low :: rest => do
    let byte := (← Hex.digitValue? high) * 16 + (← Hex.digitValue? low)
    return byte :: (← decodeBytes? rest)

def parseNumber? (text : List UInt8) : Option UInt64 :=
  if text.isEmpty || 16 < text.length then none
  else text.foldlM (fun value char => (Hex.digitValue? char).map fun digit => value * 16 + digit.toUInt64) 0

def encodeWord (value : UInt64) : List UInt8 :=
  encodeBytes (Bytes.littleEndian 8 value)

def decodeWord? (text : List UInt8) : Option UInt64 := do
  let block ← decodeBytes? text
  if block.length = 8 then some (Bytes.ofLittleEndian block) else none

/-- Pieces of sixteen digits, the last one shorter if need be. -/
def wordTexts (text : List UInt8) : List (List UInt8) :=
  if text.isEmpty then []
  else text.take 16 :: wordTexts (text.drop 16)
termination_by text.length
decreasing_by
  cases text with
  | nil => contradiction
  | cons head rest =>
    show (rest.drop 15).length < rest.length + 1
    rw [List.length_drop]
    omega

end RvBoard.Debug
