import RvBoard.Bytes

/-!
# 9P messages on the wire

Messages are a size, a type, a tag and fields: little-endian integers, strings with a 16-bit
length, qids and raw bytes. `Message.bytes` writes a message, and a `Reader` takes the fields of
one back in order.
-/

set_option autoImplicit false

namespace RvBoard.NineP

structure Qid where
  kind : UInt8
  version : UInt32
  path : UInt64
deriving DecidableEq, Repr

inductive Field where
  | u8 (value : UInt8)
  | u16 (value : UInt16)
  | u32 (value : UInt32)
  | u64 (value : UInt64)
  | string (value : String)
  | bytes (value : List UInt8)
  | qid (value : Qid)
deriving DecidableEq, Repr

def Qid.size : Nat := 13

def Qid.encode (qid : Qid) : List UInt8 :=
  qid.kind :: Bytes.littleEndian 4 qid.version.toUInt64 ++ Bytes.littleEndian 8 qid.path

def encodeString (text : String) : List UInt8 :=
  let bytes := text.toUTF8.toList
  Bytes.littleEndian 2 (UInt64.ofNat bytes.length) ++ bytes

def Field.encode : Field → List UInt8
  | .u8 value => [value]
  | .u16 value => Bytes.littleEndian 2 value.toUInt64
  | .u32 value => Bytes.littleEndian 4 value.toUInt64
  | .u64 value => Bytes.littleEndian 8 value
  | .string value => encodeString value
  | .bytes value => value
  | .qid value => value.encode

structure Message where
  type : UInt8
  tag : UInt16
  fields : List Field

def headerSize : Nat := 7

def Message.body (message : Message) : List UInt8 :=
  message.fields.flatMap Field.encode

def Message.size (message : Message) : Nat :=
  headerSize + message.body.length

def Message.isEmpty (message : Message) : Bool :=
  message.size ≤ headerSize

def Message.bytes (message : Message) : List UInt8 :=
  Bytes.littleEndian 4 (UInt64.ofNat message.size) ++
    message.type :: Bytes.littleEndian 2 message.tag.toUInt64 ++ message.body

inductive WireError where
  | truncated
  | invalidString
deriving DecidableEq, Repr

def WireError.name : WireError → String
  | truncated => "Truncated"
  | invalidString => "InvalidString"

def WireError.message : WireError → String
  | truncated => "message truncated"
  | invalidString => "string is not valid UTF-8"

/-- Takes fields from the front of the bytes that are left. A failed field takes none of its bytes
but the length of a string stays taken. -/
abbrev Reader := EStateM WireError (List UInt8)

namespace Reader

def take (n : Nat) : Reader (List UInt8) := fun rest =>
  if n ≤ rest.length then .ok (rest.take n) (rest.drop n) else .error .truncated rest

def number (n : Nat) : Reader UInt64 := do
  return Bytes.ofLittleEndian (← take n)

def u8 : Reader UInt8 := do
  return (← number 1).toUInt8

def u16 : Reader UInt16 := do
  return (← number 2).toUInt16

def u32 : Reader UInt32 := do
  return (← number 4).toUInt32

def u64 : Reader UInt64 :=
  number 8

def string : Reader String := do
  let length ← u16
  let bytes ← take length.toNat
  match String.fromUTF8? (Bytes.ofList bytes) with
  | some text => return text
  | none => throw .invalidString

def strings : Nat → Reader (List String)
  | 0 => return []
  | n + 1 => do
    let first ← string
    let rest ← strings n
    return first :: rest

def value? {α : Type} (reader : Reader α) (bytes : List UInt8) : Option α :=
  match reader bytes with
  | .ok value _ => some value
  | .error _ _ => none

end Reader

end RvBoard.NineP
