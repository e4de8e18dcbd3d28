import RvBoard.Text.Hex

/-!
# Debugger packets

Packets are framed by a dollar sign and a checksum behind a hash sign; inside, a brace escapes the
byte after it. Outside of packets single bytes acknowledge, complain and interrupt.
-/

set_option autoImplicit false

namespace RvBoard.Debug

def ascii (text : String) : List UInt8 :=
  text.toList.map fun char => UInt8.ofNat char.toNat

namespace Packet

def start : UInt8 := 0x24
def stop : UInt8 := 0x23
def escape : UInt8 := 0x7d
def escapeMask : UInt8 := 0x20
def runLength : UInt8 := 0x2a
def plus : UInt8 := 0x2b
def minus : UInt8 := 0x2d
def controlC : UInt8 := 0x03

def maxSize : Nat := 0x4000

inductive Event where
  | packet (payload : List UInt8)
  | corrupted
  | ack
  | nack
  | interrupt
deriving DecidableEq, Repr

def Event.name : Event → String
  | packet _ => "Packet"
  | corrupted => "Corrupted"
  | ack => "Ack"
  | nack => "Nack"
  | interrupt => "Interrupt"

/-- Where the reader is: between packets, in a payload with its bytes and their sum so far, in the
checksum behind it, or in a packet that is too long. -/
inductive Reader where
  | idle
  | payload (body : Array UInt8) (sum : UInt8)
  | escaped (body : Array UInt8) (sum : UInt8)
  | checksum (body : Array UInt8) (sum : UInt8)
  | checksumLow (body : Array UInt8) (sum high : UInt8)
  | overlong
  | overlongChecksum (left : Nat)
deriving DecidableEq, Repr

namespace Reader

def extend (body : Array UInt8) (sum byte : UInt8) : Reader × Option Event :=
  if body.size < maxSize then (.payload (body.push byte) sum, none)
  else (.overlong, some .corrupted)

def start (byte : UInt8) : Reader × Option Event :=
  if byte = Packet.start then (.payload #[] 0, none)
  else if byte = plus then (.idle, some .ack)
  else if byte = minus then (.idle, some .nack)
  else if byte = controlC then (.idle, some .interrupt)
  else (.idle, none)

def push (reader : Reader) (byte : UInt8) : Reader × Option Event :=
  match reader with
  | .idle => start byte
  | .payload body sum =>
    if byte = stop then (.checksum body sum, none)
    else if byte = escape then (.escaped body (sum + byte), none)
    else extend body (sum + byte) byte
  | .escaped body sum => extend body (sum + byte) (byte ^^^ escapeMask)
  | .checksum body sum =>
    match Hex.digitValue? byte with
    | some high => (.checksumLow body sum high, none)
    | none => (.idle, some .corrupted)
  | .checksumLow body sum high =>
    match Hex.digitValue? byte with
    | some low =>
      if high * 16 + low = sum then (.idle, some (.packet body.toList))
      else (.idle, some .corrupted)
    | none => (.idle, some .corrupted)
  | .overlong => (if byte = stop then .overlongChecksum 2 else .overlong, none)
  | .overlongChecksum left => (if 1 < left then .overlongChecksum (left - 1) else .idle, none)

def feed (reader : Reader) : List UInt8 → Reader × List Event
  | [] => (reader, [])
  | byte :: rest =>
    let (reader, event) := reader.push byte
    let (reader, events) := reader.feed rest
    (reader, event.toList ++ events)

theorem feed_append (reader : Reader) (a b : List UInt8) :
    reader.feed (a ++ b) =
      (((reader.feed a).1.feed b).1, (reader.feed a).2 ++ ((reader.feed a).1.feed b).2) := by
  induction a generalizing reader with
  | nil => simp [feed]
  | cons byte rest same => simp [feed, same]

end Reader

def needsEscape (byte : UInt8) : Bool :=
  byte == start || byte == stop || byte == escape || byte == runLength

def escapeByte (byte : UInt8) : List UInt8 :=
  if needsEscape byte then [escape, byte ^^^ escapeMask] else [byte]

def frame (payload : List UInt8) : List UInt8 :=
  let body := payload.flatMap escapeByte
  let sum := body.foldl (fun sum byte => sum + byte) 0
  start :: body ++ stop :: (Hex.byte sum).map fun char => UInt8.ofNat char.toNat

end Packet

end RvBoard.Debug
