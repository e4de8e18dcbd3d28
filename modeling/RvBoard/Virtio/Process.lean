import RvBoard.Virtio.Service

/-!
# What the virtio devices do

The requests of the block device, the 9P messages of a shared directory, and the echo.
-/

set_option autoImplicit false

namespace RvBoard.Virtio

namespace Block

inductive RequestType where
  | input
  | output
  | flush
  | getId
deriving DecidableEq, Repr

def RequestType.ofNumber? (number : UInt32) : Option RequestType :=
  match number with
  | 0 => some .input
  | 1 => some .output
  | 4 => some .flush
  | 8 => some .getId
  | _ => none

inductive Status where
  | ok
  | ioError
  | unsupported
deriving DecidableEq, Repr

def Status.byte : Status → UInt8
  | ok => 0
  | ioError => 1
  | unsupported => 2

def headerSize : Nat := 16
def idSize : Nat := 20
def deviceIdText : String := "riscv-board-vm"

def idBytes : ByteArray :=
  let text := deviceIdText.toUTF8
  text ++ Bytes.zeros (idSize - text.size)

def inRange (block : Block) (sector : UInt64) (n : Nat) : Bool :=
  let stop := sector.toNat * sectorSize + n
  stop < UInt64.size && stop ≤ block.store.length

def readSectors (block : Block) (sector : UInt64) (n : Nat) : Option ByteArray :=
  if block.inRange sector n then
    match block.store.read (sector.toNat * sectorSize) n with
    | .ok bytes => some bytes
    | .error _ => none
  else none

def writeSectors (sector : UInt64) (bytes : ByteArray) (block : Block) : Status × Block :=
  let ⟨store⟩ := block
  if store.readOnly then (.ioError, ⟨store⟩)
  else if !inRange ⟨store⟩ sector bytes.size then (.ioError, ⟨store⟩)
  else
    match store.write (sector.toNat * sectorSize) bytes with
    | (.ok _, store) => (.ok, ⟨store⟩)
    | (.error _, store) => (.ioError, ⟨store⟩)

def backend : DmaM Block Block := do
  return (← get).backend

def answer (chain : Chain) (bytes : ByteArray) : DmaM Block (Status × UInt32) := do
  return (.ok, ← DmaM.onBus (chain.writeAt 0 bytes))

def perform (chain : Chain) (sector : UInt64) (n : Nat) :
    Option RequestType → DmaM Block (Status × UInt32)
  | some .input => do
    match (← backend).readSectors sector n with
    | some bytes => answer chain bytes
    | none => return (.ioError, 0)
  | some .output => do
    let payload := chain.readableLength - headerSize
    if (← backend).inRange sector payload then
      let request ← DmaM.onBus (chain.readPrefix chain.readableLength)
      let data := request.extract headerSize request.size
      return (← DmaM.onBackend (writeSectors sector data), 0)
    else return (.ioError, 0)
  | some .flush => do
    match (← backend).store.flush with
    | .ok _ => return (.ok, 0)
    | .error _ => return (.ioError, 0)
  | some .getId => answer chain (idBytes.extract 0 (min n idSize))
  | none => return (.unsupported, 0)

/-- The last writable byte receives the status, and counts as written. -/
def process (chain : Chain) : DmaM Block UInt32 := do
  let writable := chain.writableLength
  if writable = 0 then return 0
  let n := writable - 1
  if chain.readableLength < headerSize then
    DmaM.onBus (chain.writeAt n ⟨#[Status.ioError.byte]⟩)
  else
    let header ← DmaM.onBus (chain.readPrefix headerSize)
    let type := RequestType.ofNumber? (Bytes.wordAt header 0 4).toUInt32
    let (status, written) ← perform chain (Bytes.wordAt header 8 8) n type
    let _ ← DmaM.onBus (chain.writeAt n ⟨#[status.byte]⟩)
    return written + 1

end Block

instance : Processor Block where
  process _ chain := Block.process chain

namespace Share

def replySpace (chain : Chain) : UInt32 :=
  UInt32.ofNat (min chain.writableLength 0xffffffff)

/-- A reply that does not fit is replaced by an error with the same tag. -/
def fitted (reply : NineP.Message) (space : UInt32) : NineP.Message :=
  if reply.size ≤ space.toNat then reply else NineP.Server.errorReply reply.tag .io

def process (chain : Chain) : DmaM Share UInt32 := do
  let length := chain.readableLength
  if (← get).backend.msize.toNat < length then return 0
  let request ← DmaM.onBus (chain.readPrefix length)
  let space := replySpace chain
  let reply ← DmaM.onBackend fun server => server.handle request.toList space
  DmaM.onBus (chain.writeAt 0 (Bytes.ofList (fitted reply space).bytes))

end Share

instance : Processor Share where
  process _ chain := Share.process chain

namespace Echo

def limit : Nat := 0x1000

def process (chain : Chain) : DmaM Echo UInt32 :=
  DmaM.onBus do chain.writeAt 0 (← chain.readPrefix limit)

end Echo

instance : Processor Echo where
  process _ chain := Echo.process chain

end RvBoard.Virtio
