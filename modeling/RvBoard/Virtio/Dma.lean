import RvBoard.Bus

/-!
# Virtio requests in guest memory

How a device takes requests from a queue: the rings, the descriptor chains with their indirect
tables, and the buffers that a chain gathers. Everything here reads and writes guest memory
through the bus.
-/

set_option autoImplicit false

namespace RvBoard.Virtio

structure Ring where
  queue : VirtQueue
  bus : Bus

/-- An operation on a queue; what it changed stays changed when it fails. -/
abbrev RingM (α : Type) := EStateM QueueError Ring α

def onBus {α : Type} (address : UInt64) (operation : BusM α) : EStateM QueueError Bus α :=
  fun bus =>
    match operation bus with
    | .ok value bus => .ok value bus
    | .error _ bus => .error (.memory address) bus

def onRing {α : Type} (operation : EStateM QueueError Bus α) : RingM α := fun ring =>
  let ⟨queue, bus⟩ := ring
  match operation bus with
  | .ok value bus => .ok value ⟨queue, bus⟩
  | .error error bus => .error error ⟨queue, bus⟩

def ringAddress (base offset : UInt64) : Except QueueError UInt64 :=
  match checkedAdd base offset with
  | some address => .ok address
  | none => .error (.memory base)

def liftExcept {σ α : Type} (value : Except QueueError α) : EStateM QueueError σ α :=
  match value with
  | .ok value => pure value
  | .error error => throw error

def load16 (address : UInt64) : RingM UInt16 :=
  onRing do return (← onBus address (Bus.load address 1)).toUInt16

def slotOf (index : UInt16) (num : UInt32) : UInt64 :=
  UInt64.ofNat (index.toNat % num.toNat)

def popAvail : RingM (Option UInt16) := do
  let queue := (← get).queue
  if !queue.ready then throw .notReady
  let available ← load16 (← liftExcept (ringAddress queue.avail 2))
  if available = queue.lastAvail then return none
  let head ← load16
    (← liftExcept (ringAddress queue.avail (4 + slotOf queue.lastAvail queue.num * 2)))
  modify fun ⟨queue, bus⟩ => ⟨{ queue with lastAvail := queue.lastAvail + 1 }, bus⟩
  return some head

def pushUsed (head : UInt16) (length : UInt32) : RingM Unit := do
  let queue := (← get).queue
  let element ← liftExcept (ringAddress queue.used (4 + slotOf queue.usedIndex queue.num * 8))
  let lengthAddress ← liftExcept (ringAddress element 4)
  onRing (onBus element do
    Bus.store element 2 head.toUInt64
    Bus.store lengthAddress 2 length.toUInt64)
  let usedIndex := queue.usedIndex + 1
  modify fun ⟨queue, bus⟩ => ⟨{ queue with usedIndex := usedIndex }, bus⟩
  let address ← liftExcept (ringAddress queue.used 2)
  onRing (onBus address (Bus.store address 1 usedIndex.toUInt64))

def suppressed (queue : VirtQueue) : BusM Bool :=
  tryCatch (do return (← Bus.load queue.avail 1).toUInt16 &&& 1 != 0) fun _ => return false

def Descriptor.flagMask : UInt16 := 7

def Descriptor.ofBytes (raw : ByteArray) : Descriptor where
  address := Bytes.wordAt raw 0 8
  length := (Bytes.wordAt raw 8 4).toUInt32
  flags := (Bytes.wordAt raw 12 2).toUInt16 &&& flagMask
  next := (Bytes.wordAt raw 14 2).toUInt16

def readDescriptor (table : UInt64) (index : UInt16) : EStateM QueueError Bus Descriptor := do
  let address ← liftExcept (ringAddress table (index.toUInt64 * 16))
  return Descriptor.ofBytes (← onBus address (Bus.readBytes address descriptorSize))

/-- The descriptors met from `index` on in a table of `size` entries, of which `left` may still be
visited. -/
def followTable (indirect : Descriptor → EStateM QueueError Bus (List Descriptor))
    (table : UInt64) (size : UInt32) : Nat → UInt16 → EStateM QueueError Bus (List Descriptor)
  | left, index => do
    if size.toNat ≤ index.toNat then throw (.indexOutOfRange index size)
    match left with
    | 0 => throw (.chainTooLong size)
    | left + 1 =>
      let descriptor ← readDescriptor table index
      if descriptor.isIndirect then indirect descriptor
      else if descriptor.hasNext then
        let rest ← followTable indirect table size left descriptor.next
        return descriptor :: rest
      else return [descriptor]

/-- The length of an indirect table is a number of descriptors, at least one and not too many. -/
def isTableLength (length : UInt32) : Bool :=
  length != 0 && length.toNat % descriptorSize == 0 &&
    length.toNat / descriptorSize ≤ maxQueueSize.toNat

/-- The descriptors of an indirect table, from its first on. -/
def followIndirect (descriptor : Descriptor) : EStateM QueueError Bus (List Descriptor) := do
  if !isTableLength descriptor.length then throw (.badIndirectTable descriptor.length)
  let count := descriptor.length / 16
  followTable (fun _ => throw .nestedIndirect) descriptor.address count count.toNat 0

def readChain (queue : VirtQueue) (head : UInt16) : EStateM QueueError Bus Chain := do
  let descriptors ← followTable followIndirect queue.descriptors queue.num queue.num.toNat head
  return { head, descriptors }

def gather (out : ByteArray) (total : Nat) : List Descriptor → BusM ByteArray
  | [] => return out
  | descriptor :: rest => do
    if total = 0 then return out
    let n := min descriptor.length.toNat total
    let bytes ← Bus.readBytes descriptor.address n
    gather (out ++ bytes) (total - n) rest

def Chain.readPrefix (chain : Chain) (limit : Nat) : BusM ByteArray :=
  gather ByteArray.empty (min chain.readableLength limit) chain.readable

/-- Writes the bytes from `start` on behind the first `skip` bytes of the buffers, and counts
them. -/
def scatter (bytes : ByteArray) (start skip : Nat) : List Descriptor → BusM Nat
  | [] => return 0
  | descriptor :: rest => do
    if bytes.size ≤ start then return 0
    let length := descriptor.length.toNat
    if length ≤ skip then scatter bytes start (skip - length) rest
    else
      let n := min (length - skip) (bytes.size - start)
      match checkedAdd descriptor.address (UInt64.ofNat skip) with
      | none => throw .storeAccess
      | some address =>
        Bus.writeBytes address (bytes.extract start (start + n))
        return n + (← scatter bytes (start + n) 0 rest)

def Chain.writeAt (chain : Chain) (offset : Nat) (bytes : ByteArray) : BusM UInt32 := do
  return UInt32.ofNat (← scatter bytes 0 offset chain.writable)

end RvBoard.Virtio
