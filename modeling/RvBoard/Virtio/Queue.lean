import RvBoard.Text.Hex
import RvBoard.Word

/-!
# Virtqueues

The device's view of a virtqueue: its size, the addresses of its three areas in guest memory, and
how far each ring has been followed.
-/

set_option autoImplicit false

namespace RvBoard.Virtio

def maxQueueSize : UInt32 := 256

def descriptorSize : Nat := 16

structure VirtQueue where
  num : UInt32 := 0
  ready : Bool := false
  descriptors : UInt64 := 0
  avail : UInt64 := 0
  used : UInt64 := 0
  lastAvail : UInt16 := 0
  usedIndex : UInt16 := 0
deriving DecidableEq, Repr

inductive QueueError where
  | notReady
  | memory (address : UInt64)
  | indexOutOfRange (index : UInt16) (size : UInt32)
  | chainTooLong (limit : UInt32)
  | badIndirectTable (length : UInt32)
  | nestedIndirect
deriving DecidableEq, Repr

namespace QueueError

def name : QueueError → String
  | notReady => "NotReady"
  | memory _ => "Memory"
  | indexOutOfRange _ _ => "IndexOutOfRange"
  | chainTooLong _ => "ChainTooLong"
  | badIndirectTable _ => "BadIndirectTable"
  | nestedIndirect => "NestedIndirect"

def message : QueueError → String
  | notReady => "queue is not ready"
  | memory address => "guest memory fault at " ++ Hex.word address
  | indexOutOfRange index size =>
    "descriptor index " ++ toString index.toNat ++ " out of range (table size " ++
      toString size.toNat ++ ")"
  | chainTooLong limit => "descriptor chain longer than " ++ toString limit.toNat
  | badIndirectTable length => "indirect table of " ++ toString length.toNat ++ " bytes is invalid"
  | nestedIndirect => "nested indirect descriptor"

end QueueError

structure Descriptor where
  address : UInt64
  length : UInt32
  flags : UInt16
  next : UInt16
deriving DecidableEq, Repr

namespace Descriptor

def nextFlag : UInt16 := 1
def writeFlag : UInt16 := 2
def indirectFlag : UInt16 := 4

def hasNext (descriptor : Descriptor) : Bool :=
  descriptor.flags &&& nextFlag != 0

def isWritable (descriptor : Descriptor) : Bool :=
  descriptor.flags &&& writeFlag != 0

def isIndirect (descriptor : Descriptor) : Bool :=
  descriptor.flags &&& indirectFlag != 0

end Descriptor

structure Chain where
  head : UInt16
  descriptors : List Descriptor
deriving DecidableEq, Repr

namespace Chain

def readable (chain : Chain) : List Descriptor :=
  chain.descriptors.filter fun descriptor => !descriptor.isWritable

def writable (chain : Chain) : List Descriptor :=
  chain.descriptors.filter Descriptor.isWritable

def totalLength (descriptors : List Descriptor) : Nat :=
  descriptors.foldr (fun descriptor total => descriptor.length.toNat + total) 0

def readableLength (chain : Chain) : Nat :=
  totalLength chain.readable

def writableLength (chain : Chain) : Nat :=
  totalLength chain.writable

end Chain

namespace VirtQueue

def isPowerOfTwo (n : UInt32) : Bool :=
  n != 0 && n &&& (n - 1) == 0

/-- A size that is no power of two up to the maximum is ignored. -/
def setNum (queue : VirtQueue) (num : UInt32) : VirtQueue :=
  if isPowerOfTwo num && num ≤ maxQueueSize then { queue with num := num } else queue

def setReady (queue : VirtQueue) (ready : Bool) : VirtQueue :=
  { queue with ready := ready && queue.num != 0 }

def setDescriptors (queue : VirtQueue) (value : UInt32) (high : Bool) : VirtQueue :=
  { queue with descriptors := replaceHalf queue.descriptors value high }

def setAvail (queue : VirtQueue) (value : UInt32) (high : Bool) : VirtQueue :=
  { queue with avail := replaceHalf queue.avail value high }

def setUsed (queue : VirtQueue) (value : UInt32) (high : Bool) : VirtQueue :=
  { queue with used := replaceHalf queue.used value high }

end VirtQueue

end RvBoard.Virtio
