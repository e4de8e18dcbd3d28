import RvBoard.Device.BlockStore
import RvBoard.NineP.Server
import RvBoard.Share.HostShare
import RvBoard.Virtio.Transport

/-!
# Virtio devices

The identity, features and configuration of the block device, the 9P device, and an echo device
that returns what it is sent.
-/

set_option autoImplicit false

namespace RvBoard.Virtio

structure Block where
  store : BlockStore

namespace Block

def name : String := "virtio-blk"
def sectorSize : Nat := 512

def featureSegMax : UInt64 := 0x4
def featureReadOnly : UInt64 := 0x20
def featureBlockSize : UInt64 := 0x40
def featureFlush : UInt64 := 0x200

def features (block : Block) : UInt64 :=
  featureSegMax ||| featureBlockSize ||| featureFlush |||
    (if block.store.readOnly then featureReadOnly else 0)

def capacity (block : Block) : Nat :=
  block.store.length / sectorSize

def config (block : Block) : ByteArray :=
  Bytes.ofList (Bytes.littleEndian 8 (UInt64.ofNat block.capacity) ++ Bytes.littleEndian 4 0
    ++ Bytes.littleEndian 4 (maxQueueSize - 2).toUInt64 ++ Bytes.littleEndian 4 0
    ++ Bytes.littleEndian 4 (UInt64.ofNat sectorSize))

end Block

instance : Backend Block where
  name := Block.name
  deviceId := 2
  queueCount := 1
  features := Block.features
  config := Block.config
  reset := id

abbrev Share := NineP.Server HostShare

def Share.name : String := "virtio-9p"

def Share.features : UInt64 := 1

instance : Backend Share where
  name := Share.name
  deviceId := 9
  queueCount := 1
  features _ := Share.features
  config := NineP.Server.config
  reset := NineP.Server.reset

structure Echo where

def Echo.name : String := "virtio-echo"

instance : Backend Echo where
  name := Echo.name
  deviceId := 3
  queueCount := 2
  features _ := 0x10000000008
  config _ := ⟨#[1, 2, 3, 4, 5, 6]⟩
  reset := id

end RvBoard.Virtio
