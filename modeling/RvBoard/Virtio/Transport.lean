import RvBoard.Bytes
import RvBoard.Fdt
import RvBoard.MemFault
import RvBoard.Plic
import RvBoard.Virtio.Queue

/-!
# Virtio over memory-mapped registers

The register interface of a virtio device: feature negotiation, device status, the set-up of its
queues, notifications, and the interrupt status, whose bits hold the interrupt line up.
-/

set_option autoImplicit false

namespace RvBoard.Virtio

class Backend (δ : Type) where
  name : String
  deviceId : UInt32
  queueCount : Nat
  features : δ → UInt64
  config : δ → ByteArray
  reset : δ → δ

structure Slot where
  queue : VirtQueue := {}
  notified : Bool := false
deriving DecidableEq, Repr

structure Transport (δ : Type) where
  backend : δ
  status : UInt32 := 0
  deviceFeaturesSelect : UInt32 := 0
  driverFeaturesSelect : UInt32 := 0
  driverFeatures : UInt64 := 0
  queueSelect : UInt32 := 0
  slots : Array Slot
  interruptStatus : UInt32 := 0

def magic : UInt32 := 0x74726976
def version : UInt32 := 2
def vendor : UInt32 := 0x1af4
def windowSize : UInt64 := 0x1000
def configOffset : UInt64 := 0x100

def featureVersion1 : UInt64 := 0x100000000

def driverOk : UInt32 := 0x04
def featuresOk : UInt32 := 0x08
def needsReset : UInt32 := 0x40
def statusMask : UInt32 := 0xcf

def usedBuffer : UInt32 := 1
def interruptMask : UInt32 := 3

inductive Register where
  | magicValue | version | deviceId | vendorId
  | deviceFeatures | deviceFeaturesSelect | driverFeatures | driverFeaturesSelect
  | queueSelect | queueNumMax | queueNum | queueReady | queueNotify
  | interruptStatus | interruptAck | status
  | queueDescLow | queueDescHigh | queueAvailLow | queueAvailHigh | queueUsedLow | queueUsedHigh
  | configGeneration
deriving DecidableEq, Repr

def Register.ofOffset? (offset : UInt64) : Option Register :=
  match offset with
  | 0x000 => some .magicValue
  | 0x004 => some .version
  | 0x008 => some .deviceId
  | 0x00c => some .vendorId
  | 0x010 => some .deviceFeatures
  | 0x014 => some .deviceFeaturesSelect
  | 0x020 => some .driverFeatures
  | 0x024 => some .driverFeaturesSelect
  | 0x030 => some .queueSelect
  | 0x034 => some .queueNumMax
  | 0x038 => some .queueNum
  | 0x044 => some .queueReady
  | 0x050 => some .queueNotify
  | 0x060 => some .interruptStatus
  | 0x064 => some .interruptAck
  | 0x070 => some .status
  | 0x080 => some .queueDescLow
  | 0x084 => some .queueDescHigh
  | 0x090 => some .queueAvailLow
  | 0x094 => some .queueAvailHigh
  | 0x0a0 => some .queueUsedLow
  | 0x0a4 => some .queueUsedHigh
  | 0x0fc => some .configGeneration
  | _ => none

namespace Transport

variable {δ : Type} [Backend δ]

def ofBackend (backend : δ) : Transport δ :=
  { backend, slots := Array.replicate (Backend.queueCount δ) {} }

def interrupt (transport : Transport δ) : Bool :=
  transport.interruptStatus != 0

def has (transport : Transport δ) (bit : UInt32) : Bool :=
  transport.status &&& bit != 0

def offered (transport : Transport δ) : UInt64 :=
  Backend.features transport.backend ||| featureVersion1

def selected? (transport : Transport δ) : Option Slot :=
  transport.slots[transport.queueSelect.toNat]?

def changeQueue (transport : Transport δ) (change : VirtQueue → VirtQueue) : Transport δ :=
  let slots := transport.slots.modify transport.queueSelect.toNat
    fun slot => { slot with queue := change slot.queue }
  { transport with slots := slots }

def reset (transport : Transport δ) : Transport δ :=
  { backend := Backend.reset transport.backend
    slots := transport.slots.map fun _ => {} }

/-- The driver has accepted nothing that was not offered, and the mandatory feature. -/
def acceptable (transport : Transport δ) : Bool :=
  transport.driverFeatures &&& ~~~transport.offered == 0 &&
    transport.driverFeatures &&& featureVersion1 != 0

/-- FEATURES_OK is refused when the accepted features are not acceptable. -/
def writeStatus (transport : Transport δ) (value : UInt32) : Transport δ :=
  if value = 0 then transport.reset
  else
    let status := value &&& statusMask
    let negotiates := status &&& featuresOk != 0 && !transport.has featuresOk
    if negotiates && !transport.acceptable then
      { transport with status := status &&& ~~~featuresOk }
    else { transport with status := status }

def writeFeatures (transport : Transport δ) (value : UInt32) : Transport δ :=
  if transport.has featuresOk then transport
  else if transport.driverFeaturesSelect = 0 then
    { transport with driverFeatures := replaceHalf transport.driverFeatures value false }
  else if transport.driverFeaturesSelect = 1 then
    { transport with driverFeatures := replaceHalf transport.driverFeatures value true }
  else transport

def notify (transport : Transport δ) (queue : UInt32) : Transport δ :=
  if transport.has driverOk then
    let slots := transport.slots.modify queue.toNat
      fun slot => { slot with notified := slot.notified || slot.queue.ready }
    { transport with slots := slots }
  else transport

def acknowledge (transport : Transport δ) (value : UInt32) : Transport δ :=
  { transport with interruptStatus :=
      transport.interruptStatus &&& ~~~(value &&& interruptMask) }

def featureWord (transport : Transport δ) : UInt32 :=
  if transport.deviceFeaturesSelect = 0 then transport.offered.toUInt32
  else if transport.deviceFeaturesSelect = 1 then highHalf transport.offered
  else 0

def read (transport : Transport δ) : Register → UInt32
  | .magicValue => magic
  | .version => Virtio.version
  | .deviceId => Backend.deviceId δ
  | .vendorId => vendor
  | .deviceFeatures => transport.featureWord
  | .queueNumMax => if transport.selected?.isSome then maxQueueSize else 0
  | .queueReady =>
    match transport.selected? with
    | some slot => slot.queue.ready.toUInt32
    | none => 0
  | .interruptStatus => transport.interruptStatus
  | .status => transport.status
  | _ => 0

def write (transport : Transport δ) (value : UInt32) : Register → Transport δ
  | .deviceFeaturesSelect => { transport with deviceFeaturesSelect := value }
  | .driverFeaturesSelect => { transport with driverFeaturesSelect := value }
  | .driverFeatures => transport.writeFeatures value
  | .queueSelect => { transport with queueSelect := value }
  | .queueNum => transport.changeQueue (·.setNum value)
  | .queueReady => transport.changeQueue (·.setReady (value &&& 1 != 0))
  | .queueDescLow => transport.changeQueue (·.setDescriptors value false)
  | .queueDescHigh => transport.changeQueue (·.setDescriptors value true)
  | .queueAvailLow => transport.changeQueue (·.setAvail value false)
  | .queueAvailHigh => transport.changeQueue (·.setAvail value true)
  | .queueUsedLow => transport.changeQueue (·.setUsed value false)
  | .queueUsedHigh => transport.changeQueue (·.setUsed value true)
  | .queueNotify => transport.notify value
  | .interruptAck => transport.acknowledge value
  | .status => transport.writeStatus value
  | _ => transport

/-- Whether a write takes the interrupt line down: a reset does, and acknowledging the last
interrupt. -/
def lowers (transport : Transport δ) (value : UInt32) : Register → Bool
  | .status => value == 0
  | .interruptAck => !(transport.acknowledge value).interrupt
  | _ => false

/-- The device's configuration is read in any size and reads as zero beyond its end; registers
take words only. -/
def load (transport : Transport δ) (offset : UInt64) (size : Nat) : Except MemFault UInt64 :=
  if configOffset ≤ offset then
    .ok ((Bytes.word? (Backend.config transport.backend) (offset - configOffset).toNat size).getD 0)
  else if size = 2 then
    match Register.ofOffset? offset with
    | some register => .ok (transport.read register).toUInt64
    | none => .ok 0
  else .error .loadAccess

/-- What a write gives and leaves, and whether it takes the interrupt line down. The configuration is
read-only. -/
def store (transport : Transport δ) (offset : UInt64) (size : Nat) (value : UInt64) :
    Except MemFault Unit × Transport δ × Bool :=
  if configOffset ≤ offset then (.ok (), transport, false)
  else if size = 2 then
    match Register.ofOffset? offset with
    | some register =>
      (.ok (), transport.write value.toUInt32 register, transport.lowers value.toUInt32 register)
    | none => (.ok (), transport, false)
  else (.error .storeAccess, transport, false)

def describe (base : UInt64) (line : Line) : List Fdt.Token :=
  Fdt.node ("virtio_mmio@" ++ String.ofList (Nat.toDigits 16 base.toNat)) ([
    .text "compatible" "virtio,mmio",
    .reg base windowSize]
    ++ Fdt.interrupt (UInt32.ofNat line.val))

end Transport

end RvBoard.Virtio
