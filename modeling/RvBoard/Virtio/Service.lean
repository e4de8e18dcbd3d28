import RvBoard.Virtio.Dma

/-!
# Serving virtio requests

One step of a virtio device: every queue that was notified is emptied, each request is handed to
the device and reported as done, and the driver is interrupted unless it does not want to be.
-/

set_option autoImplicit false

namespace RvBoard.Virtio

structure Dma (δ : Type) where
  backend : δ
  bus : Bus

/-- What a device does with a request; what it changed stays changed when it fails. -/
abbrev DmaM (δ α : Type) := EStateM MemFault (Dma δ) α

class Processor (δ : Type) extends Backend δ where
  process : Nat → Chain → DmaM δ UInt32

namespace DmaM

variable {δ : Type}

def onBus {α : Type} (operation : BusM α) : DmaM δ α := fun dma =>
  let ⟨backend, bus⟩ := dma
  match operation bus with
  | .ok value bus => .ok value ⟨backend, bus⟩
  | .error fault bus => .error fault ⟨backend, bus⟩

def onBackend {α : Type} (operation : δ → α × δ) : DmaM δ α := fun dma =>
  let ⟨backend, bus⟩ := dma
  let (value, backend) := operation backend
  .ok value ⟨backend, bus⟩

end DmaM

structure Service (δ : Type) where
  transport : Transport δ
  bus : Bus
  raise : Bool

namespace Service

variable {δ : Type}

def setQueue (service : Service δ) (index : Nat) (queue : VirtQueue) : Service δ :=
  let ⟨transport, bus, raise⟩ := service
  let slots := transport.slots.modify index fun slot => { slot with queue := queue }
  ⟨{ transport with slots := slots }, bus, raise⟩

def setStatus (service : Service δ) (bits : UInt32) : Service δ :=
  let ⟨transport, bus, raise⟩ := service
  ⟨{ transport with status := transport.status ||| bits }, bus, raise⟩

/-- An operation on one queue; the queue and the bus keep its changes in any case. -/
def onRing {α : Type} (service : Service δ) (index : Nat) (queue : VirtQueue)
    (operation : RingM α) : Except QueueError α × Service δ :=
  let ⟨transport, bus, raise⟩ := service
  match operation ⟨queue, bus⟩ with
  | .ok value ⟨queue, bus⟩ => (.ok value, setQueue ⟨transport, bus, raise⟩ index queue)
  | .error error ⟨queue, bus⟩ => (.error error, setQueue ⟨transport, bus, raise⟩ index queue)

/-- The device's result for the request at `head`, zero when the request cannot be carried out. -/
def handle [Processor δ] (service : Service δ) (index : Nat) (queue : VirtQueue) (head : UInt16) :
    UInt32 × Service δ :=
  let ⟨transport, bus, raise⟩ := service
  match readChain queue head bus with
  | .error _ bus => (0, ⟨transport, bus, raise⟩)
  | .ok chain bus =>
    match Processor.process index chain ⟨transport.backend, bus⟩ with
    | .ok length ⟨backend, bus⟩ => (length, ⟨{ transport with backend := backend }, bus, raise⟩)
    | .error _ ⟨backend, bus⟩ => (0, ⟨{ transport with backend := backend }, bus, raise⟩)

/-- Reports a request as done. A used ring that cannot be written stops the queue. -/
def finish (service : Service δ) (index : Nat) (queue : VirtQueue) (head : UInt16)
    (length : UInt32) : Bool × Service δ :=
  match service.onRing index queue (pushUsed head length) with
  | (.error _, service) => (false, service.setStatus needsReset)
  | (.ok _, service) =>
    let ⟨transport, bus, raise⟩ := service
    match suppressed queue bus with
    | .ok quiet bus => (true, ⟨transport, bus, raise || !quiet⟩)
    | .error _ bus => (true, ⟨transport, bus, raise⟩)

def round [Processor δ] (service : Service δ) (index : Nat) : Bool × Service δ :=
  match service.transport.slots[index]? with
  | none => (false, service)
  | some slot =>
    match service.onRing index slot.queue popAvail with
    | (.error _, service) => (false, service.setStatus needsReset)
    | (.ok none, service) => (false, service)
    | (.ok (some head), service) =>
      let queue := { slot.queue with lastAvail := slot.queue.lastAvail + 1 }
      let (length, service) := service.handle index queue head
      service.finish index queue head length

/-- Rounds until the queue is empty or stopped. There is no result when neither ever happens, which
a driver can bring about by having its own ring written over. -/
def rounds [Processor δ] (index : Nat) (service : Service δ) : Option (Service δ) :=
  match service.round index with
  | (true, service) => service |>.rounds index
  | (false, service) => some service
partial_fixpoint

def notified (transport : Transport δ) : List Nat :=
  (List.range transport.slots.size).filter fun index =>
    match transport.slots[index]? with
    | some slot => slot.notified
    | none => false

def clearNotified (transport : Transport δ) : Transport δ :=
  { transport with slots := transport.slots.map fun slot => { slot with notified := false } }

def interrupting (service : Service δ) : Transport δ × Bus :=
  let ⟨transport, bus, raise⟩ := service
  if raise then
    ({ transport with interruptStatus := transport.interruptStatus ||| usedBuffer }, bus)
  else (transport, bus)

def step [Processor δ] (transport : Transport δ) (bus : Bus) : Option (Transport δ × Bus) := do
  let queues := notified transport
  let start : Service δ := ⟨clearNotified transport, bus, false⟩
  let service ← queues.foldlM (fun service index => service.rounds index) start
  return service.interrupting

end Service

end RvBoard.Virtio
