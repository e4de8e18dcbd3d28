import RvBoard.Bus
import RvBoard.Virtio.Process

/-!
# Steps of devices

What devices do on their own, between the steps of the hart: the clock looks at its alarm, and
virtio devices serve the queues that were notified. A device is busy during its step, so that it
answers none of its own accesses to memory.
-/

set_option autoImplicit false

namespace RvBoard

namespace Virtio

def stepOnBus {δ : Type} [Processor δ] (line : Line) (transport : Transport δ) (bus : Bus) :
    Option (Transport δ × Bus) :=
  if (Service.notified transport).isEmpty then some (transport, bus)
  else do
    let (transport, bus) ← Service.step transport bus
    let level := transport.interrupt
    return (transport, bus.mapWires fun wires => wires.drive line level)

end Virtio

namespace Rtc

def stepOnBus (line : Line) (rtc : Rtc) (bus : Bus) : Rtc × Bus :=
  if rtc.due bus.wires.wallTime then
    let rtc := rtc.check bus.wires.wallTime
    (rtc, bus.mapWires fun wires => wires.drive line rtc.interrupt)
  else (rtc, bus)

end Rtc

def Device.stepOnBus (device : Device) (bus : Bus) : Option (Device × Bus) :=
  match device with
  | .rtc line clock =>
    let (clock, bus) := clock.stepOnBus line bus
    some (.rtc line clock, bus)
  | .block line transport => do
    let (transport, bus) ← Virtio.stepOnBus line transport bus
    return (.block line transport, bus)
  | .share line transport => do
    let (transport, bus) ← Virtio.stepOnBus line transport bus
    return (.share line transport, bus)
  | .echo line transport => do
    let (transport, bus) ← Virtio.stepOnBus line transport bus
    return (.echo line transport, bus)
  | other => some (other, bus)

/-- Devices that do nothing between accesses need not be taken off the bus for it. -/
def Device.isActive : Device → Bool
  | .rtc _ _ | .block _ _ | .share _ _ | .echo _ _ => true
  | _ => false

namespace Bus

/-- The device is taken off the bus for its step, which may never end. -/
def stepDevice? (id : DeviceId) (bus : Bus) : Option Bus :=
  if known : id < bus.devices.size then
    if bus.devices[id].isActive then
      let ⟨windows, devices, wires, held⟩ := bus
      let device := devices[id]
      let devices := devices.setIfInBounds id .clint
      (device.stepOnBus ⟨windows, devices, wires, some id⟩).map fun (device, bus) =>
        let ⟨windows, devices, wires, _⟩ := bus
        ⟨windows, devices.setIfInBounds id device, wires, held⟩
    else some bus
  else some bus

/-- The bus after the step of a device. Whoever runs a step that does not end never gets here; to
have a bus in any case, it is then the old one. -/
def stepDevice (id : DeviceId) (bus : Bus) : Bus :=
  (bus.stepDevice? id).getD bus

end Bus

end RvBoard
