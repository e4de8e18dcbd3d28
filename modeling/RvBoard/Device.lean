import RvBoard.Device.BootRom
import RvBoard.Device.Clint
import RvBoard.Device.Ram
import RvBoard.Device.Rtc
import RvBoard.Device.SystemController
import RvBoard.Device.Uart
import RvBoard.Virtio.Backends

/-!
# Devices

Everything that can be put on the bus. An access tells the device the offset in its window and
the binary logarithm of the size; a device that has an interrupt line updates it where an access can
change what it asks for.
-/

set_option autoImplicit false

namespace RvBoard

open Virtio (Transport Block Share Echo)

inductive Device where
  | ram (ram : Ram)
  | bootRom (rom : BootRom)
  | controller (controller : SystemController)
  | clint
  | plic
  | uart (line : Line) (uart : Uart)
  | rtc (line : Line) (rtc : Rtc)
  | block (line : Line) (transport : Transport Block)
  | share (line : Line) (transport : Transport Share)
  | echo (line : Line) (transport : Transport Echo)

abbrev Access (α : Type) := Except MemFault α × Device × Wires

namespace Device

def name : Device → String
  | .ram _ => Ram.name
  | .bootRom _ => BootRom.name
  | .controller _ => SystemController.name
  | .clint => Clint.name
  | .plic => Plic.name
  | .uart _ _ => Uart.name
  | .rtc _ _ => Rtc.name
  | .block _ _ => Block.name
  | .share _ _ => Share.name
  | .echo _ _ => Echo.name

def size : Device → UInt64
  | .ram memory => UInt64.ofNat memory.data.size
  | .bootRom _ => UInt64.ofNat BootRom.size
  | .controller _ => SystemController.size
  | .clint => Clint.size
  | .plic => Plic.size
  | .uart _ _ => Uart.size
  | .rtc _ _ => Rtc.size
  | .block _ _ | .share _ _ | .echo _ _ => Virtio.windowSize

def isMemory : Device → Bool
  | .ram _ => true
  | _ => false

def load (device : Device) (wires : Wires) (offset : UInt64) (size : Nat) : Access UInt64 :=
  match device with
  | .ram memory => (memory.load offset size, .ram memory, wires)
  | .bootRom rom => (rom.load offset size, .bootRom rom, wires)
  | .controller state => (state.load offset size, .controller state, wires)
  | .clint => (Clint.load wires offset size, .clint, wires)
  | .plic =>
    let (result, signals) := wires.signals.load offset size
    (result, .plic, { wires with signals := signals })
  | .uart line port =>
    let updates := port.readUpdates offset
    let (value, port) := port.read offset
    (.ok value.toUInt64, .uart line port, wires.update line updates port.interrupt)
  | .rtc line clock =>
    let (result, clock) := clock.load wires.wallTime offset size
    (result, .rtc line clock, wires)
  | .block line transport => (transport.load offset size, .block line transport, wires)
  | .share line transport => (transport.load offset size, .share line transport, wires)
  | .echo line transport => (transport.load offset size, .echo line transport, wires)

def store (device : Device) (wires : Wires) (offset : UInt64) (size : Nat) (value : UInt64) :
    Access Unit :=
  match device with
  | .ram memory =>
    let (result, memory) := memory.store offset size value
    (result, .ram memory, wires)
  | .bootRom rom => (.error .storeAccess, .bootRom rom, wires)
  | .controller state =>
    let (result, state, wires) := state.store wires offset size value
    (result, .controller state, wires)
  | .clint =>
    let (result, wires) := Clint.store wires offset size value
    (result, .clint, wires)
  | .plic =>
    let (result, signals) := wires.signals.store offset size value
    (result, .plic, { wires with signals := signals })
  | .uart line port =>
    let port := port.write offset value.toUInt8
    (.ok (), .uart line port, wires.drive line port.interrupt)
  | .rtc line clock =>
    let (result, clock, updates) := clock.store wires.wallTime offset size value
    (result, .rtc line clock, wires.update line updates clock.interrupt)
  | .block line transport =>
    let (result, transport, lowers) := transport.store offset size value
    (result, .block line transport, wires.update line lowers false)
  | .share line transport =>
    let (result, transport, lowers) := transport.store offset size value
    (result, .share line transport, wires.update line lowers false)
  | .echo line transport =>
    let (result, transport, lowers) := transport.store offset size value
    (result, .echo line transport, wires.update line lowers false)

/-- Bytes are read one after the other, up to the first that cannot be read. -/
def readEach (device : Device) (wires : Wires) (offset : UInt64) (out : ByteArray) :
    Nat → Access ByteArray
  | 0 => (.ok out, device, wires)
  | n + 1 =>
    match device.load wires offset 0 with
    | (.ok value, device, wires) => device.readEach wires (offset + 1) (out.push value.toUInt8) n
    | (.error fault, device, wires) => (.error fault, device, wires)

def writeEach (device : Device) (wires : Wires) (offset : UInt64) : List UInt8 → Access Unit
  | [] => (.ok (), device, wires)
  | byte :: rest =>
    match device.store wires offset 0 byte.toUInt64 with
    | (.ok _, device, wires) => device.writeEach wires (offset + 1) rest
    | (.error fault, device, wires) => (.error fault, device, wires)

def readBytes (device : Device) (wires : Wires) (offset : UInt64) (n : Nat) : Access ByteArray :=
  match device with
  | .ram memory => (memory.readBytes offset n, .ram memory, wires)
  | .bootRom rom => (rom.readBytes offset n, .bootRom rom, wires)
  | other => other.readEach wires offset ByteArray.empty n

def writeBytes (device : Device) (wires : Wires) (offset : UInt64) (bytes : ByteArray) :
    Access Unit :=
  match device with
  | .ram memory =>
    let (result, memory) := memory.writeBytes offset bytes
    (result, .ram memory, wires)
  | other => other.writeEach wires offset bytes.toList

def reset (device : Device) (wires : Wires) : Device × Wires :=
  match device with
  | .ram memory => (.ram memory, wires)
  | .bootRom rom => (.bootRom rom, wires)
  | .controller _ => (.controller {}, wires)
  | .clint => (.clint, Clint.reset wires)
  | .plic => (.plic, { wires with signals := wires.signals.reset })
  | .uart line port => (.uart line port.reset, wires.drive line false)
  | .rtc line _ => (.rtc line {}, wires.drive line false)
  | .block line transport => (.block line transport.reset, wires.drive line false)
  | .share line transport => (.share line transport.reset, wires.drive line false)
  | .echo line transport => (.echo line transport.reset, wires.drive line false)

def describe (device : Device) (base : UInt64) : List Fdt.Token :=
  match device with
  | .ram memory => memory.describe base
  | .bootRom _ => []
  | .controller _ => SystemController.describe base
  | .clint => Clint.describe base
  | .plic => Plic.describe base
  | .uart line _ => Uart.describe base line
  | .rtc line _ => Rtc.describe base line
  | .block line _ | .share line _ | .echo line _ => Virtio.Transport.describe base line

end Device

end RvBoard
