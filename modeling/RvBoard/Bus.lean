import RvBoard.Device
import RvBoard.Text.Hex
import RvBoard.Word

/-!
# Physical bus

Devices in disjoint address windows, in the order of their addresses. An access goes to the one
window that holds all of it; a device that is busy with its own step answers no access.
-/

set_option autoImplicit false

namespace RvBoard

abbrev DeviceId := Nat

structure Window where
  start : UInt64
  size : UInt64
  device : DeviceId
deriving DecidableEq, Repr

namespace Window

def stop (window : Window) : UInt64 :=
  saturatingAdd window.start window.size

def has (window : Window) (address : UInt64) : Bool :=
  window.start ≤ address && address < window.stop

def contains (window : Window) (address : UInt64) (n : Nat) : Bool :=
  window.start ≤ address && address.toNat + n ≤ window.stop.toNat

def overlaps (a b : Window) : Bool :=
  a.start < b.stop && b.start < a.stop

end Window

structure Bus where
  windows : Array Window := #[]
  devices : Array Device := #[]
  wires : Wires := {}
  held : Option DeviceId := none

/-- An operation on the bus; what it changed stays changed when it fails. -/
abbrev BusM (α : Type) := EStateM MemFault Bus α

structure OverlapError where
  name : String
  start : UInt64
  stop : UInt64
  existing : String
  existingStart : UInt64
  existingStop : UInt64

def OverlapError.message (error : OverlapError) : String :=
  "device \x60" ++ error.name ++ "\x60 at [" ++ Hex.word error.start ++ ", " ++
    Hex.word error.stop ++ ") overlaps \x60" ++ error.existing ++ "\x60 at [" ++
    Hex.word error.existingStart ++ ", " ++ Hex.word error.existingStop ++ ")"

namespace Bus

def empty : Bus := {}

def device? (bus : Bus) (id : DeviceId) : Option Device :=
  bus.devices[id]?

def nameOf (bus : Bus) (id : DeviceId) : String :=
  match bus.device? id with
  | some device => device.name
  | none => ""

/-- A device that is known to the bus but answers at no address yet. -/
def addDevice (bus : Bus) (device : Device) : DeviceId × Bus :=
  (bus.devices.size, { bus with devices := bus.devices.push device })

def rank (windows : Array Window) (address : UInt64) : Nat :=
  (windows.takeWhile fun window => window.start < address).size

/-- The windows next to a position are the only ones that a new one there can overlap. -/
def neighbours (windows : Array Window) (position : Nat) : List Window :=
  (if position = 0 then none else windows[position - 1]?).toList ++ windows[position]?.toList

def bind (bus : Bus) (base : UInt64) (id : DeviceId) : Except OverlapError Bus :=
  let size :=
    match bus.device? id with
    | some device => device.size
    | none => 0
  let window : Window := ⟨base, size, id⟩
  let position := rank bus.windows base
  match (neighbours bus.windows position).find? window.overlaps with
  | some other =>
    .error ⟨bus.nameOf id, window.start, window.stop, bus.nameOf other.device, other.start, other.stop⟩
  | none => .ok { bus with windows := bus.windows.insertIdxIfInBounds position window }

def place (bus : Bus) (base : UInt64) (device : Device) : Except OverlapError (DeviceId × Bus) := do
  let (id, bus) := bus.addDevice device
  return (id, ← bus.bind base id)

/-- Bisection among the `count` windows from `first` on. -/
def search (windows : Array Window) (address : UInt64) (first count : Nat) : Option Window :=
  if 1 < count then
    let half := count / 2
    match windows[first + half]? with
    | some window =>
      if address < window.start then search windows address first (count - half)
      else search windows address (first + half) (count - half)
    | none => none
  else windows[first]?
termination_by count
decreasing_by all_goals omega

def find? (bus : Bus) (address : UInt64) : Option Window :=
  (search bus.windows address 0 bus.windows.size).filter (·.has address)

def window? (bus : Bus) (address : UInt64) (n : Nat) : Option Window :=
  (bus.find? address).filter (·.contains address n)

def withDevice {α : Type} (id : DeviceId) (fault : MemFault) (access : Device → Wires → Access α) :
    BusM α := fun bus =>
  if bus.held = some id then .error fault bus
  else if known : id < bus.devices.size then
    let ⟨windows, devices, wires, held⟩ := bus
    let device := devices[id]
    let devices := devices.setIfInBounds id .clint
    match access device wires with
    | (.ok value, device, wires) =>
      .ok value ⟨windows, devices.setIfInBounds id device, wires, held⟩
    | (.error fault, device, wires) =>
      .error fault ⟨windows, devices.setIfInBounds id device, wires, held⟩
  else .error fault bus

/-- Whether an access of `2 ^ size` bytes is refused before any device is asked. -/
def refused? (size : Nat) (address : UInt64) (write : Bool) : Option MemFault :=
  if 3 < size then some (.access write)
  else if aligned size address then none
  else some (.misaligned write)

def load (address : UInt64) (size : Nat) : BusM UInt64 := fun bus =>
  match refused? size address false with
  | some fault => .error fault bus
  | none =>
    match bus.window? address (byteCount size) with
    | none => .error .loadAccess bus
    | some window =>
      withDevice window.device .loadAccess
        (fun device wires => device.load wires (address - window.start) size) bus

def store (address : UInt64) (size : Nat) (value : UInt64) : BusM Unit := fun bus =>
  match refused? size address true with
  | some fault => .error fault bus
  | none =>
    match bus.window? address (byteCount size) with
    | none => .error .storeAccess bus
    | some window =>
      withDevice window.device .storeAccess
        (fun device wires => device.store wires (address - window.start) size value) bus

def access (address : UInt64) (size : Nat) (write : Bool) (value : UInt64) : BusM UInt64 := do
  if write then
    store address size value
    return 0
  else load address size

def readBytes (address : UInt64) (n : Nat) : BusM ByteArray := fun bus =>
  if n = 0 then .ok ByteArray.empty bus
  else
    match bus.window? address n with
    | none => .error .loadAccess bus
    | some window =>
      withDevice window.device .loadAccess
        (fun device wires => device.readBytes wires (address - window.start) n) bus

def writeBytes (address : UInt64) (bytes : ByteArray) : BusM Unit := fun bus =>
  if bytes.isEmpty then .ok () bus
  else
    match bus.window? address bytes.size with
    | none => .error .storeAccess bus
    | some window =>
      withDevice window.device .storeAccess
        (fun device wires => device.writeBytes wires (address - window.start) bytes) bus

def alignUp (align address : UInt64) : Option UInt64 :=
  (checkedAdd address (align - 1)).map fun sum => sum &&& ~~~(align - 1)

def skipWindows (size align : UInt64) : UInt64 → List Window → Option UInt64
  | candidate, [] => some candidate
  | candidate, window :: rest => do
    let stop ← checkedAdd candidate size
    if stop ≤ window.start then some candidate
    else skipWindows size align (max candidate (← alignUp align window.stop)) rest

def findFree? (bus : Bus) (size first limit align : UInt64) : Option UInt64 := do
  let start ← alignUp align first
  let above := bus.windows.toList.filter fun window => first < window.stop
  let candidate ← skipWindows size align start above
  let stop ← checkedAdd candidate size
  if stop ≤ limit then some candidate else none

def baseOf? (bus : Bus) (id : DeviceId) : Option UInt64 :=
  (bus.windows.find? fun window => window.device == id).map Window.start

def mapWires (change : Wires → Wires) (bus : Bus) : Bus :=
  let ⟨windows, devices, wires, held⟩ := bus
  ⟨windows, devices, change wires, held⟩

def mapDevice (id : DeviceId) (change : Device → Wires → Device × Wires) (bus : Bus) : Bus :=
  if known : id < bus.devices.size then
    let ⟨windows, devices, wires, held⟩ := bus
    let device := devices[id]
    let devices := devices.setIfInBounds id .clint
    let (device, wires) := change device wires
    ⟨windows, devices.setIfInBounds id device, wires, held⟩
  else bus

def resetDevice (id : DeviceId) (bus : Bus) : Bus :=
  bus.mapDevice id Device.reset

end Bus

end RvBoard
