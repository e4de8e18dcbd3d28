import RvBoard.Bus
import RvBoard.Proofs.Bytes
import RvBoard.Proofs.Outcome

/-!
# Accesses to the bus

What a load or a store can do to the bus: fail and change nothing, read or write the bytes of a
memory, or change a device that is no memory together with the wires. The address map never
changes.
-/

set_option autoImplicit false

namespace RvBoard

def Device.memory? : Device → Option Ram
  | .ram memory => some memory
  | _ => none

theorem Device.memory_eq {device : Device} {memory : Ram} (found : device.memory? = some memory) :
    device = .ram memory := by
  cases device with
  | ram other =>
    cases found
    rfl
  | _ => cases found

structure Device.Closed (Allowed : Device → Wires → Device → Wires → Prop) : Prop where
  refl : ∀ device wires, Allowed device wires device wires
  trans : ∀ {device next last : Device} {wires after final : Wires},
    Allowed device wires next after → Allowed next after last final → Allowed device wires last final
  load : ∀ (device : Device) wires offset size,
    Allowed device wires (device.load wires offset size).2.1 (device.load wires offset size).2.2
  store : ∀ (device : Device) wires offset size value,
    Allowed device wires (device.store wires offset size value).2.1 (device.store wires offset size value).2.2
  written : ∀ (memory next : Ram) wires, Allowed (.ram memory) wires (.ram next) wires

section Devices

variable {Allowed : Device → Wires → Device → Wires → Prop} (closed : Device.Closed Allowed)

include closed

theorem Device.Closed.readEach (n : Nat) (device : Device) (wires : Wires) (offset : UInt64) (out : ByteArray) :
    Allowed device wires (device.readEach wires offset out n).2.1 (device.readEach wires offset out n).2.2 := by
  induction n generalizing device wires offset out with
  | zero => exact closed.refl device wires
  | succ n ih =>
    have first := closed.load device wires offset 0
    unfold Device.readEach
    generalize device.load wires offset 0 = outcome at first
    obtain ⟨result, next, after⟩ := outcome
    cases result with
    | ok value => exact closed.trans first (ih next after (offset + 1) _)
    | error fault => exact first

theorem Device.Closed.writeEach (bytes : List UInt8) (device : Device) (wires : Wires) (offset : UInt64) :
    Allowed device wires (device.writeEach wires offset bytes).2.1 (device.writeEach wires offset bytes).2.2 := by
  induction bytes generalizing device wires offset with
  | nil => exact closed.refl device wires
  | cons byte rest ih =>
    have first := closed.store device wires offset 0 byte.toUInt64
    unfold Device.writeEach
    generalize device.store wires offset 0 byte.toUInt64 = outcome at first
    obtain ⟨result, next, after⟩ := outcome
    cases result with
    | ok value => exact closed.trans first (ih next after (offset + 1))
    | error fault => exact first

theorem Device.Closed.readBytes (device : Device) (wires : Wires) (offset : UInt64) (n : Nat) :
    Allowed device wires (device.readBytes wires offset n).2.1 (device.readBytes wires offset n).2.2 := by
  cases device with
  | ram memory => exact closed.refl _ wires
  | bootRom rom => exact closed.refl _ wires
  | _ => exact closed.readEach n _ wires offset _

theorem Device.Closed.writeBytes (device : Device) (wires : Wires) (offset : UInt64) (bytes : ByteArray) :
    Allowed device wires (device.writeBytes wires offset bytes).2.1 (device.writeBytes wires offset bytes).2.2 := by
  cases device with
  | ram memory => exact closed.written memory _ wires
  | _ => exact closed.writeEach bytes.toList _ wires offset

end Devices

namespace Bus

def memory? (bus : Bus) (id : DeviceId) : Option Ram :=
  bus.devices[id]?.bind Device.memory?

def replace (bus : Bus) (id : DeviceId) (device : Device) (wires : Wires) : Bus :=
  { bus with devices := bus.devices.setIfInBounds id device, wires := wires }

theorem replace_self {bus : Bus} {id : DeviceId} {device : Device} (present : bus.devices[id]? = some device) :
    bus.replace id device bus.wires = bus := by
  obtain ⟨windows, devices, wires, held⟩ := bus
  have same : devices.setIfInBounds id device = devices := by
    apply Array.ext_getElem?
    intro i
    rw [Array.getElem?_setIfInBounds]
    by_cases here : id = i
    · subst here
      have known := (Array.getElem?_eq_some_iff.mp present).1
      rw [if_pos rfl, if_pos known]
      exact present.symm
    · rw [if_neg here]
  simp only [replace, same]

theorem replace_replace (bus : Bus) (id : DeviceId) (first second : Device) (wires after : Wires) :
    (bus.replace id first wires).replace id second after = bus.replace id second after := by
  simp only [replace, Array.setIfInBounds_setIfInBounds]

theorem mapDevice_run {bus : Bus} {id : DeviceId} {device : Device} (change : Device → Wires → Device × Wires)
    (present : bus.devices[id]? = some device) :
    bus.mapDevice id change = bus.replace id (change device bus.wires).1 (change device bus.wires).2 := by
  obtain ⟨windows, devices, wires, held⟩ := bus
  obtain ⟨known, here⟩ := Array.getElem?_eq_some_iff.mp present
  unfold mapDevice
  rw [dif_pos known]
  dsimp only [replace]
  rw [here, Array.setIfInBounds_setIfInBounds]

theorem mapDevice_cases (bus : Bus) (id : DeviceId) (change : Device → Wires → Device × Wires) :
    bus.mapDevice id change = bus ∨ ∃ device, bus.devices[id]? = some device ∧
      bus.mapDevice id change = bus.replace id (change device bus.wires).1 (change device bus.wires).2 := by
  by_cases known : id < bus.devices.size
  · have present := Array.getElem?_eq_getElem known
    exact .inr ⟨_, present, mapDevice_run change present⟩
  · left
    rw [mapDevice, dif_neg known]

theorem memory_replace (bus : Bus) (id other : DeviceId) (device : Device) (wires : Wires)
    (known : id < bus.devices.size) :
    (bus.replace id device wires).memory? other = if id = other then device.memory? else bus.memory? other := by
  unfold memory? replace
  rw [Array.getElem?_setIfInBounds]
  by_cases same : id = other
  · rw [if_pos same, if_pos same, if_pos known]
    rfl
  · rw [if_neg same, if_neg same]

theorem memory_of_device {bus : Bus} {id : DeviceId} {device : Device} (present : bus.devices[id]? = some device) :
    bus.memory? id = device.memory? := by
  rw [memory?, present, Option.bind_some]

theorem device_of_memory {bus : Bus} {id : DeviceId} {memory : Ram} (found : bus.memory? id = some memory) :
    bus.devices[id]? = some (.ram memory) := by
  obtain ⟨device, present, isMemory⟩ := Option.bind_eq_some_iff.mp found
  rw [present, Device.memory_eq isMemory]

theorem device_known {bus : Bus} {id : DeviceId} {device : Device} (present : bus.devices[id]? = some device) :
    id < bus.devices.size :=
  (Array.getElem?_eq_some_iff.mp present).1

def settle {α : Type} (bus : Bus) (id : DeviceId) : Access α → EStateM.Result MemFault Bus α
  | (.ok value, device, wires) => .ok value (bus.replace id device wires)
  | (.error fault, device, wires) => .error fault (bus.replace id device wires)

theorem left_settle {α : Type} (bus : Bus) (id : DeviceId) (outcome : Access α) :
    left (bus.settle id outcome) = bus.replace id outcome.2.1 outcome.2.2 := by
  obtain ⟨result, device, wires⟩ := outcome
  cases result <;> rfl

theorem settle_same {α : Type} {bus : Bus} {id : DeviceId} {device : Device} (result : Except MemFault α)
    (present : bus.devices[id]? = some device) : bus.settle id (result, device, bus.wires) = resultAt result bus := by
  cases result <;> simp only [settle, resultAt, replace_self present]

theorem withDevice_run {α : Type} {bus : Bus} {id : DeviceId} {device : Device} (fault : MemFault)
    (access : Device → Wires → Access α) (free : bus.held ≠ some id) (present : bus.devices[id]? = some device) :
    withDevice id fault access bus = bus.settle id (access device bus.wires) := by
  obtain ⟨windows, devices, wires, held⟩ := bus
  obtain ⟨known, here⟩ := Array.getElem?_eq_some_iff.mp present
  unfold withDevice
  rw [if_neg free, dif_pos known]
  dsimp only
  rw [here]
  generalize access device wires = outcome
  obtain ⟨result, device, wires⟩ := outcome
  cases result <;> simp only [settle, replace, Array.setIfInBounds_setIfInBounds]

theorem withDevice_cases {α : Type} (bus : Bus) (id : DeviceId) (fault : MemFault)
    (access : Device → Wires → Access α) :
    withDevice id fault access bus = .error fault bus ∨
      bus.held ≠ some id ∧ ∃ device, bus.devices[id]? = some device := by
  by_cases busy : bus.held = some id
  · left
    rw [withDevice, if_pos busy]
  · by_cases known : id < bus.devices.size
    · exact .inr ⟨busy, _, Array.getElem?_eq_getElem known⟩
    · left
      rw [withDevice, if_neg busy, dif_neg known]

theorem search_mem {windows : Array Window} {address : UInt64} {first count : Nat} {window : Window}
    (found : search windows address first count = some window) : window ∈ windows := by
  induction first, count using search.induct windows address with
  | case1 first count large half middle present below ih =>
    rw [search, if_pos large] at found
    simp only [half, present, below, if_true] at found
    exact ih found
  | case2 first count large half middle present notBelow ih =>
    rw [search, if_pos large] at found
    simp only [half, present, notBelow, if_false] at found
    exact ih found
  | case3 first count large half absent =>
    rw [search, if_pos large] at found
    simp only [half, absent] at found
    cases found
  | case4 first count small =>
    rw [search, if_neg small] at found
    exact Array.mem_of_getElem? found

theorem window_spec {bus : Bus} {address : UInt64} {n : Nat} {window : Window}
    (found : bus.window? address n = some window) :
    window ∈ bus.windows ∧ window.start ≤ address ∧ address.toNat + n ≤ window.stop.toNat := by
  obtain ⟨inner, holds⟩ := Option.filter_eq_some_iff.mp found
  obtain ⟨searched, _⟩ := Option.filter_eq_some_iff.mp inner
  have bounds : window.start ≤ address ∧ address.toNat + n ≤ window.stop.toNat := by
    simpa [Window.contains] using holds
  exact ⟨search_mem searched, bounds⟩

-- An access that passes the bus's own checks reaches one device that is there and free.
structure Reached (bus : Bus) (address : UInt64) (size : Nat) (window : Window) (device : Device) : Prop where
  small : size ≤ 3
  fair : aligned size address = true
  found : bus.window? address (byteCount size) = some window
  free : bus.held ≠ some window.device
  present : bus.devices[window.device]? = some device

theorem byteCount_pos (size : Nat) : 0 < byteCount size := by
  rw [byteCount, Nat.one_shiftLeft]
  exact Nat.two_pow_pos size

theorem refused_none {size : Nat} {address : UInt64} {write : Bool}
    (small : size ≤ 3) (fair : aligned size address = true) : refused? size address write = none := by
  have notLarge : ¬ 3 < size := by omega
  rw [refused?, if_neg notLarge, if_pos fair]

theorem refused_cases (address : UInt64) (size : Nat) (write : Bool) :
    (∃ fault, refused? size address write = some fault) ∨
      size ≤ 3 ∧ aligned size address = true ∧ refused? size address write = none := by
  unfold refused?
  by_cases large : 3 < size
  · exact .inl ⟨.access write, if_pos large⟩
  by_cases fair : aligned size address = true
  · exact .inr ⟨by omega, fair, by rw [if_neg large, if_pos fair]⟩
  · exact .inl ⟨.misaligned write, by rw [if_neg large, if_neg fair]⟩

theorem load_reaches (address : UInt64) (size : Nat) (bus : Bus) :
    (∃ fault, load address size bus = .error fault bus) ∨
      ∃ window device, Reached bus address size window device := by
  rcases refused_cases address size false with ⟨fault, refused⟩ | ⟨small, fair, accepted⟩
  · exact .inl ⟨fault, by rw [load, refused]⟩
  cases found : bus.window? address (byteCount size) with
  | none => exact .inl ⟨.loadAccess, by rw [load, accepted, found]⟩
  | some window =>
    rcases withDevice_cases bus window.device .loadAccess
      (fun device wires => device.load wires (address - window.start) size) with failed | ⟨free, device, present⟩
    · exact .inl ⟨.loadAccess, by rw [load, accepted, found]; exact failed⟩
    · exact .inr ⟨window, device, small, fair, found, free, present⟩

theorem store_reaches (address : UInt64) (size : Nat) (value : UInt64) (bus : Bus) :
    (∃ fault, store address size value bus = .error fault bus) ∨
      ∃ window device, Reached bus address size window device := by
  rcases refused_cases address size true with ⟨fault, refused⟩ | ⟨small, fair, accepted⟩
  · exact .inl ⟨fault, by rw [store, refused]⟩
  cases found : bus.window? address (byteCount size) with
  | none => exact .inl ⟨.storeAccess, by rw [store, accepted, found]⟩
  | some window =>
    rcases withDevice_cases bus window.device .storeAccess
      (fun device wires => device.store wires (address - window.start) size value) with failed | ⟨free, device, present⟩
    · exact .inl ⟨.storeAccess, by rw [store, accepted, found]; exact failed⟩
    · exact .inr ⟨window, device, small, fair, found, free, present⟩

theorem load_reached {bus : Bus} {address : UInt64} {size : Nat} {window : Window} {device : Device}
    (reached : Reached bus address size window device) :
    load address size bus = bus.settle window.device (device.load bus.wires (address - window.start) size) := by
  rw [load, refused_none reached.small reached.fair, reached.found]
  dsimp only
  rw [withDevice_run .loadAccess _ reached.free reached.present]

theorem store_reached {bus : Bus} {address : UInt64} {size : Nat} {window : Window} {device : Device}
    (value : UInt64) (reached : Reached bus address size window device) :
    store address size value bus =
      bus.settle window.device (device.store bus.wires (address - window.start) size value) := by
  rw [store, refused_none reached.small reached.fair, reached.found]
  dsimp only
  rw [withDevice_run .storeAccess _ reached.free reached.present]

theorem device_load_foreign (device : Device) (wires : Wires) (offset : UInt64) (size : Nat)
    (foreign : device.memory? = none) : (device.load wires offset size).2.1.memory? = none := by
  cases device with
  | ram memory => cases foreign
  | _ => rfl

theorem device_store_foreign (device : Device) (wires : Wires) (offset : UInt64) (size : Nat) (value : UInt64)
    (foreign : device.memory? = none) : (device.store wires offset size value).2.1.memory? = none := by
  cases device with
  | ram memory => cases foreign
  | _ => rfl

def offset (window : Window) (address : UInt64) : Nat :=
  (address - window.start).toNat

theorem offset_address {bus : Bus} {address : UInt64} {n : Nat} {window : Window} (found : bus.window? address n = some window) :
    offset window address + window.start.toNat = address.toNat := by
  have above := (window_spec found).2.1
  have bound := UInt64.le_iff_toNat_le.mp above
  rw [offset, UInt64.toNat_sub_of_le _ _ above]
  omega

-- The bytes of an access lie in one memory, and nobody holds that memory.
structure InMemory (bus : Bus) (address : UInt64) (size : Nat) (window : Window) (memory : Ram) : Prop where
  reached : Reached bus address size window (.ram memory)
  fits : offset window address + byteCount size ≤ memory.data.size

structure Disturbed (bus : Bus) (window : Window) (next : Bus) : Prop where
  known : window.device < bus.devices.size
  foreign : bus.memory? window.device = none
  changed : ∃ device wires, device.memory? = none ∧ next = bus.replace window.device device wires

theorem InMemory.memory {bus : Bus} {address : UInt64} {size : Nat} {window : Window} {memory : Ram}
    (inside : InMemory bus address size window memory) : bus.memory? window.device = some memory :=
  memory_of_device inside.reached.present

theorem InMemory.known {bus : Bus} {address : UInt64} {size : Nat} {window : Window} {memory : Ram}
    (inside : InMemory bus address size window memory) : window.device < bus.devices.size :=
  device_known inside.reached.present

theorem load_in_memory {bus : Bus} {address : UInt64} {size : Nat} {window : Window} {memory : Ram}
    (inside : InMemory bus address size window memory) :
    load address size bus = .ok (Bytes.wordAt memory.data (offset window address) (byteCount size)) bus := by
  have holds : Bytes.holds memory.data (address - window.start).toNat (byteCount size) = true :=
    decide_eq_true inside.fits
  rw [load_reached inside.reached]
  simp only [Device.load, Ram.load, Bytes.word?, holds, if_true, settle]
  rw [replace_self inside.reached.present]
  rfl

theorem store_in_memory {bus : Bus} {address : UInt64} {size : Nat} {window : Window} {memory : Ram}
    (value : UInt64) (inside : InMemory bus address size window memory) :
    store address size value bus = .ok () (bus.replace window.device
      (.ram ⟨Bytes.putWord memory.data (offset window address) (byteCount size) value⟩) bus.wires) := by
  have holds : Bytes.holds memory.data (address - window.start).toNat (byteCount size) = true :=
    decide_eq_true inside.fits
  rw [store_reached value inside.reached]
  simp only [Device.store, Ram.store, holds, if_true, settle]
  rfl

structure Backed (bus : Bus) (address : UInt64) (n : Nat) (window : Window) (memory : Ram) : Prop where
  found : bus.window? address n = some window
  free : bus.held ≠ some window.device
  present : bus.memory? window.device = some memory
  fits : offset window address + n ≤ memory.data.size

theorem Backed.inMemory {bus : Bus} {address : UInt64} {size : Nat} {window : Window} {memory : Ram}
    (backed : Backed bus address (byteCount size) window memory) (small : size ≤ 3) (fair : aligned size address = true) :
    InMemory bus address size window memory :=
  ⟨⟨small, fair, backed.found, backed.free, device_of_memory backed.present⟩, backed.fits⟩

theorem readBytes_backed {bus : Bus} {address : UInt64} {n : Nat} {window : Window} {memory : Ram}
    (backed : Backed bus address n window memory) (positive : 0 < n) :
    readBytes address n bus =
      .ok (memory.data.extract (offset window address) (offset window address + n)) bus := by
  have present := device_of_memory backed.present
  have holds : Bytes.holds memory.data (address - window.start).toNat n = true := decide_eq_true backed.fits
  have read : memory.readBytes (address - window.start) n =
      .ok (memory.data.extract (offset window address) (offset window address + n)) := by
    simp only [Ram.readBytes, Bytes.slice?, holds, if_true]
    rfl
  unfold readBytes
  rw [if_neg (Nat.ne_of_gt positive), backed.found]
  dsimp only
  rw [withDevice_run _ _ backed.free present]
  change bus.settle window.device (memory.readBytes _ n, _, _) = _
  rw [settle_same _ present, read]
  rfl

theorem writeBytes_backed {bus : Bus} {address : UInt64} {bytes : ByteArray} {window : Window} {memory : Ram}
    (backed : Backed bus address bytes.size window memory) (positive : 0 < bytes.size) :
    writeBytes address bytes bus = .ok () (bus.replace window.device
      (.ram ⟨Bytes.splice memory.data (offset window address) bytes⟩) bus.wires) := by
  have full : bytes.isEmpty = false := beq_eq_false_iff_ne.mpr (Nat.ne_of_gt positive)
  have holds : Bytes.holds memory.data (address - window.start).toNat bytes.size = true := decide_eq_true backed.fits
  unfold writeBytes
  rw [full, if_neg Bool.false_ne_true, backed.found]
  dsimp only
  rw [withDevice_run _ _ backed.free (device_of_memory backed.present)]
  simp only [Device.writeBytes, Ram.writeBytes, holds, if_true, settle]
  rfl

theorem load_cases (address : UInt64) (size : Nat) (bus : Bus) :
    (∃ fault, load address size bus = .error fault bus) ∨
    (∃ window memory, InMemory bus address size window memory) ∨
    (∃ window, bus.window? address (byteCount size) = some window ∧
      Disturbed bus window (left (load address size bus))) := by
  rcases load_reaches address size bus with failed | ⟨window, device, reached⟩
  · exact .inl failed
  cases kind : device.memory? with
  | none =>
    right; right
    rw [load_reached reached]
    exact ⟨window, reached.found, device_known reached.present, (memory_of_device reached.present).trans kind,
      _, _, device_load_foreign device bus.wires (address - window.start) size kind, left_settle ..⟩
  | some memory =>
    cases Device.memory_eq kind
    by_cases fits : offset window address + byteCount size ≤ memory.data.size
    · exact .inr (.inl ⟨window, memory, reached, fits⟩)
    · left
      refine ⟨.loadAccess, ?_⟩
      have short : Bytes.holds memory.data (address - window.start).toNat (byteCount size) = false :=
        decide_eq_false fits
      rw [load_reached reached]
      simp only [Device.load, Ram.load, Bytes.word?, short, Bool.false_eq_true, if_false, settle]
      rw [replace_self reached.present]

theorem store_cases (address : UInt64) (size : Nat) (value : UInt64) (bus : Bus) :
    (∃ fault, store address size value bus = .error fault bus) ∨
    (∃ window memory, InMemory bus address size window memory) ∨
    (∃ window, bus.window? address (byteCount size) = some window ∧
      Disturbed bus window (left (store address size value bus))) := by
  rcases store_reaches address size value bus with failed | ⟨window, device, reached⟩
  · exact .inl failed
  cases kind : device.memory? with
  | none =>
    right; right
    rw [store_reached value reached]
    exact ⟨window, reached.found, device_known reached.present, (memory_of_device reached.present).trans kind,
      _, _, device_store_foreign device bus.wires (address - window.start) size value kind, left_settle ..⟩
  | some memory =>
    cases Device.memory_eq kind
    by_cases fits : offset window address + byteCount size ≤ memory.data.size
    · exact .inr (.inl ⟨window, memory, reached, fits⟩)
    · left
      refine ⟨.storeAccess, ?_⟩
      have short : Bytes.holds memory.data (address - window.start).toNat (byteCount size) = false :=
        decide_eq_false fits
      rw [store_reached value reached]
      simp only [Device.store, Ram.store, short, Bool.false_eq_true, if_false, settle]
      rw [replace_self reached.present]

-- The contents of the memories and the address map are the same.
structure SameMemory (bus next : Bus) : Prop where
  windows : next.windows = bus.windows
  memory : ∀ id, next.memory? id = bus.memory? id

theorem SameMemory.refl (bus : Bus) : SameMemory bus bus :=
  ⟨rfl, fun _ => rfl⟩

theorem SameMemory.trans {a b c : Bus} (first : SameMemory a b) (second : SameMemory b c) : SameMemory a c :=
  ⟨second.windows.trans first.windows, fun id => (second.memory id).trans (first.memory id)⟩

theorem Disturbed.same {bus next : Bus} {window : Window} (disturbed : Disturbed bus window next) :
    SameMemory bus next := by
  obtain ⟨known, foreign, device, wires, other, rfl⟩ := disturbed
  refine ⟨rfl, ?_⟩
  intro id
  rw [memory_replace bus window.device id device wires known]
  by_cases here : window.device = id
  · rw [if_pos here, other, ← here, foreign]
  · rw [if_neg here]

theorem load_same (address : UInt64) (size : Nat) (bus : Bus) :
    SameMemory bus (left (load address size bus)) := by
  rcases load_cases address size bus with ⟨fault, failed⟩ | ⟨window, memory, inside⟩ | ⟨window, _, disturbed⟩
  · rw [failed]
    exact SameMemory.refl bus
  · rw [load_in_memory inside]
    exact SameMemory.refl bus
  · exact disturbed.same

theorem store_failed_same {address : UInt64} {size : Nat} {value : UInt64} {bus next : Bus} {fault : MemFault}
    (failed : store address size value bus = .error fault next) : SameMemory bus next := by
  rcases store_cases address size value bus with ⟨other, same⟩ | ⟨window, memory, inside⟩ | ⟨window, _, disturbed⟩
  · cases failed.symm.trans same
    exact SameMemory.refl bus
  · cases failed.symm.trans (store_in_memory value inside)
  · rw [failed] at disturbed
    exact disturbed.same

end Bus

end RvBoard
