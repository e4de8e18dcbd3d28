import RvBoard.Proofs.Lookup

/-!
# Routing

Where no address lies in two windows, bisection finds the window of an address as a scan of all windows does.
So an access goes to the device of the one window that holds all of it, and where there is none it fails and
leaves the bus alone.
-/

set_option autoImplicit false

namespace RvBoard.Bus

variable {α : Type} {bus : Bus} {address : UInt64} {n : Nat} {window : Window}

-- Devices with addresses, each behind windows of its own.
structure WellMapped (bus : Bus) : Prop where
  sorted : bus.Sorted
  disjoint : bus.Disjoint
  filled : ∀ window ∈ bus.windows, window.size ≠ 0
  known : ∀ window ∈ bus.windows, window.device < bus.devices.size

section Searching

theorem WellMapped.spread (mapped : bus.WellMapped) : bus.Spread := by
  refine List.Pairwise.imp_of_mem ?_ (mapped.sorted.and mapped.disjoint)
  rintro a b - member ⟨order, apart⟩
  refine UInt64.not_lt.mp fun early => apart ⟨b.start, Window.has_iff.mpr ⟨order, early⟩, ?_⟩
  refine Window.has_iff.mpr ⟨UInt64.le_refl _, ?_⟩
  have size : b.size.toNat ≠ 0 := fun none => mapped.filled b (Array.mem_toList_iff.mp member) (UInt64.toNat_inj.mp none)
  have top := a.stop.toNat_lt_size
  rw [UInt64.lt_iff_toNat_lt] at early ⊢
  rw [Window.stop, toNat_saturatingAdd]
  omega

theorem Spread.ends (spread : bus.Spread) {i j : Nat} {a b : Window} (before : i < j)
    (first : bus.windows[i]? = some a) (second : bus.windows[j]? = some b) : a.stop ≤ b.start := by
  obtain ⟨_, rfl⟩ := Array.getElem?_eq_some_iff.mp first
  obtain ⟨_, rfl⟩ := Array.getElem?_eq_some_iff.mp second
  exact List.pairwise_iff_getElem.mp spread i j _ _ before

theorem WellMapped.search (mapped : bus.WellMapped) (member : window ∈ bus.windows) (has : window.has address = true) :
    bus.find? address = some window := by
  obtain ⟨i, here⟩ := Array.mem_iff_getElem?.mp member
  obtain ⟨low, high⟩ := Window.has_iff.mp has
  have inside := (Array.getElem?_eq_some_iff.mp here).1
  have final : bus.Final address i window :=
    ⟨here, fun j later behind there => UInt64.lt_of_lt_of_le high (mapped.spread.ends behind here there)⟩
  have found : Bus.search bus.windows address 0 bus.windows.size = some window :=
    final.search mapped.sorted low (Nat.zero_le i) (by omega) (by omega)
  rw [find?, found]
  exact Option.filter_eq_some_iff.mpr ⟨rfl, has⟩

theorem WellMapped.scan (mapped : bus.WellMapped) (address : UInt64) :
    bus.find? address = bus.windows.toList.find? (·.has address) := by
  cases scanned : bus.windows.toList.find? (·.has address) with
  | some window =>
    have member := Array.mem_toList_iff.mp (List.mem_of_find?_eq_some scanned)
    have has := List.find?_some scanned
    exact mapped.search member has
  | none =>
    refine Option.filter_eq_none_iff.mpr fun window searched => ?_
    exact List.find?_eq_none.mp scanned window (Array.mem_toList_iff.mpr (search_mem searched))

theorem contains_iff : window.contains address n = true ↔
    window.start ≤ address ∧ address.toNat + n ≤ window.stop.toNat := by
  simp [Window.contains]

theorem contains_has (positive : 0 < n) (contains : window.contains address n = true) : window.has address = true := by
  obtain ⟨low, high⟩ := contains_iff.mp contains
  refine Window.has_iff.mpr ⟨low, UInt64.lt_iff_toNat_lt.mpr ?_⟩
  omega

theorem WellMapped.window_iff (mapped : bus.WellMapped) (positive : 0 < n) :
    bus.window? address n = some window ↔ window ∈ bus.windows ∧ window.contains address n = true := by
  constructor
  · intro found
    obtain ⟨member, bounds⟩ := window_spec found
    exact ⟨member, contains_iff.mpr bounds⟩
  · rintro ⟨member, contains⟩
    rw [window?, mapped.search member (contains_has positive contains)]
    exact Option.filter_eq_some_iff.mpr ⟨rfl, contains⟩

end Searching

section Routing

variable {fault : MemFault} {ask : UInt64 → Device → Wires → Access α} {outcome : EStateM.Result MemFault Bus α}

-- What becomes of an operation on a range, which puts a question to a device and fails in one way otherwise.
structure Routed (bus : Bus) (address : UInt64) (n : Nat) (fault : MemFault)
    (ask : UInt64 → Device → Wires → Access α) (outcome : EStateM.Result MemFault Bus α) : Prop where
  reached : ∀ window ∈ bus.windows, window.contains address n = true → bus.held ≠ some window.device →
    ∃ device, bus.devices[window.device]? = some device ∧
      outcome = bus.settle window.device (ask (address - window.start) device bus.wires)
  busy : ∀ window ∈ bus.windows, window.contains address n = true → bus.held = some window.device →
    outcome = .error fault bus
  missed : (∀ window ∈ bus.windows, ¬ window.contains address n = true) → outcome = .error fault bus

structure Checked (bus : Bus) (address : UInt64) (size : Nat) (write : Bool)
    (ask : UInt64 → Device → Wires → Access α) (outcome : EStateM.Result MemFault Bus α) : Prop where
  large : 3 < size → outcome = .error (.access write) bus
  misaligned : size ≤ 3 → address.toNat % byteCount size ≠ 0 → outcome = .error (.misaligned write) bus
  routed : size ≤ 3 → address.toNat % byteCount size = 0 →
    Routed bus address (byteCount size) (.access write) ask outcome

theorem WellMapped.routed (mapped : bus.WellMapped) (positive : 0 < n) :
    Routed bus address n fault ask (match bus.window? address n with
      | none => .error fault bus
      | some window => withDevice window.device fault (ask (address - window.start)) bus) := by
  refine ⟨?_, ?_, ?_⟩
  · intro window member contains free
    have known := mapped.known window member
    rw [(mapped.window_iff positive).mpr ⟨member, contains⟩]
    exact ⟨_, Array.getElem?_eq_getElem known, withDevice_run fault _ free (Array.getElem?_eq_getElem known)⟩
  · intro window member contains held
    rw [(mapped.window_iff positive).mpr ⟨member, contains⟩]
    exact if_pos held
  · intro missed
    cases found : bus.window? address n with
    | none => rfl
    | some window =>
      obtain ⟨member, contains⟩ := (mapped.window_iff positive).mp found
      exact absurd contains (missed window member)

theorem WellMapped.checked (mapped : bus.WellMapped) (size : Nat) (write : Bool) :
    Checked bus address size write ask (match refused? size address write with
      | some fault => .error fault bus
      | none =>
        match bus.window? address (byteCount size) with
        | none => .error (.access write) bus
        | some window => withDevice window.device (.access write) (ask (address - window.start)) bus) := by
  refine ⟨fun large => ?_, fun small unfair => ?_, fun small fair => ?_⟩
  · rw [refused?, if_pos large]
  · have notLarge : ¬ 3 < size := by omega
    have notFair : ¬ aligned size address = true := by simpa [aligned] using unfair
    rw [refused?, if_neg notLarge, if_neg notFair]
  · rw [refused_none small (beq_iff_eq.mpr fair)]
    exact mapped.routed (byteCount_pos size)

def answered {β : Type} (change : α → β) : Access α → Access β
  | (result, device, wires) => (result.map change, device, wires)

theorem settle_answered {β : Type} (change : α → β) {operation : BusM α} {id : DeviceId} {answer : Access α}
    (ran : operation bus = bus.settle id answer) :
    (do let value ← operation; return change value : BusM β) bus = bus.settle id (answered change answer) := by
  obtain ⟨result, device, wires⟩ := answer
  cases result with
  | ok value => exact bind_of_ok ran
  | error fault => exact bind_of_error ran

theorem Checked.map {β : Type} {size : Nat} {write : Bool} {operation : BusM α} (change : α → β)
    (checked : Checked bus address size write ask (operation bus)) :
    Checked bus address size write (fun offset device wires => answered change (ask offset device wires))
      ((do let value ← operation; return change value : BusM β) bus) := by
  refine ⟨fun large => bind_of_error (checked.large large),
    fun small unfair => bind_of_error (checked.misaligned small unfair), fun small fair => ?_⟩
  have routed := checked.routed small fair
  refine ⟨fun window member contains free => ?_, fun window member contains held => ?_, fun missed => ?_⟩
  · obtain ⟨device, present, ran⟩ := routed.reached window member contains free
    exact ⟨device, present, settle_answered change ran⟩
  · exact bind_of_error (routed.busy window member contains held)
  · exact bind_of_error (routed.missed missed)

-- What an access asks of a device; a store is answered by zero.
def asks (size : Nat) (write : Bool) (value offset : UInt64) (device : Device) (wires : Wires) : Access UInt64 :=
  if write then answered (fun _ => 0) (device.store wires offset size value) else device.load wires offset size

-- All that the bus makes of an address.
structure Routes (bus : Bus) (address : UInt64) : Prop where
  scan : bus.find? address = bus.windows.toList.find? (·.has address)
  single : ∀ n a b, 0 < n → a ∈ bus.windows → b ∈ bus.windows → a.contains address n = true →
    b.contains address n = true → a = b
  offset : ∀ n window, window ∈ bus.windows → window.contains address n = true →
    (address - window.start).toNat + window.start.toNat = address.toNat ∧
      (address - window.start).toNat + n ≤ window.size.toNat
  access : ∀ size write value,
    Checked bus address size write (asks size write value) (Bus.access address size write value bus)
  load : ∀ size, Checked bus address size false (fun offset device wires => device.load wires offset size)
    (Bus.load address size bus)
  store : ∀ size value, Checked bus address size true (fun offset device wires => device.store wires offset size value)
    (Bus.store address size value bus)
  readBytes : ∀ n, 0 < n → Routed bus address n .loadAccess (fun offset device wires => device.readBytes wires offset n)
    (Bus.readBytes address n bus)
  writeBytes : ∀ bytes : ByteArray, 0 < bytes.size → Routed bus address bytes.size .storeAccess
    (fun offset device wires => device.writeBytes wires offset bytes) (Bus.writeBytes address bytes bus)

theorem contains_offset (contains : window.contains address n = true) :
    (address - window.start).toNat + window.start.toNat = address.toNat ∧
      (address - window.start).toNat + n ≤ window.size.toNat := by
  obtain ⟨low, high⟩ := contains_iff.mp contains
  have bound := UInt64.le_iff_toNat_le.mp low
  rw [Window.stop, toNat_saturatingAdd] at high
  rw [UInt64.toNat_sub_of_le _ _ low]
  omega

/-- Where no address lies in two windows, every access and every copy of some bytes goes to the device of the one window
that holds all of it, if that device is not busy. Any other fails with the first that is wrong of size, alignment and
address, and leaves the bus as it was. -/
theorem mapped_routes (mapped : bus.WellMapped) (address : UInt64) : Routes bus address := by
  have load (size : Nat) : Checked bus address size false (fun offset device wires => device.load wires offset size)
      (Bus.load address size bus) := mapped.checked size false
  have store (size : Nat) (value : UInt64) : Checked bus address size true
      (fun offset device wires => device.store wires offset size value) (Bus.store address size value bus) :=
    mapped.checked size true
  refine ⟨mapped.scan address, ?_, ?_, ?_, load, store, ?_, ?_⟩
  · intro n a b positive memberA memberB containsA containsB
    have foundA := (mapped.window_iff positive).mpr ⟨memberA, containsA⟩
    have foundB := (mapped.window_iff positive).mpr ⟨memberB, containsB⟩
    exact Option.some.inj (foundA.symm.trans foundB)
  · intro n window _ contains
    exact contains_offset contains
  · intro size write value
    cases write with
    | false => exact load size
    | true => exact (store size value).map fun _ => 0
  · intro n positive
    have some : ¬ n = 0 := by omega
    rw [Bus.readBytes, if_neg some]
    exact mapped.routed positive
  · intro bytes positive
    have some : ¬ bytes.isEmpty = true := by
      simp only [ByteArray.isEmpty, beq_iff_eq]
      omega
    rw [Bus.writeBytes, if_neg some]
    exact mapped.routed positive

def adjacent (held : Option DeviceId) : Bus where
  windows := #[⟨0x1000, 8, 1⟩, ⟨0x1008, 16, 0⟩]
  devices := #[.ram (.ofSize 16), .ram (.ofSize 8)]
  held := held

theorem adjacent_mapped (held : Option DeviceId) : (adjacent held).WellMapped where
  sorted := by
    change [_, _].Pairwise _
    decide
  disjoint := by
    refine Spread.disjoint ?_
    change [_, _].Pairwise _
    decide
  filled := by
    change ∀ window ∈ #[_, _], _
    decide
  known := by
    change ∀ window ∈ #[_, _], _ < 2
    decide

theorem mapped_routes_adjacent : Routes (adjacent none) 0x1008 :=
  mapped_routes (adjacent_mapped none) 0x1008

theorem busy_unanswered : ¬ ∀ (bus : Bus) (address : UInt64) (size : Nat) (window : Window) (device : Device),
    bus.WellMapped → size ≤ 3 → aligned size address = true → window ∈ bus.windows →
      window.contains address (byteCount size) = true → bus.devices[window.device]? = some device →
        load address size bus = bus.settle window.device (device.load bus.wires (address - window.start) size) := by
  intro answers
  have answered := answers (adjacent (some 0)) 0x1008 0 ⟨0x1008, 16, 0⟩ (.ram (.ofSize 16)) (adjacent_mapped _)
    (by decide) (by decide) (by simp [adjacent]) (by decide) rfl
  have differs := congrArg value? answered
  revert differs
  decide +kernel

end Routing

end RvBoard.Bus
