import RvBoard.Proofs.Bus

/-!
# Cells of memory

What accesses to the bus reach are the bytes of the memories behind the address map. An access
changes the bytes of its own range at most, so what the memory shows elsewhere stays as it is.
-/

set_option autoImplicit false

namespace RvBoard

inductive Device.Rewritten (touched : Nat → Prop) : Device → Device → Prop
  | memory {before after : Ram} (size : after.data.size = before.data.size)
      (kept : ∀ i, ¬ touched i → after.data.get! i = before.data.get! i) : Rewritten touched (.ram before) (.ram after)
  | other {before after : Device} (foreign : before.memory? = none) (still : after.memory? = none) :
      Rewritten touched before after

namespace Device

theorem Rewritten.same (touched : Nat → Prop) (device : Device) : Rewritten touched device device := by
  cases kind : device.memory? with
  | none => exact .other kind kind
  | some memory =>
    cases memory_eq kind
    exact .memory rfl (fun _ _ => rfl)

theorem load_rewritten (touched : Nat → Prop) (device : Device) (wires : Wires) (offset : UInt64) (size : Nat) :
    Rewritten touched device (device.load wires offset size).2.1 := by
  cases kind : device.memory? with
  | none => exact .other kind (Bus.device_load_foreign device wires offset size kind)
  | some memory =>
    cases memory_eq kind
    exact .same touched _

theorem store_rewritten (device : Device) (wires : Wires) (offset : UInt64) (size : Nat) (value : UInt64) :
    Rewritten (fun i => offset.toNat ≤ i ∧ i < offset.toNat + byteCount size) device
      (device.store wires offset size value).2.1 := by
  cases kind : device.memory? with
  | none => exact .other kind (Bus.device_store_foreign device wires offset size value kind)
  | some memory =>
    cases memory_eq kind
    simp only [store, Ram.store]
    by_cases inside : Bytes.holds memory.data offset.toNat (byteCount size) = true
    · have fits : offset.toNat + byteCount size ≤ memory.data.size := of_decide_eq_true inside
      rw [if_pos inside]
      refine .memory (Bytes.size_putWord _ _ _ _) ?_
      intro i outside
      rw [Bytes.get_putWord _ _ _ _ _ fits, if_neg outside]
    · rw [if_neg inside]
      exact .same _ _

theorem foreign_closed : Device.Closed (fun device _ next _ => device.memory? = none → next.memory? = none) where
  refl _ _ := id
  trans first second := second ∘ first
  load := Bus.device_load_foreign
  store := Bus.device_store_foreign
  written _ _ _ absent := nomatch absent

theorem readBytes_rewritten (touched : Nat → Prop) (device : Device) (wires : Wires) (offset : UInt64) (n : Nat) :
    Rewritten touched device (device.readBytes wires offset n).2.1 := by
  cases device with
  | ram memory => exact .same touched _
  | bootRom rom => exact .same touched _
  | _ => exact .other rfl (foreign_closed.readEach n _ wires offset _ rfl)

theorem writeBytes_rewritten (device : Device) (wires : Wires) (offset : UInt64) (bytes : ByteArray) :
    Rewritten (fun i => offset.toNat ≤ i ∧ i < offset.toNat + bytes.size) device
      (device.writeBytes wires offset bytes).2.1 := by
  cases device with
  | ram memory =>
    simp only [writeBytes, Ram.writeBytes]
    by_cases inside : Bytes.holds memory.data offset.toNat bytes.size = true
    · have fits : offset.toNat + bytes.size ≤ memory.data.size := of_decide_eq_true inside
      rw [if_pos inside]
      refine .memory (Bytes.size_splice _ _ _ fits) ?_
      intro i outside
      exact Bytes.get_splice_apart _ _ _ _ fits (by omega)
    · rw [if_neg inside]
      exact .same _ _
  | _ => exact .other rfl (foreign_closed.writeEach bytes.toList _ wires offset rfl)

end Device

namespace Bus

abbrev Cell := DeviceId × Nat

structure Area where
  start : UInt64
  size : Nat
deriving DecidableEq

-- The cells that accesses inside an area reach.
inductive Covers (bus : Bus) (area : Area) : Cell → Prop
  | reach {address : UInt64} {n : Nat} {window : Window} (above : area.start ≤ address)
      (below : address.toNat + n ≤ area.start.toNat + area.size) (found : bus.window? address n = some window)
      {i : Nat} (inside : offset window address ≤ i ∧ i < offset window address + n) : Covers bus area (window.device, i)

def Apart (bus : Bus) (a b : Area) : Prop :=
  ∀ cell, bus.Covers a cell → ¬ bus.Covers b cell

theorem Covers.within {bus : Bus} {a b : Area} {cell : Cell} (covered : bus.Covers a cell) (above : b.start ≤ a.start)
    (below : a.start.toNat + a.size ≤ b.start.toNat + b.size) : bus.Covers b cell := by
  obtain ⟨above', below', found, inside⟩ := covered
  exact .reach (UInt64.le_trans above above') (Nat.le_trans below' below) found inside

theorem apart_of_disjoint {bus : Bus} {a b : Area}
    (single : ∀ p ∈ bus.windows, ∀ q ∈ bus.windows, p.device = q.device → p = q)
    (disjoint : a.start.toNat + a.size ≤ b.start.toNat ∨ b.start.toNat + b.size ≤ a.start.toNat) : bus.Apart a b := by
  rintro ⟨id, i⟩ ⟨aboveA, belowA, foundA, insideA⟩ second
  rename_i addressA nA windowA
  generalize same : (windowA.device, i) = cell at second
  obtain ⟨aboveB, belowB, foundB, insideB⟩ := second
  obtain ⟨devices, rfl⟩ := Prod.mk.inj same
  have windows := single _ (window_spec foundA).1 _ (window_spec foundB).1 devices
  subst windows
  have placeA := offset_address foundA
  have placeB := offset_address foundB
  have startA := UInt64.le_iff_toNat_le.mp aboveA
  have startB := UInt64.le_iff_toNat_le.mp aboveB
  omega

-- Nothing has changed in memory outside a region, nor in the address map.
structure Confined (region : Cell → Prop) (bus next : Bus) : Prop where
  windows : next.windows = bus.windows
  held : next.held = bus.held
  known : next.devices.size = bus.devices.size
  memories : ∀ id memory, bus.memory? id = some memory → ∃ contents, next.memory? id = some contents ∧
    contents.data.size = memory.data.size ∧ ∀ i, ¬ region (id, i) → contents.data.get! i = memory.data.get! i
  others : ∀ id, bus.memory? id = none → next.memory? id = none

section Regions

variable {region : Cell → Prop} {bus next : Bus}

theorem mapWires_confined (change : Wires → Wires) (region : Cell → Prop) (bus : Bus) :
    Confined region bus (bus.mapWires change) :=
  ⟨rfl, rfl, rfl, fun _ memory found => ⟨memory, found, rfl, fun _ _ => rfl⟩, fun _ absent => absent⟩

theorem Confined.refl (region : Cell → Prop) (bus : Bus) : Confined region bus bus :=
  mapWires_confined id region bus

theorem Confined.trans {middle : Bus} (first : Confined region bus middle) (second : Confined region middle next) :
    Confined region bus next := by
  refine ⟨second.windows.trans first.windows, second.held.trans first.held, second.known.trans first.known, ?_,
    fun id absent => second.others id (first.others id absent)⟩
  intro id memory found
  obtain ⟨between, foundBetween, size, same⟩ := first.memories id memory found
  obtain ⟨contents, foundAfter, size', same'⟩ := second.memories id between foundBetween
  exact ⟨contents, foundAfter, size'.trans size, fun i outside => (same' i outside).trans (same i outside)⟩

theorem Confined.mono {larger : Cell → Prop} (confined : Confined region bus next)
    (inside : ∀ cell, region cell → larger cell) : Confined larger bus next := by
  refine ⟨confined.windows, confined.held, confined.known, ?_, confined.others⟩
  intro id memory found
  obtain ⟨contents, after, size, same⟩ := confined.memories id memory found
  exact ⟨contents, after, size, fun i outside => same i (fun touched => outside (inside _ touched))⟩

theorem Confined.window (confined : Confined region bus next) (address : UInt64) (n : Nat) :
    next.window? address n = bus.window? address n := by
  unfold window? find?
  rw [confined.windows]

theorem Confined.covers (confined : Confined region bus next) {area : Area} {cell : Cell}
    (covered : next.Covers area cell) : bus.Covers area cell := by
  obtain ⟨above, below, found, inside⟩ := covered
  rw [confined.window] at found
  exact .reach above below found inside

theorem replace_confined {id : DeviceId} {before after : Device} {touched : Nat → Prop} (wires : Wires)
    (present : bus.devices[id]? = some before) (rewritten : Device.Rewritten touched before after)
    (inside : ∀ i, touched i → region (id, i)) : Confined region bus (bus.replace id after wires) := by
  have known := device_known present
  have here := memory_of_device present
  refine ⟨rfl, rfl, Array.size_setIfInBounds, ?_, ?_⟩
  · intro other memory found
    rw [memory_replace bus id other after wires known]
    by_cases same : id = other
    · subst same
      rw [if_pos rfl]
      rw [here] at found
      cases rewritten with
      | memory size kept =>
        cases found
        exact ⟨_, rfl, size, fun i outside => kept i (fun touched => outside (inside i touched))⟩
      | other foreign still =>
        rw [foreign] at found
        cases found
    · rw [if_neg same]
      exact ⟨memory, found, rfl, fun _ _ => rfl⟩
  · intro other absent
    rw [memory_replace bus id other after wires known]
    by_cases same : id = other
    · subst same
      rw [if_pos rfl]
      rw [here] at absent
      cases rewritten with
      | memory size kept => cases absent
      | other foreign still => exact still
    · rw [if_neg same]
      exact absent

theorem withDevice_confined {α : Type} {access : Device → Wires → Access α} {touched : Nat → Prop}
    (rewrites : ∀ device wires, Device.Rewritten touched device (access device wires).2.1) (id : DeviceId)
    (fault : MemFault) (bus : Bus) (inside : ∀ i, touched i → region (id, i)) :
    Confined region bus (left (withDevice id fault access bus)) := by
  rcases withDevice_cases bus id fault access with failed | ⟨free, device, present⟩
  · rw [failed]
    exact .refl region bus
  · rw [withDevice_run fault access free present, left_settle]
    exact replace_confined _ present (rewrites device bus.wires) inside

theorem load_confined (region : Cell → Prop) (address : UInt64) (size : Nat) (bus : Bus) :
    Confined region bus (left (load address size bus)) := by
  unfold load
  cases refused? size address false with
  | some fault => exact .refl region bus
  | none =>
    cases bus.window? address (byteCount size) with
    | none => exact .refl region bus
    | some window =>
      exact withDevice_confined (fun device wires => device.load_rewritten (fun _ => False) wires _ size) _ _ bus
        (fun _ never => never.elim)

theorem loaded_confined (region : Cell → Prop) {address value : UInt64} {size : Nat} {bus next : Bus}
    (done : load address size bus = .ok value next) : Confined region bus next := by
  have confined := load_confined region address size bus
  rw [done] at confined
  exact confined

theorem unloaded_confined (region : Cell → Prop) {address : UInt64} {size : Nat} {fault : MemFault} {bus next : Bus}
    (failed : load address size bus = .error fault next) : Confined region bus next := by
  have confined := load_confined region address size bus
  rw [failed] at confined
  exact confined

theorem readBytes_confined (region : Cell → Prop) (address : UInt64) (n : Nat) (bus : Bus) :
    Confined region bus (left (readBytes address n bus)) := by
  unfold readBytes
  by_cases nothing : n = 0
  · rw [if_pos nothing]
    exact .refl region bus
  · rw [if_neg nothing]
    cases bus.window? address n with
    | none => exact .refl region bus
    | some window =>
      exact withDevice_confined (fun device wires => device.readBytes_rewritten (fun _ => False) wires _ n) _ _ bus
        (fun _ never => never.elim)

theorem store_confined (address : UInt64) (size : Nat) (value : UInt64) (bus : Bus)
    (inside : ∀ cell, bus.Covers ⟨address, byteCount size⟩ cell → region cell) :
    Confined region bus (left (store address size value bus)) := by
  unfold store
  cases refused? size address true with
  | some fault => exact .refl region bus
  | none =>
    cases found : bus.window? address (byteCount size) with
    | none => exact .refl region bus
    | some window =>
      exact withDevice_confined (fun device wires => device.store_rewritten wires _ size value) _ _ bus
        (fun i touched => inside _ (.reach (UInt64.le_refl _) (Nat.le_refl _) found touched))

theorem stored_confined {address value : UInt64} {size : Nat} {bus next : Bus} (done : store address size value bus = .ok () next)
    (inside : ∀ cell, bus.Covers ⟨address, byteCount size⟩ cell → region cell) : Confined region bus next := by
  have confined := store_confined address size value bus inside
  rw [done] at confined
  exact confined

theorem writeBytes_confined (address : UInt64) (bytes : ByteArray) (bus : Bus)
    (inside : ∀ cell, bus.Covers ⟨address, bytes.size⟩ cell → region cell) :
    Confined region bus (left (writeBytes address bytes bus)) := by
  unfold writeBytes
  cases bytes.isEmpty with
  | true => exact .refl region bus
  | false =>
    cases found : bus.window? address bytes.size with
    | none => exact .refl region bus
    | some window =>
      exact withDevice_confined (fun device wires => device.writeBytes_rewritten wires _ bytes) _ _ bus
        (fun i touched => inside _ (.reach (UInt64.le_refl _) (Nat.le_refl _) found touched))

end Regions

-- A word of memory can be read and written.
def Mapped (bus : Bus) (address : UInt64) (size : Nat) : Prop :=
  ∃ window memory, InMemory bus address size window memory

-- A word of memory reads as this value.
def Shows (bus : Bus) (address : UInt64) (size : Nat) (value : UInt64) : Prop :=
  ∃ window memory, InMemory bus address size window memory ∧
    Bytes.wordAt memory.data (offset window address) (byteCount size) = value

section Words

variable {region : Cell → Prop} {bus next : Bus} {address : UInt64} {size : Nat} {value : UInt64}

theorem Mapped.shows (mapped : bus.Mapped address size) : ∃ value, bus.Shows address size value := by
  obtain ⟨window, memory, inside⟩ := mapped
  exact ⟨_, window, memory, inside, rfl⟩

theorem Shows.load (shows : bus.Shows address size value) : load address size bus = .ok value bus := by
  obtain ⟨window, memory, inside, rfl⟩ := shows
  exact load_in_memory inside

theorem InMemory.confined {window : Window} {memory : Ram} (inside : InMemory bus address size window memory)
    (confined : Confined region bus next) :
    ∃ contents, InMemory next address size window contents ∧
      ∀ i, ¬ region (window.device, i) → contents.data.get! i = memory.data.get! i := by
  obtain ⟨contents, found, length, same⟩ := confined.memories _ _ inside.memory
  have reached : Reached next address size window (.ram contents) := by
    refine ⟨inside.reached.small, inside.reached.fair, ?_, ?_, device_of_memory found⟩
    · rw [confined.window]
      exact inside.reached.found
    · rw [confined.held]
      exact inside.reached.free
  have fits : offset window address + byteCount size ≤ contents.data.size := by
    rw [length]
    exact inside.fits
  exact ⟨contents, ⟨reached, fits⟩, same⟩

theorem Mapped.confined (mapped : bus.Mapped address size) (confined : Confined region bus next) :
    next.Mapped address size := by
  obtain ⟨window, memory, inside⟩ := mapped
  obtain ⟨contents, still, _⟩ := inside.confined confined
  exact ⟨window, contents, still⟩

theorem Shows.confined (shows : bus.Shows address size value) (confined : Confined region bus next)
    (apart : ∀ cell, bus.Covers ⟨address, byteCount size⟩ cell → ¬ region cell) : next.Shows address size value := by
  obtain ⟨window, memory, inside, rfl⟩ := shows
  obtain ⟨contents, still, same⟩ := inside.confined confined
  refine ⟨window, contents, still, ?_⟩
  apply Bytes.wordAt_congr
  intro k small
  have place : offset window address ≤ offset window address + k ∧
      offset window address + k < offset window address + byteCount size := by omega
  exact same _ (apart _ (.reach (UInt64.le_refl _) (Nat.le_refl _) inside.reached.found place))

theorem Shows.low {shorter : Nat} (shows : bus.Shows address size value) (mapped : bus.Mapped address shorter)
    (less : byteCount shorter ≤ byteCount size) (small : value.toNat < 2 ^ (8 * byteCount shorter)) :
    bus.Shows address shorter value := by
  obtain ⟨window, memory, inside, whole⟩ := shows
  obtain ⟨other, contents, within⟩ := mapped
  obtain ⟨foundHere, _⟩ := Option.filter_eq_some_iff.mp inside.reached.found
  obtain ⟨foundThere, _⟩ := Option.filter_eq_some_iff.mp within.reached.found
  cases foundHere.symm.trans foundThere
  cases inside.memory.symm.trans within.memory
  exact ⟨window, memory, within, Bytes.wordAt_low less whole small⟩

theorem Mapped.store (mapped : bus.Mapped address size) (small : value.toNat < 2 ^ (8 * byteCount size)) :
    ∃ next, store address size value bus = .ok () next ∧ next.Shows address size value ∧
      Confined (bus.Covers ⟨address, byteCount size⟩) bus next := by
  obtain ⟨window, memory, inside⟩ := mapped
  have stored := store_in_memory value inside
  refine ⟨_, stored, ⟨window, ⟨Bytes.putWord memory.data (offset window address) (byteCount size) value⟩, ?_,
    Bytes.wordAt_putWord_small _ _ _ _ inside.fits small⟩, ?_⟩
  · refine ⟨⟨inside.reached.small, inside.reached.fair, inside.reached.found, inside.reached.free, ?_⟩, ?_⟩
    · unfold replace
      rw [Array.getElem?_setIfInBounds, if_pos rfl, if_pos inside.known]
    · rw [Bytes.size_putWord]
      exact inside.fits
  · exact stored_confined stored (fun _ covered => covered)

end Words

-- No device but a memory answers where all of an area would be read.
def Calm (bus : Bus) (area : Area) : Prop :=
  ∀ window, bus.window? area.start area.size = some window → bus.held ≠ some window.device →
    ∀ device, bus.devices[window.device]? = some device → device.memory? ≠ none

theorem readBytes_alike {region : Cell → Prop} {bus next : Bus} {address : UInt64} {n : Nat}
    (calm : bus.Calm ⟨address, n⟩) (confined : Confined region bus next)
    (apart : ∀ cell, bus.Covers ⟨address, n⟩ cell → ¬ region cell) : Alike (readBytes address n) bus next := by
  unfold Alike readBytes
  by_cases nothing : n = 0
  · exact ⟨.ok ByteArray.empty, by simp only [if_pos nothing]; rfl, by simp only [if_pos nothing]; rfl⟩
  simp only [if_neg nothing]
  rw [confined.window]
  cases found : bus.window? address n with
  | none => exact ⟨.error .loadAccess, rfl, rfl⟩
  | some window =>
    dsimp only
    by_cases busy : bus.held = some window.device
    · have still : next.held = some window.device := confined.held.trans busy
      refine ⟨.error .loadAccess, ?_, ?_⟩
      · rw [withDevice, if_pos busy]
        rfl
      · rw [withDevice, if_pos still]
        rfl
    have free : next.held ≠ some window.device := fun held => busy (confined.held.symm.trans held)
    cases present : bus.devices[window.device]? with
    | none =>
      have absent : ¬ window.device < bus.devices.size := by simpa using present
      refine ⟨.error .loadAccess, ?_, ?_⟩
      · rw [withDevice, if_neg busy, dif_neg absent]
        rfl
      · rw [withDevice, if_neg free, dif_neg (by rw [confined.known]; exact absent)]
        rfl
    | some device =>
      cases kind : device.memory? with
      | none => exact absurd kind (calm window found busy device present)
      | some memory =>
        cases Device.memory_eq kind
        obtain ⟨contents, after, size, same⟩ := confined.memories _ _ (memory_of_device present)
        have alike : contents.readBytes (address - window.start) n = memory.readBytes (address - window.start) n := by
          unfold Ram.readBytes
          rw [Bytes.slice_congr contents.data memory.data (address - window.start).toNat n size]
          intro i above below
          exact same i (apart _ (.reach (UInt64.le_refl _) (Nat.le_refl _) found ⟨above, below⟩))
        refine ⟨memory.readBytes (address - window.start) n, ?_, ?_⟩
        · rw [withDevice_run _ _ busy present]
          exact settle_same _ present
        · rw [withDevice_run _ _ free (device_of_memory after), ← alike]
          exact settle_same _ (device_of_memory after)

def ofMemory (start : UInt64) (memory : Ram) : Bus :=
  { windows := #[⟨start, UInt64.ofNat memory.data.size, 0⟩], devices := #[.ram memory] }

section OneMemory

variable {start : UInt64} {memory : Ram}

theorem ofMemory_single : ∀ p ∈ (ofMemory start memory).windows, ∀ q ∈ (ofMemory start memory).windows,
    p.device = q.device → p = q := by
  intro p memberP q memberQ _
  rw [Array.mem_singleton.mp memberP, Array.mem_singleton.mp memberQ]

theorem ofMemory_apart {a b : Area}
    (disjoint : a.start.toNat + a.size ≤ b.start.toNat ∨ b.start.toNat + b.size ≤ a.start.toNat) :
    (ofMemory start memory).Apart a b :=
  apart_of_disjoint ofMemory_single disjoint

theorem ofMemory_calm (area : Area) : (ofMemory start memory).Calm area := by
  intro window _ _ device present
  obtain ⟨known, here⟩ := Array.getElem?_eq_some_iff.mp present
  have first : window.device = 0 := Nat.lt_one_iff.mp known
  subst here
  simp [ofMemory, first, Device.memory?]

theorem ofMemory_window (fits : start.toNat + memory.data.size < UInt64.size) {address : UInt64} {n : Nat} (positive : 0 < n)
    (above : start ≤ address) (below : address.toNat + n ≤ start.toNat + memory.data.size) :
    (ofMemory start memory).window? address n = some ⟨start, UInt64.ofNat memory.data.size, 0⟩ := by
  let window : Window := ⟨start, UInt64.ofNat memory.data.size, 0⟩
  have stop : window.stop.toNat = start.toNat + memory.data.size := by
    have exact : (UInt64.ofNat memory.data.size).toNat = memory.data.size := UInt64.toNat_ofNat_of_lt' (by omega)
    change (saturatingAdd start (UInt64.ofNat memory.data.size)).toNat = _
    rw [toNat_saturatingAdd, exact]
    omega
  have has : window.has address = true := by
    have inside : address < window.stop := UInt64.lt_iff_toNat_lt.mpr (by omega)
    simp only [Window.has, Bool.and_eq_true, decide_eq_true_eq]
    exact ⟨above, inside⟩
  have contains : window.contains address n = true := by
    simp only [Window.contains, Bool.and_eq_true, decide_eq_true_eq]
    exact ⟨above, by omega⟩
  have searched : search #[window] address 0 1 = some window := by
    rw [search]
    rfl
  have here : (ofMemory start memory).find? address = some window :=
    Option.filter_eq_some_iff.mpr ⟨searched, has⟩
  exact Option.filter_eq_some_iff.mpr ⟨here, contains⟩

theorem ofMemory_inMemory (fits : start.toNat + memory.data.size < UInt64.size) {address : UInt64} {size : Nat}
    (small : size ≤ 3) (fair : aligned size address = true) (above : start ≤ address)
    (below : address.toNat + byteCount size ≤ start.toNat + memory.data.size) :
    InMemory (ofMemory start memory) address size ⟨start, UInt64.ofNat memory.data.size, 0⟩ memory := by
  have found := ofMemory_window fits (byteCount_pos size) above below
  have place := offset_address found
  refine ⟨⟨small, fair, found, by simp [ofMemory], rfl⟩, ?_⟩
  dsimp only at place
  omega

end OneMemory

end Bus

end RvBoard
