import RvBoard.Proofs.Bus

/-!
# Buses of memories

Where nothing but memories has been placed, a load changes nothing, and a word that is stored over
one that could be loaded is the only word that changes.
-/

set_option autoImplicit false

namespace RvBoard.Bus

-- A bus on which memories have been placed, and nothing else.
inductive OfMemories : Bus → Prop
  | empty : OfMemories Bus.empty
  | place {bus next : Bus} {base : UInt64} {memory : Ram} {id : DeviceId} (rest : OfMemories bus)
      (placed : bus.place base (.ram memory) = .ok (id, next)) : OfMemories next

structure MemoryOnly (bus : Bus) : Prop where
  memories : ∀ window ∈ bus.windows, ∃ memory, bus.memory? window.device = some memory
  single : ∀ a ∈ bus.windows, ∀ b ∈ bus.windows, a.device = b.device → a = b

theorem place_ok {bus next : Bus} {base : UInt64} {device : Device} {id : DeviceId}
    (placed : bus.place base device = .ok (id, next)) :
    ∃ size position, next =
      { bus with
        windows := bus.windows.insertIdxIfInBounds position ⟨base, size, bus.devices.size⟩
        devices := bus.devices.push device } := by
  have bound : (bus.addDevice device).2.bind base (bus.addDevice device).1 = .ok next := by
    unfold place at placed
    simp only [addDevice] at placed ⊢
    cases done : Bus.bind { bus with devices := bus.devices.push device } base bus.devices.size with
    | error overlap =>
      rw [done] at placed
      cases placed
    | ok final =>
      rw [done] at placed
      cases placed
      rfl
  unfold bind at bound
  extract_lets size window position at bound
  split at bound
  · cases bound
  · cases bound
    exact ⟨size, position, rfl⟩

theorem place_first (base : UInt64) (device : Device) :
    Bus.empty.place base device = .ok (0, { windows := #[⟨base, device.size, 0⟩], devices := #[device] }) := by
  have lowest : rank #[] base = 0 := by simp [rank]
  have bound : Bus.bind { devices := #[device] } base 0 =
      .ok { windows := #[⟨base, device.size, 0⟩], devices := #[device] } := by
    unfold Bus.bind
    simp only [lowest, Array.insertIdxIfInBounds, Nat.le_refl, Array.size_empty, dite_true, Array.insertIdx_zero,
      Array.append_empty]
    rfl
  unfold place
  simp only [addDevice, Bus.empty]
  exact congrArg (fun done => done >>= fun bus => pure (0, bus)) bound

theorem mem_insertIdxIfInBounds {windows : Array Window} {position : Nat} {window added : Window}
    (found : window ∈ windows.insertIdxIfInBounds position added) : window = added ∨ window ∈ windows := by
  unfold Array.insertIdxIfInBounds at found
  split at found
  · exact Array.mem_insertIdx.mp found
  · exact .inr found

theorem OfMemories.memoryOnly {bus : Bus} (memories : bus.OfMemories) : MemoryOnly bus := by
  induction memories with
  | empty =>
    refine ⟨?_, ?_⟩
    · intro window found
      cases Array.not_mem_empty window found
    · intro window found
      cases Array.not_mem_empty window found
  | place rest placed ih =>
    rename_i bus next base memory id
    obtain ⟨size, position, rfl⟩ := place_ok placed
    have old : ∀ window ∈ bus.windows, window.device < bus.devices.size := by
      intro window found
      obtain ⟨kept, present⟩ := ih.memories window found
      exact device_known (device_of_memory present)
    refine ⟨?_, ?_⟩
    · intro window found
      rcases mem_insertIdxIfInBounds found with rfl | before
      · exact ⟨memory, by simp [memory?, Device.memory?]⟩
      · obtain ⟨kept, present⟩ := ih.memories window before
        refine ⟨kept, ?_⟩
        have other : window.device ≠ bus.devices.size := Nat.ne_of_lt (old window before)
        rw [memory?, Array.getElem?_push, if_neg other]
        exact present
    · intro a foundA b foundB same
      rcases mem_insertIdxIfInBounds foundA with rfl | beforeA <;>
        rcases mem_insertIdxIfInBounds foundB with rfl | beforeB
      · rfl
      · exact absurd same.symm (Nat.ne_of_lt (old b beforeB))
      · exact absurd same (Nat.ne_of_lt (old a beforeA))
      · exact ih.single a beforeA b beforeB same

theorem MemoryOnly.undisturbed {bus next : Bus} {address : UInt64} {n : Nat} {window : Window} (only : MemoryOnly bus)
    (found : bus.window? address n = some window) : ¬ Disturbed bus window next := by
  intro disturbed
  obtain ⟨memory, present⟩ := only.memories window (window_spec found).1
  rw [disturbed.foreign] at present
  cases present

theorem MemoryOnly.load_keeps {bus : Bus} (only : MemoryOnly bus) (address : UInt64) (size : Nat) :
    left (load address size bus) = bus := by
  rcases load_cases address size bus with ⟨fault, failed⟩ | ⟨window, memory, inside⟩ | ⟨window, found, disturbed⟩
  · rw [failed, left_error]
  · rw [load_in_memory inside, left_ok]
  · exact False.elim (only.undisturbed found disturbed)

theorem MemoryOnly.load_ok {bus next : Bus} {address bits : UInt64} {size : Nat} (only : MemoryOnly bus)
    (read : load address size bus = .ok bits next) :
    next = bus ∧ ∃ window memory, InMemory bus address size window memory ∧
      bits = Bytes.wordAt memory.data (offset window address) (byteCount size) := by
  have same := only.load_keeps address size
  rw [read, left_ok] at same
  rcases load_cases address size bus with ⟨fault, failed⟩ | ⟨window, memory, inside⟩ | ⟨window, found, disturbed⟩
  · cases read.symm.trans failed
  · have loaded := load_in_memory inside
    rw [read] at loaded
    injection loaded with value
    exact ⟨same, window, memory, inside, value⟩
  · exact False.elim (only.undisturbed found disturbed)

theorem MemoryOnly.replace {bus : Bus} {window : Window} {memory : Ram} (only : MemoryOnly bus)
    (present : bus.memory? window.device = some memory) (contents : Ram) :
    MemoryOnly (bus.replace window.device (.ram contents) bus.wires) := by
  refine ⟨?_, only.single⟩
  intro other found
  rw [memory_replace bus _ other.device _ _ (device_known (device_of_memory present))]
  by_cases same : window.device = other.device
  · rw [if_pos same]
    exact ⟨contents, rfl⟩
  · rw [if_neg same]
    exact only.memories other found

theorem Reached.replace {bus : Bus} {address : UInt64} {size : Nat} {window : Window} {device : Device}
    (reached : Reached bus address size window device) (id : DeviceId) (other : Device) (wires : Wires)
    (known : id < bus.devices.size) :
    Reached (bus.replace id other wires) address size window (if id = window.device then other else device) := by
  refine ⟨reached.small, reached.fair, reached.found, reached.free, ?_⟩
  simp only [Bus.replace, Array.getElem?_setIfInBounds]
  by_cases same : id = window.device
  · rw [if_pos same, if_pos same, if_pos known]
  · rw [if_neg same, if_neg same, reached.present]

theorem entries_apart {bus : Bus} {a b : UInt64} {window : Window} {deviceA deviceB : Device}
    (reachedA : Reached bus a 3 window deviceA) (reachedB : Reached bus b 3 window deviceB) (different : a ≠ b) :
    offset window a + 8 ≤ offset window b ∨ offset window b + 8 ≤ offset window a := by
  have fairA : a.toNat % 8 = 0 := eq_of_beq reachedA.fair
  have fairB : b.toNat % 8 = 0 := eq_of_beq reachedB.fair
  have placeA := offset_address reachedA.found
  have placeB := offset_address reachedB.found
  have distinct : a.toNat ≠ b.toNat := fun same => different (UInt64.toNat_inj.mp same)
  omega

structure Rewritten (bus : Bus) (entry value : UInt64) (next : Bus) : Prop where
  only : MemoryOnly next
  here : load entry 3 next = .ok value next
  apart : ∀ other bits, other ≠ entry → load other 3 bus = .ok bits bus → load other 3 next = .ok bits next

theorem MemoryOnly.store_entry {bus : Bus} {entry bits : UInt64} (only : MemoryOnly bus)
    (read : load entry 3 bus = .ok bits bus) (value : UInt64) :
    ∃ next, store entry 3 value bus = .ok () next ∧ Rewritten bus entry value next := by
  obtain ⟨_, window, memory, inside, _⟩ := only.load_ok read
  let contents : Ram := ⟨Bytes.putWord memory.data (offset window entry) 8 value⟩
  have known := inside.known
  refine ⟨bus.replace window.device (.ram contents) bus.wires, store_in_memory value inside,
    only.replace inside.memory contents, ?_, ?_⟩
  · have reached := inside.reached.replace window.device (.ram contents) bus.wires known
    rw [if_pos rfl] at reached
    have fits : offset window entry + 8 ≤ contents.data.size := by
      rw [Bytes.size_putWord]
      exact inside.fits
    rw [load_in_memory ⟨reached, fits⟩]
    congr 1
    exact Bytes.wordAt_putWord memory.data (offset window entry) value inside.fits
  · intro other word different before
    obtain ⟨_, window', memory', inside', rfl⟩ := only.load_ok before
    have reached := inside'.reached.replace window.device (.ram contents) bus.wires known
    by_cases same : window.device = window'.device
    · have one : window = window' :=
        only.single window (window_spec inside.reached.found).1 window' (window_spec inside'.reached.found).1 same
      subst one
      have alike : memory' = memory := Option.some_inj.mp (inside'.memory.symm.trans inside.memory)
      subst alike
      rw [if_pos rfl] at reached
      have fits : offset window other + 8 ≤ contents.data.size := by
        rw [Bytes.size_putWord]
        exact inside'.fits
      have kept := Bytes.wordAt_putWord_apart memory'.data (offset window entry) 8 (offset window other) 8 value inside.fits
        (entries_apart inside'.reached inside.reached different)
      rw [load_in_memory ⟨reached, fits⟩]
      exact congrArg (fun word => EStateM.Result.ok word _) kept
    · rw [if_neg same] at reached
      exact load_in_memory ⟨reached, inside'.fits⟩

end RvBoard.Bus
