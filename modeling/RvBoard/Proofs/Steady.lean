import RvBoard.Proofs.Memory.Access

/-!
# What accesses keep

A property that no access to a device changes is kept by every operation that works through the
bus: bulk copies, translated accesses, and whatever is made of them.
-/

set_option autoImplicit false

namespace RvBoard

-- What holds of the wires holds after every access to a device.
structure Device.Steady (Holds : Wires → Prop) : Prop where
  load : ∀ (device : Device) wires offset size, Holds wires → Holds (device.load wires offset size).2.2
  store : ∀ (device : Device) wires offset size value, Holds wires → Holds (device.store wires offset size value).2.2

-- What holds of a bus holds after every access to it.
structure Bus.Steady (Holds : Bus → Prop) : Prop where
  load : ∀ address size, Keeps Holds (Bus.load address size)
  store : ∀ address size value, Keeps Holds (Bus.store address size value)
  readBytes : ∀ address n, Keeps Holds (Bus.readBytes address n)
  writeBytes : ∀ address bytes, Keeps Holds (Bus.writeBytes address bytes)

structure Bus.Legible (Holds : Bus → Prop) : Prop where
  load : ∀ address size, Keeps Holds (Bus.load address size)
  readBytes : ∀ address n, Keeps Holds (Bus.readBytes address n)

theorem Bus.Steady.legible {Holds : Bus → Prop} (steady : Steady Holds) : Legible Holds :=
  ⟨steady.load, steady.readBytes⟩

section Devices

variable {Allowed : Device → Wires → Device → Wires → Prop}

theorem Bus.withDevice_keeps {α : Type} {Holds : Bus → Prop} {access : Device → Wires → Access α}
    (replaced : ∀ {bus : Bus} {id : DeviceId} {device next : Device} {after : Wires},
      bus.devices[id]? = some device → Allowed device bus.wires next after → Holds bus → Holds (bus.replace id next after))
    (allowed : ∀ device wires, Allowed device wires (access device wires).2.1 (access device wires).2.2)
    (id : DeviceId) (fault : MemFault) : Keeps Holds (withDevice id fault access) := by
  intro bus start
  rcases withDevice_cases bus id fault access with failed | ⟨free, device, present⟩
  · rw [failed]
    exact start
  · rw [withDevice_run fault access free present, left_settle]
    exact replaced present (allowed device bus.wires) start

theorem Device.Closed.bus (closed : Device.Closed Allowed) {Holds : Bus → Prop}
    (replaced : ∀ {bus : Bus} {id : DeviceId} {device next : Device} {after : Wires},
      bus.devices[id]? = some device → Allowed device bus.wires next after → Holds bus → Holds (bus.replace id next after)) :
    Bus.Steady Holds := by
  refine ⟨?_, ?_, ?_, ?_⟩
  · intro address size bus start
    unfold Bus.load
    cases Bus.refused? size address false with
    | some fault => exact start
    | none =>
      cases bus.window? address (byteCount size) with
      | none => exact start
      | some window =>
        exact Bus.withDevice_keeps replaced (fun device wires => closed.load device wires _ size) window.device _ bus start
  · intro address size value bus start
    unfold Bus.store
    cases Bus.refused? size address true with
    | some fault => exact start
    | none =>
      cases bus.window? address (byteCount size) with
      | none => exact start
      | some window =>
        exact Bus.withDevice_keeps replaced (fun device wires => closed.store device wires _ size value) window.device _
          bus start
  · intro address n bus start
    unfold Bus.readBytes
    by_cases nothing : n = 0
    · rw [if_pos nothing]
      exact start
    · rw [if_neg nothing]
      cases bus.window? address n with
      | none => exact start
      | some window =>
        exact Bus.withDevice_keeps replaced (fun device wires => closed.readBytes device wires _ n) window.device _ bus start
  · intro address bytes bus start
    unfold Bus.writeBytes
    cases bytes.isEmpty with
    | true => exact start
    | false =>
      cases bus.window? address bytes.size with
      | none => exact start
      | some window =>
        exact Bus.withDevice_keeps replaced (fun device wires => closed.writeBytes device wires _ bytes) window.device _
          bus start

end Devices

theorem Device.Closed.and {Allowed Other : Device → Wires → Device → Wires → Prop} (closed : Device.Closed Allowed)
    (other : Device.Closed Other) :
    Device.Closed fun device wires next after => Allowed device wires next after ∧ Other device wires next after where
  refl device wires := ⟨closed.refl device wires, other.refl device wires⟩
  trans first second := ⟨closed.trans first.1 second.1, other.trans first.2 second.2⟩
  load device wires offset size := ⟨closed.load device wires offset size, other.load device wires offset size⟩
  store device wires offset size value :=
    ⟨closed.store device wires offset size value, other.store device wires offset size value⟩
  written memory next wires := ⟨closed.written memory next wires, other.written memory next wires⟩

theorem Device.Steady.closed {Holds : Wires → Prop} (steady : Device.Steady Holds) :
    Device.Closed fun _ wires _ after => Holds wires → Holds after where
  refl _ _ := id
  trans first second start := second (first start)
  load := steady.load
  store := steady.store
  written _ _ _ := id

theorem Device.Steady.bus {Holds : Wires → Prop} (steady : Device.Steady Holds) :
    Bus.Steady (fun bus => Holds bus.wires) :=
  steady.closed.bus fun _ allowed start => allowed start

namespace Memory

variable {Holds : Bus → Prop} (steady : Bus.Steady Holds)

theorem onBus_keeps {α : Type} {operation : BusM α} (kept : Keeps Holds operation) :
    Keeps (fun memory => Holds memory.bus) (onBus operation) := by
  intro memory start
  rw [onBus_left]
  exact kept memory.bus start

include steady

theorem walk_steady (root vaddr : UInt64) (kind : AccessKind) (context : AccessContext) :
    Keeps Holds (Sv39.walk root vaddr kind context) :=
  fun _ start =>
    Sv39.walk_keeps (fun address => steady.load address 3) (fun address => steady.store address 3) root vaddr kind context start

theorem translate_steady (vaddr : UInt64) (kind : AccessKind) (context : AccessContext) :
    Keeps (fun memory => Holds memory.bus) (translate vaddr kind context) := by
  intro memory start
  exact translate_keeps (fun _ => walk_steady steady memory.root vaddr kind context memory.bus start) start

theorem through_steady {α : Type} (vaddr : UInt64) (size : Nat) (kind : AccessKind) (misaligned : MemFault)
    (context : AccessContext) {operation : UInt64 → BusM α} (kept : ∀ paddr, Keeps Holds (operation paddr)) :
    Keeps (fun memory => Holds memory.bus) (through vaddr size kind misaligned context operation) := by
  intro memory start
  exact (through_keeps (fun _ => walk_steady steady memory.root vaddr kind context memory.bus start) kept start).2

theorem fetch_steady (vaddr : UInt64) (context : AccessContext) :
    Keeps (fun memory => Holds memory.bus) (fetch vaddr context) := by
  rw [fetch_through]
  refine through_steady steady vaddr 1 .fetch .loadMisaligned context ?_
  intro paddr
  exact keeps_bind (steady.load paddr 1) (fun _ => keeps_pure _)

theorem loadForStore_steady (paddr : UInt64) (size : Nat) : Keeps Holds (loadForStore paddr size) := by
  intro bus start
  have after := steady.load paddr size bus start
  unfold loadForStore
  generalize Bus.load paddr size bus = outcome at after
  cases outcome with
  | ok value next => exact after
  | error fault next => exact after

theorem operation_steady (access : DataAccess) (paddr : UInt64) : Keeps Holds (access.operation paddr) := by
  cases access with
  | load vaddr size => exact keeps_bind (steady.load paddr size) (fun _ => keeps_pure _)
  | store vaddr size value => exact keeps_bind (steady.store paddr size _) (fun _ => keeps_pure _)
  | update vaddr size change =>
    refine keeps_bind (loadForStore_steady steady paddr size) (fun old => ?_)
    exact keeps_bind (steady.store paddr size _) (fun _ => keeps_pure _)

theorem run_steady (access : DataAccess) (context : AccessContext) :
    Keeps (fun memory => Holds memory.bus) (access.run context) := by
  rw [access.run_through]
  exact through_steady steady _ _ _ _ context (operation_steady steady access)

theorem readPages_steady (context : AccessContext) (out : ByteArray) (vaddr : UInt64) (n : Nat) :
    Keeps (fun memory => Holds memory.bus) (readPages context out vaddr n) := by
  induction n using Nat.strongRecOn generalizing out vaddr with
  | ind n ih =>
    unfold readPages
    by_cases nothing : n = 0
    · rw [if_pos nothing]
      exact keeps_pure out
    · rw [if_neg nothing]
      refine keeps_bind (translate_steady steady vaddr .load context) (fun paddr => ?_)
      refine keeps_bind (onBus_keeps (steady.readBytes paddr _)) (fun bytes => ?_)
      have progress := inPageCount_pos vaddr n (by omega)
      exact ih (n - inPageCount vaddr n) (by omega) _ _

theorem writePages_steady (context : AccessContext) (bytes : ByteArray) (vaddr : UInt64) (start : Nat) :
    Keeps (fun memory => Holds memory.bus) (writePages context bytes vaddr start) := by
  induction room : bytes.size - start using Nat.strongRecOn generalizing vaddr start with
  | ind n ih =>
    unfold writePages
    by_cases done : bytes.size ≤ start
    · rw [if_pos done]
      exact keeps_pure ()
    · rw [if_neg done]
      refine keeps_bind (translate_steady steady vaddr .store context) (fun paddr => ?_)
      refine keeps_bind (onBus_keeps (steady.writeBytes paddr _)) (fun _ => ?_)
      have progress := inPageCount_pos vaddr (bytes.size - start) (by omega)
      exact ih (bytes.size - (start + inPageCount vaddr (bytes.size - start))) (by omega) _ _ rfl

end Memory

end RvBoard
