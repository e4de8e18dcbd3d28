import RvBoard.Proofs.Board.Conditions
import RvBoard.Proofs.Board.History

/-!
# Interrupt lines

Every device of a board has its own line, and the level of the line is what the device asks for. An access keeps this
because the device that it reaches is honest; a step of a device does, because what the device does on its own it does
to others, and its line is not among theirs.
-/

set_option autoImplicit false

namespace RvBoard

namespace Bus

-- The lines of the devices, in their order.
def lines (bus : Bus) : Array (Option Line) :=
  bus.devices.map Device.line?

-- A device drives the line.
def Drives (bus : Bus) (line : Line) : Prop :=
  ∃ id : DeviceId, bus.lines[id]? = some (some line)

-- No two devices share a line.
def Unshared (bus : Bus) : Prop :=
  ∀ {first second : DeviceId} {line : Line},
    bus.lines[first]? = some (some line) → bus.lines[second]? = some (some line) → first = second

-- Every line tells what its device asks for.
def Tells (bus : Bus) : Prop :=
  ∀ {id : DeviceId} {device : Device} {line : Line},
    bus.devices[id]? = some device → device.line? = some line → bus.wires.level line = device.asks

theorem lines_of_shape {bus start : Bus} (same : bus.shape = start.shape) : bus.lines = start.lines := by
  have shapes := congrArg (fun shape => shape.2.1.map Device.Shape.line?) same
  unfold shape at shapes
  rw [Array.map_map, Array.map_map] at shapes
  exact shapes

theorem lines_at {bus : Bus} {id : DeviceId} {device : Device} (present : bus.devices[id]? = some device) :
    bus.lines[id]? = some device.line? := by
  rw [lines, Array.getElem?_map, present]
  rfl

-- What is kept of a bus on which each line tells what its device asks for: the other lines, and all owners.
structure Told (start bus : Bus) : Prop where
  shape : bus.shape = start.shape
  tells : bus.Tells
  others : ∀ {line}, ¬start.Drives line → bus.wires.level line = start.wires.level line
  owners : bus.wires.owners = start.wires.owners

theorem Told.refl {bus : Bus} (tells : bus.Tells) : bus.Told bus :=
  ⟨rfl, tells, fun _ => rfl, rfl⟩

section Told

variable {start bus : Bus} (told : start.Told bus) (apart : start.Unshared)

include told

theorem Told.listed {id : DeviceId} {device : Device} {line : Line} (present : bus.devices[id]? = some device)
    (own : device.line? = some line) : start.lines[id]? = some (some line) := by
  rw [← lines_of_shape told.shape, lines_at present, own]

theorem Told.wired (change : Wires → Wires) (same : (change bus.wires).signals.plic = bus.wires.signals.plic) :
    start.Told (bus.mapWires change) where
  shape := told.shape
  tells present own := (Wires.level_same _ same).trans (told.tells present own)
  others free := (Wires.level_same _ same).trans (told.others free)
  owners := (congrArg Plic.owners same).trans told.owners

include apart

theorem Told.replace {id : DeviceId} {device next : Device} {after : Wires} (present : bus.devices[id]? = some device)
    (shape : next.shape = device.shape) (honest : device.Honest bus.wires next after) :
    start.Told (bus.replace id next after) where
  shape := (replace_shape present shape after).trans told.shape
  tells := by
    intro other found line there own
    have known := (Array.getElem?_eq_some_iff.mp present).1
    rw [Bus.replace, Array.getElem?_setIfInBounds] at there
    by_cases same : id = other
    · rw [if_pos same, if_pos (same ▸ known)] at there
      cases there
      have line := honest.line.symm.trans own
      exact honest.own _ line (told.tells present line)
    · rw [if_neg same] at there
      have away : device.line? ≠ some line := fun line => same (apart (told.listed present line) (told.listed there own))
      exact (honest.others line away).trans (told.tells there own)
  others free := (honest.others _ fun line => free ⟨id, told.listed present line⟩).trans (told.others free)
  owners := honest.owners.trans told.owners

theorem Told.mapDevice {change : Device → Wires → Device × Wires} (id : DeviceId)
    (shape : ∀ device : Device, bus.devices[id]? = some device → (change device bus.wires).1.shape = device.shape)
    (honest : ∀ device : Device, bus.devices[id]? = some device →
      device.Honest bus.wires (change device bus.wires).1 (change device bus.wires).2) :
    start.Told (bus.mapDevice id change) := by
  rcases mapDevice_cases bus id change with same | ⟨device, present, same⟩
  · rw [same]
    exact told
  · rw [same]
    exact told.replace apart present (shape device present) (honest device present)

theorem Told.touch {α : Type} {action : Device → Wires → α × Device × Wires} (id : DeviceId) (missing : α)
    (shape : ∀ device wires, (action device wires).2.1.shape = device.shape)
    (honest : ∀ (device : Device) wires, device.Honest wires (action device wires).2.1 (action device wires).2.2) :
    start.Told (bus.touch id missing action).2 := by
  rcases touch_cases bus id missing action with same | ⟨device, present, same⟩
  · rw [same]
    exact told
  · rw [same]
    exact told.replace apart present (shape device _) (honest device _)

end Told

theorem told_steady {start : Bus} (apart : start.Unshared) : Steady start.Told :=
  (Device.shape_closed.and Device.honest_closed).bus fun present allowed told =>
    told.replace apart present allowed.1 allowed.2

end Bus

structure Device.Worked (device : Device) (bus : Bus) (next : Device) (after : Bus) : Prop where
  line : next.line? = device.line?
  tells : after.Tells
  own : ∀ line, device.line? = some line → bus.wires.level line = device.asks → after.wires.level line = next.asks
  others : ∀ line, device.line? ≠ some line → ¬bus.Drives line → after.wires.level line = bus.wires.level line
  owners : after.wires.owners = bus.wires.owners

namespace Device.Worked

variable {device next : Device} {bus behind : Bus}

theorem idle (tells : bus.Tells) : device.Worked bus device bus :=
  ⟨rfl, tells, fun _ _ told => told, fun _ _ _ => rfl, rfl⟩

theorem driven (told : bus.Told behind) {line : Line} (free : ¬bus.Drives line) (here : device.line? = some line)
    (there : next.line? = some line) :
    device.Worked bus next (behind.mapWires fun wires => wires.drive line next.asks) where
  line := there.trans here.symm
  tells := by
    intro id other its present own
    have away : line ≠ its := fun same => free (same ▸ ⟨id, told.listed present own⟩)
    exact (behind.wires.level_drive_other line _ away).trans (told.tells present own)
  own other own _ := by
    cases here.symm.trans own
    exact behind.wires.level_drive line _
  others other apart quiet :=
    (behind.wires.level_drive_other line _ fun same => apart (here.trans (congrArg some same))).trans (told.others quiet)
  owners := (behind.wires.owners_drive line _).trans told.owners

end Device.Worked

theorem Virtio.stepOnBus_worked {δ : Type} [Processor δ] [Confining δ] {line : Line} {make : Transport δ → Device}
    (own : ∀ transport, (make transport).line? = some line)
    (asks : ∀ transport, (make transport).asks = (transport.interruptStatus != 0)) {transport next : Transport δ}
    {bus after : Bus} (apart : bus.Unshared) (tells : bus.Tells) (free : ¬bus.Drives line)
    (done : stepOnBus line transport bus = some (next, after)) : (make transport).Worked bus (make next) after := by
  unfold stepOnBus at done
  cases idle : (Service.notified transport).isEmpty with
  | true =>
    rw [idle] at done
    cases done
    exact Device.Worked.idle tells
  | false =>
    rw [idle] at done
    obtain ⟨⟨served, behind⟩, stepped, same⟩ := Option.bind_eq_some_iff.mp done
    cases same
    have told := Service.step_keeps (Bus.told_steady apart) stepped (Bus.Told.refl tells)
    have worked := Device.Worked.driven told free (own transport) (own next)
    rw [asks] at worked
    exact worked

theorem Virtio.stepOnBus_asserts {δ : Type} [Processor δ] [Confining δ] [Marked δ] {line : Line} {transport : Transport δ}
    {bus : Bus} (apart : bus.Unshared) (tells : bus.Tells) (free : ¬bus.Drives line)
    (told : bus.wires.level line = transport.interrupt) (busy : (Service.notified transport).isEmpty = false) :
    stepOnBus line transport bus = (Service.step transport bus).map fun (next, behind) =>
      (next, if next.interruptStatus = transport.interruptStatus then behind
        else behind.mapWires fun wires => wires.drive line true) := by
  unfold stepOnBus
  rw [busy]
  cases stepped : Service.step transport bus with
  | none => rfl
  | some served =>
    obtain ⟨next, behind⟩ := served
    have kept := Service.step_keeps (Bus.told_steady apart) stepped (Bus.Told.refl tells)
    change some (next, behind.mapWires fun wires => wires.drive line next.interrupt) = some (next, _)
    by_cases same : next.interruptStatus = transport.interruptStatus
    · have level : behind.wires.level line = next.interrupt := by
        rw [kept.others free, told, Transport.interrupt, Transport.interrupt, same]
      rw [if_pos same, Bus.mapWires, behind.wires.drive_level line level]
    · rw [if_neg same, (Service.step_still stepped).2.resolve_left same]

theorem Rtc.stepOnBus_worked {line : Line} (clock : Rtc) {bus : Bus} (tells : bus.Tells) (free : ¬bus.Drives line) :
    Device.Worked (.rtc line clock) bus (.rtc line (clock.stepOnBus line bus).1) (clock.stepOnBus line bus).2 := by
  unfold stepOnBus
  cases clock.due bus.wires.wallTime with
  | true => exact Device.Worked.driven (Bus.Told.refl tells) free rfl rfl
  | false => exact Device.Worked.idle tells

theorem Device.stepOnBus_worked {device next : Device} {bus after : Bus} (apart : bus.Unshared) (tells : bus.Tells)
    (free : ∀ line, device.line? = some line → ¬bus.Drives line) (done : device.stepOnBus bus = some (next, after)) :
    device.Worked bus next after := by
  cases device with
  | rtc line clock =>
    cases done
    exact clock.stepOnBus_worked tells (free line rfl)
  | block line transport =>
    obtain ⟨served, stepped, same⟩ := Option.bind_eq_some_iff.mp done
    cases same
    exact Virtio.stepOnBus_worked (fun _ => rfl) (fun _ => rfl) apart tells (free line rfl) stepped
  | share line transport =>
    obtain ⟨served, stepped, same⟩ := Option.bind_eq_some_iff.mp done
    cases same
    exact Virtio.stepOnBus_worked (fun _ => rfl) (fun _ => rfl) apart tells (free line rfl) stepped
  | echo line transport =>
    obtain ⟨served, stepped, same⟩ := Option.bind_eq_some_iff.mp done
    cases same
    exact Virtio.stepOnBus_worked (fun _ => rfl) (fun _ => rfl) apart tells (free line rfl) stepped
  | _ =>
    cases done
    exact Worked.idle tells

namespace Bus

def without (bus : Bus) (id : DeviceId) : Bus :=
  { bus with devices := bus.devices.setIfInBounds id .clint, held := some id }

section Without

variable {bus : Bus} {id : DeviceId}

theorem without_at (other : DeviceId) :
    (bus.without id).devices[other]? =
      if id = other then if id < bus.devices.size then some .clint else none else bus.devices[other]? := by
  rw [without, Array.getElem?_setIfInBounds]

theorem without_lines {other : DeviceId} {line : Line} (there : (bus.without id).lines[other]? = some (some line)) :
    other ≠ id ∧ bus.lines[other]? = some (some line) := by
  rw [lines, Array.getElem?_map, without_at] at there
  by_cases same : id = other
  · rw [if_pos same] at there
    split at there <;> cases there
  · rw [if_neg same] at there
    rw [lines, Array.getElem?_map]
    exact ⟨fun equal => same equal.symm, there⟩

theorem without_apart (apart : bus.Unshared) : (bus.without id).Unshared :=
  fun here there => apart (without_lines here).2 (without_lines there).2

theorem without_free (apart : bus.Unshared) {line : Line} (own : bus.lines[id]? = some (some line)) :
    ¬(bus.without id).Drives line := by
  rintro ⟨other, there⟩
  obtain ⟨away, listed⟩ := without_lines there
  exact away (apart listed own)

theorem without_tells (tells : bus.Tells) : (bus.without id).Tells := by
  intro other device line there own
  rw [without_at] at there
  by_cases same : id = other
  · rw [if_pos same] at there
    split at there <;> cases there
    cases own
  · rw [if_neg same] at there
    exact tells there own

end Without

theorem Told.returned {start bus : Bus} (told : start.Told bus) {id : DeviceId}
    {device next : Device} (present : bus.devices[id]? = some device) {after : Bus}
    (worked : device.Worked (bus.without id) next after)
    (shape : ({ after with devices := after.devices.setIfInBounds id next, held := bus.held } : Bus).shape = bus.shape) :
    start.Told { after with devices := after.devices.setIfInBounds id next, held := bus.held } where
  shape := shape.trans told.shape
  tells := by
    intro other found line there own
    rw [Array.getElem?_setIfInBounds] at there
    by_cases same : id = other
    · rw [if_pos same] at there
      split at there <;> cases there
      have line := worked.line.symm.trans own
      exact worked.own _ line (told.tells present line)
    · rw [if_neg same] at there
      exact worked.tells there own
  others := by
    intro line free
    have away : device.line? ≠ some line := fun own => free ⟨id, told.listed present own⟩
    have quiet : ¬(bus.without id).Drives line := by
      rintro ⟨other, there⟩
      refine free ⟨other, ?_⟩
      rw [← lines_of_shape told.shape]
      exact (without_lines there).2
    exact (worked.others line away quiet).trans (told.others free)
  owners := worked.owners.trans told.owners

theorem Told.stepDevice {start bus : Bus} (told : start.Told bus) (apart : start.Unshared) (id : DeviceId) :
    start.Told (bus.stepDevice id) := by
  have shape := stepDevice_shape id bus
  unfold Bus.stepDevice at shape ⊢
  cases done : bus.stepDevice? id with
  | none => exact told
  | some final =>
    rw [done] at shape
    unfold stepDevice? at done
    split at done
    · rename_i known
      split at done
      · obtain ⟨⟨next, after⟩, stepped, same⟩ := Option.map_eq_some_iff.mp done
        have present := Array.getElem?_eq_getElem known
        have others : bus.Unshared := fun here there =>
          apart (lines_of_shape told.shape ▸ here) (lines_of_shape told.shape ▸ there)
        have worked : bus.devices[id].Worked (bus.without id) next after :=
          Device.stepOnBus_worked (without_apart others) (without_tells told.tells)
            (fun line own => without_free others ((lines_at present).trans (congrArg some own))) stepped
        cases same
        exact told.returned present worked shape
      · cases done
        exact told
    · cases done
      exact told

theorem told_enduring {start : Bus} (apart : start.Unshared) : Enduring start.Told where
  steady := told_steady apart
  wired _ change same told := told.wired change (same _)
  stepped id _ told := told.stepDevice apart id
  reset id _ told := told.mapDevice apart id (fun device _ => device.reset_shape _) fun device _ => device.reset_honest _

end Bus

end RvBoard
