import RvBoard.Board.Host
import RvBoard.Proofs.Plic.Pins
import RvBoard.Proofs.Virtio.Service

/-!
# What happens to a bus

Between the instructions of the hart the devices make steps of their own, the board is reset, and
the host serves its devices and works on the bus. None of it makes the pins of the interrupt
controller lie.
-/

set_option autoImplicit false

namespace RvBoard

namespace Clint

open Plic (contextPin)

theorem setMsip_truthful {wires : Wires} (start : wires.signals.Truthful) (level : Bool) :
    (setPins wires (wires.signals.pins.set Mip.msip level)).signals.Truthful := by
  have apart : ∀ context, Mip.msip &&& contextPin context = 0 := by decide
  refine start.repinned _ ?_
  intro context
  exact Pins.set_apart _ level (apart context)

theorem store_truthful {wires : Wires} (start : wires.signals.Truthful) (offset : UInt64) (size : Nat) (value : UInt64) :
    (store wires offset size value).2.signals.Truthful := by
  have compared : ∀ time, (setCompare wires time).signals.Truthful :=
    fun time => start.repinned _ (fun _ => rfl)
  unfold store
  split
  · exact start
  split
  · exact start
  · rename_i register _
    cases register with
    | msip => exact setMsip_truthful start _
    | mtimecmp =>
      change (if size = 3 then _ else _ : Wires).signals.Truthful
      split
      · exact compared _
      · exact compared _
    | mtimecmpHigh => exact compared _
    | mtime => exact start
    | mtimeHigh => exact start

theorem reset_truthful {wires : Wires} (start : wires.signals.Truthful) : (reset wires).signals.Truthful :=
  (setMsip_truthful start false).repinned _ (fun _ => rfl)

end Clint

theorem SystemController.store_signals (controller : SystemController) (wires : Wires) (offset : UInt64) (size : Nat)
    (value : UInt64) : (controller.store wires offset size value).2.2.signals = wires.signals := by
  unfold store
  split
  · rfl
  split
  · rfl
  · rfl

theorem Wires.drive_truthful {wires : Wires} (start : wires.signals.Truthful) (line : Line) (level : Bool) :
    (wires.drive line level).signals.Truthful :=
  (wires.signals.drive_settled line level).truthful start

theorem Wires.update_truthful {wires : Wires} (start : wires.signals.Truthful) (line : Line) (changed level : Bool) :
    (wires.update line changed level).signals.Truthful := by
  cases changed with
  | true => exact drive_truthful start line level
  | false => exact start

namespace Device

theorem truthful : Steady (fun wires => wires.signals.Truthful) := by
  refine ⟨?_, ?_⟩
  · intro device wires offset size start
    cases device with
    | plic => exact (wires.signals.load_settled offset size).truthful start
    | uart line port => exact Wires.update_truthful start line _ _
    | _ => exact start
  · intro device wires offset size value start
    cases device with
    | controller state =>
      have same := state.store_signals wires offset size value
      change (state.store wires offset size value).2.2.signals.Truthful
      rw [same]
      exact start
    | clint => exact Clint.store_truthful start offset size value
    | plic => exact (wires.signals.store_settled offset size value).truthful start
    | ram memory => exact start
    | bootRom rom => exact start
    | uart line port => exact Wires.drive_truthful start line _
    | _ line _ => exact Wires.update_truthful start line _ _

theorem reset_truthful (device : Device) {wires : Wires} (start : wires.signals.Truthful) :
    (device.reset wires).2.signals.Truthful := by
  cases device with
  | clint => exact Clint.reset_truthful start
  | plic => exact Plic.Signals.reset_truthful wires.signals
  | ram memory => exact start
  | bootRom rom => exact start
  | controller state => exact start
  | _ line _ => exact Wires.drive_truthful start line false

theorem put_truthful (bytes : List UInt8) (device : Device) {wires : Wires} (start : wires.signals.Truthful) :
    (device.put bytes wires).2.2.signals.Truthful := by
  cases device with
  | uart line port => exact Wires.update_truthful start line _ _
  | _ => exact start

theorem pump_truthful (console : Console) (device : Device) {wires : Wires} (start : wires.signals.Truthful) :
    (device.pump console wires).2.2.signals.Truthful := by
  cases device with
  | uart line port => exact Wires.update_truthful start line _ _
  | _ => exact start

end Device

section Steps

variable {Holds : Wires → Prop} (steady : Device.Steady Holds)
  (drives : ∀ wires line level, Holds wires → Holds (wires.drive line level))

include drives

theorem Rtc.stepOnBus_keeps (line : Line) (clock : Rtc) (bus : Bus) (start : Holds bus.wires) :
    Holds (clock.stepOnBus line bus).2.wires := by
  unfold stepOnBus
  cases clock.due bus.wires.wallTime with
  | true => exact drives _ line _ start
  | false => exact start

include steady

theorem Virtio.stepOnBus_keeps {δ : Type} [Processor δ] [Confining δ] {line : Line} {transport next : Transport δ}
    {bus after : Bus} (done : stepOnBus line transport bus = some (next, after)) (start : Holds bus.wires) : Holds after.wires := by
  unfold stepOnBus at done
  cases idle : (Service.notified transport).isEmpty with
  | true =>
    rw [idle] at done
    cases done
    exact start
  | false =>
    rw [idle] at done
    obtain ⟨⟨served, behind⟩, stepped, same⟩ := Option.bind_eq_some_iff.mp done
    cases same
    exact drives _ line _ (Service.step_keeps steady.bus stepped start)

theorem Device.stepOnBus_keeps {device next : Device} {bus after : Bus} (done : device.stepOnBus bus = some (next, after))
    (start : Holds bus.wires) : Holds after.wires := by
  cases device with
  | rtc line clock =>
    cases done
    exact Rtc.stepOnBus_keeps drives line clock bus start
  | block line transport =>
    obtain ⟨served, stepped, same⟩ := Option.bind_eq_some_iff.mp done
    cases same
    exact Virtio.stepOnBus_keeps steady drives stepped start
  | share line transport =>
    obtain ⟨served, stepped, same⟩ := Option.bind_eq_some_iff.mp done
    cases same
    exact Virtio.stepOnBus_keeps steady drives stepped start
  | echo line transport =>
    obtain ⟨served, stepped, same⟩ := Option.bind_eq_some_iff.mp done
    cases same
    exact Virtio.stepOnBus_keeps steady drives stepped start
  | _ =>
    cases done
    exact start

theorem Bus.stepDevice_keeps (id : DeviceId) (bus : Bus) (start : Holds bus.wires) : Holds (bus.stepDevice id).wires := by
  unfold stepDevice
  cases done : bus.stepDevice? id with
  | none => exact start
  | some next =>
    unfold stepDevice? at done
    split at done
    · split at done
      · obtain ⟨⟨device, after⟩, stepped, same⟩ := Option.map_eq_some_iff.mp done
        have kept := Device.stepOnBus_keeps steady drives stepped start
        cases same
        exact kept
      · cases done
        exact start
    · cases done
      exact start

end Steps

namespace Bus

theorem touch_keeps {α : Type} {Holds : Wires → Prop} {action : Device → Wires → α × Device × Wires}
    (kept : ∀ device wires, Holds wires → Holds (action device wires).2.2) (id : DeviceId) (missing : α) (bus : Bus)
    (start : Holds bus.wires) : Holds (bus.touch id missing action).2.wires := by
  unfold touch
  split
  · exact kept _ _ start
  · exact start

theorem mapDevice_keeps {Holds : Wires → Prop} {change : Device → Wires → Device × Wires} (id : DeviceId) (bus : Bus)
    (kept : ∀ device, bus.devices[id]? = some device → Holds (change device bus.wires).2) (absent : Holds bus.wires) :
    Holds (bus.mapDevice id change).wires := by
  unfold mapDevice
  split
  · rename_i known
    exact kept _ (Array.getElem?_eq_getElem known)
  · exact absent

def resetAll (ids : List DeviceId) (bus : Bus) : Bus :=
  ids.foldl (fun bus id => bus.resetDevice id)
    (bus.mapWires fun wires => { wires with control := none, signals := { wires.signals with pins := {} } })

theorem reset_hart (board : Board) : board.reset.hart = board.hart.reset.mapBus (resetAll board.devices.toList) := by
  unfold resetAll
  simp only [Array.foldl_toList]
  rfl

theorem resetDevice_controller {id : DeviceId} {bus : Bus} (present : bus.devices[id]? = some .plic) :
    (bus.resetDevice id).wires.signals.Truthful := by
  unfold resetDevice mapDevice
  obtain ⟨known, here⟩ := Array.getElem?_eq_some_iff.mp present
  rw [dif_pos known]
  dsimp only
  rw [here]
  exact Plic.Signals.reset_truthful _

theorem resetDevice_present (id : DeviceId) {other : DeviceId} {bus : Bus} (present : bus.devices[other]? = some .plic) :
    (bus.resetDevice id).devices[other]? = some .plic := by
  unfold resetDevice mapDevice
  split
  · rename_i known
    dsimp only
    rw [Array.getElem?_setIfInBounds]
    by_cases same : id = other
    · subst same
      obtain ⟨_, here⟩ := Array.getElem?_eq_some_iff.mp present
      rw [if_pos rfl, Array.size_setIfInBounds, if_pos known, here]
      rfl
    · rw [if_neg same, Array.getElem?_setIfInBounds, if_neg same]
      exact present
  · exact present

theorem resets_keeps {Holds : Wires → Prop} (kept : ∀ (device : Device) wires, Holds wires → Holds (device.reset wires).2)
    (ids : List DeviceId) {bus : Bus} (start : Holds bus.wires) :
    Holds (ids.foldl (fun bus id => bus.resetDevice id) bus).wires := by
  induction ids generalizing bus with
  | nil => exact start
  | cons id rest ih => exact ih (mapDevice_keeps id bus (fun device _ => kept device bus.wires start) start)

theorem resets_truthful (ids : List DeviceId) {bus : Bus} (start : bus.wires.signals.Truthful) :
    (ids.foldl (fun bus id => bus.resetDevice id) bus).wires.signals.Truthful :=
  @resets_keeps (fun wires => wires.signals.Truthful) (fun device _ => device.reset_truthful) ids bus start

theorem resets_controller {id : DeviceId} {ids : List DeviceId} (member : id ∈ ids) {bus : Bus}
    (present : bus.devices[id]? = some .plic) :
    (ids.foldl (fun bus id => bus.resetDevice id) bus).wires.signals.Truthful := by
  induction ids generalizing bus with
  | nil => cases member
  | cons first rest ih =>
    rcases List.mem_cons.mp member with rfl | later
    · exact resets_truthful rest (resetDevice_controller present)
    · exact ih later (resetDevice_present first present)

-- What devices and the host do.
inductive Happens (bus : Bus) : Bus → Prop
  | stepped (id : DeviceId) : Happens bus (bus.stepDevice id)
  | reset {id : DeviceId} {ids : List DeviceId} (member : id ∈ ids) (controller : bus.devices[id]? = some .plic) :
      Happens bus (bus.resetAll ids)
  | driven (line : Line) (level : Bool) : Happens bus (bus.mapWires fun wires => wires.drive line level)
  | put (id : DeviceId) (bytes : List UInt8) : Happens bus (bus.touch id false (Device.put bytes)).2
  | pumped (id : DeviceId) (console : Console) : Happens bus (bus.touch id ([], console) (Device.pump console)).2
  | accessed (address : UInt64) (size : Nat) (write : Bool) (value : UInt64) :
      Happens bus (left (access address size write value bus))
  | copiedOut (address : UInt64) (n : Nat) : Happens bus (left (readBytes address n bus))
  | copiedIn (address : UInt64) (bytes : ByteArray) : Happens bus (left (writeBytes address bytes bus))
  | bound (owners : Vector (Option String) 64) :
      Happens bus (bus.mapWires fun wires =>
        { wires with signals := { wires.signals with plic := { wires.signals.plic with owners := owners } } })
  | timed (control : Option ControlRequest) (wallTime : UInt64) :
      Happens bus (bus.mapWires fun wires => { wires with control := control, wallTime := wallTime })
  | placed (windows : Array Window) (devices : Array Device) :
      Happens bus { bus with windows := windows, devices := devices }

theorem access_keeps {Holds : Bus → Prop} (steady : Steady Holds) (address : UInt64) (size : Nat) (write : Bool)
    (value : UInt64) : Keeps Holds (access address size write value) :=
  keeps_ite (keeps_bind (steady.store address size value) (fun _ => keeps_pure 0)) (steady.load address size)

theorem Happens.truthful {bus next : Bus} (happens : Happens bus next) (start : bus.wires.signals.Truthful) :
    next.wires.signals.Truthful := by
  have steady := Device.truthful.bus
  have drives : ∀ (wires : Wires) line level, wires.signals.Truthful → (wires.drive line level).signals.Truthful :=
    fun _ line level start => Wires.drive_truthful start line level
  cases happens with
  | stepped id => exact stepDevice_keeps Device.truthful drives id bus start
  | reset member controller => exact resets_controller member controller
  | driven line level => exact drives _ line level start
  | put id bytes =>
    exact @touch_keeps _ (fun wires => wires.signals.Truthful) _ (fun device _ => device.put_truthful bytes) id false bus start
  | pumped id console =>
    exact @touch_keeps _ (fun wires => wires.signals.Truthful) _ (fun device _ => device.pump_truthful console) id
      ([], console) bus start
  | accessed address size write value => exact access_keeps steady address size write value bus start
  | copiedOut address n => exact steady.readBytes address n bus start
  | copiedIn address bytes => exact steady.writeBytes address bytes bus start
  | bound owners => exact start
  | timed control wallTime => exact start
  | placed windows devices => exact start

end Bus

end RvBoard
