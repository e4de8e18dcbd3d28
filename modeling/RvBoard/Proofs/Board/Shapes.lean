import RvBoard.Board.Host
import RvBoard.Proofs.NineP.MountTag
import RvBoard.Proofs.Virtio.Service

/-!
# Shapes of devices

A device stays on its line, with the queues and the mount tag that it was built with, and the
address map of a bus stays as it is. Nothing that works through the bus changes any of it.
-/

set_option autoImplicit false

namespace RvBoard

namespace Virtio

-- A device that has a mark for good.
class Marked (δ : Type) [Processor δ] where
  mark : δ → ByteArray
  reset (backend : δ) : mark (Backend.reset backend) = mark backend
  process (index : Nat) (chain : Chain) (dma : Dma δ) :
    mark (left (Processor.process index chain dma)).backend = mark dma.backend

instance : Marked Block where
  mark _ := ByteArray.empty
  reset _ := rfl
  process _ _ _ := rfl

instance : Marked Echo where
  mark _ := ByteArray.empty
  reset _ := rfl
  process _ _ _ := rfl

theorem dmaBus_backend {δ α : Type} (operation : BusM α) (dma : Dma δ) :
    (left (DmaM.onBus operation dma)).backend = dma.backend := by
  obtain ⟨backend, bus⟩ := dma
  unfold DmaM.onBus
  dsimp only
  cases operation bus <;> rfl

theorem Share.process_tag (chain : Chain) {tag : ByteArray} :
    Keeps (fun dma : Dma Share => dma.backend.tag = tag) (Share.process chain) := by
  have onBus {α : Type} (operation : BusM α) : Keeps (fun dma : Dma Share => dma.backend.tag = tag) (DmaM.onBus operation) :=
    fun dma start => (congrArg NineP.Server.tag (dmaBus_backend operation dma)).trans start
  refine keeps_bind keeps_get (fun dma => keeps_ite (keeps_pure _) ?_)
  refine keeps_bind (onBus _) (fun request => keeps_bind ?_ (fun reply => onBus _))
  exact fun dma start => (dma.backend.handle_tag _ _).trans start

instance : Marked Share where
  mark server := server.tag
  reset _ := rfl
  process _ chain dma := Share.process_tag chain dma rfl

section Shapes

variable {δ : Type} [Processor δ] [Marked δ]

-- The number of queues and the mark.
def Transport.shape (transport : Transport δ) : Nat × ByteArray :=
  (transport.slots.size, Marked.mark transport.backend)

namespace Transport

theorem reset_shape (transport : Transport δ) : transport.reset.shape = transport.shape :=
  Prod.ext Array.size_map (Marked.reset transport.backend)

theorem changeQueue_shape (transport : Transport δ) (change : VirtQueue → VirtQueue) :
    (transport.changeQueue change).shape = transport.shape :=
  Prod.ext Array.size_modify rfl

theorem write_shape (transport : Transport δ) (value : UInt32) (register : Register) :
    (transport.write value register).shape = transport.shape := by
  cases register with
  | driverFeatures =>
    change (transport.writeFeatures value).shape = _
    unfold writeFeatures
    split
    · rfl
    split
    · rfl
    split <;> rfl
  | queueNotify =>
    change (transport.notify value).shape = _
    unfold notify
    split
    · exact Prod.ext Array.size_modify rfl
    · rfl
  | status =>
    change (transport.writeStatus value).shape = _
    unfold writeStatus
    split
    · exact reset_shape transport
    · dsimp only
      split <;> rfl
  | queueNum => exact changeQueue_shape transport _
  | queueReady => exact changeQueue_shape transport _
  | queueDescLow => exact changeQueue_shape transport _
  | queueDescHigh => exact changeQueue_shape transport _
  | queueAvailLow => exact changeQueue_shape transport _
  | queueAvailHigh => exact changeQueue_shape transport _
  | queueUsedLow => exact changeQueue_shape transport _
  | queueUsedHigh => exact changeQueue_shape transport _
  | _ => rfl

theorem store_shape (transport : Transport δ) (offset : UInt64) (size : Nat) (value : UInt64) :
    (transport.store offset size value).2.1.shape = transport.shape := by
  unfold store
  split
  · rfl
  split
  · split
    · exact write_shape transport _ _
    · rfl
  · rfl

end Transport

namespace Service

-- What serving requests leaves as it is: the shape and the interrupt status.
def still (service : Service δ) : (Nat × ByteArray) × UInt32 :=
  (service.transport.shape, service.transport.interruptStatus)

theorem setQueue_still (service : Service δ) (index : Nat) (queue : VirtQueue) :
    (service.setQueue index queue).still = service.still :=
  Prod.ext (Prod.ext Array.size_modify rfl) rfl

theorem onRing_still {α : Type} (service : Service δ) (index : Nat) (queue : VirtQueue) (operation : RingM α) :
    (service.onRing index queue operation).2.still = service.still := by
  obtain ⟨transport, bus, raise⟩ := service
  unfold onRing
  dsimp only
  cases operation ⟨queue, bus⟩ with
  | ok value ring => exact setQueue_still _ index ring.queue
  | error error ring => exact setQueue_still _ index ring.queue

theorem handle_still (service : Service δ) (index : Nat) (queue : VirtQueue) (head : UInt16) :
    (service.handle index queue head).2.still = service.still := by
  obtain ⟨transport, bus, raise⟩ := service
  unfold handle
  dsimp only
  cases readChain queue head bus with
  | error error bus => rfl
  | ok chain bus =>
    have same := Marked.process index chain (⟨transport.backend, bus⟩ : Dma δ)
    dsimp only
    cases outcome : Processor.process index chain (⟨transport.backend, bus⟩ : Dma δ) with
    | ok length dma =>
      rw [outcome] at same
      exact Prod.ext (Prod.ext rfl same) rfl
    | error fault dma =>
      rw [outcome] at same
      exact Prod.ext (Prod.ext rfl same) rfl

theorem finish_still (service : Service δ) (index : Nat) (queue : VirtQueue) (head : UInt16) (length : UInt32) :
    (service.finish index queue head length).2.still = service.still := by
  have pushed := onRing_still service index queue (pushUsed head length)
  unfold finish
  generalize service.onRing index queue (pushUsed head length) = outcome at pushed
  obtain ⟨result, transport, bus, raise⟩ := outcome
  cases result with
  | error error => exact pushed
  | ok done =>
    dsimp only
    cases suppressed queue bus <;> exact pushed

theorem round_still (service : Service δ) (index : Nat) :
    (service.round index).2.still = service.still := by
  unfold round
  cases service.transport.slots[index]? with
  | none => rfl
  | some slot =>
    have popped := onRing_still service index slot.queue popAvail
    dsimp only
    generalize service.onRing index slot.queue popAvail = outcome at popped
    obtain ⟨result, service⟩ := outcome
    cases result with
    | error error => exact popped
    | ok head =>
      cases head with
      | none => exact popped
      | some head => exact (finish_still _ index _ head _).trans ((handle_still service index _ head).trans popped)

theorem rounds_still (index : Nat) (service final : Service δ) (done : rounds index service = some final) :
    final.still = service.still := by
  refine rounds.partial_correctness index (fun service final => final.still = service.still) ?_ service
    final done
  intro rounds ih service final done
  have after := round_still service index
  generalize service.round index = outcome at done after
  obtain ⟨more, next⟩ := outcome
  cases more with
  | true => exact (ih next final done).trans after
  | false =>
    cases done
    exact after

theorem turns_still (queues : List Nat) (service final : Service δ) (done : turns queues service = some final) :
    final.still = service.still := by
  induction queues generalizing service with
  | nil =>
    cases done
    rfl
  | cons index rest ih =>
    rw [turns_cons] at done
    obtain ⟨middle, first, last⟩ := Option.bind_eq_some_iff.mp done
    exact (ih middle last).trans (rounds_still index service middle first)

theorem raised_interrupts (status : UInt32) : (status ||| usedBuffer != 0) = true :=
  bne_iff_ne.mpr fun none => absurd (UInt32.or_eq_zero_iff.mp none).2 (by decide)

theorem step_still {transport next : Transport δ} {bus after : Bus} (done : step transport bus = some (next, after)) :
    next.shape = transport.shape ∧ (next.interruptStatus = transport.interruptStatus ∨ next.interrupt = true) := by
  unfold step at done
  obtain ⟨service, all, same⟩ := Option.bind_eq_some_iff.mp done
  have kept := turns_still _ _ service all
  have cleared : (clearNotified transport).shape = transport.shape := Prod.ext Array.size_map rfl
  obtain ⟨served, bus, raise⟩ := service
  have shape := (congrArg Prod.fst kept).trans cleared
  have status := congrArg Prod.snd kept
  unfold interrupting at same
  cases raise with
  | true =>
    cases same
    exact ⟨shape, .inr (raised_interrupts served.interruptStatus)⟩
  | false =>
    cases same
    exact ⟨shape, .inl status⟩

end Service

end Shapes

end Virtio

namespace Device

open Virtio (Transport)

-- What a device is, whatever state it is in.
inductive Shape where
  | ram
  | bootRom
  | controller
  | clint
  | plic
  | uart (line : Line)
  | rtc (line : Line)
  | block (line : Line) (transport : Nat × ByteArray)
  | share (line : Line) (transport : Nat × ByteArray)
  | echo (line : Line) (transport : Nat × ByteArray)

def shape : Device → Shape
  | .ram _ => .ram
  | .bootRom _ => .bootRom
  | .controller _ => .controller
  | .clint => .clint
  | .plic => .plic
  | .uart line _ => .uart line
  | .rtc line _ => .rtc line
  | .block line transport => .block line transport.shape
  | .share line transport => .share line transport.shape
  | .echo line transport => .echo line transport.shape

theorem load_shape (device : Device) (wires : Wires) (offset : UInt64) (size : Nat) :
    (device.load wires offset size).2.1.shape = device.shape := by
  cases device <;> rfl

theorem store_shape (device : Device) (wires : Wires) (offset : UInt64) (size : Nat) (value : UInt64) :
    (device.store wires offset size value).2.1.shape = device.shape := by
  cases device with
  | block line transport => exact congrArg (Shape.block line) (transport.store_shape offset size value)
  | share line transport => exact congrArg (Shape.share line) (transport.store_shape offset size value)
  | echo line transport => exact congrArg (Shape.echo line) (transport.store_shape offset size value)
  | _ => rfl

theorem shape_closed : Closed fun device _ next _ => next.shape = device.shape where
  refl _ _ := rfl
  trans first second := second.trans first
  load := load_shape
  store := store_shape
  written _ _ _ := rfl

theorem reset_shape (device : Device) (wires : Wires) : (device.reset wires).1.shape = device.shape := by
  cases device with
  | block line transport => exact congrArg (Shape.block line) transport.reset_shape
  | share line transport => exact congrArg (Shape.share line) transport.reset_shape
  | echo line transport => exact congrArg (Shape.echo line) transport.reset_shape
  | _ => rfl

theorem put_shape (bytes : List UInt8) (device : Device) (wires : Wires) :
    (device.put bytes wires).2.1.shape = device.shape := by
  cases device <;> rfl

theorem pump_shape (console : Console) (device : Device) (wires : Wires) :
    (device.pump console wires).2.1.shape = device.shape := by
  cases device <;> rfl

theorem drain_shape (limit : Option Nat) (device : Device) (wires : Wires) :
    (device.drain limit wires).2.1.shape = device.shape := by
  cases device <;> rfl

theorem mapStore_shape (change : BlockStore → BlockStore) (device : Device) :
    (device.mapStore change).shape = device.shape := by
  cases device <;> rfl

end Device

namespace Bus

-- The address map, the devices that are there, and the one that is busy.
def shape (bus : Bus) : Array Window × Array Device.Shape × Option DeviceId :=
  (bus.windows, bus.devices.map Device.shape, bus.held)

theorem set_shape {devices : Array Device} {id : DeviceId} {device next : Device} (present : devices[id]? = some device)
    (same : next.shape = device.shape) : (devices.setIfInBounds id next).map Device.shape = devices.map Device.shape := by
  apply Array.ext_getElem?
  intro other
  rw [Array.getElem?_map, Array.getElem?_map, Array.getElem?_setIfInBounds]
  by_cases here : id = other
  · subst here
    rw [if_pos rfl, if_pos (Array.getElem?_eq_some_iff.mp present).1, present, Option.map_some, same, Option.map_some]
  · rw [if_neg here]

theorem replace_shape {bus : Bus} {id : DeviceId} {device next : Device} (present : bus.devices[id]? = some device)
    (same : next.shape = device.shape) (wires : Wires) : (bus.replace id next wires).shape = bus.shape := by
  unfold shape replace
  rw [set_shape present same]

theorem shape_steady (start : Bus) : Steady (fun bus => bus.shape = start.shape) :=
  Device.shape_closed.bus fun present same before => (replace_shape present same _).trans before

theorem mapDevice_shape {change : Device → Wires → Device × Wires} (id : DeviceId) (bus : Bus)
    (same : ∀ device, bus.devices[id]? = some device → (change device bus.wires).1.shape = device.shape) :
    (bus.mapDevice id change).shape = bus.shape := by
  rcases mapDevice_cases bus id change with left | ⟨device, present, changed⟩
  · rw [left]
  · rw [changed]
    exact replace_shape present (same device present) _

theorem touch_cases {α : Type} (bus : Bus) (id : DeviceId) (missing : α) (action : Device → Wires → α × Device × Wires) :
    (bus.touch id missing action).2 = bus ∨ ∃ device, bus.devices[id]? = some device ∧
      (bus.touch id missing action).2 =
        bus.replace id (action device bus.wires).2.1 (action device bus.wires).2.2 := by
  unfold touch
  split
  · rename_i known
    refine .inr ⟨_, Array.getElem?_eq_getElem known, ?_⟩
    dsimp only [replace]
    rw [Array.setIfInBounds_setIfInBounds]
  · exact .inl rfl

theorem touch_shape {α : Type} {action : Device → Wires → α × Device × Wires}
    (same : ∀ device wires, (action device wires).2.1.shape = device.shape) (id : DeviceId) (missing : α) (bus : Bus) :
    (bus.touch id missing action).2.shape = bus.shape := by
  rcases touch_cases bus id missing action with left | ⟨device, present, changed⟩
  · rw [left]
  · rw [changed]
    exact replace_shape present (same device _) _

end Bus

namespace Virtio

theorem stepOnBus_shape {δ : Type} [Processor δ] [Confining δ] [Marked δ] {line : Line} {transport next : Transport δ}
    {bus after : Bus} (done : stepOnBus line transport bus = some (next, after)) :
    next.shape = transport.shape ∧ after.shape = bus.shape := by
  unfold stepOnBus at done
  cases idle : (Service.notified transport).isEmpty with
  | true =>
    rw [idle] at done
    cases done
    exact ⟨rfl, rfl⟩
  | false =>
    rw [idle] at done
    obtain ⟨⟨served, behind⟩, stepped, same⟩ := Option.bind_eq_some_iff.mp done
    have kept := Service.step_keeps bus.shape_steady stepped rfl
    cases same
    exact ⟨(Service.step_still stepped).1, kept⟩

end Virtio

theorem Rtc.stepOnBus_shape (line : Line) (clock : Rtc) (bus : Bus) : (clock.stepOnBus line bus).2.shape = bus.shape := by
  unfold stepOnBus
  cases clock.due bus.wires.wallTime <;> rfl

theorem Device.stepOnBus_shape {device next : Device} {bus after : Bus} (done : device.stepOnBus bus = some (next, after)) :
    next.shape = device.shape ∧ after.shape = bus.shape := by
  cases device with
  | rtc line clock =>
    cases done
    exact ⟨rfl, Rtc.stepOnBus_shape line clock bus⟩
  | block line transport =>
    obtain ⟨served, stepped, same⟩ := Option.bind_eq_some_iff.mp done
    obtain ⟨shape, kept⟩ := Virtio.stepOnBus_shape stepped
    cases same
    exact ⟨congrArg (Shape.block line) shape, kept⟩
  | share line transport =>
    obtain ⟨served, stepped, same⟩ := Option.bind_eq_some_iff.mp done
    obtain ⟨shape, kept⟩ := Virtio.stepOnBus_shape stepped
    cases same
    exact ⟨congrArg (Shape.share line) shape, kept⟩
  | echo line transport =>
    obtain ⟨served, stepped, same⟩ := Option.bind_eq_some_iff.mp done
    obtain ⟨shape, kept⟩ := Virtio.stepOnBus_shape stepped
    cases same
    exact ⟨congrArg (Shape.echo line) shape, kept⟩
  | _ =>
    cases done
    exact ⟨rfl, rfl⟩

theorem Bus.returned_shape {bus after : Bus} {id : DeviceId} {device next : Device} (present : bus.devices[id]? = some device)
    (same : next.shape = device.shape)
    (kept : after.shape = ({ bus with devices := bus.devices.setIfInBounds id .clint, held := some id } : Bus).shape) :
    ({ after with devices := after.devices.setIfInBounds id next, held := bus.held } : Bus).shape = bus.shape := by
  have windows : after.windows = bus.windows := congrArg (fun shape => shape.1) kept
  have devices : after.devices.map Device.shape = (bus.devices.setIfInBounds id .clint).map Device.shape :=
    congrArg (fun shape => shape.2.1) kept
  have back : (after.devices.setIfInBounds id next).map Device.shape = bus.devices.map Device.shape := by
    rw [Array.map_setIfInBounds, devices, Array.map_setIfInBounds, Array.setIfInBounds_setIfInBounds,
      ← Array.map_setIfInBounds, set_shape present same]
  unfold shape
  rw [windows, back]

theorem Bus.stepDevice_shape (id : DeviceId) (bus : Bus) : (bus.stepDevice id).shape = bus.shape := by
  unfold stepDevice
  cases done : bus.stepDevice? id with
  | none => rfl
  | some next =>
    unfold stepDevice? at done
    split at done
    · rename_i known
      split at done
      · obtain ⟨⟨device, after⟩, stepped, same⟩ := Option.map_eq_some_iff.mp done
        obtain ⟨shape, kept⟩ := Device.stepOnBus_shape stepped
        cases same
        exact returned_shape (Array.getElem?_eq_getElem known) shape kept
      · cases done
        rfl
    · cases done
      rfl

end RvBoard
