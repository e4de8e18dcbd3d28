import RvBoard.Board.DeviceStep
import RvBoard.Proofs.Virtio.Settings

/-!
# Negotiation and queues

What a driver can bring a transport to: features are only agreed on when they were offered, a ready
queue has a size, and a request reaches the device only from a queue that was announced.
-/

set_option autoImplicit false

namespace RvBoard.Virtio

namespace Transport

variable {δ : Type}

-- What can happen to a transport.
inductive Act where
  | load (offset : UInt64) (size : Nat)
  | store (offset : UInt64) (size : Nat) (value : UInt64)
  | step (bus : Bus)
  | reset

structure Event (δ : Type) where
  before : Transport δ
  act : Act

def written? (offset : UInt64) (size : Nat) : Option Register :=
  if configOffset ≤ offset then none
  else if size = 2 then Register.ofOffset? offset
  else none

def Act.resets : Act → Prop
  | .reset => True
  | .store offset size value => written? offset size = some .status ∧ value.toUInt32 = 0
  | _ => False

def Act.steps : Act → Prop
  | .step _ => True
  | _ => False

def Act.notifies (index : Nat) : Act → Prop
  | .store offset size value => written? offset size = some .queueNotify ∧ value.toUInt32.toNat = index
  | _ => False

-- Since the last reset, and since the last step, the queue was announced; the driver was ready then, and so was the queue.
def Announced (past : List (Event δ)) (index : Nat) : Prop :=
  ∃ later event earlier slot, past = later ++ event :: earlier ∧
    (∀ other ∈ later, ¬ other.act.resets ∧ ¬ other.act.steps) ∧ event.act.notifies index ∧
    event.before.has driverOk = true ∧ event.before.slots[index]? = some slot ∧ slot.queue.ready = true

-- What has happened to a transport since it was made, the latest first.
inductive History [Processor δ] (line : Line) : List (Event δ) → Transport δ → Prop
  | made (backend : δ) : History line [] (ofBackend backend)
  | loaded {past : List (Event δ)} {transport : Transport δ} (before : History line past transport) (offset : UInt64)
      (size : Nat) : History line (⟨transport, .load offset size⟩ :: past) transport
  | stored {past : List (Event δ)} {transport : Transport δ} (before : History line past transport) (offset : UInt64)
      (size : Nat) (value : UInt64) :
      History line (⟨transport, .store offset size value⟩ :: past) (transport.store offset size value).2.1
  | stepped {past : List (Event δ)} {transport next : Transport δ} {bus after : Bus} (before : History line past transport)
      (done : stepOnBus line transport bus = some (next, after)) : History line (⟨transport, .step bus⟩ :: past) next
  | reset {past : List (Event δ)} {transport : Transport δ} (before : History line past transport) :
      History line (⟨transport, .reset⟩ :: past) transport.reset

-- FEATURES_OK stands for the mandatory feature and for nothing that was not offered.
def Negotiated [Backend δ] (transport : Transport δ) : Prop :=
  transport.has featuresOk = true →
    transport.driverFeatures &&& featureVersion1 ≠ 0 ∧ transport.driverFeatures &&& ~~~transport.offered = 0

structure Lawful [Backend δ] (past : List (Event δ)) (transport : Transport δ) : Prop where
  negotiated : transport.Negotiated
  sane : ∀ slot ∈ transport.slots, slot.queue.Sane
  announced : ∀ (index : Nat) (slot : Slot), transport.slots[index]? = some slot → slot.notified = true → Announced past index

theorem store_quiet {offset value : UInt64} {size : Nat} (apart : written? offset size ≠ some .status) :
    ¬ (Act.store offset size value).resets ∧ ¬ (Act.store offset size value).steps :=
  ⟨fun resets => apart resets.1, id⟩

theorem Announced.later {past : List (Event δ)} {index : Nat} (announced : Announced past index) {event : Event δ}
    (quiet : ¬ event.act.resets ∧ ¬ event.act.steps) : Announced (event :: past) index := by
  obtain ⟨later, first, earlier, slot, order, calm, rest⟩ := announced
  refine ⟨event :: later, first, earlier, slot, congrArg (event :: ·) order, ?_, rest⟩
  intro other member
  rcases List.mem_cons.mp member with rfl | member
  · exact quiet
  · exact calm other member

section Registers

variable [Backend δ] {past : List (Event δ)} {transport : Transport δ}

theorem negotiated_of_zero (zero : transport.status = 0) : transport.Negotiated := by
  intro set
  unfold Transport.has at set
  rw [zero, UInt32.zero_and] at set
  cases set

theorem negotiated_of_agrees {other : Transport δ} (negotiated : transport.Negotiated) (agrees : Agrees transport other) :
    other.Negotiated := by
  unfold Negotiated
  rw [agrees.featuresOk, agrees.driverFeatures, agrees.offered]
  exact negotiated

theorem sane_of_agrees {other : Transport δ} (sane : ∀ slot ∈ transport.slots, slot.queue.Sane) (agrees : Agrees transport other) :
    ∀ slot ∈ other.slots, slot.queue.Sane := by
  intro slot member
  obtain ⟨index, present⟩ := Array.mem_iff_getElem?.mp member
  have same := agrees.slots index
  rw [present] at same
  obtain ⟨before, stood, setting⟩ := Option.map_eq_some_iff.mp same.symm
  exact (sane before (Array.mem_of_getElem? stood)).same (congrArg Prod.fst setting).symm

theorem Lawful.reset (past : List (Event δ)) (transport : Transport δ) : Lawful past transport.reset := by
  have fresh : ∀ slot ∈ transport.reset.slots, slot = {} := by
    intro slot member
    obtain ⟨old, _, same⟩ := Array.mem_map.mp member
    exact same.symm
  refine ⟨negotiated_of_zero rfl, ?_, ?_⟩
  · intro slot member
    rw [fresh slot member]
    exact VirtQueue.sane_new
  · intro index slot present notified
    rw [fresh slot (Array.mem_of_getElem? present)] at notified
    cases notified

theorem Lawful.changeQueue (lawful : Lawful past transport) {change : VirtQueue → VirtQueue}
    (sane : ∀ queue : VirtQueue, queue.Sane → (change queue).Sane) : Lawful past (transport.changeQueue change) := by
  have slots : ∀ (index : Nat) (slot : Slot), (transport.changeQueue change).slots[index]? = some slot →
      ∃ old, transport.slots[index]? = some old ∧ slot.notified = old.notified ∧ (old.queue.Sane → slot.queue.Sane) := by
    intro index slot present
    unfold Transport.changeQueue at present
    rw [Array.getElem?_modify] at present
    split at present
    · obtain ⟨old, stood, rfl⟩ := Option.map_eq_some_iff.mp present
      exact ⟨old, stood, rfl, sane old.queue⟩
    · exact ⟨slot, present, rfl, id⟩
  refine ⟨lawful.negotiated, ?_, ?_⟩
  · intro slot member
    obtain ⟨index, present⟩ := Array.mem_iff_getElem?.mp member
    obtain ⟨old, stood, _, kept⟩ := slots index slot present
    exact kept (lawful.sane old (Array.mem_of_getElem? stood))
  · intro index slot present notified
    obtain ⟨old, stood, same, _⟩ := slots index slot present
    exact lawful.announced index old stood (same.symm.trans notified)

theorem acceptable_iff (transport : Transport δ) : transport.acceptable = true ↔
    transport.driverFeatures &&& featureVersion1 ≠ 0 ∧ transport.driverFeatures &&& ~~~transport.offered = 0 := by
  unfold acceptable
  rw [Bool.and_eq_true_iff, beq_iff_eq, bne_iff_ne]
  exact and_comm

theorem Lawful.writeStatus (lawful : Lawful past transport) (value : UInt32) : Lawful past (transport.writeStatus value) := by
  unfold Transport.writeStatus
  by_cases zero : value = 0
  · rw [if_pos zero]
    exact .reset past transport
  rw [if_neg zero]
  extract_lets status negotiates
  by_cases refused : (negotiates && !transport.acceptable) = true
  · rw [if_pos refused]
    refine ⟨fun set => ?_, lawful.sane, lawful.announced⟩
    have cleared : status &&& ~~~featuresOk &&& featuresOk = 0 := by
      rw [UInt32.and_assoc, UInt32.not_and_self, UInt32.and_zero]
    exact absurd cleared (bne_iff_ne.mp set)
  · rw [if_neg refused]
    refine ⟨fun set => ?_, lawful.sane, lawful.announced⟩
    cases before : transport.has featuresOk with
    | true => exact lawful.negotiated before
    | false =>
      have asks : negotiates = true := Bool.and_eq_true_iff.mpr ⟨set, by rw [before]; rfl⟩
      rw [asks, Bool.true_and, Bool.not_eq_true', Bool.not_eq_false] at refused
      exact (acceptable_iff transport).mp refused

theorem Lawful.writeFeatures (lawful : Lawful past transport) (value : UInt32) : Lawful past (transport.writeFeatures value) := by
  unfold Transport.writeFeatures
  cases fixed : transport.has featuresOk with
  | true => exact lawful
  | false =>
    have unset : ∀ features, Lawful past { transport with driverFeatures := features } :=
      fun features => ⟨fun set => absurd (fixed.symm.trans set) Bool.false_ne_true, lawful.sane, lawful.announced⟩
    rw [if_neg Bool.false_ne_true]
    split
    · exact unset _
    split
    · exact unset _
    · exact lawful

theorem Lawful.later (lawful : Lawful past transport) {event : Event δ} (quiet : ¬ event.act.resets ∧ ¬ event.act.steps) :
    Lawful (event :: past) transport :=
  ⟨lawful.negotiated, lawful.sane, fun index slot present notified => (lawful.announced index slot present notified).later quiet⟩

theorem Lawful.notify (lawful : Lawful past transport) {offset value : UInt64} {size : Nat}
    (named : written? offset size = some .queueNotify) :
    Lawful (⟨transport, .store offset size value⟩ :: past) (transport.notify value.toUInt32) := by
  have apart : written? offset size ≠ some .status := by
    rw [named]
    nofun
  have stays : Lawful (⟨transport, .store offset size value⟩ :: past) transport := lawful.later (store_quiet apart)
  unfold Transport.notify
  by_cases ready : transport.has driverOk = true
  · rw [if_pos ready]
    have slots : ∀ (index : Nat) (slot : Slot),
        (transport.slots.modify value.toUInt32.toNat fun slot => { slot with notified := slot.notified || slot.queue.ready })[index]? =
          some slot →
        ∃ old, transport.slots[index]? = some old ∧ slot.queue = old.queue ∧
          (slot.notified = true → old.notified = true ∨ value.toUInt32.toNat = index ∧ old.queue.ready = true) := by
      intro index slot present
      rw [Array.getElem?_modify] at present
      split at present
      · rename_i here
        obtain ⟨old, stood, rfl⟩ := Option.map_eq_some_iff.mp present
        refine ⟨old, stood, rfl, fun notified => ?_⟩
        rcases Bool.or_eq_true_iff.mp notified with before | now
        · exact .inl before
        · exact .inr ⟨here, now⟩
      · exact ⟨slot, present, rfl, .inl⟩
    refine ⟨stays.negotiated, ?_, ?_⟩
    · intro slot member
      obtain ⟨index, present⟩ := Array.mem_iff_getElem?.mp member
      obtain ⟨old, stood, same, _⟩ := slots index slot present
      rw [same]
      exact stays.sane old (Array.mem_of_getElem? stood)
    · intro index slot present notified
      obtain ⟨old, stood, same, marked⟩ := slots index slot present
      rcases marked notified with before | ⟨here, now⟩
      · exact stays.announced index old stood before
      · exact ⟨[], ⟨transport, .store offset size value⟩, past, old, rfl, nofun, ⟨named, here⟩, ready, stood, now⟩
  · rw [if_neg ready]
    exact stays

theorem Lawful.write (lawful : Lawful past transport) {offset value : UInt64} {size : Nat} {register : Register}
    (named : written? offset size = some register) :
    Lawful (⟨transport, .store offset size value⟩ :: past) (transport.write value.toUInt32 register) := by
  have stays : ∀ next : Transport δ, register ≠ .status → Lawful past next →
      Lawful (⟨transport, .store offset size value⟩ :: past) next :=
    fun next apart kept => kept.later (store_quiet fun status => apart (Option.some.inj (named.symm.trans status)))
  have moves : ∀ change : VirtQueue → VirtQueue, (∀ queue : VirtQueue, (change queue).setting = queue.setting) →
      Lawful past (transport.changeQueue change) :=
    fun change same => lawful.changeQueue fun queue sane => sane.same (same queue)
  cases register with
  | status =>
    by_cases zero : value.toUInt32 = 0
    · change Lawful _ (transport.writeStatus value.toUInt32)
      unfold Transport.writeStatus
      rw [if_pos zero]
      exact .reset _ transport
    · exact (lawful.writeStatus value.toUInt32).later ⟨fun resets => zero resets.2, id⟩
  | queueNotify => exact lawful.notify named
  | driverFeatures => exact stays _ nofun (lawful.writeFeatures _)
  | queueNum => exact stays _ nofun (lawful.changeQueue fun queue sane => sane.setNum _)
  | queueReady => exact stays _ nofun (lawful.changeQueue fun queue sane => sane.setReady _)
  | queueDescLow => exact stays _ nofun (moves (·.setDescriptors value.toUInt32 false) fun _ => rfl)
  | queueDescHigh => exact stays _ nofun (moves (·.setDescriptors value.toUInt32 true) fun _ => rfl)
  | queueAvailLow => exact stays _ nofun (moves (·.setAvail value.toUInt32 false) fun _ => rfl)
  | queueAvailHigh => exact stays _ nofun (moves (·.setAvail value.toUInt32 true) fun _ => rfl)
  | queueUsedLow => exact stays _ nofun (moves (·.setUsed value.toUInt32 false) fun _ => rfl)
  | queueUsedHigh => exact stays _ nofun (moves (·.setUsed value.toUInt32 true) fun _ => rfl)
  | _ => exact stays _ nofun ⟨lawful.negotiated, lawful.sane, lawful.announced⟩

theorem store_written (transport : Transport δ) (offset : UInt64) (size : Nat) (value : UInt64) :
    (transport.store offset size value).2.1 =
      match written? offset size with
      | some register => transport.write value.toUInt32 register
      | none => transport := by
  unfold Transport.store written?
  split
  · rfl
  split
  · cases Register.ofOffset? offset <;> rfl
  · rfl

theorem Lawful.store (lawful : Lawful past transport) (offset : UInt64) (size : Nat) (value : UInt64) :
    Lawful (⟨transport, .store offset size value⟩ :: past) (transport.store offset size value).2.1 := by
  rw [store_written]
  cases named : written? offset size with
  | none => exact lawful.later (store_quiet (by rw [named]; nofun))
  | some register => exact lawful.write named

end Registers

variable [Processor δ] {line : Line} {past : List (Event δ)} {transport : Transport δ}

theorem clear_lawful (lawful : Lawful past transport) :
    (Service.clearNotified transport).Negotiated ∧ ∀ slot ∈ (Service.clearNotified transport).slots, slot.queue.Sane := by
  refine ⟨lawful.negotiated, fun slot member => ?_⟩
  obtain ⟨old, stood, rfl⟩ := Array.mem_map.mp member
  exact lawful.sane old stood

theorem clear_silent {other : Transport δ} (agrees : Agrees (Service.clearNotified transport) other) {index : Nat} {slot : Slot}
    (present : other.slots[index]? = some slot) : slot.notified = false := by
  have same := agrees.slots index
  rw [present, Service.clearNotified, Array.getElem?_map] at same
  obtain ⟨cleared, made, setting⟩ := Option.map_eq_some_iff.mp same.symm
  obtain ⟨old, _, rfl⟩ := Option.map_eq_some_iff.mp made
  exact (congrArg Prod.snd setting).symm

theorem Lawful.step [Settled δ] (lawful : Lawful past transport) {bus after : Bus} {next : Transport δ}
    (done : stepOnBus line transport bus = some (next, after)) : Lawful (⟨transport, .step bus⟩ :: past) next := by
  unfold stepOnBus at done
  by_cases idle : (Service.notified transport).isEmpty = true
  · rw [if_pos idle] at done
    cases done
    refine ⟨lawful.negotiated, lawful.sane, fun index slot present notified => ?_⟩
    have member : index ∈ Service.notified transport := mem_notified.mpr ⟨slot.queue, by rw [present, ← notified]⟩
    rw [List.isEmpty_iff.mp idle] at member
    cases member
  · rw [if_neg idle] at done
    obtain ⟨⟨served, bus⟩, stepped, same⟩ := Option.bind_eq_some_iff.mp done
    cases same
    have agrees := Service.step_agrees stepped
    obtain ⟨negotiated, sane⟩ := clear_lawful lawful
    refine ⟨negotiated_of_agrees negotiated agrees, sane_of_agrees sane agrees, fun index slot present notified => ?_⟩
    exact absurd ((clear_silent agrees present).symm.trans notified) Bool.false_ne_true

theorem History.lawful [Settled δ] (history : History line past transport) : Lawful past transport := by
  induction history with
  | made backend =>
    have fresh : ∀ slot ∈ (ofBackend backend).slots, slot = {} :=
      fun slot member => Array.eq_of_mem_replicate member
    refine ⟨negotiated_of_zero rfl, ?_, ?_⟩
    · intro slot member
      rw [fresh slot member]
      exact VirtQueue.sane_new
    · intro index slot present notified
      rw [fresh slot (Array.mem_of_getElem? present)] at notified
      cases notified
  | loaded before offset size ih => exact ih.later ⟨id, id⟩
  | stored before offset size value ih => exact ih.store offset size value
  | stepped before done ih => exact ih.step done
  | reset before => exact .reset _ _

/-- Whatever is read and written, whatever memory the steps find and however far the last of them has come: what is
agreed on was offered, ready queues have sizes, and the device is given nothing but requests of queues that were
announced. -/
theorem negotiation_kept [Settled δ] (history : History line past transport) :
    transport.Negotiated ∧ (∀ slot ∈ transport.slots, slot.queue.ready = true → slot.queue.Sized) ∧
      ∀ bus queues service, Service.Reaches transport bus queues service →
        service.transport.Negotiated ∧ (∀ slot ∈ service.transport.slots, slot.queue.ready = true → slot.queue.Sized) ∧
          ∀ index rest, queues = index :: rest →
            (∀ chain, Service.Hands service index chain →
              Announced past index ∧ ∃ slot, service.transport.slots[index]? = some slot ∧ slot.queue.ready = true) ∧
            ((service.round index).2.transport.backend = service.transport.backend ∨
              ∃ chain bus, Service.Hands service index chain ∧ (service.round index).2.transport.backend =
                (left (Processor.process index chain ⟨service.transport.backend, bus⟩)).backend) := by
  have lawful := history.lawful
  refine ⟨lawful.negotiated, fun slot member ready => (lawful.sane slot member).sized ready, ?_⟩
  intro bus queues service reaches
  have agrees := reaches.agrees
  obtain ⟨negotiated, sane⟩ := clear_lawful lawful
  refine ⟨negotiated_of_agrees negotiated agrees,
    fun slot member ready => (sane_of_agrees sane agrees slot member).sized ready, ?_⟩
  rintro index rest rfl
  refine ⟨?_, Service.round_backend service index⟩
  rintro chain ⟨slot, head, ring, after, present, popped, _⟩
  obtain ⟨queue, stood⟩ := mem_notified.mp (reaches.notified index List.mem_cons_self)
  exact ⟨lawful.announced index _ stood rfl, slot, present, popAvail_ready popped⟩

def stored (writes : List (UInt64 × UInt64)) (start : List (Event δ) × Transport δ) :
    List (Event δ) × Transport δ :=
  writes.foldl (fun (past, transport) (offset, value) =>
    (⟨transport, .store offset 2 value⟩ :: past, (transport.store offset 2 value).2.1)) start

theorem stored_history (writes : List (UInt64 × UInt64)) {start : List (Event δ) × Transport δ}
    (history : History line start.1 start.2) : History line (stored writes start).1 (stored writes start).2 := by
  induction writes generalizing start with
  | nil => exact history
  | cons write rest ih =>
    have next : History line (⟨start.2, .store write.1 2 write.2⟩ :: start.1) (start.2.store write.1 2 write.2).2.1 :=
      history.stored write.1 2 write.2
    exact ih next

def asking : List (Event Echo) × Transport Echo :=
  stored [(0x70, 0x3), (0x24, 0x1), (0x20, 0x1), (0x70, 0xb), (0x38, 0x1), (0x90, 0x10), (0x44, 0x1), (0x70, 0xf), (0x50, 0x0)]
    ([], ofBackend Echo.mk)

def askingMemory : Bus :=
  { windows := #[⟨0, 32, 0⟩]
    devices := #[.ram ⟨⟨#[0x18, 0, 0, 0, 0, 0, 0, 0, 4, 0, 0, 0, 2, 0, 0, 0, 0, 0, 1, 0, 0, 0, 0, 0, 0, 0, 0, 0, 0, 0, 0, 0]⟩⟩] }

def askingService : Service Echo :=
  ⟨Service.clearNotified asking.2, askingMemory, false⟩

theorem asking_reaches : Service.Reaches asking.2 askingMemory [0] askingService := by
  have waiting : Service.notified asking.2 = [0] := by decide +kernel
  rw [← waiting]
  exact .start

def askedQueue : VirtQueue :=
  { num := 1, ready := true, avail := 0x10 }

def takenRequest : Ring :=
  left (popAvail ⟨askedQueue, askingMemory⟩)

theorem asking_hands : ∃ chain, Service.Hands askingService 0 chain := by
  have present : askingService.transport.slots[0]? = some ⟨askedQueue, false⟩ := by decide +kernel
  have popped : value? (popAvail ⟨askedQueue, askingMemory⟩) = some (some 0) := by decide +kernel
  have read : value? (readChain takenRequest.queue 0 takenRequest.bus) = some ⟨0, [⟨0x18, 4, 2, 0⟩]⟩ := by decide +kernel
  exact ⟨_, ⟨askedQueue, false⟩, 0, takenRequest, _, present, value_ok popped, value_ok read⟩

theorem negotiation_kept_asking :
    History 1 asking.1 asking.2 ∧ asking.2.has featuresOk = true ∧ asking.2.driverFeatures = featureVersion1 ∧
      asking.2.Negotiated ∧ (∃ chain, Service.Hands askingService 0 chain) ∧ Announced asking.1 0 := by
  have history : History 1 asking.1 asking.2 := stored_history _ (.made Echo.mk)
  obtain ⟨negotiated, _, given⟩ := negotiation_kept history
  obtain ⟨chain, hands⟩ := asking_hands
  have announced := ((given askingMemory [0] askingService asking_reaches).2.2 0 [] rfl).1 chain hands
  exact ⟨history, by decide +kernel, by decide +kernel, negotiated, ⟨chain, hands⟩, announced.1⟩

end Transport

end RvBoard.Virtio
