import RvBoard.Proofs.Virtio.Termination

/-!
# What a driver has set

Serving requests changes nothing that the driver and the device have agreed on: the features, and
the size of every queue, whether it is ready and whether it was announced.
-/

set_option autoImplicit false

namespace RvBoard.Virtio

-- A device that offers the same features whatever it is asked for.
class Settled (δ : Type) [Processor δ] : Prop where
  process (index : Nat) (chain : Chain) (dma : Dma δ) :
    Backend.features (left (Processor.process index chain dma)).backend = Backend.features dma.backend

section Devices

variable {features : UInt64}

theorem dmaBus_features {δ α : Type} [Backend δ] (operation : BusM α) :
    Keeps (fun dma : Dma δ => Backend.features dma.backend = features) (DmaM.onBus operation) := by
  rintro ⟨backend, bus⟩ start
  unfold DmaM.onBus
  dsimp only
  cases operation bus <;> exact start

namespace Block

theorem writeSectors_features (sector : UInt64) (bytes : ByteArray) (block : Block) :
    Block.features (writeSectors sector bytes block).2 = Block.features block := by
  obtain ⟨store⟩ := block
  unfold writeSectors
  dsimp only
  split
  · rfl
  split
  · rfl
  unfold BlockStore.write
  cases store.writeError? (sector.toNat * sectorSize) bytes.size with
  | some error => rfl
  | none =>
    dsimp only [BlockStore.put]
    split <;> rfl

theorem perform_features (chain : Chain) (sector : UInt64) (n : Nat) (type : Option RequestType) :
    Keeps (fun dma : Dma Block => Backend.features dma.backend = features) (perform chain sector n type) := by
  have backend : Keeps (fun dma : Dma Block => Backend.features dma.backend = features) backend :=
    keeps_bind keeps_get fun _ => keeps_pure _
  have answers : ∀ bytes, Keeps (fun dma : Dma Block => Backend.features dma.backend = features) (answer chain bytes) :=
    fun bytes => keeps_bind (dmaBus_features _) fun _ => keeps_pure _
  cases type with
  | none => exact keeps_pure _
  | some type =>
    cases type with
    | input =>
      refine keeps_bind backend fun block => ?_
      cases block.readSectors sector n with
      | none => exact keeps_pure _
      | some bytes => exact answers bytes
    | output =>
      refine keeps_bind backend fun block => keeps_ite ?_ (keeps_pure _)
      refine keeps_bind (dmaBus_features _) fun request => keeps_bind ?_ fun _ => keeps_pure _
      exact fun dma start => (writeSectors_features sector _ dma.backend).trans start
    | flush =>
      refine keeps_bind backend fun block => ?_
      cases block.store.flush <;> exact keeps_pure _
    | getId => exact answers _

theorem process_features (chain : Chain) :
    Keeps (fun dma : Dma Block => Backend.features dma.backend = features) (process chain) := by
  refine keeps_ite (keeps_pure 0) (keeps_ite (dmaBus_features _) ?_)
  refine keeps_bind (dmaBus_features _) fun header => ?_
  refine keeps_bind (perform_features chain _ _ _) fun done => ?_
  exact keeps_bind (dmaBus_features _) fun _ => keeps_pure _

end Block

instance : Settled Block :=
  ⟨fun _ chain dma => Block.process_features chain dma rfl⟩

instance : Settled Share :=
  ⟨fun _ _ _ => rfl⟩

instance : Settled Echo :=
  ⟨fun _ _ _ => rfl⟩

end Devices

namespace VirtQueue

def setting (queue : VirtQueue) : UInt32 × Bool :=
  (queue.num, queue.ready)

-- The queue has a size with which slots can be counted.
def Sized (queue : VirtQueue) : Prop :=
  ∃ k ≤ 8, queue.num.toNat = 2 ^ k

structure Sane (queue : VirtQueue) : Prop where
  size : queue.num = 0 ∨ queue.Sized
  ready : queue.ready = true → queue.num ≠ 0

theorem Sane.sized {queue : VirtQueue} (sane : queue.Sane) (ready : queue.ready = true) : queue.Sized :=
  sane.size.resolve_left (sane.ready ready)

theorem Sane.same {queue other : VirtQueue} (sane : queue.Sane) (same : other.setting = queue.setting) : other.Sane := by
  obtain ⟨num, ready⟩ := Prod.ext_iff.mp same
  change other.num = queue.num at num
  change other.ready = queue.ready at ready
  refine ⟨?_, ?_⟩
  · unfold Sized
    rw [num]
    exact sane.size
  · rw [num, ready]
    exact sane.ready

theorem sane_new : ({} : VirtQueue).Sane :=
  ⟨.inl rfl, nofun⟩

theorem powerOfTwo_sized {num : UInt32} (power : isPowerOfTwo num = true) (small : num ≤ maxQueueSize) :
    ∃ k ≤ 8, num.toNat = 2 ^ k := by
  have every : ∀ n : Fin 257, isPowerOfTwo (UInt32.ofNat n) = true → ∃ k : Fin 9, n.val = 2 ^ k.val := by decide +kernel
  have inside : num.toNat < 257 := by
    have bound := UInt32.le_iff_toNat_le.mp small
    have limit : maxQueueSize.toNat = 256 := rfl
    omega
  obtain ⟨k, same⟩ := every ⟨num.toNat, inside⟩ (by simpa using power)
  exact ⟨k.val, by omega, same⟩

theorem Sane.setNum {queue : VirtQueue} (sane : queue.Sane) (num : UInt32) : (queue.setNum num).Sane := by
  unfold VirtQueue.setNum
  by_cases good : (isPowerOfTwo num && num ≤ maxQueueSize) = true
  · rw [if_pos good]
    obtain ⟨power, small⟩ := Bool.and_eq_true_iff.mp good
    have sized := powerOfTwo_sized power (of_decide_eq_true small)
    refine ⟨.inr sized, fun _ none => ?_⟩
    obtain ⟨k, _, same⟩ := sized
    have positive := Nat.two_pow_pos k
    change num = 0 at none
    rw [none] at same
    exact absurd same positive.ne
  · rw [if_neg good]
    exact sane

theorem Sane.setReady {queue : VirtQueue} (sane : queue.Sane) (ready : Bool) : (queue.setReady ready).Sane := by
  refine ⟨sane.size, fun set => ?_⟩
  exact bne_iff_ne.mp (Bool.and_eq_true_iff.mp set).2

end VirtQueue

section Rings

variable {setting : UInt32 × Bool}

theorem popAvail_setting : Keeps (fun ring => ring.queue.setting = setting) popAvail := by
  let Holds : VirtQueue → Prop := fun queue => queue.setting = setting
  have kept : ∀ {α : Type} (operation : EStateM QueueError Bus α), Keeps (fun ring => Holds ring.queue) (onRing operation) :=
    fun operation => onRing_queue operation
  have loads : ∀ address, Keeps (fun ring => Holds ring.queue) (load16 address) := fun _ => kept _
  refine keeps_bind keeps_get (fun ring => keeps_ite (keeps_throw _) ?_)
  refine keeps_bind (liftExcept_keeps _) (fun indexAddress => ?_)
  refine keeps_bind (loads indexAddress) (fun available => keeps_ite (keeps_pure none) ?_)
  refine keeps_bind (liftExcept_keeps _) (fun headAddress => ?_)
  refine keeps_bind (loads headAddress) (fun head => ?_)
  exact keeps_bind (keeps_modify (fun _ start => start)) (fun _ => keeps_pure _)

theorem pushUsed_setting (head : UInt16) (length : UInt32) :
    Keeps (fun ring => ring.queue.setting = setting) (pushUsed head length) := by
  let Holds : VirtQueue → Prop := fun queue => queue.setting = setting
  have kept : ∀ {α : Type} (operation : EStateM QueueError Bus α), Keeps (fun ring => Holds ring.queue) (onRing operation) :=
    fun operation => onRing_queue operation
  refine keeps_bind keeps_get (fun ring => ?_)
  refine keeps_bind (liftExcept_keeps _) (fun element => ?_)
  refine keeps_bind (liftExcept_keeps _) (fun lengthAddress => ?_)
  refine keeps_bind (kept _) (fun _ => ?_)
  refine keeps_bind (keeps_modify (fun _ start => start)) (fun _ => ?_)
  exact keeps_bind (liftExcept_keeps _) (fun address => kept _)

theorem popAvail_ready {queue : VirtQueue} {bus : Bus} {head : Option UInt16} {after : Ring}
    (ok : popAvail ⟨queue, bus⟩ = .ok head after) : queue.ready = true := by
  cases ready : queue.ready with
  | true => rfl
  | false =>
    rw [popAvail_not_ready ready] at ok
    cases ok

end Rings

def Slot.setting (slot : Slot) : (UInt32 × Bool) × Bool :=
  (slot.queue.setting, slot.notified)

-- Two transports agree on all that the driver has negotiated.
structure Agrees {δ : Type} [Backend δ] (a b : Transport δ) : Prop where
  driverFeatures : b.driverFeatures = a.driverFeatures
  featuresOk : b.has featuresOk = a.has featuresOk
  offered : b.offered = a.offered
  slots : ∀ index : Nat, (b.slots[index]?).map Slot.setting = (a.slots[index]?).map Slot.setting

theorem Agrees.refl {δ : Type} [Backend δ] (a : Transport δ) : Agrees a a :=
  ⟨rfl, rfl, rfl, fun _ => rfl⟩

theorem Agrees.trans {δ : Type} [Backend δ] {a b c : Transport δ} (first : Agrees a b) (second : Agrees b c) : Agrees a c where
  driverFeatures := second.driverFeatures.trans first.driverFeatures
  featuresOk := second.featuresOk.trans first.featuresOk
  offered := second.offered.trans first.offered
  slots index := (second.slots index).trans (first.slots index)

namespace Service

variable {δ : Type}

theorem setQueue_agrees [Backend δ] {service : Service δ} {index : Nat} {slot : Slot} {queue : VirtQueue}
    (present : service.transport.slots[index]? = some slot) (same : queue.setting = slot.queue.setting) :
    Agrees service.transport (service.setQueue index queue).transport where
  driverFeatures := rfl
  featuresOk := rfl
  offered := rfl
  slots other := by
    rw [setQueue_slots]
    by_cases here : index = other
    · subst here
      rw [if_pos rfl, present]
      exact congrArg some (Prod.ext same rfl)
    · rw [if_neg here]

theorem status_or_and (a b mask : UInt32) (apart : b &&& mask = 0) : (a ||| b) &&& mask = a &&& mask := by
  have both : (a ||| b) &&& mask = (a &&& mask) ||| (b &&& mask) := by
    apply UInt32.eq_of_toBitVec_eq
    ext i
    simp [Bool.and_or_distrib_right]
  rw [both, apart, UInt32.or_zero]

theorem setStatus_agrees [Backend δ] (service : Service δ) : Agrees service.transport (service.setStatus needsReset).transport where
  driverFeatures := rfl
  featuresOk := congrArg (· != 0) (status_or_and service.transport.status needsReset featuresOk rfl)
  offered := rfl
  slots _ := rfl

theorem onRing_agrees [Backend δ] {α : Type} {service : Service δ} {index : Nat} {slot : Slot} {queue : VirtQueue}
    {operation : RingM α} (present : service.transport.slots[index]? = some slot) (same : queue.setting = slot.queue.setting)
    (kept : Keeps (fun ring => ring.queue.setting = slot.queue.setting) operation) :
    Agrees service.transport (service.onRing index queue operation).2.transport := by
  obtain ⟨result, done⟩ := onRing_cases service index queue operation
  rw [done]
  let served : Service δ := { service with bus := (left (operation ⟨queue, service.bus⟩)).bus }
  have agrees : Agrees served.transport (served.setQueue index (left (operation ⟨queue, service.bus⟩)).queue).transport :=
    setQueue_agrees present (kept ⟨queue, service.bus⟩ same)
  exact agrees

theorem finish_agrees [Backend δ] {service : Service δ} {index : Nat} {slot : Slot} {queue : VirtQueue} (head : UInt16)
    (length : UInt32) (present : service.transport.slots[index]? = some slot) (same : queue.setting = slot.queue.setting) :
    Agrees service.transport (service.finish index queue head length).2.transport := by
  have pushed := onRing_agrees present same (pushUsed_setting head length)
  unfold finish
  generalize service.onRing index queue (pushUsed head length) = outcome at pushed
  obtain ⟨result, after⟩ := outcome
  cases result with
  | error error => exact pushed.trans (setStatus_agrees after)
  | ok done =>
    obtain ⟨transport, bus, raise⟩ := after
    dsimp only
    cases suppressed queue bus <;> exact pushed

variable [Processor δ]

-- In the next round of the queue the device is given this request.
def Hands (service : Service δ) (index : Nat) (chain : Chain) : Prop :=
  ∃ slot head ring bus, service.transport.slots[index]? = some slot ∧
    popAvail ⟨slot.queue, service.bus⟩ = .ok (some head) ring ∧ readChain ring.queue head ring.bus = .ok chain bus

theorem handle_agrees [Settled δ] (service : Service δ) (index : Nat) (queue : VirtQueue) (head : UInt16) :
    Agrees service.transport (service.handle index queue head).2.transport := by
  obtain ⟨transport, bus, raise⟩ := service
  unfold handle
  dsimp only
  cases readChain queue head bus with
  | error error bus => exact .refl transport
  | ok chain bus =>
    have same := Settled.process index chain (⟨transport.backend, bus⟩ : Dma δ)
    dsimp only
    cases outcome : Processor.process index chain (⟨transport.backend, bus⟩ : Dma δ) with
    | ok length dma =>
      rw [outcome] at same
      exact ⟨rfl, rfl, congrArg (· ||| featureVersion1) same, fun _ => rfl⟩
    | error fault dma =>
      rw [outcome] at same
      exact ⟨rfl, rfl, congrArg (· ||| featureVersion1) same, fun _ => rfl⟩

theorem round_agrees [Settled δ] (service : Service δ) (index : Nat) :
    Agrees service.transport (service.round index).2.transport := by
  unfold round
  cases present : service.transport.slots[index]? with
  | none => exact .refl _
  | some slot =>
    have keeps : Keeps (fun ring => ring.queue.setting = slot.queue.setting) popAvail := popAvail_setting
    have popped := onRing_agrees present rfl keeps
    obtain ⟨result, done⟩ := onRing_cases service index slot.queue popAvail
    dsimp only
    rw [done] at popped ⊢
    cases result with
    | error error => exact popped.trans (setStatus_agrees _)
    | ok head =>
      cases head with
      | none => exact popped
      | some head =>
        let taken : VirtQueue := { slot.queue with lastAvail := slot.queue.lastAvail + 1 }
        have handled := handle_agrees (setQueue { service with bus := (left (popAvail ⟨slot.queue, service.bus⟩)).bus } index
          (left (popAvail ⟨slot.queue, service.bus⟩)).queue) index taken head
        have stands := (popped.trans handled).slots index
        rw [present] at stands
        obtain ⟨other, still, same⟩ := Option.map_eq_some_iff.mp stands
        have kept : taken.setting = other.queue.setting := (congrArg Prod.fst same).symm
        exact (popped.trans handled).trans (finish_agrees head _ still kept)

theorem handle_backend (service : Service δ) (index : Nat) (queue : VirtQueue) (head : UInt16) :
    (service.handle index queue head).2.transport.backend = service.transport.backend ∨
      ∃ chain bus, readChain queue head service.bus = .ok chain bus ∧ (service.handle index queue head).2.transport.backend =
        (left (Processor.process index chain ⟨service.transport.backend, bus⟩)).backend := by
  obtain ⟨transport, bus, raise⟩ := service
  unfold handle
  dsimp only
  cases readChain queue head bus with
  | error error bus => exact .inl rfl
  | ok chain bus =>
    refine .inr ⟨chain, bus, rfl, ?_⟩
    dsimp only
    cases Processor.process index chain (⟨transport.backend, bus⟩ : Dma δ) <;> rfl

omit [Processor δ] in
theorem finish_backend (service : Service δ) (index : Nat) (queue : VirtQueue) (head : UInt16) (length : UInt32) :
    (service.finish index queue head length).2.transport.backend = service.transport.backend := by
  obtain ⟨result, reported⟩ := onRing_cases service index queue (pushUsed head length)
  unfold finish
  rw [reported]
  cases result with
  | error error => rfl
  | ok done =>
    dsimp only [setQueue]
    cases suppressed queue (left (pushUsed head length ⟨queue, service.bus⟩)).bus <;> rfl

theorem round_backend (service : Service δ) (index : Nat) :
    (service.round index).2.transport.backend = service.transport.backend ∨
      ∃ chain bus, Hands service index chain ∧ (service.round index).2.transport.backend =
        (left (Processor.process index chain ⟨service.transport.backend, bus⟩)).backend := by
  unfold round
  cases present : service.transport.slots[index]? with
  | none => exact .inl rfl
  | some slot =>
    dsimp only
    cases popped : popAvail ⟨slot.queue, service.bus⟩ with
    | error error ring =>
      rw [onRing_error popped]
      exact .inl rfl
    | ok head ring =>
      rw [onRing_ok popped]
      cases head with
      | none => exact .inl rfl
      | some head =>
        obtain ⟨queue, bus⟩ := ring
        have taken : queue = { slot.queue with lastAvail := slot.queue.lastAvail + 1 } := (popAvail_given popped).2
        dsimp only
        rw [finish_backend, ← taken]
        rcases handle_backend (setQueue { service with bus := bus } index queue) index queue head with same | given
        · exact .inl same
        · obtain ⟨chain, after, read, changed⟩ := given
          exact .inr ⟨chain, after, ⟨slot, head, _, after, present, popped, read⟩, changed⟩

-- How far a step has come: the queues that are still to be served, the one being served first, and what it has made
-- of the device and the bus. A step that never ends gets somewhere as well.
inductive Reaches (transport : Transport δ) (bus : Bus) : List Nat → Service δ → Prop
  | start : Reaches transport bus (notified transport) ⟨clearNotified transport, bus, false⟩
  | continues {index : Nat} {rest : List Nat} {service next : Service δ} (before : Reaches transport bus (index :: rest) service)
      (more : service.round index = (true, next)) : Reaches transport bus (index :: rest) next
  | served {index : Nat} {rest : List Nat} {service next : Service δ} (before : Reaches transport bus (index :: rest) service)
      (last : service.round index = (false, next)) : Reaches transport bus rest next

variable {transport next : Transport δ} {bus after : Bus}

theorem Reaches.agrees [Settled δ] {queues : List Nat} {service : Service δ} (reaches : Reaches transport bus queues service) :
    Agrees (clearNotified transport) service.transport := by
  induction reaches with
  | start => exact .refl _
  | @continues index rest service next before more ih => exact ih.trans (by simpa only [more] using round_agrees service index)
  | @served index rest service next before last ih => exact ih.trans (by simpa only [last] using round_agrees service index)

theorem Reaches.notified {queues : List Nat} {service : Service δ} (reaches : Reaches transport bus queues service) :
    ∀ index ∈ queues, index ∈ notified transport := by
  induction reaches with
  | start => exact fun _ member => member
  | continues before more ih => exact ih
  | served before last ih => exact fun index member => ih index (List.mem_cons_of_mem _ member)

theorem Reaches.rounds {index : Nat} {rest : List Nat} {service final : Service δ}
    (before : Reaches transport bus (index :: rest) service) (done : rounds index service = some final) :
    Reaches transport bus rest final := by
  refine rounds.partial_correctness index
    (fun service final => Reaches transport bus (index :: rest) service → Reaches transport bus rest final) ?_ service final
    done before
  intro rounds ih service final done before
  cases outcome : service.round index with
  | mk more next =>
    rw [outcome] at done
    cases more with
    | true => exact ih next final done (before.continues outcome)
    | false =>
      cases done
      exact before.served outcome

theorem Reaches.turns {queues : List Nat} {service final : Service δ} (before : Reaches transport bus queues service)
    (done : turns queues service = some final) : Reaches transport bus [] final := by
  induction queues generalizing service with
  | nil =>
    cases done
    exact before
  | cons index rest ih =>
    rw [turns_cons] at done
    obtain ⟨middle, first, last⟩ := Option.bind_eq_some_iff.mp done
    exact ih (before.rounds first) last

theorem step_agrees [Settled δ] (done : step transport bus = some (next, after)) : Agrees (clearNotified transport) next := by
  unfold step at done
  obtain ⟨service, all, same⟩ := Option.bind_eq_some_iff.mp done
  have agrees := (Reaches.start.turns all).agrees
  obtain ⟨served, bus, raise⟩ := service
  unfold interrupting at same
  cases raise <;> cases same
  · exact agrees
  · exact ⟨agrees.driverFeatures, agrees.featuresOk, agrees.offered, agrees.slots⟩

end Service

end RvBoard.Virtio
