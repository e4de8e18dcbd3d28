import RvBoard.Proofs.Virtio.Completion

/-!
# Steps that never end

A step of a virtio device ends unless the rounds of one queue go on for ever, and that happens only
while the index of the available ring, which every round reads again, keeps being written over. A
driver can bring this about: where its two rings lie on each other, every report moves the index.
-/

set_option autoImplicit false

namespace RvBoard.Virtio

section Rings

variable {queue : VirtQueue} {bus : Bus}

theorem liftExcept_given {σ α : Type} {value : Except QueueError α} {given : α} {before after : σ}
    (ok : liftExcept value before = .ok given after) : value = .ok given ∧ after = before := by
  cases value with
  | ok value =>
    cases ok
    exact ⟨rfl, rfl⟩
  | error error => cases ok

theorem ringAddress_eq {base offset address : UInt64} (ok : ringAddress base offset = .ok address) :
    address = base + offset := by
  unfold ringAddress checkedAdd at ok
  split at ok
  · rename_i fits
    split at fits
    · cases fits
      cases ok
      rfl
    · cases fits
  · cases ok

theorem load16_given {address : UInt64} {value : UInt16} {after : Ring} (ok : load16 address ⟨queue, bus⟩ = .ok value after) :
    value = half bus address ∧ ∃ next, after = ⟨queue, next⟩ := by
  unfold load16 onRing at ok
  dsimp only at ok
  cases loaded : Bus.load address 1 bus with
  | ok word next =>
    have bound : onBus address (Bus.load address 1) bus = .ok word next := onBus_ok address loaded
    rw [bind_of_ok bound] at ok
    cases ok
    refine ⟨?_, next, rfl⟩
    unfold half
    rw [loaded]
    rfl
  | error fault next =>
    have bound : onBus address (Bus.load address 1) bus = .error (.memory address) next := by
      unfold onBus
      rw [loaded]
    rw [bind_of_error bound] at ok
    cases ok

theorem popAvail_given {head : UInt16} {after : Ring} (ok : popAvail ⟨queue, bus⟩ = .ok (some head) after) :
    half bus (queue.avail + 2) ≠ queue.lastAvail ∧ after.queue = { queue with lastAvail := queue.lastAvail + 1 } := by
  unfold popAvail at ok
  rw [bind_of_ok (get_run _)] at ok
  dsimp only at ok
  by_cases waiting : (!queue.ready) = true
  · rw [if_pos waiting] at ok
    cases ok
  rw [if_neg waiting] at ok
  obtain ⟨address, _, placed, ok⟩ := bind_ok.mp ok
  obtain ⟨place, rfl⟩ := liftExcept_given placed
  cases ringAddress_eq place
  obtain ⟨available, _, read, ok⟩ := bind_ok.mp ok
  obtain ⟨rfl, second, rfl⟩ := load16_given read
  by_cases caughtUp : half bus (queue.avail + 2) = queue.lastAvail
  · rw [if_pos caughtUp] at ok
    cases ok
  rw [if_neg caughtUp] at ok
  obtain ⟨slot, _, placed, ok⟩ := bind_ok.mp ok
  obtain ⟨_, rfl⟩ := liftExcept_given placed
  obtain ⟨offered, _, read, ok⟩ := bind_ok.mp ok
  obtain ⟨_, third, rfl⟩ := load16_given read
  rw [bind_of_ok (modify_run _ _)] at ok
  cases ok
  exact ⟨caughtUp, rfl⟩

theorem onRing_queue {α : Type} {Holds : VirtQueue → Prop} (operation : EStateM QueueError Bus α) :
    Keeps (fun ring => Holds ring.queue) (onRing operation) := by
  rintro ⟨queue, bus⟩ start
  unfold onRing
  dsimp only
  cases operation bus <;> exact start

theorem pushUsed_queue (head : UInt16) (length : UInt32) (avail : UInt64) (lastAvail : UInt16) :
    Keeps (fun ring => ring.queue.avail = avail ∧ ring.queue.lastAvail = lastAvail) (pushUsed head length) := by
  let Holds : VirtQueue → Prop := fun queue => queue.avail = avail ∧ queue.lastAvail = lastAvail
  have kept : ∀ {α : Type} (operation : EStateM QueueError Bus α), Keeps (fun ring => Holds ring.queue) (onRing operation) :=
    fun operation => onRing_queue operation
  refine keeps_bind keeps_get (fun ring => ?_)
  refine keeps_bind (liftExcept_keeps _) (fun element => ?_)
  refine keeps_bind (liftExcept_keeps _) (fun lengthAddress => ?_)
  refine keeps_bind (kept _) (fun _ => ?_)
  refine keeps_bind (keeps_modify (fun _ start => start)) (fun _ => ?_)
  exact keeps_bind (liftExcept_keeps _) (fun address => kept _)

end Rings

namespace Service

variable {δ : Type}

-- The index of the available ring that a round of the queue reads.
def offered (service : Service δ) (index : Nat) : UInt16 :=
  match service.transport.slots[index]? with
  | some slot => half service.bus (slot.queue.avail + 2)
  | none => 0

def followed (service : Service δ) (index : Nat) : UInt16 :=
  match service.transport.slots[index]? with
  | some slot => slot.queue.lastAvail
  | none => 0

theorem onRing_cases {α : Type} (service : Service δ) (index : Nat) (queue : VirtQueue) (operation : RingM α) :
    ∃ result, service.onRing index queue operation =
      (result, setQueue { service with bus := (left (operation ⟨queue, service.bus⟩)).bus } index
        (left (operation ⟨queue, service.bus⟩)).queue) := by
  cases done : operation ⟨queue, service.bus⟩ with
  | ok value ring => exact ⟨_, onRing_ok done⟩
  | error error ring => exact ⟨_, onRing_error done⟩

theorem finish_followed {service : Service δ} {index : Nat} {slot : Slot} (present : service.transport.slots[index]? = some slot)
    (queue : VirtQueue) (head : UInt16) (length : UInt32) :
    (service.finish index queue head length).2.followed index = queue.lastAvail := by
  have kept := (pushUsed_queue head length queue.avail queue.lastAvail ⟨queue, service.bus⟩ ⟨rfl, rfl⟩).2
  obtain ⟨result, reported⟩ := onRing_cases service index queue (pushUsed head length)
  generalize left (pushUsed head length ⟨queue, service.bus⟩) = ring at kept reported
  have slots := setQueue_slots { service with bus := ring.bus } index ring.queue index
  rw [if_pos rfl, present] at slots
  have stands : ∀ {other : Service δ},
      other.transport.slots = (setQueue { service with bus := ring.bus } index ring.queue).transport.slots →
      other.followed index = queue.lastAvail := by
    intro other same
    unfold followed
    rw [same, slots]
    exact kept
  unfold finish
  rw [reported]
  cases result with
  | error error => exact stands rfl
  | ok done =>
    refine stands ?_
    generalize setQueue { service with bus := ring.bus } index ring.queue = pushed
    obtain ⟨transport, bus, raise⟩ := pushed
    dsimp only
    cases suppressed queue bus <;> rfl

section Rounds

variable [Processor δ]

theorem handle_slots (service : Service δ) (index : Nat) (queue : VirtQueue) (head : UInt16) :
    (service.handle index queue head).2.transport.slots = service.transport.slots := by
  obtain ⟨transport, bus, raise⟩ := service
  unfold handle
  dsimp only
  cases readChain queue head bus with
  | error error next => rfl
  | ok chain next =>
    dsimp only
    cases Processor.process index chain (⟨transport.backend, next⟩ : Dma δ) <;> rfl

theorem round_continues {service : Service δ} {index : Nat} (continues : (service.round index).1 = true) :
    service.offered index ≠ service.followed index ∧
      (service.round index).2.followed index = service.followed index + 1 := by
  unfold round at continues ⊢
  cases present : service.transport.slots[index]? with
  | none =>
    rw [present] at continues
    cases continues
  | some slot =>
    rw [present] at continues
    dsimp only at continues ⊢
    have offers : service.offered index = half service.bus (slot.queue.avail + 2) := by
      unfold offered
      rw [present]
    have follows : service.followed index = slot.queue.lastAvail := by
      unfold followed
      rw [present]
    rw [offers, follows]
    cases popped : popAvail ⟨slot.queue, service.bus⟩ with
    | error error ring =>
      rw [onRing_error popped] at continues
      cases continues
    | ok head ring =>
      rw [onRing_ok popped] at continues ⊢
      cases head with
      | none => cases continues
      | some head =>
        have slots := setQueue_slots { service with bus := ring.bus } index ring.queue index
        rw [if_pos rfl, present] at slots
        refine ⟨(popAvail_given popped).1, ?_⟩
        have handled := handle_slots (setQueue { service with bus := ring.bus } index ring.queue) index
          { slot.queue with lastAvail := slot.queue.lastAvail + 1 } head
        rw [← handled] at slots
        exact finish_followed slots _ head _

theorem rounds_continue {index : Nat} {service : Service δ} (continues : (service.round index).1 = true) :
    rounds index service = rounds index (service.round index).2 := by
  rw [rounds]
  generalize service.round index = outcome at continues
  obtain ⟨more, next⟩ := outcome
  cases continues
  rfl

theorem rounds_stop {index : Nat} {service : Service δ} (stops : (service.round index).1 = false) :
    rounds index service = some (service.round index).2 := by
  rw [rounds]
  generalize service.round index = outcome at stops
  obtain ⟨more, next⟩ := outcome
  cases stops
  rfl

-- The service after that many rounds of a queue.
def afterRounds (index : Nat) : Nat → Service δ → Service δ
  | 0, service => service
  | n + 1, service => afterRounds index n (service.round index).2

theorem afterRounds_succ (index n : Nat) (service : Service δ) :
    afterRounds index (n + 1) service = ((afterRounds index n service).round index).2 := by
  induction n generalizing service with
  | zero => rfl
  | succ n ih => exact ih (service.round index).2

def Endless (index : Nat) (service : Service δ) : Prop :=
  ∀ n, ((afterRounds index n service).round index).1 = true

theorem Endless.next {index : Nat} {service : Service δ} (endless : Endless index service) :
    Endless index (service.round index).2 :=
  fun n => endless (n + 1)

theorem rounds_none_iff (index : Nat) (service : Service δ) : rounds index service = none ↔ Endless index service := by
  constructor
  · intro stuck n
    induction n generalizing service with
    | zero =>
      cases more : (service.round index).1 with
      | true => exact more
      | false => cases stuck.symm.trans (rounds_stop more)
    | succ n ih =>
      refine ih (service.round index).2 ?_
      cases more : (service.round index).1 with
      | true => exact (rounds_continue more).symm.trans stuck
      | false => cases stuck.symm.trans (rounds_stop more)
  · intro endless
    cases done : rounds index service with
    | none => rfl
    | some final =>
      have never := rounds.partial_correctness index (fun service _ => ¬ Endless index service) ?_ service final done
      · exact absurd endless never
      · intro rounds ih service final done endless
        have first := endless 0
        have later := endless.next
        change (service.round index).1 = true at first
        generalize service.round index = outcome at done first later
        obtain ⟨more, next⟩ := outcome
        cases first
        exact ih next final done later

theorem Endless.rewritten {index : Nat} {service : Service δ} (endless : Endless index service) (n : Nat) :
    ∃ k < 65536, (afterRounds index (n + k) service).offered index ≠ (afterRounds index (n + k + 1) service).offered index := by
  refine Classical.byContradiction fun still => ?_
  have constant : ∀ k < 65536, (afterRounds index (n + k) service).offered index =
      (afterRounds index (n + k + 1) service).offered index :=
    fun k inside => Decidable.byContradiction fun changed => still ⟨k, inside, changed⟩
  have offers : ∀ k ≤ 65536, (afterRounds index (n + k) service).offered index = (afterRounds index n service).offered index := by
    intro k inside
    induction k with
    | zero => rfl
    | succ k ih => exact (constant k (by omega)).symm.trans (ih (by omega))
  have follows : ∀ k, (afterRounds index (n + k) service).followed index =
      (afterRounds index n service).followed index + UInt16.ofNat k := by
    intro k
    induction k with
    | zero => simp
    | succ k ih =>
      rw [← Nat.add_assoc, afterRounds_succ, (round_continues (endless (n + k))).2, ih]
      simp [UInt16.add_assoc]
  let k := ((afterRounds index n service).offered index - (afterRounds index n service).followed index).toNat
  have inside : k < 65536 := UInt16.toNat_lt _
  have ahead := (round_continues (endless (n + k))).1
  rw [offers k (by omega), follows k, UInt16.ofNat_toNat] at ahead
  exact ahead (by grind)

theorem turns_none_iff (queues : List Nat) (service : Service δ) :
    turns queues service = none ↔
      ∃ served index waiting middle, queues = served ++ index :: waiting ∧ turns served service = some middle ∧
        rounds index middle = none := by
  induction queues generalizing service with
  | nil =>
    constructor
    · intro stuck
      cases stuck
    · rintro ⟨served, index, waiting, middle, order, _⟩
      cases served <;> cases order
  | cons first rest ih =>
    rw [turns_cons]
    cases turn : rounds first service with
    | none =>
      constructor
      · intro _
        exact ⟨[], first, rest, service, rfl, rfl, turn⟩
      · intro _
        rfl
    | some next =>
      refine (ih next).trans ?_
      constructor
      · rintro ⟨served, index, waiting, middle, order, reached, stuck⟩
        refine ⟨first :: served, index, waiting, middle, congrArg (first :: ·) order, ?_, stuck⟩
        rw [turns_cons, turn]
        exact reached
      · rintro ⟨served, index, waiting, middle, order, reached, stuck⟩
        cases served with
        | nil =>
          cases order
          cases reached
          cases turn.symm.trans stuck
        | cons other served =>
          cases order
          rw [turns_cons, turn] at reached
          exact ⟨served, index, waiting, middle, rfl, reached, stuck⟩

end Rounds

end Service

theorem stepOnBus_none {δ : Type} [Processor δ] (line : Line) (transport : Transport δ) (bus : Bus) :
    stepOnBus line transport bus = none ↔
      Service.turns (Service.notified transport) ⟨Service.clearNotified transport, bus, false⟩ = none := by
  unfold stepOnBus Service.step
  cases notified : Service.notified transport with
  | nil =>
    constructor <;>
    · intro stuck
      cases stuck
  | cons index rest =>
    change ((Service.turns (index :: rest) _ >>= fun service => some service.interrupting) >>= _) = none ↔ _
    cases Service.turns (index :: rest) ⟨Service.clearNotified transport, bus, false⟩ with
    | none => exact ⟨fun _ => rfl, fun _ => rfl⟩
    | some service =>
      constructor <;>
      · intro stuck
        cases stuck

-- A step fails to end exactly when some queue is reached whose rounds go on for ever, and then the
-- index that they read changes again and again.
theorem stepOnBus_none_iff {δ : Type} [Processor δ] (line : Line) (transport : Transport δ) (bus : Bus) :
    stepOnBus line transport bus = none ↔
      ∃ served index waiting service, Service.notified transport = served ++ index :: waiting ∧
        Service.turns served ⟨Service.clearNotified transport, bus, false⟩ = some service ∧
        ∀ n, ((Service.afterRounds index n service).round index).1 = true ∧
          ∃ k < 65536, (Service.afterRounds index (n + k) service).offered index ≠
            (Service.afterRounds index (n + k + 1) service).offered index := by
  rw [stepOnBus_none, Service.turns_none_iff]
  constructor
  · rintro ⟨served, index, waiting, service, order, reached, stuck⟩
    have endless := (Service.rounds_none_iff index service).mp stuck
    exact ⟨served, index, waiting, service, order, reached, fun n => ⟨endless n, endless.rewritten n⟩⟩
  · rintro ⟨served, index, waiting, service, order, reached, goes⟩
    exact ⟨served, index, waiting, service, order, reached, (Service.rounds_none_iff index service).mpr fun n => (goes n).1⟩

section Overlap

variable {δ : Type} [Processor δ] {service : Service δ} {index : Nat} {queue : VirtQueue} {head : UInt16}

theorem readChain_outside {bus : Bus} (outside : queue.num.toNat ≤ head.toNat) :
    readChain queue head bus = resultAt (.error (.indexOutOfRange head queue.num)) bus := by
  have stopped : ∀ left, followTable followIndirect queue.descriptors queue.num left head bus =
      .error (.indexOutOfRange head queue.num) bus := by
    intro left
    cases left <;>
    · unfold followTable
      rw [if_pos outside]
      rfl
  exact bind_of_error (stopped _)

structure Chasing (service : Service δ) (index : Nat) (queue : VirtQueue) (head : UInt16) : Prop where
  slot : ∃ notified, service.transport.slots[index]? = some ⟨queue, notified⟩
  ready : queue.ready = true
  single : queue.num = 1
  overlap : queue.used = queue.avail
  mapped : queue.Mapped service.bus
  separate : Separate service.bus queue
  malformed : head ≠ 0
  offered : service.bus.Shows (queue.avail + 4) 1 head.toUInt64
  index : ∃ available, service.bus.Shows (queue.avail + 2) 1 available ∧ available.toUInt16 ≠ queue.lastAvail
  apart : queue.usedIndex ≠ queue.lastAvail

theorem slotOf_single (i : UInt16) : slotOf i 1 = 0 := by
  have one : (1 : UInt32).toNat = 1 := rfl
  unfold slotOf
  rw [one, Nat.mod_one]
  rfl

theorem Chasing.round (chasing : Chasing service index queue head) :
    ∃ next, service.round index = (true, next) ∧ Chasing next index (queue.advanced 1) head := by
  obtain ⟨notified, slot⟩ := chasing.slot
  obtain ⟨available, showsIndex, waiting⟩ := chasing.index
  have mapped := chasing.mapped
  have headPlace : ∀ i, queue.headAddress i = queue.avail + 4 := by
    intro i
    unfold VirtQueue.headAddress
    rw [chasing.single, slotOf_single]
    rfl
  have elementPlace : ∀ i, queue.elementAddress i = queue.avail + 4 := by
    intro i
    unfold VirtQueue.elementAddress
    rw [chasing.single, slotOf_single, chasing.overlap]
    rfl
  have offered : service.bus.Shows (queue.headAddress queue.lastAvail) 1 head.toUInt64 := by
    rw [headPlace]
    exact chasing.offered
  have takes := popAvail_next chasing.ready mapped.index.fits showsIndex waiting (mapped.heads queue.lastAvail).fits offered
  rw [UInt16.toUInt16_toUInt64] at takes
  have outside : queue.num.toNat ≤ head.toNat := by
    have one : (1 : UInt32).toNat = 1 := rfl
    have positive : head.toNat ≠ 0 := fun zero => chasing.malformed (UInt16.toNat_inj.mp zero)
    rw [chasing.single, one]
    omega
  obtain ⟨bus, reported, changed, shows⟩ := report_mapped mapped head 0
  obtain ⟨showsHead, _, showsCounter⟩ := shows chasing.separate
  have still : queue.Mapped bus := mapped.confined changed
  obtain ⟨flags, showsFlags⟩ := still.flags.shows
  obtain ⟨next, rounded, turned⟩ := Service.round_reports slot takes (readChain_outside outside) rfl mapped reported showsFlags
  have after : next.bus = bus := turned.bus
  have further : queue.usedIndex + 1 ≠ queue.lastAvail + 1 := fun same => chasing.apart (by grind)
  refine ⟨next, rounded, ⟨notified, ?_⟩, chasing.ready, chasing.single, chasing.overlap, ?_, ?_, chasing.malformed, ?_, ?_,
    further⟩
  · rw [turned.slots, if_pos rfl, slot]
    rfl
  · rw [after]
    exact still.moved _ _
  · rw [after]
    exact (chasing.separate.confined changed).advanced 1
  · have place := still.heads queue.lastAvail
    rw [chasing.single, slotOf_single] at place
    rw [elementPlace] at showsHead
    rw [after]
    exact showsHead.low place.mapped (by decide) (toNat_half head)
  · refine ⟨(queue.usedIndex + 1).toUInt64, ?_, ?_⟩
    · rw [chasing.overlap] at showsCounter
      rw [after]
      exact showsCounter
    · rw [UInt16.toUInt16_toUInt64]
      exact further

theorem Chasing.endless (chasing : Chasing service index queue head) : Service.Endless index service := by
  intro n
  induction n generalizing service queue with
  | zero =>
    obtain ⟨next, rounded, _⟩ := chasing.round
    exact congrArg Prod.fst rounded
  | succ n ih =>
    obtain ⟨next, rounded, further⟩ := chasing.round
    have later := ih further
    have same : (service.round index).2 = next := congrArg Prod.snd rounded
    rw [← same] at later
    exact later

end Overlap

def overlappingMemory : Ram :=
  ⟨Bytes.putWord (Bytes.putWord (Bytes.zeros 0x1000) 2 2 2) 4 2 0xffff⟩

def overlappingBus : Bus :=
  Bus.ofMemory 0x80000000 overlappingMemory

def overlappingQueue : VirtQueue :=
  { num := 1, ready := true, avail := 0x80000000, used := 0x80000000, lastAvail := 1 }

def overlappingTransport : Transport Block :=
  { backend := ⟨BlockStore.ofBytes .memory (Bytes.zeros 512) false⟩
    status := driverOk ||| needsReset
    slots := #[⟨overlappingQueue, true⟩] }

theorem overlapping_size : overlappingMemory.data.size = 0x1000 := by
  unfold overlappingMemory
  rw [Bytes.size_putWord, Bytes.size_putWord, Bytes.size_zeros]

theorem overlapping_inMemory {address : UInt64} {size : Nat} (small : size ≤ 3) (fair : aligned size address = true)
    (above : 0x80000000 ≤ address) (below : address.toNat + byteCount size ≤ 0x80001000) :
    Bus.InMemory overlappingBus address size ⟨0x80000000, UInt64.ofNat overlappingMemory.data.size, 0⟩ overlappingMemory := by
  refine Bus.ofMemory_inMemory ?_ small fair above ?_
  · rw [overlapping_size]
    decide
  · rw [overlapping_size]
    exact below

theorem overlapping_within : overlappingQueue.Within 0x80000000 overlappingMemory := by
  have size := overlapping_size
  refine ⟨?_, by decide, by decide, by decide, ?_, by decide, by decide, ?_⟩ <;>
  · rw [size]
    decide

theorem overlapping_head : Bytes.wordAt overlappingMemory.data 4 2 = 0xffff := by
  have fits : 4 + 2 ≤ (Bytes.putWord (Bytes.zeros 0x1000) 2 2 2).size := by
    rw [Bytes.size_putWord, Bytes.size_zeros]
    decide
  unfold overlappingMemory
  exact Bytes.wordAt_putWord_small _ _ _ _ fits (by decide)

theorem overlapping_index : Bytes.wordAt overlappingMemory.data 2 2 = 2 := by
  have fits : 4 + 2 ≤ (Bytes.putWord (Bytes.zeros 0x1000) 2 2 2).size := by
    rw [Bytes.size_putWord, Bytes.size_zeros]
    decide
  have room : 2 + 2 ≤ (Bytes.zeros 0x1000).size := by
    rw [Bytes.size_zeros]
    decide
  unfold overlappingMemory
  dsimp only
  rw [Bytes.wordAt_putWord_apart _ _ _ _ _ _ fits (by decide)]
  exact Bytes.wordAt_putWord_small _ _ _ _ room (by decide)

theorem overlapping_chasing :
    Chasing (⟨Service.clearNotified overlappingTransport, overlappingBus, false⟩ : Service Block) 0 overlappingQueue 0xffff := by
  have offered : overlappingBus.Shows 0x80000004 1 0xffff :=
    ⟨_, _, overlapping_inMemory (by decide) (by decide) (by decide) (by decide), overlapping_head⟩
  have index : overlappingBus.Shows 0x80000002 1 2 :=
    ⟨_, _, overlapping_inMemory (by decide) (by decide) (by decide) (by decide), overlapping_index⟩
  exact ⟨⟨false, clearNotified_slot rfl⟩, rfl, rfl, rfl, overlapping_within.mapped, overlapping_within.separate, by decide,
    offered, ⟨2, index, by decide⟩, by decide⟩

theorem stepOnBus_overlapping : stepOnBus 1 overlappingTransport overlappingBus = none := by
  have queues : Service.notified overlappingTransport = [0] := by decide
  have stuck := (Service.rounds_none_iff 0 _).mpr overlapping_chasing.endless
  rw [stepOnBus_none, queues, Service.turns_cons, stuck]
  rfl

end RvBoard.Virtio
