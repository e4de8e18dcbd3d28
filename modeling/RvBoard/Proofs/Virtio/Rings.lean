import RvBoard.Proofs.Cells
import RvBoard.Virtio.Dma

/-!
# Rings in memory

Where the fields of the two rings of a queue are mapped, taking a request reads two words of the
available ring, and reporting one writes three words of the used ring.
-/

set_option autoImplicit false

namespace RvBoard.Virtio

-- A field at an offset from the start of a ring.
structure Field (bus : Bus) (base offset : UInt64) (size : Nat) : Prop where
  fits : base.toNat + offset.toNat < UInt64.size
  mapped : bus.Mapped (base + offset) size

namespace VirtQueue

def headAddress (queue : VirtQueue) (i : UInt16) : UInt64 :=
  queue.avail + (4 + slotOf i queue.num * 2)

def elementAddress (queue : VirtQueue) (i : UInt16) : UInt64 :=
  queue.used + (4 + slotOf i queue.num * 8)

-- Every field of the two rings lies in memory at an aligned address.
structure Mapped (queue : VirtQueue) (bus : Bus) : Prop where
  flags : bus.Mapped queue.avail 1
  index : Field bus queue.avail 2 1
  heads : ∀ i, Field bus queue.avail (4 + slotOf i queue.num * 2) 1
  counter : Field bus queue.used 2 1
  ids : ∀ i, Field bus queue.used (4 + slotOf i queue.num * 8) 2
  lengths : ∀ i, Field bus (queue.elementAddress i) 4 2

theorem Mapped.moved {queue : VirtQueue} {bus : Bus} (mapped : queue.Mapped bus) (lastAvail usedIndex : UInt16) :
    Mapped { queue with lastAvail := lastAvail, usedIndex := usedIndex } bus :=
  ⟨mapped.flags, mapped.index, mapped.heads, mapped.counter, mapped.ids, mapped.lengths⟩

-- The queue when that many requests have been taken and reported.
def advanced (queue : VirtQueue) (n : Nat) : VirtQueue :=
  { queue with lastAvail := queue.lastAvail + UInt16.ofNat n, usedIndex := queue.usedIndex + UInt16.ofNat n }

-- What is written to report a request as done.
def report (queue : VirtQueue) (head : UInt16) (length : UInt32) : BusM Unit := do
  Bus.store (queue.elementAddress queue.usedIndex) 2 head.toUInt64
  Bus.store (queue.elementAddress queue.usedIndex + 4) 2 length.toUInt64
  Bus.store (queue.used + 2) 1 (queue.usedIndex + 1).toUInt64

end VirtQueue

inductive UsedField where
  | counter
  | id (slot : UInt64)
  | length (slot : UInt64)
deriving DecidableEq

inductive UsedArea (queue : VirtQueue) : UsedField → Bus.Area → Prop
  | counter : UsedArea queue .counter ⟨queue.used + 2, 2⟩
  | id (i : UInt16) : UsedArea queue (.id (slotOf i queue.num)) ⟨queue.elementAddress i, 4⟩
  | length (i : UInt16) : UsedArea queue (.length (slotOf i queue.num)) ⟨queue.elementAddress i + 4, 4⟩

-- The fields that the next report writes.
def VirtQueue.reported (queue : VirtQueue) : List UsedField :=
  [.id (slotOf queue.usedIndex queue.num), .length (slotOf queue.usedIndex queue.num), .counter]

def UsedCells (bus : Bus) (queue : VirtQueue) (fields : UsedField → Prop) (cell : Bus.Cell) : Prop :=
  ∃ field area, fields field ∧ UsedArea queue field area ∧ bus.Covers area cell

section Taking

variable {queue : VirtQueue} {bus : Bus}

theorem ringAddress_of_fits {base offset : UInt64} (fits : base.toNat + offset.toNat < UInt64.size) :
    ringAddress base offset = .ok (base + offset) := by
  unfold ringAddress checkedAdd
  rw [if_pos fits]

theorem liftExcept_ok {σ α : Type} {value : Except QueueError α} {given : α} (ok : value = .ok given) (state : σ) :
    liftExcept value state = .ok given state := by
  rw [ok]
  rfl

theorem load16_shows {address value : UInt64} (shows : bus.Shows address 1 value) :
    load16 address ⟨queue, bus⟩ = .ok value.toUInt16 ⟨queue, bus⟩ := by
  have loaded : onBus address (Bus.load address 1) bus = .ok value bus := by
    unfold onBus
    rw [shows.load]
  have half : (do return (← onBus address (Bus.load address 1)).toUInt16 : EStateM QueueError Bus UInt16) bus =
      .ok value.toUInt16 bus :=
    (bind_of_ok loaded).trans rfl
  unfold load16 onRing
  dsimp only
  rw [half]

theorem popAvail_not_ready (waiting : queue.ready = false) : popAvail ⟨queue, bus⟩ = .error .notReady ⟨queue, bus⟩ := by
  unfold popAvail
  rw [bind_of_ok (get_run _), waiting]
  rfl

theorem popAvail_empty (ready : queue.ready = true) (fits : queue.avail.toNat + (2 : UInt64).toNat < UInt64.size)
    {available : UInt64} (shows : bus.Shows (queue.avail + 2) 1 available) (caughtUp : available.toUInt16 = queue.lastAvail) :
    popAvail ⟨queue, bus⟩ = .ok none ⟨queue, bus⟩ := by
  have served : ¬ (!queue.ready) = true := by simp [ready]
  unfold popAvail
  rw [bind_of_ok (get_run _)]
  dsimp only
  rw [if_neg served, bind_of_ok (liftExcept_ok (ringAddress_of_fits fits) _), bind_of_ok (load16_shows shows), if_pos caughtUp]
  rfl

theorem popAvail_next (ready : queue.ready = true) (fits : queue.avail.toNat + (2 : UInt64).toNat < UInt64.size)
    {available : UInt64} (shows : bus.Shows (queue.avail + 2) 1 available) (waiting : available.toUInt16 ≠ queue.lastAvail)
    (slotFits : queue.avail.toNat + (4 + slotOf queue.lastAvail queue.num * 2).toNat < UInt64.size) {head : UInt64}
    (offered : bus.Shows (queue.headAddress queue.lastAvail) 1 head) :
    popAvail ⟨queue, bus⟩ = .ok (some head.toUInt16) ⟨{ queue with lastAvail := queue.lastAvail + 1 }, bus⟩ := by
  have served : ¬ (!queue.ready) = true := by simp [ready]
  unfold VirtQueue.headAddress at offered
  unfold popAvail
  rw [bind_of_ok (get_run _)]
  dsimp only
  rw [if_neg served, bind_of_ok (liftExcept_ok (ringAddress_of_fits fits) _), bind_of_ok (load16_shows shows),
    if_neg waiting, bind_of_ok (liftExcept_ok (ringAddress_of_fits slotFits) _), bind_of_ok (load16_shows offered),
    bind_of_ok (modify_run _ _)]
  rfl

theorem suppressed_shows {flags : UInt64} (shows : bus.Shows queue.avail 1 flags) :
    suppressed queue bus = .ok (flags.toUInt16 &&& 1 != 0) bus := by
  have loaded : (do return (← Bus.load queue.avail 1).toUInt16 &&& 1 != 0 : BusM Bool) bus =
      .ok (flags.toUInt16 &&& 1 != 0) bus :=
    (bind_of_ok shows.load).trans rfl
  unfold suppressed
  change EStateM.tryCatch _ _ bus = _
  unfold EStateM.tryCatch
  rw [loaded]

end Taking

section Reporting

variable {queue : VirtQueue} {bus : Bus}

theorem onBus_ok {α : Type} (address : UInt64) {operation : BusM α} {value : α} {next : Bus}
    (done : operation bus = .ok value next) : onBus address operation bus = .ok value next := by
  unfold onBus
  rw [done]

theorem onRing_ok {α : Type} {operation : EStateM QueueError Bus α} {value : α} {next : Bus}
    (done : operation bus = .ok value next) : onRing operation ⟨queue, bus⟩ = .ok value ⟨queue, next⟩ := by
  unfold onRing
  dsimp only
  rw [done]

theorem pushUsed_report {other : Bus} (mapped : queue.Mapped other) {head : UInt16} {length : UInt32} {next : Bus}
    (reported : queue.report head length bus = .ok () next) :
    pushUsed head length ⟨queue, bus⟩ = .ok () ⟨{ queue with usedIndex := queue.usedIndex + 1 }, next⟩ := by
  obtain ⟨_, first, named, rest⟩ := bind_ok.mp reported
  obtain ⟨_, second, measured, counted⟩ := bind_ok.mp rest
  have element : (do
      Bus.store (queue.elementAddress queue.usedIndex) 2 head.toUInt64
      Bus.store (queue.elementAddress queue.usedIndex + 4) 2 length.toUInt64 : BusM Unit) bus = .ok () second :=
    (bind_of_ok named).trans measured
  have place : ringAddress queue.used (4 + slotOf queue.usedIndex queue.num * 8) = .ok (queue.elementAddress queue.usedIndex) :=
    ringAddress_of_fits (mapped.ids queue.usedIndex).fits
  unfold pushUsed
  rw [bind_of_ok (get_run _), bind_of_ok (liftExcept_ok place _),
    bind_of_ok (liftExcept_ok (ringAddress_of_fits (mapped.lengths queue.usedIndex).fits) _),
    bind_of_ok (onRing_ok (onBus_ok _ element))]
  dsimp only
  rw [bind_of_ok (modify_run _ _), bind_of_ok (liftExcept_ok (ringAddress_of_fits mapped.counter.fits) _)]
  exact onRing_ok (onBus_ok _ counted)

def Separate (bus : Bus) (queue : VirtQueue) : Prop :=
  ∀ f g a b, UsedArea queue f a → UsedArea queue g b → f ≠ g → bus.Apart a b

theorem toNat_half (value : UInt16) : value.toUInt64.toNat < 2 ^ (8 * byteCount 1) := by
  rw [UInt16.toNat_toUInt64]
  exact value.toNat_lt

theorem toNat_word (value : UInt32) : value.toUInt64.toNat < 2 ^ (8 * byteCount 2) := by
  rw [UInt32.toNat_toUInt64]
  exact value.toNat_lt

theorem toNat_half_word (value : UInt16) : value.toUInt64.toNat < 2 ^ (8 * byteCount 2) :=
  Nat.lt_trans (toNat_half value) (by decide)

theorem report_mapped (mapped : queue.Mapped bus) (head : UInt16) (length : UInt32) :
    ∃ next, queue.report head length bus = .ok () next ∧ Bus.Confined (UsedCells bus queue (· ∈ queue.reported)) bus next ∧
      (Separate bus queue →
        next.Shows (queue.elementAddress queue.usedIndex) 2 head.toUInt64 ∧
        next.Shows (queue.elementAddress queue.usedIndex + 4) 2 length.toUInt64 ∧
        next.Shows (queue.used + 2) 1 (queue.usedIndex + 1).toUInt64) := by
  have idHere : UsedArea queue (.id (slotOf queue.usedIndex queue.num)) ⟨queue.elementAddress queue.usedIndex, 4⟩ := .id _
  have lengthHere : UsedArea queue (.length (slotOf queue.usedIndex queue.num))
    ⟨queue.elementAddress queue.usedIndex + 4, 4⟩ := .length _
  obtain ⟨first, named, showsId, changedId⟩ := (mapped.ids queue.usedIndex).mapped.store (toNat_half_word head)
  obtain ⟨second, measured, showsLength, changedLength⟩ :=
    ((mapped.lengths queue.usedIndex).mapped.confined changedId).store (toNat_word length)
  obtain ⟨third, counted, showsCounter, changedCounter⟩ :=
    ((mapped.counter.mapped.confined changedId).confined changedLength).store (toNat_half (queue.usedIndex + 1))
  have lengthCells : ∀ cell, first.Covers ⟨queue.elementAddress queue.usedIndex + 4, 4⟩ cell →
      bus.Covers ⟨queue.elementAddress queue.usedIndex + 4, 4⟩ cell := fun _ => changedId.covers
  have counterCells : ∀ cell, second.Covers ⟨queue.used + 2, 2⟩ cell → bus.Covers ⟨queue.used + 2, 2⟩ cell :=
    fun _ covered => changedId.covers (changedLength.covers covered)
  refine ⟨third, (bind_of_ok named).trans ((bind_of_ok measured).trans counted), ?_, ?_⟩
  · refine (changedId.mono ?_).trans ((changedLength.mono ?_).trans (changedCounter.mono ?_))
    · intro cell covered
      exact ⟨_, _, List.mem_cons_self, idHere, covered⟩
    · intro cell covered
      exact ⟨_, _, List.mem_cons_of_mem _ List.mem_cons_self, lengthHere, lengthCells cell covered⟩
    · intro cell covered
      exact ⟨_, _, by simp [VirtQueue.reported], .counter, counterCells cell covered⟩
  · intro separate
    have idLength := separate _ _ _ _ idHere lengthHere (by simp)
    have idCounter := separate _ _ _ _ idHere .counter (by simp)
    have lengthCounter := separate _ _ _ _ lengthHere .counter (by simp)
    refine ⟨?_, ?_, showsCounter⟩
    · refine (showsId.confined changedLength ?_).confined changedCounter ?_
      · intro cell covered touched
        exact idLength cell (changedId.covers covered) (lengthCells cell touched)
      · intro cell covered touched
        exact idCounter cell (changedId.covers (changedLength.covers covered)) (counterCells cell touched)
    · refine showsLength.confined changedCounter ?_
      intro cell covered touched
      exact lengthCounter cell (changedId.covers (changedLength.covers covered)) (counterCells cell touched)

end Reporting

end RvBoard.Virtio
