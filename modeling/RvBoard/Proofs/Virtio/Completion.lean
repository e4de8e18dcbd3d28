import Mathlib
import RvBoard.Board.DeviceStep
import RvBoard.Proofs.Board.Lines
import RvBoard.Proofs.Plic.Pins
import RvBoard.Proofs.Virtio.Layout
import RvBoard.Proofs.Virtio.Turns

/-!
# Completion of requests

One step of a virtio device serves every request that waits in a notified queue exactly once and in
ring order, provided that what it writes lies neither on what it consults nor on itself.
-/

set_option autoImplicit false

namespace RvBoard.Virtio

variable {δ : Type}

def queueRequests (transport : Transport δ) (bus : Bus) (index : Nat) : List Request :=
  match transport.slots[index]? with
  | some slot => slot.queue.pending index bus (slot.queue.due bus)
  | none => []

def queueCalls (transport : Transport δ) (bus : Bus) (index : Nat) : Bool :=
  match transport.slots[index]? with
  | some slot => slot.queue.due bus != 0 && !slot.queue.quiet bus
  | none => false

def requests (transport : Transport δ) (bus : Bus) : List Request :=
  (Service.notified transport).flatMap (queueRequests transport bus)

def calls (transport : Transport δ) (bus : Bus) : Bool :=
  (Service.notified transport).any (queueCalls transport bus)

-- What the device gives for each request, and how it leaves itself and memory.
def allServed [Processor δ] (transport : Transport δ) (bus : Bus) : List (Request × UInt32) × Dma δ :=
  serveAll (requests transport bus) ⟨transport.backend, bus⟩

-- None of the later requests takes the slot of this one in the used ring.
def VirtQueue.LastInSlot (queue : VirtQueue) (due k : Nat) : Prop :=
  ∀ l, k < l → l < due → slotOf (queue.advanced l).usedIndex queue.num ≠ slotOf (queue.advanced k).usedIndex queue.num

namespace Service

structure Emptied (base : Bus) (queues : List Nat) (service final : Service δ) (dma : Dma δ) (calls : Bool) : Prop where
  backend : final.transport.backend = dma.backend
  bus : final.bus = dma.bus
  raise : final.raise = (service.raise || calls)
  interruptStatus : final.transport.interruptStatus = service.transport.interruptStatus
  slots : ∀ other, final.transport.slots[other]? =
    if other ∈ queues then
      service.transport.slots[other]?.map fun slot => { slot with queue := slot.queue.advanced (slot.queue.due base) }
    else service.transport.slots[other]?

section Steps

variable [Processor δ] [Confining δ] {transport : Transport δ} {bus : Bus} (layout : Layout transport bus) {service : Service δ}

include layout

theorem rounds_notified {index : Nat} {queue : VirtQueue} (notified : transport.slots[index]? = some ⟨queue, true⟩)
    (confined : Bus.Confined (WrittenCell transport bus) bus service.bus)
    (slot : service.transport.slots[index]? = some ⟨queue, false⟩) :
    ∃ final, rounds index service = some final ∧ Bus.Confined (WrittenCell transport bus) bus final.bus ∧
      Turned service final index (queue.advanced (queue.due bus))
        (serveAll (queueRequests transport bus index) ⟨service.transport.backend, service.bus⟩).2
        (queueCalls transport bus index) := by
  unfold queueRequests queueCalls
  rw [notified]
  dsimp only
  cases ready : queue.ready with
  | false =>
    obtain ⟨final, stopped, turned⟩ := round_unready slot ready
    rw [VirtQueue.due_unready bus ready, VirtQueue.advanced_zero]
    refine ⟨final, ?_, ?_, turned⟩
    · rw [rounds, stopped]
    · rw [turned.bus]
      exact confined
  | true =>
    have awaits : Awaits transport index queue := ⟨notified, ready⟩
    exact rounds_turn (layout.sound awaits) (fun _ touched => .inl touched)
      (fun request waits => layout.clear awaits waits) confined slot ready (VirtQueue.due_ready bus ready).symm

theorem turns_all (queues : List Nat) (distinct : queues.Nodup)
    (notified : ∀ index ∈ queues, ∃ queue, transport.slots[index]? = some ⟨queue, true⟩ ∧
      service.transport.slots[index]? = some ⟨queue, false⟩)
    (confined : Bus.Confined (WrittenCell transport bus) bus service.bus) :
    ∃ final, turns queues service = some final ∧
      Emptied bus queues service final
        (serveAll (queues.flatMap (queueRequests transport bus)) ⟨service.transport.backend, service.bus⟩).2
        (queues.any (queueCalls transport bus)) := by
  induction queues generalizing service with
  | nil => exact ⟨service, rfl, rfl, rfl, (Bool.or_false _).symm, rfl, fun _ => rfl⟩
  | cons index rest ih =>
    obtain ⟨fresh, distinct⟩ := List.nodup_cons.mp distinct
    obtain ⟨queue, announced, slot⟩ := notified index List.mem_cons_self
    obtain ⟨next, first, within, turned⟩ := rounds_notified layout announced confined slot
    have others : ∀ other ∈ rest, next.transport.slots[other]? = service.transport.slots[other]? := by
      intro other member
      have different : index ≠ other := fun same => fresh (same ▸ member)
      rw [turned.slots, if_neg different]
    have waiting : ∀ other ∈ rest, ∃ queue, transport.slots[other]? = some ⟨queue, true⟩ ∧
        next.transport.slots[other]? = some ⟨queue, false⟩ := by
      intro other member
      rw [others other member]
      exact notified other (List.mem_cons_of_mem index member)
    obtain ⟨final, last, emptied⟩ := ih distinct waiting within
    refine ⟨final, ?_, ?_⟩
    · rw [turns_cons]
      exact Option.bind_eq_some_iff.mpr ⟨next, first, last⟩
    · have order := serveAll_append (queueRequests transport bus index) (rest.flatMap (queueRequests transport bus))
        ⟨service.transport.backend, service.bus⟩
      rw [turned.backend, turned.bus] at emptied
      rw [List.flatMap_cons, order, List.any_cons]
      refine ⟨emptied.backend, emptied.bus, ?_, emptied.interruptStatus.trans turned.interruptStatus, ?_⟩
      · rw [emptied.raise, turned.raise, Bool.or_assoc]
      · intro other
        rw [emptied.slots, turned.slots]
        by_cases here : index = other
        · subst here
          simp only [if_neg fresh, if_pos List.mem_cons_self, slot, Option.map_some, if_true]
        · have member : other ∈ index :: rest ↔ other ∈ rest := by
            rw [List.mem_cons]
            exact or_iff_right (fun same => here same.symm)
          simp only [if_neg here, member]

end Steps

end Service

theorem notified_nodup (transport : Transport δ) : (Service.notified transport).Nodup :=
  List.nodup_range.filter _

theorem mem_notified {transport : Transport δ} {index : Nat} :
    index ∈ Service.notified transport ↔ ∃ queue, transport.slots[index]? = some ⟨queue, true⟩ := by
  unfold Service.notified
  rw [List.mem_filter, List.mem_range]
  constructor
  · rintro ⟨_, announced⟩
    cases present : transport.slots[index]? with
    | none =>
      rw [present] at announced
      cases announced
    | some slot =>
      rw [present] at announced
      obtain ⟨queue, notified⟩ := slot
      cases (announced : notified = true)
      exact ⟨queue, rfl⟩
  · rintro ⟨queue, present⟩
    refine ⟨(Array.getElem?_eq_some_iff.mp present).1, ?_⟩
    rw [present]

theorem clearNotified_slot {transport : Transport δ} {index : Nat} {queue : VirtQueue}
    (slot : transport.slots[index]? = some ⟨queue, true⟩) :
    (Service.clearNotified transport).slots[index]? = some ⟨queue, false⟩ := by
  unfold Service.clearNotified
  rw [Array.getElem?_map, slot]
  rfl

theorem mem_queueRequests {transport : Transport δ} {bus : Bus} {index : Nat} {request : Request}
    (notified : index ∈ Service.notified transport) (waits : request ∈ queueRequests transport bus index) :
    ∃ queue, Awaits transport index queue ∧ request ∈ queue.pending index bus (queue.due bus) := by
  obtain ⟨queue, slot⟩ := mem_notified.mp notified
  unfold queueRequests at waits
  rw [slot] at waits
  refine ⟨queue, ⟨slot, ?_⟩, waits⟩
  cases ready : queue.ready with
  | true => rfl
  | false =>
    dsimp only at waits
    rw [VirtQueue.due_unready bus ready] at waits
    cases waits

theorem mem_requests {transport : Transport δ} {bus : Bus} {request : Request}
    (waits : request ∈ requests transport bus) :
    ∃ index queue, Awaits transport index queue ∧ request ∈ queue.pending index bus (queue.due bus) := by
  obtain ⟨index, notified, among⟩ := List.mem_flatMap.mp waits
  obtain ⟨queue, found⟩ := mem_queueRequests notified among
  exact ⟨index, queue, found⟩

theorem requests_split {transport : Transport δ} (bus : Bus) {index : Nat} {queue : VirtQueue}
    (awaits : Awaits transport index queue) :
    ∃ before after, requests transport bus = before ++ (queue.pending index bus (queue.due bus) ++ after) ∧
      ∀ request ∈ after, request.index ≠ index := by
  have notified := mem_notified.mpr ⟨queue, awaits.1⟩
  obtain ⟨first, rest, order⟩ := List.append_of_mem notified
  have distinct := notified_nodup transport
  rw [order, List.nodup_append] at distinct
  have fresh := (List.nodup_cons.mp distinct.2.1).1
  have mine : queueRequests transport bus index = queue.pending index bus (queue.due bus) := by
    unfold queueRequests
    rw [awaits.1]
  refine ⟨first.flatMap (queueRequests transport bus), rest.flatMap (queueRequests transport bus), ?_, ?_⟩
  · unfold requests
    rw [order, List.flatMap_append, List.flatMap_cons, mine]
  · intro request waits
    obtain ⟨other, member, among⟩ := List.mem_flatMap.mp waits
    have announced : other ∈ Service.notified transport := by
      rw [order]
      exact List.mem_append_right _ (List.mem_cons_of_mem _ member)
    obtain ⟨p, _, found⟩ := mem_queueRequests announced among
    rw [VirtQueue.pending_index found]
    exact fun same => fresh (same ▸ member)

section Words

variable {transport : Transport δ} {bus : Bus} (layout : Layout transport bus)

include layout

theorem Layout.all_sound : ∀ request ∈ requests transport bus, Sound bus (WrittenCell transport bus) request.queue := by
  intro request waits
  obtain ⟨index, queue, awaits, among⟩ := mem_requests waits
  obtain ⟨k, _, rfl⟩ := VirtQueue.mem_pending among
  exact (layout.sound awaits).advanced k

theorem Layout.all_clear : ∀ request ∈ requests transport bus,
    Clear bus (WrittenCell transport bus) (FilledCell transport bus) request := by
  intro request waits
  obtain ⟨index, queue, awaits, among⟩ := mem_requests waits
  exact layout.clear awaits among

theorem Layout.unfilled {index : Nat} {queue : VirtQueue} (awaits : Awaits transport index queue) {field : UsedField}
    {area : Bus.Area} (inRing : UsedArea queue field area) (cell : Bus.Cell) (covered : bus.Covers area cell) :
    ¬ FilledCell transport bus cell := by
  rintro ⟨filled, isFilled, touched⟩
  exact layout.usedFilled awaits inRing isFilled cell covered touched

variable [Processor δ] [Confining δ]

theorem Layout.field_stands {before later : List Request} {request : Request}
    (order : requests transport bus = before ++ request :: later) {index : Nat} {queue : VirtQueue}
    (awaits : Awaits transport index queue) {field : UsedField} {address value : UInt64} {size : Nat}
    (inRing : UsedArea queue field ⟨address, byteCount size⟩)
    (last : ∀ other ∈ later, other.index = index → field ∉ other.queue.reported)
    (written : ∀ after : Dma δ, Serves bus (FilledCell transport bus) request
      (serveAll before ⟨transport.backend, bus⟩).2 after (request.serve (serveAll before ⟨transport.backend, bus⟩).2).1 →
      after.bus.Shows address size value) :
    (allServed transport bus).2.bus.Shows address size value := by
  have sound := layout.all_sound
  have clear := layout.all_clear
  have inside : ∀ cell, FilledCell transport bus cell → WrittenCell transport bus cell := fun _ touched => .inl touched
  have confined : Bus.Confined (WrittenCell transport bus) bus (⟨transport.backend, bus⟩ : Dma δ).bus := .refl _ _
  rw [order] at sound clear
  have here : request ∈ before ++ request :: later := List.mem_append_right _ List.mem_cons_self
  have ahead : ∀ other ∈ later, other ∈ before ++ request :: later := fun other member =>
    List.mem_append_right _ (List.mem_cons_of_mem _ member)
  have earlier := serveAll_within (fun other member => sound other (List.mem_append_left _ member))
    (fun other member => clear other (List.mem_append_left _ member)) inside confined
  have serves := serve_serves (sound request here) (clear request here) inside earlier
  have within := serves.within (sound request here) inside earlier
  unfold allServed
  rw [order, (serveAll_entry before later request _).2]
  refine serveAll_shows (fun other member => sound other (ahead other member))
    (fun other member => clear other (ahead other member)) inside within (written _ serves)
    (layout.unfilled awaits inRing) ?_
  intro other member reported among area used
  have waits : other ∈ requests transport bus := by
    rw [order]
    exact ahead other member
  obtain ⟨j, q, awaited, pending⟩ := mem_requests waits
  obtain ⟨k, _, taken⟩ := VirtQueue.mem_pending pending
  have usedByOther : UsedArea q reported area := by
    rw [← taken] at used
    exact used.advanced
  refine layout.usedApart awaits awaited inRing usedByOther ?_
  rintro same
  obtain ⟨queues, fields⟩ := Prod.mk.inj same
  exact last other member ((VirtQueue.pending_index pending).trans queues.symm) (fields ▸ among)

theorem Layout.element_stands {index : Nat} {queue : VirtQueue} (awaits : Awaits transport index queue) {k : Nat}
    (inside : k < queue.due bus) :
    ∃ length, ((queue.advanced k).request index bus, length) ∈ (allServed transport bus).1 ∧
      (queue.LastInSlot (queue.due bus) k →
        (allServed transport bus).2.bus.Shows (queue.elementAddress (queue.advanced k).usedIndex) 2
          ((queue.advanced k).head bus).toUInt64 ∧
        (allServed transport bus).2.bus.Shows (queue.elementAddress (queue.advanced k).usedIndex + 4) 2
          length.toUInt64) := by
  obtain ⟨before, after, order, others⟩ := requests_split bus awaits
  rw [VirtQueue.pending_split queue index bus inside, List.append_assoc, List.cons_append, ← List.append_assoc] at order
  have entry := serveAll_entry (before ++ queue.pending index bus k)
    ((queue.advanced (k + 1)).pending index bus (queue.due bus - (k + 1)) ++ after) ((queue.advanced k).request index bus)
    (⟨transport.backend, bus⟩ : Dma δ)
  unfold allServed
  refine ⟨_, order ▸ entry.1, ?_⟩
  intro fresh
  have last : ∀ other ∈ (queue.advanced (k + 1)).pending index bus (queue.due bus - (k + 1)) ++ after,
      other.index = index → .id (slotOf (queue.advanced k).usedIndex queue.num) ∉ other.queue.reported ∧
        .length (slotOf (queue.advanced k).usedIndex queue.num) ∉ other.queue.reported := by
    intro other member mine
    rcases List.mem_append.mp member with later | elsewhere
    · obtain ⟨m, small, rfl⟩ := VirtQueue.mem_pending later
      rw [VirtQueue.advanced_add]
      have different : slotOf (queue.advanced (k + 1 + m)).usedIndex (queue.advanced (k + 1 + m)).num ≠ _ :=
        fresh (k + 1 + m) (by omega) (by omega)
      simp [VirtQueue.request, VirtQueue.reported, different.symm]
    · exact absurd mine (others other elsewhere)
  refine ⟨?_, ?_⟩
  · exact layout.field_stands order awaits (.id _) (fun other member mine => (last other member mine).1)
      (fun _ serves => serves.id)
  · exact layout.field_stands order awaits (.length _) (fun other member mine => (last other member mine).2)
      (fun _ serves => serves.length)

theorem Layout.counter_stands {index : Nat} {queue : VirtQueue} (awaits : Awaits transport index queue) {value : UInt64}
    (shows : bus.Shows (queue.used + 2) 1 value) :
    (allServed transport bus).2.bus.Shows (queue.used + 2) 1
      (if queue.due bus = 0 then value else (queue.advanced (queue.due bus)).usedIndex.toUInt64) := by
  obtain ⟨before, after, order, others⟩ := requests_split bus awaits
  cases count : queue.due bus with
  | zero =>
    have none : ∀ {other j q}, Awaits transport j q → other ∈ q.pending j bus (q.due bus) → j ≠ index := by
      rintro other j q awaited waits rfl
      cases Option.some_inj.mp (awaited.1.symm.trans awaits.1)
      rw [count] at waits
      cases waits
    rw [if_pos rfl]
    unfold allServed
    refine serveAll_shows layout.all_sound layout.all_clear (fun _ touched => .inl touched) (.refl _ _) shows
      (layout.unfilled awaits .counter) ?_
    intro other member reported among area used
    obtain ⟨j, q, awaited, waits⟩ := mem_requests member
    obtain ⟨k, _, rfl⟩ := VirtQueue.mem_pending waits
    refine layout.usedApart awaits awaited .counter (UsedArea.advanced used) ?_
    exact fun same => none awaited waits (Prod.mk.inj same).1.symm
  | succ n =>
    rw [count, VirtQueue.pending_split queue index bus (Nat.lt_succ_self n), Nat.sub_self, List.append_assoc,
      List.cons_append, ← List.append_assoc] at order
    rw [if_neg (Nat.succ_ne_zero n)]
    refine layout.field_stands order awaits .counter (fun other member mine => absurd mine (others other member)) ?_
    intro served serves
    have next : (queue.advanced (n + 1)).usedIndex = (queue.advanced n).usedIndex + 1 := by
      simp [VirtQueue.advanced, UInt16.add_assoc]
    rw [next]
    exact serves.counter

end Words

-- What a step comes to: with the requests found in memory before the step, each has been handed to the
-- device and reported, the first ones first.
structure Completed [Processor δ] (line : Line) (transport : Transport δ) (bus : Bus) (next : Transport δ) (after : Bus) :
    Prop where
  logged : (allServed transport bus).1.map Prod.fst = requests transport bus
  backend : next.backend = (allServed transport bus).2.backend
  memory : after = (allServed transport bus).2.bus.mapWires
    (fun wires => wires.drive line (next.interruptStatus != 0))
  popped : ∀ {index queue}, Awaits transport index queue →
    next.slots[index]? = some ⟨queue.advanced (queue.due bus), false⟩
  -- The element of a request shows its head and the device's result, unless a later request took its slot.
  appended : ∀ {index queue}, Awaits transport index queue → ∀ k < queue.due bus,
    ∃ length, ((queue.advanced k).request index bus, length) ∈ (allServed transport bus).1 ∧
      (queue.LastInSlot (queue.due bus) k →
        after.Shows (queue.elementAddress (queue.advanced k).usedIndex) 2 ((queue.advanced k).head bus).toUInt64 ∧
        after.Shows (queue.elementAddress (queue.advanced k).usedIndex + 4) 2 length.toUInt64)
  counted : ∀ {index queue}, Awaits transport index queue → ∀ {value}, bus.Shows (queue.used + 2) 1 value →
    after.Shows (queue.used + 2) 1
      (if queue.due bus = 0 then value else (queue.advanced (queue.due bus)).usedIndex.toUInt64)
  interruptStatus : next.interruptStatus =
    if calls transport bus then transport.interruptStatus ||| usedBuffer else transport.interruptStatus
  level : after.wires.signals.plic.level.get line = (next.interruptStatus != 0)
  -- A line that told of the device before is raised if a request was reported that calls for it, and else left alone.
  raised : ∀ [Marked δ], bus.Unshared → bus.Tells → ¬ bus.Drives line → bus.wires.level line = transport.interrupt →
    after = if next.interruptStatus = transport.interruptStatus then (allServed transport bus).2.bus
      else (allServed transport bus).2.bus.mapWires fun wires => wires.drive line true

theorem Service.step_completes [Processor δ] [Confining δ] {transport : Transport δ} {bus : Bus}
    (layout : Layout transport bus) :
    ∃ next : Transport δ, step transport bus = some (next, (allServed transport bus).2.bus) ∧
      next.backend = (allServed transport bus).2.backend ∧
      next.interruptStatus =
        (if calls transport bus then transport.interruptStatus ||| usedBuffer else transport.interruptStatus) ∧
      ∀ {index queue}, Awaits transport index queue →
        next.slots[index]? = some ⟨queue.advanced (queue.due bus), false⟩ := by
  let start : Service δ := ⟨clearNotified transport, bus, false⟩
  have slots : ∀ index ∈ notified transport, ∃ queue, transport.slots[index]? = some ⟨queue, true⟩ ∧
      start.transport.slots[index]? = some ⟨queue, false⟩ := by
    intro index member
    obtain ⟨queue, slot⟩ := mem_notified.mp member
    exact ⟨queue, slot, clearNotified_slot slot⟩
  have confined : Bus.Confined (WrittenCell transport bus) bus start.bus := .refl _ bus
  obtain ⟨final, done, emptied⟩ := turns_all layout (notified transport) (notified_nodup transport) slots confined
  have taken : ∀ {index queue}, Awaits transport index queue →
      final.transport.slots[index]? = some ⟨queue.advanced (queue.due bus), false⟩ := by
    intro index queue awaits
    rw [emptied.slots, if_pos (mem_notified.mpr ⟨queue, awaits.1⟩), clearNotified_slot awaits.1]
    simp only [Option.map_some]
  have raised : final.raise = calls transport bus := emptied.raise
  have kept : final.transport.interruptStatus = transport.interruptStatus := emptied.interruptStatus
  have backend := emptied.backend
  have behind := emptied.bus
  have stepped : step transport bus = some final.interrupting := Option.bind_eq_some_iff.mpr ⟨final, done, rfl⟩
  obtain ⟨served, memory, raise⟩ := final
  dsimp only at raised behind backend kept taken
  subst behind
  rw [← raised]
  cases raise with
  | false => exact ⟨served, stepped, backend, kept, taken⟩
  | true => exact ⟨_, stepped, backend, congrArg (· ||| usedBuffer) kept, taken⟩

theorem stepOnBus_completes [Processor δ] [Confining δ] {transport : Transport δ} {bus : Bus}
    (layout : Layout transport bus) {index : Nat} {queue : VirtQueue} (awaits : Awaits transport index queue) (line : Line) :
    ∃ next after, stepOnBus line transport bus = some (next, after) ∧ Completed line transport bus next after := by
  obtain ⟨next, stepped, backend, interruptStatus, popped⟩ := Service.step_completes layout
  have busy : (Service.notified transport).isEmpty = false := by
    cases notified : Service.notified transport with
    | nil =>
      have member := mem_notified.mpr ⟨queue, awaits.1⟩
      rw [notified] at member
      cases member
    | cons first rest => rfl
  have driven : stepOnBus line transport bus = some (next, (allServed transport bus).2.bus.mapWires fun wires =>
      wires.drive line (next.interruptStatus != 0)) := by
    unfold stepOnBus
    rw [busy, stepped]
    rfl
  refine ⟨next, _, driven, log_requests _ _, backend, rfl, popped, ?_, ?_, interruptStatus, Plic.Signals.drive_level _ line _,
    fun apart tells free told => ?_⟩
  · intro other p awaited k inside
    obtain ⟨length, logged, stands⟩ := layout.element_stands awaited inside
    refine ⟨length, logged, fun last => ?_⟩
    obtain ⟨named, measured⟩ := stands last
    exact ⟨named.confined (Bus.mapWires_confined _ (fun _ => False) _) (fun _ _ => id),
      measured.confined (Bus.mapWires_confined _ (fun _ => False) _) (fun _ _ => id)⟩
  · intro other p awaited value shows
    exact (layout.counter_stands awaited shows).confined (Bus.mapWires_confined _ (fun _ => False) _) (fun _ _ => id)
  · have asserted := stepOnBus_asserts apart tells free told busy
    rw [driven, stepped] at asserted
    exact (Prod.mk.inj (Option.some.inj asserted)).2

def wrappingMemory : Ram :=
  ⟨Bytes.ofList ([0x50, 0, 0, 0x80, 0, 0, 0, 0, 4, 0, 0, 0, 1, 0, 1, 0] ++
    [0x58, 0, 0, 0x80, 0, 0, 0, 0, 8, 0, 0, 0, 2, 0, 0, 0] ++ [0, 0, 1, 0, 7, 0, 0, 0] ++ List.replicate 56 0)⟩

def wrappingQueue : VirtQueue :=
  { num := 2, ready := true, descriptors := 0x80000000, avail := 0x80000020, used := 0x80000030, lastAvail := 0xffff,
    usedIndex := 0xffff }

def wrappingTransport : Transport Echo :=
  { backend := {}, slots := #[⟨wrappingQueue, true⟩] }

def wrappingBus : Bus :=
  Bus.ofMemory 0x80000000 wrappingMemory

theorem wrapping_awaits {index : Nat} {queue : VirtQueue} (awaits : Awaits wrappingTransport index queue) :
    index = 0 ∧ queue = wrappingQueue := by
  obtain ⟨known, here⟩ := Array.getElem?_eq_some_iff.mp awaits.1
  have first : index = 0 := Nat.lt_one_iff.mp known
  subst first
  exact ⟨rfl, (Slot.mk.inj here).1.symm⟩

theorem wrapping_within : wrappingQueue.Within 0x80000000 wrappingMemory :=
  ⟨by decide, by decide, by decide, by decide, by decide, by decide, by decide, by decide⟩

theorem wrapping_request {index : Nat} {queue : VirtQueue} (awaits : Awaits wrappingTransport index queue)
    {request : Request} (waits : request ∈ queue.pending index wrappingBus (queue.due wrappingBus)) :
    request = wrappingQueue.request 0 wrappingBus ∨ request = (wrappingQueue.advanced 1).request 0 wrappingBus := by
  obtain ⟨rfl, rfl⟩ := wrapping_awaits awaits
  have two : wrappingQueue.due wrappingBus = 2 := by cbv
  rw [two] at waits
  obtain ⟨k, inside, rfl⟩ := VirtQueue.mem_pending waits
  obtain rfl | rfl : k = 0 ∨ k = 1 := by omega
  · rw [VirtQueue.advanced_zero]
    exact .inl rfl
  · exact .inr rfl

theorem wrapping_first : value? (readDescriptor 0x80000000 0 wrappingBus) = some ⟨0x80000050, 4, 1, 1⟩ := by cbv

theorem wrapping_second : value? (readDescriptor 0x80000000 1 wrappingBus) = some ⟨0x80000058, 8, 2, 0⟩ := by cbv

theorem wrapping_visits_second {within : Descriptor → UInt64 → Prop} {address : UInt64}
    (visits : Visits wrappingBus 0x80000000 2 within 1 address) : address = 0x80000010 := by
  cases visits with
  | entry inside place => exact (Option.some_inj.mp place).symm
  | next inside read direct linked later =>
    cases wrapping_second.symm.trans read
    exact absurd linked (by decide)
  | indirect inside read indirect deeper =>
    cases wrapping_second.symm.trans read
    exact absurd indirect (by decide)

theorem wrapping_visits {request : Request}
    (waits : request = wrappingQueue.request 0 wrappingBus ∨ request = (wrappingQueue.advanced 1).request 0 wrappingBus)
    {address : UInt64} (visits : VisitsChain wrappingBus request.queue request.head address) :
    address = 0x80000000 ∨ address = 0x80000010 := by
  rcases waits with rfl | rfl
  · have head : (wrappingQueue.request 0 wrappingBus).head = 0 := by cbv
    unfold VisitsChain at visits
    rw [head] at visits
    cases visits with
    | entry inside place => exact .inl (Option.some_inj.mp place).symm
    | next inside read direct linked later =>
      cases wrapping_first.symm.trans read
      exact .inr (wrapping_visits_second later)
    | indirect inside read indirect deeper =>
      cases wrapping_first.symm.trans read
      exact absurd indirect (by decide)
  · have head : ((wrappingQueue.advanced 1).request 0 wrappingBus).head = 7 := by cbv
    unfold VisitsChain at visits
    rw [head] at visits
    cases visits with
    | entry inside place => exact absurd inside (by decide)
    | next inside read direct linked later => exact absurd inside (by decide)
    | indirect inside read indirect deeper => exact absurd inside (by decide)

theorem wrapping_consulted {area : Bus.Area} (consulted : Consulted wrappingTransport wrappingBus area) :
    area.start.toNat + area.size ≤ 0x80000028 := by
  cases consulted with
  | flags awaits =>
    obtain ⟨rfl, rfl⟩ := wrapping_awaits awaits
    decide
  | index awaits =>
    obtain ⟨rfl, rfl⟩ := wrapping_awaits awaits
    decide
  | head awaits i =>
    obtain ⟨rfl, rfl⟩ := wrapping_awaits awaits
    have bound := (wrapping_within.slot i).1
    have place := wrapping_within.toNat_headAddress i
    have two : wrappingQueue.num.toNat = 2 := rfl
    have avail : wrappingQueue.avail.toNat = 0x80000020 := rfl
    dsimp only
    omega
  | entry awaits waits visits =>
    rcases wrapping_visits (wrapping_request awaits waits) visits with rfl | rfl <;> decide

theorem wrapping_filled {area : Bus.Area} (filled : Filled wrappingTransport wrappingBus area) :
    0x80000058 ≤ area.start.toNat := by
  obtain ⟨awaits, waits, formed, writable⟩ := filled
  rcases wrapping_request awaits waits with rfl | rfl
  · have chain : (wrappingQueue.request 0 wrappingBus).chain? =
        some ⟨0, [⟨0x80000050, 4, 1, 1⟩, ⟨0x80000058, 8, 2, 0⟩]⟩ := by cbv
    cases chain.symm.trans formed
    have buffers : Chain.writable ⟨0, [⟨0x80000050, 4, 1, 1⟩, ⟨0x80000058, 8, 2, 0⟩]⟩ = [⟨0x80000058, 8, 2, 0⟩] := by
      decide
    rw [buffers] at writable
    cases List.mem_singleton.mp writable
    decide
  · have chain : ((wrappingQueue.advanced 1).request 0 wrappingBus).chain? = none := by cbv
    cases chain.symm.trans formed

theorem wrapping_used {field : UsedField} {area : Bus.Area} (inRing : UsedArea wrappingQueue field area) :
    0x80000028 ≤ area.start.toNat ∧ area.start.toNat + area.size ≤ 0x80000058 := by
  have bounds := wrapping_within.used_bounds inRing
  have two : wrappingQueue.num.toNat = 2 := rfl
  have used : wrappingQueue.used.toNat = 0x80000030 := rfl
  omega

theorem wrapping_layout : Layout wrappingTransport wrappingBus := by
  refine ⟨?_, fun _ _ _ _ _ => Bus.ofMemory_calm _, ?_, ?_, ?_, ?_⟩
  · intro index queue awaits
    rw [(wrapping_awaits awaits).2]
    exact wrapping_within.mapped
  · intro index queue awaits field used area inRing consulted
    rw [(wrapping_awaits awaits).2] at inRing
    have below := wrapping_consulted consulted
    have above := (wrapping_used inRing).1
    exact Bus.ofMemory_apart (by omega)
  · intro area filled consulted isFilled
    have below := wrapping_consulted consulted
    have above := wrapping_filled isFilled
    exact Bus.ofMemory_apart (by omega)
  · intro index queue awaits field used filled inRing isFilled
    rw [(wrapping_awaits awaits).2] at inRing
    have below := (wrapping_used inRing).2
    have above := wrapping_filled isFilled
    exact Bus.ofMemory_apart (by omega)
  · intro i j p q awaitsP awaitsQ f g a b usedP usedQ different
    obtain ⟨rfl, rfl⟩ := wrapping_awaits awaitsP
    obtain ⟨rfl, rfl⟩ := wrapping_awaits awaitsQ
    exact wrapping_within.separate _ _ _ _ usedP usedQ (fun same => different (by rw [same]))

theorem wrapping_awaiting : Awaits wrappingTransport 0 wrappingQueue :=
  ⟨rfl, rfl⟩

theorem stepOnBus_completes_wrapping :
    Layout wrappingTransport wrappingBus ∧ Awaits wrappingTransport 0 wrappingQueue ∧ wrappingQueue.due wrappingBus = 2 ∧
      ∃ next after, stepOnBus 1 wrappingTransport wrappingBus = some (next, after) ∧
        Completed 1 wrappingTransport wrappingBus next after :=
  ⟨wrapping_layout, wrapping_awaiting, by cbv, stepOnBus_completes wrapping_layout wrapping_awaiting 1⟩

end RvBoard.Virtio
