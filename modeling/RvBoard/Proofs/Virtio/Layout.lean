import RvBoard.Proofs.Virtio.Requests

/-!
# Layouts of rings and buffers

What a step of a device reads to find its requests and what it may write, and when the two are
apart. Rings at aligned addresses inside one memory are laid out well by themselves.
-/

set_option autoImplicit false

namespace RvBoard.Virtio

variable {δ : Type}

-- A queue that is ready and has been notified.
def Awaits (transport : Transport δ) (index : Nat) (queue : VirtQueue) : Prop :=
  transport.slots[index]? = some ⟨queue, true⟩ ∧ queue.ready = true

-- What a step reads to find its requests: the available rings and the descriptors of the requests.
inductive Consulted (transport : Transport δ) (bus : Bus) : Bus.Area → Prop
  | flags {index : Nat} {queue : VirtQueue} (awaits : Awaits transport index queue) :
      Consulted transport bus ⟨queue.avail, 2⟩
  | index {index : Nat} {queue : VirtQueue} (awaits : Awaits transport index queue) :
      Consulted transport bus ⟨queue.avail + 2, 2⟩
  | head {index : Nat} {queue : VirtQueue} (awaits : Awaits transport index queue) (i : UInt16) :
      Consulted transport bus ⟨queue.headAddress i, 2⟩
  | entry {index : Nat} {queue : VirtQueue} (awaits : Awaits transport index queue) {request : Request}
      (waits : request ∈ queue.pending index bus (queue.due bus)) {address : UInt64}
      (visits : VisitsChain bus request.queue request.head address) : Consulted transport bus ⟨address, descriptorSize⟩

-- The buffers that are for the device to write.
inductive Filled (transport : Transport δ) (bus : Bus) : Bus.Area → Prop
  | buffer {index : Nat} {queue : VirtQueue} (awaits : Awaits transport index queue) {request : Request}
      (waits : request ∈ queue.pending index bus (queue.due bus)) {chain : Chain} (formed : request.chain? = some chain)
      {descriptor : Descriptor} (writable : descriptor ∈ chain.writable) :
      Filled transport bus ⟨descriptor.address, descriptor.length.toNat⟩

-- The rings are mapped and the tables lie in memory; the descriptor tables, the available rings, the
-- used rings and the buffers that are written do not overlap.
structure Layout (transport : Transport δ) (bus : Bus) : Prop where
  mapped : ∀ {index queue}, Awaits transport index queue → queue.Mapped bus
  tables : ∀ {index queue}, Awaits transport index queue → ∀ request ∈ queue.pending index bus (queue.due bus),
    ∀ address, VisitsChain bus request.queue request.head address → bus.Calm ⟨address, descriptorSize⟩
  consultedUsed : ∀ {index queue}, Awaits transport index queue → ∀ {field used area}, UsedArea queue field used →
    Consulted transport bus area → bus.Apart area used
  consultedFilled : ∀ {area filled}, Consulted transport bus area → Filled transport bus filled → bus.Apart area filled
  usedFilled : ∀ {index queue}, Awaits transport index queue → ∀ {field used filled}, UsedArea queue field used →
    Filled transport bus filled → bus.Apart used filled
  usedApart : ∀ {i j p q}, Awaits transport i p → Awaits transport j q → ∀ {f g a b}, UsedArea p f a → UsedArea q g b →
    (i, f) ≠ (j, g) → bus.Apart a b

def FilledCell (transport : Transport δ) (bus : Bus) (cell : Bus.Cell) : Prop :=
  ∃ area, Filled transport bus area ∧ bus.Covers area cell

def WrittenCell (transport : Transport δ) (bus : Bus) (cell : Bus.Cell) : Prop :=
  FilledCell transport bus cell ∨
    ∃ index queue field area, Awaits transport index queue ∧ UsedArea queue field area ∧ bus.Covers area cell

section Layouts

variable {transport : Transport δ} {bus : Bus} (layout : Layout transport bus) {index : Nat} {queue : VirtQueue}
  (awaits : Awaits transport index queue)

include layout

theorem Layout.consulted {area : Bus.Area} (consulted : Consulted transport bus area) (cell : Bus.Cell)
    (covered : bus.Covers area cell) : ¬ WrittenCell transport bus cell := by
  rintro (⟨filled, isFilled, touched⟩ | ⟨index, queue, field, used, awaits, inRing, touched⟩)
  · exact layout.consultedFilled consulted isFilled cell covered touched
  · exact layout.consultedUsed awaits inRing consulted cell covered touched

include awaits

theorem Layout.sound : Sound bus (WrittenCell transport bus) queue where
  mapped := layout.mapped awaits
  flags := layout.consulted (.flags awaits)
  index := layout.consulted (.index awaits)
  heads := fun i => layout.consulted (.head awaits i)
  used := fun inRing _ covered => .inr ⟨_, _, _, _, awaits, inRing, covered⟩
  separate := fun _ _ _ _ inF inG different =>
    layout.usedApart awaits awaits inF inG (fun same => different (Prod.mk.inj same).2)

theorem Layout.clear {request : Request} (waits : request ∈ queue.pending index bus (queue.due bus)) :
    Clear bus (WrittenCell transport bus) (FilledCell transport bus) request where
  entries := fun address visits =>
    ⟨layout.tables awaits request waits address visits, layout.consulted (.entry awaits waits visits)⟩
  buffers := fun _ formed _ writable _ covered => ⟨_, .buffer awaits waits formed writable, covered⟩

end Layouts

-- Where a field stands in the used ring, and how many bytes it has.
def UsedField.offset : UsedField → Nat
  | .counter => 2
  | .id slot => 4 + slot.toNat * 8
  | .length slot => 8 + slot.toNat * 8

def UsedField.size : UsedField → Nat
  | .counter => 2
  | .id _ => 4
  | .length _ => 4

theorem UsedField.disjoint {f g : UsedField} (different : f ≠ g) :
    f.offset + f.size ≤ g.offset ∨ g.offset + g.size ≤ f.offset := by
  have slots : ∀ {s t : UInt64}, s ≠ t → s.toNat ≠ t.toNat := fun apart same => apart (UInt64.toNat_inj.mp same)
  cases f <;> cases g <;> simp only [offset, size]
  case counter.counter => exact absurd rfl different
  case id.id =>
    have apart := slots (fun same => different (congrArg id same))
    omega
  case length.length =>
    have apart := slots (fun same => different (congrArg length same))
    omega
  all_goals omega

theorem toNat_slotOf (i : UInt16) (num : UInt32) : (slotOf i num).toNat = i.toNat % num.toNat := by
  have small := Nat.mod_le i.toNat num.toNat
  have bound := i.toNat_lt
  have wide : 65536 < UInt64.size := by decide
  unfold slotOf
  exact UInt64.toNat_ofNat_of_lt' (by omega)

structure VirtQueue.Within (queue : VirtQueue) (start : UInt64) (memory : Ram) : Prop where
  room : start.toNat + memory.data.size < UInt64.size
  entries : 0 < queue.num.toNat
  availFair : queue.avail.toNat % 2 = 0
  availAbove : start ≤ queue.avail
  availBelow : queue.avail.toNat + 4 + queue.num.toNat * 2 ≤ start.toNat + memory.data.size
  usedFair : queue.used.toNat % 4 = 0
  usedAbove : start ≤ queue.used
  usedBelow : queue.used.toNat + 4 + queue.num.toNat * 8 ≤ start.toNat + memory.data.size

namespace VirtQueue.Within

variable {queue : VirtQueue} {start : UInt64} {memory : Ram} (within : queue.Within start memory)

include within

theorem slot (i : UInt16) : (slotOf i queue.num).toNat < queue.num.toNat ∧ (slotOf i queue.num).toNat < 65536 := by
  rw [toNat_slotOf]
  exact ⟨Nat.mod_lt _ within.entries, Nat.lt_of_le_of_lt (Nat.mod_le _ _) i.toNat_lt⟩

theorem head (i : UInt16) : (4 + slotOf i queue.num * 2).toNat = 4 + (slotOf i queue.num).toNat * 2 := by
  have bound := (within.slot i).2
  have four : (4 : UInt64).toNat = 4 := rfl
  have two : (2 : UInt64).toNat = 2 := rfl
  rw [UInt64.toNat_add, UInt64.toNat_mul, four, two]
  omega

theorem element (i : UInt16) : (4 + slotOf i queue.num * 8).toNat = 4 + (slotOf i queue.num).toNat * 8 := by
  have bound := (within.slot i).2
  have four : (4 : UInt64).toNat = 4 := rfl
  have eight : (8 : UInt64).toNat = 8 := rfl
  rw [UInt64.toNat_add, UInt64.toNat_mul, four, eight]
  omega

theorem toNat_headAddress (i : UInt16) :
    (queue.headAddress i).toNat = queue.avail.toNat + 4 + (slotOf i queue.num).toNat * 2 := by
  have bound := (within.slot i).1
  have room := within.room
  have below := within.availBelow
  have limit : UInt64.size = 18446744073709551616 := rfl
  unfold headAddress
  rw [UInt64.toNat_add, within.head i]
  omega

theorem toNat_elementAddress (i : UInt16) :
    (queue.elementAddress i).toNat = queue.used.toNat + 4 + (slotOf i queue.num).toNat * 8 := by
  have bound := (within.slot i).1
  have room := within.room
  have below := within.usedBelow
  have limit : UInt64.size = 18446744073709551616 := rfl
  unfold elementAddress
  rw [UInt64.toNat_add, within.element i]
  omega

theorem field {base offset : UInt64} {size : Nat} (small : size ≤ 3) (above : start ≤ base)
    (below : base.toNat + offset.toNat + byteCount size ≤ start.toNat + memory.data.size)
    (fair : (base.toNat + offset.toNat) % byteCount size = 0) : Field (Bus.ofMemory start memory) base offset size := by
  have room := within.room
  have fits : base.toNat + offset.toNat < UInt64.size := by omega
  have place : (base + offset).toNat = base.toNat + offset.toNat := by
    rw [UInt64.toNat_add]
    exact Nat.mod_eq_of_lt fits
  refine ⟨fits, _, _, Bus.ofMemory_inMemory room small ?_ ?_ ?_⟩
  · unfold aligned
    rw [place, fair]
    rfl
  · rw [UInt64.le_iff_toNat_le] at above ⊢
    omega
  · rw [place]
    exact below

theorem half_field {base offset : UInt64} (above : start ≤ base)
    (below : base.toNat + offset.toNat + 2 ≤ start.toNat + memory.data.size)
    (fair : (base.toNat + offset.toNat) % 2 = 0) : Field (Bus.ofMemory start memory) base offset 1 :=
  within.field (by decide) above below fair

theorem word_field {base offset : UInt64} (above : start ≤ base)
    (below : base.toNat + offset.toNat + 4 ≤ start.toNat + memory.data.size)
    (fair : (base.toNat + offset.toNat) % 4 = 0) : Field (Bus.ofMemory start memory) base offset 2 :=
  within.field (by decide) above below fair

theorem mapped : queue.Mapped (Bus.ofMemory start memory) := by
  have ⟨_, entries, availFair, availAbove, availBelow, usedFair, usedAbove, usedBelow⟩ := within
  have zero : (0 : UInt64).toNat = 0 := rfl
  have two : (2 : UInt64).toNat = 2 := rfl
  have four : (4 : UInt64).toNat = 4 := rfl
  have flags : Field (Bus.ofMemory start memory) queue.avail 0 1 :=
    within.half_field availAbove (by omega) (by omega)
  refine ⟨?_, within.half_field availAbove (by omega) (by omega), fun i => ?_,
    within.half_field usedAbove (by omega) (by omega), fun i => ?_, fun i => ?_⟩
  · have place := flags.mapped
    rw [UInt64.add_zero] at place
    exact place
  · have bound := (within.slot i).1
    have place := within.head i
    exact within.half_field availAbove (by omega) (by omega)
  · have bound := (within.slot i).1
    have place := within.element i
    exact within.word_field usedAbove (by omega) (by omega)
  · have bound := (within.slot i).1
    have place := within.toNat_elementAddress i
    have above := UInt64.le_iff_toNat_le.mp usedAbove
    exact within.word_field (UInt64.le_iff_toNat_le.mpr (by omega)) (by omega) (by omega)

theorem used_place {field : UsedField} {area : Bus.Area} (inRing : UsedArea queue field area) :
    area.start.toNat = queue.used.toNat + field.offset ∧ area.size = field.size ∧
      2 ≤ field.offset ∧ field.offset + field.size ≤ 4 + queue.num.toNat * 8 := by
  have room := within.room
  have below := within.usedBelow
  have limit : UInt64.size = 18446744073709551616 := rfl
  have two : (2 : UInt64).toNat = 2 := rfl
  have four : (4 : UInt64).toNat = 4 := rfl
  cases inRing with
  | counter =>
    refine ⟨?_, rfl, ?_⟩ <;> simp only [UsedField.offset, UsedField.size]
    · rw [UInt64.toNat_add, two]
      omega
    · omega
  | id i =>
    have bound := (within.slot i).1
    refine ⟨?_, rfl, ?_⟩ <;> simp only [UsedField.offset, UsedField.size]
    · rw [within.toNat_elementAddress i, Nat.add_assoc]
    · omega
  | length i =>
    have bound := (within.slot i).1
    refine ⟨?_, rfl, ?_⟩ <;> simp only [UsedField.offset, UsedField.size]
    · rw [UInt64.toNat_add, within.toNat_elementAddress i, four]
      omega
    · omega

theorem used_bounds {field : UsedField} {area : Bus.Area} (inRing : UsedArea queue field area) :
    queue.used.toNat + 2 ≤ area.start.toNat ∧
      area.start.toNat + area.size ≤ queue.used.toNat + 4 + queue.num.toNat * 8 := by
  have place := within.used_place inRing
  omega

theorem separate : Separate (Bus.ofMemory start memory) queue := by
  intro f g a b inF inG different
  have placeF := within.used_place inF
  have placeG := within.used_place inG
  have disjoint := UsedField.disjoint different
  exact Bus.ofMemory_apart (by omega)

end VirtQueue.Within

end RvBoard.Virtio
