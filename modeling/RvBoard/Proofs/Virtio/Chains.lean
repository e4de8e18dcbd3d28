import RvBoard.Proofs.Virtio.Rings

/-!
# Chains in memory

The walk along a chain reads the entries of descriptor tables that its links lead to. Where these
entries have not been written over, the walk finds the same chain again.
-/

set_option autoImplicit false

namespace RvBoard.Virtio

inductive Visits (bus : Bus) (table : UInt64) (size : UInt32) (within : Descriptor → UInt64 → Prop) : UInt16 → UInt64 → Prop
  | entry {index : UInt16} {address : UInt64} (inside : index.toNat < size.toNat)
      (place : checkedAdd table (index.toUInt64 * 16) = some address) : Visits bus table size within index address
  | next {index : UInt16} {descriptor : Descriptor} {address : UInt64} (inside : index.toNat < size.toNat)
      (read : value? (readDescriptor table index bus) = some descriptor) (direct : descriptor.isIndirect = false)
      (linked : descriptor.hasNext = true) (later : Visits bus table size within descriptor.next address) :
      Visits bus table size within index address
  | indirect {index : UInt16} {descriptor : Descriptor} {address : UInt64} (inside : index.toNat < size.toNat)
      (read : value? (readDescriptor table index bus) = some descriptor) (indirect : descriptor.isIndirect = true)
      (deeper : within descriptor address) : Visits bus table size within index address

def VisitsIndirect (bus : Bus) (descriptor : Descriptor) (address : UInt64) : Prop :=
  isTableLength descriptor.length = true ∧
    Visits bus descriptor.address (descriptor.length / 16) (fun _ _ => False) 0 address

-- The entries that are read for the request at `head`.
def VisitsChain (bus : Bus) (queue : VirtQueue) (head : UInt16) (address : UInt64) : Prop :=
  Visits bus queue.descriptors queue.num (VisitsIndirect bus) head address

theorem onBus_alike {α : Type} (address : UInt64) {operation : BusM α} {a b : Bus} (alike : Alike operation a b) :
    Alike (onBus address operation) a b := by
  obtain ⟨result, left, right⟩ := alike
  cases result with
  | ok value => exact ⟨.ok value, by rw [onBus, left]; rfl, by rw [onBus, right]; rfl⟩
  | error fault => exact ⟨.error (.memory address), by rw [onBus, left]; rfl, by rw [onBus, right]; rfl⟩

theorem liftExcept_alike {σ α : Type} {a b : σ} (value : Except QueueError α) : Alike (liftExcept value) a b := by
  cases value with
  | ok value => exact alike_pure value
  | error error => exact alike_throw error

section Walks

variable {region : Bus.Cell → Prop} {bus next : Bus}

structure Untouched (bus : Bus) (region : Bus.Cell → Prop) (area : Bus.Area) : Prop where
  calm : bus.Calm area
  apart : ∀ cell, bus.Covers area cell → ¬ region cell

variable (confined : Bus.Confined region bus next)

include confined

theorem readDescriptor_alike {table : UInt64} {index : UInt16}
    (untouched : ∀ address, checkedAdd table (index.toUInt64 * 16) = some address →
      Untouched bus region ⟨address, descriptorSize⟩) : Alike (readDescriptor table index) bus next := by
  unfold readDescriptor ringAddress
  cases place : checkedAdd table (index.toUInt64 * 16) with
  | none => exact alike_bind (liftExcept_alike _) (fun _ given => by cases given)
  | some address =>
    refine alike_bind (liftExcept_alike _) (fun given same => ?_)
    cases same
    have entry := untouched address place
    exact alike_bind (onBus_alike _ (Bus.readBytes_alike entry.calm confined entry.apart)) (fun _ _ => alike_pure _)

theorem followTable_alike {indirect : Descriptor → EStateM QueueError Bus (List Descriptor)}
    {within : Descriptor → UInt64 → Prop} {table : UInt64} {size : UInt32}
    (indirectly : ∀ descriptor, (∀ address, within descriptor address → Untouched bus region ⟨address, descriptorSize⟩) →
      Alike (indirect descriptor) bus next) (left : Nat) (index : UInt16)
    (untouched : ∀ address, Visits bus table size within index address → Untouched bus region ⟨address, descriptorSize⟩) :
    Alike (followTable indirect table size left index) bus next := by
  induction left generalizing index with
  | zero => exact alike_ite (fun _ => alike_throw _) (fun _ => alike_throw _)
  | succ left ih =>
    refine alike_ite (fun _ => alike_throw _) (fun notOutside => ?_)
    have inside := Nat.lt_of_not_le notOutside
    have entry := readDescriptor_alike confined (fun address place => untouched address (.entry inside place))
    refine alike_bind entry (fun descriptor read => ?_)
    refine alike_ite (fun isIndirect => ?_) (fun direct => alike_ite (fun linked => ?_) (fun _ => alike_pure _))
    · exact indirectly descriptor (fun address deeper => untouched address (.indirect inside read isIndirect deeper))
    · have rest := ih descriptor.next fun address later =>
        untouched address (.next inside read (Bool.eq_false_iff.mpr direct) linked later)
      exact alike_bind rest (fun _ _ => alike_pure _)

theorem followIndirect_alike (descriptor : Descriptor)
    (untouched : ∀ address, VisitsIndirect bus descriptor address → Untouched bus region ⟨address, descriptorSize⟩) :
    Alike (followIndirect descriptor) bus next := by
  unfold followIndirect
  refine alike_ite (fun _ => alike_throw _) (fun valid => ?_)
  have fair : isTableLength descriptor.length = true := by simpa using valid
  exact followTable_alike confined (fun _ _ => alike_throw _) _ 0 (fun address visits => untouched address ⟨fair, visits⟩)

theorem readChain_alike {queue : VirtQueue} {head : UInt16}
    (untouched : ∀ address, VisitsChain bus queue head address → Untouched bus region ⟨address, descriptorSize⟩) :
    Alike (readChain queue head) bus next :=
  alike_bind (followTable_alike confined (followIndirect_alike confined) _ head untouched) (fun _ _ => alike_pure _)

end Walks

end RvBoard.Virtio
