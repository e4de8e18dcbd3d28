import RvBoard.Memory.PageTable
import RvBoard.Proofs.Bits

/-!
# Marked page table entries

The marks that a walk leaves in a leaf change neither the page nor anything that a later walk
checks, and a second walk of the same kind finds them there.
-/

set_option autoImplicit false

namespace RvBoard

namespace PteFlags

def rights (flags : PteFlags) : PteFlags :=
  flags &&& 0x1f

theorem has_rights (flags flag : PteFlags) (among : rights flag = flag) :
    has (rights flags) flag = has flags flag := by
  have same : rights flags &&& flag = flags &&& flag := by
    rw [rights, UInt8.and_assoc, UInt8.and_comm 0x1f, ← rights, among]
  rw [has, has, same]

theorem rights_or (flags marks : PteFlags) (none : rights marks = 0) : rights (flags ||| marks) = rights flags :=
  byte_set_and flags marks 0x1f none

theorem rights_marks (access : AccessKind) : rights (marks access) = 0 := by
  cases access <;> decide

theorem allows_rights (flags : PteFlags) (access : AccessKind) (mxr : Bool) :
    allows (rights flags) access mxr = allows flags access mxr := by
  cases access <;> simp only [allows, has_rights flags execute (by decide), has_rights flags read (by decide),
    has_rights flags write (by decide)]

theorem admits_rights (flags : PteFlags) (access : AccessKind) (context : AccessContext) :
    admits (rights flags) access context = admits flags access context := by
  simp only [admits, has_rights flags user (by decide)]

theorem permits_rights (flags : PteFlags) (access : AccessKind) (context : AccessContext) :
    permits (rights flags) access context = permits flags access context := by
  rw [permits, permits, allows_rights, admits_rights]

theorem permits_congr {a b : PteFlags} (same : rights a = rights b) (access : AccessKind) (context : AccessContext) :
    permits a access context = permits b access context := by
  rw [← permits_rights a, same, permits_rights b]

theorem has_or (flags marks flag : PteFlags) (set : has flags flag = true) : has (flags ||| marks) flag = true := by
  have kept : flags &&& flag = flag := eq_of_beq set
  apply beq_of_eq
  rw [byte_or_and, kept]
  apply byte_eq_of_bits
  intro i inside
  simp only [UInt8.toBitVec_or, UInt8.toBitVec_and, BitVec.getLsbD_or, BitVec.getLsbD_and]
  cases flag.toBitVec.getLsbD i <;> simp

theorem has_marks (flags : PteFlags) (access : AccessKind) :
    has (flags ||| marks access) accessed = true ∧
      (has (flags ||| marks access) dirty = true → access ≠ .store → has flags dirty = true) := by
  constructor
  · rw [UInt8.or_comm]
    exact has_or _ _ _ (by cases access <;> decide)
  · intro set notStore
    have only : marks access = accessed := if_neg notStore
    have apart : accessed &&& dirty = 0 := by decide
    rw [only, has, byte_set_and flags accessed dirty apart] at set
    exact set

theorem has_both {flags : PteFlags} (isAccessed : has flags accessed = true) (isDirty : has flags dirty = true) :
    flags &&& (accessed ||| dirty) = accessed ||| dirty := by
  rw [UInt8.and_comm, byte_or_and, UInt8.and_comm, eq_of_beq isAccessed, UInt8.and_comm, eq_of_beq isDirty]

theorem marks_present {flags : PteFlags} {access : AccessKind} (isAccessed : has flags accessed = true)
    (isDirty : access = .store → has flags dirty = true) : flags &&& marks access = marks access := by
  by_cases store : access = .store
  · rw [marks, if_pos store]
    exact has_both isAccessed (isDirty store)
  · rw [marks, if_neg store]
    exact eq_of_beq isAccessed

end PteFlags

namespace Pte

theorem ext {a b : Pte} (same : a.bits = b.bits) : a = b := by
  cases a
  cases b
  exact congrArg Pte.mk same

theorem flags_mark (pte : Pte) (marks : PteFlags) : (pte.mark marks).flags = pte.flags ||| marks := by
  rw [flags, mark, UInt64.toUInt8_or, UInt8.toUInt8_toUInt64, ← flags]

theorem shiftRight_mark (pte : Pte) (marks : PteFlags) (amount : UInt64) (small : marks.toUInt64 >>> amount = 0) :
    (pte.mark marks).bits >>> amount = pte.bits >>> amount := by
  rw [mark, UInt64.shiftRight_or, small, UInt64.or_zero]

theorem address_marked (pte : Pte) (marks : PteFlags) : (pte.mark marks).address = pte.address := by
  have small : marks.toUInt64 >>> 10 = 0 :=
    byte_shiftRight marks (by decide) (by decide)
  rw [address, shiftRight_mark pte _ 10 small, ← address]

theorem address_mark (pte : Pte) (access : AccessKind) :
    (pte.mark (PteFlags.marks access)).address = pte.address :=
  address_marked pte _

theorem rights_marked (pte : Pte) {marks : PteFlags} (none : PteFlags.rights marks = 0) :
    PteFlags.rights (pte.mark marks).flags = PteFlags.rights pte.flags := by
  rw [flags_mark]
  exact PteFlags.rights_or _ _ none

theorem rights_mark (pte : Pte) (access : AccessKind) :
    PteFlags.rights (pte.mark (PteFlags.marks access)).flags = PteFlags.rights pte.flags :=
  rights_marked pte (PteFlags.rights_marks access)

theorem isLeaf_rights (pte : Pte) : pte.isLeaf = (PteFlags.rights pte.flags &&& (PteFlags.read ||| PteFlags.execute) != 0) := by
  have among : (0x1f : UInt8) &&& (PteFlags.read ||| PteFlags.execute) = PteFlags.read ||| PteFlags.execute := by decide
  rw [isLeaf, PteFlags.rights, UInt8.and_assoc, among]

theorem isLeaf_marked (pte : Pte) {marks : PteFlags} (none : PteFlags.rights marks = 0) :
    (pte.mark marks).isLeaf = pte.isLeaf := by
  rw [isLeaf_rights, isLeaf_rights, rights_marked pte none]

theorem isLeaf_mark (pte : Pte) (access : AccessKind) :
    (pte.mark (PteFlags.marks access)).isLeaf = pte.isLeaf :=
  isLeaf_marked pte (PteFlags.rights_marks access)

theorem isMalformed_marked (pte : Pte) {marks : PteFlags} (none : PteFlags.rights marks = 0) :
    (pte.mark marks).isMalformed = pte.isMalformed := by
  have small : marks.toUInt64 >>> 54 = 0 :=
    byte_shiftRight marks (by decide) (by decide)
  have same : ∀ flag, PteFlags.rights flag = flag → (pte.mark marks).flags.has flag = pte.flags.has flag := by
    intro flag among
    rw [← PteFlags.has_rights _ flag among, rights_marked pte none, PteFlags.has_rights _ flag among]
  rw [isMalformed, isMalformed, shiftRight_mark pte _ 54 small, same _ (by decide), same _ (by decide),
    same _ (by decide)]

theorem isMalformed_mark (pte : Pte) (access : AccessKind) :
    (pte.mark (PteFlags.marks access)).isMalformed = pte.isMalformed :=
  isMalformed_marked pte (PteFlags.rights_marks access)

theorem mark_eq_self {pte : Pte} {marks : PteFlags} (present : pte.flags &&& marks = marks) : pte.mark marks = pte := by
  obtain ⟨bits⟩ := pte
  rw [mark]
  congr 1
  apply word_eq_of_bits
  intro i inside
  rw [UInt64.toBitVec_or, BitVec.getLsbD_or, UInt8.toBitVec_toUInt64, BitVec.getLsbD_setWidth]
  by_cases low : i < 8
  · have bit : (bits.toUInt8 &&& marks).toBitVec.getLsbD i = marks.toBitVec.getLsbD i := by
      rw [← flags, present]
    rw [UInt8.toBitVec_and, BitVec.getLsbD_and, UInt64.toBitVec_toUInt8, BitVec.getLsbD_setWidth] at bit
    simp only [low, decide_true, Bool.true_and] at bit
    rw [← bit]
    cases bits.toBitVec.getLsbD i <;> simp
  · have beyond : marks.toBitVec.getLsbD i = false := BitVec.getLsbD_of_ge _ _ (by omega)
    rw [beyond, Bool.and_false, Bool.or_false]

def bit (pte : Pte) (i : Nat) : Bool :=
  pte.bits.toBitVec.getLsbD i

def opens (pte : Pte) (mxr : Bool) : AccessKind → Bool
  | .load => pte.bit 1 || (mxr && pte.bit 3)
  | .store => pte.bit 2
  | .fetch => pte.bit 3

theorem flags_bit (pte : Pte) {i : Nat} (inside : i < 8) : pte.flags.toBitVec.getLsbD i = pte.bit i := by
  rw [bit, flags, UInt64.toBitVec_toUInt8, BitVec.getLsbD_setWidth, decide_eq_true inside, Bool.true_and]

theorem has_bit (pte : Pte) {flag : PteFlags} {i : Nat} (inside : i < 8)
    (single : ∀ j, j < 8 → flag.toBitVec.getLsbD j = decide (j = i)) : pte.flags.has flag = pte.bit i := by
  rw [← pte.flags_bit inside]
  cases set : pte.flags.toBitVec.getLsbD i with
  | true =>
    apply beq_of_eq
    apply byte_eq_of_bits
    intro j small
    rw [UInt8.toBitVec_and, BitVec.getLsbD_and, single j small]
    by_cases here : j = i
    · rw [here, set, Bool.true_and]
    · rw [decide_eq_false here, Bool.and_false]
  | false =>
    apply beq_eq_false_iff_ne.mpr
    intro same
    have bits := congrArg (fun byte : UInt8 => byte.toBitVec.getLsbD i) same
    simp only [UInt8.toBitVec_and, BitVec.getLsbD_and, set, single i inside, Bool.false_and, decide_true] at bits
    cases bits

theorem has_valid (pte : Pte) : pte.flags.has PteFlags.valid = pte.bit 0 :=
  pte.has_bit (by decide) (by decide)

theorem has_read (pte : Pte) : pte.flags.has PteFlags.read = pte.bit 1 :=
  pte.has_bit (by decide) (by decide)

theorem has_write (pte : Pte) : pte.flags.has PteFlags.write = pte.bit 2 :=
  pte.has_bit (by decide) (by decide)

theorem has_execute (pte : Pte) : pte.flags.has PteFlags.execute = pte.bit 3 :=
  pte.has_bit (by decide) (by decide)

theorem has_user (pte : Pte) : pte.flags.has PteFlags.user = pte.bit 4 :=
  pte.has_bit (by decide) (by decide)

theorem allows_opens (pte : Pte) (kind : AccessKind) (mxr : Bool) : pte.flags.allows kind mxr = pte.opens mxr kind := by
  cases kind with
  | load => rw [PteFlags.allows, pte.has_read, pte.has_execute, opens]
  | store => rw [PteFlags.allows, pte.has_write, opens]
  | fetch => rw [PteFlags.allows, pte.has_execute, opens]

end Pte

end RvBoard
