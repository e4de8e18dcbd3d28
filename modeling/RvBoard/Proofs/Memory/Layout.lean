import RvBoard.Memory.Virtual
import RvBoard.Proofs.Memory.Walk

/-!
# The layout of Sv39 addresses and entries

Virtual addresses and page table entries as numbers: the fields that they consist of, and the pages,
indices and addresses that these fields stand for.
-/

set_option autoImplicit false

namespace RvBoard

theorem AccessKind.faults_differ (kind : AccessKind) : kind.accessFault ≠ kind.pageFault := by
  cases kind <;> decide

namespace Pte

def pageNumber (pte : Pte) : Nat :=
  pte.bits.toNat / 2 ^ 10 % 2 ^ 44

structure WellFormed (pte : Pte) : Prop where
  valid : pte.bit 0 = true
  unreserved : pte.bits.toNat < 2 ^ 54
  readable : pte.bit 2 = true → pte.bit 1 = true

structure Pointer (pte : Pte) : Prop where
  fair : pte.WellFormed
  unread : pte.bit 1 = false
  unexecuted : pte.bit 3 = false

structure Leaf (pte : Pte) : Prop where
  fair : pte.WellFormed
  used : pte.bit 1 = true ∨ pte.bit 3 = true

def Admits (pte : Pte) (kind : AccessKind) (context : AccessContext) : Prop :=
  match context.privilege with
  | .user => pte.bit 4 = true
  | .supervisor => pte.bit 4 = false ∨ kind ≠ .fetch ∧ context.sum = true
  | .machine => True

-- A leaf after an access: bit 6 tells that the page was used, and bit 7 that it was stored to.
def touched (pte : Pte) (kind : AccessKind) : Pte :=
  ⟨pte.bits ||| 0x40 ||| (if kind = .store then 0x80 else 0)⟩

theorem pageNumber_lt (pte : Pte) : pte.pageNumber < 2 ^ 44 :=
  Nat.mod_lt _ (by decide)

theorem toNat_address (pte : Pte) : pte.address.toNat = pte.pageNumber * 4096 := by
  have field : ((pte.bits >>> 10) &&& 0xfffffffffff).toNat = pte.pageNumber := by
    rw [@toNat_low 0xfffffffffff 44 rfl, UInt64.toNat_shiftRight, Nat.shiftRight_eq_div_pow]
    rfl
  have small := pte.pageNumber_lt
  rw [address, UInt64.toNat_shiftLeft, field, Nat.shiftLeft_eq]
  change pte.pageNumber * 4096 % 2 ^ 64 = _
  omega

theorem address_eq (pte : Pte) : pte.address = UInt64.ofNat (pte.pageNumber * 4096) := by
  rw [← toNat_address, UInt64.ofNat_toNat]

theorem mark_touched (pte : Pte) (kind : AccessKind) : pte.mark (PteFlags.marks kind) = pte.touched kind := by
  cases kind with
  | store =>
    have both : (PteFlags.marks .store).toUInt64 = 0x40 ||| 0x80 := by decide
    rw [mark, both, ← UInt64.or_assoc]
    rfl
  | load =>
    rw [touched, if_neg (by decide), UInt64.or_zero]
    rfl
  | fetch =>
    rw [touched, if_neg (by decide), UInt64.or_zero]
    rfl

theorem pageNumber_touched (pte : Pte) (kind : AccessKind) : (pte.touched kind).pageNumber = pte.pageNumber := by
  have same : (pte.touched kind).address.toNat = pte.address.toNat := by
    rw [← mark_touched, address_mark]
  rw [toNat_address, toNat_address] at same
  omega

theorem isMalformed_iff (pte : Pte) : pte.isMalformed = false ↔ pte.WellFormed := by
  have reserved : (pte.bits >>> 54 != 0) = false ↔ pte.bits.toNat < 2 ^ 54 := by
    rw [bne_eq_false_iff_eq, ← UInt64.toNat_inj, UInt64.toNat_shiftRight, Nat.shiftRight_eq_div_pow]
    change pte.bits.toNat / 2 ^ 54 = 0 ↔ _
    omega
  rw [isMalformed, pte.has_valid, pte.has_read, pte.has_write, Bool.or_eq_false_iff, Bool.or_eq_false_iff, reserved]
  constructor
  · rintro ⟨⟨set, below⟩, writes⟩
    refine ⟨by simpa using set, below, ?_⟩
    intro writable
    simpa [writable] using writes
  · rintro ⟨set, below, readable⟩
    refine ⟨⟨by simp [set], below⟩, ?_⟩
    by_cases writable : pte.bit 2 = true
    · simp [readable writable]
    · simp [writable]

theorem isLeaf_bits (pte : Pte) : pte.isLeaf = (pte.bit 1 || pte.bit 3) := by
  have mask : ∀ i < 8, (PteFlags.read ||| PteFlags.execute).toBitVec.getLsbD i = decide (i = 1 ∨ i = 3) := by decide
  have bits : ∀ i < 8, (pte.flags &&& (PteFlags.read ||| PteFlags.execute)).toBitVec.getLsbD i =
      (pte.bit i && decide (i = 1 ∨ i = 3)) := by
    intro i inside
    rw [UInt8.toBitVec_and, BitVec.getLsbD_and, pte.flags_bit inside, mask i inside]
  rw [isLeaf]
  by_cases none : pte.bit 1 = false ∧ pte.bit 3 = false
  · have empty : pte.flags &&& (PteFlags.read ||| PteFlags.execute) = 0 := by
      apply byte_eq_of_bits
      intro i inside
      rw [bits i inside]
      by_cases here : i = 1 ∨ i = 3
      · rcases here with rfl | rfl <;> simp [none]
      · simp [here]
    simp [empty, none]
  · have some : pte.flags &&& (PteFlags.read ||| PteFlags.execute) ≠ 0 := by
      intro empty
      rw [empty] at bits
      have first := bits 1 (by decide)
      have third := bits 3 (by decide)
      exact none ⟨by simpa using first.symm, by simpa using third.symm⟩
    rw [bne_iff_ne.mpr some]
    cases first : pte.bit 1 with
    | true => rfl
    | false =>
      cases third : pte.bit 3 with
      | true => rfl
      | false => exact absurd ⟨first, third⟩ none

theorem leaf_iff (pte : Pte) : pte.Leaf ↔ pte.isMalformed = false ∧ pte.isLeaf = true := by
  rw [isMalformed_iff, isLeaf_bits, Bool.or_eq_true]
  exact ⟨fun leaf => ⟨leaf.fair, leaf.used⟩, fun both => ⟨both.1, both.2⟩⟩

theorem pointer_iff (pte : Pte) : pte.Pointer ↔ pte.isMalformed = false ∧ pte.isLeaf = false := by
  rw [isMalformed_iff, isLeaf_bits, Bool.or_eq_false_iff]
  exact ⟨fun pointer => ⟨pointer.fair, pointer.unread, pointer.unexecuted⟩, fun both => ⟨both.1, both.2.1, both.2.2⟩⟩

theorem admits_iff (pte : Pte) (kind : AccessKind) (context : AccessContext) :
    pte.flags.admits kind context = true ↔ pte.Admits kind context := by
  unfold PteFlags.admits Admits
  cases context.privilege with
  | user => simp [pte.has_user]
  | supervisor => simp [pte.has_user]
  | machine => simp

end Pte

namespace Memory

def rootPage (satp : UInt64) : Nat :=
  satp.toNat % 2 ^ 44

theorem rootOf_page (satp : UInt64) : rootOf satp = UInt64.ofNat (rootPage satp * 4096) := by
  have field : (satp &&& 0xfffffffffff).toNat = rootPage satp := @toNat_low 0xfffffffffff 44 rfl satp
  rw [rootOf, UInt64.ofNat_mul, ← field, UInt64.ofNat_toNat]
  rfl

end Memory

namespace Sv39

-- A virtual address has 39 bits, of which the highest is repeated above.
def Canonical (vaddr : UInt64) : Prop :=
  vaddr.toNat < 2 ^ 38 ∨ 2 ^ 64 - 2 ^ 38 ≤ vaddr.toNat

-- The nine bits of an address that are its index in the tables of a level.
def vpn (vaddr : UInt64) (level : Nat) : Nat :=
  vaddr.toNat / 2 ^ (12 + 9 * level) % 512

-- The address of an entry in the table that begins with a page.
def slot (table : Nat) (vaddr : UInt64) (level : Nat) : Nat :=
  table * 4096 + vpn vaddr level * 8

-- A leaf may be used when it is open to the access, and its page begins where its level allows.
structure Suits (leaf : Pte) (level : Nat) (kind : AccessKind) (context : AccessContext) : Prop where
  opens : leaf.opens context.mxr kind = true
  admits : leaf.Admits kind context
  straight : leaf.pageNumber % 2 ^ (9 * level) = 0

theorem isCanonical_iff (vaddr : UInt64) : isCanonical vaddr = true ↔ Canonical vaddr := by
  have shifted : (vaddr.toInt64 >>> 38).toInt = vaddr.toBitVec.toInt / 2 ^ 38 := by
    have amount : ((38 : Int64).toBitVec.smod 64).toNat = 38 := by decide
    rw [← Int64.toInt_toBitVec, Int64.toBitVec_shiftRight, BitVec.sshiftRight', amount, BitVec.toInt_sshiftRight,
      Int.shiftRight_eq_div_pow, UInt64.toBitVec_toInt64]
    rfl
  have signed : vaddr.toBitVec.toInt = if 2 * vaddr.toNat < 2 ^ 64 then (vaddr.toNat : Int) else vaddr.toNat - 2 ^ 64 :=
    BitVec.toInt_eq_toNat_cond _
  have small := vaddr.toNat_lt
  have upper : (vaddr.toInt64 >>> 38 = 0 ∨ vaddr.toInt64 >>> 38 = -1) ↔
      (vaddr.toBitVec.toInt / 2 ^ 38 = 0 ∨ vaddr.toBitVec.toInt / 2 ^ 38 = -1) := by
    rw [← Int64.toInt_inj, ← Int64.toInt_inj, shifted]
    rfl
  unfold isCanonical Canonical
  simp only [Bool.or_eq_true, beq_iff_eq]
  rw [upper, signed]
  by_cases positive : 2 * vaddr.toNat < 2 ^ 64
  · rw [if_pos positive]
    omega
  · rw [if_neg positive]
    omega

theorem toNat_pageMask (word : UInt64) : (word &&& Pte.pageMask).toNat = word.toNat % 4096 :=
  @toNat_low Pte.pageMask 12 rfl word

theorem address_low (pte : Pte) : pte.address &&& Pte.pageMask = 0 := by
  rw [← UInt64.toNat_inj, toNat_pageMask, pte.toNat_address]
  exact Nat.mul_mod_left pte.pageNumber 4096

theorem translationOf_low (leaf : Pte) (vaddr : UInt64) (level : Nat) :
    (translationOf leaf vaddr level).page &&& Pte.pageMask = 0 := by
  rw [translationOf, word_or_and, address_low, UInt64.and_assoc, UInt64.not_and_self, UInt64.and_zero, UInt64.or_zero]

theorem slot_bound {table : Nat} (small : table < 2 ^ 44) (vaddr : UInt64) (level : Nat) :
    slot table vaddr level + 8 ≤ 2 ^ 56 := by
  have index : vpn vaddr level < 512 := Nat.mod_lt _ (by decide)
  unfold slot
  omega

section Levels

variable {level : Nat} (inside : level < 3)

include inside

theorem toNat_index (vaddr : UInt64) : (index vaddr level).toNat = vpn vaddr level := by
  have amount := toNat_shift inside
  have small : 12 + 9 * level < 64 := by omega
  rw [index, @toNat_low 0x1ff 9 rfl, UInt64.toNat_shiftRight, amount, Nat.mod_eq_of_lt small, Nat.shiftRight_eq_div_pow]
  rfl

theorem entryAt_slot (page : Nat) (vaddr : UInt64) :
    entryAt vaddr level (UInt64.ofNat (page * 4096)) = UInt64.ofNat (slot page vaddr level) := by
  rw [entryAt, slot, UInt64.ofNat_add, UInt64.ofNat_mul (vpn vaddr level), ← toNat_index inside, UInt64.ofNat_toNat]
  rfl

theorem toNat_offsetMask : (offsetMask level).toNat = 2 ^ (12 + 9 * level) - 1 := by
  revert level
  decide

theorem straight_iff (pte : Pte) : pte.address &&& offsetMask level = 0 ↔ pte.pageNumber % 2 ^ (9 * level) = 0 := by
  have split : 2 ^ (12 + 9 * level) = 2 ^ (9 * level) * 4096 := by
    rw [Nat.add_comm, Nat.pow_add]
  rw [← UInt64.toNat_inj, toNat_low (toNat_offsetMask inside), pte.toNat_address, split, Nat.mul_mod_mul_right]
  change pte.pageNumber % 2 ^ (9 * level) * 4096 = 0 ↔ _
  omega

theorem usable_iff (leaf : Pte) (kind : AccessKind) (context : AccessContext) :
    Usable leaf level kind context ↔ Suits leaf level kind context := by
  have granted : leaf.flags.permits kind context = true ↔ leaf.opens context.mxr kind = true ∧ leaf.Admits kind context := by
    rw [PteFlags.permits, Bool.and_eq_true, leaf.allows_opens, leaf.admits_iff]
  constructor
  · intro usable
    have both := granted.mp usable.permitted
    exact ⟨both.1, both.2, (straight_iff inside leaf).mp usable.straight⟩
  · intro suits
    exact ⟨granted.mpr ⟨suits.opens, suits.admits⟩, (straight_iff inside leaf).mpr suits.straight⟩

theorem toNat_page {leaf : Pte} (straight : leaf.pageNumber % 2 ^ (9 * level) = 0) (vaddr : UInt64) :
    (translationOf leaf vaddr level).page.toNat =
      (leaf.pageNumber + vaddr.toNat / 4096 % 2 ^ (9 * level)) * 4096 := by
  have split : 2 ^ (12 + 9 * level) = 4096 * 2 ^ (9 * level) := Nat.pow_add 2 12 _
  have whole : leaf.pageNumber * 4096 = 2 ^ (12 + 9 * level) * (leaf.pageNumber / 2 ^ (9 * level)) := by
    rw [split, Nat.mul_assoc, Nat.mul_div_cancel' (Nat.dvd_of_mod_eq_zero straight), Nat.mul_comm]
  have fields : (vaddr &&& offsetMask level &&& ~~~Pte.pageMask).toNat = vaddr.toNat / 4096 % 2 ^ (9 * level) * 4096 := by
    rw [@toNat_high Pte.pageMask 12 rfl, toNat_low (toNat_offsetMask inside), split]
    change vaddr.toNat % (4096 * 2 ^ (9 * level)) / 4096 * 4096 = _
    rw [Nat.mod_mul_right_div_self]
  have low : vaddr.toNat / 4096 % 2 ^ (9 * level) * 4096 < 2 ^ (12 + 9 * level) := by
    have below : vaddr.toNat / 4096 % 2 ^ (9 * level) < 2 ^ (9 * level) := Nat.mod_lt _ (Nat.two_pow_pos _)
    rw [split]
    omega
  rw [translationOf, UInt64.toNat_or, leaf.toNat_address, fields, whole, ← Nat.two_pow_add_eq_or_of_lt low, ← whole,
    Nat.add_mul]

end Levels

end Sv39

end RvBoard
