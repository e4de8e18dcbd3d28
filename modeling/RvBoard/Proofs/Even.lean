import RvBoard.Proofs.Bits

/-!
# Even words

Instructions stand at even addresses. A word is even when its lowest bit is clear, which sums, masks and sign extensions
of even words keep.
-/

set_option autoImplicit false

namespace RvBoard

def IsEven (word : UInt64) : Prop :=
  word.toNat % 2 = 0

instance (word : UInt64) : Decidable (IsEven word) :=
  inferInstanceAs (Decidable (_ = _))

theorem isEven_iff {word : UInt64} : IsEven word ↔ word.toBitVec.getLsbD 0 = false := by
  have bit : word.toBitVec.getLsbD 0 = decide (word.toNat % 2 = 1) := Nat.testBit_zero word.toNat
  rw [bit, decide_eq_false_iff_not]
  unfold IsEven
  omega

theorem isEven_add {a b : UInt64} (left : IsEven a) (right : IsEven b) : IsEven (a + b) := by
  unfold IsEven at *
  rw [UInt64.toNat_add]
  omega

theorem isEven_and {a mask : UInt64} (even : IsEven mask) : IsEven (a &&& mask) := by
  rw [isEven_iff] at even ⊢
  rw [UInt64.toBitVec_and, BitVec.getLsbD_and, even, Bool.and_false]

theorem isEven_masked {word : UInt64} : IsEven word ↔ word &&& 1 = 0 := by
  unfold IsEven
  rw [← UInt64.toNat_inj, UInt64.toNat_and]
  exact Nat.and_one_is_mod word.toNat ▸ Iff.rfl

theorem isEven_congr {a b mask : UInt64} (lowest : mask &&& 1 = 1) (same : a &&& mask = b &&& mask) :
    IsEven a ↔ IsEven b := by
  have masked : ∀ word : UInt64, word &&& mask &&& 1 = word &&& 1 := by
    intro word
    rw [UInt64.and_assoc, lowest]
  rw [isEven_masked, isEven_masked, ← masked a, ← masked b, same]

theorem even_masked {word : UInt64} (even : IsEven word) : word &&& ~~~1 = word := by
  apply UInt64.toNat_inj.mp
  have half : word.toNat % 2 = 0 := even
  have high : (word &&& ~~~(1 : UInt64)).toNat = word.toNat / 2 * 2 := @toNat_high 1 1 rfl word
  omega

theorem aligned_parcel (address : UInt64) : aligned 1 address = true ↔ IsEven address := by
  unfold aligned IsEven
  exact beq_iff_eq

theorem isEven_extended {value shift : UInt64} {n : Nat} (small : n < 64) (up : (shift.toBitVec % 64).toNat = n)
    (down : (shift.toInt64.toBitVec.smod 64).toNat = n) (even : IsEven value) :
    IsEven ((value <<< shift).toInt64 >>> shift.toInt64).toUInt64 := by
  rw [isEven_iff] at even ⊢
  rw [Int64.toBitVec_toUInt64, Int64.toBitVec_shiftRight, UInt64.toBitVec_toInt64, BitVec.sshiftRight_eq', down,
    BitVec.getLsbD_sshiftRight, UInt64.toBitVec_shiftLeft, BitVec.shiftLeft_eq', up, Nat.add_zero, if_pos small,
    BitVec.getLsbD_shiftLeft, Nat.sub_self, even]
  simp

theorem isEven_branch {offset : UInt64} (even : IsEven offset) : IsEven (signExtend 13 offset) :=
  isEven_extended (show 51 < 64 by decide) (by decide) (by decide) even

theorem isEven_jump {offset : UInt64} (even : IsEven offset) : IsEven (signExtend 21 offset) :=
  isEven_extended (show 43 < 64 by decide) (by decide) (by decide) even

theorem lowest_shifted (value : UInt32) {k : UInt32} (up : 0 < (k.toBitVec % 32).toNat) :
    (value <<< k).toBitVec.getLsbD 0 = false := by
  rw [UInt32.toBitVec_shiftLeft, BitVec.shiftLeft_eq', BitVec.getLsbD_shiftLeft, decide_eq_true up]
  rfl

theorem isEven_widened {word : UInt32} (lowest : word.toBitVec.getLsbD 0 = false) : IsEven word.toUInt64 := by
  rw [isEven_iff, UInt32.toBitVec_toUInt64, BitVec.getLsbD_setWidth, lowest, Bool.and_false]

end RvBoard
