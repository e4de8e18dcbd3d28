import Mathlib.Algebra.Group.Nat.Defs
import RvBoard.Word

/-!
# Masks

Words are compared bit by bit. The laws that follow say what setting and clearing some bits does to
the bits under a mask: nothing, where the two have no bit in common.
-/

set_option autoImplicit false

namespace RvBoard

theorem word_eq_of_bits {a b : UInt64}
    (same : ∀ i, i < 64 → a.toBitVec.getLsbD i = b.toBitVec.getLsbD i) : a = b := by
  apply UInt64.eq_of_toBitVec_eq
  apply BitVec.eq_of_getLsbD_eq
  intro i inside
  exact same i inside

theorem byte_eq_of_bits {a b : UInt8}
    (same : ∀ i, i < 8 → a.toBitVec.getLsbD i = b.toBitVec.getLsbD i) : a = b := by
  apply UInt8.eq_of_toBitVec_eq
  apply BitVec.eq_of_getLsbD_eq
  intro i inside
  exact same i inside

theorem word_single {mask : UInt64} {k : Nat} (inside : k < 64) (single : ∀ i < 64, mask.toBitVec.getLsbD i = decide (i = k))
    (a : UInt64) : (a &&& mask != 0) = a.toBitVec.getLsbD k := by
  cases bit : a.toBitVec.getLsbD k with
  | true =>
    rw [bne_iff_ne]
    intro none
    have same : (a &&& mask).toBitVec.getLsbD k = (0 : UInt64).toBitVec.getLsbD k := by rw [none]
    rw [UInt64.toBitVec_and, BitVec.getLsbD_and, bit, single k inside, decide_eq_true rfl] at same
    simp at same
  | false =>
    have none : a &&& mask = 0 := by
      apply word_eq_of_bits
      intro i below
      rw [UInt64.toBitVec_and, BitVec.getLsbD_and, single i below]
      by_cases here : i = k
      · rw [here, bit]
        simp
      · simp [here]
    rw [none]
    rfl

theorem toNat_low {mask : UInt64} {k : Nat} (low : mask.toNat = 2 ^ k - 1) (a : UInt64) :
    (a &&& mask).toNat = a.toNat % 2 ^ k := by
  rw [UInt64.toNat_and, low, Nat.and_two_pow_sub_one_eq_mod]

theorem toNat_high {mask : UInt64} {k : Nat} (low : mask.toNat = 2 ^ k - 1) (a : UInt64) :
    (a &&& ~~~mask).toNat = a.toNat / 2 ^ k * 2 ^ k := by
  have bound := mask.toNat_lt
  have flipped : (~~~mask).toNat = 2 ^ 64 - (mask.toNat + 1) := by
    rw [UInt64.toNat_not]
    change 2 ^ 64 - 1 - mask.toNat = _
    omega
  rw [UInt64.toNat_and, flipped]
  apply Nat.eq_of_testBit_eq
  intro i
  rw [Nat.testBit_and, Nat.testBit_two_pow_sub_succ bound, low, Nat.testBit_two_pow_sub_one,
    Nat.testBit_mul_two_pow, Nat.testBit_div_two_pow]
  by_cases above : k ≤ i
  · have place : i - k + k = i := by omega
    have apart : ¬ i < k := by omega
    rw [place, decide_eq_true above, decide_eq_false apart]
    by_cases inside : i < 64
    · simp [inside]
    · rw [Nat.testBit_lt_two_pow (Nat.lt_of_lt_of_le a.toNat_lt (Nat.pow_le_pow_right (by decide) (by omega)))]
      simp
  · have below : i < k := by omega
    simp [above, below]

theorem word_or_and (a b mask : UInt64) : (a ||| b) &&& mask = (a &&& mask) ||| (b &&& mask) := by
  apply word_eq_of_bits
  intro i inside
  simp only [UInt64.toBitVec_and, UInt64.toBitVec_or, BitVec.getLsbD_and, BitVec.getLsbD_or]
  exact Bool.and_or_distrib_right ..

theorem byte_or_and (a b mask : UInt8) : (a ||| b) &&& mask = (a &&& mask) ||| (b &&& mask) := by
  apply byte_eq_of_bits
  intro i inside
  simp only [UInt8.toBitVec_and, UInt8.toBitVec_or, BitVec.getLsbD_and, BitVec.getLsbD_or]
  exact Bool.and_or_distrib_right ..

theorem word_set_and (a bits mask : UInt64) (apart : bits &&& mask = 0) :
    (a ||| bits) &&& mask = a &&& mask := by
  rw [word_or_and, apart, UInt64.or_zero]

theorem byte_set_and (a bits mask : UInt8) (apart : bits &&& mask = 0) :
    (a ||| bits) &&& mask = a &&& mask := by
  rw [byte_or_and, apart, UInt8.or_zero]

theorem word_not_and (bits mask : UInt64) (apart : bits &&& mask = 0) : ~~~bits &&& mask = mask := by
  have all : (bits ||| ~~~bits) &&& mask = mask := by
    rw [UInt64.or_not_self, UInt64.neg_one_and]
  rw [word_or_and, apart, UInt64.zero_or] at all
  exact all

theorem word_clear_and (a bits mask : UInt64) (apart : bits &&& mask = 0) :
    (a &&& ~~~bits) &&& mask = a &&& mask := by
  rw [UInt64.and_assoc, word_not_and bits mask apart]

theorem word_or_and_self (a mask : UInt64) : (a ||| mask) &&& mask = mask := by
  apply word_eq_of_bits
  intro i inside
  simp only [UInt64.toBitVec_and, UInt64.toBitVec_or, BitVec.getLsbD_and, BitVec.getLsbD_or]
  cases mask.toBitVec.getLsbD i <;> simp

theorem bit_merge (old value writable mask : Bool) (same : (value && mask) = (old && mask)) :
    ((old && !writable || value && writable) && mask) = (old && mask) := by
  revert old value writable mask
  decide

theorem merge_and (writable old value mask : UInt64) (same : value &&& mask = old &&& mask) :
    ((old &&& ~~~writable) ||| (value &&& writable)) &&& mask = old &&& mask := by
  apply word_eq_of_bits
  intro i inside
  have bit := congrArg (fun word : UInt64 => word.toBitVec.getLsbD i) same
  simp only [UInt64.toBitVec_and, BitVec.getLsbD_and] at bit
  simp only [UInt64.toBitVec_and, UInt64.toBitVec_or, UInt64.toBitVec_not, BitVec.getLsbD_and, BitVec.getLsbD_or,
    BitVec.getLsbD_not, inside, decide_true, Bool.true_and]
  exact bit_merge _ _ _ _ bit

theorem merge_outside (writable old value mask : UInt64) (apart : writable &&& mask = 0) :
    ((old &&& ~~~writable) ||| (value &&& writable)) &&& mask = old &&& mask := by
  have outside : value &&& writable &&& mask = 0 := by
    rw [UInt64.and_assoc, apart, UInt64.and_zero]
  rw [word_set_and _ _ _ outside]
  exact word_clear_and _ _ _ apart

theorem merge_inside (writable old value mask : UInt64) (inside : writable &&& mask = mask) :
    ((old &&& ~~~writable) ||| (value &&& writable)) &&& mask = value &&& mask := by
  have kept : ~~~writable &&& mask = 0 := by
    rw [← inside, ← UInt64.and_assoc, UInt64.not_and_self, UInt64.zero_and]
  rw [word_or_and, UInt64.and_assoc old, kept, UInt64.and_zero, UInt64.zero_or, UInt64.and_assoc, inside]

theorem bit_shiftRight (a n : UInt64) (i : Nat) (small : n.toNat < 64) :
    (a >>> n).toBitVec.getLsbD i = a.toBitVec.getLsbD (n.toNat + i) := by
  rw [UInt64.toBitVec_shiftRight, BitVec.ushiftRight_eq', BitVec.getLsbD_ushiftRight]
  congr 2
  change n.toNat % 64 = n.toNat
  omega

theorem byte_shiftRight (byte : UInt8) {n : UInt64} (small : n.toNat < 64) (above : 8 ≤ n.toNat) :
    byte.toUInt64 >>> n = 0 := by
  apply word_eq_of_bits
  intro i inside
  rw [bit_shiftRight _ _ _ small, UInt8.toBitVec_toUInt64, BitVec.getLsbD_setWidth,
    BitVec.getLsbD_of_ge byte.toBitVec _ (by omega), Bool.and_false]
  simp

theorem shiftRight_congr {a b n : UInt64} (small : n.toNat < 64)
    (same : ∀ i, n.toNat ≤ i → a.toBitVec.getLsbD i = b.toBitVec.getLsbD i) : a >>> n = b >>> n := by
  apply word_eq_of_bits
  intro i inside
  rw [bit_shiftRight a n i small, bit_shiftRight b n i small, same _ (Nat.le_add_right ..)]

theorem bits_of_shiftRight {a b n : UInt64} (small : n.toNat < 64) (same : a >>> n = b >>> n) (i : Nat)
    (above : n.toNat ≤ i) : a.toBitVec.getLsbD i = b.toBitVec.getLsbD i := by
  have place : n.toNat + (i - n.toNat) = i := by omega
  rw [← place, ← bit_shiftRight a n _ small, ← bit_shiftRight b n _ small, same]

end RvBoard
