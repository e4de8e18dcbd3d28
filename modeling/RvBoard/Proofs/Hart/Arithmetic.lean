import Mathlib.Algebra.Group.Int.Defs
import Mathlib.Algebra.Group.Nat.Defs
import RvBoard.Hart.Arithmetic

/-!
# Exact products and quotients

What multiplication and division make of words, said of the numbers that the words stand for. A word is
read as a number from zero on or in two's complement.
-/

set_option autoImplicit false

namespace RvBoard

inductive Reading where
  | unsigned
  | signed
deriving DecidableEq

variable {w : Nat}

def Reading.of (reading : Reading) (a : BitVec w) : Int :=
  match reading with
  | .unsigned => a.toNat
  | .signed => a.toInt

namespace Arithmetic

-- The lower word of a product is the same however the factors are read.
def LowWord (a b low : BitVec w) : Prop :=
  ∀ first second : Reading, (low.toNat : Int) = (first.of a * second.of b) % 2 ^ w

-- The upper word of a product, which is read like its first factor.
def HighWord (first second : Reading) (a b high : BitVec w) : Prop :=
  first.of high = first.of a * second.of b / 2 ^ w

def Overflows (reading : Reading) (a b : BitVec w) : Prop :=
  reading = .signed ∧ a = BitVec.intMin w ∧ b = -1#w

structure Quotient (a b q r : Int) : Prop where
  towardsZero : q = a.tdiv b
  whole : a = q * b + r
  small : r.natAbs < b.natAbs
  sign : r = 0 ∨ r.sign = a.sign

structure Divides (reading : Reading) (a b q r : BitVec w) : Prop where
  byZero : b = 0 → q = BitVec.allOnes w ∧ r = a
  overflow : Overflows reading a b → q = a ∧ r = 0
  exact : b ≠ 0 → ¬ Overflows reading a b → Quotient (reading.of a) (reading.of b) (reading.of q) (reading.of r)

section Products

theorem ofReading (reading : Reading) (a : BitVec w) : ∃ turns : Int, reading.of a = a.toNat + turns * 2 ^ w := by
  cases reading with
  | unsigned => exact ⟨0, by simp [Reading.of]⟩
  | signed =>
    rw [Reading.of, BitVec.toInt_eq_toNat_cond]
    split
    · exact ⟨0, by simp⟩
    · exact ⟨-1, by simp; omega⟩

theorem lowWord_mul (a b : BitVec w) : LowWord a b (a * b) := by
  intro first second
  obtain ⟨turnsA, readA⟩ := ofReading first a
  obtain ⟨turnsB, readB⟩ := ofReading second b
  have product : first.of a * second.of b =
      (a.toNat * b.toNat : Nat) + 2 ^ w * (turnsA * b.toNat + turnsB * a.toNat + turnsA * turnsB * 2 ^ w) := by
    rw [readA, readB, Int.natCast_mul]
    grind
  rw [product, Int.add_mul_emod_self_left, BitVec.toNat_mul]
  simp

theorem high_turns (a b : Nat) (turnsA turnsB : Int) :
    (a + turnsA * 2 ^ 64) * (b + turnsB * 2 ^ 64) / 2 ^ 64 =
      (a * b / 2 ^ 64 : Nat) + (turnsA * b + turnsB * a + turnsA * turnsB * 2 ^ 64) := by
  have product : (a + turnsA * 2 ^ 64) * (b + turnsB * 2 ^ 64) =
      (a * b : Nat) + (turnsA * b + turnsB * a + turnsA * turnsB * 2 ^ 64) * 2 ^ 64 := by
    rw [Int.natCast_mul]
    grind
  rw [product, Int.add_mul_ediv_right _ _ (by decide)]
  rfl

theorem toInt_turns (a : UInt64) : a.toBitVec.toInt = a.toNat + (if isNegative a then -1 else 0) * 2 ^ 64 := by
  have half : isNegative a = true ↔ ¬ 2 * a.toNat < 2 ^ 64 := by
    have shifted : (a >>> 63).toNat = a.toNat / 2 ^ 63 := by
      rw [UInt64.toNat_shiftRight]
      exact Nat.shiftRight_eq_div_pow _ _
    have bound := a.toNat_lt
    rw [isNegative, bne_iff_ne, ne_eq, ← UInt64.toNat_inj, shifted]
    change ¬ a.toNat / 2 ^ 63 = 0 ↔ _
    omega
  rw [BitVec.toInt_eq_toNat_cond]
  change (if 2 * a.toNat < 2 ^ 64 then (a.toNat : Int) else a.toNat - 2 ^ 64) = _
  by_cases negative : isNegative a = true
  · rw [if_neg (half.mp negative), if_pos negative]
    omega
  · rw [if_pos (Decidable.byContradiction (mt half.mpr negative)), if_neg negative]
    omega

theorem toInt_of_congr {word : UInt64} {p : Int} (small : p.natAbs < 2 ^ 127)
    (same : (word.toNat : Int) = p / 2 ^ 64 % 2 ^ 64) : word.toBitVec.toInt = p / 2 ^ 64 := by
  rw [BitVec.toInt_eq_toNat_cond]
  change (if 2 * word.toNat < 2 ^ 64 then (word.toNat : Int) else word.toNat - 2 ^ 64) = _
  split <;> omega

theorem toNat_mulhu (a b : UInt64) : (mulhu a b).toNat = a.toNat * b.toNat / 2 ^ 64 := by
  have bound := Nat.mul_lt_mul'' a.toNat_lt b.toNat_lt
  rw [mulhu, UInt64.toNat_ofNat']
  exact Nat.mod_eq_of_lt (Nat.div_lt_of_lt_mul bound)

theorem highWord_mulhu (a b : UInt64) : HighWord .unsigned .unsigned a.toBitVec b.toBitVec (mulhu a b).toBitVec := by
  change ((mulhu a b).toNat : Int) = a.toNat * b.toNat / 2 ^ 64
  rw [toNat_mulhu]
  rfl

theorem toNat_taken (high other : UInt64) (negative : Bool) : ((high - (if negative then other else 0)).toNat : Int) =
    (high.toNat + (if negative then -1 else 0) * other.toNat) % 2 ^ 64 := by
  have bound := high.toNat_lt
  have boundOther := other.toNat_lt
  rw [UInt64.toNat_sub]
  cases negative with
  | true =>
    rw [if_pos rfl, if_pos rfl]
    omega
  | false =>
    change (((2 ^ 64 - 0 + high.toNat) % 2 ^ 64 : Nat) : Int) = (high.toNat + 0 * other.toNat) % 2 ^ 64
    omega

theorem natAbs_toInt (a : UInt64) : a.toBitVec.toInt.natAbs ≤ 2 ^ 63 := by
  have bound := a.toNat_lt
  rw [BitVec.toInt_eq_toNat_cond]
  change (if 2 * a.toNat < 2 ^ 64 then (a.toNat : Int) else a.toNat - 2 ^ 64).natAbs ≤ _
  split <;> omega

theorem highWord_mulhsu (a b : UInt64) : HighWord .signed .unsigned a.toBitVec b.toBitVec (mulhsu a b).toBitVec := by
  change (mulhsu a b).toBitVec.toInt = a.toBitVec.toInt * b.toNat / 2 ^ 64
  have size : (a.toBitVec.toInt * b.toNat).natAbs < 2 ^ 127 := by
    have factors := Nat.mul_le_mul (natAbs_toInt a) (Nat.le_sub_one_of_lt b.toNat_lt)
    rw [Int.natAbs_mul, Int.natAbs_natCast]
    omega
  have turned := high_turns a.toNat b.toNat (if isNegative a then -1 else 0) 0
  simp only [Int.zero_mul, Int.add_zero, Int.mul_zero] at turned
  refine toInt_of_congr size ?_
  rw [toInt_turns, turned, mulhsu, toNat_taken, toNat_mulhu]

theorem highWord_mulh (a b : UInt64) : HighWord .signed .signed a.toBitVec b.toBitVec (mulh a b).toBitVec := by
  change (mulh a b).toBitVec.toInt = a.toBitVec.toInt * b.toBitVec.toInt / 2 ^ 64
  have size : (a.toBitVec.toInt * b.toBitVec.toInt).natAbs < 2 ^ 127 := by
    have factors := Nat.mul_le_mul (natAbs_toInt a) (natAbs_toInt b)
    rw [Int.natAbs_mul]
    omega
  refine toInt_of_congr size ?_
  rw [toInt_turns, toInt_turns, high_turns, mulh, toNat_taken, mulhsu, toNat_taken, toNat_mulhu]
  omega

end Products

section Quotients

theorem quotient_of {a b : Int} (some : b ≠ 0) : Quotient a b (a.tdiv b) (a.tmod b) where
  towardsZero := rfl
  whole := by
    rw [Int.mul_comm]
    exact (Int.mul_tdiv_add_tmod a b).symm
  small := by
    rw [Int.natAbs_tmod]
    exact Nat.mod_lt _ (Int.natAbs_pos.mpr some)
  sign := by
    rw [Int.sign_tmod, ← Int.dvd_iff_tmod_eq_zero]
    by_cases divides : b ∣ a
    · exact .inl divides
    · exact .inr (if_neg divides)

def quotient (reading : Reading) (a b : BitVec w) : BitVec w :=
  match reading with
  | .unsigned => if b = 0 then BitVec.allOnes w else a / b
  | .signed => if b = 0 then BitVec.allOnes w else a.sdiv b

def remainder (reading : Reading) (a b : BitVec w) : BitVec w :=
  match reading with
  | .unsigned => if b = 0 then a else a % b
  | .signed => if b = 0 then a else a.srem b

theorem divides_unsigned (a b : BitVec w) : Divides .unsigned a b (quotient .unsigned a b) (remainder .unsigned a b) where
  byZero zero := ⟨if_pos zero, if_pos zero⟩
  overflow overflows := by cases overflows.1
  exact some fits := by
    have positive : (b.toNat : Int) ≠ 0 := fun zero => some (BitVec.eq_of_toNat_eq (Int.ofNat_inj.mp zero))
    have parts := @quotient_of a.toNat b.toNat positive
    rw [← Int.ofNat_tdiv, ← Int.ofNat_tmod, ← BitVec.toNat_udiv, ← BitVec.toNat_umod] at parts
    simpa only [quotient, remainder, if_neg some, Reading.of] using parts

theorem divides_signed (a b : BitVec w) : Divides .signed a b (quotient .signed a b) (remainder .signed a b) where
  byZero zero := ⟨if_pos zero, if_pos zero⟩
  overflow overflows := by
    obtain ⟨_, rfl, rfl⟩ := overflows
    by_cases empty : w = 0
    · exact ⟨BitVec.eq_of_zero_length empty, BitVec.eq_of_zero_length empty⟩
    · have some : -1#w ≠ 0 := by simpa using empty
      have none : (BitVec.intMin w).srem (-1#w) = 0 := by
        apply BitVec.eq_of_toInt_eq
        rw [BitVec.toInt_srem, BitVec.neg_one_eq_allOnes, BitVec.toInt_allOnes, if_pos (Nat.pos_of_ne_zero empty)]
        simp
      rw [quotient, remainder, if_neg some, if_neg some]
      exact ⟨BitVec.intMin_sdiv_neg_one, none⟩
  exact some fits := by
    have nonzero : b.toInt ≠ 0 := fun zero => some (BitVec.eq_of_toInt_eq (zero.trans BitVec.toInt_zero.symm))
    have inside : a ≠ BitVec.intMin w ∨ b ≠ -1#w := by
      by_cases least : a = BitVec.intMin w
      · exact .inr fun minus => fits ⟨rfl, least, minus⟩
      · exact .inl least
    have parts := @quotient_of a.toInt b.toInt nonzero
    rw [← BitVec.toInt_sdiv_of_ne_or_ne a b inside, ← BitVec.toInt_srem] at parts
    simpa only [quotient, remainder, if_neg some, Reading.of] using parts

end Quotients

section Words

theorem div_toBitVec (a b : UInt64) : (div a b).toBitVec = quotient .signed a.toBitVec b.toBitVec ∧
    (rem a b).toBitVec = remainder .signed a.toBitVec b.toBitVec := by
  by_cases zero : b = 0
  · subst zero
    exact ⟨rfl, rfl⟩
  · have some : b.toBitVec ≠ 0 := fun none => zero (UInt64.eq_of_toBitVec_eq none)
    rw [div, rem, quotient, remainder, if_neg zero, if_neg zero, if_neg some, if_neg some]
    exact ⟨Int64.toBitVec_div, Int64.toBitVec_mod⟩

theorem divu_toBitVec (a b : UInt64) : (divu a b).toBitVec = quotient .unsigned a.toBitVec b.toBitVec ∧
    (remu a b).toBitVec = remainder .unsigned a.toBitVec b.toBitVec := by
  by_cases zero : b = 0
  · subst zero
    exact ⟨rfl, rfl⟩
  · have some : b.toBitVec ≠ 0 := fun none => zero (UInt64.eq_of_toBitVec_eq none)
    rw [divu, remu, quotient, remainder, if_neg zero, if_neg zero, if_neg some, if_neg some]
    exact ⟨rfl, rfl⟩

theorem signExtend32_toBitVec (x : UInt32) : (signExtend32 x).toBitVec = x.toBitVec.signExtend 64 := by
  have shifted : (signExtend32 x).toBitVec = (x.toBitVec.setWidth 64 <<< 32).sshiftRight 32 := rfl
  rw [shifted]
  apply BitVec.eq_of_getLsbD_eq
  intro i inside
  rw [BitVec.getLsbD_sshiftRight, BitVec.getLsbD_signExtend, BitVec.msb_eq_getLsbD_last, BitVec.msb_eq_getLsbD_last]
  by_cases low : i < 32
  · have place : 32 + i < 64 := by omega
    have above : ¬ 32 + i < 32 := by omega
    have within : ¬ 64 ≤ i := by omega
    simp [low, inside, place, above, within]
  · have place : ¬ 32 + i < 64 := by omega
    simp [low, inside, place]

theorem divw_toBitVec (a b : UInt32) : (divw a b).toBitVec = (quotient .signed a.toBitVec b.toBitVec).signExtend 64 ∧
    (remw a b).toBitVec = (remainder .signed a.toBitVec b.toBitVec).signExtend 64 := by
  by_cases zero : b = 0
  · subst zero
    exact ⟨rfl, signExtend32_toBitVec a⟩
  · have some : b.toBitVec ≠ 0 := fun none => zero (UInt32.eq_of_toBitVec_eq none)
    have divided : (a.toInt32 / b.toInt32).toUInt32.toBitVec = a.toBitVec.sdiv b.toBitVec := Int32.toBitVec_div
    have left : (a.toInt32 % b.toInt32).toUInt32.toBitVec = a.toBitVec.srem b.toBitVec := Int32.toBitVec_mod
    rw [divw, remw, quotient, remainder, if_neg zero, if_neg zero, if_neg some, if_neg some, ← divided, ← left]
    exact ⟨signExtend32_toBitVec _, signExtend32_toBitVec _⟩

theorem divuw_toBitVec (a b : UInt32) : (divuw a b).toBitVec = (quotient .unsigned a.toBitVec b.toBitVec).signExtend 64 ∧
    (remuw a b).toBitVec = (remainder .unsigned a.toBitVec b.toBitVec).signExtend 64 := by
  by_cases zero : b = 0
  · subst zero
    exact ⟨rfl, signExtend32_toBitVec a⟩
  · have some : b.toBitVec ≠ 0 := fun none => zero (UInt32.eq_of_toBitVec_eq none)
    rw [divuw, remuw, quotient, remainder, if_neg zero, if_neg zero, if_neg some, if_neg some]
    exact ⟨signExtend32_toBitVec _, signExtend32_toBitVec _⟩

end Words

-- All products, quotients and remainders of two words.
structure Exact (a b : UInt64) : Prop where
  mul : LowWord a.toBitVec b.toBitVec (Alu.mul.apply a b).toBitVec
  mulh : HighWord .signed .signed a.toBitVec b.toBitVec (Alu.mulh.apply a b).toBitVec
  mulhsu : HighWord .signed .unsigned a.toBitVec b.toBitVec (Alu.mulhsu.apply a b).toBitVec
  mulhu : HighWord .unsigned .unsigned a.toBitVec b.toBitVec (Alu.mulhu.apply a b).toBitVec
  signed : Divides .signed a.toBitVec b.toBitVec (Alu.div.apply a b).toBitVec (Alu.rem.apply a b).toBitVec
  unsigned : Divides .unsigned a.toBitVec b.toBitVec (Alu.divu.apply a b).toBitVec (Alu.remu.apply a b).toBitVec
  -- The rest is about the lower halves, with the results extended.
  mulw : ∃ low : BitVec 32, (Alu.mulw.apply a b).toBitVec = low.signExtend 64 ∧
    LowWord (a.toBitVec.setWidth 32) (b.toBitVec.setWidth 32) low
  signedWord : ∃ q r : BitVec 32, (Alu.divw.apply a b).toBitVec = q.signExtend 64 ∧
    (Alu.remw.apply a b).toBitVec = r.signExtend 64 ∧ Divides .signed (a.toBitVec.setWidth 32) (b.toBitVec.setWidth 32) q r
  unsignedWord : ∃ q r : BitVec 32, (Alu.divuw.apply a b).toBitVec = q.signExtend 64 ∧
    (Alu.remuw.apply a b).toBitVec = r.signExtend 64 ∧
    Divides .unsigned (a.toBitVec.setWidth 32) (b.toBitVec.setWidth 32) q r

/-- Multiplication gives the words of the exact product. Division rounds towards zero and leaves a remainder of the
dividend's sign; by zero it gives all ones and the dividend, and where the quotient is no word, the dividend and zero. -/
theorem products_quotients_exact (a b : UInt64) : Exact a b where
  mul := lowWord_mul a.toBitVec b.toBitVec
  mulh := highWord_mulh a b
  mulhsu := highWord_mulhsu a b
  mulhu := highWord_mulhu a b
  signed := by
    obtain ⟨quotient, remainder⟩ := div_toBitVec a b
    change Divides _ _ _ (div a b).toBitVec (rem a b).toBitVec
    rw [quotient, remainder]
    exact divides_signed _ _
  unsigned := by
    obtain ⟨quotient, remainder⟩ := divu_toBitVec a b
    change Divides _ _ _ (divu a b).toBitVec (remu a b).toBitVec
    rw [quotient, remainder]
    exact divides_unsigned _ _
  mulw := ⟨_, signExtend32_toBitVec _, lowWord_mul _ _⟩
  signedWord := by
    obtain ⟨quotient, remainder⟩ := divw_toBitVec a.toUInt32 b.toUInt32
    exact ⟨_, _, quotient, remainder, divides_signed _ _⟩
  unsignedWord := by
    obtain ⟨quotient, remainder⟩ := divuw_toBitVec a.toUInt32 b.toUInt32
    exact ⟨_, _, quotient, remainder, divides_unsigned _ _⟩

end Arithmetic

end RvBoard
