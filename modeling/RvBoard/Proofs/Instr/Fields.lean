import Mathlib.Algebra.Group.Nat.Defs
import RvBoard.Instr.Decode
import RvBoard.Instr.Encode

/-!
# Fields of instruction words

The operands of an instruction stand in fields of its word, runs of bits that a format scatters over it. What a format
reads out of these fields it writes back into the same ones.
-/

set_option autoImplicit false

namespace RvBoard

def bitOf (word : UInt32) (i : Nat) : Bool :=
  word.toBitVec.getLsbD i

def lowBits (width : UInt32) : UInt32 :=
  (1 <<< width) - 1

def runOf (low width : UInt32) : UInt32 :=
  lowBits width <<< low

section Bits

variable {a b k low width : UInt32} {i : Nat}

theorem word32_eq_of_bits (same : ∀ i, i < 32 → bitOf a i = bitOf b i) : a = b := by
  apply UInt32.eq_of_toBitVec_eq
  apply BitVec.eq_of_getLsbD_eq
  intro i inside
  exact same i inside

theorem bitOf_or : bitOf (a ||| b) i = (bitOf a i || bitOf b i) := by
  rw [bitOf, UInt32.toBitVec_or, BitVec.getLsbD_or]
  rfl

theorem bitOf_and : bitOf (a &&& b) i = (bitOf a i && bitOf b i) := by
  rw [bitOf, UInt32.toBitVec_and, BitVec.getLsbD_and]
  rfl

theorem shift_small (small : k.toNat < 32) : (k.toBitVec % 32).toNat = k.toNat :=
  Nat.mod_eq_of_lt small

theorem bitOf_shiftLeft (small : k.toNat < 32) :
    bitOf (a <<< k) i = (decide (i < 32) && !decide (i < k.toNat) && bitOf a (i - k.toNat)) := by
  rw [bitOf, UInt32.toBitVec_shiftLeft, BitVec.shiftLeft_eq', shift_small small, BitVec.getLsbD_shiftLeft]
  rfl

theorem bitOf_shiftRight (small : k.toNat < 32) : bitOf (a >>> k) i = bitOf a (k.toNat + i) := by
  rw [bitOf, UInt32.toBitVec_shiftRight, BitVec.ushiftRight_eq', shift_small small, BitVec.getLsbD_ushiftRight]
  rfl

theorem toNat_lowBits (small : width.toNat < 32) : (lowBits width).toNat = 2 ^ width.toNat - 1 := by
  have power : ((1 : UInt32) <<< width).toNat = 2 ^ width.toNat := by
    have below : 2 ^ width.toNat < 2 ^ 32 := Nat.pow_lt_pow_right (by decide) small
    rw [UInt32.toNat_shiftLeft, Nat.mod_eq_of_lt small, UInt32.toNat_one, Nat.one_shiftLeft, Nat.mod_eq_of_lt below]
  have positive : (1 : UInt32) ≤ 1 <<< width := by
    rw [UInt32.le_iff_toNat_le, power]
    exact Nat.one_le_two_pow
  rw [lowBits, UInt32.toNat_sub_of_le _ _ positive, power, UInt32.toNat_one]

theorem bitOf_lowBits (small : width.toNat < 32) : bitOf (lowBits width) i = decide (i < width.toNat) := by
  change (lowBits width).toNat.testBit i = _
  rw [toNat_lowBits small, Nat.testBit_two_pow_sub_one]

theorem bitOf_bitsAt (start : low.toNat < 32) (small : width.toNat < 32) :
    bitOf (bitsAt a low width) i = (bitOf a (low.toNat + i) && decide (i < width.toNat)) := by
  rw [bitsAt, bitOf_and, bitOf_shiftRight start]
  congr 1
  exact bitOf_lowBits small

theorem bitsAt_shift (start : low.toNat < 32) (small : width.toNat < 32) :
    bitsAt a low width <<< low = a &&& runOf low width := by
  apply word32_eq_of_bits
  intro i inside
  rw [bitOf_shiftLeft start, bitOf_bitsAt start small, runOf, bitOf_and, bitOf_shiftLeft start, bitOf_lowBits small]
  by_cases below : i < low.toNat
  · simp [below]
  · have place : low.toNat + (i - low.toNat) = i := by omega
    simp [below, inside, place]

theorem bitsAt_or (start : low.toNat < 32) (small : width.toNat < 32) :
    bitsAt (a ||| b) low width = bitsAt a low width ||| bitsAt b low width := by
  apply word32_eq_of_bits
  intro i inside
  rw [bitOf_or, bitOf_bitsAt start small, bitOf_bitsAt start small, bitOf_bitsAt start small, bitOf_or]
  exact Bool.and_or_distrib_right ..

theorem bitsAt_moved (start : low.toNat < 32) (fits : k.toNat + width.toNat ≤ 32) (small : width.toNat < 32)
    (moved : k.toNat < 32) : bitsAt (bitsAt a low width <<< k) k width = bitsAt a low width := by
  apply word32_eq_of_bits
  intro i inside
  rw [bitOf_bitsAt moved small, bitOf_shiftLeft moved, bitOf_bitsAt start small, bitOf_bitsAt start small]
  by_cases within : i < width.toNat
  · have below : k.toNat + i < 32 := by omega
    have above : ¬ k.toNat + i < k.toNat := by omega
    simp [within, below, above]
  · simp [within]

theorem bitsAt_apart {place length : UInt32} (start : low.toNat < 32) (small : width.toNat < 32) (moved : k.toNat < 32)
    (there : place.toNat < 32) (short : length.toNat < 32)
    (apart : k.toNat + width.toNat ≤ place.toNat ∨ place.toNat + length.toNat ≤ k.toNat) :
    bitsAt (bitsAt a low width <<< k) place length = 0 := by
  apply word32_eq_of_bits
  intro i inside
  rw [bitOf_bitsAt there short, bitOf_shiftLeft moved, bitOf_bitsAt start small]
  have none : bitOf 0 i = false := by simp [bitOf]
  rw [none]
  by_cases within : i < length.toNat
  · by_cases above : place.toNat + i < k.toNat
    · simp [above]
    · have outside : ¬ place.toNat + i - k.toNat < width.toNat := by omega
      simp [outside]
  · simp [within]

theorem and_or_and : (a &&& b) ||| (a &&& k) = a &&& (b ||| k) := by
  apply word32_eq_of_bits
  intro i inside
  rw [bitOf_or, bitOf_and, bitOf_and, bitOf_and, bitOf_or]
  exact (Bool.and_or_distrib_left ..).symm

theorem toNat_bitsAt (small : width.toNat < 32) : (bitsAt a low width).toNat = (a >>> low).toNat % 2 ^ width.toNat := by
  change (((a >>> low) &&& lowBits width)).toNat = _
  rw [UInt32.toNat_and, toNat_lowBits small, Nat.and_two_pow_sub_one_eq_mod]

theorem regField_regAt (start : low.toNat < 32) : regField (regAt a low) low = a &&& runOf low 5 := by
  have number : UInt32.ofNat (regAt a low).val = bitsAt a low 5 := by
    apply UInt32.toNat_inj.mp
    have short : (a >>> low).toNat % 32 < UInt32.size := Nat.lt_trans (Nat.mod_lt _ (by decide)) (by decide)
    rw [toNat_bitsAt (by decide)]
    exact UInt32.toNat_ofNat_of_lt' short
  rw [regField, number, bitsAt_shift start (by decide)]

theorem immField_widened {source target : UInt32} :
    immField a.toUInt64 source width target = bitsAt a source width <<< target := by
  rw [immField, bitsAt, UInt32.toUInt32_toUInt64]

end Bits

def Format.operandMask : Format → UInt32
  | .plain => 0
  | .r => 0x01ff8f80
  | .i | .s | .b => 0xffff8f80
  | .u | .j => 0xffffff80
  | .a => 0x07ff8f80

section Formats

variable (word : UInt32)

theorem RArgs.bits_read : RArgs.bits (Format.read word .r) = word &&& Format.r.operandMask := by
  change regField (regAt word 20) 20 ||| regField (regAt word 15) 15 ||| regField (regAt word 7) 7 = _
  simp (disch := decide) only [regField_regAt, and_or_and]
  rfl

theorem IArgs.bits_read : IArgs.bits (Format.read word .i) = word &&& Format.i.operandMask := by
  change immField (immI word).toUInt64 0 12 20 ||| regField (regAt word 15) 15 ||| regField (regAt word 7) 7 = _
  have whole : immI word = bitsAt word 20 12 <<< 0 := UInt32.shiftLeft_zero.symm
  simp (disch := decide) only [immField_widened, whole, bitsAt_moved]
  simp (disch := decide) only [bitsAt_shift, regField_regAt, and_or_and]
  rfl

theorem SArgs.storeBits_read : SArgs.storeBits (Format.read word .s) = word &&& Format.s.operandMask := by
  change immField (immS word).toUInt64 5 7 25 ||| regField (regAt word 20) 20 ||| regField (regAt word 15) 15 |||
    immField (immS word).toUInt64 0 5 7 = _
  have parts : immS word = bitsAt word 25 7 <<< 5 ||| bitsAt word 7 5 <<< 0 := by
    rw [UInt32.shiftLeft_zero]
    rfl
  simp (disch := decide) only [immField_widened, parts, bitsAt_or, bitsAt_moved, bitsAt_apart, UInt32.or_zero,
    UInt32.zero_or]
  simp (disch := decide) only [bitsAt_shift, regField_regAt, and_or_and]
  rfl

theorem SArgs.branchBits_read : SArgs.branchBits (Format.read word .b) = word &&& Format.b.operandMask := by
  change immField (immB word).toUInt64 12 1 31 ||| immField (immB word).toUInt64 5 6 25 ||| regField (regAt word 20) 20 |||
    regField (regAt word 15) 15 ||| immField (immB word).toUInt64 1 4 8 ||| immField (immB word).toUInt64 11 1 7 = _
  simp (disch := decide) only [immField_widened, immB, bitsAt_or, bitsAt_moved, bitsAt_apart, UInt32.or_zero,
    UInt32.zero_or]
  simp (disch := decide) only [bitsAt_shift, regField_regAt, and_or_and]
  rfl

theorem UArgs.upperBits_read : UArgs.upperBits (Format.read word .u) = word &&& Format.u.operandMask := by
  change immField (immU word).toUInt64 12 20 12 ||| regField (regAt word 7) 7 = _
  simp (disch := decide) only [immField_widened, immU, bitsAt_moved]
  simp (disch := decide) only [bitsAt_shift, regField_regAt, and_or_and]
  rfl

theorem UArgs.jumpBits_read : UArgs.jumpBits (Format.read word .j) = word &&& Format.j.operandMask := by
  change immField (immJ word).toUInt64 20 1 31 ||| immField (immJ word).toUInt64 1 10 21 |||
    immField (immJ word).toUInt64 11 1 20 ||| immField (immJ word).toUInt64 12 8 12 ||| regField (regAt word 7) 7 = _
  simp (disch := decide) only [immField_widened, immJ, bitsAt_or, bitsAt_moved, bitsAt_apart, UInt32.or_zero,
    UInt32.zero_or]
  simp (disch := decide) only [bitsAt_shift, regField_regAt, and_or_and]
  rfl

theorem bitsAt_single (low : UInt32) : (bitsAt word low 1 == 1).toUInt32 = bitsAt word low 1 := by
  have small : (bitsAt word low 1).toNat < 2 := by
    rw [toNat_bitsAt (by decide)]
    exact Nat.mod_lt _ (by decide)
  by_cases one : bitsAt word low 1 = 1
  · rw [one]
    rfl
  · have zero : bitsAt word low 1 = 0 := by
      rw [← UInt32.toNat_inj] at one ⊢
      change (bitsAt word low 1).toNat ≠ 1 at one
      change (bitsAt word low 1).toNat = 0
      omega
    rw [zero]
    rfl

theorem AArgs.bits_read : AArgs.bits (Format.read word .a) = word &&& Format.a.operandMask := by
  change (bitsAt word 26 1 == 1).toUInt32 <<< 26 ||| (bitsAt word 25 1 == 1).toUInt32 <<< 25 |||
    regField (regAt word 20) 20 ||| regField (regAt word 15) 15 ||| regField (regAt word 7) 7 = _
  simp (disch := decide) only [bitsAt_single, bitsAt_shift, regField_regAt, and_or_and]
  rfl

theorem IArgs.bits_amount {width operands : UInt32} {mask : UInt64} (short : width.toNat ≤ 12)
    (low : mask = (lowBits width).toUInt64) (fields : runOf 20 width ||| runOf 15 5 ||| runOf 7 5 = operands) :
    IArgs.bits ⟨regAt word 15, regAt word 7, (immI word).toUInt64 &&& mask⟩ = word &&& operands := by
  have amount : bitsAt (immI word &&& lowBits width) 0 12 = bitsAt word 20 width := by
    apply word32_eq_of_bits
    intro i inside
    rw [bitOf_bitsAt (by decide) (by decide), bitOf_and, immI, bitOf_bitsAt (by decide) (by decide),
      bitOf_lowBits (by omega), bitOf_bitsAt (by decide) (by omega)]
    change (bitOf word (20 + (0 + i)) && decide (0 + i < 12) && decide (0 + i < width.toNat) && decide (i < 12)) =
      (bitOf word (20 + i) && decide (i < width.toNat))
    rw [Nat.zero_add]
    by_cases within : i < width.toNat
    · have below : i < 12 := Nat.lt_of_lt_of_le within short
      simp [within, below]
    · simp [within]
  change immField ((immI word).toUInt64 &&& mask) 0 12 20 ||| regField (regAt word 15) 15 ||| regField (regAt word 7) 7 = _
  rw [low, ← UInt32.toUInt64_and, immField_widened, amount, bitsAt_shift (by decide) (by omega), regField_regAt (by decide),
    regField_regAt (by decide), and_or_and, and_or_and, fields]

end Formats

def Op.operandMask : Op → UInt32
  | .aluImm .srai => 0x03ff8f80
  | .aluImm .sraiw => 0x01ff8f80
  | op => op.format.operandMask

theorem write_readArgs (op : Op) (word : UInt32) : op.format.write (op.readArgs word) = word &&& op.operandMask := by
  cases op with
  | aluImm kind =>
    cases kind with
    | srai => exact IArgs.bits_amount word (show (6 : UInt32).toNat ≤ 12 by decide) (by decide) (by decide)
    | sraiw => exact IArgs.bits_amount word (show (5 : UInt32).toNat ≤ 12 by decide) (by decide) (by decide)
    | _ => exact IArgs.bits_read word
  | lui | auipc => exact UArgs.upperBits_read word
  | jal => exact UArgs.jumpBits_read word
  | jalr | load | fence | csr | fenceI => exact IArgs.bits_read word
  | branch => exact SArgs.branchBits_read word
  | store => exact SArgs.storeBits_read word
  | alu | sfenceVma => exact RArgs.bits_read word
  | loadReserved | storeConditional | amo => exact AArgs.bits_read word
  | ecall | ebreak | sret | mret | wfi => exact UInt32.and_zero.symm

end RvBoard
