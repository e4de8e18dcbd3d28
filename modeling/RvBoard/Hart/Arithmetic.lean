import RvBoard.Instr.Op
import RvBoard.Word

/-!
# Integer arithmetic

The functions of the arithmetic instructions, of branch conditions and of atomic memory operations.
-/

set_option autoImplicit false

namespace RvBoard

namespace Arithmetic

def isNegative (a : UInt64) : Bool :=
  a >>> 63 != 0

def lessSigned (a b : UInt64) : Bool :=
  a.toInt64 < b.toInt64

def mulhu (a b : UInt64) : UInt64 :=
  UInt64.ofNat (a.toNat * b.toNat / UInt64.size)

/-- A negative first factor counts as 2 ^ 64 too much. -/
def mulhsu (a b : UInt64) : UInt64 :=
  mulhu a b - (if isNegative a then b else 0)

def mulh (a b : UInt64) : UInt64 :=
  mulhsu a b - (if isNegative b then a else 0)

def allOnes : UInt64 := 0xffffffffffffffff

def div (a b : UInt64) : UInt64 :=
  if b = 0 then allOnes else (a.toInt64 / b.toInt64).toUInt64

def divu (a b : UInt64) : UInt64 :=
  if b = 0 then allOnes else a / b

def rem (a b : UInt64) : UInt64 :=
  if b = 0 then a else (a.toInt64 % b.toInt64).toUInt64

def remu (a b : UInt64) : UInt64 :=
  if b = 0 then a else a % b

def divw (a b : UInt32) : UInt64 :=
  if b = 0 then allOnes else signExtend32 (a.toInt32 / b.toInt32).toUInt32

def divuw (a b : UInt32) : UInt64 :=
  if b = 0 then allOnes else signExtend32 (a / b)

def remw (a b : UInt32) : UInt64 :=
  if b = 0 then signExtend32 a else signExtend32 (a.toInt32 % b.toInt32).toUInt32

def remuw (a b : UInt32) : UInt64 :=
  if b = 0 then signExtend32 a else signExtend32 (a % b)

end Arithmetic

open Arithmetic

def Alu.apply (op : Alu) (a b : UInt64) : UInt64 :=
  match op with
  | .add => a + b
  | .sub => a - b
  | .sll => a <<< b
  | .slt => (lessSigned a b).toUInt64
  | .sltu => (decide (a < b)).toUInt64
  | .xor => a ^^^ b
  | .srl => a >>> b
  | .sra => (a.toInt64 >>> b.toInt64).toUInt64
  | .or => a ||| b
  | .and => a &&& b
  | .addw => signExtend32 (a.toUInt32 + b.toUInt32)
  | .subw => signExtend32 (a.toUInt32 - b.toUInt32)
  | .sllw => signExtend32 (a.toUInt32 <<< b.toUInt32)
  | .srlw => signExtend32 (a.toUInt32 >>> b.toUInt32)
  | .sraw => signExtend32 (a.toUInt32.toInt32 >>> b.toUInt32.toInt32).toUInt32
  | .mul => a * b
  | .mulh => Arithmetic.mulh a b
  | .mulhsu => Arithmetic.mulhsu a b
  | .mulhu => Arithmetic.mulhu a b
  | .div => Arithmetic.div a b
  | .divu => Arithmetic.divu a b
  | .rem => Arithmetic.rem a b
  | .remu => Arithmetic.remu a b
  | .mulw => signExtend32 (a.toUInt32 * b.toUInt32)
  | .divw => Arithmetic.divw a.toUInt32 b.toUInt32
  | .divuw => Arithmetic.divuw a.toUInt32 b.toUInt32
  | .remw => Arithmetic.remw a.toUInt32 b.toUInt32
  | .remuw => Arithmetic.remuw a.toUInt32 b.toUInt32

def ImmAlu.register : ImmAlu → Alu
  | .addi => .add
  | .slti => .slt
  | .sltiu => .sltu
  | .xori => .xor
  | .ori => .or
  | .andi => .and
  | .slli => .sll
  | .srli => .srl
  | .srai => .sra
  | .addiw => .addw
  | .slliw => .sllw
  | .srliw => .srlw
  | .sraiw => .sraw

def Cond.holds (cond : Cond) (a b : UInt64) : Bool :=
  match cond with
  | .eq => a == b
  | .ne => a != b
  | .lt => lessSigned a b
  | .ge => !lessSigned a b
  | .ltu => a < b
  | .geu => b ≤ a

def LoadOp.size : LoadOp → Nat
  | .lb | .lbu => 0
  | .lh | .lhu => 1
  | .lw | .lwu => 2
  | .ld => 3

def LoadOp.extend : LoadOp → UInt64 → UInt64
  | .lb, value => signExtend 8 value
  | .lh, value => signExtend 16 value
  | .lw, value => signExtend 32 value
  | _, value => value

def StoreOp.size : StoreOp → Nat
  | .sb => 0
  | .sh => 1
  | .sw => 2
  | .sd => 3

def AmoWidth.size : AmoWidth → Nat
  | .word => 2
  | .double => 3

def AmoWidth.extend : AmoWidth → UInt64 → UInt64
  | .word, value => signExtend 32 value
  | .double, value => value

def AmoOp.apply (op : AmoOp) (width : AmoWidth) (old operand : UInt64) : UInt64 :=
  let a := truncate width.size old
  let b := truncate width.size operand
  match op with
  | .swap => b
  | .add => a + b
  | .xor => a ^^^ b
  | .and => a &&& b
  | .or => a ||| b
  | .min => if lessSigned (width.extend b) (width.extend a) then b else a
  | .max => if lessSigned (width.extend a) (width.extend b) then b else a
  | .minu => if b < a then b else a
  | .maxu => if a < b then b else a

end RvBoard
