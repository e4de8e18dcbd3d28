import RvBoard.Instr.Table

/-!
# Compressed instructions

Each 16-bit instruction of the C extension stands for one 32-bit instruction, to which it is
expanded before decoding. Floating-point forms and reserved encodings have no expansion.
-/

set_option autoImplicit false

namespace RvBoard.Compressed

def bits (parcel : UInt16) (low width : UInt32) : UInt32 :=
  (parcel.toUInt32 >>> low) &&& ((1 <<< width) - 1)

def bit (parcel : UInt16) (position : UInt32) : UInt32 :=
  bits parcel position 1

def popularReg (parcel : UInt16) (low : UInt32) : UInt32 :=
  bits parcel low 3 + 8

def extend (width value : UInt32) : UInt32 :=
  ((value <<< (32 - width)).toInt32 >>> (32 - width).toInt32).toUInt32

def sp : UInt32 := 2
def ra : UInt32 := 1

def rType (f7 rs2 rs1 f3 rd major : UInt32) : UInt32 :=
  (f7 <<< 25) ||| (rs2 <<< 20) ||| (rs1 <<< 15) ||| (f3 <<< 12) ||| (rd <<< 7) ||| major

def iType (imm rs1 f3 rd major : UInt32) : UInt32 :=
  ((imm &&& (0xfff : UInt32)) <<< 20) ||| (rs1 <<< 15) ||| (f3 <<< 12) ||| (rd <<< 7) ||| major

def sType (imm rs2 rs1 f3 major : UInt32) : UInt32 :=
  (((imm >>> 5) &&& (0x7f : UInt32)) <<< 25) ||| (rs2 <<< 20) ||| (rs1 <<< 15) ||| (f3 <<< 12) |||
    ((imm &&& (0x1f : UInt32)) <<< 7) ||| major

def bType (imm rs2 rs1 f3 : UInt32) : UInt32 :=
  (((imm >>> 12) &&& (1 : UInt32)) <<< 31) ||| (((imm >>> 5) &&& (0x3f : UInt32)) <<< 25) |||
    (rs2 <<< 20) ||| (rs1 <<< 15) ||| (f3 <<< 12) ||| (((imm >>> 1) &&& (0xf : UInt32)) <<< 8) |||
    (((imm >>> 11) &&& (1 : UInt32)) <<< 7) ||| Opcode.branch

def jType (imm rd : UInt32) : UInt32 :=
  (((imm >>> 20) &&& (1 : UInt32)) <<< 31) ||| (((imm >>> 1) &&& (0x3ff : UInt32)) <<< 21) |||
    (((imm >>> 11) &&& (1 : UInt32)) <<< 20) ||| (((imm >>> 12) &&& (0xff : UInt32)) <<< 12) |||
    (rd <<< 7) ||| Opcode.jal

/-- The word, unless its immediate is one that the encoding reserves. -/
def unlessZero (imm word : UInt32) : Option UInt32 :=
  if imm == 0 then none else some word

def wordOffset (c : UInt16) : UInt32 :=
  (bits c 10 3 <<< 3) ||| (bit c 6 <<< 2) ||| (bit c 5 <<< 6)

def doubleOffset (c : UInt16) : UInt32 :=
  (bits c 10 3 <<< 3) ||| (bits c 5 2 <<< 6)

def addi4spnOffset (c : UInt16) : UInt32 :=
  (bits c 11 2 <<< 4) ||| (bits c 7 4 <<< 6) ||| (bit c 6 <<< 2) ||| (bit c 5 <<< 3)

def shamt (c : UInt16) : UInt32 :=
  (bit c 12 <<< 5) ||| bits c 2 5

def imm6 (c : UInt16) : UInt32 :=
  extend 6 (shamt c)

def addi16spImm (c : UInt16) : UInt32 :=
  (bit c 12 <<< 9) ||| (bit c 6 <<< 4) ||| (bit c 5 <<< 6) ||| (bits c 3 2 <<< 7) |||
    (bit c 2 <<< 5)

def luiImm (c : UInt16) : UInt32 :=
  extend 18 ((bit c 12 <<< 17) ||| (bits c 2 5 <<< 12))

def branchOffset (c : UInt16) : UInt32 :=
  extend 9 ((bit c 12 <<< 8) ||| (bits c 10 2 <<< 3) ||| (bits c 5 2 <<< 6) |||
    (bits c 3 2 <<< 1) ||| (bit c 2 <<< 5))

def jumpOffset (c : UInt16) : UInt32 :=
  extend 12 ((bit c 12 <<< 11) ||| (bit c 11 <<< 4) ||| (bits c 9 2 <<< 8) ||| (bit c 8 <<< 10) |||
    (bit c 7 <<< 6) ||| (bit c 6 <<< 7) ||| (bits c 3 3 <<< 1) ||| (bit c 2 <<< 5))

def lwspOffset (c : UInt16) : UInt32 :=
  (bit c 12 <<< 5) ||| (bits c 4 3 <<< 2) ||| (bits c 2 2 <<< 6)

def ldspOffset (c : UInt16) : UInt32 :=
  (bit c 12 <<< 5) ||| (bits c 5 2 <<< 3) ||| (bits c 2 3 <<< 6)

def swspOffset (c : UInt16) : UInt32 :=
  (bits c 9 4 <<< 2) ||| (bits c 7 2 <<< 6)

def sdspOffset (c : UInt16) : UInt32 :=
  (bits c 10 3 <<< 3) ||| (bits c 7 3 <<< 6)

def quadrant0 (c : UInt16) : Option UInt32 :=
  let rd := popularReg c 2
  let rs1 := popularReg c 7
  match bits c 13 3 with
  | 0b000 => unlessZero (addi4spnOffset c) (iType (addi4spnOffset c) sp 0b000 rd Opcode.opImm)
  | 0b010 => some (iType (wordOffset c) rs1 0b010 rd Opcode.load)
  | 0b011 => some (iType (doubleOffset c) rs1 0b011 rd Opcode.load)
  | 0b110 => some (sType (wordOffset c) rd rs1 0b010 Opcode.store)
  | 0b111 => some (sType (doubleOffset c) rd rs1 0b011 Opcode.store)
  | _ => none

def arithmetic (c : UInt16) : Option UInt32 :=
  let rd := popularReg c 7
  let rs2 := popularReg c 2
  match bits c 10 2 with
  | 0b00 => some (iType (shamt c) rd 0b101 rd Opcode.opImm)
  | 0b01 => some (iType (shamt c ||| 0x400) rd 0b101 rd Opcode.opImm)
  | 0b10 => some (iType (imm6 c) rd 0b111 rd Opcode.opImm)
  | _ =>
    match bit c 12, bits c 5 2 with
    | 0, 0b00 => some (rType 0b0100000 rs2 rd 0b000 rd Opcode.op)
    | 0, 0b01 => some (rType 0 rs2 rd 0b100 rd Opcode.op)
    | 0, 0b10 => some (rType 0 rs2 rd 0b110 rd Opcode.op)
    | 0, 0b11 => some (rType 0 rs2 rd 0b111 rd Opcode.op)
    | 1, 0b00 => some (rType 0b0100000 rs2 rd 0b000 rd Opcode.op32)
    | 1, 0b01 => some (rType 0 rs2 rd 0b000 rd Opcode.op32)
    | _, _ => none

def quadrant1 (c : UInt16) : Option UInt32 :=
  let rd := bits c 7 5
  match bits c 13 3 with
  | 0b000 => some (iType (imm6 c) rd 0b000 rd Opcode.opImm)
  | 0b001 => unlessZero rd (iType (imm6 c) rd 0b000 rd Opcode.opImm32)
  | 0b010 => some (iType (imm6 c) 0 0b000 rd Opcode.opImm)
  | 0b011 =>
    if rd == sp then
      unlessZero (addi16spImm c) (iType (extend 10 (addi16spImm c)) sp 0b000 sp Opcode.opImm)
    else
      unlessZero (luiImm c) ((luiImm c &&& 0xfffff000) ||| (rd <<< (7 : UInt32)) ||| Opcode.lui)
  | 0b100 => arithmetic c
  | 0b101 => some (jType (jumpOffset c) 0)
  | 0b110 => some (bType (branchOffset c) 0 (popularReg c 7) 0)
  | _ => some (bType (branchOffset c) 0 (popularReg c 7) 1)

def quadrant2 (c : UInt16) : Option UInt32 :=
  let rd := bits c 7 5
  let rs2 := bits c 2 5
  match bits c 13 3 with
  | 0b000 => some (iType (shamt c) rd 0b001 rd Opcode.opImm)
  | 0b010 => unlessZero rd (iType (lwspOffset c) sp 0b010 rd Opcode.load)
  | 0b011 => unlessZero rd (iType (ldspOffset c) sp 0b011 rd Opcode.load)
  | 0b100 =>
    match bit c 12 == 0, rd == 0, rs2 == 0 with
    | true, true, true => none
    | true, _, true => some (iType 0 rd 0b000 0 Opcode.jalr)
    | true, _, false => some (rType 0 rs2 0 0b000 rd Opcode.op)
    | false, true, true => some 0x00100073
    | false, false, true => some (iType 0 rd 0b000 ra Opcode.jalr)
    | false, _, false => some (rType 0 rs2 rd 0b000 rd Opcode.op)
  | 0b110 => some (sType (swspOffset c) rs2 sp 0b010 Opcode.store)
  | 0b111 => some (sType (sdspOffset c) rs2 sp 0b011 Opcode.store)
  | _ => none

def expand (c : UInt16) : Option UInt32 :=
  match bits c 0 2 with
  | 0b00 => quadrant0 c
  | 0b01 => quadrant1 c
  | 0b10 => quadrant2 c
  | _ => none

end RvBoard.Compressed
