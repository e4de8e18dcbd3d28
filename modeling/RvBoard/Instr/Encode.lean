import RvBoard.Instr.Table

/-!
# Encoding

The word that stands for an instruction: the fixed bits of the operation's row, with the operands
put into the fields of its format.
-/

set_option autoImplicit false

namespace RvBoard

def regField (reg : Reg) (low : UInt32) : UInt32 :=
  UInt32.ofNat reg.val <<< low

def immField (imm : UInt64) (source width target : UInt32) : UInt32 :=
  ((imm.toUInt32 >>> source) &&& ((1 <<< width) - 1)) <<< target

def RArgs.bits (args : RArgs) : UInt32 :=
  regField args.rs2 20 ||| regField args.rs1 15 ||| regField args.rd 7

def IArgs.bits (args : IArgs) : UInt32 :=
  immField args.imm 0 12 20 ||| regField args.rs1 15 ||| regField args.rd 7

def SArgs.storeBits (args : SArgs) : UInt32 :=
  immField args.imm 5 7 25 ||| regField args.rs2 20 ||| regField args.rs1 15 |||
    immField args.imm 0 5 7

def SArgs.branchBits (args : SArgs) : UInt32 :=
  immField args.imm 12 1 31 ||| immField args.imm 5 6 25 ||| regField args.rs2 20 |||
    regField args.rs1 15 ||| immField args.imm 1 4 8 ||| immField args.imm 11 1 7

def UArgs.upperBits (args : UArgs) : UInt32 :=
  immField args.imm 12 20 12 ||| regField args.rd 7

def UArgs.jumpBits (args : UArgs) : UInt32 :=
  immField args.imm 20 1 31 ||| immField args.imm 1 10 21 ||| immField args.imm 11 1 20 |||
    immField args.imm 12 8 12 ||| regField args.rd 7

def AArgs.bits (args : AArgs) : UInt32 :=
  args.aq.toUInt32 <<< 26 ||| args.rl.toUInt32 <<< 25 |||
    regField args.rs2 20 ||| regField args.rs1 15 ||| regField args.rd 7

def Format.write : (format : Format) → format.Args → UInt32
  | .plain, _ => 0
  | .r, args => RArgs.bits args
  | .i, args => IArgs.bits args
  | .s, args => SArgs.storeBits args
  | .b, args => SArgs.branchBits args
  | .u, args => UArgs.upperBits args
  | .j, args => UArgs.jumpBits args
  | .a, args => AArgs.bits args

def Op.row? (op : Op) : Option Row :=
  rows.find? fun row => row.op == op

def Op.key (op : Op) : UInt32 :=
  match op.row? with
  | some row => row.key
  | none => 0

def encode (instr : Instr) : UInt32 :=
  instr.op.key ||| instr.op.format.write instr.args

end RvBoard
