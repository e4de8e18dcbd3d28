import RvBoard.Instr.Op

/-!
# Instruction text

Mnemonics, the names of the extensions, and the line that shows a decoded instruction with all
its operands.
-/

set_option autoImplicit false

namespace RvBoard

def Alu.mnemonic : Alu → String
  | .add => "ADD" | .sub => "SUB" | .sll => "SLL" | .slt => "SLT" | .sltu => "SLTU"
  | .xor => "XOR" | .srl => "SRL" | .sra => "SRA" | .or => "OR" | .and => "AND"
  | .addw => "ADDW" | .subw => "SUBW" | .sllw => "SLLW" | .srlw => "SRLW" | .sraw => "SRAW"
  | .mul => "MUL" | .mulh => "MULH" | .mulhsu => "MULHSU" | .mulhu => "MULHU"
  | .div => "DIV" | .divu => "DIVU" | .rem => "REM" | .remu => "REMU"
  | .mulw => "MULW" | .divw => "DIVW" | .divuw => "DIVUW" | .remw => "REMW" | .remuw => "REMUW"

def Alu.isMulDiv : Alu → Bool
  | .mul | .mulh | .mulhsu | .mulhu | .div | .divu | .rem | .remu
  | .mulw | .divw | .divuw | .remw | .remuw => true
  | _ => false

def ImmAlu.mnemonic : ImmAlu → String
  | .addi => "ADDI" | .slti => "SLTI" | .sltiu => "SLTIU" | .xori => "XORI" | .ori => "ORI"
  | .andi => "ANDI" | .slli => "SLLI" | .srli => "SRLI" | .srai => "SRAI"
  | .addiw => "ADDIW" | .slliw => "SLLIW" | .srliw => "SRLIW" | .sraiw => "SRAIW"

def Cond.mnemonic : Cond → String
  | .eq => "BEQ" | .ne => "BNE" | .lt => "BLT" | .ge => "BGE" | .ltu => "BLTU" | .geu => "BGEU"

def LoadOp.mnemonic : LoadOp → String
  | .lb => "LB" | .lh => "LH" | .lw => "LW" | .ld => "LD"
  | .lbu => "LBU" | .lhu => "LHU" | .lwu => "LWU"

def StoreOp.mnemonic : StoreOp → String
  | .sb => "SB" | .sh => "SH" | .sw => "SW" | .sd => "SD"

def AmoOp.mnemonic : AmoOp → String
  | .swap => "AMOSWAP" | .add => "AMOADD" | .xor => "AMOXOR" | .and => "AMOAND" | .or => "AMOOR"
  | .min => "AMOMIN" | .max => "AMOMAX" | .minu => "AMOMINU" | .maxu => "AMOMAXU"

def AmoWidth.suffix : AmoWidth → String
  | .word => "_W"
  | .double => "_D"

def CsrOp.mnemonic : CsrOp → String
  | .write => "CSRRW" | .set => "CSRRS" | .clear => "CSRRC"

def Op.mnemonic : Op → String
  | .lui => "LUI" | .auipc => "AUIPC" | .jal => "JAL" | .jalr => "JALR"
  | .branch cond => cond.mnemonic
  | .load op => op.mnemonic
  | .store op => op.mnemonic
  | .aluImm op => op.mnemonic
  | .alu op => op.mnemonic
  | .fence => "FENCE" | .ecall => "ECALL" | .ebreak => "EBREAK"
  | .loadReserved width => "LR" ++ width.suffix
  | .storeConditional width => "SC" ++ width.suffix
  | .amo op width => op.mnemonic ++ width.suffix
  | .csr op immediate => if immediate then op.mnemonic ++ "I" else op.mnemonic
  | .fenceI => "FENCE_I" | .sret => "SRET" | .mret => "MRET" | .wfi => "WFI"
  | .sfenceVma => "SFENCE_VMA"

def Op.extension : Op → String
  | .alu op => if op.isMulDiv then "RV64M" else "RV64I"
  | .loadReserved _ | .storeConditional _ | .amo _ _ => "RV64A"
  | .csr _ _ => "RVZICSR"
  | .fenceI => "RVZIFENCEI"
  | .sret | .mret | .wfi | .sfenceVma => "RVSYSTEM"
  | _ => "RV64I"

inductive Operand where
  | reg (reg : Reg)
  | imm (value : UInt64)
  | bit (value : Bool)

def Operand.text : Operand → String
  | .reg number => toString number.val
  | .imm value => toString value.toNat
  | .bit value => toString value

def Format.name : Format → String
  | .plain => "None"
  | .r => "R"
  | .i => "I"
  | .s => "S"
  | .b => "B"
  | .u => "U"
  | .j => "J"
  | .a => "A"

def SArgs.operands (args : SArgs) : List (String × Operand) :=
  [("rs1", .reg args.rs1), ("rs2", .reg args.rs2), ("imm", .imm args.imm)]

def UArgs.operands (args : UArgs) : List (String × Operand) :=
  [("rd", .reg args.rd), ("imm", .imm args.imm)]

def Format.operands : (format : Format) → format.Args → List (String × Operand)
  | .plain, _ => []
  | .r, args =>
    let args : RArgs := args
    [("rs1", .reg args.rs1), ("rs2", .reg args.rs2), ("rd", .reg args.rd)]
  | .i, args =>
    let args : IArgs := args
    [("rs1", .reg args.rs1), ("rd", .reg args.rd), ("imm", .imm args.imm)]
  | .s, args => SArgs.operands args
  | .b, args => SArgs.operands args
  | .u, args => UArgs.operands args
  | .j, args => UArgs.operands args
  | .a, args =>
    let args : AArgs := args
    [("rs1", .reg args.rs1), ("rs2", .reg args.rs2), ("rd", .reg args.rd), ("rl", .bit args.rl),
      ("aq", .bit args.aq)]

def Instr.operands (instr : Instr) : List (String × Operand) :=
  instr.op.format.operands instr.args

def operandText (format : Format) (operands : List (String × Operand)) : String :=
  let fields := operands.map fun (name, operand) => name ++ ": " ++ operand.text
  if fields.isEmpty then format.name
  else format.name ++ " \x7b " ++ String.intercalate ", " fields ++ " \x7d"

def Instr.text (instr : Instr) : String :=
  instr.op.mnemonic ++ ", " ++ operandText instr.op.format instr.operands

end RvBoard
