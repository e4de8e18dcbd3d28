/-!
# Operations

The instructions of RV64IMAC with Zicsr and Zifencei, grouped by what they do, and for each the
format in which its operands are encoded.
-/

set_option autoImplicit false

namespace RvBoard

abbrev Reg := Fin 32

def Reg.ofNat (number : Nat) : Reg :=
  Fin.ofNat 32 number

def Reg.zero : Reg := Reg.ofNat 0

inductive Alu where
  | add | sub | sll | slt | sltu | xor | srl | sra | or | and
  | addw | subw | sllw | srlw | sraw
  | mul | mulh | mulhsu | mulhu | div | divu | rem | remu
  | mulw | divw | divuw | remw | remuw
deriving DecidableEq, Repr

inductive ImmAlu where
  | addi | slti | sltiu | xori | ori | andi | slli | srli | srai
  | addiw | slliw | srliw | sraiw
deriving DecidableEq, Repr

inductive Cond where
  | eq | ne | lt | ge | ltu | geu
deriving DecidableEq, Repr

inductive LoadOp where
  | lb | lh | lw | ld | lbu | lhu | lwu
deriving DecidableEq, Repr

inductive StoreOp where
  | sb | sh | sw | sd
deriving DecidableEq, Repr

inductive AmoOp where
  | swap | add | xor | and | or | min | max | minu | maxu
deriving DecidableEq, Repr

inductive AmoWidth where
  | word | double
deriving DecidableEq, Repr

inductive CsrOp where
  | write | set | clear
deriving DecidableEq, Repr

inductive Op where
  | lui | auipc | jal | jalr
  | branch (cond : Cond)
  | load (op : LoadOp)
  | store (op : StoreOp)
  | aluImm (op : ImmAlu)
  | alu (op : Alu)
  | fence | ecall | ebreak
  | loadReserved (width : AmoWidth)
  | storeConditional (width : AmoWidth)
  | amo (op : AmoOp) (width : AmoWidth)
  | csr (op : CsrOp) (immediate : Bool)
  | fenceI | sret | mret | wfi | sfenceVma
deriving DecidableEq, Repr

inductive Format where
  | plain | r | i | s | b | u | j | a
deriving DecidableEq, Repr

structure RArgs where
  rs1 : Reg
  rs2 : Reg
  rd : Reg
deriving DecidableEq, Repr

structure IArgs where
  rs1 : Reg
  rd : Reg
  imm : UInt64
deriving DecidableEq, Repr

structure SArgs where
  rs1 : Reg
  rs2 : Reg
  imm : UInt64
deriving DecidableEq, Repr

structure UArgs where
  rd : Reg
  imm : UInt64
deriving DecidableEq, Repr

structure AArgs where
  rs1 : Reg
  rs2 : Reg
  rd : Reg
  rl : Bool
  aq : Bool
deriving DecidableEq, Repr

def Format.Args : Format → Type
  | .plain => Unit
  | .r => RArgs
  | .i => IArgs
  | .s => SArgs
  | .b => SArgs
  | .u => UArgs
  | .j => UArgs
  | .a => AArgs

instance (format : Format) : DecidableEq format.Args :=
  match format with
  | .plain => inferInstanceAs (DecidableEq Unit)
  | .r => inferInstanceAs (DecidableEq RArgs)
  | .i => inferInstanceAs (DecidableEq IArgs)
  | .s => inferInstanceAs (DecidableEq SArgs)
  | .b => inferInstanceAs (DecidableEq SArgs)
  | .u => inferInstanceAs (DecidableEq UArgs)
  | .j => inferInstanceAs (DecidableEq UArgs)
  | .a => inferInstanceAs (DecidableEq AArgs)

def Op.format : Op → Format
  | .lui | .auipc => .u
  | .jal => .j
  | .jalr | .load _ | .aluImm _ | .fence | .csr _ _ | .fenceI => .i
  | .branch _ => .b
  | .store _ => .s
  | .alu _ | .sfenceVma => .r
  | .loadReserved _ | .storeConditional _ | .amo _ _ => .a
  | .ecall | .ebreak | .sret | .mret | .wfi => .plain

structure Instr where
  op : Op
  args : op.format.Args
deriving DecidableEq

end RvBoard
