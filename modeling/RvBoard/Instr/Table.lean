import RvBoard.Instr.Op

/-!
# Encoding table

One row per operation says which bits of a 32-bit word select it. `Row.key` and `Row.mask` give
the fixed bits of a row whatever the kind of its encoding.
-/

set_option autoImplicit false

namespace RvBoard

structure FixedBits where
  low : UInt32
  width : UInt32
  value : UInt32

def FixedBits.mask (bits : FixedBits) : UInt32 :=
  ((1 <<< bits.width) - 1) <<< bits.low

def FixedBits.key (bits : FixedBits) : UInt32 :=
  bits.value <<< bits.low

inductive Encoding where
  | opcode (major : UInt32)
  | funct3 (major f3 : UInt32)
  | funct7 (major f3 f7 : UInt32)
  | pattern (bits : List FixedBits)

def Encoding.fixed : Encoding → List FixedBits
  | .opcode major => [⟨0, 7, major⟩]
  | .funct3 major f3 => [⟨12, 3, f3⟩, ⟨0, 7, major⟩]
  | .funct7 major f3 f7 => [⟨25, 7, f7⟩, ⟨12, 3, f3⟩, ⟨0, 7, major⟩]
  | .pattern bits => bits

def Encoding.major? : Encoding → Option UInt32
  | .opcode major | .funct3 major _ | .funct7 major _ _ => some major
  | .pattern _ => none

/-- The function fields of an encoding, zero where it has none. -/
def Encoding.f3 : Encoding → UInt32
  | .funct3 _ f3 | .funct7 _ f3 _ => f3
  | .opcode _ | .pattern _ => 0

def Encoding.f7 : Encoding → UInt32
  | .funct7 _ _ f7 => f7
  | .opcode _ | .funct3 _ _ | .pattern _ => 0

structure Row where
  op : Op
  encoding : Encoding

def Row.mask (row : Row) : UInt32 :=
  row.encoding.fixed.foldl (fun mask bits => mask ||| bits.mask) 0

def Row.key (row : Row) : UInt32 :=
  row.encoding.fixed.foldl (fun key bits => key ||| bits.key) 0

def Row.selects (row : Row) (word : UInt32) : Bool :=
  word &&& row.mask == row.key

namespace Opcode

def load : UInt32 := 0b0000011
def miscMem : UInt32 := 0b0001111
def opImm : UInt32 := 0b0010011
def auipc : UInt32 := 0b0010111
def opImm32 : UInt32 := 0b0011011
def store : UInt32 := 0b0100011
def amo : UInt32 := 0b0101111
def op : UInt32 := 0b0110011
def lui : UInt32 := 0b0110111
def op32 : UInt32 := 0b0111011
def branch : UInt32 := 0b1100011
def jalr : UInt32 := 0b1100111
def jal : UInt32 := 0b1101111
def system : UInt32 := 0b1110011

end Opcode

namespace Encoding

def shift64 (f3 f6 : UInt32) : Encoding :=
  .pattern [⟨26, 6, f6⟩, ⟨12, 3, f3⟩, ⟨0, 7, Opcode.opImm⟩]

def shift32 (f3 f7 : UInt32) : Encoding :=
  .pattern [⟨25, 7, f7⟩, ⟨12, 3, f3⟩, ⟨0, 7, Opcode.opImm32⟩]

def exact (word : UInt32) : Encoding :=
  .pattern [⟨16, 16, word >>> 16⟩, ⟨0, 16, word &&& 0xffff⟩]

def amoFunct3 : AmoWidth → UInt32
  | .word => 0b010
  | .double => 0b011

def atomic (f5 : UInt32) (width : AmoWidth) : Encoding :=
  .pattern [⟨27, 5, f5⟩, ⟨12, 3, amoFunct3 width⟩, ⟨0, 7, Opcode.amo⟩]

def loadReserved (width : AmoWidth) : Encoding :=
  .pattern [⟨27, 5, 0b00010⟩, ⟨20, 5, 0⟩, ⟨12, 3, amoFunct3 width⟩, ⟨0, 7, Opcode.amo⟩]

def sfenceVma : Encoding :=
  .pattern [⟨25, 7, 0b0001001⟩, ⟨12, 3, 0⟩, ⟨7, 5, 0⟩, ⟨0, 7, Opcode.system⟩]

end Encoding

def atomicRows (width : AmoWidth) : List Row := [
  ⟨.loadReserved width, .loadReserved width⟩,
  ⟨.storeConditional width, .atomic 0b00011 width⟩,
  ⟨.amo .swap width, .atomic 0b00001 width⟩,
  ⟨.amo .add width, .atomic 0b00000 width⟩,
  ⟨.amo .xor width, .atomic 0b00100 width⟩,
  ⟨.amo .and width, .atomic 0b01100 width⟩,
  ⟨.amo .or width, .atomic 0b01000 width⟩,
  ⟨.amo .min width, .atomic 0b10000 width⟩,
  ⟨.amo .max width, .atomic 0b10100 width⟩,
  ⟨.amo .minu width, .atomic 0b11000 width⟩,
  ⟨.amo .maxu width, .atomic 0b11100 width⟩]

def rows : List Row := [
  ⟨.lui, .opcode Opcode.lui⟩,
  ⟨.auipc, .opcode Opcode.auipc⟩,
  ⟨.jal, .opcode Opcode.jal⟩,
  ⟨.jalr, .funct3 Opcode.jalr 0b000⟩,
  ⟨.branch .eq, .funct3 Opcode.branch 0b000⟩,
  ⟨.branch .ne, .funct3 Opcode.branch 0b001⟩,
  ⟨.branch .lt, .funct3 Opcode.branch 0b100⟩,
  ⟨.branch .ge, .funct3 Opcode.branch 0b101⟩,
  ⟨.branch .ltu, .funct3 Opcode.branch 0b110⟩,
  ⟨.branch .geu, .funct3 Opcode.branch 0b111⟩,
  ⟨.load .lb, .funct3 Opcode.load 0b000⟩,
  ⟨.load .lh, .funct3 Opcode.load 0b001⟩,
  ⟨.load .lw, .funct3 Opcode.load 0b010⟩,
  ⟨.load .ld, .funct3 Opcode.load 0b011⟩,
  ⟨.load .lbu, .funct3 Opcode.load 0b100⟩,
  ⟨.load .lhu, .funct3 Opcode.load 0b101⟩,
  ⟨.load .lwu, .funct3 Opcode.load 0b110⟩,
  ⟨.store .sb, .funct3 Opcode.store 0b000⟩,
  ⟨.store .sh, .funct3 Opcode.store 0b001⟩,
  ⟨.store .sw, .funct3 Opcode.store 0b010⟩,
  ⟨.store .sd, .funct3 Opcode.store 0b011⟩,
  ⟨.aluImm .addi, .funct3 Opcode.opImm 0b000⟩,
  ⟨.aluImm .slti, .funct3 Opcode.opImm 0b010⟩,
  ⟨.aluImm .sltiu, .funct3 Opcode.opImm 0b011⟩,
  ⟨.aluImm .xori, .funct3 Opcode.opImm 0b100⟩,
  ⟨.aluImm .ori, .funct3 Opcode.opImm 0b110⟩,
  ⟨.aluImm .andi, .funct3 Opcode.opImm 0b111⟩,
  ⟨.aluImm .slli, .shift64 0b001 0b000000⟩,
  ⟨.aluImm .srli, .shift64 0b101 0b000000⟩,
  ⟨.aluImm .srai, .shift64 0b101 0b010000⟩,
  ⟨.alu .add, .funct7 Opcode.op 0b000 0b0000000⟩,
  ⟨.alu .sub, .funct7 Opcode.op 0b000 0b0100000⟩,
  ⟨.alu .sll, .funct7 Opcode.op 0b001 0b0000000⟩,
  ⟨.alu .slt, .funct7 Opcode.op 0b010 0b0000000⟩,
  ⟨.alu .sltu, .funct7 Opcode.op 0b011 0b0000000⟩,
  ⟨.alu .xor, .funct7 Opcode.op 0b100 0b0000000⟩,
  ⟨.alu .srl, .funct7 Opcode.op 0b101 0b0000000⟩,
  ⟨.alu .sra, .funct7 Opcode.op 0b101 0b0100000⟩,
  ⟨.alu .or, .funct7 Opcode.op 0b110 0b0000000⟩,
  ⟨.alu .and, .funct7 Opcode.op 0b111 0b0000000⟩,
  ⟨.aluImm .addiw, .funct3 Opcode.opImm32 0b000⟩,
  ⟨.aluImm .slliw, .shift32 0b001 0b0000000⟩,
  ⟨.aluImm .srliw, .shift32 0b101 0b0000000⟩,
  ⟨.aluImm .sraiw, .shift32 0b101 0b0100000⟩,
  ⟨.alu .addw, .funct7 Opcode.op32 0b000 0b0000000⟩,
  ⟨.alu .subw, .funct7 Opcode.op32 0b000 0b0100000⟩,
  ⟨.alu .sllw, .funct7 Opcode.op32 0b001 0b0000000⟩,
  ⟨.alu .srlw, .funct7 Opcode.op32 0b101 0b0000000⟩,
  ⟨.alu .sraw, .funct7 Opcode.op32 0b101 0b0100000⟩,
  ⟨.fence, .funct3 Opcode.miscMem 0b000⟩,
  ⟨.ecall, .exact 0x00000073⟩,
  ⟨.ebreak, .exact 0x00100073⟩,
  ⟨.alu .mul, .funct7 Opcode.op 0b000 0b0000001⟩,
  ⟨.alu .mulh, .funct7 Opcode.op 0b001 0b0000001⟩,
  ⟨.alu .mulhsu, .funct7 Opcode.op 0b010 0b0000001⟩,
  ⟨.alu .mulhu, .funct7 Opcode.op 0b011 0b0000001⟩,
  ⟨.alu .div, .funct7 Opcode.op 0b100 0b0000001⟩,
  ⟨.alu .divu, .funct7 Opcode.op 0b101 0b0000001⟩,
  ⟨.alu .rem, .funct7 Opcode.op 0b110 0b0000001⟩,
  ⟨.alu .remu, .funct7 Opcode.op 0b111 0b0000001⟩,
  ⟨.alu .mulw, .funct7 Opcode.op32 0b000 0b0000001⟩,
  ⟨.alu .divw, .funct7 Opcode.op32 0b100 0b0000001⟩,
  ⟨.alu .divuw, .funct7 Opcode.op32 0b101 0b0000001⟩,
  ⟨.alu .remw, .funct7 Opcode.op32 0b110 0b0000001⟩,
  ⟨.alu .remuw, .funct7 Opcode.op32 0b111 0b0000001⟩]
  ++ atomicRows .word ++ atomicRows .double ++ [
  ⟨.csr .write false, .funct3 Opcode.system 0b001⟩,
  ⟨.csr .set false, .funct3 Opcode.system 0b010⟩,
  ⟨.csr .clear false, .funct3 Opcode.system 0b011⟩,
  ⟨.csr .write true, .funct3 Opcode.system 0b101⟩,
  ⟨.csr .set true, .funct3 Opcode.system 0b110⟩,
  ⟨.csr .clear true, .funct3 Opcode.system 0b111⟩,
  ⟨.fenceI, .funct3 Opcode.miscMem 0b001⟩,
  ⟨.sret, .exact 0x10200073⟩,
  ⟨.mret, .exact 0x30200073⟩,
  ⟨.wfi, .exact 0x10500073⟩,
  ⟨.sfenceVma, .sfenceVma⟩]

end RvBoard
