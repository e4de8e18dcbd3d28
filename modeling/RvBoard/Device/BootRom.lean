import RvBoard.Bytes
import RvBoard.Instr.Encode
import RvBoard.MemFault

/-!
# Boot ROM

The hart starts here. A few instructions put the hart number into `a0` and the address of the
device tree into `a1`, and jump to the firmware; the entry address and the tree follow them.
-/

set_option autoImplicit false

namespace RvBoard

structure BootRom where
  data : ByteArray

namespace BootRom

def name : String := "boot-rom"
def base : UInt64 := 0x1000
def size : Nat := 0xf000

def entryOffset : Nat := 24
def treeOffset : Nat := 32

def empty : BootRom :=
  ⟨Bytes.zeros size⟩

def trampoline : List Instr := [
  ⟨.auipc, { rd := .ofNat 5, imm := 0 : UArgs }⟩,
  ⟨.aluImm .addi, { rs1 := .ofNat 5, rd := .ofNat 11, imm := UInt64.ofNat treeOffset : IArgs }⟩,
  ⟨.csr .set false, { rs1 := .zero, rd := .ofNat 10, imm := 0xf14 : IArgs }⟩,
  ⟨.load .ld, { rs1 := .ofNat 5, rd := .ofNat 5, imm := UInt64.ofNat entryOffset : IArgs }⟩,
  ⟨.jalr, { rs1 := .ofNat 5, rd := .zero, imm := 0 : IArgs }⟩,
  ⟨.aluImm .addi, { rs1 := .zero, rd := .zero, imm := 0 : IArgs }⟩]

example : trampoline.map encode = [0x00000297, 0x02028593, 0xf1402573, 0x0182b283, 0x00028067, 0x00000013] := by
  decide

def handoff (entry : UInt64) : List UInt8 :=
  trampoline.flatMap (fun instr => Bytes.littleEndian 4 (encode instr).toUInt64)
    ++ Bytes.littleEndian 8 entry

/-- The ROM for an entry address and a device tree, and its length; none if the tree does not
fit. -/
def bootInfo? (entry : UInt64) (tree : ByteArray) : Option (Nat × BootRom) :=
  let image := Bytes.ofList (handoff entry) ++ tree
  if image.size ≤ size then some (image.size, ⟨image ++ Bytes.zeros (size - image.size)⟩) else none

def load (rom : BootRom) (offset : UInt64) (size : Nat) : Except MemFault UInt64 :=
  match Bytes.word? rom.data offset.toNat size with
  | some value => .ok value
  | none => .error .loadAccess

def readBytes (rom : BootRom) (offset : UInt64) (n : Nat) : Except MemFault ByteArray :=
  match Bytes.slice? rom.data offset.toNat n with
  | some bytes => .ok bytes
  | none => .error .loadAccess

end BootRom

end RvBoard
