import RvBoard.Instr.Op
import RvBoard.Text.Hex

/-!
# Integer registers

Thirty-two words. Instructions leave register 0 alone, so it reads as zero.
-/

set_option autoImplicit false

namespace RvBoard

/-- The integer registers. Register 0 is never written by an instruction. -/
structure Registers where
  values : Vector UInt64 32 := Vector.replicate 32 0
deriving DecidableEq, Repr

namespace Registers

def get (registers : Registers) (reg : Reg) : UInt64 :=
  registers.values[reg]

def assign (registers : Registers) (reg : Reg) (value : UInt64) : Registers :=
  ⟨registers.values.set reg value⟩

def write (registers : Registers) (reg : Reg) (value : UInt64) : Registers :=
  if reg = .zero then registers else registers.assign reg value

theorem get_write (registers : Registers) (a b : Reg) (value : UInt64) :
    (registers.write a value).get b = if a = b ∧ a ≠ .zero then value else registers.get b := by
  unfold write get assign
  by_cases zero : a = .zero
  · simp [zero]
  · by_cases same : a = b
    · subst same
      simp [zero]
    · simp [zero, same, Fin.val_inj]

def names : List String :=
  ["zero", "ra", "sp", "gp", "tp", "t0", "t1", "t2", "s0", "s1", "a0", "a1", "a2", "a3", "a4",
    "a5", "a6", "a7", "s2", "s3", "s4", "s5", "s6", "s7", "s8", "s9", "s10", "s11", "t3", "t4",
    "t5", "t6"]

def cell (name : String) (index : Nat) (value : UInt64) : String :=
  (if index % 4 = 0 then "  " else "") ++ String.ofList (List.replicate (4 - name.length) ' ') ++
    name ++ ": 0x" ++ Hex.padded 16 value ++ "  " ++ (if index % 4 = 3 then "\n" else "")

def text (registers : Registers) : String :=
  let cells := (names.zip registers.values.toList).mapIdx fun index (name, value) =>
    cell name index value
  "reg_file \x7b\n" ++ String.join cells ++ "\x7d"

end Registers

end RvBoard
