import RvBoard.Instr.Table

/-!
# Decoding

A word is decoded in two levels: the rows given by opcode and function fields are grouped by
opcode and looked up by these fields, and only a word that is not found in its group is tried
against the patterns.
-/

set_option autoImplicit false

namespace RvBoard

def bitsAt (word low width : UInt32) : UInt32 :=
  (word >>> low) &&& ((1 <<< width) - 1)

def regAt (word low : UInt32) : Reg :=
  .ofNat (word >>> low).toNat

def immI (word : UInt32) : UInt32 :=
  bitsAt word 20 12

def immS (word : UInt32) : UInt32 :=
  (bitsAt word 25 7 <<< 5) ||| bitsAt word 7 5

def immB (word : UInt32) : UInt32 :=
  (bitsAt word 31 1 <<< 12) ||| (bitsAt word 7 1 <<< 11) ||| (bitsAt word 25 6 <<< 5) |||
    (bitsAt word 8 4 <<< 1)

def immU (word : UInt32) : UInt32 :=
  bitsAt word 12 20 <<< 12

def immJ (word : UInt32) : UInt32 :=
  (bitsAt word 31 1 <<< 20) ||| (bitsAt word 12 8 <<< 12) ||| (bitsAt word 20 1 <<< 11) |||
    (bitsAt word 21 10 <<< 1)

def Format.read (word : UInt32) : (format : Format) → format.Args
  | .plain => ()
  | .r => { rs1 := regAt word 15, rs2 := regAt word 20, rd := regAt word 7 : RArgs }
  | .i => { rs1 := regAt word 15, rd := regAt word 7, imm := (immI word).toUInt64 : IArgs }
  | .s => { rs1 := regAt word 15, rs2 := regAt word 20, imm := (immS word).toUInt64 : SArgs }
  | .b => { rs1 := regAt word 15, rs2 := regAt word 20, imm := (immB word).toUInt64 : SArgs }
  | .u => { rd := regAt word 7, imm := (immU word).toUInt64 : UArgs }
  | .j => { rd := regAt word 7, imm := (immJ word).toUInt64 : UArgs }
  | .a =>
    { rs1 := regAt word 15, rs2 := regAt word 20, rd := regAt word 7
      rl := bitsAt word 25 1 == 1, aq := bitsAt word 26 1 == 1 : AArgs }

def Op.readArgs (word : UInt32) : (op : Op) → op.format.Args
  | .aluImm .srai =>
    let args : IArgs := Format.read word .i
    { args with imm := args.imm &&& 0x3f : IArgs }
  | .aluImm .sraiw =>
    let args : IArgs := Format.read word .i
    { args with imm := args.imm &&& 0x1f : IArgs }
  | op => Format.read word op.format

def Row.decode (row : Row) (word : UInt32) : Instr :=
  ⟨row.op, row.op.readArgs word⟩

def functRows (major : UInt32) : List Row :=
  rows.filter fun row => row.encoding.major? == some major

def patternRows : List Row :=
  rows.filter fun row => row.encoding.major?.isNone

inductive Selection where
  | unknown | complete | funct3 | funct7
deriving DecidableEq, Repr

structure Group where
  selection : Selection := .unknown
  entries : List (UInt32 × Row) := []

def functKey (major f3 f7 : UInt32) : UInt32 :=
  major + (f3 <<< 7) + (f7 <<< 10)

/-- The format of the last row decides how words with the opcode are looked up. -/
def Group.insert (major : UInt32) (group : Group) (row : Row) : Group :=
  let f3 := row.encoding.f3
  let f7 := row.encoding.f7
  match row.op.format with
  | .r => { selection := .funct7, entries := group.entries ++ [(functKey major f3 f7, row)] }
  | .i | .s | .b => { selection := .funct3, entries := group.entries ++ [(functKey major f3 0, row)] }
  | .plain | .u | .j | .a =>
    { selection := .complete, entries := group.entries ++ [(functKey major f3 f7, row)] }

def Group.ofMajor (major : UInt32) : Group :=
  (functRows major).foldl (Group.insert major) {}

def Group.get? (group : Group) (key : UInt32) : Option Row :=
  (group.entries.find? (·.1 == key)).map Prod.snd

def Group.find? (group : Group) (word : UInt32) : Option Row :=
  let major := bitsAt word 0 7
  let f3 := bitsAt word 12 3
  match group.selection with
  | .complete => group.entries.head?.map Prod.snd
  | .funct3 => group.get? (functKey major f3 0)
  | .funct7 => group.get? (functKey major f3 (word >>> 25))
  | .unknown => none

def functGroups : Vector Group 128 :=
  Vector.ofFn fun major => Group.ofMajor (UInt32.ofNat major.val)

theorem majorIndex_lt (word : UInt32) : (word &&& 0x7f).toNat < 128 := by
  rw [UInt32.toNat_and]
  exact Nat.lt_succ_of_le Nat.and_le_right

def decode (word : UInt32) : Option Instr :=
  let group := functGroups.get ⟨(word &&& 0x7f).toNat, majorIndex_lt word⟩
  match group.find? word with
  | some row => some (row.decode word)
  | none => (patternRows.find? (·.selects word)).map (·.decode word)

end RvBoard
