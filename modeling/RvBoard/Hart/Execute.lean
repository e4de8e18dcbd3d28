import RvBoard.Hart.Arithmetic
import RvBoard.Hart.TrapEntry

/-!
# Execution

What each instruction does to the hart. Most end by moving the program counter behind themselves;
jumps, taken branches and returns from traps set it.
-/

set_option autoImplicit false

namespace RvBoard.Hart

/-- A memory operation at an address that the trap value names when it fails. -/
def accessMemory {α : Type} (vaddr : UInt64) (why : MemFault → Exception)
    (operation : MemoryM α) : HartM α := fun hart =>
  match hart.runMemory operation with
  | (.ok value, hart) => .ok value hart
  | (.error fault, hart) => .error (why fault) { hart with pendingTval := some vaddr }

def loadData (vaddr : UInt64) (size : Nat) : HartM UInt64 := do
  let context := (← get).dataContext
  accessMemory vaddr .ofFault (Memory.load vaddr size context)

def storeData (vaddr : UInt64) (size : Nat) (value : UInt64) : HartM Unit := do
  let context := (← get).dataContext
  accessMemory vaddr .ofFault (Memory.store vaddr size value context)

def updateData (vaddr : UInt64) (size : Nat) (change : UInt64 → UInt64) : HartM UInt64 := do
  let context := (← get).dataContext
  accessMemory vaddr .ofFault (Memory.update vaddr size change context)

def readReg (reg : Reg) : HartM UInt64 := do
  return (← get).reg reg

def writeReg (reg : Reg) (value : UInt64) : HartM Unit :=
  modify (·.setReg reg value)

def jump (target : UInt64) : HartM Unit :=
  modify fun hart => { hart with pc := target }

def next (hart : Hart) : UInt64 :=
  hart.pc + hart.instrLength

def finish : HartM Unit :=
  modify fun hart => { hart with pc := hart.next }

def immediate (imm : UInt64) : UInt64 :=
  signExtend 12 imm

def branch (cond : Cond) (args : SArgs) : HartM Unit := do
  let hart ← get
  if cond.holds (hart.reg args.rs1) (hart.reg args.rs2) then
    jump (hart.pc + signExtend 13 args.imm)
  else finish

def link (rd : Reg) (target : UInt64) : HartM Unit := do
  let back := (← get).next
  jump target
  writeReg rd back

def load (op : LoadOp) (args : IArgs) : HartM Unit := do
  let value ← loadData ((← readReg args.rs1) + immediate args.imm) op.size
  writeReg args.rd (op.extend value)
  finish

def store (op : StoreOp) (args : SArgs) : HartM Unit := do
  let value ← readReg args.rs2
  storeData ((← readReg args.rs1) + immediate args.imm) op.size value
  finish

def loadReserved (width : AmoWidth) (args : AArgs) : HartM Unit := do
  let vaddr ← readReg args.rs1
  let value ← loadData vaddr width.size
  modify fun hart => { hart with reservation := some vaddr }
  writeReg args.rd (width.extend value)
  finish

/-- The store is made only under a reservation of its address, and gives up any reservation. -/
def storeConditional (width : AmoWidth) (args : AArgs) : HartM Unit := do
  let hart ← get
  let vaddr := hart.reg args.rs1
  let value := hart.reg args.rs2
  let reserved := hart.reservation == some vaddr
  set { hart with reservation := none }
  if reserved then
    storeData vaddr width.size value
    writeReg args.rd 0
  else writeReg args.rd 1
  finish

def amo (op : AmoOp) (width : AmoWidth) (args : AArgs) : HartM Unit := do
  let vaddr ← readReg args.rs1
  let operand ← readReg args.rs2
  let old ← updateData vaddr width.size fun old => op.apply width old operand
  writeReg args.rd (width.extend old)
  finish

def csrOperand (isImmediate : Bool) (args : IArgs) : HartM UInt64 :=
  if isImmediate then return UInt64.ofNat args.rs1.val else readReg args.rs1

def csrWrite (isImmediate : Bool) (args : IArgs) : HartM Unit := do
  let value ← csrOperand isImmediate args
  if args.rd = .zero then
    writeNamed args.imm value
  else
    let old ← readNamed args.imm
    writeNamed args.imm value
    writeReg args.rd old
  finish

/-- Sets or clears bits; without a source there is no write. -/
def csrChange (change : UInt64 → UInt64 → UInt64) (isImmediate : Bool) (args : IArgs) :
    HartM Unit := do
  let operand ← csrOperand isImmediate args
  let old ← readNamed args.imm
  if args.rs1 ≠ .zero then writeNamed args.imm (change old operand)
  writeReg args.rd old
  finish

def csr (op : CsrOp) (isImmediate : Bool) (args : IArgs) : HartM Unit :=
  match op with
  | .write => csrWrite isImmediate args
  | .set => csrChange (fun old operand => old ||| operand) isImmediate args
  | .clear => csrChange (fun old operand => old &&& ~~~operand) isImmediate args

def environmentCall : HartM Unit := do
  match (← get).privilege with
  | .user => throw .userCall
  | .supervisor => throw .supervisorCall
  | .machine => throw .machineCall

def require (allowed : Hart → Bool) : HartM Unit := do
  if !allowed (← get) then throw .illegalInstruction

def mayReturnSupervisor (hart : Hart) : Bool :=
  match hart.privilege with
  | .user => false
  | .supervisor => !hart.status Mstatus.tsr
  | .machine => true

def mayWait (hart : Hart) : Bool :=
  match hart.privilege with
  | .user => false
  | .supervisor => !hart.status Mstatus.tw
  | .machine => true

def mayFence (hart : Hart) : Bool :=
  hart.privilege != .user && !hart.translationTrapped

def execute : Instr → HartM Unit
  | ⟨.lui, args⟩ => do
    let args : UArgs := args
    writeReg args.rd (signExtend 32 args.imm)
    finish
  | ⟨.auipc, args⟩ => do
    let args : UArgs := args
    writeReg args.rd ((← get).pc + signExtend 32 args.imm)
    finish
  | ⟨.jal, args⟩ => do
    let args : UArgs := args
    link args.rd ((← get).pc + signExtend 21 args.imm)
  | ⟨.jalr, args⟩ => do
    let args : IArgs := args
    link args.rd (((← readReg args.rs1) + immediate args.imm) &&& ~~~1)
  | ⟨.branch cond, args⟩ => branch cond args
  | ⟨.load op, args⟩ => load op args
  | ⟨.store op, args⟩ => store op args
  | ⟨.aluImm op, args⟩ => do
    let args : IArgs := args
    writeReg args.rd (op.register.apply (← readReg args.rs1) (immediate args.imm))
    finish
  | ⟨.alu op, args⟩ => do
    let args : RArgs := args
    writeReg args.rd (op.apply (← readReg args.rs1) (← readReg args.rs2))
    finish
  | ⟨.fence, _⟩ => finish
  | ⟨.fenceI, _⟩ => finish
  | ⟨.ecall, _⟩ => environmentCall
  | ⟨.ebreak, _⟩ => throw .breakpoint
  | ⟨.loadReserved width, args⟩ => loadReserved width args
  | ⟨.storeConditional width, args⟩ => storeConditional width args
  | ⟨.amo op width, args⟩ => amo op width args
  | ⟨.csr op isImmediate, args⟩ => csr op isImmediate args
  | ⟨.sret, _⟩ => do
    require mayReturnSupervisor
    modify returnSupervisor
  | ⟨.mret, _⟩ => do
    require fun hart => hart.privilege == .machine
    modify returnMachine
  | ⟨.wfi, _⟩ => do
    require mayWait
    modify fun hart => { hart with waiting := true }
    finish
  | ⟨.sfenceVma, _⟩ => do
    require mayFence
    modify (mapMemory Memory.flush)
    finish

end RvBoard.Hart
