import RvBoard.Hart.State

/-!
# Access to control and status registers

What a register reads as, what a write to it changes, and which registers the hart may name in an
instruction. Supervisor registers are windows on machine registers; counters are computed.
-/

set_option autoImplicit false

namespace RvBoard

/-- An instruction; an exception leaves what was changed before it changed. -/
abbrev HartM (α : Type) := EStateM Exception Hart α

namespace Csr

/-- The lowest privilege that may name the register. -/
def privilege (csr : Csr) : Privilege :=
  Privilege.ofBits (csr.address >>> 8)

def isReadOnly (csr : Csr) : Bool :=
  csr.address >>> 10 &&& 3 == 3

def counterBit : Csr → UInt64
  | cycle => 1
  | time => 2
  | instret => 4
  | _ => 0

end Csr

namespace Hart

def csrValue (hart : Hart) (csr : Csr) : UInt64 :=
  match csr with
  | .sstatus => hart.csrs.get .mstatus &&& Mstatus.supervisorView
  | .sie => hart.csrs.get .mie &&& hart.csrs.get .mideleg
  | .sip => hart.pending &&& hart.csrs.get .mideleg
  | .mip => hart.pending
  | .cycle | .mcycle => hart.clock + hart.cycleOffset
  | .time => hart.clock
  | .instret | .minstret => hart.instret
  | other => hart.csrs.get other

def writeStored (hart : Hart) (csr : Csr) (value : UInt64) : Hart :=
  { hart with csrs := hart.csrs.write csr value }

def merge (mask old value : UInt64) : UInt64 :=
  (old &&& ~~~mask) ||| (value &&& mask)

/-- The reserved privilege in `mstatus` keeps the old one. -/
def legalStatus (old value : UInt64) : UInt64 :=
  if (value &&& Mstatus.mpp) >>> Mstatus.mppShift = 2 then merge Mstatus.mpp value old else value

/-- Address translation follows `satp`; a mode that is not supported changes nothing. -/
def writeSatp (hart : Hart) (value : UInt64) : Hart :=
  let (memory, hart) := hart.takeMemory
  let (supported, memory) := memory.setSatp value
  let hart := { hart with memory := memory }
  if supported then hart.writeStored .satp value else hart

def writeCsr (hart : Hart) (csr : Csr) (value : UInt64) : Hart :=
  match csr with
  | .mstatus => hart.writeStored .mstatus (legalStatus (hart.csrs.get .mstatus) value)
  | .sstatus =>
    hart.writeStored .mstatus (merge Mstatus.supervisorWritable (hart.csrs.get .mstatus) value)
  | .sie => hart.writeStored .mie (merge (hart.csrs.get .mideleg) (hart.csrs.get .mie) value)
  | .sip =>
    hart.writeStored .mip
      (merge (Mip.ssip &&& hart.csrs.get .mideleg) (hart.csrs.get .mip) value)
  | .satp => hart.writeSatp value
  | .mcycle => { hart with cycleOffset := value - hart.clock }
  | .minstret => { hart with instret := value }
  | other => hart.writeStored other value

def counterOpen (hart : Hart) (bit : UInt64) : Bool :=
  match hart.privilege with
  | .machine => true
  | .supervisor => hart.csrs.get .mcounteren &&& bit == bit
  | .user => hart.csrs.get .mcounteren &&& bit == bit && hart.csrs.get .scounteren &&& bit == bit

def translationTrapped (hart : Hart) : Bool :=
  hart.privilege == .supervisor && hart.status Mstatus.tvm

/-- The hart may name the register in an instruction. -/
def mayAccess (hart : Hart) (csr : Csr) : Bool :=
  !hart.privilege.below csr.privilege && !(csr == .satp && hart.translationTrapped) &&
    hart.counterOpen csr.counterBit

def namedCsr (address : UInt64) : HartM Csr := fun hart =>
  match Csr.ofAddress? address with
  | some csr => if hart.mayAccess csr then .ok csr hart else .error .illegalInstruction hart
  | none => .error .illegalInstruction hart

def readNamed (address : UInt64) : HartM UInt64 := do
  let csr ← namedCsr address
  return (← get).csrValue csr

def writeNamed (address : UInt64) (value : UInt64) : HartM Unit := do
  let csr ← namedCsr address
  if csr.isReadOnly then throw .illegalInstruction
  modify (·.writeCsr csr value)

end Hart

end RvBoard
