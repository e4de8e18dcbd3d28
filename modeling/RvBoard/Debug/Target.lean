import RvBoard.Hart.Step

/-!
# What a debugger works on

The operations that the debugger's commands need of a hart, and the hart that has them.
-/

set_option autoImplicit false

namespace RvBoard

class DebugTarget (τ : Type) where
  pc : τ → UInt64
  setPc : UInt64 → τ → τ
  reg : τ → Reg → UInt64
  setReg : Reg → UInt64 → τ → τ
  csr? : τ → UInt64 → Option UInt64
  setCsr : UInt64 → UInt64 → τ → τ
  readMemory : UInt64 → Nat → τ → Except MemFault ByteArray × τ
  writeMemory : UInt64 → ByteArray → τ → Except MemFault Unit × τ
  step : τ → τ
  setBreakpoint : UInt64 → τ → τ
  clearBreakpoint : UInt64 → τ → τ
  clearBreakpoints : τ → τ

namespace Hart

def debugCsr? (hart : Hart) (address : UInt64) : Option UInt64 :=
  (Csr.ofAddress? address).map hart.csrValue

def debugSetCsr (address value : UInt64) (hart : Hart) : Hart :=
  match Csr.ofAddress? address with
  | some csr => hart.writeCsr csr value
  | none => hart

def readMemory (vaddr : UInt64) (n : Nat) (hart : Hart) : Except MemFault ByteArray × Hart :=
  let context := hart.dataContext
  hart.runMemory (Memory.readBytes vaddr n context)

def writeMemory (vaddr : UInt64) (bytes : ByteArray) (hart : Hart) : Except MemFault Unit × Hart :=
  let context := hart.dataContext
  hart.runMemory (Memory.writeBytes vaddr bytes context)

def setBreakpoint (pc : UInt64) (hart : Hart) : Hart :=
  { hart with breakpoints := hart.breakpoints.insert pc }

def clearBreakpoint (pc : UInt64) (hart : Hart) : Hart :=
  { hart with breakpoints := hart.breakpoints.filter (· != pc) }

def clearBreakpoints (hart : Hart) : Hart :=
  { hart with breakpoints := [] }

end Hart

instance : DebugTarget Hart where
  pc := Hart.pc
  setPc pc hart := { hart with pc := pc }
  reg := Hart.reg
  setReg reg value hart := hart.setReg reg value
  csr? := Hart.debugCsr?
  setCsr := Hart.debugSetCsr
  readMemory := Hart.readMemory
  writeMemory := Hart.writeMemory
  step := Hart.stepInstruction false
  setBreakpoint := Hart.setBreakpoint
  clearBreakpoint := Hart.clearBreakpoint
  clearBreakpoints := Hart.clearBreakpoints

end RvBoard
