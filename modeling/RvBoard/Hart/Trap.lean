import RvBoard.MemFault
import RvBoard.Pins

/-!
# Causes of traps
-/

set_option autoImplicit false

namespace RvBoard

inductive Exception where
  | instructionMisaligned
  | instructionAccess
  | illegalInstruction
  | breakpoint
  | loadMisaligned
  | loadAccess
  | storeMisaligned
  | storeAccess
  | userCall
  | supervisorCall
  | machineCall
  | instructionPage
  | loadPage
  | storePage
deriving DecidableEq, Repr

namespace Exception

def all : List Exception :=
  [instructionMisaligned, instructionAccess, illegalInstruction, breakpoint, loadMisaligned,
    loadAccess, storeMisaligned, storeAccess, userCall, supervisorCall, machineCall,
    instructionPage, loadPage, storePage]

def code : Exception → Nat
  | instructionMisaligned => 0
  | instructionAccess => 1
  | illegalInstruction => 2
  | breakpoint => 3
  | loadMisaligned => 4
  | loadAccess => 5
  | storeMisaligned => 6
  | storeAccess => 7
  | userCall => 8
  | supervisorCall => 9
  | machineCall => 11
  | instructionPage => 12
  | loadPage => 13
  | storePage => 15

def name : Exception → String
  | instructionMisaligned => "InstructionMisaligned"
  | instructionAccess => "InstructionFault"
  | illegalInstruction => "IllegalInstruction"
  | breakpoint => "Breakpoint"
  | loadMisaligned => "LoadMisaligned"
  | loadAccess => "LoadFault"
  | storeMisaligned => "StoreMisaligned"
  | storeAccess => "StoreFault"
  | userCall => "UserEnvCall"
  | supervisorCall => "SupervisorEnvCall"
  | machineCall => "MachineEnvCall"
  | instructionPage => "InstructionPageFault"
  | loadPage => "LoadPageFault"
  | storePage => "StorePageFault"

def ofFault : MemFault → Exception
  | .loadMisaligned => loadMisaligned
  | .loadAccess => loadAccess
  | .storeMisaligned => storeMisaligned
  | .storeAccess => storeAccess
  | .loadPage => loadPage
  | .storePage => storePage

def ofFetchFault : MemFault → Exception
  | .loadMisaligned | .storeMisaligned => instructionMisaligned
  | .loadAccess | .storeAccess => instructionAccess
  | .loadPage | .storePage => instructionPage

end Exception

inductive Interrupt where
  | supervisorSoft
  | machineSoft
  | supervisorTimer
  | machineTimer
  | supervisorExternal
  | machineExternal
deriving DecidableEq, Repr

namespace Interrupt

/-- The interrupts in the order in which they are taken. -/
def priority : List Interrupt :=
  [machineExternal, machineSoft, machineTimer, supervisorExternal, supervisorSoft, supervisorTimer]

def code : Interrupt → Nat
  | supervisorSoft => 1
  | machineSoft => 3
  | supervisorTimer => 5
  | machineTimer => 7
  | supervisorExternal => 9
  | machineExternal => 11

def mask (interrupt : Interrupt) : UInt64 :=
  Mip.bit interrupt.code

def name : Interrupt → String
  | supervisorSoft => "SupervisorSoft"
  | machineSoft => "MachineSoft"
  | supervisorTimer => "SupervisorTimer"
  | machineTimer => "MachineTimer"
  | supervisorExternal => "SupervisorExternal"
  | machineExternal => "MachineExternal"

end Interrupt

inductive Trap where
  | interrupt (which : Interrupt)
  | exception (why : Exception)
deriving DecidableEq, Repr

namespace Trap

def interruptBit : UInt64 := 0x8000000000000000

def cause : Trap → UInt64
  | .interrupt which => UInt64.ofNat which.code ||| interruptBit
  | .exception why => UInt64.ofNat why.code

end Trap

end RvBoard
