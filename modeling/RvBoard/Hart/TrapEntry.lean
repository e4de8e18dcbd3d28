import RvBoard.Hart.CsrAccess

/-!
# Entering and leaving traps

A trap goes to machine mode, unless it is delegated and the hart is below machine mode. Entry saves
privilege, interrupt enable and program counter; the return instructions restore them.
-/

set_option autoImplicit false

namespace RvBoard

def Trap.delegated (csrs : CsrFile) : Trap → Bool
  | .interrupt which => csrs.get .mideleg &&& which.mask != 0
  | .exception why => csrs.get .medeleg &&& Mip.bit why.code != 0

/-- Where a trap vector sends the hart; in vectored mode interrupts have entries of their own. -/
def Trap.handler (trap : Trap) (tvec : UInt64) : UInt64 :=
  let base := tvec &&& ~~~3
  match trap with
  | .interrupt which => if tvec &&& 3 = 1 then base + 4 * UInt64.ofNat which.code else base
  | .exception _ => base

namespace Hart

def enterMachine (trap : Trap) (tval : UInt64) (hart : Hart) : Hart :=
  let enabled := hart.status Mstatus.mie
  let hart := hart.setPreviousPrivilege hart.privilege
  let hart := hart.setCsr .mcause trap.cause
  let hart := hart.setCsr .mepc hart.pc
  let hart := hart.setCsr .mtval tval
  let hart := hart.setStatus Mstatus.mpie enabled
  let hart := hart.setStatus Mstatus.mie false
  { hart with privilege := .machine, pc := trap.handler (hart.csrs.get .mtvec) }

def enterSupervisor (trap : Trap) (tval : UInt64) (hart : Hart) : Hart :=
  let enabled := hart.status Mstatus.sie
  let hart := hart.setStatus Mstatus.spp (hart.privilege == .supervisor)
  let hart := hart.setCsr .scause trap.cause
  let hart := hart.setCsr .sepc hart.pc
  let hart := hart.setCsr .stval tval
  let hart := hart.setStatus Mstatus.spie enabled
  let hart := hart.setStatus Mstatus.sie false
  { hart with privilege := .supervisor, pc := trap.handler (hart.csrs.get .stvec) }

def delegates (hart : Hart) (trap : Trap) : Bool :=
  hart.privilege != .machine && trap.delegated hart.csrs

def trap (trap : Trap) (hart : Hart) : Hart :=
  let tval := hart.pendingTval.getD 0
  let hart := { hart with pendingTval := none, reservation := none }
  if hart.delegates trap then hart.enterSupervisor trap tval else hart.enterMachine trap tval

def returnMachine (hart : Hart) : Hart :=
  let target := hart.previousPrivilege
  let hart := hart.setStatus Mstatus.mie (hart.status Mstatus.mpie)
  let hart := hart.setStatus Mstatus.mpie true
  let hart := if target = .machine then hart else hart.setStatus Mstatus.mprv false
  let hart := hart.setPreviousPrivilege .user
  { hart with privilege := target, pc := hart.csrs.get .mepc }

def returnSupervisor (hart : Hart) : Hart :=
  let target := if hart.status Mstatus.spp then Privilege.supervisor else .user
  let hart := hart.setStatus Mstatus.sie (hart.status Mstatus.spie)
  let hart := hart.setStatus Mstatus.spie true
  let hart := hart.setStatus Mstatus.spp false
  let hart := hart.setStatus Mstatus.mprv false
  { hart with privilege := target, pc := hart.csrs.get .sepc }

def machineEnabled (hart : Hart) : Bool :=
  hart.privilege != .machine || hart.status Mstatus.mie

def supervisorEnabled (hart : Hart) : Bool :=
  match hart.privilege with
  | .user => true
  | .supervisor => hart.status Mstatus.sie
  | .machine => false

/-- The first interrupt of a set in the order of priority. -/
def firstOf (set : UInt64) : Option Interrupt :=
  Interrupt.priority.find? fun which => set &&& which.mask != 0

/-- The interrupt to take now; those for machine mode go first. -/
def interrupt? (hart : Hart) : Option Interrupt :=
  let waiting := hart.pending &&& hart.csrs.get .mie
  if waiting = 0 then none
  else
    let delegated := hart.csrs.get .mideleg
    let machine := if hart.machineEnabled then waiting &&& ~~~delegated else 0
    let supervisor := if hart.supervisorEnabled then waiting &&& delegated else 0
    (firstOf machine).or (firstOf supervisor)

end Hart

end RvBoard
