import RvBoard.Hart.Csr
import RvBoard.Hart.Registers
import RvBoard.Hart.Trap
import RvBoard.Memory.Virtual

/-!
# State of the hart

Registers, program counter, privilege and control registers, the memory as the hart sees it, and
what the hart remembers between instructions: a load reservation, a trap value on its way, and
where a debugger made it stop.
-/

set_option autoImplicit false

namespace RvBoard

namespace Mstatus

def sie : UInt64 := 0x2
def mie : UInt64 := 0x8
def spie : UInt64 := 0x20
def mpie : UInt64 := 0x80
def spp : UInt64 := 0x100
def mpp : UInt64 := 0x1800
def mppShift : UInt64 := 11
def mprv : UInt64 := 0x20000
def sum : UInt64 := 0x40000
def mxr : UInt64 := 0x80000
def tvm : UInt64 := 0x100000
def tw : UInt64 := 0x200000
def tsr : UInt64 := 0x400000

def supervisorView : UInt64 := 0x3000c0122

def supervisorWritable : UInt64 := 0xc0122

end Mstatus

def hartFrequency : UInt64 := 50000000

def resetVector : UInt64 := 0x1000

structure Hart where
  registers : Registers := {}
  pc : UInt64 := resetVector
  privilege : Privilege := .machine
  csrs : CsrFile := CsrFile.initial
  memory : Memory := Memory.empty
  instrLength : UInt64 := 4
  pendingTval : Option UInt64 := none
  reservation : Option UInt64 := none
  waiting : Bool := false
  instret : UInt64 := 0
  cycleOffset : UInt64 := 0
  breakpoints : List UInt64 := []
  /-- The breakpoint at which the hart stopped last, with nothing executed since. -/
  resumeFrom : Option UInt64 := none

namespace Hart

def bus (hart : Hart) : Bus := hart.memory.bus

def wires (hart : Hart) : Wires := hart.memory.bus.wires

def clock (hart : Hart) : UInt64 := hart.wires.clock

def pins (hart : Hart) : Pins := hart.wires.signals.pins

def takeMemory (hart : Hart) : Memory × Hart :=
  let memory := hart.memory
  (memory, { hart with memory := Memory.empty })

def mapMemory (change : Memory → Memory) (hart : Hart) : Hart :=
  let (memory, hart) := hart.takeMemory
  { hart with memory := change memory }

def mapBus (change : Bus → Bus) (hart : Hart) : Hart :=
  hart.mapMemory (Memory.mapBus change)

def mapWires (change : Wires → Wires) (hart : Hart) : Hart :=
  hart.mapBus (Bus.mapWires change)

def runMemory {α : Type} (operation : MemoryM α) (hart : Hart) : Except MemFault α × Hart :=
  let (memory, hart) := hart.takeMemory
  match operation memory with
  | .ok value memory => (.ok value, { hart with memory := memory })
  | .error fault memory => (.error fault, { hart with memory := memory })

def onBus {ε α : Type} (operation : EStateM ε Bus α) (hart : Hart) : Except ε α × Hart :=
  let (⟨bus, tlb, mode, root⟩, hart) := hart.takeMemory
  match operation bus with
  | .ok value bus => (.ok value, { hart with memory := ⟨bus, tlb, mode, root⟩ })
  | .error error bus => (.error error, { hart with memory := ⟨bus, tlb, mode, root⟩ })

def setClock (time : UInt64) (hart : Hart) : Hart :=
  hart.mapWires fun wires => { wires with clock := time }

def advance (hart : Hart) : Hart :=
  hart.mapWires fun wires => { wires with clock := wires.clock + 1 }

def reg (hart : Hart) (reg : Reg) : UInt64 :=
  hart.registers.get reg

def setReg (hart : Hart) (reg : Reg) (value : UInt64) : Hart :=
  { hart with registers := hart.registers.write reg value }

def status (hart : Hart) (bit : UInt64) : Bool :=
  hart.csrs.get .mstatus &&& bit != 0

def setCsr (hart : Hart) (csr : Csr) (value : UInt64) : Hart :=
  { hart with csrs := hart.csrs.set csr value }

def setStatus (hart : Hart) (bit : UInt64) (value : Bool) : Hart :=
  let old := hart.csrs.get .mstatus
  hart.setCsr .mstatus (if value then old ||| bit else old &&& ~~~bit)

/-- The privilege before the last trap into machine mode. -/
def previousPrivilege (hart : Hart) : Privilege :=
  Privilege.ofBits (hart.csrs.get .mstatus >>> Mstatus.mppShift)

def setPreviousPrivilege (hart : Hart) (privilege : Privilege) : Hart :=
  let old := hart.csrs.get .mstatus
  hart.setCsr .mstatus ((old &&& ~~~Mstatus.mpp) ||| (privilege.bits <<< Mstatus.mppShift))

def pending (hart : Hart) : UInt64 :=
  let mip := hart.csrs.get .mip ||| hart.pins.pending
  if hart.pins.mtimecmp ≤ hart.clock then mip ||| Mip.mtip else mip

def fetchContext (hart : Hart) : AccessContext where
  privilege := hart.privilege
  sum := hart.status Mstatus.sum
  mxr := hart.status Mstatus.mxr

/-- Loads and stores may be made with the privilege before the last trap. -/
def dataContext (hart : Hart) : AccessContext where
  privilege := if hart.status Mstatus.mprv then hart.previousPrivilege else hart.privilege
  sum := hart.status Mstatus.sum
  mxr := hart.status Mstatus.mxr

/-- Power-on state; the clock runs on, and memory and breakpoints stay. -/
def reset (hart : Hart) : Hart :=
  let (memory, hart) := hart.takeMemory
  { memory := memory.reset
    cycleOffset := 0 - memory.bus.wires.clock
    breakpoints := hart.breakpoints }

end Hart

end RvBoard
