import RvBoard.Hart.Execute
import RvBoard.Instr.Compressed
import RvBoard.Instr.Decode

/-!
# Running the hart

One instruction is fetched, decoded and executed in one cycle; taking an interrupt takes a cycle of
its own. While the hart waits for an interrupt the clock moves on to the next moment at which one
can come.
-/

set_option autoImplicit false

namespace RvBoard

inductive StopReason where
  | budget
  | breakpoint
  | yield
deriving DecidableEq, Repr

namespace StopReason

def text : StopReason → String
  | budget => "Budget"
  | breakpoint => "Breakpoint"
  | yield => "Yield"

end StopReason

namespace Hart

def fetchParcel (vaddr : UInt64) : HartM UInt16 := do
  let context := (← get).fetchContext
  accessMemory vaddr .ofFetchFault (Memory.fetch vaddr context)

def setLength (length : UInt64) : HartM Unit :=
  modify fun hart => { hart with instrLength := length }

/-- The instruction word is not legal; the trap value shows it. -/
def illegal {α : Type} (raw : UInt64) : HartM α := fun hart =>
  .error .illegalInstruction { hart with pendingTval := some raw }

def decodeOr (word : UInt32) (raw : UInt64) : HartM Instr :=
  match decode word with
  | some instr => return instr
  | none => illegal raw

/-- The instruction at the program counter; a first half that ends in ones has a second half. -/
def fetchInstr : HartM Instr := do
  let pc := (← get).pc
  let low ← fetchParcel pc
  if low &&& 3 = 3 then
    let high ← fetchParcel (pc + 2)
    setLength 4
    let word := low.toUInt32 ||| (high.toUInt32 <<< 16)
    decodeOr word word.toUInt64
  else
    setLength 2
    match Compressed.expand low with
    | some word => decodeOr word low.toUInt64
    | none => illegal low.toUInt64

def instruction : HartM Unit := do
  execute (← fetchInstr)

def executeOne (hart : Hart) : Hart :=
  match instruction hart with
  | .ok _ hart => { hart with instret := hart.instret + 1 }
  | .error why hart => hart.trap (.exception why)

def stepInstruction (deliver : Bool) (hart : Hart) : Hart :=
  let hart := { hart with waiting := false, resumeFrom := none }
  match if deliver then hart.interrupt? else none with
  | some which => (hart.trap (.interrupt which)).advance
  | none => hart.executeOne.advance

def awake (hart : Hart) : Bool :=
  !hart.waiting || hart.pending &&& hart.csrs.get .mie != 0

/-- When a waiting hart next looks for interrupts: only the timer can come meanwhile. -/
def wakeTime (hart : Hart) (stop : UInt64) : UInt64 :=
  if hart.clock < hart.pins.mtimecmp then min hart.pins.mtimecmp stop else stop

/-- The hart stands at a breakpoint at which it has not stopped yet. -/
def atBreakpoint (hart : Hart) : Bool :=
  hart.breakpoints.contains hart.pc && hart.resumeFrom != some hart.pc

inductive Turn where
  | stop (reason : StopReason)
  | wait
  | interrupt (which : Interrupt)
  | instruction
deriving DecidableEq

def turn (hart : Hart) (stop : UInt64) : Turn :=
  if stop ≤ hart.clock then .stop .budget
  else if hart.wires.control.isSome then .stop .yield
  else if !hart.awake then .wait
  else
    match hart.interrupt? with
    | some which => .interrupt which
    | none => if hart.atBreakpoint then .stop .breakpoint else .instruction

/-- Runs until the clock reaches `stop` or something else stops it. Every turn but the last moves
the clock, which bounds their number. -/
def runTo (stop : UInt64) : Nat → Hart → StopReason × Hart
  | 0, hart => (.budget, hart)
  | turns + 1, hart =>
    match hart.turn stop with
    | .stop .budget => (.budget, hart)
    | .stop .yield => (.yield, hart)
    | .stop .breakpoint =>
      (.breakpoint, { hart with waiting := false, resumeFrom := some hart.pc })
    | .wait =>
      let wake := hart.wakeTime stop
      runTo stop turns (hart.setClock wake)
    | .interrupt which =>
      runTo stop turns ({ hart with waiting := false }.trap (.interrupt which)).advance
    | .instruction =>
      runTo stop turns { hart with waiting := false, resumeFrom := none }.executeOne.advance

def run (cycles : UInt64) (hart : Hart) : (UInt64 × StopReason) × Hart :=
  let start := hart.clock
  let stop := saturatingAdd start cycles
  let (reason, hart) := runTo stop (cycles.toNat + 1) hart
  ((hart.clock - start, reason), hart)

end Hart

end RvBoard
