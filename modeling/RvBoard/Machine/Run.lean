import RvBoard.Machine.Build

/-!
# Running a machine

The board runs in turns, after each of which the console is served: what the guest has printed is
taken, and what was typed is fed to it as far as it fits. A guest that restarts gets its images
anew. A run ends when the guest stops the board.
-/

set_option autoImplicit false

namespace RvBoard.Machine

def cyclesPerTurn : UInt64 := 1000
def cyclesPerBenchmarkTurn : UInt64 := 100000
def benchmarkSamples : Nat := 10

inductive Progress where
  | continues
  | stopped (exitCode : Option UInt16)

structure Session where
  machine : Machine
  console : Console := {}

def Session.pump (session : Session) : List UInt8 × Session :=
  let ⟨⟨board, serial, options, directory, host, disk, share⟩, console⟩ := session
  let ((output, console), board) := board.pump serial console
  (output, ⟨⟨board, serial, options, directory, host, disk, share⟩, console⟩)

def step (cycles : UInt64) (machine : Machine) : Machine :=
  let ⟨board, serial, options, directory, host, disk, share⟩ := machine
  ⟨board.step cycles, serial, options, directory, host, disk, share⟩

/-- One turn: what was printed, and how it goes on. A restart that fails leaves the files. -/
def Session.turn (session : Session) :
    Except (MachineError × Host) (Progress × List UInt8 × Session) := do
  if session.machine.board.isRunning then
    let ⟨machine, console⟩ := session
    let (output, session) := Session.pump ⟨machine.step cyclesPerTurn, console⟩
    return (.continues, output, session)
  else if session.machine.board.isRestarting then
    let ⟨machine, console⟩ := session
    let files := machine.files
    let machine ← machine.loadImages.mapError fun error => (error, files)
    return (.continues, [], ⟨machine, console⟩)
  else
    let (output, session) := session.pump
    return (.stopped session.machine.board.exitCode, output, session)

def sampleFor : Nat → UInt64 → Machine → Machine
  | 0, _, machine => machine
  | turns + 1, start, machine =>
    if machine.board.isRunning &&
        machine.board.hart.clock - start < machine.options.benchmarkCycles then
      let machine := machine.step cyclesPerBenchmarkTurn
      let ⟨board, serial, options, directory, host, disk, share⟩ := machine
      let (_, board) := board.drain serial none
      sampleFor turns start ⟨board, serial, options, directory, host, disk, share⟩
    else machine

end RvBoard.Machine
