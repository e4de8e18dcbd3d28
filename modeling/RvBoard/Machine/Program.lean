import RvBoard.CommandLine.Parse
import RvBoard.Machine.Run

/-!
# The program

What a run of the program prints, how it exits, and what it leaves of the files it was run on.
-/

set_option autoImplicit false

namespace RvBoard.Program

open CommandLine (Options Refusal)

def versionText : String := "riscv-board-vm 0.1.0"

def helpText : String :=
  "RV64IMAC virtual board\n\nUsage: riscv-board-vm [OPTIONS] <FIRMWARE>"

structure Outcome where
  code : UInt8
  output : ByteArray
  errors : List String
  host : Host

/-- The exit code for the code that the guest has failed with; failure is never success. -/
def exitCode (failure : UInt16) : UInt8 :=
  if failure = 0 then 1 else if 255 < failure then 255 else failure.toUInt8

def failureText (failure : UInt16) : String :=
  "guest failed with code " ++ toString failure.toNat

def errorText (message : String) : String :=
  "error: " ++ message

def refused (host : Host) : Refusal → Outcome
  | .usage error => ⟨2, .empty, [errorText error.message], host⟩
  | .help => ⟨0, (helpText ++ "\n").toUTF8, [], host⟩
  | .version => ⟨0, (versionText ++ "\n").toUTF8, [], host⟩

def failed (host : Host) (output : ByteArray) (error : MachineError) : Outcome :=
  ⟨1, output, [errorText error.message], host⟩

def stopped (host : Host) (output : ByteArray) : Option UInt16 → Outcome
  | none => ⟨0, output, [], host⟩
  | some failure => ⟨exitCode failure, output, [failureText failure], host⟩

/-- Turns of a session, at most as many as given, behind what was printed before. -/
def runFor : Nat → ByteArray → Machine.Session → Outcome
  | 0, output, session => stopped session.machine.files output none
  | turns + 1, output, session =>
    match session.turn with
    | .error (error, host) => failed host output error
    | .ok (progress, printed, session) =>
      let output := printed.foldl ByteArray.push output
      match progress with
      | .continues => runFor turns output session
      | .stopped code => stopped session.machine.files output code

/-- Samples one after the other, on the files as the earlier ones leave them; the cycles of the
last one. -/
def sample (directory : Path) (options : Options) (turns : Nat) :
    Nat → Host → UInt64 → Except MachineError (Host × UInt64)
  | 0, host, cycles => .ok (host, cycles)
  | samples + 1, host, _ => do
    let machine ← Machine.build host directory options false
    let start := machine.board.hart.clock
    let machine := Machine.sampleFor turns start machine
    sample directory options turns samples machine.files (machine.board.hart.clock - start)

def benchmark (host : Host) (directory : Path) (options : Options) (turns : Nat) : Outcome :=
  match sample directory options turns Machine.benchmarkSamples host 0 with
  | .error error => failed host .empty error
  | .ok (host, cycles) =>
    ⟨0, ("cycles per sample: " ++ toString cycles.toNat ++ "\n").toUTF8, [], host⟩

/-- Runs the program in a directory of the host, with all of its input at hand. A guest that does
not stop is cut off after a number of turns. -/
def run (host : Host) (directory : Path) (arguments : List String) (input : List UInt8)
    (turns : Nat) : Outcome :=
  match CommandLine.parse arguments with
  | .error refusal => refused host refusal
  | .ok options =>
    if options.benchmark then benchmark host directory options turns
    else
      match Machine.build host directory options true with
      | .error error => failed host .empty error
      | .ok machine => runFor turns .empty { machine, console := { typed := input } }

end RvBoard.Program
