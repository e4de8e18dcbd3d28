import RvBoard.Debug.HexText
import RvBoard.Debug.Target

/-!
# Debugger commands

A payload is read as a command, and a command is run on the target; a payload that is not
understood never reaches the target.
-/

set_option autoImplicit false

namespace RvBoard.Debug

inductive StopSignal where
  | interrupt
  | trap
deriving DecidableEq, Repr

def StopSignal.number : StopSignal → UInt8
  | interrupt => 2
  | trap => 5

def StopSignal.reply (signal : StopSignal) : List UInt8 :=
  ascii "S" ++ encodeBytes [signal.number]

inductive Action where
  | reply (payload : List UInt8)
  | enableNoAck
  | resume
  | detach
  | kill
deriving DecidableEq, Repr

def Action.name : Action → String
  | reply _ => "Reply"
  | enableNoAck => "EnableNoAck"
  | resume => "Resume"
  | detach => "Detach"
  | kill => "Kill"

inductive Refusal where
  | malformed
  | fault
deriving DecidableEq, Repr

def Refusal.code : Refusal → UInt8
  | malformed => 0x01
  | fault => 0x14

def Refusal.reply (refusal : Refusal) : Action :=
  .reply (ascii "E" ++ encodeBytes [refusal.code])

def Action.done : Action := .reply (ascii "OK")

inductive Register where
  | integer (reg : Reg)
  | pc
  | csr (address : UInt64)
  | unknown
deriving DecidableEq, Repr

def Register.ofNumber (number : UInt64) : Register :=
  if small : number.toNat < 32 then .integer ⟨number.toNat, small⟩
  else if number = 32 then .pc
  else if 65 ≤ number then .csr (number - 65)
  else .unknown

inductive Command where
  /-- A question whose answer does not depend on the target. -/
  | say (reply : List UInt8)
  | enableNoAck
  | readAll
  | writeAll (regs : Vector UInt64 32) (pc : Option UInt64)
  | readRegister (register : Register)
  | writeRegister (register : Register) (value : UInt64)
  | readMemory (address : UInt64) (size : Nat)
  | writeMemory (address : UInt64) (bytes : List UInt8)
  | setBreakpoint (pc : UInt64)
  | clearBreakpoint (pc : UInt64)
  | resume (pc : Option UInt64)
  | step (pc : Option UInt64)
  | detach
  | kill

namespace Command

def maxRead : UInt64 := 0x1000

def splitAt? (separator : UInt8) : List UInt8 → Option (List UInt8 × List UInt8)
  | [] => none
  | byte :: rest =>
    if byte = separator then some ([], rest)
    else (splitAt? separator rest).map fun (before, behind) => (byte :: before, behind)

def comma : UInt8 := 0x2c
def colon : UInt8 := 0x3a
def equals : UInt8 := 0x3d

def target? (args : List UInt8) : Option (Option UInt64) :=
  if args.isEmpty then some none else (parseNumber? args).map some

def parseWriteAll (args : List UInt8) : Option Command := do
  let words ← (wordTexts args).mapM decodeWord?
  let regs := (words.take 32).toArray
  if full : regs.size = 32 then some (.writeAll ⟨regs, full⟩ words[32]?) else none

def parseReadRegister (args : List UInt8) : Option Command := do
  return .readRegister (.ofNumber (← parseNumber? args))

def parseWriteRegister (args : List UInt8) : Option Command := do
  let (number, value) ← splitAt? equals args
  return .writeRegister (.ofNumber (← parseNumber? number)) (← decodeWord? value)

def parseReadMemory (args : List UInt8) : Option Command := do
  let (address, size) ← splitAt? comma args
  return .readMemory (← parseNumber? address) (min (← parseNumber? size) maxRead).toNat

def parseWriteMemory (args : List UInt8) : Option Command := do
  let (range, text) ← splitAt? colon args
  let (address, size) ← splitAt? comma range
  let address ← parseNumber? address
  let size ← parseNumber? size
  let bytes ← decodeBytes? text
  if bytes.length = size.toNat then some (.writeMemory address bytes) else none

/-- Breakpoints of both kinds are one; watchpoints are not known. -/
def parseBreakpoint (make : UInt64 → Command) (args : List UInt8) : Option Command := do
  let (kind, rest) ← splitAt? comma args
  let address :=
    match splitAt? comma rest with
    | some (address, _) => address
    | none => rest
  let address ← parseNumber? address
  return if kind = ascii "0" ∨ kind = ascii "1" then make address else .say []

def features : List UInt8 :=
  ascii "PacketSize=" ++ (Hex.digits Packet.maxSize).map (fun char => UInt8.ofNat char.toNat) ++
    ascii ";QStartNoAckMode+;vContSupported+"

def parseQuery (payload : List UInt8) : Command :=
  if (ascii "qSupported").isPrefixOf payload then .say features
  else if payload = ascii "QStartNoAckMode" then .enableNoAck
  else if payload = ascii "qAttached" then .say (ascii "1")
  else if payload = ascii "qC" then .say (ascii "QC1")
  else if payload = ascii "qfThreadInfo" then .say (ascii "m1")
  else if payload = ascii "qsThreadInfo" then .say (ascii "l")
  else .say []

/-- There is one hart, so only the first action counts. -/
def parseContinue (payload : List UInt8) : Option Command :=
  let lead := ascii "vCont;"
  if payload = ascii "vCont?" then some (.say (ascii "vCont;c;C;s;S"))
  else if lead.isPrefixOf payload then
    match payload.drop lead.length with
    | action :: _ =>
      if action = 0x63 ∨ action = 0x43 then some (.resume none)
      else if action = 0x73 ∨ action = 0x53 then some (.step none)
      else none
    | [] => none
  else some (.say [])

/-- The command that a payload spells, by its first letter. -/
def parse (payload : List UInt8) : Option Command :=
  match payload with
  | [] => some (.say [])
  | kind :: args =>
    match Char.ofNat kind.toNat with
    | '?' => some (.say StopSignal.trap.reply)
    | 'g' => some .readAll
    | 'G' => parseWriteAll args
    | 'p' => parseReadRegister args
    | 'P' => parseWriteRegister args
    | 'm' => parseReadMemory args
    | 'M' => parseWriteMemory args
    | 'Z' => parseBreakpoint .setBreakpoint args
    | 'z' => parseBreakpoint .clearBreakpoint args
    | 'c' => (target? args).map .resume
    | 's' => (target? args).map .step
    | 'D' => some .detach
    | 'k' => some .kill
    | 'H' => some (.say (ascii "OK"))
    | 'q' => some (parseQuery payload)
    | 'Q' => some (parseQuery payload)
    | 'v' => parseContinue payload
    | _ => some (.say [])

section Run

variable {τ : Type} [DebugTarget τ]

def goTo (pc : Option UInt64) (target : τ) : τ :=
  match pc with
  | some pc => DebugTarget.setPc pc target
  | none => target

/-- Integer registers in order, then the program counter. -/
def allRegisters (target : τ) : List UInt8 :=
  (List.finRange 32).flatMap (fun reg => encodeWord (DebugTarget.reg target reg)) ++
    encodeWord (DebugTarget.pc target)

def assignAll (regs : Vector UInt64 32) (target : τ) : τ :=
  (List.finRange 32).foldl (fun target reg => DebugTarget.setReg reg (regs.get reg) target) target

def registerValue? (target : τ) : Register → Option UInt64
  | .integer reg => some (DebugTarget.reg target reg)
  | .pc => some (DebugTarget.pc target)
  | .csr address => DebugTarget.csr? target address
  | .unknown => none

def assign (value : UInt64) (target : τ) : Register → Action × τ
  | .integer reg => (.done, DebugTarget.setReg reg value target)
  | .pc => (.done, DebugTarget.setPc value target)
  | .csr address =>
    match DebugTarget.csr? target address with
    | some _ => (.done, DebugTarget.setCsr address value target)
    | none => (Refusal.fault.reply, target)
  | .unknown => (Refusal.fault.reply, target)

def run (command : Command) (target : τ) : Action × τ :=
  match command with
  | .say reply => (.reply reply, target)
  | .enableNoAck => (.enableNoAck, target)
  | .readAll => (.reply (allRegisters target), target)
  | .writeAll regs pc => (.done, goTo pc (assignAll regs target))
  | .readRegister register =>
    match registerValue? target register with
    | some value => (.reply (encodeWord value), target)
    | none => (Refusal.fault.reply, target)
  | .writeRegister register value => assign value target register
  | .readMemory address size =>
    match DebugTarget.readMemory address size target with
    | (.ok bytes, target) => (.reply (encodeBytes bytes.toList), target)
    | (.error _, target) => (Refusal.fault.reply, target)
  | .writeMemory address bytes =>
    match DebugTarget.writeMemory address (Bytes.ofList bytes) target with
    | (.ok _, target) => (.done, target)
    | (.error _, target) => (Refusal.fault.reply, target)
  | .setBreakpoint pc => (.done, DebugTarget.setBreakpoint pc target)
  | .clearBreakpoint pc => (.done, DebugTarget.clearBreakpoint pc target)
  | .resume pc => (.resume, goTo pc target)
  | .step pc => (.reply StopSignal.trap.reply, DebugTarget.step (goTo pc target))
  | .detach => (.detach, target)
  | .kill => (.kill, target)

end Run

end Command

def dispatch {τ : Type} [DebugTarget τ] (payload : List UInt8) (target : τ) : Action × τ :=
  match Command.parse payload with
  | some command => command.run target
  | none => (Refusal.malformed.reply, target)

end RvBoard.Debug
