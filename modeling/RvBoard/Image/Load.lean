import RvBoard.Bus
import RvBoard.Image.Elf

/-!
# Loading images

A flat image goes to a given address, an ELF image where its program headers say, each segment
with its zeros behind it. What was loaded before a failure stays loaded.
-/

set_option autoImplicit false

namespace RvBoard

inductive LoadError where
  | unreadable (path reason : String)
  | elf (message : String)
  | wrongMachine
  | outOfMemory (address : UInt64) (length : Nat)
deriving DecidableEq, Repr

def LoadError.name : LoadError → String
  | .unreadable _ _ => "Io"
  | .elf _ => "Elf"
  | .wrongMachine => "WrongMachine"
  | .outOfMemory _ _ => "OutOfMemory"

def LoadError.message : LoadError → String
  | .unreadable path reason => "cannot read image " ++ path ++ ": " ++ reason
  | .elf message => "invalid ELF image: " ++ message
  | .wrongMachine => "image is not a 64-bit RISC-V ELF"
  | .outOfMemory address length =>
    "0x" ++ String.ofList (Hex.digits length) ++ " bytes at " ++ Hex.word address ++
      " do not fit in guest memory"

/-- Loading; the bus keeps what a failure comes after. -/
abbrev LoadM (α : Type) := EStateM LoadError Bus α

namespace Image

def riscv : UInt16 := 243

def place (address : UInt64) (bytes : ByteArray) : LoadM Unit := fun bus =>
  match Bus.writeBytes address bytes bus with
  | .ok _ bus => .ok () bus
  | .error _ bus => .error (.outOfMemory address bytes.size) bus

def placeZeros (address : UInt64) (n : Nat) : LoadM Unit := do
  if n = 0 then return
  place address (Bytes.zeros n)

def loadSegment (image : ByteArray) (segment : Segment) : LoadM Unit := do
  match segment.type with
  | .error message => throw (.elf message)
  | .ok .other => return
  | .ok .load =>
    match segment.contents? image with
    | none => throw (.elf "segment exceeds file")
    | some contents =>
      place segment.paddr contents
      placeZeros (segment.paddr + segment.fileSize) segment.zeros.toNat

def loadSegments (image : ByteArray) : List Segment → LoadM Unit
  | [] => return
  | segment :: rest => do
    loadSegment image segment
    loadSegments image rest

def loadElf (reader : ElfReader) (image : ByteArray) : LoadM UInt64 := do
  match reader image with
  | .error message => throw (.elf message)
  | .ok file =>
    if file.fileClass ≠ .bits64 ∨ file.machine ≠ riscv then throw .wrongMachine
    loadSegments image file.segments
    return file.entry

def loadFlat (address : UInt64) (image : ByteArray) : LoadM UInt64 := do
  place address image
  return address

def loadAny (reader : ElfReader) (address : UInt64) (image : ByteArray) : LoadM UInt64 :=
  if Elf.hasMagic image then loadElf reader image else loadFlat address image

end Image

end RvBoard
