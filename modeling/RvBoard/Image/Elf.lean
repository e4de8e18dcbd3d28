import RvBoard.Bytes

/-!
# ELF images

What a reader of executables makes of an image, and the reader that the program uses.
-/

set_option autoImplicit false

namespace RvBoard

inductive ElfClass where
  | bits32
  | bits64
deriving DecidableEq, Repr

inductive ProgramType where
  | load
  | other
deriving DecidableEq, Repr

/-- A program header; its type is looked at when its turn comes, and may be none. -/
structure Segment where
  type : Except String ProgramType
  offset : UInt64
  paddr : UInt64
  fileSize : UInt64
  memSize : UInt64

structure ElfFile (image : ByteArray) where
  fileClass : ElfClass
  entry : UInt64
  segments : List Segment
  headed : 20 ≤ image.size

abbrev ElfReader := (image : ByteArray) → Except String (ElfFile image)

def ElfFile.machine {image : ByteArray} (file : ElfFile image) : UInt16 :=
  have headed := file.headed
  image[18].toUInt16 ||| (image[19].toUInt16 <<< 8)

namespace Segment

def contents? (segment : Segment) (image : ByteArray) : Option ByteArray :=
  Bytes.slice? image segment.offset.toNat segment.fileSize.toNat

def zeros (segment : Segment) : UInt64 :=
  if segment.fileSize < segment.memSize then segment.memSize - segment.fileSize else 0

end Segment

namespace Elf

def magic : List UInt8 := [0x7f, 0x45, 0x4c, 0x46]

def identSize : Nat := 16
def rowSize : Nat := 56

def headerSize : ElfClass → Nat
  | .bits32 => 52
  | .bits64 => 64

def hasMagic (image : ByteArray) : Bool :=
  (image.extract 0 magic.length).toList == magic

def class? (image : ByteArray) : Option ElfClass :=
  match Bytes.wordAt image 4 1 with
  | 1 => some .bits32
  | 2 => some .bits64
  | _ => none

/-- The generic types, and those left to systems and processors. -/
def typeOf (number : UInt32) : Except String ProgramType :=
  if number = 1 then .ok .load
  else if number ≤ 7 || (0x60000000 ≤ number && number ≤ 0x7fffffff) then .ok .other
  else .error "Invalid type"

def segmentAt (image : ByteArray) (offset : Nat) : Segment where
  type := typeOf (Bytes.wordAt image offset 4).toUInt32
  offset := Bytes.wordAt image (offset + 8) 8
  paddr := Bytes.wordAt image (offset + 24) 8
  fileSize := Bytes.wordAt image (offset + 32) 8
  memSize := Bytes.wordAt image (offset + 40) 8

/-- The program headers in the order of their table, up to the first that is not in the file. -/
def segments (image : ByteArray) : List Segment :=
  let table := (Bytes.wordAt image 32 8).toNat
  let size := (Bytes.wordAt image 54 2).toNat
  let count := (Bytes.wordAt image 56 2).toNat
  if table = 0 || size = 0 then []
  else
    let rows := (List.range count).map fun index => table + index * size
    (rows.takeWhile fun offset => Bytes.holds image offset rowSize).map (segmentAt image)

/-- Reads images for 64-bit machines; of another one nothing but its class and machine is good. -/
def read : ElfReader := fun image =>
  if image.size < identSize then .error "File is shorter than the first ELF header part"
  else if !hasMagic image then .error "Did not find ELF magic number"
  else
    match class? image with
    | none => .error "Invalid ELF class"
    | some fileClass =>
      if short : image.size < headerSize fileClass then .error "File is shorter than ELF headers"
      else .ok {
        fileClass
        entry := Bytes.wordAt image 24 8
        segments := segments image
        headed := by
          cases fileClass <;> simp only [headerSize] at short <;> omega }

end Elf

end RvBoard
