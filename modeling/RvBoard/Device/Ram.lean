import RvBoard.Bytes
import RvBoard.Fdt
import RvBoard.MemFault

/-!
# Main memory

A block of bytes. Accesses that are not wholly inside it fail and change nothing.
-/

set_option autoImplicit false

namespace RvBoard

structure Ram where
  data : ByteArray

namespace Ram

def name : String := "memory"
def base : UInt64 := 0x80000000

def ofSize (size : Nat) : Ram :=
  ⟨Bytes.zeros size⟩

def load (ram : Ram) (offset : UInt64) (size : Nat) : Except MemFault UInt64 :=
  match Bytes.word? ram.data offset.toNat size with
  | some value => .ok value
  | none => .error .loadAccess

def store (ram : Ram) (offset : UInt64) (size : Nat) (value : UInt64) : Except MemFault Unit × Ram :=
  let ⟨data⟩ := ram
  if Bytes.holds data offset.toNat (byteCount size) then
    (.ok (), ⟨Bytes.putWord data offset.toNat (byteCount size) value⟩)
  else (.error .storeAccess, ⟨data⟩)

def readBytes (ram : Ram) (offset : UInt64) (n : Nat) : Except MemFault ByteArray :=
  match Bytes.slice? ram.data offset.toNat n with
  | some bytes => .ok bytes
  | none => .error .loadAccess

def writeBytes (ram : Ram) (offset : UInt64) (bytes : ByteArray) : Except MemFault Unit × Ram :=
  let ⟨data⟩ := ram
  if Bytes.holds data offset.toNat bytes.size then
    (.ok (), ⟨Bytes.splice data offset.toNat bytes⟩)
  else (.error .storeAccess, ⟨data⟩)

def fill (ram : Ram) (value : UInt8) : Ram :=
  ⟨Bytes.replicate ram.data.size value⟩

def describe (ram : Ram) (base : UInt64) : List Fdt.Token :=
  Fdt.node (name ++ "@" ++ String.ofList (Nat.toDigits 16 base.toNat)) [
    .text "device_type" "memory",
    .reg base (UInt64.ofNat ram.data.size)]

end Ram

end RvBoard
