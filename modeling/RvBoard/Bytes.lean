import RvBoard.Word

/-!
# Byte blocks

Blocks of bytes with bounds-checked reads and writes, and the two byte orders in which words are
written: memory and the wire formats are little-endian, the device tree is big-endian.
-/

set_option autoImplicit false

namespace RvBoard.Bytes

def littleEndian : Nat → UInt64 → List UInt8
  | 0, _ => []
  | n + 1, value => value.toUInt8 :: littleEndian n (value >>> 8)

def ofLittleEndian : List UInt8 → UInt64
  | [] => 0
  | byte :: rest => byte.toUInt64 ||| (ofLittleEndian rest <<< 8)

def bigEndian (n : Nat) (value : UInt64) : List UInt8 :=
  (littleEndian n value).reverse

def ofList (bytes : List UInt8) : ByteArray :=
  ⟨bytes.toArray⟩

def doubled (block : ByteArray) : Nat → ByteArray
  | 0 => block
  | n + 1 => doubled (block ++ block) n

def replicate (n : Nat) (byte : UInt8) : ByteArray :=
  if n = 0 then ByteArray.empty
  else
    let block := doubled ⟨#[byte]⟩ (Nat.log2 n)
    block ++ block.extract 0 (n - block.size)

def zeros (n : Nat) : ByteArray :=
  replicate n 0

/-- The block with `bytes` put at `offset`, where they fit. -/
def splice (block : ByteArray) (offset : Nat) (bytes : ByteArray) : ByteArray :=
  bytes.copySlice 0 block offset bytes.size

def holds (block : ByteArray) (offset n : Nat) : Bool :=
  offset + n ≤ block.size

def slice? (block : ByteArray) (offset n : Nat) : Option ByteArray :=
  if holds block offset n then some (block.extract offset (offset + n)) else none

/-- The word made of the `n` bytes from `offset` on, lowest first. -/
def wordAt (block : ByteArray) (offset : Nat) : Nat → UInt64
  | 0 => 0
  | n + 1 => (block.get! offset).toUInt64 ||| (wordAt block (offset + 1) n <<< 8)

/-- The block with the lowest `n` bytes of a word put at `offset`, lowest first. -/
def putWord (block : ByteArray) (offset : Nat) : Nat → UInt64 → ByteArray
  | 0, _ => block
  | n + 1, value => putWord (block.set! offset value.toUInt8) (offset + 1) n (value >>> 8)

def word? (block : ByteArray) (offset size : Nat) : Option UInt64 :=
  if holds block offset (byteCount size) then some (wordAt block offset (byteCount size)) else none

theorem size_doubled (block : ByteArray) (n : Nat) : (doubled block n).size = block.size <<< n := by
  induction n generalizing block with
  | zero => rfl
  | succ n ih =>
    rw [doubled, ih, ByteArray.size_append, ← Nat.two_mul, Nat.shiftLeft_succ_inside]

theorem size_replicate (n : Nat) (byte : UInt8) : (replicate n byte).size = n := by
  by_cases empty : n = 0
  · simp [replicate, empty]
  · have below : 2 ^ Nat.log2 n ≤ n := Nat.log2_self_le empty
    have above : n < 2 ^ (Nat.log2 n + 1) := Nat.lt_log2_self
    have one : (ByteArray.mk #[byte]).size = 1 := rfl
    rw [replicate, if_neg empty, ByteArray.size_append, ByteArray.size_extract, size_doubled, one,
      Nat.one_shiftLeft]
    rw [Nat.pow_succ] at above
    omega

theorem size_zeros (n : Nat) : (zeros n).size = n :=
  size_replicate n 0

theorem length_littleEndian (n : Nat) (value : UInt64) : (littleEndian n value).length = n := by
  induction n generalizing value with
  | zero => rfl
  | succ n ih => simp [littleEndian, ih]

theorem length_bigEndian (n : Nat) (value : UInt64) : (bigEndian n value).length = n := by
  simp [bigEndian, length_littleEndian]

theorem size_putWord (block : ByteArray) (offset n : Nat) (value : UInt64) :
    (putWord block offset n value).size = block.size := by
  induction n generalizing block offset value with
  | zero => rfl
  | succ n ih =>
    rw [putWord, ih]
    exact Array.size_setIfInBounds

end RvBoard.Bytes
