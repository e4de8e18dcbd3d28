import RvBoard.Bytes

/-!
# Flattened device trees

A tree is described by a list of tokens, and `blob` is the binary form in which firmware receives
it: a header, an empty memory reservation map, the structure block and the strings block. Each
property name is stored once, at the place of its first use.
-/

set_option autoImplicit false

namespace RvBoard.Fdt

inductive Token where
  | beginNode (name : String)
  | endNode
  | property (name : String) (value : ByteArray)

def magic : UInt32 := 0xd00dfeed
def version : UInt32 := 17
def lastCompatibleVersion : UInt32 := 16
def headerSize : UInt32 := 40
def reserveMapSize : UInt32 := 16

def beginNodeTag : UInt32 := 1
def endNodeTag : UInt32 := 2
def propertyTag : UInt32 := 3
def endTag : UInt32 := 9

structure Blocks where
  body : ByteArray := ByteArray.empty
  strings : ByteArray := ByteArray.empty
  offsets : List (String × UInt32) := []

def cell (value : UInt32) : ByteArray :=
  Bytes.ofList (Bytes.bigEndian 4 value.toUInt64)

def doubleCell (value : UInt64) : ByteArray :=
  Bytes.ofList (Bytes.bigEndian 8 value)

def terminated (text : String) : ByteArray :=
  text.toUTF8.push 0

def padded (block : ByteArray) : ByteArray :=
  block ++ Bytes.zeros ((4 - block.size % 4) % 4)

/-- The offset of a name in the strings block, where it is put if it is new. -/
def Blocks.intern (blocks : Blocks) (name : String) : UInt32 × Blocks :=
  match blocks.offsets.lookup name with
  | some offset => (offset, blocks)
  | none =>
    let offset := UInt32.ofNat blocks.strings.size
    (offset, { blocks with
      strings := blocks.strings ++ terminated name
      offsets := (name, offset) :: blocks.offsets })

def Blocks.add (blocks : Blocks) : Token → Blocks
  | .beginNode name =>
    { blocks with body := padded (blocks.body ++ cell beginNodeTag ++ terminated name) }
  | .endNode => { blocks with body := blocks.body ++ cell endNodeTag }
  | .property name value =>
    let (offset, blocks) := blocks.intern name
    let start := blocks.body ++ cell propertyTag ++ cell (UInt32.ofNat value.size) ++ cell offset
    { blocks with body := padded (start ++ value) }

def blob (tokens : List Token) : ByteArray :=
  let blocks := tokens.foldl Blocks.add {}
  let body := blocks.body ++ cell endTag
  let bodySize := UInt32.ofNat body.size
  let stringsSize := UInt32.ofNat blocks.strings.size
  let bodyOffset := headerSize + reserveMapSize
  let stringsOffset := bodyOffset + bodySize
  let header := [magic, stringsOffset + stringsSize, bodyOffset, stringsOffset, headerSize, version,
    lastCompatibleVersion, 0, stringsSize, bodySize]
  header.foldl (fun out word => out ++ cell word) ByteArray.empty
    ++ Bytes.zeros reserveMapSize.toNat ++ body ++ blocks.strings

namespace Token

def flag (name : String) : Token :=
  .property name ByteArray.empty

def u32 (name : String) (value : UInt32) : Token :=
  .property name (cell value)

def u64 (name : String) (value : UInt64) : Token :=
  .property name (doubleCell value)

def text (name value : String) : Token :=
  .property name (terminated value)

def texts (name : String) (values : List String) : Token :=
  .property name (values.foldl (fun out value => out ++ terminated value) ByteArray.empty)

def cells (name : String) (values : List UInt32) : Token :=
  .property name (values.foldl (fun out value => out ++ cell value) ByteArray.empty)

def reg (base size : UInt64) : Token :=
  .property "reg" (doubleCell base ++ doubleCell size)

end Token

def hartHandle : UInt32 := 1
def plicHandle : UInt32 := 2
def controllerHandle : UInt32 := 3

def interrupt (line : UInt32) : List Token :=
  [.u32 "interrupt-parent" plicHandle, .u32 "interrupts" line]

def node (name : String) (contents : List Token) : List Token :=
  .beginNode name :: contents ++ [.endNode]

end RvBoard.Fdt
