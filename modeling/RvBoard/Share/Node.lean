import RvBoard.Bytes
import RvBoard.Share.Errno

/-!
# Files and directories of the host

The host's files as a tree, addressed by locations: the names from the root of the tree on, with
no symbolic link on the way.
-/

set_option autoImplicit false

namespace RvBoard

inductive FileName where
  | text (name : String)
  | raw (bytes : List UInt8)
deriving DecidableEq, Repr

structure Contents where
  stored : ByteArray
  size : Nat

inductive Node where
  | directory (entries : List (FileName × Node)) (readOnly : Bool)
  | file (contents : Contents) (readOnly : Bool)
  | link (target : String)

abbrev Location := List FileName

def FileName.ofBytes (bytes : ByteArray) : FileName :=
  match String.fromUTF8? bytes with
  | some name => .text name
  | none => .raw bytes.toList

namespace Contents

def ofBytes (bytes : ByteArray) : Contents :=
  ⟨bytes, bytes.size⟩

def read (contents : Contents) (offset n : Nat) : ByteArray :=
  let count := min n (contents.size - offset)
  let bytes := contents.stored.extract offset (offset + count)
  bytes ++ Bytes.zeros (count - bytes.size)

/-- The contents with `bytes` put at `offset`, extended by zeros where the file was shorter. -/
def write (contents : Contents) (offset : Nat) (bytes : ByteArray) : Contents :=
  if bytes.isEmpty then contents
  else
    let stored := contents.stored ++ Bytes.zeros (offset + bytes.size - contents.stored.size)
    ⟨Bytes.splice stored offset bytes, max contents.size (offset + bytes.size)⟩

def truncate (contents : Contents) (size : Nat) : Contents :=
  ⟨contents.stored.extract 0 size, size⟩

def toBytes (contents : Contents) : ByteArray :=
  contents.read 0 contents.size

end Contents

namespace Node

def emptyDirectory : Node := .directory [] false

def isDirectory : Node → Bool
  | .directory _ _ => true
  | _ => false

def entries : Node → List (FileName × Node)
  | .directory entries _ => entries
  | _ => []

def child? (node : Node) (name : FileName) : Option Node :=
  node.entries.lookup name

def find? (node : Node) : Location → Option Node
  | [] => some node
  | name :: rest => (node.child? name).bind (·.find? rest)

def setEntry (name : FileName) (node : Node) : List (FileName × Node) → List (FileName × Node)
  | [] => [(name, node)]
  | (other, old) :: rest =>
    if other = name then (name, node) :: rest else (other, old) :: setEntry name node rest

def insert (node : Node) (name : FileName) (new : Node) : Node :=
  match node with
  | .directory entries readOnly => .directory (setEntry name new entries) readOnly
  | other => other

def erase (node : Node) (name : FileName) : Node :=
  match node with
  | .directory entries readOnly =>
    .directory (entries.filter fun entry => entry.1 != name) readOnly
  | other => other

/-- The tree with the node at a location changed; without such a node it stays as it is. -/
def modify (node : Node) (change : Node → Node) : Location → Node
  | [] => change node
  | name :: rest =>
    match node.child? name with
    | none => node
    | some old => node.insert name (old.modify change rest)

def place (tree : Node) (location : Location) (node : Node) : Node :=
  match location.getLast? with
  | some name => tree.modify (·.insert name node) location.dropLast
  | none => node

def makeDirectories (tree : Node) (location : Location) : Node :=
  (List.range location.length).foldl (fun tree index =>
    let part := location.take (index + 1)
    if (tree.find? part).isSome then tree else tree.place part emptyDirectory) tree

def protect : Node → Node
  | .file contents _ => .file contents true
  | .directory entries _ => .directory entries true
  | .link target => .link target

end Node

end RvBoard
