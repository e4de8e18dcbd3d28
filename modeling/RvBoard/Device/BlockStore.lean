import RvBoard.Bytes
import RvBoard.Share.Errno

/-!
# Block stores

What a disk keeps its bytes in: a block of memory of fixed size, or an image file, which grows
when something is written behind its end. The length that the disk shows is that of the time when
the store was opened.
-/

set_option autoImplicit false

namespace RvBoard

inductive StoreBacking where
  | memory
  | file
deriving DecidableEq, Repr

/-- The operations of a store, any of which may have stopped working. -/
inductive StoreOperation where
  | read
  | write
  | flush
deriving DecidableEq, Repr

def StoreOperation.ofName? : String → Option StoreOperation
  | "read" => some read
  | "write" => some write
  | "flush" => some flush
  | _ => none

inductive StoreError where
  | unexpectedEof
  | readOnlyFile
  | badOffset
  | tooBig
  | broken
deriving DecidableEq, Repr

namespace StoreError

def errno : StoreError → Errno
  | unexpectedEof => .io
  | readOnlyFile => .badDescriptor
  | badOffset => .invalid
  | tooBig => .fileTooBig
  | broken => .io

def kind : StoreError → String
  | unexpectedEof => "UnexpectedEof"
  | readOnlyFile => "Uncategorized"
  | badOffset => "InvalidInput"
  | tooBig => "FileTooLarge"
  | broken => "Other"

end StoreError

structure BlockStore where
  backing : StoreBacking
  data : ByteArray
  length : Nat
  readOnly : Bool
  broken : Option StoreOperation := none

namespace BlockStore

def maxOffset : Nat := 0x7fffffffffffffff

def maxFileSize : Nat := 0xffffffff000

def ofBytes (backing : StoreBacking) (data : ByteArray) (readOnly : Bool) : BlockStore :=
  { backing, data, length := data.size, readOnly }

def read (store : BlockStore) (offset n : Nat) : Except StoreError ByteArray :=
  if store.broken = some .read then .error .broken
  else if store.backing = .file && maxOffset < offset then .error .badOffset
  else if Bytes.holds store.data offset n then .ok (store.data.extract offset (offset + n))
  else if store.backing = .file && n = 0 then .ok ByteArray.empty
  else .error .unexpectedEof

def writeError? (store : BlockStore) (offset n : Nat) : Option StoreError :=
  if store.broken = some .write then some .broken
  else
    match store.backing with
    | .memory => if Bytes.holds store.data offset n then none else some .unexpectedEof
    | .file =>
      if maxOffset < offset then some .badOffset
      else if n = 0 then none
      else if store.readOnly then some .readOnlyFile
      else if maxFileSize < offset + n then some .tooBig
      else none

def put (store : BlockStore) (offset : Nat) (bytes : ByteArray) : BlockStore :=
  if bytes.isEmpty then store
  else
    let missing := offset + bytes.size - store.data.size
    { store with data := Bytes.splice (store.data ++ Bytes.zeros missing) offset bytes }

def write (store : BlockStore) (offset : Nat) (bytes : ByteArray) :
    Except StoreError Unit × BlockStore :=
  match store.writeError? offset bytes.size with
  | some error => (.error error, store)
  | none => (.ok (), store.put offset bytes)

def flush (store : BlockStore) : Except StoreError Unit :=
  if store.broken = some .flush then .error .broken else .ok ()

end BlockStore

end RvBoard
