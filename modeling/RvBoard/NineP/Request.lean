import RvBoard.NineP.Wire
import RvBoard.Share.Errno
import RvBoard.Share.Path

/-!
# 9P requests

The requests that the server understands, and how they are read from a message.
-/

set_option autoImplicit false

namespace RvBoard.NineP

abbrev FidNumber := UInt32

inductive Request where
  | version (msize : UInt32) (version : String)
  | attach (fid : FidNumber)
  | walk (fid newFid : FidNumber) (names : List String)
  | clunk (fid : FidNumber)
  | getattr (fid : FidNumber)
  | setattr (fid : FidNumber) (valid : UInt32) (size : UInt64)
  | lopen (fid : FidNumber) (flags : UInt32)
  | lcreate (fid : FidNumber) (name : String)
  | read (fid : FidNumber) (offset : UInt64) (count : UInt32)
  | write (fid : FidNumber) (offset : UInt64) (data : List UInt8)
  | readdir (fid : FidNumber) (offset : UInt64) (count : UInt32)
  | mkdir (fid : FidNumber) (name : String)
  | unlinkat (fid : FidNumber) (name : String)
  | renameat (oldFid : FidNumber) (oldName : String) (newFid : FidNumber) (newName : String)
  | rename (fid newDir : FidNumber) (name : String)
  | statfs (fid : FidNumber)
  | fsync (fid : FidNumber)
  | flush
deriving Repr

def maxWalkNames : UInt16 := 16

def isChildName (name : String) : Bool :=
  Path.isName name && !name.contains '/' && !name.contains '\x00'

namespace Request

def reader? (type : UInt8) : Option (Reader Request) :=
  open Reader in
  match type with
  | 8 => some do return .statfs (← u32)
  | 12 => some do return .lopen (← u32) (← u32)
  | 14 => some do
    let fid ← u32
    let name ← string
    let _flags ← u32
    let _mode ← u32
    let _gid ← u32
    return .lcreate fid name
  | 20 => some do return .rename (← u32) (← u32) (← string)
  | 24 => some do
    let fid ← u32
    let _mask ← u64
    return .getattr fid
  | 26 => some do
    let fid ← u32
    let valid ← u32
    let _mode ← u32
    let _uid ← u32
    let _gid ← u32
    return .setattr fid valid (← u64)
  | 40 => some do return .readdir (← u32) (← u64) (← u32)
  | 50 => some do return .fsync (← u32)
  | 72 => some do
    let fid ← u32
    let name ← string
    let _mode ← u32
    let _gid ← u32
    return .mkdir fid name
  | 74 => some do return .renameat (← u32) (← string) (← u32) (← string)
  | 76 => some do
    let fid ← u32
    let name ← string
    let _flags ← u32
    return .unlinkat fid name
  | 100 => some do return .version (← u32) (← string)
  | 104 => some do
    let fid ← u32
    let _afid ← u32
    let _uname ← string
    let _aname ← string
    let _uid ← u32
    return .attach fid
  | 108 => some do
    let _tag ← u16
    return .flush
  | 110 => some do
    let fid ← u32
    let newFid ← u32
    let count ← u16
    return .walk fid newFid (← strings count.toNat)
  | 116 => some do return .read (← u32) (← u64) (← u32)
  | 118 => some do
    let fid ← u32
    let offset ← u64
    let count ← u32
    return .write fid offset (← take count.toNat)
  | 120 => some do return .clunk (← u32)
  | _ => none

def isValid : Request → Bool
  | .walk _ _ names => names.length ≤ maxWalkNames.toNat
  | .lcreate _ name | .mkdir _ name | .unlinkat _ name | .rename _ _ name => isChildName name
  | .renameat _ oldName _ newName => isChildName oldName && isChildName newName
  | _ => true

def parse (type : UInt8) (fields : List UInt8) : Except Errno Request :=
  match reader? type with
  | none => .error .notSupported
  | some reader =>
    match reader.value? fields with
    | none => .error .invalid
    | some request => if request.isValid then .ok request else .error .invalid

end Request

end RvBoard.NineP
