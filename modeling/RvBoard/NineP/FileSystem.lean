import RvBoard.Bytes
import RvBoard.Share.Errno
import RvBoard.Share.Path

/-!
# File systems that can be served

The operations that the 9P server asks of what it serves. Every one of them may fail.
-/

set_option autoImplicit false

namespace RvBoard.NineP

inductive FileKind where
  | directory
  | file
  | link
deriving DecidableEq, Repr

def FileKind.name : FileKind → String
  | directory => "Directory"
  | file => "File"
  | link => "Symlink"

def FileKind.entryType : FileKind → UInt8
  | directory => 4
  | file => 8
  | link => 10

structure FileAttr where
  kind : FileKind
  ino : UInt64
  mode : UInt32
  nlink : UInt64
  size : UInt64
  blksize : UInt64
  blocks : UInt64
  seconds : UInt64
  nanoseconds : UInt64
deriving DecidableEq, Repr

structure DirEntry where
  name : String
  kind : FileKind
  ino : UInt64
deriving DecidableEq, Repr

structure FsStat where
  bsize : UInt32
  blocks : UInt64
  bfree : UInt64
  bavail : UInt64
  files : UInt64
  ffree : UInt64
  namelen : UInt32
deriving DecidableEq, Repr

/-- An operation on a file system; what it changed stays changed when it fails. -/
abbrev FsM (φ α : Type) := EStateM Errno φ α

/-- A buffer of `size` bytes that a file system was to read into. It says how many it has read; nothing keeps it from
saying more than there are. -/
structure Filled (size : Nat) where
  count : Nat
  buffer : ByteArray
  whole : buffer.size = size

namespace Filled

def ofBytes (size : Nat) (bytes : ByteArray) : Filled size where
  count := bytes.size
  buffer := (bytes ++ Bytes.zeros (size - bytes.size)).extract 0 size
  whole := by
    rw [ByteArray.size_extract, ByteArray.size_append, Bytes.size_zeros]
    omega

def bytes? {size : Nat} (filled : Filled size) : Option ByteArray :=
  Bytes.slice? filled.buffer 0 filled.count

end Filled

class FileSystem (φ : Type) where
  getattr : Path → FsM φ FileAttr
  readDir : Path → FsM φ (List DirEntry)
  read : Path → UInt64 → (size : Nat) → FsM φ (Filled size)
  write : Path → UInt64 → ByteArray → FsM φ Nat
  create : Path → FsM φ FileAttr
  mkdir : Path → FsM φ FileAttr
  remove : Path → FsM φ Unit
  rename : Path → Path → FsM φ Unit
  truncate : Path → UInt64 → FsM φ Unit
  statfs : FsM φ FsStat
  fsync : Path → FsM φ Unit

end RvBoard.NineP
