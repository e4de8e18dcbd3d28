import RvBoard.NineP.FileSystem
import RvBoard.Share.Host

/-!
# A shared host directory

A directory of the host as a file system to be served. Paths are relative to it, and neither dot
segments nor links lead out of it. Each path gets a number when it is first seen, which moves with
it when it is renamed and is never given out again.
-/

set_option autoImplicit false

namespace RvBoard

open NineP

structure HostShare where
  host : Host
  root : Location
  inodes : List (List String × UInt64) := [([], 1)]
  nextInode : UInt64 := 2

namespace HostShare

def ofHost (host : Host) (path : Path) : Except Errno HostShare := do
  let root ← host.canonical path
  if host.isDirectory (Host.pathOf root) then .ok { host, root } else .error .notDirectory

def hostPath (share : HostShare) (path : Path) : Path :=
  Host.pathOf share.root ++ (if path.isEmpty then [""] else path)

def isInside (share : HostShare) (location : Location) : Bool :=
  share.root.isPrefixOf location

def checkedPath (share : HostShare) (path : Path) : Except Errno Path :=
  if !path.isPlain then .error .access
  else
    let full := share.hostPath path
    match share.host.canonical full with
    | .ok location => if share.isInside location then .ok full else .error .access
    | .error _ =>
      match share.host.canonical (Host.pathOf share.root ++ path.names.dropLast) with
      | .ok location => if share.isInside location then .ok full else .error .access
      | .error _ => .ok full

abbrev M (α : Type) := FsM HostShare α

def ask {α : Type} (question : HostShare → Except Errno α) : M α := fun share =>
  match question share with
  | .ok value => .ok value share
  | .error errno => .error errno share

def change (operation : Host → Except Errno Host) : M Unit := fun share =>
  match operation share.host with
  | .ok host => .ok () { share with host := host }
  | .error errno => .error errno share

def inode (path : Path) : M UInt64 := fun share =>
  match share.inodes.lookup path.names with
  | some number => .ok number share
  | none =>
    .ok share.nextInode { share with
      inodes := (path.names, share.nextInode) :: share.inodes
      nextInode := share.nextInode + 1 }

def kindOf : Node → FileKind
  | .directory _ _ => .directory
  | .file _ _ => .file
  | .link _ => .link

def permissions (readOnly : Bool) : UInt32 :=
  if readOnly then 0o555 else 0o755

def modeOf : Node → UInt32
  | .directory _ readOnly => 0o040000 ||| permissions readOnly
  | .file _ readOnly => 0o100000 ||| (permissions readOnly &&& 0o666)
  | .link _ => 0o120777

def directorySize : Nat := 4096

def sizeOf : Node → Nat
  | .directory _ _ => directorySize
  | .file contents _ => contents.size
  | .link target => target.utf8ByteSize

def attrOf (path : Path) (node : Node) : M FileAttr := do
  let ino ← inode path
  let size := HostShare.sizeOf node
  return {
    kind := kindOf node
    ino := ino
    mode := modeOf node
    nlink := if node.isDirectory then 2 else 1
    size := UInt64.ofNat size
    blksize := 4096
    blocks := UInt64.ofNat ((size + 511) / 512)
    seconds := 0
    nanoseconds := 0 }

def checked (path : Path) : M Path :=
  ask (·.checkedPath path)

def getattr (path : Path) : M FileAttr := do
  let full ← checked path
  let node ← ask (·.host.stat full false)
  attrOf path node

/-- The entries whose names are text, in the order of their names. -/
def textEntries (entries : List (FileName × Node)) : List (String × Node) :=
  let named := entries.filterMap fun entry =>
    match entry.1 with
    | .text name => some (name, entry.2)
    | .raw _ => none
  named.mergeSort fun a b => !(b.1 < a.1)

def dirEntry (path : Path) (entry : String × Node) : M DirEntry := do
  let attr ← attrOf (path.join entry.1) entry.2
  return ⟨entry.1, attr.kind, attr.ino⟩

def readDir (path : Path) : M (List DirEntry) := do
  let full ← checked path
  let entries ← ask (·.host.readDirectory full)
  (textEntries entries).mapM (dirEntry path)

def filePath (path : Path) : M Path := do
  let full ← checked path
  if (← get).host.isDirectory full then throw .isDirectory
  return full

def read (path : Path) (offset : UInt64) (n : Nat) : M ByteArray := do
  let full ← filePath path
  ask (·.host.readFile full offset n)

def write (path : Path) (offset : UInt64) (bytes : ByteArray) : M Nat := do
  let full ← filePath path
  change (·.writeFile full offset bytes)
  return bytes.size

def create (path : Path) : M FileAttr := do
  let full ← checked path
  change (·.createFile full)
  getattr path

def mkdir (path : Path) : M FileAttr := do
  let full ← checked path
  change (·.createDirectory full)
  getattr path

def remove (path : Path) : M Unit := do
  if path.isEmpty then throw .access
  let full ← checked path
  let node ← ask (·.host.stat full false)
  if node.isDirectory then change (·.removeDirectory full) else change (·.removeFile full)
  modify fun share =>
    { share with inodes := share.inodes.filter fun entry => entry.1 != path.names }

/-- One number goes along with a move: it leaves its path, and is the only one at the path it gets. -/
def carry (old new : List String) (inodes : List (List String × UInt64))
    (entry : List String × UInt64) : List (List String × UInt64) :=
  let path := new ++ entry.1.drop old.length
  (path, entry.2) :: inodes.filter fun other => other.1 != entry.1 && other.1 != path

/-- The numbers after a move: what was at or below the new path is forgotten, and what was at or
below the old one goes along, one number after the other in the order in which they are listed. -/
def moveInodes (old new : List String) (inodes : List (List String × UInt64)) :
    List (List String × UInt64) :=
  let moved := inodes.filter fun entry => old.isPrefixOf entry.1
  let kept := inodes.filter fun entry => !new.isPrefixOf entry.1
  moved.foldl (carry old new) kept

def rename (old new : Path) : M Unit := do
  if old.isEmpty || new.isEmpty then throw .access
  let source ← checked old
  let dest ← checked new
  change (·.rename source dest)
  modify fun share => { share with inodes := moveInodes old.names new.names share.inodes }

def truncate (path : Path) (size : UInt64) : M Unit := do
  let full ← filePath path
  change (·.truncate full size)

def statfs : M FsStat := do
  return {
    bsize := 4096
    blocks := 0x1000000
    bfree := 0x800000
    bavail := 0x800000
    files := 0x100000
    ffree := UInt64.ofNat (0x100000 - (← get).inodes.length)
    namelen := 255 }

def fsync (path : Path) : M Unit := do
  let full ← checked path
  if (← get).host.isDirectory full then return
  let _ ← ask (·.host.openFile full false)
  return

instance : FileSystem HostShare where
  getattr := getattr
  readDir := readDir
  read path offset size := Filled.ofBytes size <$> read path offset size
  write := write
  create := create
  mkdir := mkdir
  remove := remove
  rename := rename
  truncate := truncate
  statfs := statfs
  fsync := fsync

end HostShare

end RvBoard
