import RvBoard.NineP.FileSystem
import RvBoard.NineP.Request

/-!
# 9P server

A session over a file system: the fids the client has bound, the agreed message size, and the
reply to each request. A failed request is answered by an error number.
-/

set_option autoImplicit false

namespace RvBoard.NineP

structure Fid where
  path : Path
  isOpen : Bool
deriving DecidableEq, Repr

structure Server (φ : Type) where
  fs : φ
  tag : ByteArray
  msize : UInt32 := 8192
  fids : List (FidNumber × Fid) := []

def protocolVersion : String := "9P2000.L"
def maxMsize : UInt32 := 8192
def ioHeaderSize : UInt32 := 24
def noFid : FidNumber := 0xffffffff
def fsMagic : UInt32 := 0x01021997
def getattrBasic : UInt64 := 0x7ff
def setattrSize : UInt32 := 0x8
def openTruncate : UInt32 := 0x200

def errorType : UInt8 := 7

def FileKind.qidKind : FileKind → UInt8
  | directory => 0x80
  | file => 0x00
  | link => 0x02

def FileAttr.qid (attr : FileAttr) : Qid :=
  ⟨attr.kind.qidKind, 0, attr.ino⟩

def DirEntry.qid (entry : DirEntry) : Qid :=
  ⟨entry.kind.qidKind, 0, entry.ino⟩

namespace Server

variable {φ : Type}

/-- Why a request is not carried out: the client gets an error number, or the server panics. -/
inductive Fault where
  | errno (number : Errno)
  | panic
deriving DecidableEq, Repr

abbrev M (φ α : Type) := EStateM Fault (Server φ) α

def fail {α : Type} (number : Errno) : M φ α :=
  throw (.errno number)

def onFs {α : Type} (operation : FsM φ α) : M φ α := fun server =>
  match operation server.fs with
  | .ok value fs => .ok value { server with fs := fs }
  | .error number fs => .error (.errno number) { server with fs := fs }

def lookup (fid : FidNumber) : M φ Fid := do
  match (← get).fids.lookup fid with
  | some entry => return entry
  | none => fail .badDescriptor

def bindFid (fids : List (FidNumber × Fid)) (fid : FidNumber) (entry : Fid) :
    List (FidNumber × Fid) :=
  match fids with
  | [] => [(fid, entry)]
  | (other, old) :: rest =>
    if other = fid then (fid, entry) :: rest else (other, old) :: bindFid rest fid entry

def setFid (fid : FidNumber) (entry : Fid) : M φ Unit :=
  modify fun server => { server with fids := bindFid server.fids fid entry }

def withTag (tag : String) (fs : φ) : Server φ :=
  { fs := fs, tag := tag.toUTF8 }

def config (server : Server φ) : ByteArray :=
  Bytes.ofList (Bytes.littleEndian 2 (UInt64.ofNat server.tag.size)) ++ server.tag

def reset (server : Server φ) : Server φ :=
  { server with msize := maxMsize, fids := [] }

def ioLimit (server : Server φ) (space : UInt32) : Nat :=
  (min server.msize space).toNat - ioHeaderSize.toNat

variable [FileSystem φ]

def directoryPath (fid : FidNumber) : M φ Path := do
  let entry ← lookup fid
  let attr ← onFs (FileSystem.getattr entry.path)
  if attr.kind = .directory then return entry.path else fail .notDirectory

def version (msize : UInt32) (version : String) : M φ (List Field) := do
  let agreed := max (ioHeaderSize + 1) (min msize maxMsize)
  modify fun server => { server with msize := agreed, fids := [] }
  return [.u32 agreed, .string (if version = protocolVersion then protocolVersion else "unknown")]

def attach (fid : FidNumber) : M φ (List Field) := do
  if fid = noFid then fail .badDescriptor
  let attr ← onFs (FileSystem.getattr [])
  setFid fid ⟨[], false⟩
  return [.qid attr.qid]

def stepPath (path : Path) (name : String) : M φ Path :=
  if name = "." then return path
  else if name = ".." then return path.parent
  else if isChildName name then return path.join name
  else fail .invalid

def walkStep (path : Path) (name : String) : M φ (Path × Qid) := do
  let here ← onFs (FileSystem.getattr path)
  if here.kind != .directory then fail .notDirectory
  let next ← stepPath path name
  let attr ← onFs (FileSystem.getattr next)
  return (next, attr.qid)

/-- The places that the names lead to, up to the first that cannot be reached. -/
def walkFrom (path : Path) : List String → M φ (Path × List Qid)
  | [] => return (path, [])
  | name :: rest => do
    match ← tryCatch (some <$> walkStep path name) fun _ => return none with
    | none => return (path, [])
    | some (next, qid) =>
      let (last, qids) ← walkFrom next rest
      return (last, qid :: qids)

/-- A walk that reaches only some of its names binds nothing; one that reaches none fails. -/
def walk (fid newFid : FidNumber) (names : List String) : M φ (List Field) := do
  let entry ← lookup fid
  if newFid != fid && ((← get).fids.lookup newFid).isSome then fail .badDescriptor
  let (path, qids) ← walkFrom entry.path names
  if qids.isEmpty && !names.isEmpty then fail .noEntry
  if qids.length = names.length then setFid newFid ⟨path, false⟩
  return .u16 (UInt16.ofNat qids.length) :: qids.map .qid

def clunk (fid : FidNumber) : M φ (List Field) := do
  let _ ← lookup fid
  modify fun server => { server with fids := server.fids.filter fun entry => entry.1 != fid }
  return []

def getattr (fid : FidNumber) : M φ (List Field) := do
  let entry ← lookup fid
  let attr ← onFs (FileSystem.getattr entry.path)
  let time := [.u64 attr.seconds, .u64 attr.nanoseconds]
  return [.u64 getattrBasic, .qid attr.qid, .u32 attr.mode, .u32 0, .u32 0, .u64 attr.nlink,
    .u64 0, .u64 attr.size, .u64 attr.blksize, .u64 attr.blocks]
    ++ time ++ time ++ time ++ time ++ [.u64 0, .u64 0]

def setattr (fid : FidNumber) (valid : UInt32) (size : UInt64) : M φ (List Field) := do
  let entry ← lookup fid
  if valid &&& setattrSize != 0 then onFs (FileSystem.truncate entry.path size)
  return []

def opened (attr : FileAttr) : M φ (List Field) := do
  return [.qid attr.qid, .u32 ((← get).msize - ioHeaderSize)]

def lopen (fid : FidNumber) (flags : UInt32) : M φ (List Field) := do
  let entry ← lookup fid
  let attr ← onFs (FileSystem.getattr entry.path)
  if flags &&& openTruncate != 0 && attr.kind = .file then
    onFs (FileSystem.truncate entry.path 0)
  setFid fid { entry with isOpen := true }
  opened attr

def lcreate (fid : FidNumber) (name : String) : M φ (List Field) := do
  let path := (← directoryPath fid).join name
  let attr ← onFs (FileSystem.create path)
  setFid fid ⟨path, true⟩
  opened attr

def openPath (fid : FidNumber) : M φ Path := do
  let entry ← lookup fid
  if entry.isOpen then return entry.path else fail .badDescriptor

/-- What has been read into a buffer. To cut it off panics where it is said to be more than the buffer. -/
def filledBytes {size : Nat} (filled : Filled size) : M φ ByteArray :=
  match filled.bytes? with
  | some bytes => return bytes
  | none => throw .panic

def read (fid : FidNumber) (offset : UInt64) (count : UInt32) (space : UInt32) :
    M φ (List Field) := do
  let limit := min count.toNat ((← get).ioLimit space)
  let path ← openPath fid
  let filled ← onFs (FileSystem.read path offset limit)
  let bytes ← filledBytes filled
  return [.u32 (UInt32.ofNat filled.count), .bytes bytes.toList]

def write (fid : FidNumber) (offset : UInt64) (data : List UInt8) : M φ (List Field) := do
  let path ← openPath fid
  let n ← onFs (FileSystem.write path offset (Bytes.ofList data))
  return [.u32 (UInt32.ofNat n)]

structure Listed where
  name : String
  qid : Qid
  kind : FileKind

def Listed.size (entry : Listed) : Nat :=
  Qid.size + 8 + 1 + 2 + entry.name.utf8ByteSize

def Listed.fields (entry : Listed) (index : Nat) : List Field :=
  [.qid entry.qid, .u64 (UInt64.ofNat (index + 1)), .u8 entry.kind.entryType, .string entry.name]

def packed (index room : Nat) : List Listed → List Field × Nat
  | [] => ([], 0)
  | entry :: rest =>
    if entry.size ≤ room then
      let (fields, size) := packed (index + 1) (room - entry.size) rest
      (entry.fields index ++ fields, entry.size + size)
    else ([], 0)

def listing (path : Path) : M φ (List Listed) := do
  let here ← onFs (FileSystem.getattr path)
  let above ← onFs (FileSystem.getattr path.parent)
  let entries ← onFs (FileSystem.readDir path)
  return ⟨".", here.qid, .directory⟩ :: ⟨"..", above.qid, .directory⟩ ::
    entries.map fun entry => ⟨entry.name, entry.qid, entry.kind⟩

def readdir (fid : FidNumber) (offset : UInt64) (count : UInt32) (space : UInt32) :
    M φ (List Field) := do
  let room := min count.toNat ((← get).ioLimit space)
  let path ← directoryPath fid
  let entries ← listing path
  let (fields, size) := packed offset.toNat room (entries.drop offset.toNat)
  return .u32 (UInt32.ofNat size) :: fields

def mkdir (fid : FidNumber) (name : String) : M φ (List Field) := do
  let path := (← directoryPath fid).join name
  let attr ← onFs (FileSystem.mkdir path)
  return [.qid attr.qid]

def unlinkat (fid : FidNumber) (name : String) : M φ (List Field) := do
  let path := (← directoryPath fid).join name
  onFs (FileSystem.remove path)
  return []

def repath (old new : Path) (entry : Fid) : Fid :=
  match entry.path.namesAfter? old with
  | some rest => { entry with path := new.joinNames rest }
  | none => entry

def movePath (old new : Path) : M φ (List Field) := do
  match new.namesAfter? old with
  | some (_ :: _) => fail .invalid
  | _ => pure ()
  onFs (FileSystem.rename old new)
  modify fun server =>
    { server with fids := server.fids.map fun entry => (entry.1, repath old new entry.2) }
  return []

def renameat (oldFid : FidNumber) (oldName : String) (newFid : FidNumber) (newName : String) :
    M φ (List Field) := do
  let old := (← directoryPath oldFid).join oldName
  let new := (← directoryPath newFid).join newName
  movePath old new

def rename (fid newDir : FidNumber) (name : String) : M φ (List Field) := do
  let entry ← lookup fid
  let new := (← directoryPath newDir).join name
  movePath entry.path new

def statfs (fid : FidNumber) : M φ (List Field) := do
  let _ ← lookup fid
  let stat ← onFs FileSystem.statfs
  return [.u32 fsMagic, .u32 stat.bsize, .u64 stat.blocks, .u64 stat.bfree, .u64 stat.bavail,
    .u64 stat.files, .u64 stat.ffree, .u64 0, .u32 stat.namelen]

def fsync (fid : FidNumber) : M φ (List Field) := do
  let entry ← lookup fid
  onFs (FileSystem.fsync entry.path)
  return []

def perform (space : UInt32) : Request → M φ (List Field)
  | .version msize text => version msize text
  | .attach fid => attach fid
  | .walk fid newFid names => walk fid newFid names
  | .clunk fid => clunk fid
  | .getattr fid => getattr fid
  | .setattr fid valid size => setattr fid valid size
  | .lopen fid flags => lopen fid flags
  | .lcreate fid name => lcreate fid name
  | .read fid offset count => read fid offset count space
  | .write fid offset data => write fid offset data
  | .readdir fid offset count => readdir fid offset count space
  | .mkdir fid name => mkdir fid name
  | .unlinkat fid name => unlinkat fid name
  | .renameat oldFid oldName newFid newName => renameat oldFid oldName newFid newName
  | .rename fid newDir name => rename fid newDir name
  | .statfs fid => statfs fid
  | .fsync fid => fsync fid
  | .flush => return []

def header : Reader (UInt8 × UInt16) := do
  let _size ← Reader.u32
  return (← Reader.u8, ← Reader.u16)

def errorReply (tag : UInt16) (errno : Errno) : Message :=
  ⟨errorType, tag, [.u32 errno]⟩

def reply (server : Server φ) (type : UInt8) (tag : UInt16) (fields : List UInt8)
    (space : UInt32) : Option Message × Server φ :=
  match Request.parse type fields with
  | .error errno => (some (errorReply tag errno), server)
  | .ok request =>
    match perform space request server with
    | .ok answer server => (some ⟨type + 1, tag, answer⟩, server)
    | .error (.errno number) server => (some (errorReply tag number), server)
    | .error .panic server => (none, server)

def serve (server : Server φ) (request : List UInt8) (space : UInt32) : Option Message × Server φ :=
  match header request with
  | .error _ _ => (some (errorReply 0xffff .invalid), server)
  | .ok (type, tag) fields => server.reply type tag fields space

/-- The reply to a message, with an error in its place where the server panics. -/
def handle (server : Server φ) (request : List UInt8) (space : UInt32) : Message × Server φ :=
  let answered := server.serve request space
  (answered.1.getD (errorReply 0xffff .io), answered.2)

end Server

end RvBoard.NineP
