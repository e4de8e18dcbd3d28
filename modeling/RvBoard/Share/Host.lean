import RvBoard.Share.Node
import RvBoard.Share.Path

/-!
# Operations on the host's files

Path resolution and the file operations of the host. A path is followed segment by segment from
the root of the tree: a symbolic link is replaced by its target unless it is the last segment of
an operation on the link itself, and a trailing slash asks for a directory.
-/

set_option autoImplicit false

namespace RvBoard

/-- The files of the host, and the clean-up of the names that a program may pass. -/
structure Host where
  tree : Node

namespace Host

def maxNameLength : Nat := 255
def maxPathLength : Nat := 4095
def maxLinks : Nat := 40
def maxOffset : Nat := 0x7fffffffffffffff

def maxFileSize : Nat := 0xffffffff000

def node? (host : Host) (location : Location) : Option Node :=
  host.tree.find? location

def lookup (host : Host) (directory : Location) (name : String) : Except Errno Node :=
  match host.node? directory with
  | some (.directory entries _) =>
    if maxNameLength < name.utf8ByteSize then .error .nameTooLong
    else
      match entries.lookup (.text name) with
      | some node => .ok node
      | none => .error .noEntry
  | _ => .error .notDirectory

def walk (host : Host) (location : Location) (segments : List String) (follow : Bool)
    (links : Nat) : Except Errno Location :=
  match segments with
  | [] => .ok location
  | segment :: rest =>
    if segment = "" ∨ segment = "." ∨ segment = ".." then
      match host.node? location with
      | some (.directory _ _) =>
        let next := if segment = ".." then location.dropLast else location
        host.walk next rest follow links
      | _ => .error .notDirectory
    else
      match host.lookup location segment with
      | .error errno => .error errno
      | .ok (.link target) =>
        if rest.isEmpty && !follow then .ok (location ++ [.text segment])
        else
          match links with
          | 0 => .error .loop
          | links + 1 =>
            let path := Path.ofText target
            let start := if path.head? = some "" then [] else location
            host.walk start (path ++ rest) follow links
      | .ok _ => host.walk (location ++ [.text segment]) rest follow links
termination_by (links, segments.length)

def isPassable (path : Path) : Bool :=
  path.all fun segment => !segment.contains '\x00'

def refusal? (path : Path) : Option Errno :=
  if !isPassable path then some .invalid
  else if maxPathLength < (Path.toText path).utf8ByteSize then some .nameTooLong
  else none

def resolve (host : Host) (path : Path) (follow : Bool) : Except Errno Location :=
  match refusal? path with
  | some errno => .error errno
  | none => host.walk [] path follow maxLinks

/-- The place that a path leads to when its names are looked up one by one, so that the path as a
whole may have any length. -/
def canonical (host : Host) (path : Path) : Except Errno Location :=
  if isPassable path then host.walk [] path true maxLinks else .error .invalid

structure Target where
  directory : Location
  name : String
  slash : Bool

def Target.isName (target : Target) : Bool :=
  Path.isName target.name

def Target.location (target : Target) : Location :=
  target.directory ++ [.text target.name]

def target (host : Host) (path : Path) : Except Errno Target :=
  match refusal? path with
  | some errno => .error errno
  | none => do
    let reversed := path.reverse.dropWhile (· = "")
    let directory ← host.walk [] (reversed.tail.reverse ++ [""]) true maxLinks
    .ok { directory, name := reversed.headD "", slash := path.getLast? = some "" }

def stat (host : Host) (path : Path) (follow : Bool) : Except Errno Node := do
  let location ← host.resolve path follow
  match host.node? location with
  | some node => .ok node
  | none => .error .noEntry

def isDirectory (host : Host) (path : Path) : Bool :=
  match host.stat path true with
  | .ok node => node.isDirectory
  | .error _ => false

def pathOf (location : Location) : Path :=
  "" :: location.map fun name =>
    match name with
    | .text name => name
    | .raw _ => ""

def readDirectory (host : Host) (path : Path) : Except Errno (List (FileName × Node)) := do
  match ← host.stat path true with
  | .directory entries _ => .ok entries
  | _ => .error .notDirectory

/-- The file that a path leads to; opening a directory for writing fails. -/
def openFile (host : Host) (path : Path) (write : Bool) : Except Errno (Location × Contents) := do
  let location ← host.resolve path true
  match host.node? location with
  | some (.file contents _) => .ok (location, contents)
  | some (.directory _ _) => if write then .error .isDirectory else .ok (location, ⟨.empty, 0⟩)
  | _ => .error .noEntry

def setContents (host : Host) (location : Location) (contents : Contents) : Host :=
  let change (node : Node) : Node :=
    match node with
    | .file _ readOnly => .file contents readOnly
    | other => other
  { host with tree := host.tree.modify change location }

def insertAt (host : Host) (target : Target) (node : Node) : Host :=
  { host with tree := host.tree.modify (·.insert (.text target.name) node) target.directory }

def eraseAt (host : Host) (target : Target) : Host :=
  { host with tree := host.tree.modify (·.erase (.text target.name)) target.directory }

def createFile (host : Host) (path : Path) : Except Errno Host := do
  let target ← host.target path
  if !target.isName then .error .alreadyExists
  else if target.slash then .error .isDirectory
  else
    match host.lookup target.directory target.name with
    | .ok _ => .error .alreadyExists
    | .error errno =>
      if errno = Errno.noEntry then .ok (host.insertAt target (.file (.ofBytes .empty) false))
      else .error errno

def createDirectory (host : Host) (path : Path) : Except Errno Host := do
  let target ← host.target path
  if !target.isName then .error .alreadyExists
  else
    match host.lookup target.directory target.name with
    | .ok _ => .error .alreadyExists
    | .error errno =>
      if errno = Errno.noEntry then .ok (host.insertAt target .emptyDirectory) else .error errno

def removeDirectory (host : Host) (path : Path) : Except Errno Host := do
  let target ← host.target path
  if target.name = "." then .error .invalid
  else if !target.isName then .error .notEmpty
  else
    match ← host.lookup target.directory target.name with
    | .directory [] _ => .ok (host.eraseAt target)
    | .directory _ _ => .error .notEmpty
    | _ => .error .notDirectory

def removeFile (host : Host) (path : Path) : Except Errno Host := do
  let target ← host.target path
  if !target.isName then .error .isDirectory
  else
    match ← host.lookup target.directory target.name with
    | .directory _ _ => .error .isDirectory
    | _ => if target.slash then .error .notDirectory else .ok (host.eraseAt target)

/-- What is at `new` gives way only to something of its own sort, a directory only when empty. -/
def checkReplaced (moved : Node) : Except Errno Node → Except Errno Unit
  | .error errno => if errno = Errno.noEntry then .ok () else .error errno
  | .ok (.directory entries _) =>
    if !moved.isDirectory then .error .isDirectory
    else if entries.isEmpty then .ok ()
    else .error .notEmpty
  | .ok _ => if moved.isDirectory then .error .notDirectory else .ok ()

/-- Both paths have to be ones that can be passed before either is looked up. -/
def rename (host : Host) (old new : Path) : Except Errno Host := do
  if !isPassable old || !isPassable new then throw .invalid
  let source ← host.target old
  let dest ← host.target new
  if !source.isName || !dest.isName then .error .busy
  else
    let moved ← host.lookup source.directory source.name
    let existing := host.lookup dest.directory dest.name
    match existing with
    | .error errno => if errno = Errno.noEntry then .ok () else .error errno
    | .ok _ => .ok ()
    if !moved.isDirectory && (source.slash || dest.slash) then .error .notDirectory
    else if source.location.isPrefixOf dest.directory then .error .invalid
    else if dest.location.isPrefixOf source.directory then .error .notEmpty
    else if source.location = dest.location then .ok host
    else
      checkReplaced moved existing
      .ok ((host.eraseAt source).insertAt dest moved)

def truncate (host : Host) (path : Path) (size : UInt64) : Except Errno Host := do
  let (location, contents) ← host.openFile path true
  if maxOffset < size.toNat then .error .invalid
  else .ok (host.setContents location (contents.truncate size.toNat))

def readFile (host : Host) (path : Path) (offset : UInt64) (n : Nat) : Except Errno ByteArray := do
  let (location, contents) ← host.openFile path false
  if maxOffset < offset.toNat then .error .invalid
  else
    match host.node? location with
    | some (.directory _ _) => .error .isDirectory
    | _ => .ok (contents.read offset.toNat n)

def writeFile (host : Host) (path : Path) (offset : UInt64) (bytes : ByteArray) :
    Except Errno Host := do
  let (location, contents) ← host.openFile path true
  if maxOffset < offset.toNat then .error .invalid
  else if maxFileSize < offset.toNat + bytes.size then
    if bytes.isEmpty then .ok host else .error .fileTooBig
  else .ok (host.setContents location (contents.write offset.toNat bytes))

def readWhole (host : Host) (path : Path) : Except Errno ByteArray := do
  let (location, contents) ← host.openFile path false
  match host.node? location with
  | some (.directory _ _) => .error .isDirectory
  | _ => .ok contents.toBytes

end Host

end RvBoard
