import RvBoard.Machine.Program
import RvBoard.Share.Changes

/-!
# Command line

The program itself. It copies the files that its arguments name into a tree, runs the machine on
them while it serves the console, and writes back what the guest has changed.
-/

set_option autoImplicit false

namespace RvBoard.Main

open CommandLine (Options)

partial def readNode (path : String) : IO (Option Node) := do
  match ← (IO.FS.realPath path).toBaseIO with
  | .error _ => return none
  | .ok file =>
    if ← file.isDir then
      let mut entries := #[]
      for entry in ← file.readDir do
        if let some node ← readNode (path ++ "/" ++ entry.fileName) then
          entries := entries.push (FileName.text entry.fileName, node)
      return some (.directory entries.toList false)
    else return some (.file (.ofBytes (← IO.FS.readBinFile file)) false)

def readHost (directory : Path) (options : Options) : IO Host := do
  let named := options.firmware :: [options.kernel, options.drive, options.share].filterMap id
  let mut tree := Node.emptyDirectory
  for text in named do
    let path := Machine.pathIn directory text
    if let some node ← readNode (Path.toText path) then
      let location := path.names.map FileName.text
      tree := (tree.makeDirectories location.dropLast).place location node
  return ⟨tree⟩

def apply (change : Change) : IO Unit := do
  let path := Path.toText (Host.pathOf change.location)
  match change with
  | .makeDirectory _ => IO.FS.createDir path
  | .writeFile _ bytes => IO.FS.writeBinFile path bytes
  | .removeFile _ => IO.FS.removeFile path
  | .removeDirectory _ => IO.FS.removeDir path

/-- What the host has, so that it is like the tree that the guest has left. -/
def writeHost (before after : Host) : IO Unit :=
  (Node.changes [] (some before.tree) after.tree).forM apply

partial def readInput (stream : IO.FS.Stream) (queue : IO.Ref (List UInt8)) : IO Unit := do
  let bytes ← stream.read 1
  if bytes.isEmpty then return
  queue.modify (· ++ bytes.toList)
  readInput stream queue

partial def serve (queue : IO.Ref (List UInt8)) (session : Machine.Session) :
    IO Program.Outcome := do
  let typed ← queue.modifyGet fun typed => (typed, [])
  let ⟨machine, console⟩ := session
  match Machine.Session.turn ⟨machine, console.type typed⟩ with
  | .error (error, host) => return Program.failed host .empty error
  | .ok (progress, printed, session) =>
    let stdout ← IO.getStdout
    stdout.write ⟨printed.toArray⟩
    stdout.flush
    match progress with
    | .continues => serve queue session
    | .stopped code => return Program.stopped session.machine.files .empty code

def runOptions (directory : Path) (options : Options) : IO Program.Outcome := do
  let host ← readHost directory options
  let outcome ←
    if options.benchmark then pure (Program.benchmark host directory options 1000000000)
    else
      match Machine.build host directory options true with
      | .error error => pure (Program.failed host .empty error)
      | .ok machine =>
        let queue ← IO.mkRef []
        let _ ← (readInput (← IO.getStdin) queue).asTask
        serve queue { machine }
  writeHost host outcome.host
  return outcome

def run (arguments : List String) : IO Program.Outcome := do
  match CommandLine.parse arguments with
  | .error refusal => return Program.refused ⟨.emptyDirectory⟩ refusal
  | .ok options => runOptions (Path.ofText (toString (← IO.currentDir))) options

end RvBoard.Main

def main (arguments : List String) : IO UInt32 := do
  let outcome ← RvBoard.Main.run arguments
  (← IO.getStdout).write outcome.output
  for line in outcome.errors do
    IO.eprintln line
  return outcome.code.toUInt32
