import RvBoard.Board.Host
import RvBoard.CommandLine.Options
import RvBoard.Image.Load

/-!
# Setting up a machine

A board with the devices and images that the options name, ready to run. The files of the host
stay beside it, since images are read again when the guest restarts.
-/

set_option autoImplicit false

namespace RvBoard

open CommandLine (Options)

inductive Resource where
  | disk
  | share
deriving DecidableEq, Repr

def Resource.text : Resource → String
  | disk => "disk image"
  | share => "shared directory"

inductive MachineError where
  | board (error : BoardError)
  | load (error : LoadError)
  | resource (what : Resource) (path reason : String)

def MachineError.message : MachineError → String
  | .board error => error.message
  | .load error => error.message
  | .resource what path reason => what.text ++ " " ++ path ++ ": " ++ reason

structure DiskImage where
  id : DeviceId
  location : Location
  data : ByteArray

structure Machine where
  board : Board
  serial : DeviceId
  options : Options
  directory : Path
  host : Host
  disk : Option DiskImage := none
  share : Option DeviceId := none

namespace Machine

def serialLine : UInt32 := 10
def rtcLine : UInt32 := 11
def diskLine : UInt32 := 1
def shareLine : UInt32 := 2

def pathIn (directory : Path) (text : String) : Path :=
  let path := Path.ofText text
  if path.head? = some "" then path else directory ++ path

def attach (number : UInt32) (owner : String) (make : Line → Device) (board : Board) :
    Except MachineError (DeviceId × Board) := do
  let (line, board) ← (board.bindLine number owner).mapError .board
  let ((_, id), board) ← (board.addMmioDevice (make line)).mapError .board
  return (id, board)

def bareBoard (memory : Nat) : Except MachineError (DeviceId × Board) := do
  let board ← Board.new.mapError .board
  let (_, board) ← (board.addRam memory).mapError .board
  let (serial, board) ← attach serialLine Uart.name (fun line => .uart line {}) board
  let board := { board with standardOutput := some serial }
  let (_, board) ← attach rtcLine Rtc.model (fun line => .rtc line {}) board
  return (serial, board)

def addDisk (path : String) (machine : Machine) : Except MachineError Machine := do
  let readOnly := machine.options.readOnly
  let refused (errno : Errno) : MachineError := .resource .disk path errno.text
  let (location, contents) ←
    (machine.host.openFile (pathIn machine.directory path) (!readOnly)).mapError refused
  let data := contents.toBytes
  let store := BlockStore.ofBytes .file data readOnly
  let (id, board) ←
    attach diskLine Virtio.Block.name (fun line => .block line (.ofBackend ⟨store⟩)) machine.board
  return { machine with board := board, disk := some { id, location, data } }

/-- The text of a refusal to share; that something is no directory is said by its full path. -/
def shareReason (machine : Machine) (path : Path) (errno : Errno) : String :=
  match machine.host.canonical path with
  | .ok location => Path.toText (Host.pathOf location) ++ " is not a directory"
  | .error _ => errno.text

def addShare (path : String) (machine : Machine) : Except MachineError Machine := do
  let full := pathIn machine.directory path
  let share ← (HostShare.ofHost machine.host full).mapError fun errno =>
    .resource .share path (machine.shareReason full errno)
  let server := NineP.Server.withTag machine.options.shareTag share
  let (id, board) ←
    attach shareLine Virtio.Share.name (fun line => .share line (.ofBackend server)) machine.board
  return { machine with board := board, share := some id }

/-- The files with all that the guest has written. What the guest has put on the disk counts more
than what it has done to the image through the share. -/
def files (machine : Machine) : Host :=
  let shared :=
    match machine.share.bind machine.board.bus.device? with
    | some (.share _ transport) => transport.backend.fs.host
    | _ => machine.host
  match machine.disk with
  | none => shared
  | some disk =>
    match (machine.board.bus.device? disk.id).bind Device.store? with
    | some store =>
      if store.data == disk.data then shared
      else shared.setContents disk.location (.ofBytes store.data)
    | none => shared

def loadImage (path : String) (address : UInt64) (machine : Machine) :
    Except MachineError Machine := do
  let image ← (machine.files.readWhole (pathIn machine.directory path)).mapError fun errno =>
    .load (.unreadable path errno.text)
  let ⟨board, serial, options, directory, host, disk, share⟩ := machine
  let (loaded, board) := board.onBus (Image.loadAny Elf.read address image)
  let _ ← loaded.mapError .load
  return ⟨board, serial, options, directory, host, disk, share⟩

def loadImages (machine : Machine) : Except MachineError Machine := do
  let options := machine.options
  let machine ← machine.loadImage options.firmware Ram.base
  let machine ←
    match options.kernel with
    | some kernel => machine.loadImage kernel (Ram.base + options.kernelOffset)
    | none => pure machine
  let board ← machine.board.prepareBoot.mapError .board
  return { machine with board := board }

def build (host : Host) (directory : Path) (options : Options) (debugger : Bool) :
    Except MachineError Machine := do
  let (serial, board) ← bareBoard options.memory
  let machine : Machine := { board, serial, options, directory, host }
  let machine ← options.drive.elim (pure machine) machine.addDisk
  let machine ← options.share.elim (pure machine) machine.addShare
  let board := { machine.board with bootArguments := options.bootArguments }
  let board ←
    if debugger && (options.gdb || options.waitGdb) then do
      let (_, board) ← (board.enableDebugger options.gdbPort options.waitGdb).mapError .board
      pure board
    else pure board
  let machine ← { machine with board := board.reset }.loadImages
  return { machine with board := machine.board.setRunning true }

end Machine

end RvBoard
