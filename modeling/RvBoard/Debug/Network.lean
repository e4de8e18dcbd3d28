/-!
# Connections

The network between debuggers and a stub, held in memory: who listens, which connections wait to be
accepted, and for each connection what either side has sent and the other has not read. Reading,
writing, accepting and setting up a connection can be made to fail once.
-/

set_option autoImplicit false

namespace RvBoard.Debug

inductive Fault where
  | interrupted
  | broken
deriving DecidableEq, Repr

structure Socket where
  incoming : List UInt8 := []
  outgoing : List UInt8 := []
  window : Option Nat := none
  clientClosed : Bool := false
  stubClosed : Bool := false
  setupFails : Bool := false
  readFaults : List Fault := []
  writeFaults : List Fault := []

namespace Socket

/-- The faults that come before the first success, and whether one of them is the last. -/
def afterFaults : List Fault → Bool × List Fault
  | [] => (false, [])
  | .interrupted :: rest => afterFaults rest
  | .broken :: rest => (true, rest)

/-- Everything that the client has sent, and whether it may send more; nothing if the connection
is broken. -/
def receive (socket : Socket) : Option (List UInt8 × Bool) × Socket :=
  match afterFaults socket.readFaults with
  | (true, faults) => (none, { socket with readFaults := faults })
  | (false, faults) =>
    (some (socket.incoming, !socket.clientClosed),
      { socket with incoming := [], readFaults := faults })

def room (socket : Socket) (wanted : Nat) : Nat :=
  match socket.window with
  | some window => min wanted (window - socket.outgoing.length)
  | none => wanted

/-- Sends as much as the client takes: whether that went well, and what is left to send. -/
def send (bytes : List UInt8) (socket : Socket) : (Bool × List UInt8) × Socket :=
  if bytes.isEmpty then ((true, []), socket)
  else
    match afterFaults socket.writeFaults with
    | (true, faults) => ((false, bytes), { socket with writeFaults := faults })
    | (false, faults) =>
      let count := socket.room bytes.length
      ((true, bytes.drop count),
        { socket with outgoing := socket.outgoing ++ bytes.take count, writeFaults := faults })

end Socket

abbrev SocketId := Nat

structure Network where
  port : Option UInt16 := none
  sockets : Array Socket := #[]
  waiting : List SocketId := []
  acceptFaults : Nat := 0

namespace Network

def anyPort : UInt16 := 50000

def listen (port : UInt16) (network : Network) : Option (UInt16 × Network) :=
  let port := if port = 0 then anyPort else port
  if network.port = some port then none else some (port, { network with port := some port })

def change (id : SocketId) (edit : Socket → Socket) (network : Network) : Network :=
  { network with sockets := network.sockets.modify id edit }

def drop (id : SocketId) (network : Network) : Network :=
  network.change id fun socket => { socket with stubClosed := true }

/-- Nobody waits any longer: connections that were not accepted are dropped. -/
def dropWaiting (network : Network) : Network :=
  let network := network.waiting.foldl (fun network id => network.drop id) network
  { network with waiting := [], acceptFaults := 0 }

/-- Takes the oldest connection that waits; one that cannot be set up is dropped. -/
def accept (network : Network) : Option SocketId × Network :=
  if 0 < network.acceptFaults then
    (none, { network with acceptFaults := network.acceptFaults - 1 })
  else
    match network.waiting with
    | [] => (none, network)
    | id :: rest =>
      let network := { network with waiting := rest }
      match network.sockets[id]? with
      | some socket => if socket.setupFails then (none, network.drop id) else (some id, network)
      | none => (none, network)

def onSocket {α : Type} (missing : α) (id : SocketId) (call : Socket → α × Socket)
    (network : Network) : α × Network :=
  match network.sockets[id]? with
  | some socket =>
    let (result, socket) := call socket
    (result, network.change id fun _ => socket)
  | none => (missing, network)

section Client

def connect (network : Network) : Bool × Network :=
  match network.port with
  | none => (false, network)
  | some _ =>
    let id := network.sockets.size
    (true, { network with sockets := network.sockets.push {}, waiting := network.waiting ++ [id] })

def isListening (network : Network) : Bool :=
  network.port.isSome

def failAccept (network : Network) : Network :=
  if network.isListening then { network with acceptFaults := network.acceptFaults + 1 }
  else network

def newest (network : Network) : SocketId :=
  network.sockets.size - 1

def changeNewest (edit : Socket → Socket) (network : Network) : Network :=
  network.change network.newest edit

def send (bytes : List UInt8) : Network → Network :=
  changeNewest fun socket => { socket with incoming := socket.incoming ++ bytes }

def setWindow (window : Option Nat) : Network → Network :=
  changeNewest fun socket => { socket with window := window }

def close : Network → Network :=
  changeNewest fun socket => { socket with clientClosed := true }

def failRead (fault : Fault) : Network → Network :=
  changeNewest fun socket => { socket with readFaults := socket.readFaults ++ [fault] }

def failWrite (fault : Fault) : Network → Network :=
  changeNewest fun socket => { socket with writeFaults := socket.writeFaults ++ [fault] }

def failSetup : Network → Network :=
  changeNewest fun socket => { socket with setupFails := true }

def readNewest (network : Network) : (List UInt8 × Bool) × Network :=
  network.onSocket ([], false) network.newest fun socket =>
    ((socket.outgoing, socket.stubClosed), { socket with outgoing := [] })

end Client

end Network

end RvBoard.Debug
