import RvBoard.Debug.Command
import RvBoard.Debug.Network

/-!
# Debugger stub

Serves one debugger at a time. While the target runs only an interrupt and the question for the
stop reason are answered; a connection that ends takes the breakpoints with it.
-/

set_option autoImplicit false

namespace RvBoard.Debug

inductive Attachment where
  | detached
  | halted
  | running
deriving DecidableEq, Repr

def Attachment.text : Attachment → String
  | detached => "Detached"
  | halted => "AttachedHalted"
  | running => "AttachedRunning"

structure Connection where
  socket : SocketId
  reader : Packet.Reader := .idle
  noAck : Bool := false
  unsent : List UInt8 := []
  lastPacket : List UInt8 := []

namespace Connection

def queue (bytes : List UInt8) (connection : Connection) : Connection :=
  { connection with unsent := connection.unsent ++ bytes }

def packet (payload : List UInt8) (connection : Connection) : Connection :=
  let framed := Packet.frame payload
  { connection.queue framed with lastPacket := framed }

/-- A single byte that answers a packet, unless the debugger does not want any. -/
def acknowledge (byte : UInt8) (connection : Connection) : Connection :=
  if connection.noAck then connection else connection.queue [byte]

def flush (connection : Connection) (network : Network) : Bool × Connection × Network :=
  let ((fine, unsent), network) :=
    network.onSocket (false, connection.unsent) connection.socket (Socket.send connection.unsent)
  (fine, { connection with unsent := unsent }, network)

end Connection

structure Stub where
  port : UInt16
  connection : Option Connection := none
  attachment : Attachment := .detached
  haltUntilAttach : Bool

namespace Stub

/-- A stub that listens, unless somebody listens at that port already. -/
def bind (port : UInt16) (halt : Bool) (network : Network) : Option (Stub × Network) :=
  (network.listen port).map fun (port, network) =>
    ({ port := port, haltUntilAttach := halt }, network)

def isHalted (stub : Stub) : Bool :=
  match stub.attachment with
  | .detached => stub.haltUntilAttach
  | .halted => true
  | .running => false

def accept (stub : Stub) (network : Network) : Stub × Network :=
  match network.accept with
  | (some id, network) =>
    ({ stub with
        connection := some { socket := id }, attachment := .halted, haltUntilAttach := false },
      network)
  | (none, network) => (stub, network)

def release (stub : Stub) (network : Network) : Stub × Network :=
  let network :=
    match stub.connection with
    | some connection => network.drop connection.socket
    | none => network
  ({ stub with connection := none, attachment := .detached, haltUntilAttach := false }, network)

inductive Next where
  | goOn
  | detach
  | kill
deriving DecidableEq, Repr

section Serve

variable {τ : Type} [DebugTarget τ]

def disconnect (stub : Stub) (network : Network) (target : τ) : Stub × Network × τ :=
  let (stub, network) := stub.release network
  (stub, network, DebugTarget.clearBreakpoints target)

structure Session (τ : Type) where
  connection : Connection
  attachment : Attachment
  target : τ

def Session.change (session : Session τ) (edit : Connection → Connection) : Session τ :=
  { session with connection := edit session.connection }

def Session.answer (session : Session τ) (payload : List UInt8) : Next × Session τ :=
  let ⟨connection, attachment, target⟩ := session
  let (action, target) := dispatch payload target
  match action with
  | .reply text => (.goOn, ⟨connection.packet text, attachment, target⟩)
  | .enableNoAck =>
    (.goOn, ⟨{ connection.packet (ascii "OK") with noAck := true }, attachment, target⟩)
  | .resume => (.goOn, ⟨connection, .running, target⟩)
  | .detach => (.detach, ⟨connection.packet (ascii "OK"), attachment, target⟩)
  | .kill => (.kill, ⟨connection, attachment, target⟩)

def Session.handle (session : Session τ) : Packet.Event → Next × Session τ
  | .ack => (.goOn, session)
  | .nack => (.goOn, session.change fun connection => connection.queue connection.lastPacket)
  | .corrupted => (.goOn, session.change (Connection.acknowledge Packet.minus))
  | .interrupt =>
    if session.attachment = .running then
      (.goOn, { session.change (Connection.packet StopSignal.interrupt.reply) with
        attachment := .halted })
    else (.goOn, session)
  | .packet payload =>
    let session := session.change (Connection.acknowledge Packet.plus)
    if session.attachment = .running ∧ payload ≠ ascii "?" then (.goOn, session)
    else session.answer payload

/-- Handles events until one of them ends the connection. -/
def Session.handleAll (session : Session τ) : List Packet.Event → Next × Session τ
  | [] => (.goOn, session)
  | event :: rest =>
    match session.handle event with
    | (.goOn, session) => session.handleAll rest
    | ended => ended

def serve (stub : Stub) (connection : Connection) (network : Network) (target : τ) :
    Stub × Network × τ :=
  match network.onSocket none connection.socket Socket.receive with
  | (none, network) => stub.disconnect network target
  | (some (bytes, isOpen), network) =>
    let (reader, events) := connection.reader.feed bytes
    let session : Session τ := ⟨{ connection with reader := reader }, stub.attachment, target⟩
    match session.handleAll events with
    | (.kill, ⟨_, _, target⟩) => stub.disconnect network target
    | (.detach, ⟨connection, _, target⟩) =>
      let (_, _, network) := connection.flush network
      stub.disconnect network target
    | (.goOn, ⟨connection, attachment, target⟩) =>
      let (fine, connection, network) := connection.flush network
      let stub := { stub with connection := some connection, attachment := attachment }
      if fine && isOpen then (stub, network, target) else stub.disconnect network target

def poll (stub : Stub) (network : Network) (target : τ) : Stub × Network × τ :=
  let (stub, network) := if stub.connection.isNone then stub.accept network else (stub, network)
  match stub.connection with
  | some connection => stub.serve connection network target
  | none => (stub, network, target)

end Serve

def reportStop (stub : Stub) (signal : StopSignal) (network : Network) : Stub × Network :=
  if stub.attachment ≠ .running then (stub, network)
  else
    match stub.connection with
    | none => ({ stub with attachment := .halted }, network)
    | some connection =>
      let (_, connection, network) := (connection.packet signal.reply).flush network
      ({ stub with connection := some connection, attachment := .halted }, network)

end Stub

end RvBoard.Debug
