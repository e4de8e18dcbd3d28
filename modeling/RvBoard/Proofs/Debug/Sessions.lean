import RvBoard.Proofs.Debug.Exchanges
import RvBoard.Proofs.Hart.Moves

/-!
# Sessions of debuggers

A stub at its place, with the network it listens on and the hart it debugs. Whatever clients send, whenever connections
come and go, the stub is detached just when nobody is connected, a session that ends takes its breakpoints with it, the
hart is held again only by an interrupt or a stop that was reported, and every exchange of a session is orderly.
-/

set_option autoImplicit false

namespace RvBoard.Debug

namespace Network

theorem onSocket_found {α : Type} (missing : α) {id : SocketId} (call : Socket → α × Socket) {network : Network}
    {socket : Socket} (found : network.sockets[id]? = some socket) :
    (network.onSocket missing id call).1 = (call socket).1 ∧
      (network.onSocket missing id call).2.sockets[id]? = some (call socket).2 := by
  unfold onSocket
  rw [found]
  refine ⟨rfl, ?_⟩
  change (network.sockets.modify id fun _ => (call socket).2)[id]? = _
  rw [Array.getElem?_modify, if_pos rfl, found]
  rfl

theorem onSocket_missing {α : Type} (missing : α) {id : SocketId} (call : Socket → α × Socket) {network : Network}
    (absent : network.sockets[id]? = none) : network.onSocket missing id call = (missing, network) := by
  unfold onSocket
  rw [absent]

def unread (network : Network) (id : SocketId) : List UInt8 :=
  match network.sockets[id]? with
  | some socket => socket.outgoing
  | none => []

theorem unread_found {network : Network} {id : SocketId} {socket : Socket} (found : network.sockets[id]? = some socket) :
    network.unread id = socket.outgoing := by
  unfold unread
  rw [found]

end Network

namespace Socket

theorem receive_outgoing (socket : Socket) : socket.receive.2.outgoing = socket.outgoing := by
  unfold receive
  split <;> rfl

theorem send_outgoing (bytes : List UInt8) (socket : Socket) :
    (socket.send bytes).2.outgoing ++ (socket.send bytes).1.2 = socket.outgoing ++ bytes := by
  unfold send
  by_cases empty : bytes.isEmpty
  · rw [if_pos empty, List.isEmpty_iff.mp empty]
  · rw [if_neg empty]
    generalize afterFaults socket.writeFaults = outcome
    obtain ⟨broken, faults⟩ := outcome
    cases broken with
    | true => rfl
    | false =>
      dsimp only
      rw [List.append_assoc, List.take_append_drop]

end Socket

theorem receive_unread (network : Network) (id : SocketId) :
    (network.onSocket none id Socket.receive).2.unread id = network.unread id := by
  cases found : network.sockets[id]? with
  | none => rw [Network.onSocket_missing none Socket.receive found]
  | some socket =>
    rw [Network.unread_found (Network.onSocket_found none Socket.receive found).2, Network.unread_found found,
      Socket.receive_outgoing]

namespace Connection

def output (connection : Connection) (network : Network) : List UInt8 :=
  network.unread connection.socket ++ connection.unsent

theorem flush_socket (connection : Connection) (network : Network) :
    (connection.flush network).2.1.socket = connection.socket := rfl

theorem flush_output (connection : Connection) (network : Network) :
    (connection.flush network).2.1.output (connection.flush network).2.2 = connection.output network := by
  unfold output
  rw [flush_socket]
  unfold flush
  cases found : network.sockets[connection.socket]? with
  | none => rw [Network.onSocket_missing _ _ found]
  | some socket =>
    obtain ⟨result, after⟩ := Network.onSocket_found (false, connection.unsent) (Socket.send connection.unsent) found
    dsimp only
    rw [Network.unread_found after, Network.unread_found found, ← socket.send_outgoing connection.unsent]
    exact congrArg (_ ++ ·) (congrArg Prod.snd result)

theorem packet_output (payload : List UInt8) (connection : Connection) (network : Network) :
    (connection.packet payload).output network = connection.output network ++ Packet.frame payload :=
  (List.append_assoc _ _ _).symm

end Connection

namespace Stub

structure Site where
  stub : Stub
  network : Network
  target : Hart

inductive Act where
  | poll
  | report (signal : StopSignal)
  /-- Clients connect, send, read and leave, and connections break. -/
  | network (change : Network → Network)
  /-- The target runs. -/
  | target (change : Hart → Hart)

namespace Site

def apply (site : Site) : Act → Site
  | .poll =>
    let (stub, network, target) := site.stub.poll site.network site.target
    ⟨stub, network, target⟩
  | .report signal =>
    let (stub, network) := site.stub.reportStop signal site.network
    ⟨stub, network, site.target⟩
  | .network change => { site with network := change site.network }
  | .target change => { site with target := change site.target }

def welcome (site : Site) : Site :=
  let (stub, network) :=
    if site.stub.connection.isNone then site.stub.accept site.network else (site.stub, site.network)
  ⟨stub, network, site.target⟩

def admits (site : Site) : Act → Bool
  | .poll => site.stub.connection.isNone && site.welcome.stub.connection.isSome
  | _ => false

/-- Everything that the client of a connection has sent, and whether it may send more. -/
def received (site : Site) (connection : Connection) : Option (List UInt8 × Bool) :=
  (site.network.onSocket none connection.socket Socket.receive).1

def heard (site : Site) (connection : Connection) : Network :=
  (site.network.onSocket none connection.socket Socket.receive).2

def inbox (site : Site) (connection : Connection) : List UInt8 :=
  match site.received connection with
  | some (bytes, _) => bytes
  | none => []

def events (site : Site) (connection : Connection) : List Packet.Event :=
  (connection.reader.feed (site.inbox connection)).2

def opening (site : Site) (connection : Connection) : Session Hart :=
  ⟨{ connection with reader := (connection.reader.feed (site.inbox connection)).1 }, site.stub.attachment, site.target⟩

def serving (site : Site) (connection : Connection) : List (Exchange Hart) :=
  (site.opening connection).exchanges (site.events connection)

def exchanges (site : Site) : Act → List (Exchange Hart)
  | .poll =>
    match site.welcome.stub.connection with
    | some connection => site.welcome.serving connection
    | none => []
  | _ => []

inductive Ends (site : Site) (connection : Connection) (final : Session Hart) : Prop
  | left {exchange : Exchange Hart} (last : exchange ∈ site.serving connection) (leaves : exchange.next ≠ .goOn)
  | closed {bytes : List UInt8} (closes : site.received connection = some (bytes, false))
  | unread (broken : site.received connection = none)
  | unsent (broken : (final.connection.flush (site.heard connection)).1 = false)

inductive Served (site : Site) (connection : Connection) (final : Session Hart) : Site → Prop
  | goesOn {stub : Stub} {network : Network} {kept : Connection} (connected : stub.connection = some kept)
      (socket : kept.socket = connection.socket) (attachment : stub.attachment = final.attachment)
      (waits : stub.haltUntilAttach = site.stub.haltUntilAttach)
      (all : (site.serving connection).map Exchange.event = site.events connection)
      (output : kept.output network = connection.output site.network ++ (site.serving connection).flatMap Exchange.output) :
      Served site connection final ⟨stub, network, final.target⟩
  -- Whatever the client did not take is lost.
  | ended (cause : site.Ends connection final) {stub : Stub} {network : Network} (connected : stub.connection = none)
      (attachment : stub.attachment = .detached) (waits : stub.haltUntilAttach = false) (lost : List UInt8)
      (output : network.unread connection.socket ++ lost =
        connection.output site.network ++ (site.serving connection).flatMap Exchange.output) :
      Served site connection final ⟨stub, network, final.target.clearBreakpoints⟩

/-- What a stub comes to from its first moment; `attached` tells whether it ever let a debugger in. -/
inductive Reached (halt : Bool) : Bool → Site → Prop
  | bound {port : UInt16} {network after : Network} {stub : Stub} (target : Hart)
      (binds : Stub.bind port halt network = some (stub, after)) : Reached halt false ⟨stub, after, target⟩
  | after {attached : Bool} {site : Site} (reached : Reached halt attached site) (act : Act) :
      Reached halt (attached || site.admits act) (site.apply act)

end Site

theorem drop_unread (network : Network) (id other : SocketId) : (network.drop id).unread other = network.unread other := by
  unfold Network.unread
  change (match (network.sockets.modify id fun socket => { socket with stubClosed := true })[other]? with
    | some socket => socket.outgoing
    | none => []) = _
  rw [Array.getElem?_modify]
  by_cases same : id = other
  · rw [if_pos same]
    cases network.sockets[other]? <;> rfl
  · rw [if_neg same]

section Serve

variable {site : Site} {connection : Connection}

theorem Site.Served.of_disconnect {final : Session Hart} (cause : site.Ends connection final) {stub : Stub} {network : Network}
    {last : Connection} (connected : stub.connection = some last) (lost : List UInt8)
    (output : network.unread connection.socket ++ lost =
      connection.output site.network ++ (site.serving connection).flatMap Exchange.output) :
    site.Served connection final
      ⟨(stub.disconnect network final.target).1, (stub.disconnect network final.target).2.1,
        (stub.disconnect network final.target).2.2⟩ := by
  refine .ended cause rfl rfl rfl lost ?_
  unfold disconnect release
  rw [connected]
  dsimp only
  rw [drop_unread]
  exact output

theorem handled_output (site : Site) (connection : Connection) :
    ((site.opening connection).handleAll (site.events connection)).2.connection.unsent =
      connection.unsent ++ (site.serving connection).flatMap Exchange.output :=
  (exchanges_linked (site.opening connection) (site.events connection)).1.unsent
    (exchanges_orderly (site.opening connection) (site.events connection))

theorem acknowledge_socket (byte : UInt8) (connection : Connection) :
    (connection.acknowledge byte).socket = connection.socket := by
  unfold Connection.acknowledge
  split <;> rfl

theorem handle_socket (session : Session Hart) (event : Packet.Event) :
    (session.handle event).2.connection.socket = session.connection.socket := by
  cases event with
  | packet payload =>
    have accepted : session.accepted.connection.socket = session.connection.socket :=
      acknowledge_socket Packet.plus session.connection
    rw [handle_packet]
    split
    · exact accepted
    · rw [← accepted]
      have answered := answer_cases session.accepted payload
      generalize session.accepted.answer payload = outcome at answered
      cases answered <;> rfl
  | corrupted => exact acknowledge_socket Packet.minus session.connection
  | interrupt =>
    unfold Session.handle
    dsimp only
    split <;> rfl
  | _ => rfl

theorem handleAll_socket (session : Session Hart) (events : List Packet.Event) :
    (session.handleAll events).2.connection.socket = session.connection.socket := by
  induction events generalizing session with
  | nil => rfl
  | cons event rest ih =>
    have first := handle_socket session event
    unfold Session.handleAll
    generalize session.handle event = outcome at first
    obtain ⟨next, after⟩ := outcome
    cases next with
    | goOn => exact (ih after).trans first
    | detach => exact first
    | kill => exact first

theorem flushed_output {last : Connection} {network : Network} {id : SocketId} {output : List UInt8} (same : last.socket = id)
    (queued : network.unread id ++ last.unsent = output) :
    (last.flush network).2.2.unread id ++ (last.flush network).2.1.unsent = output := by
  have flushed := last.flush_output network
  unfold Connection.output at flushed
  rw [last.flush_socket network, same] at flushed
  exact flushed.trans queued

theorem serve_served (present : site.stub.connection = some connection) :
    ∃ final, Linked (site.opening connection) (site.serving connection) final ∧
      site.Served connection final
        ⟨(site.stub.serve connection site.network site.target).1, (site.stub.serve connection site.network site.target).2.1,
          (site.stub.serve connection site.network site.target).2.2⟩ := by
  obtain ⟨linked, _, all, leaves⟩ := exchanges_linked (site.opening connection) (site.events connection)
  have queued := handled_output site connection
  have same : ((site.opening connection).handleAll (site.events connection)).2.connection.socket = connection.socket :=
    handleAll_socket (site.opening connection) (site.events connection)
  have unread : (site.heard connection).unread connection.socket = site.network.unread connection.socket :=
    receive_unread site.network connection.socket
  -- What the client has not read, and what is queued behind it.
  have output : (site.heard connection).unread connection.socket ++
      ((site.opening connection).handleAll (site.events connection)).2.connection.unsent =
        connection.output site.network ++ (site.serving connection).flatMap Exchange.output := by
    rw [unread, queued]
    exact (List.append_assoc _ _ _).symm
  refine ⟨_, linked, ?_⟩
  unfold serve
  cases heard : site.network.onSocket none connection.socket Socket.receive with
  | mk received network =>
    have after : site.heard connection = network := congrArg Prod.snd heard
    have got : site.received connection = received := congrArg Prod.fst heard
    cases received with
    | none =>
      have silent : site.events connection = [] := by
        unfold Site.events Site.inbox
        rw [got]
        rfl
      rw [silent] at output ⊢
      rw [after] at output
      exact .of_disconnect (.unread got) present _ output
    | some received =>
      obtain ⟨bytes, isOpen⟩ := received
      have inbox : site.inbox connection = bytes := by
        unfold Site.inbox
        rw [got]
      have opened : site.opening connection =
          ⟨{ connection with reader := (connection.reader.feed bytes).1 }, site.stub.attachment, site.target⟩ := by
        unfold Site.opening
        rw [inbox]
      have events : site.events connection = (connection.reader.feed bytes).2 := by
        unfold Site.events
        rw [inbox]
      dsimp only
      rw [← opened, ← events]
      generalize (site.opening connection).handleAll (site.events connection) = outcome at all leaves same output ⊢
      obtain ⟨next, final⟩ := outcome
      rw [after] at output
      cases next with
      | kill =>
        obtain ⟨exchange, last, how⟩ := leaves nofun
        exact .of_disconnect (.left last (by rw [how]; nofun)) present _ output
      | detach =>
        obtain ⟨exchange, last, how⟩ := leaves nofun
        exact .of_disconnect (.left last (by rw [how]; nofun)) present _ (flushed_output same output)
      | goOn =>
        have sent := flushed_output same output
        dsimp only
        by_cases holds : ((final.connection.flush network).1 && isOpen) = true
        · rw [if_pos holds]
          refine .goesOn rfl same rfl rfl (all rfl).1 ?_
          rw [← sent, ← same]
          rfl
        · rw [if_neg holds]
          refine .of_disconnect ?_ rfl _ sent
          cases isOpen with
          | false => exact .closed got
          | true =>
            rw [Bool.and_true] at holds
            exact .unsent (by rw [after]; exact Bool.eq_false_iff.mpr holds)

end Serve

inductive Welcomed (site : Site) : Site → Prop
  | there {connection : Connection} (connected : site.stub.connection = some connection) : Welcomed site site
  | nobody (alone : site.stub.connection = none) (network : Network) : Welcomed site { site with network := network }
  | admitted (alone : site.stub.connection = none) (id : SocketId) (network : Network) :
      Welcomed site
        ⟨{ site.stub with connection := some { socket := id }, attachment := .halted, haltUntilAttach := false }, network,
          site.target⟩

theorem welcome_cases (site : Site) : Welcomed site site.welcome := by
  unfold Site.welcome
  cases connected : site.stub.connection with
  | some connection =>
    dsimp only [Option.isNone_some, Bool.false_eq_true, if_false]
    exact .there connected
  | none =>
    dsimp only [Option.isNone_none, if_true]
    unfold accept
    generalize site.network.accept = outcome
    obtain ⟨taken, network⟩ := outcome
    cases taken with
    | none => exact .nobody connected network
    | some id => exact .admitted connected id network

theorem apply_poll (site : Site) : site.apply .poll =
    match site.welcome.stub.connection with
    | some connection =>
      let served := site.welcome.stub.serve connection site.welcome.network site.welcome.target
      ⟨served.1, served.2.1, served.2.2⟩
    | none => site.welcome := by
  unfold Site.apply poll Site.welcome
  dsimp only
  generalize (if site.stub.connection.isNone then site.stub.accept site.network else (site.stub, site.network)) = outcome
  obtain ⟨⟨port, connection, attachment, waits⟩, network⟩ := outcome
  cases connection <;> rfl

inductive Polled (site : Site) : Site → Prop
  | idle (alone : site.welcome.stub.connection = none) : Polled site site.welcome
  | served {connection : Connection} (connected : site.welcome.stub.connection = some connection) {final : Session Hart}
      (linked : Linked (site.welcome.opening connection) (site.welcome.serving connection) final) {after : Site}
      (served : site.welcome.Served connection final after) : Polled site after

theorem poll_cases (site : Site) : Polled site (site.apply .poll) := by
  rw [apply_poll]
  cases connected : site.welcome.stub.connection with
  | none => exact .idle connected
  | some connection =>
    obtain ⟨final, linked, served⟩ := serve_served connected
    exact .served connected linked served

inductive Reported (site : Site) (signal : StopSignal) : Site → Prop
  | ignored (held : site.stub.attachment ≠ .running) : Reported site signal site
  | silent (running : site.stub.attachment = .running) (alone : site.stub.connection = none) :
      Reported site signal { site with stub := { site.stub with attachment := .halted } }
  | told (running : site.stub.attachment = .running) {connection kept : Connection}
      (connected : site.stub.connection = some connection) (socket : kept.socket = connection.socket) {network : Network}
      (output : kept.output network = connection.output site.network ++ Packet.frame signal.reply) :
      Reported site signal
        ⟨{ site.stub with connection := some kept, attachment := .halted }, network, site.target⟩

theorem report_cases (site : Site) (signal : StopSignal) : Reported site signal (site.apply (.report signal)) := by
  obtain ⟨⟨port, connection, attachment, waits⟩, network, target⟩ := site
  unfold Site.apply reportStop
  dsimp only
  by_cases running : attachment = .running
  · rw [if_neg (not_not_intro running)]
    cases connection with
    | none => exact .silent running rfl
    | some connection =>
      have flushed := (connection.packet signal.reply).flush_output network
      rw [connection.packet_output signal.reply network] at flushed
      have socket : ((connection.packet signal.reply).flush network).2.1.socket = connection.socket := rfl
      dsimp only
      generalize (connection.packet signal.reply).flush network = outcome at flushed socket ⊢
      let site : Site := ⟨⟨port, some connection, attachment, waits⟩, network, target⟩
      exact (.told running rfl socket flushed :
        Reported site signal ⟨⟨port, some outcome.2.1, .halted, waits⟩, outcome.2.2, target⟩)
  · rw [if_pos running]
    exact .ignored running

namespace Site

structure Consistent (halt attached : Bool) (site : Site) : Prop where
  detached : site.stub.attachment = .detached ↔ site.stub.connection = none
  -- The hart is kept from running until somebody attaches, if that was asked for.
  waits : site.stub.haltUntilAttach = (halt && !attached)
  admitted : site.stub.connection ≠ none → attached = true

theorem reached_isHalted {halt attached : Bool} {site : Site} (consistent : site.Consistent halt attached)
    (alone : site.stub.attachment = .detached) : site.stub.isHalted = (halt && !attached) := by
  unfold isHalted
  rw [alone]
  exact consistent.waits

section Steps

variable {halt attached : Bool} {site : Site} (consistent : site.Consistent halt attached)

include consistent

theorem Consistent.welcome : site.welcome.Consistent halt (attached || site.admits .poll) := by
  have found := welcome_cases site
  unfold admits
  generalize site.welcome = after at found ⊢
  cases found with
  | there connected =>
    rw [connected, Option.isNone_some, Bool.false_and, Bool.or_false]
    exact consistent
  | nobody alone network =>
    rw [alone, Option.isSome_none, Bool.and_false, Bool.or_false]
    exact ⟨consistent.detached, consistent.waits, consistent.admitted⟩
  | admitted alone id network =>
    rw [alone, Option.isNone_none, Option.isSome_some, Bool.true_and, Bool.or_true]
    refine ⟨⟨nofun, nofun⟩, ?_, fun _ => rfl⟩
    rw [Bool.not_true, Bool.and_false]

theorem Consistent.served {connection : Connection} (connected : site.stub.connection = some connection)
    {final : Session Hart} (linked : Linked (site.opening connection) (site.serving connection) final) {after : Site}
    (served : site.Served connection final after) : after.Consistent halt attached := by
  have present : site.stub.connection ≠ none := by
    rw [connected]
    nofun
  have waits := consistent.waits
  rw [consistent.admitted present, Bool.not_true, Bool.and_false] at waits
  have told : (halt && !attached) = false := by rw [consistent.admitted present, Bool.not_true, Bool.and_false]
  cases served with
  | goesOn kept socket attachment same all output =>
    have attached := linked.attached (exchanges_orderly _ _) fun alone => present (consistent.detached.mp alone)
    refine ⟨⟨fun alone => absurd (attachment.symm.trans alone) attached, fun alone => nomatch kept.symm.trans alone⟩, ?_,
      fun _ => consistent.admitted present⟩
    exact (same.trans waits).trans told.symm
  | ended cause gone attachment freed lost output =>
    exact ⟨⟨fun _ => gone, fun _ => attachment⟩, freed.trans told.symm, fun connected => absurd gone connected⟩

theorem Consistent.reported {signal : StopSignal} {after : Site} (reported : Reported site signal after) :
    after.Consistent halt attached := by
  cases reported with
  | ignored held => exact consistent
  | silent running alone =>
    exact nomatch (consistent.detached.mpr alone).symm.trans running
  | told running connected socket output =>
    refine ⟨⟨nofun, nofun⟩, consistent.waits, fun _ => consistent.admitted ?_⟩
    rw [connected]
    nofun

theorem Consistent.step (act : Act) : (site.apply act).Consistent halt (attached || site.admits act) := by
  cases act with
  | poll =>
    have polled := poll_cases site
    generalize site.apply .poll = after at polled ⊢
    cases polled with
    | idle alone => exact consistent.welcome
    | served connected linked served => exact consistent.welcome.served connected linked served
  | report signal =>
    unfold admits
    rw [Bool.or_false]
    exact consistent.reported (report_cases site signal)
  | network change =>
    unfold admits
    rw [Bool.or_false]
    exact ⟨consistent.detached, consistent.waits, consistent.admitted⟩
  | target change =>
    unfold admits
    rw [Bool.or_false]
    exact ⟨consistent.detached, consistent.waits, consistent.admitted⟩

end Steps

theorem Reached.consistent {halt attached : Bool} {site : Site} (reached : Reached halt attached site) :
    site.Consistent halt attached := by
  induction reached with
  | bound target binds =>
    obtain ⟨⟨port, network⟩, _, same⟩ := Option.map_eq_some_iff.mp binds
    cases same
    exact ⟨⟨fun _ => rfl, fun _ => rfl⟩, (Bool.and_true halt).symm, fun connected => absurd rfl connected⟩
  | after reached act consistent => exact consistent.step act

structure Lawful (site : Site) (act : Act) : Prop where
  /-- Nothing but a poll exchanges anything, and of each event comes what has to. -/
  orderly : ∀ exchange ∈ site.exchanges act, exchange.Orderly
  polled : act = .poll → Polled site (site.apply act)
  reported : ∀ signal, act = .report signal → Reported site signal (site.apply act)
  /-- Breakpoints go with the session. -/
  freed : site.stub.connection ≠ none ∨ site.admits act = true → (site.apply act).stub.connection = none →
    (site.apply act).target.breakpoints = []
  /-- Only an interrupt or a stop that is reported holds a hart that runs. -/
  stops : site.stub.attachment = .running → (site.apply act).stub.attachment = .halted →
    (∃ signal, act = .report signal) ∨ ∃ exchange ∈ site.exchanges act, exchange.event = .interrupt ∧
      exchange.before.attachment = .running ∧ exchange.after.attachment = .halted

theorem exchanges_lawful (site : Site) (act : Act) : ∀ exchange ∈ site.exchanges act, exchange.Orderly := by
  intro exchange member
  cases act with
  | poll =>
    unfold exchanges at member
    cases connected : site.welcome.stub.connection with
    | none =>
      rw [connected] at member
      exact absurd member List.not_mem_nil
    | some connection =>
      rw [connected] at member
      exact exchanges_orderly _ _ exchange member
  | _ => exact absurd member List.not_mem_nil

theorem welcome_there {site : Site} (present : site.stub.connection ≠ none) : site.welcome = site := by
  have found := welcome_cases site
  generalize site.welcome = after at found ⊢
  cases found with
  | there connected => rfl
  | nobody alone network => exact absurd alone present
  | admitted alone id network => exact absurd alone present

theorem welcome_present {site : Site} (present : site.stub.connection ≠ none ∨ site.admits .poll = true) :
    site.welcome.stub.connection ≠ none := by
  rcases present with present | admitted
  · rw [welcome_there present]
    exact present
  · exact Option.isSome_iff_ne_none.mp (Bool.and_eq_true_iff.mp admitted).2

theorem freed_lawful (site : Site) (act : Act) (present : site.stub.connection ≠ none ∨ site.admits act = true)
    (gone : (site.apply act).stub.connection = none) : (site.apply act).target.breakpoints = [] := by
  cases act with
  | poll =>
    have polled := poll_cases site
    generalize site.apply .poll = after at polled gone ⊢
    cases polled with
    | idle alone => exact absurd alone (welcome_present present)
    | served connected linked served =>
      cases served with
      | goesOn kept socket attachment same all output => exact nomatch gone.symm.trans kept
      | ended cause gone attachment freed lost output => rfl
  | report signal =>
    have reported := report_cases site signal
    have there : site.stub.connection ≠ none := present.resolve_right Bool.false_ne_true
    generalize site.apply (.report signal) = after at reported gone ⊢
    cases reported with
    | ignored held => exact absurd gone there
    | silent running alone => exact absurd alone there
    | told running connected socket output => exact nomatch gone
  | network change => exact absurd gone (present.resolve_right Bool.false_ne_true)
  | target change => exact absurd gone (present.resolve_right Bool.false_ne_true)

theorem stops_lawful {halt attached : Bool} {site : Site} (consistent : site.Consistent halt attached) {act : Act}
    (running : site.stub.attachment = .running) (held : (site.apply act).stub.attachment = .halted) :
    (∃ signal, act = .report signal) ∨ ∃ exchange ∈ site.exchanges act, exchange.event = .interrupt ∧
      exchange.before.attachment = .running ∧ exchange.after.attachment = .halted := by
  cases act with
  | poll =>
    have present : site.stub.connection ≠ none := fun alone => nomatch (consistent.detached.mpr alone).symm.trans running
    have polled := poll_cases site
    have same := welcome_there present
    generalize site.apply .poll = after at polled held
    cases polled with
    | idle alone => exact absurd alone (by rw [same]; exact present)
    | served connected linked served =>
      unfold exchanges
      rw [connected]
      cases served with
      | goesOn kept socket attachment waits all output =>
        refine .inr (linked.stopped (exchanges_orderly _ _) ?_ ?_)
        · rw [same]
          exact running
        · rw [← attachment, held]
          nofun
      | ended cause gone attachment freed lost output => exact nomatch held.symm.trans attachment
  | report signal => exact .inl ⟨signal, rfl⟩
  | network change => exact nomatch held.symm.trans running
  | target change => exact nomatch held.symm.trans running

/-- Whatever has happened to a stub, it is detached just when nobody is connected, it keeps the hart from running without a
debugger only before the first one has come, if that was asked for, and it is lawful in what it does next. -/
theorem sessions_lawful {halt attached : Bool} {site : Site} (reached : Reached halt attached site) :
    (site.stub.attachment = .detached ↔ site.stub.connection = none) ∧
      (site.stub.attachment = .detached → site.stub.isHalted = (halt && !attached)) ∧ ∀ act, Lawful site act := by
  have consistent := reached.consistent
  refine ⟨consistent.detached, reached_isHalted consistent, fun act => ?_⟩
  exact {
    orderly := exchanges_lawful site act
    polled := by
      rintro rfl
      exact poll_cases site
    reported := by
      rintro signal rfl
      exact report_cases site signal
    freed := freed_lawful site act
    stops := stops_lawful consistent }

def waiting : Site where
  stub := { port := Network.anyPort, haltUntilAttach := true }
  network := { port := some Network.anyPort }
  target := Hart.poweredOn

def asked : Site :=
  waiting.apply (.network fun network => network.connect.2.send (ascii "$?#3f"))

theorem asked_reached : Reached true true (asked.apply .poll) := by
  have begins : Reached true false waiting := .bound Hart.poweredOn (rfl : Stub.bind Network.anyPort true {} = _)
  have admits : asked.admits .poll = true := by decide +kernel
  have reached := (begins.after (.network fun network => network.connect.2.send (ascii "$?#3f"))).after .poll
  change Reached true (asked.admits .poll) (asked.apply .poll) at reached
  rwa [admits] at reached

theorem sessions_lawful_asked : Reached true true (asked.apply .poll) ∧ (asked.exchanges .poll).length = 1 ∧
    Lawful (asked.apply .poll) .poll :=
  ⟨asked_reached, by decide +kernel, (sessions_lawful asked_reached).2.2 .poll⟩

end Site

end Stub

end RvBoard.Debug
