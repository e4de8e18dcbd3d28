import RvBoard.Debug.Stub

/-!
# Exchanges with a debugger

What comes of each event of a connection: the bytes that are queued for the debugger, whether the
target runs afterwards, and what was done to the target.
-/

set_option autoImplicit false

namespace RvBoard.Debug

variable {τ : Type} [DebugTarget τ]

namespace Command

def Continues (payload : List UInt8) : Prop :=
  ∃ pc, parse payload = some (.resume pc)

def Kills (payload : List UInt8) : Prop :=
  parse payload = some .kill

def Detaches (payload : List UInt8) : Prop :=
  parse payload = some .detach

theorem run_action (command : Command) (target : τ) :
    (∃ pc, command = .resume pc ∧ (command.run target).1 = .resume) ∨
      (command = .kill ∧ (command.run target).1 = .kill) ∨ (command = .detach ∧ (command.run target).1 = .detach) ∨
      ((∀ pc, command ≠ .resume pc) ∧ command ≠ .kill ∧ command ≠ .detach ∧
        ((command.run target).1 = .enableNoAck ∨ ∃ text, (command.run target).1 = .reply text)) := by
  cases command with
  | resume pc => exact .inl ⟨pc, rfl, rfl⟩
  | kill => exact .inr (.inl ⟨rfl, rfl⟩)
  | detach => exact .inr (.inr (.inl ⟨rfl, rfl⟩))
  | enableNoAck => exact .inr (.inr (.inr ⟨nofun, nofun, nofun, .inl rfl⟩))
  | readRegister register =>
    refine .inr (.inr (.inr ⟨nofun, nofun, nofun, .inr ?_⟩))
    unfold run
    dsimp only
    cases registerValue? target register <;> exact ⟨_, rfl⟩
  | writeRegister register value =>
    refine .inr (.inr (.inr ⟨nofun, nofun, nofun, .inr ?_⟩))
    cases register with
    | csr address =>
      unfold run assign
      dsimp only
      cases DebugTarget.csr? target address <;> exact ⟨_, rfl⟩
    | _ => exact ⟨_, rfl⟩
  | readMemory address size =>
    refine .inr (.inr (.inr ⟨nofun, nofun, nofun, .inr ?_⟩))
    unfold run
    dsimp only
    generalize DebugTarget.readMemory address size target = outcome
    obtain ⟨result, target⟩ := outcome
    cases result <;> exact ⟨_, rfl⟩
  | writeMemory address bytes =>
    refine .inr (.inr (.inr ⟨nofun, nofun, nofun, .inr ?_⟩))
    unfold run
    dsimp only
    generalize DebugTarget.writeMemory address (Bytes.ofList bytes) target = outcome
    obtain ⟨result, target⟩ := outcome
    cases result <;> exact ⟨_, rfl⟩
  | _ => exact .inr (.inr (.inr ⟨nofun, nofun, nofun, .inr ⟨_, rfl⟩⟩))

end Command

inductive Dispatched (payload : List UInt8) : Action → Prop
  | continued (continues : Command.Continues payload) : Dispatched payload .resume
  | killed (kills : Command.Kills payload) : Dispatched payload .kill
  | detached (detaches : Command.Detaches payload) : Dispatched payload .detach
  | answered (stays : ¬ Command.Continues payload) (lives : ¬ Command.Kills payload) (holds : ¬ Command.Detaches payload)
      {action : Action} (answer : action = .enableNoAck ∨ ∃ text, action = .reply text) : Dispatched payload action

theorem dispatch_cases (payload : List UInt8) (target : τ) : Dispatched payload (dispatch payload target).1 := by
  unfold dispatch
  cases spelled : Command.parse payload with
  | none =>
    refine .answered ?_ ?_ ?_ (.inr ⟨_, rfl⟩)
    · rintro ⟨pc, same⟩
      cases spelled.symm.trans same
    · exact fun same => nomatch spelled.symm.trans same
    · exact fun same => nomatch spelled.symm.trans same
  | some command =>
    dsimp only
    rcases command.run_action target with ⟨pc, rfl, same⟩ | ⟨rfl, same⟩ | ⟨rfl, same⟩ | ⟨stays, lives, holds, answer⟩
    · rw [same]
      exact .continued ⟨pc, spelled⟩
    · rw [same]
      exact .killed spelled
    · rw [same]
      exact .detached spelled
    · refine .answered ?_ ?_ ?_ answer
      · rintro ⟨pc, same⟩
        exact stays pc (Option.some.inj (spelled.symm.trans same))
      · exact fun same => lives (Option.some.inj (spelled.symm.trans same))
      · exact fun same => holds (Option.some.inj (spelled.symm.trans same))

namespace Stub

-- An event that has been handled: the session before it and after it, and what comes next.
structure Exchange (τ : Type) where
  before : Session τ
  event : Packet.Event
  next : Next
  after : Session τ

namespace Exchange

def output (exchange : Exchange τ) : List UInt8 :=
  exchange.after.connection.unsent.drop exchange.before.connection.unsent.length

def sign (exchange : Exchange τ) : List UInt8 :=
  if exchange.before.connection.noAck then [] else [Packet.plus]

structure Orderly (exchange : Exchange τ) : Prop where
  queued : exchange.after.connection.unsent = exchange.before.connection.unsent ++ exchange.output
  -- A packet accepted while the target is held has exactly one packet for its answer,
  answered : ∀ payload, exchange.event = .packet payload → exchange.before.attachment ≠ .running →
    ¬ Command.Continues payload → ¬ Command.Kills payload →
    ∃ reply, exchange.output = exchange.sign ++ Packet.frame reply
  -- and none if it lets the target go on or ends everything.
  unanswered : ∀ payload, exchange.event = .packet payload → exchange.before.attachment ≠ .running →
    Command.Continues payload ∨ Command.Kills payload → exchange.output = exchange.sign
  -- While the target runs packets are accepted and nothing else,
  ignored : ∀ payload, exchange.event = .packet payload → exchange.before.attachment = .running → payload ≠ ascii "?" →
    exchange.output = exchange.sign ∧ exchange.after.target = exchange.before.target ∧
      exchange.after.attachment = .running ∧ exchange.next = .goOn
  -- but for the question for the stop reason.
  asked : exchange.event = .packet (ascii "?") →
    exchange.output = exchange.sign ++ Packet.frame StopSignal.trap.reply ∧
      exchange.after.target = exchange.before.target ∧ exchange.after.attachment = exchange.before.attachment ∧
      exchange.next = .goOn
  stops : exchange.before.attachment = .running → exchange.after.attachment ≠ .running →
    exchange.event = .interrupt ∧ exchange.after.attachment = .halted ∧
      exchange.output = Packet.frame StopSignal.interrupt.reply
  resumes : exchange.before.attachment ≠ .running → exchange.after.attachment ≠ exchange.before.attachment →
    exchange.after.attachment = .running ∧ ∃ payload, exchange.event = .packet payload ∧ Command.Continues payload
  interrupted : exchange.event = .interrupt → exchange.before.attachment = .running → exchange.after.attachment = .halted
  touched : exchange.after.target ≠ exchange.before.target →
    exchange.before.attachment ≠ .running ∧ ∃ payload, exchange.event = .packet payload
  ended : exchange.next ≠ .goOn → exchange.before.attachment ≠ .running ∧
    ∃ payload, exchange.event = .packet payload ∧ (Command.Detaches payload ∨ Command.Kills payload)

end Exchange

-- The events up to the one that ends the connection, or all of them.
def Session.exchanges (session : Session τ) : List Packet.Event → List (Exchange τ)
  | [] => []
  | event :: rest =>
    match session.handle event with
    | (.goOn, after) => ⟨session, event, .goOn, after⟩ :: after.exchanges rest
    | (next, after) => [⟨session, event, next, after⟩]

omit [DebugTarget τ] in
theorem output_of_queued {exchange : Exchange τ} {bytes : List UInt8}
    (queued : exchange.after.connection.unsent = exchange.before.connection.unsent ++ bytes) : exchange.output = bytes := by
  unfold Exchange.output
  rw [queued, List.drop_left]

theorem acknowledge_unsent (byte : UInt8) (connection : Connection) :
    (connection.acknowledge byte).unsent = connection.unsent ++ (if connection.noAck then [] else [byte]) := by
  unfold Connection.acknowledge Connection.queue
  split
  · exact (List.append_nil _).symm
  · rfl

theorem packet_unsent (payload : List UInt8) (connection : Connection) :
    (connection.packet payload).unsent = connection.unsent ++ Packet.frame payload := rfl

inductive Answered (session : Session τ) (payload : List UInt8) : Next × Session τ → Prop
  | continued (continues : Command.Continues payload) :
      Answered session payload (.goOn, ⟨session.connection, .running, (dispatch payload session.target).2⟩)
  | killed (kills : Command.Kills payload) :
      Answered session payload (.kill, ⟨session.connection, session.attachment, (dispatch payload session.target).2⟩)
  | detached (detaches : Command.Detaches payload) (reply : List UInt8) :
      Answered session payload
        (.detach, ⟨session.connection.packet reply, session.attachment, (dispatch payload session.target).2⟩)
  | replied (stays : ¬ Command.Continues payload) (lives : ¬ Command.Kills payload) (reply : List UInt8) (noAck : Bool) :
      Answered session payload
        (.goOn, ⟨{ session.connection.packet reply with noAck := noAck }, session.attachment,
          (dispatch payload session.target).2⟩)

theorem answer_cases (session : Session τ) (payload : List UInt8) : Answered session payload (session.answer payload) := by
  have dispatched := dispatch_cases payload session.target
  obtain ⟨connection, attachment, target⟩ := session
  let session : Session τ := ⟨connection, attachment, target⟩
  unfold Session.answer
  dsimp only at dispatched ⊢
  cases outcome : dispatch payload target with
  | mk action changed =>
    have target : (dispatch payload session.target).2 = changed := congrArg Prod.snd outcome
    rw [outcome] at dispatched
    dsimp only at dispatched ⊢
    rw [← target]
    cases dispatched with
    | continued continues => exact .continued continues
    | killed kills => exact .killed kills
    | detached detaches => exact (.detached detaches (ascii "OK") : Answered session payload _)
    | answered stays lives holds answer =>
      rcases answer with rfl | ⟨text, rfl⟩
      · exact (.replied stays lives (ascii "OK") true : Answered session payload _)
      · exact (.replied stays lives text connection.noAck : Answered session payload _)

theorem question_spelled : Command.parse (ascii "?") = some (.say StopSignal.trap.reply) := rfl

theorem answer_question (session : Session τ) :
    session.answer (ascii "?") = (.goOn, session.change (Connection.packet StopSignal.trap.reply)) := by
  obtain ⟨connection, attachment, target⟩ := session
  unfold Session.answer dispatch
  rw [question_spelled]
  rfl

-- The session once a packet has come.
def Session.accepted (session : Session τ) : Session τ :=
  session.change (Connection.acknowledge Packet.plus)

theorem handle_packet (session : Session τ) (payload : List UInt8) : session.handle (.packet payload) =
    if session.attachment = .running ∧ payload ≠ ascii "?" then (.goOn, session.accepted)
    else session.accepted.answer payload := rfl

omit [DebugTarget τ] in
theorem orderly_of_queued {session after : Session τ} {event : Packet.Event} {bytes : List UInt8}
    (other : ∀ payload, event ≠ .packet payload) (silent : event = .interrupt → session.attachment ≠ .running)
    (queued : after.connection.unsent = session.connection.unsent ++ bytes) (target : after.target = session.target)
    (attachment : after.attachment = session.attachment) : Exchange.Orderly ⟨session, event, .goOn, after⟩ where
  queued := by rw [output_of_queued queued]; exact queued
  answered payload same := absurd same (other payload)
  unanswered payload same := absurd same (other payload)
  ignored payload same := absurd same (other payload)
  asked same := absurd same (other _)
  stops running stopped := absurd (attachment.trans running) stopped
  resumes _ changed := absurd attachment changed
  interrupted same running := absurd running (silent same)
  touched changed := absurd target changed
  ended more := absurd rfl more

omit [DebugTarget τ] in
theorem accepted_unsent (session : Session τ) (bytes : List UInt8) :
    session.accepted.connection.unsent ++ bytes =
      session.connection.unsent ++ ((if session.connection.noAck then [] else [Packet.plus]) ++ bytes) := by
  unfold Session.accepted Session.change
  dsimp only
  rw [acknowledge_unsent, List.append_assoc]

omit [DebugTarget τ] in
theorem ignored_orderly {session : Session τ} {payload : List UInt8} (running : session.attachment = .running)
    (other : payload ≠ ascii "?") : Exchange.Orderly ⟨session, .packet payload, .goOn, session.accepted⟩ := by
  let exchange : Exchange τ := ⟨session, .packet payload, .goOn, session.accepted⟩
  have queued : session.accepted.connection.unsent = session.connection.unsent ++ exchange.sign :=
    acknowledge_unsent Packet.plus session.connection
  have output : exchange.output = exchange.sign := output_of_queued queued
  exact {
    queued := by rw [output]; exact queued
    answered := fun _ _ held => absurd running held
    unanswered := fun _ _ held => absurd running held
    ignored := fun _ _ _ _ => ⟨output, rfl, running, rfl⟩
    asked := fun same => absurd (Packet.Event.packet.inj same) other
    stops := fun _ stopped => absurd running stopped
    resumes := fun held => absurd running held
    interrupted := nofun
    touched := fun changed => absurd rfl changed
    ended := fun more => absurd rfl more }

theorem question_continues : ¬ Command.Continues (ascii "?") := by
  rintro ⟨pc, spelled⟩
  cases question_spelled.symm.trans spelled

theorem question_kills : ¬ Command.Kills (ascii "?") :=
  fun spelled => nomatch question_spelled.symm.trans spelled

omit [DebugTarget τ] in
theorem question_orderly (session : Session τ) : Exchange.Orderly ⟨session, .packet (ascii "?"), .goOn,
    session.accepted.change (Connection.packet StopSignal.trap.reply)⟩ := by
  let exchange : Exchange τ :=
    ⟨session, .packet (ascii "?"), .goOn, session.accepted.change (Connection.packet StopSignal.trap.reply)⟩
  have queued : exchange.after.connection.unsent =
      session.connection.unsent ++ (exchange.sign ++ Packet.frame StopSignal.trap.reply) :=
    accepted_unsent session (Packet.frame StopSignal.trap.reply)
  have output : exchange.output = exchange.sign ++ Packet.frame StopSignal.trap.reply := output_of_queued queued
  exact {
    queued := by rw [output]; exact queued
    answered := fun _ _ _ _ _ => ⟨_, output⟩
    unanswered := fun payload same _ ends => by
      cases same
      exact ends.elim (fun continues => absurd continues question_continues) fun kills => absurd kills question_kills
    ignored := fun payload same _ other => absurd (Packet.Event.packet.inj same).symm other
    asked := fun _ => ⟨output, rfl, rfl, rfl⟩
    stops := fun running stopped => absurd running stopped
    resumes := fun _ changed => absurd rfl changed
    interrupted := nofun
    touched := fun changed => absurd rfl changed
    ended := fun more => absurd rfl more }

omit [DebugTarget τ] in
theorem held_orderly {session after : Session τ} {payload : List UInt8} {next : Next} {bytes : List UInt8}
    (held : session.attachment ≠ .running) (other : payload ≠ ascii "?")
    (queued : after.connection.unsent = session.accepted.connection.unsent ++ bytes)
    (answers : ¬ Command.Continues payload → ¬ Command.Kills payload → ∃ reply, bytes = Packet.frame reply)
    (silent : Command.Continues payload ∨ Command.Kills payload → bytes = [])
    (resumes : after.attachment ≠ session.attachment → after.attachment = .running ∧ Command.Continues payload)
    (ended : next ≠ .goOn → Command.Detaches payload ∨ Command.Kills payload) :
    Exchange.Orderly ⟨session, .packet payload, next, after⟩ := by
  let exchange : Exchange τ := ⟨session, .packet payload, next, after⟩
  rw [accepted_unsent] at queued
  have output : exchange.output = exchange.sign ++ bytes := output_of_queued queued
  exact {
    queued := by rw [output]; exact queued
    answered := fun _ same _ stays lives => by
      cases same
      obtain ⟨reply, framed⟩ := answers stays lives
      exact ⟨reply, by rw [output, framed]⟩
    unanswered := fun _ same _ ends => by
      cases same
      rw [output, silent ends, List.append_nil]
    ignored := fun _ _ running => absurd running held
    asked := fun same => absurd (Packet.Event.packet.inj same) other
    stops := fun running => absurd running held
    resumes := fun _ changed => ⟨(resumes changed).1, payload, rfl, (resumes changed).2⟩
    interrupted := nofun
    touched := fun _ => ⟨held, payload, rfl⟩
    ended := fun more => ⟨held, payload, rfl, ended more⟩ }

theorem detaches_alone {payload : List UInt8} (detaches : Command.Detaches payload) :
    ¬ (Command.Continues payload ∨ Command.Kills payload) := by
  rintro (⟨pc, continues⟩ | kills)
  · cases detaches.symm.trans continues
  · cases detaches.symm.trans kills

theorem answered_orderly {session : Session τ} {payload : List UInt8} (held : session.attachment ≠ .running)
    (other : payload ≠ ascii "?") {outcome : Next × Session τ} (answered : Answered session.accepted payload outcome) :
    Exchange.Orderly ⟨session, .packet payload, outcome.1, outcome.2⟩ := by
  cases answered with
  | continued continues =>
    exact held_orderly held other (List.append_nil _).symm (fun stays => absurd continues stays) (fun _ => rfl)
      (fun _ => ⟨rfl, continues⟩) fun more => absurd rfl more
  | killed kills =>
    exact held_orderly held other (List.append_nil _).symm (fun _ lives => absurd kills lives) (fun _ => rfl)
      (fun changed => absurd rfl changed) fun _ => .inr kills
  | detached detaches reply =>
    exact held_orderly held other (packet_unsent reply _) (fun _ _ => ⟨reply, rfl⟩)
      (fun ends => absurd ends (detaches_alone detaches)) (fun changed => absurd rfl changed) fun _ => .inl detaches
  | replied stays lives reply noAck =>
    exact held_orderly held other (packet_unsent reply _) (fun _ _ => ⟨reply, rfl⟩)
      (fun ends => absurd ends (not_or.mpr ⟨stays, lives⟩)) (fun changed => absurd rfl changed) fun more => absurd rfl more

theorem packet_orderly (session : Session τ) (payload : List UInt8) :
    Exchange.Orderly ⟨session, .packet payload, (session.handle (.packet payload)).1, (session.handle (.packet payload)).2⟩ := by
  rw [handle_packet]
  by_cases question : payload = ascii "?"
  · subst question
    rw [if_neg fun both => both.2 rfl, answer_question]
    exact question_orderly session
  · by_cases running : session.attachment = .running
    · rw [if_pos ⟨running, question⟩]
      exact ignored_orderly running question
    · rw [if_neg fun both => running both.1]
      exact answered_orderly running question (answer_cases session.accepted payload)

omit [DebugTarget τ] in
theorem interrupt_orderly {session : Session τ} (running : session.attachment = .running) :
    Exchange.Orderly ⟨session, .interrupt, .goOn,
      { session.change (Connection.packet StopSignal.interrupt.reply) with attachment := .halted }⟩ := by
  have queued := packet_unsent StopSignal.interrupt.reply session.connection
  exact {
    queued := by rw [output_of_queued queued]; exact queued
    answered := nofun
    unanswered := nofun
    ignored := nofun
    asked := nofun
    stops := fun _ _ => ⟨rfl, rfl, output_of_queued queued⟩
    resumes := fun held => absurd running held
    interrupted := fun _ _ => rfl
    touched := fun changed => absurd rfl changed
    ended := fun more => absurd rfl more }

theorem handle_orderly (session : Session τ) (event : Packet.Event) :
    Exchange.Orderly ⟨session, event, (session.handle event).1, (session.handle event).2⟩ := by
  cases event with
  | packet payload => exact packet_orderly session payload
  | ack => exact orderly_of_queued nofun nofun (List.append_nil _).symm rfl rfl
  | nack =>
    have again : ((session.handle .nack).2.connection.unsent) =
        session.connection.unsent ++ session.connection.lastPacket := rfl
    exact orderly_of_queued nofun nofun again rfl rfl
  | corrupted => exact orderly_of_queued nofun nofun (acknowledge_unsent Packet.minus session.connection) rfl rfl
  | interrupt =>
    unfold Session.handle
    dsimp only
    by_cases running : session.attachment = .running
    · rw [if_pos running]
      exact interrupt_orderly running
    · rw [if_neg running]
      exact orderly_of_queued nofun (fun _ => running) (List.append_nil _).symm rfl rfl

theorem exchanges_orderly (session : Session τ) (events : List Packet.Event) :
    ∀ exchange ∈ session.exchanges events, exchange.Orderly := by
  induction events generalizing session with
  | nil => exact fun _ member => absurd member List.not_mem_nil
  | cons event rest ih =>
    intro exchange member
    have first := handle_orderly session event
    unfold Session.exchanges at member
    generalize session.handle event = outcome at first member
    obtain ⟨next, after⟩ := outcome
    cases next with
    | goOn =>
      rcases List.mem_cons.mp member with rfl | later
      · exact first
      · exact ih after exchange later
    | detach =>
      rw [List.mem_singleton.mp member]
      exact first
    | kill =>
      rw [List.mem_singleton.mp member]
      exact first

def Linked (start : Session τ) : List (Exchange τ) → Session τ → Prop
  | [], final => final = start
  | exchange :: rest, final => exchange.before = start ∧ Linked exchange.after rest final

theorem exchanges_linked (session : Session τ) (events : List Packet.Event) :
    Linked session (session.exchanges events) (session.handleAll events).2 ∧
      (session.exchanges events).map Exchange.event <+: events ∧
      ((session.handleAll events).1 = .goOn → (session.exchanges events).map Exchange.event = events ∧
        ∀ exchange ∈ session.exchanges events, exchange.next = .goOn) ∧
      ((session.handleAll events).1 ≠ .goOn → ∃ exchange ∈ session.exchanges events,
        exchange.next = (session.handleAll events).1) := by
  induction events generalizing session with
  | nil => exact ⟨rfl, List.prefix_rfl, fun _ => ⟨rfl, fun _ member => absurd member List.not_mem_nil⟩, fun more => absurd rfl more⟩
  | cons event rest ih =>
    unfold Session.exchanges Session.handleAll
    generalize session.handle event = outcome
    obtain ⟨next, after⟩ := outcome
    cases next with
    | goOn =>
      obtain ⟨linked, order, all, ended⟩ := ih after
      refine ⟨⟨rfl, linked⟩, List.cons_prefix_cons.mpr ⟨rfl, order⟩, ?_, ?_⟩
      · intro goes
        obtain ⟨same, open_⟩ := all goes
        refine ⟨congrArg (event :: ·) same, fun exchange member => ?_⟩
        rcases List.mem_cons.mp member with rfl | later
        · rfl
        · exact open_ exchange later
      · intro stops
        obtain ⟨exchange, member, same⟩ := ended stops
        exact ⟨exchange, List.mem_cons_of_mem _ member, same⟩
    | detach =>
      exact ⟨⟨rfl, rfl⟩, List.cons_prefix_cons.mpr ⟨rfl, List.nil_prefix⟩, nofun, fun _ => ⟨_, List.mem_cons_self, rfl⟩⟩
    | kill =>
      exact ⟨⟨rfl, rfl⟩, List.cons_prefix_cons.mpr ⟨rfl, List.nil_prefix⟩, nofun, fun _ => ⟨_, List.mem_cons_self, rfl⟩⟩

section Chains

variable {exchanges : List (Exchange τ)} {start final : Session τ}

omit [DebugTarget τ] in
theorem Linked.unsent (linked : Linked start exchanges final) (orderly : ∀ exchange ∈ exchanges, exchange.Orderly) :
    final.connection.unsent = start.connection.unsent ++ exchanges.flatMap Exchange.output := by
  induction exchanges generalizing start with
  | nil =>
    rw [show final = start from linked]
    exact (List.append_nil _).symm
  | cons exchange rest ih =>
    obtain ⟨rfl, later⟩ := linked
    have rests := ih later fun other member => orderly other (List.mem_cons_of_mem _ member)
    rw [rests, (orderly exchange List.mem_cons_self).queued, List.flatMap_cons, List.append_assoc]

omit [DebugTarget τ] in
theorem Linked.stopped (linked : Linked start exchanges final) (orderly : ∀ exchange ∈ exchanges, exchange.Orderly)
    (ran : start.attachment = .running) (stops : final.attachment ≠ .running) :
    ∃ exchange ∈ exchanges, exchange.event = .interrupt ∧ exchange.before.attachment = .running ∧
      exchange.after.attachment = .halted := by
  induction exchanges generalizing start with
  | nil =>
    rw [show final = start from linked] at stops
    exact absurd ran stops
  | cons exchange rest ih =>
    obtain ⟨rfl, later⟩ := linked
    by_cases goes : exchange.after.attachment = .running
    · obtain ⟨other, member, found⟩ := ih later (fun other member => orderly other (List.mem_cons_of_mem _ member)) goes
      exact ⟨other, List.mem_cons_of_mem _ member, found⟩
    · obtain ⟨event, halted, _⟩ := (orderly exchange List.mem_cons_self).stops ran goes
      exact ⟨exchange, List.mem_cons_self, event, ran, halted⟩

omit [DebugTarget τ] in
theorem Linked.attached (linked : Linked start exchanges final) (orderly : ∀ exchange ∈ exchanges, exchange.Orderly)
    (begins : start.attachment ≠ .detached) : final.attachment ≠ .detached := by
  induction exchanges generalizing start with
  | nil =>
    rw [show final = start from linked]
    exact begins
  | cons exchange rest ih =>
    obtain ⟨rfl, later⟩ := linked
    refine ih later (fun other member => orderly other (List.mem_cons_of_mem _ member)) ?_
    have rules := orderly exchange List.mem_cons_self
    by_cases running : exchange.before.attachment = .running
    · by_cases goes : exchange.after.attachment = .running
      · rw [goes]
        nofun
      · rw [(rules.stops running goes).2.1]
        nofun
    · by_cases same : exchange.after.attachment = exchange.before.attachment
      · rw [same]
        exact begins
      · rw [(rules.resumes running same).1]
        nofun

end Chains

end Stub

end RvBoard.Debug
