import RvBoard.Debug.Stub

/-!
# What a debugger leaves of its target

A debugger works on its target through a handful of operations. What each of them keeps is kept by
every command, by every packet and by the whole service of a connection.
-/

set_option autoImplicit false

namespace RvBoard.Debug

variable {τ : Type} [DebugTarget τ]

-- What holds of a target holds after every operation on it that does not let it execute.
structure Editing (Holds : τ → Prop) : Prop where
  setPc : ∀ pc target, Holds target → Holds (DebugTarget.setPc pc target)
  setReg : ∀ reg value target, Holds target → Holds (DebugTarget.setReg reg value target)
  setCsr : ∀ address value target, Holds target → Holds (DebugTarget.setCsr address value target)
  readMemory : ∀ address n target, Holds target → Holds (DebugTarget.readMemory address n target).2
  writeMemory : ∀ address bytes target, Holds target → Holds (DebugTarget.writeMemory address bytes target).2
  setBreakpoint : ∀ pc target, Holds target → Holds (DebugTarget.setBreakpoint pc target)
  clearBreakpoint : ∀ pc target, Holds target → Holds (DebugTarget.clearBreakpoint pc target)
  clearBreakpoints : ∀ target, Holds target → Holds (DebugTarget.clearBreakpoints target)

structure Lasting (Holds : τ → Prop) : Prop extends Editing Holds where
  step : ∀ target, Holds target → Holds (DebugTarget.step target)

namespace Command

def isStep : Command → Bool
  | .step _ => true
  | _ => false

section Edits

variable {Holds : τ → Prop} (editing : Editing Holds)

include editing

theorem goTo_keeps (pc : Option UInt64) {target : τ} (start : Holds target) : Holds (goTo pc target) := by
  cases pc with
  | none => exact start
  | some pc => exact editing.setPc pc target start

theorem assignAll_keeps (regs : Vector UInt64 32) {target : τ} (start : Holds target) : Holds (assignAll regs target) := by
  unfold assignAll
  generalize List.finRange 32 = all
  induction all generalizing target with
  | nil => exact start
  | cons reg rest ih => exact ih (editing.setReg reg _ target start)

theorem assign_keeps (value : UInt64) (register : Register) {target : τ} (start : Holds target) :
    Holds (assign value target register).2 := by
  cases register with
  | integer reg => exact editing.setReg reg value target start
  | pc => exact editing.setPc value target start
  | csr address =>
    unfold assign
    dsimp only
    cases DebugTarget.csr? target address with
    | none => exact start
    | some old => exact editing.setCsr address value target start
  | unknown => exact start

theorem run_edits {command : Command} (other : command.isStep = false) {target : τ} (start : Holds target) :
    Holds (command.run target).2 := by
  cases command with
  | writeAll regs pc => exact goTo_keeps editing pc (assignAll_keeps editing regs start)
  | readRegister register =>
    unfold run
    dsimp only
    cases registerValue? target register <;> exact start
  | writeRegister register value => exact assign_keeps editing value register start
  | readMemory address size =>
    have after := editing.readMemory address size target start
    unfold run
    dsimp only
    generalize DebugTarget.readMemory address size target = outcome at after
    obtain ⟨result, target⟩ := outcome
    cases result <;> exact after
  | writeMemory address bytes =>
    have after := editing.writeMemory address (Bytes.ofList bytes) target start
    unfold run
    dsimp only
    generalize DebugTarget.writeMemory address (Bytes.ofList bytes) target = outcome at after
    obtain ⟨result, target⟩ := outcome
    cases result <;> exact after
  | setBreakpoint pc => exact editing.setBreakpoint pc target start
  | clearBreakpoint pc => exact editing.clearBreakpoint pc target start
  | resume pc => exact goTo_keeps editing pc start
  | step pc => cases other
  | _ => exact start

end Edits

theorem run_keeps {Holds : τ → Prop} (lasting : Lasting Holds) (command : Command) {target : τ} (start : Holds target) :
    Holds (command.run target).2 := by
  cases command with
  | step pc => exact lasting.step _ (goTo_keeps lasting.toEditing pc start)
  | _ => exact run_edits lasting.toEditing rfl start

end Command

variable {Holds : τ → Prop} (lasting : Lasting Holds)

include lasting

theorem dispatch_keeps (payload : List UInt8) {target : τ} (start : Holds target) : Holds (dispatch payload target).2 := by
  unfold dispatch
  cases Command.parse payload with
  | none => exact start
  | some command => exact command.run_keeps lasting start

namespace Stub

theorem answer_keeps (session : Session τ) (payload : List UInt8) (start : Holds session.target) :
    Holds (session.answer payload).2.target := by
  obtain ⟨connection, attachment, target⟩ := session
  have after := dispatch_keeps lasting payload start
  unfold Session.answer
  dsimp only at after ⊢
  generalize dispatch payload target = outcome at after
  obtain ⟨action, target⟩ := outcome
  cases action <;> exact after

theorem handle_keeps (session : Session τ) (event : Packet.Event) (start : Holds session.target) :
    Holds (session.handle event).2.target := by
  cases event with
  | packet payload =>
    unfold Session.handle
    dsimp only
    split
    · exact start
    · exact answer_keeps lasting (session.change (Connection.acknowledge Packet.plus)) payload start
  | interrupt =>
    unfold Session.handle
    dsimp only
    split <;> exact start
  | _ => exact start

theorem handleAll_keeps (session : Session τ) (events : List Packet.Event) (start : Holds session.target) :
    Holds (session.handleAll events).2.target := by
  induction events generalizing session with
  | nil => exact start
  | cons event rest ih =>
    have after := handle_keeps lasting session event start
    unfold Session.handleAll
    generalize session.handle event = outcome at after
    obtain ⟨next, session⟩ := outcome
    cases next with
    | goOn => exact ih session after
    | detach => exact after
    | kill => exact after

theorem disconnect_keeps (stub : Stub) (network : Network) {target : τ} (start : Holds target) :
    Holds (stub.disconnect network target).2.2 :=
  lasting.clearBreakpoints target start

theorem serve_keeps (stub : Stub) (connection : Connection) (network : Network) {target : τ} (start : Holds target) :
    Holds (stub.serve connection network target).2.2 := by
  unfold serve
  generalize network.onSocket none connection.socket Socket.receive = outcome
  obtain ⟨received, network⟩ := outcome
  cases received with
  | none => exact disconnect_keeps lasting stub network start
  | some received =>
    obtain ⟨bytes, isOpen⟩ := received
    dsimp only
    have after := handleAll_keeps lasting
      (⟨{ connection with reader := (connection.reader.feed bytes).1 }, stub.attachment, target⟩ : Session τ)
      (connection.reader.feed bytes).2 start
    generalize Session.handleAll (τ := τ) _ (connection.reader.feed bytes).2 = outcome at after ⊢
    obtain ⟨next, session⟩ := outcome
    cases next with
    | kill => exact disconnect_keeps lasting stub network after
    | detach => exact disconnect_keeps lasting stub _ after
    | goOn =>
      dsimp only
      split
      · exact after
      · exact disconnect_keeps lasting _ _ after

theorem poll_keeps (stub : Stub) (network : Network) {target : τ} (start : Holds target) :
    Holds (stub.poll network target).2.2 := by
  unfold poll
  generalize (if stub.connection.isNone then stub.accept network else (stub, network)) = outcome
  obtain ⟨stub, network⟩ := outcome
  dsimp only
  cases stub.connection with
  | none => exact start
  | some connection => exact serve_keeps lasting stub connection network start

end Stub

end RvBoard.Debug
