import RvBoard.Proofs.Debug.Sessions
import RvBoard.Proofs.Debug.Targets

/-!
# Single steps

A debugger looks at the hart that it holds and changes it, and lets it go on. Only a packet that asks for a single step has
the hart execute, and then just one instruction: in a poll as many as there are such packets.
-/

set_option autoImplicit false

namespace RvBoard

namespace Hart

def Move.Idle (hart : Hart) : Move → Prop
  | .step _ => False
  | .turn stop => ∃ why, hart.turn stop = .stop why
  | _ => True

/-- What comes of a hart that is not run, but for so many single steps. -/
inductive Handled (start : Hart) : Nat → Hart → Prop
  | untouched : Handled start 0 start
  | moved {n : Nat} {hart : Hart} (before : Handled start n hart) (move : Move) (idle : move.Idle hart) :
      Handled start n (move.apply hart)
  | stepped {n : Nat} {hart : Hart} (before : Handled start n hart) : Handled start (n + 1) (hart.stepInstruction false)

theorem Handled.once {start : Hart} (move : Move) (idle : move.Idle start) : Handled start 0 (move.apply start) :=
  .moved .untouched move idle

end Hart

namespace Debug

namespace Command

def asksStep (payload : List UInt8) : Bool :=
  (parse payload).any isStep

end Command

structure Counting {τ : Type} [DebugTarget τ] (Holds : Nat → τ → Prop) : Prop where
  edits : ∀ n, Editing (Holds n)
  steps : ∀ n target, Holds n target → Holds (n + 1) (DebugTarget.step target)

namespace Stub

-- The debugger has the hart that it holds execute one instruction.
def Exchange.steps {τ : Type} (exchange : Exchange τ) : Bool :=
  match exchange.event with
  | .packet payload => exchange.before.attachment != .running && Command.asksStep payload
  | _ => false

theorem answer_target {τ : Type} [DebugTarget τ] (session : Session τ) (payload : List UInt8) :
    (session.answer payload).2.target = (dispatch payload session.target).2 := by
  have answered := answer_cases session payload
  generalize session.answer payload = outcome at answered
  cases answered <;> rfl

end Stub

section Counting

variable {Holds : Nat → Hart → Prop} (counting : Counting Holds) {n : Nat}

include counting

theorem dispatch_counts (payload : List UInt8) {hart : Hart} (start : Holds n hart) :
    Holds (n + (Command.asksStep payload).toNat) (dispatch payload hart).2 := by
  unfold dispatch Command.asksStep
  cases Command.parse payload with
  | none => exact start
  | some command =>
    cases command with
    | step pc => exact counting.steps n _ (Command.goTo_keeps (counting.edits n) pc start)
    | _ => exact Command.run_edits (counting.edits n) rfl start

namespace Stub

theorem handle_counts (session : Session Hart) (event : Packet.Event) (next : Next) (after : Session Hart)
    (start : Holds n session.target) :
    Holds (n + (Exchange.steps ⟨session, event, next, after⟩).toNat) (session.handle event).2.target := by
  cases event with
  | packet payload =>
    have accepted : session.accepted.target = session.target := rfl
    have dispatched := dispatch_counts counting payload start
    rw [handle_packet]
    unfold Exchange.steps
    by_cases running : session.attachment = .running
    · have quiet : (session.attachment != .running && Command.asksStep payload) = false := by simp [running]
      dsimp only
      rw [quiet]
      by_cases question : payload = ascii "?"
      · subst question
        rw [if_neg fun both => both.2 rfl, answer_question]
        exact start
      · rw [if_pos ⟨running, question⟩]
        exact start
    · have held : (session.attachment != .running && Command.asksStep payload) = Command.asksStep payload := by simp [running]
      dsimp only
      rw [held, if_neg fun both => running both.1, answer_target, accepted]
      exact dispatched
  | interrupt =>
    unfold Session.handle
    dsimp only
    split <;> exact start
  | _ => exact start

theorem exchanges_count (session : Session Hart) (events : List Packet.Event) {final : Session Hart}
    (linked : Linked session (session.exchanges events) final) (start : Holds n session.target) :
    Holds (n + (session.exchanges events).countP Exchange.steps) final.target := by
  induction events generalizing session n with
  | nil =>
    rw [show final = session from linked]
    exact start
  | cons event rest ih =>
    have first := fun next after => handle_counts counting session event next after start
    unfold Session.exchanges at linked ⊢
    generalize session.handle event = outcome at first linked ⊢
    obtain ⟨next, after⟩ := outcome
    cases next with
    | goOn =>
      have counts (steps : Bool) : (if steps = true then 1 else 0) = steps.toNat := by cases steps <;> rfl
      rw [List.countP_cons, counts, Nat.add_comm (List.countP _ _), ← Nat.add_assoc]
      exact ih after linked.2 (first .goOn after)
    | detach =>
      obtain ⟨_, rfl⟩ := linked
      exact first .detach _
    | kill =>
      obtain ⟨_, rfl⟩ := linked
      exact first .kill _

theorem Site.poll_counts (site : Site) (start : Holds n site.target) :
    Holds (n + (site.exchanges .poll).countP Exchange.steps) (site.apply .poll).target := by
  have polled := poll_cases site
  unfold exchanges
  generalize site.apply .poll = after at polled ⊢
  cases polled with
  | idle alone =>
    rw [alone]
    exact start
  | served connected linked served =>
    have counted := exchanges_count counting _ _ linked start
    rw [connected]
    cases served with
    | goesOn => exact counted
    | ended => exact (counting.edits _).clearBreakpoints _ counted

end Stub

end Counting

open Hart (Handled)

theorem handled_counting (start : Hart) : Counting (Handled start) where
  edits _ :=
    { setPc pc _ before := before.moved (.setPc pc) trivial
      setReg reg value _ before := before.moved (.setReg reg value) trivial
      setCsr address value _ before := before.moved (.setCsr address value) trivial
      readMemory address n _ before := before.moved (.readMemory address n) trivial
      writeMemory address bytes _ before := before.moved (.writeMemory address bytes) trivial
      setBreakpoint _ _ before := before.moved (.setBreakpoints _) trivial
      clearBreakpoint _ _ before := before.moved (.setBreakpoints _) trivial
      clearBreakpoints _ before := before.moved (.setBreakpoints []) trivial }
  steps _ _ before := before.stepped

theorem Stub.Site.poll_handled (site : Site) :
    Handled site.target ((site.exchanges .poll).countP Exchange.steps) (site.apply .poll).target := by
  have counted := site.poll_counts (handled_counting site.target) .untouched
  rw [Nat.zero_add] at counted
  exact counted

end Debug

end RvBoard
