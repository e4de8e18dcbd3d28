import RvBoard.Proofs.Board.History
import RvBoard.Proofs.Board.Requests
import RvBoard.Proofs.Debug.SingleSteps
import RvBoard.Proofs.Hart.Slicing

/-!
# The course of a step

A step of the board is a row of deeds: the debugger is served, the hart makes a turn, the devices make a step, a request of
the guest is acted on. The course of a step lists them, each with the board that it is done to.
-/

set_option autoImplicit false

namespace RvBoard

namespace Hart

theorem turn_unasked {hart : Hart} {stop : UInt64} (goes : ∀ why, hart.turn stop ≠ .stop why) :
    hart.wires.control = none := by
  have chosen := turn_cases hart stop
  generalize hart.turn stop = turn at chosen goes
  cases chosen with
  | late => exact absurd rfl (goes .budget)
  | asked => exact absurd rfl (goes .yield)
  | asleep early quiet => exact quiet
  | active early quiet => exact quiet

theorem runTo_yield (stop : UInt64) (n : Nat) {hart : Hart} (yields : (hart.runTo stop n).1 = .yield) :
    (hart.runTo stop n).2.wires.control ≠ none := by
  induction n generalizing hart with
  | zero => cases yields
  | succ n ih =>
    by_cases stops : ∃ why, hart.turn stop = .stop why
    · obtain ⟨why, now⟩ := stops
      rw [runTo_stops now] at yields ⊢
      cases yields
      have asked := turn_yield now
      simp only [afterTurn, now]
      exact asked
    · rw [runTo_goes (not_exists.mp stops)] at yields ⊢
      exact ih yields

end Hart

namespace Board

def isHeld (board : Board) : Bool :=
  match board.stub with
  | some stub => stub.isHalted
  | none => false

def afterwards {α : Type} (board : Board) : Except BoardError (α × Board) → Board
  | .ok (_, next) => next
  | .error _ => board

/-- What happens to a board: the host calls it, or it makes a part of a step. -/
inductive Deed where
  | addDevice (base : Option UInt64) (device : Device)
  | addMmioDevice (device : Device)
  | reset
  | prepareBoot
  | setRunning (running : Bool)
  /-- All else that the host does: programs are loaded, lines are driven, debuggers come and go. -/
  | host (change : Board → Board)
  | serve
  | turn (stop : UInt64)
  | devices
  | report
  | act

namespace Deed

def isCall : Deed → Bool
  | serve | turn _ | devices | report | act => false
  | _ => true

def apply (board : Board) : Deed → Board
  | addDevice base device => board.afterwards (board.addDevice base device)
  | addMmioDevice device => board.afterwards (board.addMmioDevice device)
  | reset => board.reset
  | prepareBoot =>
    match board.prepareBoot with
    | .ok next => next
    | .error _ => board
  | setRunning running => board.setRunning running
  | host change =>
    { change board with state := board.state, wasReset := board.wasReset, exitCode := board.exitCode }
  | serve => board.pollDebugger.2
  | turn stop => { board with hart := board.hart.afterTurn stop }
  | devices => board.stepDevices
  | report => board.reportBreakpoint
  | act => board.handleRequest

end Deed

/-- A deed and the board that it is done to. -/
structure Moment where
  before : Board
  deed : Deed

namespace Moment

def after (moment : Moment) : Board :=
  moment.deed.apply moment.before

-- The hart makes a turn that does not stop it: it executes an instruction, takes an interrupt or waits for one.
def Runs (moment : Moment) : Prop :=
  ∃ stop, moment.deed = .turn stop ∧ ∀ why, moment.before.hart.turn stop ≠ .stop why

def exchanges (moment : Moment) : List (Debug.Stub.Exchange Hart) :=
  match moment.deed, moment.before.stub with
  | .serve, some stub => (⟨stub, moment.before.network, moment.before.hart⟩ : Debug.Stub.Site).exchanges .poll
  | _, _ => []

def steps (moment : Moment) : Nat :=
  moment.exchanges.countP Debug.Stub.Exchange.steps

end Moment

def Linked (start : Board) : List Moment → Board → Prop
  | [], final => final = start
  | moment :: rest, final => moment.before = start ∧ Linked moment.after rest final

section Linked

variable {start middle final : Board} {moment : Moment} {first second : List Moment}

theorem Linked.append (one : Linked start first middle) (two : Linked middle second final) :
    Linked start (first ++ second) final := by
  induction first generalizing start with
  | nil =>
    rw [show middle = start from one] at two
    exact two
  | cons moment rest ih => exact ⟨one.1, ih one.2⟩

theorem Linked.split (linked : Linked start (first ++ moment :: second) final) :
    Linked start first moment.before ∧ Linked moment.after second final := by
  induction first generalizing start with
  | nil => exact ⟨linked.1, linked.2⟩
  | cons other rest ih =>
    obtain ⟨before, after⟩ := ih linked.2
    exact ⟨⟨linked.1, before⟩, after⟩

theorem Linked.keeps {Holds : Board → Prop} (linked : Linked start first final)
    (kept : ∀ moment ∈ first, Holds moment.before → Holds moment.after) (begins : Holds start) : Holds final := by
  induction first generalizing start with
  | nil =>
    rw [show final = start from linked]
    exact begins
  | cons moment rest ih =>
    obtain ⟨rfl, later⟩ := linked
    exact ih later (fun other member => kept other (List.mem_cons_of_mem _ member)) (kept moment List.mem_cons_self begins)

end Linked

def turns (stop : UInt64) : Nat → Board → List Moment
  | 0, _ => []
  | n + 1, board =>
    ⟨board, .turn stop⟩ ::
      match board.hart.turn stop with
      | .stop _ => []
      | _ => turns stop n (Deed.apply board (.turn stop))

def ending (reason : StopReason) (board : Board) : List Moment :=
  ⟨board, .devices⟩ ::
    match reason with
    | .budget => []
    | .breakpoint => [⟨board.stepDevices, .report⟩]
    | .yield => [⟨board.stepDevices, .act⟩]

def sliceCourse (cycles : UInt64) (board : Board) : List Moment :=
  let cycles := min cycles pollInterval
  let ((_, reason), hart) := board.hart.run cycles
  turns (saturatingAdd board.hart.clock cycles) (cycles.toNat + 1) board ++ ending reason { board with hart := hart }

def runCourse : Nat → UInt64 → Board → List Moment
  | 0, _, _ => []
  | slices + 1, remaining, board =>
    if remaining = 0 || !board.isRunning then []
    else
      ⟨board, .serve⟩ ::
        match board.pollDebugger with
        | (true, _) => []
        | (false, board) =>
          board.sliceCourse remaining ++
            match board.slice remaining with
            | (none, _) => []
            | (some spent, board) => runCourse slices (if spent ≤ remaining then remaining - spent else 0) board

def course (cycles : UInt64) (board : Board) : List Moment :=
  runCourse (cycles.toNat + 1) cycles board

theorem turns_linked (stop : UInt64) (n : Nat) (board : Board) :
    Linked board (turns stop n board) { board with hart := (board.hart.runTo stop n).2 } := by
  induction n generalizing board with
  | zero => rfl
  | succ n ih =>
    refine ⟨rfl, ?_⟩
    by_cases stops : ∃ why, board.hart.turn stop = .stop why
    · obtain ⟨why, now⟩ := stops
      rw [Hart.runTo_stops now, now]
      rfl
    · have goes := not_exists.mp stops
      rw [Hart.runTo_goes goes]
      have rest := ih (Deed.apply board (.turn stop))
      cases now : board.hart.turn stop with
      | stop why => exact absurd now (goes why)
      | _ => exact rest

theorem sliceCourse_linked (cycles : UInt64) (board : Board) :
    Linked board (board.sliceCourse cycles) (board.slice cycles).2 := by
  have ran := turns_linked (saturatingAdd board.hart.clock (min cycles pollInterval))
    ((min cycles pollInterval).toNat + 1) board
  unfold sliceCourse slice takeHart Hart.run
  dsimp only
  generalize board.hart.runTo _ _ = outcome at ran
  obtain ⟨reason, hart⟩ := outcome
  refine ran.append ⟨rfl, ?_⟩
  cases reason with
  | budget => rfl
  | breakpoint => exact ⟨rfl, rfl⟩
  | yield => exact ⟨rfl, rfl⟩

theorem runCourse_linked (n : Nat) (cycles : UInt64) (board : Board) :
    Linked board (runCourse n cycles board) (runFor n cycles board) := by
  induction n generalizing cycles board with
  | zero => rfl
  | succ n ih =>
    unfold runCourse runFor
    by_cases idle : (cycles = 0 || !board.isRunning) = true
    · rw [if_pos idle, if_pos idle]
      rfl
    · rw [if_neg idle, if_neg idle]
      refine ⟨rfl, ?_⟩
      change Linked board.pollDebugger.2 _ _
      generalize board.pollDebugger = polled
      obtain ⟨halted, board⟩ := polled
      cases halted with
      | true => rfl
      | false =>
        refine (sliceCourse_linked cycles board).append ?_
        dsimp only
        generalize board.slice cycles = sliced
        obtain ⟨spent, board⟩ := sliced
        cases spent with
        | none => rfl
        | some spent => exact ih _ board

theorem course_linked (cycles : UInt64) (board : Board) : Linked board (board.course cycles) (board.step cycles) :=
  runCourse_linked (cycles.toNat + 1) cycles board

structure Moment.Timely (moment : Moment) : Prop where
  running : moment.before.isRunning = true
  free : moment.deed ≠ .serve → moment.before.isHeld = false
  asked : moment.deed = .act → moment.before.wires.control ≠ none
  inner : moment.deed.isCall = false

theorem pollDebugger_held (board : Board) : board.pollDebugger.2.isHeld = board.pollDebugger.1 := by
  unfold pollDebugger
  cases found : board.stub with
  | none =>
    unfold isHeld
    dsimp only
    rw [found]
  | some stub => rfl

theorem pollDebugger_frame (board : Board) :
    ∃ hart stub network, board.pollDebugger.2 = { board with hart := hart, stub := stub, network := network } := by
  unfold pollDebugger
  cases board.stub with
  | none => exact ⟨_, _, _, rfl⟩
  | some stub => exact ⟨_, _, _, rfl⟩

theorem pollDebugger_running (board : Board) : board.pollDebugger.2.isRunning = board.isRunning := by
  obtain ⟨hart, stub, network, frame⟩ := board.pollDebugger_frame
  rw [frame]
  rfl

theorem reportBreakpoint_frame (board : Board) :
    ∃ stub network, board.reportBreakpoint = { board with stub := stub, network := network } := by
  unfold reportBreakpoint
  cases board.stub with
  | none => exact ⟨_, _, rfl⟩
  | some stub => exact ⟨_, _, rfl⟩

theorem turns_parts (stop : UInt64) (n : Nat) (board : Board) :
    ∀ moment ∈ turns stop n board, ∃ hart, moment = ⟨{ board with hart := hart }, .turn stop⟩ := by
  induction n generalizing board with
  | zero => exact fun _ member => absurd member List.not_mem_nil
  | succ n ih =>
    intro moment member
    rcases List.mem_cons.mp member with rfl | later
    · exact ⟨board.hart, rfl⟩
    · cases now : board.hart.turn stop with
      | stop why =>
        rw [now] at later
        exact absurd later List.not_mem_nil
      | _ =>
        rw [now] at later
        exact ih (Deed.apply board (.turn stop)) moment later

theorem slice_timely {board : Board} (running : board.isRunning = true) (free : board.isHeld = false) (cycles : UInt64) :
    ∀ moment ∈ board.sliceCourse cycles, moment.Timely ∧ moment.deed ≠ .serve := by
  have yields := @Hart.runTo_yield (saturatingAdd board.hart.clock (min cycles pollInterval))
    ((min cycles pollInterval).toNat + 1) board.hart
  intro moment member
  unfold sliceCourse Hart.run at member
  dsimp only at member
  generalize board.hart.runTo _ _ = outcome at member yields
  obtain ⟨reason, hart⟩ := outcome
  rcases List.mem_append.mp member with turned | member
  · obtain ⟨hart, rfl⟩ := turns_parts _ _ board moment turned
    exact ⟨⟨running, fun _ => free, nofun, rfl⟩, nofun⟩
  rcases List.mem_cons.mp member with rfl | member
  · exact ⟨⟨running, fun _ => free, nofun, rfl⟩, nofun⟩
  cases reason with
  | budget => exact absurd member List.not_mem_nil
  | breakpoint =>
    cases List.mem_singleton.mp member
    exact ⟨⟨running, fun _ => free, nofun, rfl⟩, nofun⟩
  | yield =>
    cases List.mem_singleton.mp member
    exact ⟨⟨running, fun _ => free, fun _ => (stepDevices_asked _).stands (yields rfl), rfl⟩, nofun⟩

theorem busy_of_not_idle {cycles : UInt64} {board : Board} (busy : ¬ (cycles = 0 || !board.isRunning) = true) :
    cycles ≠ 0 ∧ board.isRunning = true := by
  simpa using busy

theorem runCourse_timely (n : Nat) (cycles : UInt64) (board : Board) :
    ∀ moment ∈ runCourse n cycles board, moment.Timely := by
  induction n generalizing cycles board with
  | zero => exact fun _ member => absurd member List.not_mem_nil
  | succ n ih =>
    intro moment member
    unfold runCourse at member
    by_cases idle : (cycles = 0 || !board.isRunning) = true
    · rw [if_pos idle] at member
      exact absurd member List.not_mem_nil
    · rw [if_neg idle] at member
      have running := (busy_of_not_idle idle).2
      rcases List.mem_cons.mp member with rfl | member
      · exact ⟨running, fun other => absurd rfl other, nofun, rfl⟩
      have held := board.pollDebugger_held
      have still := board.pollDebugger_running.trans running
      generalize board.pollDebugger = polled at member held still
      obtain ⟨halted, board⟩ := polled
      cases halted with
      | true => exact absurd member List.not_mem_nil
      | false =>
        rcases List.mem_append.mp member with sliced | member
        · exact (slice_timely still held cycles moment sliced).1
        · generalize board.slice cycles = sliced at member
          obtain ⟨spent, board⟩ := sliced
          cases spent with
          | none => exact absurd member List.not_mem_nil
          | some spent => exact ih _ board moment member

def Throughout (Holds : Moment → List Moment → Prop) : List Moment → Prop
  | [] => True
  | moment :: later => Holds moment later ∧ Throughout Holds later

section Throughout

variable {Holds : Moment → List Moment → Prop} {first second : List Moment}

theorem Throughout.append (grows : ∀ moment later more, Holds moment later → Holds moment (later ++ more))
    (one : Throughout Holds first) (two : Throughout Holds second) : Throughout Holds (first ++ second) := by
  induction first with
  | nil => exact two
  | cons moment rest ih => exact ⟨grows moment rest second one.1, ih one.2⟩

theorem Throughout.after (all : Throughout Holds (first ++ second)) : Throughout Holds second := by
  induction first with
  | nil => exact all
  | cons other rest ih => exact ih all.2

theorem Throughout.split {moment : Moment} (all : Throughout Holds (first ++ moment :: second)) : Holds moment second :=
  all.after.1

end Throughout

structure Prompt (moment : Moment) (later : List Moment) : Prop where
  -- A hart that nobody holds makes a turn, and there is time for it unless the clock stands at its end.
  turn : moment.deed = .serve → moment.after.isHeld = false → moment.after.hart.clock ≠ 0xffffffffffffffff →
    ∃ stop rest, later = ⟨moment.after, .turn stop⟩ :: rest ∧ moment.after.hart.clock < stop
  -- The hart that finds that something is asked makes no turn: the devices make their step, and the board acts.
  act : ∀ stop, moment.deed = .turn stop → moment.before.wires.control ≠ none → moment.before.hart.clock < stop →
    ∃ rest, later = ⟨moment.before, .devices⟩ :: ⟨moment.before.stepDevices, .act⟩ :: rest

theorem Prompt.grows (moment : Moment) (later more : List Moment) (prompt : Prompt moment later) :
    Prompt moment (later ++ more) where
  turn serves free early := by
    obtain ⟨stop, rest, rfl, room⟩ := prompt.turn serves free early
    exact ⟨stop, rest ++ more, rfl, room⟩
  act stop turns asked early := by
    obtain ⟨rest, rfl⟩ := prompt.act stop turns asked early
    exact ⟨rest ++ more, rfl⟩

theorem Prompt.of_other {moment : Moment} {later : List Moment} (other : moment.deed ≠ .serve)
    (still : ∀ stop, moment.deed ≠ .turn stop) : Prompt moment later :=
  ⟨fun serves => absurd serves other, fun stop turns => absurd turns (still stop)⟩

theorem ending_prompt (reason : StopReason) (board : Board) : Throughout Prompt (ending reason board) := by
  refine ⟨.of_other nofun nofun, ?_⟩
  cases reason with
  | budget => trivial
  | breakpoint => exact ⟨.of_other nofun nofun, trivial⟩
  | yield => exact ⟨.of_other nofun nofun, trivial⟩

theorem turns_prompt (stop : UInt64) (n : Nat) (board : Board) :
    Throughout Prompt
      (turns stop n board ++ ending (board.hart.runTo stop n).1 { board with hart := (board.hart.runTo stop n).2 }) := by
  induction n generalizing board with
  | zero => exact ending_prompt .budget board
  | succ n ih =>
    by_cases stops : ∃ why, board.hart.turn stop = .stop why
    · obtain ⟨why, now⟩ := stops
      rw [Hart.runTo_stops now]
      unfold turns
      rw [now]
      refine ⟨⟨nofun, ?_⟩, ending_prompt _ _⟩
      intro other same asked early
      cases same
      have asks : board.hart.wires.control.isSome = true := Option.isSome_iff_ne_none.mpr asked
      have yields : board.hart.turn stop = .stop .yield := by
        unfold Hart.turn
        rw [if_neg (UInt64.not_le.mpr early), if_pos asks]
      cases now.symm.trans yields
      have unmoved : board.hart.afterTurn stop = board.hart := by simp only [Hart.afterTurn, now]
      rw [unmoved]
      exact ⟨[], rfl⟩
    · have goes := not_exists.mp stops
      have rest := ih (Deed.apply board (.turn stop))
      have unasked := Hart.turn_unasked goes
      rw [Hart.runTo_goes goes]
      refine ⟨⟨nofun, fun _ _ asked => absurd unasked asked⟩, ?_⟩
      cases now : board.hart.turn stop with
      | stop why => exact absurd now (goes why)
      | _ => exact rest

theorem slice_prompt (cycles : UInt64) (board : Board) : Throughout Prompt (board.sliceCourse cycles) := by
  have prompt := turns_prompt (saturatingAdd board.hart.clock (min cycles pollInterval))
    ((min cycles pollInterval).toNat + 1) board
  unfold sliceCourse Hart.run
  dsimp only
  generalize board.hart.runTo _ _ = outcome at prompt ⊢
  exact prompt

theorem slice_begins {board : Board} {cycles : UInt64} (timed : cycles ≠ 0) (early : board.hart.clock ≠ 0xffffffffffffffff) :
    ∃ stop rest, board.sliceCourse cycles = ⟨board, .turn stop⟩ :: rest ∧ board.hart.clock < stop := by
  have room : board.hart.clock < saturatingAdd board.hart.clock (min cycles pollInterval) := by
    have least : pollInterval.toNat = 128 := rfl
    have whole : UInt64.size = 2 ^ 64 := rfl
    have positive : cycles.toNat ≠ 0 := fun zero => timed (UInt64.toNat_inj.mp zero)
    have below : board.hart.clock.toNat ≠ 2 ^ 64 - 1 := fun last => early (UInt64.toNat_inj.mp last)
    have bounded := board.hart.clock.toNat_lt
    rw [UInt64.lt_iff_toNat_lt, toNat_saturatingAdd, Hart.toNat_min]
    omega
  exact ⟨_, _, rfl, room⟩

theorem runCourse_prompt (n : Nat) (cycles : UInt64) (board : Board) : Throughout Prompt (runCourse n cycles board) := by
  induction n generalizing cycles board with
  | zero => trivial
  | succ n ih =>
    unfold runCourse
    by_cases idle : (cycles = 0 || !board.isRunning) = true
    · rw [if_pos idle]
      trivial
    · rw [if_neg idle]
      have timed := (busy_of_not_idle idle).1
      have held := board.pollDebugger_held
      have same : Moment.after ⟨board, .serve⟩ = board.pollDebugger.2 := rfl
      generalize board.pollDebugger = polled at held same ⊢
      obtain ⟨halted, next⟩ := polled
      cases halted with
      | true =>
        refine ⟨⟨fun _ free => ?_, nofun⟩, trivial⟩
        rw [same, held] at free
        cases free
      | false =>
        refine ⟨⟨fun _ _ early => ?_, nofun⟩, Throughout.append Prompt.grows (slice_prompt cycles next) ?_⟩
        · rw [same] at early ⊢
          obtain ⟨stop, rest, sliced, room⟩ := slice_begins timed early
          dsimp only
          rw [sliced]
          exact ⟨stop, _, rfl, room⟩
        · generalize next.slice cycles = sliced
          obtain ⟨spent, board⟩ := sliced
          cases spent with
          | none => trivial
          | some spent => exact ih _ board

end Board

end RvBoard
