import RvBoard.Proofs.Board.Deeds
import RvBoard.Proofs.Board.Reset

/-!
# The life of a board

A board is made, its host calls it, and its guest runs in the steps that the host lets it make. All of it is a row of
moments, across slices and across calls. Its laws: when the hart runs, what becomes of a request of the guest, when devices
can be added, how a restart begins and ends, and what the exit code tells.
-/

set_option autoImplicit false

namespace RvBoard.Board

open SystemController (Asked)
open Hart (Handled)

/-- What has happened to a board since it was made, and what has become of it. -/
inductive Lived : List Moment → Board → Prop
  | new {board : Board} (built : Board.new = .ok board) : Lived [] board
  | called {trace : List Moment} {board : Board} (before : Lived trace board) (deed : Deed) (call : deed.isCall = true) :
      Lived (trace ++ [⟨board, deed⟩]) (deed.apply board)
  | stepped {trace : List Moment} {board : Board} (before : Lived trace board) (cycles : UInt64) :
      Lived (trace ++ board.course cycles) (board.step cycles)

def BootFits (board : Board) : Prop :=
  (BootRom.bootInfo? board.firmwareEntry (Fdt.blob board.deviceTree)).isSome = true

-- A command to fail with this code was acted on, and since then neither another one nor a reset.
def LastFailed (code : UInt16) (trace : List Moment) : Prop :=
  ∃ earlier moment later, trace = earlier ++ moment :: later ∧ moment.Fails code ∧ ∀ other ∈ later, other.Quiet

theorem prepareBoot_fitting {board : Board} (ready : board.wasReset = true) (fits : board.BootFits) :
    ∃ next, board.prepareBoot = .ok next := by
  obtain ⟨written, info⟩ := Option.isSome_iff_exists.mp fits
  unfold prepareBoot
  rw [ready]
  dsimp only
  rw [info]
  exact ⟨_, rfl⟩

theorem new_fresh {board : Board} (built : Board.new = .ok board) :
    board.state = .stopped ∧ board.wasReset = false ∧ board.exitCode = none := by
  cases new_idle.symm.trans built
  exact ⟨by decide +kernel, by decide +kernel, by decide +kernel⟩

section Exit

variable {code : UInt16} {moment : Moment} {trace : List Moment}

theorem lastFailed_cons :
    LastFailed code (moment :: trace) ↔ LastFailed code trace ∨ moment.Fails code ∧ ∀ other ∈ trace, other.Quiet := by
  constructor
  · rintro ⟨earlier, last, later, same, fails, quiet⟩
    cases earlier with
    | nil =>
      cases same
      exact .inr ⟨fails, quiet⟩
    | cons first rest =>
      cases same
      exact .inl ⟨rest, last, later, rfl, fails, quiet⟩
  · rintro (⟨earlier, last, later, rfl, fails, quiet⟩ | ⟨fails, quiet⟩)
    · exact ⟨moment :: earlier, last, later, rfl, fails, quiet⟩
    · exact ⟨[], moment, trace, rfl, fails, quiet⟩

theorem Moment.Fails.alone {other : UInt16} (fails : moment.Fails code) (again : moment.Fails other) : code = other := by
  cases fails.2.symm.trans again.2
  rfl

theorem Moment.Fails.stays (fails : moment.Fails code) : ¬ moment.Resets := by
  rintro (other | ⟨_, other⟩)
  · cases fails.1.symm.trans other
  · cases fails.2.symm.trans other

theorem Linked.exitCode {start final : Board} (linked : Linked start trace final) :
    final.exitCode = some code ↔
      LastFailed code trace ∨ start.exitCode = some code ∧ ∀ moment ∈ trace, moment.Quiet := by
  induction trace generalizing start with
  | nil =>
    rw [show final = start from linked]
    constructor
    · exact fun same => .inr ⟨same, fun _ member => absurd member List.not_mem_nil⟩
    · rintro (⟨earlier, moment, later, same, _⟩ | ⟨same, _⟩)
      · exact absurd same (by simp)
      · exact same
  | cons moment rest ih =>
    obtain ⟨rfl, later⟩ := linked
    rw [ih later, lastFailed_cons, List.forall_mem_cons, or_assoc]
    refine or_congr_right ?_
    rcases moment.exit_cases with ⟨resets, same⟩ | ⟨other, fails, same⟩ | ⟨quiet, same⟩
    · rw [same]
      constructor
      · exact fun both => nomatch both.1
      · rintro (⟨fails, _⟩ | ⟨_, quiet, _⟩)
        · exact absurd resets fails.stays
        · exact absurd resets quiet.1
    · rw [same]
      constructor
      · rintro ⟨one, quiet⟩
        cases one
        exact .inl ⟨fails, quiet⟩
      · rintro (⟨again, quiet⟩ | ⟨_, quiet, _⟩)
        · exact ⟨congrArg some (fails.alone again), quiet⟩
        · exact absurd fails (quiet.2 other)
    · rw [same]
      constructor
      · exact fun both => .inr ⟨both.1, quiet, both.2⟩
      · rintro (⟨fails, _⟩ | ⟨before, _, rest⟩)
        · exact absurd fails (quiet.2 code)
        · exact ⟨before, rest⟩

end Exit

theorem Linked.closed {start final : Board} {trace : List Moment} (linked : Linked start trace final)
    (reset : ∃ moment ∈ trace, moment.Resets) : final.wasReset = true := by
  obtain ⟨moment, member, resets⟩ := reset
  obtain ⟨earlier, later, rfl⟩ := List.append_of_mem member
  exact @Linked.keeps _ _ _ (fun board => board.wasReset = true) linked.split.2 (fun _ _ => Moment.closed)
    (Moment.closes resets)

section Lived

variable {trace : List Moment} {board : Board} (lived : Lived trace board)

include lived

theorem Lived.linked : ∃ start, Board.new = .ok start ∧ Linked start trace board := by
  induction lived with
  | new built => exact ⟨_, built, rfl⟩
  | called before deed call ih =>
    obtain ⟨start, built, linked⟩ := ih
    exact ⟨start, built, linked.append ⟨rfl, rfl⟩⟩
  | stepped before cycles ih =>
    obtain ⟨start, built, linked⟩ := ih
    exact ⟨start, built, linked.append (course_linked cycles _)⟩

theorem Lived.timely : ∀ moment ∈ trace, moment.deed.isCall = true ∨ moment.Timely := by
  induction lived with
  | new built => exact fun _ member => absurd member List.not_mem_nil
  | called before deed call ih =>
    intro moment member
    rcases List.mem_append.mp member with earlier | last
    · exact ih moment earlier
    · cases List.mem_singleton.mp last
      exact .inl call
  | stepped before cycles ih =>
    intro moment member
    rcases List.mem_append.mp member with earlier | last
    · exact ih moment earlier
    · exact .inr (runCourse_timely _ cycles _ moment last)

theorem Lived.inner {moment : Moment} (member : moment ∈ trace) (inner : moment.deed.isCall = false) : moment.Timely :=
  (lived.timely moment member).resolve_left (by simp [inner])

theorem Lived.prompt : Throughout Prompt trace := by
  induction lived with
  | new built => trivial
  | called before deed call ih =>
    refine ih.append Prompt.grows ⟨.of_other ?_ ?_, trivial⟩
    · rintro rfl
      cases call
    · rintro stop rfl
      cases call
  | stepped before cycles ih => exact ih.append Prompt.grows (runCourse_prompt _ cycles _)

theorem Lived.restarting : ∀ moment ∈ trace, moment.before.state = .restarting → moment.before.wasReset = true := by
  intro moment member
  obtain ⟨start, built, linked⟩ := lived.linked
  obtain ⟨stopped, _, _⟩ := new_fresh built
  obtain ⟨earlier, later, rfl⟩ := List.append_of_mem member
  refine @Linked.keeps _ _ _ (fun board => board.state = .restarting → board.wasReset = true) linked.split.1 ?_ ?_
  · intro other _ before entered
    rcases Moment.restarting_entered entered with same | ⟨acts, asked, _⟩
    · exact Moment.closed (before same)
    · exact Moment.closes (.inr ⟨acts, asked⟩)
  · intro entered
    cases stopped.symm.trans entered

end Lived

structure Lifecycle (trace : List Moment) (board : Board) : Prop where
  -- The moments are all that has happened, from a new board to this one.
  linked : ∃ start, Board.new = .ok start ∧ Linked start trace board
  -- The hart runs only while the board runs, nobody holds the hart and nothing is asked for.
  runs : ∀ moment ∈ trace, moment.Runs →
    moment.before.isRunning = true ∧ moment.before.isHeld = false ∧ moment.before.wires.control = none
  -- Otherwise it executes the instructions for which a debugger asks that holds it, and nothing else.
  rests : ∀ moment ∈ trace, ¬ moment.Runs → (∀ change, moment.deed ≠ .host change) →
    Handled moment.before.hart moment.steps moment.after.hart
  -- A debugger is served only in a step of a board that runs.
  steps : ∀ moment ∈ trace, moment.steps ≠ 0 → moment.deed = .serve ∧ moment.before.isRunning = true
  -- After a reset no device can be added, and nothing comes of trying.
  closed : ∀ earlier moment later, trace = earlier ++ moment :: later → (∃ other ∈ earlier, other.Resets) →
    (∀ base device, moment.deed = .addDevice base device →
      moment.before.addDevice base device = .error .alreadyConfigured ∧ moment.after = moment.before) ∧
    ∀ device, moment.deed = .addMmioDevice device →
      (∃ error, moment.before.addMmioDevice device = .error error) ∧ moment.after = moment.before
  -- A known command is asked for as soon as it reaches the system controller.
  commands : ∀ (bus : Bus) (address value : UInt64) (size : Nat) (window : Window) (state : SystemController)
    (request : ControlRequest), Bus.Reached bus address size window (.controller state) →
    SystemController.isCommand (address - window.start) size = true →
    SystemController.request? value.toUInt32 = some request →
    (left (Bus.store address size value bus)).wires.control = some request
  -- What is asked for stands, but for later commands, until the board acts on it or is reset; the hart does not run then.
  stands : ∀ earlier moment between other later, trace = earlier ++ moment :: (between ++ other :: later) →
    moment.after.wires.control ≠ none → (∀ middle ∈ between, ¬ middle.Settles) →
    Asked moment.after.wires.control other.before.wires.control ∧ other.before.wires.control ≠ none ∧ ¬ other.Runs
  -- A slice begins when nobody holds the hart, and it ends with the board acting as soon as the hart finds a request.
  prompt : ∀ earlier moment later, trace = earlier ++ moment :: later → Prompt moment later
  -- The board acts on what is asked for, which is not asked for any more then.
  acts : ∀ moment ∈ trace, moment.deed = .act →
    moment.before.wires.control ≠ none ∧ moment.after.wires.control = none ∧ moment.before.Acted moment.after
  -- A restart resets everything and is left to the host to carry out, and nothing else asks for that.
  restarts : ∀ moment ∈ trace, moment.after.state = .restarting → moment.before.state ≠ .restarting →
    moment.deed = .act ∧ moment.before.wires.control = some .reset ∧
      moment.after = { moment.before.reset with state := .restarting }
  -- The host carries it out with the boot information, or does as it likes with the board.
  restarted : ∀ moment ∈ trace, moment.before.state = .restarting → moment.after.state ≠ .restarting →
    (∃ running, moment.deed = .setRunning running) ∨
      moment.deed = .prepareBoot ∧ moment.before.BootFits ∧ moment.after.state = .running
  boots : ∀ moment ∈ trace, moment.before.state = .restarting → moment.deed = .prepareBoot → moment.before.BootFits →
    moment.after.state = .running
  -- The exit code is that of the last failure since the last reset, if there is one.
  exits : ∀ code, board.exitCode = some code ↔ LastFailed code trace

theorem steps_served {moment : Moment} (stepped : moment.steps ≠ 0) : moment.deed = .serve := by
  unfold Moment.steps Moment.exchanges at stepped
  split at stepped
  · assumption
  · exact absurd rfl stepped

section Laws

variable {trace : List Moment} {board : Board} (lived : Lived trace board)

include lived

theorem Lived.runs : ∀ moment ∈ trace, moment.Runs →
    moment.before.isRunning = true ∧ moment.before.isHeld = false ∧ moment.before.wires.control = none := by
  rintro moment member ⟨stop, turns, goes⟩
  have timely := lived.inner member (by rw [turns]; rfl)
  exact ⟨timely.running, timely.free (by rw [turns]; nofun), Hart.turn_unasked goes⟩

theorem Lived.refuses (earlier : List Moment) (moment : Moment) (later : List Moment)
    (same : trace = earlier ++ moment :: later) (reset : ∃ other ∈ earlier, other.Resets) :
    (∀ base device, moment.deed = .addDevice base device →
      moment.before.addDevice base device = .error .alreadyConfigured ∧ moment.after = moment.before) ∧
    ∀ device, moment.deed = .addMmioDevice device →
      (∃ error, moment.before.addMmioDevice device = .error error) ∧ moment.after = moment.before := by
  obtain ⟨start, _, linked⟩ := lived.linked
  rw [same] at linked
  have closed := linked.split.1.closed reset
  constructor
  · intro base device adds
    have refused := addDevice_closed closed base device
    refine ⟨refused, ?_⟩
    simp only [Moment.after, adds, Deed.apply, refused, afterwards]
  · intro device adds
    obtain ⟨error, refused⟩ := addMmioDevice_closed closed device
    refine ⟨⟨error, refused⟩, ?_⟩
    simp only [Moment.after, adds, Deed.apply, refused, afterwards]

theorem Lived.stands (earlier : List Moment) (moment : Moment) (between : List Moment) (other : Moment) (later : List Moment)
    (same : trace = earlier ++ moment :: (between ++ other :: later)) (asked : moment.after.wires.control ≠ none)
    (unsettled : ∀ middle ∈ between, ¬ middle.Settles) :
    Asked moment.after.wires.control other.before.wires.control ∧ other.before.wires.control ≠ none ∧ ¬ other.Runs := by
  obtain ⟨start, _, linked⟩ := lived.linked
  rw [same] at linked
  have stands : Asked moment.after.wires.control other.before.wires.control :=
    @Linked.keeps _ _ _ (fun board => Asked moment.after.wires.control board.wires.control) linked.split.2.split.1
      (fun middle member before => before.trans (middle.stands (unsettled middle member))) (.refl _)
  refine ⟨stands, stands.stands asked, ?_⟩
  rintro ⟨stop, turns, goes⟩
  exact stands.stands asked (Hart.turn_unasked goes)

theorem Lived.parted (moment : Moment) (member : moment ∈ trace) (before : moment.before.state = .restarting) :
    moment.deed ≠ .act := by
  intro acts
  have running := (lived.inner member (by rw [acts]; rfl)).running
  unfold isRunning at running
  rw [before] at running
  cases running

theorem Lived.boots (moment : Moment) (member : moment ∈ trace) (before : moment.before.state = .restarting)
    (prepares : moment.deed = .prepareBoot) (fits : moment.before.BootFits) : moment.after.state = .running := by
  obtain ⟨next, done⟩ := prepareBoot_fitting (lived.restarting moment member before) fits
  have same : moment.after = next := by simp only [Moment.after, prepares, Deed.apply, done]
  obtain ⟨_, _, _, rfl⟩ := prepareBoot_eq done
  rw [same]
  unfold isRestarting
  dsimp only
  rw [before]
  rfl

end Laws

/-- Whatever its host calls, whatever its guest and its devices do and whatever a debugger asks for, the life of a board
obeys the laws. -/
theorem lived_lawfully {trace : List Moment} {board : Board} (lived : Lived trace board) : Lifecycle trace board where
  linked := lived.linked
  runs := lived.runs
  rests moment _ still inside := moment.handled inside still
  steps moment member stepped := by
    have served := steps_served stepped
    exact ⟨served, (lived.inner member (by rw [served]; rfl)).running⟩
  closed := lived.refuses
  commands _ _ _ _ _ _ _ := Bus.store_command
  stands := lived.stands
  prompt earlier moment later same := (same ▸ lived.prompt).split
  acts moment member acts := by
    have timely := lived.inner member (by rw [acts]; rfl)
    have acted := moment.before.handleRequest_acted
    have next : moment.after = moment.before.handleRequest := by rw [Moment.after, acts]; rfl
    rw [next]
    exact ⟨timely.asked acts, acted.control, acted⟩
  restarts moment _ entered fresh := (Moment.restarting_entered entered).resolve_left fresh
  restarted moment member before leaves := by
    rcases (Moment.restarting_left before (lived.parted moment member before)).resolve_left leaves with
      switched | ⟨prepares, done, runs⟩
    · exact .inl switched
    · obtain ⟨_, written, info, _⟩ := prepareBoot_eq done
      exact .inr ⟨prepares, Option.isSome_iff_exists.mpr ⟨written, info⟩, runs⟩
  boots := lived.boots
  exits code := by
    obtain ⟨start, built, linked⟩ := lived.linked
    have fresh := (new_fresh built).2.2
    rw [linked.exitCode, fresh]
    simp

theorem Lived.calls {trace : List Moment} {board : Board} (lived : Lived trace board) (deeds : List Deed)
    (calls : ∀ deed ∈ deeds, deed.isCall = true) : ∃ trace, Lived trace (deeds.foldl Deed.apply board) := by
  induction deeds generalizing trace board with
  | nil => exact ⟨trace, lived⟩
  | cons deed rest ih =>
    have next := lived.called deed (calls deed List.mem_cons_self)
    exact ih next fun other member => calls other (List.mem_cons_of_mem _ member)

def booting (words : List UInt32) : List Deed := [
  .addDevice (some Ram.base) (.ram (Ram.ofSize 16)),
  .reset,
  .host fun board => board.mapBus fun bus =>
    words.zipIdx.foldl (fun bus (word, i) => left (Bus.access (Ram.base + 4 * i.toUInt64) 2 true word.toUInt64 bus)) bus,
  .host (mapHart fun hart => { hart with pc := Ram.base }),
  .setRunning true]

def failing : List UInt32 :=
  [0x00100537, 0x000735b7, 0x33358593, 0x00b52023]

def failedBoard : Board :=
  ((booting failing).foldl Deed.apply idleBoard).step 100

theorem lived_lawfully_failed :
    ∃ trace, Lived trace failedBoard ∧ Lifecycle trace failedBoard ∧ LastFailed 7 trace ∧ failedBoard.state = .stopped := by
  obtain ⟨trace, lived⟩ := (Lived.new new_idle).calls (booting failing) (by simp [booting, Deed.isCall])
  have failed : Lived _ failedBoard := lived.stepped 100
  have lawful := lived_lawfully failed
  exact ⟨_, failed, lawful, (lawful.exits 7).mp (by decide +kernel), by decide +kernel⟩

def attach : Deed :=
  .host fun board =>
    match board.enableDebugger Debug.Network.anyPort true with
    | .ok (_, board) => { board with network := board.network.connect.2 }
    | .error _ => board

def askStep : Deed :=
  .host fun board => { board with network := board.network.send (Debug.ascii "$s#73") }

def askedBoard : Board :=
  askStep.apply (((booting [0x13] ++ [attach]).foldl Deed.apply idleBoard).step 1)

theorem asked_lived : ∃ trace, Lived trace askedBoard := by
  obtain ⟨trace, lived⟩ := (Lived.new new_idle).calls (booting [0x13] ++ [attach]) (by simp [booting, attach, Deed.isCall])
  exact ⟨_, (lived.stepped 1).called askStep rfl⟩

theorem held_hart_executes :
    (∃ trace, Lived trace askedBoard) ∧ askedBoard.isHeld = true ∧ (askedBoard.step 1).isHeld = true ∧
      (askedBoard.course 1).length = 1 ∧ askedBoard.hart.instret = 0 ∧ (askedBoard.step 1).hart.instret = 1 ∧
      askedBoard.hart.pc = 0x80000000 ∧ (askedBoard.step 1).hart.pc = 0x80000004 :=
  ⟨asked_lived, by decide +kernel, by decide +kernel, by decide +kernel, by decide +kernel, by decide +kernel,
    by decide +kernel, by decide +kernel⟩

end RvBoard.Board
