import RvBoard.Proofs.Board.Courses

/-!
# What deeds do

A deed either runs the hart, or it leaves it alone but for the single steps of a debugger. A request stands until the board
acts on it or forgets it. What the host can read of the run, its state and the exit code, changes with few deeds.
-/

set_option autoImplicit false

namespace RvBoard.Board

open SystemController (Asked)
open Hart (Handled)

def Furnished (board next : Board) : Prop :=
  ∃ (change : Bus → Bus) (devices : Array DeviceId), (change board.bus).wires = board.bus.wires ∧
    next = { board with hart := board.hart.mapBus change, devices := devices }

theorem Furnished.refl (board : Board) : board.Furnished board :=
  ⟨id, board.devices, rfl, rfl⟩

theorem addMmioDevice_ok {board next : Board} {device : Device} {base : UInt64} {id : DeviceId}
    (done : board.addMmioDevice device = .ok ((base, id), next)) : board.addDevice (some base) device = .ok (id, next) := by
  unfold addMmioDevice at done
  cases found : board.bus.findFree? device.size mmioFirst mmioLimit mmioAlign with
  | none =>
    rw [found] at done
    cases done
  | some place =>
    rw [found] at done
    dsimp only at done
    cases added : board.addDevice (some place) device with
    | error error =>
      rw [added] at done
      cases done
    | ok there =>
      rw [added] at done
      cases done
      exact added

theorem addDevice_furnished (base : Option UInt64) (device : Device) (board : Board) :
    board.Furnished (board.afterwards (board.addDevice base device)) := by
  cases done : board.addDevice base device with
  | error error => exact .refl board
  | ok added =>
    obtain ⟨id, next⟩ := added
    exact ⟨_, _, rfl, addDevice_ok done⟩

theorem addMmioDevice_furnished (device : Device) (board : Board) :
    board.Furnished (board.afterwards (board.addMmioDevice device)) := by
  cases done : board.addMmioDevice device with
  | error error => exact .refl board
  | ok added =>
    obtain ⟨⟨base, id⟩, next⟩ := added
    exact ⟨_, _, rfl, addDevice_ok (addMmioDevice_ok done)⟩

theorem prepareBoot_cases (board : Board) :
    (∃ next, board.prepareBoot = .ok next ∧ Deed.apply board .prepareBoot = next) ∨ Deed.apply board .prepareBoot = board := by
  cases done : board.prepareBoot with
  | error error => exact .inr (by simp only [Deed.apply, done])
  | ok next => exact .inl ⟨next, rfl, by simp only [Deed.apply, done]⟩

theorem addDevice_closed {board : Board} (closed : board.wasReset = true) (base : Option UInt64) (device : Device) :
    board.addDevice base device = .error .alreadyConfigured := by
  unfold addDevice
  rw [if_pos closed]
  rfl

theorem addMmioDevice_closed {board : Board} (closed : board.wasReset = true) (device : Device) :
    ∃ error, board.addMmioDevice device = .error error := by
  cases done : board.addMmioDevice device with
  | error error => exact ⟨error, rfl⟩
  | ok added =>
    obtain ⟨⟨base, id⟩, next⟩ := added
    cases (addDevice_closed closed _ device).symm.trans (addMmioDevice_ok done)

theorem reset_handled (board : Board) : Handled board.hart 0 board.reset.hart := by
  rw [Bus.reset_hart]
  exact (Handled.once .reset trivial).moved (.devices (Bus.resetAll board.devices.toList)) trivial

-- The board once a request has been taken.
def taken (board : Board) : Board :=
  board.mapWires fun wires => { wires with control := none }

-- What the board does with what is asked of it.
inductive Acted (board : Board) : Board → Prop
  | idle (asked : board.wires.control = none) : Acted board board.taken
  | poweredOff (asked : board.wires.control = some .powerOff) : Acted board { board.taken with state := .stopped }
  | failed {code : UInt16} (asked : board.wires.control = some (.fail code)) :
      Acted board { board.taken with state := .stopped, exitCode := some code }
  | restarted (asked : board.wires.control = some .reset) : Acted board { board.reset with state := .restarting }

theorem handleRequest_acted (board : Board) : board.Acted board.handleRequest := by
  unfold handleRequest
  cases asked : board.wires.control with
  | none => exact .idle asked
  | some request =>
    cases request with
    | powerOff => exact .poweredOff asked
    | fail code => exact .failed asked
    | reset => exact .restarted asked

theorem Acted.control {board next : Board} (acted : board.Acted next) : next.wires.control = none := by
  cases acted with
  | restarted => exact board.reset_control
  | _ => rfl

namespace Moment

-- The request that stands is acted on or forgotten, or the host changes what it likes.
def Settles (moment : Moment) : Prop :=
  moment.deed = .act ∨ moment.deed = .reset ∨ ∃ change, moment.deed = .host change

-- The board is reset, by its host or by its guest.
def Resets (moment : Moment) : Prop :=
  moment.deed = .reset ∨ moment.deed = .act ∧ moment.before.wires.control = some .reset

def Fails (moment : Moment) (code : UInt16) : Prop :=
  moment.deed = .act ∧ moment.before.wires.control = some (.fail code)

/-- A deed that does not run the hart has it execute what a debugger asks for while it holds it, and nothing else. -/
theorem handled (moment : Moment) (inside : ∀ change, moment.deed ≠ .host change) (still : ¬ moment.Runs) :
    Handled moment.before.hart moment.steps moment.after.hart := by
  obtain ⟨board, deed⟩ := moment
  have furnished {next : Board} (furnished : board.Furnished next) : Handled board.hart 0 next.hart := by
    obtain ⟨change, devices, _, rfl⟩ := furnished
    exact .once (.devices change) trivial
  cases deed with
  | addDevice base device => exact furnished (addDevice_furnished base device board)
  | addMmioDevice device => exact furnished (addMmioDevice_furnished device board)
  | reset => exact board.reset_handled
  | prepareBoot =>
    change Handled board.hart 0 (Deed.apply board .prepareBoot).hart
    rcases board.prepareBoot_cases with ⟨next, done, same⟩ | same
    · obtain ⟨_, written, _, rfl⟩ := prepareBoot_eq done
      rw [same]
      exact .once (.devices _) trivial
    · rw [same]
      exact .untouched
  | setRunning running => exact .untouched
  | host change => exact absurd rfl (inside change)
  | serve =>
    unfold steps exchanges after Deed.apply pollDebugger
    dsimp only
    cases board.stub with
    | none => exact .untouched
    | some stub => exact Debug.Stub.Site.poll_handled ⟨stub, board.network, board.hart⟩
  | turn stop =>
    by_cases stops : ∃ why, board.hart.turn stop = .stop why
    · exact .once (.turn stop) stops
    · exact absurd ⟨stop, rfl, not_exists.mp stops⟩ still
  | devices => exact .once (.devices _) trivial
  | report =>
    obtain ⟨stub, network, frame⟩ := board.reportBreakpoint_frame
    change Handled board.hart 0 board.reportBreakpoint.hart
    rw [frame]
    exact .untouched
  | act =>
    have acted := board.handleRequest_acted
    change Handled board.hart 0 board.handleRequest.hart
    generalize board.handleRequest = next at acted
    cases acted with
    | restarted => exact board.reset_handled
    | _ => exact .once (.devices _) trivial

theorem stands (moment : Moment) (unsettled : ¬ moment.Settles) :
    Asked moment.before.wires.control moment.after.wires.control := by
  obtain ⟨board, deed⟩ := moment
  have furnished {next : Board} (furnished : board.Furnished next) : Asked board.wires.control next.wires.control := by
    obtain ⟨change, devices, same, rfl⟩ := furnished
    change Asked _ (change board.bus).wires.control
    rw [same]
    exact .refl _
  cases deed with
  | addDevice base device => exact furnished (addDevice_furnished base device board)
  | addMmioDevice device => exact furnished (addMmioDevice_furnished device board)
  | reset => exact absurd (.inr (.inl rfl)) unsettled
  | prepareBoot =>
    change Asked board.wires.control (Deed.apply board .prepareBoot).wires.control
    rcases board.prepareBoot_cases with ⟨next, done, same⟩ | same
    · obtain ⟨_, written, _, rfl⟩ := prepareBoot_eq done
      have kept := @Bus.mapDevice_keeps (fun wires => Asked board.wires.control wires.control)
        (fun _ wires => (.bootRom written.2, wires)) bootRomId board.bus (fun _ _ => .refl _) (.refl _)
      rw [same]
      exact kept
    · rw [same]
      exact .refl _
  | setRunning running => exact .refl _
  | host change => exact absurd (.inr (.inr ⟨change, rfl⟩)) unsettled
  | serve => exact board.pollDebugger_asked
  | turn stop => exact board.hart.afterTurn_asked stop
  | devices => exact board.stepDevices_asked
  | report =>
    obtain ⟨stub, network, frame⟩ := board.reportBreakpoint_frame
    change Asked _ board.reportBreakpoint.wires.control
    rw [frame]
    exact .refl _
  | act => exact absurd (.inl rfl) unsettled

end Moment

structure SameRun (board next : Board) : Prop where
  state : next.state = board.state
  wasReset : next.wasReset = board.wasReset
  exitCode : next.exitCode = board.exitCode

theorem SameRun.refl (board : Board) : board.SameRun board :=
  ⟨rfl, rfl, rfl⟩

theorem Furnished.sameRun {board next : Board} (furnished : board.Furnished next) : board.SameRun next := by
  obtain ⟨change, devices, _, rfl⟩ := furnished
  exact ⟨rfl, rfl, rfl⟩

namespace Moment

def Quiet (moment : Moment) : Prop :=
  ¬ moment.Resets ∧ ∀ code, ¬ moment.Fails code

theorem quiet_of_deed {moment : Moment} (reset : moment.deed ≠ .reset) (act : moment.deed ≠ .act) : moment.Quiet :=
  ⟨fun resets => resets.elim reset fun acts => act acts.1, fun _ fails => act fails.1⟩

theorem quiet_of_asked {moment : Moment} (act : moment.deed = .act) (reset : moment.before.wires.control ≠ some .reset)
    (fail : ∀ code, moment.before.wires.control ≠ some (.fail code)) : moment.Quiet :=
  ⟨fun resets => resets.elim (fun other => nomatch act.symm.trans other) fun acts => reset acts.2,
    fun code fails => fail code fails.2⟩

inductive Recorded (moment : Moment) : Prop
  | same (quiet : moment.Quiet) (same : moment.before.SameRun moment.after)
  | switched (quiet : moment.Quiet) {running : Bool} (deed : moment.deed = .setRunning running)
      (next : moment.after = moment.before.setRunning running)
  | prepared (quiet : moment.Quiet) (deed : moment.deed = .prepareBoot) (done : moment.before.prepareBoot = .ok moment.after)
  | poweredOff (quiet : moment.Quiet) (deed : moment.deed = .act)
      (next : moment.after = { moment.before.taken with state := .stopped })
  | failed {code : UInt16} (fails : moment.Fails code)
      (next : moment.after = { moment.before.taken with state := .stopped, exitCode := some code })
  | reset (deed : moment.deed = .reset) (next : moment.after = moment.before.reset)
  | restarted (deed : moment.deed = .act) (asked : moment.before.wires.control = some .reset)
      (next : moment.after = { moment.before.reset with state := .restarting })

theorem recorded (moment : Moment) : moment.Recorded := by
  obtain ⟨board, deed⟩ := moment
  cases deed with
  | addDevice base device => exact .same (quiet_of_deed nofun nofun) (addDevice_furnished base device board).sameRun
  | addMmioDevice device => exact .same (quiet_of_deed nofun nofun) (addMmioDevice_furnished device board).sameRun
  | reset => exact .reset rfl rfl
  | prepareBoot =>
    have next : after ⟨board, .prepareBoot⟩ = Deed.apply board .prepareBoot := rfl
    rcases board.prepareBoot_cases with ⟨prepared, done, rfl⟩ | same
    · exact .prepared (quiet_of_deed nofun nofun) rfl done
    · exact .same (quiet_of_deed nofun nofun) (by rw [next, same]; exact .refl board)
  | setRunning running => exact .switched (quiet_of_deed nofun nofun) rfl rfl
  | host change => exact .same (quiet_of_deed nofun nofun) ⟨rfl, rfl, rfl⟩
  | serve =>
    obtain ⟨hart, stub, network, frame⟩ := board.pollDebugger_frame
    have same : after ⟨board, .serve⟩ = _ := frame
    exact .same (quiet_of_deed nofun nofun) (by rw [same]; exact ⟨rfl, rfl, rfl⟩)
  | turn stop => exact .same (quiet_of_deed nofun nofun) ⟨rfl, rfl, rfl⟩
  | devices => exact .same (quiet_of_deed nofun nofun) ⟨rfl, rfl, rfl⟩
  | report =>
    obtain ⟨stub, network, frame⟩ := board.reportBreakpoint_frame
    have same : after ⟨board, .report⟩ = _ := frame
    exact .same (quiet_of_deed nofun nofun) (by rw [same]; exact ⟨rfl, rfl, rfl⟩)
  | act =>
    have acted := board.handleRequest_acted
    have next : after ⟨board, .act⟩ = board.handleRequest := rfl
    generalize board.handleRequest = final at acted next
    cases acted with
    | idle asked =>
      exact .same (quiet_of_asked rfl (by simp [asked]) (by simp [asked])) (by rw [next]; exact ⟨rfl, rfl, rfl⟩)
    | poweredOff asked => exact .poweredOff (quiet_of_asked rfl (by simp [asked]) (by simp [asked])) rfl next
    | failed asked => exact .failed ⟨rfl, asked⟩ next
    | restarted asked => exact .restarted rfl asked next

variable {moment : Moment}

theorem closes (resets : moment.Resets) : moment.after.wasReset = true := by
  cases moment.recorded with
  | reset deed next =>
    rw [next]
    rfl
  | restarted deed asked next =>
    rw [next]
    rfl
  | failed fails next =>
    rcases resets with other | ⟨_, other⟩
    · cases fails.1.symm.trans other
    · cases fails.2.symm.trans other
  | _ => exact absurd resets ‹moment.Quiet›.1

theorem closed (before : moment.before.wasReset = true) : moment.after.wasReset = true := by
  cases moment.recorded with
  | same quiet same => exact same.wasReset.trans before
  | prepared quiet deed done =>
    obtain ⟨_, _, _, next⟩ := prepareBoot_eq done
    rw [next]
    exact before
  | reset deed next =>
    rw [next]
    rfl
  | restarted deed asked next =>
    rw [next]
    rfl
  | _ =>
    rw [‹moment.after = _›]
    exact before

theorem exit_cases (moment : Moment) :
    (moment.Resets ∧ moment.after.exitCode = none) ∨ (∃ code, moment.Fails code ∧ moment.after.exitCode = some code) ∨
      (moment.Quiet ∧ moment.after.exitCode = moment.before.exitCode) := by
  cases moment.recorded with
  | same quiet same => exact .inr (.inr ⟨quiet, same.exitCode⟩)
  | switched quiet deed next => exact .inr (.inr ⟨quiet, by rw [next]; rfl⟩)
  | prepared quiet deed done =>
    obtain ⟨_, _, _, next⟩ := prepareBoot_eq done
    exact .inr (.inr ⟨quiet, by rw [next]; rfl⟩)
  | poweredOff quiet deed next => exact .inr (.inr ⟨quiet, by rw [next]; rfl⟩)
  | failed fails next => exact .inr (.inl ⟨_, fails, by rw [next]⟩)
  | reset deed next => exact .inl ⟨.inl deed, by rw [next]; rfl⟩
  | restarted deed asked next => exact .inl ⟨.inr ⟨deed, asked⟩, by rw [next]; rfl⟩

theorem restarting_entered (entered : moment.after.state = .restarting) :
    moment.before.state = .restarting ∨ moment.deed = .act ∧ moment.before.wires.control = some .reset ∧
      moment.after = { moment.before.reset with state := .restarting } := by
  cases moment.recorded with
  | same quiet same => exact .inl (same.state.symm.trans entered)
  | switched quiet deed next =>
    rw [next] at entered
    unfold setRunning at entered
    split at entered <;> cases entered
  | prepared quiet deed done =>
    obtain ⟨_, _, _, next⟩ := prepareBoot_eq done
    rw [next] at entered
    dsimp only at entered
    split at entered
    · cases entered
    · exact .inl entered
  | reset deed next =>
    rw [next] at entered
    exact .inl entered
  | restarted deed asked next => exact .inr ⟨deed, asked, next⟩
  | _ =>
    rw [‹moment.after = _›] at entered
    cases entered

theorem restarting_left (before : moment.before.state = .restarting) (parted : moment.deed ≠ .act) :
    moment.after.state = .restarting ∨ (∃ running, moment.deed = .setRunning running) ∨
      moment.deed = .prepareBoot ∧ moment.before.prepareBoot = .ok moment.after ∧ moment.after.state = .running := by
  cases moment.recorded with
  | same quiet same => exact .inl (same.state.trans before)
  | switched quiet deed next => exact .inr (.inl ⟨_, deed⟩)
  | prepared quiet deed done =>
    refine .inr (.inr ⟨deed, done, ?_⟩)
    obtain ⟨_, _, _, next⟩ := prepareBoot_eq done
    rw [next]
    unfold isRestarting
    dsimp only
    rw [before]
    rfl
  | reset deed next =>
    rw [next]
    exact .inl before
  | failed fails next => exact absurd fails.1 parted
  | _ => exact absurd ‹moment.deed = .act› parted

end Moment

end RvBoard.Board
