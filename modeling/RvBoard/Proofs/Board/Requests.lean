import RvBoard.Proofs.Board.Activity
import RvBoard.Proofs.Hart.Steady

/-!
# Requests of the guest

A command that is written to the system controller makes a request. It stands until the board acts on it, a later command
makes another one, or the board is reset: nothing else that the hart, the devices or a debugger do touches it.
-/

set_option autoImplicit false

namespace RvBoard

namespace SystemController

def requested (pending : Option ControlRequest) (command : UInt32) : Option ControlRequest :=
  (request? command).or pending

-- What is asked for once some commands are written.
def Asked (before after : Option ControlRequest) : Prop :=
  ∃ commands : List UInt32, after = commands.foldl requested before

theorem Asked.refl (pending : Option ControlRequest) : Asked pending pending :=
  ⟨[], rfl⟩

theorem Asked.written {before after : Option ControlRequest} (asked : Asked before after) (command : UInt32) :
    Asked before (requested after command) := by
  obtain ⟨commands, rfl⟩ := asked
  exact ⟨commands ++ [command], by rw [List.foldl_append]; rfl⟩

theorem Asked.trans {before middle after : Option ControlRequest} (first : Asked before middle) (second : Asked middle after) :
    Asked before after := by
  obtain ⟨commands, rfl⟩ := first
  obtain ⟨more, rfl⟩ := second
  exact ⟨commands ++ more, by rw [List.foldl_append]⟩

theorem Asked.stands {before after : Option ControlRequest} (asked : Asked before after) (pending : before ≠ none) :
    after ≠ none := by
  obtain ⟨commands, rfl⟩ := asked
  induction commands generalizing before with
  | nil => exact pending
  | cons command rest ih =>
    refine ih ?_
    unfold requested
    cases request? command with
    | none => exact pending
    | some request => nofun

theorem store_asked (controller : SystemController) (wires : Wires) (offset : UInt64) (size : Nat) (value : UInt64) :
    Asked wires.control (controller.store wires offset size value).2.2.control := by
  unfold store
  by_cases command : isCommand offset size
  · have written := (Asked.refl wires.control).written value.toUInt32
    rw [if_pos command]
    dsimp only
    unfold requested at written
    generalize request? value.toUInt32 = request at written
    cases request <;> exact written
  · rw [if_neg command]
    split <;> exact .refl wires.control

end SystemController

open SystemController (Asked)

theorem Bus.store_command {bus : Bus} {address value : UInt64} {size : Nat} {window : Window} {state : SystemController}
    {request : ControlRequest} (reached : Bus.Reached bus address size window (.controller state))
    (command : SystemController.isCommand (address - window.start) size = true)
    (known : SystemController.request? value.toUInt32 = some request) :
    (left (Bus.store address size value bus)).wires.control = some request := by
  rw [Bus.store_reached value reached, Bus.left_settle]
  change (state.store bus.wires (address - window.start) size value).2.2.control = some request
  unfold SystemController.store
  rw [if_pos command]
  dsimp only
  rw [known]

theorem Clint.store_control (wires : Wires) (offset : UInt64) (size : Nat) (value : UInt64) :
    (Clint.store wires offset size value).2.control = wires.control := by
  unfold store
  split
  · rfl
  split
  · rfl
  · rename_i register _
    cases register with
    | mtimecmp =>
      change (if size = 3 then _ else _ : Wires).control = _
      split <;> rfl
    | _ => rfl

namespace Device

theorem asked_steady (start : Option ControlRequest) : Steady fun wires => Asked start wires.control := by
  refine ⟨?_, ?_⟩
  · intro device wires offset size before
    cases device <;> exact before
  · intro device wires offset size value before
    cases device with
    | controller state => exact before.trans (state.store_asked wires offset size value)
    | clint =>
      change Asked start (Clint.store wires offset size value).2.control
      rw [Clint.store_control]
      exact before
    | _ => exact before

theorem reset_control (device : Device) (wires : Wires) : (device.reset wires).2.control = wires.control := by
  cases device <;> rfl

end Device

namespace Hart

variable {start : Option ControlRequest}

theorem afterTurn_asked (hart : Hart) (stop : UInt64) : Asked hart.wires.control (hart.afterTurn stop).wires.control :=
  move_steady (Device.asked_steady hart.wires.control).bus (fun _ _ before => before) (.turn stop) nofun (Asked.refl _)

theorem asked_lasting (start : Option ControlRequest) : Debug.Lasting fun hart : Hart => Asked start hart.wires.control :=
  steady_lasting (Device.asked_steady start).bus fun _ _ before => before

end Hart

namespace Board

theorem stepDevices_keeps {Holds : Wires → Prop} (steady : Device.Steady Holds)
    (drives : ∀ wires line level, Holds wires → Holds (wires.drive line level)) {board : Board} (start : Holds board.wires) :
    Holds board.stepDevices.wires := by
  change Holds (board.devices.foldl (fun bus id => bus.stepDevice id) board.bus).wires
  rw [← Array.foldl_toList]
  generalize board.devices.toList = ids
  have all : ∀ bus : Bus, Holds bus.wires → Holds (ids.foldl (fun bus id => bus.stepDevice id) bus).wires := by
    induction ids with
    | nil => exact fun _ before => before
    | cons id rest ih => exact fun bus before => ih _ (Bus.stepDevice_keeps steady drives id bus before)
  exact all board.bus start

theorem stepDevices_asked (board : Board) : Asked board.wires.control board.stepDevices.wires.control :=
  stepDevices_keeps (Device.asked_steady _) (fun _ _ _ before => before) (.refl _)

theorem pollDebugger_asked (board : Board) : Asked board.wires.control board.pollDebugger.2.wires.control := by
  unfold pollDebugger
  cases board.stub with
  | none => exact Asked.refl _
  | some stub =>
    have kept := stub.poll_keeps (Hart.asked_lasting board.wires.control) board.network (Asked.refl _)
    exact kept

theorem reset_control (board : Board) : board.reset.wires.control = none := by
  change board.reset.hart.memory.bus.wires.control = none
  rw [Bus.reset_hart]
  refine @Bus.resets_keeps (fun wires => wires.control = none) ?_ _ _ rfl
  exact fun device wires before => (device.reset_control wires).trans before

end Board

end RvBoard
