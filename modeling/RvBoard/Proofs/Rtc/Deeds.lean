import RvBoard.Board.DeviceStep
import RvBoard.Proofs.Board.Conditions

/-!
# Deeds at a clock

The guest reads and writes the registers of a clock, the board steps and resets it, and the time of day goes on between
any two of these. A history of a clock has the latest moment first.
-/

set_option autoImplicit false

namespace RvBoard.Rtc

namespace Register

def offset : Register → UInt64
  | timeLow => 0x00
  | timeHigh => 0x04
  | alarmLow => 0x08
  | alarmHigh => 0x0c
  | irqEnabled => 0x10
  | clearAlarm => 0x14
  | alarmStatus => 0x18
  | clearInterrupt => 0x1c

theorem ofOffset_offset (register : Register) : ofOffset? register.offset = some register := by
  cases register <;> rfl

theorem offset_of_known {place : UInt64} {register : Register} (known : ofOffset? place = some register) :
    place = register.offset := by
  unfold ofOffset? at known
  split at known <;> cases known <;> rfl

end Register

/-- What is done to a clock. The guest's accesses have the binary logarithm of a size, and any offset. -/
inductive Deed where
  | load (offset : UInt64) (size : Nat)
  | store (offset : UInt64) (size : Nat) (value : UInt64)
  | step
  | reset
deriving DecidableEq

/-- A deed, and the time of day at which it is done. -/
structure Moment where
  now : UInt64
  deed : Deed
deriving DecidableEq

def after (clock : Rtc) (moment : Moment) : Rtc :=
  match moment.deed with
  | .load offset size => (clock.load moment.now offset size).2
  | .store offset size value => (clock.store moment.now offset size value).2.1
  | .step => clock.check moment.now
  | .reset => {}

/-- What a clock has become since power-on. -/
def state (history : List Moment) : Rtc :=
  history.foldr (fun moment clock => clock.after moment) {}

-- The same is done to a device on its wires.
def Moment.apply (moment : Moment) (place : Device × Wires) : Device × Wires :=
  let wires := { place.2 with wallTime := moment.now }
  match moment.deed with
  | .load offset size => (place.1.load wires offset size).2
  | .store offset size value => (place.1.store wires offset size value).2
  | .step =>
    match place.1.stepOnBus { wires := wires } with
    | some (device, bus) => (device, bus.wires)
    | none => (place.1, wires)
  | .reset => place.1.reset wires

section Lines

variable {line : Line} {clock : Rtc} {wires : Wires}

theorem apply_clock (told : wires.level line = clock.interrupt) (moment : Moment) :
    ∃ next, moment.apply (.rtc line clock, wires) = (.rtc line (clock.after moment), next) ∧
      next.level line = (clock.after moment).interrupt := by
  obtain ⟨now, deed⟩ := moment
  cases deed with
  | load offset size => exact ⟨_, rfl, told.trans (interrupt_load clock now offset size).symm⟩
  | store offset size value =>
    refine ⟨_, rfl, ?_⟩
    change (Wires.update _ line (clock.store now offset size value).2.2 _).level line = _
    cases updates : (clock.store now offset size value).2.2 with
    | true => exact Wires.level_drive _ line _
    | false => exact told.trans (store_silent updates).symm
  | step =>
    cases comes : clock.due now with
    | true =>
      refine ⟨Wires.drive { wires with wallTime := now } line (clock.check now).interrupt, ?_, Wires.level_drive _ line _⟩
      simp only [Moment.apply, Device.stepOnBus, stepOnBus, comes, ↓reduceIte, after]
      rfl
    | false =>
      have same := check_silent comes
      refine ⟨{ wires with wallTime := now }, ?_, told.trans (congrArg interrupt same.symm)⟩
      simp [Moment.apply, Device.stepOnBus, stepOnBus, comes, after, same]
  | reset => exact ⟨_, rfl, Wires.level_drive _ line false⟩

theorem applied_clock (told : wires.level line = false) (history : List Moment) :
    ∃ next, history.foldr Moment.apply (.rtc line {}, wires) = (.rtc line (state history), next) ∧
      next.level line = (state history).interrupt := by
  induction history with
  | nil => exact ⟨wires, rfl, told⟩
  | cons moment earlier ih =>
    obtain ⟨mid, same, shows⟩ := ih
    rw [List.foldr_cons, same]
    exact apply_clock shows moment

end Lines

namespace Deed

def Writes (register : Register) : Deed → Prop
  | store offset size _ => offset = register.offset ∧ size = 2
  | load .. | step | reset => False

def Arms (deed : Deed) : Prop :=
  deed.Writes .alarmLow

def Disarms (deed : Deed) : Prop :=
  deed.Writes .clearAlarm ∨ deed = .reset

def Checks (deed : Deed) : Prop :=
  deed = .step ∨ deed.Arms

def TakesBack (deed : Deed) : Prop :=
  deed.Writes .clearInterrupt ∨ deed = .reset

instance (register : Register) : DecidablePred (Writes register)
  | store _ _ _ => inferInstanceAs (Decidable (_ ∧ _))
  | load _ _ | step | reset => inferInstanceAs (Decidable False)

instance : DecidablePred Arms := fun deed => inferInstanceAs (Decidable (deed.Writes _))
instance : DecidablePred Disarms := fun _ => inferInstanceAs (Decidable (_ ∨ _))
instance : DecidablePred Checks := fun _ => inferInstanceAs (Decidable (_ ∨ _))
instance : DecidablePred TakesBack := fun _ => inferInstanceAs (Decidable (_ ∨ _))

def puts? (register : Register) : Deed → Option UInt32
  | store offset size value => if offset = register.offset ∧ size = 2 then some value.toUInt32 else none
  | reset => some 0
  | load .. | step => none

end Deed

def lastPut (register : Register) (history : List Moment) : UInt32 :=
  (history.findSome? (·.deed.puts? register)).getD 0

/-- The time for which the alarm is set, of the halves that were written last. -/
def alarmTime (history : List Moment) : Nat :=
  (lastPut .alarmHigh history).toNat * 2 ^ 32 + (lastPut .alarmLow history).toNat

end RvBoard.Rtc
