import RvBoard.Plic
import RvBoard.Proofs.Bits

/-!
# Pins of the interrupt controller

The controller drives two pins of the hart. After everything that happens to it they show whether
their contexts have a candidate, and nothing else that is done to the pins reaches these two.
-/

set_option autoImplicit false

namespace RvBoard

namespace Pins

theorem set_here (pins : Pins) {mask : UInt64} (level : Bool) (some : mask ≠ 0) :
    ((pins.set mask level).pending &&& mask != 0) = level := by
  cases level with
  | true =>
    change ((pins.pending ||| mask) &&& mask != 0) = true
    rw [word_or_and_self]
    exact bne_iff_ne.mpr some
  | false =>
    change (pins.pending &&& ~~~mask &&& mask != 0) = false
    rw [UInt64.and_assoc, UInt64.not_and_self, UInt64.and_zero]
    rfl

theorem set_apart (pins : Pins) {mask other : UInt64} (level : Bool) (apart : mask &&& other = 0) :
    (pins.set mask level).pending &&& other = pins.pending &&& other := by
  cases level with
  | true => exact word_set_and _ _ _ apart
  | false => exact word_clear_and _ _ _ apart

end Pins

-- The context of supervisor mode.
def Plic.supervisor : Fin 2 :=
  Fin.last 1

theorem Plic.bind_unowned {plic : Plic} {number : UInt32} {owner : String} {bound : Line × Plic}
    (done : plic.bind number owner = .ok bound) :
    plic.owners.get bound.1 = none ∧ bound.2 = { plic with owners := plic.owners.set bound.1 (some owner) bound.1.isLt } := by
  unfold bind at done
  split at done
  · dsimp only at done
    split at done
    · rename_i unowned
      cases done
      exact ⟨unowned, rfl⟩
    · cases done
  · cases done

namespace Plic.Signals

-- A context's pin is high.
def pin (signals : Signals) (context : Fin 2) : Bool :=
  signals.pins.pending &&& contextPin context != 0

def Truthful (signals : Signals) : Prop :=
  ∀ context, signals.pin context = (signals.plic.candidate context).isSome

theorem update_plic (signals : Signals) : signals.update.plic = signals.plic := rfl

theorem update_truthful (signals : Signals) : signals.update.Truthful := by
  intro context
  rw [update_plic]
  match context with
  | 0 =>
    have kept := @Pins.set_apart (signals.pins.set (contextPin 0) (signals.plic.candidate 0).isSome) (contextPin 1)
      (contextPin 0) (signals.plic.candidate 1).isSome (by decide)
    refine (congrArg (· != 0) kept).trans ?_
    exact signals.pins.set_here _ (by decide)
  | 1 => exact Pins.set_here _ _ (by decide)

-- What an operation makes of the signals: nothing, or a controller that the pins follow.
inductive Settled (signals : Signals) : Signals → Prop
  | same : Settled signals signals
  | updated (plic : Plic) : Settled signals { signals with plic := plic }.update

theorem Settled.truthful {signals next : Signals} (settled : Settled signals next) (start : signals.Truthful) :
    next.Truthful := by
  cases settled with
  | same => exact start
  | updated plic => exact update_truthful _

theorem drive_settled (signals : Signals) (line : Line) (level : Bool) : Settled signals (signals.drive line level) := by
  unfold drive
  cases signals.plic.level[line] == level with
  | true => exact .same
  | false => exact .updated _

theorem drive_level (signals : Signals) (line : Line) (level : Bool) :
    (signals.drive line level).plic.level.get line = level := by
  unfold drive
  by_cases same : (signals.plic.level[line] == level) = true
  · rw [if_pos same]
    exact eq_of_beq same
  · rw [if_neg same, update_plic]
    exact Vector.getElem_set_self _

theorem drive_owners (signals : Signals) (line : Line) (level : Bool) :
    (signals.drive line level).plic.owners = signals.plic.owners := by
  unfold drive
  cases signals.plic.level[line] == level <;> rfl

theorem claim_settled (signals : Signals) (context : Fin 2) : Settled signals (signals.claim context).2 := by
  unfold claim
  cases signals.plic.candidate context with
  | none => exact .same
  | some line => exact .updated _

theorem complete_settled (signals : Signals) (number : UInt32) : Settled signals (signals.complete number) := by
  unfold complete
  split
  · dsimp only
    split
    · exact .updated _
    · exact .same
  · exact .same

theorem setContext_settled (signals : Signals) (context : Fin 2) (value : Context) :
    Settled signals (signals.setContext context value) :=
  .updated _

theorem read_settled (signals : Signals) (offset : Nat) : Settled signals (signals.read offset).2 := by
  unfold read
  dsimp only
  split
  · exact .same
  split
  · exact .same
  split
  · split <;> exact .same
  · split
    · exact .same
    · exact claim_settled signals _
    · exact .same

theorem write_settled (signals : Signals) (offset : Nat) (value : UInt32) : Settled signals (signals.write offset value) := by
  unfold write
  extract_lets plic
  split
  · split
    · exact .updated _
    · exact .same
  split
  · exact .same
  split
  · split
    · exact setContext_settled signals _ _
    · exact .same
  · split
    · exact setContext_settled signals _ _
    · exact complete_settled signals value
    · exact .same

theorem load_settled (signals : Signals) (offset : UInt64) (size : Nat) : Settled signals (signals.load offset size).2 := by
  unfold load
  by_cases word : size = 2
  · rw [if_pos word]
    exact read_settled signals offset.toNat
  · rw [if_neg word]
    exact .same

theorem store_settled (signals : Signals) (offset : UInt64) (size : Nat) (value : UInt64) :
    Settled signals (signals.store offset size value).2 := by
  unfold store
  by_cases word : size = 2
  · rw [if_pos word]
    exact write_settled signals offset.toNat value.toUInt32
  · rw [if_neg word]
    exact .same

theorem reset_truthful (signals : Signals) : signals.reset.Truthful :=
  update_truthful _

theorem Truthful.repinned {signals : Signals} (start : signals.Truthful) (pins : Pins)
    (kept : ∀ context, pins.pending &&& contextPin context = signals.pins.pending &&& contextPin context) :
    { signals with pins := pins : Signals }.Truthful := by
  intro context
  refine Eq.trans ?_ (start context)
  exact congrArg (· != 0) (kept context)

end Plic.Signals

end RvBoard
