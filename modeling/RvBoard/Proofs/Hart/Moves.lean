import RvBoard.Debug.Target
import RvBoard.Proofs.Hart.Instruction

/-!
# Reachable states

What can happen to a hart: it is stepped, it makes a turn of a run, it is reset, the devices behind
its bus change, and a debugger reads and writes. A hart is reachable when it comes out of such moves
from power-on.
-/

set_option autoImplicit false

namespace RvBoard.Hart

-- The hart as it is about to execute: not waiting, and away from the breakpoint it stopped at.
def resumed (hart : Hart) : Hart :=
  { hart with waiting := false, resumeFrom := none }

def afterTurn (hart : Hart) (stop : UInt64) : Hart :=
  match hart.turn stop with
  | .stop .breakpoint => { hart with waiting := false, resumeFrom := some hart.pc }
  | .stop _ => hart
  | .wait => hart.setClock (hart.wakeTime stop)
  | .interrupt which => ({ hart with waiting := false }.trap (.interrupt which)).advance
  | .instruction => hart.resumed.executeOne.advance

inductive Move where
  | step (deliver : Bool)
  | turn (stop : UInt64)
  | reset
  | devices (change : Bus → Bus)
  | setPc (pc : UInt64)
  | setReg (reg : Reg) (value : UInt64)
  | setCsr (address value : UInt64)
  | readMemory (vaddr : UInt64) (n : Nat)
  | writeMemory (vaddr : UInt64) (bytes : ByteArray)
  | setBreakpoints (breakpoints : List UInt64)

def Move.apply (hart : Hart) : Move → Hart
  | .step deliver => hart.stepInstruction deliver
  | .turn stop => hart.afterTurn stop
  | .reset => hart.reset
  | .devices change => hart.mapBus change
  | .setPc pc => { hart with pc := pc }
  | .setReg reg value => hart.setReg reg value
  | .setCsr address value => hart.debugSetCsr address value
  | .readMemory vaddr n => (hart.readMemory vaddr n).2
  | .writeMemory vaddr bytes => (hart.writeMemory vaddr bytes).2
  | .setBreakpoints breakpoints => { hart with breakpoints := breakpoints }

-- A hart that moves of one kind lead to, from power-on behind buses of one kind.
inductive Reachable (built : Bus → Prop) (permitted : Hart → Move → Prop) : Hart → Prop
  | start (bus : Bus) (fits : built bus) : Reachable built permitted { memory := { bus := bus } }
  | move {hart : Hart} (before : Reachable built permitted hart) (move : Move) (allowed : permitted hart move) :
      Reachable built permitted (move.apply hart)

theorem Reachable.mono {built : Bus → Prop} {permitted other : Hart → Move → Prop} {hart : Hart}
    (weaker : ∀ hart move, permitted hart move → other hart move) (reachable : Reachable built permitted hart) :
    Reachable built other hart := by
  induction reachable with
  | start bus fits => exact .start bus fits
  | move before move allowed ih => exact .move ih move (weaker _ move allowed)

-- A hart at power-on before a bus with nothing on it.
def poweredOn : Hart :=
  { memory := { bus := Bus.empty } }

def AnyBus : Bus → Prop :=
  fun _ => True

def AnyMove : Hart → Move → Prop :=
  fun _ _ => True

theorem runTo_stops {hart : Hart} {stop : UInt64} {reason : StopReason} (now : hart.turn stop = .stop reason) (n : Nat) :
    hart.runTo stop (n + 1) = (reason, hart.afterTurn stop) := by
  cases reason <;> simp only [runTo, afterTurn, now]

theorem runTo_goes {hart : Hart} {stop : UInt64} (goes : ∀ why, hart.turn stop ≠ .stop why) (n : Nat) :
    hart.runTo stop (n + 1) = (hart.afterTurn stop).runTo stop n := by
  cases now : hart.turn stop with
  | stop reason => exact absurd now (goes reason)
  | wait => simp only [runTo, afterTurn, now]
  | interrupt which => simp only [runTo, afterTurn, now]
  | instruction =>
    simp only [runTo, afterTurn, now]
    rfl

theorem runTo_keeps {Holds : Hart → Prop} (turns : ∀ hart stop, Holds hart → Holds (hart.afterTurn stop))
    (stop : UInt64) (n : Nat) {hart : Hart} (before : Holds hart) : Holds (hart.runTo stop n).2 := by
  induction n generalizing hart with
  | zero => exact before
  | succ n ih =>
    have after := turns hart stop before
    by_cases stops : ∃ why, hart.turn stop = .stop why
    · obtain ⟨why, now⟩ := stops
      rw [runTo_stops now]
      exact after
    · rw [runTo_goes (not_exists.mp stops)]
      exact ih after

-- The move executes the instruction at the program counter.
def Move.executes (hart : Hart) : Move → Prop
  | .step deliver => (if deliver then hart.resumed.interrupt? else none) = none
  | .turn stop => hart.turn stop = .instruction
  | _ => False

-- The instruction at the program counter is executed, by a step or by a turn of a run.
def Executing (hart next : Hart) : Prop :=
  ∃ move, Move.executes hart move ∧ next = Move.apply hart move

theorem step_executes {hart : Hart} {deliver : Bool} (quiet : (if deliver then hart.resumed.interrupt? else none) = none) :
    hart.stepInstruction deliver = hart.resumed.executeOne.advance := by
  unfold stepInstruction
  extract_lets awake
  have chosen : (if deliver then awake.interrupt? else none) = none := quiet
  rw [chosen]
  rfl

theorem step_interrupts {hart : Hart} {deliver : Bool} {which : Interrupt}
    (now : (if deliver then hart.resumed.interrupt? else none) = some which) :
    hart.stepInstruction deliver = (hart.resumed.trap (.interrupt which)).advance := by
  unfold stepInstruction
  extract_lets awake
  have chosen : (if deliver then awake.interrupt? else none) = some which := now
  rw [chosen]
  rfl

theorem turn_executes {hart : Hart} {stop : UInt64} (now : hart.turn stop = .instruction) :
    hart.afterTurn stop = hart.resumed.executeOne.advance := by
  simp only [afterTurn, now]

theorem executing_eq {hart next : Hart} (executing : Executing hart next) : next = hart.resumed.executeOne.advance := by
  obtain ⟨move, executes, rfl⟩ := executing
  cases move with
  | step deliver => exact step_executes executes
  | turn stop => exact turn_executes executes
  | _ => exact False.elim executes

inductive Progresses (hart : Hart) (move : Move) : Hart → Prop
  | executed (now : move.executes hart) : Progresses hart move hart.resumed.executeOne.advance
  | interrupted (which : Interrupt) (resumeFrom : Option UInt64) :
      Progresses hart move (({ hart with waiting := false, resumeFrom := resumeFrom }.trap (.interrupt which)).advance)
  | slept (time : UInt64) : Progresses hart move (hart.setClock time)
  | stopped (waiting : Bool) (resumeFrom : Option UInt64) :
      Progresses hart move { hart with waiting := waiting, resumeFrom := resumeFrom }

theorem step_progresses (hart : Hart) (deliver : Bool) :
    Progresses hart (.step deliver) (hart.stepInstruction deliver) := by
  cases now : (if deliver then hart.resumed.interrupt? else none) with
  | none =>
    rw [step_executes now]
    exact .executed now
  | some which =>
    rw [step_interrupts now]
    exact .interrupted which none

theorem turn_progresses (hart : Hart) (stop : UInt64) : Progresses hart (.turn stop) (hart.afterTurn stop) := by
  unfold afterTurn
  cases now : hart.turn stop with
  | stop reason =>
    cases reason with
    | breakpoint => exact .stopped false (some hart.pc)
    | budget => exact .stopped hart.waiting hart.resumeFrom
    | yield => exact .stopped hart.waiting hart.resumeFrom
  | wait => exact .slept (hart.wakeTime stop)
  | interrupt which => exact .interrupted which hart.resumeFrom
  | instruction => exact .executed now

end RvBoard.Hart
