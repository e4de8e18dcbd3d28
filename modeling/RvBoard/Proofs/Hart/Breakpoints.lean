import RvBoard.Proofs.Cells
import RvBoard.Proofs.Hart.Slicing

/-!
# Breakpoints

The history of a hart says which instructions were executed, where the program counter was put instead, and where runs
stopped. A run stops at a breakpoint on every arrival there, before anything is executed, and executes an instruction at
a breakpoint only from such a stop.
-/

set_option autoImplicit false

namespace RvBoard.Hart

-- What bears on breakpoints; an interrupt is taken by a run or by a single step.
inductive Event where
  | executed (pc next : UInt64)
  | interrupted (single : Bool) (next : UInt64)
  | placed (pc : UInt64)
  | reset
  | stopped (pc : UInt64)
deriving DecidableEq

namespace Event

def arrival? : Event → Option UInt64
  | executed _ next | interrupted _ next | placed next => some next
  | reset => some resetVector
  | stopped _ => none

def Executes : Event → Prop
  | executed _ _ => True
  | _ => False

def Stops : Event → Prop
  | stopped _ => True
  | _ => False

theorem not_executes {event : Event} (still : event.arrival? = none) : ¬ event.Executes := by
  intro executes
  cases event with
  | executed pc next => cases still
  | _ => exact executes

-- A stop outlasts the event: it is an interrupt that a run takes, or the debugger moves the program counter.
def Spares : Event → Prop
  | interrupted single _ => single = false
  | placed _ => True
  | _ => False

end Event

def turnEvents (hart : Hart) (stop : UInt64) : List Event :=
  match hart.turn stop with
  | .stop .breakpoint => [.stopped hart.pc]
  | .interrupt _ => [.interrupted false (hart.afterTurn stop).pc]
  | .instruction => [.executed hart.pc (hart.afterTurn stop).pc]
  | _ => []

def stepEvents (hart : Hart) (deliver : Bool) : List Event :=
  match if deliver then hart.resumed.interrupt? else none with
  | some _ => [.interrupted true (hart.stepInstruction deliver).pc]
  | none => [.executed hart.pc (hart.stepInstruction deliver).pc]

def Move.events (hart : Hart) : Move → List Event
  | .step deliver => hart.stepEvents deliver
  | .turn stop => hart.turnEvents stop
  | .reset => [.reset]
  | .setPc pc => [.placed pc]
  | _ => []

def eventsTo (stop : UInt64) : Nat → Hart → List Event
  | 0, _ => []
  | turns + 1, hart =>
    match hart.turn stop with
    | .stop _ => hart.turnEvents stop
    | _ => eventsTo stop turns (hart.afterTurn stop) ++ hart.turnEvents stop

def runEvents (hart : Hart) (cycles : UInt64) : List Event :=
  eventsTo (saturatingAdd hart.clock cycles) (cycles.toNat + 1) hart

inductive Chronicle : List Event → Hart → Prop
  | start (bus : Bus) : Chronicle [.reset] { memory := { bus := bus } }
  | move {past : List Event} {hart : Hart} (before : Chronicle past hart) (move : Move) :
      Chronicle (move.events hart ++ past) (move.apply hart)

def StoppedAt (pc : UInt64) (past : List Event) : Prop :=
  ∃ recent older, past = recent ++ .stopped pc :: older ∧ ∀ event ∈ recent, ¬ event.Executes ∧ ¬ event.Stops

def StillAt (pc : UInt64) (past : List Event) : Prop :=
  ∃ recent older, past = recent ++ .stopped pc :: older ∧ ∀ event ∈ recent, event.Spares

def FreshAt (pc : UInt64) (past : List Event) : Prop :=
  ∃ recent arrival older, past = recent ++ arrival :: older ∧ arrival.arrival? = some pc ∧
    ∀ event ∈ recent, event.arrival? = none ∧ ¬ event.Executes

section Marks

def marks (hart : Hart) : List UInt64 × Option UInt64 :=
  (hart.breakpoints, hart.resumeFrom)

theorem trap_marks (hart : Hart) (trap : Trap) : (hart.trap trap).marks = hart.marks := by
  unfold Hart.trap
  dsimp only
  split <;> rfl

theorem writeCsr_marks (hart : Hart) (csr : Csr) (value : UInt64) :
    (hart.writeCsr csr value).marks = hart.marks ∧ (hart.writeCsr csr value).pc = hart.pc := by
  obtain ⟨csrs, memory, instret, cycleOffset, same⟩ := hart.writeCsr_frame csr value
  rw [same]
  exact ⟨rfl, rfl⟩

theorem executes_marks {hart : Hart} {instr : Instr} {result : EStateM.Result Exception Hart Unit}
    (executes : Executes hart instr result) : (left result).marks = hart.marks := by
  cases executes with
  | wrote found allowed changes writable registers => exact (hart.writeCsr_marks _ _).1
  | machineReturned =>
    change Hart.marks (Hart.returnMachine _) = _
    unfold returnMachine
    dsimp only
    split <;> rfl
  | _ => rfl

theorem instruction_marks (hart : Hart) : (left (instruction hart)).marks = hart.marks := by
  have instructs := instruction_cases hart
  generalize instruction hart = result at instructs
  cases instructs with
  | executed read meaning outcome executes =>
    have same := executes_marks executes
    exact same
  | _ => rfl

theorem executeOne_marks (hart : Hart) : hart.executeOne.marks = hart.marks := by
  have same := instruction_marks hart
  unfold executeOne
  generalize instruction hart = result at same
  cases result with
  | ok value next => exact same
  | error why next => exact (trap_marks next _).trans same

end Marks

section Histories

def marker : List Event → Option UInt64
  | [] => none
  | .stopped pc :: _ => some pc
  | .executed _ _ :: _ | .interrupted true _ :: _ | .reset :: _ => none
  | .interrupted false _ :: past | .placed _ :: past => marker past

def position : List Event → Option UInt64
  | [] => none
  | event :: past => event.arrival?.or (position past)

theorem stillAt_of_marker {past : List Event} {pc : UInt64} (marked : marker past = some pc) : StillAt pc past := by
  fun_induction marker past with
  | case1 => cases marked
  | case2 other older =>
    cases marked
    exact ⟨[], older, rfl, by simp⟩
  | case3 => cases marked
  | case4 => cases marked
  | case5 => cases marked
  | case6 next past ih =>
    obtain ⟨recent, older, rfl, spares⟩ := ih marked
    exact ⟨.interrupted false next :: recent, older, rfl, by simpa [Event.Spares] using spares⟩
  | case7 next past ih =>
    obtain ⟨recent, older, rfl, spares⟩ := ih marked
    exact ⟨.placed next :: recent, older, rfl, by simpa [Event.Spares] using spares⟩

theorem marker_of_stillAt {past : List Event} {pc : UInt64} (still : StillAt pc past) : marker past = some pc := by
  obtain ⟨recent, older, rfl, spares⟩ := still
  induction recent with
  | nil => rfl
  | cons event recent ih =>
    have rest := ih fun other member => spares other (List.mem_cons_of_mem _ member)
    have here := spares event List.mem_cons_self
    cases event with
    | interrupted single next =>
      cases single with
      | false => exact rest
      | true => cases here
    | placed next => exact rest
    | _ => exact here.elim

theorem position_of_freshAt {past : List Event} {pc : UInt64} (fresh : FreshAt pc past) : position past = some pc := by
  obtain ⟨recent, arrival, older, rfl, arrives, quiet⟩ := fresh
  induction recent with
  | nil => simp only [List.nil_append, position, arrives, Option.some_or]
  | cons event recent ih =>
    have rest := ih fun other member => quiet other (List.mem_cons_of_mem _ member)
    simp only [List.cons_append, position, (quiet event List.mem_cons_self).1, Option.none_or, rest]

theorem StillAt.stoppedAt {past : List Event} {pc : UInt64} (still : StillAt pc past) : StoppedAt pc past := by
  obtain ⟨recent, older, same, spares⟩ := still
  refine ⟨recent, older, same, fun event member => ?_⟩
  have here := spares event member
  cases event with
  | interrupted single next => exact ⟨id, id⟩
  | placed pc => exact ⟨id, id⟩
  | _ => exact here.elim

theorem StillAt.front {earlier past : List Event} {pc : UInt64} (still : StillAt pc (earlier ++ past))
    (onward : ∀ event ∈ earlier, ¬ event.Stops) : ∀ event ∈ earlier, ¬ event.Executes := by
  induction earlier with
  | nil => simp
  | cons event earlier ih =>
    have marked := marker_of_stillAt still
    have rest (later : marker (earlier ++ past) = some pc) : ∀ other ∈ earlier, ¬ other.Executes :=
      ih (stillAt_of_marker later) fun other member => onward other (List.mem_cons_of_mem _ member)
    cases event with
    | stopped place => exact absurd trivial (onward _ List.mem_cons_self)
    | interrupted single next =>
      cases single with
      | false => exact List.forall_mem_cons.mpr ⟨id, rest marked⟩
      | true => cases marked
    | placed place => exact List.forall_mem_cons.mpr ⟨id, rest marked⟩
    | _ => cases marked

theorem freshAt_of_position {past : List Event} {pc : UInt64} (placed : position past = some pc) : FreshAt pc past := by
  induction past with
  | nil => cases placed
  | cons event past ih =>
    cases here : event.arrival? with
    | some next =>
      rw [position, here] at placed
      cases placed
      exact ⟨[], event, past, rfl, here, by simp⟩
    | none =>
      rw [position, here] at placed
      obtain ⟨recent, arrival, older, rfl, arrives, quiet⟩ := ih placed
      refine ⟨event :: recent, arrival, older, rfl, arrives, ?_⟩
      rintro other member
      rcases List.mem_cons.mp member with rfl | later
      · exact ⟨here, Event.not_executes here⟩
      · exact quiet other later

end Histories

section Laws

variable {past : List Event} {hart : Hart}

theorem turn_recorded (stop : UInt64) (known : hart.resumeFrom = marker past ∧ some hart.pc = position past) :
    (hart.afterTurn stop).resumeFrom = marker (hart.turnEvents stop ++ past) ∧
      some (hart.afterTurn stop).pc = position (hart.turnEvents stop ++ past) := by
  obtain ⟨marked, placed⟩ := known
  unfold turnEvents afterTurn
  cases hart.turn stop with
  | stop reason =>
    cases reason with
    | breakpoint => exact ⟨rfl, placed⟩
    | _ => exact ⟨marked, placed⟩
  | wait => exact ⟨marked, placed⟩
  | interrupt which =>
    have same := trap_marks { hart with waiting := false } (.interrupt which)
    exact ⟨(congrArg Prod.snd same).trans marked, rfl⟩
  | instruction => exact ⟨congrArg Prod.snd (executeOne_marks hart.resumed), rfl⟩

theorem step_recorded (deliver : Bool) :
    (hart.stepInstruction deliver).resumeFrom = marker (hart.stepEvents deliver ++ past) ∧
      some (hart.stepInstruction deliver).pc = position (hart.stepEvents deliver ++ past) := by
  unfold stepEvents
  cases now : (if deliver then hart.resumed.interrupt? else none) with
  | none =>
    rw [step_executes now]
    exact ⟨congrArg Prod.snd (executeOne_marks hart.resumed), rfl⟩
  | some which =>
    rw [step_interrupts now]
    exact ⟨congrArg Prod.snd (trap_marks hart.resumed _), rfl⟩

theorem Chronicle.known (happened : Chronicle past hart) :
    hart.resumeFrom = marker past ∧ some hart.pc = position past := by
  induction happened with
  | start bus => exact ⟨rfl, rfl⟩
  | @move past hart before move ih =>
    cases move with
    | step deliver => exact step_recorded deliver
    | turn stop => exact turn_recorded stop ih
    | reset => exact ⟨rfl, rfl⟩
    | setPc pc => exact ⟨ih.1, rfl⟩
    | setCsr address value =>
      change (hart.debugSetCsr address value).resumeFrom = _ ∧ some (hart.debugSetCsr address value).pc = _
      unfold debugSetCsr
      cases Csr.ofAddress? address with
      | none => exact ih
      | some csr =>
        obtain ⟨same, still⟩ := hart.writeCsr_marks csr value
        exact ⟨(congrArg Prod.snd same).trans ih.1, (congrArg some still).trans ih.2⟩
    | readMemory vaddr n =>
      change (hart.runMemory _).2.resumeFrom = _ ∧ some (hart.runMemory _).2.pc = _
      rw [runMemory_frame]
      exact ih
    | writeMemory vaddr bytes =>
      change (hart.runMemory _).2.resumeFrom = _ ∧ some (hart.runMemory _).2.pc = _
      rw [runMemory_frame]
      exact ih
    | _ => exact ih

structure Ready (hart : Hart) (stop : UInt64) : Prop where
  early : hart.clock < stop
  quiet : hart.wires.control = none
  awake : hart.awake = true
  calm : hart.interrupt? = none

theorem Ready.turn {stop : UInt64} (ready : Ready hart stop) :
    hart.turn stop = if hart.atBreakpoint then .stop .breakpoint else .instruction := by
  unfold Hart.turn
  rw [if_neg (UInt64.not_le.mpr ready.early), ready.quiet, ready.awake, ready.calm]
  rfl

theorem ready_of_turn {stop : UInt64} (now : hart.turn stop = .stop .breakpoint ∨ hart.turn stop = .instruction) :
    Ready hart stop := by
  have chosen := turn_cases hart stop
  generalize same : hart.turn stop = turn at chosen now
  cases chosen with
  | active early quiet awake stays =>
    refine ⟨early, quiet, awake, ?_⟩
    cases calm : hart.interrupt? with
    | none => rfl
    | some which =>
      unfold Hart.turn at same
      rw [if_neg (UInt64.not_le.mpr early), quiet, awake, calm] at same
      subst same
      rcases now with now | now <;> cases now
  | _ => rcases now with now | now <;> cases now

theorem atBreakpoint_iff (happened : Chronicle past hart) :
    hart.atBreakpoint = true ↔ hart.pc ∈ hart.breakpoints ∧ ¬ StillAt hart.pc past := by
  have same : StillAt hart.pc past ↔ hart.resumeFrom = some hart.pc := by
    rw [happened.known.1]
    exact ⟨marker_of_stillAt, stillAt_of_marker⟩
  unfold atBreakpoint
  rw [Bool.and_eq_true, List.contains_iff_mem, bne_iff_ne, same]

end Laws

section Runs

variable {past : List Event} {hart : Hart} {stop : UInt64}

theorem Chronicle.turn (happened : Chronicle past hart) (stop : UInt64) :
    Chronicle (hart.turnEvents stop ++ past) (hart.afterTurn stop) :=
  happened.move (.turn stop)

theorem eventsTo_stops {reason : StopReason} (now : hart.turn stop = .stop reason) (turns : Nat) :
    hart.eventsTo stop (turns + 1) = hart.turnEvents stop := by
  simp only [eventsTo, now]

theorem eventsTo_goes (goes : ∀ why, hart.turn stop ≠ .stop why) (turns : Nat) :
    hart.eventsTo stop (turns + 1) = (hart.afterTurn stop).eventsTo stop turns ++ hart.turnEvents stop := by
  cases now : hart.turn stop with
  | stop reason => exact absurd now (goes reason)
  | _ => simp only [eventsTo, now]

theorem afterTurn_breakpoints (hart : Hart) (stop : UInt64) : (hart.afterTurn stop).breakpoints = hart.breakpoints := by
  unfold afterTurn
  cases hart.turn stop with
  | stop reason => cases reason <;> rfl
  | wait => rfl
  | interrupt which => exact congrArg Prod.fst (trap_marks { hart with waiting := false } (.interrupt which))
  | instruction => exact congrArg Prod.fst (executeOne_marks hart.resumed)

theorem eventsTo_recorded (turns : Nat) (happened : Chronicle past hart) :
    Chronicle (hart.eventsTo stop turns ++ past) (hart.runTo stop turns).2 := by
  induction turns generalizing past hart with
  | zero => exact happened
  | succ turns ih =>
    have after := happened.turn stop
    by_cases stops : ∃ why, hart.turn stop = .stop why
    · obtain ⟨why, now⟩ := stops
      rw [runTo_stops now, eventsTo_stops now]
      exact after
    · have goes := not_exists.mp stops
      rw [runTo_goes goes, eventsTo_goes goes, List.append_assoc]
      exact ih after

theorem append_split {α : Type} {front later earlier : List α} {last event : α}
    (same : front ++ [last] = later ++ event :: earlier) :
    (front = later ∧ last = event ∧ earlier = []) ∨
      ∃ between, earlier = between ++ [last] ∧ front = later ++ event :: between := by
  rcases List.eq_nil_or_concat earlier with rfl | ⟨between, other, rfl⟩
  · obtain ⟨rfl, ends⟩ := List.append_inj' same rfl
    exact .inl ⟨rfl, (List.cons.inj ends).1, rfl⟩
  · rw [List.concat_eq_append, ← List.cons_append, ← List.append_assoc] at same
    obtain ⟨rfl, ends⟩ := List.append_inj' same rfl
    obtain rfl := (List.cons.inj ends).1
    exact .inr ⟨between, List.concat_eq_append .., rfl⟩

theorem turnEvents_goes {event : Event} (goes : ∀ why, hart.turn stop ≠ .stop why) (turned : hart.turnEvents stop = [event]) :
    ¬ event.Stops := by
  intro stops
  unfold turnEvents at turned
  split at turned
  · exact goes _ ‹_›
  · cases turned
    exact stops
  · cases turned
    exact stops
  · cases turned

theorem event_turn {turns : Nat} (happened : Chronicle past hart) {later earlier : List Event} {event : Event}
    (events : hart.eventsTo stop turns = later ++ event :: earlier) :
    ∃ mid, Chronicle (earlier ++ past) mid ∧ mid.breakpoints = hart.breakpoints ∧ mid.turnEvents stop = [event] ∧
      ∀ other ∈ earlier, ¬ other.Stops := by
  induction turns generalizing past hart later earlier with
  | zero =>
    rw [eventsTo] at events
    simp at events
  | succ turns ih =>
    have alone : hart.turnEvents stop = [] ∨ ∃ last, hart.turnEvents stop = [last] := by
      unfold turnEvents
      split <;> simp
    by_cases stops : ∃ why, hart.turn stop = .stop why
    · obtain ⟨why, now⟩ := stops
      rw [eventsTo_stops now] at events
      rcases alone with nothing | ⟨last, one⟩
      · rw [nothing] at events
        simp at events
      · rw [one] at events
        rw [← List.nil_append [last]] at events
        obtain ⟨_, rfl, rfl⟩ | ⟨between, _, impossible⟩ := append_split events
        · exact ⟨hart, happened, rfl, one, by simp⟩
        · simp at impossible
    · have goes := not_exists.mp stops
      rw [eventsTo_goes goes] at events
      have after := happened.turn stop
      rcases alone with nothing | ⟨last, one⟩
      · rw [nothing] at events after
        rw [List.append_nil] at events
        obtain ⟨mid, come, same, turned, onward⟩ := ih after events
        exact ⟨mid, come, same.trans (hart.afterTurn_breakpoints stop), turned, onward⟩
      · have onwards : ¬ last.Stops := turnEvents_goes goes one
        rw [one] at events after
        rcases append_split events with ⟨_, rfl, rfl⟩ | ⟨between, rfl, front⟩
        · exact ⟨hart, happened, rfl, one, by simp⟩
        · obtain ⟨mid, come, same, turned, onward⟩ := ih after front
          refine ⟨mid, ?_, same.trans (hart.afterTurn_breakpoints stop), turned, ?_⟩
          · rw [List.append_assoc]
            exact come
          · exact List.forall_mem_append.mpr ⟨onward, List.forall_mem_singleton.mpr onwards⟩

theorem eventsTo_executes (now : hart.turn stop = .instruction) (turns : Nat) :
    ∃ later next, hart.eventsTo stop (turns + 1) = later ++ [.executed hart.pc next] := by
  rw [eventsTo_goes (by simp [now]), turnEvents, now]
  exact ⟨_, _, rfl⟩

theorem turnEvents_executed {pc next : UInt64} (turned : hart.turnEvents stop = [.executed pc next]) :
    hart.turn stop = .instruction ∧ hart.pc = pc := by
  unfold turnEvents at turned
  split at turned <;> first | cases turned; exact ⟨‹_›, rfl⟩ | cases turned

theorem run_stopped {turns : Nat} (happened : Chronicle past hart) (ended : (hart.runTo stop turns).1 = .breakpoint) :
    ∃ mid earlier, hart.eventsTo stop turns = .stopped mid.pc :: earlier ∧ Chronicle (earlier ++ past) mid ∧
      mid.turn stop = .stop .breakpoint ∧ (hart.runTo stop turns).2 = mid.afterTurn stop := by
  induction turns generalizing past hart with
  | zero => cases ended
  | succ turns ih =>
    by_cases stops : ∃ why, hart.turn stop = .stop why
    · obtain ⟨why, now⟩ := stops
      rw [runTo_stops now] at ended
      obtain rfl : why = .breakpoint := ended
      refine ⟨hart, [], ?_, happened, now, by rw [runTo_stops now]⟩
      rw [eventsTo_stops now]
      simp only [turnEvents, now]
    · have goes := not_exists.mp stops
      rw [runTo_goes goes] at ended
      obtain ⟨mid, earlier, events, come, now, final⟩ := ih (happened.turn stop) ended
      refine ⟨mid, earlier ++ hart.turnEvents stop, ?_, ?_, now, by rw [runTo_goes goes]; exact final⟩
      · rw [eventsTo_goes goes, events]
        rfl
      · rw [List.append_assoc]
        exact come

end Runs

structure KeepsTo (past : List Event) (hart : Hart) (cycles : UInt64) : Prop where
  recorded : Chronicle (hart.runEvents cycles ++ past) (hart.run cycles).2
  -- It returns at a breakpoint before anything is executed there.
  returned : (hart.run cycles).1.2 = .breakpoint →
    (hart.run cycles).2.pc ∈ (hart.run cycles).2.breakpoints ∧
      (∃ earlier, hart.runEvents cycles = .stopped (hart.run cycles).2.pc :: earlier) ∧
      FreshAt (hart.run cycles).2.pc (hart.runEvents cycles ++ past)
  -- What it executes at a breakpoint it had stopped at, with nothing executed since.
  passed : ∀ {later earlier pc next}, hart.runEvents cycles = later ++ .executed pc next :: earlier →
    pc ∈ hart.breakpoints → StoppedAt pc (earlier ++ past)
  -- From a stop it goes on with the instruction there,
  wentOn : (hart.run cycles).1.2 = .breakpoint → ∀ more,
    (hart.run cycles).2.clock < saturatingAdd (hart.run cycles).2.clock more →
      ∃ later next, (hart.run cycles).2.runEvents more = later ++ [.executed (hart.run cycles).2.pc next]
  -- or, if anything has happened since that has one delivered, with an interrupt.
  resumed : StillAt hart.pc past → ∀ {later event}, hart.runEvents cycles = later ++ [event] →
    ∃ next, event = .executed hart.pc next ∨ event = .interrupted false next
  -- A stop stands until something is executed, and be it in the handler of an interrupt that came before the instruction:
  -- back at the breakpoint the run stops again.
  spent : ∀ {later earlier event pc}, hart.runEvents cycles = later ++ event :: earlier →
    (∃ done ∈ earlier, done.Executes) → FreshAt pc (earlier ++ past) → pc ∈ hart.breakpoints →
      event = .stopped pc ∨ ∃ next, event = .interrupted false next
  -- On another arrival at a breakpoint it stops, unless an interrupt comes first.
  stoppedAgain : ∀ {later earlier event pc}, hart.runEvents cycles = later ++ event :: earlier →
    FreshAt pc (earlier ++ past) → pc ∈ hart.breakpoints → ¬ StillAt pc (earlier ++ past) →
      event = .stopped pc ∨ ∃ next, event = .interrupted false next
  stoppedAtOnce : Ready hart (saturatingAdd hart.clock cycles) → hart.pc ∈ hart.breakpoints → ¬ StillAt hart.pc past →
    (hart.run cycles).1 = (0, .breakpoint) ∧ hart.runEvents cycles = [.stopped hart.pc]

section Keeping

variable {past : List Event} {hart : Hart} {stop : UInt64}

theorem turnEvents_cases {event : Event} (turned : hart.turnEvents stop = [event]) :
    (hart.turn stop = .stop .breakpoint ∧ event = .stopped hart.pc) ∨
      (hart.turn stop = .instruction ∧ ∃ next, event = .executed hart.pc next) ∨ ∃ next, event = .interrupted false next := by
  unfold turnEvents at turned
  split at turned
  · exact .inl ⟨‹_›, (List.cons.inj turned).1.symm⟩
  · exact .inr (.inr ⟨_, (List.cons.inj turned).1.symm⟩)
  · exact .inr (.inl ⟨‹_›, _, (List.cons.inj turned).1.symm⟩)
  · cases turned

theorem executing_stillAt (happened : Chronicle past hart) (now : hart.turn stop = .instruction)
    (watched : hart.pc ∈ hart.breakpoints) : StillAt hart.pc past := by
  have ready := (ready_of_turn (.inr now)).turn
  refine Classical.byContradiction fun moved => ?_
  rw [now, if_pos ((atBreakpoint_iff happened).mpr ⟨watched, moved⟩)] at ready
  cases ready

theorem stopping_moved (happened : Chronicle past hart) (now : hart.turn stop = .stop .breakpoint) :
    hart.pc ∈ hart.breakpoints ∧ ¬ StillAt hart.pc past := by
  have ready := (ready_of_turn (.inl now)).turn
  refine (atBreakpoint_iff happened).mp (Decidable.byContradiction fun away => ?_)
  rw [now, if_neg away] at ready
  cases ready

theorem arrived_pc (happened : Chronicle past hart) {pc : UInt64} (fresh : FreshAt pc past) : hart.pc = pc :=
  Option.some.inj (happened.known.2.trans (position_of_freshAt fresh))

theorem arrival_stops {turns : Nat} (happened : Chronicle past hart) {later earlier : List Event} {event : Event} {pc : UInt64}
    (events : hart.eventsTo stop turns = later ++ event :: earlier) (fresh : FreshAt pc (earlier ++ past))
    (watched : pc ∈ hart.breakpoints) (moved : ¬ StillAt pc (earlier ++ past)) :
    event = .stopped pc ∨ ∃ next, event = .interrupted false next := by
  obtain ⟨mid, come, same, turned, _⟩ := event_turn happened events
  have place := arrived_pc come fresh
  subst place
  obtain ⟨now, rfl⟩ | ⟨now, next, rfl⟩ | ⟨next, rfl⟩ := turnEvents_cases turned
  · exact .inl rfl
  · rw [← same] at watched
    exact absurd (executing_stillAt come now watched) moved
  · exact .inr ⟨next, rfl⟩

theorem stopped_goesOn (now : hart.turn stop = .stop .breakpoint) {later : UInt64}
    (early : (hart.afterTurn stop).clock < later) : (hart.afterTurn stop).turn later = .instruction := by
  have ready := ready_of_turn (.inl now)
  have stopped : hart.afterTurn stop = { hart with waiting := false, resumeFrom := some hart.pc } := by
    simp only [afterTurn, now]
  have again : Ready (hart.afterTurn stop) later := by
    rw [stopped] at early ⊢
    exact ⟨early, ready.quiet, rfl, ready.calm⟩
  have passing : (hart.afterTurn stop).atBreakpoint = false := by
    rw [stopped]
    simp [atBreakpoint]
  rw [again.turn, passing]
  rfl

theorem run_stopping {cycles : UInt64} (happened : Chronicle past hart) (ended : (hart.run cycles).1.2 = .breakpoint) :
    ∃ mid earlier, hart.runEvents cycles = .stopped mid.pc :: earlier ∧ Chronicle (earlier ++ past) mid ∧
      mid.turn (saturatingAdd hart.clock cycles) = .stop .breakpoint ∧
      (hart.run cycles).2 = mid.afterTurn (saturatingAdd hart.clock cycles) :=
  run_stopped happened ended

theorem run_returned {cycles : UInt64} (happened : Chronicle past hart) (ended : (hart.run cycles).1.2 = .breakpoint) :
    (hart.run cycles).2.pc ∈ (hart.run cycles).2.breakpoints ∧
      ∃ earlier, hart.runEvents cycles = .stopped (hart.run cycles).2.pc :: earlier := by
  obtain ⟨mid, earlier, events, come, now, final⟩ := run_stopping happened ended
  have stopped : (hart.run cycles).2 = { mid with waiting := false, resumeFrom := some mid.pc } := by
    refine final.trans ?_
    simp only [afterTurn, now]
  rw [stopped]
  exact ⟨(stopping_moved come now).1, earlier, events⟩

theorem run_wentOn {cycles more : UInt64} (happened : Chronicle past hart) (ended : (hart.run cycles).1.2 = .breakpoint)
    (early : (hart.run cycles).2.clock < saturatingAdd (hart.run cycles).2.clock more) :
    ∃ later next, (hart.run cycles).2.runEvents more = later ++ [.executed (hart.run cycles).2.pc next] := by
  obtain ⟨mid, _, _, _, now, final⟩ := run_stopping happened ended
  have going : (hart.run cycles).2.turn (saturatingAdd (hart.run cycles).2.clock more) = .instruction := by
    rw [final] at early ⊢
    exact stopped_goesOn now early
  exact eventsTo_executes going more.toNat

theorem still_resumes {turns : Nat} (happened : Chronicle past hart) (still : StillAt hart.pc past) {later : List Event}
    {event : Event} (events : hart.eventsTo stop turns = later ++ [event]) :
    ∃ next, event = .executed hart.pc next ∨ event = .interrupted false next := by
  obtain ⟨mid, come, _, turned, _⟩ := event_turn happened events
  have place : mid.pc = hart.pc := Option.some.inj (come.known.2.trans happened.known.2.symm)
  obtain ⟨now, rfl⟩ | ⟨now, next, rfl⟩ | ⟨next, rfl⟩ := turnEvents_cases turned
  · have moved := (stopping_moved come now).2
    rw [place] at moved
    exact absurd still moved
  · exact ⟨next, .inl (by rw [place])⟩
  · exact ⟨next, .inr rfl⟩

theorem run_atOnce {cycles : UInt64} (happened : Chronicle past hart) (ready : Ready hart (saturatingAdd hart.clock cycles))
    (watched : hart.pc ∈ hart.breakpoints) (moved : ¬ StillAt hart.pc past) :
    (hart.run cycles).1 = (0, .breakpoint) ∧ hart.runEvents cycles = [.stopped hart.pc] := by
  have now := ready.turn
  rw [if_pos ((atBreakpoint_iff happened).mpr ⟨watched, moved⟩)] at now
  have stopped := runTo_stops now cycles.toNat
  refine ⟨Prod.ext ?_ (congrArg Prod.fst stopped), (eventsTo_stops now _).trans ?_⟩
  · have same : (hart.run cycles).2 = hart.afterTurn _ := congrArg Prod.snd stopped
    change (hart.run cycles).2.clock - hart.clock = 0
    rw [same]
    simp only [afterTurn, now]
    exact UInt64.sub_self hart.clock
  · simp only [turnEvents, now]

end Keeping

/-- Whatever happens to a hart, its runs stop exactly at breakpoints: a run that returns at one has executed nothing
there since the hart arrived; it executes an instruction at a breakpoint only if it stopped there last and nothing was
executed since; from a stop it goes on with the instruction there, or with an interrupt, and it stops there again on
another arrival. So it does when an interrupt has come first: the instruction is not executed, however often. -/
theorem breakpoints_exact {past : List Event} {hart : Hart} (happened : Chronicle past hart) (cycles : UInt64) :
    KeepsTo past hart cycles := by
  have recorded : Chronicle (hart.runEvents cycles ++ past) (hart.run cycles).2 := eventsTo_recorded _ happened
  refine ⟨recorded, fun ended => ?_, fun {later earlier pc next} events watched => ?_,
    fun ended more early => run_wentOn happened ended early, fun still {later event} events => still_resumes happened still events,
    fun {later earlier event pc} events executed fresh watched => ?_,
    fun {later earlier event pc} events fresh watched moved => arrival_stops happened events fresh watched moved,
    fun ready watched moved => run_atOnce happened ready watched moved⟩
  · obtain ⟨watched, stops⟩ := run_returned happened ended
    exact ⟨watched, stops, freshAt_of_position recorded.known.2.symm⟩
  · obtain ⟨mid, come, same, turned, _⟩ := event_turn happened events
    obtain ⟨now, rfl⟩ := turnEvents_executed turned
    rw [← same] at watched
    exact (executing_stillAt come now watched).stoppedAt
  · obtain ⟨_, _, _, _, onward⟩ := event_turn happened events
    obtain ⟨done, member, executes⟩ := executed
    have moved : ¬ StillAt pc (earlier ++ past) := fun still => still.front onward done member executes
    exact arrival_stops happened events fresh watched moved

def circling : Hart :=
  { memory := { bus := Bus.ofMemory resetVector ⟨⟨#[0x6f, 0, 0, 0]⟩⟩ }, breakpoints := [resetVector] }

theorem circling_happened : Chronicle [.reset] circling :=
  (Chronicle.start (Bus.ofMemory resetVector ⟨⟨#[0x6f, 0, 0, 0]⟩⟩)).move (.setBreakpoints [resetVector])

theorem breakpoints_exact_circling :
    Chronicle [.reset] circling ∧ FreshAt resetVector [.stopped resetVector, .reset] ∧
      (circling.run 5).2.runEvents 5 = [.stopped resetVector, .executed resetVector resetVector] ∧
      StoppedAt resetVector [.stopped resetVector, .reset] := by
  have first : circling.runEvents 5 = [.stopped resetVector] := by decide +kernel
  have reason : (circling.run 5).1.2 = .breakpoint := by decide +kernel
  have place : (circling.run 5).2.pc = resetVector := by decide +kernel
  have second : (circling.run 5).2.runEvents 5 = [.stopped resetVector, .executed resetVector resetVector] := by
    decide +kernel
  have keeps := breakpoints_exact circling_happened 5
  have fresh := (keeps.returned reason).2.2
  have later := breakpoints_exact keeps.recorded 5
  have stopped : StoppedAt resetVector ([] ++ (circling.runEvents 5 ++ [.reset])) :=
    later.passed (second.trans (List.singleton_append).symm) (by decide +kernel)
  rw [first] at fresh stopped
  rw [place] at fresh
  exact ⟨circling_happened, fresh, second, stopped⟩

def called : Hart :=
  let memory : Ram := ⟨⟨#[0x93, 0x80, 0x10, 0, 0x6f, 0, 0, 0, 0x73, 0x70, 0x41, 0x34, 0x73, 0, 0x20, 0x30]⟩⟩
  let moves : List Move := [.setBreakpoints [resetVector], .setCsr 0x305 0x1008, .setCsr 0x304 2, .setCsr 0x300 8]
  moves.foldl Move.apply { memory := { bus := Bus.ofMemory resetVector memory } }

def recalled : Hart :=
  Move.apply (called.run 10).2 (.setCsr 0x344 2)

theorem breakpoint_unpassed :
    called.runEvents 10 = [.stopped resetVector] ∧
      recalled.runEvents 10 =
        [.stopped resetVector, .executed 0x100c resetVector, .executed 0x1008 0x100c, .interrupted false 0x1008] ∧
      (recalled.run 10).1 = (3, .breakpoint) ∧ (recalled.run 10).2.pc = resetVector := by
  decide +kernel

end RvBoard.Hart
