import RvBoard.Proofs.Board.Courses

/-!
# Clocks

Nothing but the hart moves the clock: its turns do, and the single steps of a debugger, each by one cycle. The clock after a
row of moments therefore accounts for every cycle, and a slice of the hart for those that it has spent.
-/

set_option autoImplicit false

namespace RvBoard

theorem Device.reset_clock (device : Device) (wires : Wires) : (device.reset wires).2.clock = wires.clock := by
  cases device <;> rfl

namespace Hart

theorem stepInstruction_clock (hart : Hart) : (hart.stepInstruction false).clock = hart.clock + 1 := by
  change hart.resumed.executeOne.advance.clock = _
  rw [advance_clock, executeOne_clock]
  rfl

theorem clock_counting (time : UInt64) : Debug.Counting fun n (hart : Hart) => hart.clock = time + UInt64.ofNat n where
  edits n := steady_editing (Device.clock_steady (time + UInt64.ofNat n)).bus
  steps n hart before := by
    change (hart.stepInstruction false).clock = _
    rw [stepInstruction_clock, before, UInt64.add_assoc, UInt64.ofNat_add]
    rfl

theorem afterTurn_onward (hart : Hart) (stop : UInt64) : hart.clock ≤ (hart.afterTurn stop).clock := by
  by_cases stops : ∃ why, hart.turn stop = .stop why
  · obtain ⟨why, now⟩ := stops
    have same : (hart.afterTurn stop).clock = hart.clock := by
      simp only [afterTurn, now]
      cases why <;> rfl
    exact UInt64.le_of_eq same.symm
  · exact UInt64.le_of_lt (afterTurn_clock (not_exists.mp stops)).1

theorem run_bounded (hart : Hart) (cycles : UInt64) :
    hart.clock ≤ (hart.run cycles).2.clock ∧ (hart.run cycles).2.clock.toNat ≤ hart.clock.toNat + cycles.toNat := by
  have stop := toNat_saturatingAdd hart.clock cycles
  have last := hart.clock.toNat_lt_size
  have early : hart.clock ≤ saturatingAdd hart.clock cycles := by
    rw [UInt64.le_iff_toNat_le, stop]
    omega
  have enough : (saturatingAdd hart.clock cycles).toNat ≤ hart.clock.toNat + (cycles.toNat + 1) := by omega
  obtain ⟨onward, bounded, _⟩ := (runTo_runs enough).clock early
  rw [UInt64.le_iff_toNat_le, stop] at bounded
  exact ⟨onward, Nat.le_trans bounded (Nat.min_le_left _ _)⟩

theorem run_yield {hart : Hart} {cycles : UInt64} (yields : (hart.run cycles).1.2 = .yield) :
    (hart.run cycles).2.wires.control ≠ none :=
  runTo_yield (saturatingAdd hart.clock cycles) (cycles.toNat + 1) yields

end Hart

namespace Board

theorem stepDevices_clock (board : Board) : board.stepDevices.hart.clock = board.hart.clock :=
  stepDevices_keeps (Device.clock_steady board.hart.clock) (fun _ _ _ same => same) rfl

theorem reset_clock (board : Board) : board.reset.hart.clock = board.hart.clock := by
  change board.reset.hart.memory.bus.wires.clock = _
  rw [Bus.reset_hart]
  refine @Bus.resets_keeps (fun wires => wires.clock = board.hart.clock) ?_ _ _ rfl
  exact fun device wires same => (device.reset_clock wires).trans same

theorem handleRequest_clock (board : Board) : board.handleRequest.hart.clock = board.hart.clock := by
  unfold handleRequest
  cases board.wires.control with
  | none => rfl
  | some request =>
    cases request with
    | reset => exact reset_clock _
    | _ => rfl

theorem reportBreakpoint_clock (board : Board) : board.reportBreakpoint.hart.clock = board.hart.clock := by
  obtain ⟨stub, network, frame⟩ := board.reportBreakpoint_frame
  rw [frame]

namespace Moment

-- The cycles for which the hart runs. Those of single steps are not among them.
def cycles (moment : Moment) : Nat :=
  match moment.deed with
  | .turn _ => moment.after.hart.clock.toNat - moment.before.hart.clock.toNat
  | _ => 0

theorem turn_cycles (board : Board) (stop : UInt64) :
    board.hart.clock.toNat + cycles ⟨board, .turn stop⟩ = (board.hart.afterTurn stop).clock.toNat :=
  Nat.add_sub_of_le (UInt64.le_iff_toNat_le.mp (board.hart.afterTurn_onward stop))

theorem serve_clock (board : Board) :
    (after ⟨board, .serve⟩).hart.clock = board.hart.clock + UInt64.ofNat (steps ⟨board, .serve⟩) := by
  unfold after Deed.apply pollDebugger steps exchanges
  dsimp only
  cases board.stub with
  | none => exact (UInt64.add_zero _).symm
  | some stub =>
    have counted := Debug.Stub.Site.poll_counts (Hart.clock_counting board.hart.clock) ⟨stub, board.network, board.hart⟩
      (UInt64.add_zero _).symm
    rw [Nat.zero_add] at counted
    exact counted

theorem clock (moment : Moment) (inner : moment.deed.isCall = false) :
    moment.after.hart.clock = moment.before.hart.clock + UInt64.ofNat (moment.cycles + moment.steps) := by
  obtain ⟨board, deed⟩ := moment
  have kept {time : UInt64} (same : time = board.hart.clock) : time = board.hart.clock + UInt64.ofNat 0 :=
    same.trans (UInt64.add_zero _).symm
  cases deed with
  | serve =>
    have still : cycles ⟨board, .serve⟩ = 0 := rfl
    rw [still, Nat.zero_add]
    exact serve_clock board
  | turn stop =>
    have still : steps ⟨board, .turn stop⟩ = 0 := rfl
    have last := (board.hart.afterTurn stop).clock.toNat_lt
    apply UInt64.toNat_inj.mp
    rw [still, Nat.add_zero, UInt64.toNat_add, UInt64.toNat_ofNat', Nat.add_mod_mod, turn_cycles]
    exact (Nat.mod_eq_of_lt last).symm
  | devices => exact kept board.stepDevices_clock
  | report => exact kept board.reportBreakpoint_clock
  | act => exact kept board.handleRequest_clock
  | _ => cases inner

-- The hart comes to a breakpoint.
def Breaks (moment : Moment) : Prop :=
  ∃ stop, moment.deed = .turn stop ∧ moment.before.hart.turn stop = .stop .breakpoint

end Moment

-- The cycles for which the hart runs, all in all.
def ran : List Moment → Nat
  | [] => 0
  | moment :: later => moment.cycles + ran later

-- The single steps of debuggers, all in all.
def singles : List Moment → Nat
  | [] => 0
  | moment :: later => moment.steps + singles later

section Sums

variable (moment : Moment) (first second : List Moment)

@[simp] theorem ran_cons : ran (moment :: second) = moment.cycles + ran second := rfl

@[simp] theorem ran_append : ran (first ++ second) = ran first + ran second := by
  induction first with
  | nil => exact (Nat.zero_add _).symm
  | cons moment rest ih => rw [List.cons_append, ran_cons, ran_cons, ih, Nat.add_assoc]

@[simp] theorem singles_cons : singles (moment :: second) = moment.steps + singles second := rfl

@[simp] theorem singles_append : singles (first ++ second) = singles first + singles second := by
  induction first with
  | nil => exact (Nat.zero_add _).symm
  | cons moment rest ih => rw [List.cons_append, singles_cons, singles_cons, ih, Nat.add_assoc]

end Sums

section Linked

variable {start final : Board} {trace : List Moment}

theorem Linked.unique {other : Board} (linked : Linked start trace final) (again : Linked start trace other) :
    final = other := by
  induction trace generalizing start with
  | nil => exact Eq.trans (show final = start from linked) (show other = start from again).symm
  | cons moment rest ih => exact ih linked.2 again.2

theorem Linked.clock (linked : Linked start trace final) (inner : ∀ moment ∈ trace, moment.deed.isCall = false) :
    final.hart.clock = start.hart.clock + UInt64.ofNat (ran trace + singles trace) := by
  induction trace generalizing start with
  | nil =>
    rw [show final = start from linked]
    exact (UInt64.add_zero _).symm
  | cons moment rest ih =>
    obtain ⟨rfl, later⟩ := linked
    have first := moment.clock (inner moment List.mem_cons_self)
    have second := ih later fun other member => inner other (List.mem_cons_of_mem _ member)
    rw [second, first, UInt64.add_assoc, ← UInt64.ofNat_add, ran_cons, singles_cons]
    congr 2
    omega

theorem Linked.time (linked : Linked start trace final) (inner : ∀ moment ∈ trace, moment.deed.isCall = false)
    (fits : start.hart.clock.toNat + ran trace + singles trace < 2 ^ 64) :
    final.hart.clock.toNat = start.hart.clock.toNat + ran trace + singles trace := by
  rw [linked.clock inner, UInt64.toNat_add, UInt64.toNat_ofNat', Nat.add_mod_mod, ← Nat.add_assoc, Nat.mod_eq_of_lt fits]

end Linked

theorem turns_ran (stop : UInt64) (n : Nat) (board : Board) :
    board.hart.clock.toNat + ran (turns stop n board) = (board.hart.runTo stop n).2.clock.toNat := by
  induction n generalizing board with
  | zero => rfl
  | succ n ih =>
    have first := Moment.turn_cycles board stop
    unfold turns
    rw [ran_cons, ← Nat.add_assoc, first]
    by_cases stops : ∃ why, board.hart.turn stop = .stop why
    · obtain ⟨why, now⟩ := stops
      rw [Hart.runTo_stops now, now]
      rfl
    · have goes := not_exists.mp stops
      have rest := ih (Deed.apply board (.turn stop))
      rw [Hart.runTo_goes goes]
      cases now : board.hart.turn stop with
      | stop why => exact absurd now (goes why)
      | _ => exact rest

theorem turns_break (stop : UInt64) (n : Nat) (board : Board) (broken : (board.hart.runTo stop n).1 = .breakpoint) :
    ∃ moment ∈ turns stop n board, moment.Breaks := by
  induction n generalizing board with
  | zero => cases broken
  | succ n ih =>
    unfold turns
    by_cases stops : ∃ why, board.hart.turn stop = .stop why
    · obtain ⟨why, now⟩ := stops
      rw [Hart.runTo_stops now] at broken
      cases broken
      exact ⟨_, List.mem_cons_self, stop, rfl, now⟩
    · have goes := not_exists.mp stops
      rw [Hart.runTo_goes goes] at broken
      obtain ⟨moment, member, breaks⟩ := ih (Deed.apply board (.turn stop)) broken
      refine ⟨moment, List.mem_cons_of_mem _ ?_, breaks⟩
      cases now : board.hart.turn stop with
      | stop why => exact absurd now (goes why)
      | _ => exact member

theorem ending_ran (reason : StopReason) (board : Board) : ran (ending reason board) = 0 := by
  cases reason <;> rfl

theorem sliceCourse_eq (cycles : UInt64) (board : Board) :
    board.sliceCourse cycles =
      turns (saturatingAdd board.hart.clock (min cycles pollInterval)) ((min cycles pollInterval).toNat + 1) board ++
        ending (board.hart.run (min cycles pollInterval)).1.2
          { board with hart := (board.hart.run (min cycles pollInterval)).2 } := rfl

theorem sliceCourse_ran (cycles : UInt64) (board : Board) :
    ran (board.sliceCourse cycles) = (board.hart.run (min cycles pollInterval)).1.1.toNat := by
  have spent := turns_ran (saturatingAdd board.hart.clock (min cycles pollInterval)) ((min cycles pollInterval).toNat + 1) board
  change _ = (board.hart.run (min cycles pollInterval)).2.clock.toNat at spent
  have onward := (board.hart.run_bounded (min cycles pollInterval)).1
  rw [sliceCourse_eq, ran_append, ending_ran, Hart.run_cycles, UInt64.toNat_sub_of_le _ _ onward]
  omega

theorem slice_breaks {cycles : UInt64} {board : Board} (broken : (board.hart.run (min cycles pollInterval)).1.2 = .breakpoint) :
    ∃ moment ∈ board.sliceCourse cycles, moment.Breaks := by
  obtain ⟨moment, member, breaks⟩ := turns_break (saturatingAdd board.hart.clock (min cycles pollInterval))
    ((min cycles pollInterval).toNat + 1) board broken
  exact ⟨moment, List.mem_append_left _ member, breaks⟩

-- How a slice ends: the hart has run for all of it, something is asked of the board, or the hart is at a breakpoint.
inductive Sliced (cycles : UInt64) (board : Board) : Prop
  | whole {next : Board} (slice : board.slice cycles = (some (min cycles pollInterval), next))
      (spent : ran (board.sliceCourse cycles) = (min cycles pollInterval).toNat)
  | asked {spent : UInt64} {next : Board} (slice : board.slice cycles = (some spent, next))
      (short : ran (board.sliceCourse cycles) < (min cycles pollInterval).toNat) (stopped : next.isRunning = false)
  | broken {next : Board} (slice : board.slice cycles = (none, next))
      (short : ran (board.sliceCourse cycles) < (min cycles pollInterval).toNat)
      (breaks : ∃ moment ∈ board.sliceCourse cycles, moment.Breaks)

theorem handleRequest_stopped {board : Board} (asked : board.wires.control ≠ none) : board.handleRequest.isRunning = false := by
  unfold handleRequest
  cases found : board.wires.control with
  | none => exact absurd found asked
  | some request => cases request <;> rfl

theorem slice_eq (cycles : UInt64) (board : Board) :
    board.slice cycles =
      match (board.hart.run (min cycles pollInterval)).1.2 with
      | .budget =>
        (some (board.hart.run (min cycles pollInterval)).1.1,
          { board with hart := (board.hart.run (min cycles pollInterval)).2 }.stepDevices)
      | .breakpoint => (none, { board with hart := (board.hart.run (min cycles pollInterval)).2 }.stepDevices.reportBreakpoint)
      | .yield =>
        (some (board.hart.run (min cycles pollInterval)).1.1,
          { board with hart := (board.hart.run (min cycles pollInterval)).2 }.stepDevices.handleRequest) := rfl

theorem slice_cases {cycles : UInt64} {board : Board}
    (fits : board.hart.clock.toNat + (min cycles pollInterval).toNat < 2 ^ 64) : board.Sliced cycles := by
  have slice := board.slice_eq cycles
  have same := board.sliceCourse_ran cycles
  have accounted := Hart.run_accounted fits
  have short (other : (board.hart.run (min cycles pollInterval)).1.2 ≠ .budget) :
      ran (board.sliceCourse cycles) < (min cycles pollInterval).toNat := by
    rw [same]
    exact UInt64.lt_iff_toNat_lt.mp (UInt64.lt_of_le_of_ne accounted.within (mt accounted.budget.mpr other))
  cases reason : (board.hart.run (min cycles pollInterval)).1.2 with
  | budget =>
    rw [reason, accounted.budget.mp reason] at slice
    rw [accounted.budget.mp reason] at same
    exact .whole slice same
  | breakpoint =>
    rw [reason] at slice
    exact .broken slice (short (by rw [reason]; nofun)) (slice_breaks reason)
  | yield =>
    rw [reason] at slice
    have stands := stepDevices_asked { board with hart := (board.hart.run (min cycles pollInterval)).2 }
    exact .asked slice (short (by rw [reason]; nofun)) (handleRequest_stopped (stands.stands (Hart.run_yield reason)))

end Board

end RvBoard
