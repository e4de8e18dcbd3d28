import RvBoard.Proofs.Board.Clocks
import RvBoard.Proofs.Board.Lifecycle

/-!
# Timekeeping

A step of the board is a loop: in each round a debugger is served, the hart runs for a slice, and the devices make their step.
Seen round by round the loop ends, spends no cycle that it was not given and keeps the devices no more than a slice behind.
A step can be cut in two where a slice ends.
-/

set_option autoImplicit false

namespace RvBoard.Board

/-- A round of the loop: the cycles that it has spent, unless the loop ends with it. -/
def round (cycles : UInt64) (board : Board) : Except Board (UInt64 × Board) :=
  if cycles = 0 || !board.isRunning then .error board
  else
    match board.pollDebugger with
    | (true, board) => .error board
    | (false, board) =>
      match board.slice cycles with
      | (none, board) => .error board
      | (some spent, board) => .ok (spent, board)

def roundCourse (cycles : UInt64) (board : Board) : List Moment :=
  if cycles = 0 || !board.isRunning then []
  else
    ⟨board, .serve⟩ ::
      match board.pollDebugger with
      | (true, _) => []
      | (false, board) => board.sliceCourse cycles

def remaining (cycles spent : UInt64) : UInt64 :=
  if spent ≤ cycles then cycles - spent else 0

theorem remaining_min (cycles : UInt64) :
    (min cycles pollInterval).toNat + (remaining cycles (min cycles pollInterval)).toNat = cycles.toNat := by
  have within : min cycles pollInterval ≤ cycles := by
    rw [UInt64.le_iff_toNat_le, Hart.toNat_min]
    exact Nat.min_le_left _ _
  unfold remaining
  rw [if_pos within, UInt64.toNat_sub_of_le _ _ within]
  exact Nat.add_sub_of_le (UInt64.le_iff_toNat_le.mp within)

def leaves : Except Board (UInt64 × Board) → Board
  | .error final => final
  | .ok (_, next) => next

section Rounds

variable (n : Nat) (cycles : UInt64) (board : Board)

theorem runFor_round :
    runFor (n + 1) cycles board =
      match board.round cycles with
      | .error final => final
      | .ok (spent, next) => runFor n (remaining cycles spent) next := by
  rw [runFor, round]
  by_cases idle : (cycles = 0 || !board.isRunning) = true
  · rw [if_pos idle, if_pos idle]
  · rw [if_neg idle, if_neg idle]
    generalize board.pollDebugger = polled
    obtain ⟨halted, served⟩ := polled
    cases halted with
    | true => rfl
    | false =>
      dsimp only
      generalize served.slice cycles = sliced
      obtain ⟨spent, next⟩ := sliced
      cases spent <;> rfl

theorem runCourse_round :
    runCourse (n + 1) cycles board =
      board.roundCourse cycles ++
        match board.round cycles with
        | .error _ => []
        | .ok (spent, next) => runCourse n (remaining cycles spent) next := by
  rw [runCourse, roundCourse, round]
  by_cases idle : (cycles = 0 || !board.isRunning) = true
  · rw [if_pos idle, if_pos idle, if_pos idle]
    rfl
  · rw [if_neg idle, if_neg idle, if_neg idle]
    generalize board.pollDebugger = polled
    obtain ⟨halted, served⟩ := polled
    cases halted with
    | true => rfl
    | false =>
      dsimp only
      generalize served.slice cycles = sliced
      obtain ⟨spent, next⟩ := sliced
      cases spent <;> rfl

theorem round_linked : Linked board (board.roundCourse cycles) (leaves (board.round cycles)) := by
  unfold roundCourse round
  by_cases idle : (cycles = 0 || !board.isRunning) = true
  · rw [if_pos idle, if_pos idle]
    rfl
  · rw [if_neg idle, if_neg idle]
    refine ⟨rfl, ?_⟩
    change Linked board.pollDebugger.2 _ _
    generalize board.pollDebugger = polled
    obtain ⟨halted, served⟩ := polled
    cases halted with
    | true => rfl
    | false =>
      have linked := sliceCourse_linked cycles served
      dsimp only
      generalize served.slice cycles = sliced at linked
      obtain ⟨spent, next⟩ := sliced
      cases spent <;> exact linked

theorem round_inner : ∀ moment ∈ board.roundCourse cycles, moment.deed.isCall = false := by
  have timely := runCourse_timely 1 cycles board
  rw [runCourse_round] at timely
  exact fun moment member => (timely moment (List.mem_append_left _ member)).inner

end Rounds

-- Why a step ends before its cycles are spent: the board does not run any more, a debugger holds the hart, or the hart has
-- come to a breakpoint.
def CutShort (moments : List Moment) (final : Board) : Prop :=
  final.isRunning = false ∨ final.isHeld = true ∨ ∃ moment ∈ moments, moment.Breaks

theorem idle_of_stopped {cycles : UInt64} {board : Board} (stopped : board.isRunning = false) :
    (cycles = 0 || !board.isRunning) = true := by
  simp [stopped]

theorem round_stopped (cycles : UInt64) {board : Board} (stopped : board.isRunning = false) :
    board.round cycles = .error board ∧ board.roundCourse cycles = [] :=
  ⟨if_pos (idle_of_stopped stopped), if_pos (idle_of_stopped stopped)⟩

theorem runFor_stopped (n : Nat) (cycles : UInt64) {board : Board} (stopped : board.isRunning = false) :
    runFor n cycles board = board ∧ runCourse n cycles board = [] := by
  cases n with
  | zero => exact ⟨rfl, rfl⟩
  | succ n =>
    obtain ⟨round, course⟩ := round_stopped cycles stopped
    rw [runFor_round, runCourse_round, round, course]
    exact ⟨rfl, rfl⟩

theorem min_positive {cycles : UInt64} (timed : cycles ≠ 0) : 0 < (min cycles pollInterval).toNat := by
  have whole : pollInterval.toNat = 128 := rfl
  have positive : cycles.toNat ≠ 0 := fun zero => timed (UInt64.toNat_inj.mp zero)
  rw [Hart.toNat_min]
  omega

structure Ended (cycles : UInt64) (board final : Board) : Prop where
  last : board.round cycles = .error final ∨ ∃ spent, board.round cycles = .ok (spent, final) ∧ final.isRunning = false
  cut : cycles = 0 ∨
    ran (board.roundCourse cycles) < (min cycles pollInterval).toNat ∧ CutShort (board.roundCourse cycles) final

structure Went (cycles : UInt64) (board next : Board) : Prop where
  timed : cycles ≠ 0
  round : board.round cycles = .ok (min cycles pollInterval, next)
  whole : ran (board.roundCourse cycles) = (min cycles pollInterval).toNat

theorem Sliced.rounded {cycles : UInt64} {board served : Board} (sliced : served.Sliced cycles) (timed : cycles ≠ 0)
    (course : board.roundCourse cycles = ⟨board, .serve⟩ :: served.sliceCourse cycles)
    (round : board.round cycles =
      match served.slice cycles with
      | (none, next) => .error next
      | (some spent, next) => .ok (spent, next)) :
    (∃ final, Ended cycles board final) ∨ ∃ next, Went cycles board next := by
  have same : ran (board.roundCourse cycles) = ran (served.sliceCourse cycles) := by
    rw [course, ran_cons]
    exact Nat.zero_add _
  cases sliced with
  | whole slice spent =>
    rw [slice] at round
    exact .inr ⟨_, timed, round, same.trans spent⟩
  | asked slice short stopped =>
    rw [slice] at round
    rw [← same] at short
    exact .inl ⟨_, .inr ⟨_, round, stopped⟩, .inr ⟨short, .inl stopped⟩⟩
  | broken slice short breaks =>
    rw [slice] at round
    rw [← same] at short
    obtain ⟨moment, member, breaks⟩ := breaks
    refine .inl ⟨_, .inl round, .inr ⟨short, .inr (.inr ⟨moment, ?_, breaks⟩)⟩⟩
    rw [course]
    exact List.mem_cons_of_mem _ member

theorem round_cases {cycles : UInt64} {board : Board}
    (fits : board.hart.clock.toNat + cycles.toNat + singles (board.roundCourse cycles) < 2 ^ 64) :
    (∃ final, Ended cycles board final) ∨ ∃ next, Went cycles board next := by
  by_cases timeless : cycles = 0
  · exact .inl ⟨board, .inl (if_pos (by simp [timeless])), .inl timeless⟩
  have positive := min_positive timeless
  cases running : board.isRunning with
  | false =>
    obtain ⟨round, course⟩ := round_stopped cycles running
    refine .inl ⟨board, .inl round, .inr ⟨?_, .inl running⟩⟩
    rw [course]
    exact positive
  | true =>
    have busy : ¬ (cycles = 0 || !board.isRunning) = true := by simp [timeless, running]
    have clock : board.pollDebugger.2.hart.clock = _ := Moment.serve_clock board
    have held := board.pollDebugger_held
    have course : board.roundCourse cycles = ⟨board, .serve⟩ :: _ := if_neg busy
    have round : board.round cycles = _ := if_neg busy
    generalize board.pollDebugger = polled at clock held course round
    obtain ⟨halted, served⟩ := polled
    cases halted with
    | true =>
      refine .inl ⟨served, .inl round, .inr ⟨?_, .inr (.inl held)⟩⟩
      rw [course]
      exact positive
    | false =>
      have least := Hart.toNat_min cycles pollInterval
      have early : served.hart.clock.toNat ≤ board.hart.clock.toNat + Moment.steps ⟨board, .serve⟩ := by
        rw [clock, UInt64.toNat_add, UInt64.toNat_ofNat', Nat.add_mod_mod]
        exact Nat.mod_le _ _
      rw [course, singles_cons] at fits
      exact (@slice_cases cycles served (by omega)).rounded timeless course round

theorem Ended.runs {cycles : UInt64} {board final : Board} (ended : Ended cycles board final) (n : Nat) :
    runCourse (n + 1) cycles board = board.roundCourse cycles ∧ runFor (n + 1) cycles board = final := by
  rw [runCourse_round, runFor_round]
  rcases ended.last with last | ⟨spent, asked, stopped⟩
  · rw [last, List.append_nil]
    exact ⟨rfl, rfl⟩
  · obtain ⟨same, none⟩ := runFor_stopped n (remaining cycles spent) stopped
    rw [asked]
    dsimp only
    rw [none, same, List.append_nil]
    exact ⟨rfl, rfl⟩

inductive Rounds : UInt64 → Board → List Moment → Board → Prop
  | ended {cycles : UInt64} {board final : Board} (ended : Ended cycles board final) :
      Rounds cycles board (board.roundCourse cycles) final
  | went {cycles : UInt64} {board next final : Board} {later : List Moment} (went : Went cycles board next)
      (rest : Rounds (remaining cycles (min cycles pollInterval)) next later final) :
      Rounds cycles board (board.roundCourse cycles ++ later) final

theorem runCourse_rounds {n : Nat} {cycles : UInt64} {board : Board} (enough : cycles.toNat < n)
    (fits : board.hart.clock.toNat + cycles.toNat + singles (runCourse n cycles board) < 2 ^ 64) :
    Rounds cycles board (runCourse n cycles board) (runFor n cycles board) := by
  induction n generalizing cycles board with
  | zero => exact absurd enough (Nat.not_lt_zero _)
  | succ n ih =>
    have course := board.runCourse_round n cycles
    have linked := board.round_linked cycles
    rw [course, singles_append] at fits
    rcases @round_cases cycles board (by omega) with ⟨final, ended⟩ | ⟨next, went⟩
    · rw [(ended.runs n).1, (ended.runs n).2]
      exact .ended ended
    · have left := remaining_min cycles
      have positive := min_positive went.timed
      have whole := went.whole
      rw [went.round] at linked fits
      dsimp only at fits
      have time : next.hart.clock.toNat = _ := linked.time (board.round_inner cycles) (by omega)
      rw [course, runFor_round, went.round]
      exact .went went (ih (by omega) (by omega))

section Rounds

variable {cycles : UInt64} {board final : Board} {trace : List Moment} (rounds : Rounds cycles board trace final)

include rounds

theorem Rounds.enough {n : Nat} (enough : cycles.toNat < n) :
    runCourse n cycles board = trace ∧ runFor n cycles board = final := by
  induction rounds generalizing n with
  | ended ended =>
    obtain ⟨n, rfl⟩ := Nat.exists_eq_add_one_of_ne_zero (Nat.ne_zero_of_lt enough)
    exact ended.runs n
  | @went cycles board next final later went rest ih =>
    obtain ⟨n, rfl⟩ := Nat.exists_eq_add_one_of_ne_zero (Nat.ne_zero_of_lt enough)
    have left := remaining_min cycles
    have positive := min_positive went.timed
    obtain ⟨course, runs⟩ := @ih n (by omega)
    rw [runCourse_round, runFor_round, went.round]
    exact ⟨congrArg _ course, runs⟩

theorem Rounds.spent : ran trace ≤ cycles.toNat ∧ (ran trace = cycles.toNat ∨ CutShort trace final) := by
  induction rounds with
  | @ended cycles board final ended =>
    have least := Hart.toNat_min cycles pollInterval
    rcases ended.cut with rfl | ⟨short, cut⟩
    · exact ⟨Nat.le_refl 0, .inl rfl⟩
    · exact ⟨by omega, .inr cut⟩
  | @went cycles board next final later went rest ih =>
    have left := remaining_min cycles
    have whole := went.whole
    rw [ran_append]
    refine ⟨by omega, ih.2.imp (fun all => by omega) ?_⟩
    rintro (stopped | held | ⟨moment, member, breaks⟩)
    · exact .inl stopped
    · exact .inr (.inl held)
    · exact .inr (.inr ⟨moment, List.mem_append_right _ member, breaks⟩)

end Rounds

def Moment.Ends (moment : Moment) : Prop :=
  moment.deed = .devices →
    (moment.before.devices.toList.foldlM (fun bus id => Bus.stepDevice? id bus) moment.before.bus).isSome = true

inductive Loops : UInt64 → Board → List Moment → Board → Prop
  | ended {cycles : UInt64} {board final : Board} (round : board.round cycles = .error final)
      (ends : ∀ moment ∈ board.roundCourse cycles, moment.Ends) : Loops cycles board (board.roundCourse cycles) final
  | went {cycles spent : UInt64} {board next final : Board} {later : List Moment}
      (round : board.round cycles = .ok (spent, next)) (ends : ∀ moment ∈ board.roundCourse cycles, moment.Ends)
      (rest : Loops (remaining cycles spent) next later final) : Loops cycles board (board.roundCourse cycles ++ later) final

theorem Loops.ends {cycles : UInt64} {board final : Board} {trace : List Moment} (loops : Loops cycles board trace final) :
    ∀ moment ∈ trace, moment.Ends := by
  induction loops with
  | ended round ends => exact ends
  | went round ends rest ih => exact List.forall_mem_append.mpr ⟨ends, ih⟩

section Stopped

variable {cycles : UInt64} {board final : Board} {trace : List Moment} (idle : board.isRunning = false)

include idle

theorem Loops.of_stopped : Loops cycles board [] board := by
  obtain ⟨round, course⟩ := round_stopped cycles idle
  have loops := Loops.ended round (course ▸ List.forall_mem_nil _)
  rw [course] at loops
  exact loops

theorem Loops.stopped (loops : Loops cycles board trace final) : trace = [] ∧ final = board := by
  obtain ⟨last, course⟩ := round_stopped cycles idle
  cases loops with
  | ended round =>
    cases last.symm.trans round
    exact ⟨course, rfl⟩
  | went round => cases last.symm.trans round

end Stopped

section Loops

variable {cycles : UInt64} {board final : Board} {trace : List Moment} (rounds : Rounds cycles board trace final)

include rounds

theorem Rounds.loops (ends : ∀ moment ∈ trace, moment.Ends) : Loops cycles board trace final := by
  induction rounds with
  | ended ended =>
    rcases ended.last with last | ⟨spent, asked, stopped⟩
    · exact .ended last ends
    · have all := Loops.went asked ends (Loops.of_stopped stopped)
      rw [List.append_nil] at all
      exact all
  | went went rest ih =>
    obtain ⟨first, later⟩ := List.forall_mem_append.mp ends
    exact .went went.round first (ih later)

theorem Rounds.alone {other : Board} {moments : List Moment} (loops : Loops cycles board moments other) :
    moments = trace ∧ other = final := by
  induction rounds generalizing moments other with
  | ended ended =>
    rcases ended.last with last | ⟨spent, asked, stopped⟩
    · cases loops with
      | ended round =>
        cases last.symm.trans round
        exact ⟨rfl, rfl⟩
      | went round => cases last.symm.trans round
    · cases loops with
      | ended round => cases asked.symm.trans round
      | went round ends rest =>
        cases asked.symm.trans round
        obtain ⟨rfl, rfl⟩ := rest.stopped stopped
        exact ⟨List.append_nil _, rfl⟩
  | went went rest ih =>
    cases loops with
    | ended round => cases went.round.symm.trans round
    | went round ends later =>
      cases went.round.symm.trans round
      obtain ⟨rfl, rfl⟩ := ih later
      exact ⟨rfl, rfl⟩

end Loops

section Slicing

variable {m cycles : UInt64} {board : Board} (timed : m ≠ 0) (longer : cycles ≠ 0)
  (same : min m pollInterval = min cycles pollInterval)

include timed longer same

theorem round_same (board : Board) : board.round m = board.round cycles ∧ board.roundCourse m = board.roundCourse cycles := by
  unfold round roundCourse slice sliceCourse
  simp only [timed, longer, same]
  exact ⟨trivial, trivial⟩

theorem Ended.alike {final : Board} (ended : Ended cycles board final) : Ended m board final := by
  obtain ⟨rounds, course⟩ := round_same timed longer same board
  refine ⟨?_, ?_⟩
  · rw [rounds]
    exact ended.last
  · rw [course, same]
    exact .inr (ended.cut.resolve_left longer)

theorem Went.alike {next : Board} (went : Went cycles board next) : Went m board next := by
  obtain ⟨rounds, course⟩ := round_same timed longer same board
  refine ⟨timed, ?_, ?_⟩
  · rw [rounds, same]
    exact went.round
  · rw [course, same]
    exact went.whole

end Slicing

theorem Rounds.sliced (slices : Nat) {n : Nat} {cycles m rest : UInt64} {board final : Board} {trace : List Moment}
    (rounds : Rounds cycles board trace final) (multiple : m.toNat = 128 * slices)
    (sum : m.toNat + rest.toNat = cycles.toNat) (enough : m.toNat < n) (spent : ran (runCourse n m board) = m.toNat) :
    trace = runCourse n m board ++ (runFor n m board).course rest := by
  have whole : pollInterval.toNat = 128 := rfl
  induction slices generalizing n cycles m board trace with
  | zero =>
    obtain ⟨n, rfl⟩ := Nat.exists_eq_add_one_of_ne_zero (Nat.ne_zero_of_lt enough)
    have none : m = 0 := UInt64.toNat_inj.mp multiple
    have all : rest = cycles := UInt64.toNat_inj.mp (by rw [← sum, multiple]; omega)
    subst none all
    exact (rounds.enough (Nat.lt_succ_self _)).1.symm
  | succ slices ih =>
    obtain ⟨n, rfl⟩ := Nat.exists_eq_add_one_of_ne_zero (Nat.ne_zero_of_lt enough)
    have timed : m ≠ 0 := fun none => by simp [none] at multiple
    have longer : cycles ≠ 0 := fun none => by simp [none] at sum; omega
    have least := Hart.toNat_min m pollInterval
    have same : min m pollInterval = min cycles pollInterval := by
      apply UInt64.toNat_inj.mp
      rw [least, Hart.toNat_min]
      omega
    cases rounds with
    | ended ended =>
      have alike := ended.alike timed longer same
      rw [(alike.runs n).1] at spent
      rcases alike.cut with none | ⟨short, cut⟩
      · exact absurd none timed
      · omega
    | went went later =>
      have alike := went.alike timed longer same
      have slice := alike.whole
      have left := remaining_min m
      have behind := remaining_min cycles
      rw [← same] at behind later
      rw [runCourse_round, alike.round, ran_append, slice] at spent
      rw [runCourse_round, runFor_round, alike.round, List.append_assoc, (round_same timed longer same board).2]
      dsimp only at spent ⊢
      exact congrArg _ (ih later (by omega) (by omega) (by omega) (by omega))

section Polling

def Followed (moment : Moment) (later : List Moment) : Prop :=
  moment.cycles ≠ 0 → ∃ between poll rest, later = between ++ poll :: rest ∧ poll.deed = .devices ∧
    moment.cycles + ran between ≤ 128

theorem Followed.grows (moment : Moment) (later more : List Moment) (followed : Followed moment later) :
    Followed moment (later ++ more) := by
  intro runs
  obtain ⟨between, poll, rest, rfl, polls, near⟩ := followed runs
  exact ⟨between, poll, rest ++ more, by rw [List.append_assoc, List.cons_append], polls, near⟩

theorem Followed.of_still {moment : Moment} (still : moment.cycles = 0) (later : List Moment) : Followed moment later :=
  fun runs => absurd still runs

theorem ending_followed (reason : StopReason) (board : Board) : Throughout Followed (ending reason board) := by
  refine ⟨.of_still rfl _, ?_⟩
  cases reason with
  | budget => trivial
  | breakpoint => exact ⟨.of_still rfl _, trivial⟩
  | yield => exact ⟨.of_still rfl _, trivial⟩

theorem turns_followed (stop : UInt64) (n : Nat) {board : Board} {poll : Moment} {rest : List Moment}
    (polls : poll.deed = .devices) (later : Throughout Followed (poll :: rest))
    (near : (board.hart.runTo stop n).2.clock.toNat ≤ board.hart.clock.toNat + 128) :
    Throughout Followed (turns stop n board ++ poll :: rest) := by
  induction n generalizing board with
  | zero => exact later
  | succ n ih =>
    have all := turns_ran stop (n + 1) board
    have onward := UInt64.le_iff_toNat_le.mp (board.hart.afterTurn_onward stop)
    unfold turns at all ⊢
    rw [ran_cons] at all
    refine ⟨fun _ => ⟨_, poll, rest, rfl, polls, by omega⟩, ?_⟩
    by_cases stops : ∃ why, board.hart.turn stop = .stop why
    · obtain ⟨why, now⟩ := stops
      rw [now]
      exact later
    · have goes := not_exists.mp stops
      rw [Hart.runTo_goes goes] at near
      have next := @ih (Deed.apply board (.turn stop)) (Nat.le_trans near (Nat.add_le_add_right onward _))
      cases now : board.hart.turn stop with
      | stop why => exact absurd now (goes why)
      | _ => exact next

theorem slice_followed (cycles : UInt64) (board : Board) : Throughout Followed (board.sliceCourse cycles) := by
  have whole : pollInterval.toNat = 128 := rfl
  have bounded := (board.hart.run_bounded (min cycles pollInterval)).2
  have near : (board.hart.run (min cycles pollInterval)).2.clock.toNat ≤ board.hart.clock.toNat + 128 := by
    rw [Hart.toNat_min] at bounded
    omega
  exact turns_followed _ _ rfl (ending_followed _ _) near

theorem round_followed (cycles : UInt64) (board : Board) : Throughout Followed (board.roundCourse cycles) := by
  unfold roundCourse
  by_cases idle : (cycles = 0 || !board.isRunning) = true
  · rw [if_pos idle]
    trivial
  · rw [if_neg idle]
    refine ⟨.of_still rfl _, ?_⟩
    generalize board.pollDebugger = polled
    obtain ⟨halted, served⟩ := polled
    cases halted with
    | true => trivial
    | false => exact slice_followed cycles served

theorem runCourse_followed (n : Nat) (cycles : UInt64) (board : Board) : Throughout Followed (runCourse n cycles board) := by
  induction n generalizing cycles board with
  | zero => trivial
  | succ n ih =>
    rw [runCourse_round]
    refine (round_followed cycles board).append Followed.grows ?_
    cases board.round cycles with
    | error final => trivial
    | ok went => exact ih _ _

theorem ran_apart {between later : List Moment} (followed : Throughout Followed (between ++ later))
    (apart : ∀ moment ∈ between, moment.deed ≠ .devices) : ran between ≤ 128 ∧ (later = [] → ran between = 0) := by
  induction between with
  | nil => exact ⟨Nat.zero_le _, fun _ => rfl⟩
  | cons moment rest ih =>
    obtain ⟨next, followed⟩ := followed
    have others := ih followed fun other member => apart other (List.mem_cons_of_mem _ member)
    rw [ran_cons]
    by_cases still : moment.cycles = 0
    · rw [still, Nat.zero_add]
      exact others
    · obtain ⟨more, poll, behind, same, polls, near⟩ := next still
      rcases List.append_eq_append_iff.mp same with ⟨gap, rfl, rfl⟩ | ⟨gap, rfl, behind⟩
      · rw [ran_append] at near
        exact ⟨by omega, fun none => absurd none (by simp)⟩
      · cases gap with
        | nil =>
          rw [List.append_nil]
          exact ⟨near, fun none => absurd (behind.trans none) (by simp)⟩
        | cons first gap =>
          cases behind
          exact absurd polls (apart _ (by simp))

end Polling

structure Timekeeping (board : Board) (cycles : UInt64) : Prop where
  -- The loop comes to its end exactly if every step of a device does, and then the step is what it has done.
  ends : ∀ trace final, Loops cycles board trace final ↔
    trace = board.course cycles ∧ final = board.step cycles ∧ ∀ moment ∈ trace, moment.Ends
  -- The clock moves by the cycles for which the hart runs, and by the single steps for which a debugger asks.
  clock : (board.step cycles).hart.clock.toNat =
    board.hart.clock.toNat + ran (board.course cycles) + singles (board.course cycles)
  -- The hart runs for no more cycles than it is given.
  within : ran (board.course cycles) ≤ cycles.toNat
  -- It runs for all of them unless the board stops running, a debugger holds the hart or the hart comes to a breakpoint.
  spent : ran (board.course cycles) = cycles.toNat ∨ CutShort (board.course cycles) (board.step cycles)
  -- Without a step of the devices it runs for a slice at most, and not at all after the last one.
  polled : ∀ earlier between later, board.course cycles = earlier ++ (between ++ later) →
    (∀ moment ∈ between, moment.deed ≠ .devices) → ran between ≤ 128 ∧ (later = [] → ran between = 0)
  -- A step of whole slices that runs for all of its cycles is the beginning of a longer step.
  sliced : ∀ m n : UInt64, m.toNat + n.toNat = cycles.toNat → 128 ∣ m.toNat → ran (board.course m) = m.toNat →
    board.course cycles = board.course m ++ (board.step m).course n ∧ board.step cycles = (board.step m).step n

/-- Whatever the guest, the devices and a debugger do, a step keeps to its time as long as the clock does not come to its
end. -/
theorem keeps_time {board : Board} {cycles : UInt64}
    (fits : board.hart.clock.toNat + cycles.toNat + singles (board.course cycles) < 2 ^ 64) : Timekeeping board cycles := by
  have rounds : Rounds cycles board (board.course cycles) (board.step cycles) :=
    runCourse_rounds (Nat.lt_succ_self _) fits
  have linked := course_linked cycles board
  have within := rounds.spent.1
  refine ⟨?_, linked.time (fun moment member => ?_) (by omega), within, rounds.spent.2, ?_, ?_⟩
  · intro trace final
    constructor
    · intro loops
      obtain ⟨same, last⟩ := rounds.alone loops
      exact ⟨same, last, loops.ends⟩
    · rintro ⟨rfl, rfl, ends⟩
      exact rounds.loops ends
  · exact (runCourse_timely _ cycles board moment member).inner
  · intro earlier between later same apart
    have followed := runCourse_followed (cycles.toNat + 1) cycles board
    change Throughout Followed (board.course cycles) at followed
    rw [same] at followed
    exact ran_apart followed.after apart
  · intro m n sum whole spent
    obtain ⟨slices, multiple⟩ := whole
    have course : board.course cycles = board.course m ++ (board.step m).course n :=
      rounds.sliced slices multiple sum (Nat.lt_succ_self _) spent
    refine ⟨course, ?_⟩
    rw [course] at linked
    exact linked.unique ((course_linked m board).append (course_linked n (board.step m)))

def askStepAndGo : Deed :=
  .host fun board => { board with network := board.network.send (Debug.ascii "$s#73$c#63") }

def resumedBoard : Board :=
  askStepAndGo.apply (((booting [0x13, 0x10500073] ++ [attach]).foldl Deed.apply idleBoard).step 1)

theorem resumed_lived : ∃ trace, Lived trace resumedBoard := by
  obtain ⟨trace, lived⟩ := (Lived.new new_idle).calls (booting [0x13, 0x10500073] ++ [attach])
    (by simp [booting, attach, Deed.isCall])
  exact ⟨_, (lived.stepped 1).called askStepAndGo rfl⟩

theorem keeps_time_resumed :
    Timekeeping resumedBoard 300 ∧ singles (resumedBoard.course 300) = 1 ∧ ran (resumedBoard.course 256) = 256 ∧
      (resumedBoard.step 300).hart.clock = 301 :=
  ⟨keeps_time (by decide +kernel), by decide +kernel⟩

theorem single_step_takes_time :
    (∃ trace, Lived trace resumedBoard) ∧ resumedBoard.hart.clock = 0 ∧ (resumedBoard.step 1).hart.clock = 2 ∧
      (resumedBoard.step 1).isRunning = true ∧ (resumedBoard.step 1).isHeld = false ∧
      (resumedBoard.step 1).hart.breakpoints = [] :=
  ⟨resumed_lived, by decide +kernel⟩

end RvBoard.Board
