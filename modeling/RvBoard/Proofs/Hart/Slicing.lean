import RvBoard.Proofs.Hart.Steady

/-!
# Slices of a run

No access to a device moves the clock, so every turn of a run that does not end it moves the clock
by one cycle, or to where a waiting hart wakes. A run therefore accounts for its cycles exactly, and
it can be cut into slices anywhere: where a cut falls into a wait, the wait goes on in the next slice.
-/

set_option autoImplicit false

namespace RvBoard

theorem Clint.store_clock (wires : Wires) (offset : UInt64) (size : Nat) (value : UInt64) :
    (Clint.store wires offset size value).2.clock = wires.clock := by
  unfold store
  split
  · rfl
  split
  · rfl
  · rename_i register _
    cases register with
    | mtimecmp =>
      change (if size = 3 then _ else _ : Wires).clock = _
      split <;> rfl
    | _ => rfl

theorem SystemController.store_clock (controller : SystemController) (wires : Wires) (offset : UInt64) (size : Nat)
    (value : UInt64) : (controller.store wires offset size value).2.2.clock = wires.clock := by
  unfold store
  split
  · rfl
  split <;> rfl

theorem Device.clock_steady (time : UInt64) : Steady (fun wires => wires.clock = time) := by
  refine ⟨?_, ?_⟩
  · intro device wires offset size start
    cases device <;> exact start
  · intro device wires offset size value start
    cases device with
    | controller state => exact (state.store_clock wires offset size value).trans start
    | clint => exact (Clint.store_clock wires offset size value).trans start
    | _ => exact start

namespace Hart

@[simp] theorem setClock_clock (hart : Hart) (time : UInt64) : (hart.setClock time).clock = time := rfl

@[simp] theorem setClock_setClock (hart : Hart) (first second : UInt64) :
    (hart.setClock first).setClock second = hart.setClock second := rfl

theorem advance_clock (hart : Hart) : hart.advance.clock = hart.clock + 1 := rfl

theorem trap_clock (hart : Hart) (trap : Trap) : (hart.trap trap).clock = hart.clock :=
  congrArg (fun bus : Bus => bus.wires.clock) (trap_bus hart trap)

theorem executeOne_clock (hart : Hart) : hart.executeOne.clock = hart.clock :=
  executeOne_steady (Device.clock_steady hart.clock).bus rfl

-- A run from one hart to another; it ends with the turn that stops it.
inductive Runs (stop : UInt64) : Hart → StopReason → Hart → Prop
  | ended {hart : Hart} {reason : StopReason} (now : hart.turn stop = .stop reason) :
      Runs stop hart reason (hart.afterTurn stop)
  | went {hart last : Hart} {reason : StopReason} (goes : ∀ why, hart.turn stop ≠ .stop why)
      (rest : Runs stop (hart.afterTurn stop) reason last) : Runs stop hart reason last

inductive Turns (hart : Hart) (stop : UInt64) : Turn → Prop
  | late (late : stop ≤ hart.clock) : Turns hart stop (.stop .budget)
  | asked (early : hart.clock < stop) (asked : hart.wires.control ≠ none) : Turns hart stop (.stop .yield)
  | asleep (early : hart.clock < stop) (quiet : hart.wires.control = none) (asleep : hart.awake = false) :
      Turns hart stop .wait
  | active {turn : Turn} (early : hart.clock < stop) (quiet : hart.wires.control = none) (awake : hart.awake = true)
      (stays : turn ≠ .wait ∧ turn ≠ .stop .budget ∧ turn ≠ .stop .yield) : Turns hart stop turn

theorem turn_cases (hart : Hart) (stop : UInt64) : Turns hart stop (hart.turn stop) := by
  unfold turn
  split
  · exact .late ‹_›
  rename_i early
  rw [UInt64.not_le] at early
  split
  · exact .asked early (Option.isSome_iff_ne_none.mp ‹_›)
  rename_i quiet
  rw [Option.not_isSome_iff_eq_none] at quiet
  split
  · exact .asleep early quiet (by simpa using ‹(!hart.awake) = true›)
  have awake : hart.awake = true := by simpa using ‹¬ (!hart.awake) = true›
  split
  · exact .active early quiet awake (by simp)
  split <;> exact .active early quiet awake (by simp)

theorem turn_over {hart : Hart} {stop : UInt64} (late : stop ≤ hart.clock) : hart.turn stop = .stop .budget :=
  if_pos late

theorem turn_early {hart : Hart} {mid stop : UInt64} (early : hart.clock < mid) (later : hart.clock < stop) :
    hart.turn stop = hart.turn mid := by
  unfold turn
  rw [if_neg (UInt64.not_le.mpr early), if_neg (UInt64.not_le.mpr later)]

theorem early_of_goes {hart : Hart} {stop : UInt64} (goes : ∀ why, hart.turn stop ≠ .stop why) : hart.clock < stop := by
  rw [← UInt64.not_le]
  intro late
  exact goes .budget (turn_over late)

theorem turn_budget {hart : Hart} {stop : UInt64} (now : hart.turn stop = .stop .budget) : stop ≤ hart.clock := by
  have chosen := turn_cases hart stop
  rw [now] at chosen
  cases chosen with
  | late late => exact late
  | active _ _ _ stays => exact absurd rfl stays.2.1

theorem turn_yield {hart : Hart} {stop : UInt64} (now : hart.turn stop = .stop .yield) : hart.wires.control ≠ none := by
  have chosen := turn_cases hart stop
  rw [now] at chosen
  cases chosen with
  | asked early asked => exact asked
  | active _ _ _ stays => exact absurd rfl stays.2.2

theorem turn_wait {hart : Hart} {stop : UInt64} :
    hart.turn stop = .wait ↔ hart.clock < stop ∧ hart.wires.control = none ∧ hart.awake = false := by
  constructor
  · intro now
    have chosen := turn_cases hart stop
    rw [now] at chosen
    cases chosen with
    | asleep early quiet asleep => exact ⟨early, quiet, asleep⟩
    | active _ _ _ stays => exact absurd rfl stays.1
  · rintro ⟨early, quiet, asleep⟩
    unfold turn
    rw [if_neg (UInt64.not_le.mpr early), quiet, asleep]
    rfl

theorem afterTurn_over {hart : Hart} {stop : UInt64} (late : stop ≤ hart.clock) : hart.afterTurn stop = hart := by
  simp only [afterTurn, turn_over late]

theorem afterTurn_wait {hart : Hart} {stop : UInt64} (now : hart.turn stop = .wait) :
    hart.afterTurn stop = hart.setClock (hart.wakeTime stop) := by
  simp only [afterTurn, now]

theorem afterTurn_early {hart : Hart} {mid stop : UInt64} (same : hart.turn stop = hart.turn mid)
    (active : hart.turn mid ≠ .wait) : hart.afterTurn stop = hart.afterTurn mid := by
  unfold afterTurn
  rw [same]
  cases now : hart.turn mid with
  | stop reason => cases reason <;> rfl
  | wait => exact absurd now active
  | interrupt which => rfl
  | instruction => rfl

theorem toNat_min (a b : UInt64) : (min a b).toNat = min a.toNat b.toNat := by
  change (if a ≤ b then a else b).toNat = _
  split
  · rename_i below
    exact (Nat.min_eq_left below).symm
  · rename_i above
    exact (Nat.min_eq_right (Nat.le_of_lt (UInt64.not_le.mp above))).symm

theorem wakeTime_toNat (hart : Hart) (stop : UInt64) :
    (hart.wakeTime stop).toNat =
      if hart.clock.toNat < hart.pins.mtimecmp.toNat then min hart.pins.mtimecmp.toNat stop.toNat else stop.toNat := by
  unfold wakeTime
  by_cases timed : hart.clock < hart.pins.mtimecmp
  · rw [if_pos timed, if_pos (UInt64.lt_iff_toNat_lt.mp timed), toNat_min]
  · rw [if_neg timed, if_neg (mt UInt64.lt_iff_toNat_lt.mpr timed)]

theorem wakeTime_bounds {hart : Hart} {stop : UInt64} (early : hart.clock < stop) :
    hart.clock < hart.wakeTime stop ∧ hart.wakeTime stop ≤ stop := by
  rw [UInt64.lt_iff_toNat_lt] at *
  rw [UInt64.le_iff_toNat_le, wakeTime_toNat]
  split <;> omega

theorem wakeTime_earlier (hart : Hart) {mid stop : UInt64} (before : mid ≤ stop) :
    hart.wakeTime mid = hart.wakeTime stop ∨ hart.wakeTime mid < hart.wakeTime stop := by
  rw [← UInt64.toNat_inj, UInt64.lt_iff_toNat_lt, wakeTime_toNat, wakeTime_toNat]
  rw [UInt64.le_iff_toNat_le] at before
  split <;> omega

theorem asleep_until {hart : Hart} {stop time : UInt64} (asleep : hart.awake = false) (reached : hart.clock ≤ time)
    (before : time < hart.wakeTime stop) :
    (hart.setClock time).awake = false ∧ (hart.setClock time).wakeTime stop = hart.wakeTime stop := by
  have wake := hart.wakeTime_toNat stop
  rw [UInt64.lt_iff_toNat_lt, wake] at before
  rw [UInt64.le_iff_toNat_le] at reached
  have timer : hart.pins.mtimecmp ≤ time ↔ hart.pins.mtimecmp ≤ hart.clock := by
    simp only [UInt64.le_iff_toNat_le]
    split at before <;> omega
  constructor
  · have same : (hart.setClock time).pending = hart.pending := by
      change (if hart.pins.mtimecmp ≤ time then _ else _) = if hart.pins.mtimecmp ≤ hart.clock then _ else _
      simp only [timer]
      rfl
    unfold awake at asleep ⊢
    rw [same]
    exact asleep
  · apply UInt64.toNat_inj.mp
    rw [wake, wakeTime_toNat, setClock_clock]
    change (if time.toNat < hart.pins.mtimecmp.toNat then min hart.pins.mtimecmp.toNat _ else _) = _
    simp only [UInt64.le_iff_toNat_le] at timer
    simp only [← Nat.not_le, timer]

theorem afterTurn_clock {hart : Hart} {stop : UInt64} (goes : ∀ why, hart.turn stop ≠ .stop why) :
    hart.clock < (hart.afterTurn stop).clock ∧ (hart.afterTurn stop).clock ≤ stop := by
  have early := early_of_goes goes
  have ticks : hart.clock < hart.clock + 1 ∧ hart.clock + 1 ≤ stop := by
    have below := UInt64.toNat_lt stop
    simp only [UInt64.lt_iff_toNat_lt, UInt64.le_iff_toNat_le, UInt64.toNat_add, UInt64.toNat_one] at *
    omega
  cases now : hart.turn stop with
  | stop reason => exact absurd now (goes reason)
  | wait =>
    rw [afterTurn_wait now]
    exact wakeTime_bounds early
  | interrupt which =>
    simp only [afterTurn, now, advance_clock, trap_clock]
    exact ticks
  | instruction =>
    simp only [afterTurn, now, advance_clock, executeOne_clock]
    exact ticks

theorem runTo_runs {stop : UInt64} {turns : Nat} {hart : Hart} (enough : stop.toNat ≤ hart.clock.toNat + turns) :
    Runs stop hart (hart.runTo stop turns).1 (hart.runTo stop turns).2 := by
  induction turns generalizing hart with
  | zero =>
    have late : stop ≤ hart.clock := UInt64.le_iff_toNat_le.mpr enough
    have ended := Runs.ended (turn_over late)
    rw [afterTurn_over late] at ended
    exact ended
  | succ turns ih =>
    by_cases stops : ∃ why, hart.turn stop = .stop why
    · obtain ⟨why, now⟩ := stops
      rw [runTo_stops now]
      exact .ended now
    · have goes := not_exists.mp stops
      have moved := UInt64.lt_iff_toNat_lt.mp (afterTurn_clock goes).1
      rw [runTo_goes goes]
      exact .went goes (ih (by omega))

namespace Runs

variable {stop : UInt64} {hart last : Hart} {reason : StopReason}

theorem unique {other : StopReason} {final : Hart} (runs : Runs stop hart reason last) (again : Runs stop hart other final) :
    reason = other ∧ last = final := by
  induction runs with
  | ended now =>
    cases again with
    | ended later =>
      rw [now] at later
      cases later
      exact ⟨rfl, rfl⟩
    | went goes rest => exact absurd now (goes _)
  | went goes rest ih =>
    cases again with
    | ended later => exact absurd later (goes _)
    | went _ rest => exact ih rest

theorem clock (runs : Runs stop hart reason last) (start : hart.clock ≤ stop) :
    hart.clock ≤ last.clock ∧ last.clock ≤ stop ∧ (reason = .budget ↔ last.clock = stop) := by
  induction runs with
  | @ended hart reason now =>
    have same : (hart.afterTurn stop).clock = hart.clock := by
      simp only [afterTurn, now]
      cases reason <;> rfl
    rw [same]
    refine ⟨UInt64.le_refl _, start, ?_⟩
    constructor
    · intro budget
      rw [budget] at now
      exact UInt64.le_antisymm start (turn_budget now)
    · intro late
      rw [turn_over (UInt64.le_of_eq late.symm)] at now
      cases now
      rfl
  | went goes rest ih =>
    have moved := afterTurn_clock goes
    have later := ih moved.2
    exact ⟨UInt64.le_trans (UInt64.le_of_lt moved.1) later.1, later.2⟩

theorem dozed {time : UInt64} (waits : hart.turn stop = .wait) (reached : hart.clock ≤ time)
    (before : time < hart.wakeTime stop) (runs : Runs stop (hart.setClock time) reason last) :
    Runs stop (hart.setClock (hart.wakeTime stop)) reason last := by
  obtain ⟨early, quiet, asleep⟩ := turn_wait.mp waits
  have dozing := asleep_until asleep reached before
  have inside := UInt64.lt_of_lt_of_le before (wakeTime_bounds early).2
  have again : (hart.setClock time).turn stop = .wait := turn_wait.mpr ⟨inside, quiet, dozing.1⟩
  cases runs with
  | ended now =>
    rw [again] at now
    cases now
  | went _ rest =>
    rw [afterTurn_wait again, dozing.2] at rest
    exact rest

theorem sliced {mid : UInt64} {why : StopReason} {middle : Hart} (first : Runs mid hart why middle)
    (start : hart.clock ≤ mid) (before : mid ≤ stop)
    (second : if why = .budget then Runs stop middle reason last else why = reason ∧ middle = last) :
    Runs stop hart reason last := by
  induction first with
  | @ended hart why now =>
    by_cases spent : why = .budget
    · subst spent
      rw [if_pos rfl, afterTurn_over (turn_budget now)] at second
      exact second
    · rw [if_neg spent] at second
      obtain ⟨rfl, rfl⟩ := second
      have early : hart.clock < mid := by
        rw [← UInt64.not_le]
        intro late
        rw [turn_over late] at now
        cases now
        exact spent rfl
      have same := turn_early early (UInt64.lt_of_lt_of_le early before)
      rw [← afterTurn_early same (by simp [now])]
      exact .ended (same.trans now)
  | @went hart middle why goes rest ih =>
    have early := early_of_goes goes
    have later := UInt64.lt_of_lt_of_le early before
    have same := turn_early early later
    have joined := ih (afterTurn_clock goes).2 second
    refine .went (fun why => same ▸ goes why) ?_
    by_cases waits : hart.turn mid = .wait
    · rw [afterTurn_wait waits] at joined
      rw [afterTurn_wait (same.trans waits)]
      rcases wakeTime_earlier hart before with whole | cut
      · rw [← whole]
        exact joined
      · exact dozed (same.trans waits) (UInt64.le_of_lt (wakeTime_bounds early).1) cut joined
    · rw [afterTurn_early same waits]
      exact joined

theorem woken (later : hart.clock < stop) (quiet : hart.wires.control = none) (awake : hart.awake = true)
    (runs : Runs stop { hart with waiting := false } reason last) : Runs stop hart reason last := by
  let fresh : Hart := { hart with waiting := false }
  have same : hart.turn stop = fresh.turn stop := by
    unfold turn
    rw [awake]
    rfl
  have busy : fresh.turn stop ≠ .wait := by
    intro waits
    obtain ⟨_, _, asleep⟩ := turn_wait.mp waits
    cases asleep
  have after : hart.afterTurn stop = fresh.afterTurn stop := by
    unfold afterTurn
    rw [same]
    cases now : fresh.turn stop with
    | wait => exact absurd now busy
    | interrupt which => rfl
    | instruction => rfl
    | stop reason =>
      cases reason with
      | breakpoint => rfl
      | budget => exact absurd (turn_budget now) (UInt64.not_le.mpr later)
      | yield => exact absurd quiet (turn_yield (same.trans now))
  cases runs with
  | ended now =>
    rw [← same] at now
    have ended := Runs.ended now
    rw [after] at ended
    exact ended
  | went goes rest =>
    rw [← after] at rest
    exact .went (fun why => same ▸ goes why) rest

end Runs

theorem run_runs {hart : Hart} {n : UInt64} (fits : hart.clock.toNat + n.toNat < 2 ^ 64) :
    Runs (hart.clock + n) hart (hart.run n).1.2 (hart.run n).2 := by
  have stop : saturatingAdd hart.clock n = hart.clock + n := if_pos fits
  unfold run
  dsimp only
  rw [stop]
  apply runTo_runs
  rw [UInt64.toNat_add]
  omega

theorem run_cycles (hart : Hart) (n : UInt64) : (hart.run n).1.1 = (hart.run n).2.clock - hart.clock := rfl

theorem run_eq {hart last : Hart} {n : UInt64} {reason : StopReason} (fits : hart.clock.toNat + n.toNat < 2 ^ 64)
    (runs : Runs (hart.clock + n) hart reason last) : hart.run n = ((last.clock - hart.clock, reason), last) := by
  obtain ⟨same, reached⟩ := (run_runs fits).unique runs
  apply Prod.ext
  · apply Prod.ext
    · rw [run_cycles, reached]
    · exact same
  · exact reached

theorem toNat_after {start n : UInt64} (fits : start.toNat + n.toNat < 2 ^ 64) : (start + n).toNat = start.toNat + n.toNat := by
  rw [UInt64.toNat_add, Nat.mod_eq_of_lt fits]

structure Accounted (hart : Hart) (n : UInt64) : Prop where
  within : (hart.run n).1.1 ≤ n
  clock : (hart.run n).2.clock.toNat = hart.clock.toNat + (hart.run n).1.1.toNat
  budget : (hart.run n).1.2 = .budget ↔ (hart.run n).1.1 = n

theorem run_accounted {hart : Hart} {n : UInt64} (fits : hart.clock.toNat + n.toNat < 2 ^ 64) : Accounted hart n := by
  have stop := toNat_after fits
  have start : hart.clock ≤ hart.clock + n := by
    rw [UInt64.le_iff_toNat_le]
    omega
  obtain ⟨onward, bounded, spent⟩ := (run_runs fits).clock start
  rw [UInt64.le_iff_toNat_le] at bounded
  have cycles : (hart.run n).1.1.toNat = (hart.run n).2.clock.toNat - hart.clock.toNat := by
    rw [run_cycles, UInt64.toNat_sub_of_le _ _ onward]
  rw [UInt64.le_iff_toNat_le] at onward
  refine ⟨?_, ?_, ?_⟩
  · rw [UInt64.le_iff_toNat_le]
    omega
  · omega
  · rw [spent, ← UInt64.toNat_inj, ← UInt64.toNat_inj]
    omega

-- The result of a run that goes on after some cycles: they are added to its own.
def continued (cycles : UInt64) (rest : (UInt64 × StopReason) × Hart) : (UInt64 × StopReason) × Hart :=
  ((cycles + rest.1.1, rest.1.2), rest.2)

theorem run_split {hart : Hart} {m n : UInt64} (fits : hart.clock.toNat + m.toNat + n.toNat < 2 ^ 64) :
    hart.run (m + n) = if (hart.run m).1.2 = .budget then continued m ((hart.run m).2.run n) else hart.run m := by
  have fitsFirst : hart.clock.toNat + m.toNat < 2 ^ 64 := by omega
  have fitsWhole : hart.clock.toNat + (m + n).toNat < 2 ^ 64 := by
    rw [toNat_after (by omega)]
    omega
  have first := run_runs fitsFirst
  have start : hart.clock ≤ hart.clock + m := by
    rw [UInt64.le_iff_toNat_le, toNat_after fitsFirst]
    omega
  have before : hart.clock + m ≤ hart.clock + (m + n) := by
    rw [UInt64.le_iff_toNat_le, toNat_after fitsFirst, toNat_after fitsWhole, toNat_after (by omega)]
    omega
  by_cases spent : (hart.run m).1.2 = .budget
  · have reached : (hart.run m).2.clock = hart.clock + m := (first.clock start).2.2.mp spent
    have second : Runs (hart.clock + (m + n)) (hart.run m).2 ((hart.run m).2.run n).1.2 ((hart.run m).2.run n).2 := by
      rw [← UInt64.add_assoc, ← reached]
      apply run_runs
      rw [reached, toNat_after fitsFirst]
      exact fits
    rw [if_pos spent, run_eq fitsWhole (first.sliced start before (by rw [if_pos spent]; exact second))]
    unfold continued
    rw [run_cycles, reached]
    congr 2
    grind
  · rw [if_neg spent, run_eq fitsWhole (first.sliced start before (by rw [if_neg spent]; exact ⟨rfl, rfl⟩))]
    rfl

-- One cycle after the other, up to the first that is not completed.
def runSingly : Nat → Hart → (UInt64 × StopReason) × Hart
  | 0, hart => ((0, .budget), hart)
  | n + 1, hart =>
    if (hart.run 1).1.2 = .budget then continued 1 ((hart.run 1).2.runSingly n) else hart.run 1

theorem run_nothing (hart : Hart) : hart.run 0 = ((0, .budget), hart) := by
  have fits : hart.clock.toNat + (0 : UInt64).toNat < 2 ^ 64 := UInt64.toNat_lt hart.clock
  have late : hart.clock + 0 ≤ hart.clock := UInt64.le_of_eq (UInt64.add_zero _)
  have ended := Runs.ended (turn_over late)
  rw [afterTurn_over late] at ended
  rw [run_eq fits ended, UInt64.sub_self]

theorem run_singly {hart : Hart} (n : Nat) (fits : hart.clock.toNat + n < 2 ^ 64) :
    hart.run (UInt64.ofNat n) = hart.runSingly n := by
  induction n generalizing hart with
  | zero => exact run_nothing hart
  | succ n ih =>
    have one : hart.clock.toNat + (1 : UInt64).toNat < 2 ^ 64 := by
      change _ + 1 < _
      omega
    have rest : (UInt64.ofNat n).toNat = n := UInt64.toNat_ofNat_of_lt' (by simp [UInt64.size]; omega)
    have whole : UInt64.ofNat (n + 1) = 1 + UInt64.ofNat n := by
      rw [UInt64.ofNat_add, UInt64.add_comm]
      rfl
    have split := @run_split hart 1 (UInt64.ofNat n) (by rw [rest]; change _ + 1 + _ < _; omega)
    rw [whole, split]
    unfold runSingly
    by_cases spent : (hart.run 1).1.2 = .budget
    · rw [if_pos spent, if_pos spent]
      have accounted := run_accounted one
      have reached := accounted.clock
      rw [accounted.budget.mp spent] at reached
      change _ = _ + 1 at reached
      rw [ih (by omega)]
    · rw [if_neg spent, if_neg spent]

-- An enabled interrupt is pending at a time, if until then nothing but the clock changes.
def expects (hart : Hart) (time : UInt64) : Bool :=
  (hart.setClock time).pending &&& hart.csrs.get .mie != 0

structure Idles (hart : Hart) (stop : UInt64) : Prop where
  waiting : hart.waiting = true
  quiet : hart.wires.control = none
  unexpected : ∀ time, hart.clock ≤ time → time < stop → hart.expects time = false

theorem awake_expects {hart : Hart} (waiting : hart.waiting = true) (time : UInt64) :
    (hart.setClock time).awake = hart.expects time := by
  have still : (hart.setClock time).waiting = true := waiting
  unfold awake
  rw [still]
  rfl

theorem run_idle_once {hart : Hart} (quiet : hart.wires.control = none) (asleep : hart.awake = false)
    (fits : hart.clock.toNat + 1 < 2 ^ 64) : hart.run 1 = ((1, .budget), hart.setClock (hart.clock + 1)) := by
  have tick := @toNat_after hart.clock 1 fits
  have early : hart.clock < hart.clock + 1 := by
    rw [UInt64.lt_iff_toNat_lt, tick]
    exact Nat.lt_succ_self _
  have waits := turn_wait.mpr ⟨early, quiet, asleep⟩
  have woken : hart.wakeTime (hart.clock + 1) = hart.clock + 1 := by
    have bounds := wakeTime_bounds early
    rw [UInt64.lt_iff_toNat_lt, UInt64.le_iff_toNat_le, tick] at bounds
    rw [← UInt64.toNat_inj, tick]
    change _ = _ + 1
    change _ < _ ∧ _ ≤ _ + 1 at bounds
    omega
  have late : hart.clock + 1 ≤ (hart.setClock (hart.clock + 1)).clock := UInt64.le_refl _
  have ended := Runs.ended (turn_over late)
  rw [afterTurn_over late] at ended
  have went : Runs (hart.clock + 1) hart .budget (hart.setClock (hart.clock + 1)) := by
    refine .went (by simp [waits]) ?_
    rw [afterTurn_wait waits, woken]
    exact ended
  rw [run_eq fits went]
  congr 2
  rw [setClock_clock]
  grind

theorem run_idle {hart : Hart} (n : Nat) (fits : hart.clock.toNat + n < 2 ^ 64)
    (idles : hart.Idles (hart.clock + UInt64.ofNat n)) :
    hart.run (UInt64.ofNat n) = ((UInt64.ofNat n, .budget), hart.setClock (hart.clock + UInt64.ofNat n)) := by
  induction n with
  | zero =>
    have same : hart.clock + UInt64.ofNat 0 = hart.clock := UInt64.add_zero _
    rw [same]
    exact run_nothing hart
  | succ n ih =>
    have small : (UInt64.ofNat n).toNat = n := UInt64.toNat_ofNat_of_lt' (by simp [UInt64.size]; omega)
    have next : UInt64.ofNat (n + 1) = UInt64.ofNat n + 1 := UInt64.ofNat_add n 1
    have reached : (hart.clock + UInt64.ofNat n).toNat = hart.clock.toNat + n := by
      rw [toNat_after (by omega), small]
    have reachedNext : (hart.clock + UInt64.ofNat (n + 1)).toNat = hart.clock.toNat + n + 1 := by
      rw [next, ← UInt64.add_assoc, UInt64.toNat_add, reached]
      exact Nat.mod_eq_of_lt fits
    have earlier : hart.Idles (hart.clock + UInt64.ofNat n) := by
      refine ⟨idles.waiting, idles.quiet, fun time after before => idles.unexpected time after ?_⟩
      rw [UInt64.lt_iff_toNat_lt] at *
      omega
    have asleep : (hart.setClock (hart.clock + UInt64.ofNat n)).awake = false := by
      rw [awake_expects idles.waiting]
      apply idles.unexpected
      · rw [UInt64.le_iff_toNat_le]
        omega
      · rw [UInt64.lt_iff_toNat_lt]
        omega
    have once := @run_idle_once (hart.setClock (hart.clock + UInt64.ofNat n)) idles.quiet asleep (by
      rw [setClock_clock]
      omega)
    rw [next, @run_split hart (UInt64.ofNat n) 1 (by rw [small]; exact fits), ih (by omega) earlier, if_pos rfl, once]
    simp only [continued, setClock_clock, setClock_setClock, UInt64.add_assoc]

theorem run_woken {hart : Hart} {n : UInt64} (fits : hart.clock.toNat + n.toNat < 2 ^ 64) (some : 0 < n)
    (quiet : hart.wires.control = none) (awake : hart.awake = true) :
    hart.run n = { hart with waiting := false }.run n := by
  have later : hart.clock < hart.clock + n := by
    rw [UInt64.lt_iff_toNat_lt, toNat_after fits]
    rw [UInt64.lt_iff_toNat_lt] at some
    exact Nat.lt_add_of_pos_right some
  have runs := @run_runs { hart with waiting := false } n fits
  rw [run_eq fits (Runs.woken later quiet awake runs)]
  rfl

-- What a run of some cycles, and a run of `m` cycles before it, come to.
structure Sliced (hart : Hart) (m n : UInt64) : Prop where
  accounted : Accounted hart n
  joined : (hart.run m).1.2 = .budget → hart.run (m + n) = continued (hart.run m).1.1 ((hart.run m).2.run n)
  singly : hart.run n = hart.runSingly n.toNat
  idled : hart.Idles (hart.clock + n) → hart.run n = ((n, .budget), hart.setClock (hart.clock + n))
  woken : hart.Idles (hart.clock + m) → hart.expects (hart.clock + m) = true → 0 < n →
    hart.run (m + n) = continued m ({ hart.setClock (hart.clock + m) with waiting := false }.run n)

theorem run_sliced (hart : Hart) (m n : UInt64) (fits : hart.clock.toNat + m.toNat + n.toNat < 2 ^ 64) : Sliced hart m n := by
  have fitsFirst : hart.clock.toNat + m.toNat < 2 ^ 64 := by omega
  have fitsSecond : hart.clock.toNat + n.toNat < 2 ^ 64 := by omega
  have idled {k : UInt64} (fits : hart.clock.toNat + k.toNat < 2 ^ 64) (idles : hart.Idles (hart.clock + k)) :
      hart.run k = ((k, .budget), hart.setClock (hart.clock + k)) := by
    have all := @run_idle hart k.toNat fits
    rw [UInt64.ofNat_toNat] at all
    exact all idles
  refine ⟨run_accounted fitsSecond, ?_, ?_, idled fitsSecond, ?_⟩
  · intro spent
    rw [run_split fits, if_pos spent, (run_accounted fitsFirst).budget.mp spent]
  · have singly := @run_singly hart n.toNat fitsSecond
    rw [UInt64.ofNat_toNat] at singly
    exact singly
  · intro idles expected some
    have reached : (hart.setClock (hart.clock + m)).clock.toNat + n.toNat < 2 ^ 64 := by
      rw [setClock_clock, toNat_after fitsFirst]
      exact fits
    have awake : (hart.setClock (hart.clock + m)).awake = true := by
      rw [awake_expects idles.waiting]
      exact expected
    rw [run_split fits, idled fitsFirst idles, if_pos rfl, run_woken reached some idles.quiet awake]

def dozing : Hart :=
  { poweredOn with
    waiting := true
    csrs := CsrFile.initial.set .mie Mip.mtip
    memory := Memory.mapBus (Bus.mapWires fun wires => Clint.setCompare wires 5) poweredOn.memory }

theorem dozing_expects (time : UInt64) : dozing.expects time = decide (5 ≤ time) := by
  change ((if 5 ≤ time then dozing.csrs.get .mip ||| dozing.pins.pending ||| Mip.mtip
    else dozing.csrs.get .mip ||| dozing.pins.pending) &&& dozing.csrs.get .mie != 0) = _
  by_cases due : 5 ≤ time
  · rw [if_pos due, decide_eq_true due]
    decide +kernel
  · rw [if_neg due, decide_eq_false due]
    decide +kernel

theorem dozing_idles : dozing.Idles 5 := by
  refine ⟨rfl, rfl, ?_⟩
  intro time _ before
  rw [dozing_expects, decide_eq_false (UInt64.not_le.mpr before)]

theorem run_sliced_timer :
    dozing.clock.toNat + (5 : UInt64).toNat + (3 : UInt64).toNat < 2 ^ 64 ∧ Sliced dozing 5 3 ∧
      dozing.run 5 = ((5, .budget), dozing.setClock 5) ∧
      dozing.run (5 + 3) = continued 5 ({ dozing.setClock 5 with waiting := false }.run 3) := by
  have fits : dozing.clock.toNat + (5 : UInt64).toNat + (3 : UInt64).toNat < 2 ^ 64 := by decide +kernel
  have sliced := run_sliced dozing 5 3 fits
  have idled := (run_sliced dozing 0 5 (by decide +kernel)).idled dozing_idles
  exact ⟨fits, sliced, idled, sliced.woken dozing_idles (by rw [dozing_expects]; rfl) (by decide)⟩

end Hart

end RvBoard
