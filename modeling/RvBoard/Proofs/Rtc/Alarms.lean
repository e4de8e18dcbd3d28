import RvBoard.Proofs.Rtc.Deeds

/-!
# Alarms of a clock

An alarm is armed by writing the lower half of its time. It goes off at the first check that finds this time reached,
and is armed no longer then. Both halves of the time of day that the guest reads are of one moment.
-/

set_option autoImplicit false

namespace RvBoard.Rtc

section Steps

variable (clock : Rtc) (now : UInt64)

theorem store_register (register : Register) (value : UInt64) :
    clock.store now register.offset 2 value =
      (.ok (), clock.write now value.toUInt32 register, clock.writeUpdates now value.toUInt32 register) := by
  rw [store, if_pos rfl, Register.ofOffset_offset]

theorem load_register (register : Register) :
    clock.load now register.offset 2 = (.ok (clock.read now register).1.toUInt64, (clock.read now register).2) := by
  rw [load, if_pos rfl, Register.ofOffset_offset]

theorem store_cases (offset : UInt64) (size : Nat) (value : UInt64) :
    (∃ register : Register, offset = register.offset ∧ size = 2) ∨
      (clock.store now offset size value).2.1 = clock ∧ ∀ register, ¬ Deed.Writes register (.store offset size value) := by
  by_cases word : size = 2
  · cases known : Register.ofOffset? offset with
    | some register => exact .inl ⟨register, Register.offset_of_known known, word⟩
    | none =>
      refine .inr ⟨by rw [store, if_pos word, known], fun register writes => ?_⟩
      rw [writes.1, Register.ofOffset_offset] at known
      cases known
  · exact .inr ⟨by rw [store, if_neg word], fun register writes => word writes.2⟩

theorem load_keeps (offset : UInt64) (size : Nat) :
    (clock.load now offset size).2 = { clock with latchedHigh := (clock.load now offset size).2.latchedHigh } := by
  unfold load
  split
  · split
    · rename_i register _
      cases register <;> rfl
    · rfl
  · rfl

theorem writes_iff (register other : Register) (value : UInt64) :
    Deed.Writes register (.store other.offset 2 value) ↔ other = register := by
  constructor
  · rintro ⟨same, _⟩
    have known := Register.ofOffset_offset other
    rw [same, Register.ofOffset_offset] at known
    exact (Option.some.inj known).symm
  · rintro rfl
    exact ⟨rfl, rfl⟩

theorem writes_apart {register other : Register} (apart : other ≠ register) (value : UInt64) :
    ¬ Deed.Writes register (.store other.offset 2 value) :=
  fun writes => apart ((writes_iff register other value).mp writes)

theorem puts_idle {register : Register} {offset value : UInt64} {size : Nat}
    (idle : ¬ Deed.Writes register (.store offset size value)) : Deed.puts? register (.store offset size value) = none :=
  if_neg idle

end Steps

section Halves

variable (old : UInt64) (value : UInt32)

theorem toNat_replaceHigh : (replaceHalf old value true).toNat = value.toNat * 2 ^ 32 + old.toNat % 2 ^ 32 := by
  have bound := value.toNat_lt
  have low : (old &&& 0xffffffff).toNat = old.toNat % 2 ^ 32 := toNat_low (k := 32) rfl old
  have shifted : (value.toUInt64 <<< (32 : UInt64)).toNat = 2 ^ 32 * value.toNat := by
    rw [UInt64.toNat_shiftLeft, Nat.shiftLeft_eq, UInt32.toNat_toUInt64]
    change value.toNat * 2 ^ 32 % 2 ^ 64 = _
    omega
  rw [replaceHalf, if_pos rfl, UInt64.toNat_or, low, shifted, Nat.or_comm,
    ← Nat.two_pow_add_eq_or_of_lt (Nat.mod_lt _ (by decide)), Nat.mul_comm]

theorem toNat_replaceLow : (replaceHalf old value false).toNat = old.toNat / 2 ^ 32 * 2 ^ 32 + value.toNat := by
  have high : (old &&& 0xffffffff00000000).toNat = 2 ^ 32 * (old.toNat / 2 ^ 32) := by
    rw [Nat.mul_comm]
    exact @toNat_high 0xffffffff 32 rfl old
  rw [replaceHalf, if_neg Bool.false_ne_true, UInt64.toNat_or, high, UInt32.toNat_toUInt64,
    ← Nat.two_pow_add_eq_or_of_lt value.toNat_lt, Nat.mul_comm]

end Halves

section Laws

variable (clock : Rtc) (moment : Moment)

theorem check_alarm (now : UInt64) : (clock.check now).alarm = clock.alarm := by
  unfold check
  split <;> rfl

theorem check_latched (now : UInt64) : (clock.check now).latchedHigh = clock.latchedHigh := by
  unfold check
  split <;> rfl

theorem check_armed (now : UInt64) :
    (clock.check now).armed = true ↔ clock.armed = true ∧ ¬ clock.alarm ≤ now := by
  unfold check due
  by_cases reached : clock.alarm ≤ now <;> by_cases armed : clock.armed = true <;> simp [reached, armed]

theorem check_pending (now : UInt64) :
    (clock.check now).pending = true ↔ (clock.armed = true ∧ clock.alarm ≤ now) ∨ clock.pending = true := by
  unfold check due
  by_cases reached : clock.alarm ≤ now <;> by_cases armed : clock.armed = true <;> simp [reached, armed]

theorem after_alarm {high low : UInt32} (halves : clock.alarm.toNat = high.toNat * 2 ^ 32 + low.toNat) :
    (clock.after moment).alarm.toNat =
      ((moment.deed.puts? .alarmHigh).getD high).toNat * 2 ^ 32 + ((moment.deed.puts? .alarmLow).getD low).toNat := by
  obtain ⟨now, deed⟩ := moment
  have bound := low.toNat_lt
  cases deed with
  | load offset size =>
    simp only [after]
    rw [load_keeps]
    exact halves
  | store offset size value =>
    rcases store_cases clock now offset size value with ⟨register, rfl, rfl⟩ | ⟨same, idle⟩
    · simp only [after, store_register, Deed.puts?]
      cases register with
      | alarmHigh =>
        simp only [write, toNat_replaceHigh, halves]
        simp [Register.offset, Nat.mod_eq_of_lt bound]
      | alarmLow =>
        simp only [write, arm, check_alarm, toNat_replaceLow, halves]
        simp [Register.offset]
        omega
      | _ => exact halves
    · simp only [after, same]
      rw [puts_idle (idle .alarmHigh), puts_idle (idle .alarmLow)]
      exact halves
  | step => exact (congrArg UInt64.toNat (check_alarm clock now)).trans halves
  | reset => simp [after, Deed.puts?]

theorem after_latched (other : moment.deed ≠ .load Register.timeLow.offset 2) (kept : moment.deed ≠ .reset) :
    (clock.after moment).latchedHigh = clock.latchedHigh := by
  obtain ⟨now, deed⟩ := moment
  cases deed with
  | load offset size =>
    simp only [after, load]
    split
    · rename_i word
      cases known : Register.ofOffset? offset with
      | none => rfl
      | some register =>
        cases register with
        | timeLow => exact absurd (by rw [Register.offset_of_known known, word]) other
        | _ => rfl
    · rfl
  | store offset size value =>
    rcases store_cases clock now offset size value with ⟨register, rfl, rfl⟩ | ⟨same, _⟩
    · simp only [after, store_register]
      cases register with
      | alarmLow => exact check_latched _ now
      | _ => rfl
    · exact congrArg latchedHigh same
  | step => exact check_latched clock now
  | reset => exact absurd rfl kept

theorem after_armed :
    (clock.after moment).armed = true ↔
      (moment.deed.Arms ∨ clock.armed = true ∧ ¬ moment.deed.Disarms) ∧
        ¬ (moment.deed.Checks ∧ (clock.after moment).alarm ≤ moment.now) := by
  obtain ⟨now, deed⟩ := moment
  cases deed with
  | load offset size =>
    simp only [after]
    rw [load_keeps]
    simp [Deed.Arms, Deed.Disarms, Deed.Checks, Deed.Writes]
  | store offset size value =>
    rcases store_cases clock now offset size value with ⟨register, rfl, rfl⟩ | ⟨same, idle⟩
    · simp only [after, store_register, Deed.Arms, Deed.Disarms, Deed.Checks, writes_iff]
      cases register <;> simp [write, arm, check_armed, check_alarm]
    · simp only [after, same]
      simp [Deed.Arms, Deed.Disarms, Deed.Checks, idle]
  | step =>
    simp only [after]
    rw [check_armed, check_alarm]
    simp [Deed.Arms, Deed.Disarms, Deed.Checks, Deed.Writes]
  | reset => simp [after, Deed.Arms, Deed.Disarms, Deed.Writes]

theorem after_pending :
    (clock.after moment).pending = true ↔
      (moment.deed.Checks ∧ (moment.deed.Arms ∨ clock.armed = true) ∧ (clock.after moment).alarm ≤ moment.now) ∨
        clock.pending = true ∧ ¬ moment.deed.TakesBack := by
  obtain ⟨now, deed⟩ := moment
  cases deed with
  | load offset size =>
    simp only [after]
    rw [load_keeps]
    simp [Deed.Arms, Deed.TakesBack, Deed.Checks, Deed.Writes]
  | store offset size value =>
    rcases store_cases clock now offset size value with ⟨register, rfl, rfl⟩ | ⟨same, idle⟩
    · simp only [after, store_register, Deed.Arms, Deed.TakesBack, Deed.Checks, writes_iff]
      cases register <;> simp [write, arm, check_pending, check_alarm]
    · simp only [after, same]
      simp [Deed.Arms, Deed.TakesBack, Deed.Checks, idle]
  | step =>
    simp only [after]
    rw [check_pending, check_alarm]
    simp [Deed.Arms, Deed.TakesBack, Deed.Checks, Deed.Writes]
  | reset => simp [after, Deed.Arms, Deed.TakesBack, Deed.Checks, Deed.Writes]

end Laws

section Histories

/-- The latest moment is a check of the alarm that finds its time reached. -/
def Reached : List Moment → Prop
  | [] => False
  | moment :: earlier => moment.deed.Checks ∧ alarmTime (moment :: earlier) ≤ moment.now.toNat

structure Stands (since armed : List Moment) : Prop where
  arms : ∃ moment earlier, armed = moment :: earlier ∧ moment.deed.Arms
  kept : ∀ moment ∈ since, ¬ moment.deed.Arms ∧ ¬ moment.deed.Disarms
  unreached : ∀ later earlier, since = later ++ earlier → later ≠ [] → ¬ Reached (earlier ++ armed)

def Live (history : List Moment) : Prop :=
  ∃ since armed, history = since ++ armed ∧ Stands since armed

def Fires (history : List Moment) : Prop :=
  Reached history ∧ Live history

def Steady (history : List Moment) : Prop :=
  history.Pairwise fun late early => early.now ≤ late.now

instance : DecidablePred Steady :=
  fun history => inferInstanceAs (Decidable (history.Pairwise _))

theorem live_cons (moment : Moment) (earlier : List Moment) :
    Live (moment :: earlier) ↔ moment.deed.Arms ∨ (Live earlier ∧ ¬ Reached earlier) ∧ ¬ moment.deed.Disarms := by
  constructor
  · rintro ⟨since, armed, split, arms, kept, unreached⟩
    cases since with
    | nil =>
      obtain ⟨first, rest, same, armsFirst⟩ := arms
      rw [List.nil_append, same] at split
      obtain ⟨rfl, rfl⟩ := List.cons.inj split
      exact .inl armsFirst
    | cons first since =>
      obtain ⟨rfl, rfl⟩ := List.cons.inj split
      obtain ⟨keptFirst, keptRest⟩ := List.forall_mem_cons.mp kept
      refine .inr ⟨⟨⟨since, armed, rfl, arms, keptRest, ?_⟩, ?_⟩, keptFirst.2⟩
      · intro later before same some
        exact unreached (moment :: later) before (congrArg (moment :: ·) same) (List.cons_ne_nil _ _)
      · exact unreached [moment] since rfl (List.cons_ne_nil _ _)
  · by_cases arms : moment.deed.Arms
    · intro _
      refine ⟨[], moment :: earlier, rfl, ⟨moment, earlier, rfl, arms⟩, fun other none => absurd none List.not_mem_nil, ?_⟩
      intro later before same some
      exact absurd (List.append_eq_nil_iff.mp same.symm).1 some
    · rintro (now | ⟨⟨⟨since, armed, rfl, stands⟩, unreached⟩, kept⟩)
      · exact absurd now arms
      · refine ⟨moment :: since, armed, rfl, stands.arms, List.forall_mem_cons.mpr ⟨⟨arms, kept⟩, stands.kept⟩, ?_⟩
        intro later before same some
        cases later with
        | nil => exact absurd rfl some
        | cons first later =>
          obtain ⟨rfl, rfl⟩ := List.cons.inj same
          by_cases latest : later = []
          · rw [latest] at unreached
            exact unreached
          · exact stands.unreached later before rfl latest

theorem lastPut_cons (register : Register) (moment : Moment) (earlier : List Moment) :
    lastPut register (moment :: earlier) = (moment.deed.puts? register).getD (lastPut register earlier) := by
  rw [lastPut, List.findSome?_cons]
  cases moment.deed.puts? register <;> rfl

theorem state_alarm (history : List Moment) : (state history).alarm.toNat = alarmTime history := by
  induction history with
  | nil => rfl
  | cons moment earlier ih =>
    rw [alarmTime, lastPut_cons, lastPut_cons]
    exact after_alarm (state earlier) moment ih

theorem reached_iff (moment : Moment) (earlier : List Moment) :
    Reached (moment :: earlier) ↔
      moment.deed.Checks ∧ ((state earlier).after moment).alarm ≤ moment.now := by
  rw [Reached, ← state_alarm, UInt64.le_iff_toNat_le]
  rfl

theorem armed_iff (history : List Moment) : (state history).armed = true ↔ Live history ∧ ¬ Reached history := by
  induction history with
  | nil =>
    refine ⟨fun armed => Bool.noConfusion armed, ?_⟩
    rintro ⟨⟨since, armed, split, ⟨moment, earlier, same, _⟩, _⟩, _⟩
    rw [same] at split
    exact absurd split.symm (List.append_ne_nil_of_right_ne_nil since (List.cons_ne_nil _ _))
  | cons moment earlier ih =>
    rw [live_cons, reached_iff, ← ih]
    exact after_armed (state earlier) moment

theorem Deed.Checks.keeps {deed : Deed} (checks : deed.Checks) : ¬ deed.Disarms := by
  rcases checks with rfl | arms
  · decide
  · cases deed with
    | store offset size value =>
      obtain ⟨rfl, rfl⟩ := arms
      rintro (clears | same)
      · exact @writes_apart .clearAlarm .alarmLow Register.noConfusion value clears
      · cases same
    | _ => exact arms.elim

theorem pending_cons (moment : Moment) (earlier : List Moment) :
    (state (moment :: earlier)).pending = true ↔
      Fires (moment :: earlier) ∨ (state earlier).pending = true ∧ ¬ moment.deed.TakesBack := by
  rw [Fires, live_cons, reached_iff, ← armed_iff]
  refine (after_pending (state earlier) moment).trans (or_congr_left ?_)
  constructor
  · rintro ⟨checks, standing, reached⟩
    exact ⟨⟨checks, reached⟩, standing.imp id fun armed => ⟨armed, checks.keeps⟩⟩
  · rintro ⟨⟨checks, reached⟩, standing⟩
    exact ⟨checks, standing.imp id And.left, reached⟩

theorem pending_iff (history : List Moment) :
    (state history).pending = true ↔
      ∃ later fired, history = later ++ fired ∧ Fires fired ∧ ∀ moment ∈ later, ¬ moment.deed.TakesBack := by
  induction history with
  | nil =>
    refine ⟨fun pending => Bool.noConfusion pending, ?_⟩
    rintro ⟨later, fired, split, fires, _⟩
    rw [(List.append_eq_nil_iff.mp split.symm).2] at fires
    exact fires.1.elim
  | cons moment earlier ih =>
    rw [pending_cons, ih]
    constructor
    · rintro (fires | ⟨⟨later, fired, rfl, fires, kept⟩, keeps⟩)
      · exact ⟨[], moment :: earlier, rfl, fires, fun _ none => absurd none List.not_mem_nil⟩
      · exact ⟨moment :: later, fired, rfl, fires, List.forall_mem_cons.mpr ⟨keeps, kept⟩⟩
    · rintro ⟨later, fired, split, fires, kept⟩
      cases later with
      | nil => exact .inl (split ▸ fires)
      | cons first later =>
        obtain ⟨rfl, rfl⟩ := List.cons.inj split
        obtain ⟨keeps, kept⟩ := List.forall_mem_cons.mp kept
        exact .inr ⟨⟨later, fired, rfl, fires, kept⟩, keeps⟩

theorem unarmed_later {later earlier : List Moment} (idle : ¬ (state earlier).armed = true)
    (none : ∀ moment ∈ later, ¬ moment.deed.Arms) :
    ¬ (state (later ++ earlier)).armed = true ∧ (later ≠ [] → ¬ Fires (later ++ earlier)) := by
  induction later with
  | nil => exact ⟨idle, fun some => absurd rfl some⟩
  | cons moment later ih =>
    obtain ⟨noneFirst, noneRest⟩ := List.forall_mem_cons.mp none
    have before := (ih noneRest).1
    have dead : ¬ Live (moment :: (later ++ earlier)) := by
      rw [live_cons, ← armed_iff]
      rintro (arms | ⟨armed, _⟩)
      · exact noneFirst arms
      · exact before armed
    exact ⟨fun armed => dead ((armed_iff _).mp armed).1, fun _ fires => dead fires.2⟩

end Histories

/-- A clock goes off on time: what its interrupt, its alarm and the halves of its time are after any history. -/
structure Punctual (history : List Moment) : Prop where
  -- The two halves that were written last make the time of the alarm.
  time : (state history).alarm.toNat = alarmTime history
  -- The interrupt becomes pending when an alarm goes off, and at no other moment.
  becomes : ∀ moment earlier, history = moment :: earlier → (state earlier).pending = false →
    ((state history).pending = true ↔ Fires history)
  -- It is pending when an alarm has gone off and has not been acknowledged since.
  pending : (state history).pending = true ↔
    ∃ later fired, history = later ++ fired ∧ Fires fired ∧ ∀ moment ∈ later, ¬ moment.deed.TakesBack
  -- An alarm that has gone off or was cleared does not go off until one is armed again.
  once : ∀ later earlier, history = later ++ earlier → later ≠ [] →
    (Fires earlier ∨ ∃ moment before, earlier = moment :: before ∧ moment.deed.Disarms) →
    Fires history → ∃ moment ∈ later, moment.deed.Arms
  -- A step fires the armed alarm whose time the clock has reached by then.
  due : ∀ now earlier, history = ⟨now, .step⟩ :: earlier → (state earlier).armed = true →
    (∃ moment ∈ history, alarmTime earlier ≤ moment.now.toNat) → Fires history ∧ (state history).armed = false
  -- After a step the time of an armed alarm is yet to come.
  ahead : ∀ now earlier, history = ⟨now, .step⟩ :: earlier → (state history).armed = true →
    ∀ moment ∈ history, moment.now.toNat < alarmTime history
  -- The lower half of the time, and the upper half that is read after it, are of one moment.
  sampled : ∀ late between early earlier,
    history = ⟨late, .load Register.timeHigh.offset 2⟩ :: between ++ ⟨early, .load Register.timeLow.offset 2⟩ :: earlier →
    (∀ moment ∈ between, moment.deed ≠ .load Register.timeLow.offset 2 ∧ moment.deed ≠ .reset) →
    ∃ low high : UInt32,
      ((state earlier).load early Register.timeLow.offset 2).1 = .ok low.toUInt64 ∧
        ((state (between ++ ⟨early, .load Register.timeLow.offset 2⟩ :: earlier)).load late
          Register.timeHigh.offset 2).1 = .ok high.toUInt64 ∧
        high.toNat * 2 ^ 32 + low.toNat = early.toNat

section Punctuality

variable {history : List Moment}

theorem alarmTime_step (now : UInt64) (earlier : List Moment) :
    alarmTime (⟨now, .step⟩ :: earlier) = alarmTime earlier := by
  simp only [alarmTime, lastPut_cons]
  rfl

theorem reached_step {now : UInt64} {earlier : List Moment} :
    Reached (⟨now, .step⟩ :: earlier) ↔ alarmTime earlier ≤ now.toNat := by
  rw [Reached, alarmTime_step]
  exact and_iff_right (.inl rfl)

theorem fires_once (later earlier : List Moment) (split : history = later ++ earlier) (some : later ≠ [])
    (spent : Fires earlier ∨ ∃ moment before, earlier = moment :: before ∧ moment.deed.Disarms) (fires : Fires history) :
    ∃ moment ∈ later, moment.deed.Arms := by
  apply Classical.byContradiction
  intro unarmed
  have none : ∀ moment ∈ later, ¬ moment.deed.Arms := fun moment member arms => unarmed ⟨moment, member, arms⟩
  have idle : ¬ (state earlier).armed = true := by
    rw [armed_iff]
    rintro ⟨live, unreached⟩
    rcases spent with fired | ⟨moment, before, rfl, disarms⟩
    · exact unreached fired.1
    · rcases (live_cons moment before).mp live with arms | ⟨_, keeps⟩
      · exact Deed.Checks.keeps (.inr arms) disarms
      · exact keeps disarms
  subst split
  exact (unarmed_later idle none).2 some fires

theorem latest_now {now : UInt64} {earlier : List Moment} (steady : Steady (⟨now, .step⟩ :: earlier)) :
    ∀ moment ∈ (⟨now, .step⟩ :: earlier : List Moment), moment.now.toNat ≤ now.toNat :=
  List.forall_mem_cons.mpr
    ⟨Nat.le_refl _, fun moment member => UInt64.le_iff_toNat_le.mp ((List.pairwise_cons.mp steady).1 moment member)⟩

theorem latched_since {between earlier : List Moment} {early : UInt64}
    (kept : ∀ moment ∈ between, moment.deed ≠ .load Register.timeLow.offset 2 ∧ moment.deed ≠ .reset) :
    (state (between ++ ⟨early, .load Register.timeLow.offset 2⟩ :: earlier)).latchedHigh = highHalf early := by
  induction between with
  | nil =>
    change ((state earlier).load early Register.timeLow.offset 2).2.latchedHigh = highHalf early
    rw [load_register]
    rfl
  | cons moment between ih =>
    obtain ⟨⟨other, keeps⟩, kept⟩ := List.forall_mem_cons.mp kept
    exact (after_latched _ moment other keeps).trans (ih kept)

theorem toNat_halves (value : UInt64) : (highHalf value).toNat * 2 ^ 32 + value.toUInt32.toNat = value.toNat := by
  rw [highHalf, UInt64.toNat_toUInt32, UInt64.toNat_toUInt32, UInt64.toNat_shiftRight, Nat.shiftRight_eq_div_pow]
  have bound := value.toNat_lt
  change value.toNat / 2 ^ 32 % 2 ^ 32 * 2 ^ 32 + value.toNat % 2 ^ 32 = _
  omega

end Punctuality

/-- Whatever is done to a clock while the time of day goes on, its alarm goes off at the first check that finds its time
reached, and once for each time it is armed; what is armed and due does not outlive a step; the two halves of the time
that are read one after the other are of one moment. The line shows the interrupt where it is enabled. -/
theorem alarms_fire_once (line : Line) (clock : Rtc) (wires : Wires) (history : List Moment) (steady : Steady history) :
    (∃ next, history.foldr Moment.apply ((Device.rtc line clock).reset wires) = (.rtc line (state history), next) ∧
      next.level line = ((state history).enabled && (state history).pending)) ∧
      Punctual history := by
  refine ⟨applied_clock (Wires.level_drive wires line false) history, ?_⟩
  constructor
  case time => exact state_alarm history
  case becomes =>
    rintro moment earlier rfl quiet
    rw [pending_cons, quiet]
    simp
  case pending => exact pending_iff history
  case once => exact fires_once
  case due =>
    rintro now earlier rfl armed ⟨moment, member, reached⟩
    have comes : Reached (⟨now, .step⟩ :: earlier) :=
      reached_step.mpr (Nat.le_trans reached (latest_now steady moment member))
    have live : Live (⟨now, .step⟩ :: earlier) :=
      (live_cons _ _).mpr (.inr ⟨(armed_iff earlier).mp armed, Deed.Checks.keeps (.inl rfl)⟩)
    refine ⟨⟨comes, live⟩, ?_⟩
    rw [← Bool.not_eq_true, armed_iff]
    exact fun waits => waits.2 comes
  case ahead =>
    rintro now earlier rfl armed moment member
    have unreached := ((armed_iff _).mp armed).2
    have before := latest_now steady moment member
    rw [reached_step] at unreached
    rw [alarmTime_step]
    omega
  case sampled =>
    rintro late between early earlier rfl kept
    refine ⟨early.toUInt32, highHalf early, ?_, ?_, toNat_halves early⟩
    · rw [load_register]
      rfl
    · rw [load_register, ← latched_since kept]
      rfl

def ringing : List Moment := [
  ⟨500, .step⟩,
  ⟨400, .step⟩,
  ⟨300, .store 0x10 2 1⟩,
  ⟨100, .store 0x08 2 500⟩,
  ⟨100, .store 0x0c 2 0⟩]

theorem alarms_fire_once_ringing :
    Steady ringing ∧ Steady (⟨600, .step⟩ :: ringing) ∧ Fires ringing ∧ ¬ Fires (⟨600, .step⟩ :: ringing) ∧
      ∃ next, ringing.foldr Moment.apply ((Device.rtc 11 {}).reset {}) = (.rtc 11 (state ringing), next) ∧
        next.level 11 = true := by
  have steady : Steady ringing := by decide
  have goesOn : Steady (⟨600, .step⟩ :: ringing) := by decide
  obtain ⟨rings, punctual⟩ := alarms_fire_once 11 {} {} ringing steady
  obtain ⟨_, afterwards⟩ := alarms_fire_once 11 {} {} (⟨600, .step⟩ :: ringing) goesOn
  have fires : Fires ringing := (punctual.due 500 ringing.tail rfl (by decide) ⟨⟨500, .step⟩, by decide, by decide⟩).1
  refine ⟨steady, goesOn, fires, fun again => ?_, rings⟩
  obtain ⟨moment, member, arms⟩ := afterwards.once [⟨600, .step⟩] ringing rfl (List.cons_ne_nil _ _) (.inl fires) again
  rw [List.mem_singleton.mp member] at arms
  exact absurd arms (by decide)

end RvBoard.Rtc
