import RvBoard.Proofs.Hart.Masking

/-!
# Selecting and delivering interrupts

The hart takes an interrupt if some interrupt is pending and enabled and accepted by the mode that is to
handle it: the first such interrupt for machine mode, else the first one for supervisor mode. It enters
that mode, which takes no further interrupts until software turns them on again.
-/

set_option autoImplicit false

namespace RvBoard

namespace Interrupt

def rank : Interrupt → Nat
  | machineExternal => 0
  | machineSoft => 1
  | machineTimer => 2
  | supervisorExternal => 3
  | supervisorSoft => 4
  | supervisorTimer => 5

def shownBy (which : Interrupt) (register : UInt64) : Bool :=
  register.toBitVec.getLsbD which.code

theorem mask_shown (which : Interrupt) (register : UInt64) : (register &&& which.mask != 0) = which.shownBy register := by
  have inside : which.code < 64 := by cases which <;> decide
  refine word_single inside ?_ register
  cases which <;> decide

@[simp] theorem shownBy_and (which : Interrupt) (a b : UInt64) :
    which.shownBy (a &&& b) = (which.shownBy a && which.shownBy b) := by
  simp [shownBy]

@[simp] theorem shownBy_not (which : Interrupt) (a : UInt64) : which.shownBy (~~~a) = !which.shownBy a := by
  have inside : which.code < 64 := by cases which <;> decide
  simp [shownBy, inside]

@[simp] theorem shownBy_zero (which : Interrupt) : which.shownBy 0 = false := by
  simp [shownBy]

theorem rank_injective {a b : Interrupt} (same : a.rank = b.rank) : a = b := by
  revert same
  cases a <;> cases b <;> decide

theorem priority_rank (which : Interrupt) : priority[which.rank]? = some which := by
  cases which <;> rfl

theorem find_priority {chosen : Interrupt → Bool} {which : Interrupt} : priority.find? chosen = some which ↔
    chosen which = true ∧ ∀ other, chosen other = true → which.rank ≤ other.rank := by
  have placed : ∀ i (inside : i < priority.length), priority[i].rank = i := by decide
  rw [List.find?_eq_some_iff_getElem]
  constructor
  · rintro ⟨fits, i, inside, here, before⟩
    refine ⟨fits, fun other also => Nat.le_of_not_lt fun earlier => ?_⟩
    rw [← here, placed i inside] at earlier
    obtain ⟨_, there⟩ := List.getElem?_eq_some_iff.mp (priority_rank other)
    have unfit := before other.rank earlier
    rw [there, also] at unfit
    cases unfit
  · rintro ⟨fits, least⟩
    obtain ⟨inside, here⟩ := List.getElem?_eq_some_iff.mp (priority_rank which)
    refine ⟨fits, which.rank, inside, here, fun j earlier => ?_⟩
    rw [Bool.not_eq_true', ← Bool.not_eq_true]
    intro also
    have later := least _ also
    rw [placed j (Nat.lt_trans earlier inside)] at later
    exact absurd earlier (Nat.not_lt.mpr later)

end Interrupt

-- The register with the trap vector of a mode.
def Csr.vector (mode : Privilege) : Csr :=
  if mode = .machine then .mtvec else .stvec

namespace Hart

-- Where a vector sends interrupts: to its base, or to an entry for each of them.
def vectorEntry (vector : UInt64) (which : Interrupt) : UInt64 :=
  UInt64.ofNat (vector.toNat / 4 * 4 + if vector.toNat % 4 = 1 then 4 * which.code else 0)

def destination (hart : Hart) (which : Interrupt) : Privilege :=
  if which.shownBy (hart.csrs.get .mideleg) then .supervisor else .machine

def Accepts (hart : Hart) (mode : Privilege) : Prop :=
  hart.privilege.below mode = true ∨ hart.privilege = mode ∧ hart.status (Mstatus.enable mode) = true

structure Deliverable (hart : Hart) (which : Interrupt) : Prop where
  pending : which.shownBy hart.pending = true
  enabled : which.shownBy (hart.csrs.get .mie) = true
  accepted : hart.Accepts (hart.destination which)

-- Interrupts for machine mode go before those for supervisor mode, and among each other they have an order.
def Precedes (hart : Hart) (which other : Interrupt) : Prop :=
  hart.destination which = .machine ∧ hart.destination other = .supervisor ∨
    hart.destination which = hart.destination other ∧ which.rank < other.rank

-- An interrupt is taken, by a step or by a turn of a run.
inductive Takes (hart : Hart) (which : Interrupt) : Hart → Prop
  | step (first : hart.interrupt? = some which) : Takes hart which (hart.stepInstruction true)
  | turn (stop : UInt64) (now : hart.turn stop = .interrupt which) : Takes hart which (hart.afterTurn stop)

variable {hart next : Hart} {which : Interrupt}

section Selection

theorem destination_machine : hart.destination which = .machine ↔ which.shownBy (hart.csrs.get .mideleg) = false := by
  cases shown : which.shownBy (hart.csrs.get .mideleg) <;> simp [destination, shown]

theorem destination_supervisor : hart.destination which = .supervisor ↔ which.shownBy (hart.csrs.get .mideleg) = true := by
  cases shown : which.shownBy (hart.csrs.get .mideleg) <;> simp [destination, shown]

theorem destination_cases (hart : Hart) (which : Interrupt) :
    hart.destination which = .machine ∨ hart.destination which = .supervisor := by
  cases shown : which.shownBy (hart.csrs.get .mideleg) <;> simp [destination, shown]

theorem machineEnabled_iff : hart.machineEnabled = true ↔ hart.Accepts .machine := by
  unfold machineEnabled Accepts
  cases hart.privilege <;> simp [Privilege.below, Privilege.bits, Mstatus.enable]

theorem supervisorEnabled_iff : hart.supervisorEnabled = true ↔ hart.Accepts .supervisor := by
  unfold supervisorEnabled Accepts
  cases hart.privilege <;> simp [Privilege.below, Privilege.bits, Mstatus.enable]

def machineSet (hart : Hart) : UInt64 :=
  if hart.machineEnabled then hart.pending &&& hart.csrs.get .mie &&& ~~~hart.csrs.get .mideleg else 0

def supervisorSet (hart : Hart) : UInt64 :=
  if hart.supervisorEnabled then hart.pending &&& hart.csrs.get .mie &&& hart.csrs.get .mideleg else 0

theorem machineSet_shown :
    which.shownBy hart.machineSet = true ↔ hart.Deliverable which ∧ hart.destination which = .machine := by
  unfold machineSet
  constructor
  · intro shown
    by_cases enabled : hart.machineEnabled = true
    · rw [if_pos enabled] at shown
      simp only [Interrupt.shownBy_and, Interrupt.shownBy_not, Bool.and_eq_true, Bool.not_eq_true'] at shown
      have here := destination_machine.mpr shown.2
      exact ⟨⟨shown.1.1, shown.1.2, here ▸ machineEnabled_iff.mp enabled⟩, here⟩
    · simp [enabled] at shown
  · rintro ⟨deliverable, here⟩
    have accepted := deliverable.accepted
    rw [here] at accepted
    simp [machineEnabled_iff.mpr accepted, deliverable.pending, deliverable.enabled, destination_machine.mp here]

theorem supervisorSet_shown :
    which.shownBy hart.supervisorSet = true ↔ hart.Deliverable which ∧ hart.destination which = .supervisor := by
  unfold supervisorSet
  constructor
  · intro shown
    by_cases enabled : hart.supervisorEnabled = true
    · rw [if_pos enabled] at shown
      simp only [Interrupt.shownBy_and, Bool.and_eq_true] at shown
      have here := destination_supervisor.mpr shown.2
      exact ⟨⟨shown.1.1, shown.1.2, here ▸ supervisorEnabled_iff.mp enabled⟩, here⟩
    · simp [enabled] at shown
  · rintro ⟨deliverable, here⟩
    have accepted := deliverable.accepted
    rw [here] at accepted
    simp [supervisorEnabled_iff.mpr accepted, deliverable.pending, deliverable.enabled, destination_supervisor.mp here]

theorem firstOf_eq (set : UInt64) : firstOf set = Interrupt.priority.find? (·.shownBy set) := by
  unfold firstOf
  simp only [Interrupt.mask_shown]

theorem firstOf_some {set : UInt64} :
    firstOf set = some which ↔
      which.shownBy set = true ∧ ∀ other : Interrupt, other.shownBy set = true → which.rank ≤ other.rank := by
  rw [firstOf_eq, Interrupt.find_priority]

theorem firstOf_none {set : UInt64} : firstOf set = none ↔ ∀ which : Interrupt, which.shownBy set = false := by
  have every : ∀ which : Interrupt, which ∈ Interrupt.priority := by
    intro which
    cases which <;> decide
  simp [firstOf_eq, every]

theorem interrupt_eq (hart : Hart) : hart.interrupt? = (firstOf hart.machineSet).or (firstOf hart.supervisorSet) := by
  unfold interrupt?
  by_cases waiting : hart.pending &&& hart.csrs.get .mie = 0
  · have machine : hart.machineSet = 0 := by simp [machineSet, waiting]
    have supervisor : hart.supervisorSet = 0 := by simp [supervisorSet, waiting]
    have none : firstOf 0 = none := firstOf_none.mpr Interrupt.shownBy_zero
    simp [waiting, machine, supervisor, none]
  · simp only [waiting, if_false]
    rfl

theorem interrupt_none : hart.interrupt? = none ↔ ∀ which, ¬ hart.Deliverable which := by
  rw [interrupt_eq, Option.or_eq_none_iff, firstOf_none, firstOf_none]
  simp only [← Bool.not_eq_true, machineSet_shown, supervisorSet_shown]
  constructor
  · rintro ⟨machine, supervisor⟩ which deliverable
    rcases hart.destination_cases which with here | here
    · exact machine which ⟨deliverable, here⟩
    · exact supervisor which ⟨deliverable, here⟩
  · intro quiet
    exact ⟨fun which found => quiet which found.1, fun which found => quiet which found.1⟩

theorem precedes_of_rank {other : Interrupt} (same : hart.destination which = hart.destination other)
    (least : which.rank ≤ other.rank) : other = which ∨ hart.Precedes which other := by
  rcases Nat.eq_or_lt_of_le least with equal | less
  · exact .inl (Interrupt.rank_injective equal.symm)
  · exact .inr (.inr ⟨same, less⟩)

theorem rank_of_precedes {other : Interrupt} (same : hart.destination which = hart.destination other)
    (first : other = which ∨ hart.Precedes which other) : which.rank ≤ other.rank := by
  rcases first with rfl | ⟨machine, supervisor⟩ | ⟨_, less⟩
  · exact Nat.le_refl _
  · rw [machine, supervisor] at same
    cases same
  · exact Nat.le_of_lt less

theorem interrupt_some : hart.interrupt? = some which ↔
    hart.Deliverable which ∧ ∀ other, hart.Deliverable other → other = which ∨ hart.Precedes which other := by
  rw [interrupt_eq, Option.or_eq_some_iff, firstOf_some, firstOf_some, firstOf_none]
  simp only [← Bool.not_eq_true, machineSet_shown, supervisorSet_shown]
  constructor
  · rintro (⟨⟨deliverable, here⟩, least⟩ | ⟨none, ⟨deliverable, here⟩, least⟩)
    · refine ⟨deliverable, fun other also => ?_⟩
      rcases hart.destination_cases other with there | there
      · exact precedes_of_rank (here.trans there.symm) (least other ⟨also, there⟩)
      · exact .inr (.inl ⟨here, there⟩)
    · refine ⟨deliverable, fun other also => ?_⟩
      rcases hart.destination_cases other with there | there
      · exact absurd ⟨also, there⟩ (none other)
      · exact precedes_of_rank (here.trans there.symm) (least other ⟨also, there⟩)
  · rintro ⟨deliverable, first⟩
    rcases hart.destination_cases which with here | here
    · refine .inl ⟨⟨deliverable, here⟩, fun other ⟨also, there⟩ => ?_⟩
      exact rank_of_precedes (here.trans there.symm) (first other also)
    · refine .inr ⟨fun other ⟨also, there⟩ => ?_, ⟨deliverable, here⟩, fun other ⟨also, there⟩ => ?_⟩
      · rcases first other also with rfl | ⟨machine, _⟩ | ⟨same, _⟩
        · rw [here] at there
          cases there
        · rw [here] at machine
          cases machine
        · rw [here, there] at same
          cases same
      · exact rank_of_precedes (here.trans there.symm) (first other also)

end Selection

section Delivery

theorem vector_base (vector : UInt64) : (vector &&& ~~~(3 : UInt64)).toNat = vector.toNat / 4 * 4 :=
  @toNat_high 3 2 rfl vector

theorem handler_entry (which : Interrupt) (vector : UInt64) :
    (Trap.interrupt which).handler vector = vectorEntry vector which := by
  have mode : vector &&& 3 = 1 ↔ vector.toNat % 4 = 1 := by
    rw [← UInt64.toNat_inj]
    exact Eq.congr_left (@toNat_low 3 2 rfl vector)
  have base : vector &&& ~~~(3 : UInt64) = UInt64.ofNat (vector.toNat / 4 * 4) := by
    rw [← vector_base, UInt64.ofNat_toNat]
  unfold Trap.handler vectorEntry
  by_cases vectored : vector.toNat % 4 = 1
  · simp only [mode.mpr vectored, vectored, if_true, base, UInt64.ofNat_add, UInt64.ofNat_mul]
    rfl
  · have direct : ¬ vector &&& 3 = 1 := fun same => vectored (mode.mp same)
    simp only [direct, vectored, if_false, base, Nat.add_zero]

theorem trap_vector (hart : Hart) (trap : Trap) :
    (hart.trap trap).pc = trap.handler (hart.csrs.get (.vector (hart.handlerMode trap))) := by
  unfold Hart.trap handlerMode
  by_cases delegated : hart.delegates trap = true
  · have delegates : Hart.delegates { hart with pendingTval := none, reservation := none } trap = true := delegated
    dsimp only
    rw [if_pos delegated, if_pos delegates]
    unfold enterSupervisor setStatus setCsr
    simp only [CsrFile.get_set, reduceCtorEq, if_false]
    rfl
  · have keeps : ¬ Hart.delegates { hart with pendingTval := none, reservation := none } trap = true := delegated
    dsimp only
    rw [if_neg delegated, if_neg keeps]
    unfold enterMachine setStatus setPreviousPrivilege setCsr
    simp only [CsrFile.get_set, reduceCtorEq, if_false]
    rfl

theorem accepted_handled (accepted : hart.Accepts (hart.destination which)) :
    hart.handlerMode (.interrupt which) = hart.destination which := by
  have delegated : (Trap.interrupt which).delegated hart.csrs = which.shownBy (hart.csrs.get .mideleg) :=
    which.mask_shown _
  rw [handlerMode, delegates, delegated]
  rcases hart.destination_cases which with here | here
  · simp [here, destination_machine.mp here]
  · have lower : hart.privilege ≠ .machine := by
      intro machine
      rw [here] at accepted
      rcases accepted with below | ⟨same, _⟩
      · rw [machine] at below
        exact absurd below (by decide)
      · rw [machine] at same
        cases same
    simp [here, destination_supervisor.mp here, lower]

theorem turn_interrupt {stop : UInt64} (now : hart.turn stop = .interrupt which) : hart.interrupt? = some which := by
  unfold turn at now
  split at now
  · cases now
  split at now
  · cases now
  split at now
  · cases now
  split at now
  · rename_i other found
    cases now
    exact found
  · split at now <;> cases now

theorem takes_delivers (takes : Takes hart which next) : hart.interrupt? = some which ∧
    next.privilege = hart.destination which ∧
    next.pc = vectorEntry (hart.csrs.get (.vector (hart.destination which))) which := by
  have entered : ∀ awake : Hart, awake.csrs = hart.csrs → awake.privilege = hart.privilege →
      hart.interrupt? = some which → (awake.trap (.interrupt which)).privilege = hart.destination which ∧
        (awake.trap (.interrupt which)).pc = vectorEntry (hart.csrs.get (.vector (hart.destination which))) which := by
    intro awake csrs level selected
    have handled := accepted_handled (interrupt_some.mp selected).1.accepted
    have same : awake.handlerMode (.interrupt which) = hart.handlerMode (.interrupt which) := by
      have delegates : awake.delegates (.interrupt which) = hart.delegates (.interrupt which) := by
        simp only [delegates, csrs, level]
      simp only [handlerMode, delegates]
    rw [(awake.trap_entered _).privilege, trap_vector, same, handled, csrs, handler_entry]
    exact ⟨rfl, rfl⟩
  cases takes with
  | step first =>
    have taken : hart.stepInstruction true = (hart.resumed.trap (.interrupt which)).advance := by
      unfold stepInstruction
      extract_lets awake
      have chosen : (if true then awake.interrupt? else none) = some which := first
      rw [chosen]
      rfl
    rw [taken]
    exact ⟨first, entered hart.resumed rfl rfl first⟩
  | turn stop now =>
    have selected := turn_interrupt now
    have taken : hart.afterTurn stop = ({ hart with waiting := false }.trap (.interrupt which)).advance := by
      simp only [afterTurn, now]
    rw [taken]
    exact ⟨selected, entered { hart with waiting := false } rfl rfl selected⟩

end Delivery

theorem Masked.refuses {mode : Privilege} (masked : Masked hart mode) : ¬ hart.Accepts mode := by
  rintro (below | ⟨_, enabled⟩)
  · exact Bool.false_ne_true (masked.level.symm.trans below)
  · exact Bool.false_ne_true (masked.disabled.symm.trans enabled)

theorem Masked.quiet (masked : Masked hart .machine) : hart.interrupt? = none := by
  refine interrupt_none.mpr fun which deliverable => ?_
  have accepted := deliverable.accepted
  rcases hart.destination_cases which with here | here
  · rw [here] at accepted
    exact masked.refuses accepted
  · have level := masked.level
    rw [here] at accepted
    rcases accepted with below | ⟨same, _⟩
    · cases lower : hart.privilege with
      | machine =>
        rw [lower] at below
        exact absurd below (by decide)
      | _ =>
        rw [lower] at level
        exact absurd level (by decide)
    · rw [same] at level
      exact absurd level (by decide)

/-- The hart has an interrupt to take if and only if one is pending, enabled, and accepted by the mode it is for. It is the
first of those for machine mode, or of those for supervisor mode if there are none. Whoever takes it enters that mode where
its vector says. After a trap no interrupt for the mode that handles it (none at all, for machine mode) can be taken until
software turns them on again. -/
theorem interrupts_delivered (hart : Hart) :
    (∀ which, hart.interrupt? = some which ↔
      hart.Deliverable which ∧ ∀ other, hart.Deliverable other → other = which ∨ hart.Precedes which other) ∧
    (hart.interrupt? = none ↔ ∀ which, ¬ hart.Deliverable which) ∧
    (∀ which next, Takes hart which next → hart.interrupt? = some which ∧ next.privilege = hart.destination which ∧
      next.pc = vectorEntry (hart.csrs.get (.vector (hart.destination which))) which) ∧
    ∀ trap later, Onward (KeepsMasked (hart.trap trap).privilege) (hart.trap trap) later →
      ((hart.trap trap).privilege = .machine → later.interrupt? = none) ∧
      ((hart.trap trap).privilege = .supervisor →
        ∀ which, later.destination which = .supervisor → ¬ later.Deliverable which) := by
  refine ⟨fun which => interrupt_some, interrupt_none, fun which next takes => takes_delivers takes, ?_⟩
  intro trap later onward
  have start : Masked (hart.trap trap) (hart.trap trap).privilege := by
    rw [(hart.trap_entered trap).privilege]
    exact hart.trap_masks trap
  have masked := onward_masked start onward
  refine ⟨fun machine => ?_, fun supervisor which here deliverable => ?_⟩
  · rw [machine] at masked
    exact masked.quiet
  · rw [supervisor] at masked
    have accepted := deliverable.accepted
    rw [here] at accepted
    exact masked.refuses accepted

end Hart

end RvBoard
