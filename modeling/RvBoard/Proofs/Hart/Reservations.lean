import RvBoard.Proofs.Hart.Isolation
import RvBoard.Proofs.Hart.Jumps
import RvBoard.Proofs.Hart.PreciseTraps
import RvBoard.Proofs.Hart.Views

/-!
# Reservations

The life of a hart is a row of moves. A load-reserved makes a reservation; a store-conditional, a trap
and a reset give it up, and nothing else touches it. So a store-conditional tries its store if and
only if the last load-reserved was at its address and none of these came in between.
-/

set_option autoImplicit false

namespace RvBoard.Hart

structure Moment where
  before : Hart
  move : Move

-- The moves of a hart since power-on, the latest first.
inductive Lifetime : List Moment → Hart → Prop
  | start (bus : Bus) : Lifetime [] { memory := { bus := bus } }
  | move {past : List Moment} {hart : Hart} (before : Lifetime past hart) (move : Move) :
      Lifetime (⟨hart, move⟩ :: past) (move.apply hart)

def storeIfReserved (width : AmoWidth) (args : AArgs) : HartM Bool := do
  let hart ← get
  let vaddr := hart.reg args.rs1
  let value := hart.reg args.rs2
  let reserved := hart.reservation == some vaddr
  set { hart with reservation := none }
  if reserved then storeData vaddr width.size value
  return reserved

namespace Moment

def after (moment : Moment) : Hart :=
  moment.move.apply moment.before

def Executes (moment : Moment) (instr : Instr) (ready : Hart) : Prop :=
  moment.move.executes moment.before ∧ fetchInstr moment.before.resumed = .ok instr ready

def Reserves (moment : Moment) (vaddr : UInt64) : Prop :=
  ∃ (width : AmoWidth) (args : AArgs) (ready next : Hart), moment.Executes ⟨.loadReserved width, args⟩ ready ∧
    execute ⟨.loadReserved width, args⟩ ready = .ok () next ∧ moment.before.reg args.rs1 = vaddr

def Conditional (moment : Moment) : Prop :=
  ∃ (width : AmoWidth) (args : AArgs) (ready : Hart), moment.Executes ⟨.storeConditional width, args⟩ ready

def Stores (moment : Moment) (vaddr : UInt64) : Prop :=
  ∃ (width : AmoWidth) (args : AArgs) (ready : Hart), moment.Executes ⟨.storeConditional width, args⟩ ready ∧
    moment.before.reg args.rs1 = vaddr ∧ value? (storeIfReserved width args ready) = some true

inductive Traps : Moment → Prop
  | stepped {hart : Hart} {which : Interrupt} (now : hart.resumed.interrupt? = some which) : Traps ⟨hart, .step true⟩
  | turned {hart : Hart} {stop : UInt64} {which : Interrupt} (now : hart.turn stop = .interrupt which) :
      Traps ⟨hart, .turn stop⟩
  | raised {hart mid : Hart} {move : Move} {why : Exception} (executes : move.executes hart)
      (failed : instruction hart.resumed = .error why mid) : Traps ⟨hart, move⟩

def Resets (moment : Moment) : Prop :=
  moment.move = .reset

def Quiet (moment : Moment) : Prop :=
  (∀ vaddr, ¬ moment.Reserves vaddr) ∧ ¬ moment.Conditional ∧ ¬ moment.Traps ∧ ¬ moment.Resets

end Moment

def Held (vaddr : UInt64) (past : List Moment) : Prop :=
  ∃ since moment earlier, past = since ++ moment :: earlier ∧ moment.Reserves vaddr ∧ ∀ other ∈ since, other.Quiet

inductive Concludes (width : AmoWidth) (args : AArgs) (ready : Hart) : Option Bool → Hart → Prop
  | stored {memory : Memory}
      (done : Memory.store (ready.reg args.rs1) width.size (ready.reg args.rs2) ready.dataContext ready.memory =
        .ok () memory) :
      Concludes width args ready (some true) { ready with
        memory := memory, registers := ready.registers.write args.rd 0, pc := ready.next, reservation := none
        instret := ready.instret + 1 }
  | refused :
      Concludes width args ready (some false) { ready with
        registers := ready.registers.write args.rd 1, pc := ready.next, reservation := none
        instret := ready.instret + 1 }
  | faulted {fault : MemFault} {memory : Memory}
      (failed : Memory.store (ready.reg args.rs1) width.size (ready.reg args.rs2) ready.dataContext ready.memory =
        .error fault memory) :
      Concludes width args ready none ({ ready with
        memory := memory, pendingTval := some (ready.reg args.rs1), reservation := none }.trap (.exception (.ofFault fault)))

section Storing

variable {width : AmoWidth} {args : AArgs} {ready : Hart}

theorem storeData_stores {hart : Hart} {vaddr value : UInt64} {size : Nat} {memory : Memory}
    (done : Memory.store vaddr size value hart.dataContext hart.memory = .ok () memory) :
    storeData vaddr size value hart = .ok () { hart with memory := memory } :=
  (bind_of_ok (get_run hart)).trans (accessMemory_ok .ofFault done)

theorem storeData_faults {hart : Hart} {vaddr value : UInt64} {size : Nat} {fault : MemFault} {memory : Memory}
    (failed : Memory.store vaddr size value hart.dataContext hart.memory = .error fault memory) :
    storeData vaddr size value hart =
      .error (.ofFault fault) { hart with memory := memory, pendingTval := some vaddr } :=
  (bind_of_ok (get_run hart)).trans (accessMemory_error .ofFault failed)

theorem storeIfReserved_run (width : AmoWidth) (args : AArgs) (ready : Hart) : storeIfReserved width args ready =
    if ready.reservation = some (ready.reg args.rs1) then
      (storeData (ready.reg args.rs1) width.size (ready.reg args.rs2) >>= fun _ => pure true : HartM Bool)
        { ready with reservation := none }
    else .ok false { ready with reservation := none } := by
  refine (bind_of_ok (get_run ready)).trans ((bind_of_ok (set_run { ready with reservation := none } ready)).trans ?_)
  by_cases reserved : ready.reservation = some (ready.reg args.rs1)
  · rw [if_pos reserved, beq_iff_eq.mpr reserved]
    rfl
  · rw [if_neg reserved, beq_eq_false_iff_ne.mpr reserved]
    rfl

theorem storeConditional_eq (width : AmoWidth) (args : AArgs) :
    storeConditional width args = (do
      let stored ← storeIfReserved width args
      writeReg args.rd (if stored then 0 else 1)
      finish) := by
  funext ready
  let released : Hart := { ready with reservation := none }
  have ran := storeIfReserved_run width args ready
  by_cases reserved : ready.reservation = some (ready.reg args.rs1)
  · have start : storeConditional width args ready =
        (do storeData (ready.reg args.rs1) width.size (ready.reg args.rs2); writeReg args.rd 0; finish : HartM Unit)
          released := by
      refine (bind_of_ok (get_run ready)).trans ((bind_of_ok (set_run released ready)).trans ?_)
      rw [beq_iff_eq.mpr reserved]
      rfl
    rw [if_pos reserved] at ran
    rw [start]
    cases outcome : storeData (ready.reg args.rs1) width.size (ready.reg args.rs2) released with
    | ok value next =>
      have made : storeIfReserved width args ready = .ok true next := ran.trans (bind_of_ok outcome)
      rw [bind_of_ok outcome, bind_of_ok made]
      rfl
    | error why next =>
      have failed : storeIfReserved width args ready = .error why next := ran.trans (bind_of_error outcome)
      rw [bind_of_error outcome, bind_of_error failed]
  · rw [if_neg reserved] at ran
    rw [storeConditional_unreserved ready width args (beq_eq_false_iff_ne.mpr reserved), bind_of_ok ran]
    rfl

theorem stored_or_not : value? (storeIfReserved width args ready) ≠ some false ↔
    ready.reservation = some (ready.reg args.rs1) := by
  rw [storeIfReserved_run]
  by_cases reserved : ready.reservation = some (ready.reg args.rs1)
  · rw [if_pos reserved]
    refine iff_of_true (fun refused => ?_) reserved
    obtain ⟨_, _, _, same⟩ := bind_ok.mp (value_ok refused)
    cases same
  · rw [if_neg reserved]
    exact iff_of_false (fun tried => tried rfl) reserved

theorem executeOne_concludes {hart : Hart} (fetched : fetchInstr hart = .ok ⟨.storeConditional width, args⟩ ready) :
    Concludes width args ready (value? (storeIfReserved width args ready)) hart.executeOne := by
  have executed : instruction hart = storeConditional width args ready := bind_of_ok fetched
  rw [storeConditional_eq] at executed
  by_cases reserved : ready.reservation = some (ready.reg args.rs1)
  · have ran := storeIfReserved_run width args ready
    rw [if_pos reserved] at ran
    let released : Hart := { ready with reservation := none }
    cases outcome : Memory.store (ready.reg args.rs1) width.size (ready.reg args.rs2) ready.dataContext ready.memory with
    | ok value memory =>
      have made : storeIfReserved width args ready = .ok true { released with memory := memory } :=
        ran.trans (bind_of_ok (@storeData_stores released _ _ _ _ outcome))
      rw [executeOne_ok (executed.trans (bind_of_ok made)), made]
      exact .stored outcome
    | error fault memory =>
      have failed : storeIfReserved width args ready =
          .error (.ofFault fault) { released with memory := memory, pendingTval := some (ready.reg args.rs1) } :=
        ran.trans (bind_of_error (@storeData_faults released _ _ _ _ _ outcome))
      rw [executeOne_error (executed.trans (bind_of_error failed)), failed]
      exact .faulted outcome
  · have refused : storeIfReserved width args ready = .ok false { ready with reservation := none } :=
      (storeIfReserved_run width args ready).trans (if_neg reserved)
    rw [executeOne_ok (executed.trans (bind_of_ok refused)), refused]
    exact .refused

theorem trap_reservation (hart : Hart) (trap : Trap) : (hart.trap trap).reservation = none := by
  obtain ⟨csrs, pc, same⟩ := (hart.trap_entered trap).frame
  rw [same]

theorem Concludes.reservation {stored : Option Bool} {next : Hart} (concludes : Concludes width args ready stored next) :
    next.reservation = none := by
  cases concludes with
  | faulted failed => exact trap_reservation _ _
  | _ => rfl

end Storing

section Instructions

variable {hart next : Hart}

theorem aside_reservation : Aside Hart.reservation :=
  fun _ _ _ _ _ _ _ => rfl

theorem finish_reservation : Leaves Hart.reservation finish :=
  leaves_modify fun _ => rfl

theorem written_reservation {reg : Reg} {value : UInt64} : Leaves Hart.reservation (do writeReg reg value; finish) :=
  leaves_bind (writeReg_leaves aside_reservation) fun _ => finish_reservation

theorem modified_reservation {allowed : Hart → Bool} {change : Hart → Hart}
    (stays : ∀ hart, (change hart).reservation = hart.reservation) :
    Leaves Hart.reservation (do require allowed; modify change; finish) :=
  leaves_bind require_leaves fun _ => leaves_bind (leaves_modify stays) fun _ => finish_reservation

theorem csr_reservation (op : CsrOp) (isImmediate : Bool) (args : IArgs) :
    Leaves Hart.reservation (csr op isImmediate args) := by
  have writes : ∀ value, Leaves Hart.reservation (writeNamed args.imm value) :=
    fun _ => writeNamed_leaves aside_reservation
  have changes : ∀ change, Leaves Hart.reservation (csrChange change isImmediate args) := fun change =>
    leaves_bind csrOperand_leaves fun operand => leaves_bind readNamed_leaves fun old =>
      leaves_ite (leaves_bind (writes _) fun _ => written_reservation) written_reservation
  cases op with
  | write =>
    exact leaves_bind csrOperand_leaves fun value => leaves_ite (leaves_bind (writes value) fun _ => finish_reservation)
      (leaves_bind readNamed_leaves fun old => leaves_bind (writes value) fun _ => written_reservation)
  | set => exact changes _
  | clear => exact changes _

theorem execute_reservation {instr : Instr} (done : execute instr hart = .ok () next) :
    (∃ width, instr.op = .loadReserved width) ∨ (∃ width, instr.op = .storeConditional width) ∨
      next.reservation = hart.reservation := by
  have left : ∀ {operation : HartM Unit}, Leaves Hart.reservation operation → operation hart = .ok () next →
      next.reservation = hart.reservation := fun leaves same => leaves.ok same
  obtain ⟨op, args⟩ := instr
  cases op with
  | loadReserved width => exact .inl ⟨width, rfl⟩
  | storeConditional width => exact .inr (.inl ⟨width, rfl⟩)
  | lui | auipc | jal | jalr | aluImm op | alu op | fence | fenceI =>
    cases done
    exact .inr (.inr rfl)
  | branch cond =>
    cases (branch_run hart cond args).symm.trans done
    exact .inr (.inr rfl)
  | load op =>
    exact .inr (.inr (left (leaves_bind readReg_leaves fun _ =>
      leaves_bind (loadData_leaves aside_reservation) fun _ => written_reservation) done))
  | store op =>
    exact .inr (.inr (left (leaves_bind readReg_leaves fun _ => leaves_bind readReg_leaves fun _ =>
      leaves_bind (storeData_leaves aside_reservation) fun _ => finish_reservation) done))
  | amo op width =>
    exact .inr (.inr (left (leaves_bind readReg_leaves fun _ => leaves_bind readReg_leaves fun _ =>
      leaves_bind (updateData_leaves aside_reservation) fun _ => written_reservation) done))
  | csr op isImmediate => exact .inr (.inr (left (csr_reservation op isImmediate args) done))
  | ecall =>
    obtain ⟨why, raised, _⟩ := hart.environmentCall_raises
    cases done.symm.trans raised
  | ebreak => cases done
  | sret =>
    obtain ⟨csrs, same, _⟩ := hart.returnSupervisor_eq
    rw [required_done done, same]
    exact .inr (.inr rfl)
  | mret =>
    obtain ⟨csrs, same, _⟩ := hart.returnMachine_eq
    rw [required_done done, same]
    exact .inr (.inr rfl)
  | wfi =>
    have stays : ∀ hart : Hart, ({ hart with waiting := true } : Hart).reservation = hart.reservation := fun _ => rfl
    exact .inr (.inr (left (modified_reservation stays) done))
  | sfenceVma =>
    have stays : ∀ hart : Hart, (mapMemory Memory.flush hart).reservation = hart.reservation := fun _ => rfl
    exact .inr (.inr (left (modified_reservation stays) done))

end Instructions

namespace Moment

variable {moment : Moment} {instr : Instr} {ready : Hart} {vaddr : UInt64}

theorem after_executes (executes : moment.move.executes moment.before) :
    moment.after = moment.before.resumed.executeOne.advance :=
  executing_eq ⟨moment.move, executes, rfl⟩

theorem Executes.fetched (executes : moment.Executes instr ready) :
    ready.registers = moment.before.registers ∧ ready.reservation = moment.before.reservation := by
  obtain ⟨raw, word, length, parcels, memory, read, meaning, rfl⟩ := fetchInstr_decoded executes.2
  exact ⟨rfl, rfl⟩

theorem Executes.reg (executes : moment.Executes instr ready) (reg : Reg) : ready.reg reg = moment.before.reg reg := by
  unfold Hart.reg
  rw [executes.fetched.1]

theorem Executes.instruction (executes : moment.Executes instr ready) :
    instruction moment.before.resumed = execute instr ready :=
  bind_of_ok executes.2

theorem Executes.concludes {width : AmoWidth} {args : AArgs}
    (executes : moment.Executes ⟨.storeConditional width, args⟩ ready) :
    ∃ next, Concludes width args ready (value? (storeIfReserved width args ready)) next ∧ moment.after = next.advance :=
  ⟨_, executeOne_concludes executes.2, after_executes executes.1⟩

theorem Reserves.reservation (reserves : moment.Reserves vaddr) : moment.after.reservation = some vaddr := by
  obtain ⟨width, args, ready, next, executes, done, rfl⟩ := reserves
  have asked : ready.access? ⟨.loadReserved width, args⟩ = some (.load (ready.reg args.rs1) width.size) := rfl
  obtain ⟨value, memory, ran⟩ := access_completes asked done
  cases (execute_accessed asked ran).symm.trans done
  rw [after_executes executes.1, executeOne_ok (executes.instruction.trans done), ← executes.reg]
  rfl

theorem Conditional.reservation (conditional : moment.Conditional) : moment.after.reservation = none := by
  obtain ⟨width, args, ready, executes⟩ := conditional
  obtain ⟨next, concludes, same⟩ := executes.concludes
  rw [same]
  exact concludes.reservation

theorem Traps.reservation (traps : moment.Traps) : moment.after.reservation = none := by
  cases traps with
  | @stepped hart which now =>
    have same : Moment.after ⟨hart, .step true⟩ = (hart.resumed.trap (.interrupt which)).advance := step_interrupts now
    rw [same]
    exact trap_reservation _ _
  | @turned hart stop which now =>
    have same : Moment.after ⟨hart, .turn stop⟩ = ({ hart with waiting := false }.trap (.interrupt which)).advance := by
      simp only [after, Move.apply, afterTurn, now]
    rw [same]
    exact trap_reservation _ _
  | @raised hart mid move why executes failed =>
    have same : Moment.after ⟨hart, move⟩ = hart.resumed.executeOne.advance := after_executes executes
    rw [same, executeOne_error failed]
    exact trap_reservation _ _

theorem Resets.reservation (resets : moment.Resets) : moment.after.reservation = none := by
  obtain ⟨before, move⟩ := moment
  obtain rfl : move = .reset := resets
  rfl

theorem executed_quiet (executes : moment.move.executes moment.before) (quiet : moment.Quiet) :
    moment.after.reservation = moment.before.reservation := by
  obtain ⟨unreserved, unconditional, untrapped, _⟩ := quiet
  rw [after_executes executes]
  cases outcome : Hart.instruction moment.before.resumed with
  | error why mid => exact absurd (.raised executes outcome) untrapped
  | ok value next =>
    obtain ⟨⟨op, args⟩, ready, fetched, done⟩ := bind_ok.mp outcome
    have executed : moment.Executes ⟨op, args⟩ ready := ⟨executes, fetched⟩
    rw [executeOne_ok outcome]
    rcases execute_reservation done with ⟨width, rfl⟩ | ⟨width, rfl⟩ | same
    · exact absurd ⟨width, args, ready, next, executed, done, rfl⟩ (unreserved _)
    · exact absurd ⟨width, args, ready, executed⟩ unconditional
    · exact same.trans executed.fetched.2

theorem Quiet.reservation (quiet : moment.Quiet) : moment.after.reservation = moment.before.reservation := by
  obtain ⟨hart, move⟩ := moment
  have executed : move.executes hart → (move.apply hart).reservation = hart.reservation := fun executes =>
    @executed_quiet ⟨hart, move⟩ executes quiet
  obtain ⟨_, _, untrapped, unreset⟩ := quiet
  change (move.apply hart).reservation = hart.reservation
  cases move with
  | step deliver =>
    cases deliver with
    | false => exact executed rfl
    | true =>
      cases now : hart.resumed.interrupt? with
      | none => exact executed now
      | some which => exact absurd (.stepped now) untrapped
  | turn stop =>
    cases now : hart.turn stop with
    | stop reason => cases reason <;> simp only [Move.apply, afterTurn, now]
    | wait =>
      simp only [Move.apply, afterTurn, now]
      rfl
    | interrupt which => exact absurd (.turned now) untrapped
    | instruction => exact executed now
  | reset => exact absurd rfl unreset
  | setCsr address value =>
    change (hart.debugSetCsr address value).reservation = _
    unfold debugSetCsr
    cases Csr.ofAddress? address with
    | none => rfl
    | some csr =>
      obtain ⟨csrs, memory, instret, cycleOffset, same⟩ := hart.writeCsr_frame csr value
      simp only [same]
  | readMemory vaddr n =>
    change (hart.runMemory _).2.reservation = _
    rw [runMemory_frame]
  | writeMemory vaddr bytes =>
    change (hart.runMemory _).2.reservation = _
    rw [runMemory_frame]
  | _ => rfl

end Moment

section Histories

variable {past : List Moment} {hart : Hart} {vaddr : UInt64}

theorem held_iff (lived : Lifetime past hart) : hart.reservation = some vaddr ↔ Held vaddr past := by
  induction lived with
  | start bus =>
    refine iff_of_false (fun reserved => ?_) ?_
    · cases reserved
    · rintro ⟨since, moment, earlier, same, _⟩
      simp at same
  | @move past hart before move ih =>
    let moment : Moment := ⟨hart, move⟩
    constructor
    · intro reserved
      have stays : moment.after.reservation = some vaddr := reserved
      by_cases reserves : ∃ other, moment.Reserves other
      · obtain ⟨other, here⟩ := reserves
        cases here.reservation.symm.trans stays
        exact ⟨[], moment, past, rfl, here, by simp⟩
      · have unconditional : ¬ moment.Conditional := fun here => by cases here.reservation.symm.trans stays
        have untrapped : ¬ moment.Traps := fun here => by cases here.reservation.symm.trans stays
        have unreset : ¬ moment.Resets := fun here => by cases here.reservation.symm.trans stays
        have quiet : moment.Quiet := ⟨not_exists.mp reserves, unconditional, untrapped, unreset⟩
        obtain ⟨since, source, earlier, rfl, here, silent⟩ := ih.mp (quiet.reservation.symm.trans stays)
        refine ⟨moment :: since, source, earlier, rfl, here, ?_⟩
        simpa only [List.forall_mem_cons] using ⟨quiet, silent⟩
    · rintro ⟨since, source, earlier, same, here, silent⟩
      change moment :: past = _ at same
      cases since with
      | nil =>
        obtain ⟨rfl, rfl⟩ := List.cons.inj same
        exact here.reservation
      | cons first since =>
        obtain ⟨rfl, rfl⟩ := List.cons.inj same
        obtain ⟨quiet, silent⟩ := List.forall_mem_cons.mp silent
        exact quiet.reservation.trans (ih.mpr ⟨since, source, earlier, rfl, here, silent⟩)

theorem Lifetime.split {later earlier : List Moment} {moment : Moment} (lived : Lifetime past hart)
    (same : past = later ++ moment :: earlier) : Lifetime earlier moment.before := by
  induction lived generalizing later with
  | start bus => simp at same
  | move before move ih =>
    cases later with
    | nil =>
      obtain ⟨rfl, rfl⟩ := List.cons.inj same
      exact before
    | cons last later => exact ih (List.cons.inj same).2

theorem tries_iff (lived : Lifetime past hart) {move : Move} {width : AmoWidth} {args : AArgs} {ready : Hart}
    (executes : Moment.Executes ⟨hart, move⟩ ⟨.storeConditional width, args⟩ ready) :
    value? (storeIfReserved width args ready) ≠ some false ↔ Held (hart.reg args.rs1) past := by
  rw [stored_or_not, executes.fetched.2, executes.reg]
  exact held_iff lived

theorem Moment.Stores.conditional {moment : Moment} (stores : moment.Stores vaddr) : moment.Conditional := by
  obtain ⟨width, args, ready, executes, _⟩ := stores
  exact ⟨width, args, ready, executes⟩

theorem stores_held {later earlier : List Moment} {moment : Moment} (lived : Lifetime past hart)
    (same : past = later ++ moment :: earlier) (stores : moment.Stores vaddr) : Held vaddr earlier := by
  obtain ⟨width, args, ready, executes, rfl, stored⟩ := stores
  refine (tries_iff (lived.split same) executes).mp ?_
  rw [stored]
  simp

-- What a hart's past says of its store-conditionals, and of the next one.
structure Paired (past : List Moment) (hart : Hart) : Prop where
  tries : ∀ {move : Move} {width : AmoWidth} {args : AArgs} {ready : Hart},
    Moment.Executes ⟨hart, move⟩ ⟨.storeConditional width, args⟩ ready →
      (value? (storeIfReserved width args ready) ≠ some false ↔ Held (hart.reg args.rs1) past)
  concludes : ∀ {move : Move} {width : AmoWidth} {args : AArgs} {ready : Hart},
    Moment.Executes ⟨hart, move⟩ ⟨.storeConditional width, args⟩ ready →
      ∃ next, Concludes width args ready (value? (storeIfReserved width args ready)) next ∧ move.apply hart = next.advance
  unstored : ∀ {move : Move} {width : AmoWidth} {args : AArgs} {ready : Hart},
    Moment.Executes ⟨hart, move⟩ ⟨.storeConditional width, args⟩ ready → ¬ Held (hart.reg args.rs1) past →
      Bus.SameMemory ready.bus (move.apply hart).bus
  -- Of two that store, the second has a load-reserved of its own,
  once : ∀ {later between earlier second first a b}, past = later ++ second :: (between ++ first :: earlier) →
    Moment.Stores second b → Moment.Stores first a → ∃ moment ∈ between, moment.Reserves b
  -- and between a load-reserved and the store that it allows no trap is taken.
  untrapped : ∀ {later earlier moment a}, past = later ++ moment :: earlier → Moment.Stores moment a →
    ∃ since source older, earlier = since ++ source :: older ∧ source.Reserves a ∧ ∀ other ∈ since, ¬ other.Traps

/-- Over every life of a hart, a store-conditional tries its store if and only if the last load-reserved was at its address
and since then there was no store-conditional, no trap and no reset. It then stores its operand and gives zero, or traps as
the store fails; any other gives one and stores nothing. -/
theorem reservations_paired (lived : Lifetime past hart) : Paired past hart where
  tries executes := tries_iff lived executes
  concludes executes := executes.concludes
  unstored {move width args ready} executes unheld := by
    have refused := Decidable.byContradiction (mt (tries_iff lived executes).mp unheld)
    obtain ⟨next, concludes, ends⟩ := executes.concludes
    have same : move.apply hart = next.advance := ends
    rw [refused] at concludes
    cases concludes
    rw [same]
    exact ⟨rfl, fun _ => rfl⟩
  once {later between earlier second first a b} same stores stored := by
    obtain ⟨since, source, older, split, reserves, quiet⟩ := stores_held lived same stores
    have distinct : source ≠ first := by
      rintro rfl
      cases reserves.reservation.symm.trans stored.conditional.reservation
    rcases List.append_eq_append_iff.mp split with ⟨rest, here, ends⟩ | ⟨rest, here, ends⟩
    · cases rest with
      | nil => exact absurd (List.cons.inj ends).1.symm distinct
      | cons other rest =>
        obtain rfl := (List.cons.inj ends).1
        exact absurd stored.conditional (quiet first (by simp [here])).2.1
    · cases rest with
      | nil => exact absurd (List.cons.inj ends).1 distinct
      | cons other rest =>
        obtain rfl := (List.cons.inj ends).1
        exact ⟨source, by simp [here], reserves⟩
  untrapped same stores := by
    obtain ⟨since, source, older, split, reserves, quiet⟩ := stores_held lived same stores
    exact ⟨since, source, older, split, reserves, fun other member => (quiet other member).2.2.1⟩

end Histories

def pairingProgram : Bus :=
  .ofMemory resetVector ⟨⟨#[0x97, 0, 0, 0, 0x2f, 0xa1, 0, 0x10, 0xaf, 0xa1, 0, 0x18, 0xaf, 0xa1, 0, 0x18]⟩⟩

def pairing : Nat → Hart
  | 0 => { memory := { bus := pairingProgram } }
  | n + 1 => (pairing n).stepInstruction false

def pairingPast : Nat → List Moment
  | 0 => []
  | n + 1 => ⟨pairing n, .step false⟩ :: pairingPast n

theorem pairing_lived (n : Nat) : Lifetime (pairingPast n) (pairing n) := by
  induction n with
  | zero => exact .start pairingProgram
  | succ n ih => exact ih.move (.step false)

def storeWord : AArgs :=
  { rs1 := .ofNat 1, rs2 := .zero, rd := .ofNat 3, rl := false, aq := false }

theorem pairing_executes {n : Nat}
    (fetched : value? (fetchInstr (pairing n).resumed) = some ⟨.storeConditional .word, storeWord⟩) :
    Moment.Executes ⟨pairing n, .step false⟩ ⟨.storeConditional .word, storeWord⟩ (left (fetchInstr (pairing n).resumed)) :=
  ⟨rfl, value_ok fetched⟩

theorem reservations_paired_twice :
    Lifetime (pairingPast 2) (pairing 2) ∧ Held resetVector (pairingPast 2) ∧ ¬ Held resetVector (pairingPast 3) := by
  have first := pairing_executes (show value? (fetchInstr (pairing 2).resumed) = _ by decide +kernel)
  have second := pairing_executes (show value? (fetchInstr (pairing 3).resumed) = _ by decide +kernel)
  have stored : value? (storeIfReserved .word storeWord (left (fetchInstr (pairing 2).resumed))) = some true := by
    decide +kernel
  have refused : value? (storeIfReserved .word storeWord (left (fetchInstr (pairing 3).resumed))) = some false := by
    decide +kernel
  have here : (pairing 2).reg storeWord.rs1 = resetVector ∧ (pairing 3).reg storeWord.rs1 = resetVector := by
    decide +kernel
  have held := (reservations_paired (pairing_lived 2)).tries first
  have unheld := (reservations_paired (pairing_lived 3)).tries second
  rw [here.1, stored] at held
  rw [here.2, refused] at unheld
  exact ⟨pairing_lived 2, held.mp (by decide), fun again => unheld.mpr again rfl⟩

end RvBoard.Hart
