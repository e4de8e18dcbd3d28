import RvBoard.Proofs.Hart.Moves
import RvBoard.Proofs.Hart.TrapEntry

/-!
# Privilege containment

What an instruction may change depends on the privilege it runs with. Nothing but a trap raises the
privilege, and the right to load and store with the privilege of interrupted code does not leave
machine mode.
-/

set_option autoImplicit false

namespace RvBoard

namespace Csr

theorem readOnly_of_user {csr : Csr} (user : csr.privilege = .user) : csr.isReadOnly = true := by
  have every : ∀ csr ∈ Csr.all, csr.privilege = .user → csr.isReadOnly = true := by decide
  exact every csr csr.mem_all user

theorem target_of_supervisor {csr : Csr} (supervisor : csr.privilege = .supervisor) :
    csr.target = csr ∨ csr = .sstatus ∨ csr = .sie ∨ csr = .sip := by
  have every : ∀ csr ∈ Csr.all, csr.privilege = .supervisor →
      csr.target = csr ∨ csr = .sstatus ∨ csr = .sie ∨ csr = .sip := by decide
  exact every csr csr.mem_all supervisor

end Csr

namespace Hart

-- What user mode leaves as it was, with so many instructions counted.
structure UserKeeps (hart next : Hart) (retired : UInt64) : Prop where
  privilege : next.privilege = .user
  paging : Memory.SamePaging hart.memory next.memory
  csrs : next.csrs = hart.csrs
  cycleOffset : next.cycleOffset = hart.cycleOffset
  instret : next.instret = hart.instret + retired

def machineStatus : UInt64 :=
  ~~~(Mstatus.supervisorWritable ||| Mstatus.mprv)

-- What supervisor mode leaves of the machine registers and counters as it was.
structure SupervisorKeeps (hart : Hart) (instr : Instr) (next : Hart) (retired : UInt64) : Prop where
  others : ∀ csr, csr.privilege = .machine → csr ∉ [.mstatus, .mie, .mip] → next.csrs.get csr = hart.csrs.get csr
  cycleOffset : next.cycleOffset = hart.cycleOffset
  instret : next.instret = hart.instret + retired
  status : next.csrs.get .mstatus &&& machineStatus = hart.csrs.get .mstatus &&& machineStatus
  mprv : next.csrs.get .mstatus &&& Mstatus.mprv = hart.csrs.get .mstatus &&& Mstatus.mprv ∨
    instr.op = .sret ∧ next.csrs.get .mstatus &&& Mstatus.mprv = 0
  enabled : next.csrs.get .mie &&& ~~~(hart.csrs.get .mideleg) = hart.csrs.get .mie &&& ~~~(hart.csrs.get .mideleg)
  pending : next.csrs.get .mip &&& ~~~(Mip.ssip &&& hart.csrs.get .mideleg) =
    hart.csrs.get .mip &&& ~~~(Mip.ssip &&& hart.csrs.get .mideleg)

-- What an instruction that completes leaves as it was, by the privilege it ran with.
structure Contained (hart : Hart) (instr : Instr) (next : Hart) (retired : UInt64) : Prop where
  notRaised : hart.privilege.below next.privilege = false
  user : hart.privilege = .user → UserKeeps hart next retired
  supervisor : hart.privilege = .supervisor → SupervisorKeeps hart instr next retired

theorem below_self (privilege : Privilege) : privilege.below privilege = false := by
  cases privilege <;> decide

theorem machine_highest (privilege : Privilege) : Privilege.machine.below privilege = false := by
  cases privilege <;> decide

theorem run_paging (access : DataAccess) (context : AccessContext) (memory : Memory) :
    Memory.SamePaging memory (left (access.run context memory)) := by
  rw [access.run_through]
  exact (@Memory.through_keeps _ _ _ _ _ _ _ memory (fun _ => True) (fun _ => trivial) (fun _ _ _ => trivial) trivial).1

theorem contained_same {hart next : Hart} {instr : Instr} (privilege : next.privilege = hart.privilege)
    (paging : Memory.SamePaging hart.memory next.memory) (csrs : next.csrs = hart.csrs)
    (cycleOffset : next.cycleOffset = hart.cycleOffset) (instret : next.instret = hart.instret) :
    Contained hart instr next 0 := by
  have counted : next.instret = hart.instret + 0 := instret.trans (UInt64.add_zero _).symm
  refine ⟨?_, ?_, ?_⟩
  · rw [privilege]
    exact below_self hart.privilege
  · intro user
    exact ⟨privilege.trans user, paging, csrs, cycleOffset, counted⟩
  · intro supervisor
    refine ⟨?_, cycleOffset, counted, ?_, .inl ?_, ?_, ?_⟩
    · intro csr machine outside
      rw [csrs]
    all_goals rw [csrs]

theorem user_writes_nothing {hart : Hart} {csr : Csr} (user : hart.privilege = .user) (allowed : hart.mayAccess csr = true)
    (writable : csr.isReadOnly = false) : False := by
  have within := allowed_privilege allowed
  rw [user] at within
  have lowest : csr.privilege = .user := by
    cases level : csr.privilege with
    | user => rfl
    | supervisor =>
      rw [level] at within
      exact absurd within (by decide)
    | machine =>
      rw [level] at within
      exact absurd within (by decide)
  rw [Csr.readOnly_of_user lowest] at writable
  cases writable

theorem supervisor_names {hart : Hart} {csr : Csr} (supervisor : hart.privilege = .supervisor)
    (allowed : hart.mayAccess csr = true) (writable : csr.isReadOnly = false) : csr.privilege = .supervisor := by
  have within := allowed_privilege allowed
  rw [supervisor] at within
  cases level : csr.privilege with
  | user =>
    rw [Csr.readOnly_of_user level] at writable
    cases writable
  | supervisor => rfl
  | machine =>
    rw [level] at within
    exact absurd within (by decide)

theorem supervisorKeeps_of {hart : Hart} {csr : Csr} (instr : Instr) (level : csr.privilege = .supervisor) (value : UInt64)
    (status : (hart.writeCsr csr value).csrs.get .mstatus &&& ~~~Mstatus.supervisorWritable =
      hart.csrs.get .mstatus &&& ~~~Mstatus.supervisorWritable)
    (enabled : (hart.writeCsr csr value).csrs.get .mie &&& ~~~(hart.csrs.get .mideleg) =
      hart.csrs.get .mie &&& ~~~(hart.csrs.get .mideleg))
    (pending : (hart.writeCsr csr value).csrs.get .mip &&& ~~~(Mip.ssip &&& hart.csrs.get .mideleg) =
      hart.csrs.get .mip &&& ~~~(Mip.ssip &&& hart.csrs.get .mideleg)) :
    SupervisorKeeps hart instr (hart.writeCsr csr value) 0 := by
  have notCycle : csr ≠ .mcycle := by
    rintro rfl
    cases level
  have notInstret : csr ≠ .minstret := by
    rintro rfl
    cases level
  obtain ⟨cycleOffset, instret⟩ := writeCsr_counters hart value notCycle notInstret
  refine ⟨?_, cycleOffset, instret.trans (UInt64.add_zero _).symm, ?_, .inl ?_, enabled, pending⟩
  · intro other machine outside
    apply writeCsr_others
    rintro rfl
    have every : ∀ csr ∈ Csr.all, csr.privilege = .supervisor → csr.target.privilege = .machine →
        csr.target ∈ [Csr.mstatus, .mie, .mip] := by decide
    exact outside (every csr csr.mem_all level machine)
  · have inside : ~~~Mstatus.supervisorWritable &&& machineStatus = machineStatus := by decide
    rw [← inside, ← UInt64.and_assoc, status, UInt64.and_assoc]
  · have inside : ~~~Mstatus.supervisorWritable &&& Mstatus.mprv = Mstatus.mprv := by decide
    rw [← inside, ← UInt64.and_assoc, status, UInt64.and_assoc]

theorem supervisor_writes {hart : Hart} {csr : Csr} (instr : Instr) (level : csr.privilege = .supervisor) (value : UInt64) :
    SupervisorKeeps hart instr (hart.writeCsr csr value) 0 := by
  have other : ∀ shared, shared ≠ csr.target → (hart.writeCsr csr value).csrs.get shared = hart.csrs.get shared :=
    fun shared apart => writeCsr_others hart csr value apart
  rcases Csr.target_of_supervisor level with own | rfl | rfl | rfl
  · have apart : ∀ shared : Csr, shared.privilege = .machine → shared ≠ csr.target := by
      rintro shared machine rfl
      rw [own, level] at machine
      cases machine
    refine supervisorKeeps_of instr level value ?_ ?_ ?_
    · rw [other .mstatus (apart .mstatus (by decide))]
    · rw [other .mie (apart .mie (by decide))]
    · rw [other .mip (apart .mip (by decide))]
  · refine supervisorKeeps_of instr level value ?_ ?_ ?_
    · have written := (writeStored_get hart .mstatus .mstatus
        (merge Mstatus.supervisorWritable (hart.csrs.get .mstatus) value)).trans (if_pos rfl)
      refine (congrArg (· &&& ~~~Mstatus.supervisorWritable) written).trans ?_
      exact merge_and _ _ _ _ (merge_outside _ _ _ _ UInt64.and_not_self)
    · rw [other .mie (by decide)]
    · rw [other .mip (by decide)]
  · refine supervisorKeeps_of instr level value ?_ ?_ ?_
    · rw [other .mstatus (by decide)]
    · have written := (writeStored_get hart .mie .mie
        (merge (hart.csrs.get .mideleg) (hart.csrs.get .mie) value)).trans (if_pos rfl)
      refine (congrArg (· &&& ~~~(hart.csrs.get .mideleg)) written).trans ?_
      exact merge_and _ _ _ _ (merge_outside _ _ _ _ UInt64.and_not_self)
    · rw [other .mip (by decide)]
  · refine supervisorKeeps_of instr level value ?_ ?_ ?_
    · rw [other .mstatus (by decide)]
    · rw [other .mie (by decide)]
    · have written := (writeStored_get hart .mip .mip
        (merge (Mip.ssip &&& hart.csrs.get .mideleg) (hart.csrs.get .mip) value)).trans (if_pos rfl)
      refine (congrArg (· &&& ~~~(Mip.ssip &&& hart.csrs.get .mideleg)) written).trans ?_
      exact merge_and _ _ _ _ (merge_outside _ _ _ _ UInt64.and_not_self)

theorem supervisorReturned_keeps {hart : Hart} {args : Unit} :
    SupervisorKeeps hart ⟨.sret, args⟩ hart.returnSupervisor 0 := by
  obtain ⟨csrs, same, others, status⟩ := hart.returnSupervisor_eq
  have kept : ∀ mask, Mstatus.sie &&& mask = 0 → Mstatus.spie &&& mask = 0 → Mstatus.spp &&& mask = 0 →
      Mstatus.mprv &&& mask = 0 → csrs.get .mstatus &&& mask = hart.csrs.get .mstatus &&& mask := by
    intro mask sie spie spp mprv
    rw [status, changed_and _ _ _ _ mprv, changed_and _ _ _ _ spp, changed_and _ _ _ _ spie, changed_and _ _ _ _ sie]
  have cleared : csrs.get .mstatus &&& Mstatus.mprv = 0 := by
    rw [status]
    exact (UInt64.and_assoc ..).trans (by rw [show ~~~Mstatus.mprv &&& Mstatus.mprv = 0 by decide, UInt64.and_zero])
  rw [same]
  refine ⟨?_, rfl, (UInt64.add_zero _).symm, ?_, .inr ⟨rfl, cleared⟩, ?_, ?_⟩
  · intro csr machine outside
    apply others
    rintro rfl
    exact outside List.mem_cons_self
  · exact kept machineStatus (by decide) (by decide) (by decide) (by decide)
  · rw [others .mie (by decide)]
  · rw [others .mip (by decide)]

theorem supervisorReturned_contained {hart : Hart} {args : Unit} (allowed : hart.mayReturnSupervisor = true) :
    Contained hart ⟨.sret, args⟩ hart.returnSupervisor 0 := by
  refine ⟨?_, ?_, fun _ => supervisorReturned_keeps⟩
  · obtain ⟨csrs, same, _⟩ := hart.returnSupervisor_eq
    rw [same]
    dsimp only
    unfold mayReturnSupervisor at allowed
    cases level : hart.privilege with
    | user =>
      rw [level] at allowed
      cases allowed
    | supervisor => cases hart.status Mstatus.spp <;> decide
    | machine => exact machine_highest _
  · intro user
    unfold mayReturnSupervisor at allowed
    rw [user] at allowed
    cases allowed

theorem wrote_contained {hart : Hart} {op : CsrOp} {isImmediate : Bool} {args : IArgs} {csr : Csr}
    (allowed : hart.mayAccess csr = true) (writable : csr.isReadOnly = false) (value : UInt64) (registers : Registers)
    (pc : UInt64) :
    Contained hart ⟨.csr op isImmediate, args⟩ { hart.writeCsr csr value with registers := registers, pc := pc } 0 := by
  obtain ⟨csrs, memory, instret, cycleOffset, same⟩ := hart.writeCsr_frame csr value
  have privilege : (hart.writeCsr csr value).privilege = hart.privilege := by rw [same]
  refine ⟨?_, ?_, ?_⟩
  · change hart.privilege.below (hart.writeCsr csr value).privilege = false
    rw [privilege]
    exact below_self hart.privilege
  · intro user
    exact False.elim (user_writes_nothing user allowed writable)
  · intro supervisor
    have keeps : SupervisorKeeps hart ⟨.csr op isImmediate, args⟩ (hart.writeCsr csr value) 0 :=
      supervisor_writes _ (supervisor_names supervisor allowed writable) value
    exact ⟨keeps.others, keeps.cycleOffset, keeps.instret, keeps.status, keeps.mprv, keeps.enabled, keeps.pending⟩

theorem executes_contained {hart next : Hart} {instr : Instr} (executes : Executes hart instr (.ok () next)) :
    Contained hart instr next 0 := by
  cases executes with
  | computed quiet registers pc reservation => exact contained_same rfl ⟨rfl, rfl⟩ rfl rfl rfl
  | accessed asked done registers pc reservation =>
    rename_i access value memory
    have paging := run_paging access hart.dataContext hart.memory
    rw [done] at paging
    exact contained_same rfl paging rfl rfl rfl
  | named found allowed unwritten registers => exact contained_same rfl ⟨rfl, rfl⟩ rfl rfl rfl
  | wrote found allowed written writable registers => exact wrote_contained allowed writable _ registers _
  | supervisorReturned allowed => exact supervisorReturned_contained allowed
  | machineReturned allowed =>
    refine ⟨?_, ?_, ?_⟩
    · rw [allowed]
      exact machine_highest _
    · intro user
      cases allowed.symm.trans user
    · intro supervisor
      cases allowed.symm.trans supervisor
  | waited allowed => exact contained_same rfl ⟨rfl, rfl⟩ rfl rfl rfl
  | fenced allowed => exact contained_same rfl ⟨rfl, rfl⟩ rfl rfl rfl

def MachineOnly (hart : Hart) : Prop :=
  hart.status Mstatus.mprv = true → hart.privilege = .machine

theorem machineOnly_of_status {hart next : Hart} (start : MachineOnly hart)
    (status : next.csrs.get .mstatus &&& Mstatus.mprv = hart.csrs.get .mstatus &&& Mstatus.mprv)
    (privilege : hart.privilege = .machine → next.privilege = .machine) : MachineOnly next := by
  intro set
  apply privilege
  apply start
  unfold Hart.status at set ⊢
  rw [← status]
  exact set

theorem machineOnly_of_cleared {hart : Hart} (cleared : hart.csrs.get .mstatus &&& Mstatus.mprv = 0) : MachineOnly hart := by
  intro set
  unfold Hart.status at set
  rw [cleared] at set
  cases set

theorem machineReturned_only (hart : Hart) : MachineOnly hart.returnMachine := by
  obtain ⟨csrs, same, others, status⟩ := hart.returnMachine_eq
  rw [same]
  by_cases stays : hart.previousPrivilege = .machine
  · intro set
    exact stays
  · apply machineOnly_of_cleared
    have cleared : hart.returnedStatus &&& Mstatus.mprv = 0 := by
      unfold returnedStatus
      rw [if_neg stays]
      exact (UInt64.and_assoc ..).trans (by rw [show ~~~Mstatus.mprv &&& Mstatus.mprv = 0 by decide, UInt64.and_zero])
    change csrs.get .mstatus &&& Mstatus.mprv = 0
    rw [status, withPrevious_and _ _ _ (by decide)]
    exact cleared

theorem supervisorReturned_only (hart : Hart) : MachineOnly hart.returnSupervisor := by
  obtain ⟨csrs, same, others, status⟩ := hart.returnSupervisor_eq
  rw [same]
  apply machineOnly_of_cleared
  change csrs.get .mstatus &&& Mstatus.mprv = 0
  rw [status]
  exact (UInt64.and_assoc ..).trans (by rw [show ~~~Mstatus.mprv &&& Mstatus.mprv = 0 by decide, UInt64.and_zero])

theorem wrote_only {hart : Hart} {csr : Csr} (start : MachineOnly hart) (allowed : hart.mayAccess csr = true)
    (writable : csr.isReadOnly = false) (value : UInt64) (registers : Registers) (pc : UInt64) :
    MachineOnly { hart.writeCsr csr value with registers := registers, pc := pc } := by
  obtain ⟨csrs, memory, instret, cycleOffset, same⟩ := hart.writeCsr_frame csr value
  have privilege : (hart.writeCsr csr value).privilege = hart.privilege := by rw [same]
  cases level : hart.privilege with
  | user => exact False.elim (user_writes_nothing level allowed writable)
  | supervisor =>
    have keeps : SupervisorKeeps hart ⟨.ecall, ()⟩ (hart.writeCsr csr value) 0 :=
      supervisor_writes _ (supervisor_names level allowed writable) value
    rcases keeps.mprv with status | ⟨_, cleared⟩
    · exact machineOnly_of_status start status (fun machine => privilege.trans machine)
    · exact machineOnly_of_cleared cleared
  | machine =>
    intro set
    exact privilege.trans level

theorem executes_only {hart next : Hart} {instr : Instr} (start : MachineOnly hart)
    (executes : Executes hart instr (.ok () next)) : MachineOnly next := by
  cases executes with
  | wrote found allowed written writable registers => exact wrote_only start allowed writable _ registers _
  | supervisorReturned allowed => exact supervisorReturned_only hart
  | machineReturned allowed => exact machineReturned_only hart
  | _ => exact start

theorem trap_only {hart : Hart} (start : MachineOnly hart) (trap : Trap) : MachineOnly (hart.trap trap) := by
  have entered := hart.trap_entered trap
  refine machineOnly_of_status start entered.status ?_
  intro machine
  have kept : ¬ hart.delegates trap = true := by
    unfold delegates
    rw [machine]
    exact Bool.false_ne_true
  rw [entered.privilege]
  exact if_neg kept

theorem trap_notLowered (hart : Hart) (trap : Trap) : (hart.trap trap).privilege.below hart.privilege = false := by
  rw [(hart.trap_entered trap).privilege]
  unfold handlerMode
  cases delegated : hart.delegates trap with
  | false => exact machine_highest _
  | true =>
    unfold delegates at delegated
    cases level : hart.privilege with
    | user => decide
    | supervisor => decide
    | machine =>
      rw [level] at delegated
      cases delegated

theorem executeOne_only {hart : Hart} (start : MachineOnly hart) : MachineOnly hart.executeOne := by
  have instructs := instruction_cases hart
  unfold executeOne
  cases outcome : instruction hart with
  | error why mid =>
    rw [outcome] at instructs
    obtain ⟨csrs, privilege⟩ := instructs_error_frame instructs
    have stopped : MachineOnly mid :=
      machineOnly_of_status start (by rw [csrs]) (fun machine => privilege.trans machine)
    exact trap_only stopped (.exception why)
  | ok done next =>
    rw [outcome] at instructs
    cases instructs with
    | executed read meaning outcome executes =>
      rename_i raw word length parcels memory instr
      have fetched : MachineOnly (hart.fetched length memory) := start
      have after : MachineOnly next := executes_only fetched executes
      exact after

theorem progresses_only {hart next : Hart} {move : Move} (start : MachineOnly hart)
    (progresses : Progresses hart move next) : MachineOnly next := by
  cases progresses with
  | executed now =>
    have resumed : MachineOnly hart.resumed := start
    exact executeOne_only resumed
  | interrupted which resumeFrom =>
    have awake : MachineOnly { hart with waiting := false, resumeFrom := resumeFrom } := start
    exact trap_only awake (.interrupt which)
  | slept time => exact start
  | stopped waiting resumeFrom => exact start

-- Whatever happens to a hart but the writes of a debugger.
def Undisturbed : Hart → Move → Prop
  | _, .setPc _ | _, .setReg _ _ | _, .setCsr _ _ | _, .writeMemory _ _ => False
  | _, _ => True

theorem reachable_only {hart : Hart} (reachable : Reachable AnyBus Undisturbed hart) : MachineOnly hart := by
  induction reachable with
  | start bus fits => exact fun _ => rfl
  | @move hart before move allowed only =>
    cases move with
    | step deliver => exact progresses_only only (step_progresses hart deliver)
    | turn stop => exact progresses_only only (turn_progresses hart stop)
    | reset => exact fun _ => rfl
    | devices change => exact only
    | readMemory vaddr n =>
      change MachineOnly (hart.runMemory _).2
      rw [runMemory_frame]
      exact only
    | setBreakpoints breakpoints => exact only
    | _ => exact False.elim allowed

theorem completes_contained {hart next mid : Hart} (executing : Executing hart next)
    (completed : instruction hart.resumed = .ok () mid) :
    ∃ instr ready, Decoded hart.resumed instr ready ∧ Contained hart instr next 1 := by
  have instructs := instruction_cases hart.resumed
  rw [completed] at instructs
  have counted : next = { mid with instret := mid.instret + 1 }.advance := by
    rw [executing_eq executing]
    unfold executeOne
    rw [completed]
  cases instructs with
  | executed read meaning outcome executes =>
    rename_i raw word length parcels memory instr
    have paging := (fetched_translated read).1
    have contained := executes_contained executes
    refine ⟨instr, _, ⟨raw, word, length, parcels, memory, read, meaning, rfl⟩, ?_⟩
    rw [counted]
    refine ⟨contained.notRaised, ?_, ?_⟩
    · intro user
      have keeps := contained.user user
      refine ⟨keeps.privilege, ?_, keeps.csrs, keeps.cycleOffset, ?_⟩
      · exact ⟨keeps.paging.mode.trans paging.mode, keeps.paging.root.trans paging.root⟩
      · exact congrArg (· + 1) (keeps.instret.trans (UInt64.add_zero _))
    · intro supervisor
      have keeps := contained.supervisor supervisor
      exact ⟨keeps.others, keeps.cycleOffset, congrArg (· + 1) (keeps.instret.trans (UInt64.add_zero _)), keeps.status,
        keeps.mprv, keeps.enabled, keeps.pending⟩

/-- What the privilege of a hart contains, in every state that instructions, interrupts and resets lead
to: the bit that lends it to loads and stores, what a completing instruction changes, and that traps
do not lower it. -/
theorem privilege_contained {hart : Hart} (reachable : Reachable AnyBus Undisturbed hart) :
    (hart.status Mstatus.mprv = true → hart.privilege = .machine) ∧
    (∀ next mid, Executing hart next → instruction hart.resumed = .ok () mid →
      ∃ instr ready, Decoded hart.resumed instr ready ∧ Contained hart instr next 1) ∧
    (∀ next mid why, Executing hart next → instruction hart.resumed = .error why mid →
      next.privilege.below hart.privilege = false) ∧
    (∀ which resumeFrom,
      ({ hart with waiting := false, resumeFrom := resumeFrom }.trap (.interrupt which)).advance.privilege.below
        hart.privilege = false) := by
  refine ⟨reachable_only reachable, ?_, ?_, ?_⟩
  · intro next mid executing completed
    exact completes_contained executing completed
  · intro next mid why executing raised
    have instructs := instruction_cases hart.resumed
    rw [raised] at instructs
    have privilege : mid.privilege = hart.privilege := (instructs_error_frame instructs).2
    have trapped : next = (mid.trap (.exception why)).advance := by
      rw [executing_eq executing]
      unfold executeOne
      rw [raised]
    rw [trapped, ← privilege]
    exact trap_notLowered mid (.exception why)
  · intro which resumeFrom
    exact trap_notLowered { hart with waiting := false, resumeFrom := resumeFrom } (.interrupt which)

def userProgram : Bus :=
  { windows := #[⟨0, 4, 0⟩, ⟨resetVector, 4, 1⟩]
    devices := #[.ram ⟨⟨#[0x93, 0x00, 0x10, 0x00]⟩⟩, .ram ⟨⟨#[0x73, 0x00, 0x20, 0x30]⟩⟩] }

def inUser : Hart :=
  ({ memory := { bus := userProgram } } : Hart).stepInstruction false

theorem inUser_completes : ∃ mid, instruction inUser.resumed = .ok () mid := by
  have completes : value? (instruction inUser.resumed) = some () := by decide +kernel
  exact ⟨_, value_ok completes⟩

theorem privilege_contained_user :
    Reachable AnyBus Undisturbed inUser ∧ inUser.privilege = .user ∧ UserKeeps inUser (inUser.stepInstruction false) 1 := by
  have reachable : Reachable AnyBus Undisturbed inUser := .move (.start userProgram trivial) (.step false) trivial
  have user : inUser.privilege = .user := by decide +kernel
  obtain ⟨mid, completed⟩ := inUser_completes
  obtain ⟨instr, _, _, contained⟩ := (privilege_contained reachable).2.1 _ mid ⟨.step false, rfl, rfl⟩ completed
  exact ⟨reachable, user, contained.user user⟩

end Hart

end RvBoard
