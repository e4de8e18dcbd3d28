import RvBoard.Proofs.Hart.Moves
import RvBoard.Proofs.Hart.TrapEntry

/-!
# Precise traps

An instruction that raises an exception leaves no trace but the trap: wherever it stopped, it had
changed nothing but the marks that translation leaves in page tables, and the value that the trap
reports belongs to what went wrong. No value waits for a trap between instructions.
-/

set_option autoImplicit false

namespace RvBoard.Hart

-- Why the instruction at the program counter raises an exception, the value that the trap has to
-- report, and the virtual addresses that are translated up to there.
inductive Raised (hart : Hart) : Exception → UInt64 → List UInt64 → Prop
  | firstParcel {fault : MemFault} {memory : Memory}
      (failed : Memory.fetch hart.pc hart.fetchContext hart.memory = .error fault memory) :
      Raised hart (.ofFetchFault fault) hart.pc [hart.pc]
  | secondParcel {low : UInt16} {mid memory : Memory} {fault : MemFault}
      (first : Memory.fetch hart.pc hart.fetchContext hart.memory = .ok low mid) (ones : low &&& 3 = 3)
      (failed : Memory.fetch (hart.pc + 2) hart.fetchContext mid = .error fault memory) :
      Raised hart (.ofFetchFault fault) (hart.pc + 2) [hart.pc, hart.pc + 2]
  | undecoded {raw length : UInt64} {word : Option UInt32} {parcels : List UInt64} {memory : Memory}
      (read : Fetched hart raw word length parcels memory) (meaningless : word.bind decode = none) :
      Raised hart .illegalInstruction raw parcels
  | access {raw length : UInt64} {word : Option UInt32} {parcels : List UInt64} {memory next : Memory} {instr : Instr}
      {access : DataAccess} {fault : MemFault} (read : Fetched hart raw word length parcels memory)
      (meaning : word.bind decode = some instr) (asked : hart.access? instr = some access)
      (failed : access.run hart.dataContext memory = .error fault next) :
      Raised hart (.ofFault fault) access.vaddr (parcels ++ [access.vaddr])
  | refused {raw length : UInt64} {word : Option UInt32} {parcels : List UInt64} {memory : Memory} {instr : Instr}
      {why : Exception} (read : Fetched hart raw word length parcels memory) (meaning : word.bind decode = some instr)
      (quiet : hart.access? instr = none)
      (failed : execute instr (hart.fetched length memory) = .error why (hart.fetched length memory))
      (refusal : why ∈ [.illegalInstruction, .breakpoint, .userCall, .supervisorCall, .machineCall]) :
      Raised hart why 0 parcels

-- An instruction that has stopped on the way.
structure Stopped (hart : Hart) (why : Exception) (tval : UInt64) (asked : List UInt64) (mid : Hart) : Prop where
  raised : Raised hart why tval asked
  value : mid.pendingTval.getD 0 = tval
  frame : ∃ memory length pending reservation, mid =
    { hart with memory := memory, instrLength := length, pendingTval := pending, reservation := reservation }
  translated : Bus.Translated hart.memory.table? asked hart.memory.bus mid.memory.bus

theorem stopped_of {hart mid : Hart} {why : Exception} (empty : hart.pendingTval = none)
    (instructs : Instructs hart (.error why mid)) : ∃ tval asked, Stopped hart why tval asked mid := by
  cases instructs with
  | firstFaulted failed =>
    exact ⟨hart.pc, [hart.pc], .firstParcel failed, rfl, ⟨_, _, _, _, rfl⟩, (Memory.fetch_left failed).2⟩
  | secondFaulted first ones failed =>
    obtain ⟨paging, before⟩ := Memory.fetch_left first
    have after := (Memory.fetch_left failed).2
    rw [left_ok] at paging before
    rw [paging.table] at after
    exact ⟨hart.pc + 2, [hart.pc, hart.pc + 2], .secondParcel first ones failed, rfl, ⟨_, _, _, _, rfl⟩,
      (before.mono (by simp)).trans (after.mono (by simp))⟩
  | undecoded read meaningless =>
    exact ⟨_, _, .undecoded read meaningless, rfl, ⟨_, _, _, _, rfl⟩, (fetched_translated read).2⟩
  | executed read meaning outcome executes =>
    obtain ⟨paging, before⟩ := fetched_translated read
    cases executes with
    | faulted asked failed reservation =>
      rename_i access fault next
      have after := (DataAccess.failed_translated failed).2
      have table := paging.table
      refine ⟨access.vaddr, _, .access read meaning asked failed, rfl, ⟨_, _, _, _, rfl⟩, ?_⟩
      refine (before.mono ?_).trans (Bus.Translated.mono (table ▸ after) ?_)
      · intro vaddr member
        exact List.mem_append_left _ member
      · intro vaddr member
        exact List.mem_append_right _ member
    | refused quiet refusal =>
      refine ⟨0, _, .refused read meaning quiet outcome refusal, ?_, ⟨_, _, _, _, rfl⟩, before⟩
      change hart.pendingTval.getD 0 = 0
      rw [empty]
      rfl

theorem executes_pending {hart next : Hart} {instr : Instr} (executes : Executes hart instr (.ok () next)) :
    next.pendingTval = hart.pendingTval := by
  cases executes with
  | wrote found allowed written writable registers =>
    obtain ⟨csrs, memory, instret, cycleOffset, same⟩ := hart.writeCsr_frame _ _
    rw [same]
  | supervisorReturned allowed =>
    obtain ⟨csrs, same, _⟩ := hart.returnSupervisor_eq
    rw [same]
  | machineReturned allowed =>
    obtain ⟨csrs, same, _⟩ := hart.returnMachine_eq
    rw [same]
  | _ => rfl

theorem trap_pending (hart : Hart) (trap : Trap) : (hart.trap trap).pendingTval = none := by
  obtain ⟨csrs, pc, same⟩ := (hart.trap_entered trap).frame
  rw [same]

theorem executeOne_pending {hart : Hart} (empty : hart.pendingTval = none) : hart.executeOne.pendingTval = none := by
  have instructs := instruction_cases hart
  unfold executeOne
  cases outcome : instruction hart with
  | error why mid => exact trap_pending mid (.exception why)
  | ok done next =>
    rw [outcome] at instructs
    cases instructs with
    | executed read meaning outcome executes => exact (executes_pending executes).trans empty

theorem progresses_pending {hart next : Hart} {move : Move} (empty : hart.pendingTval = none)
    (progresses : Progresses hart move next) : next.pendingTval = none := by
  cases progresses with
  | executed now =>
    have same : hart.resumed.pendingTval = none := empty
    exact executeOne_pending same
  | interrupted which resumeFrom => exact trap_pending _ (.interrupt which)
  | _ => exact empty

theorem reachable_pending {built : Bus → Prop} {permitted : Hart → Move → Prop} {hart : Hart}
    (reachable : Reachable built permitted hart) : hart.pendingTval = none := by
  induction reachable with
  | start bus fits => rfl
  | @move hart before move allowed empty =>
    cases move with
    | step deliver => exact progresses_pending empty (step_progresses hart deliver)
    | turn stop => exact progresses_pending empty (turn_progresses hart stop)
    | reset => rfl
    | setCsr address value =>
      change (hart.debugSetCsr address value).pendingTval = none
      unfold debugSetCsr
      cases Csr.ofAddress? address with
      | none => exact empty
      | some csr =>
        obtain ⟨csrs, memory, instret, cycleOffset, same⟩ := hart.writeCsr_frame csr value
        simp only [same]
        exact empty
    | readMemory vaddr n =>
      change (hart.runMemory _).2.pendingTval = none
      rw [runMemory_frame]
      exact empty
    | writeMemory vaddr bytes =>
      change (hart.runMemory _).2.pendingTval = none
      rw [runMemory_frame]
      exact empty
    | _ => exact empty

-- An exception that has been taken: what is as it was, and what tells of the exception.
structure PreciseTrap (hart : Hart) (why : Exception) (next : Hart) : Prop where
  registers : next.registers = hart.registers
  instret : next.instret = hart.instret
  cycleOffset : next.cycleOffset = hart.cycleOffset
  mode : next.privilege = hart.handlerMode (.exception why)
  stored : ∀ csr, csr ∉ Csr.ofTrap next.privilege → next.csrs.get csr = hart.csrs.get csr
  shown : ∀ csr, csr ∉ .sstatus :: Csr.ofTrap next.privilege →
    next.csrValue csr = { hart with memory := next.memory }.csrValue csr
  epc : next.csrs.get (.epc next.privilege) = hart.pc
  cause : next.csrs.get (.cause next.privilege) = (Trap.exception why).cause
  tval : ∃ value asked, Raised hart why value asked ∧ next.csrs.get (.tval next.privilege) = value ∧
    Bus.Translated hart.memory.table? asked hart.bus next.bus
  reservation : next.reservation = none
  pendingTval : next.pendingTval = none

theorem advance_eq (hart : Hart) :
    ∃ memory, hart.advance = { hart with memory := memory } ∧ Bus.SameMemory hart.bus memory.bus :=
  ⟨_, rfl, rfl, fun _ => rfl⟩

theorem sources_outside {mode : Privilege} {csr : Csr} (outside : csr ∉ .sstatus :: Csr.ofTrap mode) :
    ∀ source ∈ sources csr, source ∉ Csr.ofTrap mode := by
  obtain ⟨notView, notOwn⟩ : csr ≠ .sstatus ∧ csr ∉ Csr.ofTrap mode := by
    simpa using outside
  intro source member
  cases csr with
  | sie =>
    revert source
    cases mode <;> decide
  | sip =>
    revert source
    cases mode <;> decide
  | sstatus => exact False.elim (notView rfl)
  | _ =>
    rw [List.mem_singleton.mp member]
    exact notOwn

theorem precise_of_stopped {hart mid : Hart} {why : Exception} {value : UInt64} {asked : List UInt64}
    (stopped : Stopped hart why value asked mid) : PreciseTrap hart why (mid.trap (.exception why)).advance := by
  have entered := trap_entered mid (.exception why)
  obtain ⟨advanced, moved, clocked⟩ := advance_eq (mid.trap (.exception why))
  rw [moved]
  generalize mid.trap (.exception why) = handler at entered clocked
  obtain ⟨csrs, pc, taken⟩ := entered.frame
  obtain ⟨memory, length, pending, reservation, same⟩ := stopped.frame
  have csrsKept : mid.csrs = hart.csrs := by rw [same]
  have pcKept : mid.pc = hart.pc := by rw [same]
  have registers : handler.registers = hart.registers := by rw [taken, same]
  have instret : handler.instret = hart.instret := by rw [taken, same]
  have cycleOffset : handler.cycleOffset = hart.cycleOffset := by rw [taken, same]
  have mode : hart.handlerMode (.exception why) = mid.handlerMode (.exception why) := by rw [same]; rfl
  have bus : handler.bus = mid.memory.bus := by rw [taken]; rfl
  have stored : ∀ csr, csr ∉ Csr.ofTrap handler.privilege → handler.csrs.get csr = hart.csrs.get csr := by
    intro csr outside
    rw [entered.others csr outside, csrsKept]
  refine ⟨registers, instret, cycleOffset, entered.privilege.trans mode.symm, stored, ?_, entered.epc.trans pcKept,
    entered.cause, ⟨value, asked, stopped.raised, entered.tval.trans stopped.value, ?_⟩, ?_, ?_⟩
  · intro csr outside
    refine csrValue_congr (a := { handler with memory := advanced }) (b := { hart with memory := advanced }) rfl instret
      cycleOffset csr ?_
    intro source member
    exact stored source (sources_outside outside source member)
  · rw [bus] at clocked
    exact .device stopped.translated clocked
  · rw [taken]
  · rw [taken]

/-- Whatever makes the instruction at the program counter fail, in a step or in a run, the hart after
the trap is the hart before it but for the trap itself and the marks of translation in memory. -/
theorem precise_trap {hart next mid : Hart} {why : Exception} (reachable : Reachable AnyBus AnyMove hart)
    (executing : Executing hart next) (raised : instruction hart.resumed = .error why mid) :
    PreciseTrap hart.resumed why next := by
  have instructs := instruction_cases hart.resumed
  rw [raised] at instructs
  have pending := reachable_pending reachable
  have empty : hart.resumed.pendingTval = none := pending
  obtain ⟨value, asked, stopped⟩ := stopped_of empty instructs
  have trapped : hart.resumed.executeOne = mid.trap (.exception why) := by
    unfold executeOne
    rw [raised]
  rw [executing_eq executing, trapped]
  exact precise_of_stopped stopped

theorem poweredOn_load : Bus.load resetVector 1 Bus.empty = .error .loadAccess Bus.empty := by
  have absent : Bus.empty.window? resetVector (byteCount 1) = none := by
    cases found : Bus.empty.window? resetVector (byteCount 1) with
    | none => rfl
    | some window => exact absurd (Bus.window_spec found).1 (Array.not_mem_empty window)
  rw [Bus.load, Bus.refused_none (by decide) (by decide), absent]

theorem poweredOn_fetch : Memory.fetch poweredOn.resumed.pc poweredOn.resumed.fetchContext poweredOn.resumed.memory =
    .error .loadAccess poweredOn.memory := by
  rw [Memory.fetch_through]
  exact Memory.onBus_error (bind_of_error poweredOn_load)

theorem precise_trap_unmapped :
    Reachable AnyBus AnyMove poweredOn ∧ (∃ mid, instruction poweredOn.resumed = .error .instructionAccess mid) ∧
      PreciseTrap poweredOn.resumed .instructionAccess (poweredOn.stepInstruction false) := by
  have raised := instruction_unfetched poweredOn_fetch
  exact ⟨.start Bus.empty trivial, ⟨_, raised⟩, precise_trap (.start Bus.empty trivial) ⟨.step false, rfl, rfl⟩ raised⟩

end RvBoard.Hart
