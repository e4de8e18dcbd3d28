import RvBoard.Hart.Execute
import RvBoard.Proofs.Hart.CsrAccess
import RvBoard.Proofs.Memory.Access

/-!
# What an instruction does

Every instruction either computes, accesses memory once, names a control register, returns from a
trap, waits or fences. This is said once here, with the conditions under which it fails and what it
has changed by then.
-/

set_option autoImplicit false

namespace RvBoard

namespace Hart

-- The access that an instruction makes, if it makes one.
def access? (hart : Hart) : Instr → Option DataAccess
  | ⟨.load op, args⟩ =>
    let args : IArgs := args
    some (.load (hart.reg args.rs1 + immediate args.imm) op.size)
  | ⟨.store op, args⟩ =>
    let args : SArgs := args
    some (.store (hart.reg args.rs1 + immediate args.imm) op.size (hart.reg args.rs2))
  | ⟨.loadReserved width, args⟩ =>
    let args : AArgs := args
    some (.load (hart.reg args.rs1) width.size)
  | ⟨.storeConditional width, args⟩ =>
    let args : AArgs := args
    if hart.reservation == some (hart.reg args.rs1) then
      some (.store (hart.reg args.rs1) width.size (hart.reg args.rs2))
    else none
  | ⟨.amo op width, args⟩ =>
    let args : AArgs := args
    some (.update (hart.reg args.rs1) width.size fun old => op.apply width old (hart.reg args.rs2))
  | _ => none

theorem runMemory_frame {α : Type} (operation : MemoryM α) (hart : Hart) :
    (hart.runMemory operation).2 = { hart with memory := left (operation hart.memory) } := by
  unfold runMemory takeMemory
  dsimp only
  cases operation hart.memory <;> rfl

theorem accessMemory_ok {α : Type} {vaddr : UInt64} {operation : MemoryM α} {hart : Hart} {value : α} {memory : Memory}
    (why : MemFault → Exception) (done : operation hart.memory = .ok value memory) :
    accessMemory vaddr why operation hart = .ok value { hart with memory := memory } := by
  unfold accessMemory runMemory takeMemory
  dsimp only
  rw [done]

theorem accessMemory_error {α : Type} {vaddr : UInt64} {operation : MemoryM α} {hart : Hart} {fault : MemFault}
    {memory : Memory} (why : MemFault → Exception) (failed : operation hart.memory = .error fault memory) :
    accessMemory vaddr why operation hart =
      .error (why fault) { hart with memory := memory, pendingTval := some vaddr } := by
  unfold accessMemory runMemory takeMemory
  dsimp only
  rw [failed]

theorem readReg_run (reg : Reg) (hart : Hart) : readReg reg hart = .ok (hart.reg reg) hart := rfl

section Data

variable {hart : Hart} {vaddr value : UInt64} {size : Nat} {memory : Memory} {fault : MemFault}

theorem loadData_ok (done : (DataAccess.load vaddr size).run hart.dataContext hart.memory = .ok value memory) :
    loadData vaddr size hart = .ok value { hart with memory := memory } :=
  (bind_of_ok (get_run hart)).trans (accessMemory_ok .ofFault done)

theorem loadData_error (failed : (DataAccess.load vaddr size).run hart.dataContext hart.memory = .error fault memory) :
    loadData vaddr size hart = .error (.ofFault fault) { hart with memory := memory, pendingTval := some vaddr } :=
  (bind_of_ok (get_run hart)).trans (accessMemory_error .ofFault failed)

theorem updateData_ok {change : UInt64 → UInt64}
    (done : (DataAccess.update vaddr size change).run hart.dataContext hart.memory = .ok value memory) :
    updateData vaddr size change hart = .ok value { hart with memory := memory } :=
  (bind_of_ok (get_run hart)).trans (accessMemory_ok .ofFault done)

theorem updateData_error {change : UInt64 → UInt64}
    (failed : (DataAccess.update vaddr size change).run hart.dataContext hart.memory = .error fault memory) :
    updateData vaddr size change hart =
      .error (.ofFault fault) { hart with memory := memory, pendingTval := some vaddr } :=
  (bind_of_ok (get_run hart)).trans (accessMemory_error .ofFault failed)

theorem storeData_ok {stored : UInt64}
    (done : (DataAccess.store vaddr size stored).run hart.dataContext hart.memory = .ok value memory) :
    storeData vaddr size stored hart = .ok () { hart with memory := memory } := by
  obtain ⟨_, mid, written, same⟩ := bind_ok.mp done
  cases same
  exact (bind_of_ok (get_run hart)).trans (accessMemory_ok .ofFault written)

theorem storeData_error {stored : UInt64}
    (failed : (DataAccess.store vaddr size stored).run hart.dataContext hart.memory = .error fault memory) :
    storeData vaddr size stored hart =
      .error (.ofFault fault) { hart with memory := memory, pendingTval := some vaddr } := by
  rcases bind_error.mp failed with unwritten | ⟨_, mid, _, impossible⟩
  · exact (bind_of_ok (get_run hart)).trans (accessMemory_error .ofFault unwritten)
  · cases impossible

end Data

-- The operand of a CSR instruction, and what it makes of the old value.
def csrSource (hart : Hart) (isImmediate : Bool) (args : IArgs) : UInt64 :=
  if isImmediate then UInt64.ofNat args.rs1.val else hart.reg args.rs1

def combined (op : CsrOp) (old operand : UInt64) : UInt64 :=
  match op with
  | .write => operand
  | .set => old ||| operand
  | .clear => old &&& ~~~operand

-- Setting and clearing no register's bits is no write.
def writes (op : CsrOp) (args : IArgs) : Prop :=
  op = .write ∨ args.rs1 ≠ .zero

/-- Everything that executing an instruction can come to. -/
inductive Executes (hart : Hart) : Instr → EStateM.Result Exception Hart Unit → Prop
  | computed {instr : Instr} (quiet : hart.access? instr = none) (registers : Registers) (pc : UInt64)
      (reservation : Option UInt64) :
      Executes hart instr (.ok () { hart with registers := registers, pc := pc, reservation := reservation })
  | accessed {instr : Instr} {access : DataAccess} {value : UInt64} {memory : Memory}
      (asked : hart.access? instr = some access) (done : access.run hart.dataContext hart.memory = .ok value memory)
      (registers : Registers) (pc : UInt64) (reservation : Option UInt64) :
      Executes hart instr
        (.ok () { hart with memory := memory, registers := registers, pc := pc, reservation := reservation })
  | faulted {instr : Instr} {access : DataAccess} {fault : MemFault} {memory : Memory}
      (asked : hart.access? instr = some access)
      (failed : access.run hart.dataContext hart.memory = .error fault memory) (reservation : Option UInt64) :
      Executes hart instr
        (.error (.ofFault fault)
          { hart with memory := memory, pendingTval := some access.vaddr, reservation := reservation })
  | refused {instr : Instr} {why : Exception} (quiet : hart.access? instr = none)
      (refusal : why ∈ [.illegalInstruction, .breakpoint, .userCall, .supervisorCall, .machineCall]) :
      Executes hart instr (.error why hart)
  | named {op : CsrOp} {isImmediate : Bool} {args : IArgs} {csr : Csr} (exists_ : Csr.ofAddress? args.imm = some csr)
      (allowed : hart.mayAccess csr = true) (unwritten : ¬ writes op args) (registers : Registers) :
      Executes hart ⟨.csr op isImmediate, args⟩ (.ok () { hart with registers := registers, pc := hart.next })
  | wrote {op : CsrOp} {isImmediate : Bool} {args : IArgs} {csr : Csr} (exists_ : Csr.ofAddress? args.imm = some csr)
      (allowed : hart.mayAccess csr = true) (written : writes op args) (writable : csr.isReadOnly = false)
      (registers : Registers) :
      Executes hart ⟨.csr op isImmediate, args⟩
        (.ok ()
          { hart.writeCsr csr (combined op (hart.csrValue csr) (hart.csrSource isImmediate args)) with
            registers := registers, pc := hart.next })
  | supervisorReturned {args : Unit} (allowed : hart.mayReturnSupervisor = true) :
      Executes hart ⟨.sret, args⟩ (.ok () hart.returnSupervisor)
  | machineReturned {args : Unit} (allowed : hart.privilege = .machine) :
      Executes hart ⟨.mret, args⟩ (.ok () hart.returnMachine)
  | waited {args : Unit} (allowed : hart.mayWait = true) :
      Executes hart ⟨.wfi, args⟩ (.ok () { hart with waiting := true, pc := hart.next })
  | fenced {args : RArgs} (allowed : hart.mayFence = true) :
      Executes hart ⟨.sfenceVma, args⟩ (.ok () { hart with memory := hart.memory.flush, pc := hart.next })

variable (hart : Hart)

theorem load_completes (op : LoadOp) (args : IArgs) {value : UInt64} {memory : Memory}
    (done : (DataAccess.load (hart.reg args.rs1 + immediate args.imm) op.size).run hart.dataContext hart.memory =
      .ok value memory) :
    load op args hart = .ok () { hart with
      memory := memory, registers := hart.registers.write args.rd (op.extend value), pc := hart.next } :=
  (bind_of_ok (readReg_run args.rs1 hart)).trans (bind_of_ok (loadData_ok done))

theorem executes_load (op : LoadOp) (args : IArgs) : Executes hart ⟨.load op, args⟩ (load op args hart) := by
  have asked : hart.access? ⟨.load op, args⟩ = some (.load (hart.reg args.rs1 + immediate args.imm) op.size) := rfl
  cases outcome : (DataAccess.load (hart.reg args.rs1 + immediate args.imm) op.size).run hart.dataContext hart.memory with
  | ok value memory =>
    rw [load_completes hart op args outcome]
    exact .accessed asked outcome _ _ hart.reservation
  | error fault memory =>
    have executed : load op args hart =
        .error (.ofFault fault) { hart with memory := memory, pendingTval := some (hart.reg args.rs1 + immediate args.imm) } :=
      (bind_of_ok (readReg_run args.rs1 hart)).trans (bind_of_error (loadData_error outcome))
    rw [executed]
    exact .faulted asked outcome hart.reservation

theorem store_completes (op : StoreOp) (args : SArgs) {value : UInt64} {memory : Memory}
    (done : (DataAccess.store (hart.reg args.rs1 + immediate args.imm) op.size (hart.reg args.rs2)).run hart.dataContext
      hart.memory = .ok value memory) :
    store op args hart = .ok () { hart with memory := memory, pc := hart.next } :=
  (bind_of_ok (readReg_run args.rs2 hart)).trans
    ((bind_of_ok (readReg_run args.rs1 hart)).trans (bind_of_ok (storeData_ok done)))

theorem executes_store (op : StoreOp) (args : SArgs) : Executes hart ⟨.store op, args⟩ (store op args hart) := by
  have asked : hart.access? ⟨.store op, args⟩ =
      some (.store (hart.reg args.rs1 + immediate args.imm) op.size (hart.reg args.rs2)) := rfl
  cases outcome : (DataAccess.store (hart.reg args.rs1 + immediate args.imm) op.size (hart.reg args.rs2)).run
      hart.dataContext hart.memory with
  | ok value memory =>
    rw [store_completes hart op args outcome]
    exact .accessed asked outcome _ _ hart.reservation
  | error fault memory =>
    have executed : store op args hart =
        .error (.ofFault fault) { hart with memory := memory, pendingTval := some (hart.reg args.rs1 + immediate args.imm) } :=
      (bind_of_ok (readReg_run args.rs2 hart)).trans
        ((bind_of_ok (readReg_run args.rs1 hart)).trans (bind_of_error (storeData_error outcome)))
    rw [executed]
    exact .faulted asked outcome hart.reservation

theorem loadReserved_completes (width : AmoWidth) (args : AArgs) {value : UInt64} {memory : Memory}
    (done : (DataAccess.load (hart.reg args.rs1) width.size).run hart.dataContext hart.memory = .ok value memory) :
    loadReserved width args hart = .ok () { hart with
      memory := memory
      registers := hart.registers.write args.rd (width.extend value)
      pc := hart.next
      reservation := some (hart.reg args.rs1) } :=
  (bind_of_ok (readReg_run args.rs1 hart)).trans (bind_of_ok (loadData_ok done))

theorem executes_loadReserved (width : AmoWidth) (args : AArgs) :
    Executes hart ⟨.loadReserved width, args⟩ (loadReserved width args hart) := by
  have asked : hart.access? ⟨.loadReserved width, args⟩ = some (.load (hart.reg args.rs1) width.size) := rfl
  cases outcome : (DataAccess.load (hart.reg args.rs1) width.size).run hart.dataContext hart.memory with
  | ok value memory =>
    rw [loadReserved_completes hart width args outcome]
    exact .accessed asked outcome _ _ _
  | error fault memory =>
    have executed : loadReserved width args hart =
        .error (.ofFault fault) { hart with memory := memory, pendingTval := some (hart.reg args.rs1) } :=
      (bind_of_ok (readReg_run args.rs1 hart)).trans (bind_of_error (loadData_error outcome))
    rw [executed]
    exact .faulted asked outcome hart.reservation

theorem amo_completes (op : AmoOp) (width : AmoWidth) (args : AArgs) {value : UInt64} {memory : Memory}
    (done : (DataAccess.update (hart.reg args.rs1) width.size fun old => op.apply width old (hart.reg args.rs2)).run
      hart.dataContext hart.memory = .ok value memory) :
    amo op width args hart = .ok () { hart with
      memory := memory, registers := hart.registers.write args.rd (width.extend value), pc := hart.next } :=
  (bind_of_ok (readReg_run args.rs1 hart)).trans
    ((bind_of_ok (readReg_run args.rs2 hart)).trans (bind_of_ok (updateData_ok done)))

theorem executes_amo (op : AmoOp) (width : AmoWidth) (args : AArgs) :
    Executes hart ⟨.amo op width, args⟩ (amo op width args hart) := by
  let change := fun old => op.apply width old (hart.reg args.rs2)
  have asked : hart.access? ⟨.amo op width, args⟩ = some (.update (hart.reg args.rs1) width.size change) := rfl
  cases outcome : (DataAccess.update (hart.reg args.rs1) width.size change).run hart.dataContext hart.memory with
  | ok value memory =>
    rw [amo_completes hart op width args outcome]
    exact .accessed asked outcome _ _ hart.reservation
  | error fault memory =>
    have executed : amo op width args hart =
        .error (.ofFault fault) { hart with memory := memory, pendingTval := some (hart.reg args.rs1) } :=
      (bind_of_ok (readReg_run args.rs1 hart)).trans
        ((bind_of_ok (readReg_run args.rs2 hart)).trans (bind_of_error (updateData_error outcome)))
    rw [executed]
    exact .faulted asked outcome hart.reservation

theorem storeConditional_completes (width : AmoWidth) (args : AArgs) {value : UInt64} {memory : Memory}
    (reserved : (hart.reservation == some (hart.reg args.rs1)) = true)
    (done : (DataAccess.store (hart.reg args.rs1) width.size (hart.reg args.rs2)).run hart.dataContext hart.memory =
      .ok value memory) :
    storeConditional width args hart = .ok () { hart with
      memory := memory
      registers := hart.registers.write args.rd 0
      pc := hart.next
      reservation := none } := by
  let released : Hart := { hart with reservation := none }
  have stored : storeData (hart.reg args.rs1) width.size (hart.reg args.rs2) released =
      .ok () { released with memory := memory } := storeData_ok done
  refine (bind_of_ok (get_run hart)).trans ((bind_of_ok (set_run released hart)).trans ?_)
  rw [reserved]
  exact bind_of_ok stored

theorem storeConditional_unreserved (width : AmoWidth) (args : AArgs)
    (unreserved : (hart.reservation == some (hart.reg args.rs1)) = false) :
    storeConditional width args hart =
      .ok () { hart with registers := hart.registers.write args.rd 1, pc := hart.next, reservation := none } := by
  refine (bind_of_ok (get_run hart)).trans ((bind_of_ok (set_run { hart with reservation := none } hart)).trans ?_)
  rw [unreserved]
  rfl

theorem executes_storeConditional (width : AmoWidth) (args : AArgs) :
    Executes hart ⟨.storeConditional width, args⟩ (storeConditional width args hart) := by
  let released : Hart := { hart with reservation := none }
  cases reserved : hart.reservation == some (hart.reg args.rs1) with
  | false =>
    have quiet : hart.access? ⟨.storeConditional width, args⟩ = none := by
      simp only [access?, reserved]
      rfl
    rw [storeConditional_unreserved hart width args reserved]
    exact .computed quiet _ _ _
  | true =>
    have asked : hart.access? ⟨.storeConditional width, args⟩ =
        some (.store (hart.reg args.rs1) width.size (hart.reg args.rs2)) := by
      simp only [access?, reserved]
      rfl
    cases outcome : (DataAccess.store (hart.reg args.rs1) width.size (hart.reg args.rs2)).run
        hart.dataContext hart.memory with
    | ok value memory =>
      rw [storeConditional_completes hart width args reserved outcome]
      exact .accessed asked outcome _ _ _
    | error fault memory =>
      have unstored : storeData (hart.reg args.rs1) width.size (hart.reg args.rs2) released =
          .error (.ofFault fault) { released with memory := memory, pendingTval := some (hart.reg args.rs1) } :=
        storeData_error outcome
      have executed : storeConditional width args hart =
          .error (.ofFault fault)
            { hart with memory := memory, pendingTval := some (hart.reg args.rs1), reservation := none } := by
        refine (bind_of_ok (get_run hart)).trans ((bind_of_ok (set_run released hart)).trans ?_)
        rw [reserved]
        exact bind_of_error unstored
      rw [executed]
      exact .faulted asked outcome none

theorem csrOperand_run (isImmediate : Bool) (args : IArgs) :
    csrOperand isImmediate args hart = .ok (hart.csrSource isImmediate args) hart := by
  cases isImmediate <;> rfl

theorem namedCsr_ok {address : UInt64} {csr : Csr} (found : Csr.ofAddress? address = some csr)
    (allowed : hart.mayAccess csr = true) : namedCsr address hart = .ok csr hart := by
  unfold namedCsr
  rw [found]
  exact if_pos allowed

theorem namedCsr_cases (address : UInt64) :
    (∃ csr, Csr.ofAddress? address = some csr ∧ hart.mayAccess csr = true ∧ namedCsr address hart = .ok csr hart) ∨
      namedCsr address hart = .error .illegalInstruction hart := by
  cases found : Csr.ofAddress? address with
  | none =>
    unfold namedCsr
    rw [found]
    exact .inr rfl
  | some csr =>
    cases allowed : hart.mayAccess csr with
    | true => exact .inl ⟨csr, rfl, allowed, namedCsr_ok hart found allowed⟩
    | false =>
      unfold namedCsr
      rw [found]
      exact .inr (if_neg (Bool.not_eq_true _ ▸ allowed))

section Named

variable {hart : Hart} {address : UInt64} {csr : Csr} (named : namedCsr address hart = .ok csr hart)

include named

theorem readNamed_ok : readNamed address hart = .ok (hart.csrValue csr) hart :=
  bind_of_ok named

theorem writeNamed_ok (value : UInt64) (writable : csr.isReadOnly = false) :
    writeNamed address value hart = .ok () (hart.writeCsr csr value) := by
  refine (bind_of_ok named).trans ?_
  dsimp only
  rw [writable]
  rfl

theorem writeNamed_readOnly (value : UInt64) (readOnly : csr.isReadOnly = true) :
    writeNamed address value hart = .error .illegalInstruction hart := by
  refine (bind_of_ok named).trans ?_
  dsimp only
  rw [readOnly]
  rfl

end Named

theorem writeCsr_next (csr : Csr) (value : UInt64) : (hart.writeCsr csr value).next = hart.next := by
  obtain ⟨csrs, memory, instret, cycleOffset, same⟩ := hart.writeCsr_frame csr value
  rw [same]
  rfl

section Csr

variable (isImmediate : Bool) (args : IArgs)

theorem csrWrite_ok {csr : Csr} (named : namedCsr args.imm hart = .ok csr hart) (writable : csr.isReadOnly = false) :
    ∃ registers, csrWrite isImmediate args hart =
      .ok () { hart.writeCsr csr (hart.csrSource isImmediate args) with registers := registers, pc := hart.next } := by
  have written := writeNamed_ok named (hart.csrSource isImmediate args) writable
  rw [← hart.writeCsr_next csr (hart.csrSource isImmediate args)]
  by_cases nowhere : args.rd = .zero
  · refine ⟨(hart.writeCsr csr (hart.csrSource isImmediate args)).registers, ?_⟩
    refine (bind_of_ok (csrOperand_run hart isImmediate args)).trans ?_
    rw [if_pos nowhere]
    exact bind_of_ok written
  · refine ⟨(hart.writeCsr csr (hart.csrSource isImmediate args)).registers.write args.rd (hart.csrValue csr), ?_⟩
    refine (bind_of_ok (csrOperand_run hart isImmediate args)).trans ?_
    rw [if_neg nowhere]
    exact (bind_of_ok (readNamed_ok named)).trans (bind_of_ok written)

theorem csrWrite_readOnly {csr : Csr} (named : namedCsr args.imm hart = .ok csr hart) (readOnly : csr.isReadOnly = true) :
    csrWrite isImmediate args hart = .error .illegalInstruction hart := by
  refine (bind_of_ok (csrOperand_run hart isImmediate args)).trans ?_
  by_cases nowhere : args.rd = .zero
  · rw [if_pos nowhere]
    exact bind_of_error (writeNamed_readOnly named _ readOnly)
  · rw [if_neg nowhere]
    exact (bind_of_ok (readNamed_ok named)).trans (bind_of_error (writeNamed_readOnly named _ readOnly))

theorem csrWrite_unnamed (unnamed : namedCsr args.imm hart = .error .illegalInstruction hart) :
    csrWrite isImmediate args hart = .error .illegalInstruction hart := by
  refine (bind_of_ok (csrOperand_run hart isImmediate args)).trans ?_
  by_cases nowhere : args.rd = .zero
  · rw [if_pos nowhere]
    exact bind_of_error (bind_of_error unnamed)
  · rw [if_neg nowhere]
    exact bind_of_error (bind_of_error unnamed)

variable (change : UInt64 → UInt64 → UInt64)

theorem csrChange_unnamed (unnamed : namedCsr args.imm hart = .error .illegalInstruction hart) :
    csrChange change isImmediate args hart = .error .illegalInstruction hart :=
  (bind_of_ok (csrOperand_run hart isImmediate args)).trans (bind_of_error (bind_of_error unnamed))

theorem csrChange_read {csr : Csr} (named : namedCsr args.imm hart = .ok csr hart) (nothing : args.rs1 = .zero) :
    csrChange change isImmediate args hart =
      .ok () { hart with registers := hart.registers.write args.rd (hart.csrValue csr), pc := hart.next } := by
  refine (bind_of_ok (csrOperand_run hart isImmediate args)).trans ((bind_of_ok (readNamed_ok named)).trans ?_)
  rw [if_neg (not_not_intro nothing)]
  rfl

theorem csrChange_ok {csr : Csr} (named : namedCsr args.imm hart = .ok csr hart) (something : args.rs1 ≠ .zero)
    (writable : csr.isReadOnly = false) :
    ∃ registers, csrChange change isImmediate args hart =
      .ok ()
        { hart.writeCsr csr (change (hart.csrValue csr) (hart.csrSource isImmediate args)) with
          registers := registers, pc := hart.next } := by
  have written := writeNamed_ok named (change (hart.csrValue csr) (hart.csrSource isImmediate args)) writable
  rw [← hart.writeCsr_next csr (change (hart.csrValue csr) (hart.csrSource isImmediate args))]
  refine ⟨(hart.writeCsr csr (change (hart.csrValue csr) (hart.csrSource isImmediate args))).registers.write args.rd
    (hart.csrValue csr), ?_⟩
  refine (bind_of_ok (csrOperand_run hart isImmediate args)).trans ((bind_of_ok (readNamed_ok named)).trans ?_)
  rw [if_pos something]
  exact bind_of_ok written

theorem csrChange_readOnly {csr : Csr} (named : namedCsr args.imm hart = .ok csr hart) (something : args.rs1 ≠ .zero)
    (readOnly : csr.isReadOnly = true) : csrChange change isImmediate args hart = .error .illegalInstruction hart := by
  refine (bind_of_ok (csrOperand_run hart isImmediate args)).trans ((bind_of_ok (readNamed_ok named)).trans ?_)
  rw [if_pos something]
  exact bind_of_error (writeNamed_readOnly named _ readOnly)

theorem executes_csrWrite : Executes hart ⟨.csr .write isImmediate, args⟩ (csrWrite isImmediate args hart) := by
  rcases namedCsr_cases hart args.imm with ⟨csr, found, allowed, named⟩ | unnamed
  · cases readOnly : csr.isReadOnly with
    | true =>
      rw [csrWrite_readOnly hart isImmediate args named readOnly]
      exact .refused rfl List.mem_cons_self
    | false =>
      obtain ⟨registers, executed⟩ := csrWrite_ok hart isImmediate args named readOnly
      rw [executed]
      exact .wrote found allowed (.inl rfl) readOnly registers
  · rw [csrWrite_unnamed hart isImmediate args unnamed]
    exact .refused rfl List.mem_cons_self

theorem executes_csrChange (op : CsrOp) (changes : op ≠ .write) :
    Executes hart ⟨.csr op isImmediate, args⟩ (csrChange (combined op) isImmediate args hart) := by
  rcases namedCsr_cases hart args.imm with ⟨csr, found, allowed, named⟩ | unnamed
  · by_cases nothing : args.rs1 = .zero
    · have unwritten : ¬ writes op args := by
        rintro (write | something)
        · exact changes write
        · exact something nothing
      rw [csrChange_read hart isImmediate args (combined op) named nothing]
      exact .named found allowed unwritten _
    · cases readOnly : csr.isReadOnly with
      | true =>
        rw [csrChange_readOnly hart isImmediate args (combined op) named nothing readOnly]
        exact .refused rfl List.mem_cons_self
      | false =>
        obtain ⟨registers, executed⟩ := csrChange_ok hart isImmediate args (combined op) named nothing readOnly
        rw [executed]
        exact .wrote found allowed (.inr nothing) readOnly registers
  · rw [csrChange_unnamed hart isImmediate args (combined op) unnamed]
    exact .refused rfl List.mem_cons_self

end Csr

theorem executes_csr (op : CsrOp) (isImmediate : Bool) (args : IArgs) :
    Executes hart ⟨.csr op isImmediate, args⟩ (csr op isImmediate args hart) := by
  cases op with
  | write => exact executes_csrWrite hart isImmediate args
  | set => exact executes_csrChange hart isImmediate args .set (fun same => CsrOp.noConfusion same)
  | clear => exact executes_csrChange hart isImmediate args .clear (fun same => CsrOp.noConfusion same)

theorem branch_run (cond : Cond) (args : SArgs) :
    branch cond args hart = .ok () { hart with
      pc := if cond.holds (hart.reg args.rs1) (hart.reg args.rs2) then hart.pc + signExtend 13 args.imm else hart.next } := by
  refine (bind_of_ok (get_run hart)).trans ?_
  by_cases taken : cond.holds (hart.reg args.rs1) (hart.reg args.rs2)
  · rw [if_pos taken, if_pos taken]
    rfl
  · rw [if_neg taken, if_neg taken]
    rfl

theorem executes_branch (cond : Cond) (args : SArgs) :
    Executes hart ⟨.branch cond, args⟩ (branch cond args hart) := by
  rw [branch_run]
  exact .computed rfl hart.registers _ hart.reservation

theorem environmentCall_raises :
    ∃ why, environmentCall hart = .error why hart ∧ why ∈ [.userCall, .supervisorCall, .machineCall] := by
  unfold environmentCall
  rw [bind_of_ok (get_run hart)]
  cases hart.privilege with
  | user => exact ⟨.userCall, rfl, by simp⟩
  | supervisor => exact ⟨.supervisorCall, rfl, by simp⟩
  | machine => exact ⟨.machineCall, rfl, by simp⟩

theorem executes_environmentCall (args : Unit) : Executes hart ⟨.ecall, args⟩ (environmentCall hart) := by
  obtain ⟨why, raised, member⟩ := hart.environmentCall_raises
  rw [raised]
  exact .refused rfl (List.mem_cons_of_mem _ (List.mem_cons_of_mem _ member))

theorem require_run (allowed : Hart → Bool) :
    require allowed hart = if allowed hart then .ok () hart else .error .illegalInstruction hart := by
  refine (bind_of_ok (get_run hart)).trans ?_
  cases allowed hart <;> rfl

theorem require_refuses {allowed : Hart → Bool} (rest : HartM Unit) (illegal : allowed hart = false) :
    (do require allowed; rest : HartM Unit) hart = .error .illegalInstruction hart := by
  have refused : require allowed hart = .error .illegalInstruction hart := by
    rw [require_run, illegal]
    rfl
  exact bind_of_error refused

theorem executes_required {instr : Instr} {allowed : Hart → Bool} {rest : HartM Unit} {next : Hart}
    (quiet : hart.access? instr = none) (done : rest hart = .ok () next)
    (legal : allowed hart = true → Executes hart instr (.ok () next)) :
    Executes hart instr ((do require allowed; rest : HartM Unit) hart) := by
  cases may : allowed hart with
  | true =>
    have required : require allowed hart = .ok () hart := (require_run hart allowed).trans (if_pos may)
    rw [bind_of_ok required, done]
    exact legal may
  | false =>
    rw [require_refuses hart rest may]
    exact .refused quiet List.mem_cons_self

theorem execute_cases (instr : Instr) : Executes hart instr (execute instr hart) := by
  obtain ⟨op, args⟩ := instr
  cases op with
  | lui => exact .computed rfl _ _ hart.reservation
  | auipc => exact .computed rfl _ _ hart.reservation
  | jal => exact .computed rfl _ _ hart.reservation
  | jalr => exact .computed rfl _ _ hart.reservation
  | branch cond => exact executes_branch hart cond args
  | load op => exact executes_load hart op args
  | store op => exact executes_store hart op args
  | aluImm op => exact .computed rfl _ _ hart.reservation
  | alu op => exact .computed rfl _ _ hart.reservation
  | fence => exact .computed rfl hart.registers _ hart.reservation
  | fenceI => exact .computed rfl hart.registers _ hart.reservation
  | ecall => exact executes_environmentCall hart args
  | ebreak => exact .refused rfl (by simp)
  | loadReserved width => exact executes_loadReserved hart width args
  | storeConditional width => exact executes_storeConditional hart width args
  | amo op width => exact executes_amo hart op width args
  | csr op isImmediate => exact executes_csr hart op isImmediate args
  | sret => exact executes_required hart rfl rfl .supervisorReturned
  | mret => exact executes_required hart rfl rfl fun same => .machineReturned (eq_of_beq same)
  | wfi => exact executes_required hart rfl rfl .waited
  | sfenceVma => exact executes_required hart rfl rfl .fenced

end Hart

end RvBoard
