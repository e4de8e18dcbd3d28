import RvBoard.Proofs.Hart.Moves
import RvBoard.Proofs.Hart.TrapReturn

/-!
# The zero register

Register 0 is zero at power-on and after a reset, and neither an instruction nor a trap nor a debugger writes it: it reads
as zero in every state that a hart can come to.
-/

set_option autoImplicit false

namespace RvBoard.Hart

def Zeroed (hart : Hart) : Prop :=
  hart.reg .zero = 0

theorem setReg_zeroed {hart : Hart} (start : Zeroed hart) (reg : Reg) (value : UInt64) : Zeroed (hart.setReg reg value) := by
  change (hart.registers.write reg value).get .zero = 0
  rw [Registers.get_write, if_neg fun both => both.2 both.1]
  exact start

section Operations

theorem accessMemory_zeroed {α : Type} (vaddr : UInt64) (why : MemFault → Exception) (operation : MemoryM α) :
    Keeps Zeroed (accessMemory vaddr why operation) := by
  intro hart start
  cases outcome : operation hart.memory with
  | ok value memory =>
    rw [accessMemory_ok why outcome]
    exact start
  | error fault memory =>
    rw [accessMemory_error why outcome]
    exact start

theorem loadData_zeroed (vaddr : UInt64) (size : Nat) : Keeps Zeroed (loadData vaddr size) :=
  keeps_bind keeps_get fun _ => accessMemory_zeroed vaddr _ _

theorem storeData_zeroed (vaddr : UInt64) (size : Nat) (value : UInt64) : Keeps Zeroed (storeData vaddr size value) :=
  keeps_bind keeps_get fun _ => accessMemory_zeroed vaddr _ _

theorem updateData_zeroed (vaddr : UInt64) (size : Nat) (change : UInt64 → UInt64) :
    Keeps Zeroed (updateData vaddr size change) :=
  keeps_bind keeps_get fun _ => accessMemory_zeroed vaddr _ _

theorem readReg_zeroed (reg : Reg) : Keeps Zeroed (readReg reg) :=
  keeps_bind keeps_get fun _ => keeps_pure _

theorem writeReg_zeroed (reg : Reg) (value : UInt64) : Keeps Zeroed (writeReg reg value) :=
  keeps_modify fun _ start => setReg_zeroed start reg value

theorem jump_zeroed (target : UInt64) : Keeps Zeroed (jump target) :=
  keeps_modify fun _ start => start

theorem finish_zeroed : Keeps Zeroed finish :=
  keeps_modify fun _ start => start

theorem writes_zeroed (reg : Reg) (value : UInt64) : Keeps Zeroed (do writeReg reg value; finish) :=
  keeps_bind (writeReg_zeroed reg value) fun _ => finish_zeroed

theorem link_zeroed (rd : Reg) (target : UInt64) : Keeps Zeroed (link rd target) :=
  keeps_bind keeps_get fun _ => keeps_bind (jump_zeroed target) fun _ => writeReg_zeroed rd _

theorem branch_zeroed (cond : Cond) (args : SArgs) : Keeps Zeroed (branch cond args) :=
  keeps_bind keeps_get fun _ => keeps_ite (jump_zeroed _) finish_zeroed

theorem load_zeroed (op : LoadOp) (args : IArgs) : Keeps Zeroed (load op args) :=
  keeps_bind (readReg_zeroed args.rs1) fun _ => keeps_bind (loadData_zeroed _ _) fun _ => writes_zeroed args.rd _

theorem store_zeroed (op : StoreOp) (args : SArgs) : Keeps Zeroed (store op args) :=
  keeps_bind (readReg_zeroed args.rs2) fun _ => keeps_bind (readReg_zeroed args.rs1) fun _ =>
    keeps_bind (storeData_zeroed _ _ _) fun _ => finish_zeroed

theorem loadReserved_zeroed (width : AmoWidth) (args : AArgs) : Keeps Zeroed (loadReserved width args) :=
  keeps_bind (readReg_zeroed args.rs1) fun _ => keeps_bind (loadData_zeroed _ _) fun _ =>
    keeps_bind (keeps_modify fun _ start => start) fun _ => writes_zeroed args.rd _

theorem storeConditional_zeroed (width : AmoWidth) (args : AArgs) : Keeps Zeroed (storeConditional width args) := by
  intro hart start
  have released : Zeroed { hart with reservation := none } := start
  refine keeps_left ?_ released
    ((bind_of_ok (get_run hart)).trans (bind_of_ok (set_run { hart with reservation := none } hart))).symm
  exact keeps_ite
    (keeps_bind (storeData_zeroed _ _ _) fun _ => keeps_bind (writeReg_zeroed args.rd _) fun _ => finish_zeroed)
    (keeps_bind (writeReg_zeroed args.rd _) fun _ => finish_zeroed)

theorem amo_zeroed (op : AmoOp) (width : AmoWidth) (args : AArgs) : Keeps Zeroed (amo op width args) :=
  keeps_bind (readReg_zeroed args.rs1) fun _ => keeps_bind (readReg_zeroed args.rs2) fun _ =>
    keeps_bind (updateData_zeroed _ _ _) fun _ => writes_zeroed args.rd _

theorem writeCsr_zeroed {hart : Hart} (start : Zeroed hart) (csr : Csr) (value : UInt64) :
    Zeroed (hart.writeCsr csr value) := by
  obtain ⟨csrs, memory, instret, cycleOffset, same⟩ := hart.writeCsr_frame csr value
  rw [same]
  exact start

theorem namedCsr_zeroed (address : UInt64) : Keeps Zeroed (namedCsr address) := by
  intro hart start
  rcases hart.namedCsr_cases address with ⟨csr, _, _, named⟩ | refused
  · rw [named]
    exact start
  · rw [refused]
    exact start

theorem readNamed_zeroed (address : UInt64) : Keeps Zeroed (readNamed address) :=
  keeps_bind (namedCsr_zeroed address) fun _ => keeps_bind keeps_get fun _ => keeps_pure _

theorem writeNamed_zeroed (address value : UInt64) : Keeps Zeroed (writeNamed address value) :=
  keeps_bind (namedCsr_zeroed address) fun csr =>
    keeps_when (keeps_throw _) (keeps_modify fun _ start => writeCsr_zeroed start csr value)

theorem csrOperand_zeroed (isImmediate : Bool) (args : IArgs) : Keeps Zeroed (csrOperand isImmediate args) :=
  keeps_ite (keeps_pure _) (readReg_zeroed args.rs1)

theorem csrWrite_zeroed (isImmediate : Bool) (args : IArgs) : Keeps Zeroed (csrWrite isImmediate args) :=
  keeps_bind (csrOperand_zeroed isImmediate args) fun _ => keeps_ite
    (keeps_bind (writeNamed_zeroed _ _) fun _ => finish_zeroed)
    (keeps_bind (readNamed_zeroed _) fun _ => keeps_bind (writeNamed_zeroed _ _) fun _ => writes_zeroed args.rd _)

theorem csrChange_zeroed (change : UInt64 → UInt64 → UInt64) (isImmediate : Bool) (args : IArgs) :
    Keeps Zeroed (csrChange change isImmediate args) :=
  keeps_bind (csrOperand_zeroed isImmediate args) fun _ => keeps_bind (readNamed_zeroed _) fun _ =>
    keeps_when (writeNamed_zeroed _ _) (writes_zeroed args.rd _)

theorem environmentCall_zeroed : Keeps Zeroed environmentCall := by
  refine keeps_bind keeps_get fun hart => ?_
  cases hart.privilege <;> exact keeps_throw _

theorem require_zeroed (allowed : Hart → Bool) : Keeps Zeroed (require allowed) :=
  keeps_bind keeps_get fun _ => keeps_ite (keeps_throw _) (keeps_pure _)

theorem execute_zeroed (instr : Instr) : Keeps Zeroed (execute instr) := by
  obtain ⟨op, args⟩ := instr
  cases op with
  | lui => exact writes_zeroed _ _
  | auipc => exact keeps_bind keeps_get fun _ => writes_zeroed _ _
  | jal => exact keeps_bind keeps_get fun _ => link_zeroed _ _
  | jalr => exact keeps_bind (readReg_zeroed _) fun _ => link_zeroed _ _
  | branch cond => exact branch_zeroed cond args
  | load op => exact load_zeroed op args
  | store op => exact store_zeroed op args
  | aluImm op => exact keeps_bind (readReg_zeroed _) fun _ => writes_zeroed _ _
  | alu op => exact keeps_bind (readReg_zeroed _) fun _ => keeps_bind (readReg_zeroed _) fun _ => writes_zeroed _ _
  | fence => exact finish_zeroed
  | fenceI => exact finish_zeroed
  | ecall => exact environmentCall_zeroed
  | ebreak => exact keeps_throw _
  | loadReserved width => exact loadReserved_zeroed width args
  | storeConditional width => exact storeConditional_zeroed width args
  | amo op width => exact amo_zeroed op width args
  | csr op isImmediate =>
    cases op with
    | write => exact csrWrite_zeroed isImmediate args
    | set => exact csrChange_zeroed _ isImmediate args
    | clear => exact csrChange_zeroed _ isImmediate args
  | sret =>
    refine keeps_bind (require_zeroed _) fun _ => keeps_modify fun hart start => ?_
    obtain ⟨csrs, same, _⟩ := hart.returnSupervisor_eq
    rw [same]
    exact start
  | mret =>
    refine keeps_bind (require_zeroed _) fun _ => keeps_modify fun hart start => ?_
    obtain ⟨csrs, same, _⟩ := hart.returnMachine_eq
    rw [same]
    exact start
  | wfi => exact keeps_bind (require_zeroed _) fun _ => keeps_bind (keeps_modify fun _ start => start) fun _ => finish_zeroed
  | sfenceVma =>
    exact keeps_bind (require_zeroed _) fun _ => keeps_bind (keeps_modify fun _ start => start) fun _ => finish_zeroed

theorem fetchParcel_zeroed (vaddr : UInt64) : Keeps Zeroed (fetchParcel vaddr) :=
  keeps_bind keeps_get fun _ => accessMemory_zeroed vaddr _ _

theorem illegal_zeroed {α : Type} (raw : UInt64) : Keeps Zeroed (illegal raw : HartM α) :=
  fun _ start => start

theorem decodeOr_zeroed (word : UInt32) (raw : UInt64) : Keeps Zeroed (decodeOr word raw) := by
  unfold decodeOr
  cases decode word with
  | some instr => exact keeps_pure instr
  | none => exact illegal_zeroed raw

theorem setLength_zeroed (length : UInt64) : Keeps Zeroed (setLength length) :=
  keeps_modify fun _ start => start

theorem fetchInstr_zeroed : Keeps Zeroed fetchInstr := by
  refine keeps_bind keeps_get fun _ => keeps_bind (fetchParcel_zeroed _) fun low => keeps_ite ?_ ?_
  · exact keeps_bind (fetchParcel_zeroed _) fun _ => keeps_bind (setLength_zeroed _) fun _ => decodeOr_zeroed _ _
  · refine keeps_bind (setLength_zeroed _) fun _ => ?_
    cases Compressed.expand low with
    | some word => exact decodeOr_zeroed word _
    | none => exact illegal_zeroed _

theorem instruction_zeroed : Keeps Zeroed instruction :=
  keeps_bind fetchInstr_zeroed execute_zeroed

end Operations

theorem trap_zeroed {hart : Hart} (start : Zeroed hart) (trap : Trap) : Zeroed (hart.trap trap) := by
  obtain ⟨csrs, pc, same⟩ := (hart.trap_entered trap).frame
  rw [same]
  exact start

theorem executeOne_zeroed {hart : Hart} (start : Zeroed hart) : Zeroed hart.executeOne := by
  have after := instruction_zeroed hart start
  unfold executeOne
  generalize instruction hart = outcome at after
  cases outcome with
  | ok _ next => exact after
  | error why next => exact trap_zeroed after _

theorem progresses_zeroed {hart next : Hart} {move : Move} (start : Zeroed hart) (progresses : Progresses hart move next) :
    Zeroed next := by
  cases progresses with
  | executed now => exact @executeOne_zeroed hart.resumed start
  | interrupted which resumeFrom =>
    exact @trap_zeroed { hart with waiting := false, resumeFrom := resumeFrom } start _
  | slept time => exact start
  | stopped waiting resumeFrom => exact start

theorem move_zeroed {hart : Hart} (start : Zeroed hart) (move : Move) : Zeroed (move.apply hart) := by
  cases move with
  | step deliver => exact progresses_zeroed start (step_progresses hart deliver)
  | turn stop => exact progresses_zeroed start (turn_progresses hart stop)
  | reset => rfl
  | setReg reg value => exact setReg_zeroed start reg value
  | setCsr address value =>
    change Zeroed (hart.debugSetCsr address value)
    unfold debugSetCsr
    cases Csr.ofAddress? address with
    | none => exact start
    | some csr => exact writeCsr_zeroed start csr value
  | readMemory vaddr n =>
    change Zeroed (hart.runMemory _).2
    rw [runMemory_frame]
    exact start
  | writeMemory vaddr bytes =>
    change Zeroed (hart.runMemory _).2
    rw [runMemory_frame]
    exact start
  | _ => exact start

theorem reachable_zeroed {built : Bus → Prop} {permitted : Hart → Move → Prop} {hart : Hart}
    (reachable : Reachable built permitted hart) : Zeroed hart := by
  induction reachable with
  | start bus fits => rfl
  | move before move allowed ih => exact move_zeroed ih move

end RvBoard.Hart
