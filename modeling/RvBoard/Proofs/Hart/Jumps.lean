import RvBoard.Proofs.Even
import RvBoard.Proofs.Hart.Instruction
import RvBoard.Proofs.Hart.TrapEntry
import RvBoard.Proofs.Hart.Views

/-!
# Where execution goes on

Behind the instruction, at the target of a branch or a jump, or where a trap came from. All of these are even where the
instruction itself is: lengths, the offsets that are encoded in words and the targets of jumps through registers are.
-/

set_option autoImplicit false

namespace RvBoard

open Format (read)

theorem immB_even (word : UInt32) : IsEven (immB word).toUInt64 := by
  apply isEven_widened
  unfold immB
  simp only [UInt32.toBitVec_or, BitVec.getLsbD_or, Bool.or_eq_false_iff]
  exact ⟨⟨⟨lowest_shifted _ (by decide), lowest_shifted _ (by decide)⟩, lowest_shifted _ (by decide)⟩,
    lowest_shifted _ (by decide)⟩

theorem immJ_even (word : UInt32) : IsEven (immJ word).toUInt64 := by
  apply isEven_widened
  unfold immJ
  simp only [UInt32.toBitVec_or, BitVec.getLsbD_or, Bool.or_eq_false_iff]
  exact ⟨⟨⟨lowest_shifted _ (by decide), lowest_shifted _ (by decide)⟩, lowest_shifted _ (by decide)⟩,
    lowest_shifted _ (by decide)⟩

theorem decode_reads {word : UInt32} {instr : Instr} (decoded : decode word = some instr) :
    instr.args = instr.op.readArgs word := by
  unfold decode at decoded
  dsimp only at decoded
  split at decoded
  · cases decoded
    rfl
  · obtain ⟨row, _, rfl⟩ := Option.map_eq_some_iff.mp decoded
    rfl

namespace Hart

-- Where the execution of an instruction leads.
inductive Leads (hart : Hart) : Instr → UInt64 → Prop
  | next (instr : Instr) : Leads hart instr hart.next
  | branch (cond : Cond) (args : SArgs) : Leads hart ⟨.branch cond, args⟩ (hart.pc + signExtend 13 args.imm)
  | jump (args : UArgs) : Leads hart ⟨.jal, args⟩ (hart.pc + signExtend 21 args.imm)
  | register (args : IArgs) : Leads hart ⟨.jalr, args⟩ ((hart.reg args.rs1 + immediate args.imm) &&& ~~~1)
  | supervisorReturn (args : Unit) : Leads hart ⟨.sret, args⟩ (hart.csrs.get .sepc)
  | machineReturn (args : Unit) : Leads hart ⟨.mret, args⟩ (hart.csrs.get .mepc)

def Passes (operation : HartM Unit) : Prop :=
  ∀ hart next, operation hart = .ok () next → next.pc = hart.next

section Passing

variable {α : Type}

theorem passes_finish : Passes finish := by
  intro hart next done
  cases done
  rfl

theorem passes_bind {first : HartM α} {rest : α → HartM Unit} (starts : Leaves Hart.next first)
    (follows : ∀ value, Passes (rest value)) : Passes (first >>= rest) := by
  intro hart next done
  obtain ⟨value, mid, started, rests⟩ := bind_ok.mp done
  exact (follows value mid next rests).trans (starts.ok started)

theorem passes_ite {condition : Prop} [Decidable condition] {yes no : HartM Unit} (passesYes : Passes yes)
    (passesNo : Passes no) : Passes (if condition then yes else no) := by
  by_cases holds : condition
  · rw [if_pos holds]
    exact passesYes
  · rw [if_neg holds]
    exact passesNo

theorem aside_next : Aside next :=
  fun _ _ _ _ _ _ _ => rfl

theorem written_passes {reg : Reg} {value : UInt64} : Passes (do writeReg reg value; finish) :=
  passes_bind (writeReg_leaves aside_next) fun _ => passes_finish

theorem load_passes (op : LoadOp) (args : IArgs) : Passes (load op args) :=
  passes_bind readReg_leaves fun _ =>
    passes_bind (loadData_leaves aside_next) fun _ => written_passes

theorem store_passes (op : StoreOp) (args : SArgs) : Passes (store op args) :=
  passes_bind readReg_leaves fun _ => passes_bind readReg_leaves fun _ =>
    passes_bind (storeData_leaves aside_next) fun _ => passes_finish

theorem loadReserved_passes (width : AmoWidth) (args : AArgs) : Passes (loadReserved width args) :=
  passes_bind readReg_leaves fun _ => passes_bind (loadData_leaves aside_next) fun _ =>
    passes_bind (leaves_modify fun _ => rfl) fun _ => written_passes

theorem amo_passes (op : AmoOp) (width : AmoWidth) (args : AArgs) : Passes (amo op width args) :=
  passes_bind readReg_leaves fun _ => passes_bind readReg_leaves fun _ =>
    passes_bind (updateData_leaves aside_next) fun _ => written_passes

theorem csrWrite_passes (isImmediate : Bool) (args : IArgs) : Passes (csrWrite isImmediate args) := by
  refine passes_bind csrOperand_leaves fun value => passes_ite ?_ ?_
  · exact passes_bind (writeNamed_leaves aside_next) fun _ => passes_finish
  · exact passes_bind readNamed_leaves fun _ => passes_bind (writeNamed_leaves aside_next) fun _ => written_passes

theorem csrChange_passes (change : UInt64 → UInt64 → UInt64) (isImmediate : Bool) (args : IArgs) :
    Passes (csrChange change isImmediate args) := by
  refine passes_bind csrOperand_leaves fun operand =>
    passes_bind readNamed_leaves fun old => passes_ite ?_ written_passes
  exact passes_bind (writeNamed_leaves aside_next) fun _ => written_passes

theorem csr_passes (op : CsrOp) (isImmediate : Bool) (args : IArgs) : Passes (csr op isImmediate args) := by
  cases op with
  | write => exact csrWrite_passes isImmediate args
  | set => exact csrChange_passes _ isImmediate args
  | clear => exact csrChange_passes _ isImmediate args

theorem modified_passes {allowed : Hart → Bool} {change : Hart → Hart} (stays : ∀ hart, (change hart).next = hart.next) :
    Passes (do require allowed; modify change; finish) :=
  passes_bind require_leaves fun _ =>
    passes_bind (leaves_modify stays) fun _ => passes_finish

theorem storeConditional_passes (width : AmoWidth) (args : AArgs) : Passes (storeConditional width args) := by
  intro hart next done
  cases reserved : hart.reservation == some (hart.reg args.rs1) with
  | false =>
    rw [storeConditional_unreserved hart width args reserved] at done
    cases done
    rfl
  | true =>
    let released : Hart := { hart with reservation := none }
    have stores : Passes (do storeData (hart.reg args.rs1) width.size (hart.reg args.rs2); writeReg args.rd 0; finish) :=
      passes_bind (storeData_leaves aside_next) fun _ => written_passes
    have same : storeConditional width args hart =
        (do storeData (hart.reg args.rs1) width.size (hart.reg args.rs2); writeReg args.rd 0; finish : HartM Unit)
          released := by
      refine (bind_of_ok (get_run hart)).trans ((bind_of_ok (set_run released hart)).trans ?_)
      rw [reserved]
      rfl
    exact stores released next (same.symm.trans done)

end Passing

section Execution

variable {hart next : Hart}

theorem Passes.leads {operation : HartM Unit} (passes : Passes operation) (instr : Instr)
    (done : operation hart = .ok () next) : Leads hart instr next.pc := by
  rw [passes hart next done]
  exact .next instr

theorem required_done {allowed : Hart → Bool} {change : Hart → Hart}
    (done : (do require allowed; modify change : HartM Unit) hart = .ok () next) : next = change hart := by
  obtain ⟨_, mid, required, changed⟩ := bind_ok.mp done
  rw [require_run] at required
  split at required
  · cases required
    cases changed
    rfl
  · cases required

theorem execute_leads {instr : Instr} (done : execute instr hart = .ok () next) : Leads hart instr next.pc := by
  have settles : ∀ {after : Hart}, execute instr hart = .ok () after → next.pc = after.pc := by
    intro after same
    cases done.symm.trans same
    rfl
  obtain ⟨op, args⟩ := instr
  cases op with
  | lui => exact written_passes.leads _ done
  | auipc => exact (passes_bind leaves_get fun _ => written_passes).leads _ done
  | jal =>
    rw [settles rfl]
    exact .jump args
  | jalr =>
    rw [settles rfl]
    exact .register args
  | branch cond =>
    rw [settles (branch_run hart cond args)]
    dsimp only
    split
    · exact .branch cond args
    · exact .next _
  | load op => exact (load_passes op args).leads _ done
  | store op => exact (store_passes op args).leads _ done
  | aluImm op => exact (passes_bind readReg_leaves fun _ => written_passes).leads _ done
  | alu op =>
    exact (passes_bind readReg_leaves fun _ => passes_bind readReg_leaves fun _ =>
      written_passes).leads _ done
  | fence => exact passes_finish.leads _ done
  | fenceI => exact passes_finish.leads _ done
  | ecall =>
    obtain ⟨why, raised, _⟩ := hart.environmentCall_raises
    cases done.symm.trans raised
  | ebreak => cases done
  | loadReserved width => exact (loadReserved_passes width args).leads _ done
  | storeConditional width => exact (storeConditional_passes width args).leads _ done
  | amo op width => exact (amo_passes op width args).leads _ done
  | csr op isImmediate => exact (csr_passes op isImmediate args).leads _ done
  | sret =>
    obtain ⟨csrs, same, _⟩ := hart.returnSupervisor_eq
    rw [required_done done, same]
    exact .supervisorReturn args
  | mret =>
    obtain ⟨csrs, same, _⟩ := hart.returnMachine_eq
    rw [required_done done, same]
    exact .machineReturn args
  | wfi =>
    have stays : ∀ hart : Hart, ({ hart with waiting := true } : Hart).next = hart.next := fun _ => rfl
    exact (modified_passes stays).leads _ done
  | sfenceVma =>
    have stays : ∀ hart : Hart, (mapMemory Memory.flush hart).next = hart.next := fun _ => rfl
    exact (modified_passes stays).leads _ done

theorem Leads.even {instr : Instr} {word : UInt32} {target : UInt64} (leads : Leads hart instr target)
    (decoded : decode word = some instr) (pc : IsEven hart.pc) (length : IsEven hart.instrLength)
    (machine : IsEven (hart.csrs.get .mepc)) (supervisor : IsEven (hart.csrs.get .sepc)) : IsEven target := by
  have reads := decode_reads decoded
  cases leads with
  | next instr => exact isEven_add pc length
  | branch cond args =>
    have even : IsEven args.imm := (congrArg SArgs.imm reads) ▸ immB_even word
    exact isEven_add pc (isEven_branch even)
  | jump args =>
    have even : IsEven args.imm := (congrArg UArgs.imm reads) ▸ immJ_even word
    exact isEven_add pc (isEven_jump even)
  | register args => exact isEven_and (show IsEven (~~~1) by decide)
  | supervisorReturn args => exact supervisor
  | machineReturn args => exact machine

end Execution

end Hart

end RvBoard
