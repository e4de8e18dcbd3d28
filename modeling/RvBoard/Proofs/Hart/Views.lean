import RvBoard.Proofs.Hart.Execution

/-!
# What operations leave alone

The operations that instructions are made of read and write registers, control registers and memory.
Whatever a view of the hart shows besides these is the same before and after them.
-/

set_option autoImplicit false

namespace RvBoard.Hart

variable {α β σ : Type} {view : Hart → σ}

def Aside (view : Hart → σ) : Prop :=
  ∀ (hart : Hart) registers csrs memory pendingTval instret cycleOffset,
    view { hart with
      registers := registers, csrs := csrs, memory := memory, pendingTval := pendingTval, instret := instret
      cycleOffset := cycleOffset } = view hart

def Leaves (view : Hart → σ) (operation : HartM α) : Prop :=
  ∀ seen, Keeps (fun hart => view hart = seen) operation

theorem Leaves.ok {operation : HartM α} (leaves : Leaves view operation) {hart next : Hart} {value : α}
    (done : operation hart = .ok value next) : view next = view hart :=
  keeps_left (leaves (view hart)) rfl done

theorem leaves_pure (value : α) : Leaves view (pure value : HartM α) :=
  fun _ => keeps_pure value

theorem leaves_throw (why : Exception) : Leaves view (throw why : HartM α) :=
  fun _ => keeps_throw why

theorem leaves_get : Leaves view (get : HartM Hart) :=
  fun _ => keeps_get

theorem leaves_modify {change : Hart → Hart} (same : ∀ hart, view (change hart) = view hart) :
    Leaves view (modify change : HartM Unit) :=
  fun _ => keeps_modify fun hart start => (same hart).trans start

theorem leaves_bind {first : HartM α} {rest : α → HartM β} (starts : Leaves view first)
    (follows : ∀ value, Leaves view (rest value)) : Leaves view (first >>= rest) :=
  fun seen => keeps_bind (starts seen) fun value => follows value seen

theorem leaves_ite {condition : Prop} [Decidable condition] {yes no : HartM α} (leavesYes : Leaves view yes)
    (leavesNo : Leaves view no) : Leaves view (if condition then yes else no) :=
  fun seen => keeps_ite (leavesYes seen) (leavesNo seen)

theorem readReg_leaves {reg : Reg} : Leaves view (readReg reg) :=
  fun _ _ start => start

theorem csrOperand_leaves {isImmediate : Bool} {args : IArgs} : Leaves view (csrOperand isImmediate args) :=
  leaves_ite (leaves_pure _) readReg_leaves

theorem namedCsr_leaves {address : UInt64} : Leaves view (namedCsr address) := by
  intro seen hart start
  rcases namedCsr_cases hart address with ⟨csr, _, _, named⟩ | unnamed
  · rw [named]
    exact start
  · rw [unnamed]
    exact start

theorem readNamed_leaves {address : UInt64} : Leaves view (readNamed address) :=
  leaves_bind namedCsr_leaves fun _ => leaves_bind leaves_get fun _ => leaves_pure _

theorem require_leaves {allowed : Hart → Bool} : Leaves view (require allowed) := by
  intro seen hart start
  rw [require_run]
  split <;> exact start

section Writing

variable (aside : Aside view)

include aside

theorem writeReg_leaves {reg : Reg} {value : UInt64} : Leaves view (writeReg reg value) :=
  leaves_modify fun hart => aside hart _ hart.csrs hart.memory hart.pendingTval hart.instret hart.cycleOffset

theorem writeNamed_leaves {address value : UInt64} : Leaves view (writeNamed address value) := by
  have writes : ∀ csr : Csr, Leaves view (modify (·.writeCsr csr value) : HartM Unit) := by
    refine fun csr => leaves_modify fun hart => ?_
    obtain ⟨csrs, memory, instret, cycleOffset, same⟩ := hart.writeCsr_frame csr value
    rw [same]
    exact aside hart hart.registers csrs memory hart.pendingTval instret cycleOffset
  exact leaves_bind namedCsr_leaves fun csr =>
    leaves_ite (leaves_bind (leaves_throw _) fun _ => writes csr) (writes csr)

theorem accessMemory_leaves {vaddr : UInt64} {why : MemFault → Exception} {operation : MemoryM α} :
    Leaves view (accessMemory vaddr why operation) := by
  intro seen hart start
  have kept := fun memory pendingTval =>
    (aside hart hart.registers hart.csrs memory pendingTval hart.instret hart.cycleOffset).trans start
  cases outcome : operation hart.memory with
  | ok value memory =>
    rw [accessMemory_ok why outcome]
    exact kept memory hart.pendingTval
  | error fault memory =>
    rw [accessMemory_error why outcome]
    exact kept memory (some vaddr)

theorem loadData_leaves {vaddr : UInt64} {size : Nat} : Leaves view (loadData vaddr size) :=
  leaves_bind leaves_get fun _ => accessMemory_leaves aside

theorem storeData_leaves {vaddr value : UInt64} {size : Nat} : Leaves view (storeData vaddr size value) :=
  leaves_bind leaves_get fun _ => accessMemory_leaves aside

theorem updateData_leaves {vaddr : UInt64} {size : Nat} {change : UInt64 → UInt64} :
    Leaves view (updateData vaddr size change) :=
  leaves_bind leaves_get fun _ => accessMemory_leaves aside

end Writing

end RvBoard.Hart
