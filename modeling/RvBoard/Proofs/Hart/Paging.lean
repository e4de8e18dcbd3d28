import RvBoard.Proofs.Hart.Containment
import RvBoard.Proofs.Memory.Parcels

/-!
# Paging and the register that selects it

The mode and the root table with which addresses are translated are those that `satp` selects, in
every state that a hart can come to: a write of the register takes both over, a value that names no
mode is not written, and nothing else changes either.
-/

set_option autoImplicit false

namespace RvBoard

namespace Memory

theorem samePaging_apart (memory : Memory) : Apart (SamePaging memory) where
  translates vaddr kind context state before := before.trans (translate_left vaddr kind context state).1
  rewired _ _ before := ⟨before.mode, before.root⟩

end Memory

namespace Hart

-- Addresses are translated as `satp` selects.
structure FollowsSatp (hart : Hart) : Prop where
  mode : PagingMode.ofSatp? (hart.csrs.get .satp) = some hart.memory.mode
  root : hart.memory.root = Memory.rootOf (hart.csrs.get .satp)

section Follows

variable {hart next : Hart}

theorem powered_follows (csrs : hart.csrs = CsrFile.initial) (mode : hart.memory.mode = .bare)
    (root : hart.memory.root = 0) : FollowsSatp hart := by
  have zero : CsrFile.initial.get .satp = 0 := by decide
  refine ⟨?_, ?_⟩
  · rw [csrs, mode, zero]
    rfl
  · rw [csrs, root, zero]
    rfl

theorem FollowsSatp.same (start : FollowsSatp hart) (satp : next.csrs.get .satp = hart.csrs.get .satp)
    (paging : Memory.SamePaging hart.memory next.memory) : FollowsSatp next := by
  refine ⟨?_, ?_⟩
  · rw [satp, start.mode, paging.mode]
  · rw [satp, ← start.root, paging.root]

theorem writeSatp_follows (start : FollowsSatp hart) (value : UInt64) : FollowsSatp (hart.writeSatp value) := by
  have whole : (hart.csrs.get .satp &&& ~~~Csr.writable .satp) ||| (value &&& Csr.writable .satp) = value := by
    have all : Csr.writable .satp = -1 := rfl
    rw [all, UInt64.and_neg_one]
    exact (congrArg (· ||| value) (by rw [show ~~~(-1 : UInt64) = 0 by decide, UInt64.and_zero])).trans UInt64.zero_or
  unfold writeSatp takeMemory Memory.setSatp
  dsimp only
  cases mode : PagingMode.ofSatp? value with
  | none => exact start.same rfl ⟨rfl, rfl⟩
  | some selected =>
    have stored : ∀ hart' : Hart, hart'.csrs = hart.csrs → (hart'.writeStored .satp value).csrs.get .satp = value := by
      intro hart' same
      rw [writeStored_get, if_pos rfl, same, whole]
    refine ⟨?_, ?_⟩
    · exact (congrArg PagingMode.ofSatp? (stored _ rfl)).trans mode
    · exact (congrArg Memory.rootOf (stored _ rfl)).symm

theorem writeCsr_follows (start : FollowsSatp hart) (csr : Csr) (value : UInt64) : FollowsSatp (hart.writeCsr csr value) := by
  by_cases selects : csr = .satp
  · subst selects
    exact writeSatp_follows start value
  · have memory : (hart.writeCsr csr value).memory = hart.memory := by
      cases csr with
      | satp => exact absurd rfl selects
      | _ => rfl
    have apart : Csr.satp ≠ csr.target := by
      cases csr with
      | satp => exact absurd rfl selects
      | _ => exact Csr.noConfusion
    exact start.same (writeCsr_others hart csr value apart) (memory ▸ .refl hart.memory)

theorem executes_follows {instr : Instr} {result : EStateM.Result Exception Hart Unit} (start : FollowsSatp hart)
    (executes : Executes hart instr result) : FollowsSatp (left result) := by
  cases executes with
  | @accessed _ access _ _ asked done registers pc reservation =>
    have paging := run_paging access hart.dataContext hart.memory
    rw [done] at paging
    exact start.same rfl paging
  | @faulted _ access _ _ asked failed reservation =>
    have paging := run_paging access hart.dataContext hart.memory
    rw [failed] at paging
    exact start.same rfl paging
  | @wrote op isImmediate args csr found allowed written writable registers =>
    have after := writeCsr_follows start csr (combined op (hart.csrValue csr) (hart.csrSource isImmediate args))
    exact ⟨after.mode, after.root⟩
  | supervisorReturned allowed =>
    obtain ⟨csrs, same, others, _⟩ := hart.returnSupervisor_eq
    rw [same]
    exact start.same (others .satp (by decide)) (.refl _)
  | machineReturned allowed =>
    obtain ⟨csrs, same, others, _⟩ := hart.returnMachine_eq
    rw [same]
    exact start.same (others .satp (by decide)) (.refl _)
  | _ => exact start.same rfl ⟨rfl, rfl⟩

theorem instructs_follows {result : EStateM.Result Exception Hart Unit} (start : FollowsSatp hart)
    (instructs : Instructs hart result) : FollowsSatp (left result) := by
  cases instructs with
  | firstFaulted failed => exact start.same rfl (Memory.fetch_left failed).1
  | secondFaulted first ones failed =>
    exact start.same rfl ((Memory.fetch_left first).1.trans (Memory.fetch_left failed).1)
  | undecoded read meaningless => exact start.same rfl (fetched_translated read).1
  | @executed raw word length parcels memory instr _ read meaning outcome executes =>
    have fetched : FollowsSatp (hart.fetched length memory) := start.same rfl (fetched_translated read).1
    exact executes_follows fetched executes

theorem trap_follows (start : FollowsSatp hart) (trap : Trap) : FollowsSatp (hart.trap trap) := by
  have entered := hart.trap_entered trap
  obtain ⟨csrs, pc, same⟩ := entered.frame
  have outside : ∀ mode, Csr.satp ∉ Csr.ofTrap mode := by
    intro mode
    cases mode <;> decide
  have memory : (hart.trap trap).memory = hart.memory := by rw [same]
  exact start.same (entered.others .satp (outside _)) (memory ▸ .refl hart.memory)

theorem executeOne_follows (start : FollowsSatp hart) : FollowsSatp hart.executeOne := by
  have after := instructs_follows start (instruction_cases hart)
  unfold executeOne
  cases outcome : instruction hart with
  | error why mid =>
    rw [outcome] at after
    exact trap_follows after (.exception why)
  | ok done next =>
    rw [outcome] at after
    exact ⟨after.mode, after.root⟩

theorem progresses_follows {move : Move} (start : FollowsSatp hart) (progresses : Progresses hart move next) :
    FollowsSatp next := by
  cases progresses with
  | executed now =>
    have resumed : FollowsSatp hart.resumed := ⟨start.mode, start.root⟩
    have after := executeOne_follows resumed
    exact ⟨after.mode, after.root⟩
  | interrupted which resumeFrom =>
    have awake : FollowsSatp { hart with waiting := false, resumeFrom := resumeFrom } := ⟨start.mode, start.root⟩
    have after := trap_follows awake (.interrupt which)
    exact ⟨after.mode, after.root⟩
  | slept time => exact ⟨start.mode, start.root⟩
  | stopped waiting resumeFrom => exact ⟨start.mode, start.root⟩

end Follows

theorem reachable_follows {built : Bus → Prop} {permitted : Hart → Move → Prop} {hart : Hart}
    (reachable : Reachable built permitted hart) : FollowsSatp hart := by
  induction reachable with
  | start bus fits => exact powered_follows rfl rfl rfl
  | @move hart before move allowed follows =>
    cases move with
    | step deliver => exact progresses_follows follows (step_progresses hart deliver)
    | turn stop => exact progresses_follows follows (turn_progresses hart stop)
    | reset => exact powered_follows rfl rfl rfl
    | setCsr address value =>
      change FollowsSatp (hart.debugSetCsr address value)
      unfold debugSetCsr
      cases Csr.ofAddress? address with
      | none => exact follows
      | some csr => exact writeCsr_follows follows csr value
    | readMemory vaddr n =>
      change FollowsSatp (hart.runMemory _).2
      rw [runMemory_frame]
      exact follows.same rfl (Memory.readPages_apart (Memory.samePaging_apart hart.memory) hart.dataContext
        ByteArray.empty vaddr n hart.memory (.refl _))
    | writeMemory vaddr bytes =>
      change FollowsSatp (hart.runMemory _).2
      rw [runMemory_frame]
      exact follows.same rfl (Memory.writePages_apart (Memory.samePaging_apart hart.memory) hart.dataContext bytes
        vaddr 0 hart.memory (.refl _))
    | _ => exact ⟨follows.mode, follows.root⟩

end Hart

end RvBoard
