import RvBoard.Proofs.Cells
import RvBoard.Proofs.Hart.Masking

/-!
# Traps and returns

A trap hides in the status what it interrupts: whether interrupts were enabled, and the privilege. The
return of the mode that handles the trap finds both there. So a handler that only returns leaves the hart
as it was, but for the fields in which they were hidden.
-/

set_option autoImplicit false

namespace RvBoard

namespace Mstatus

def saved (mode : Privilege) : UInt64 :=
  if mode = .machine then mpie else spie

def previous (mode : Privilege) : UInt64 :=
  if mode = .machine then mpp else spp

def ofTrap (mode : Privilege) : UInt64 :=
  enable mode ||| saved mode ||| previous mode ||| mprv

end Mstatus

def returnFrom (mode : Privilege) : Instr :=
  if mode = .machine then ⟨.mret, ()⟩ else ⟨.sret, ()⟩

namespace Hart

variable {hart next : Hart} {mode : Privilege} {trap : Trap}

def cameFrom (hart : Hart) (mode : Privilege) : Privilege :=
  if mode = .machine then hart.previousPrivilege
  else if hart.status Mstatus.spp then .supervisor else .user

structure Hides (hart : Hart) (mode : Privilege) (trapped : Hart) : Prop where
  saved : trapped.status (Mstatus.saved mode) = hart.status (Mstatus.enable mode)
  previous : trapped.cameFrom mode = hart.privilege
  mprv : trapped.csrs.get .mstatus &&& Mstatus.mprv = hart.csrs.get .mstatus &&& Mstatus.mprv
  others : trapped.csrs.get .mstatus &&& ~~~Mstatus.ofTrap mode = hart.csrs.get .mstatus &&& ~~~Mstatus.ofTrap mode

structure Reveals (hart : Hart) (mode : Privilege) (next : Hart) : Prop where
  enabled : next.status (Mstatus.enable mode) = hart.status (Mstatus.saved mode)
  saved : next.status (Mstatus.saved mode) = true
  previous : next.csrs.get .mstatus &&& Mstatus.previous mode = 0
  mprv : next.csrs.get .mstatus &&& Mstatus.mprv =
    if hart.cameFrom mode = .machine then hart.csrs.get .mstatus &&& Mstatus.mprv else 0
  others : next.csrs.get .mstatus &&& ~~~Mstatus.ofTrap mode = hart.csrs.get .mstatus &&& ~~~Mstatus.ofTrap mode

def returned (mode : Privilege) (hart : Hart) : Hart :=
  if mode = .machine then hart.returnMachine else hart.returnSupervisor

def mayReturn (mode : Privilege) (hart : Hart) : Bool :=
  if mode = .machine then hart.privilege == .machine else hart.mayReturnSupervisor

section Entering

theorem ofBits_field (status : UInt64) : Privilege.ofBits (status >>> Mstatus.mppShift) =
    Privilege.ofBits ((status &&& Mstatus.mpp) >>> Mstatus.mppShift) := by
  have field : (status &&& Mstatus.mpp) >>> Mstatus.mppShift = (status >>> Mstatus.mppShift) &&& 3 := by
    apply UInt64.eq_of_toBitVec_eq
    simp only [UInt64.toBitVec_shiftRight, UInt64.toBitVec_and]
    exact BitVec.ushiftRight_and_distrib _ _ _
  rw [field, Privilege.ofBits, Privilege.ofBits, UInt64.and_assoc]
  rfl

theorem trap_hides (hart : Hart) (trap : Trap) : Hides hart (hart.handlerMode trap) (hart.trap trap) := by
  have status := hart.trap_status trap
  have mprv := (hart.trap_entered trap).status
  by_cases delegated : hart.delegates trap = true
  · have mode : hart.handlerMode trap = .supervisor := if_pos delegated
    rw [if_pos delegated] at status
    have previous : (hart.trap trap).status Mstatus.spp = (hart.privilege == .supervisor) := by
      rw [Hart.status, status, changed_and _ _ _ _ (by decide), changed_and _ _ _ _ (by decide)]
      exact changed_here _ _ (by decide)
    rw [mode]
    refine ⟨?_, ?_, mprv, ?_⟩
    · change ((hart.trap trap).csrs.get .mstatus &&& Mstatus.spie != 0) = _
      rw [status, changed_and _ _ _ _ (by decide)]
      exact changed_here _ _ (by decide)
    · change (if (hart.trap trap).status Mstatus.spp then Privilege.supervisor else .user) = _
      rw [previous]
      cases level : hart.privilege with
      | machine => exact absurd level (delegates_lower delegated)
      | _ => rfl
    · rw [status, changed_and _ _ _ _ (by decide), changed_and _ _ _ _ (by decide), changed_and _ _ _ _ (by decide)]
  · have mode : hart.handlerMode trap = .machine := if_neg delegated
    rw [if_neg delegated] at status
    have previous : (hart.trap trap).csrs.get .mstatus &&& Mstatus.mpp = hart.privilege.bits <<< Mstatus.mppShift := by
      rw [status, changed_and _ _ _ _ (by decide), changed_and _ _ _ _ (by decide)]
      exact withPrevious_shows _ _
    rw [mode]
    refine ⟨?_, ?_, mprv, ?_⟩
    · change ((hart.trap trap).csrs.get .mstatus &&& Mstatus.mpie != 0) = _
      rw [status, changed_and _ _ _ _ (by decide)]
      exact changed_here _ _ (by decide)
    · change Privilege.ofBits ((hart.trap trap).csrs.get .mstatus >>> Mstatus.mppShift) = _
      rw [ofBits_field, previous]
      cases hart.privilege <;> decide
    · rw [status, changed_and _ _ _ _ (by decide), changed_and _ _ _ _ (by decide), withPrevious_and _ _ _ (by decide)]

end Entering

section Returning

theorem returnMachine_reveals (hart : Hart) : Reveals hart .machine hart.returnMachine := by
  obtain ⟨csrs, same, _, status⟩ := hart.returnMachine_eq
  have now : hart.returnMachine.csrs.get .mstatus = withPrevious hart.returnedStatus .user := by rw [same, status]
  refine ⟨?_, ?_, ?_, ?_, ?_⟩
  · rw [Hart.status, now, withPrevious_and _ _ _ (enable_apart _), returnedStatus_enable]
    rfl
  · change (hart.returnMachine.csrs.get .mstatus &&& Mstatus.mpie != 0) = true
    rw [now, withPrevious_and _ _ _ (by decide), returnedStatus_and _ _ (by decide)]
    exact changed_here _ _ (by decide)
  · rw [now]
    exact withPrevious_shows _ _
  · change _ = if hart.previousPrivilege = .machine then _ else _
    rw [now, withPrevious_and _ _ _ (by decide)]
    by_cases stays : hart.previousPrivilege = .machine
    · simp only [returnedStatus, if_pos stays]
      rw [changed_and _ _ _ _ (by decide), changed_and _ _ _ _ (by decide)]
    · simp only [returnedStatus, if_neg stays, changed_cleared]
  · rw [now, withPrevious_and _ _ _ (by decide), returnedStatus_and _ _ (by decide), changed_and _ _ _ _ (by decide),
      changed_and _ _ _ _ (by decide)]

theorem returnSupervisor_reveals (hart : Hart) : Reveals hart .supervisor hart.returnSupervisor := by
  obtain ⟨csrs, same, _, status⟩ := hart.returnSupervisor_eq
  have now := (congrArg (fun hart : Hart => hart.csrs.get .mstatus) same).trans status
  have lower : hart.cameFrom .supervisor ≠ .machine := by
    change (if hart.status Mstatus.spp then Privilege.supervisor else .user) ≠ _
    split <;> decide
  refine ⟨?_, ?_, ?_, ?_, ?_⟩
  · change (hart.returnSupervisor.csrs.get .mstatus &&& Mstatus.sie != 0) = _
    rw [now, changed_and _ _ _ _ (by decide), changed_and _ _ _ _ (by decide), changed_and _ _ _ _ (by decide)]
    exact changed_here _ _ (by decide)
  · change (hart.returnSupervisor.csrs.get .mstatus &&& Mstatus.spie != 0) = _
    rw [now, changed_and _ _ _ _ (by decide), changed_and _ _ _ _ (by decide)]
    exact changed_here _ _ (by decide)
  · change hart.returnSupervisor.csrs.get .mstatus &&& Mstatus.spp = 0
    rw [now, changed_and _ _ _ _ (by decide)]
    exact changed_cleared _ _
  · rw [now, if_neg lower]
    exact changed_cleared _ _
  · rw [now, changed_and _ _ _ _ (by decide), changed_and _ _ _ _ (by decide), changed_and _ _ _ _ (by decide),
      changed_and _ _ _ _ (by decide)]

theorem returned_frame (hart : Hart) (mode : Privilege) :
    ∃ csrs, hart.returned mode =
        { hart with csrs := csrs, privilege := hart.cameFrom mode, pc := hart.csrs.get (.epc mode) } ∧
      (∀ csr, csr ≠ .mstatus → csrs.get csr = hart.csrs.get csr) := by
  cases mode with
  | machine =>
    obtain ⟨csrs, same, others, _⟩ := hart.returnMachine_eq
    exact ⟨csrs, same, others⟩
  | _ =>
    obtain ⟨csrs, same, others, _⟩ := hart.returnSupervisor_eq
    exact ⟨csrs, same, others⟩

theorem returned_reveals (hart : Hart) (mode : Privilege) : Reveals hart mode (hart.returned mode) := by
  cases mode with
  | machine => exact hart.returnMachine_reveals
  | _ =>
    obtain ⟨enabled, saved, previous, mprv, others⟩ := hart.returnSupervisor_reveals
    exact ⟨enabled, saved, previous, mprv, others⟩

theorem execute_return (mode : Privilege) :
    execute (returnFrom mode) = (do require (mayReturn mode); modify (returned mode)) := by
  cases mode <;> rfl

end Returning

section Undoing

-- What is left of a trap into a mode behind a handler that only returns.
structure Undone (hart : Hart) (mode : Privilege) (next : Hart) : Prop where
  pc : next.pc = hart.pc
  privilege : next.privilege = hart.privilege
  enabled : next.status (Mstatus.enable mode) = hart.status (Mstatus.enable mode)
  registers : next.registers = hart.registers
  -- `satp` is one of these, and the paging that it selects is the same too.
  csrs : ∀ csr, csr ∉ Csr.ofTrap mode → next.csrs.get csr = hart.csrs.get csr
  paging : Memory.SamePaging hart.memory next.memory
  status : next.csrs.get .mstatus &&& ~~~Mstatus.ofTrap mode = hart.csrs.get .mstatus &&& ~~~Mstatus.ofTrap mode
  saved : next.status (Mstatus.saved mode) = true
  -- User mode is encoded by zero.
  previous : next.csrs.get .mstatus &&& Mstatus.previous mode = 0
  mprv : next.csrs.get .mstatus &&& Mstatus.mprv =
    if hart.privilege = .machine then hart.csrs.get .mstatus &&& Mstatus.mprv else 0
  -- Machine mode leaves to an interrupted handler of the supervisor what that was told.
  nested : mode = .machine → (∀ csr ∈ [Csr.sepc, .scause, .stval], next.csrs.get csr = hart.csrs.get csr) ∧
    ∀ bit ∈ [Mstatus.spp, Mstatus.spie, Mstatus.sie], next.status bit = hart.status bit

-- The supervisor can be kept from returning.
def refusesReturn (hart : Hart) (mode : Privilege) : Bool :=
  mode == .supervisor && hart.status Mstatus.tsr

theorem status_congr {bit mask : UInt64} (inside : bit &&& mask = bit)
    (same : next.csrs.get .mstatus &&& mask = hart.csrs.get .mstatus &&& mask) : next.status bit = hart.status bit := by
  have part : ∀ status : UInt64, status &&& bit = (status &&& mask) &&& bit := by
    intro status
    rw [UInt64.and_assoc, UInt64.and_comm mask, inside]
  rw [status, status, part, same, ← part]

theorem mayReturn_trapped (hart : Hart) (trap : Trap) :
    (hart.trap trap).mayReturn (hart.handlerMode trap) = !hart.refusesReturn (hart.handlerMode trap) := by
  have level := (hart.trap_entered trap).privilege
  have tsr : (hart.trap trap).status Mstatus.tsr = hart.status Mstatus.tsr := by
    refine status_congr ?_ (hart.trap_hides trap).others
    cases hart.handlerMode trap <;> decide
  unfold mayReturn refusesReturn mayReturnSupervisor
  rw [level, tsr]
  have handled : hart.handlerMode trap ≠ .user := by
    unfold handlerMode
    split <;> decide
  cases mode : hart.handlerMode trap with
  | user => exact absurd mode handled
  | _ => rfl

theorem undone_of {ready : Hart} (hides : Hides hart mode ready) (reveals : Reveals ready mode next)
    (others : ∀ csr, csr ∉ Csr.ofTrap mode → next.csrs.get csr = hart.csrs.get csr) (pc : next.pc = hart.pc)
    (privilege : next.privilege = hart.privilege) (registers : next.registers = hart.registers)
    (paging : Memory.SamePaging hart.memory next.memory) : Undone hart mode next := by
  have status := reveals.others.trans hides.others
  refine ⟨pc, privilege, reveals.enabled.trans hides.saved, registers, others, paging, status, reveals.saved,
    reveals.previous, ?_, ?_⟩
  · rw [reveals.mprv, hides.previous, hides.mprv]
  · rintro rfl
    have apart : ∀ csr ∈ [Csr.sepc, .scause, .stval], csr ∉ Csr.ofTrap .machine := by decide
    have inside : ∀ bit ∈ [Mstatus.spp, Mstatus.spie, Mstatus.sie], next.status bit = hart.status bit := by
      simp only [List.forall_mem_cons]
      exact ⟨status_congr (by decide) status, status_congr (by decide) status, status_congr (by decide) status, nofun⟩
    exact ⟨fun csr member => others csr (apart csr member), inside⟩

/-- A handler that only executes the return of its mode undoes the trap. The supervisor's return is refused, as an illegal
instruction, where machine mode keeps it to itself. -/
theorem trap_undone (hart : Hart) (trap : Trap) {ready : Hart}
    (fetched : fetchInstr (hart.trap trap) = .ok (returnFrom (hart.handlerMode trap)) ready) :
    if hart.refusesReturn (hart.handlerMode trap) then
      (hart.trap trap).executeOne = ready.trap (.exception .illegalInstruction)
    else Undone hart (hart.handlerMode trap) (hart.trap trap).executeOne := by
  have entered := hart.trap_entered trap
  have hides := hart.trap_hides trap
  have may := hart.mayReturn_trapped trap
  have epc := entered.epc
  have kept := entered.others
  rw [entered.privilege] at epc kept
  obtain ⟨_, _, frame⟩ := entered.frame
  generalize hart.handlerMode trap = mode at *
  have executed : instruction (hart.trap trap) = execute (returnFrom mode) ready := bind_of_ok fetched
  obtain ⟨_, _, length, _, memory, read, _, rfl⟩ := fetchInstr_decoded fetched
  let ready := (hart.trap trap).fetched length memory
  have level : ready.mayReturn mode = !hart.refusesReturn mode := may
  rw [execute_return] at executed
  cases refused : hart.refusesReturn mode with
  | true =>
    rw [refused] at level
    exact executeOne_error (executed.trans (require_refuses ready _ level))
  | false =>
    rw [refused] at level
    have ran : instruction (hart.trap trap) = .ok () (ready.returned mode) :=
      executed.trans (bind_of_ok ((require_run ready _).trans (if_pos level)))
    have hidden : Hides hart mode ready := ⟨hides.saved, hides.previous, hides.mprv, hides.others⟩
    have reveals := ready.returned_reveals mode
    obtain ⟨csrs, same, others⟩ := ready.returned_frame mode
    rw [executeOne_ok ran]
    rw [same] at reveals ⊢
    refine undone_of hidden ⟨reveals.enabled, reveals.saved, reveals.previous, reveals.mprv, reveals.others⟩ ?_ epc
      hides.previous ?_ ?_
    · intro csr outside
      have other : csr ≠ .mstatus := by
        rintro rfl
        exact outside List.mem_cons_self
      exact (others csr other).trans (kept csr outside)
    · change (hart.trap trap).registers = hart.registers
      rw [frame]
    · have paging := (fetched_translated read).1
      rw [frame] at paging
      exact paging

def supervised (tsr : Bool) : Hart where
  privilege := .supervisor
  csrs := ((CsrFile.initial.set .medeleg 8).set .stvec resetVector).set .mstatus (if tsr then 0xa00400002 else 0xa00000002)
  memory := { bus := .ofMemory resetVector ⟨⟨#[0x73, 0, 0x20, 0x10]⟩⟩ }

theorem supervised_fetches (tsr : Bool) :
    value? (fetchInstr ((supervised tsr).trap (.exception .breakpoint))) =
      some (returnFrom ((supervised tsr).handlerMode (.exception .breakpoint))) := by
  cases tsr <;> decide +kernel

theorem trap_undone_supervised :
    Undone (supervised false) .supervisor ((supervised false).trap (.exception .breakpoint)).executeOne := by
  have handled : (supervised false).handlerMode (.exception .breakpoint) = .supervisor := by decide +kernel
  have undone := trap_undone (supervised false) _ (value_ok (supervised_fetches false))
  rw [handled] at undone
  exact undone

theorem trap_remains : ¬ ∀ (hart : Hart) (trap : Trap) (ready : Hart),
    fetchInstr (hart.trap trap) = .ok (returnFrom (hart.handlerMode trap)) ready →
      Undone hart (hart.handlerMode trap) (hart.trap trap).executeOne := by
  intro undone
  have back := (undone (supervised true) _ _ (value_ok (supervised_fetches true))).privilege
  have refused : ((supervised true).trap (.exception .breakpoint)).executeOne.privilege = .machine := by decide +kernel
  cases refused.symm.trans back

end Undoing

end Hart

end RvBoard
