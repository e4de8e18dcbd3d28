import RvBoard.Hart.TrapEntry
import RvBoard.Proofs.Bits

/-!
# What trap entry changes

A trap writes the three registers that describe it in the mode that handles it, and status bits.
Nothing else of the hart changes but the program counter, the privilege and what was remembered for
the next instruction.
-/

set_option autoImplicit false

namespace RvBoard

namespace Csr

-- The registers in which a mode finds a trap described.
def epc (mode : Privilege) : Csr :=
  if mode = .machine then .mepc else .sepc

def cause (mode : Privilege) : Csr :=
  if mode = .machine then .mcause else .scause

def tval (mode : Privilege) : Csr :=
  if mode = .machine then .mtval else .stval

def ofTrap (mode : Privilege) : List Csr :=
  [.mstatus, epc mode, cause mode, tval mode]

end Csr

namespace Hart

-- The mode that handles a trap.
def handlerMode (hart : Hart) (trap : Trap) : Privilege :=
  if hart.delegates trap then .supervisor else .machine

theorem delegates_lower {hart : Hart} {trap : Trap} (delegated : hart.delegates trap = true) :
    hart.privilege ≠ .machine := by
  intro machine
  simp [delegates, machine] at delegated

-- The status with one bit set or cleared.
def changed (status bit : UInt64) (value : Bool) : UInt64 :=
  if value then status ||| bit else status &&& ~~~bit

theorem changed_and (status bit mask : UInt64) (value : Bool) (apart : bit &&& mask = 0) :
    changed status bit value &&& mask = status &&& mask := by
  cases value with
  | true => exact word_set_and _ _ _ apart
  | false => exact word_clear_and _ _ _ apart

theorem changed_cleared (status bit : UInt64) : changed status bit false &&& bit = 0 := by
  simp [changed, UInt64.and_assoc, UInt64.not_and_self]

def withPrevious (status : UInt64) (privilege : Privilege) : UInt64 :=
  (status &&& ~~~Mstatus.mpp) ||| (privilege.bits <<< Mstatus.mppShift)

theorem previous_inside (privilege : Privilege) :
    (privilege.bits <<< Mstatus.mppShift) &&& Mstatus.mpp = privilege.bits <<< Mstatus.mppShift := by
  cases privilege <;> decide

theorem withPrevious_and (status : UInt64) (privilege : Privilege) (mask : UInt64) (apart : Mstatus.mpp &&& mask = 0) :
    withPrevious status privilege &&& mask = status &&& mask := by
  have outside : (privilege.bits <<< Mstatus.mppShift) &&& mask = 0 := by
    rw [← previous_inside, UInt64.and_assoc, apart, UInt64.and_zero]
  rw [withPrevious, word_set_and _ _ _ outside]
  exact word_clear_and _ _ _ apart

theorem withPrevious_shows (status : UInt64) (privilege : Privilege) :
    withPrevious status privilege &&& Mstatus.mpp = privilege.bits <<< Mstatus.mppShift := by
  rw [withPrevious, word_or_and, previous_inside, UInt64.and_assoc, UInt64.not_and_self, UInt64.and_zero, UInt64.zero_or]

def described (hart : Hart) (mode : Privilege) (trap : Trap) (value before between after : UInt64) : CsrFile :=
  (((((hart.csrs.set .mstatus before).set (.cause mode) trap.cause).set (.epc mode) hart.pc).set (.tval mode) value).set
    .mstatus between).set .mstatus after

theorem get_described (hart : Hart) (mode : Privilege) (trap : Trap) (value before between after : UInt64) (csr : Csr) :
    (hart.described mode trap value before between after).get csr =
      if csr = .mstatus then after
      else if csr = .tval mode then value
      else if csr = .epc mode then hart.pc
      else if csr = .cause mode then trap.cause
      else hart.csrs.get csr := by
  unfold described
  by_cases status : csr = .mstatus
  · simp only [CsrFile.get_set, status, if_true]
  · simp only [CsrFile.get_set, eq_comm (b := csr), status, if_false]

theorem enterMachine_eq (hart : Hart) (trap : Trap) (value : UInt64) :
    ∃ before between after pc,
      hart.enterMachine trap value =
        { hart with
          csrs := hart.described .machine trap value before between after, pc := pc, privilege := .machine } ∧
      after &&& Mstatus.mprv = hart.csrs.get .mstatus &&& Mstatus.mprv := by
  let before := withPrevious (hart.csrs.get .mstatus) hart.privilege
  let between := changed before Mstatus.mpie (hart.status Mstatus.mie)
  let after := changed between Mstatus.mie false
  refine ⟨before, between, after, trap.handler (hart.csrs.get .mtvec), ?_, ?_⟩
  · unfold enterMachine setStatus setPreviousPrivilege setCsr
    simp only [CsrFile.get_set, reduceCtorEq, if_false, if_true]
    rfl
  · have first := withPrevious_and (hart.csrs.get .mstatus) hart.privilege Mstatus.mprv (by decide)
    have second := changed_and before Mstatus.mpie Mstatus.mprv (hart.status Mstatus.mie) (by decide)
    have third := changed_and between Mstatus.mie Mstatus.mprv false (by decide)
    exact third.trans (second.trans first)

theorem enterSupervisor_eq (hart : Hart) (trap : Trap) (value : UInt64) :
    ∃ before between after pc,
      hart.enterSupervisor trap value =
        { hart with
          csrs := hart.described .supervisor trap value before between after, pc := pc, privilege := .supervisor } ∧
      after &&& Mstatus.mprv = hart.csrs.get .mstatus &&& Mstatus.mprv := by
  let before := changed (hart.csrs.get .mstatus) Mstatus.spp (hart.privilege == .supervisor)
  let between := changed before Mstatus.spie (hart.status Mstatus.sie)
  let after := changed between Mstatus.sie false
  refine ⟨before, between, after, trap.handler (hart.csrs.get .stvec), ?_, ?_⟩
  · unfold enterSupervisor setStatus setCsr
    simp only [CsrFile.get_set, reduceCtorEq, if_false, if_true]
    rfl
  · have first := changed_and (hart.csrs.get .mstatus) Mstatus.spp Mstatus.mprv (hart.privilege == .supervisor) (by decide)
    have second := changed_and before Mstatus.spie Mstatus.mprv (hart.status Mstatus.sie) (by decide)
    have third := changed_and between Mstatus.sie Mstatus.mprv false (by decide)
    exact third.trans (second.trans first)

structure Entered (hart : Hart) (trap : Trap) (value : UInt64) (next : Hart) : Prop where
  privilege : next.privilege = hart.handlerMode trap
  frame : ∃ csrs pc, next =
    { hart with
      csrs := csrs, pc := pc, privilege := hart.handlerMode trap, pendingTval := none, reservation := none }
  others : ∀ csr, csr ∉ Csr.ofTrap next.privilege → next.csrs.get csr = hart.csrs.get csr
  epc : next.csrs.get (.epc next.privilege) = hart.pc
  cause : next.csrs.get (.cause next.privilege) = trap.cause
  tval : next.csrs.get (.tval next.privilege) = value
  status : next.csrs.get .mstatus &&& Mstatus.mprv = hart.csrs.get .mstatus &&& Mstatus.mprv

theorem entered_of {hart next : Hart} {trap : Trap} {value before between after pc : UInt64} {mode : Privilege}
    (handled : hart.handlerMode trap = mode)
    (taken : next =
      { hart with
        csrs := hart.described mode trap value before between after, pc := pc, privilege := mode, pendingTval := none
        reservation := none })
    (kept : after &&& Mstatus.mprv = hart.csrs.get .mstatus &&& Mstatus.mprv) : Entered hart trap value next := by
  subst handled
  have mode : next.privilege = hart.handlerMode trap := congrArg Hart.privilege taken
  have stored : next.csrs = hart.described (hart.handlerMode trap) trap value before between after :=
    congrArg Hart.csrs taken
  have distinct : Csr.epc next.privilege ≠ .mstatus ∧ Csr.cause next.privilege ≠ .mstatus ∧
      Csr.tval next.privilege ≠ .mstatus ∧ Csr.epc next.privilege ≠ .tval next.privilege ∧
      Csr.cause next.privilege ≠ .tval next.privilege ∧ Csr.cause next.privilege ≠ .epc next.privilege := by
    cases next.privilege <;> decide
  obtain ⟨epcStatus, causeStatus, tvalStatus, epcTval, causeTval, causeEpc⟩ := distinct
  rw [← mode] at stored
  refine ⟨mode, ⟨_, _, taken⟩, ?_, ?_, ?_, ?_, ?_⟩
  · intro csr outside
    obtain ⟨notStatus, notEpc, notCause, notTval⟩ : csr ≠ .mstatus ∧ csr ≠ .epc next.privilege ∧
        csr ≠ .cause next.privilege ∧ csr ≠ .tval next.privilege := by
      simpa [Csr.ofTrap] using outside
    rw [stored, get_described, if_neg notStatus, if_neg notTval, if_neg notEpc, if_neg notCause]
  · rw [stored, get_described, if_neg epcStatus, if_neg epcTval, if_pos rfl]
  · rw [stored, get_described, if_neg causeStatus, if_neg causeTval, if_neg causeEpc, if_pos rfl]
  · rw [stored, get_described, if_neg tvalStatus, if_pos rfl]
  · rw [stored, get_described, if_pos rfl]
    exact kept

theorem trap_entered (hart : Hart) (trap : Trap) : Entered hart trap (hart.pendingTval.getD 0) (hart.trap trap) := by
  let consumed : Hart := { hart with pendingTval := none, reservation := none }
  cases delegated : hart.delegates trap with
  | true =>
    have handled : hart.handlerMode trap = .supervisor := if_pos delegated
    have entered : hart.trap trap = consumed.enterSupervisor trap (hart.pendingTval.getD 0) := if_pos delegated
    obtain ⟨before, between, after, pc, same, kept⟩ := consumed.enterSupervisor_eq trap (hart.pendingTval.getD 0)
    exact entered_of handled (entered.trans same) kept
  | false =>
    have kept : ¬ hart.delegates trap = true := Bool.not_eq_true _ ▸ delegated
    have handled : hart.handlerMode trap = .machine := if_neg kept
    have entered : hart.trap trap = consumed.enterMachine trap (hart.pendingTval.getD 0) := if_neg kept
    obtain ⟨before, between, after, pc, same, kept⟩ := consumed.enterMachine_eq trap (hart.pendingTval.getD 0)
    exact entered_of handled (entered.trans same) kept

def returnedStatus (hart : Hart) : UInt64 :=
  let enabled := changed (hart.csrs.get .mstatus) Mstatus.mie (hart.status Mstatus.mpie)
  let armed := changed enabled Mstatus.mpie true
  if hart.previousPrivilege = .machine then armed else changed armed Mstatus.mprv false

theorem returnedStatus_and (hart : Hart) (mask : UInt64) (apart : Mstatus.mprv &&& mask = 0) :
    hart.returnedStatus &&& mask =
      changed (changed (hart.csrs.get .mstatus) Mstatus.mie (hart.status Mstatus.mpie)) Mstatus.mpie true &&& mask := by
  by_cases stays : hart.previousPrivilege = .machine
  · simp only [returnedStatus, if_pos stays]
  · simp only [returnedStatus, if_neg stays]
    exact changed_and _ _ _ _ apart

theorem returnMachine_eq (hart : Hart) :
    ∃ csrs, hart.returnMachine =
        { hart with csrs := csrs, privilege := hart.previousPrivilege, pc := hart.csrs.get .mepc } ∧
      (∀ csr, csr ≠ .mstatus → csrs.get csr = hart.csrs.get csr) ∧
      csrs.get .mstatus = withPrevious hart.returnedStatus .user := by
  refine ⟨hart.returnMachine.csrs, ?_, ?_, ?_⟩
  · unfold returnMachine setStatus setPreviousPrivilege setCsr
    by_cases stays : hart.previousPrivilege = .machine
    · simp only [stays, CsrFile.get_set, reduceCtorEq, if_false, if_true]
    · simp only [stays, CsrFile.get_set, reduceCtorEq, if_false, if_true]
  · intro csr other
    unfold returnMachine setStatus setPreviousPrivilege setCsr
    by_cases stays : hart.previousPrivilege = .machine
    · simp only [stays, CsrFile.get_set, Ne.symm other, if_false, if_true]
    · simp only [stays, CsrFile.get_set, Ne.symm other, if_false]
  · unfold returnMachine setStatus setPreviousPrivilege setCsr returnedStatus
    by_cases stays : hart.previousPrivilege = .machine
    · simp only [stays, CsrFile.get_set, if_true]
      rfl
    · simp only [stays, CsrFile.get_set, if_true, if_false]
      rfl

theorem returnSupervisor_eq (hart : Hart) :
    ∃ csrs, hart.returnSupervisor =
        { hart with
          csrs := csrs, privilege := if hart.status Mstatus.spp then .supervisor else .user
          pc := hart.csrs.get .sepc } ∧
      (∀ csr, csr ≠ .mstatus → csrs.get csr = hart.csrs.get csr) ∧
      csrs.get .mstatus =
        changed (changed (changed (changed (hart.csrs.get .mstatus) Mstatus.sie (hart.status Mstatus.spie)) Mstatus.spie true)
          Mstatus.spp false) Mstatus.mprv false := by
  refine ⟨hart.returnSupervisor.csrs, ?_, ?_, ?_⟩
  · unfold returnSupervisor setStatus setCsr
    simp only [CsrFile.get_set, reduceCtorEq, if_false, if_true]
  · intro csr other
    unfold returnSupervisor setStatus setCsr
    simp only [CsrFile.get_set, Ne.symm other, if_false]
  · unfold returnSupervisor setStatus setCsr
    simp only [CsrFile.get_set, if_true]
    rfl

end Hart

end RvBoard
