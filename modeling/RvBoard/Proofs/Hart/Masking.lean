import RvBoard.Proofs.Hart.Legality

/-!
# Masked interrupts

A mode is masked while the hart is in it, or above it, with the mode's enable bit clear. A trap masks the
mode that it enters. The mode stays masked until software returns from a trap or writes the bit.
-/

set_option autoImplicit false

namespace RvBoard

-- The bit that enables the interrupts of a mode.
def Mstatus.enable (mode : Privilege) : UInt64 :=
  if mode = .machine then mie else sie

-- The register shows the bit, and a write to it changes the bit.
def Csr.ShowsEnable (csr : Csr) (mode : Privilege) : Prop :=
  csr = .mstatus ∨ csr = .sstatus ∧ mode ≠ .machine

namespace Hart

structure Masked (hart : Hart) (mode : Privilege) : Prop where
  level : hart.privilege.below mode = false
  disabled : hart.status (Mstatus.enable mode) = false

-- How an instruction unmasks a mode: it sets the bit, or returns to a mode below or to one where the bit was set.
inductive Unmasks (mode : Privilege) (ready : Hart) : Instr → Prop
  | wrote {op : CsrOp} {isImmediate : Bool} {args : IArgs} {csr : Csr} (names : Csr.ofAddress? args.imm = some csr)
      (shows_ : csr.ShowsEnable mode) (written : writes op args)
      (sets : combined op (ready.csrValue csr) (ready.csrSource isImmediate args) &&& Mstatus.enable mode ≠ 0) :
      Unmasks mode ready ⟨.csr op isImmediate, args⟩
  | supervisorReturned (args : Unit)
      (opens : (if ready.status Mstatus.spp then Privilege.supervisor else .user).below mode = true ∨
        mode ≠ .machine ∧ ready.status Mstatus.spie = true) : Unmasks mode ready ⟨.sret, args⟩
  | machineReturned (args : Unit)
      (opens : ready.previousPrivilege.below mode = true ∨ mode = .machine ∧ ready.status Mstatus.mpie = true) :
      Unmasks mode ready ⟨.mret, args⟩

-- Neither an instruction nor a debugger unmasks the mode.
structure KeepsMasked (mode : Privilege) (hart : Hart) (move : Move) : Prop where
  instruction : move.executes hart → ∀ instr ready, Decoded hart.resumed instr ready → ¬ Unmasks mode ready instr
  debugger : ∀ address value csr, move = .setCsr address value → Csr.ofAddress? address = some csr →
    csr.ShowsEnable mode → value &&& Mstatus.enable mode = 0

-- What moves of one kind lead to, from a hart.
inductive Onward (permitted : Hart → Move → Prop) (hart : Hart) : Hart → Prop
  | here : Onward permitted hart hart
  | move {later : Hart} (before : Onward permitted hart later) (move : Move) (allowed : permitted later move) :
      Onward permitted hart (move.apply later)

variable {hart next : Hart} {mode : Privilege}

theorem Masked.congr (masked : Masked hart mode) (level : next.privilege = hart.privilege)
    (same : next.csrs.get .mstatus &&& Mstatus.enable mode = hart.csrs.get .mstatus &&& Mstatus.enable mode) :
    Masked next mode where
  level := level ▸ masked.level
  disabled := by
    rw [status, same]
    exact masked.disabled

theorem changed_here (status : UInt64) {bit : UInt64} (value : Bool) (some : bit ≠ 0) :
    (changed status bit value &&& bit != 0) = value := by
  cases value with
  | true =>
    simp only [changed, if_true, word_or_and_self]
    simpa using some
  | false => simp [changed_cleared]

section Traps

theorem trap_masks (hart : Hart) (trap : Trap) : Masked (hart.trap trap) (hart.handlerMode trap) := by
  have level := (hart.trap_entered trap).privilege
  have status := hart.trap_status trap
  refine ⟨?_, ?_⟩
  · rw [level]
    cases hart.handlerMode trap <;> decide
  · rw [Hart.status, status, handlerMode]
    by_cases delegated : hart.delegates trap = true
    · simp only [delegated, if_true]
      exact changed_here _ false (by decide)
    · simp only [delegated]
      exact changed_here _ false (by decide)

theorem trap_masked (masked : Masked hart mode) (trap : Trap) : Masked (hart.trap trap) mode := by
  have level := (hart.trap_entered trap).privilege
  have status := hart.trap_status trap
  by_cases delegated : hart.delegates trap = true
  · have lower := delegates_lower delegated
    have other : mode ≠ .machine := by
      rintro rfl
      have low := masked.level
      cases where_ : hart.privilege with
      | machine => exact lower where_
      | _ =>
        rw [where_] at low
        exact absurd low (by decide)
    refine ⟨?_, ?_⟩
    · rw [level, handlerMode, if_pos delegated]
      revert other
      cases mode <;> decide
    · rw [Hart.status, status, if_pos delegated, Mstatus.enable, if_neg other]
      exact changed_here _ false (by decide)
  · refine ⟨?_, ?_⟩
    · rw [level, handlerMode, if_neg delegated]
      cases mode <;> decide
    · rw [Hart.status, status, if_neg delegated, Mstatus.enable]
      by_cases machine : mode = .machine
      · rw [if_pos machine]
        exact changed_here _ false (by decide)
      · have disabled := masked.disabled
        rw [Hart.status, Mstatus.enable, if_neg machine] at disabled
        rw [if_neg machine, changed_and _ _ _ _ (by decide), changed_and _ _ _ _ (by decide),
          withPrevious_and _ _ _ (by decide)]
        exact disabled

end Traps

section Writes

theorem enable_apart (mode : Privilege) : Mstatus.mpp &&& Mstatus.enable mode = 0 := by
  cases mode <;> decide

theorem enable_writable (mode : Privilege) : Csr.mstatus.writable &&& Mstatus.enable mode = Mstatus.enable mode := by
  cases mode <;> decide

theorem writeStatus_enable (hart : Hart) (mode : Privilege) (value : UInt64) :
    (hart.writeStored .mstatus value).csrs.get .mstatus &&& Mstatus.enable mode = value &&& Mstatus.enable mode := by
  rw [writeStored_get, if_pos rfl]
  exact merge_inside _ _ _ _ (enable_writable mode)

theorem writeCsr_shown {csr : Csr} (shown : csr.ShowsEnable mode) (hart : Hart) (value : UInt64) :
    (hart.writeCsr csr value).csrs.get .mstatus &&& Mstatus.enable mode = value &&& Mstatus.enable mode := by
  rcases shown with rfl | ⟨rfl, other⟩
  · refine (writeStatus_enable hart mode _).trans ?_
    unfold legalStatus
    split
    · exact merge_outside _ _ _ _ (enable_apart mode)
    · rfl
  · refine (writeStatus_enable hart mode _).trans (merge_inside _ _ _ _ ?_)
    rw [Mstatus.enable, if_neg other]
    decide

theorem writeCsr_hidden {csr : Csr} (hidden : ¬ csr.ShowsEnable mode) (hart : Hart) (value : UInt64) :
    (hart.writeCsr csr value).csrs.get .mstatus &&& Mstatus.enable mode =
      hart.csrs.get .mstatus &&& Mstatus.enable mode := by
  by_cases view : csr = .sstatus
  · subst view
    have machine : mode = .machine := Classical.byContradiction fun other => hidden (.inr ⟨rfl, other⟩)
    subst machine
    exact (writeStatus_enable hart .machine _).trans (merge_outside _ _ _ _ (by decide))
  · have apart : Csr.mstatus ≠ csr.target := by
      have every : ∀ csr ∈ Csr.all, csr ≠ .mstatus → csr ≠ .sstatus → Csr.mstatus ≠ csr.target := by decide
      exact every csr csr.mem_all (fun same => hidden (.inl same)) view
    rw [writeCsr_others hart csr value apart]

theorem writeCsr_masked_mode (masked : Masked hart mode) (csr : Csr) {value : UInt64}
    (clear : csr.ShowsEnable mode → value &&& Mstatus.enable mode = 0) : Masked (hart.writeCsr csr value) mode := by
  have level : (hart.writeCsr csr value).privilege = hart.privilege := by
    obtain ⟨csrs, memory, instret, cycleOffset, same⟩ := hart.writeCsr_frame csr value
    rw [same]
  by_cases shown : csr.ShowsEnable mode
  · refine ⟨level ▸ masked.level, ?_⟩
    rw [status, writeCsr_shown shown, clear shown]
    rfl
  · exact masked.congr level (writeCsr_hidden shown hart value)

end Writes

section Returns

theorem returnedStatus_enable (hart : Hart) (mode : Privilege) : (hart.returnedStatus &&& Mstatus.enable mode != 0) =
    if mode = .machine then hart.status Mstatus.mpie else hart.status Mstatus.sie := by
  have previous : Mstatus.mprv &&& Mstatus.enable mode = 0 := by cases mode <;> decide
  have saved : Mstatus.mpie &&& Mstatus.enable mode = 0 := by cases mode <;> decide
  rw [returnedStatus_and _ _ previous, changed_and _ _ _ _ saved, Mstatus.enable]
  by_cases machine : mode = .machine
  · rw [if_pos machine, if_pos machine]
    exact changed_here _ _ (by decide)
  · rw [if_neg machine, if_neg machine, changed_and _ _ _ _ (by decide)]
    rfl

theorem machineReturned_masked (masked : Masked hart mode) {args : Unit} (quiet : ¬ Unmasks mode hart ⟨.mret, args⟩) :
    Masked hart.returnMachine mode := by
  obtain ⟨csrs, same, _, status⟩ := hart.returnMachine_eq
  have opens : ¬ _ := fun opens => quiet (.machineReturned args opens)
  rw [not_or, not_and, Bool.not_eq_true, Bool.not_eq_true] at opens
  rw [same]
  refine ⟨opens.1, ?_⟩
  change (csrs.get .mstatus &&& Mstatus.enable mode != 0) = false
  rw [status, withPrevious_and _ _ _ (enable_apart mode), returnedStatus_enable]
  by_cases machine : mode = .machine
  · rw [if_pos machine]
    exact opens.2 machine
  · have disabled := masked.disabled
    rw [Mstatus.enable, if_neg machine] at disabled
    rw [if_neg machine]
    exact disabled

theorem supervisorReturned_masked {args : Unit} (quiet : ¬ Unmasks mode hart ⟨.sret, args⟩) :
    Masked hart.returnSupervisor mode := by
  obtain ⟨csrs, same, _, status⟩ := hart.returnSupervisor_eq
  have opens : ¬ _ := fun opens => quiet (.supervisorReturned args opens)
  rw [not_or, not_and, Bool.not_eq_true, Bool.not_eq_true] at opens
  have other : mode ≠ .machine := by
    rintro rfl
    have lower := opens.1
    split at lower
    · exact absurd lower (by decide)
    · exact absurd lower (by decide)
  rw [same]
  refine ⟨opens.1, ?_⟩
  change (csrs.get .mstatus &&& Mstatus.enable mode != 0) = false
  rw [status, Mstatus.enable, if_neg other, changed_and _ _ _ _ (by decide), changed_and _ _ _ _ (by decide),
    changed_and _ _ _ _ (by decide), changed_here _ _ (by decide)]
  exact opens.2 other

end Returns

section Moves

theorem executes_masked {ready : Hart} {instr : Instr} (masked : Masked ready mode)
    (executes : Executes ready instr (.ok () next)) (quiet : ¬ Unmasks mode ready instr) : Masked next mode := by
  cases executes with
  | wrote names allowed written writable registers =>
    rename_i op isImmediate args csr
    refine (writeCsr_masked_mode masked csr fun shown => ?_).congr rfl rfl
    exact Classical.byContradiction fun sets => quiet (.wrote names shown written sets)
  | supervisorReturned allowed => exact supervisorReturned_masked quiet
  | machineReturned allowed => exact machineReturned_masked masked quiet
  | _ => exact masked.congr rfl rfl

theorem executeOne_masked (masked : Masked hart mode)
    (quiet : ∀ instr ready, Decoded hart instr ready → ¬ Unmasks mode ready instr) : Masked hart.executeOne mode := by
  have instructs := instruction_cases hart
  unfold executeOne
  cases outcome : instruction hart with
  | error why mid =>
    rw [outcome] at instructs
    obtain ⟨csrs, level⟩ := instructs_error_frame instructs
    exact trap_masked (masked.congr level (by rw [csrs])) _
  | ok done next =>
    rw [outcome] at instructs
    cases instructs with
    | executed read meaning outcome executes =>
      rename_i raw word length parcels memory instr
      have ready : Masked (hart.fetched length memory) mode := masked.congr rfl rfl
      exact (executes_masked ready executes (quiet instr _ ⟨raw, word, length, parcels, memory, read, meaning, rfl⟩)).congr
        rfl rfl

theorem progresses_masked {move : Move} (masked : Masked hart mode) (keeps : KeepsMasked mode hart move)
    (progresses : Progresses hart move next) : Masked next mode := by
  cases progresses with
  | executed now =>
    have resumed : Masked hart.resumed mode := masked.congr rfl rfl
    exact (executeOne_masked resumed (keeps.instruction now)).congr rfl rfl
  | interrupted which resumeFrom =>
    have awake : Masked { hart with waiting := false, resumeFrom := resumeFrom } mode := masked.congr rfl rfl
    exact (trap_masked awake _).congr rfl rfl
  | slept time => exact masked.congr rfl rfl
  | stopped waiting resumeFrom => exact masked.congr rfl rfl

theorem move_masked {move : Move} (masked : Masked hart mode) (keeps : KeepsMasked mode hart move) :
    Masked (move.apply hart) mode := by
  cases move with
  | step deliver => exact progresses_masked masked keeps (step_progresses hart deliver)
  | turn stop => exact progresses_masked masked keeps (turn_progresses hart stop)
  | reset =>
    change Masked hart.reset mode
    refine ⟨?_, ?_⟩
    · change Privilege.machine.below mode = false
      cases mode <;> decide
    · change (CsrFile.initial.get .mstatus &&& Mstatus.enable mode != 0) = false
      cases mode <;> decide +kernel
  | setCsr address value =>
    change Masked (hart.debugSetCsr address value) mode
    unfold debugSetCsr
    cases named : Csr.ofAddress? address with
    | none => exact masked
    | some csr => exact writeCsr_masked_mode masked csr (keeps.debugger address value csr rfl named)
  | readMemory vaddr n =>
    change Masked (hart.runMemory _).2 mode
    rw [runMemory_frame]
    exact masked.congr rfl rfl
  | writeMemory vaddr bytes =>
    change Masked (hart.runMemory _).2 mode
    rw [runMemory_frame]
    exact masked.congr rfl rfl
  | _ => exact masked.congr rfl rfl

theorem onward_masked (masked : Masked hart mode) (onward : Onward (KeepsMasked mode) hart next) : Masked next mode := by
  induction onward with
  | here => exact masked
  | move before move allowed ih => exact move_masked ih allowed

end Moves

end Hart

end RvBoard
