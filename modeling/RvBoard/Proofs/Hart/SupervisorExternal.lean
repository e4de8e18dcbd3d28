import RvBoard.Proofs.Board.Activity
import RvBoard.Proofs.Hart.Steady

/-!
# The supervisor's external interrupt

The bit of `mip` is made of a stored bit and of the controller's pin. An instruction that sets or
clears other bits of `mip` writes back what it has read, and with it the level of the pin: the bit
is then stored, and stays when the pin goes low. Nothing else makes it differ from the pin.
-/

set_option autoImplicit false

namespace RvBoard

namespace Mip

-- The supervisor's external interrupt in a value of mip.
def external (mip : UInt64) : Bool :=
  mip &&& seip != 0

theorem external_bit (mip : UInt64) : external mip = mip.toBitVec.getLsbD 9 :=
  word_single (by decide) (by decide) mip

@[simp] theorem external_or (a b : UInt64) : external (a ||| b) = (external a || external b) := by
  simp [external_bit]

@[simp] theorem external_and (a b : UInt64) : external (a &&& b) = (external a && external b) := by
  simp [external_bit]

@[simp] theorem external_not (a : UInt64) : external (~~~a) = !external a := by
  simp [external_bit]

end Mip

namespace Hart

open Mip (external)

theorem external_pending (mip : UInt64) (wires : Wires) :
    external (pendingOf mip wires) = (external mip || wires.signals.pin Plic.supervisor) := by
  have pin : external wires.signals.pins.pending = wires.signals.pin Plic.supervisor := rfl
  have timer : external Mip.mtip = false := by decide
  unfold pendingOf
  dsimp only
  split
  · rw [Mip.external_or, Mip.external_or, timer, pin, Bool.or_false]
  · rw [Mip.external_or, pin]

theorem external_read (hart : Hart) :
    external (hart.csrValue .mip) = (external (hart.csrs.get .mip) || hart.wires.signals.pin Plic.supervisor) :=
  external_pending _ _

theorem external_writeMip (hart : Hart) (value : UInt64) :
    external ((hart.writeCsr .mip value).csrs.get .mip) = external value := by
  have writable : external Csr.mip.writable = true := by decide
  have written := (writeStored_get hart .mip .mip value).trans (if_pos rfl)
  refine (congrArg external written).trans ?_
  simp [writable]

theorem external_writeSip (hart : Hart) (value : UInt64) :
    external ((hart.writeCsr .sip value).csrs.get .mip) = external (hart.csrs.get .mip) := by
  have writable : external Csr.mip.writable = true := by decide
  have software : external Mip.ssip = false := by decide
  have written := (writeStored_get hart .mip .mip
    (merge (Mip.ssip &&& hart.csrs.get .mideleg) (hart.csrs.get .mip) value)).trans (if_pos rfl)
  refine (congrArg external written).trans ?_
  simp [merge, writable, software]

theorem external_writeOther (hart : Hart) {csr : Csr} (value : UInt64) (other : csr ≠ .mip) :
    external ((hart.writeCsr csr value).csrs.get .mip) = external (hart.csrs.get .mip) := by
  by_cases view : csr = .sip
  · subst view
    exact external_writeSip hart value
  · have apart : Csr.mip ≠ csr.target := by
      have every : ∀ csr ∈ Csr.all, csr ≠ .mip → csr ≠ .sip → Csr.mip ≠ csr.target := by decide
      exact every csr csr.mem_all other view
    rw [writeCsr_others hart csr value apart]

theorem mayAccess_mip (hart : Hart) : hart.mayAccess .mip = true ↔ hart.privilege = .machine := by
  have machine : Csr.mip.privilege = .machine := by decide
  constructor
  · intro allowed
    have within := allowed_privilege allowed
    rw [machine] at within
    cases level : hart.privilege with
    | machine => rfl
    | _ =>
      rw [level] at within
      exact absurd within (by decide)
  · intro level
    unfold mayAccess translationTrapped counterOpen
    rw [machine, level]
    rfl

inductive WritesMip (ready : Hart) : Instr → CsrOp → UInt64 → Prop
  | csr {op : CsrOp} {isImmediate : Bool} {args : IArgs} (names : Csr.ofAddress? args.imm = some .mip)
      (machine : ready.privilege = .machine) (written : writes op args) :
      WritesMip ready ⟨.csr op isImmediate, args⟩ op (ready.csrSource isImmediate args)

def Requests (ready : Hart) (instr : Instr) : Prop :=
  ∃ op operand, WritesMip ready instr op operand ∧ op ≠ .clear ∧ external operand = true

def Latches (ready : Hart) (instr : Instr) : Prop :=
  ∃ op operand, WritesMip ready instr op operand ∧ op ≠ .write ∧ external operand = false ∧
    ready.wires.signals.pin Plic.supervisor = true

theorem external_combined (op : CsrOp) (old operand : UInt64) (stored : external (combined op old operand) = true) :
    op ≠ .clear ∧ external operand = true ∨ op ≠ .write ∧ external operand = false ∧ external old = true := by
  cases op with
  | write => exact .inl ⟨by decide, stored⟩
  | set =>
    simp only [combined, Mip.external_or] at stored
    cases bit : external operand with
    | true => exact .inl ⟨by decide, rfl⟩
    | false =>
      rw [bit, Bool.or_false] at stored
      exact .inr ⟨by decide, rfl, stored⟩
  | clear =>
    simp only [combined, Mip.external_and, Mip.external_not, Bool.and_eq_true, Bool.not_eq_true'] at stored
    exact .inr ⟨by decide, stored.2, stored.1⟩

theorem executes_external {ready next : Hart} {instr : Instr} (executes : Executes ready instr (.ok () next))
    (stored : external (next.csrs.get .mip) = true) :
    external (ready.csrs.get .mip) = true ∨ Requests ready instr ∨ Latches ready instr := by
  cases executes with
  | wrote names allowed written writable registers =>
    rename_i op isImmediate args csr
    by_cases here : csr = .mip
    · subst here
      have writesMip : WritesMip ready ⟨.csr op isImmediate, args⟩ op (ready.csrSource isImmediate args) :=
        .csr names ((mayAccess_mip ready).mp allowed) written
      have combination : external (combined op (ready.csrValue .mip) (ready.csrSource isImmediate args)) = true :=
        (external_writeMip ready _).symm.trans stored
      rcases external_combined op _ _ combination with ⟨notClear, one⟩ | ⟨notWrite, zero, read⟩
      · exact .inr (.inl ⟨op, _, writesMip, notClear, one⟩)
      · rw [external_read, Bool.or_eq_true] at read
        rcases read with before | high
        · exact .inl before
        · exact .inr (.inr ⟨op, _, writesMip, notWrite, zero, high⟩)
    · exact .inl ((external_writeOther ready _ here).symm.trans stored)
  | supervisorReturned allowed =>
    obtain ⟨csrs, same, others, _⟩ := ready.returnSupervisor_eq
    rw [same] at stored
    rw [← others .mip (by decide)]
    exact .inl stored
  | machineReturned allowed =>
    obtain ⟨csrs, same, others, _⟩ := ready.returnMachine_eq
    rw [same] at stored
    rw [← others .mip (by decide)]
    exact .inl stored
  | _ => exact .inl stored

theorem trap_external (hart : Hart) (trap : Trap) :
    external ((hart.trap trap).csrs.get .mip) = external (hart.csrs.get .mip) := by
  have entered := hart.trap_entered trap
  have outside : Csr.mip ∉ Csr.ofTrap (hart.trap trap).privilege := by
    cases (hart.trap trap).privilege <;> decide
  rw [entered.others .mip outside]

theorem executeOne_external {hart : Hart} (stored : external (hart.executeOne.csrs.get .mip) = true) :
    external (hart.csrs.get .mip) = true ∨
      ∃ instr ready, Decoded hart instr ready ∧ (Requests ready instr ∨ Latches ready instr) := by
  have instructs := instruction_cases hart
  unfold executeOne at stored
  cases outcome : instruction hart with
  | error why mid =>
    rw [outcome] at instructs stored
    have csrs := (instructs_error_frame instructs).1
    left
    rw [← csrs]
    exact (trap_external mid _).symm.trans stored
  | ok done next =>
    rw [outcome] at instructs stored
    cases instructs with
    | executed read meaning outcome executes =>
      rename_i raw word length parcels memory instr
      rcases executes_external executes stored with before | cause
      · exact .inl before
      · exact .inr ⟨instr, _, ⟨raw, word, length, parcels, memory, read, meaning, rfl⟩, cause⟩

theorem progresses_external {hart next : Hart} {move : Move} (progresses : Progresses hart move next)
    (stored : external (next.csrs.get .mip) = true) :
    external (hart.csrs.get .mip) = true ∨ move.executes hart ∧
      ∃ instr ready, Decoded hart.resumed instr ready ∧ (Requests ready instr ∨ Latches ready instr) := by
  cases progresses with
  | executed now =>
    rcases executeOne_external stored with before | cause
    · exact .inl before
    · exact .inr ⟨now, cause⟩
  | interrupted which resumeFrom =>
    have kept := trap_external { hart with waiting := false, resumeFrom := resumeFrom } (.interrupt which)
    exact .inl (kept.symm.trans stored)
  | slept time => exact .inl stored
  | stopped waiting resumeFrom => exact .inl stored

theorem named_mip {ready : Hart} {address : UInt64} (names : Csr.ofAddress? address = some .mip) :
    namedCsr address ready = if ready.privilege = .machine then .ok .mip ready else .error .illegalInstruction ready := by
  unfold namedCsr
  simp only [names, mayAccess_mip]

theorem external_kept {op : CsrOp} {old operand : UInt64} (changes : op ≠ .write) (clear : external operand = false) :
    external (combined op old operand) = external old := by
  cases op with
  | write => exact False.elim (changes rfl)
  | set => rw [combined, Mip.external_or, clear, Bool.or_false]
  | clear => rw [combined, Mip.external_and, Mip.external_not, clear, Bool.not_false, Bool.and_true]

section Changed

variable {op : CsrOp} {isImmediate : Bool} {args : IArgs}

theorem latches_iff {ready : Hart} (changes : op ≠ .write) (names : Csr.ofAddress? args.imm = some .mip)
    (clear : external (ready.csrSource isImmediate args) = false) :
    Latches ready ⟨.csr op isImmediate, args⟩ ↔
      ready.privilege = .machine ∧ args.rs1 ≠ .zero ∧ ready.wires.signals.pin Plic.supervisor = true := by
  constructor
  · rintro ⟨_, _, ⟨_, machine, written⟩, _, _, high⟩
    exact ⟨machine, written.resolve_left changes, high⟩
  · rintro ⟨machine, something, high⟩
    exact ⟨op, _, .csr names machine (.inr something), changes, clear, high⟩

theorem csrChange_external {hart ready : Hart} (executed : instruction hart = csrChange (combined op) isImmediate args ready)
    (changes : op ≠ .write) (names : Csr.ofAddress? args.imm = some .mip)
    (clear : external (ready.csrSource isImmediate args) = false) :
    external (hart.executeOne.csrs.get .mip) = true ↔
      external (ready.csrs.get .mip) = true ∨ Latches ready ⟨.csr op isImmediate, args⟩ := by
  rw [latches_iff changes names clear]
  unfold executeOne
  rw [executed]
  by_cases machine : ready.privilege = .machine
  · have named := (named_mip names).trans (if_pos machine)
    by_cases nothing : args.rs1 = .zero
    · rw [csrChange_read ready isImmediate args (combined op) named nothing]
      simp [nothing]
    · have writable : Csr.mip.isReadOnly = false := by decide
      obtain ⟨registers, done⟩ := csrChange_ok ready isImmediate args (combined op) named nothing writable
      rw [done]
      change external ((ready.writeCsr .mip _).csrs.get .mip) = true ↔ _
      rw [external_writeMip, external_kept changes clear, external_read]
      simp [machine, nothing]
  · have unnamed := (named_mip names).trans (if_neg machine)
    rw [csrChange_unnamed ready isImmediate args (combined op) unnamed]
    dsimp only
    rw [trap_external]
    simp [machine]

theorem changed_external {hart next ready : Hart} (executing : Executing hart next)
    (decoded : Decoded hart.resumed ⟨.csr op isImmediate, args⟩ ready) (changes : op ≠ .write)
    (names : Csr.ofAddress? args.imm = some .mip) (clear : external (ready.csrSource isImmediate args) = false) :
    external (next.csrs.get .mip) = true ↔
      external (hart.csrs.get .mip) = true ∨ Latches ready ⟨.csr op isImmediate, args⟩ := by
  have executed : instruction hart.resumed = csrChange (combined op) isImmediate args ready := by
    rw [instruction_decoded decoded]
    cases op with
    | write => exact False.elim (changes rfl)
    | set => rfl
    | clear => rfl
  have stored : ready.csrs = hart.csrs := by
    obtain ⟨raw, word, length, parcels, memory, _, _, rfl⟩ := decoded
    rfl
  rw [executing_eq executing, ← stored]
  exact csrChange_external executed changes names clear

end Changed

-- At power-on no line is asserted and no pin is high.
def Silent (bus : Bus) : Prop :=
  bus.wires.signals = {}

-- Behind the hart's back nothing happens but what devices and the host do.
def OnBoard (hart : Hart) (move : Move) : Prop :=
  ∀ change, move = .devices change → hart.bus.Happens (change hart.bus)

-- Nobody writes a one to the bit, and nobody changes other bits of mip while the pin is high.
structure Innocent (hart : Hart) (move : Move) : Prop where
  onBoard : OnBoard hart move
  instruction : move.executes hart →
    ∀ instr ready, Decoded hart.resumed instr ready → ¬ Requests ready instr ∧ ¬ Latches ready instr
  debugger : ∀ address value, move = .setCsr address value → Csr.ofAddress? address = some .mip → external value = false

theorem silent_truthful : ({} : Plic.Signals).Truthful := by
  unfold Plic.Signals.Truthful
  decide +kernel

theorem reachable_truthful {hart : Hart} (reachable : Reachable Silent OnBoard hart) :
    hart.wires.signals.Truthful := by
  induction reachable with
  | start bus fits =>
    change bus.wires.signals.Truthful
    rw [fits]
    exact silent_truthful
  | @move hart before move allowed ih =>
    refine @move_steady (fun bus => bus.wires.signals.Truthful) Device.truthful.bus ?_ hart move ?_ ih
    · exact fun bus time start => start
    · intro change devices
      exact (allowed change devices).truthful ih

theorem initial_external : external (CsrFile.initial.get .mip) = false := by
  decide +kernel

theorem reachable_unstored {hart : Hart} (reachable : Reachable Silent Innocent hart) :
    external (hart.csrs.get .mip) = false := by
  induction reachable with
  | start bus fits => exact initial_external
  | @move hart before move allowed ih =>
    have kept : ∀ next, Progresses hart move next → external (next.csrs.get .mip) = false := by
      intro next progresses
      rw [← Bool.not_eq_true]
      intro stored
      rcases progresses_external progresses stored with already | ⟨now, instr, ready, decoded, cause⟩
      · rw [ih] at already
        cases already
      · obtain ⟨noRequest, noLatch⟩ := allowed.instruction now instr ready decoded
        exact cause.elim noRequest noLatch
    cases move with
    | step deliver => exact kept _ (step_progresses hart deliver)
    | turn stop => exact kept _ (turn_progresses hart stop)
    | reset => exact initial_external
    | setCsr address value =>
      have zero := allowed.debugger address value rfl
      change external ((hart.debugSetCsr address value).csrs.get .mip) = false
      unfold debugSetCsr
      cases found : Csr.ofAddress? address with
      | none => exact ih
      | some csr =>
        by_cases here : csr = .mip
        · subst here
          exact (external_writeMip hart value).trans (zero found)
        · exact (external_writeOther hart value here).trans ih
    | readMemory vaddr n =>
      change external ((hart.runMemory _).2.csrs.get .mip) = false
      rw [runMemory_frame]
      exact ih
    | writeMemory vaddr bytes =>
      change external ((hart.runMemory _).2.csrs.get .mip) = false
      rw [runMemory_frame]
      exact ih
    | _ => exact ih

/-- An instruction that sets or clears other bits of mip stores the supervisor's external interrupt
exactly when it writes while the pin is high. The bit reads as stored or pending at the controller,
whatever runs; where nobody asks for it and no such instruction meets a high pin, it reads as zero
whenever the controller has no source for supervisor mode. -/
theorem external_interrupt_latched (hart : Hart) :
    (∀ next ready op isImmediate args, Executing hart next →
      Decoded hart.resumed ⟨.csr op isImmediate, args⟩ ready → op ≠ .write → Csr.ofAddress? args.imm = some .mip →
      external (ready.csrSource isImmediate args) = false →
      (external (next.csrs.get .mip) = true ↔
        external (hart.csrs.get .mip) = true ∨ Latches ready ⟨.csr op isImmediate, args⟩)) ∧
    (Reachable Silent OnBoard hart →
      (external (hart.csrValue .mip) = true ↔
        external (hart.csrs.get .mip) = true ∨ (hart.wires.signals.plic.candidate Plic.supervisor).isSome = true)) ∧
    (Reachable Silent Innocent hart → hart.wires.signals.plic.candidate Plic.supervisor = none →
      external (hart.csrValue .mip) = false) := by
  refine ⟨?_, ?_, ?_⟩
  · intro next ready op isImmediate args executing decoded changes names clear
    exact changed_external executing decoded changes names clear
  · intro reachable
    rw [external_read, reachable_truthful reachable Plic.supervisor, Bool.or_eq_true]
  · intro reachable quiet
    have truthful := reachable_truthful (reachable.mono fun _ _ innocent => innocent.onBoard) Plic.supervisor
    rw [external_read, reachable_unstored reachable, truthful, quiet]
    rfl

def setSoftware : Instr :=
  ⟨.csr .set true, { rs1 := .ofNat 2, rd := .zero, imm := 0x344 : IArgs }⟩

def settingProgram : Bus :=
  { windows := #[⟨resetVector, 4, 0⟩, ⟨Plic.base, Plic.size, 1⟩]
    devices := #[.ram ⟨⟨#[0x73, 0x60, 0x41, 0x34]⟩⟩, .plic] }

def enableSource (bus : Bus) : Bus :=
  left (Bus.access (Plic.base + 0x2084) 2 true 0x80000000 bus)

def driveSource (level : Bool) (bus : Bus) : Bus :=
  bus.mapWires fun wires => wires.drive (Fin.last 63) level

def asserted : Hart :=
  (({ memory := { bus := settingProgram } } : Hart).mapBus enableSource).mapBus (driveSource true)

def released : Hart :=
  (asserted.stepInstruction false).mapBus (driveSource false)

theorem asserted_decoded : ∃ ready, Decoded asserted.resumed setSoftware ready := by
  have low : value? (Memory.fetch asserted.pc asserted.resumed.fetchContext asserted.memory) = some 0x6073 := by
    decide +kernel
  have high : value? (Memory.fetch (asserted.pc + 2) asserted.resumed.fetchContext
      (left (Memory.fetch asserted.pc asserted.resumed.fetchContext asserted.memory))) = some 0x3441 := by
    decide +kernel
  exact ⟨_, _, _, _, _, _, .long (value_ok low) rfl (value_ok high), rfl, rfl⟩

theorem driven_reachable {hart : Hart} (before : Reachable Silent OnBoard hart) (level : Bool) :
    Reachable Silent OnBoard (hart.mapBus (driveSource level)) := by
  refine .move before (.devices (driveSource level)) ?_
  rintro change ⟨⟩
  exact .driven (Fin.last 63) level

theorem asserted_reachable : Reachable Silent OnBoard asserted := by
  have silent : Silent settingProgram := rfl
  refine driven_reachable (.move (.start settingProgram silent) (.devices enableSource) ?_) true
  rintro change ⟨⟩
  exact .accessed (Plic.base + 0x2084) 2 true 0x80000000

theorem released_reachable : Reachable Silent OnBoard released := by
  refine driven_reachable (.move asserted_reachable (.step false) ?_) false
  rintro change ⟨⟩

theorem external_interrupt_latched_released :
    (∃ ready, Decoded asserted.resumed setSoftware ready ∧ Latches ready setSoftware) ∧
      Reachable Silent OnBoard released ∧ released.wires.signals.plic.candidate Plic.supervisor = none ∧
      external (released.csrValue .mip) = true ∧
      external (({ memory := { bus := settingProgram } } : Hart).csrValue .mip) = false := by
  have stored : external ((asserted.stepInstruction false).csrs.get .mip) = true := by decide +kernel
  have unstored : ¬ external (asserted.csrs.get .mip) = true := by decide +kernel
  have silent : Silent settingProgram := rfl
  have zero : external (UInt64.ofNat 2) = false := by decide
  obtain ⟨ready, decoded⟩ := asserted_decoded
  have latched := ((external_interrupt_latched asserted).1 _ ready .set true _ ⟨.step false, rfl, rfl⟩ decoded
    (by decide) (by decide) zero).mp stored
  have stays := ((external_interrupt_latched released).2.1 released_reachable).mpr (.inl stored)
  have quiet := (external_interrupt_latched { memory := { bus := settingProgram } }).2.2 (.start settingProgram silent)
    (by decide +kernel)
  exact ⟨⟨ready, decoded, latched.resolve_left unstored⟩, released_reachable, by decide +kernel, stays, quiet⟩

end Hart

end RvBoard
