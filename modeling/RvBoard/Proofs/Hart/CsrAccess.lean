import RvBoard.Hart.CsrAccess

/-!
# What reads and writes of control registers do

A write changes the stored value of one register, and beside the stored values at most the counters
and the way of translation. A value that is read is made of few stored values and the wires.
-/

set_option autoImplicit false

namespace RvBoard

namespace Csr

-- The register whose stored value a write changes.
def target : Csr → Csr
  | sstatus => mstatus
  | sie => mie
  | sip => mip
  | other => other

end Csr

namespace Hart

theorem writeStored_get (hart : Hart) (csr other : Csr) (value : UInt64) :
    (hart.writeStored csr value).csrs.get other =
      if csr = other then (hart.csrs.get csr &&& ~~~csr.writable) ||| (value &&& csr.writable) else hart.csrs.get other :=
  CsrFile.get_set ..

theorem writeCsr_others (hart : Hart) (csr : Csr) (value : UInt64) {other : Csr} (apart : other ≠ csr.target) :
    (hart.writeCsr csr value).csrs.get other = hart.csrs.get other := by
  cases csr with
  | satp =>
    unfold writeCsr writeSatp takeMemory
    dsimp only
    cases (hart.memory.setSatp value).1 with
    | true => exact (writeStored_get _ .satp other value).trans (if_neg (Ne.symm apart))
    | false => rfl
  | mcycle => rfl
  | minstret => rfl
  | _ => exact (writeStored_get hart _ other _).trans (if_neg (Ne.symm apart))

theorem writeCsr_frame (hart : Hart) (csr : Csr) (value : UInt64) :
    ∃ csrs memory instret cycleOffset, hart.writeCsr csr value =
      { hart with csrs := csrs, memory := memory, instret := instret, cycleOffset := cycleOffset } := by
  cases csr with
  | satp =>
    unfold writeCsr writeSatp takeMemory
    dsimp only
    cases (hart.memory.setSatp value).1 with
    | true => exact ⟨_, _, _, _, rfl⟩
    | false => exact ⟨_, _, _, _, rfl⟩
  | _ => exact ⟨_, _, _, _, rfl⟩

theorem writeCsr_counters (hart : Hart) {csr : Csr} (value : UInt64) (notCycle : csr ≠ .mcycle)
    (notInstret : csr ≠ .minstret) :
    (hart.writeCsr csr value).cycleOffset = hart.cycleOffset ∧ (hart.writeCsr csr value).instret = hart.instret := by
  cases csr with
  | satp =>
    unfold writeCsr writeSatp takeMemory
    dsimp only
    cases (hart.memory.setSatp value).1 <;> exact ⟨rfl, rfl⟩
  | mcycle => exact False.elim (notCycle rfl)
  | minstret => exact False.elim (notInstret rfl)
  | _ => exact ⟨rfl, rfl⟩

theorem writeCsr_bus (hart : Hart) (csr : Csr) (value : UInt64) :
    (hart.writeCsr csr value).memory.bus = hart.memory.bus := by
  cases csr with
  | satp =>
    unfold writeCsr writeSatp takeMemory
    obtain ⟨bus, tlb, mode, root⟩ := hart.memory
    unfold Memory.setSatp
    cases PagingMode.ofSatp? value <;> rfl
  | _ => rfl

def sources : Csr → List Csr
  | .sie => [.mie, .mideleg]
  | .sip => [.mip, .mideleg]
  | .sstatus => [.mstatus]
  | other => [other]

def pendingOf (mip : UInt64) (wires : Wires) : UInt64 :=
  let pending := mip ||| wires.signals.pins.pending
  if wires.signals.pins.mtimecmp ≤ wires.clock then pending ||| Mip.mtip else pending

theorem pending_eq (hart : Hart) : hart.pending = pendingOf (hart.csrs.get .mip) hart.wires := rfl

theorem csrValue_congr {a b : Hart} (wires : a.wires = b.wires) (instret : a.instret = b.instret)
    (cycleOffset : a.cycleOffset = b.cycleOffset) (csr : Csr)
    (stored : ∀ source ∈ sources csr, a.csrs.get source = b.csrs.get source) : a.csrValue csr = b.csrValue csr := by
  cases csr with
  | sie =>
    have enabled := stored .mie (by decide)
    have delegated := stored .mideleg (by decide)
    simp only [csrValue, enabled, delegated]
  | sip =>
    have pending := stored .mip (by decide)
    have delegated := stored .mideleg (by decide)
    simp only [csrValue, pending_eq, wires, pending, delegated]
  | sstatus =>
    have status := stored .mstatus (by decide)
    simp only [csrValue, status]
  | mip =>
    have pending := stored .mip (by decide)
    simp only [csrValue, pending_eq, wires, pending]
  | cycle => simp only [csrValue, clock, wires, cycleOffset]
  | mcycle => simp only [csrValue, clock, wires, cycleOffset]
  | time => simp only [csrValue, clock, wires]
  | instret => exact instret
  | minstret => exact instret
  | _ => exact stored _ List.mem_cons_self

theorem allowed_privilege {hart : Hart} {csr : Csr} (allowed : hart.mayAccess csr = true) :
    hart.privilege.below csr.privilege = false := by
  unfold mayAccess at allowed
  simp only [Bool.and_eq_true, Bool.not_eq_true'] at allowed
  exact allowed.1.1

end Hart

end RvBoard
