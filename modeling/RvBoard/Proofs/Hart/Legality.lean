import RvBoard.Proofs.Hart.Jumps
import RvBoard.Proofs.Hart.Paging
import RvBoard.Proofs.Memory.Parcels

/-!
# Legal states

Whatever leads to a state, be it an instruction, a trap, a reset or a debugger that leaves no odd program counter behind,
no control register holds a bit that is not implemented, no reserved privilege is remembered, and the hart stands at an
even address. Registers are written through their masks and, on entry to traps and on return from them, directly.
-/

set_option autoImplicit false

namespace RvBoard

namespace Mstatus

def Reserved (status : UInt64) : Prop :=
  (status &&& mpp) >>> mppShift = 2

def uxl : UInt64 := 0x300000000
def uxlShift : UInt64 := 32
def sxl : UInt64 := 0xc00000000
def sxlShift : UInt64 := 34

def implemented : UInt64 :=
  sie ||| mie ||| spie ||| mpie ||| spp ||| mpp ||| mprv ||| sum ||| mxr ||| tvm ||| tw ||| tsr ||| uxl ||| sxl

theorem reserved_congr {a b : UInt64} (same : a &&& mpp = b &&& mpp) : Reserved a ↔ Reserved b := by
  unfold Reserved
  rw [same]

end Mstatus

namespace CsrFile

def Implemented (file : CsrFile) : Prop :=
  ∀ csr : Csr, file.get csr &&& ~~~csr.writable = csr.initial

theorem implemented_initial : initial.Implemented := by
  intro csr
  cases csr with
  | pmpaddr index =>
    revert index
    decide
  | _ => decide

theorem Implemented.set {file : CsrFile} (implemented : file.Implemented) {csr : Csr} {value : UInt64}
    (fits : value &&& ~~~csr.writable = csr.initial) : (file.set csr value).Implemented := by
  intro other
  rw [get_set]
  by_cases same : csr = other
  · rw [if_pos same, ← same]
    exact fits
  · rw [if_neg same]
    exact implemented other

theorem Implemented.write {file : CsrFile} (implemented : file.Implemented) (csr : Csr) (value : UInt64) :
    (file.write csr value).Implemented := by
  refine implemented.set ?_
  rw [merge_outside csr.writable _ _ _ (UInt64.and_not_self)]
  exact implemented csr

end CsrFile

namespace Hart

open Mstatus (Reserved reserved_congr)

section Writes

variable {hart : Hart}

theorem legalStatus_reserved {old : UInt64} (fair : ¬ Reserved old) (value : UInt64) : ¬ Reserved (legalStatus old value) := by
  unfold legalStatus
  by_cases reserved : (value &&& Mstatus.mpp) >>> Mstatus.mppShift = 2
  · rw [if_pos reserved]
    have same : merge Mstatus.mpp value old &&& Mstatus.mpp = old &&& Mstatus.mpp := merge_inside _ _ _ _ (by decide)
    exact fun still => fair ((reserved_congr same).mp still)
  · rw [if_neg reserved]
    exact reserved

theorem writeCsr_masked (csr : Csr) (value : UInt64) :
    (hart.writeCsr csr value).csrs = hart.csrs ∨
      ∃ stored, (hart.writeCsr csr value).csrs = hart.csrs.write csr.target stored := by
  cases csr with
  | satp =>
    unfold writeCsr writeSatp takeMemory
    dsimp only
    cases (hart.memory.setSatp value).1 with
    | true => exact .inr ⟨value, rfl⟩
    | false => exact .inl rfl
  | mcycle => exact .inl rfl
  | minstret => exact .inl rfl
  | _ => exact .inr ⟨_, rfl⟩

theorem writeCsr_implemented (implemented : hart.csrs.Implemented) (csr : Csr) (value : UInt64) :
    (hart.writeCsr csr value).csrs.Implemented := by
  rcases writeCsr_masked csr value with same | ⟨stored, same⟩
  · rw [same]
    exact implemented
  · rw [same]
    exact implemented.write csr.target stored

theorem writeCsr_reserved (fair : ¬ Reserved (hart.csrs.get .mstatus)) (csr : Csr) (value : UInt64) :
    ¬ Reserved ((hart.writeCsr csr value).csrs.get .mstatus) := by
  -- What is stored in the field of the previous privilege.
  have shows : ∀ status : UInt64, ¬ Reserved status → ¬ Reserved ((hart.writeStored .mstatus status).csrs.get .mstatus) := by
    intro status fair
    have same : (hart.writeStored .mstatus status).csrs.get .mstatus &&& Mstatus.mpp = status &&& Mstatus.mpp := by
      rw [writeStored_get, if_pos rfl]
      exact merge_inside _ _ _ _ (by decide)
    exact fun still => fair ((reserved_congr same).mp still)
  by_cases status : csr.target = .mstatus
  · cases csr with
    | mstatus => exact shows _ (legalStatus_reserved fair value)
    | sstatus =>
      have same : merge Mstatus.supervisorWritable (hart.csrs.get .mstatus) value &&& Mstatus.mpp =
          hart.csrs.get .mstatus &&& Mstatus.mpp := merge_outside _ _ _ _ (by decide)
      exact shows _ fun still => fair ((reserved_congr same).mp still)
    | _ => cases status
  · rw [writeCsr_others hart csr value (Ne.symm status)]
    exact fair

theorem setSatp_paged {memory : Memory} (paged : memory.Paged) (value : UInt64) : (memory.setSatp value).2.Paged := by
  unfold Memory.setSatp
  cases PagingMode.ofSatp? value with
  | none => exact paged
  | some mode => exact Memory.paged_empty memory.bus mode _

theorem writeCsr_paged (paged : hart.memory.Paged) (csr : Csr) (value : UInt64) :
    (hart.writeCsr csr value).memory.Paged := by
  cases csr with
  | satp =>
    have after := setSatp_paged paged value
    unfold writeCsr writeSatp takeMemory
    dsimp only
    cases (hart.memory.setSatp value).1 with
    | true => exact after
    | false => exact after
  | _ => exact paged

end Writes

section Traps

variable {hart : Hart}

theorem trap_status (hart : Hart) (trap : Trap) : (hart.trap trap).csrs.get .mstatus =
    if hart.delegates trap then
      changed (changed (changed (hart.csrs.get .mstatus) Mstatus.spp (hart.privilege == .supervisor)) Mstatus.spie
        (hart.status Mstatus.sie)) Mstatus.sie false
    else
      changed (changed (withPrevious (hart.csrs.get .mstatus) hart.privilege) Mstatus.mpie (hart.status Mstatus.mie))
        Mstatus.mie false := by
  unfold Hart.trap
  by_cases delegated : hart.delegates trap = true
  · have delegates : Hart.delegates { hart with pendingTval := none, reservation := none } trap = true := delegated
    dsimp only
    rw [if_pos delegated, if_pos delegates]
    unfold enterSupervisor setStatus setCsr
    simp only [CsrFile.get_set, reduceCtorEq, if_false, if_true]
    rfl
  · have keeps : ¬ Hart.delegates { hart with pendingTval := none, reservation := none } trap = true := delegated
    dsimp only
    rw [if_neg delegated, if_neg keeps]
    unfold enterMachine setStatus setPreviousPrivilege setCsr
    simp only [CsrFile.get_set, reduceCtorEq, if_false, if_true]
    rfl

theorem withPrevious_reserved (status : UInt64) (privilege : Privilege) : ¬ Reserved (withPrevious status privilege) := by
  unfold Reserved
  rw [withPrevious_shows]
  cases privilege <;> decide

structure LegalStatus (status : UInt64) : Prop where
  implemented : status &&& ~~~Csr.writable .mstatus = Csr.initial .mstatus
  fair : ¬ Reserved status

theorem LegalStatus.changed {status bit : UInt64} (legal : LegalStatus status) (value : Bool)
    (writable : bit &&& ~~~Csr.writable .mstatus = 0) (apart : bit &&& Mstatus.mpp = 0) :
    LegalStatus (changed status bit value) where
  implemented := (changed_and status bit _ value writable).trans legal.implemented
  fair still := legal.fair ((reserved_congr (changed_and status bit Mstatus.mpp value apart)).mp still)

theorem LegalStatus.withPrevious {status : UInt64} (legal : LegalStatus status) (privilege : Privilege) :
    LegalStatus (withPrevious status privilege) where
  implemented := (withPrevious_and status privilege _ (by decide)).trans legal.implemented
  fair := withPrevious_reserved status privilege

theorem trap_legalStatus (legal : LegalStatus (hart.csrs.get .mstatus)) (trap : Trap) :
    LegalStatus ((hart.trap trap).csrs.get .mstatus) := by
  rw [trap_status]
  split
  · exact ((legal.changed _ (by decide) (by decide)).changed _ (by decide) (by decide)).changed _ (by decide) (by decide)
  · exact ((legal.withPrevious _).changed _ (by decide) (by decide)).changed _ (by decide) (by decide)

theorem returned_legalStatus (legal : LegalStatus (hart.csrs.get .mstatus)) : LegalStatus hart.returnedStatus := by
  have armed := (legal.changed (hart.status Mstatus.mpie) (show Mstatus.mie &&& _ = 0 by decide) (by decide)).changed true
    (show Mstatus.mpie &&& _ = 0 by decide) (by decide)
  unfold returnedStatus
  dsimp only
  split
  · exact armed
  · exact armed.changed false (by decide) (by decide)

theorem epc_written (mode : Privilege) : ~~~(Csr.epc mode).writable = 1 ∧ (Csr.epc mode).initial = 0 := by
  cases mode <;> decide

theorem cause_written (mode : Privilege) : ~~~(Csr.cause mode).writable = 0 ∧ (Csr.cause mode).initial = 0 := by
  cases mode <;> decide

theorem tval_written (mode : Privilege) : ~~~(Csr.tval mode).writable = 0 ∧ (Csr.tval mode).initial = 0 := by
  cases mode <;> decide

theorem trap_implemented (implemented : hart.csrs.Implemented) (fair : ¬ Reserved (hart.csrs.get .mstatus))
    (pc : IsEven hart.pc) (trap : Trap) : (hart.trap trap).csrs.Implemented := by
  have entered := hart.trap_entered trap
  have status := trap_legalStatus ⟨implemented .mstatus, fair⟩ trap
  intro csr
  by_cases describes : csr ∈ Csr.ofTrap (hart.trap trap).privilege
  · simp only [Csr.ofTrap, List.mem_cons, List.not_mem_nil, or_false] at describes
    rcases describes with rfl | rfl | rfl | rfl
    · exact status.implemented
    · rw [entered.epc, (epc_written _).1, (epc_written _).2]
      exact isEven_masked.mp pc
    · rw [entered.cause, (cause_written _).1, (cause_written _).2]
      exact UInt64.and_zero
    · rw [entered.tval, (tval_written _).1, (tval_written _).2]
      exact UInt64.and_zero
  · rw [entered.others csr describes]
    exact implemented csr

theorem handler_even (trap : Trap) (tvec : UInt64) : IsEven (trap.handler tvec) := by
  have base : IsEven (tvec &&& ~~~3) := isEven_and (by decide)
  have entry : ∀ code : UInt64, IsEven (4 * code) := by
    intro code
    unfold IsEven
    rw [UInt64.toNat_mul]
    change 4 * code.toNat % 2 ^ 64 % 2 = 0
    omega
  unfold Trap.handler
  cases trap with
  | interrupt which =>
    dsimp only
    split
    · exact isEven_add base (entry _)
    · exact base
  | exception why => exact base

theorem trap_pc (hart : Hart) (trap : Trap) : IsEven (hart.trap trap).pc := by
  unfold Hart.trap
  dsimp only
  split
  · exact handler_even trap _
  · exact handler_even trap _

end Traps

structure Legal (hart : Hart) : Prop where
  implemented : hart.csrs.Implemented
  fair : ¬ Reserved (hart.csrs.get .mstatus)
  pc : IsEven hart.pc
  paged : hart.memory.Paged

section Moves

variable {hart next : Hart}

theorem Legal.status (legal : Legal hart) : LegalStatus (hart.csrs.get .mstatus) :=
  ⟨legal.implemented .mstatus, legal.fair⟩

theorem Legal.mepc (legal : Legal hart) : IsEven (hart.csrs.get .mepc) :=
  isEven_masked.mpr (legal.implemented .mepc)

theorem Legal.sepc (legal : Legal hart) : IsEven (hart.csrs.get .sepc) :=
  isEven_masked.mpr (legal.implemented .sepc)

theorem Legal.returned (legal : Legal hart) {csrs : CsrFile} (others : ∀ csr, csr ≠ .mstatus → csrs.get csr = hart.csrs.get csr)
    (status : LegalStatus (csrs.get .mstatus)) : csrs.Implemented := by
  intro csr
  by_cases same : csr = .mstatus
  · rw [same]
    exact status.implemented
  · rw [others csr same]
    exact legal.implemented csr

theorem trap_legal (legal : Legal hart) (trap : Trap) : Legal (hart.trap trap) where
  implemented := trap_implemented legal.implemented legal.fair legal.pc trap
  fair := (trap_legalStatus legal.status trap).fair
  pc := trap_pc hart trap
  paged := by
    obtain ⟨csrs, pc, same⟩ := (hart.trap_entered trap).frame
    rw [same]
    exact legal.paged

theorem supervisorReturned_legal (legal : Legal hart) : Legal hart.returnSupervisor := by
  obtain ⟨csrs, same, others, status⟩ := hart.returnSupervisor_eq
  have returned : LegalStatus (csrs.get .mstatus) := by
    rw [status]
    exact (((legal.status.changed _ (by decide) (by decide)).changed _ (by decide) (by decide)).changed _ (by decide)
      (by decide)).changed _ (by decide) (by decide)
  rw [same]
  exact ⟨legal.returned others returned, returned.fair, legal.sepc, legal.paged⟩

theorem machineReturned_legal (legal : Legal hart) : Legal hart.returnMachine := by
  obtain ⟨csrs, same, others, status⟩ := hart.returnMachine_eq
  have returned : LegalStatus (csrs.get .mstatus) := by
    rw [status]
    exact (returned_legalStatus legal.status).withPrevious .user
  rw [same]
  exact ⟨legal.returned others returned, returned.fair, legal.mepc, legal.paged⟩

theorem executes_legal {instr : Instr} {result : EStateM.Result Exception Hart Unit} (legal : Legal hart)
    (executes : Executes hart instr result) (even : ∀ next, result = .ok () next → IsEven next.pc) : Legal (left result) := by
  cases executes with
  | computed quiet registers pc reservation => exact ⟨legal.implemented, legal.fair, even _ rfl, legal.paged⟩
  | @accessed _ access _ _ asked done registers pc reservation =>
    have paged := Memory.run_apart Memory.paged_apart access hart.dataContext hart.memory legal.paged
    rw [done] at paged
    exact ⟨legal.implemented, legal.fair, even _ rfl, paged⟩
  | @faulted _ access _ _ asked failed reservation =>
    have paged := Memory.run_apart Memory.paged_apart access hart.dataContext hart.memory legal.paged
    rw [failed] at paged
    exact ⟨legal.implemented, legal.fair, legal.pc, paged⟩
  | refused quiet refusal => exact legal
  | named found allowed unwritten registers => exact ⟨legal.implemented, legal.fair, even _ rfl, legal.paged⟩
  | @wrote op isImmediate args csr found allowed written writable registers =>
    exact ⟨writeCsr_implemented legal.implemented csr _, writeCsr_reserved legal.fair csr _, even _ rfl,
      writeCsr_paged legal.paged csr _⟩
  | supervisorReturned allowed => exact supervisorReturned_legal legal
  | machineReturned allowed => exact machineReturned_legal legal
  | waited allowed => exact ⟨legal.implemented, legal.fair, even _ rfl, legal.paged⟩
  | fenced allowed => exact ⟨legal.implemented, legal.fair, even _ rfl, Memory.paged_empty _ _ _⟩

theorem fetched_legal (legal : Legal hart) {raw length : UInt64} {word : Option UInt32} {parcels : List UInt64} {memory : Memory}
    (read : Fetched hart raw word length parcels memory) : Legal (hart.fetched length memory) ∧ IsEven length := by
  cases read with
  | short read alone =>
    have paged := Memory.fetch_apart Memory.paged_apart hart.pc hart.fetchContext hart.memory legal.paged
    rw [read] at paged
    exact ⟨⟨legal.implemented, legal.fair, legal.pc, paged⟩, by decide⟩
  | @long low high mid memory first ones second =>
    have middle := Memory.fetch_apart Memory.paged_apart hart.pc hart.fetchContext hart.memory legal.paged
    rw [first] at middle
    have paged := Memory.fetch_apart Memory.paged_apart (hart.pc + 2) hart.fetchContext mid middle
    rw [second] at paged
    exact ⟨⟨legal.implemented, legal.fair, legal.pc, paged⟩, by decide⟩

theorem instructs_legal {result : EStateM.Result Exception Hart Unit} (legal : Legal hart) (instructs : Instructs hart result) :
    Legal (left result) := by
  cases instructs with
  | @firstFaulted fault memory failed =>
    have paged := Memory.fetch_apart Memory.paged_apart hart.pc hart.fetchContext hart.memory legal.paged
    rw [failed] at paged
    exact ⟨legal.implemented, legal.fair, legal.pc, paged⟩
  | @secondFaulted low mid memory fault first ones failed =>
    have middle := Memory.fetch_apart Memory.paged_apart hart.pc hart.fetchContext hart.memory legal.paged
    rw [first] at middle
    have paged := Memory.fetch_apart Memory.paged_apart (hart.pc + 2) hart.fetchContext mid middle
    rw [failed] at paged
    exact ⟨legal.implemented, legal.fair, legal.pc, paged⟩
  | undecoded read meaningless =>
    obtain ⟨fetched, _⟩ := fetched_legal legal read
    exact ⟨fetched.implemented, fetched.fair, fetched.pc, fetched.paged⟩
  | @executed raw word length parcels memory instr _ read meaning outcome executes =>
    obtain ⟨fetched, even⟩ := fetched_legal legal read
    obtain ⟨word, _, decoded⟩ := Option.bind_eq_some_iff.mp meaning
    refine executes_legal fetched executes fun next done => ?_
    exact (execute_leads (outcome.trans done)).even decoded fetched.pc even fetched.mepc fetched.sepc

theorem executeOne_legal (legal : Legal hart) : Legal hart.executeOne := by
  have after := instructs_legal legal (instruction_cases hart)
  unfold executeOne
  cases outcome : instruction hart with
  | error why mid =>
    rw [outcome] at after
    exact trap_legal after (.exception why)
  | ok done next =>
    rw [outcome] at after
    exact ⟨after.implemented, after.fair, after.pc, after.paged⟩

theorem progresses_legal {move : Move} (legal : Legal hart) (progresses : Progresses hart move next) : Legal next := by
  cases progresses with
  | executed now =>
    have after := executeOne_legal (show Legal hart.resumed from ⟨legal.implemented, legal.fair, legal.pc, legal.paged⟩)
    exact ⟨after.implemented, after.fair, after.pc, after.paged⟩
  | interrupted which resumeFrom =>
    have awake : Legal { hart with waiting := false, resumeFrom := resumeFrom } :=
      ⟨legal.implemented, legal.fair, legal.pc, legal.paged⟩
    have after := trap_legal awake (.interrupt which)
    exact ⟨after.implemented, after.fair, after.pc, after.paged⟩
  | slept time => exact ⟨legal.implemented, legal.fair, legal.pc, legal.paged⟩
  | stopped waiting resumeFrom => exact ⟨legal.implemented, legal.fair, legal.pc, legal.paged⟩

theorem powered_legal (bus : Bus) (cycleOffset : UInt64) (breakpoints : List UInt64) :
    Legal { memory := { bus := bus }, cycleOffset := cycleOffset, breakpoints := breakpoints } where
  implemented := CsrFile.implemented_initial
  fair := by
    change ¬ Reserved (CsrFile.initial.get .mstatus)
    unfold Reserved
    decide
  pc := by
    change IsEven resetVector
    decide
  paged := Memory.paged_empty bus .bare 0

end Moves

-- A debugger does not set an odd program counter.
def EvenPc : Hart → Move → Prop
  | _, .setPc pc => IsEven pc
  | _, _ => True

theorem move_legal {hart : Hart} (legal : Legal hart) (move : Move) (allowed : EvenPc hart move) : Legal (move.apply hart) := by
  cases move with
  | step deliver => exact progresses_legal legal (step_progresses hart deliver)
  | turn stop => exact progresses_legal legal (turn_progresses hart stop)
  | reset => exact powered_legal hart.memory.bus (0 - hart.memory.bus.wires.clock) hart.breakpoints
  | setPc pc => exact ⟨legal.implemented, legal.fair, allowed, legal.paged⟩
  | setCsr address value =>
    change Legal (hart.debugSetCsr address value)
    unfold debugSetCsr
    cases Csr.ofAddress? address with
    | none => exact legal
    | some csr =>
      have pc : (hart.writeCsr csr value).pc = hart.pc := by
        obtain ⟨csrs, memory, instret, cycleOffset, same⟩ := hart.writeCsr_frame csr value
        rw [same]
      exact ⟨writeCsr_implemented legal.implemented csr value, writeCsr_reserved legal.fair csr value, pc ▸ legal.pc,
        writeCsr_paged legal.paged csr value⟩
  | readMemory vaddr n =>
    change Legal (hart.runMemory _).2
    rw [runMemory_frame]
    exact ⟨legal.implemented, legal.fair, legal.pc,
      Memory.readPages_apart Memory.paged_apart hart.dataContext ByteArray.empty vaddr n hart.memory legal.paged⟩
  | writeMemory vaddr bytes =>
    change Legal (hart.runMemory _).2
    rw [runMemory_frame]
    exact ⟨legal.implemented, legal.fair, legal.pc,
      Memory.writePages_apart Memory.paged_apart hart.dataContext bytes vaddr 0 hart.memory legal.paged⟩
  | _ => exact ⟨legal.implemented, legal.fair, legal.pc, legal.paged⟩

theorem reachable_legal {built : Bus → Prop} {hart : Hart} (reachable : Reachable built EvenPc hart) : Legal hart := by
  induction reachable with
  | start bus fits => exact powered_legal bus 0 []
  | move before move allowed legal => exact move_legal legal move allowed

theorem fetch_raises {hart : Hart} {fault : MemFault} {vaddr : UInt64} {memory next : Memory} (even : IsEven vaddr)
    (paged : memory.Paged) (failed : Memory.fetch vaddr hart.fetchContext memory = .error fault next) :
    Exception.ofFetchFault fault ≠ .instructionMisaligned := by
  rcases Memory.fetch_fails even paged failed with rfl | rfl <;> decide

theorem executes_raises {hart mid : Hart} {instr : Instr} {why : Exception} (executes : Executes hart instr (.error why mid)) :
    why ≠ .instructionMisaligned := by
  cases executes with
  | @faulted _ access fault _ asked failed reservation => cases fault <;> decide
  | refused quiet refusal =>
    rintro rfl
    exact absurd refusal (by decide)

theorem instruction_aligned {hart mid : Hart} {why : Exception} (legal : Legal hart)
    (raised : instruction hart = .error why mid) : why ≠ .instructionMisaligned := by
  have instructs := instruction_cases hart
  rw [raised] at instructs
  cases instructs with
  | firstFaulted failed => exact fetch_raises legal.pc legal.paged failed
  | secondFaulted first ones failed =>
    have paged := Memory.fetch_apart Memory.paged_apart hart.pc hart.fetchContext hart.memory legal.paged
    rw [first] at paged
    exact fetch_raises (isEven_add legal.pc (by decide)) paged failed
  | undecoded read meaningless => decide
  | executed read meaning outcome executes => exact executes_raises executes

/-- What an architecturally legal state is. -/
structure Architectural (hart : Hart) : Prop where
  pc : IsEven hart.pc
  mepc : IsEven (hart.csrs.get .mepc)
  sepc : IsEven (hart.csrs.get .sepc)
  /-- Traps are taken to one address, or interrupts to one each. -/
  mtvec : hart.csrs.get .mtvec &&& 3 = 0 ∨ hart.csrs.get .mtvec &&& 3 = 1
  stvec : hart.csrs.get .stvec &&& 3 = 0 ∨ hart.csrs.get .stvec &&& 3 = 1
  mpp : (hart.csrs.get .mstatus &&& Mstatus.mpp) >>> Mstatus.mppShift ≠ 2
  /-- User and supervisor registers have 64 bits. -/
  uxl : (hart.csrs.get .mstatus &&& Mstatus.uxl) >>> Mstatus.uxlShift = 2
  sxl : (hart.csrs.get .mstatus &&& Mstatus.sxl) >>> Mstatus.sxlShift = 2
  mstatus : hart.csrs.get .mstatus &&& ~~~Mstatus.implemented = 0
  mie : hart.csrs.get .mie &&& ~~~0xaaa = 0
  mip : hart.csrs.get .mip &&& ~~~0x222 = 0
  mideleg : hart.csrs.get .mideleg &&& ~~~0x222 = 0
  medeleg : hart.csrs.get .medeleg &&& ~~~0xb3ff = 0
  /-- The mode that `satp` selects is supported, and it is the one in use, with its root. -/
  satp : FollowsSatp hart
  aligned : ∀ why mid, instruction hart.resumed = .error why mid → why ≠ .instructionMisaligned

theorem vector_mode {tvec : UInt64} (upper : tvec &&& 2 = 0) : tvec &&& 3 = 0 ∨ tvec &&& 3 = 1 := by
  have lower : tvec &&& 3 = tvec &&& 1 := by
    rw [UInt64.and_comm, show (3 : UInt64) = 2 ||| 1 by decide, word_or_and, UInt64.and_comm 2, upper, UInt64.zero_or,
      UInt64.and_comm]
  rw [lower]
  by_cases even : IsEven tvec
  · exact .inl (isEven_masked.mp even)
  · refine .inr (UInt64.toNat_inj.mp ?_)
    have odd : tvec.toNat % 2 = 1 := Nat.mod_two_ne_zero.mp even
    rw [UInt64.toNat_and]
    exact (Nat.and_one_is_mod tvec.toNat).trans odd

theorem LegalStatus.field {status : UInt64} (legal : LegalStatus status) {mask : UInt64}
    (fixed : ~~~Csr.writable .mstatus &&& mask = mask) : status &&& mask = Csr.initial .mstatus &&& mask := by
  rw [← legal.implemented, UInt64.and_assoc, fixed]

/-- Instructions, interrupts, resets and a debugger that sets no odd program counter lead to legal states only. -/
theorem reachable_architectural {built : Bus → Prop} {hart : Hart} (reachable : Reachable built EvenPc hart) :
    Architectural hart := by
  have legal := reachable_legal reachable
  have resumed : Legal hart.resumed := ⟨legal.implemented, legal.fair, legal.pc, legal.paged⟩
  exact {
    pc := legal.pc
    mepc := legal.mepc
    sepc := legal.sepc
    mtvec := vector_mode (legal.implemented .mtvec)
    stvec := vector_mode (legal.implemented .stvec)
    mpp := legal.fair
    uxl := by
      rw [legal.status.field (by decide)]
      decide
    sxl := by
      rw [legal.status.field (by decide)]
      decide
    mstatus := by
      rw [legal.status.field (by decide)]
      decide
    mie := legal.implemented .mie
    mip := legal.implemented .mip
    mideleg := legal.implemented .mideleg
    medeleg := legal.implemented .medeleg
    satp := reachable_follows reachable
    aligned := fun why mid raised => instruction_aligned resumed raised }

def disturbed : Hart :=
  Move.apply (Move.apply (Move.apply poweredOn (.setCsr 0x305 0x2003)) (.setPc 0x1002)) (.step false)

theorem disturbed_reachable : Reachable AnyBus EvenPc disturbed :=
  (((Reachable.start Bus.empty trivial).move (.setCsr 0x305 0x2003) trivial).move (.setPc 0x1002) (show IsEven 0x1002 by decide)).move
    (.step false) trivial

theorem reachable_architectural_disturbed : Reachable AnyBus EvenPc disturbed ∧ disturbed.csrs.get .mtvec = 0x2001 ∧
    disturbed.csrs.get .mepc = 0x1002 ∧ disturbed.pc = 0x2000 ∧ Architectural disturbed :=
  ⟨disturbed_reachable, by decide +kernel, by decide +kernel, by decide +kernel,
    reachable_architectural disturbed_reachable⟩

end Hart

end RvBoard
