import RvBoard.Proofs.Hart.Paging
import RvBoard.Proofs.Memory.Visits

/-!
# Isolation of user mode

An instruction that completes in user mode visits its parcels and then the data that it accesses, if
any. What the visits read is all of memory that it depends on, and what they write and mark is all of
memory that it changes.
-/

set_option autoImplicit false

namespace RvBoard.Hart

open Bus Sv39

-- The hart with another memory.
def withMemory (hart : Hart) (memory : Memory) : Hart :=
  { hart with memory := memory }

def concluded (hart : Hart) (value : UInt64) : Instr → Hart
  | ⟨.load op, args⟩ =>
    let args : IArgs := args
    { hart with registers := hart.registers.write args.rd (op.extend value), pc := hart.next }
  | ⟨.loadReserved width, args⟩ =>
    let args : AArgs := args
    { hart with
      registers := hart.registers.write args.rd (width.extend value)
      pc := hart.next
      reservation := some (hart.reg args.rs1) }
  | ⟨.storeConditional _, args⟩ =>
    let args : AArgs := args
    { hart with registers := hart.registers.write args.rd 0, pc := hart.next, reservation := none }
  | ⟨.amo _ width, args⟩ =>
    let args : AArgs := args
    { hart with registers := hart.registers.write args.rd (width.extend value), pc := hart.next }
  | _ => { hart with pc := hart.next }

theorem execute_accessed {hart : Hart} {instr : Instr} {access : DataAccess} {value : UInt64} {memory : Memory}
    (asked : hart.access? instr = some access) (done : access.run hart.dataContext hart.memory = .ok value memory) :
    execute instr hart = .ok () ((hart.concluded value instr).withMemory memory) := by
  obtain ⟨op, args⟩ := instr
  cases op with
  | load op =>
    cases asked
    exact load_completes hart op args done
  | store op =>
    cases asked
    exact store_completes hart op args done
  | loadReserved width =>
    cases asked
    exact loadReserved_completes hart width args done
  | storeConditional width =>
    cases reserved : hart.reservation == some (hart.reg (show AArgs from args).rs1) with
    | false =>
      simp only [access?, reserved, Bool.false_eq_true, if_false] at asked
      cases asked
    | true =>
      simp only [access?, reserved, if_true] at asked
      cases asked
      exact storeConditional_completes hart width args reserved done
  | amo op width =>
    cases asked
    exact amo_completes hart op width args done
  | _ => cases asked

def Heedless (operation : HartM Unit) (hart next : Hart) : Prop :=
  next.memory = hart.memory ∧ ∀ other : Bus, other.wires = hart.bus.wires →
    operation (hart.withMemory { hart.memory with bus := other }) =
      .ok () (next.withMemory { hart.memory with bus := other })

theorem required_legal {hart next : Hart} {allowed : Hart → Bool} {rest : HartM Unit}
    (done : (do require allowed; rest : HartM Unit) hart = .ok () next) : allowed hart = true := by
  cases legal : allowed hart with
  | true => rfl
  | false => cases (require_refuses hart rest legal).symm.trans done

section UserMode

variable {hart next : Hart} (user : hart.privilege = .user)

include user

theorem user_readOnly {csr : Csr} (allowed : hart.mayAccess csr = true) : csr.isReadOnly = true := by
  cases writable : csr.isReadOnly with
  | true => rfl
  | false => exact (user_writes_nothing user allowed writable).elim

theorem csrWrite_user {isImmediate : Bool} {args : IArgs} : csrWrite isImmediate args hart ≠ .ok () next := by
  intro done
  rcases namedCsr_cases hart args.imm with ⟨csr, _, allowed, named⟩ | unnamed
  · cases (csrWrite_readOnly hart isImmediate args named (user_readOnly user allowed)).symm.trans done
  · cases (csrWrite_unnamed hart isImmediate args unnamed).symm.trans done

theorem csrChange_user {change : UInt64 → UInt64 → UInt64} {isImmediate : Bool} {args : IArgs}
    (done : csrChange change isImmediate args hart = .ok () next) :
    Heedless (csrChange change isImmediate args) hart next := by
  rcases namedCsr_cases hart args.imm with ⟨csr, found, allowed, named⟩ | unnamed
  · by_cases nothing : args.rs1 = .zero
    · cases (csrChange_read hart isImmediate args change named nothing).symm.trans done
      refine ⟨rfl, fun other wires => ?_⟩
      let twin := hart.withMemory { hart.memory with bus := other }
      have again : namedCsr args.imm twin = .ok csr twin := namedCsr_ok twin found allowed
      have value : twin.csrValue csr = hart.csrValue csr :=
        csrValue_congr (show twin.wires = hart.wires from wires) rfl rfl csr (fun _ _ => rfl)
      rw [csrChange_read twin isImmediate args change again nothing, value]
      rfl
    · have readOnly := user_readOnly user allowed
      cases (csrChange_readOnly hart isImmediate args change named nothing readOnly).symm.trans done
  · cases (csrChange_unnamed hart isImmediate args change unnamed).symm.trans done

theorem execute_heedless {instr : Instr} (quiet : hart.access? instr = none) (done : execute instr hart = .ok () next) :
    Heedless (execute instr) hart next := by
  obtain ⟨op, args⟩ := instr
  cases op with
  | lui | auipc | jal | jalr | aluImm op | alu op | fence | fenceI =>
    cases done
    exact ⟨rfl, fun _ _ => rfl⟩
  | branch cond =>
    cases (branch_run hart cond args).symm.trans done
    exact ⟨rfl, fun _ _ => branch_run _ cond args⟩
  | storeConditional width =>
    cases reserved : hart.reservation == some (hart.reg (show AArgs from args).rs1) with
    | false =>
      cases (storeConditional_unreserved hart width args reserved).symm.trans done
      exact ⟨rfl, fun _ _ => storeConditional_unreserved _ width args reserved⟩
    | true =>
      simp only [access?, reserved, if_true] at quiet
      cases quiet
  | csr op isImmediate =>
    cases op with
    | write => exact (csrWrite_user user done).elim
    | set => exact csrChange_user user done
    | clear => exact csrChange_user user done
  | ecall =>
    obtain ⟨why, raised, _⟩ := hart.environmentCall_raises
    cases raised.symm.trans done
  | ebreak => cases done
  | sret =>
    have legal := required_legal done
    rw [mayReturnSupervisor, user] at legal
    cases legal
  | mret =>
    have legal := required_legal done
    rw [user] at legal
    cases legal
  | wfi =>
    have legal := required_legal done
    rw [mayWait, user] at legal
    cases legal
  | sfenceVma =>
    have legal := required_legal done
    rw [mayFence, user] at legal
    cases legal
  | load op | store op | loadReserved width | amo op width => cases quiet

end UserMode

theorem user_dataContext {hart : Hart} (only : MachineOnly hart) (user : hart.privilege = .user) :
    hart.dataContext.privilege = .user := by
  cases lent : hart.status Mstatus.mprv with
  | true => cases (only lent).symm.trans user
  | false =>
    unfold dataContext
    rw [lent, if_neg Bool.false_ne_true]
    exact user

theorem access_withMemory (hart : Hart) (memory : Memory) (instr : Instr) :
    (hart.withMemory memory).access? instr = hart.access? instr := by
  obtain ⟨op, args⟩ := instr
  cases op <;> rfl

theorem concluded_withMemory (hart : Hart) (memory : Memory) (value : UInt64) (instr : Instr) :
    (hart.withMemory memory).concluded value instr = (hart.concluded value instr).withMemory memory := by
  obtain ⟨op, args⟩ := instr
  cases op <;> rfl

theorem access_completes {hart mid : Hart} {instr : Instr} {access : DataAccess} (asked : hart.access? instr = some access)
    (done : execute instr hart = .ok () mid) :
    ∃ value memory, access.run hart.dataContext hart.memory = .ok value memory := by
  have executes := execute_cases hart instr
  rw [done] at executes
  cases executes with
  | accessed asked' run registers pc reservation =>
    cases asked.symm.trans asked'
    exact ⟨_, _, run⟩
  | computed quiet => cases asked.symm.trans quiet
  | _ => cases asked

section Passing

variable {hart mid : Hart} (user : hart.privilege = .user) (paged : hart.memory.mode = .sv39) {moments : List Bus}
  (vouched : Memory.Vouched (hart.bus :: moments) hart.memory)

include user paged vouched

theorem execute_passed (only : MachineOnly hart) {instr : Instr} (done : execute instr hart = .ok () mid) :
    ∃ visits : List Visit, visits.map Visit.request = (hart.access? instr).toList.map .data ∧
      Memory.Passed hart.memory.root (hart.status Mstatus.mxr) moments hart.memory visits mid.memory
        (fun before after => execute instr (hart.withMemory before) = .ok () (mid.withMemory after)) := by
  cases asked : hart.access? instr with
  | none =>
    obtain ⟨same, alike⟩ := execute_heedless user asked done
    rw [same]
    exact ⟨[], rfl, .none vouched alike⟩
  | some access =>
    obtain ⟨value, memory, run⟩ := access_completes asked done
    cases (execute_accessed asked run).symm.trans done
    rw [← Request.run_data] at run
    obtain ⟨visit, request, passed⟩ := Request.run_passed paged (user_dataContext only user) vouched run
    refine ⟨[visit], by simp [request], passed.imp ?_⟩
    intro before after again
    rw [Request.run_data] at again
    have concludes := execute_accessed ((hart.access_withMemory before instr).trans asked) again
    rw [concluded_withMemory] at concludes
    exact concludes

end Passing

section Fetching

variable {hart : Hart} (user : hart.privilege = .user)

include user

theorem fetch_passed {memory next : Memory} (paged : memory.mode = .sv39) {moments : List Bus}
    (vouched : Memory.Vouched (memory.bus :: moments) memory) {vaddr : UInt64} {parcel : UInt16}
    (done : Memory.fetch vaddr hart.fetchContext memory = .ok parcel next) :
    ∃ visit : Visit, visit.request = .parcel vaddr ∧
      Memory.Passed memory.root (hart.status Mstatus.mxr) moments memory [visit] next
        (fun before after => Memory.fetch vaddr hart.fetchContext before = .ok parcel after) := by
  rw [Request.run_parcel] at done
  obtain ⟨word, mid, run, same⟩ := bind_ok.mp done
  cases same
  obtain ⟨visit, request, passed⟩ := Request.run_passed paged user vouched run
  refine ⟨visit, request, passed.imp ?_⟩
  intro before after again
  rw [Request.run_parcel]
  exact bind_of_ok again

theorem fetched_passed (paged : hart.memory.mode = .sv39) (vouched : Memory.Vouched [hart.bus] hart.memory)
    {raw length : UInt64} {word : Option UInt32} {parcels : List UInt64} {memory : Memory}
    (read : Fetched hart raw word length parcels memory) :
    ∃ visits : List Visit, visits.map Visit.request = parcels.map .parcel ∧
      Memory.Passed hart.memory.root (hart.status Mstatus.mxr) [] hart.memory visits memory
        (fun before after => Fetched (hart.withMemory before) raw word length parcels after) := by
  cases read with
  | short read alone =>
    obtain ⟨visit, request, passed⟩ := fetch_passed user paged vouched read
    exact ⟨[visit], by simp [request], passed.imp (fun before after again => .short again alone)⟩
  | @long low high mid _ first ones second =>
    obtain ⟨visit, request, passed⟩ := fetch_passed user paged vouched first
    have pagedMid : mid.mode = .sv39 := passed.paging.mode.trans paged
    obtain ⟨visit', request', passed'⟩ := fetch_passed user pagedMid passed.vouched second
    rw [passed.paging.root] at passed'
    refine ⟨[visit] ++ [visit'], by simp [request, request'], (passed.trans passed').imp ?_⟩
    rintro before after ⟨between, again, again'⟩
    exact .long again ones again'

end Fetching

-- What an instruction asks of memory: its parcels, then the data that it accesses, if it does.
def Asks (hart : Hart) (requests : List Request) : Prop :=
  ∃ raw word length parcels memory instr, Fetched hart raw word length parcels memory ∧ word.bind decode = some instr ∧
    requests = parcels.map .parcel ++ ((hart.fetched length memory).access? instr).toList.map .data

theorem instruction_passed {hart mid : Hart} (user : hart.privilege = .user) (paged : hart.memory.mode = .sv39)
    (vouched : Memory.Vouched [hart.bus] hart.memory) (only : MachineOnly hart) (completed : instruction hart = .ok () mid) :
    ∃ visits : List Visit, Asks hart (visits.map Visit.request) ∧
      Memory.Passed hart.memory.root (hart.status Mstatus.mxr) [] hart.memory visits mid.memory
        (fun before after => instruction (hart.withMemory before) = .ok () (mid.withMemory after)) := by
  have instructs := instruction_cases hart
  rw [completed] at instructs
  cases instructs with
  | @executed raw word length parcels memory instr _ read meaning done =>
    obtain ⟨visits, requests, passed⟩ := fetched_passed user paged vouched read
    have pagedAfter : (hart.fetched length memory).memory.mode = .sv39 := passed.paging.mode.trans paged
    obtain ⟨more, requests', passed'⟩ := @execute_passed (hart.fetched length memory) _ user pagedAfter _ passed.vouched
      only _ done
    have root : (hart.fetched length memory).memory.root = hart.memory.root := passed.paging.root
    rw [root] at passed'
    refine ⟨visits ++ more, ⟨raw, word, length, parcels, memory, instr, read, meaning, ?_⟩, (passed.trans passed').imp ?_⟩
    · rw [List.map_append, requests, requests']
    · rintro before after ⟨between, again, again'⟩
      exact (instruction_decoded ⟨raw, word, length, parcels, between, again, meaning, rfl⟩).trans again'

theorem Asks.quiet {hart : Hart} {visits : List Visit} (asked : Asks hart (visits.map Visit.request)) :
    ∀ visit ∈ visits.dropLast, visit.request.kind ≠ .store := by
  obtain ⟨raw, word, length, parcels, memory, instr, _, _, same⟩ := asked
  intro visit member
  have early : visit.request ∈ (visits.map Visit.request).dropLast := by
    rw [← List.map_dropLast]
    exact List.mem_map_of_mem member
  have parcel : visit.request ∈ parcels.map Request.parcel := by
    rw [same] at early
    cases asked : (hart.fetched length memory).access? instr with
    | none =>
      rw [asked] at early
      exact List.dropLast_subset _ (by simpa using early)
    | some access =>
      rw [asked] at early
      simpa using early
  obtain ⟨vaddr, _, is⟩ := List.mem_map.mp parcel
  rw [← is]
  exact AccessKind.noConfusion

-- The root of the page table that `satp` names.
def tableRoot (hart : Hart) : UInt64 :=
  Memory.rootOf (hart.csrs.get .satp)

/-- What keeps an instruction in user mode to the pages that were granted for it: it visits no others,
changes no byte of memory but those that it stores to and the marks of leaves on its way, and depends
on no byte of memory that its visits do not read. -/
structure Isolated (hart mid next : Hart) (visits : List Visit) : Prop where
  requests : Asks hart.resumed (visits.map Visit.request)
  visited : Visited hart.tableRoot (hart.status Mstatus.mxr) [] hart.bus visits mid.bus
  granted : hart.bus.OneWindowEach → ∀ visit ∈ visits, TableInMemory hart.bus visit.request.vaddr levels hart.tableRoot →
    Grants hart.bus hart.tableRoot (hart.status Mstatus.mxr) visit.request.vaddr visit.request.kind visit.page
  kept : Remarked (fun cell => ∃ visit ∈ visits, visit.Writes cell)
    (fun cell => ∃ visit ∈ visits, visit.Marks hart.tableRoot cell) hart.bus next.bus
  conceals : ∀ (hidden : Cell → Prop) (other : Bus), Veiled hidden hart.bus other →
    (∀ visit ∈ visits, ∀ cell, visit.Reads hart.tableRoot cell → ¬ hidden cell) →
    ∃ after, instruction (hart.resumed.withMemory { hart.memory with bus := other }) =
        .ok () (mid.withMemory { mid.memory with bus := after }) ∧
      Veiled hidden mid.bus after

/-- Whatever has happened to a hart but the writes of a debugger, in user mode with paging on and with
nothing cached that the page table does not give, an instruction that completes is isolated. -/
theorem user_isolated {hart next mid : Hart} (reachable : Reachable AnyBus Undisturbed hart)
    (user : hart.privilege = .user) (paged : PagingMode.ofSatp? (hart.csrs.get .satp) = some .sv39)
    (agrees : hart.memory.Agrees) (executing : Executing hart next)
    (completed : instruction hart.resumed = .ok () mid) : ∃ visits, Isolated hart mid next visits := by
  have only : MachineOnly hart := reachable_only reachable
  have follows := reachable_follows reachable
  have mode : hart.memory.mode = .sv39 := Option.some_inj.mp (follows.mode.symm.trans paged)
  have root : hart.resumed.memory.root = hart.tableRoot := follows.root
  obtain ⟨visits, requests, passed⟩ :=
    @instruction_passed hart.resumed _ user mode agrees.vouched only completed
  have clocked : next.bus = mid.bus.mapWires fun wires => { wires with clock := wires.clock + 1 } := by
    rw [executing_eq executing]
    unfold executeOne
    rw [completed]
    rfl
  rw [root] at passed
  refine ⟨visits, requests, passed.visited, passed.visited.granted requests.quiet, ?_, passed.conceals⟩
  rw [clocked]
  exact passed.visited.remarked.trans (mapWires_confined _ _ mid.bus).remarked

def pagedProgram : Bus :=
  { windows := #[⟨0, 16, 0⟩, ⟨resetVector, 20, 1⟩]
    devices := #[
      .ram ⟨⟨#[0x1f, 0, 0, 0, 0, 0, 0, 0, 0xa3, 0x06, 0x10, 0x00, 0xff, 0xff, 0xff, 0xff]⟩⟩,
      .ram ⟨⟨#[0x93, 0x00, 0x10, 0x00, 0x93, 0x90, 0xf0, 0x03, 0x73, 0x90, 0x00, 0x18, 0x73, 0x50, 0x14, 0x34,
        0x73, 0x00, 0x20, 0x30]⟩⟩] }

def stepped : Nat → Hart
  | 0 => { memory := { bus := pagedProgram } }
  | n + 1 => (stepped n).stepInstruction false

theorem stepped_reachable (n : Nat) : Reachable AnyBus Undisturbed (stepped n) := by
  induction n with
  | zero => exact .start pagedProgram trivial
  | succ n before => exact .move before (.step false) trivial

theorem user_isolated_storing :
    Reachable AnyBus Undisturbed (stepped 5) ∧ (stepped 5).privilege = .user ∧
      PagingMode.ofSatp? ((stepped 5).csrs.get .satp) = some .sv39 ∧ (stepped 5).memory.Agrees ∧
      ∃ mid, instruction (stepped 5).resumed = .ok () mid ∧ ∃ visits, Isolated (stepped 5) mid (stepped 6) visits := by
  have reachable := stepped_reachable 5
  have user : (stepped 5).privilege = .user := by decide +kernel
  have paged : PagingMode.ofSatp? ((stepped 5).csrs.get .satp) = some .sv39 := by decide +kernel
  have flushed : (stepped 5).memory.tlb = Tlb.empty := by decide +kernel
  have completes : value? (instruction (stepped 5).resumed) = some () := by decide +kernel
  have agrees := Memory.agrees_empty flushed
  exact ⟨reachable, user, paged, agrees, _, value_ok completes,
    user_isolated reachable user paged agrees ⟨.step false, rfl, rfl⟩ (value_ok completes)⟩

end RvBoard.Hart
