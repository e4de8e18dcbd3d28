import RvBoard.Memory.Virtual
import RvBoard.Proofs.Memory.Walk

/-!
# Accesses to virtual memory

Every access checks its alignment, translates its address and then works on the bus. What it does to
the bus is what the walk does and what the operation does.
-/

set_option autoImplicit false

namespace RvBoard

-- An access to memory that an instruction makes.
inductive DataAccess where
  | load (vaddr : UInt64) (size : Nat)
  | store (vaddr : UInt64) (size : Nat) (value : UInt64)
  | update (vaddr : UInt64) (size : Nat) (change : UInt64 → UInt64)

namespace Memory

-- An aligned address is translated and an operation made where it leads.
def through {α : Type} (vaddr : UInt64) (size : Nat) (kind : AccessKind) (misaligned : MemFault) (context : AccessContext)
    (operation : UInt64 → BusM α) : MemoryM α := fun memory =>
  if aligned size vaddr then
    match translate vaddr kind context memory with
    | .ok paddr next => onBus (operation paddr) next
    | .error fault next => .error fault next
  else .error misaligned memory

end Memory

namespace DataAccess

def vaddr : DataAccess → UInt64
  | load vaddr _ | store vaddr _ _ | update vaddr _ _ => vaddr

def run (context : AccessContext) : DataAccess → MemoryM UInt64
  | load vaddr size => Memory.load vaddr size context
  | store vaddr size value => do
    Memory.store vaddr size value context
    return 0
  | update vaddr size change => Memory.update vaddr size change context

def size : DataAccess → Nat
  | load _ size | store _ size _ | update _ size _ => size

def kind : DataAccess → AccessKind
  | load _ _ => .load
  | store _ _ _ | update _ _ _ => .store

def misaligned : DataAccess → MemFault
  | load _ _ => .loadMisaligned
  | store _ _ _ | update _ _ _ => .storeMisaligned

def operation (access : DataAccess) (paddr : UInt64) : BusM UInt64 :=
  match access with
  | load _ size => do return truncate size (← Bus.load paddr size)
  | store _ size value => do
    Bus.store paddr size (truncate size value)
    return 0
  | update _ size change => do
    let old ← Memory.loadForStore paddr size
    Bus.store paddr size (truncate size (change (truncate size old)))
    return truncate size old

end DataAccess

namespace Memory

theorem loadForStore_ok_iff {paddr value : UInt64} {size : Nat} {bus next : Bus} :
    loadForStore paddr size bus = .ok value next ↔ Bus.load paddr size bus = .ok value next := by
  rw [loadForStore]
  cases Bus.load paddr size bus <;> simp

theorem onBus_ok {α : Type} {operation : BusM α} {memory : Memory} {value : α} {bus : Bus}
    (done : operation memory.bus = .ok value bus) : onBus operation memory = .ok value { memory with bus := bus } := by
  obtain ⟨start, tlb, mode, root⟩ := memory
  have same : operation start = .ok value bus := done
  simp only [onBus, same]

theorem onBus_error {α : Type} {operation : BusM α} {memory : Memory} {fault : MemFault} {bus : Bus}
    (failed : operation memory.bus = .error fault bus) :
    onBus operation memory = .error fault { memory with bus := bus } := by
  obtain ⟨start, tlb, mode, root⟩ := memory
  have same : operation start = .error fault bus := failed
  simp only [onBus, same]

theorem onBus_map {α β : Type} (operation : BusM α) (f : α → β) (memory : Memory) :
    (onBus operation >>= fun value => pure (f value)) memory =
      onBus (operation >>= fun value => pure (f value)) memory := by
  cases done : operation memory.bus with
  | ok value bus =>
    have mapped : (operation >>= fun value => pure (f value)) memory.bus = .ok (f value) bus := bind_of_ok done
    exact (bind_of_ok (onBus_ok done)).trans (onBus_ok mapped).symm
  | error fault bus => exact (bind_of_error (onBus_error done)).trans (onBus_error (bind_of_error done)).symm

theorem through_eq {α : Type} (vaddr : UInt64) (size : Nat) (kind : AccessKind) (misaligned : MemFault)
    (context : AccessContext) (operation : UInt64 → BusM α) {checked : MemoryM α}
    (unfair : aligned size vaddr = false → ∀ memory, checked memory = .error misaligned memory)
    (fair : aligned size vaddr = true → ∀ memory,
      checked memory = (translate vaddr kind context >>= fun paddr => onBus (operation paddr)) memory) :
    checked = through vaddr size kind misaligned context operation := by
  funext memory
  unfold through
  cases alignment : aligned size vaddr with
  | false => exact unfair alignment memory
  | true =>
    rw [fair alignment memory, if_pos rfl]
    cases translated : translate vaddr kind context memory with
    | error fault next => exact bind_of_error translated
    | ok paddr next => exact bind_of_ok translated

theorem through_map {α β : Type} (vaddr : UInt64) (size : Nat) (kind : AccessKind) (misaligned : MemFault)
    (context : AccessContext) (operation : UInt64 → BusM α) (f : α → β) :
    (through vaddr size kind misaligned context operation >>= fun value => pure (f value)) =
      through vaddr size kind misaligned context (fun paddr => operation paddr >>= fun value => pure (f value)) := by
  refine through_eq vaddr size kind misaligned context _ ?_ ?_
  · intro unfair memory
    refine bind_of_error ?_
    rw [through, if_neg (Bool.not_eq_true _ ▸ unfair)]
  · intro fair memory
    cases translated : translate vaddr kind context memory with
    | error fault next =>
      refine Eq.trans (bind_of_error ?_) (bind_of_error translated).symm
      simp only [through, if_pos fair, translated]
    | ok paddr next =>
      refine Eq.trans ?_ ((bind_of_ok translated).trans (onBus_map (operation paddr) f next).symm).symm
      have reached : through vaddr size kind misaligned context operation memory = onBus (operation paddr) next := by
        simp only [through, if_pos fair, translated]
      cases done : onBus (operation paddr) next with
      | ok value last =>
        have mapped : (onBus (operation paddr) >>= fun value => pure (f value)) next = .ok (f value) last := bind_of_ok done
        exact (bind_of_ok (reached.trans done)).trans mapped.symm
      | error fault last => exact (bind_of_error (reached.trans done)).trans (bind_of_error done).symm

section Through

variable (vaddr : UInt64) (size : Nat) (context : AccessContext)

theorem load_through : load vaddr size context =
    through vaddr size .load .loadMisaligned context (DataAccess.load vaddr size).operation := by
  refine through_eq vaddr size .load .loadMisaligned context _ ?_ ?_
  · intro unfair memory
    rw [load, unfair]
    rfl
  · intro fair memory
    rw [load, fair]
    cases translated : translate vaddr .load context memory with
    | error fault next => exact (bind_of_error translated).trans (bind_of_error translated).symm
    | ok paddr next =>
      refine (bind_of_ok translated).trans (Eq.trans ?_ (bind_of_ok translated).symm)
      exact onBus_map (Bus.load paddr size) (truncate size) next

theorem store_through (value : UInt64) : store vaddr size value context =
    through vaddr size .store .storeMisaligned context (fun paddr => Bus.store paddr size (truncate size value)) := by
  refine through_eq vaddr size .store .storeMisaligned context _ ?_ ?_
  · intro unfair memory
    rw [store, unfair]
    rfl
  · intro fair memory
    rw [store, fair]
    rfl

theorem update_through (change : UInt64 → UInt64) : update vaddr size change context =
    through vaddr size .store .storeMisaligned context (DataAccess.update vaddr size change).operation := by
  refine through_eq vaddr size .store .storeMisaligned context _ ?_ ?_
  · intro unfair memory
    rw [update, unfair]
    rfl
  · intro fair memory
    rw [update, fair]
    rfl

theorem fetch_through : fetch vaddr context =
    through vaddr 1 .fetch .loadMisaligned context
      (fun paddr => do return UInt64.toUInt16 (← Bus.load paddr 1)) := by
  refine through_eq vaddr 1 .fetch .loadMisaligned context _ ?_ ?_
  · intro unfair memory
    rw [fetch, unfair]
    rfl
  · intro fair memory
    rw [fetch, fair]
    cases translated : translate vaddr .fetch context memory with
    | error fault next => exact (bind_of_error translated).trans (bind_of_error translated).symm
    | ok paddr next =>
      refine (bind_of_ok translated).trans (Eq.trans ?_ (bind_of_ok translated).symm)
      exact onBus_map (Bus.load paddr 1) UInt64.toUInt16 next

theorem through_machine {α : Type} {vaddr : UInt64} {size : Nat} {kind : AccessKind} {misaligned : MemFault}
    {context : AccessContext} {operation : UInt64 → BusM α} {memory : Memory} {value : α}
    (machine : context.privilege = .machine) (fair : aligned size vaddr = true)
    (done : operation vaddr memory.bus = .ok value memory.bus) :
    through vaddr size kind misaligned context operation memory = .ok value memory := by
  unfold through translate
  rw [if_pos fair, if_pos (.inr machine)]
  exact onBus_ok done

end Through

end Memory

namespace Memory

-- Translation works as before, on the same table.
structure SamePaging (memory next : Memory) : Prop where
  mode : next.mode = memory.mode
  root : next.root = memory.root

theorem SamePaging.refl (memory : Memory) : SamePaging memory memory :=
  ⟨rfl, rfl⟩

theorem SamePaging.trans {a b c : Memory} (first : SamePaging a b) (second : SamePaging b c) : SamePaging a c :=
  ⟨second.mode.trans first.mode, second.root.trans first.root⟩

-- The root of the page table, where there is one.
def table? (memory : Memory) : Option UInt64 :=
  if memory.mode = .bare then none else some memory.root

theorem translate_left (vaddr : UInt64) (kind : AccessKind) (context : AccessContext) (memory : Memory) :
    SamePaging memory (left (translate vaddr kind context memory)) ∧
      ((left (translate vaddr kind context memory)).bus = memory.bus ∨
        memory.table? = some memory.root ∧
          (left (translate vaddr kind context memory)).bus =
            left (Sv39.walk memory.root vaddr kind context memory.bus)) := by
  unfold translate
  by_cases off : memory.mode = .bare ∨ context.privilege = .machine
  · rw [if_pos off]
    exact ⟨⟨rfl, rfl⟩, .inl rfl⟩
  rw [if_neg off]
  have table : memory.table? = some memory.root := if_neg (fun bare => off (.inl bare))
  cases memory.tlb.hit? vaddr kind context with
  | some found => exact ⟨⟨rfl, rfl⟩, .inl rfl⟩
  | none =>
    obtain ⟨bus, tlb, mode, root⟩ := memory
    simp only [walkAndCache]
    cases Sv39.walk root vaddr kind context bus with
    | ok translation next => exact ⟨⟨rfl, rfl⟩, .inr ⟨table, rfl⟩⟩
    | error fault next => exact ⟨⟨rfl, rfl⟩, .inr ⟨table, rfl⟩⟩

theorem onBus_left {α : Type} (operation : BusM α) (memory : Memory) :
    left (onBus operation memory) = { memory with bus := left (operation memory.bus) } := by
  cases done : operation memory.bus with
  | ok value bus => rw [onBus_ok done, left_ok, left_ok]
  | error fault bus => rw [onBus_error done, left_error, left_error]

section Kept

variable {α : Type} {vaddr : UInt64} {size : Nat} {kind : AccessKind} {misaligned : MemFault} {context : AccessContext}
  {operation : UInt64 → BusM α} {memory : Memory} {Holds : Bus → Prop}

theorem translate_keeps
    (walks : memory.table? = some memory.root → Holds (left (Sv39.walk memory.root vaddr kind context memory.bus)))
    (start : Holds memory.bus) : Holds (left (translate vaddr kind context memory)).bus := by
  rcases (translate_left vaddr kind context memory).2 with same | ⟨table, walked⟩
  · rw [same]
    exact start
  · rw [walked]
    exact walks table

theorem through_keeps
    (walks : memory.table? = some memory.root → Holds (left (Sv39.walk memory.root vaddr kind context memory.bus)))
    (works : ∀ paddr bus, Holds bus → Holds (left (operation paddr bus))) (start : Holds memory.bus) :
    SamePaging memory (left (through vaddr size kind misaligned context operation memory)) ∧
      Holds (left (through vaddr size kind misaligned context operation memory)).bus := by
  have paging := (translate_left vaddr kind context memory).1
  have kept := translate_keeps walks start
  unfold through
  cases aligned size vaddr with
  | false => exact ⟨⟨rfl, rfl⟩, start⟩
  | true =>
    cases translated : translate vaddr kind context memory with
    | error fault next =>
      rw [translated] at paging kept
      exact ⟨paging, kept⟩
    | ok paddr next =>
      rw [translated] at paging kept
      simp only [if_true, onBus_left]
      exact ⟨⟨paging.mode, paging.root⟩, works paddr next.bus kept⟩

theorem through_failed {fault : MemFault} {next : Memory}
    (walks : memory.table? = some memory.root → Holds (left (Sv39.walk memory.root vaddr kind context memory.bus)))
    (works : ∀ paddr bus fault last, Holds bus → operation paddr bus = .error fault last → Holds last)
    (start : Holds memory.bus) (failed : through vaddr size kind misaligned context operation memory = .error fault next) :
    SamePaging memory next ∧ Holds next.bus := by
  have paging := (translate_left vaddr kind context memory).1
  have kept := translate_keeps walks start
  unfold through at failed
  cases fair : aligned size vaddr with
  | false =>
    rw [fair] at failed
    cases failed
    exact ⟨⟨rfl, rfl⟩, start⟩
  | true =>
    rw [fair, if_pos rfl] at failed
    cases translated : translate vaddr kind context memory with
    | error fault next =>
      rw [translated] at paging kept failed
      cases failed
      exact ⟨paging, kept⟩
    | ok paddr mid =>
      rw [translated] at paging kept failed
      cases done : operation paddr mid.bus with
      | ok value bus => cases (onBus_ok done).symm.trans failed
      | error why bus =>
        cases (onBus_error done).symm.trans failed
        exact ⟨⟨paging.mode, paging.root⟩, works paddr mid.bus _ bus kept done⟩

end Kept

end Memory

theorem DataAccess.run_through (access : DataAccess) (context : AccessContext) :
    access.run context =
      Memory.through access.vaddr access.size access.kind access.misaligned context access.operation := by
  cases access with
  | load vaddr size => exact Memory.load_through vaddr size context
  | store vaddr size value =>
    refine Eq.trans ?_ (Memory.through_map vaddr size .store .storeMisaligned context _ (fun _ => (0 : UInt64)))
    rw [← Memory.store_through]
    rfl
  | update vaddr size change => exact Memory.update_through vaddr size context change

end RvBoard
