import RvBoard.Memory.Tlb

/-!
# Virtual memory

The hart's view of memory: the bus behind address translation, which is off in bare mode and in
machine mode.
-/

set_option autoImplicit false

namespace RvBoard

inductive PagingMode where
  | bare
  | sv39
deriving DecidableEq, Repr

namespace PagingMode

def ofSatp? (satp : UInt64) : Option PagingMode :=
  match satp >>> 60 with
  | 0 => some bare
  | 8 => some sv39
  | _ => none

def name : PagingMode → String
  | bare => "Bare"
  | sv39 => "Page39bit"

end PagingMode

structure Memory where
  bus : Bus
  tlb : Tlb := {}
  mode : PagingMode := .bare
  root : UInt64 := 0

/-- An operation on virtual memory; what it changed stays changed when it fails. -/
abbrev MemoryM (α : Type) := EStateM MemFault Memory α

namespace Memory

def empty : Memory := { bus := Bus.empty }

def onBus {α : Type} (operation : BusM α) : MemoryM α := fun memory =>
  let ⟨bus, tlb, mode, root⟩ := memory
  match operation bus with
  | .ok value bus => .ok value ⟨bus, tlb, mode, root⟩
  | .error fault bus => .error fault ⟨bus, tlb, mode, root⟩

def mapBus (change : Bus → Bus) (memory : Memory) : Memory :=
  let ⟨bus, tlb, mode, root⟩ := memory
  ⟨change bus, tlb, mode, root⟩

def reset (memory : Memory) : Memory :=
  let ⟨bus, _, _, _⟩ := memory
  ⟨bus, Tlb.empty, .bare, 0⟩

def flush (memory : Memory) : Memory :=
  let ⟨bus, _, mode, root⟩ := memory
  ⟨bus, Tlb.empty, mode, root⟩

def rootOf (satp : UInt64) : UInt64 :=
  (satp &&& 0xfffffffffff) * Pte.pageSize

/-- Takes over a value of `satp`, unless its mode is not supported. -/
def setSatp (memory : Memory) (satp : UInt64) : Bool × Memory :=
  match PagingMode.ofSatp? satp with
  | none => (false, memory)
  | some mode =>
    let ⟨bus, _, _, _⟩ := memory
    (true, ⟨bus, Tlb.empty, mode, rootOf satp⟩)

def inPage (page vaddr : UInt64) : UInt64 :=
  page ||| (vaddr &&& Pte.pageMask)

def walkAndCache (vaddr : UInt64) (access : AccessKind) (context : AccessContext) :
    MemoryM Translation := fun memory =>
  let ⟨bus, tlb, mode, root⟩ := memory
  match Sv39.walk root vaddr access context bus with
  | .ok translation bus => .ok translation ⟨bus, tlb.insert vaddr translation, mode, root⟩
  | .error fault bus => .error fault ⟨bus, tlb, mode, root⟩

def translate (vaddr : UInt64) (access : AccessKind) (context : AccessContext) :
    MemoryM UInt64 := fun memory =>
  if memory.mode = .bare ∨ context.privilege = .machine then .ok vaddr memory
  else
    match memory.tlb.hit? vaddr access context with
    | some translation => .ok (inPage translation.page vaddr) memory
    | none =>
      match walkAndCache vaddr access context memory with
      | .ok translation memory => .ok (inPage translation.page vaddr) memory
      | .error fault memory => .error fault memory

def load (vaddr : UInt64) (size : Nat) (context : AccessContext) : MemoryM UInt64 := do
  if !aligned size vaddr then throw .loadMisaligned
  let paddr ← translate vaddr .load context
  return truncate size (← onBus (Bus.load paddr size))

def store (vaddr : UInt64) (size : Nat) (value : UInt64) (context : AccessContext) :
    MemoryM Unit := do
  if !aligned size vaddr then throw .storeMisaligned
  let paddr ← translate vaddr .store context
  onBus (Bus.store paddr size (truncate size value))

def fetch (vaddr : UInt64) (context : AccessContext) : MemoryM UInt16 := do
  if !aligned 1 vaddr then throw .loadMisaligned
  let paddr ← translate vaddr .fetch context
  return (← onBus (Bus.load paddr 1)).toUInt16

def loadForStore (paddr : UInt64) (size : Nat) : BusM UInt64 := fun bus =>
  match Bus.load paddr size bus with
  | .ok value bus => .ok value bus
  | .error _ bus => .error .storeAccess bus

def update (vaddr : UInt64) (size : Nat) (change : UInt64 → UInt64) (context : AccessContext) :
    MemoryM UInt64 := do
  if !aligned size vaddr then throw .storeMisaligned
  let paddr ← translate vaddr .store context
  onBus do
    let old ← loadForStore paddr size
    Bus.store paddr size (truncate size (change (truncate size old)))
    return truncate size old

def inPageCount (vaddr : UInt64) (n : Nat) : Nat :=
  min (4096 - vaddr.toNat % 4096) n

theorem inPageCount_pos (vaddr : UInt64) (n : Nat) (some : 0 < n) : 0 < inPageCount vaddr n := by
  have inside := Nat.mod_lt vaddr.toNat (show 0 < 4096 by decide)
  unfold inPageCount
  omega

def readPages (context : AccessContext) (out : ByteArray) (vaddr : UInt64) (n : Nat) :
    MemoryM ByteArray :=
  if n = 0 then return out
  else do
    let count := inPageCount vaddr n
    let paddr ← translate vaddr .load context
    let bytes ← onBus (Bus.readBytes paddr count)
    readPages context (out ++ bytes) (vaddr + UInt64.ofNat count) (n - count)
termination_by n
decreasing_by
  have := inPageCount_pos vaddr n (by omega)
  omega

def readBytes (vaddr : UInt64) (n : Nat) (context : AccessContext) : MemoryM ByteArray :=
  readPages context ByteArray.empty vaddr n

def writePages (context : AccessContext) (bytes : ByteArray) (vaddr : UInt64) (start : Nat) :
    MemoryM Unit :=
  if bytes.size ≤ start then return
  else do
    let count := inPageCount vaddr (bytes.size - start)
    let paddr ← translate vaddr .store context
    onBus (Bus.writeBytes paddr (bytes.extract start (start + count)))
    writePages context bytes (vaddr + UInt64.ofNat count) (start + count)
termination_by bytes.size - start
decreasing_by
  have := inPageCount_pos vaddr (bytes.size - start) (by omega)
  omega

def writeBytes (vaddr : UInt64) (bytes : ByteArray) (context : AccessContext) : MemoryM Unit :=
  writePages context bytes vaddr 0

end Memory

end RvBoard
