import RvBoard.Bus
import RvBoard.Hart.Privilege

/-!
# Sv39 page tables

Page table entries, the rights they grant, and the walk from the root of a table to the page of a
virtual address, which marks the leaf as accessed, and as dirty when something is to be stored.
-/

set_option autoImplicit false

namespace RvBoard

inductive AccessKind where
  | fetch
  | load
  | store
deriving DecidableEq, Repr

namespace AccessKind

def all : List AccessKind := [fetch, load, store]

def pageFault : AccessKind → MemFault
  | store => .storePage
  | _ => .loadPage

def accessFault : AccessKind → MemFault
  | store => .storeAccess
  | _ => .loadAccess

end AccessKind

structure AccessContext where
  privilege : Privilege
  sum : Bool := false
  mxr : Bool := false
deriving DecidableEq, Repr

namespace AccessContext

def machine : AccessContext := { privilege := .machine }

def all : List AccessContext :=
  Privilege.all.flatMap fun privilege =>
    [false, true].flatMap fun mxr =>
      [false, true].map fun sum => { privilege, sum, mxr }

end AccessContext

abbrev PteFlags := UInt8

namespace PteFlags

def valid : PteFlags := 0x01
def read : PteFlags := 0x02
def write : PteFlags := 0x04
def execute : PteFlags := 0x08
def user : PteFlags := 0x10
def accessed : PteFlags := 0x40
def dirty : PteFlags := 0x80

def has (flags : PteFlags) (flag : PteFlags) : Bool :=
  flags &&& flag == flag

def allows (flags : PteFlags) (access : AccessKind) (mxr : Bool) : Bool :=
  match access with
  | .fetch => has flags execute
  | .load => has flags read || (mxr && has flags execute)
  | .store => has flags write

def admits (flags : PteFlags) (access : AccessKind) (context : AccessContext) : Bool :=
  match context.privilege with
  | .user => has flags user
  | .supervisor => !has flags user || (access != .fetch && context.sum)
  | .machine => true

def permits (flags : PteFlags) (access : AccessKind) (context : AccessContext) : Bool :=
  allows flags access context.mxr && admits flags access context

def marks (access : AccessKind) : PteFlags :=
  if access = .store then accessed ||| dirty else accessed

end PteFlags

structure Pte where
  bits : UInt64
deriving DecidableEq, Repr

namespace Pte

def pageShift : UInt64 := 12
def pageSize : UInt64 := 0x1000
def pageMask : UInt64 := 0xfff

def ofAddress (address : UInt64) (flags : PteFlags) : Pte :=
  ⟨((address >>> pageShift) <<< 10) ||| flags.toUInt64⟩

def address (pte : Pte) : UInt64 :=
  ((pte.bits >>> 10) &&& 0xfffffffffff) <<< pageShift

def flags (pte : Pte) : PteFlags :=
  pte.bits.toUInt8

def isLeaf (pte : Pte) : Bool :=
  pte.flags &&& (PteFlags.read ||| PteFlags.execute) != 0

/-- Not valid, with reserved bits, or writable without being readable. -/
def isMalformed (pte : Pte) : Bool :=
  !pte.flags.has PteFlags.valid || pte.bits >>> 54 != 0 ||
    (pte.flags.has PteFlags.write && !pte.flags.has PteFlags.read)

def mark (pte : Pte) (marks : PteFlags) : Pte :=
  ⟨pte.bits ||| marks.toUInt64⟩

end Pte

structure Translation where
  page : UInt64
  flags : PteFlags
deriving DecidableEq, Repr

namespace Sv39

def levels : Nat := 3

def index (address : UInt64) (level : Nat) : UInt64 :=
  (address >>> UInt64.ofNat (12 + 9 * level)) &&& 0x1ff

def isCanonical (address : UInt64) : Bool :=
  let upper := address.toInt64 >>> 38
  upper == 0 || upper == -1

def offsetMask (level : Nat) : UInt64 :=
  ((1 : UInt64) <<< UInt64.ofNat (12 + 9 * level)) - 1

def orAccessFault {α : Type} (access : AccessKind) (operation : BusM α) : BusM α := fun bus =>
  match operation bus with
  | .ok value bus => .ok value bus
  | .error _ bus => .error access.accessFault bus

def useLeaf (pte : Pte) (pteAddress vaddr : UInt64) (level : Nat) (access : AccessKind)
    (context : AccessContext) : BusM Translation := do
  let mask := offsetMask level
  if !pte.flags.permits access context then throw access.pageFault
  if pte.address &&& mask != 0 then throw access.pageFault
  let marked := pte.mark (PteFlags.marks access)
  if marked != pte then orAccessFault access (Bus.store pteAddress 3 marked.bits)
  return ⟨marked.address ||| (vaddr &&& mask &&& ~~~Pte.pageMask), marked.flags⟩

def walkFrom (vaddr : UInt64) (access : AccessKind) (context : AccessContext) :
    Nat → UInt64 → BusM Translation
  | 0, _ => throw access.pageFault
  | level + 1, table => do
    let pteAddress := table + index vaddr level * 8
    let pte : Pte := ⟨← orAccessFault access (Bus.load pteAddress 3)⟩
    if pte.isMalformed then throw access.pageFault
    if pte.isLeaf then useLeaf pte pteAddress vaddr level access context
    else walkFrom vaddr access context level pte.address

def walk (root vaddr : UInt64) (access : AccessKind) (context : AccessContext) :
    BusM Translation := do
  if !isCanonical vaddr then throw access.pageFault
  walkFrom vaddr access context levels root

end Sv39

end RvBoard
