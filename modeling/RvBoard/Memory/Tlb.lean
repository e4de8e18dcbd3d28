import RvBoard.Memory.PageTable

/-!
# Translation look-aside buffer

A direct-mapped cache of page translations.
-/

set_option autoImplicit false

namespace RvBoard

structure TlbEntry where
  vpn : UInt64
  translation : Translation
deriving DecidableEq, Repr

structure Tlb where
  entries : Vector (Option TlbEntry) 64 := Vector.replicate 64 none
deriving DecidableEq, Repr

namespace Tlb

def slot (vpn : UInt64) : Fin 64 :=
  Fin.ofNat 64 vpn.toNat

def pageOf (vaddr : UInt64) : UInt64 :=
  vaddr >>> Pte.pageShift

def lookup (tlb : Tlb) (vaddr : UInt64) : Option Translation :=
  match tlb.entries[slot (pageOf vaddr)] with
  | some entry => if entry.vpn = pageOf vaddr then some entry.translation else none
  | none => none

def insert (tlb : Tlb) (vaddr : UInt64) (translation : Translation) : Tlb :=
  let entry : TlbEntry := ⟨pageOf vaddr, translation⟩
  ⟨tlb.entries.set (slot (pageOf vaddr)) (some entry)⟩

def empty : Tlb := {}

def usable (translation : Translation) (access : AccessKind) (context : AccessContext) : Bool :=
  translation.flags.permits access context &&
    (access != .store || translation.flags.has PteFlags.dirty)

def hit? (tlb : Tlb) (vaddr : UInt64) (access : AccessKind) (context : AccessContext) :
    Option Translation :=
  (tlb.lookup vaddr).filter fun translation => usable translation access context

end Tlb

end RvBoard
