import RvBoard.Hart.CsrAccess

/-!
# Snapshots

The registers of the hart at one moment, to be compared with those of another. Counters change
with every cycle and are left out.
-/

set_option autoImplicit false

namespace RvBoard

def Csr.isCounter : Csr → Bool
  | .cycle | .time | .instret | .mcycle | .minstret => true
  | _ => false

structure Snapshot where
  regs : List UInt64
  csrs : List UInt64

namespace Snapshot

def csrsShown : List Csr :=
  Csr.all.filter fun csr => !csr.isCounter

def ofHart (hart : Hart) : Snapshot where
  regs := hart.registers.values.toList
  csrs := csrsShown.map hart.csrValue

def changes (names : List String) (before now : List UInt64) : List (String × UInt64) :=
  (names.zip (before.zip now)).filterMap fun (name, old, new) =>
    if old = new then none else some (name, new)

def regChanges (before now : Snapshot) : List (String × UInt64) :=
  changes ((List.range 32).map toString) before.regs now.regs

def csrChanges (before now : Snapshot) : List (String × UInt64) :=
  changes (csrsShown.map Csr.name) before.csrs now.csrs

end Snapshot

end RvBoard
