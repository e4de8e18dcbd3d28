/-!
# Memory faults

Why a memory access failed. Fetches fail with the faults of loads.
-/

set_option autoImplicit false

namespace RvBoard

inductive MemFault where
  | loadMisaligned
  | loadAccess
  | storeMisaligned
  | storeAccess
  | loadPage
  | storePage
deriving DecidableEq, Repr

namespace MemFault

def all : List MemFault :=
  [loadMisaligned, loadAccess, storeMisaligned, storeAccess, loadPage, storePage]

def access (write : Bool) : MemFault :=
  if write then storeAccess else loadAccess

def misaligned (write : Bool) : MemFault :=
  if write then storeMisaligned else loadMisaligned

def name : MemFault → String
  | loadMisaligned => "LoadMisaligned"
  | loadAccess => "LoadFault"
  | storeMisaligned => "StoreMisaligned"
  | storeAccess => "StoreFault"
  | loadPage => "LoadPageFault"
  | storePage => "StorePageFault"

end MemFault

end RvBoard
