/-!
# Control and status registers

The registers that exist, with their addresses, their values after reset and the bits that can be
written; and the file of their stored values. Some registers are views of others, or are computed
when they are read; their stored values are never looked at.
-/

set_option autoImplicit false

namespace RvBoard

inductive Csr where
  | cycle | time | instret | sstatus | sie | stvec | scounteren | senvcfg | sscratch | sepc
  | scause | stval | sip | satp | mstatus | misa | medeleg | mideleg | mie | mtvec | mcounteren
  | menvcfg | mcountinhibit | mscratch | mepc | mcause | mtval | mip | pmpcfg0 | pmpcfg2
  | pmpaddr (index : Fin 16) | mcycle | minstret | mvendorid | marchid | mimpid | mhartid
  | mconfigptr
deriving DecidableEq, Repr

namespace Csr

def address : Csr → UInt64
  | cycle => 0xc00
  | time => 0xc01
  | instret => 0xc02
  | sstatus => 0x100
  | sie => 0x104
  | stvec => 0x105
  | scounteren => 0x106
  | senvcfg => 0x10a
  | sscratch => 0x140
  | sepc => 0x141
  | scause => 0x142
  | stval => 0x143
  | sip => 0x144
  | satp => 0x180
  | mstatus => 0x300
  | misa => 0x301
  | medeleg => 0x302
  | mideleg => 0x303
  | mie => 0x304
  | mtvec => 0x305
  | mcounteren => 0x306
  | menvcfg => 0x30a
  | mcountinhibit => 0x320
  | mscratch => 0x340
  | mepc => 0x341
  | mcause => 0x342
  | mtval => 0x343
  | mip => 0x344
  | pmpcfg0 => 0x3a0
  | pmpcfg2 => 0x3a2
  | pmpaddr index => 0x3b0 + UInt64.ofNat index.val
  | mcycle => 0xb00
  | minstret => 0xb02
  | mvendorid => 0xf11
  | marchid => 0xf12
  | mimpid => 0xf13
  | mhartid => 0xf14
  | mconfigptr => 0xf15

def name : Csr → String
  | cycle => "cycle"
  | time => "time"
  | instret => "instret"
  | sstatus => "sstatus"
  | sie => "sie"
  | stvec => "stvec"
  | scounteren => "scounteren"
  | senvcfg => "senvcfg"
  | sscratch => "sscratch"
  | sepc => "sepc"
  | scause => "scause"
  | stval => "stval"
  | sip => "sip"
  | satp => "satp"
  | mstatus => "mstatus"
  | misa => "misa"
  | medeleg => "medeleg"
  | mideleg => "mideleg"
  | mie => "mie"
  | mtvec => "mtvec"
  | mcounteren => "mcounteren"
  | menvcfg => "menvcfg"
  | mcountinhibit => "mcountinhibit"
  | mscratch => "mscratch"
  | mepc => "mepc"
  | mcause => "mcause"
  | mtval => "mtval"
  | mip => "mip"
  | pmpcfg0 => "pmpcfg0"
  | pmpcfg2 => "pmpcfg2"
  | pmpaddr index => "pmpaddr" ++ toString index.val
  | mcycle => "mcycle"
  | minstret => "minstret"
  | mvendorid => "mvendorid"
  | marchid => "marchid"
  | mimpid => "mimpid"
  | mhartid => "mhartid"
  | mconfigptr => "mconfigptr"

def initial : Csr → UInt64
  | mstatus => 0xa00000000
  | misa => 0x8000000000141105
  | _ => 0

def writable : Csr → UInt64
  | stvec | mtvec => 0xfffffffffffffffd
  | scounteren | mcounteren => 0xffffffff
  | sscratch | scause | stval | satp | mscratch | mcause | mtval | pmpcfg0 | pmpcfg2 | mcycle | minstret => 0xffffffffffffffff
  | sepc | mepc => 0xfffffffffffffffe
  | mstatus => 0x7e19aa
  | medeleg => 0xb3ff
  | mideleg | mip => 0x222
  | mie => 0xaaa
  | pmpaddr _ => 0x3fffffffffffff
  | _ => 0

def all : List Csr :=
  [cycle, time, instret, sstatus, sie, stvec, scounteren, senvcfg, sscratch, sepc, scause, stval,
    sip, satp, mstatus, misa, medeleg, mideleg, mie, mtvec, mcounteren, menvcfg, mcountinhibit,
    mscratch, mepc, mcause, mtval, mip, pmpcfg0, pmpcfg2]
  ++ (List.finRange 16).map pmpaddr ++
  [mcycle, minstret, mvendorid, marchid, mimpid, mhartid, mconfigptr]

abbrev count : Nat := 53

def slot : Csr → Fin count
  | cycle => 0
  | time => 1
  | instret => 2
  | sstatus => 3
  | sie => 4
  | stvec => 5
  | scounteren => 6
  | senvcfg => 7
  | sscratch => 8
  | sepc => 9
  | scause => 10
  | stval => 11
  | sip => 12
  | satp => 13
  | mstatus => 14
  | misa => 15
  | medeleg => 16
  | mideleg => 17
  | mie => 18
  | mtvec => 19
  | mcounteren => 20
  | menvcfg => 21
  | mcountinhibit => 22
  | mscratch => 23
  | mepc => 24
  | mcause => 25
  | mtval => 26
  | mip => 27
  | pmpcfg0 => 28
  | pmpcfg2 => 29
  | pmpaddr index => ⟨30 + index.val, by have := index.isLt; show _ < 53; omega⟩
  | mcycle => 46
  | minstret => 47
  | mvendorid => 48
  | marchid => 49
  | mimpid => 50
  | mhartid => 51
  | mconfigptr => 52

def ofAddress? (address : UInt64) : Option Csr :=
  all.find? fun csr => csr.address == address

end Csr

structure CsrFile where
  values : Vector UInt64 Csr.count

namespace CsrFile

def get (file : CsrFile) (csr : Csr) : UInt64 :=
  file.values[csr.slot]

def set (file : CsrFile) (csr : Csr) (value : UInt64) : CsrFile :=
  ⟨file.values.set csr.slot value⟩

def write (file : CsrFile) (csr : Csr) (value : UInt64) : CsrFile :=
  file.set csr ((file.get csr &&& ~~~csr.writable) ||| (value &&& csr.writable))

def initial : CsrFile :=
  Csr.all.foldl (fun file csr => file.set csr csr.initial) ⟨Vector.replicate Csr.count 0⟩

end CsrFile

theorem Csr.mem_all (csr : Csr) : csr ∈ Csr.all := by
  cases csr with
  | pmpaddr index => simp [Csr.all]
  | _ => simp [Csr.all]

theorem Csr.all_slot (csr : Csr) : Csr.all[csr.slot.val]? = some csr := by
  cases csr with
  | pmpaddr index =>
    revert index
    decide
  | _ => rfl

theorem Csr.slot_injective {a b : Csr} (same : a.slot = b.slot) : a = b := by
  have left := a.all_slot
  rw [same, b.all_slot] at left
  exact (Option.some.inj left).symm

theorem CsrFile.get_set (file : CsrFile) (a b : Csr) (value : UInt64) :
    (file.set a value).get b = if a = b then value else file.get b := by
  unfold CsrFile.get CsrFile.set
  by_cases same : a = b
  · subst same
    simp
  · have differs : a.slot ≠ b.slot := fun equal => same (Csr.slot_injective equal)
    simp [same, Fin.val_inj, differs]

end RvBoard
