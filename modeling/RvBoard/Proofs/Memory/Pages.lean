import RvBoard.Proofs.Memory.Grants
import RvBoard.Proofs.Memory.Marking
import RvBoard.Proofs.Memory.OneMemory
import RvBoard.Proofs.Memory.Parcels

/-!
# Copies of virtual memory

Bytes at virtual addresses are copied page by page. Once an address of a page was translated, the other addresses of the
page lead behind it, with nothing done to memory or to what is cached: over one memory the copy of a page is the copy of its
bytes, one at a time, and so is the copy of any range. A write that fails does so in the first page in which some byte cannot
be written, and leaves that page alone.
-/

set_option autoImplicit false

namespace RvBoard.Memory

open Bytes (listOf)
open Bus (OneMemory)

section Translation

-- The bytes from an address on are translated to those from another on, and nothing is done.
def Settled (memory : Memory) (kind : AccessKind) (context : AccessContext) (vaddr paddr : UInt64) (n : Nat) : Prop :=
  ∀ bus j, j < n → translate (vaddr + UInt64.ofNat j) kind context { memory with bus := bus } =
    .ok (paddr + UInt64.ofNat j) { memory with bus := bus }

variable {memory next : Memory} {kind : AccessKind} {context : AccessContext} {vaddr paddr : UInt64} {n : Nat}

theorem toNat_within {j : Nat} (inside : j < 4096 - vaddr.toNat % 4096) :
    (vaddr + UInt64.ofNat j).toNat = vaddr.toNat + j := by
  have bound := vaddr.toNat_lt
  have small : (UInt64.ofNat j).toNat = j := UInt64.toNat_ofNat_of_lt (by change j < 2 ^ 64; omega)
  rw [UInt64.toNat_add, small]
  exact Nat.mod_eq_of_lt (by omega)

theorem pageOf_within {j : Nat} (inside : j < 4096 - vaddr.toNat % 4096) :
    Tlb.pageOf (vaddr + UInt64.ofNat j) = Tlb.pageOf vaddr := by
  apply UInt64.toNat_inj.mp
  rw [Tlb.pageOf, Tlb.pageOf, UInt64.toNat_shiftRight, UInt64.toNat_shiftRight, toNat_within inside,
    Nat.shiftRight_eq_div_pow, Nat.shiftRight_eq_div_pow]
  change (vaddr.toNat + j) / 4096 = vaddr.toNat / 4096
  omega

theorem inPage_within {page : UInt64} {j : Nat} (begins : page &&& Pte.pageMask = 0)
    (inside : j < 4096 - vaddr.toNat % 4096) :
    inPage page (vaddr + UInt64.ofNat j) = inPage page vaddr + UInt64.ofNat j := by
  have start : page.toNat % 4096 = 0 := by
    rw [← Sv39.toNat_pageMask, begins]
    rfl
  have offset : (inPage page vaddr).toNat % 4096 = vaddr.toNat % 4096 := by
    rw [toNat_inPage start]
    omega
  have moved : (inPage page vaddr + UInt64.ofNat j).toNat = (inPage page vaddr).toNat + j :=
    toNat_within (by rw [offset]; exact inside)
  apply UInt64.toNat_inj.mp
  rw [moved, toNat_inPage start, toNat_inPage start, toNat_within inside]
  omega

theorem hit_page {a b : UInt64} (same : Tlb.pageOf a = Tlb.pageOf b) (tlb : Tlb) :
    tlb.hit? a kind context = tlb.hit? b kind context := by
  simp only [Tlb.hit?, Tlb.lookup, same]

theorem walked_usable {root : UInt64} {bus last : Bus} {found : Translation}
    (walked : Sv39.walk root vaddr kind context bus = .ok found last) : Tlb.usable found kind context = true := by
  obtain ⟨_, mid, entry, leaf, level, _, _, rfl, _⟩ := Sv39.walk_ok_iff.mp walked
  have permitted := (Sv39.walk_gives walked).2
  refine Bool.and_eq_true_iff.mpr ⟨permitted, ?_⟩
  cases kind with
  | store =>
    have dirty := PteFlags.has_or (PteFlags.marks .store) leaf.flags PteFlags.dirty (by decide)
    rw [UInt8.or_comm, ← Pte.flags_mark] at dirty
    exact dirty
  | _ => rfl

theorem hit_inserted {tlb : Tlb} {found : Translation} (usable : Tlb.usable found kind context = true) :
    (tlb.insert vaddr found).hit? vaddr kind context = some found := by
  have entry := entries_insert tlb vaddr found (Tlb.slot (Tlb.pageOf vaddr))
  rw [if_pos rfl] at entry
  have looked : (tlb.insert vaddr found).lookup vaddr = some found := by
    unfold Tlb.lookup
    rw [entry]
    exact if_pos rfl
  unfold Tlb.hit?
  rw [looked, Option.filter_some, if_pos usable]

theorem settled_of_hit {found : Translation} (on : ¬ (memory.mode = .bare ∨ context.privilege = .machine))
    (hit : memory.tlb.hit? vaddr kind context = some found) (begins : found.page &&& Pte.pageMask = 0)
    (inside : n ≤ 4096 - vaddr.toNat % 4096) : Settled memory kind context vaddr (inPage found.page vaddr) n := by
  intro bus j before
  have short : j < 4096 - vaddr.toNat % 4096 := by omega
  unfold translate
  rw [if_neg on]
  dsimp only
  rw [hit_page (pageOf_within short), hit]
  dsimp only
  rw [inPage_within begins short]

theorem translate_settles (paged : Paged memory) (translated : translate vaddr kind context memory = .ok paddr next)
    (inside : n ≤ 4096 - vaddr.toNat % 4096) : Settled next kind context vaddr paddr n := by
  unfold translate at translated
  by_cases off : memory.mode = .bare ∨ context.privilege = .machine
  · rw [if_pos off] at translated
    cases translated
    intro bus j _
    exact if_pos off
  rw [if_neg off] at translated
  cases hit : memory.tlb.hit? vaddr kind context with
  | some found =>
    rw [hit] at translated
    cases translated
    obtain ⟨_, slot, cached, present, _, rfl⟩ := hit_cached hit
    exact settled_of_hit off hit (paged cached (Vector.mem_of_getElem present)) inside
  | none =>
    rw [hit] at translated
    obtain ⟨bus, tlb, mode, root⟩ := memory
    simp only [walkAndCache] at translated
    cases walked : Sv39.walk root vaddr kind context bus with
    | error fault last =>
      rw [walked] at translated
      cases translated
    | ok found last =>
      rw [walked] at translated
      cases translated
      exact @settled_of_hit ⟨last, tlb.insert vaddr found, mode, root⟩ _ _ _ _ _ off (hit_inserted (walked_usable walked))
        (Sv39.walk_page_begins walked) inside

theorem translated_bound (paged : Paged memory) (translated : translate vaddr kind context memory = .ok paddr next)
    (inside : n ≤ 4096 - vaddr.toNat % 4096) : paddr.toNat + n ≤ UInt64.size := by
  have offset := (translate_paged vaddr kind context memory paged).2 paddr (by rw [translated]; rfl)
  have same : paddr.toNat % 4096 = vaddr.toNat % 4096 := by
    rw [← Sv39.toNat_pageMask, offset, Sv39.toNat_pageMask]
  have bound := paddr.toNat_lt
  change paddr.toNat + n ≤ 2 ^ 64
  omega

end Translation

section Singly

-- Some bytes are read, or written, by an access each.
def readSingly (context : AccessContext) (vaddr : UInt64) : Nat → MemoryM (List UInt8)
  | 0 => return []
  | n + 1 => do
    let byte ← load vaddr 0 context
    let rest ← readSingly context (vaddr + 1) n
    return byte.toUInt8 :: rest

def writeSingly (context : AccessContext) (vaddr : UInt64) : List UInt8 → MemoryM Unit
  | [] => return
  | byte :: rest => do
    store vaddr 0 byte.toUInt64 context
    writeSingly context (vaddr + 1) rest

theorem address_step (address : UInt64) (n : Nat) : address + 1 + UInt64.ofNat n = address + UInt64.ofNat (n + 1) := by
  rw [UInt64.add_assoc, UInt64.add_comm 1, UInt64.ofNat_add]
  rfl

theorem readSingly_append (context : AccessContext) (vaddr : UInt64) (n m : Nat) :
    readSingly context vaddr (n + m) = do
      let front ← readSingly context vaddr n
      let back ← readSingly context (vaddr + UInt64.ofNat n) m
      return front ++ back := by
  induction n generalizing vaddr with
  | zero => simp [readSingly]
  | succ n ih =>
    rw [Nat.succ_add, readSingly, readSingly]
    simp only [ih, address_step, bind_assoc, pure_bind, List.cons_append]

theorem writeSingly_append (context : AccessContext) (vaddr : UInt64) (front back : List UInt8) :
    writeSingly context vaddr (front ++ back) = (do
      writeSingly context vaddr front
      writeSingly context (vaddr + UInt64.ofNat front.length) back) := by
  induction front generalizing vaddr with
  | nil => simp [writeSingly]
  | cons byte rest ih =>
    rw [List.cons_append, writeSingly, writeSingly, List.length_cons]
    simp only [ih, address_step, bind_assoc]

section Pages

variable {memory next : Memory} {context : AccessContext} {vaddr paddr : UInt64} {n : Nat}

theorem aligned_byte (address : UInt64) : aligned 0 address = true := by
  simp [aligned, byteCount, Nat.mod_one]

def byteOn (paddr : UInt64) : BusM UInt64 := do
  return truncate 0 (← Bus.load paddr 0)

theorem toUInt8_truncate (value : UInt64) : (truncate 0 value).toUInt8 = value.toUInt8 := by
  rw [truncate, UInt64.toUInt8_and]
  exact UInt8.and_neg_one

theorem truncate_toUInt64 (byte : UInt8) : truncate 0 byte.toUInt64 = byte.toUInt64 := by
  rw [truncate, show (0xff : UInt64) = (0xff : UInt8).toUInt64 from rfl, ← UInt8.toUInt64_and]
  congr 1
  exact UInt8.and_neg_one

theorem load_at (translated : translate vaddr .load context memory = .ok paddr next) :
    load vaddr 0 context memory = onBus (byteOn paddr) next := by
  rw [load_through]
  simp only [through, if_pos (aligned_byte vaddr), translated]
  rfl

theorem load_untranslated {fault : MemFault} (failed : translate vaddr .load context memory = .error fault next) :
    load vaddr 0 context memory = .error fault next := by
  rw [load_through]
  simp only [through, if_pos (aligned_byte vaddr), failed]

theorem store_at (byte : UInt8) (translated : translate vaddr .store context memory = .ok paddr next) :
    store vaddr 0 byte.toUInt64 context memory = onBus (Bus.store paddr 0 byte.toUInt64) next := by
  rw [store_through]
  simp only [through, if_pos (aligned_byte vaddr), translated, truncate_toUInt64]

theorem store_untranslated (byte : UInt8) {fault : MemFault}
    (failed : translate vaddr .store context memory = .error fault next) :
    store vaddr 0 byte.toUInt64 context memory = .error fault next := by
  rw [store_through]
  simp only [through, if_pos (aligned_byte vaddr), failed]

theorem Settled.first {kind : AccessKind} (settled : Settled memory kind context vaddr paddr (n + 1)) :
    translate vaddr kind context memory = .ok paddr memory := by
  have here := settled memory.bus 0 (Nat.succ_pos n)
  rw [show UInt64.ofNat 0 = 0 from rfl, UInt64.add_zero, UInt64.add_zero] at here
  exact here

theorem Settled.rest {kind : AccessKind} (settled : Settled memory kind context vaddr paddr (n + 1)) (bus : Bus) :
    Settled { memory with bus := bus } kind context (vaddr + 1) (paddr + 1) n := by
  intro other j inside
  rw [address_step, address_step]
  exact settled other (j + 1) (Nat.succ_lt_succ inside)

theorem readSingly_settled (settled : Settled memory .load context vaddr paddr n) :
    readSingly context vaddr n memory = onBus (Bus.readSingly paddr n) memory := by
  induction n generalizing memory vaddr paddr with
  | zero => rfl
  | succ n ih =>
    have loads := load_at settled.first
    rw [readSingly]
    cases read : Bus.load paddr 0 memory.bus with
    | error fault bus =>
      have failed : byteOn paddr memory.bus = .error fault bus := bind_of_error read
      have whole : Bus.readSingly paddr (n + 1) memory.bus = .error fault bus := bind_of_error read
      rw [onBus_error failed] at loads
      rw [onBus_error whole, bind_of_error loads]
    | ok value bus =>
      have first : byteOn paddr memory.bus = .ok (truncate 0 value) bus := bind_of_ok read
      have rest := ih (settled.rest bus)
      rw [onBus_ok first] at loads
      rw [bind_of_ok loads]
      cases others : Bus.readSingly (paddr + 1) n bus with
      | error fault last =>
        have whole : Bus.readSingly paddr (n + 1) memory.bus = .error fault last :=
          (bind_of_ok read).trans (bind_of_error others)
        rw [onBus_error whole, bind_of_error (rest.trans (onBus_error others))]
      | ok bytes last =>
        have whole : Bus.readSingly paddr (n + 1) memory.bus = .ok (value.toUInt8 :: bytes) last :=
          (bind_of_ok read).trans (bind_of_ok others)
        rw [onBus_ok whole, bind_of_ok (rest.trans (onBus_ok others)), toUInt8_truncate]
        rfl

theorem writeSingly_settled {bytes : List UInt8} (settled : Settled memory .store context vaddr paddr bytes.length) :
    writeSingly context vaddr bytes memory = onBus (Bus.writeSingly paddr bytes) memory := by
  induction bytes generalizing memory vaddr paddr with
  | nil => rfl
  | cons byte rest ih =>
    have stores := store_at byte settled.first
    rw [writeSingly]
    cases written : Bus.store paddr 0 byte.toUInt64 memory.bus with
    | error fault bus =>
      have whole : Bus.writeSingly paddr (byte :: rest) memory.bus = .error fault bus := bind_of_error written
      rw [onBus_error written] at stores
      rw [onBus_error whole, bind_of_error stores]
    | ok done bus =>
      have others := ih (settled.rest bus)
      have whole : Bus.writeSingly paddr (byte :: rest) memory.bus = Bus.writeSingly (paddr + 1) rest bus := bind_of_ok written
      rw [onBus_ok written] at stores
      rw [bind_of_ok stores, others]
      cases later : Bus.writeSingly (paddr + 1) rest bus with
      | error fault last => rw [onBus_error (whole.trans later), onBus_error later]
      | ok done last => rw [onBus_ok (whole.trans later), onBus_ok later]

theorem bind_start {α β : Type} {first : MemoryM α} {rest : α → MemoryM β} {a b : Memory} (same : first a = first b) :
    (first >>= rest) a = (first >>= rest) b := by
  change EStateM.bind first rest a = EStateM.bind first rest b
  unfold EStateM.bind
  rw [same]

theorem readSingly_page (paged : Paged memory) (inside : n ≤ 4096 - vaddr.toNat % 4096)
    (translated : translate vaddr .load context memory = .ok paddr next) (positive : 0 < n) :
    readSingly context vaddr n memory = onBus (Bus.readSingly paddr n) next := by
  have settled := translate_settles paged translated inside
  rw [← readSingly_settled settled]
  cases n with
  | zero => cases positive
  | succ n =>
    rw [readSingly]
    exact bind_start ((load_at translated).trans (load_at settled.first).symm)

theorem writeSingly_page {bytes : List UInt8} (paged : Paged memory) (inside : bytes.length ≤ 4096 - vaddr.toNat % 4096)
    (translated : translate vaddr .store context memory = .ok paddr next) (full : bytes ≠ []) :
    writeSingly context vaddr bytes memory = onBus (Bus.writeSingly paddr bytes) next := by
  have settled := translate_settles paged translated inside
  rw [← writeSingly_settled settled]
  cases bytes with
  | nil => exact absurd rfl full
  | cons byte rest =>
    rw [writeSingly]
    exact bind_start ((store_at byte translated).trans (store_at byte settled.first).symm)

theorem readSingly_untranslated {fault : MemFault} (failed : translate vaddr .load context memory = .error fault next)
    (positive : 0 < n) : readSingly context vaddr n memory = .error fault next := by
  cases n with
  | zero => cases positive
  | succ n => exact bind_of_error (load_untranslated failed)

theorem writeSingly_untranslated {bytes : List UInt8} {fault : MemFault}
    (failed : translate vaddr .store context memory = .error fault next) (full : bytes ≠ []) :
    writeSingly context vaddr bytes memory = .error fault next := by
  cases bytes with
  | nil => exact absurd rfl full
  | cons byte rest => exact bind_of_error (store_untranslated byte failed)

end Pages

end Singly

section Copies

variable {context : AccessContext} {vaddr : UInt64}

theorem translated_keeps {memory next : Memory} {kind : AccessKind} {paddr : UInt64} (one : OneMemory memory.bus)
    (paged : Paged memory) (translated : translate vaddr kind context memory = .ok paddr next) :
    OneMemory next.bus ∧ Paged next := by
  have kept := translate_steady Bus.oneMemory_steady vaddr kind context memory one
  have still := paged_apart.translates vaddr kind context memory paged
  rw [translated] at kept still
  exact ⟨kept, still⟩

def readPage (context : AccessContext) (vaddr : UInt64) (n : Nat) : MemoryM ByteArray := do
  let paddr ← translate vaddr .load context
  onBus (Bus.readBytes paddr n)

def writePage (context : AccessContext) (vaddr : UInt64) (bytes : ByteArray) : MemoryM Unit := do
  let paddr ← translate vaddr .store context
  onBus (Bus.writeBytes paddr bytes)

theorem readPages_next (context : AccessContext) (out : ByteArray) (vaddr : UInt64) {n : Nat} (some : n ≠ 0) :
    readPages context out vaddr n = (do
      let bytes ← readPage context vaddr (inPageCount vaddr n)
      readPages context (out ++ bytes) (vaddr + UInt64.ofNat (inPageCount vaddr n)) (n - inPageCount vaddr n)) := by
  rw [readPages, if_neg some, readPage]
  simp only [bind_assoc]

theorem writePages_next (context : AccessContext) (bytes : ByteArray) (vaddr : UInt64) {start n : Nat}
    (room : bytes.size - start = n) (some : n ≠ 0) :
    writePages context bytes vaddr start = (do
      writePage context vaddr (bytes.extract start (start + inPageCount vaddr n))
      writePages context bytes (vaddr + UInt64.ofNat (inPageCount vaddr n)) (start + inPageCount vaddr n)) := by
  rw [writePages, if_neg (by omega), room, writePage]
  simp only [bind_assoc]

section OnePage

variable {memory : Memory} (one : OneMemory memory.bus) (paged : Paged memory)

include one paged

theorem readPage_singly {n : Nat} (inside : n ≤ 4096 - vaddr.toNat % 4096) (positive : 0 < n) :
    (∃ block next, readPage context vaddr n memory = .ok block next ∧
        readSingly context vaddr n memory = .ok (listOf block) next ∧ OneMemory next.bus ∧ Paged next) ∨
      ∃ fault next, readPage context vaddr n memory = .error fault next ∧
        readSingly context vaddr n memory = .error fault next := by
  cases translated : translate vaddr .load context memory with
  | error fault next =>
    exact .inr ⟨fault, next, bind_of_error translated, readSingly_untranslated translated positive⟩
  | ok paddr next =>
    obtain ⟨still, pages⟩ := translated_keeps one paged translated
    have page := readSingly_page paged inside translated positive
    rcases Bus.readBytes_singly still (translated_bound paged translated inside) with ⟨block, copied, read⟩ | ⟨refused, failed⟩
    · exact .inl ⟨block, next, (bind_of_ok translated).trans (onBus_ok copied), page.trans (onBus_ok read), still, pages⟩
    · exact .inr ⟨_, next, (bind_of_ok translated).trans (onBus_error refused), page.trans (onBus_error failed)⟩

theorem writePage_singly {bytes : ByteArray} (inside : bytes.size ≤ 4096 - vaddr.toNat % 4096) (positive : 0 < bytes.size) :
    (∃ next, writePage context vaddr bytes memory = .ok () next ∧
        writeSingly context vaddr (listOf bytes) memory = .ok () next ∧ OneMemory next.bus ∧ Paged next) ∨
      ∃ fault next broken, writePage context vaddr bytes memory = .error fault next ∧
        writeSingly context vaddr (listOf bytes) memory = .error fault broken ∧
        next = left (translate vaddr .store context memory) := by
  have length := Bytes.length_listOf bytes
  have full : listOf bytes ≠ [] := List.length_pos_iff.mp (length ▸ positive)
  cases translated : translate vaddr .store context memory with
  | error fault next =>
    exact .inr ⟨fault, next, next, bind_of_error translated, writeSingly_untranslated translated full, rfl⟩
  | ok paddr next =>
    obtain ⟨still, pages⟩ := translated_keeps one paged translated
    have page := writeSingly_page paged (length.symm ▸ inside) translated full
    have kept := Bus.oneMemory_steady.writeBytes paddr bytes next.bus still
    rcases Bus.writeBytes_singly still (translated_bound paged translated inside) with
      ⟨bus, copied, written⟩ | ⟨refused, broken, failed⟩
    · rw [copied] at kept
      exact .inl ⟨_, (bind_of_ok translated).trans (onBus_ok copied), page.trans (onBus_ok written), kept, pages⟩
    · exact .inr ⟨_, next, _, (bind_of_ok translated).trans (onBus_error refused), page.trans (onBus_error failed), rfl⟩

end OnePage

theorem readPages_singly (n : Nat) {memory : Memory} (one : OneMemory memory.bus) (paged : Paged memory) (out : ByteArray) :
    (∃ block next, readPages context out vaddr n memory = .ok (out ++ block) next ∧
        readSingly context vaddr n memory = .ok (listOf block) next) ∨
      ∃ fault next, readPages context out vaddr n memory = .error fault next ∧
        readSingly context vaddr n memory = .error fault next := by
  induction n using Nat.strongRecOn generalizing vaddr memory out with
  | ind n ih =>
    by_cases nothing : n = 0
    · subst nothing
      rw [readPages, if_pos rfl]
      exact .inl ⟨ByteArray.empty, memory, by rw [ByteArray.append_empty]; rfl, rfl⟩
    have positive := inPageCount_pos vaddr n (Nat.pos_of_ne_zero nothing)
    have within : inPageCount vaddr n ≤ n := Nat.min_le_right _ _
    have inside : inPageCount vaddr n ≤ 4096 - vaddr.toNat % 4096 := Nat.min_le_left _ _
    have split := readSingly_append context vaddr (inPageCount vaddr n) (n - inPageCount vaddr n)
    rw [Nat.add_sub_cancel' within] at split
    rw [readPages_next context out vaddr nothing, split]
    rcases @readPage_singly context vaddr _ one paged _ inside positive with
      ⟨block, next, copied, read, still, pages⟩ | ⟨fault, next, refused, failed⟩
    · rw [bind_of_ok copied, bind_of_ok read]
      rcases @ih (n - inPageCount vaddr n) (by omega) (vaddr + UInt64.ofNat (inPageCount vaddr n)) next still pages
        (out ++ block) with ⟨others, last, rest, singly⟩ | ⟨fault, last, rest, singly⟩
      · refine .inl ⟨block ++ others, last, ?_, ?_⟩
        · rw [← ByteArray.append_assoc]
          exact rest
        · rw [bind_of_ok singly, Bytes.listOf_append]
          rfl
      · exact .inr ⟨fault, last, rest, bind_of_error singly⟩
    · exact .inr ⟨fault, next, bind_of_error refused, bind_of_error failed⟩

-- A copy that fails: so many bytes before a page are written, of the bytes in this page one cannot be, and nothing but the
-- translation of its address is done there.
structure Torn (context : AccessContext) (vaddr : UInt64) (bytes : List UInt8) (memory : Memory) (fault : MemFault)
    (last : Memory) (k : Nat) (mid : Memory) : Prop where
  before : k < bytes.length
  begins : k = 0 ∨ (vaddr + UInt64.ofNat k).toNat % 4096 = 0
  written : writeSingly context vaddr (bytes.take k) memory = .ok () mid
  broken : ∃ broken, writeSingly context (vaddr + UInt64.ofNat k)
    ((bytes.drop k).take (inPageCount (vaddr + UInt64.ofNat k) (bytes.length - k))) mid = .error fault broken
  rest : last = left (translate (vaddr + UInt64.ofNat k) .store context mid)

theorem Torn.fails {bytes : List UInt8} {memory last mid : Memory} {fault : MemFault} {k : Nat}
    (torn : Torn context vaddr bytes memory fault last k mid) :
    ∃ broken, writeSingly context vaddr bytes memory = .error fault broken := by
  obtain ⟨broken, failed⟩ := torn.broken
  have length : (bytes.take k).length = k := by
    rw [List.length_take]
    exact Nat.min_eq_left (Nat.le_of_lt torn.before)
  have split := writeSingly_append context vaddr (bytes.take k) (bytes.drop k)
  rw [List.take_append_drop, length] at split
  rw [split, bind_of_ok torn.written, ← List.take_append_drop (inPageCount (vaddr + UInt64.ofNat k) (bytes.length - k))
    (bytes.drop k), writeSingly_append]
  exact ⟨broken, bind_of_error failed⟩

theorem Torn.marked {bytes : List UInt8} {memory last mid : Memory} {fault : MemFault} {k : Nat}
    (torn : Torn context vaddr bytes memory fault last k mid) :
    Bus.Translated mid.table? [vaddr + UInt64.ofNat k] mid.bus last.bus := by
  rw [torn.rest]
  exact translate_keeps
    (fun rooted => Bus.walk_translated rooted (List.mem_singleton_self _) .store context mid.bus) (.refl mid.bus)

theorem Torn.here {bytes : List UInt8} {memory last : Memory} {fault : MemFault} (full : bytes ≠ [])
    (broken : ∃ broken, writeSingly context vaddr (bytes.take (inPageCount vaddr bytes.length)) memory = .error fault broken)
    (rest : last = left (translate vaddr .store context memory)) : Torn context vaddr bytes memory fault last 0 memory := by
  have address : vaddr + UInt64.ofNat 0 = vaddr := UInt64.add_zero vaddr
  refine ⟨List.length_pos_iff.mpr full, .inl rfl, rfl, ?_, ?_⟩
  · rw [address, List.drop_zero, Nat.sub_zero]
    exact broken
  · rw [address]
    exact rest

theorem Torn.behind {bytes : List UInt8} {memory next last mid : Memory} {fault : MemFault} {count k : Nat}
    (page : writeSingly context vaddr (bytes.take count) memory = .ok () next)
    (whole : count < bytes.length → (vaddr + UInt64.ofNat count).toNat % 4096 = 0)
    (torn : Torn context (vaddr + UInt64.ofNat count) (bytes.drop count) next fault last k mid) :
    Torn context vaddr bytes memory fault last (count + k) mid := by
  have before := torn.before
  rw [List.length_drop] at before
  have address : vaddr + UInt64.ofNat count + UInt64.ofNat k = vaddr + UInt64.ofNat (count + k) := by
    rw [UInt64.add_assoc, UInt64.ofNat_add]
  have remaining : (bytes.drop count).length - k = bytes.length - (count + k) := by
    rw [List.length_drop]
    omega
  refine ⟨by omega, .inr ?_, ?_, ?_, ?_⟩
  · rcases torn.begins with rfl | begins
    · exact whole (by omega)
    · rw [← address]
      exact begins
  · have length : (bytes.take count).length = count := by
      rw [List.length_take]
      omega
    rw [List.take_add, writeSingly_append, length, bind_of_ok page]
    exact torn.written
  · have broken := torn.broken
    rw [address, remaining, List.drop_drop] at broken
    exact broken
  · rw [← address]
    exact torn.rest

theorem whole_page {n : Nat} (more : inPageCount vaddr n < n) :
    (vaddr + UInt64.ofNat (inPageCount vaddr n)).toNat % 4096 = 0 := by
  have count : inPageCount vaddr n = 4096 - vaddr.toNat % 4096 := by
    unfold inPageCount at more ⊢
    omega
  have small : (UInt64.ofNat (4096 - vaddr.toNat % 4096)).toNat = 4096 - vaddr.toNat % 4096 :=
    UInt64.toNat_ofNat_of_lt (by change _ < 2 ^ 64; omega)
  have bound := Nat.mod_lt vaddr.toNat (show 0 < 4096 by decide)
  rw [count, UInt64.toNat_add, small]
  omega

theorem writePages_singly (bytes : ByteArray) (n : Nat) {start : Nat} (room : bytes.size - start = n) {memory : Memory}
    (one : OneMemory memory.bus) (paged : Paged memory) :
    (∃ next, writePages context bytes vaddr start memory = .ok () next ∧
        writeSingly context vaddr ((listOf bytes).drop start) memory = .ok () next) ∨
      ∃ fault last k mid, writePages context bytes vaddr start memory = .error fault last ∧
        Torn context vaddr ((listOf bytes).drop start) memory fault last k mid := by
  induction n using Nat.strongRecOn generalizing vaddr start memory with
  | ind n ih =>
    have length : ((listOf bytes).drop start).length = n := by
      rw [List.length_drop, Bytes.length_listOf, room]
    by_cases nothing : n = 0
    · rw [List.length_eq_zero_iff.mp (length.trans nothing), writePages, if_pos (by omega)]
      exact .inl ⟨memory, rfl, rfl⟩
    have positive := inPageCount_pos vaddr n (Nat.pos_of_ne_zero nothing)
    have within : inPageCount vaddr n ≤ n := Nat.min_le_right _ _
    have size : (bytes.extract start (start + inPageCount vaddr n)).size = inPageCount vaddr n := by
      rw [ByteArray.size_extract]
      omega
    have page := @writePage_singly context vaddr _ one paged (bytes.extract start (start + inPageCount vaddr n))
      (size.symm ▸ Nat.min_le_left _ _) (size.symm ▸ positive)
    rw [Bytes.listOf_extract, Nat.add_sub_cancel_left] at page
    rw [writePages_next context bytes vaddr room nothing]
    generalize rest : (listOf bytes).drop start = text at page length ⊢
    rcases page with ⟨next, copied, written, still, pages⟩ | ⟨fault, next, broken, refused, failed, left⟩
    · have first : (text.take (inPageCount vaddr n)).length = inPageCount vaddr n := by
        rw [List.length_take, length, Nat.min_eq_left within]
      have split := writeSingly_append context vaddr (text.take (inPageCount vaddr n)) (text.drop (inPageCount vaddr n))
      rw [List.take_append_drop, first] at split
      have others : (listOf bytes).drop (start + inPageCount vaddr n) = text.drop (inPageCount vaddr n) := by
        rw [← rest, List.drop_drop]
      have later := @ih (n - inPageCount vaddr n) (by omega) (vaddr + UInt64.ofNat (inPageCount vaddr n))
        (start + inPageCount vaddr n) (by omega) next still pages
      rw [others] at later
      rw [bind_of_ok copied]
      rcases later with ⟨last, copies, writes⟩ | ⟨fault, last, k, mid, copies, torn⟩
      · exact .inl ⟨last, copies, split ▸ (bind_of_ok written).trans writes⟩
      · refine .inr ⟨fault, last, _, mid, copies, torn.behind written fun more => whole_page ?_⟩
        rw [length] at more
        exact more
    · have full : text ≠ [] := List.length_pos_iff.mp (by omega)
      refine .inr ⟨fault, next, 0, memory, bind_of_error refused, .here full ⟨broken, ?_⟩ left⟩
      rw [length]
      exact failed

end Copies

/-- Over one memory, behind pages that begin where pages do, a range of virtual addresses is read as its bytes are, one at
a time: what is read, the error and what translation leaves are the same. It is written as its bytes are if all of them can
be. Otherwise the error is that of the first byte that cannot be written; the bytes in the pages before it are written, and
in its own page nothing is, but for the marks of the page table. -/
theorem copies_bytewise {memory : Memory} (one : OneMemory memory.bus) (paged : Paged memory) (context : AccessContext)
    (vaddr : UInt64) :
    (∀ n, (∃ block next, readBytes vaddr n context memory = .ok block next ∧
        readSingly context vaddr n memory = .ok (listOf block) next) ∨
      ∃ fault next, readBytes vaddr n context memory = .error fault next ∧
        readSingly context vaddr n memory = .error fault next) ∧
    ∀ bytes, (∃ next, writeBytes vaddr bytes context memory = .ok () next ∧
        writeSingly context vaddr (listOf bytes) memory = .ok () next) ∨
      ∃ fault last k mid, writeBytes vaddr bytes context memory = .error fault last ∧
        (∃ broken, writeSingly context vaddr (listOf bytes) memory = .error fault broken) ∧
        Torn context vaddr (listOf bytes) memory fault last k mid ∧
        Bus.Translated mid.table? [vaddr + UInt64.ofNat k] mid.bus last.bus := by
  refine ⟨fun n => ?_, fun bytes => ?_⟩
  · rcases @readPages_singly context vaddr n memory one paged ByteArray.empty with
      ⟨block, next, read, singly⟩ | failed
    · rw [ByteArray.empty_append] at read
      exact .inl ⟨block, next, read, singly⟩
    · exact .inr failed
  · rcases @writePages_singly context vaddr bytes _ 0 rfl memory one paged with
      copied | ⟨fault, last, k, mid, failed, torn⟩
    · exact .inl copied
    · exact .inr ⟨fault, last, k, mid, failed, torn.fails, torn, torn.marked⟩

def supervisor : AccessContext :=
  { privilege := .supervisor }

def tabled : Memory where
  bus := Bus.ofMemory 0x1ffe
    ⟨Bytes.ofList ([1, 2] ++ Bytes.littleEndian 8 0x801 ++ Bytes.littleEndian 8 0x407 ++ Bytes.littleEndian 8 0x403)⟩
  mode := .sv39
  root := 0x2000

def straddling : Memory :=
  left (translate 0x1ffe .load supervisor tabled)

theorem straddling_one : OneMemory straddling.bus :=
  translate_steady Bus.oneMemory_steady 0x1ffe .load supervisor tabled ⟨_, _, rfl, rfl⟩

theorem straddling_paged : Paged straddling :=
  (translate_paged 0x1ffe .load supervisor tabled (paged_empty _ _ _)).1

theorem copies_bytewise_straddling : ∃ last mid,
    writeBytes 0x1fff ⟨#[8, 9, 10, 11]⟩ supervisor straddling = .error .storePage last ∧
      Torn supervisor 0x1fff [8, 9, 10, 11] straddling .storePage last 1 mid := by
  have copies := (copies_bytewise straddling_one straddling_paged supervisor 0x1fff).2 ⟨#[8, 9, 10, 11]⟩
  have singly : given (writeSingly supervisor 0x1fff [8, 9, 10, 11] straddling) = .error .storePage := by decide +kernel
  rcases copies with ⟨next, _, written⟩ | ⟨fault, last, k, mid, refused, ⟨broken, failed⟩, torn, _⟩
  · rw [show writeSingly supervisor 0x1fff [8, 9, 10, 11] straddling = .ok () next from written] at singly
    cases singly
  · rw [show writeSingly supervisor 0x1fff [8, 9, 10, 11] straddling = .error fault broken from failed] at singly
    cases singly
    have page : ∀ k < 4, (0x1fff + UInt64.ofNat k : UInt64).toNat % 4096 = 0 → k = 1 := by decide
    rcases torn.begins with rfl | begins
    · have first : given (writeSingly supervisor 0x1fff [8] straddling) = .ok () := by decide +kernel
      cases show EStateM.Result.ok () straddling = .ok () mid from torn.written
      obtain ⟨later, early⟩ := torn.broken
      rw [show writeSingly supervisor 0x1fff [8] straddling = .error .storePage later from early] at first
      cases first
    · obtain rfl := page k torn.before begins
      exact ⟨last, mid, refused, torn⟩

end RvBoard.Memory
