import RvBoard.Memory.Tlb
import RvBoard.Proofs.Bus
import RvBoard.Proofs.Memory.Entry

/-!
# Page table walks

A walk either fails on the way, having done nothing but load entries, or it leads to a leaf and uses
it. The way depends on the page of the address only.
-/

set_option autoImplicit false

namespace RvBoard.Sv39

-- The entry that the table of a level has for an address.
def entryAt (vaddr : UInt64) (level : Nat) (table : UInt64) : UInt64 :=
  table + index vaddr level * 8

-- Loading entry after entry from a table leads to a leaf, and leaves the second bus.
inductive Leads (vaddr : UInt64) : Bus → Nat → UInt64 → Bus → UInt64 → Pte → Nat → Prop
  | leaf {bus next : Bus} {level : Nat} {table : UInt64} {pte : Pte}
      (read : Bus.load (entryAt vaddr level table) 3 bus = .ok pte.bits next)
      (fair : pte.isMalformed = false) (last : pte.isLeaf = true) :
      Leads vaddr bus (level + 1) table next (entryAt vaddr level table) pte level
  | down {bus mid next : Bus} {level leafLevel : Nat} {table entry : UInt64} {pte leaf : Pte}
      (read : Bus.load (entryAt vaddr level table) 3 bus = .ok pte.bits mid)
      (fair : pte.isMalformed = false) (inner : pte.isLeaf = false)
      (rest : Leads vaddr mid level pte.address next entry leaf leafLevel) :
      Leads vaddr bus (level + 1) table next entry leaf leafLevel

section Way

variable {vaddr table : UInt64} {access : AccessKind} {context : AccessContext} {level : Nat} {bus : Bus}

theorem walkFrom_unread {fault : MemFault} {next : Bus}
    (unread : Bus.load (entryAt vaddr level table) 3 bus = .error fault next) :
    walkFrom vaddr access context (level + 1) table bus = .error access.accessFault next := by
  have failed : orAccessFault access (Bus.load (entryAt vaddr level table) 3) bus = .error access.accessFault next := by
    rw [orAccessFault, unread]
  rw [walkFrom]
  exact bind_of_error failed

theorem walkFrom_read {pte : Pte} {next : Bus}
    (read : Bus.load (entryAt vaddr level table) 3 bus = .ok pte.bits next) :
    walkFrom vaddr access context (level + 1) table bus =
      if pte.isMalformed then .error access.pageFault next
      else if pte.isLeaf then useLeaf pte (entryAt vaddr level table) vaddr level access context next
      else walkFrom vaddr access context level pte.address next := by
  have loaded : orAccessFault access (Bus.load (entryAt vaddr level table) 3) bus = .ok pte.bits next := by
    rw [orAccessFault, read]
  rw [walkFrom]
  refine (bind_of_ok loaded).trans ?_
  by_cases malformed : pte.isMalformed
  · rw [if_pos malformed, if_pos malformed]
    rfl
  · rw [if_neg malformed, if_neg malformed]
    by_cases leaf : pte.isLeaf
    · rw [if_pos leaf, if_pos leaf]
      rfl
    · rw [if_neg leaf, if_neg leaf]

theorem walkFrom_leads {next : Bus} {entry : UInt64} {leaf : Pte} {leafLevel : Nat}
    (leads : Leads vaddr bus level table next entry leaf leafLevel) :
    walkFrom vaddr access context level table bus = useLeaf leaf entry vaddr leafLevel access context next := by
  induction leads with
  | leaf read fair last => rw [walkFrom_read read, fair, last, if_neg Bool.false_ne_true, if_pos rfl]
  | down read fair inner rest ih => rw [walkFrom_read read, fair, inner, if_neg Bool.false_ne_true, if_neg Bool.false_ne_true, ih]

-- Induction on the levels below the table. Whatever the loads of entries keep holds where the walk
-- stops, be it before a leaf or at one.
theorem walkFrom_cases {Holds : Bus → Prop} (kept : ∀ address bus, Holds bus → Holds (left (Bus.load address 3 bus)))
    (start : Holds bus) :
    (∃ fault next, walkFrom vaddr access context level table bus = .error fault next ∧ Holds next) ∨
    (∃ next entry leaf leafLevel, Leads vaddr bus level table next entry leaf leafLevel ∧ Holds next) := by
  induction level generalizing table bus with
  | zero => exact .inl ⟨access.pageFault, bus, rfl, start⟩
  | succ level ih =>
    have after := kept (entryAt vaddr level table) bus start
    cases read : Bus.load (entryAt vaddr level table) 3 bus with
    | error fault next =>
      rw [read] at after
      exact .inl ⟨access.accessFault, next, walkFrom_unread read, after⟩
    | ok bits next =>
      rw [read] at after
      have step := @walkFrom_read vaddr table access context level bus ⟨bits⟩ next read
      cases fair : (⟨bits⟩ : Pte).isMalformed with
      | true =>
        rw [fair, if_pos rfl] at step
        exact .inl ⟨access.pageFault, next, step, after⟩
      | false =>
        cases last : (⟨bits⟩ : Pte).isLeaf with
        | true => exact .inr ⟨next, _, ⟨bits⟩, level, .leaf read fair last, after⟩
        | false =>
          rw [fair, last, if_neg Bool.false_ne_true, if_neg Bool.false_ne_true] at step
          rcases ih after with ⟨fault, final, failed, holds⟩ | ⟨final, entry, leaf, leafLevel, rest, holds⟩
          · exact .inl ⟨fault, final, step.trans failed, holds⟩
          · exact .inr ⟨final, entry, leaf, leafLevel, .down read fair last rest, holds⟩

end Way

structure Usable (leaf : Pte) (level : Nat) (access : AccessKind) (context : AccessContext) : Prop where
  permitted : leaf.flags.permits access context = true
  straight : leaf.address &&& offsetMask level = 0

def translationOf (leaf : Pte) (vaddr : UInt64) (level : Nat) : Translation :=
  ⟨leaf.address ||| (vaddr &&& offsetMask level &&& ~~~Pte.pageMask), leaf.flags⟩

section Use

variable {leaf : Pte} {level : Nat} {access : AccessKind} {context : AccessContext}

theorem useLeaf_unusable (entry vaddr : UInt64) (bus : Bus) (unusable : ¬ Usable leaf level access context) :
    useLeaf leaf entry vaddr level access context bus = .error access.pageFault bus := by
  unfold useLeaf
  cases permitted : leaf.flags.permits access context with
  | false => rfl
  | true =>
    by_cases straight : leaf.address &&& offsetMask level = 0
    · exact False.elim (unusable ⟨permitted, straight⟩)
    · have crooked : (leaf.address &&& offsetMask level != 0) = true := bne_iff_ne.mpr straight
      simp only [crooked, Bool.not_true, Bool.false_eq_true, if_false, if_true]
      rfl

theorem useLeaf_usable (entry vaddr : UInt64) (bus : Bus) (usable : Usable leaf level access context) :
    useLeaf leaf entry vaddr level access context bus =
      (do
        if leaf.mark (PteFlags.marks access) != leaf then
          orAccessFault access (Bus.store entry 3 (leaf.mark (PteFlags.marks access)).bits)
        return translationOf (leaf.mark (PteFlags.marks access)) vaddr level : BusM Translation) bus := by
  have straight : (leaf.address &&& offsetMask level != 0) = false := by
    rw [usable.straight]
    rfl
  unfold useLeaf
  simp only [usable.permitted, straight, Bool.not_true, Bool.false_eq_true, if_false]
  rfl

theorem useLeaf_marked (entry vaddr : UInt64) (bus : Bus) (usable : Usable leaf level access context)
    (present : leaf.mark (PteFlags.marks access) = leaf) :
    useLeaf leaf entry vaddr level access context bus = .ok (translationOf leaf vaddr level) bus := by
  rw [useLeaf_usable entry vaddr bus usable, present, bne_self_eq_false]
  rfl

theorem useLeaf_marks (entry vaddr : UInt64) {bus next : Bus} (usable : Usable leaf level access context)
    (absent : leaf.mark (PteFlags.marks access) ≠ leaf)
    (stored : Bus.store entry 3 (leaf.mark (PteFlags.marks access)).bits bus = .ok () next) :
    useLeaf leaf entry vaddr level access context bus =
      .ok (translationOf (leaf.mark (PteFlags.marks access)) vaddr level) next := by
  have done : orAccessFault access (Bus.store entry 3 (leaf.mark (PteFlags.marks access)).bits) bus = .ok () next := by
    rw [orAccessFault, stored]
  rw [useLeaf_usable entry vaddr bus usable, if_pos (bne_iff_ne.mpr absent)]
  exact bind_of_ok done

theorem useLeaf_unmarkable (entry vaddr : UInt64) {bus next : Bus} {fault : MemFault}
    (usable : Usable leaf level access context) (absent : leaf.mark (PteFlags.marks access) ≠ leaf)
    (failed : Bus.store entry 3 (leaf.mark (PteFlags.marks access)).bits bus = .error fault next) :
    useLeaf leaf entry vaddr level access context bus = .error access.accessFault next := by
  have undone : orAccessFault access (Bus.store entry 3 (leaf.mark (PteFlags.marks access)).bits) bus =
      .error access.accessFault next := by
    rw [orAccessFault, failed]
  rw [useLeaf_usable entry vaddr bus usable, if_pos (bne_iff_ne.mpr absent)]
  exact bind_of_error undone

inductive Marking (access : AccessKind) (entry : UInt64) (leaf : Pte) : Bus → Bus → Prop
  | there {bus : Bus} (present : leaf.mark (PteFlags.marks access) = leaf) : Marking access entry leaf bus bus
  | set {bus next : Bus} (absent : leaf.mark (PteFlags.marks access) ≠ leaf)
      (stored : Bus.store entry 3 (leaf.mark (PteFlags.marks access)).bits bus = .ok () next) :
      Marking access entry leaf bus next

theorem useLeaf_ok_iff {entry vaddr : UInt64} {bus next : Bus} {translation : Translation} :
    useLeaf leaf entry vaddr level access context bus = .ok translation next ↔
      Usable leaf level access context ∧ translation = translationOf (leaf.mark (PteFlags.marks access)) vaddr level ∧
        Marking access entry leaf bus next := by
  constructor
  · intro used
    by_cases usable : Usable leaf level access context
    · refine ⟨usable, ?_⟩
      by_cases present : leaf.mark (PteFlags.marks access) = leaf
      · cases (useLeaf_marked entry vaddr bus usable present).symm.trans used
        exact ⟨by rw [present], .there present⟩
      · cases stored : Bus.store entry 3 (leaf.mark (PteFlags.marks access)).bits bus with
        | ok done last =>
          cases (useLeaf_marks entry vaddr usable present stored).symm.trans used
          exact ⟨rfl, .set present stored⟩
        | error fault last => cases (useLeaf_unmarkable entry vaddr usable present stored).symm.trans used
    · cases (useLeaf_unusable entry vaddr bus usable).symm.trans used
  · rintro ⟨usable, rfl, marking⟩
    cases marking with
    | there present => rw [useLeaf_marked entry vaddr bus usable present, present]
    | set absent stored => exact useLeaf_marks entry vaddr usable absent stored

end Use

theorem walk_canonical (root : UInt64) {vaddr : UInt64} (canonical : isCanonical vaddr = true) (access : AccessKind)
    (context : AccessContext) (bus : Bus) :
    walk root vaddr access context bus = walkFrom vaddr access context levels root bus := by
  rw [walk, canonical]
  rfl

theorem walk_uncanonical (root : UInt64) {vaddr : UInt64} (outside : isCanonical vaddr = false) (access : AccessKind)
    (context : AccessContext) (bus : Bus) : walk root vaddr access context bus = .error access.pageFault bus := by
  rw [walk, outside]
  rfl

theorem walk_cases {Holds : Bus → Prop} (kept : ∀ address bus, Holds bus → Holds (left (Bus.load address 3 bus)))
    (root vaddr : UInt64) (access : AccessKind) (context : AccessContext) {bus : Bus} (start : Holds bus) :
    (∃ fault next, walk root vaddr access context bus = .error fault next ∧ Holds next) ∨
    (∃ next entry leaf level, isCanonical vaddr = true ∧ Leads vaddr bus levels root next entry leaf level ∧
      Usable leaf level access context ∧ Holds next ∧
      walk root vaddr access context bus = useLeaf leaf entry vaddr level access context next) := by
  cases canonical : isCanonical vaddr with
  | false => exact .inl ⟨access.pageFault, bus, walk_uncanonical root canonical access context bus, start⟩
  | true =>
    rw [walk_canonical root canonical]
    rcases walkFrom_cases kept start with failed | ⟨next, entry, leaf, level, leads, holds⟩
    · exact .inl failed
    · by_cases usable : Usable leaf level access context
      · exact .inr ⟨next, entry, leaf, level, rfl, leads, usable, holds, walkFrom_leads leads⟩
      · exact .inl ⟨access.pageFault, next,
          (walkFrom_leads leads).trans (useLeaf_unusable entry vaddr next usable), holds⟩

theorem walk_ok_iff {root vaddr : UInt64} {access : AccessKind} {context : AccessContext} {bus next : Bus}
    {translation : Translation} :
    walk root vaddr access context bus = .ok translation next ↔
      isCanonical vaddr = true ∧ ∃ mid entry leaf level, Leads vaddr bus levels root mid entry leaf level ∧
        Usable leaf level access context ∧ translation = translationOf (leaf.mark (PteFlags.marks access)) vaddr level ∧
        Marking access entry leaf mid next := by
  constructor
  · intro walked
    rcases @walk_cases (fun _ => True) (fun _ _ _ => trivial) root vaddr access context bus trivial with
      ⟨fault, last, failed, _⟩ | ⟨mid, entry, leaf, level, canonical, leads, _, _, used⟩
    · cases failed.symm.trans walked
    · exact ⟨canonical, mid, entry, leaf, level, leads, useLeaf_ok_iff.mp (used.symm.trans walked)⟩
  · rintro ⟨canonical, mid, entry, leaf, level, leads, used⟩
    rw [walk_canonical root canonical, walkFrom_leads leads]
    exact useLeaf_ok_iff.mpr used

theorem toNat_shift {level : Nat} (inside : level < 3) : (UInt64.ofNat (12 + 9 * level)).toNat = 12 + 9 * level :=
  UInt64.toNat_ofNat_of_lt (by change 12 + 9 * level < 2 ^ 64; omega)

theorem index_page {a b : UInt64} (same : Tlb.pageOf a = Tlb.pageOf b) (level : Nat) (inside : level < 3) :
    index a level = index b level := by
  have bound := toNat_shift inside
  rw [index, index, shiftRight_congr (by omega)]
  intro i above
  exact bits_of_shiftRight (n := Pte.pageShift) (by decide) same i (by change 12 ≤ i; omega)

theorem above_page {a b : UInt64} (same : Tlb.pageOf a = Tlb.pageOf b) (mask : UInt64) :
    a &&& mask &&& ~~~Pte.pageMask = b &&& mask &&& ~~~Pte.pageMask := by
  apply word_eq_of_bits
  intro i inside
  simp only [UInt64.toBitVec_and, BitVec.getLsbD_and]
  by_cases high : 12 ≤ i
  · rw [bits_of_shiftRight (n := Pte.pageShift) (by decide) same i high]
  · have below : (~~~Pte.pageMask).toBitVec.getLsbD i = false := by
      have small : i < 12 := by omega
      revert small
      revert i
      decide
    rw [below, Bool.and_false, Bool.and_false]

theorem isCanonical_page {a b : UInt64} (same : Tlb.pageOf a = Tlb.pageOf b) : isCanonical a = isCanonical b := by
  have upper : a.toInt64 >>> 38 = b.toInt64 >>> 38 := by
    apply Int64.toBitVec_inj.mp
    apply BitVec.eq_of_getLsbD_eq
    intro i inside
    have amount : ((38 : Int64).toBitVec.smod 64).toNat = 38 := by decide
    have bit : ∀ k, 12 ≤ k → a.toBitVec.getLsbD k = b.toBitVec.getLsbD k :=
      bits_of_shiftRight (n := Pte.pageShift) (by decide) same
    simp only [Int64.toBitVec_shiftRight, UInt64.toBitVec_toInt64, BitVec.sshiftRight', amount,
      BitVec.getLsbD_sshiftRight, BitVec.msb_eq_getLsbD_last]
    rw [bit (38 + i) (by omega), bit (64 - 1) (by omega)]
  rw [isCanonical, isCanonical, upper]

theorem useLeaf_page {a b : UInt64} (same : Tlb.pageOf a = Tlb.pageOf b) (leaf : Pte) (entry : UInt64) (level : Nat)
    (access : AccessKind) (context : AccessContext) :
    useLeaf leaf entry a level access context = useLeaf leaf entry b level access context := by
  unfold useLeaf
  simp only [above_page same (offsetMask level)]

theorem walkFrom_page {a b : UInt64} (same : Tlb.pageOf a = Tlb.pageOf b) (access : AccessKind) (context : AccessContext)
    (level : Nat) (inside : level ≤ levels) :
    walkFrom a access context level = walkFrom b access context level := by
  induction level with
  | zero => rfl
  | succ level ih =>
    funext table
    rw [walkFrom, walkFrom, index_page same level inside, ih (Nat.le_of_succ_le inside)]
    simp only [useLeaf_page same]

theorem walk_page (root : UInt64) {a b : UInt64} (same : Tlb.pageOf a = Tlb.pageOf b) (access : AccessKind)
    (context : AccessContext) : walk root a access context = walk root b access context := by
  rw [walk, walk, isCanonical_page same, walkFrom_page same access context levels (Nat.le_refl _)]

theorem leads_page {a b : UInt64} (same : Tlb.pageOf a = Tlb.pageOf b) {bus next : Bus} {level leafLevel : Nat}
    {table entry : UInt64} {leaf : Pte} (inside : level ≤ levels)
    (leads : Leads a bus level table next entry leaf leafLevel) : Leads b bus level table next entry leaf leafLevel := by
  have here : ∀ {level : Nat} (table : UInt64), level + 1 ≤ levels → entryAt a level table = entryAt b level table :=
    fun table inside => by rw [entryAt, entryAt, index_page same _ inside]
  induction leads with
  | leaf read fair last =>
    rw [here _ inside] at read ⊢
    exact .leaf read fair last
  | down read fair inner rest ih =>
    rw [here _ inside] at read
    exact .down read fair inner (ih (Nat.le_of_succ_le inside))

theorem translationOf_page {a b : UInt64} (same : Tlb.pageOf a = Tlb.pageOf b) (leaf : Pte) (level : Nat) :
    translationOf leaf a level = translationOf leaf b level := by
  rw [translationOf, translationOf, above_page same]

theorem walk_keeps {Holds : Bus → Prop} (loads : ∀ address bus, Holds bus → Holds (left (Bus.load address 3 bus)))
    (stores : ∀ address value bus, Holds bus → Holds (left (Bus.store address 3 value bus))) (root vaddr : UInt64)
    (access : AccessKind) (context : AccessContext) {bus : Bus} (start : Holds bus) :
    Holds (left (walk root vaddr access context bus)) := by
  rcases walk_cases loads root vaddr access context start with
    ⟨fault, next, failed, holds⟩ | ⟨next, entry, leaf, level, _, _, usable, holds, used⟩
  · rw [failed]
    exact holds
  · have after := stores entry (leaf.mark (PteFlags.marks access)).bits next holds
    rw [used]
    by_cases marked : leaf.mark (PteFlags.marks access) = leaf
    · rw [useLeaf_marked entry vaddr next usable marked]
      exact holds
    · cases stored : Bus.store entry 3 (leaf.mark (PteFlags.marks access)).bits next with
      | ok _ last =>
        rw [stored] at after
        rw [useLeaf_marks entry vaddr usable marked stored]
        exact after
      | error fault last =>
        rw [stored] at after
        rw [useLeaf_unmarkable entry vaddr usable marked stored]
        exact after

end RvBoard.Sv39
