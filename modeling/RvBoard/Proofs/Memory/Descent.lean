import RvBoard.Proofs.Memory.Layout
import RvBoard.Proofs.Memory.Remarks

/-!
# The Sv39 algorithm

A walk descends through pointers from the page that `satp` names. It finds a leaf, or an entry that
cannot be loaded, or an entry that leads nowhere. A leaf that suits the access gives the page, and
gains the marks of the access; this is all that a walk changes in memory.
-/

set_option autoImplicit false

namespace RvBoard

open Bus

namespace Sv39

inductive Descends (vaddr : UInt64) (root : Nat) (bus : Bus) : Nat → Nat → Bus → Prop
  | root : Descends vaddr root bus 2 root bus
  | down {level table : Nat} {mid next : Bus} {pte : Pte} (way : Descends vaddr root bus (level + 1) table mid)
      (read : load (UInt64.ofNat (slot table vaddr (level + 1))) 3 mid = .ok pte.bits next) (pointer : pte.Pointer) :
      Descends vaddr root bus level pte.pageNumber next

inductive Finds (vaddr : UInt64) (root : Nat) (bus : Bus) : Nat → UInt64 → Pte → Bus → Prop
  | leaf {level table : Nat} {mid next : Bus} {leaf : Pte} (way : Descends vaddr root bus level table mid)
      (read : load (UInt64.ofNat (slot table vaddr level)) 3 mid = .ok leaf.bits next) (last : leaf.Leaf) :
      Finds vaddr root bus level (UInt64.ofNat (slot table vaddr level)) leaf next

-- The entry of the last table cannot be loaded.
inductive Blocked (vaddr : UInt64) (root : Nat) (bus : Bus) : Prop
  | unread {level table : Nat} {mid next : Bus} {fault : MemFault} (way : Descends vaddr root bus level table mid)
      (failed : load (UInt64.ofNat (slot table vaddr level)) 3 mid = .error fault next) : Blocked vaddr root bus

def Frozen (kind : AccessKind) (entry : UInt64) (leaf : Pte) (bus : Bus) : Prop :=
  leaf.touched kind ≠ leaf ∧ ∃ fault next, store entry 3 (leaf.touched kind).bits bus = .error fault next

section Way

variable {vaddr entry : UInt64} {root level table : Nat} {bus mid next : Bus} {leaf : Pte}

theorem Descends.level_lt (way : Descends vaddr root bus level table mid) : level < 3 := by
  induction way with
  | root => decide
  | down way read pointer ih => omega

theorem Descends.table_lt (small : root < 2 ^ 44) (way : Descends vaddr root bus level table mid) : table < 2 ^ 44 := by
  cases way with
  | root => exact small
  | down way read pointer => exact Pte.pageNumber_lt _

theorem Descends.confined (region : Cell → Prop) (way : Descends vaddr root bus level table mid) : Confined region bus mid := by
  induction way with
  | root => exact .refl region bus
  | down way read pointer ih => exact ih.trans (loaded_confined region read)

theorem Finds.level_lt (finds : Finds vaddr root bus level entry leaf next) : level < 3 := by
  cases finds with
  | leaf way read last => exact way.level_lt

theorem Finds.read (finds : Finds vaddr root bus level entry leaf next) : ∃ mid, load entry 3 mid = .ok leaf.bits next := by
  cases finds with
  | leaf way read last => exact ⟨_, read⟩

theorem Finds.confined (region : Cell → Prop) (finds : Finds vaddr root bus level entry leaf next) :
    Confined region bus next := by
  cases finds with
  | leaf way read last => exact (way.confined region).trans (loaded_confined region read)

variable (kind : AccessKind) (context : AccessContext)

theorem Descends.walkFrom_eq (way : Descends vaddr root bus level table mid) :
    walkFrom vaddr kind context levels (UInt64.ofNat (root * 4096)) bus =
      walkFrom vaddr kind context (level + 1) (UInt64.ofNat (table * 4096)) mid := by
  induction way with
  | root => rfl
  | @down level table mid next pte way read pointer ih =>
    obtain ⟨fair, inner⟩ := pte.pointer_iff.mp pointer
    rw [← entryAt_slot way.level_lt] at read
    rw [ih, walkFrom_read read, fair, inner, if_neg Bool.false_ne_true, if_neg Bool.false_ne_true, pte.address_eq]

theorem Finds.walkFrom_eq (finds : Finds vaddr root bus level entry leaf next) :
    walkFrom vaddr kind context levels (UInt64.ofNat (root * 4096)) bus =
      useLeaf leaf entry vaddr level kind context next := by
  cases finds with
  | leaf way read last =>
    obtain ⟨fair, isLeaf⟩ := leaf.leaf_iff.mp last
    rw [← entryAt_slot way.level_lt] at read ⊢
    rw [way.walkFrom_eq, walkFrom_read read, fair, isLeaf, if_neg Bool.false_ne_true, if_pos rfl]

theorem Blocked.walkFrom_error (blocked : Blocked vaddr root bus) :
    ∃ next, walkFrom vaddr kind context levels (UInt64.ofNat (root * 4096)) bus = .error kind.accessFault next ∧
      Confined (fun _ => False) bus next := by
  obtain ⟨way, failed⟩ := blocked
  have confined := unloaded_confined (fun _ => False) failed
  rw [← entryAt_slot way.level_lt] at failed
  exact ⟨_, (way.walkFrom_eq kind context).trans (walkFrom_unread failed), (way.confined _).trans confined⟩

theorem Descends.reads (way : Descends vaddr root bus level table mid) :
    Blocked vaddr root bus ∨ (∃ level entry leaf next, Finds vaddr root bus level entry leaf next) ∨
      (∃ (pte : Pte) (next : Bus), load (UInt64.ofNat (slot table vaddr level)) 3 mid = .ok pte.bits next ∧ pte.Pointer ∧
        walkFrom vaddr kind context levels (UInt64.ofNat (root * 4096)) bus =
          walkFrom vaddr kind context level (UInt64.ofNat (pte.pageNumber * 4096)) next) ∨
      ∃ next, walkFrom vaddr kind context levels (UInt64.ofNat (root * 4096)) bus = .error kind.pageFault next ∧
        Confined (fun _ => False) bus next := by
  cases read : load (UInt64.ofNat (slot table vaddr level)) 3 mid with
  | error fault next => exact .inl (.unread way read)
  | ok bits next =>
    right
    have confined := (way.confined (fun _ => False)).trans (loaded_confined _ read)
    have step := way.walkFrom_eq kind context
    rw [← entryAt_slot way.level_lt] at read
    rw [@walkFrom_read vaddr _ kind context level mid ⟨bits⟩ next read] at step
    rw [entryAt_slot way.level_lt] at read
    by_cases fair : (⟨bits⟩ : Pte).isMalformed = false
    · by_cases last : (⟨bits⟩ : Pte).isLeaf = true
      · exact .inl ⟨level, _, ⟨bits⟩, next, .leaf way read ((Pte.leaf_iff _).mpr ⟨fair, last⟩)⟩
      · rw [fair, if_neg Bool.false_ne_true, if_neg last, Pte.address_eq] at step
        exact .inr (.inl ⟨⟨bits⟩, next, rfl, (Pte.pointer_iff _).mpr ⟨fair, by simpa using last⟩, step⟩)
    · rw [if_pos (by simpa using fair)] at step
      exact .inr (.inr ⟨next, step, confined⟩)

theorem Descends.outcome (way : Descends vaddr root bus level table mid) :
    Blocked vaddr root bus ∨ (∃ level entry leaf next, Finds vaddr root bus level entry leaf next) ∨
      ∃ next, walkFrom vaddr kind context levels (UInt64.ofNat (root * 4096)) bus = .error kind.pageFault next ∧
        Confined (fun _ => False) bus next := by
  induction level generalizing table mid with
  | zero =>
    rcases way.reads kind context with blocked | found | ⟨pte, next, read, pointer, goesOn⟩ | lost
    · exact .inl blocked
    · exact .inr (.inl found)
    · exact .inr (.inr ⟨next, goesOn, (way.confined _).trans (loaded_confined _ read)⟩)
    · exact .inr (.inr lost)
  | succ level ih =>
    rcases way.reads kind context with blocked | found | ⟨pte, next, read, pointer, _⟩ | lost
    · exact .inl blocked
    · exact .inr (.inl found)
    · exact ih (.down way read pointer)
    · exact .inr (.inr lost)

end Way

section Leaf

variable {vaddr entry : UInt64} {level : Nat} {kind : AccessKind} {context : AccessContext} {leaf : Pte} {bus mid next : Bus}

theorem mapped_store (mapped : bus.Mapped entry 3) (pte : Pte) :
    ∃ next, store entry 3 pte.bits bus = .ok () next ∧ next.Shows entry 3 pte.bits := by
  obtain ⟨next, stored, shows, _⟩ := mapped.store pte.bits.toNat_lt
  exact ⟨next, stored, shows⟩

theorem not_frozen (mapped : bus.Mapped entry 3) : ¬ Frozen kind entry leaf bus := by
  rintro ⟨_, fault, next, failed⟩
  obtain ⟨other, stored, _⟩ := mapped_store mapped (leaf.touched kind)
  cases failed.symm.trans stored

theorem Marking.shows (marking : Marking kind entry leaf mid next) (read : load entry 3 bus = .ok leaf.bits mid)
    (mapped : mid.Mapped entry 3) : next.Shows entry 3 (leaf.touched kind).bits := by
  cases marking with
  | there present =>
    obtain ⟨window, memory, inside⟩ := mapped
    rw [← leaf.mark_touched, present]
    exact ⟨window, memory, inside, (loaded_word read inside).symm⟩
  | set absent stored =>
    obtain ⟨other, done, shows⟩ := mapped_store mapped (leaf.touched kind)
    rw [leaf.mark_touched] at stored
    cases done.symm.trans stored
    exact shows

theorem useLeaf_cases (inside : level < 3) (vaddr entry : UInt64) (leaf : Pte) (kind : AccessKind) (context : AccessContext)
    (bus : Bus) :
    (¬ Suits leaf level kind context ∧ useLeaf leaf entry vaddr level kind context bus = .error kind.pageFault bus) ∨
    (Suits leaf level kind context ∧ Frozen kind entry leaf bus ∧
      ∃ next, Confined (fun _ => False) bus next ∧
        useLeaf leaf entry vaddr level kind context bus = .error kind.accessFault next) ∨
    (Suits leaf level kind context ∧ ¬ Frozen kind entry leaf bus ∧
      ∃ next, useLeaf leaf entry vaddr level kind context bus = .ok (translationOf (leaf.touched kind) vaddr level) next ∧
        Marking kind entry leaf bus next) := by
  by_cases suits : Suits leaf level kind context
  · have usable := (usable_iff inside leaf kind context).mpr suits
    right
    by_cases frozen : Frozen kind entry leaf bus
    · obtain ⟨lacks, fault, next, failed⟩ := frozen
      have absent := lacks
      have unmarkable := failed
      rw [← leaf.mark_touched] at absent unmarkable
      exact .inl ⟨suits, ⟨lacks, fault, next, failed⟩, next, unstored_confined _ failed,
        useLeaf_unmarkable entry vaddr usable absent unmarkable⟩
    · refine .inr ⟨suits, frozen, ?_⟩
      rw [← leaf.mark_touched]
      by_cases present : leaf.mark (PteFlags.marks kind) = leaf
      · refine ⟨bus, ?_, .there present⟩
        rw [useLeaf_marked entry vaddr bus usable present, present]
      · cases stored : store entry 3 (leaf.mark (PteFlags.marks kind)).bits bus with
        | ok done next => exact ⟨next, useLeaf_marks entry vaddr usable present stored, .set present stored⟩
        | error fault next =>
          rw [leaf.mark_touched] at present stored
          exact absurd ⟨present, fault, next, stored⟩ frozen
  · have unusable := fun usable => suits ((usable_iff inside leaf kind context).mp usable)
    exact .inl ⟨suits, useLeaf_unusable entry vaddr bus unusable⟩

end Leaf

-- What the walk of an address does, as Sv39 has it.
structure Follows (satp vaddr : UInt64) (kind : AccessKind) (context : AccessContext) (bus : Bus) : Prop where
  -- It succeeds when the address is canonical and the way leads to a leaf that suits and takes its marks.
  succeeds : (∃ translation next, walk (Memory.rootOf satp) vaddr kind context bus = .ok translation next) ↔
    Canonical vaddr ∧ ∃ level entry leaf mid, Finds vaddr (Memory.rootPage satp) bus level entry leaf mid ∧
      Suits leaf level kind context ∧ ¬ Frozen kind entry leaf mid
  -- The page and the flags are those of the leaf, which has its marks afterwards. Nothing else has changed.
  translates : ∀ {translation : Translation} {next mid : Bus} {level : Nat} {entry : UInt64} {leaf : Pte},
    walk (Memory.rootOf satp) vaddr kind context bus = .ok translation next →
    Finds vaddr (Memory.rootPage satp) bus level entry leaf mid →
      translation.page.toNat = (leaf.pageNumber + vaddr.toNat / 4096 % 2 ^ (9 * level)) * 4096 ∧
      translation.flags = (leaf.touched kind).flags ∧ Confined (bus.FlagsOf entry) bus next ∧
      (bus.Mapped entry 3 → next.Shows entry 3 (leaf.touched kind).bits)
  -- Any leaf in memory takes its marks.
  takes : ∀ {mid : Bus} {level : Nat} {entry : UInt64} {leaf : Pte},
    Finds vaddr (Memory.rootPage satp) bus level entry leaf mid → bus.Mapped entry 3 → ¬ Frozen kind entry leaf mid
  -- It fails with one of two faults, and has changed nothing.
  fails : ∀ {fault : MemFault} {next : Bus}, walk (Memory.rootOf satp) vaddr kind context bus = .error fault next →
    (fault = kind.accessFault ∨ fault = kind.pageFault) ∧ Confined (fun _ => False) bus next
  -- The fault is an access fault when an entry cannot be loaded, or a leaf that suits cannot be marked.
  denied : (∃ next, walk (Memory.rootOf satp) vaddr kind context bus = .error kind.accessFault next) ↔
    Canonical vaddr ∧ (Blocked vaddr (Memory.rootPage satp) bus ∨
      ∃ level entry leaf mid, Finds vaddr (Memory.rootPage satp) bus level entry leaf mid ∧
        Suits leaf level kind context ∧ Frozen kind entry leaf mid)
  -- Entries lie at addresses of at most 56 bits.
  addresses : ∀ {mid : Bus} {level table : Nat}, Descends vaddr (Memory.rootPage satp) bus level table mid →
    (entryAt vaddr level (UInt64.ofNat (table * 4096))).toNat = slot table vaddr level ∧
      slot table vaddr level + 8 ≤ 2 ^ 56

section Algorithm

variable (satp vaddr : UInt64) (kind : AccessKind) (context : AccessContext) (bus : Bus)

inductive Ends : Prop
  | uncanonical (outside : ¬ Canonical vaddr)
      (ends : walk (Memory.rootOf satp) vaddr kind context bus = .error kind.pageFault bus)
  | blocked {next : Bus} (canonical : Canonical vaddr) (blocked : Blocked vaddr (Memory.rootPage satp) bus)
      (same : Confined (fun _ => False) bus next)
      (ends : walk (Memory.rootOf satp) vaddr kind context bus = .error kind.accessFault next)
  | lost {next : Bus} (canonical : Canonical vaddr) (same : Confined (fun _ => False) bus next)
      (ends : walk (Memory.rootOf satp) vaddr kind context bus = .error kind.pageFault next)
  | found {level : Nat} {entry : UInt64} {leaf : Pte} {mid : Bus} (canonical : Canonical vaddr)
      (finds : Finds vaddr (Memory.rootPage satp) bus level entry leaf mid)

variable {satp vaddr bus}

theorem Finds.walk_eq {level : Nat} {entry : UInt64} {leaf : Pte} {mid : Bus} (canonical : Canonical vaddr)
    (finds : Finds vaddr (Memory.rootPage satp) bus level entry leaf mid) :
    walk (Memory.rootOf satp) vaddr kind context bus = useLeaf leaf entry vaddr level kind context mid := by
  rw [walk_canonical _ ((isCanonical_iff vaddr).mpr canonical), Memory.rootOf_page, finds.walkFrom_eq]

theorem Blocked.walk_error (canonical : Canonical vaddr) (blocked : Blocked vaddr (Memory.rootPage satp) bus) :
    ∃ next, walk (Memory.rootOf satp) vaddr kind context bus = .error kind.accessFault next ∧
      Confined (fun _ => False) bus next := by
  rw [walk_canonical _ ((isCanonical_iff vaddr).mpr canonical), Memory.rootOf_page]
  exact blocked.walkFrom_error kind context

variable (satp vaddr bus)

theorem walk_ends : Ends satp vaddr kind context bus := by
  by_cases canonical : Canonical vaddr
  · have start : Descends vaddr (Memory.rootPage satp) bus 2 (Memory.rootPage satp) bus := .root
    rcases start.outcome kind context with blocked | ⟨level, entry, leaf, mid, finds⟩ | ⟨next, lost, same⟩
    · obtain ⟨next, ends, same⟩ := blocked.walk_error kind context canonical
      exact .blocked canonical blocked same ends
    · exact .found canonical finds
    · rw [← Memory.rootOf_page, ← walk_canonical _ ((isCanonical_iff vaddr).mpr canonical)] at lost
      exact .lost canonical same lost
  · have outside : isCanonical vaddr = false := by
      rw [← Bool.not_eq_true, isCanonical_iff]
      exact canonical
    exact .uncanonical canonical (walk_uncanonical _ outside kind context bus)

theorem walk_ok_found : (∃ translation next, walk (Memory.rootOf satp) vaddr kind context bus = .ok translation next) ↔
    Canonical vaddr ∧ ∃ level entry leaf mid, Finds vaddr (Memory.rootPage satp) bus level entry leaf mid ∧
      Suits leaf level kind context ∧ ¬ Frozen kind entry leaf mid := by
  constructor
  · rintro ⟨translation, next, walked⟩
    cases walk_ends satp vaddr kind context bus with
    | uncanonical outside ends => cases walked.symm.trans ends
    | blocked canonical blocked same ends => cases walked.symm.trans ends
    | lost canonical same ends => cases walked.symm.trans ends
    | @found level entry leaf mid canonical finds =>
      rw [finds.walk_eq kind context canonical] at walked
      rcases useLeaf_cases finds.level_lt vaddr entry leaf kind context mid with
        ⟨_, failed⟩ | ⟨_, _, last, _, failed⟩ | ⟨suits, free, _⟩
      · cases walked.symm.trans failed
      · cases walked.symm.trans failed
      · exact ⟨canonical, level, entry, leaf, mid, finds, suits, free⟩
  · rintro ⟨canonical, level, entry, leaf, mid, finds, suits, free⟩
    rw [finds.walk_eq kind context canonical]
    rcases useLeaf_cases finds.level_lt vaddr entry leaf kind context mid with
      ⟨unsuited, _⟩ | ⟨_, frozen, _⟩ | ⟨_, _, next, used, _⟩
    · exact absurd suits unsuited
    · exact absurd frozen free
    · exact ⟨_, next, used⟩

theorem walk_denied : (∃ next, walk (Memory.rootOf satp) vaddr kind context bus = .error kind.accessFault next) ↔
    Canonical vaddr ∧ (Blocked vaddr (Memory.rootPage satp) bus ∨
      ∃ level entry leaf mid, Finds vaddr (Memory.rootPage satp) bus level entry leaf mid ∧
        Suits leaf level kind context ∧ Frozen kind entry leaf mid) := by
  constructor
  · rintro ⟨next, walked⟩
    -- No other end has this fault.
    have other : ∀ last, walk (Memory.rootOf satp) vaddr kind context bus ≠ .error kind.pageFault last := by
      intro last ends
      injection walked.symm.trans ends with fault
      exact kind.faults_differ fault
    cases walk_ends satp vaddr kind context bus with
    | uncanonical outside ends => exact absurd ends (other _)
    | blocked canonical blocked same ends => exact ⟨canonical, .inl blocked⟩
    | lost canonical same ends => exact absurd ends (other _)
    | @found level entry leaf mid canonical finds =>
      rw [finds.walk_eq kind context canonical] at walked other
      rcases useLeaf_cases finds.level_lt vaddr entry leaf kind context mid with
        ⟨_, failed⟩ | ⟨suits, frozen, _⟩ | ⟨_, _, last, used, _⟩
      · exact absurd failed (other _)
      · exact ⟨canonical, .inr ⟨level, entry, leaf, mid, finds, suits, frozen⟩⟩
      · cases walked.symm.trans used
  · rintro ⟨canonical, blocked | ⟨level, entry, leaf, mid, finds, suits, frozen⟩⟩
    · obtain ⟨next, ends, _⟩ := blocked.walk_error kind context canonical
      exact ⟨next, ends⟩
    · rw [finds.walk_eq kind context canonical]
      rcases useLeaf_cases finds.level_lt vaddr entry leaf kind context mid with
        ⟨unsuited, _⟩ | ⟨_, _, next, _, failed⟩ | ⟨_, free, _⟩
      · exact absurd suits unsuited
      · exact ⟨next, failed⟩
      · exact absurd frozen free

variable {satp vaddr kind context bus}

theorem walk_failed {fault : MemFault} {next : Bus}
    (walked : walk (Memory.rootOf satp) vaddr kind context bus = .error fault next) :
    (fault = kind.accessFault ∨ fault = kind.pageFault) ∧ Confined (fun _ => False) bus next := by
  cases walk_ends satp vaddr kind context bus with
  | uncanonical outside ends =>
    cases walked.symm.trans ends
    exact ⟨.inr rfl, .refl _ bus⟩
  | blocked canonical blocked same ends =>
    cases walked.symm.trans ends
    exact ⟨.inl rfl, same⟩
  | lost canonical same ends =>
    cases walked.symm.trans ends
    exact ⟨.inr rfl, same⟩
  | @found level entry leaf mid canonical finds =>
    rw [finds.walk_eq kind context canonical] at walked
    rcases useLeaf_cases finds.level_lt vaddr entry leaf kind context mid with
      ⟨_, failed⟩ | ⟨_, _, last, same, failed⟩ | ⟨_, _, last, used, _⟩
    · cases walked.symm.trans failed
      exact ⟨.inr rfl, finds.confined _⟩
    · cases walked.symm.trans failed
      exact ⟨.inl rfl, (finds.confined _).trans same⟩
    · cases walked.symm.trans used

theorem Finds.translates {translation : Translation} {next mid : Bus} {level : Nat} {entry : UInt64} {leaf : Pte}
    (walked : walk (Memory.rootOf satp) vaddr kind context bus = .ok translation next)
    (finds : Finds vaddr (Memory.rootPage satp) bus level entry leaf mid) :
    translation.page.toNat = (leaf.pageNumber + vaddr.toNat / 4096 % 2 ^ (9 * level)) * 4096 ∧
      translation.flags = (leaf.touched kind).flags ∧ Confined (bus.FlagsOf entry) bus next ∧
      (bus.Mapped entry 3 → next.Shows entry 3 (leaf.touched kind).bits) := by
  obtain ⟨canonical, _⟩ := (walk_ok_found satp vaddr kind context bus).mp ⟨translation, next, walked⟩
  obtain ⟨before, read⟩ := finds.read
  rw [finds.walk_eq kind context canonical] at walked
  rcases useLeaf_cases finds.level_lt vaddr entry leaf kind context mid with
    ⟨_, failed⟩ | ⟨_, _, last, _, failed⟩ | ⟨suits, _, last, used, marking⟩
  · cases walked.symm.trans failed
  · cases walked.symm.trans failed
  cases walked.symm.trans used
  have straight : (leaf.touched kind).pageNumber % 2 ^ (9 * level) = 0 := by
    rw [leaf.pageNumber_touched]
    exact suits.straight
  have way := finds.confined (bus.FlagsOf entry)
  refine ⟨?_, rfl, ?_, ?_⟩
  · rw [toNat_page finds.level_lt straight, leaf.pageNumber_touched]
  · have marked := marking.confined read
    have same : mid.FlagsOf entry = bus.FlagsOf entry := by
      funext cell
      unfold FlagsOf
      rw [way.window]
    rw [same] at marked
    exact way.trans marked
  · intro mapped
    exact marking.shows read (mapped.confined way)

variable (satp vaddr kind context bus)

/-- A walk is the one that Sv39 describes. -/
theorem walk_follows : Follows satp vaddr kind context bus where
  succeeds := walk_ok_found satp vaddr kind context bus
  translates walked finds := finds.translates walked
  takes finds mapped := not_frozen (mapped.confined (finds.confined fun _ => False))
  fails := walk_failed
  denied := walk_denied satp vaddr kind context bus
  addresses := by
    intro mid level table way
    have small : table < 2 ^ 44 := way.table_lt (Nat.mod_lt _ (by decide))
    have bound := slot_bound small vaddr level
    rw [entryAt_slot way.level_lt]
    exact ⟨UInt64.toNat_ofNat_of_lt (Nat.lt_of_lt_of_le (Nat.lt_of_add_right_lt bound) (by decide)), bound⟩

end Algorithm

end Sv39

end RvBoard
