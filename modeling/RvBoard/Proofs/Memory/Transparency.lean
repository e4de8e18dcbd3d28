import RvBoard.Memory.Virtual
import RvBoard.Proofs.Memory.Memories
import RvBoard.Proofs.Memory.Walk

/-!
# Transparency of the translation look-aside buffer

Translations answer as if nothing were cached. What carries this is that the page table in memory
still leads to the leaf of every cached page, with the same rights and at least the same marks.
-/

set_option autoImplicit false

namespace RvBoard

open Bus Sv39

namespace Sv39

theorem leads_only {vaddr table entry : UInt64} {bus last : Bus} {level leafLevel : Nat} {leaf : Pte}
    (only : MemoryOnly bus) (leads : Leads vaddr bus level table last entry leaf leafLevel) :
    last = bus ∧ Bus.load entry 3 bus = .ok leaf.bits bus ∧ leaf.isLeaf = true := by
  induction leads with
  | leaf read fair isLast =>
    obtain ⟨rfl, _⟩ := only.load_ok read
    exact ⟨rfl, read, isLast⟩
  | down read fair inner rest ih =>
    obtain ⟨rfl, _⟩ := only.load_ok read
    exact ih only

-- Induction on the way. The marked entry is a leaf, so no inner entry of the way is the marked one.
theorem leads_rewritten {vaddr table entry marked : UInt64} {bus last next : Bus} {level leafLevel : Nat} {leaf pte : Pte}
    {access : AccessKind} (only : MemoryOnly bus) (present : Bus.load marked 3 bus = .ok pte.bits bus)
    (isLeaf : pte.isLeaf = true)
    (rewritten : Rewritten bus marked (pte.mark (PteFlags.marks access)).bits next)
    (leads : Leads vaddr bus level table last entry leaf leafLevel) :
    Leads vaddr next level table next entry (if entry = marked then leaf.mark (PteFlags.marks access) else leaf)
      leafLevel := by
  induction leads with
  | @leaf bus last level table leaf read fair isLast =>
    obtain ⟨rfl, _⟩ := only.load_ok read
    by_cases same : entryAt vaddr level table = marked
    · have one : leaf = pte := by
        rw [same, present] at read
        injection read with bits
        exact (Pte.ext bits).symm
      rw [if_pos same, one]
      exact .leaf (same ▸ rewritten.here) ((Pte.isMalformed_mark pte access).trans (one ▸ fair))
        ((Pte.isLeaf_mark pte access).trans isLeaf)
    · rw [if_neg same]
      exact .leaf (rewritten.apart _ _ same read) fair isLast
  | @down bus mid last level leafLevel table entry pte' leaf read fair inner rest ih =>
    obtain ⟨rfl, _⟩ := only.load_ok read
    have different : entryAt vaddr level table ≠ marked := by
      intro same
      rw [same, present] at read
      injection read with bits
      rw [← Pte.ext bits, isLeaf] at inner
      cases inner
    exact .down (rewritten.apart _ _ different read) fair inner (ih only present rewritten)

theorem walk_only {bus : Bus} (only : MemoryOnly bus) (root vaddr : UInt64) (access : AccessKind) (context : AccessContext) :
    (∃ fault, walk root vaddr access context bus = .error fault bus) ∨
    (∃ entry leaf level next, isCanonical vaddr = true ∧ Leads vaddr bus levels root bus entry leaf level ∧
      Usable leaf level access context ∧ Rewritten bus entry (leaf.mark (PteFlags.marks access)).bits next ∧
      walk root vaddr access context bus = .ok (translationOf (leaf.mark (PteFlags.marks access)) vaddr level) next) := by
  have kept : ∀ address other, other = bus → left (Bus.load address 3 other) = bus := by
    rintro address other rfl
    exact only.load_keeps address 3
  rcases walk_cases kept root vaddr access context rfl with
    ⟨fault, next, failed, rfl⟩ | ⟨last, entry, leaf, level, canonical, leads, usable, rfl, used⟩
  · exact .inl ⟨fault, failed⟩
  · right
    obtain ⟨_, present, isLeaf⟩ := leads_only only leads
    by_cases marked : leaf.mark (PteFlags.marks access) = leaf
    · refine ⟨entry, leaf, level, last, canonical, leads, usable, ?_, ?_⟩
      · rw [marked]
        exact ⟨only, present, fun _ _ _ before => before⟩
      · rw [used, useLeaf_marked entry vaddr last usable marked, marked]
    · obtain ⟨next, stored, rewritten⟩ := only.store_entry present (leaf.mark (PteFlags.marks access)).bits
      exact ⟨entry, leaf, level, next, canonical, leads, usable, rewritten,
        used.trans (useLeaf_marks entry vaddr usable marked stored)⟩

end Sv39

structure Backed (bus : Bus) (root vaddr : UInt64) (cached : Translation) (entry : UInt64) (leaf : Pte) (level : Nat) :
    Prop where
  canonical : isCanonical vaddr = true
  leads : Leads vaddr bus levels root bus entry leaf level
  straight : leaf.address &&& offsetMask level = 0
  page : cached.page = (translationOf leaf vaddr level).page
  rights : PteFlags.rights cached.flags = PteFlags.rights leaf.flags
  isAccessed : leaf.flags.has PteFlags.accessed = true
  isDirty : cached.flags.has PteFlags.dirty = true → leaf.flags.has PteFlags.dirty = true

theorem Backed.rewritten {bus next : Bus} {root vaddr entry marked : UInt64} {cached : Translation} {leaf pte : Pte}
    {level : Nat} {access : AccessKind} (backed : Backed bus root vaddr cached entry leaf level) (only : MemoryOnly bus)
    (present : Bus.load marked 3 bus = .ok pte.bits bus) (isLeaf : pte.isLeaf = true)
    (rewritten : Rewritten bus marked (pte.mark (PteFlags.marks access)).bits next) :
    ∃ leaf, Backed next root vaddr cached entry leaf level := by
  have leads := leads_rewritten only present isLeaf rewritten backed.leads
  by_cases same : entry = marked
  · rw [if_pos same] at leads
    refine ⟨_, backed.canonical, leads, ?_, ?_, ?_, ?_, ?_⟩
    · rw [Pte.address_mark]
      exact backed.straight
    · rw [backed.page, translationOf, translationOf, Pte.address_mark]
    · rw [Pte.rights_mark]
      exact backed.rights
    · rw [Pte.flags_mark]
      exact PteFlags.has_or _ _ _ backed.isAccessed
    · intro dirty
      rw [Pte.flags_mark]
      exact PteFlags.has_or _ _ _ (backed.isDirty dirty)
  · rw [if_neg same] at leads
    exact ⟨leaf, backed.canonical, leads, backed.straight, backed.page, backed.rights, backed.isAccessed, backed.isDirty⟩

theorem Backed.walk {bus : Bus} {root vaddr entry : UInt64} {cached : Translation} {leaf : Pte} {level : Nat}
    {access : AccessKind} {context : AccessContext} (backed : Backed bus root vaddr cached entry leaf level)
    (usable : Tlb.usable cached access context = true) :
    Sv39.walk root vaddr access context bus = .ok (translationOf leaf vaddr level) bus := by
  obtain ⟨permitted, clean⟩ := Bool.and_eq_true_iff.mp usable
  have allowed : Usable leaf level access context :=
    ⟨(PteFlags.permits_congr backed.rights access context).symm.trans permitted, backed.straight⟩
  have marked : leaf.mark (PteFlags.marks access) = leaf := by
    apply Pte.mark_eq_self
    apply PteFlags.marks_present backed.isAccessed
    rintro rfl
    exact backed.isDirty clean
  rw [walk_canonical root backed.canonical, walkFrom_leads backed.leads]
  exact useLeaf_marked entry vaddr bus allowed marked

namespace Memory

-- What a hart asks of address translation.
inductive Call where
  | setSatp (satp : UInt64)
  | flush
  | reset
  | translate (vaddr : UInt64) (access : AccessKind) (context : AccessContext)

inductive Answer where
  | done
  | supported (yes : Bool)
  | address (paddr : UInt64)
  | fault (why : MemFault)
deriving DecidableEq, Repr

def answer : EStateM.Result MemFault Memory UInt64 → Answer × Memory
  | .ok paddr memory => (.address paddr, memory)
  | .error why memory => (.fault why, memory)

def perform (memory : Memory) : Call → Answer × Memory
  | .setSatp satp => ((.supported (memory.setSatp satp).1), (memory.setSatp satp).2)
  | .flush => (.done, memory.flush)
  | .reset => (.done, memory.reset)
  | .translate vaddr access context => answer (memory.translate vaddr access context)

-- The answers to one call after the other, each with the bus that it leaves.
def answers (memory : Memory) : List Call → List (Answer × Bus)
  | [] => []
  | call :: rest => ((memory.perform call).1, (memory.perform call).2.bus) :: (memory.perform call).2.answers rest

-- Address translation that caches nothing: every call walks the page table in memory.
structure Uncached where
  bus : Bus
  mode : PagingMode := .bare
  root : UInt64 := 0

namespace Uncached

def setSatp (manager : Uncached) (satp : UInt64) : Answer × Uncached :=
  match PagingMode.ofSatp? satp with
  | none => (.supported false, manager)
  | some mode => (.supported true, { manager with mode := mode, root := rootOf satp })

def translate (manager : Uncached) (vaddr : UInt64) (access : AccessKind) (context : AccessContext) : Answer × Uncached :=
  if manager.mode = .bare ∨ context.privilege = .machine then (.address vaddr, manager)
  else
    match Sv39.walk manager.root vaddr access context manager.bus with
    | .ok translation bus => (.address (inPage translation.page vaddr), { manager with bus := bus })
    | .error why bus => (.fault why, { manager with bus := bus })

def perform (manager : Uncached) : Call → Answer × Uncached
  | .setSatp satp => manager.setSatp satp
  | .flush => (.done, manager)
  | .reset => (.done, { bus := manager.bus })
  | .translate vaddr access context => manager.translate vaddr access context

def answers (manager : Uncached) : List Call → List (Answer × Bus)
  | [] => []
  | call :: rest => ((manager.perform call).1, (manager.perform call).2.bus) :: (manager.perform call).2.answers rest

end Uncached

def uncached (memory : Memory) : Uncached :=
  ⟨memory.bus, memory.mode, memory.root⟩

structure Transparent (memory : Memory) : Prop where
  only : MemoryOnly memory.bus
  backed : ∀ (slot : Fin 64) (cached : TlbEntry), memory.tlb.entries[slot] = some cached →
    ∃ vaddr entry leaf level, Tlb.pageOf vaddr = cached.vpn ∧
      Backed memory.bus memory.root vaddr cached.translation entry leaf level

theorem transparent_empty {bus : Bus} (only : MemoryOnly bus) (mode : PagingMode) (root : UInt64) :
    Transparent ⟨bus, Tlb.empty, mode, root⟩ := by
  refine ⟨only, ?_⟩
  intro slot cached found
  have empty : (Vector.replicate 64 none : Vector (Option TlbEntry) 64)[slot] = none := Vector.getElem_replicate ..
  cases empty.symm.trans found

theorem hit_cached {tlb : Tlb} {vaddr : UInt64} {access : AccessKind} {context : AccessContext} {found : Translation}
    (hit : tlb.hit? vaddr access context = some found) :
    Tlb.usable found access context = true ∧
      ∃ (slot : Fin 64) (cached : TlbEntry), tlb.entries[slot] = some cached ∧ cached.vpn = Tlb.pageOf vaddr ∧
        cached.translation = found := by
  obtain ⟨looked, usable⟩ := Option.filter_eq_some_iff.mp hit
  refine ⟨usable, Tlb.slot (Tlb.pageOf vaddr), ?_⟩
  unfold Tlb.lookup at looked
  cases present : tlb.entries[Tlb.slot (Tlb.pageOf vaddr)] with
  | none =>
    rw [present] at looked
    cases looked
  | some cached =>
    rw [present] at looked
    by_cases same : cached.vpn = Tlb.pageOf vaddr
    · simp only [same, if_true] at looked
      exact ⟨cached, rfl, same, Option.some_inj.mp looked⟩
    · simp only [same, if_false] at looked
      cases looked

theorem hit_walk {memory : Memory} (good : Transparent memory) {vaddr : UInt64} {access : AccessKind}
    {context : AccessContext} {found : Translation} (hit : memory.tlb.hit? vaddr access context = some found) :
    ∃ translation, Sv39.walk memory.root vaddr access context memory.bus = .ok translation memory.bus ∧
      translation.page = found.page := by
  obtain ⟨usable, slot, cached, present, vpn, rfl⟩ := hit_cached hit
  obtain ⟨other, entry, leaf, level, same, backed⟩ := good.backed slot cached present
  refine ⟨translationOf leaf other level, ?_, backed.page.symm⟩
  rw [← walk_page memory.root (same.trans vpn) access context]
  exact backed.walk usable

theorem entries_insert (tlb : Tlb) (vaddr : UInt64) (translation : Translation) (slot : Fin 64) :
    (tlb.insert vaddr translation).entries[slot] =
      if Tlb.slot (Tlb.pageOf vaddr) = slot then some ⟨Tlb.pageOf vaddr, translation⟩ else tlb.entries[slot] := by
  have set : (tlb.entries.set (Tlb.slot (Tlb.pageOf vaddr)).val (some ⟨Tlb.pageOf vaddr, translation⟩)
      (Tlb.slot (Tlb.pageOf vaddr)).isLt)[slot.val] =
      if (Tlb.slot (Tlb.pageOf vaddr)).val = slot.val then some ⟨Tlb.pageOf vaddr, translation⟩ else tlb.entries[slot.val] :=
    Vector.getElem_set _ slot.isLt
  simp only [Fin.val_inj] at set
  exact set

theorem mem_insert {tlb : Tlb} {vaddr : UInt64} {translation : Translation} {cached : TlbEntry}
    (found : some cached ∈ (tlb.insert vaddr translation).entries) :
    some cached ∈ tlb.entries ∨ cached = ⟨Tlb.pageOf vaddr, translation⟩ := by
  have kept_or_new := @Vector.mem_or_eq_of_mem_set _ _ _ _ _ _ (Tlb.slot (Tlb.pageOf vaddr)).isLt found
  exact kept_or_new.imp_right Option.some.inj

theorem backed_walked {bus next : Bus} {root vaddr entry : UInt64} {leaf : Pte} {level : Nat} {access : AccessKind}
    {context : AccessContext} (only : MemoryOnly bus) (canonical : isCanonical vaddr = true)
    (leads : Leads vaddr bus levels root bus entry leaf level) (usable : Usable leaf level access context)
    (rewritten : Rewritten bus entry (leaf.mark (PteFlags.marks access)).bits next) :
    Backed next root vaddr (translationOf (leaf.mark (PteFlags.marks access)) vaddr level) entry
      (leaf.mark (PteFlags.marks access)) level := by
  obtain ⟨_, present, isLeaf⟩ := leads_only only leads
  have after := leads_rewritten only present isLeaf rewritten leads
  rw [if_pos rfl] at after
  refine ⟨canonical, after, ?_, rfl, rfl, ?_, id⟩
  · rw [Pte.address_mark]
    exact usable.straight
  · rw [Pte.flags_mark]
    exact (PteFlags.has_marks leaf.flags access).1

theorem transparent_insert {memory : Memory} (good : Transparent memory) {next : Bus} {vaddr entry : UInt64} {leaf : Pte}
    {level : Nat} {access : AccessKind} {context : AccessContext} (canonical : isCanonical vaddr = true)
    (leads : Leads vaddr memory.bus levels memory.root memory.bus entry leaf level)
    (usable : Usable leaf level access context)
    (rewritten : Rewritten memory.bus entry (leaf.mark (PteFlags.marks access)).bits next) :
    Transparent ⟨next, memory.tlb.insert vaddr (translationOf (leaf.mark (PteFlags.marks access)) vaddr level),
      memory.mode, memory.root⟩ := by
  obtain ⟨_, present, isLeaf⟩ := leads_only good.only leads
  refine ⟨rewritten.only, ?_⟩
  intro slot cached found
  have inserted := (entries_insert memory.tlb vaddr _ slot).symm.trans found
  by_cases here : Tlb.slot (Tlb.pageOf vaddr) = slot
  · rw [if_pos here] at inserted
    cases inserted
    exact ⟨vaddr, entry, _, level, rfl, backed_walked good.only canonical leads usable rewritten⟩
  · rw [if_neg here] at inserted
    obtain ⟨other, e, l, k, page, backed⟩ := good.backed slot cached inserted
    obtain ⟨l', still⟩ := backed.rewritten good.only present isLeaf rewritten
    exact ⟨other, e, l', k, page, still⟩

theorem translate_transparent {memory : Memory} (good : Transparent memory) (vaddr : UInt64) (access : AccessKind)
    (context : AccessContext) :
    memory.uncached.translate vaddr access context =
        ((answer (memory.translate vaddr access context)).1, (answer (memory.translate vaddr access context)).2.uncached) ∧
      Transparent (answer (memory.translate vaddr access context)).2 := by
  unfold Memory.translate Uncached.translate
  by_cases off : memory.mode = .bare ∨ context.privilege = .machine
  · have same : memory.uncached.mode = .bare ∨ context.privilege = .machine := off
    rw [if_pos off, if_pos same]
    exact ⟨rfl, good⟩
  have same : ¬ (memory.uncached.mode = .bare ∨ context.privilege = .machine) := off
  rw [if_neg off, if_neg same]
  cases hit : memory.tlb.hit? vaddr access context with
  | some found =>
    obtain ⟨translation, walked, page⟩ := hit_walk good hit
    simp only [uncached, walked, page]
    exact ⟨rfl, good⟩
  | none =>
    obtain ⟨bus, tlb, mode, root⟩ := memory
    rcases walk_only good.only root vaddr access context with
      ⟨fault, failed⟩ | ⟨entry, leaf, level, next, canonical, leads, usable, rewritten, walked⟩
    · simp only [walkAndCache, uncached, failed]
      exact ⟨rfl, good⟩
    · simp only [walkAndCache, uncached, walked]
      exact ⟨rfl, transparent_insert good canonical leads usable rewritten⟩

theorem perform_transparent {memory : Memory} (good : Transparent memory) (call : Call) :
    memory.uncached.perform call = ((memory.perform call).1, (memory.perform call).2.uncached) ∧
      Transparent (memory.perform call).2 := by
  cases call with
  | setSatp satp =>
    cases mode : PagingMode.ofSatp? satp with
    | none =>
      simp only [Uncached.perform, Uncached.setSatp, perform, setSatp, mode]
      exact ⟨trivial, good⟩
    | some mode' =>
      simp only [Uncached.perform, Uncached.setSatp, perform, setSatp, mode]
      exact ⟨rfl, transparent_empty good.only _ _⟩
  | flush => exact ⟨rfl, transparent_empty good.only _ _⟩
  | reset => exact ⟨rfl, transparent_empty good.only _ _⟩
  | translate vaddr access context => exact translate_transparent good vaddr access context

theorem answers_transparent {memory : Memory} (good : Transparent memory) (calls : List Call) :
    memory.answers calls = memory.uncached.answers calls := by
  induction calls generalizing memory with
  | nil => rfl
  | cons call rest ih =>
    obtain ⟨same, next⟩ := perform_transparent good call
    rw [answers, Uncached.answers, same, ih next]
    rfl

/-- Whatever is asked of a manager over memories, in whatever order, the look-aside buffer shows in
no answer and in no byte of memory. -/
theorem tlb_transparent {bus : Bus} (memories : bus.OfMemories) (calls : List Call) :
    answers { bus := bus } calls = Uncached.answers { bus := bus } calls :=
  answers_transparent (transparent_empty memories.memoryOnly .bare 0) calls

def oneEntry : Bus :=
  { windows := #[⟨0, 8, 0⟩], devices := #[.ram ⟨⟨#[0x17, 0, 0, 0, 0, 0, 0, 0]⟩⟩] }

theorem oneEntry_memories : oneEntry.OfMemories :=
  .place .empty (Bus.place_first 0 (.ram ⟨⟨#[0x17, 0, 0, 0, 0, 0, 0, 0]⟩⟩))

theorem tlb_transparent_one_entry :
    oneEntry.OfMemories ∧
      answers { bus := oneEntry } [.setSatp 0x8000000000000000, .translate 0x123 .load ⟨.user, false, false⟩,
          .translate 0x456 .store ⟨.user, false, false⟩, .flush, .translate 0x123 .fetch ⟨.user, false, false⟩] =
        Uncached.answers { bus := oneEntry } [.setSatp 0x8000000000000000, .translate 0x123 .load ⟨.user, false, false⟩,
          .translate 0x456 .store ⟨.user, false, false⟩, .flush, .translate 0x123 .fetch ⟨.user, false, false⟩] :=
  ⟨oneEntry_memories, tlb_transparent oneEntry_memories _⟩

end Memory

end RvBoard
