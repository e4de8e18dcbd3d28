import RvBoard.Proofs.Memory.Access

/-!
# What translation leaves in memory

Translating addresses changes the contents of memories in one way only: the leaf that maps an address
gains the marks of the access, in one byte. Everything else an access that fails can do is done to
devices that are no memories.
-/

set_option autoImplicit false

namespace RvBoard

open Sv39

namespace Bus

-- One entry has gained marks in its lowest byte, and nothing else in any memory has changed.
structure MarksEntry (entry : UInt64) (marks : PteFlags) (window : Window) (memory contents : Ram) (bus next : Bus) : Prop where
  inside : InMemory bus entry 3 window memory
  windows : next.windows = bus.windows
  changed : next.memory? window.device = some contents
  size : contents.data.size = memory.data.size
  bytes : ∀ j, contents.data.get! j =
    if j = offset window entry then memory.data.get! j ||| marks else memory.data.get! j
  others : ∀ other, other ≠ window.device → next.memory? other = bus.memory? other

-- What translating these addresses with a table, and loads that change no memory, do to a bus.
inductive Translated (table : Option UInt64) (asked : List UInt64) : Bus → Bus → Prop
  | refl (bus : Bus) : Translated table asked bus bus
  | device {a b c : Bus} (before : Translated table asked a b) (same : SameMemory b c) : Translated table asked a c
  | mark {a b mid c : Bus} {root vaddr entry : UInt64} {leaf : Pte} {level : Nat} {access : AccessKind} {window : Window}
      {memory contents : Ram} (before : Translated table asked a b) (rooted : table = some root) (member : vaddr ∈ asked)
      (leads : Leads vaddr b levels root mid entry leaf level) (same : SameMemory b mid)
      (marks : MarksEntry entry (PteFlags.marks access) window memory contents mid c) : Translated table asked a c

theorem Translated.trans {table : Option UInt64} {asked : List UInt64} {a b c : Bus} (first : Translated table asked a b)
    (second : Translated table asked b c) : Translated table asked a c := by
  induction second with
  | refl => exact first
  | device before same ih => exact .device ih same
  | mark before rooted member leads same marks ih => exact .mark ih rooted member leads same marks

theorem Translated.mono {table : Option UInt64} {asked more : List UInt64} {a b : Bus} (translated : Translated table asked a b)
    (among : ∀ vaddr ∈ asked, vaddr ∈ more) : Translated table more a b := by
  induction translated with
  | refl => exact .refl _
  | device before same ih => exact .device ih same
  | mark before rooted member leads same marks ih => exact .mark ih rooted (among _ member) leads same marks

theorem loaded_word {bus next : Bus} {address bits : UInt64} {size : Nat} {window : Window} {memory : Ram}
    (read : load address size bus = .ok bits next) (inside : InMemory next address size window memory) :
    bits = Bytes.wordAt memory.data (offset window address) (byteCount size) := by
  rcases load_cases address size bus with ⟨fault, failed⟩ | ⟨window', memory', inside'⟩ | ⟨window', found, disturbed⟩
  · cases read.symm.trans failed
  · cases read.symm.trans (load_in_memory inside')
    have same : window' = window := Option.some_inj.mp (inside'.reached.found.symm.trans inside.reached.found)
    subst same
    have alike : memory' = memory := Option.some_inj.mp (inside'.memory.symm.trans inside.memory)
    rw [alike]
  · rw [read, left_ok] at disturbed
    have kept := disturbed.same
    have found' : next.window? address (byteCount size) = some window' := by
      rw [← found]
      unfold window? find?
      rw [kept.windows]
    have same : window' = window := Option.some_inj.mp (found'.symm.trans inside.reached.found)
    subst same
    have present := kept.memory window'.device
    rw [inside.memory, disturbed.foreign] at present
    cases present

theorem leads_read {vaddr table entry : UInt64} {bus last : Bus} {level leafLevel : Nat} {leaf : Pte}
    (leads : Leads vaddr bus level table last entry leaf leafLevel) :
    ∃ before, load entry 3 before = .ok leaf.bits last := by
  induction leads with
  | leaf read fair isLast => exact ⟨_, read⟩
  | down read fair inner rest ih => exact ih

theorem marked_byte (marks : PteFlags) (k : Nat) :
    Bytes.byteAt marks.toUInt64 k = if k = 0 then marks else 0 := by
  have small : marks.toUInt64 >>> 8 = 0 := byte_shiftRight marks (by decide) (by decide)
  rw [Bytes.byteAt_small _ _ small, UInt8.toUInt8_toUInt64]

theorem store_marks {bus next : Bus} {entry : UInt64} {leaf : Pte} {marks : PteFlags} {window : Window} {memory : Ram}
    (inside : InMemory bus entry 3 window memory)
    (word : leaf.bits = Bytes.wordAt memory.data (offset window entry) 8)
    (stored : store entry 3 (leaf.mark marks).bits bus = .ok () next) :
    ∃ contents, MarksEntry entry marks window memory contents bus next := by
  cases (store_in_memory (leaf.mark marks).bits inside).symm.trans stored
  let contents : Ram := ⟨Bytes.putWord memory.data (offset window entry) 8 (leaf.mark marks).bits⟩
  have known := inside.known
  refine ⟨contents, inside, rfl, ?_, Bytes.size_putWord .., ?_, ?_⟩
  · rw [memory_replace _ _ _ _ _ known, if_pos rfl]
    rfl
  · intro j
    have byte := Bytes.get_putWord memory.data (offset window entry) 8 j (leaf.mark marks).bits inside.fits
    refine byte.trans ?_
    by_cases here : offset window entry ≤ j ∧ j < offset window entry + 8
    · have place : offset window entry + (j - offset window entry) = j := by omega
      have old := Bytes.byteAt_wordAt memory.data (offset window entry) 8 (j - offset window entry) (by omega) (by omega)
      rw [place, ← word] at old
      rw [if_pos here, Pte.mark, Bytes.byteAt_or, old, marked_byte]
      by_cases first : j = offset window entry
      · rw [if_pos first, if_pos (by omega)]
      · rw [if_neg first, if_neg (by omega), UInt8.or_zero]
    · have apart : j ≠ offset window entry := by omega
      rw [if_neg here, if_neg apart]
  · intro other different
    rw [memory_replace _ _ _ _ _ known, if_neg (Ne.symm different)]

theorem walk_translated {table : Option UInt64} {asked : List UInt64} {root vaddr : UInt64} (rooted : table = some root)
    (member : vaddr ∈ asked) (access : AccessKind) (context : AccessContext) (bus : Bus) :
    Translated table asked bus (left (walk root vaddr access context bus)) := by
  have loads : ∀ address other, SameMemory bus other → SameMemory bus (left (load address 3 other)) :=
    fun address other same => same.trans (load_same address 3 other)
  rcases walk_cases loads root vaddr access context (SameMemory.refl bus) with
    ⟨fault, next, failed, same⟩ | ⟨next, entry, leaf, level, _, leads, usable, same, used⟩
  · rw [failed]
    exact .device (.refl bus) same
  rw [used]
  by_cases marked : leaf.mark (PteFlags.marks access) = leaf
  · rw [useLeaf_marked entry vaddr next usable marked]
    exact .device (.refl bus) same
  cases stored : store entry 3 (leaf.mark (PteFlags.marks access)).bits next with
  | error fault last =>
    rw [useLeaf_unmarkable entry vaddr usable marked stored]
    exact .device (.refl bus) (same.trans (store_failed_same stored))
  | ok done last =>
    rw [useLeaf_marks entry vaddr usable marked stored]
    rcases store_cases entry 3 (leaf.mark (PteFlags.marks access)).bits next with
      ⟨fault, failed⟩ | ⟨window, memory, inside⟩ | ⟨window, _, disturbed⟩
    · cases stored.symm.trans failed
    · obtain ⟨before, read⟩ := leads_read leads
      obtain ⟨contents, marks⟩ := store_marks inside (loaded_word read inside) stored
      exact .mark (.refl bus) rooted member leads same marks
    · rw [stored, left_ok] at disturbed
      exact .device (.refl bus) (same.trans disturbed.same)

end Bus

namespace Memory

open Bus

theorem through_translated {α : Type} (vaddr : UInt64) (size : Nat) (kind : AccessKind) (misaligned : MemFault)
    (context : AccessContext) (operation : UInt64 → BusM α) (memory : Memory)
    (works : ∀ paddr bus, SameMemory bus (left (operation paddr bus))) :
    SamePaging memory (left (through vaddr size kind misaligned context operation memory)) ∧
      Translated memory.table? [vaddr] memory.bus
        (left (through vaddr size kind misaligned context operation memory)).bus :=
  through_keeps (fun rooted => walk_translated rooted (List.mem_singleton_self vaddr) kind context memory.bus)
    (fun paddr bus before => .device before (works paddr bus)) (.refl memory.bus)

theorem left_map {ε σ α β : Type} (operation : EStateM ε σ α) (f : α → β) (state : σ) :
    left ((operation >>= fun value => pure (f value)) state) = left (operation state) := by
  cases done : operation state with
  | ok value next =>
    have mapped : (operation >>= fun value => pure (f value)) state = .ok (f value) next := bind_of_ok done
    rw [mapped, left_ok, left_ok]
  | error fault next =>
    have mapped : (operation >>= fun value => pure (f value)) state = .error fault next := bind_of_error done
    rw [mapped, left_error, left_error]

theorem fetch_translated (vaddr : UInt64) (context : AccessContext) (memory : Memory) :
    SamePaging memory (left (fetch vaddr context memory)) ∧
      Translated memory.table? [vaddr] memory.bus (left (fetch vaddr context memory)).bus := by
  rw [fetch_through]
  apply through_translated
  intro paddr bus
  rw [left_map]
  exact load_same paddr 1 bus

theorem fetch_left {vaddr : UInt64} {context : AccessContext} {memory : Memory} {result : EStateM.Result MemFault Memory UInt16}
    (outcome : fetch vaddr context memory = result) :
    SamePaging memory (left result) ∧ Translated memory.table? [vaddr] memory.bus (left result).bus := by
  rw [← outcome]
  exact fetch_translated vaddr context memory

theorem SamePaging.table {memory next : Memory} (same : SamePaging memory next) : next.table? = memory.table? := by
  rw [table?, table?, same.mode, same.root]

end Memory

theorem DataAccess.operation_failed {access : DataAccess} {paddr : UInt64} {bus next : Bus} {fault : MemFault}
    (failed : access.operation paddr bus = .error fault next) : Bus.SameMemory bus next := by
  cases access with
  | load vaddr size =>
    have same := Bus.load_same paddr size bus
    rcases bind_error.mp failed with unread | ⟨_, mid, _, impossible⟩
    · rw [unread] at same
      exact same
    · cases impossible
  | store vaddr size value =>
    rcases bind_error.mp failed with unwritten | ⟨_, mid, _, impossible⟩
    · exact Bus.store_failed_same unwritten
    · cases impossible
  | update vaddr size change =>
    have same := Bus.load_same paddr size bus
    have reads : ∀ outcome, Memory.loadForStore paddr size bus = outcome → left outcome = left (Bus.load paddr size bus) := by
      intro outcome read
      rw [← read, Memory.loadForStore]
      cases Bus.load paddr size bus <;> rfl
    rcases bind_error.mp failed with unread | ⟨old, mid, read, rest⟩
    · have kept := reads _ unread
      rw [left_error] at kept
      rw [← kept] at same
      exact same
    · have kept := reads _ read
      rw [left_ok] at kept
      rw [← kept] at same
      rcases bind_error.mp rest with unwritten | ⟨_, last, _, impossible⟩
      · exact same.trans (Bus.store_failed_same unwritten)
      · cases impossible

theorem DataAccess.failed_translated {access : DataAccess} {context : AccessContext} {memory next : Memory}
    {fault : MemFault} (failed : access.run context memory = .error fault next) :
    Memory.SamePaging memory next ∧ Bus.Translated memory.table? [access.vaddr] memory.bus next.bus := by
  rw [access.run_through] at failed
  refine Memory.through_failed (fun rooted => ?_) ?_ (.refl memory.bus) failed
  · exact Bus.walk_translated rooted (List.mem_singleton_self access.vaddr) access.kind context memory.bus
  · intro paddr bus fault last before stopped
    exact .device before (DataAccess.operation_failed stopped)

end RvBoard
