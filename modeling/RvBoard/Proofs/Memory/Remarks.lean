import RvBoard.Proofs.Memory.Grants
import RvBoard.Proofs.Memory.Marking
import RvBoard.Proofs.Cells

/-!
# What memory keeps through translation

A walk sets marks in the first byte of the entry it leads to, and changes no other byte of memory.
So a page table that lies in memory leads to the same pages with the same rights afterwards, and led
there before.
-/

set_option autoImplicit false

namespace RvBoard

def PteFlags.OnlyMarks (marks : PteFlags) : Prop :=
  marks &&& 0x3f = 0

namespace PteFlags

theorem onlyMarks_marks (access : AccessKind) : OnlyMarks (marks access) := by
  unfold OnlyMarks
  cases access <;> decide

theorem onlyMarks_zero : OnlyMarks 0 :=
  UInt8.zero_and

theorem OnlyMarks.or {a b : PteFlags} (first : OnlyMarks a) (second : OnlyMarks b) : OnlyMarks (a ||| b) := by
  rw [OnlyMarks, byte_or_and, first, second]
  rfl

theorem OnlyMarks.rights {marks : PteFlags} (only : OnlyMarks marks) : PteFlags.rights marks = 0 := by
  have inside : (0x1f : PteFlags) = 0x3f &&& 0x1f := by decide
  rw [PteFlags.rights, inside, ← UInt8.and_assoc, only, UInt8.zero_and]

end PteFlags

namespace Bus

inductive Becomes (written marked : Prop) (old : UInt8) : UInt8 → Prop
  | written (here : written) (new : UInt8) : Becomes written marked old new
  | marked (here : marked) {marks : PteFlags} (only : PteFlags.OnlyMarks marks) : Becomes written marked old (old ||| marks)
  | kept : Becomes written marked old old

theorem Becomes.trans {written marked : Prop} {old mid new : UInt8} (first : Becomes written marked old mid)
    (second : Becomes written marked mid new) : Becomes written marked old new := by
  cases second with
  | written here => exact .written here new
  | kept => exact first
  | @marked here marks only =>
    cases first with
    | written here => exact .written here _
    | kept => exact .marked here only
    | marked here only' =>
      rw [UInt8.or_assoc]
      exact .marked here (only'.or only)

theorem Becomes.unwritten {marked : Prop} {old new : UInt8} (becomes : Becomes False marked old new) :
    ∃ marks, PteFlags.OnlyMarks marks ∧ new = old ||| marks ∧ (marks = 0 ∨ marked) := by
  cases becomes with
  | written never => exact never.elim
  | marked here only => exact ⟨_, only, rfl, .inr here⟩
  | kept => exact ⟨0, PteFlags.onlyMarks_zero, UInt8.or_zero.symm, .inl rfl⟩

theorem Becomes.mono {written marked written' marked' : Prop} {old new : UInt8} (becomes : Becomes written marked old new)
    (writes : written → written') (marks : marked → marked') : Becomes written' marked' old new := by
  cases becomes with
  | written here => exact .written (writes here) new
  | marked here only => exact .marked (marks here) only
  | kept => exact .kept

-- The address map is the same, and every byte of memory became what it may.
structure Remarked (written marked : Cell → Prop) (bus next : Bus) : Prop where
  windows : next.windows = bus.windows
  held : next.held = bus.held
  others : ∀ id, bus.memory? id = none → next.memory? id = none
  memories : ∀ id memory, bus.memory? id = some memory → ∃ contents, next.memory? id = some contents ∧
    contents.data.size = memory.data.size ∧
    ∀ i, Becomes (written (id, i)) (marked (id, i)) (memory.data.get! i) (contents.data.get! i)

section Remarks

variable {written marked : Cell → Prop} {bus mid next : Bus}

theorem Confined.remarked (confined : Confined written bus next) : Remarked written marked bus next := by
  refine ⟨confined.windows, confined.held, confined.others, ?_⟩
  intro id memory found
  obtain ⟨contents, after, size, same⟩ := confined.memories id memory found
  refine ⟨contents, after, size, fun i => ?_⟩
  by_cases here : written (id, i)
  · exact .written here _
  · rw [same i here]
    exact .kept

theorem Remarked.refl (written marked : Cell → Prop) (bus : Bus) : Remarked written marked bus bus :=
  (Confined.refl written bus).remarked

theorem Remarked.trans (first : Remarked written marked bus mid) (second : Remarked written marked mid next) :
    Remarked written marked bus next := by
  refine ⟨second.windows.trans first.windows, second.held.trans first.held,
    fun id absent => second.others id (first.others id absent), ?_⟩
  intro id memory found
  obtain ⟨between, foundBetween, size, became⟩ := first.memories id memory found
  obtain ⟨contents, foundAfter, size', became'⟩ := second.memories id between foundBetween
  exact ⟨contents, foundAfter, size'.trans size, fun i => (became i).trans (became' i)⟩

theorem Remarked.mono {written' marked' : Cell → Prop} (remarked : Remarked written marked bus next)
    (writes : ∀ cell, written cell → written' cell) (marks : ∀ cell, marked cell → marked' cell) :
    Remarked written' marked' bus next := by
  refine ⟨remarked.windows, remarked.held, remarked.others, ?_⟩
  intro id memory found
  obtain ⟨contents, after, size, became⟩ := remarked.memories id memory found
  exact ⟨contents, after, size, fun i => (became i).mono (writes _) (marks _)⟩

theorem Remarked.window (remarked : Remarked written marked bus next) (address : UInt64) (n : Nat) :
    next.window? address n = bus.window? address n := by
  unfold window? find?
  rw [remarked.windows]

theorem Remarked.covers (remarked : Remarked written marked bus next) {area : Area} {cell : Cell}
    (covered : next.Covers area cell) : bus.Covers area cell := by
  obtain ⟨above, below, found, inside⟩ := covered
  rw [remarked.window] at found
  exact .reach above below found inside

end Remarks

theorem Disturbed.confined {region : Cell → Prop} {bus next : Bus} {window : Window} (disturbed : Disturbed bus window next) :
    Confined region bus next := by
  have same := disturbed.same
  obtain ⟨_, _, device, wires, _, rfl⟩ := disturbed
  refine ⟨rfl, rfl, Array.size_setIfInBounds, ?_, ?_⟩
  · intro id memory found
    exact ⟨memory, (same.memory id).trans found, rfl, fun _ _ => rfl⟩
  · intro id absent
    exact (same.memory id).trans absent

theorem unstored_confined (region : Cell → Prop) {address value : UInt64} {size : Nat} {fault : MemFault} {bus next : Bus}
    (failed : store address size value bus = .error fault next) : Confined region bus next := by
  rcases store_cases address size value bus with ⟨other, same⟩ | ⟨window, memory, inside⟩ | ⟨window, _, disturbed⟩
  · cases failed.symm.trans same
    exact .refl region bus
  · cases failed.symm.trans (store_in_memory value inside)
  · rw [failed] at disturbed
    exact disturbed.confined

-- The byte of memory that holds the flags of an entry.
def FlagsOf (bus : Bus) (entry : UInt64) (cell : Cell) : Prop :=
  entry.toNat % 8 = 0 ∧ ∃ window, bus.window? entry 8 = some window ∧ cell = (window.device, offset window entry)

theorem MarksEntry.remarked {entry : UInt64} {marks : PteFlags} {window : Window} {memory contents : Ram} {bus next : Bus}
    {region : Cell → Prop} (set : MarksEntry entry marks window memory contents bus next)
    (only : PteFlags.OnlyMarks marks) (confined : Confined region bus next) :
    Remarked (fun _ => False) (bus.FlagsOf entry) bus next := by
  refine ⟨confined.windows, confined.held, confined.others, ?_⟩
  intro id old found
  by_cases here : id = window.device
  · subst here
    have same : old = memory := Option.some_inj.mp (found.symm.trans set.inside.memory)
    subst same
    refine ⟨contents, set.changed, set.size, fun i => ?_⟩
    rw [set.bytes i]
    by_cases first : i = offset window entry
    · rw [if_pos first]
      exact .marked ⟨eq_of_beq set.inside.reached.fair, window, set.inside.reached.found, by rw [first]⟩ only
    · rw [if_neg first]
      exact .kept
  · exact ⟨old, (set.others id here).trans found, rfl, fun _ => .kept⟩

theorem MarksEntry.confined {entry : UInt64} {marks : PteFlags} {window : Window} {memory contents : Ram} {bus next : Bus}
    {region : Cell → Prop} (set : MarksEntry entry marks window memory contents bus next)
    (confined : Confined region bus next) : Confined (bus.FlagsOf entry) bus next := by
  refine ⟨confined.windows, confined.held, confined.known, ?_, confined.others⟩
  intro id old found
  by_cases here : id = window.device
  · subst here
    have same : old = memory := Option.some_inj.mp (found.symm.trans set.inside.memory)
    subst same
    refine ⟨contents, set.changed, set.size, ?_⟩
    intro i apart
    have elsewhere : i ≠ offset window entry := by
      rintro rfl
      exact apart ⟨eq_of_beq set.inside.reached.fair, window, set.inside.reached.found, rfl⟩
    rw [set.bytes i, if_neg elsewhere]
  · exact ⟨old, (set.others id here).trans found, rfl, fun _ _ => rfl⟩

end Bus

open Bus

namespace Sv39

theorem leads_confined {vaddr table entry : UInt64} {bus next : Bus} {level leafLevel : Nat} {leaf : Pte}
    (region : Cell → Prop) (leads : Leads vaddr bus level table next entry leaf leafLevel) : Confined region bus next := by
  induction leads with
  | leaf read fair last => exact loaded_confined region read
  | down read fair inner rest ih => exact (loaded_confined region read).trans ih

theorem Marking.change {kind : AccessKind} {entry : UInt64} {leaf : Pte} {before bus next : Bus}
    (marking : Marking kind entry leaf bus next) (read : Bus.load entry 3 before = .ok leaf.bits bus) :
    Confined (fun _ => False) bus next ∨
      ∃ region window memory contents, MarksEntry entry (PteFlags.marks kind) window memory contents bus next ∧
        Confined region bus next := by
  cases marking with
  | there present => exact .inl (.refl _ bus)
  | set absent stored =>
    rcases store_cases entry 3 (leaf.mark (PteFlags.marks kind)).bits bus with
      ⟨fault, failed⟩ | ⟨window, memory, inside⟩ | ⟨window, _, disturbed⟩
    · cases stored.symm.trans failed
    · obtain ⟨contents, set⟩ := store_marks inside (loaded_word read inside) stored
      exact .inr ⟨_, window, memory, contents, set, stored_confined stored (fun _ covered => covered)⟩
    · rw [stored] at disturbed
      exact .inl disturbed.confined

theorem Marking.remarked {kind : AccessKind} {entry : UInt64} {leaf : Pte} {before bus next : Bus}
    (marking : Marking kind entry leaf bus next) (read : Bus.load entry 3 before = .ok leaf.bits bus) :
    Remarked (fun _ => False) (bus.FlagsOf entry) bus next := by
  rcases marking.change read with same | ⟨region, window, memory, contents, set, confined⟩
  · exact same.remarked
  · exact set.remarked (PteFlags.onlyMarks_marks kind) confined

theorem Marking.confined {kind : AccessKind} {entry : UInt64} {leaf : Pte} {before bus next : Bus}
    (marking : Marking kind entry leaf bus next) (read : Bus.load entry 3 before = .ok leaf.bits bus) :
    Confined (bus.FlagsOf entry) bus next := by
  rcases marking.change read with same | ⟨region, window, memory, contents, set, confined⟩
  · exact same.mono (fun _ => False.elim)
  · exact set.confined confined

inductive Walks (root vaddr : UInt64) (kind : AccessKind) (bus : Bus) : Bus → Prop
  | cached : Walks root vaddr kind bus bus
  | walked {mid next : Bus} {entry : UInt64} {leaf : Pte} {level : Nat}
      (leads : Leads vaddr bus levels root mid entry leaf level) (marking : Marking kind entry leaf mid next) :
      Walks root vaddr kind bus next

def LeafFlags (bus : Bus) (root vaddr : UInt64) (cell : Cell) : Prop :=
  ∃ next entry leaf level, Leads vaddr bus levels root next entry leaf level ∧ bus.FlagsOf entry cell

theorem Walks.remarked {root vaddr : UInt64} {kind : AccessKind} {bus next : Bus} (walks : Walks root vaddr kind bus next) :
    Remarked (fun _ => False) (LeafFlags bus root vaddr) bus next := by
  cases walks with
  | cached => exact .refl _ _ bus
  | @walked mid next entry leaf level leads marking =>
    obtain ⟨before, read⟩ := leads_read leads
    have confined := leads_confined (fun _ => False) leads
    refine confined.remarked.trans ((marking.remarked read).mono (fun _ => id) ?_)
    rintro cell ⟨fair, window, found, rfl⟩
    exact ⟨mid, entry, leaf, level, leads, fair, window, (confined.window entry 8).symm.trans found, rfl⟩

-- The way of an address through the page table lies in memory.
def TableInMemory (bus : Bus) (vaddr : UInt64) : Nat → UInt64 → Prop
  | 0, _ => True
  | level + 1, table => ∃ pte : Pte, bus.Shows (entryAt vaddr level table) 3 pte.bits ∧
      (pte.isMalformed = false → pte.isLeaf = false → TableInMemory bus vaddr level pte.address)

end Sv39

namespace Bus

-- Every device answers in one window.
def OneWindowEach (bus : Bus) : Prop :=
  ∀ p ∈ bus.windows, ∀ q ∈ bus.windows, p.device = q.device → p = q

def MarksFlags (bus : Bus) (marked : Cell → Prop) : Prop :=
  ∀ cell, marked cell → ∃ entry, bus.FlagsOf entry cell

theorem wordAt_marked {block other : ByteArray} {offset : Nat} {pte : Pte} {marks : PteFlags}
    (word : Bytes.wordAt block offset 8 = pte.bits) (first : other.get! offset = block.get! offset ||| marks)
    (rest : ∀ k, 0 < k → k < 8 → other.get! (offset + k) = block.get! (offset + k)) :
    Bytes.wordAt other offset 8 = (pte.mark marks).bits := by
  apply word_eq_of_bits
  intro i inside
  have bit := Bytes.bit_wordAt block offset 8 i inside
  rw [word] at bit
  rw [Bytes.bit_wordAt other offset 8 i inside, Pte.mark, UInt64.toBitVec_or, BitVec.getLsbD_or, bit,
    UInt8.toBitVec_toUInt64, BitVec.getLsbD_setWidth]
  by_cases low : i < 8
  · have place : i / 8 = 0 := Nat.div_eq_of_lt low
    have same : i % 8 = i := Nat.mod_eq_of_lt low
    rw [place, same, Nat.add_zero, first, UInt8.toBitVec_or, BitVec.getLsbD_or]
    simp [inside]
  · rw [rest (i / 8) (by omega) (by omega), BitVec.getLsbD_of_ge marks.toBitVec i (by omega), Bool.and_false, Bool.or_false]

theorem Remarked.shows {marked : Cell → Prop} {bus next : Bus} {entry : UInt64} {pte : Pte}
    (remarked : Remarked (fun _ => False) marked bus next) (single : bus.OneWindowEach) (flags : bus.MarksFlags marked)
    (shows : bus.Shows entry 3 pte.bits) :
    ∃ marks, PteFlags.OnlyMarks marks ∧ next.Shows entry 3 (pte.mark marks).bits := by
  obtain ⟨window, memory, inside, word⟩ := shows
  obtain ⟨contents, found, size, became⟩ := remarked.memories _ _ inside.memory
  have reached : Reached next entry 3 window (.ram contents) := by
    refine ⟨inside.reached.small, inside.reached.fair, ?_, ?_, device_of_memory found⟩
    · rw [remarked.window]
      exact inside.reached.found
    · rw [remarked.held]
      exact inside.reached.free
  have fits : offset window entry + byteCount 3 ≤ contents.data.size := by
    rw [size]
    exact inside.fits
  have fair : entry.toNat % 8 = 0 := eq_of_beq inside.reached.fair
  have rest : ∀ k, 0 < k → k < 8 →
      contents.data.get! (offset window entry + k) = memory.data.get! (offset window entry + k) := by
    intro k above below
    obtain ⟨marks, _, set, none | here⟩ := (became (offset window entry + k)).unwritten
    · rw [set, none, UInt8.or_zero]
    · obtain ⟨other, fairOther, window', foundOther, same⟩ := flags _ here
      obtain ⟨device, place⟩ := Prod.mk.inj same
      have one := single _ (window_spec inside.reached.found).1 _ (window_spec foundOther).1 device
      subst one
      have placeHere := offset_address inside.reached.found
      have placeOther := offset_address foundOther
      omega
  obtain ⟨marks, only, set, _⟩ := (became (offset window entry)).unwritten
  exact ⟨marks, only, window, contents, ⟨reached, fits⟩, wordAt_marked word set rest⟩

end Bus

namespace Sv39

section Before

variable {marked : Cell → Prop} {start bus next : Bus} {root vaddr table entry : UInt64} {level leafLevel : Nat} {leaf : Pte}
  (remarked : Remarked (fun _ => False) marked start bus) (single : start.OneWindowEach) (flags : start.MarksFlags marked)

include remarked single flags

theorem leads_before (inMemory : TableInMemory start vaddr level table)
    (leads : Leads vaddr bus level table next entry leaf leafLevel) :
    ∃ pte, Leads vaddr start level table start entry pte leafLevel ∧ pte.address = leaf.address ∧
      PteFlags.rights pte.flags = PteFlags.rights leaf.flags := by
  induction level generalizing table with
  | zero => cases leads
  | succ level ih =>
    obtain ⟨pte, shows, rest⟩ := inMemory
    obtain ⟨marks, only, still⟩ := remarked.shows single flags shows
    have address := Pte.address_marked pte marks
    have malformed := Pte.isMalformed_marked pte only.rights
    have isLeaf := Pte.isLeaf_marked pte only.rights
    cases leads with
    | leaf read fair last =>
      injection still.load.symm.trans read with bits same
      obtain rfl := Pte.ext bits
      exact ⟨pte, .leaf shows.load (malformed.symm.trans fair) (isLeaf.symm.trans last), address.symm,
        (Pte.rights_marked pte only.rights).symm⟩
    | down read fair beyond below =>
      injection still.load.symm.trans read with bits same
      obtain rfl := Pte.ext bits
      subst same
      rw [malformed] at fair
      rw [isLeaf] at beyond
      rw [address] at below
      obtain ⟨last, leads, alike⟩ := ih (rest fair beyond) below
      exact ⟨last, .down shows.load fair beyond leads, alike⟩

theorem grants_before {mxr : Bool} {kind : AccessKind} {page : UInt64} (inMemory : TableInMemory start vaddr levels root)
    (grants : Grants bus root mxr vaddr kind page) : Grants start root mxr vaddr kind page := by
  cases grants with
  | @leaf entry leaf level maps user opens =>
    obtain ⟨next, leads⟩ := maps.leads
    obtain ⟨pte, before, address, rights⟩ := leads_before remarked single flags inMemory leads
    have page : (translationOf leaf vaddr level).page = (translationOf pte vaddr level).page := by
      rw [translationOf, translationOf, address]
    rw [page]
    refine .leaf ⟨maps.canonical, ⟨start, before⟩, ?_⟩ ?_ ?_
    · rw [address]
      exact maps.straight
    · rw [← pte.has_user, ← PteFlags.has_rights _ _ (by decide), rights, PteFlags.has_rights _ _ (by decide), leaf.has_user]
      exact user
    · rw [← pte.allows_opens, ← PteFlags.allows_rights, rights, PteFlags.allows_rights, leaf.allows_opens]
      exact opens

end Before

end Sv39

end RvBoard
