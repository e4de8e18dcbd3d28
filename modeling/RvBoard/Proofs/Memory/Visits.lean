import RvBoard.Proofs.Memory.Remarks
import RvBoard.Proofs.Memory.Veils

/-!
# Visits to memory

What an instruction asks of memory is fetched, loaded or stored in a page. In user mode the page has
been granted for that, the bytes there and the entries on the way are all that the visit reads, and
the bytes there and the marks of the entry are all of memory that it changes.
-/

set_option autoImplicit false

namespace RvBoard

open Bus Sv39

-- What an instruction asks of memory: a parcel of code, or an access to data.
inductive Request where
  | parcel (vaddr : UInt64)
  | data (access : DataAccess)

namespace Request

def vaddr : Request → UInt64
  | parcel vaddr => vaddr
  | data access => access.vaddr

def size : Request → Nat
  | parcel _ => 1
  | data access => access.size

def kind : Request → AccessKind
  | parcel _ => .fetch
  | data access => access.kind

def misaligned : Request → MemFault
  | parcel _ => .loadMisaligned
  | data access => access.misaligned

def operation (request : Request) (paddr : UInt64) : BusM UInt64 :=
  match request with
  | parcel _ => Bus.load paddr 1
  | data access => access.operation paddr

def run (context : AccessContext) (request : Request) : MemoryM UInt64 :=
  Memory.through request.vaddr request.size request.kind request.misaligned context request.operation

end Request

-- A request that was carried out: the bus it found, the page it came to, and the bus on which the page
-- table granted that page.
structure Visit where
  request : Request
  before : Bus
  page : UInt64
  moment : Bus

namespace Visit

variable (root : UInt64) (mxr : Bool) (visit : Visit)

def paddr : UInt64 :=
  Memory.inPage visit.page visit.request.vaddr

def area : Area :=
  ⟨visit.paddr, byteCount visit.request.size⟩

-- The bytes that the visit may read: those that it came for, and the entries on the way there.
def Reads (cell : Cell) : Prop :=
  visit.before.Covers visit.area cell ∨
    ∃ entry, Passes visit.request.vaddr visit.before levels root entry ∧ visit.before.Covers ⟨entry, 8⟩ cell

def Writes (cell : Cell) : Prop :=
  visit.request.kind = .store ∧ visit.before.Covers visit.area cell

-- The byte that the visit may mark: the flags of the leaf to which the walk of its address leads.
def Marks (cell : Cell) : Prop :=
  LeafFlags visit.before root visit.request.vaddr cell

-- The visit goes to the bytes that it came for, which lie in a page that was granted at one of some
-- moments, and leaves a bus.
structure Happens (moments : List Bus) (after : Bus) : Prop where
  earlier : visit.moment ∈ visit.before :: moments
  granted : Grants visit.moment root mxr visit.request.vaddr visit.request.kind visit.page
  whole : visit.page.toNat % 4096 = 0
  inside : visit.page.toNat ≤ visit.area.start.toNat ∧ visit.area.start.toNat + visit.area.size ≤ visit.page.toNat + 4096
  works : ∃ walked value, Walks root visit.request.vaddr visit.request.kind visit.before walked ∧
    visit.request.operation visit.paddr walked = .ok value after

end Visit

inductive Visited (root : UInt64) (mxr : Bool) : List Bus → Bus → List Visit → Bus → Prop
  | none {moments : List Bus} {bus : Bus} : Visited root mxr moments bus [] bus
  | visit {moments : List Bus} {visit : Visit} {after final : Bus} {visits : List Visit}
      (happens : visit.Happens root mxr moments after)
      (rest : Visited root mxr (visit.before :: moments) after visits final) :
      Visited root mxr moments visit.before (visit :: visits) final

section Visiting

variable {root : UInt64} {mxr : Bool} {moments : List Bus} {bus mid final : Bus} {visits more : List Visit}

theorem Visited.append (first : Visited root mxr moments bus visits mid)
    (second : Visited root mxr ((visits.map Visit.before).reverse ++ moments) mid more final) :
    Visited root mxr moments bus (visits ++ more) final := by
  induction first with
  | none => exact second
  | visit happens rest ih =>
    refine .visit happens (ih ?_)
    rw [List.map_cons, List.reverse_cons, List.append_assoc] at second
    exact second

end Visiting

namespace Request

theorem run_parcel (vaddr : UInt64) (context : AccessContext) :
    Memory.fetch vaddr context = (parcel vaddr).run context >>= fun word => pure word.toUInt16 := by
  rw [Memory.fetch_through]
  exact (Memory.through_map vaddr 1 .fetch .loadMisaligned context (fun paddr => Bus.load paddr 1) UInt64.toUInt16).symm

theorem run_data (access : DataAccess) (context : AccessContext) : (data access).run context = access.run context :=
  (access.run_through context).symm

variable {request : Request} {context : AccessContext} {memory next : Memory} {value paddr : UInt64} {bus after : Bus}

theorem run_ok_iff : request.run context memory = .ok value next ↔
    aligned request.size request.vaddr = true ∧ ∃ paddr mid,
      Memory.translate request.vaddr request.kind context memory = .ok paddr mid ∧
      request.operation paddr mid.bus = .ok value next.bus ∧ next = { mid with bus := next.bus } := by
  unfold run Memory.through
  cases fair : aligned request.size request.vaddr with
  | false => simp
  | true =>
    rw [if_pos rfl]
    constructor
    · intro done
      refine ⟨rfl, ?_⟩
      cases translated : Memory.translate request.vaddr request.kind context memory with
      | error fault mid =>
        rw [translated] at done
        cases done
      | ok paddr mid =>
        rw [translated] at done
        cases worked : request.operation paddr mid.bus with
        | error fault bus => cases (Memory.onBus_error worked).symm.trans done
        | ok other bus =>
          cases (Memory.onBus_ok worked).symm.trans done
          exact ⟨paddr, mid, rfl, worked, rfl⟩
    · rintro ⟨_, paddr, mid, translated, worked, same⟩
      rw [translated, same]
      exact Memory.onBus_ok worked

inductive Operates (request : Request) (paddr : UInt64) (bus : Bus) : Bus → Prop
  | loaded {after : Bus} {word : UInt64} (read : Bus.load paddr request.size bus = .ok word after) :
      Operates request paddr bus after
  | stored {mid after : Bus} {word : UInt64} (kind : request.kind = .store)
      (before : mid = bus ∨ ∃ old, Bus.load paddr request.size bus = .ok old mid)
      (written : Bus.store paddr request.size word mid = .ok () after) : Operates request paddr bus after

theorem operates (done : request.operation paddr bus = .ok value after) : Operates request paddr bus after := by
  cases request with
  | parcel vaddr => exact .loaded done
  | data access =>
    cases access with
    | load vaddr size =>
      obtain ⟨word, mid, read, same⟩ := bind_ok.mp done
      cases same
      exact .loaded read
    | store vaddr size word =>
      obtain ⟨_, mid, written, same⟩ := bind_ok.mp done
      cases same
      exact .stored rfl (.inl rfl) written
    | update vaddr size change =>
      obtain ⟨old, mid, read, rest⟩ := bind_ok.mp done
      obtain ⟨_, last, written, same⟩ := bind_ok.mp rest
      cases same
      exact .stored rfl (.inr ⟨old, Memory.loadForStore_ok_iff.mp read⟩) written

theorem Operates.small (operates : Operates request paddr bus after) : request.size ≤ 3 := by
  cases operates with
  | loaded read =>
    rcases load_reaches paddr request.size bus with ⟨fault, failed⟩ | ⟨window, device, reached⟩
    · cases failed.symm.trans read
    · exact reached.small
  | @stored mid _ word kind before written =>
    rcases store_reaches paddr request.size word mid with ⟨fault, failed⟩ | ⟨window, device, reached⟩
    · cases failed.symm.trans written
    · exact reached.small

theorem Operates.confined (operates : Operates request paddr bus after) :
    Confined (fun cell => request.kind = .store ∧ bus.Covers ⟨paddr, byteCount request.size⟩ cell) bus after := by
  cases operates with
  | loaded read => exact loaded_confined _ read
  | @stored mid _ word kind before written =>
    have first : Confined (bus.Covers ⟨paddr, byteCount request.size⟩) bus mid := by
      rcases before with rfl | ⟨old, read⟩
      · exact .refl _ _
      · exact loaded_confined _ read
    have second := stored_confined written (fun _ covered => first.covers covered)
    exact (first.trans second).mono (fun _ covered => ⟨kind, covered⟩)

theorem operation_veiled {hidden : Cell → Prop} {other : Bus} (done : request.operation paddr bus = .ok value after)
    (veiled : Veiled hidden bus other) (shown : bus.Shown hidden ⟨paddr, byteCount request.size⟩) :
    ∃ last, request.operation paddr other = .ok value last ∧ Veiled hidden after last := by
  cases request with
  | parcel vaddr => exact veiled.load shown done
  | data access => exact DataAccess.operation_veiled done veiled shown

end Request

section Visiting

variable {root : UInt64} {mxr : Bool} {moments : List Bus} {start bus after final : Bus} {visit : Visit} {visits : List Visit}

theorem Visit.Happens.remarked (happens : visit.Happens root mxr moments after) :
    Remarked visit.Writes (visit.Marks root) visit.before after := by
  obtain ⟨walked, value, walks, done⟩ := happens.works
  have marked : Remarked visit.Writes (visit.Marks root) visit.before walked :=
    walks.remarked.mono (fun _ never => never.elim) (fun _ => id)
  have written : Remarked (fun cell => visit.request.kind = .store ∧ walked.Covers visit.area cell) (visit.Marks root)
      walked after :=
    (Request.operates done).confined.remarked
  refine marked.trans (written.mono ?_ (fun _ => id))
  rintro cell ⟨kind, covered⟩
  exact ⟨kind, marked.covers covered⟩

theorem Visited.remarked (visited : Visited root mxr moments bus visits final) :
    Remarked (fun cell => ∃ visit ∈ visits, visit.Writes cell) (fun cell => ∃ visit ∈ visits, visit.Marks root cell)
      bus final := by
  induction visited with
  | none => exact .refl _ _ _
  | visit happens rest ih =>
    refine (happens.remarked.mono ?_ ?_).trans (ih.mono ?_ ?_)
    · exact fun cell here => ⟨_, List.mem_cons_self, here⟩
    · exact fun cell here => ⟨_, List.mem_cons_self, here⟩
    · exact fun cell ⟨later, member, here⟩ => ⟨later, List.mem_cons_of_mem _ member, here⟩
    · exact fun cell ⟨later, member, here⟩ => ⟨later, List.mem_cons_of_mem _ member, here⟩

def MarkedSince (start bus : Bus) : Prop :=
  Remarked (fun _ => False) (fun cell => ∃ entry, start.FlagsOf entry cell) start bus

theorem Visit.Happens.markedSince (happens : visit.Happens root mxr moments after) (quiet : visit.request.kind ≠ .store)
    (since : MarkedSince start visit.before) : MarkedSince start after := by
  refine since.trans (happens.remarked.mono (fun _ writes => quiet writes.1) ?_)
  rintro cell ⟨_, entry, _, _, _, fair, window, found, rfl⟩
  exact ⟨entry, fair, window, (since.window entry 8).symm.trans found, rfl⟩

theorem Visited.grantedAt (visited : Visited root mxr moments bus visits final)
    (quiet : ∀ visit ∈ visits.dropLast, visit.request.kind ≠ .store) (since : MarkedSince start bus)
    (earlier : ∀ moment ∈ moments, MarkedSince start moment) :
    ∀ visit ∈ visits, MarkedSince start visit.moment ∧
      Grants visit.moment root mxr visit.request.vaddr visit.request.kind visit.page := by
  induction visited with
  | none =>
    intro visit member
    cases member
  | @visit moments visit after final visits happens rest ih =>
    have known : ∀ moment ∈ visit.before :: moments, MarkedSince start moment := by
      intro moment member
      rcases List.mem_cons.mp member with rfl | old
      · exact since
      · exact earlier moment old
    intro other member
    rcases List.mem_cons.mp member with rfl | later
    · exact ⟨known _ happens.earlier, happens.granted⟩
    · have some : visits ≠ [] := List.ne_nil_of_mem later
      rw [List.dropLast_cons_of_ne_nil some] at quiet
      have next := happens.markedSince (quiet visit List.mem_cons_self) since
      exact ih (fun visit member => quiet visit (List.mem_cons_of_mem _ member)) next known other later

theorem Visited.granted (visited : Visited root mxr [] start visits final)
    (quiet : ∀ visit ∈ visits.dropLast, visit.request.kind ≠ .store) (single : start.OneWindowEach) :
    ∀ visit ∈ visits, TableInMemory start visit.request.vaddr levels root →
      Grants start root mxr visit.request.vaddr visit.request.kind visit.page := by
  intro visit member inMemory
  obtain ⟨since, granted⟩ :=
    visited.grantedAt quiet (.refl _ _ start) (fun _ never => absurd never List.not_mem_nil) visit member
  exact grants_before since single (fun _ flags => flags) inMemory granted

end Visiting

namespace Memory

theorem Translates.walks {vaddr paddr : UInt64} {kind : AccessKind} {context : AccessContext} {memory next : Memory}
    (translates : Translates vaddr kind context memory paddr next) :
    Walks memory.root vaddr kind memory.bus next.bus ∧ SamePaging memory next := by
  cases translates with
  | cached hit => exact ⟨.cached, rfl, rfl⟩
  | walked missed done =>
    obtain ⟨_, mid, entry, leaf, level, leads, _, _, marking⟩ := walk_ok_iff.mp done
    exact ⟨.walked leads marking, rfl, rfl⟩

structure Passed (root : UInt64) (mxr : Bool) (moments : List Bus) (memory : Memory) (visits : List Visit) (next : Memory)
    (again : Memory → Memory → Prop) : Prop where
  visited : Visited root mxr moments memory.bus visits next.bus
  paging : SamePaging memory next
  vouched : Vouched (next.bus :: (visits.map Visit.before).reverse ++ moments) next
  conceals : ∀ (hidden : Cell → Prop) (other : Bus), Veiled hidden memory.bus other →
    (∀ visit ∈ visits, ∀ cell, visit.Reads root cell → ¬ hidden cell) →
    ∃ after, again { memory with bus := other } { next with bus := after } ∧ Veiled hidden next.bus after

end Memory

namespace Request

variable {request : Request} {context : AccessContext} {memory next : Memory} {value : UInt64}

theorem run_passed (paged : memory.mode = .sv39) (user : context.privilege = .user) {moments : List Bus}
    (vouched : Memory.Vouched (memory.bus :: moments) memory) (done : request.run context memory = .ok value next) :
    ∃ visit : Visit, visit.request = request ∧
      Memory.Passed memory.root context.mxr moments memory [visit] next
        (fun before after => request.run context before = .ok value after) := by
  obtain ⟨fair, paddr, mid, translated, worked, same⟩ := run_ok_iff.mp done
  have translates := (Memory.translate_ok_iff paged user).mp translated
  obtain ⟨walks, paging⟩ := translates.walks
  obtain ⟨page, rfl, ⟨moment, member, granted⟩, after⟩ :=
    Memory.translate_granted paged user vouched List.mem_cons_self translated
  let visit : Visit := ⟨request, memory.bus, page, moment⟩
  have inside := Memory.inPage_inside granted.start (operates worked).small fair
  have happens : visit.Happens memory.root context.mxr moments next.bus :=
    ⟨member, granted, granted.start, inside, mid.bus, value, walks, worked⟩
  refine ⟨visit, rfl, .visit happens .none, ?_, ?_, ?_⟩
  · exact ⟨(congrArg Memory.mode same).trans paging.mode, (congrArg Memory.root same).trans paging.root⟩
  · intro cached found vaddr here
    rw [same] at found ⊢
    obtain ⟨moment, among, gives⟩ := after cached found vaddr here
    exact ⟨moment, List.mem_cons_of_mem _ among, gives⟩
  · intro hidden other veiled shown
    have reads := shown visit List.mem_cons_self
    obtain ⟨walked, alike, kept⟩ := translates.veiled veiled
      (fun entry passes cell covered => reads cell (.inr ⟨entry, passes, covered⟩))
    have area : mid.bus.Shown hidden visit.area := fun cell covered => reads cell (.inl (walks.remarked.covers covered))
    obtain ⟨last, again, final⟩ := operation_veiled worked kept area
    have pagedOther : ({ memory with bus := other } : Memory).mode = .sv39 := paged
    have translatesAgain : Memory.translate request.vaddr request.kind context { memory with bus := other } =
        .ok visit.paddr { mid with bus := walked } := (Memory.translate_ok_iff pagedOther user).mpr alike
    refine ⟨last, run_ok_iff.mpr ⟨fair, _, _, translatesAgain, again, ?_⟩, final⟩
    rw [same]

end Request

namespace Memory

section Passages

variable {root : UInt64} {mxr : Bool} {moments : List Bus} {memory mid next : Memory} {again rest : Memory → Memory → Prop}
  {visits more : List Visit}

theorem Passed.none (vouched : Vouched (memory.bus :: moments) memory)
    (alike : ∀ other : Bus, other.wires = memory.bus.wires → again { memory with bus := other } { memory with bus := other }) :
    Passed root mxr moments memory [] memory again :=
  ⟨.none, .refl memory, vouched, fun _ other veiled _ => ⟨other, alike other veiled.wires, veiled⟩⟩

theorem Passed.imp {again' : Memory → Memory → Prop} (passed : Passed root mxr moments memory visits next again)
    (weaker : ∀ before after, again before after → again' before after) :
    Passed root mxr moments memory visits next again' := by
  refine ⟨passed.visited, passed.paging, passed.vouched, ?_⟩
  intro hidden other veiled shown
  obtain ⟨after, alike, kept⟩ := passed.conceals hidden other veiled shown
  exact ⟨after, weaker _ _ alike, kept⟩

theorem Passed.trans (first : Passed root mxr moments memory visits mid again)
    (second : Passed root mxr ((visits.map Visit.before).reverse ++ moments) mid more next rest) :
    Passed root mxr moments memory (visits ++ more) next (fun a c => ∃ b, again a b ∧ rest b c) := by
  refine ⟨first.visited.append second.visited, first.paging.trans second.paging, ?_, ?_⟩
  · rw [List.map_append, List.reverse_append, List.cons_append, List.append_assoc]
    exact second.vouched
  · intro hidden other veiled shown
    obtain ⟨between, alike, kept⟩ := first.conceals hidden other veiled
      (fun visit member => shown visit (List.mem_append_left more member))
    obtain ⟨after, alike', kept'⟩ := second.conceals hidden between kept
      (fun visit member => shown visit (List.mem_append_right visits member))
    exact ⟨after, ⟨_, alike, alike'⟩, kept'⟩

end Passages

end Memory

end RvBoard
