import RvBoard.Proofs.Even
import RvBoard.Proofs.Memory.Access
import RvBoard.Proofs.Memory.Layout
import RvBoard.Proofs.Memory.Transparency

/-!
# Fetches of parcels

What is cached of the page tables leads to the beginnings of pages, so that translation leaves the offset in a page alone,
and a parcel at an even address is at an even address in memory as well. No such fetch fails because it is misaligned.
-/

set_option autoImplicit false

namespace RvBoard

open Sv39 (walk translationOf)

namespace Sv39

def Refuses (access : AccessKind) (fault : MemFault) : Prop :=
  fault = access.pageFault ∨ fault = access.accessFault

theorem orAccessFault_fails {α : Type} (access : AccessKind) (operation : BusM α) :
    Fails (Refuses access) (orAccessFault access operation) := by
  intro bus fault final failed
  unfold orAccessFault at failed
  cases done : operation bus with
  | ok value next =>
    rw [done] at failed
    cases failed
  | error why next =>
    rw [done] at failed
    cases failed
    exact .inr rfl

theorem useLeaf_fails (pte : Pte) (entry vaddr : UInt64) (level : Nat) (access : AccessKind) (context : AccessContext) :
    Fails (Refuses access) (useLeaf pte entry vaddr level access context) := by
  have page : Fails (Refuses access) (throw access.pageFault : BusM Unit) := fails_throw (.inl rfl)
  unfold useLeaf
  refine fails_when page (fails_when page (fails_when (orAccessFault_fails access _) ?_))
  exact fails_pure _

theorem walkFrom_fails (vaddr : UInt64) (access : AccessKind) (context : AccessContext) (level : Nat) (table : UInt64) :
    Fails (Refuses access) (walkFrom vaddr access context level table) := by
  have page : Fails (Refuses access) (throw access.pageFault : BusM Unit) := fails_throw (.inl rfl)
  induction level generalizing table with
  | zero => exact fails_throw (.inl rfl)
  | succ level ih =>
    refine fails_bind (orAccessFault_fails access _) fun bits => fails_when page ?_
    exact fails_ite (useLeaf_fails ⟨bits⟩ _ vaddr level access context) (ih _)

theorem walk_fails (root vaddr : UInt64) (access : AccessKind) (context : AccessContext) :
    Fails (Refuses access) (walk root vaddr access context) := by
  have page : Fails (Refuses access) (throw access.pageFault : BusM Unit) := fails_throw (.inl rfl)
  unfold walk
  refine fails_when page ?_
  exact walkFrom_fails vaddr access context levels root

theorem walk_page_begins {root vaddr : UInt64} {access : AccessKind} {context : AccessContext} {bus next : Bus}
    {translation : Translation} (walked : walk root vaddr access context bus = .ok translation next) :
    translation.page &&& Pte.pageMask = 0 := by
  obtain ⟨_, mid, entry, leaf, level, _, _, rfl, _⟩ := walk_ok_iff.mp walked
  exact translationOf_low _ vaddr level

end Sv39

namespace Memory

-- What is cached leads to the beginnings of pages.
def Paged (memory : Memory) : Prop :=
  ∀ cached : TlbEntry, some cached ∈ memory.tlb.entries → cached.translation.page &&& Pte.pageMask = 0

theorem paged_empty (bus : Bus) (mode : PagingMode) (root : UInt64) : Paged ⟨bus, Tlb.empty, mode, root⟩ := by
  intro cached found
  cases (Vector.mem_replicate.mp found).2

theorem inPage_offset {page : UInt64} (begins : page &&& Pte.pageMask = 0) (vaddr : UInt64) :
    inPage page vaddr &&& Pte.pageMask = vaddr &&& Pte.pageMask := by
  unfold inPage
  rw [word_or_and, begins, UInt64.zero_or, UInt64.and_assoc, UInt64.and_self]

theorem translate_paged (vaddr : UInt64) (kind : AccessKind) (context : AccessContext) :
    Ensures Paged (fun paddr => paddr &&& Pte.pageMask = vaddr &&& Pte.pageMask) (translate vaddr kind context) := by
  intro memory paged
  unfold translate
  by_cases off : memory.mode = .bare ∨ context.privilege = .machine
  · rw [if_pos off]
    refine ⟨paged, fun paddr same => ?_⟩
    cases same
    rfl
  rw [if_neg off]
  cases hit : memory.tlb.hit? vaddr kind context with
  | some found =>
    obtain ⟨_, slot, cached, present, _, rfl⟩ := hit_cached hit
    refine ⟨paged, fun paddr same => ?_⟩
    cases same
    exact inPage_offset (paged cached (Vector.mem_of_getElem present)) vaddr
  | none =>
    obtain ⟨bus, tlb, mode, root⟩ := memory
    simp only [walkAndCache]
    cases walked : walk root vaddr kind context bus with
    | error fault next =>
      refine ⟨paged, fun paddr same => ?_⟩
      cases same
    | ok translation next =>
      have begins := Sv39.walk_page_begins walked
      refine ⟨?_, fun paddr same => ?_⟩
      · intro cached found
        rcases mem_insert found with kept | rfl
        · exact paged cached kept
        · exact begins
      · cases same
        exact inPage_offset begins vaddr

theorem translate_fails (vaddr : UInt64) (kind : AccessKind) (context : AccessContext) :
    Fails (Sv39.Refuses kind) (translate vaddr kind context) := by
  intro memory fault final failed
  unfold translate at failed
  by_cases off : memory.mode = .bare ∨ context.privilege = .machine
  · rw [if_pos off] at failed
    cases failed
  rw [if_neg off] at failed
  cases hit : memory.tlb.hit? vaddr kind context with
  | some found =>
    rw [hit] at failed
    cases failed
  | none =>
    rw [hit] at failed
    obtain ⟨bus, tlb, mode, root⟩ := memory
    simp only [walkAndCache] at failed
    cases walked : walk root vaddr kind context bus with
    | ok translation next =>
      rw [walked] at failed
      cases failed
    | error why next =>
      rw [walked] at failed
      cases failed
      exact Sv39.walk_fails root vaddr kind context bus _ next walked

-- What translation keeps, and what does not look at the bus, is kept by every access.
structure Apart (Holds : Memory → Prop) : Prop where
  translates : ∀ vaddr kind context, Keeps Holds (translate vaddr kind context)
  rewired : ∀ memory bus, Holds memory → Holds { memory with bus := bus }

theorem paged_apart : Apart Paged where
  translates vaddr kind context memory paged := (translate_paged vaddr kind context memory paged).1
  rewired _ _ paged := paged

section Accesses

variable {Holds : Memory → Prop} (apart : Apart Holds)

include apart

theorem onBus_apart {α : Type} (operation : BusM α) : Keeps Holds (onBus operation) := by
  intro memory start
  rw [onBus_left]
  exact apart.rewired memory _ start

theorem through_apart {α : Type} (vaddr : UInt64) (size : Nat) (kind : AccessKind) (misaligned : MemFault)
    (context : AccessContext) (operation : UInt64 → BusM α) :
    Keeps Holds (through vaddr size kind misaligned context operation) := by
  intro memory start
  have after := apart.translates vaddr kind context memory start
  unfold through
  cases aligned size vaddr with
  | false => exact start
  | true =>
    rw [if_pos rfl]
    cases translated : translate vaddr kind context memory with
    | error fault next =>
      rw [translated] at after
      exact after
    | ok paddr next =>
      rw [translated] at after
      exact onBus_apart apart (operation paddr) next after

theorem fetch_apart (vaddr : UInt64) (context : AccessContext) : Keeps Holds (fetch vaddr context) := by
  rw [fetch_through]
  exact through_apart apart vaddr 1 .fetch .loadMisaligned context _

theorem run_apart (access : DataAccess) (context : AccessContext) : Keeps Holds (access.run context) := by
  rw [access.run_through]
  exact through_apart apart _ _ _ _ context _

theorem readPages_apart (context : AccessContext) (out : ByteArray) (vaddr : UInt64) (n : Nat) :
    Keeps Holds (readPages context out vaddr n) := by
  induction n using Nat.strongRecOn generalizing out vaddr with
  | ind n ih =>
    unfold readPages
    by_cases nothing : n = 0
    · rw [if_pos nothing]
      exact keeps_pure out
    · rw [if_neg nothing]
      refine keeps_bind (apart.translates vaddr .load context) (fun paddr => ?_)
      refine keeps_bind (onBus_apart apart _) (fun bytes => ?_)
      have progress := inPageCount_pos vaddr n (by omega)
      exact ih (n - inPageCount vaddr n) (by omega) _ _

theorem writePages_apart (context : AccessContext) (bytes : ByteArray) (vaddr : UInt64) (start : Nat) :
    Keeps Holds (writePages context bytes vaddr start) := by
  induction room : bytes.size - start using Nat.strongRecOn generalizing vaddr start with
  | ind n ih =>
    unfold writePages
    by_cases done : bytes.size ≤ start
    · rw [if_pos done]
      exact keeps_pure ()
    · rw [if_neg done]
      refine keeps_bind (apart.translates vaddr .store context) (fun paddr => ?_)
      refine keeps_bind (onBus_apart apart _) (fun _ => ?_)
      have progress := inPageCount_pos vaddr (bytes.size - start) (by omega)
      exact ih (bytes.size - (start + inPageCount vaddr (bytes.size - start))) (by omega) _ _ rfl

end Accesses

end Memory

theorem Device.load_refused (device : Device) (wires : Wires) (offset : UInt64) (size : Nat) {fault : MemFault}
    (failed : (device.load wires offset size).1 = .error fault) : fault = .loadAccess := by
  have transports : ∀ {δ : Type} [Virtio.Backend δ] (transport : Virtio.Transport δ),
      transport.load offset size = .error fault → fault = .loadAccess := by
    intro δ _ transport failed
    unfold Virtio.Transport.load at failed
    split at failed
    · cases failed
    split at failed
    · split at failed <;> cases failed
    · cases failed
      rfl
  cases device with
  | ram memory =>
    change memory.load offset size = _ at failed
    unfold Ram.load at failed
    split at failed <;> cases failed
    rfl
  | bootRom rom =>
    change rom.load offset size = _ at failed
    unfold BootRom.load at failed
    split at failed <;> cases failed
    rfl
  | controller state =>
    change state.load offset size = _ at failed
    unfold SystemController.load at failed
    split at failed
    · cases failed
    · split at failed <;> cases failed
      rfl
  | clint =>
    change Clint.load wires offset size = _ at failed
    unfold Clint.load at failed
    split at failed
    · cases failed
      rfl
    · split at failed <;> cases failed
      rfl
  | plic =>
    change (wires.signals.load offset size).1 = _ at failed
    unfold Plic.Signals.load at failed
    split at failed <;> cases failed
    rfl
  | uart line port => cases failed
  | rtc line clock =>
    change (clock.load wires.wallTime offset size).1 = _ at failed
    unfold Rtc.load at failed
    split at failed
    · split at failed <;> cases failed
      rfl
    · cases failed
      rfl
  | block line transport => exact transports transport failed
  | share line transport => exact transports transport failed
  | echo line transport => exact transports transport failed

theorem Bus.load_fails {address : UInt64} {size : Nat} (small : size ≤ 3) (fair : aligned size address = true) :
    Fails (fun fault => fault = .loadAccess) (Bus.load address size) := by
  intro bus fault final failed
  unfold Bus.load at failed
  rw [refused_none small fair] at failed
  dsimp only at failed
  cases found : bus.window? address (byteCount size) with
  | none =>
    rw [found] at failed
    cases failed
    rfl
  | some window =>
    rw [found] at failed
    dsimp only at failed
    rcases withDevice_cases bus window.device .loadAccess
      (fun device wires => device.load wires (address - window.start) size) with unanswered | ⟨free, device, present⟩
    · cases unanswered.symm.trans failed
      rfl
    · rw [withDevice_run _ _ free present] at failed
      have refused : (device.load bus.wires (address - window.start) size).1 = .error fault → fault = .loadAccess :=
        device.load_refused _ _ _
      generalize device.load bus.wires (address - window.start) size = outcome at failed refused
      obtain ⟨result, after, wires⟩ := outcome
      cases result with
      | ok value => cases failed
      | error other =>
        cases failed
        exact refused rfl

namespace Memory

theorem fetch_fails {vaddr : UInt64} (even : IsEven vaddr) {context : AccessContext} {memory next : Memory}
    (paged : Paged memory) {fault : MemFault} (failed : fetch vaddr context memory = .error fault next) :
    fault = .loadPage ∨ fault = .loadAccess := by
  have fair : aligned 1 vaddr = true := (aligned_parcel vaddr).mpr even
  obtain ⟨_, offsets⟩ := translate_paged vaddr .fetch context memory paged
  rw [fetch_through] at failed
  unfold through at failed
  rw [if_pos fair] at failed
  cases translated : translate vaddr .fetch context memory with
  | error why mid =>
    rw [translated] at failed
    cases failed
    exact translate_fails vaddr .fetch context memory fault next translated
  | ok paddr mid =>
    rw [translated] at failed offsets
    dsimp only at failed
    have lands : aligned 1 paddr = true :=
      (aligned_parcel paddr).mpr ((isEven_congr (by decide) (offsets paddr rfl)).mpr even)
    have loads : Fails (fun fault => fault = .loadAccess) (do return UInt64.toUInt16 (← Bus.load paddr 1) : BusM UInt16) :=
      fails_bind (Bus.load_fails (by decide) lands) fun _ => fails_pure _
    cases done : (do return UInt64.toUInt16 (← Bus.load paddr 1) : BusM UInt16) mid.bus with
    | ok value bus => cases (onBus_ok done).symm.trans failed
    | error why bus =>
      cases (onBus_error done).symm.trans failed
      exact .inr (loads mid.bus fault bus done)

end Memory

end RvBoard
